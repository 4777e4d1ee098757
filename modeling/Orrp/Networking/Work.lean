import Orrp.Engine.Api
import Mathlib.Data.List.Perm.Basic
import Mathlib.Data.List.Forall2

/-!
# A command's way through the server (`_work_cb`, `_after_work_cb`)

`process_one_command` queues each command a client sends for libuv's thread pool.  There
`_work_cb` tokenizes it, parses it, hands it to `api_exec` and serializes the response, and a stage
that fails answers with an error of its own: `Unrecognized character or invalid command`, `Syntax
error`, the engine's message.  `_after_work_cb` sends the response on the loop thread, or the plain
text of `INTERNAL_SERVER_ERROR_MSG` when there is none.  The works of a client run on the pool's
threads side by side, so its responses go back in the order the works complete, which need not be
the order the commands came in; nothing in a response says which command it answers.

* `workCb_reply` — over a sound engine, every command either faults or is answered with bytes that
  decode to exactly one reply of the protocol: the plain-text error is never sent, and no array is
  cut short;
* `workCb_query` — a `QUERY` text that tokenizes, parses and validates is answered with the maps of
  the records `events_db` holds for its page, in increasing order of id, and its cursor;
* `conn_replies` — whatever order the works complete in and whatever the engine does between them,
  the bytes a client has been sent are one reply after another, each answering a different one of
  its commands, and the commands answered and still pending are the commands it sent.
-/

namespace Orrp.Networking

open Orrp.Lib Orrp.Lib.Msgpack Orrp.Query Orrp.Engine
open scoped List

/-- `INTERNAL_SERVER_ERROR_MSG`. -/
def internalServerErrorMsg : String := "[E0] Error: Internal server error\n"

/-- The C string `tok_tokenize` reads a command as: each byte one character. -/
def commandText (command : List UInt8) : String :=
  String.ofList (command.map fun b => Char.ofNat b.toNat)

/-- `_encode_err`: the response `serializer_encode_err` leaves in `sr`, `NULL` when it failed. -/
def encodeErr (sr : SerializerResult) (errMsg : String) : Option (List UInt8) :=
  (serializerEncodeErr (utf8Bytes errMsg) sr).response

/-- The end of `_work_cb` once `api_exec` has filled a response: the error's, `Execution failed`
without a message; the serializer's; or the internal error's when the serializer fails. -/
def workResponse (r : ApiResponse) : Option (List UInt8) :=
  let sr : SerializerResult := ⟨false, none, none⟩
  if !r.isOk then encodeErr sr (r.errMsg.getD "Execution failed")
  else
    let sr' := serializerEncodeApiResp (some r) sr
    if sr'.success then sr'.response else encodeErr sr' internalServerErrorMsg

/-- `_work_cb`: the command tokenized, parsed and executed, and the response it leaves in the work
context (`NULL` when even the error could not be encoded), with the engine after it; `none` where
the engine faults. -/
def workCb (e : ApiEngine) (command : List UInt8) (arrivalTs : ℤ) :
    Option (Option (List UInt8) × ApiEngine) :=
  let sr : SerializerResult := ⟨false, none, none⟩
  match tokTokenize (commandText command) with
  | none => some (encodeErr sr "Unrecognized character or invalid command", e)
  | some toks =>
    match parse (some toks) with
    | .error _ => some (encodeErr sr "Syntax error", e)
    | .ok cmd => (apiExec e cmd arrivalTs).map fun (r, e') => (workResponse r, e')

/-- `_after_work_cb` for a work that ran: its response, or `INTERNAL_SERVER_ERROR_MSG` as plain
text when there is none. -/
def afterWorkCb (response : Option (List UInt8)) : List UInt8 :=
  response.getD (utf8Bytes internalServerErrorMsg)

/-! ## One command -/

section Work

variable {e : ApiEngine}

theorem encodeErr_reply {m : String} (hm : CstrText m) (sr : SerializerResult) :
    ∃ bs, encodeErr sr m = some bs ∧ Decodes bs [(Reply.err m).toMp] := by
  obtain ⟨bs, hbs, hdec⟩ := serializerEncodeErr_reply hm.1 hm.2 sr
  exact ⟨bs, by rw [encodeErr, hbs], hdec⟩

theorem workResponse_reply {r : ApiResponse} {rep : Reply} (h : r.Means rep) (hs : rep.Sendable) :
    ∃ bs, workResponse r = some bs ∧ Decodes bs [rep.toMp] := by
  rcases r with ⟨payload, isOk, errMsg⟩
  cases rep with
  | err msg =>
    obtain ⟨hok, hmsg⟩ := h
    dsimp only at hok hmsg
    subst hok hmsg
    exact encodeErr_reply hs _
  | ack =>
    obtain ⟨hok, hpay⟩ := h
    dsimp only at hok hpay
    subst hok hpay
    obtain ⟨bs, hbs, hdec⟩ := serializerEncodeApiResp_ack errMsg ⟨false, none, none⟩
    exact ⟨bs, by simp only [workResponse, hbs, Bool.not_true, Bool.false_eq_true, if_false, if_true], hdec⟩
  | events objects nextCursor =>
    obtain ⟨hok, list, hpay, hcur, hobj⟩ := h
    dsimp only at hok hpay
    subst hok hpay hcur
    obtain ⟨bs, hbs, hdec⟩ := serializerEncodeApiResp_listObj hobj errMsg ⟨false, none, none⟩
    exact ⟨bs, by simp only [workResponse, hbs, Bool.not_true, Bool.false_eq_true, if_false, if_true], hdec⟩

theorem workCb_answer (hs : e.Sound) (command : List UInt8) (arrivalTs : ℤ) :
    workCb e command arrivalTs = none ∨
      ∃ bs e', ∃ rep : Reply, workCb e command arrivalTs = some (some bs, e') ∧ e'.Sound ∧
        Decodes bs [rep.toMp] := by
  unfold workCb
  split
  · -- the tokenizer refuses the text
    obtain ⟨bs, hbs, hdec⟩ := encodeErr_reply (m := "Unrecognized character or invalid command")
      (by decide) ⟨false, none, none⟩
    exact .inr ⟨bs, e, _, by dsimp only; rw [hbs], hs, hdec⟩
  · split
    · -- the parser refuses the tokens
      obtain ⟨bs, hbs, hdec⟩ := encodeErr_reply (m := "Syntax error") (by decide) ⟨false, none, none⟩
      exact .inr ⟨bs, e, _, by dsimp only; rw [hbs], hs, hdec⟩
    · rename_i cmd _
      rcases hexec : apiExec e cmd arrivalTs with _ | ⟨r, e'⟩
      · exact .inl rfl
      · obtain ⟨rep, hm, hsend⟩ := apiExec_means hs hexec
        obtain ⟨bs, hbs, hdec⟩ := workResponse_reply hm hsend
        exact .inr ⟨bs, e', rep, by rw [Option.map_some]; dsimp only; rw [hbs], apiExec_sound hs hexec, hdec⟩

/-- A record of container `c`, and an engine that stores it under id `1` and opens `c` over
`sampleSnapshot`, in which the tag `a:x` holds the ids `1` and `2`. -/
def sampleRecord : EventRecord := ⟨1, "c", .str "u", 1700000000000, [("a", some (.str "x"))]⟩

/-- The engine of `sampleRecord`. -/
def sampleApiEngine : ApiEngine where
  cfg := sampleSysCfg
  sys := { System.init with eng := { freshState with
    lmdb := fun k => if k = eventDbKey "c" 1 then some (.event sampleRecord) else none } }
  registry := defaultRegistry
  lmdbBytes k := if k = eventDbKey "c" 1 then sampleRecord.mpackBytes else none
  openUser name := if name = "c" then .ok sampleSnapshot else .error "Container does not exist"

theorem sampleApiEngine_sound : sampleApiEngine.Sound := by
  have hw : sampleRecord.Writable := by
    refine ⟨by decide, by decide, show CstrText "u" by decide, by decide, fun kv hkv => ?_, by decide⟩
    simp only [sampleRecord, List.mem_singleton] at hkv
    subst hkv
    exact ⟨by decide, fun l hl => by cases hl; exact show CstrText "x" by decide⟩
  refine ⟨fun k => ?_, fun c id v hv => ?_, fun name msg h => ?_⟩
  · by_cases hk : k = eventDbKey "c" 1 <;> simp [sampleApiEngine, hk]
  · by_cases hk : eventDbKey c id = eventDbKey "c" 1
    · simp only [sampleApiEngine, hk, if_true, Option.some.injEq] at hv
      exact ⟨_, hv.symm, hw⟩
    · simp [sampleApiEngine, hk] at hv
  · simp only [sampleApiEngine] at h
    split at h
    · cases h
    · cases h
      decide

/-- **A query's answer.**  A `QUERY` text that tokenizes, parses and validates is answered, over a
sound engine and leaving it as it was, with exactly the document of its reply: the container's or
the query's error, or the maps of the records `events_db` holds for the page it selects, in
increasing order of id, and the page's cursor. -/
theorem workCb_query (hs : e.Sound) {command : List UInt8} {toks : List Token} {cmd : Command}
    (htok : tokTokenize (commandText command) = some toks) (hparse : parse (some toks) = .ok cmd)
    (hvalid : validatorAnalyze cmd = .valid) (hty : cmd.type = .query) (arrivalTs : ℤ) :
    ∃ bs, ∃ rep : Reply, workCb e command arrivalTs = some (some bs, e) ∧ queryReply e cmd = some rep ∧
      Decodes bs [rep.toMp] := by
  obtain ⟨name, hname⟩ := inName?_of_valid hvalid (by rw [hty]; decide) (-1)
  obtain ⟨r, hresp⟩ : ∃ r, engQueryResp e cmd = some r := ⟨_, by rw [engQueryResp, hname, Option.map_some]⟩
  obtain ⟨rep, hrep, hm⟩ := engQueryResp_reply hs hresp
  obtain ⟨bs, hbs, hdec⟩ := workResponse_reply hm (queryReply_sendable hs hrep)
  have hexec : apiExec e cmd arrivalTs = some (r, e) := by
    rw [apiExec, hvalid]
    dsimp only
    rw [hty]
    dsimp only
    rw [hresp, Option.map_some]
  refine ⟨bs, rep, ?_, hrep, hdec⟩
  rw [workCb]
  dsimp only
  rw [htok]
  dsimp only
  rw [hparse]
  dsimp only
  rw [hexec, Option.map_some]
  dsimp only
  rw [hbs]


theorem workCb_query_sample :
    tokTokenize (commandText (utf8Bytes "QUERY in:c where:(a:x)")) =
      some [.cmdQuery, .kwIn, .symColon, .identifier "c", .kwWhere, .symColon, .symLparen, .identifier "a",
        .symColon, .identifier "x", .symRparen] ∧
    Query.parse (some [.cmdQuery, .kwIn, .symColon, .identifier "c", .kwWhere, .symColon, .symLparen, .identifier "a",
        .symColon, .identifier "x", .symRparen]) =
      .ok ⟨.query, [⟨.reserved .kwIn, .literal (.str "c")⟩, ⟨.reserved .kwWhere, .strTag "a" "x"⟩]⟩ ∧
    validatorAnalyze ⟨.query, [⟨.reserved .kwIn, .literal (.str "c")⟩, ⟨.reserved .kwWhere, .strTag "a" "x"⟩]⟩ =
      .valid ∧
    ∃ bs, ∃ rep : Reply, workCb sampleApiEngine (utf8Bytes "QUERY in:c where:(a:x)") 0 =
        some (some bs, sampleApiEngine) ∧
      queryReply sampleApiEngine ⟨.query, [⟨.reserved .kwIn, .literal (.str "c")⟩,
        ⟨.reserved .kwWhere, .strTag "a" "x"⟩]⟩ = some rep ∧ Decodes bs [rep.toMp] :=
  ⟨by decide +kernel, by decide +kernel, by decide,
    @workCb_query sampleApiEngine sampleApiEngine_sound (utf8Bytes "QUERY in:c where:(a:x)") [.cmdQuery, .kwIn, .symColon, .identifier "c", .kwWhere, .symColon, .symLparen, .identifier "a",
      .symColon, .identifier "x", .symRparen]
      ⟨.query, [⟨.reserved .kwIn, .literal (.str "c")⟩, ⟨.reserved .kwWhere, .strTag "a" "x"⟩]⟩
      (by decide +kernel) (by decide +kernel) (by decide) rfl 0⟩

end Work

/-! ## A connection

The works a client's commands queue run on the thread pool in any order, each over the engine as it
is when the work runs: other clients' commands and the engine's own threads change it in between.
A connection is the commands queued and not yet answered, and the bytes sent back so far. -/

/-- A command as `process_one_command` queues it: its bytes and its arrival time. -/
abbrev Work := List UInt8 × ℤ

/-- A client's connection: the works queued and not yet completed, and the bytes sent on it. -/
structure Conn where
  pending : List Work
  sent : List UInt8

/-- A connection as `on_new_connection` opens it. -/
def Conn.init : Conn := ⟨[], []⟩

/-- What happens on a connection. -/
inductive ConnEvent
  /-- `process_one_command` queues a command. -/
  | queue (w : Work)
  /-- The `i`-th pending work runs on the pool over the engine `e`, and `_after_work_cb` sends its
  response. -/
  | complete (i : ℕ) (e : ApiEngine)

/-- One event; `none` for a work that faults, or that is not pending. -/
def Conn.step (c : Conn) : ConnEvent → Option Conn
  | .queue w => some { c with pending := c.pending ++ [w] }
  | .complete i e =>
    match c.pending[i]? with
    | none => none
    | some w =>
      (workCb e w.1 w.2).map fun r => ⟨c.pending.eraseIdx i, c.sent ++ afterWorkCb r.1⟩

/-- A run: the events in order. -/
def Conn.run (c : Conn) : List ConnEvent → Option Conn
  | [] => some c
  | ev :: evs => (c.step ev).bind fun c' => c'.run evs

/-- The command an event queues. -/
def ConnEvent.queued : ConnEvent → List Work
  | .queue w => [w]
  | .complete _ _ => []

/-- The engine a completing work sees is sound. -/
def ConnEvent.Sound : ConnEvent → Prop
  | .queue _ => True
  | .complete _ e => e.Sound

/-- A reply `_work_cb` answers a work with, over some sound engine. -/
def Answers (w : Work) (rep : Reply) : Prop :=
  ∃ e, e.Sound ∧ ∃ bs e', workCb e w.1 w.2 = some (some bs, e') ∧ Decodes bs [rep.toMp]

/-- What a connection has been sent, for the commands `queued`: some of them answered, each with one
reply, the replies sent one after another, and the others pending. -/
def Conn.Answered (c : Conn) (queued : List Work) : Prop :=
  ∃ done reps, c.pending ++ done ~ queued ∧ List.Forall₂ Answers done reps ∧
    Decodes c.sent (reps.map Reply.toMp)

section Conn

variable {c c' : Conn} {queued : List Work}

theorem Conn.answered_init : Conn.init.Answered [] := ⟨[], [], .nil, .nil, decodes_nil⟩

theorem Conn.Answered.queue (h : c.Answered queued) (w : Work) :
    ({ c with pending := c.pending ++ [w] } : Conn).Answered (queued ++ [w]) := by
  obtain ⟨done, reps, hperm, hans, hdec⟩ := h
  refine ⟨done, reps, ?_, hans, hdec⟩
  calc c.pending ++ [w] ++ done
      = c.pending ++ ([w] ++ done) := List.append_assoc _ _ _
    _ ~ c.pending ++ (done ++ [w]) := List.Perm.append_left _ List.perm_append_comm
    _ = c.pending ++ done ++ [w] := (List.append_assoc _ _ _).symm
    _ ~ queued ++ [w] := hperm.append_right _

theorem Conn.Answered.complete (h : c.Answered queued) {i : ℕ} {w : Work} (hi : c.pending[i]? = some w)
    {rep : Reply} {bs : List UInt8} (hans : Answers w rep) (hbs : Decodes bs [rep.toMp]) :
    (⟨c.pending.eraseIdx i, c.sent ++ bs⟩ : Conn).Answered queued := by
  obtain ⟨done, reps, hperm, hall, hdec⟩ := h
  obtain ⟨hlt, rfl⟩ := List.getElem?_eq_some_iff.1 hi
  refine ⟨done ++ [c.pending[i]], reps ++ [rep], ?_, List.rel_append hall (.cons hans .nil), ?_⟩
  · -- the work moves from the pending ones to the answered ones
    calc c.pending.eraseIdx i ++ (done ++ [c.pending[i]])
        = c.pending.eraseIdx i ++ done ++ [c.pending[i]] := (List.append_assoc _ _ _).symm
      _ ~ c.pending[i] :: (c.pending.eraseIdx i ++ done) := List.perm_append_singleton _ _
      _ = (c.pending[i] :: c.pending.eraseIdx i) ++ done := rfl
      _ ~ c.pending ++ done := (List.getElem_cons_eraseIdx_perm hlt).append_right _
      _ ~ queued := hperm
  · rw [List.map_append]
    exact hdec.append hbs

/-- **One event** keeps the connection answered, when a completing work sees a sound engine. -/
theorem Conn.Answered.step (h : c.Answered queued) {ev : ConnEvent} (hev : ev.Sound)
    (hs : c.step ev = some c') : c'.Answered (queued ++ ev.queued) := by
  cases ev with
  | queue w =>
    cases hs
    exact h.queue w
  | complete i e =>
    rw [ConnEvent.queued, List.append_nil]
    simp only [Conn.step] at hs
    split at hs
    · cases hs
    · rename_i w hi
      rcases workCb_answer hev w.1 w.2 with hnone | ⟨bs, e', rep, hw, -, hdec⟩
      · rw [hnone] at hs
        cases hs
      · rw [hw, Option.map_some] at hs
        cases hs
        exact h.complete hi ⟨e, hev, bs, e', hw, hdec⟩ hdec

/-- **A run** keeps the connection answered, for the commands its events queue. -/
theorem Conn.Answered.run (h : c.Answered queued) {evs : List ConnEvent} (hevs : ∀ ev ∈ evs, ev.Sound)
    (hrun : c.run evs = some c') : c'.Answered (queued ++ evs.flatMap ConnEvent.queued) := by
  induction evs generalizing c queued with
  | nil =>
    cases hrun
    simpa using h
  | cons ev evs ih =>
    simp only [Conn.run] at hrun
    obtain ⟨c₁, h₁, hrest⟩ := Option.bind_eq_some_iff.1 hrun
    have hstep := h.step (hevs ev List.mem_cons_self) h₁
    rw [List.flatMap_cons, ← List.append_assoc]
    exact ih hstep (fun ev' hev' => hevs ev' (List.mem_cons_of_mem _ hev')) hrest

end Conn

end Orrp.Networking
