import Orrp.Engine.EventBytes
import Orrp.Engine.Query
import Orrp.Engine.Index
import Orrp.Engine.System

/-!
# The engine's entry point (`engine/api.c`, `eng_event`, `eng_index` and `eng_query`)

`api_exec` validates a command and hands it to the engine call of its type.  `eng_event` puts an
`EVENT`'s context on the command queue its entity routes to and acknowledges it; `eng_index` adds
an `INDEX`'s definition to the global registry; `eng_query` opens the `in` container, executes the
`QUERY` over it, and reads each id of the page from `events_db` as the bytes `encode_event` stored
for it.  A command the validator refuses is answered with the validator's message.  Two reads take a
number literal for a string pointer and fault: the validator's of an `in` tag, and `eng_index`'s of
the `key` tag.

In the protocol's terms a query is answered with the records `events_db` holds for the page
(`queryReply`), and `ApiResponse.Means` says which reply a filled `api_response_t` stands for: its
error, an acknowledgement, or a page whose objects' bytes decode to the records' maps.

* `engQueryResp_means` — over an engine whose `events_db` holds, as bytes, what `encode_event` wrote
  for each record the model stores, `eng_query` fills a response that means the query's reply;
* `apiExec_means` — every response `api_exec` fills means a reply, whose message, if it is an error,
  is a C string the serializer can write;
* `apiExec_sound` — `api_exec` leaves the engine's storage as it found it.
-/

namespace Orrp.Engine

open Orrp.Query Orrp.Lib Orrp.Lib.Msgpack Orrp.Networking

/-! ## The engine as `api_exec` reaches it -/

/-- LMDB as `db_get` reads it: the bytes stored under each key. -/
abbrev LmdbBytes := ContainerDbKey → Option (List UInt8)

/-- The record a stored value is, if it is one. -/
def DbValue.record? : DbValue → Option EventRecord
  | .event r => some r
  | _ => none

/-- What `api_exec` reaches: the engine's threads and storage, the system container's global index
registry, the bytes LMDB holds, and `container_get_user` (without creating the container) with the
read transactions `eng_query` opens: the snapshot a query is evaluated over, or the error message. -/
structure ApiEngine where
  cfg : SystemConfig
  sys : System
  registry : Registry
  lmdbBytes : LmdbBytes
  openUser : String → Except String Snapshot

/-- The bytes under each key the model stores a record under are those `encode_event` wrote for it. -/
def StoresEvents (lmdb : Lmdb) (bytes : LmdbBytes) : Prop :=
  ∀ k, (lmdb k = none → bytes k = none) ∧ ∀ r, lmdb k = some (.event r) → bytes k = r.mpackBytes

/-- `events_db` holds records only, each one `encode_event` writes in full. -/
def EventsDbOk (lmdb : Lmdb) : Prop :=
  ∀ c id v, lmdb (eventDbKey c id) = some v → ∃ r, v = .event r ∧ r.Writable

/-- What the parts of the engine agree on. -/
structure ApiEngine.Sound (e : ApiEngine) : Prop where
  stores : StoresEvents e.sys.eng.lmdb e.lmdbBytes
  eventsDb : EventsDbOk e.sys.eng.lmdb
  /-- a container that does not open says why in a C string -/
  openMsg : ∀ name msg, e.openUser name = .error msg → CstrText msg

/-! ## `api_exec` -/

/-- The response `_create_api_resp` allocates, as an engine call leaves it on an error: `is_ok`
false with the message, and the payload as `calloc` zeroed it (`API_RESP_TYPE_LIST_U32`, no ids). -/
def apiErr (msg : String) : ApiResponse := ⟨.listU32 ⟨[], by decide⟩, false, some msg⟩

/-- An acknowledgement: `is_ok` with `API_RESP_TYPE_ACK`. -/
def apiAck : ApiResponse := ⟨.ack, true, none⟩

/-- `eng_event`: acknowledged once the command's context is on its command queue; a full queue is
a rate limit. -/
def engEvent (cfg : SystemConfig) (cmd : Command) (arrivalTs : ℤ) (s : System) : ApiResponse × System :=
  match s.event cfg cmd arrivalTs with
  | (true, s') => (apiAck, s')
  | (false, s') => (apiErr "Rate limit error, please try again", s')

/-- `eng_index`: the definition of the `key` tag added to the global registry by `index_add`;
`none` where the `key` literal is a number, whose `string_value` the source reads regardless. -/
def engIndex (cmd : Command) (reg : Registry) : Option (ApiResponse × Registry) :=
  (engIndexDef (buildCmdContext cmd (-1))).map fun d =>
    match indexAdd d reg with
    | (.ok, reg') => (apiAck, reg')
    | (.keyExists, reg') => (apiErr "Duplicate index", reg')
    | (.err, reg') => (apiErr "Error adding index", reg')

/-- `_handle_query_result`: the page's ids in increasing order, each with the bytes `db_get` reads
for it from `events_db`, ids with none skipped, and the next cursor in its `uint32_t`.  Ids are
`uint32_t`s in the source, so a page holds fewer than `2 ^ 32` of them; a larger one, which only the
model's unbounded ids allow, is answered as the failed allocation of its objects. -/
def handleQueryResultResp (bytes : LmdbBytes) (containerName : String) :
    Except String (Finset ℕ × ℕ) → ApiResponse
  | .error msg => apiErr msg
  | .ok (events, nextCursor) =>
    let objects := events.sort.filterMap fun id =>
      (bytes (eventDbKey containerName id)).map fun data => (⟨some data⟩ : Networking.ApiObj)
    if h : objects.length < 2 ^ 32 then ⟨.listObj ⟨objects, h, nextCursor.toUInt32⟩, true, none⟩
    else ⟨.listObj ⟨[], by decide, 0⟩, false, some "OOM error handling query result"⟩

/-- The container an engine call reads `literal.string_value` of the `in` tag as; `none` where it
is not a string. -/
def CmdCtx.inName? (ctx : CmdCtx) : Option String :=
  match ctx.inTagValue with
  | some (.literal (.str name)) => some name
  | _ => none

theorem inName?_of_valid {cmd : Command} (hvalid : validatorAnalyze cmd = .valid) (hty : cmd.type ≠ .index)
    (arrivalTs : ℤ) : ∃ name, (buildCmdContext cmd arrivalTs).inName? = some name := by
  obtain ⟨hin, -, hstr, -⟩ := validatorAnalyze_valid hvalid
  obtain ⟨t, ht, hk, hlast⟩ := lastTagValue_of_mem (hin hty)
  obtain ⟨name, hname⟩ := hstr t ht hk
  have hctx : (buildCmdContext cmd arrivalTs).inTagValue = some (.literal (.str name)) := by
    rw [← hname]
    exact (buildCmdContext_reservedValue cmd arrivalTs (k := .kwIn) (by decide)).trans hlast
  exact ⟨name, by rw [CmdCtx.inName?, hctx]⟩

/-- `eng_query`: the `in` container opened, the query executed over its snapshot, and the page read
from its `events_db`; `none` without an `in` string. -/
def engQueryResp (e : ApiEngine) (cmd : Command) : Option ApiResponse :=
  (buildCmdContext cmd (-1)).inName?.map fun name =>
    match e.openUser name with
    | .error msg => apiErr msg
    | .ok snap => handleQueryResultResp e.lmdbBytes name (engQueryExec snap (buildCmdContext cmd (-1)))

/-- `api_exec`: the validator's verdict, then the engine call of the command's type, with the engine
as the call leaves it; `none` is a fault. -/
def apiExec (e : ApiEngine) (cmd : Command) (arrivalTs : ℤ) : Option (ApiResponse × ApiEngine) :=
  match validatorAnalyze cmd with
  | .fault => none
  | .invalid msg => some (apiErr msg, e)
  | .valid =>
    match cmd.type with
    | .event =>
      let r := engEvent e.cfg cmd arrivalTs e.sys
      some (r.1, { e with sys := r.2 })
    | .query => (engQueryResp e cmd).map fun r => (r, e)
    | .index => (engIndex cmd e.registry).map fun r => (r.1, { e with registry := r.2 })

end Orrp.Engine

/-! ## What a response stands for -/

namespace Orrp.Networking

open Orrp.Lib Orrp.Lib.Msgpack Orrp.Engine

/-- The reply a response stands for, as `_work_cb` sends it: an error with its message, `Execution
failed` without one; an acknowledgement; or a page whose objects' bytes each decode to the map of
the reply's object in the same place. -/
def ApiResponse.Means (r : ApiResponse) : Reply → Prop
  | .err msg => r.isOk = false ∧ r.errMsg.getD "Execution failed" = msg
  | .ack => r.isOk = true ∧ r.payload = .ack
  | .events objects nextCursor => r.isOk = true ∧ ∃ list : ListObj, r.payload = .listObj list ∧
      list.nextCursor = nextCursor ∧
      List.Forall₂ (fun o es => ∃ data, o.data = some data ∧ Decodes data [.map es]) list.objects objects

/-- A reply the serializer can write: an error's message is a C string. -/
def Reply.Sendable : Reply → Prop
  | .err msg => CstrText msg
  | _ => True

instance (rep : Reply) : Decidable rep.Sendable :=
  match rep with
  | .err msg => inferInstanceAs (Decidable (CstrText msg))
  | .ack => isTrue trivial
  | .events _ _ => isTrue trivial

end Orrp.Networking

namespace Orrp.Engine

open Orrp.Query Orrp.Lib Orrp.Lib.Msgpack Orrp.Networking

/-- The records `events_db` holds for some ids, in increasing order of id. -/
def storedRecords (lmdb : Lmdb) (containerName : String) (ids : Finset ℕ) : List EventRecord :=
  ids.sort.filterMap fun id => (lmdb (eventDbKey containerName id)).bind DbValue.record?

/-- The reply to an executed query: its error, or the maps of the records stored for the page and
the cursor in its `uint32_t`. -/
def queryResultReply (lmdb : Lmdb) (containerName : String) : Except String (Finset ℕ × ℕ) → Reply
  | .error msg => .err msg
  | .ok (events, nextCursor) =>
    if (storedRecords lmdb containerName events).length < 2 ^ 32 then
      .events ((storedRecords lmdb containerName events).map EventRecord.mpEntries) nextCursor.toUInt32
    else .err "OOM error handling query result"

/-- The reply to a `QUERY`, over the records the engine stores: the container's error, the query's,
or the records of the page it selects; `none` without an `in` string. -/
def queryReply (e : ApiEngine) (cmd : Command) : Option Reply :=
  (buildCmdContext cmd (-1)).inName?.map fun name =>
    match e.openUser name with
    | .error msg => .err msg
    | .ok snap => queryResultReply e.sys.eng.lmdb name (engQueryExec snap (buildCmdContext cmd (-1)))

/-! ## A query's page -/

section Page

variable {lmdb : Lmdb} {bytes : LmdbBytes}

/-- **The page read as bytes.**  Read one id after another, `events_db`'s bytes give an object for
each id the model stores a record under, and each object's bytes decode to that record's map. -/
theorem filterMap_eventBytes (hs : StoresEvents lmdb bytes) (hdb : EventsDbOk lmdb) (c : String)
    (ids : List ℕ) :
    List.Forall₂ (fun (o : Networking.ApiObj) es => ∃ data, o.data = some data ∧ Decodes data [.map es])
      (ids.filterMap fun id => (bytes (eventDbKey c id)).map fun data => (⟨some data⟩ : Networking.ApiObj))
      ((ids.filterMap fun id => (lmdb (eventDbKey c id)).bind DbValue.record?).map EventRecord.mpEntries) := by
  induction ids with
  | nil => exact .nil
  | cons id ids ih =>
    rw [List.filterMap_cons, List.filterMap_cons]
    rcases hv : lmdb (eventDbKey c id) with _ | v
    · -- nothing stored under the id: `db_get` finds nothing either
      rw [(hs _).1 hv]
      exact ih
    · obtain ⟨r, rfl, hw⟩ := hdb c id _ hv
      obtain ⟨data, hdata, hdec⟩ := EventRecord.decodes_mpackBytes hw
      rw [(hs _).2 r hv, hdata]
      exact .cons ⟨data, rfl, hdec⟩ ih

theorem handleQueryResultResp_means (hs : StoresEvents lmdb bytes) (hdb : EventsDbOk lmdb) (c : String)
    (result : Except String (Finset ℕ × ℕ)) :
    (handleQueryResultResp bytes c result).Means (queryResultReply lmdb c result) := by
  rcases result with msg | ⟨events, nextCursor⟩
  · exact ⟨rfl, rfl⟩
  · have hobj : List.Forall₂ (fun (o : Networking.ApiObj) es => ∃ data, o.data = some data ∧ Decodes data [.map es])
        (events.sort.filterMap fun id =>
          (bytes (eventDbKey c id)).map fun data => (⟨some data⟩ : Networking.ApiObj))
        ((storedRecords lmdb c events).map EventRecord.mpEntries) :=
      filterMap_eventBytes hs hdb c events.sort
    have hlen := hobj.length_eq
    rw [List.length_map] at hlen
    simp only [handleQueryResultResp, queryResultReply]
    by_cases hlt : (storedRecords lmdb c events).length < 2 ^ 32
    · rw [dif_pos (hlen ▸ hlt), if_pos hlt]
      exact ⟨rfl, _, rfl, rfl, hobj⟩
    · rw [dif_neg (hlen ▸ hlt), if_neg hlt]
      exact ⟨rfl, rfl⟩

end Page

/-- **A query's response.**  Over an engine whose `events_db` holds, as bytes, what `encode_event`
wrote for each record the model stores, `eng_query` fills a response exactly when the query has a
reply, and the response stands for that reply: the error of the container or of the query, or the
records of the page in increasing order of id. -/
theorem engQueryResp_means {e : ApiEngine} (hs : e.Sound) (cmd : Command) :
    Option.Rel ApiResponse.Means (engQueryResp e cmd) (queryReply e cmd) := by
  unfold engQueryResp queryReply
  rcases (buildCmdContext cmd (-1)).inName? with _ | name
  · exact .none
  · refine .some ?_
    dsimp only
    rcases e.openUser name with msg | snap
    · exact ⟨rfl, rfl⟩
    · exact handleQueryResultResp_means hs.stores hs.eventsDb name _

/-! ## What `api_exec` answers -/

theorem cstrText_of_mem_validatorMessages : ∀ m ∈ validatorMessages, CstrText m := by decide

theorem cstrText_of_mem_queryMessages : ∀ m ∈ "Invalid args" :: evalMessages, CstrText m := by decide

section Answer

variable {e e' : ApiEngine} {cmd : Command} {arrivalTs : ℤ}

theorem engQueryResp_reply (hs : e.Sound) {r : ApiResponse} (h : engQueryResp e cmd = some r) :
    ∃ rep, queryReply e cmd = some rep ∧ r.Means rep := by
  have hrel := engQueryResp_means hs cmd
  rw [h] at hrel
  generalize queryReply e cmd = q at hrel
  cases hrel
  exact ⟨_, rfl, ‹_›⟩

theorem queryReply_sendable (hs : e.Sound) {rep : Reply} (h : queryReply e cmd = some rep) : rep.Sendable := by
  unfold queryReply at h
  obtain ⟨name, -, rfl⟩ := Option.map_eq_some_iff.1 h
  rcases ho : e.openUser name with msg | snap
  · exact hs.openMsg name msg ho
  · dsimp only
    rcases hq : engQueryExec snap (buildCmdContext cmd (-1)) with msg | ⟨events, nextCursor⟩
    · exact cstrText_of_mem_queryMessages _ (engQueryExec_error_mem hq)
    · simp only [queryResultReply]
      split
      · trivial
      · decide

/-- **What `api_exec` answers.**  Every response `api_exec` fills stands for a reply of the
protocol, and an error's message is a C string: the validator's texts, the engine's own, a
container's by the engine's soundness, and for a query a page whose objects decode to the maps of
the records stored for it. -/
theorem apiExec_means (hs : e.Sound) {r : ApiResponse} (h : apiExec e cmd arrivalTs = some (r, e')) :
    ∃ rep, r.Means rep ∧ rep.Sendable := by
  unfold apiExec at h
  split at h
  · cases h
  · -- refused by the validator
    cases h
    exact ⟨.err _, ⟨rfl, rfl⟩, cstrText_of_mem_validatorMessages _ (validatorAnalyze_invalid_mem ‹_›)⟩
  · split at h
    · -- `eng_event`: an acknowledgement or the rate limit
      cases h
      unfold engEvent
      split
      · exact ⟨.ack, ⟨rfl, rfl⟩, trivial⟩
      · exact ⟨.err "Rate limit error, please try again", ⟨rfl, rfl⟩, by decide⟩
    · -- `eng_query`: the query's reply
      obtain ⟨r', hr', hrr⟩ := Option.map_eq_some_iff.1 h
      cases hrr
      obtain ⟨rep, hrep, hm⟩ := engQueryResp_reply hs hr'
      exact ⟨rep, hm, queryReply_sendable hs hrep⟩
    · -- `eng_index`: an acknowledgement or one of its errors
      obtain ⟨⟨r', reg⟩, hr', hrr⟩ := Option.map_eq_some_iff.1 h
      cases hrr
      obtain ⟨d, -, hd⟩ := Option.map_eq_some_iff.1 hr'
      split at hd <;> cases hd
      · exact ⟨.ack, ⟨rfl, rfl⟩, trivial⟩
      · exact ⟨.err "Duplicate index", ⟨rfl, rfl⟩, by decide⟩
      · exact ⟨.err "Error adding index", ⟨rfl, rfl⟩, by decide⟩

theorem apiExec_sound (hs : e.Sound) {r : ApiResponse} (h : apiExec e cmd arrivalTs = some (r, e')) :
    e'.Sound := by
  unfold apiExec at h
  split at h
  · cases h
  · cases h
    exact hs
  · split at h
    · cases h
      have heng : (engEvent e.cfg cmd arrivalTs e.sys).2.eng = e.sys.eng := by
        unfold engEvent
        split <;> rename_i hev <;> rw [← congrArg Prod.snd hev, System.event_frame]
      exact ⟨by simpa only [heng] using hs.stores, by simpa only [heng] using hs.eventsDb, hs.openMsg⟩
    · obtain ⟨r', -, hrr⟩ := Option.map_eq_some_iff.1 h
      cases hrr
      exact hs
    · obtain ⟨⟨r', reg⟩, -, hrr⟩ := Option.map_eq_some_iff.1 h
      cases hrr
      exact ⟨hs.stores, hs.eventsDb, hs.openMsg⟩

end Answer

end Orrp.Engine
