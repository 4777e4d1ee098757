import Orrp.Lib.MsgpackWire
import Mathlib.Data.List.TakeWhile
import Mathlib.Data.List.Forall2

/-!
# The response serializer (`networking/serializer.c`)

A response goes back to the client as one msgpack map, `{status, data}`, the data left out when
there is none.  The data is encoded first by a writer of its own and then copied into the outer map
as the bytes of one value (`mpack_write_object_bytes`): the ids of a `LIST_U32`; the events of a
`LIST_OBJ`, each already a map copied the same way, after the next cursor when there is one; or the
text of an error.

A writer's error is sticky and seen only when the writer is destroyed.  The only error these
writers meet is a C string longer than `UINT32_MAX` (allocation is not modelled), so a writer is an
`Option` of its bytes.

* `serializerEncode_data` — the outer map, built around the bytes of the data;
* `decodes_writeObjects` — events written one after another decode to their maps in order;
* `serializer_responses_decode` — every successful response, and every error of fewer than `2 ^ 32`
  bytes, is one map holding what the client asked for;
* `encodeListObj_null_data` — an event with no data before the end of a `LIST_OBJ` leaves an array
  shorter than its header says, and a response no reader gets a value from;
* `serializerEncodeApiResp_listObj`, `serializerEncodeErr_reply` — a page and an error are sent as
  the document of the protocol's `Reply` they stand for.
-/

namespace Orrp.Networking

open Orrp.Lib Orrp.Lib.Msgpack

/-! ## The writer -/

/-- `mpack_write_u32`. -/
def mpackWriteU32 (value : UInt32) : List UInt8 := uintBytes value.toNat

/-- `mpack_write_str`. -/
def mpackWriteStr (data : List UInt8) : List UInt8 := strHeader data.length ++ data

/-- `mpack_write_cstr`: the bytes before the terminator as a string; one longer than `UINT32_MAX`
flags the writer's error. -/
def mpackWriteCstr (cstr : List UInt8) : Option (List UInt8) :=
  let data := cstr.takeWhile (· ≠ 0)
  if 0xffffffff < data.length then none else some (mpackWriteStr data)

/-- `mpack_start_map`. -/
def mpackStartMap (count : UInt32) : List UInt8 := mapHeader count.toNat

/-- `mpack_start_array`. -/
def mpackStartArray (count : UInt32) : List UInt8 := arrayHeader count.toNat

/-- `mpack_write_object_bytes`: bytes already encoded, copied as they are. -/
def mpackWriteObjectBytes (data : List UInt8) : List UInt8 := data

/-- `mpack_write_i64`, as built without `MPACK_OPTIMIZE_FOR_SIZE` (the build compiles with `-O3` or
`-O0`); the value is an `int64_t`. -/
def mpackWriteI64 (value : ℤ) : List UInt8 := intBytes value

/-- `mpack_write_nil`. -/
def mpackWriteNil : List UInt8 := [0xc0]

/-! ## Responses -/

/-- `enum serializer_resp_status`. -/
inductive SerializerRespStatus
  | ok
  | err
  deriving DecidableEq, Repr

/-- The text of a status. -/
def serializerStatusStr : SerializerRespStatus → String
  | .ok => "OK"
  | .err => "ERR"

/-- `serializer_result_t`: whether a response was built, its bytes (`response`, `response_size`),
and the message of a request refused before any was built. -/
structure SerializerResult where
  success : Bool
  response : Option (List UInt8)
  errMsg : Option String

/-- `serializer_encode`: the map `{status, data}`, the data copied as the bytes of one value and
left out when `raw_data` is `NULL`. -/
def serializerEncode (status : SerializerRespStatus) (rawData : Option (List UInt8)) : SerializerResult :=
  let written : Option (List UInt8) := do
    let key ← mpackWriteCstr (utf8Bytes "status")
    let value ← mpackWriteCstr (utf8Bytes (serializerStatusStr status))
    let data ← match rawData with
      | none => some []
      | some raw => (mpackWriteCstr (utf8Bytes "data")).map (· ++ mpackWriteObjectBytes raw)
    pure (mpackStartMap (if rawData.isNone then 1 else 2) ++ key ++ value ++ data)
  match written with
  | none => ⟨false, none, none⟩
  | some bytes => ⟨true, some bytes, none⟩

/-- The end shared by `serializer_encode_err`, `_encode_list_u32` and `_encode_list_obj`: a data
writer in error leaves no response, and otherwise its bytes are the data of a response. -/
def encodeData (status : SerializerRespStatus) (data : Option (List UInt8)) (sr : SerializerResult) :
    SerializerResult :=
  match data with
  | none => { sr with response := none, success := false }
  | some data => serializerEncode status (some data)

/-- `serializer_encode_err`: the data `{err_msg}`. -/
def serializerEncodeErr (errMsg : List UInt8) (sr : SerializerResult) : SerializerResult :=
  encodeData .err (do
    let key ← mpackWriteCstr (utf8Bytes "err_msg")
    let value ← mpackWriteCstr errMsg
    pure (mpackStartMap 1 ++ key ++ value)) sr

/-- The part of `api_obj_t` the serializer reads: an event's msgpack bytes, `NULL` when absent. -/
structure ApiObj where
  data : Option (List UInt8)

/-- `api_response_type_list_u32_t`: `count` ids, `count` a `uint32_t`. -/
structure ListU32 where
  int32s : List UInt32
  count_lt : int32s.length < 2 ^ 32

/-- `api_response_type_list_obj_t`: `count` events, and the cursor of the next page (`0` when there
is none). -/
structure ListObj where
  objects : List ApiObj
  count_lt : objects.length < 2 ^ 32
  nextCursor : UInt32

/-- The `count` field of a list. -/
def ListU32.count (list : ListU32) : UInt32 := list.int32s.length.toUInt32

/-- The `count` field of a list. -/
def ListObj.count (list : ListObj) : UInt32 := list.objects.length.toUInt32

/-- `resp_type`, with the member of `payload` it selects. -/
inductive ApiPayload
  | listU32 (list : ListU32)
  | listObj (list : ListObj)
  | ack

/-- `api_response_t`. -/
structure ApiResponse where
  payload : ApiPayload
  isOk : Bool
  errMsg : Option String

/-- `_encode_list_u32`: the data `{ids: [...]}`. -/
def encodeListU32 (list : ListU32) (sr : SerializerResult) : SerializerResult :=
  encodeData .ok ((mpackWriteCstr (utf8Bytes "ids")).map fun key =>
    mpackStartMap 1 ++ key ++ mpackStartArray list.count ++ list.int32s.flatMap mpackWriteU32) sr

/-- The loop of `_encode_list_obj`: the bytes of each event in turn, up to the first with none. -/
def writeObjects : List ApiObj → List UInt8
  | [] => []
  | o :: os =>
    match o.data with
    | none => []
    | some data => mpackWriteObjectBytes data ++ writeObjects os

/-- `_encode_list_obj`: the data `{next_cursor, objects: [...]}`, the cursor written only when it is
not `0`. -/
def encodeListObj (list : ListObj) (sr : SerializerResult) : SerializerResult :=
  encodeData .ok (do
    let cursor ← if list.nextCursor ≠ 0 then
        (mpackWriteCstr (utf8Bytes "next_cursor")).map (· ++ mpackWriteU32 list.nextCursor)
      else some []
    let key ← mpackWriteCstr (utf8Bytes "objects")
    pure (mpackStartMap (if list.nextCursor ≠ 0 then 2 else 1) ++ cursor ++ key ++ mpackStartArray list.count ++
      writeObjects list.objects)) sr

/-- `serializer_encode_api_resp`. -/
def serializerEncodeApiResp (apiResp : Option ApiResponse) (sr : SerializerResult) : SerializerResult :=
  match apiResp with
  | none => { sr with errMsg := some "Invalid args", success := false }
  | some r =>
    if !r.isOk then { sr with errMsg := some (r.errMsg.getD "Unknown error") }
    else
      match r.payload with
      | .ack => serializerEncode .ok none
      | .listU32 list => encodeListU32 list sr
      | .listObj list => encodeListObj list sr

/-! ## What the writers write -/

lemma mpackWriteCstr_text {s : String} (h0 : 0 ∉ utf8Bytes s) (hl : (utf8Bytes s).length < 2 ^ 32) :
    mpackWriteCstr (utf8Bytes s) = some (mpackWriteStr (utf8Bytes s)) := by
  have ht : (utf8Bytes s).takeWhile (· ≠ 0) = utf8Bytes s :=
    List.takeWhile_eq_self_iff.2 fun b hb => decide_eq_true fun h => h0 (h ▸ hb)
  simp only [mpackWriteCstr, ht]
  rw [if_neg (by omega)]

lemma serializerEncode_some (status : SerializerRespStatus) (raw : List UInt8) : serializerEncode status (some raw) =
    ⟨true, some (mapHeader 2 ++ mpackWriteStr (utf8Bytes "status") ++
      mpackWriteStr (utf8Bytes (serializerStatusStr status)) ++ (mpackWriteStr (utf8Bytes "data") ++ raw)), none⟩ := by
  cases status <;> simp (disch := decide) only [serializerEncode, mpackWriteCstr_text, serializerStatusStr] <;> rfl

lemma serializerEncode_none (status : SerializerRespStatus) : serializerEncode status none =
    ⟨true, some (mapHeader 1 ++ mpackWriteStr (utf8Bytes "status") ++
      mpackWriteStr (utf8Bytes (serializerStatusStr status)) ++ []), none⟩ := by
  cases status <;> simp (disch := decide) only [serializerEncode, mpackWriteCstr_text, serializerStatusStr] <;> rfl

example : (serializerEncode .ok none).response = some ([0x81, 0xa6] ++ utf8Bytes "status" ++ [0xa2] ++ utf8Bytes "OK") := by
  decide

@[simp] lemma toNat_count_u32 (list : ListU32) : list.count.toNat = list.int32s.length :=
  UInt32.toNat_ofNat_of_lt' list.count_lt

@[simp] lemma toNat_count_obj (list : ListObj) : list.count.toNat = list.objects.length :=
  UInt32.toNat_ofNat_of_lt' list.count_lt

lemma encodeListU32_eq (list : ListU32) (sr : SerializerResult) :
    encodeListU32 list sr = serializerEncode .ok (some (mapHeader 1 ++ mpackWriteStr (utf8Bytes "ids") ++
      arrayHeader list.int32s.length ++ list.int32s.flatMap mpackWriteU32)) := by
  simp (disch := decide) only [encodeListU32, mpackWriteCstr_text, Option.map_some, mpackStartArray,
    toNat_count_u32]
  rfl

lemma encodeListObj_eq (list : ListObj) (sr : SerializerResult) :
    encodeListObj list sr = serializerEncode .ok (some (mapHeader (if list.nextCursor ≠ 0 then 2 else 1) ++
      (if list.nextCursor ≠ 0 then mpackWriteStr (utf8Bytes "next_cursor") ++ mpackWriteU32 list.nextCursor
        else []) ++ mpackWriteStr (utf8Bytes "objects") ++ arrayHeader list.objects.length ++
      writeObjects list.objects)) := by
  by_cases hc : list.nextCursor ≠ 0
  · simp (disch := decide) only [encodeListObj, mpackWriteCstr_text, Option.map_some, mpackStartArray,
      toNat_count_obj, if_pos hc]
    rfl
  · simp (disch := decide) only [encodeListObj, mpackWriteCstr_text, mpackStartArray, toNat_count_obj,
      if_neg hc]
    rfl

lemma serializerEncodeErr_text {m : String} (h0 : 0 ∉ utf8Bytes m) (hl : (utf8Bytes m).length < 2 ^ 32)
    (sr : SerializerResult) : serializerEncodeErr (utf8Bytes m) sr =
      serializerEncode .err (some (mapHeader 1 ++ mpackWriteStr (utf8Bytes "err_msg") ++ mpackWriteStr (utf8Bytes m))) := by
  simp (disch := decide) only [serializerEncodeErr, mpackWriteCstr_text, mpackWriteCstr_text h0 hl]
  rfl

/-! ## What the client reads -/

lemma decodes_mpackWriteStr (s : String) (hs : (utf8Bytes s).length < 2 ^ 32) :
    Decodes (mpackWriteStr (utf8Bytes s)) [.str s] :=
  decodes_str s hs

lemma decodes_mpackWriteU32s (ids : List UInt32) :
    Decodes (ids.flatMap mpackWriteU32) (ids.map fun i => .uint i.toNat) := by
  induction ids with
  | nil => exact decodes_nil
  | cons i ids ih =>
    rw [List.flatMap_cons, List.map_cons]
    exact (decodes_uintBytes i.toNat_lt).append ih

/-- **The loop of `_encode_list_obj`.**  Events whose data each decode to one value, written one
after another, decode to those values in order. -/
lemma decodes_writeObjects {objects : List ApiObj} {vs : List MpValue}
    (h : List.Forall₂ (fun o v => ∃ data, o.data = some data ∧ Decodes data [v]) objects vs) :
    Decodes (writeObjects objects) vs := by
  induction h with
  | nil => exact decodes_nil
  | cons hov _ ih =>
    obtain ⟨data, hd, hdv⟩ := hov
    rw [writeObjects, hd]
    exact hdv.append ih

/-- **The outer map.**  Data that decode to one value are sent as `{status, data}`. -/
lemma serializerEncode_data (status : SerializerRespStatus) {raw : List UInt8} {v : MpValue}
    (hv : Decodes raw [v]) : ∃ bs, serializerEncode status (some raw) = ⟨true, some bs, none⟩ ∧
      Decodes bs [.map [(.str "status", .str (serializerStatusStr status)), (.str "data", v)]] := by
  refine ⟨_, serializerEncode_some status raw, ?_⟩
  have hs : (utf8Bytes (serializerStatusStr status)).length < 2 ^ 32 := by cases status <;> decide
  simp only [List.append_assoc]
  exact Decodes.map (Decodes.entry (decodes_mpackWriteStr "status" (by decide)) (decodes_mpackWriteStr _ hs)
    (Decodes.lastEntry (decodes_mpackWriteStr "data" (by decide)) hv)) rfl (by decide)

lemma writeObjects_null {o : ApiObj} (ho : o.data = none) (post : List ApiObj) {pre : List ApiObj}
    {vs : List MpValue} (hpre : List.Forall₂ (fun o v => ∃ data, o.data = some data ∧ Decodes data [v]) pre vs) :
    writeObjects (pre ++ o :: post) = writeObjects pre := by
  induction hpre with
  | nil =>
    rw [List.nil_append]
    simp only [writeObjects, ho]
  | cons hov _ ih =>
    obtain ⟨data, hd, -⟩ := hov
    rw [List.cons_append, writeObjects, writeObjects, hd, ih]

/-- **An event with no data cuts the array short.**  `_encode_list_obj` declares all `count` events
but stops writing at the first whose data is `NULL`, so a reader gets no value from the response: it
runs out of bytes inside the array.  (mpack's write tracking, on in debug builds, would flag the
short array as an error instead.) -/
theorem encodeListObj_null_data {list : ListObj} {pre post : List ApiObj} {o : ApiObj} {vs : List MpValue}
    (hsplit : list.objects = pre ++ o :: post) (ho : o.data = none)
    (hpre : List.Forall₂ (fun o v => ∃ data, o.data = some data ∧ Decodes data [v]) pre vs) (sr : SerializerResult) :
    ∃ bs, encodeListObj list sr = ⟨true, some bs, none⟩ ∧ ∀ fuel, parse fuel 1 bs = none := by
  have hW : Decodes (writeObjects list.objects) vs := by
    rw [hsplit, writeObjects_null ho post hpre]
    exact decodes_writeObjects hpre
  have hlen : vs.length < list.objects.length := by
    rw [hsplit, ← hpre.length_eq, List.length_append, List.length_cons]
    omega
  have harr : ∀ f, parse f 1 (arrayHeader list.objects.length ++ writeObjects list.objects) = none :=
    fun f => hW.parse_arrayHeader_short hlen list.count_lt f 0
  have hobjects := decodes_mpackWriteStr "objects" (by decide)
  have hdata : ∀ f, parse f 1 (mapHeader (if list.nextCursor ≠ 0 then 2 else 1) ++
      (if list.nextCursor ≠ 0 then mpackWriteStr (utf8Bytes "next_cursor") ++ mpackWriteU32 list.nextCursor
        else []) ++ mpackWriteStr (utf8Bytes "objects") ++ arrayHeader list.objects.length ++
      writeObjects list.objects) = none := by
    intro f
    by_cases hc : list.nextCursor ≠ 0
    · have hcur := ((decodes_mpackWriteStr "next_cursor" (by decide)).append
        (decodes_uintBytes list.nextCursor.toNat_lt)).append hobjects
      have h := hcur.parse_mapHeader_last (k := 2) rfl (by decide) harr f 0
      simp only [if_pos hc, List.append_assoc] at h ⊢
      exact h
    · have h := hobjects.parse_mapHeader_last (k := 1) rfl (by decide) harr f 0
      simp only [if_neg hc, List.append_nil]
      simpa only [List.append_assoc] using h
  have hkeys := ((decodes_mpackWriteStr "status" (by decide)).append (decodes_mpackWriteStr "OK" (by decide))).append
    (decodes_mpackWriteStr "data" (by decide))
  rw [encodeListObj_eq, serializerEncode_some]
  refine ⟨_, rfl, fun f => ?_⟩
  have h := hkeys.parse_mapHeader_last (k := 2) rfl (by decide) hdata f 0
  simp only [List.append_assoc] at h ⊢
  exact h

theorem serializer_responses_decode :
    (∀ (errMsg : Option String) (sr : SerializerResult), ∃ bs,
      serializerEncodeApiResp (some ⟨.ack, true, errMsg⟩) sr = ⟨true, some bs, none⟩ ∧
        Decodes bs [.map [(.str "status", .str "OK")]]) ∧
    (∀ (list : ListU32) (errMsg : Option String) (sr : SerializerResult), ∃ bs,
      serializerEncodeApiResp (some ⟨.listU32 list, true, errMsg⟩) sr = ⟨true, some bs, none⟩ ∧
        Decodes bs [.map [(.str "status", .str "OK"),
          (.str "data", .map [(.str "ids", .array (list.int32s.map fun i => .uint i.toNat))])]]) ∧
    (∀ (list : ListObj) (vs : List MpValue) (errMsg : Option String) (sr : SerializerResult),
      List.Forall₂ (fun o v => ∃ data es, o.data = some data ∧ v = .map es ∧ Decodes data [v]) list.objects vs →
      ∃ bs, serializerEncodeApiResp (some ⟨.listObj list, true, errMsg⟩) sr = ⟨true, some bs, none⟩ ∧
        Decodes bs [.map [(.str "status", .str "OK"),
          (.str "data", .map ((if list.nextCursor ≠ 0 then [(.str "next_cursor", .uint list.nextCursor.toNat)]
            else []) ++ [(.str "objects", .array vs)]))]]) ∧
    (∀ (m : String) (sr : SerializerResult), 0 ∉ utf8Bytes m → (utf8Bytes m).length < 2 ^ 32 →
      ∃ bs, serializerEncodeErr (utf8Bytes m) sr = ⟨true, some bs, none⟩ ∧
        Decodes bs [.map [(.str "status", .str "ERR"), (.str "data", .map [(.str "err_msg", .str m)])]]) := by
  refine ⟨fun errMsg sr => ?ack, fun list errMsg sr => ?u32, fun list vs errMsg sr hvs => ?obj,
    fun m sr h0 hl => ?err⟩
  case ack =>
    refine ⟨_, serializerEncode_none .ok, ?_⟩
    simp only [List.append_assoc, List.append_nil]
    exact Decodes.map (Decodes.lastEntry (decodes_mpackWriteStr "status" (by decide))
      (decodes_mpackWriteStr "OK" (by decide))) rfl (by decide)
  case u32 =>
    have hids : Decodes (arrayHeader list.int32s.length ++ list.int32s.flatMap mpackWriteU32)
        [.array (list.int32s.map fun i => .uint i.toNat)] :=
      (decodes_mpackWriteU32s list.int32s).array (List.length_map _) list.count_lt
    rw [show serializerEncodeApiResp (some ⟨.listU32 list, true, errMsg⟩) sr = encodeListU32 list sr from rfl,
      encodeListU32_eq]
    refine serializerEncode_data .ok ?_
    simp only [List.append_assoc]
    exact Decodes.map (Decodes.lastEntry (decodes_mpackWriteStr "ids" (by decide)) hids) rfl (by decide)
  case obj =>
    have hobj : Decodes (arrayHeader list.objects.length ++ writeObjects list.objects) [.array vs] :=
      (decodes_writeObjects (hvs.imp fun _ _ ⟨data, _, hd, _, hdv⟩ => ⟨data, hd, hdv⟩)).array
        hvs.length_eq.symm list.count_lt
    rw [show serializerEncodeApiResp (some ⟨.listObj list, true, errMsg⟩) sr = encodeListObj list sr from rfl,
      encodeListObj_eq]
    refine serializerEncode_data .ok ?_
    by_cases hc : list.nextCursor ≠ 0
    · simp only [if_pos hc, List.singleton_append, List.append_assoc]
      exact Decodes.map (Decodes.entry (decodes_mpackWriteStr "next_cursor" (by decide))
        (decodes_uintBytes list.nextCursor.toNat_lt)
        (Decodes.lastEntry (decodes_mpackWriteStr "objects" (by decide)) hobj)) rfl (by decide)
    · simp only [if_neg hc, List.nil_append, List.append_nil, List.append_assoc]
      exact Decodes.map (Decodes.lastEntry (decodes_mpackWriteStr "objects" (by decide)) hobj) rfl (by decide)
  case err =>
    rw [serializerEncodeErr_text h0 hl]
    refine serializerEncode_data .err ?_
    simp only [List.append_assoc]
    exact Decodes.map (Decodes.lastEntry (decodes_mpackWriteStr "err_msg" (by decide))
      (decodes_mpackWriteStr m hl)) rfl (by decide)

theorem serializer_responses_decode_err_sample : ∃ bs,
    serializerEncodeErr (utf8Bytes "Error adding index") ⟨false, none, none⟩ = ⟨true, some bs, none⟩ ∧
      Decodes bs [.map [(.str "status", .str "ERR"), (.str "data", .map [(.str "err_msg", .str "Error adding index")])]] :=
  serializer_responses_decode.2.2.2 _ _ (by decide) (by decide)

/-- A text of `2 ^ 32` bytes is longer than `mpack_write_cstr` writes: the writer's error leaves the
zeroed result of the caller with no response to send. -/
theorem serializer_encode_err_overlong :
    serializerEncodeErr (List.replicate (2 ^ 32) 97) ⟨false, none, none⟩ = ⟨false, none, none⟩ := by
  have ht : (List.replicate (2 ^ 32) (97 : UInt8)).takeWhile (· ≠ 0) = List.replicate (2 ^ 32) 97 :=
    List.takeWhile_eq_self_iff.2 fun b hb => by rw [List.eq_of_mem_replicate hb]; decide
  have hw : mpackWriteCstr (List.replicate (2 ^ 32) 97) = none := by
    simp only [mpackWriteCstr, ht, List.length_replicate]
    rw [if_pos (by decide)]
  simp (disch := decide) only [serializerEncodeErr, mpackWriteCstr_text, hw]
  rfl

/-! ## What a response says

A client reads each response as one of three documents: an acknowledgement, a page of events with
the cursor of the next page, or an error with its message.  `api_exec` never answers with ids, so
a `LIST_U32` has no reply of its own. -/

/-- A reply of the protocol. -/
inductive Reply
  /-- `{status: "OK"}` -/
  | ack
  /-- `{status: "OK", data: {next_cursor, objects}}`: each object the map of an event, the cursor
  left out when it is `0`. -/
  | events (objects : List (List (MpValue × MpValue))) (nextCursor : UInt32)
  /-- `{status: "ERR", data: {err_msg}}` -/
  | err (msg : String)

/-- The document a reply is sent as. -/
def Reply.toMp : Reply → MpValue
  | .ack => .map [(.str "status", .str "OK")]
  | .events objects nextCursor =>
    .map [(.str "status", .str "OK"), (.str "data", .map ((if nextCursor ≠ 0 then
      [(.str "next_cursor", .uint nextCursor.toNat)] else []) ++ [(.str "objects", .array (objects.map .map))]))]
  | .err msg => .map [(.str "status", .str "ERR"), (.str "data", .map [(.str "err_msg", .str msg)])]

lemma serializerEncodeApiResp_ack (errMsg : Option String) (sr : SerializerResult) :
    ∃ bs, serializerEncodeApiResp (some ⟨.ack, true, errMsg⟩) sr = ⟨true, some bs, none⟩ ∧
      Decodes bs [Reply.ack.toMp] := by
  refine ⟨_, serializerEncode_none .ok, ?_⟩
  simp only [List.append_assoc, List.append_nil]
  exact Decodes.map (Decodes.lastEntry (decodes_mpackWriteStr "status" (by decide))
    (decodes_mpackWriteStr "OK" (by decide))) rfl (by decide)

lemma serializerEncodeApiResp_listObj {list : ListObj} {objects : List (List (MpValue × MpValue))}
    (h : List.Forall₂ (fun o es => ∃ data, o.data = some data ∧ Decodes data [.map es]) list.objects objects)
    (errMsg : Option String) (sr : SerializerResult) :
    ∃ bs, serializerEncodeApiResp (some ⟨.listObj list, true, errMsg⟩) sr = ⟨true, some bs, none⟩ ∧
      Decodes bs [(Reply.events objects list.nextCursor).toMp] := by
  have hvs : List.Forall₂ (fun o v => ∃ data, o.data = some data ∧ Decodes data [v]) list.objects
      (objects.map .map) := List.forall₂_map_right_iff.2 h
  have hobj : Decodes (arrayHeader list.objects.length ++ writeObjects list.objects) [.array (objects.map .map)] :=
    (decodes_writeObjects hvs).array hvs.length_eq.symm list.count_lt
  rw [show serializerEncodeApiResp (some ⟨.listObj list, true, errMsg⟩) sr = encodeListObj list sr from rfl,
    encodeListObj_eq]
  refine serializerEncode_data .ok ?_
  by_cases hc : list.nextCursor ≠ 0
  · simp only [if_pos hc, List.singleton_append, List.append_assoc]
    exact Decodes.map (Decodes.entry (decodes_mpackWriteStr "next_cursor" (by decide))
      (decodes_uintBytes list.nextCursor.toNat_lt)
      (Decodes.lastEntry (decodes_mpackWriteStr "objects" (by decide)) hobj)) rfl (by decide)
  · simp only [if_neg hc, List.nil_append, List.append_nil, List.append_assoc]
    exact Decodes.map (Decodes.lastEntry (decodes_mpackWriteStr "objects" (by decide)) hobj) rfl (by decide)

lemma serializerEncodeErr_reply {m : String} (h0 : 0 ∉ utf8Bytes m) (hl : (utf8Bytes m).length < 2 ^ 32)
    (sr : SerializerResult) : ∃ bs, serializerEncodeErr (utf8Bytes m) sr = ⟨true, some bs, none⟩ ∧
      Decodes bs [(Reply.err m).toMp] := by
  rw [serializerEncodeErr_text h0 hl]
  refine serializerEncode_data .err ?_
  simp only [List.append_assoc]
  exact Decodes.map (Decodes.lastEntry (decodes_mpackWriteStr "err_msg" (by decide))
    (decodes_mpackWriteStr m hl)) rfl (by decide)

end Orrp.Networking
