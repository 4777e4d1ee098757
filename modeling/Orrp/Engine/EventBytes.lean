import Orrp.Engine.Encoder
import Orrp.Engine.KeyText
import Orrp.Networking.Serializer

/-!
# The bytes of an event (`engine/worker/encoder.c`)

`encode_event` writes an event field by field with the mpack writer, into the buffer that becomes
the value of the event's key in `events_db`; a query hands that buffer back to the serializer as it
is.  The engine model stores the record the bytes encode (`DbValue.event`).  The writer's error is
sticky and seen when the writer is destroyed, so a write is an `Option` of its bytes.

* `encodeEventBytes_eq` — the bytes depend on the command only through the record:
  `encode_event` is `encodeEvent` followed by the writes of `EventRecord.mpackBytes`;
* `EventRecord.decodes_mpackBytes` — a record whose texts are C strings of fewer than `2 ^ 32` bytes
  and whose numbers are `int64_t`s is written as exactly one map, its entries in order;
* `encodeEvent_bytes_decode` — so `encode_event`'s bytes decode to the document `encodeEventMap`
  describes, and it fails where the document does;
* `encodeEvent_input_bytes` — for every input the tokenizer, the parser and the validator accept as
  an `EVENT`, with any id and any `int64_t` arrival time, `encode_event` succeeds, and its bytes are
  one map: the event's id, `in`, entity, time in milliseconds and custom tags.
-/

namespace Orrp.Engine

open Orrp.Lib

/-- A text `mpack_write_cstr` writes whole: no byte of it ends the C string early, and its length
fits a string header. -/
def CstrText (s : String) : Prop := 0 ∉ utf8Bytes s ∧ (utf8Bytes s).length < 2 ^ 32

/-- A number in the range of `int64_t`. -/
def Int64Range (n : ℤ) : Prop := -2 ^ 63 ≤ n ∧ n < 2 ^ 63

instance : DecidablePred CstrText := fun _ => inferInstanceAs (Decidable (_ ∧ _))

instance : DecidablePred Int64Range := fun _ => inferInstanceAs (Decidable (_ ∧ _))

end Orrp.Engine

namespace Orrp.Query

open Orrp.Engine

/-- A literal `encode_event` writes whole. -/
def Literal.Writable : Literal → Prop
  | .str s => CstrText s
  | .num n => Int64Range n

theorem Lexes.exists_lexeme {cs : List Char} {ts : List Token} (h : Lexes cs ts) {t : Token} (ht : t ∈ ts) :
    ∃ cs' rest, Lexeme cs' t rest := by
  induction h with
  | nil => cases ht
  | space _ _ ih => exact ih ht
  | lexeme hl _ ih =>
    rcases List.mem_cons.1 ht with rfl | ht
    · exact ⟨_, _, hl⟩
    · exact ih ht

theorem Lexeme.literalNumber_range {cs rest : List Char} {n : ℤ} (h : Lexeme cs (.literalNumber n) rest) :
    0 ≤ n ∧ n ≤ int64Max := by
  cases h with
  | keyword _ _ _ _ hkw _ => exact absurd (kwMap_lookup_mem hkw) (by simp [kwMap])
  | number _ _ _ hmax _ => exact ⟨Int.natCast_nonneg _, hmax⟩

end Orrp.Query

namespace Orrp.Engine

open Orrp.Query Orrp.Lib Orrp.Lib.Msgpack Orrp.Networking

/-- A record `encode_event` writes whole: its id a `uint32_t`, its texts C strings that fit a string
header, its numbers `int64_t`s, and its count of entries a `uint32_t`. -/
structure EventRecord.Writable (r : EventRecord) : Prop where
  id_lt : r.id < 2 ^ 32
  inName : CstrText r.inName
  entity : r.entity.Writable
  ts : Int64Range r.ts
  tags : ∀ kv ∈ r.customTags, CstrText kv.1 ∧ ∀ l, kv.2 = some l → l.Writable
  count_lt : 4 + r.customTags.length < 2 ^ 32

/-! ## `encode_event` -/

/-- A literal as `encode_event` writes it: a string with `mpack_write_cstr`, a number with
`mpack_write_i64`. -/
def writeLiteral : Literal → Option (List UInt8)
  | .str s => mpackWriteCstr (utf8Bytes s)
  | .num n => some (mpackWriteI64 n)

/-- One round of the loop over `custom_tags_head`: the key, `reserved_unknown` for a reserved one so
that the map keeps its pairs, then the value, `nil` for a node that is not a literal. -/
def writeCustomTag (t : Query.Tag) : Option (List UInt8) := do
  let key ← match t.key with
    | .custom k => mpackWriteCstr (utf8Bytes k)
    | .reserved _ => mpackWriteCstr (utf8Bytes "reserved_unknown")
  let value ← match t.value with
    | .literal l => writeLiteral l
    | _ => some mpackWriteNil
  pure (key ++ value)

/-- `encode_event`: the map of `4 + num_custom_tags` entries, `id`, `in`, `entity`, `ts` and the
custom tags; `none` without a literal `in` and `entity` tag, and when the writer flags its error.
The `in` tag is written as a string (the validator admits nothing else there); the arrival time is
divided down to milliseconds as `int64_t`s divide. -/
def encodeEventBytes (ctx : CmdCtx) (eventId : UInt32) : Option (List UInt8) :=
  match ctx.inTagValue, ctx.entityTagValue with
  | some (.literal (.str inName)), some (.literal ent) => do
    let idKey ← mpackWriteCstr (utf8Bytes "id")
    let inKey ← mpackWriteCstr (utf8Bytes "in")
    let inValue ← mpackWriteCstr (utf8Bytes inName)
    let entKey ← mpackWriteCstr (utf8Bytes "entity")
    let entValue ← writeLiteral ent
    let tsKey ← mpackWriteCstr (utf8Bytes "ts")
    let tags ← ctx.customTags.mapM writeCustomTag
    pure (mpackStartMap (4 + ctx.numCustomTags.toUInt32) ++ idKey ++ mpackWriteU32 eventId ++ inKey ++
      inValue ++ entKey ++ entValue ++ tsKey ++ mpackWriteI64 (ctx.arrivalTs.tdiv 1000000) ++ tags.flatten)
  | _, _ => none

/-! ## The record's bytes -/

/-- A custom tag of a record as `encode_event` writes it: the key, then the literal or `nil`. -/
def writeTagEntry (kv : String × Option Literal) : Option (List UInt8) := do
  let key ← mpackWriteCstr (utf8Bytes kv.1)
  let value ← match kv.2 with
    | some l => writeLiteral l
    | none => some mpackWriteNil
  pure (key ++ value)

/-- The bytes `encode_event` writes for a record, each field written from the record. -/
def EventRecord.mpackBytes (r : EventRecord) : Option (List UInt8) := do
  let idKey ← mpackWriteCstr (utf8Bytes "id")
  let inKey ← mpackWriteCstr (utf8Bytes "in")
  let inValue ← mpackWriteCstr (utf8Bytes r.inName)
  let entKey ← mpackWriteCstr (utf8Bytes "entity")
  let entValue ← writeLiteral r.entity
  let tsKey ← mpackWriteCstr (utf8Bytes "ts")
  let tags ← r.customTags.mapM writeTagEntry
  pure (mpackStartMap (4 + r.customTags.length.toUInt32) ++ idKey ++ mpackWriteU32 r.id.toUInt32 ++ inKey ++
    inValue ++ entKey ++ entValue ++ tsKey ++ mpackWriteI64 r.ts ++ tags.flatten)

theorem writeCustomTag_eq (t : Query.Tag) :
    writeCustomTag t = writeTagEntry (encodeTagKey t.key, encodeTagValue t.value) := by
  rcases t with ⟨key, value⟩
  cases key <;> cases value <;> rfl

/-- **The bytes depend on the record only.**  `encode_event` writes the fields of the record
`encodeEvent` describes, and fails where it fails. -/
theorem encodeEventBytes_eq (ctx : CmdCtx) (eventId : UInt32) :
    encodeEventBytes ctx eventId = (encodeEvent ctx eventId.toNat).bind EventRecord.mpackBytes := by
  have htags : writeCustomTag = writeTagEntry ∘ fun t => (encodeTagKey t.key, encodeTagValue t.value) :=
    funext writeCustomTag_eq
  by_cases h : ∃ inName ent, ctx.inTagValue = some (.literal (.str inName)) ∧
      ctx.entityTagValue = some (.literal ent)
  · obtain ⟨inName, ent, hin, hent⟩ := h
    have hid : eventId.toNat.toUInt32 = eventId := UInt32.ofNat_toNat
    simp only [encodeEventBytes, encodeEvent, hin, hent, Option.bind_some, EventRecord.mpackBytes,
      List.mapM_map, List.length_map, ← htags, CmdCtx.numCustomTags, hid]
  · -- without a literal `in` string and entity, neither writes
    have hnone : encodeEvent ctx eventId.toNat = none := by
      unfold encodeEvent
      split
      · exact absurd ⟨_, _, ‹_›, ‹_›⟩ h
      · rfl
    rw [hnone, Option.bind_none]
    unfold encodeEventBytes
    split
    · exact absurd ⟨_, _, ‹_›, ‹_›⟩ h
    · rfl

/-! ## What the bytes decode to -/

section Decode

variable {s : String}

theorem mpackWriteCstr_of_cstrText (h : CstrText s) :
    mpackWriteCstr (utf8Bytes s) = some (mpackWriteStr (utf8Bytes s)) :=
  mpackWriteCstr_text h.1 h.2

theorem decodes_cstrText (h : CstrText s) : Decodes (mpackWriteStr (utf8Bytes s)) [.str s] :=
  decodes_mpackWriteStr s h.2

theorem writeLiteral_decodes {l : Literal} (h : l.Writable) : ∃ bs, writeLiteral l = some bs ∧ Decodes bs [l.toMp] := by
  cases l with
  | str s => exact ⟨_, mpackWriteCstr_of_cstrText h, decodes_cstrText h⟩
  | num n => exact ⟨_, rfl, decodes_intBytes h.1 h.2⟩

theorem writeTagEntry_decodes {kv : String × Option Literal} (hk : CstrText kv.1)
    (hv : ∀ l, kv.2 = some l → l.Writable) :
    ∃ kb vb, writeTagEntry kv = some (kb ++ vb) ∧ Decodes kb [.str kv.1] ∧ Decodes vb [customValueMp kv.2] := by
  obtain ⟨k, v⟩ := kv
  cases v with
  | none =>
    refine ⟨_, _, ?_, decodes_cstrText hk, decodes_nilByte⟩
    simp only [writeTagEntry, mpackWriteCstr_of_cstrText hk, mpackWriteNil]
    rfl
  | some l =>
    obtain ⟨vb, hvb, hd⟩ := writeLiteral_decodes (hv l rfl)
    refine ⟨_, vb, ?_, decodes_cstrText hk, hd⟩
    simp only [writeTagEntry, mpackWriteCstr_of_cstrText hk, hvb]
    rfl

theorem mapM_writeTagEntry_decodes : ∀ {tags : List (String × Option Literal)},
    (∀ kv ∈ tags, CstrText kv.1 ∧ ∀ l, kv.2 = some l → l.Writable) →
    ∃ bss, tags.mapM writeTagEntry = some bss ∧
      Decodes bss.flatten (flatPairs (tags.map fun kv => (.str kv.1, customValueMp kv.2)))
  | [], _ => ⟨[], rfl, decodes_nil⟩
  | kv :: tags, h => by
    obtain ⟨hk, hv⟩ := h kv List.mem_cons_self
    obtain ⟨kb, vb, hkv, hkd, hvd⟩ := writeTagEntry_decodes hk hv
    obtain ⟨bss, hbss, hd⟩ := mapM_writeTagEntry_decodes fun kv' hkv' => h kv' (List.mem_cons_of_mem _ hkv')
    refine ⟨(kb ++ vb) :: bss, ?_, ?_⟩
    · rw [List.mapM_cons, hkv, hbss]
      rfl
    · rw [List.flatten_cons, List.map_cons, List.append_assoc]
      exact Decodes.entry hkd hvd hd

theorem toNat_mapCount {n : ℕ} (h : 4 + n < 2 ^ 32) : (4 + n.toUInt32).toNat = 4 + n := by
  have hsize : UInt32.size = 4294967296 := rfl
  rw [UInt32.toNat_add, UInt32.toNat_ofNat_of_lt' (by omega), show (4 : UInt32).toNat = 4 from rfl]
  exact Nat.mod_eq_of_lt h

/-- **A record's bytes are its map.**  A record whose texts and numbers the writer writes whole is
written as one map: `id`, `in`, `entity`, `ts`, then its custom tags, as many entries as the header
counts. -/
theorem EventRecord.decodes_mpackBytes {r : EventRecord} (h : r.Writable) :
    ∃ bs, r.mpackBytes = some bs ∧ Decodes bs [.map r.mpEntries] := by
  obtain ⟨ebs, hebs, hed⟩ := writeLiteral_decodes h.entity
  obtain ⟨bss, hbss, hds⟩ := mapM_writeTagEntry_decodes h.tags
  have hid : Decodes (mpackWriteU32 r.id.toUInt32) [.uint r.id] := by
    rw [mpackWriteU32, UInt32.toNat_ofNat_of_lt' h.id_lt]
    exact decodes_uintBytes h.id_lt
  have hbytes : r.mpackBytes = some (mapHeader (4 + r.customTags.length) ++
      (mpackWriteStr (utf8Bytes "id") ++ (mpackWriteU32 r.id.toUInt32 ++
      (mpackWriteStr (utf8Bytes "in") ++ (mpackWriteStr (utf8Bytes r.inName) ++
      (mpackWriteStr (utf8Bytes "entity") ++ (ebs ++
      (mpackWriteStr (utf8Bytes "ts") ++ (mpackWriteI64 r.ts ++ bss.flatten))))))))) := by
    simp (disch := decide) only [EventRecord.mpackBytes, mpackWriteCstr_text, mpackWriteCstr_of_cstrText h.inName,
      hebs, hbss, mpackStartMap, toNat_mapCount h.count_lt, List.append_assoc]
    rfl
  have hlen : r.mpEntries.length = 4 + r.customTags.length := by
    simp only [EventRecord.mpEntries, List.length_append, List.length_cons, List.length_nil, List.length_map]
  refine ⟨_, hbytes, Decodes.map ?_ hlen (hlen ▸ h.count_lt.trans_le' (by omega))⟩
  exact Decodes.entry (decodes_cstrText (by decide)) hid <|
    Decodes.entry (decodes_cstrText (by decide)) (decodes_cstrText h.inName) <|
    Decodes.entry (decodes_cstrText (by decide)) hed <|
    Decodes.entry (decodes_cstrText (by decide)) (decodes_intBytes h.ts.1 h.ts.2) hds

end Decode

/-! ## `encode_event` against its document -/

/-- **`encode_event` refines its document.**  For every context and id, `encode_event` fails where
`encodeEventMap` fails, and where `encodeEvent` gives a record the writer writes whole, the bytes of
`encode_event` are exactly the document `encodeEventMap` gives: the record's map. -/
theorem encodeEvent_bytes_decode (ctx : CmdCtx) (eventId : UInt32) :
    (encodeEventMap ctx eventId.toNat = none → encodeEventBytes ctx eventId = none) ∧
    ∀ r, encodeEvent ctx eventId.toNat = some r → r.Writable →
      ∃ bs, encodeEventBytes ctx eventId = some bs ∧ encodeEventMap ctx eventId.toNat = some (.map r.mpEntries) ∧
        Decodes bs [.map r.mpEntries] := by
  refine ⟨fun hnone => ?_, fun r hr hw => ?_⟩
  · have he : encodeEvent ctx eventId.toNat = none := Option.map_eq_none_iff.1 hnone
    rw [encodeEventBytes_eq, he, Option.bind_none]
  · obtain ⟨bs, hbs, hd⟩ := EventRecord.decodes_mpackBytes hw
    refine ⟨bs, ?_, ?_, hd⟩
    · rw [encodeEventBytes_eq, hr, Option.bind_some, hbs]
    · rw [encodeEventMap, hr, Option.map_some]

/-! ## From the input -/

section Input

theorem cstrText_of_keyChars {n : ℕ} {s : String} (h : KeyChars n s) (hn : n < 2 ^ 32) : CstrText s := by
  have hascii : ∀ c ∈ s.toList, c.val ≤ 127 ∧ c ≠ '\x00' := fun c hc =>
    ⟨val_le_of_validEnclosedChar (h.2 c hc), by rintro rfl; exact absurd (h.2 _ hc) (by decide)⟩
  obtain ⟨h0, hlen⟩ := utf8Bytes_ascii hascii
  exact ⟨h0, by rw [hlen]; exact lt_of_le_of_lt h.1 hn⟩

theorem writable_of_token {tok : Token} {l : Literal} (hlex : ∃ cs rest, Lexeme cs tok rest)
    (h : expTagValue tok = some (.literal l)) : l.Writable := by
  obtain ⟨cs, rest, hlex⟩ := hlex
  cases tok <;> simp only [expTagValue, Option.some.injEq, reduceCtorEq, Node.literal.injEq] at h <;> subst h
  · exact cstrText_of_keyChars hlex.keyChars_identifier (by decide)
  · exact cstrText_of_keyChars hlex.keyChars_literalString (by decide)
  · obtain ⟨h0, hmax⟩ := hlex.literalNumber_range
    exact ⟨by omega, by unfold int64Max at hmax; omega⟩

theorem mem_of_lastTagValue {tags : List Query.Tag} {k : ReservedKey} {v : Node} (h : lastTagValue tags k = some v) :
    ∃ t ∈ tags, t.key = .reserved k ∧ t.value = v := by
  obtain ⟨t, ht, rfl⟩ := Option.map_eq_some_iff.1 h
  exact ⟨t, List.mem_reverse.1 (List.mem_of_find?_eq_some ht),
    of_decide_eq_true (List.find?_some (p := fun t : Query.Tag => decide (t.key = .reserved k)) ht), rfl⟩

theorem encodeEvent_buildCmdContext {cmd : Command} {name : String} {l : Literal} (arrivalTs : ℤ) (eventId : ℕ)
    (hin : lastTagValue cmd.tags .kwIn = some (.literal (.str name)))
    (hent : lastTagValue cmd.tags .kwEntity = some (.literal l)) :
    encodeEvent (buildCmdContext cmd arrivalTs) eventId = some ⟨eventId, name, l, arrivalTs.tdiv 1000000,
      (cmd.tags.filter Tag.isCustom).map fun t => (encodeTagKey t.key, encodeTagValue t.value)⟩ := by
  have hctxIn : (buildCmdContext cmd arrivalTs).inTagValue = some (.literal (.str name)) :=
    (buildCmdContext_reservedValue cmd arrivalTs (k := .kwIn) (by decide)).trans hin
  have hctxEnt : (buildCmdContext cmd arrivalTs).entityTagValue = some (.literal l) :=
    (buildCmdContext_reservedValue cmd arrivalTs (k := .kwEntity) (by decide)).trans hent
  simp only [encodeEvent, hctxIn, hctxEnt, buildCmdContext_arrivalTs, buildCmdContext_customTags]

theorem int64Range_tdiv {n : ℤ} (h : Int64Range n) : Int64Range (n.tdiv 1000000) := by
  obtain ⟨hlo, hhi⟩ := h
  rcases le_or_gt 0 n with hn | hn
  · rw [Int.tdiv_eq_ediv_of_nonneg hn]
    constructor <;> omega
  · have hneg : n.tdiv 1000000 = -((-n) / 1000000) := by
      rw [← Int.tdiv_eq_ediv_of_nonneg (by omega), Int.neg_tdiv, Int.neg_neg]
    rw [hneg]
    constructor <;> omega

variable {toks : List Token} {cmd : Command}

theorem TagFrom.writable (hlex : ∀ tok ∈ toks, ∃ cs rest, Lexeme cs tok rest) {t : Query.Tag} (ht : TagFrom toks t)
    (hw : t.key ≠ .reserved .kwWhere) {l : Literal} (hl : t.value = .literal l) : l.Writable := by
  obtain ⟨tok, htok, he⟩ := ht.2 hw
  rw [hl] at he
  exact writable_of_token (hlex tok htok) he

theorem writable_of_parse (hlex : ∀ tok ∈ toks, ∃ cs rest, Lexeme cs tok rest) (hlen : toks.length ≤ maxTokens)
    (hparse : parse (some toks) = .ok cmd) {name : String} {l : Literal}
    (hin : lastTagValue cmd.tags .kwIn = some (.literal (.str name)))
    (hent : lastTagValue cmd.tags .kwEntity = some (.literal l)) (eventId : UInt32) {arrivalTs : ℤ}
    (hts : Int64Range arrivalTs) :
    EventRecord.Writable ⟨eventId.toNat, name, l, arrivalTs.tdiv 1000000,
      (cmd.tags.filter Tag.isCustom).map fun t => (encodeTagKey t.key, encodeTagValue t.value)⟩ := by
  have hfrom := parse_tagFrom hparse
  obtain ⟨ti, hti, hki, hvi⟩ := mem_of_lastTagValue hin
  obtain ⟨te, hte, hke, hve⟩ := mem_of_lastTagValue hent
  refine ⟨eventId.toNat_lt, ?_, ?_, int64Range_tdiv hts, ?_, ?_⟩
  · exact TagFrom.writable hlex (hfrom ti hti) (by rw [hki]; decide) hvi
  · exact TagFrom.writable hlex (hfrom te hte) (by rw [hke]; decide) hve
  · -- a custom tag: its key is a token's text, its value a token's literal or `nil`
    intro kv hkv
    obtain ⟨t, ht, rfl⟩ := List.mem_map.1 hkv
    obtain ⟨ht, hcustom⟩ := List.mem_filter.1 ht
    rcases t with ⟨key, value⟩
    cases key with
    | reserved k => simp [Tag.isCustom] at hcustom
    | custom k =>
      refine ⟨?_, fun l' hl' => ?_⟩
      · rcases (hfrom _ ht).1 k rfl with htok | htok
        · obtain ⟨cs, rest, hlk⟩ := hlex _ htok
          exact cstrText_of_keyChars hlk.keyChars_identifier (by decide)
        · obtain ⟨cs, rest, hlk⟩ := hlex _ htok
          exact cstrText_of_keyChars hlk.keyChars_literalString (by decide)
      · have hval : value = .literal l' := by
          cases value <;> simp only [encodeTagValue, Option.some.injEq, reduceCtorEq] at hl' ⊢
          exact congrArg _ hl'
        exact TagFrom.writable hlex (hfrom _ ht) (by simp) hval
  · -- at most one tag per token, and at most `MAX_TOKENS` tokens
    have hle := parse_tags_length hparse
    have hf := List.length_filter_le Tag.isCustom cmd.tags
    simp only [List.length_map]
    unfold maxTokens at hlen
    omega

/-- **From the input to the bytes.**  For every input that the tokenizer, the parser and the
validator accept as an `EVENT`, every event id and every `int64_t` arrival time, `encode_event`
succeeds, and its bytes are exactly one msgpack map: the id, the `in` string, the entity literal,
the arrival time in milliseconds and the custom tags in order, each key with its literal or `nil`. -/
theorem encodeEvent_input_bytes {s : String} (htok : tokTokenize s = some toks) (hparse : parse (some toks) = .ok cmd)
    (hvalid : validatorAnalyze cmd = .valid) (hty : cmd.type = .event) (eventId : UInt32) {arrivalTs : ℤ}
    (hts : Int64Range arrivalTs) :
    ∃ (name : String) (l : Literal) (bs : List UInt8), lastTagValue cmd.tags .kwIn = some (.literal (.str name)) ∧
      lastTagValue cmd.tags .kwEntity = some (.literal l) ∧
      encodeEventBytes (buildCmdContext cmd arrivalTs) eventId = some bs ∧
      Decodes bs [.map (EventRecord.mpEntries ⟨eventId.toNat, name, l, arrivalTs.tdiv 1000000,
        (cmd.tags.filter Tag.isCustom).map fun t => (encodeTagKey t.key, encodeTagValue t.value)⟩)] := by
  obtain ⟨-, -, -, hlen, hlexes⟩ := tokTokenize_eq_some_iff.1 htok
  obtain ⟨name, l, hin, hent, -, -⟩ := encodeEventMap_of_valid hparse hvalid hty eventId.toNat arrivalTs
  have hw := writable_of_parse (fun tok htok => hlexes.exists_lexeme htok) hlen hparse hin hent eventId hts
  obtain ⟨bs, hbs, hd⟩ := EventRecord.decodes_mpackBytes hw
  refine ⟨name, l, bs, hin, hent, ?_, hd⟩
  rw [encodeEventBytes_eq, encodeEvent_buildCmdContext arrivalTs _ hin hent, Option.bind_some, hbs]

theorem encodeEvent_input_bytes_sample :
    tokTokenize "EVENT in:c entity:u a:x" = some [.cmdEvent, .kwIn, .symColon, .identifier "c", .kwEntity,
      .symColon, .identifier "u", .identifier "a", .symColon, .identifier "x"] ∧
    parse (some [.cmdEvent, .kwIn, .symColon, .identifier "c", .kwEntity, .symColon, .identifier "u",
      .identifier "a", .symColon, .identifier "x"]) =
      .ok ⟨.event, [⟨.reserved .kwIn, .literal (.str "c")⟩, ⟨.reserved .kwEntity, .literal (.str "u")⟩,
        ⟨.custom "a", .literal (.str "x")⟩]⟩ ∧
    validatorAnalyze ⟨.event, [⟨.reserved .kwIn, .literal (.str "c")⟩, ⟨.reserved .kwEntity, .literal (.str "u")⟩,
        ⟨.custom "a", .literal (.str "x")⟩]⟩ = .valid ∧
    Int64Range 1700000000000000000 ∧
    ∃ (name : String) (l : Literal) (bs : List UInt8),
      lastTagValue [⟨.reserved .kwIn, .literal (.str "c")⟩, ⟨.reserved .kwEntity, .literal (.str "u")⟩,
        ⟨.custom "a", .literal (.str "x")⟩] .kwIn = some (.literal (.str name)) ∧
      lastTagValue [⟨.reserved .kwIn, .literal (.str "c")⟩, ⟨.reserved .kwEntity, .literal (.str "u")⟩,
        ⟨.custom "a", .literal (.str "x")⟩] .kwEntity = some (.literal l) ∧
      encodeEventBytes (buildCmdContext ⟨.event, [⟨.reserved .kwIn, .literal (.str "c")⟩,
        ⟨.reserved .kwEntity, .literal (.str "u")⟩, ⟨.custom "a", .literal (.str "x")⟩]⟩ 1700000000000000000) 7 =
        some bs ∧
      Decodes bs [.map (EventRecord.mpEntries ⟨(7 : UInt32).toNat, name, l, (1700000000000000000 : ℤ).tdiv 1000000,
        (([⟨.reserved .kwIn, .literal (.str "c")⟩, ⟨.reserved .kwEntity, .literal (.str "u")⟩,
          ⟨.custom "a", .literal (.str "x")⟩] : List Query.Tag).filter Tag.isCustom).map
          fun t => (encodeTagKey t.key, encodeTagValue t.value)⟩)] :=
  ⟨by decide +kernel, by decide +kernel, by decide +kernel, by decide,
    @encodeEvent_input_bytes [.cmdEvent, .kwIn, .symColon, .identifier "c", .kwEntity, .symColon, .identifier "u",
      .identifier "a", .symColon, .identifier "x"] ⟨.event, [⟨.reserved .kwIn, .literal (.str "c")⟩,
        ⟨.reserved .kwEntity, .literal (.str "u")⟩, ⟨.custom "a", .literal (.str "x")⟩]⟩
      "EVENT in:c entity:u a:x" (by decide +kernel) (by decide +kernel) (by decide +kernel) rfl 7
      1700000000000000000 (by decide)⟩

end Input

end Orrp.Engine
