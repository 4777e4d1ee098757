import Orrp.Lib.Msgpack
import Orrp.Engine.WorkerMsg
import Orrp.Engine.Validator
import Orrp.Query.ParseDepth

/-!
# An event as a msgpack map (`engine/worker/encoder.c`)

`encode_event` writes a record as one map of `4 + num_custom_tags` entries: `id`, `in`, `entity`
and `ts`, then one entry per custom tag, keyed by the tag's text.  The validator makes the custom
keys distinct from one another, but nothing keeps them apart from the four fixed keys.

* `encodeEventMap_of_valid` — every `EVENT` that parses and validates is encoded, to exactly its
  fields and its custom tags, with as many entries as the header counts;
* `encodeEventMap_keys` — the keys of that map are distinct exactly when no custom key is one of
  `id`, `in`, `entity` and `ts`.
-/

namespace Orrp.Query

open Orrp.Lib

/-- A literal as `encode_event` writes it: a string with `mpack_write_cstr`, a number with
`mpack_write_i64`. -/
def Literal.toMp : Literal → MpValue
  | .str s => .str s
  | .num n => .ofInt n

end Orrp.Query

namespace Orrp.Engine

open Orrp.Query Orrp.Lib

/-- A custom tag's value: its literal, `nil` for anything else. -/
def customValueMp : Option Literal → MpValue
  | some l => l.toMp
  | none => .nil

/-- The keys `encode_event` always writes. -/
def eventFieldKeys : List String := ["id", "in", "entity", "ts"]

/-- The entries `encode_event` writes for a record, in order: the id with `mpack_write_u32`, the
container, the entity, the arrival time in milliseconds, and the custom tags. -/
def EventRecord.mpEntries (r : EventRecord) : List (MpValue × MpValue) :=
  [(.str "id", .uint r.id), (.str "in", .str r.inName), (.str "entity", r.entity.toMp),
    (.str "ts", .ofInt r.ts)] ++ r.customTags.map fun kv => (.str kv.1, customValueMp kv.2)

/-- `encode_event` as the document it writes, `none` when it fails. -/
def encodeEventMap (ctx : CmdCtx) (eventId : ℕ) : Option MpValue :=
  (encodeEvent ctx eventId).map fun r => .map r.mpEntries

theorem keys_mpEntries (r : EventRecord) :
    MpValue.keys r.mpEntries = (eventFieldKeys ++ r.customTags.map Prod.fst).map .str := by
  simp [MpValue.keys, EventRecord.mpEntries, eventFieldKeys]

theorem map_encodeTagKey_filter_isCustom (tags : List Tag) :
    (tags.filter Tag.isCustom).map (fun t => encodeTagKey t.key) = tags.filterMap Tag.customKey := by
  induction tags with
  | nil => rfl
  | cons t ts ih =>
    rcases t with ⟨key, value⟩
    rw [List.filter_cons, List.filterMap_cons]
    cases key with
    | reserved k => simpa [Tag.isCustom, Tag.customKey] using ih
    | custom k => simpa [Tag.isCustom, Tag.customKey, encodeTagKey] using ih

theorem nodup_map_str {l : List String} : (l.map MpValue.str).Nodup ↔ l.Nodup :=
  List.nodup_map_iff fun _ _ h => MpValue.str.inj h

/-! ## The map of a valid `EVENT` -/

section Valid

variable {toks : Option (List Token)} {cmd : Command}

/-- **Encoding succeeds.**  An `EVENT` that parses and validates is encoded to its `in` string,
its entity literal, its arrival time in milliseconds and its custom tags in order; the header's
count is the number of entries written. -/
theorem encodeEventMap_of_valid (hparse : parse toks = .ok cmd) (hvalid : validatorAnalyze cmd = .valid)
    (hty : cmd.type = .event) (eventId : ℕ) (arrivalTs : ℤ) :
    ∃ (name : String) (l : Literal), lastTagValue cmd.tags .kwIn = some (.literal (.str name)) ∧
      lastTagValue cmd.tags .kwEntity = some (.literal l) ∧
      encodeEventMap (buildCmdContext cmd arrivalTs) eventId =
        some (.map (EventRecord.mpEntries ⟨eventId, name, l, arrivalTs.tdiv 1000000,
          (cmd.tags.filter Tag.isCustom).map fun t => (encodeTagKey t.key, encodeTagValue t.value)⟩)) ∧
      (EventRecord.mpEntries ⟨eventId, name, l, arrivalTs.tdiv 1000000,
          (cmd.tags.filter Tag.isCustom).map fun t => (encodeTagKey t.key, encodeTagValue t.value)⟩).length =
        4 + (buildCmdContext cmd arrivalTs).numCustomTags := by
  obtain ⟨hin, hent, hstr, -⟩ := validatorAnalyze_valid hvalid
  obtain ⟨ti, hti, hki, hi⟩ := lastTagValue_of_mem (hin (by rw [hty]; decide))
  obtain ⟨name, hname⟩ := hstr ti hti hki
  obtain ⟨te, hte, hke, he⟩ := lastTagValue_of_mem (hent hty)
  obtain ⟨l, hl⟩ := parse_literal hparse hte (by rw [hke]; decide)
  rw [hname] at hi
  rw [hl] at he
  refine ⟨name, l, hi, he, ?_, ?_⟩
  · have hctxIn : (buildCmdContext cmd arrivalTs).inTagValue = some (.literal (.str name)) :=
      (buildCmdContext_reservedValue cmd arrivalTs (k := .kwIn) (by decide)).trans hi
    have hctxEnt : (buildCmdContext cmd arrivalTs).entityTagValue = some (.literal l) :=
      (buildCmdContext_reservedValue cmd arrivalTs (k := .kwEntity) (by decide)).trans he
    simp only [encodeEventMap, encodeEvent, hctxIn, hctxEnt, buildCmdContext_arrivalTs,
      buildCmdContext_customTags, Option.map_some]
  · simp only [EventRecord.mpEntries, CmdCtx.numCustomTags, buildCmdContext_customTags,
      List.length_append, List.length_map, List.length_cons, List.length_nil]

/-- **The keys of an encoded event.**  For every `EVENT` that parses and validates, with any id and
arrival time, `encode_event` succeeds, and the keys of its map are pairwise distinct exactly when
no custom key is `id`, `in`, `entity` or `ts`: the validator compares custom keys only with each
other. -/
theorem encodeEventMap_keys (hparse : parse toks = .ok cmd) (hvalid : validatorAnalyze cmd = .valid)
    (hty : cmd.type = .event) (eventId : ℕ) (arrivalTs : ℤ) :
    ∃ entries, encodeEventMap (buildCmdContext cmd arrivalTs) eventId = some (.map entries) ∧
      ((MpValue.keys entries).Nodup ↔ ∀ k ∈ cmd.tags.filterMap Tag.customKey, k ∉ eventFieldKeys) := by
  obtain ⟨name, l, -, -, henc, -⟩ := encodeEventMap_of_valid hparse hvalid hty eventId arrivalTs
  refine ⟨_, henc, ?_⟩
  have hcustom : ((cmd.tags.filter Tag.isCustom).map
      fun t => (encodeTagKey t.key, encodeTagValue t.value)).map Prod.fst =
      cmd.tags.filterMap Tag.customKey := by
    rw [List.map_map]
    exact map_encodeTagKey_filter_isCustom _
  have hfixed : eventFieldKeys.Nodup := by decide
  have hnd := (validatorAnalyze_valid hvalid).2.2.2
  rw [keys_mpEntries, nodup_map_str, hcustom, List.nodup_append']
  constructor
  · rintro ⟨-, -, hdisj⟩ k hk hfield
    exact hdisj hfield hk
  · intro h
    exact ⟨hfixed, hnd, fun k hfield hk => h k hk hfield⟩

theorem encodeEventMap_keys_ts :
    parse (tokTokenize "EVENT in:c entity:u ts:5") =
      .ok ⟨.event, [⟨.reserved .kwIn, .literal (.str "c")⟩, ⟨.reserved .kwEntity, .literal (.str "u")⟩,
        ⟨.custom "ts", .literal (.num 5)⟩]⟩ ∧
    validatorAnalyze ⟨.event, [⟨.reserved .kwIn, .literal (.str "c")⟩,
        ⟨.reserved .kwEntity, .literal (.str "u")⟩, ⟨.custom "ts", .literal (.num 5)⟩]⟩ = .valid ∧
    (∃ entries, encodeEventMap (buildCmdContext ⟨.event, [⟨.reserved .kwIn, .literal (.str "c")⟩,
        ⟨.reserved .kwEntity, .literal (.str "u")⟩, ⟨.custom "ts", .literal (.num 5)⟩]⟩ 0) 1 =
        some (.map entries) ∧
      ((MpValue.keys entries).Nodup ↔ ∀ k ∈ ([⟨.reserved .kwIn, .literal (.str "c")⟩,
        ⟨.reserved .kwEntity, .literal (.str "u")⟩, ⟨.custom "ts", .literal (.num 5)⟩] : List Tag).filterMap
          Tag.customKey, k ∉ eventFieldKeys)) ∧
    ¬ ∀ k ∈ ([⟨.reserved .kwIn, .literal (.str "c")⟩, ⟨.reserved .kwEntity, .literal (.str "u")⟩,
        ⟨.custom "ts", .literal (.num 5)⟩] : List Tag).filterMap Tag.customKey, k ∉ eventFieldKeys :=
  ⟨by decide +kernel, by decide +kernel,
    @encodeEventMap_keys (tokTokenize "EVENT in:c entity:u ts:5") _ (by decide +kernel)
      (by decide +kernel) rfl 1 0,
    by decide⟩

end Valid

end Orrp.Engine
