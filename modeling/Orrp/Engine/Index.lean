import Mathlib.Data.List.Sort
import Orrp.Lib.Msgpack
import Orrp.Engine.CmdContext
import Orrp.Engine.Validator
import Orrp.Query.Parser

/-!
# Index definitions and the registry (`engine/index/index.c`, `eng_index`)

`INDEX key:k` adds the definition of `k` to the system container's global registry
(`index_add`), which a new system container starts with the default definition of `ts`.  A user
container created later copies the registry byte for byte (`index_write_registry`) and opens it
(`index_open_registry`): it decodes the first `MAX_NUM_INDEXES` definitions the cursor meets, and
opens an index database for each under the name `_format_index_db_name` writes into a buffer of
`MAX_TEXT_VAL_LEN` bytes.

* `decodeIndexDef_indexPut` — a definition whose key has fewer than `MAX_TEXT_VAL_LEN` bytes decodes
  back to itself;
* `indexOpenRegistry_eq` — a registry of at most `MAX_NUM_INDEXES` such definitions opens with one
  index database per key, under names that differ for keys of at most 118 characters;
* `indexOpenRegistry_of_longKey`, `formatIndexDbName_eq_of_take`, `indexOpenRegistry_drops` — a key
  of `MAX_TEXT_VAL_LEN` bytes fails the open, keys that agree on their first 121 characters share a
  database name, and definitions past the 32nd are not opened.

`eng_index` reads the `key` tag's `string_value` whatever the literal holds, and the validator does
not check that tag's type (`literalReads_crossed`).
-/

namespace Orrp.Engine

open Orrp.Query Orrp.Lib

/-- `MAX_NUM_INDEXES`. -/
def maxNumIndexes : ℕ := 32

/-- `INDEX_TYPE_I64`, the value of the first `index_type_t`. -/
def indexTypeI64 : ℤ := 0

/-- `index_def_t`. -/
structure IndexDef where
  key : String
  type : ℤ
  deriving DecidableEq, Repr

/-- `DEFAULT_INDEXES`. -/
def defaultIndexes : List IndexDef := [⟨"ts", indexTypeI64⟩]

/-- `_format_index_db_name`: `snprintf` of `index_<key>_db` into `size` bytes keeps its first
`size - 1` characters.  Keys are ASCII (the tokenizer admits nothing else), so characters are
bytes. -/
def formatIndexDbName (key : String) (size : ℕ) : String :=
  String.ofList (("index_" ++ key ++ "_db").toList.take (size - 1))

/-- The document `_index_put` writes: a map of the key and of the type as a `u32`. -/
def indexPut (d : IndexDef) : MpValue :=
  .map [(.str "key", .str d.key), (.str "type", .uint (d.type % 2 ^ 32).toNat)]

/-- One round of the loop of `_decode_index_def`: the field's name into `key_buf[8]`, then the
value the name asks for, a `key` of at most `MAX_TEXT_VAL_LEN` bytes with its terminator; any
other field is skipped. -/
def decodeIndexField (acc : Option String × ℤ) (kv : MpValue × MpValue) :
    Option (Option String × ℤ) :=
  (MpValue.expectCstr 8 kv.1).bind fun name =>
    if name = "key" then (MpValue.expectCstr maxTextValLen kv.2).map fun key => (some key, acc.2)
    else if name = "type" then (MpValue.expectInt kv.2).map fun type => (acc.1, type)
    else some acc

/-- `_decode_index_def`: a map all of whose fields read, with a `key`. -/
def decodeIndexDef : MpValue → Option IndexDef
  | .map entries =>
    (entries.foldlM decodeIndexField (none, 0)).bind fun
      | (some key, type) => some ⟨key, type⟩
      | (none, _) => none
  | _ => none

/-- An index registry database: each definition's document under its key, in the order a cursor
visits them (the byte order of the keys). -/
abbrev Registry := List (String × MpValue)

/-- `db_put_result_t`. -/
inductive DbPutResult
  | ok | keyExists | err
  deriving DecidableEq, Repr

/-- `index_add`: the definition's document under its key, refused when the key is there
(`MDB_NOOVERWRITE`). -/
def indexAdd (d : IndexDef) (reg : Registry) : DbPutResult × Registry :=
  if reg.any (·.1 = d.key) then (.keyExists, reg)
  else (.ok, reg.orderedInsert (fun a b => a.1 ≤ b.1) (d.key, indexPut d))

/-- The registry `index_write_registry` writes from `DEFAULT_INDEXES`. -/
def defaultRegistry : Registry :=
  defaultIndexes.foldl (fun reg d => (indexAdd d reg).2) []

/-- `key_to_index`: each key's definition and the name of its index database. -/
abbrev KeyToIndex := String → Option (IndexDef × String)

/-- `index_open_registry` on a registry `index_write_registry` copied: the first `MAX_NUM_INDEXES`
definitions, all decoded or the open fails, each then filed under its key with its database's
name (`kh_put` of a key already there replaces its value). -/
def indexOpenRegistry (reg : Registry) : Option KeyToIndex :=
  ((reg.take maxNumIndexes).mapM fun e => decodeIndexDef e.2).map fun defs =>
    defs.foldl (fun m d => Function.update m d.key (some (d, formatIndexDbName d.key maxTextValLen)))
      fun _ => none

/-- The definition `eng_index` adds: the `key` tag's `string_value` with `INDEX_TYPE_I64`.  A read
of a number literal's `string_value` is `none` (`Literal.stringValue`). -/
def engIndexDef (ctx : CmdCtx) : Option IndexDef :=
  match ctx.keyTagValue with
  | some (.literal l) => l.stringValue.map fun key => ⟨key, indexTypeI64⟩
  | _ => none

/-! ## Decoding a definition -/

section Decode

variable {d : IndexDef}

/-- **A definition decodes back** when its key has fewer than `MAX_TEXT_VAL_LEN` bytes and no null
byte, and its type is an `int`. -/
theorem decodeIndexDef_indexPut (hkey : d.key.utf8ByteSize < maxTextValLen)
    (hnul : '\x00' ∉ d.key.toList) (htype : 0 ≤ d.type ∧ d.type < 2 ^ 31) :
    decodeIndexDef (indexPut d) = some d := by
  have hu : ((d.type % 2 ^ 32).toNat : ℤ) = d.type := by
    rw [Int.toNat_of_nonneg (Int.emod_nonneg _ (by omega))]
    exact Int.emod_eq_of_lt htype.1 (by omega)
  have hint : MpValue.expectInt (.uint (d.type % 2 ^ 32).toNat) = some d.type := by
    simp only [MpValue.expectInt]
    rw [if_pos (by omega), hu]
  have hname : ∀ s : String, s = "key" ∨ s = "type" → MpValue.expectCstr 8 (.str s) = some s := by
    rintro s (rfl | rfl) <;> decide
  simp only [decodeIndexDef, indexPut, List.foldlM_cons, List.foldlM_nil]
  simp only [decodeIndexField, hname "key" (.inl rfl), hname "type" (.inr rfl),
    MpValue.expectCstr_str hkey hnul, hint]
  rfl

/-- **A key of `MAX_TEXT_VAL_LEN` bytes does not decode**: `mpack_expect_cstr_alloc` needs a byte
more for the terminator. -/
theorem decodeIndexDef_indexPut_of_le (hkey : maxTextValLen ≤ d.key.utf8ByteSize) :
    decodeIndexDef (indexPut d) = none := by
  have hname : MpValue.expectCstr 8 (.str "key") = some "key" := by decide
  simp only [decodeIndexDef, indexPut, List.foldlM_cons, decodeIndexField, hname,
    MpValue.expectCstr_of_le hkey]
  rfl

end Decode

/-! ## Database names -/

section Names

theorem toList_take_indexDbName {k : String} (hk : 121 ≤ k.length) :
    ("index_" ++ k ++ "_db").toList.take (maxTextValLen - 1) = "index_".toList ++ k.toList.take 121 := by
  have h6 : "index_".toList.length = 6 := rfl
  have h0 : 121 - k.toList.length = 0 := by
    rw [String.length_toList]
    omega
  simp only [String.toList_append, List.append_assoc, List.take_append, h6]
  rw [List.take_of_length_le (by decide : 6 ≤ maxTextValLen - 1)]
  rw [show maxTextValLen - 1 - 6 = 121 from rfl, h0, List.take_zero, List.append_nil]

/-- **Names are cut at 127 characters**: keys of at least 121 characters that agree on their
first 121 get the same database name. -/
theorem formatIndexDbName_eq_of_take {k₁ k₂ : String} (h₁ : 121 ≤ k₁.length) (h₂ : 121 ≤ k₂.length)
    (h : k₁.toList.take 121 = k₂.toList.take 121) :
    formatIndexDbName k₁ maxTextValLen = formatIndexDbName k₂ maxTextValLen := by
  unfold formatIndexDbName
  rw [toList_take_indexDbName h₁, toList_take_indexDbName h₂, h]

end Names

/-! ## The registry `index_add` builds -/

section Registry

/-- The documents of the definitions `defs`, each under its own key, in the order of `defs`. -/
def registryOf (defs : List IndexDef) : Registry := defs.map fun d => (d.key, indexPut d)

/-- The global registry after `INDEX` commands adding `ds` in turn, from the defaults. -/
def globalRegistry (ds : List IndexDef) : Registry :=
  ds.foldl (fun reg d => (indexAdd d reg).2) defaultRegistry

theorem indexAdd_registryOf (d : IndexDef) (defs : List IndexDef) :
    (indexAdd d (registryOf defs)).2 =
      if d.key ∈ defs.map IndexDef.key then registryOf defs
      else registryOf (defs.orderedInsert (fun a b => a.key ≤ b.key) d) := by
  unfold indexAdd registryOf
  by_cases hd : d.key ∈ defs.map IndexDef.key
  · have hany : ((defs.map fun d => (d.key, indexPut d)).any fun e => decide (e.1 = d.key)) = true := by
      obtain ⟨d', hd', hk⟩ := List.mem_map.1 hd
      exact List.any_eq_true.2 ⟨(d'.key, indexPut d'), List.mem_map_of_mem hd', by simp [hk]⟩
    rw [if_pos hany, if_pos hd]
  · have hany : ((defs.map fun d => (d.key, indexPut d)).any fun e => decide (e.1 = d.key)) = false := by
      rw [List.any_eq_false]
      rintro ⟨k, v⟩ he hk
      obtain ⟨d', hd', he'⟩ := List.mem_map.1 he
      simp only [Prod.mk.injEq] at he'
      simp only [decide_eq_true_eq] at hk
      exact hd (List.mem_map.2 ⟨d', hd', he'.1.trans hk⟩)
    rw [if_neg (by simp [hany]), if_neg hd]
    exact (List.map_orderedInsert (fun a b : IndexDef => a.key ≤ b.key)
      (fun a b : String × MpValue => a.1 ≤ b.1) (fun d => (d.key, indexPut d)) defs d
      (fun _ _ => Iff.rfl) fun _ _ => Iff.rfl).symm

theorem foldl_indexAdd_registryOf : ∀ (ds defs₀ : List IndexDef), (defs₀.map IndexDef.key).Nodup →
    ∃ defs, ds.foldl (fun reg d => (indexAdd d reg).2) (registryOf defs₀) = registryOf defs ∧
      (defs.map IndexDef.key).Nodup ∧ (∀ d ∈ defs, d ∈ defs₀ ∨ d ∈ ds) ∧
      ∀ d ∈ defs₀ ++ ds, d.key ∈ defs.map IndexDef.key
  | [], defs₀, hnodup => ⟨defs₀, rfl, hnodup, fun d hd => .inl hd, fun d hd =>
      List.mem_map_of_mem (by simpa using hd)⟩
  | d :: ds, defs₀, hnodup => by
    rw [List.foldl_cons, indexAdd_registryOf]
    split
    · -- a key already there is refused
      rename_i hold
      obtain ⟨defs, heq, hnodup', hfrom, hkeys⟩ := foldl_indexAdd_registryOf ds defs₀ hnodup
      refine ⟨defs, heq, hnodup', fun d' hd' => ?_, fun d' hd' => ?_⟩
      · rcases hfrom d' hd' with h | h
        · exact .inl h
        · exact .inr (List.mem_cons_of_mem _ h)
      · rcases List.mem_append.1 hd' with h | h
        · exact hkeys d' (List.mem_append_left _ h)
        · rcases List.mem_cons.1 h with rfl | h
          · obtain ⟨d₀, hd₀, hk⟩ := List.mem_map.1 hold
            exact hk ▸ hkeys d₀ (List.mem_append_left _ hd₀)
          · exact hkeys d' (List.mem_append_right _ h)
    · -- a new key is inserted in key order
      rename_i hnew
      have hperm := List.perm_orderedInsert (fun a b : IndexDef => a.key ≤ b.key) d defs₀
      obtain ⟨defs, heq, hnodup', hfrom, hkeys⟩ := foldl_indexAdd_registryOf ds _
        ((hperm.map IndexDef.key).nodup_iff.2 (List.nodup_cons.2 ⟨hnew, hnodup⟩))
      refine ⟨defs, heq, hnodup', fun d' hd' => ?_, fun d' hd' => ?_⟩
      · rcases hfrom d' hd' with h | h
        · rcases List.mem_cons.1 (hperm.subset h) with rfl | h
          · exact .inr List.mem_cons_self
          · exact .inl h
        · exact .inr (List.mem_cons_of_mem _ h)
      · apply hkeys d'
        rcases List.mem_append.1 hd' with h | h
        · exact List.mem_append_left _ (hperm.symm.subset (List.mem_cons_of_mem _ h))
        · rcases List.mem_cons.1 h with rfl | h
          · exact List.mem_append_left _ (hperm.symm.subset List.mem_cons_self)
          · exact List.mem_append_right _ h

theorem globalRegistry_eq (ds : List IndexDef) : ∃ defs, globalRegistry ds = registryOf defs ∧
    (defs.map IndexDef.key).Nodup ∧ (∀ d ∈ defs, d ∈ defaultIndexes ∨ d ∈ ds) ∧
    ∀ d ∈ ds, d.key ∈ defs.map IndexDef.key := by
  obtain ⟨defs, heq, hnodup, hfrom, hkeys⟩ := foldl_indexAdd_registryOf ds defaultIndexes (by decide)
  exact ⟨defs, heq, hnodup, hfrom, fun d hd => hkeys d (List.mem_append_right _ hd)⟩

end Registry

/-! ## Opening a registry -/

section Open

theorem indexOpenRegistry_eq_none {reg : Registry} {e : String × MpValue}
    (he : e ∈ reg.take maxNumIndexes) (hdec : decodeIndexDef e.2 = none) :
    indexOpenRegistry reg = none := by
  unfold indexOpenRegistry
  rw [mapM_eq_none_of_mem (f := fun e : String × MpValue => decodeIndexDef e.2) he hdec]
  rfl

/-- A definition the engine can read back: a key of fewer than `MAX_TEXT_VAL_LEN` bytes without a
null byte, and an `int` type. -/
def IndexDef.Decodable (d : IndexDef) : Prop :=
  d.key.utf8ByteSize < maxTextValLen ∧ '\x00' ∉ d.key.toList ∧ 0 ≤ d.type ∧ d.type < 2 ^ 31

instance : DecidablePred IndexDef.Decodable := fun _ =>
  inferInstanceAs (Decidable (_ ∧ _ ∧ _ ∧ _))

theorem mapM_decodeIndexDef : ∀ {defs : List IndexDef}, (∀ d ∈ defs, d.Decodable) →
    (registryOf defs).mapM (fun e => decodeIndexDef e.2) = some defs
  | [], _ => rfl
  | d :: defs, h => by
    obtain ⟨hkey, hnul, htype⟩ := h d List.mem_cons_self
    rw [registryOf, List.map_cons, List.mapM_cons, ← registryOf,
      mapM_decodeIndexDef fun d' hd' => h d' (List.mem_cons_of_mem _ hd'),
      decodeIndexDef_indexPut hkey hnul htype]
    rfl

theorem foldl_update_apply (g : IndexDef → IndexDef × String) (k : String) :
    ∀ {defs : List IndexDef} (m : KeyToIndex), (defs.map IndexDef.key).Nodup →
      (defs.foldl (fun (m : KeyToIndex) (d : IndexDef) => Function.update m d.key (some (g d))) m) k =
        ((defs.find? fun d => d.key = k).map g).or (m k)
  | [], m, _ => by simp
  | d :: defs, m, hnodup => by
    obtain ⟨hd, hnodup⟩ := List.nodup_cons.1 hnodup
    rw [List.foldl_cons, foldl_update_apply g k _ hnodup, List.find?_cons]
    by_cases hk : d.key = k
    · -- the key of `d` is filed by `d` alone
      subst hk
      have hnone : (defs.find? fun d' => d'.key = d.key) = none := by
        rw [List.find?_eq_none]
        intro d' hd' hkey
        exact hd (List.mem_map.2 ⟨d', hd', of_decide_eq_true hkey⟩)
      simp [hnone]
    · simp [hk, Function.update_of_ne (Ne.symm hk)]

theorem exists_of_foldl_update (g : IndexDef → IndexDef × String) (k : String) :
    ∀ {defs : List IndexDef} (m : KeyToIndex),
      ((defs.foldl (fun (m : KeyToIndex) (d : IndexDef) => Function.update m d.key (some (g d))) m) k).isSome →
        (m k).isSome ∨ ∃ d ∈ defs, d.key = k
  | [], _, h => .inl h
  | d :: defs, m, h => by
    rw [List.foldl_cons] at h
    rcases @exists_of_foldl_update g k defs _ h with h | ⟨d', hd', hk⟩
    · by_cases hk : d.key = k
      · exact .inr ⟨d, List.mem_cons_self, hk⟩
      · rw [Function.update_of_ne (Ne.symm hk)] at h
        exact .inl h
    · exact .inr ⟨d', List.mem_cons_of_mem _ hd', hk⟩

/-- **Definitions past the `MAX_NUM_INDEXES`-th are not opened**: every key an open files is the
key of a definition among the first `MAX_NUM_INDEXES` the cursor met. -/
theorem indexOpenRegistry_drops {reg : Registry} {m : KeyToIndex} (h : indexOpenRegistry reg = some m)
    {k : String} (hk : (m k).isSome) :
    ∃ e ∈ reg.take maxNumIndexes, ∃ d, decodeIndexDef e.2 = some d ∧ d.key = k := by
  unfold indexOpenRegistry at h
  rcases hm : (reg.take maxNumIndexes).mapM (fun e => decodeIndexDef e.2) with _ | defs
  · rw [hm] at h
    cases h
  rw [hm] at h
  cases h
  rcases exists_of_foldl_update _ k _ hk with hnone | ⟨d, hd, hdk⟩
  · cases hnone
  obtain ⟨e, he, hdec⟩ := exists_of_mapM_eq_some hm d hd
  exact ⟨e, he, d, hdec, hdk⟩

/-- **Opening a registry.**  A registry of at most `MAX_NUM_INDEXES` decodable definitions with
distinct keys opens, filing each key with its own definition and its database's name. -/
theorem indexOpenRegistry_registryOf {defs : List IndexDef} (hlen : defs.length ≤ maxNumIndexes)
    (hdec : ∀ d ∈ defs, d.Decodable) (hnodup : (defs.map IndexDef.key).Nodup) :
    ∃ m, indexOpenRegistry (registryOf defs) = some m ∧ ∀ k,
      m k = (defs.find? fun d => d.key = k).map fun d => (d, formatIndexDbName d.key maxTextValLen) := by
  unfold indexOpenRegistry
  rw [List.take_of_length_le (by simpa [registryOf] using hlen), mapM_decodeIndexDef hdec]
  refine ⟨_, rfl, fun k => ?_⟩
  dsimp only
  rw [foldl_update_apply _ k _ hnodup, Option.or_none]

end Open

/-! ## Keys the registry cannot hold -/

section Keys

theorem length_le_of_globalRegistry {ds defs : List IndexDef} (hnodup : (defs.map IndexDef.key).Nodup)
    (hfrom : ∀ d ∈ defs, d ∈ defaultIndexes ∨ d ∈ ds) : defs.length ≤ ds.length + 1 := by
  have hsub : defs ⊆ defaultIndexes ++ ds := fun d hd => List.mem_append.2 (hfrom d hd)
  have hle := (List.subperm_of_subset (List.Nodup.of_map _ hnodup) hsub).length_le
  simp only [List.length_append, defaultIndexes, List.length_singleton] at hle
  omega

theorem find?_key {defs : List IndexDef} {k : String} (h : ∃ d ∈ defs, d.key = k) :
    ∃ d, (defs.find? fun d => d.key = k) = some d ∧ d.key = k := by
  obtain ⟨d, hd, hk⟩ := h
  rcases hf : defs.find? (fun d => decide (d.key = k)) with _ | d'
  · rw [List.find?_eq_none] at hf
    exact absurd (decide_eq_true hk) (hf d hd)
  · exact ⟨d', hf, of_decide_eq_true (List.find?_some (p := fun d : IndexDef => decide (d.key = k)) hf)⟩

theorem globalRegistry_opens {ds : List IndexDef} (hlen : ds.length + 1 ≤ maxNumIndexes)
    (hdec : ∀ d ∈ ds, d.Decodable) :
    ∃ (defs : List IndexDef) (m : KeyToIndex), indexOpenRegistry (globalRegistry ds) = some m ∧
      (∀ d ∈ ds, ∃ d' ∈ defs, d'.key = d.key) ∧
      ∀ k, m k = (defs.find? fun d => d.key = k).map
        fun d => (d, formatIndexDbName d.key maxTextValLen) := by
  obtain ⟨defs, heq, hnodup, hfrom, hkeys⟩ := globalRegistry_eq ds
  have hdec' : ∀ d ∈ defs, d.Decodable := by
    intro d hd
    rcases hfrom d hd with h | h
    · rw [defaultIndexes, List.mem_singleton] at h
      subst h
      decide
    · exact hdec d h
  obtain ⟨m, hm, hmk⟩ := indexOpenRegistry_registryOf
    ((length_le_of_globalRegistry hnodup hfrom).trans hlen) hdec' hnodup
  refine ⟨defs, m, heq ▸ hm, fun d hd => ?_, hmk⟩
  obtain ⟨d', hd', hk⟩ := List.mem_map.1 (hkeys d hd)
  exact ⟨d', hd', hk⟩

theorem mem_take_globalRegistry_single {d : IndexDef} (hts : d.key ≠ "ts") :
    (d.key, indexPut d) ∈ (globalRegistry [d]).take maxNumIndexes := by
  obtain ⟨defs, heq, hnodup, hfrom, hkeys⟩ := globalRegistry_eq [d]
  obtain ⟨d', hd', hdk⟩ := List.mem_map.1 (hkeys _ List.mem_cons_self)
  have hdef : d' = d := by
    rcases hfrom d' hd' with h | h
    · rw [defaultIndexes, List.mem_singleton] at h
      subst h
      exact absurd hdk.symm hts
    · exact List.mem_singleton.1 h
  have hlen : (registryOf defs).length ≤ maxNumIndexes := by
    have := length_le_of_globalRegistry hnodup hfrom
    simp only [registryOf, List.length_map, List.length_singleton] at this ⊢
    unfold maxNumIndexes
    omega
  rw [heq, List.take_of_length_le hlen]
  subst hdef
  exact List.mem_map_of_mem (f := fun d : IndexDef => (d.key, indexPut d)) hd'

theorem globalRegistry_dbName {ds : List IndexDef} (hlen : ds.length + 1 ≤ maxNumIndexes)
    (hdec : ∀ d ∈ ds, d.Decodable) :
    ∃ m, indexOpenRegistry (globalRegistry ds) = some m ∧
      ∀ d ∈ ds, (m d.key).map Prod.snd = some (formatIndexDbName d.key maxTextValLen) := by
  obtain ⟨defs, m, hm, hkeys, hmk⟩ := globalRegistry_opens hlen hdec
  refine ⟨m, hm, fun d hd => ?_⟩
  obtain ⟨d', hfind, hdk⟩ := find?_key (hkeys d hd)
  simp only [hmk, hfind, Option.map_some, hdk]

/-- **Long keys break the registry.**  After `INDEX key:k` with a key of `MAX_TEXT_VAL_LEN` bytes,
which the parser accepts, a new user container cannot open its registry; and after two decodable
keys of at least 121 characters that agree on their first 121, it opens both under one database
name. -/
theorem indexRegistry_longKeys :
    (∀ k : String, maxTextValLen ≤ k.utf8ByteSize →
      indexOpenRegistry (globalRegistry [⟨k, indexTypeI64⟩]) = none) ∧
    ∀ k₁ k₂ : String, (⟨k₁, indexTypeI64⟩ : IndexDef).Decodable →
      (⟨k₂, indexTypeI64⟩ : IndexDef).Decodable → 121 ≤ k₁.length → 121 ≤ k₂.length →
      k₁.toList.take 121 = k₂.toList.take 121 →
      ∃ m, indexOpenRegistry (globalRegistry [⟨k₁, indexTypeI64⟩, ⟨k₂, indexTypeI64⟩]) = some m ∧
        ∃ n, (m k₁).map Prod.snd = some n ∧ (m k₂).map Prod.snd = some n := by
  refine ⟨fun k hk => ?_, fun k₁ k₂ h₁ h₂ hl₁ hl₂ htake => ?_⟩
  · -- the definition of `k` is read, and it does not decode
    have hts : k ≠ "ts" := by
      rintro rfl
      exact absurd hk (by decide)
    exact indexOpenRegistry_eq_none (mem_take_globalRegistry_single hts) (decodeIndexDef_indexPut_of_le hk)
  · -- both keys are filed, each under the name of its own key
    have hdec : ∀ d ∈ [(⟨k₁, indexTypeI64⟩ : IndexDef), ⟨k₂, indexTypeI64⟩], d.Decodable := by
      intro d hd
      rcases List.mem_pair.1 hd with rfl | rfl
      · exact h₁
      · exact h₂
    obtain ⟨m, hm, hname⟩ := globalRegistry_dbName (by simp [maxNumIndexes]) hdec
    refine ⟨m, hm, formatIndexDbName k₁ maxTextValLen, hname _ List.mem_cons_self, ?_⟩
    rw [formatIndexDbName_eq_of_take hl₁ hl₂ htake]
    exact hname _ (List.mem_cons_of_mem _ List.mem_cons_self)

/-- The key of `MAX_TEXT_VAL_LEN` letters `a`. -/
def longKey : String := String.ofList (List.replicate 128 'a')

set_option maxRecDepth 8192 in
theorem indexRegistry_longKeys_longKey :
    parse (tokTokenize ("INDEX key:" ++ longKey)) = .ok ⟨.index, [⟨.reserved .kwKey, .literal (.str longKey)⟩]⟩ ∧
    validatorAnalyze ⟨.index, [⟨.reserved .kwKey, .literal (.str longKey)⟩]⟩ = .valid ∧
    engIndexDef (buildCmdContext ⟨.index, [⟨.reserved .kwKey, .literal (.str longKey)⟩]⟩ (-1)) =
      some ⟨longKey, indexTypeI64⟩ ∧
    maxTextValLen ≤ longKey.utf8ByteSize ∧
    indexOpenRegistry (globalRegistry [⟨longKey, indexTypeI64⟩]) = none :=
  ⟨by decide +kernel, by decide +kernel, rfl, by decide, indexRegistry_longKeys.1 longKey (by decide)⟩

end Keys

/-! ## Literals read across their type -/

/-- **Literals read across their type.**  The validator passes the number of an `in` tag to
`_is_valid_container_name` as a string pointer, a fault for any number but `0`; and it accepts an
`INDEX` whose `key` is a number, whose `string_value` `eng_index` then reads. -/
theorem literalReads_crossed (ty : CommandType) (hty : ty ≠ .index) (n : ℤ) (hn : n ≠ 0)
    (ts : List Tag) :
    validatorAnalyze ⟨ty, ⟨.reserved .kwIn, .literal (.num n)⟩ :: ts⟩ = .fault ∧
    validatorAnalyze ⟨.index, [⟨.reserved .kwKey, .literal (.num n)⟩]⟩ = .valid ∧
    (buildCmdContext ⟨.index, [⟨.reserved .kwKey, .literal (.num n)⟩]⟩ (-1)).keyTagValue =
      some (.literal (.num n)) ∧
    engIndexDef (buildCmdContext ⟨.index, [⟨.reserved .kwKey, .literal (.num n)⟩]⟩ (-1)) = none := by
  refine ⟨?_, ?_, rfl, rfl⟩
  · simp [validatorAnalyze, validateTags, validateTag, hty, hn, Except.bind]
  · simp [validatorAnalyze, validateTags, validateTag, validateRequired, Except.bind]

theorem literalReads_crossed_five :
    parse (tokTokenize "EVENT in:5 entity:u") =
      .ok ⟨.event, [⟨.reserved .kwIn, .literal (.num 5)⟩, ⟨.reserved .kwEntity, .literal (.str "u")⟩]⟩ ∧
    parse (tokTokenize "INDEX key:5") = .ok ⟨.index, [⟨.reserved .kwKey, .literal (.num 5)⟩]⟩ ∧
    (validatorAnalyze ⟨.event, [⟨.reserved .kwIn, .literal (.num 5)⟩,
        ⟨.reserved .kwEntity, .literal (.str "u")⟩]⟩ = .fault ∧
      validatorAnalyze ⟨.index, [⟨.reserved .kwKey, .literal (.num 5)⟩]⟩ = .valid ∧
      (buildCmdContext ⟨.index, [⟨.reserved .kwKey, .literal (.num 5)⟩]⟩ (-1)).keyTagValue =
        some (.literal (.num 5)) ∧
      engIndexDef (buildCmdContext ⟨.index, [⟨.reserved .kwKey, .literal (.num 5)⟩]⟩ (-1)) = none) :=
  ⟨by decide +kernel, by decide +kernel,
    literalReads_crossed .event (by decide) 5 (by decide) [⟨.reserved .kwEntity, .literal (.str "u")⟩]⟩

end Orrp.Engine
