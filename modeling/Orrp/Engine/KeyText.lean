import Orrp.Engine.WorkerMsg
import Orrp.Query.Lexer
import Orrp.Lib.Lines
import Mathlib.Data.String.Basic
import Mathlib.Data.Nat.Digits.Defs

/-!
# The key text of a custom tag

The op queues, the consumer's cache and the eval cache are keyed by the text `db_key_into` writes,
`container|db_type|key`, and the key of an inverted index is the text `custom_tag_into` writes,
`tag_key:value`.  What reaches these texts is narrow: a container name passes
`_is_valid_container_name`, and a tag's key and text value are words or quoted strings of the
tokenizer, its number a decimal `int64_t`.  None of them holds `|` or `:`, and all are ASCII and
short, so the text fits the 512-byte buffers and is read back into its parts.

* `serTagDbKey_eq` — the key text, written out, fits its buffers;
* `keyText_inj` — two key texts are equal only when their containers, databases, tag keys and
  value texts are;
* `createWriteToEventIndexOp_serDbKey_eq` — so two ops of custom tags are routed and cached under
  one key only when they are for one container, tag key and value text.
-/

namespace Orrp.Query

/-- The text of a literal as `custom_tag_into` writes it: `%s`, or `%lld`. -/
def Literal.text : Literal → String
  | .str s => s
  | .num n => toString n

/-- Text of at most `n` characters of a quoted string. -/
def KeyChars (n : ℕ) (s : String) : Prop := s.length ≤ n ∧ ∀ c ∈ s.toList, validEnclosedChar c

/-! ## Characters -/

section Chars

variable {c : Char}

theorem val_le_of_validEnclosedChar (h : validEnclosedChar c = true) : c.val ≤ 127 := by
  simp only [validEnclosedChar, validUnenclosedChar, Char.isAlphanum, Char.isAlpha, Char.isUpper,
    Char.isLower, Char.isDigit, Bool.or_eq_true, Bool.and_eq_true, decide_eq_true_eq] at h
  rcases h with (((((⟨-, h⟩ | ⟨-, h⟩) | ⟨-, h⟩) | h) | h) | h) | h
  any_goals exact UInt32.le_trans h (by decide)
  all_goals subst h; decide

theorem ne_bar_of_validEnclosedChar (h : validEnclosedChar c = true) : c ≠ '|' := by
  rintro rfl
  exact absurd h (by decide)

theorem ne_colon_of_validEnclosedChar (h : validEnclosedChar c = true) : c ≠ ':' := by
  rintro rfl
  exact absurd h (by decide)

theorem validEnclosedChar_of_unenclosed (h : validUnenclosedChar c = true) : validEnclosedChar c = true := by
  rw [validEnclosedChar, h, Bool.true_or]

theorem validEnclosedChar_toLower (h : validUnenclosedChar c = true) : validEnclosedChar c.toLower = true := by
  have hlt : c.toNat < 128 := by
    have := val_le_of_validEnclosedChar (validEnclosedChar_of_unenclosed h)
    rw [Char.toNat, UInt32.toNat]
    exact Nat.lt_succ_of_le (UInt32.le_iff_toNat_le.1 this)
  have hascii : ∀ n, n < 128 → validUnenclosedChar (Char.ofNat n) = true →
      validEnclosedChar (Char.ofNat n).toLower = true := by
    decide
  rw [← Char.ofNat_toNat c] at h ⊢
  exact hascii c.toNat hlt h

theorem validEnclosedChar_of_isDigit (h : c.isDigit = true) : validEnclosedChar c = true := by
  simp [validEnclosedChar, validUnenclosedChar, Char.isAlphanum, h]

theorem utf8Len_eq_length {cs : List Char} (h : ∀ c ∈ cs, c.val ≤ 127) : String.utf8Len cs = cs.length := by
  induction cs with
  | nil => rfl
  | cons c cs ih =>
    rw [String.utf8Len_cons, Char.utf8Size_eq_one_iff.2 (h c List.mem_cons_self),
      ih fun c' hc' => h c' (List.mem_cons_of_mem _ hc'), List.length_cons]

theorem utf8ByteSize_eq_length {s : String} (h : ∀ c ∈ s.toList, c.val ≤ 127) : s.utf8ByteSize = s.length := by
  rw [← String.ofList_toList (s := s), String.utf8ByteSize_ofList, String.length_ofList, utf8Len_eq_length h]

theorem KeyChars.utf8ByteSize {n : ℕ} {s : String} (h : KeyChars n s) : s.utf8ByteSize ≤ n := by
  rw [utf8ByteSize_eq_length fun c hc => val_le_of_validEnclosedChar (h.2 c hc)]
  exact h.1

theorem KeyChars.mono {n m : ℕ} {s : String} (h : KeyChars n s) (hnm : n ≤ m) : KeyChars m s :=
  ⟨le_trans h.1 hnm, h.2⟩

end Chars

/-! ## What the validator and the tokenizer admit -/

section Tokens

theorem kwMap_lookup_mem {x : String} {t : Token} (h : kwMap.lookup x = some t) : t ∈ kwMap.map Prod.snd := by
  obtain ⟨l₁, l₂, hl, -⟩ := List.lookup_eq_some_iff.1 h
  exact List.mem_map.2 ⟨(x, t), hl ▸ List.mem_append_right _ List.mem_cons_self, rfl⟩

variable {cs rest : List Char} {s : String}

theorem Lexeme.keyChars_identifier (h : Lexeme cs (.identifier s) rest) : KeyChars maxTextValLen s := by
  cases h with
  | keyword _ _ _ _ hkw _ => exact absurd (kwMap_lookup_mem hkw) (by simp [kwMap])
  | identifier _ hlen hw _ _ _ =>
    refine ⟨by rwa [String.length_ofList, List.length_map], fun c hc => ?_⟩
    rw [String.toList_ofList, List.mem_map] at hc
    obtain ⟨c', hc', rfl⟩ := hc
    exact validEnclosedChar_toLower (hw c' hc')

theorem Lexeme.keyChars_literalString (h : Lexeme cs (.literalString s) rest) : KeyChars maxTextValLen s := by
  cases h with
  | keyword _ _ _ _ hkw _ => exact absurd (kwMap_lookup_mem hkw) (by simp [kwMap])
  | string _ hlen hbody =>
    refine ⟨by rwa [String.length_ofList], fun c hc => ?_⟩
    rw [String.toList_ofList] at hc
    exact hbody c hc

theorem Lexeme.keyChars_literalNumber {n : ℤ} (h : Lexeme cs (.literalNumber n) rest) :
    KeyChars int64MaxChars (toString n) := by
  cases h with
  | keyword _ _ _ _ hkw _ => exact absurd (kwMap_lookup_mem hkw) (by simp [kwMap])
  | @number w _ _ _ _ hmax _ =>
    have hdigits : (toString (decimalValue w : ℤ)).toList = Nat.toDigits 10 (decimalValue w) := by
      show (toString (decimalValue w)).toList = _
      simp [Nat.repr]
    have hlt : decimalValue w < 10 ^ int64MaxChars := by
      have hz : (decimalValue w : ℤ) < 10 ^ 19 := lt_of_le_of_lt hmax (by decide)
      exact_mod_cast hz
    refine ⟨?_, fun c hc => ?_⟩
    · exact Nat.repr_length _ _ (by decide) hlt
    · rw [hdigits] at hc
      exact validEnclosedChar_of_isDigit (Nat.isDigit_of_mem_toDigits (by decide) (by decide) hc)

end Tokens

end Orrp.Query

namespace Orrp.Engine

open Orrp.Query Orrp.Lib

/-- The key text of the custom tag `k:v` of container `c` in its database `t`: `custom_tag_into`
into a 512-byte buffer, then `db_key_into` into another, as `_create_write_to_event_index_ops`
and `_eval_tag` do. -/
def serTagDbKey (c : String) (t : UsrDbType) (k : String) (v : Literal) : Option String :=
  (customTagInto 512 (.custom k) (.literal v)).bind fun s => dbKeyInto 512 ⟨c, .usr t, none, .str s⟩

/-- A tag key the tokenizer produces: the text of a word, lower-cased, or of a quoted string. -/
def IsTagKeyText (k : String) : Prop :=
  ∃ cs rest, Lexeme cs (.identifier k) rest ∨ Lexeme cs (.literalString k) rest

/-- A value `_parse_tag` makes of a token the tokenizer produces. -/
def IsTagValue (v : Literal) : Prop :=
  ∃ cs rest, (∃ s, (Lexeme cs (.identifier s) rest ∨ Lexeme cs (.literalString s) rest) ∧ v = .str s) ∨
    ∃ n, Lexeme cs (.literalNumber n) rest ∧ v = .num n

/-! ## What the validator and the tokenizer admit -/

section Admitted

theorem keyChars_of_isValidContainerName {c : String} (h : isValidContainerName c = true) : KeyChars 64 c := by
  simp only [isValidContainerName, isValidFilename, Bool.and_eq_true, decide_eq_true_eq, List.all_eq_true] at h
  obtain ⟨⟨⟨⟨-, hlen⟩, -⟩, -⟩, hall⟩ := h
  refine ⟨by rwa [← String.length_toList], fun ch hch => ?_⟩
  have hch := hall ch hch
  simp only [Bool.or_eq_true, decide_eq_true_eq] at hch
  simp only [validEnclosedChar, validUnenclosedChar, Bool.or_eq_true, decide_eq_true_eq]
  tauto

theorem IsTagKeyText.keyChars {k : String} (h : IsTagKeyText k) : KeyChars maxTextValLen k := by
  obtain ⟨cs, rest, h | h⟩ := h
  · exact h.keyChars_identifier
  · exact h.keyChars_literalString

theorem IsTagValue.keyChars {v : Literal} (h : IsTagValue v) : KeyChars maxTextValLen v.text := by
  obtain ⟨cs, rest, ⟨s, h | h, rfl⟩ | ⟨n, h, rfl⟩⟩ := h
  · exact h.keyChars_identifier
  · exact h.keyChars_literalString
  · exact (h.keyChars_literalNumber).mono (by decide)

end Admitted

/-! ## The key text -/

section KeyText

theorem customTagInto_custom_literal (size : ℕ) (k : String) (v : Literal) :
    customTagInto size (.custom k) (.literal v) = fitsInto size (k ++ ":" ++ v.text) := by
  cases v <;> rfl

theorem fitsInto_of_lt {size : ℕ} {s : String} (h : s.utf8ByteSize < size) : fitsInto size s = some s := by
  rw [fitsInto, if_neg (by omega)]

theorem utf8ByteSize_usrDbType (t : UsrDbType) : (toString t.toNat).utf8ByteSize = 1 := by
  cases t <;> rfl

variable {c k : String} {t : UsrDbType} {v : Literal}

/-- **The key text fits.**  For the names the validator and the tokenizer admit, both texts fit
their 512-byte buffers. -/
theorem serTagDbKey_eq (hc : KeyChars 64 c) (hk : KeyChars maxTextValLen k) (hv : KeyChars maxTextValLen v.text) :
    serTagDbKey c t k v = some (c ++ "|" ++ toString t.toNat ++ "|" ++ (k ++ ":" ++ v.text)) := by
  have hck := hc.utf8ByteSize
  have hkk := hk.utf8ByteSize
  have hvk := hv.utf8ByteSize
  have ht := utf8ByteSize_usrDbType t
  have hsep : ("|" : String).utf8ByteSize = 1 ∧ (":" : String).utf8ByteSize = 1 := ⟨rfl, rfl⟩
  rw [serTagDbKey, customTagInto_custom_literal, fitsInto_of_lt (by
    simp only [String.utf8ByteSize_append, maxTextValLen] at hkk hvk ⊢; omega)]
  exact fitsInto_of_lt (by simp only [String.utf8ByteSize_append, maxTextValLen] at hkk hvk ⊢; omega)

theorem toList_keyText (c d k x : String) :
    (c ++ "|" ++ d ++ "|" ++ (k ++ ":" ++ x)).toList = c.toList ++ '|' :: (d.toList ++ '|' :: (k.toList ++ ':' :: x.toList)) := by
  simp only [String.toList_append, List.append_assoc]
  rfl

theorem toString_usrDbType_inj {t t' : UsrDbType} (h : (toString t.toNat).toList = (toString t'.toNat).toList) : t = t' := by
  cases t <;> cases t' <;> first | rfl | exact absurd h (by decide)

theorem bar_not_mem_usrDbType (t : UsrDbType) : '|' ∉ (toString t.toNat).toList := by
  cases t <;> decide

/-- **The key text is read back.**  Cut at its first two `|` and its first `:` after them, the
text gives the container, the database, the tag key and the value text. -/
theorem keyText_inj {c c' k k' x x' : String} {t t' : UsrDbType} (hc : KeyChars 64 c) (hc' : KeyChars 64 c')
    (hk : KeyChars maxTextValLen k) (hk' : KeyChars maxTextValLen k')
    (h : c ++ "|" ++ toString t.toNat ++ "|" ++ (k ++ ":" ++ x) = c' ++ "|" ++ toString t'.toNat ++ "|" ++ (k' ++ ":" ++ x')) :
    c = c' ∧ t = t' ∧ k = k' ∧ x = x' := by
  have hl := congrArg String.toList h
  rw [toList_keyText, toList_keyText] at hl
  have hbar : ∀ {n : ℕ} {s : String}, KeyChars n s → '|' ∉ s.toList :=
    fun h hm => ne_bar_of_validEnclosedChar (h.2 _ hm) rfl
  have hcolon : ∀ {n : ℕ} {s : String}, KeyChars n s → ':' ∉ s.toList :=
    fun h hm => ne_colon_of_validEnclosedChar (h.2 _ hm) rfl
  obtain ⟨hcc, hl⟩ := append_sep_inj (hbar hc) (hbar hc') hl
  obtain ⟨htt, hl⟩ := append_sep_inj (bar_not_mem_usrDbType t) (bar_not_mem_usrDbType t') hl
  obtain ⟨hkk, hxx⟩ := append_sep_inj (hcolon hk) (hcolon hk') hl
  exact ⟨String.toList_inj.1 hcc, toString_usrDbType_inj htt, String.toList_inj.1 hkk, String.toList_inj.1 hxx⟩

/-- For container names the validator admits and tag keys and values the tokenizer produces, the
key text fits its buffers, and two key texts are equal exactly when their containers, databases,
tag keys and value texts are. -/
theorem serTagDbKey_fits_and_inj {c c' k k' : String} {t t' : UsrDbType} {v v' : Literal}
    (hc : isValidContainerName c = true) (hc' : isValidContainerName c' = true)
    (hk : IsTagKeyText k) (hk' : IsTagKeyText k') (hv : IsTagValue v) (hv' : IsTagValue v') :
    (serTagDbKey c t k v).isSome ∧
      (serTagDbKey c t k v = serTagDbKey c' t' k' v' ↔ c = c' ∧ t = t' ∧ k = k' ∧ v.text = v'.text) := by
  have hcc := keyChars_of_isValidContainerName hc
  have hcc' := keyChars_of_isValidContainerName hc'
  rw [serTagDbKey_eq (t := t) hcc hk.keyChars hv.keyChars, serTagDbKey_eq (t := t') hcc' hk'.keyChars hv'.keyChars,
    Option.some.injEq]
  refine ⟨rfl, keyText_inj hcc hcc' hk.keyChars hk'.keyChars, ?_⟩
  rintro ⟨rfl, rfl, rfl, hx⟩
  rw [hx]

/-- The word `x`, and the number `1` and the quoted string `"1"`, which have one text. -/
theorem serTagDbKey_fits_and_inj_sample :
    isValidContainerName "orders" = true ∧ IsTagKeyText (String.ofList (['x'].map Char.toLower)) ∧
      IsTagValue (.num (decimalValue ['1'])) ∧ IsTagValue (.str (String.ofList ['1'])) ∧
      (serTagDbKey "orders" .invertedEventIndex (String.ofList (['x'].map Char.toLower)) (.num (decimalValue ['1']))).isSome ∧
      (serTagDbKey "orders" .invertedEventIndex (String.ofList (['x'].map Char.toLower)) (.num (decimalValue ['1'])) =
          serTagDbKey "orders" .invertedEventIndex (String.ofList (['x'].map Char.toLower)) (.str (String.ofList ['1'])) ↔
        "orders" = "orders" ∧ UsrDbType.invertedEventIndex = .invertedEventIndex ∧
          String.ofList (['x'].map Char.toLower) = String.ofList (['x'].map Char.toLower) ∧
          (Literal.num (decimalValue ['1'])).text = (Literal.str (String.ofList ['1'])).text) := by
  have hend : EndsWord [] := fun _ hc => by cases hc
  have hk : IsTagKeyText (String.ofList (['x'].map Char.toLower)) :=
    ⟨_, _, Or.inl (@Lexeme.identifier ['x'] [] (by decide) (by decide) (List.forall_mem_singleton.2 rfl)
      ⟨'x', List.mem_singleton_self _, rfl⟩ (by decide) hend)⟩
  have hv : IsTagValue (.num (decimalValue ['1'])) :=
    ⟨_, _, Or.inr ⟨_, @Lexeme.number ['1'] [] (by decide) (List.forall_mem_singleton.2 rfl) (by decide) (by decide) hend,
      rfl⟩⟩
  have hv' : IsTagValue (.str (String.ofList ['1'])) :=
    ⟨_, _, Or.inl ⟨_, Or.inr (@Lexeme.string ['1'] [] (by decide) (by decide) (List.forall_mem_singleton.2 rfl)), rfl⟩⟩
  exact ⟨by decide, hk, hv, hv', serTagDbKey_fits_and_inj (by decide) (by decide) hk hk hv hv'⟩

end KeyText

/-! ## The caches -/

section Caches

variable {c c' k k' : String} {v v' : Literal}

theorem serTagDbKey_of_createWriteToEventIndexOp {e : ℕ} {op : OpQueueMsg}
    (h : createWriteToEventIndexOp c e ⟨.custom k, .literal v⟩ = .ok op) :
    serTagDbKey c .invertedEventIndex k v = some op.serDbKey := by
  let snap : Snapshot := ⟨c, [], fun _ => none, fun _ => none, fun _ => none, 0, fun _ _ h => by cases h⟩
  obtain ⟨_, -, -, hser, -⟩ := createWriteToEventIndexOp_serDbKey (show snap.containerName = c from rfl) h
  exact hser

/-- **Ops are routed apart.**  Two ops of custom tags, in containers the validator admits and with
keys and values the tokenizer produces, share the key they are routed and cached under only when
they are for one container, tag key and value text. -/
theorem createWriteToEventIndexOp_serDbKey_eq {e e' : ℕ} {op op' : OpQueueMsg}
    (hc : isValidContainerName c = true) (hc' : isValidContainerName c' = true)
    (hk : IsTagKeyText k) (hk' : IsTagKeyText k') (hv : IsTagValue v) (hv' : IsTagValue v')
    (h : createWriteToEventIndexOp c e ⟨.custom k, .literal v⟩ = .ok op)
    (h' : createWriteToEventIndexOp c' e' ⟨.custom k', .literal v'⟩ = .ok op')
    (hser : op.serDbKey = op'.serDbKey) : c = c' ∧ k = k' ∧ v.text = v'.text := by
  have hs := serTagDbKey_of_createWriteToEventIndexOp h
  have hs' := serTagDbKey_of_createWriteToEventIndexOp h'
  have hcc := keyChars_of_isValidContainerName hc
  have hcc' := keyChars_of_isValidContainerName hc'
  rw [serTagDbKey_eq hcc hk.keyChars hv.keyChars] at hs
  rw [serTagDbKey_eq hcc' hk'.keyChars hv'.keyChars] at hs'
  obtain ⟨hceq, -, hkeq, hveq⟩ := keyText_inj hcc hcc' hk.keyChars hk'.keyChars
    (Option.some.inj (hs.trans (hser ▸ hs'.symm)))
  exact ⟨hceq, hkeq, hveq⟩

end Caches

end Orrp.Engine
