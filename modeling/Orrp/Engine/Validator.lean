import Orrp.Query.Ast
import Mathlib.Data.List.Basic

/-!
# The validator (`engine/validator/validator.c`)

`validatorAnalyze` is `validator_analyze`: one walk over the tag list that stops at the first tag it
refuses, then the checks for the tags a command type requires.  A where-expression must be made of
tags, comparisons between a string and a number literal, `AND`/`OR` and `NOT`.

The `in` case passes the literal's `string_value` to `_is_valid_container_name` whatever the
literal holds.  For a number literal that is the number read as a pointer: `0` is `NULL`, which the
check refuses, and any other value is dereferenced (`ValidatorResult.fault`).

* `validateTag_ok` — what one tag the loop accepts can do to the flags;
* `validatorAnalyze_valid` — a valid command has its required tags, an `in` that is a string, and
  custom keys that are pairwise distinct;
* `validatorAnalyze_invalid_mem` — a refused command is refused with one of the validator's texts.
-/

namespace Orrp.Engine

open Orrp.Query

/-- What `validator_analyze` leaves in its result. -/
inductive ValidatorResult
  | valid
  | invalid (errMsg : String)
  /-- A read through a number literal taken for a string pointer. -/
  | fault
  deriving DecidableEq, Repr

/-- `_is_valid_filename`: 1 to 64 characters of `[A-Za-z0-9_-]`, not starting or ending with `.`. -/
def isValidFilename (name : String) : Bool :=
  let cs := name.toList
  !cs.isEmpty && cs.length ≤ 64 && cs.head? ≠ some '.' && cs.getLast? ≠ some '.' &&
    cs.all fun c => c.isAlphanum || c = '_' || c = '-'

/-- `_is_valid_container_name`. -/
def isValidContainerName (name : String) : Bool := isValidFilename name

/-- `_validate_comparison_op`: both operands are literals, one a string and one a number. -/
def validateComparisonOp (left right : Node) : Option String :=
  match left, right with
  | .literal (.str _), .literal (.num _) => none
  | .literal (.num _), .literal (.str _) => none
  | .literal _, .literal _ => some "Invalid comparison types"
  | _, _ => some "Invalid comparison"

/-- `_is_valid_where_exp`: `none` when the expression is valid, else the error message. -/
def isValidWhereExp : Node → Option String
  | .tag _ _ => none
  | .literal _ => some "Unexpected literal"
  | .logical _ l r =>
    match isValidWhereExp l with
    | some msg => some msg
    | none => isValidWhereExp r
  | .comparison _ l r => validateComparisonOp l r
  | .not a => isValidWhereExp a

/-- The `seen_*` flags and the custom keys met so far. -/
structure Seen where
  seenIn : Bool := false
  seenWhere : Bool := false
  seenEntity : Bool := false
  seenKey : Bool := false
  seenTake : Bool := false
  seenCursor : Bool := false
  customKeys : List String := []
  deriving DecidableEq, Repr

/-- One round of the `while (tag)` loop of `_validate_ast`: the flags after the tag, or why it is
refused. -/
def validateTag (cmdType : CommandType) (seen : Seen) (t : Tag) : Except ValidatorResult Seen :=
  match t.key with
  | .reserved .kwIn =>
    if cmdType = .index then
      .error (.invalid "Indexing specific containers is not supported yet. Indexes apply globally to new data containers.")
    else if seen.seenIn then .error (.invalid "Duplicate `in` tags not yet supported")
    else
      match t.value with
      | .literal (.str name) =>
        if isValidContainerName name then .ok { seen with seenIn := true }
        else .error (.invalid "Invalid container name")
      | .literal (.num 0) => .error (.invalid "Invalid container name")
      | _ => .error .fault
  | .reserved .kwId => .error (.invalid "`id` tag not yet supported")
  | .reserved .kwWhere =>
    if cmdType ≠ .query then .error (.invalid "`where` tag only supported for queries")
    else if seen.seenWhere then .error (.invalid "Duplicate `where` tag")
    else
      match isValidWhereExp t.value with
      | some msg => .error (.invalid msg)
      | none => .ok { seen with seenWhere := true }
  | .reserved .kwEntity =>
    if cmdType ≠ .event then .error (.invalid "Unexpected `entity` tag")
    else if seen.seenEntity then .error (.invalid "Duplicate `entity` tag")
    else
      match t.value with
      | .literal (.str s) =>
        if 62 < s.length then .error (.invalid "`entity` value too long")
        else .ok { seen with seenEntity := true }
      | _ => .ok { seen with seenEntity := true }
  | .reserved .kwTake =>
    if seen.seenTake then .error (.invalid "Duplicate `take` tag")
    else if cmdType ≠ .query then .error (.invalid "Unexpected `take` tag")
    else
      match t.value with
      | .literal (.num n) =>
        if n ≤ 0 then .error (.invalid "Value of `take` tag must be positive")
        else .ok { seen with seenTake := true }
      | _ => .error (.invalid "Value of `take` tag must be numeric")
  | .reserved .kwCursor =>
    if seen.seenCursor then .error (.invalid "Duplicate `cursor` tag")
    else if cmdType ≠ .query then .error (.invalid "Unexpected `cursor` tag")
    else
      match t.value with
      | .literal (.num n) =>
        if n ≤ 0 then .error (.invalid "Value of `cursor` tag must be positive")
        else .ok { seen with seenCursor := true }
      | _ => .error (.invalid "Value of `cursor` tag must be numeric")
  | .reserved .kwKey =>
    if cmdType ≠ .index then .error (.invalid "Unexpected `key` tag")
    else if seen.seenKey then .error (.invalid "Duplicate `key` tag")
    else .ok { seen with seenKey := true }
  | .custom k =>
    if cmdType ≠ .event then .error (.invalid "Unexpected tag")
    else if k ∈ seen.customKeys then .error (.invalid "Duplicate tag")
    else .ok { seen with customKeys := k :: seen.customKeys }

/-- The loop of `_validate_ast` over the tag list. -/
def validateTags (cmdType : CommandType) : Seen → List Tag → Except ValidatorResult Seen
  | seen, [] => .ok seen
  | seen, t :: ts => (validateTag cmdType seen t).bind fun seen' => validateTags cmdType seen' ts

/-- The checks after the loop: the tags each command type requires. -/
def validateRequired (cmdType : CommandType) (seen : Seen) : ValidatorResult :=
  if !seen.seenIn ∧ cmdType ≠ .index then .invalid "`in` tag is required"
  else if cmdType = .event ∧ !seen.seenEntity then .invalid "`entity` tag is required"
  else if cmdType = .query ∧ !seen.seenWhere then .invalid "`where` tag is required"
  else if cmdType = .index ∧ !seen.seenKey then .invalid "`key` tag is required"
  else .valid

/-- `validator_analyze`. -/
def validatorAnalyze (cmd : Command) : ValidatorResult :=
  match validateTags cmd.type {} cmd.tags with
  | .error r => r
  | .ok seen => validateRequired cmd.type seen

/-! ## What a valid command holds -/

/-- The text of a custom key. -/
def Tag.customKey (t : Tag) : Option String :=
  match t.key with
  | .custom k => some k
  | .reserved _ => none

/-- **One tag.**  A tag the loop accepts sets the flag of its key, or adds its custom key, which
was not met before; an `in` tag holds a string. -/
theorem validateTag_ok {ty : CommandType} {s s' : Seen} {t : Tag} (h : validateTag ty s t = .ok s') :
    (t.key = .reserved .kwIn ∧ (∃ name, t.value = .literal (.str name)) ∧ s' = { s with seenIn := true }) ∨
    (t.key = .reserved .kwWhere ∧ s' = { s with seenWhere := true }) ∨
    (t.key = .reserved .kwEntity ∧ s' = { s with seenEntity := true }) ∨
    (t.key = .reserved .kwTake ∧ s' = { s with seenTake := true }) ∨
    (t.key = .reserved .kwCursor ∧ s' = { s with seenCursor := true }) ∨
    (t.key = .reserved .kwKey ∧ s' = { s with seenKey := true }) ∨
    ∃ k, t.key = .custom k ∧ k ∉ s.customKeys ∧ s' = { s with customKeys := k :: s.customKeys } := by
  rcases t with ⟨key, value⟩
  cases key with
  | reserved k =>
    cases k <;> simp only [validateTag] at h
    · -- `in`: only a string that is a valid container name passes
      split_ifs at h
      split at h <;> (try split_ifs at h) <;> cases h
      exact .inl ⟨rfl, ⟨_, rfl⟩, rfl⟩
    all_goals
      (try split_ifs at h)
      (try split at h) <;> (try split_ifs at h) <;> cases h <;> simp
  | custom k =>
    simp only [validateTag] at h
    split_ifs at h with hty hdup
    cases h
    simp [hdup]

theorem validateTag_error {ty : CommandType} {s : Seen} {t : Tag} {r : ValidatorResult}
    (h : validateTag ty s t = .error r) : r ≠ .valid := by
  rcases t with ⟨key, value⟩
  cases key with
  | reserved k =>
    cases k <;> simp only [validateTag] at h <;>
      (try split_ifs at h) <;> (try split at h) <;> (try split_ifs at h) <;> cases h <;> simp
  | custom k =>
    simp only [validateTag] at h
    split_ifs at h <;> cases h <;> simp

theorem validateTags_cons {ty : CommandType} {seen seen' : Seen} {t : Tag} {ts : List Tag} :
    validateTags ty seen (t :: ts) = .ok seen' ↔
      ∃ s₁, validateTag ty seen t = .ok s₁ ∧ validateTags ty s₁ ts = .ok seen' := by
  rw [validateTags]
  cases validateTag ty seen t <;> simp [Except.bind]

section Run

variable {ty : CommandType}

theorem validateTags_in : ∀ {seen seen' : Seen} {ts : List Tag}, validateTags ty seen ts = .ok seen' →
    ∀ t ∈ ts, t.key = .reserved .kwIn → ∃ name, t.value = .literal (.str name)
  | _, _, [], _, t, ht, _ => absurd ht List.not_mem_nil
  | _, _, t' :: ts, h, t, ht, hk => by
    obtain ⟨s₁, h₁, h₂⟩ := validateTags_cons.1 h
    rcases List.mem_cons.1 ht with rfl | ht
    · rcases validateTag_ok h₁ with ⟨-, hv, -⟩ | ⟨hk', -⟩ | ⟨hk', -⟩ | ⟨hk', -⟩ | ⟨hk', -⟩ | ⟨hk', -⟩ |
        ⟨k, hk', -⟩ <;> simp_all
    · exact validateTags_in h₂ t ht hk

theorem validateTags_flag (f : Seen → Bool) (k : ReservedKey)
    (hstep : ∀ {s s' : Seen} {t : Tag}, validateTag ty s t = .ok s' → t.key ≠ .reserved k → f s' = f s) :
    ∀ {seen seen' : Seen} {ts : List Tag}, validateTags ty seen ts = .ok seen' →
      f seen' = true → f seen = true ∨ ∃ t ∈ ts, t.key = .reserved k
  | _, _, [], h, hs => by
    cases h
    exact .inl hs
  | _, _, t :: ts, h, hs => by
    obtain ⟨s₁, h₁, h₂⟩ := validateTags_cons.1 h
    rcases validateTags_flag f k hstep h₂ hs with hs₁ | ⟨t', ht', hk⟩
    · by_cases hk : t.key = .reserved k
      · exact .inr ⟨t, List.mem_cons_self, hk⟩
      · exact .inl (hstep h₁ hk ▸ hs₁)
    · exact .inr ⟨t', List.mem_cons_of_mem _ ht', hk⟩

theorem validateTag_seenIn {s s' : Seen} {t : Tag} (h : validateTag ty s t = .ok s')
    (hk : t.key ≠ .reserved .kwIn) : s'.seenIn = s.seenIn := by
  rcases validateTag_ok h with ⟨hk', -⟩ | ⟨-, rfl⟩ | ⟨-, rfl⟩ | ⟨-, rfl⟩ | ⟨-, rfl⟩ | ⟨-, rfl⟩ |
    ⟨k, -, -, rfl⟩
  · exact absurd hk' hk
  all_goals rfl

theorem validateTag_seenEntity {s s' : Seen} {t : Tag} (h : validateTag ty s t = .ok s')
    (hk : t.key ≠ .reserved .kwEntity) : s'.seenEntity = s.seenEntity := by
  rcases validateTag_ok h with ⟨-, -, rfl⟩ | ⟨-, rfl⟩ | ⟨hk', -⟩ | ⟨-, rfl⟩ | ⟨-, rfl⟩ | ⟨-, rfl⟩ |
    ⟨k, -, -, rfl⟩
  · rfl
  · rfl
  · exact absurd hk' hk
  all_goals rfl

theorem validateTags_customKeys : ∀ {seen seen' : Seen} {ts : List Tag}, validateTags ty seen ts = .ok seen' →
    seen.customKeys.Nodup → (ts.filterMap Tag.customKey ++ seen.customKeys).Nodup
  | _, _, [], _, hnd => by simpa using hnd
  | seen, _, t :: ts, h, hnd => by
    obtain ⟨s₁, h₁, h₂⟩ := validateTags_cons.1 h
    rcases validateTag_ok h₁ with ⟨hk, -, rfl⟩ | ⟨hk, rfl⟩ | ⟨hk, rfl⟩ | ⟨hk, rfl⟩ | ⟨hk, rfl⟩ | ⟨hk, rfl⟩ |
        ⟨k, hk, hnew, rfl⟩
    case inr.inr.inr.inr.inr.inr =>
      have hrest := validateTags_customKeys h₂ (List.nodup_cons.2 ⟨hnew, hnd⟩)
      rw [List.filterMap_cons, Tag.customKey, hk]
      exact List.perm_middle.nodup_iff.1 hrest
    all_goals
      rw [List.filterMap_cons, Tag.customKey, hk]
      have hrest := validateTags_customKeys h₂ hnd
      exact hrest

theorem validateTags_error : ∀ {seen : Seen} {ts : List Tag} {r : ValidatorResult},
    validateTags ty seen ts = .error r → r ≠ .valid
  | _, [], _, h => by cases h
  | seen, t :: ts, r, h => by
    rw [validateTags] at h
    rcases h₁ : validateTag ty seen t with r₁ | s₁
    · rw [h₁] at h
      cases h
      exact validateTag_error h₁
    · rw [h₁] at h
      exact validateTags_error h

end Run

/-- **A valid command** has an `in` tag unless it is an `INDEX`, an `entity` tag if it is an
`EVENT`; every `in` tag holds a string, and the custom keys are pairwise distinct. -/
theorem validatorAnalyze_valid {cmd : Command} (h : validatorAnalyze cmd = .valid) :
    (cmd.type ≠ .index → ∃ t ∈ cmd.tags, t.key = .reserved .kwIn) ∧
    (cmd.type = .event → ∃ t ∈ cmd.tags, t.key = .reserved .kwEntity) ∧
    (∀ t ∈ cmd.tags, t.key = .reserved .kwIn → ∃ name, t.value = .literal (.str name)) ∧
    (cmd.tags.filterMap Tag.customKey).Nodup := by
  unfold validatorAnalyze at h
  rcases hv : validateTags cmd.type {} cmd.tags with r | seen
  · rw [hv] at h
    exact absurd h (validateTags_error hv)
  rw [hv] at h
  have hreq : (cmd.type ≠ .index → seen.seenIn = true) ∧ (cmd.type = .event → seen.seenEntity = true) := by
    dsimp only [validateRequired] at h
    split_ifs at h with h₁ h₂
    exact ⟨fun hty => by simpa [hty] using h₁, fun hty => by simpa [hty] using h₂⟩
  refine ⟨fun hty => ?_, fun hty => ?_, validateTags_in hv, ?_⟩
  · rcases validateTags_flag Seen.seenIn .kwIn validateTag_seenIn hv (hreq.1 hty) with h0 | h0
    · cases h0
    · exact h0
  · rcases validateTags_flag Seen.seenEntity .kwEntity validateTag_seenEntity hv (hreq.2 hty) with h0 | h0
    · cases h0
    · exact h0
  · simpa using validateTags_customKeys hv List.nodup_nil

/-! ## The messages of a refusal -/

/-- The texts `validator_analyze` refuses a command with. -/
def validatorMessages : List String :=
  ["Indexing specific containers is not supported yet. Indexes apply globally to new data containers.",
    "Duplicate `in` tags not yet supported", "Invalid container name", "`id` tag not yet supported",
    "`where` tag only supported for queries", "Duplicate `where` tag", "Unexpected `entity` tag",
    "Duplicate `entity` tag", "`entity` value too long", "Duplicate `take` tag", "Unexpected `take` tag",
    "Value of `take` tag must be positive", "Value of `take` tag must be numeric", "Duplicate `cursor` tag",
    "Unexpected `cursor` tag", "Value of `cursor` tag must be positive",
    "Value of `cursor` tag must be numeric", "Unexpected `key` tag", "Duplicate `key` tag", "Unexpected tag",
    "Duplicate tag", "Unexpected literal", "Invalid comparison types", "Invalid comparison",
    "`in` tag is required", "`entity` tag is required", "`where` tag is required", "`key` tag is required"]

section Messages

variable {msg : String}

theorem isValidWhereExp_mem {e : Node} (h : isValidWhereExp e = some msg) : msg ∈ validatorMessages := by
  induction e with
  | tag => cases h
  | literal =>
    cases h
    decide
  | logical op l r ihl ihr =>
    simp only [isValidWhereExp] at h
    split at h
    · cases h
      exact ihl ‹_›
    · exact ihr h
  | comparison op l r =>
    simp only [isValidWhereExp, validateComparisonOp] at h
    split at h <;> cases h <;> decide
  | not a ih => exact ih h

theorem validateTag_invalid_mem {cmdType : CommandType} {seen : Seen} {t : Tag}
    (h : validateTag cmdType seen t = .error (.invalid msg)) : msg ∈ validatorMessages := by
  unfold validateTag at h
  split at h <;> (repeat' split at h) <;> cases h <;>
    first
    | decide
    | exact isValidWhereExp_mem ‹_›

theorem validateTags_invalid_mem {cmdType : CommandType} {seen : Seen} {ts : List Tag}
    (h : validateTags cmdType seen ts = .error (.invalid msg)) : msg ∈ validatorMessages := by
  induction ts generalizing seen with
  | nil => cases h
  | cons t ts ih =>
    simp only [validateTags] at h
    rcases ht : validateTag cmdType seen t with r | seen'
    · rw [ht] at h
      cases h
      exact validateTag_invalid_mem ht
    · rw [ht] at h
      exact ih h

theorem validatorAnalyze_invalid_mem {cmd : Command} (h : validatorAnalyze cmd = .invalid msg) :
    msg ∈ validatorMessages := by
  unfold validatorAnalyze at h
  split at h
  · subst h
    exact validateTags_invalid_mem ‹_›
  · unfold validateRequired at h
    split_ifs at h <;> cases h <;> decide

end Messages

end Orrp.Engine
