import Orrp.Query.Tokenizer
import Mathlib.Data.List.TakeWhile

/-!
# The lexical grammar of the query language

`Lexes cs ts` says that the characters `cs` are the tokens `ts`, separated by whitespace; a token
is one `Lexeme`: a symbol, an operator (`>=`, `<=` and `!=` before `>` and `<`), a maximal run of
word characters (a number when it is all digits and fits an `int64_t`, else a keyword or a
lower-cased identifier), or a quoted run of word characters and blanks.  Words and strings are
`1 … MAX_TEXT_VAL_LEN` characters long.

* `nextLexeme_iff` — the branches of the loop of `tok_tokenize` read the one lexeme the input
  starts with, and fail exactly when it starts with none;
* `tokLoop_sound`, `tokLoop_complete` — the loop returns the tokens of the grammar, and returns
  them whenever there are at most `MAX_TOKENS` of them;
* `Lexes.unique` — the grammar reads an input one way at most;
* `tokTokenize_lexes` — `tok_tokenize` returns the tokens of the grammar, and `NULL` exactly for an
  empty, over-long or blank input or one outside the grammar.
-/

namespace Orrp.Query

/-- The next character, if any, does not continue a word. -/
def EndsWord (rest : List Char) : Prop := ∀ c ∈ rest.head?, validUnenclosedChar c = false

/-- One lexeme: the input `cs` starts with the text of the token `t`, and `rest` follows it. -/
inductive Lexeme : List Char → Token → List Char → Prop
  | lparen (rest : List Char) : Lexeme ('(' :: rest) .symLparen rest
  | rparen (rest : List Char) : Lexeme (')' :: rest) .symRparen rest
  | colon (rest : List Char) : Lexeme (':' :: rest) .symColon rest
  | eq (rest : List Char) : Lexeme ('=' :: rest) .opEq rest
  | gte (rest : List Char) : Lexeme ('>' :: '=' :: rest) .opGte rest
  | gt {rest : List Char} : rest.head? ≠ some '=' → Lexeme ('>' :: rest) .opGt rest
  | lte (rest : List Char) : Lexeme ('<' :: '=' :: rest) .opLte rest
  | lt {rest : List Char} : rest.head? ≠ some '=' → Lexeme ('<' :: rest) .opLt rest
  | neq (rest : List Char) : Lexeme ('!' :: '=' :: rest) .opNeq rest
  /-- An all-digit word that fits an `int64_t`. -/
  | number {w rest : List Char} : w ≠ [] → (∀ c ∈ w, c.isDigit) → w.length ≤ int64MaxChars →
      (decimalValue w : ℤ) ≤ int64Max → EndsWord rest →
      Lexeme (w ++ rest) (.literalNumber (decimalValue w)) rest
  /-- A word, not all digits, whose lower-cased text is a keyword. -/
  | keyword {w rest : List Char} {t : Token} : w ≠ [] → w.length ≤ maxTextValLen →
      (∀ c ∈ w, validUnenclosedChar c) → (∃ c ∈ w, c.isDigit = false) →
      kwMap.lookup (String.ofList (w.map Char.toLower)) = some t → EndsWord rest →
      Lexeme (w ++ rest) t rest
  /-- Any other word, lower-cased. -/
  | identifier {w rest : List Char} : w ≠ [] → w.length ≤ maxTextValLen →
      (∀ c ∈ w, validUnenclosedChar c) → (∃ c ∈ w, c.isDigit = false) →
      kwMap.lookup (String.ofList (w.map Char.toLower)) = none → EndsWord rest →
      Lexeme (w ++ rest) (.identifier (String.ofList (w.map Char.toLower))) rest
  /-- A quoted run of word characters and blanks, verbatim. -/
  | string {body rest : List Char} : body ≠ [] → body.length ≤ maxTextValLen →
      (∀ c ∈ body, validEnclosedChar c) →
      Lexeme ('"' :: (body ++ '"' :: rest)) (.literalString (String.ofList body)) rest

/-- The lexical grammar: the characters `cs` are the tokens `ts`, with whitespace between. -/
inductive Lexes : List Char → List Token → Prop
  | nil : Lexes [] []
  | space {c : Char} {cs : List Char} {ts : List Token} : isSpace c → Lexes cs ts → Lexes (c :: cs) ts
  | lexeme {cs rest : List Char} {t : Token} {ts : List Token} :
      Lexeme cs t rest → Lexes rest ts → Lexes cs (t :: ts)

/-- The lexeme the branches of the loop of `tok_tokenize` read at a character `c` followed by `cs`. -/
def nextLexeme (c : Char) (cs : List Char) : Option (Token × List Char) :=
  if c = '(' then some (.symLparen, cs)
  else if c = ')' then some (.symRparen, cs)
  else if c = '>' ∧ cs.head? = some '=' then some (.opGte, cs.tail)
  else if c = '>' then some (.opGt, cs)
  else if c = '<' ∧ cs.head? = some '=' then some (.opLte, cs.tail)
  else if c = '<' then some (.opLt, cs)
  else if c = '=' then some (.opEq, cs)
  else if c = '!' ∧ cs.head? = some '=' then some (.opNeq, cs.tail)
  else if c = ':' then some (.symColon, cs)
  else if c = '"' ∨ validUnenclosedChar c then scanText c cs
  else none

/-! ## The loop, one character at a time -/

section Loop

variable {fuel n : ℕ} {c : Char} {cs : List Char} {q : List Token}

theorem tokLoop_space (hc : isSpace c = true) : tokLoop (fuel + 1) (c :: cs) n q = tokLoop fuel cs n q := by
  rw [tokLoop]
  simp only [hc, if_true]

theorem tokLoop_lexeme (hc : isSpace c = false) :
    tokLoop (fuel + 1) (c :: cs) n q =
      (nextLexeme c cs).bind fun r => (enqueue n q r.1).bind fun s => tokLoop fuel r.2 s.1 s.2 := by
  rw [tokLoop]
  simp only [hc, Bool.false_eq_true, if_false]
  unfold nextLexeme
  simp only [apply_ite (fun o : Option (Token × List Char) =>
    o.bind fun r => (enqueue n q r.1).bind fun s => tokLoop fuel r.2 s.1 s.2), Option.bind_some,
    Option.bind_none]

end Loop

/-! ## Scanning a word or a string -/

section Scan

variable {c : Char} {cs w rest : List Char} {t : Token}

theorem takeWhile_dropWhile_run {p : Char → Bool} (hw : ∀ x ∈ w, p x) (hr : ∀ x ∈ rest.head?, p x = false) :
    (w ++ rest).takeWhile p = w ∧ (w ++ rest).dropWhile p = rest := by
  rw [List.takeWhile_append_of_pos hw, List.dropWhile_append_of_pos hw]
  cases rest with
  | nil => simp
  | cons x rest =>
    have hx : p x = false := hr x rfl
    simp [hx]

theorem run_of_takeWhile (p : Char → Bool) (cs : List Char) :
    cs = cs.takeWhile p ++ cs.dropWhile p ∧ (∀ x ∈ cs.takeWhile p, p x) ∧
      ∀ x ∈ (cs.dropWhile p).head?, p x = false := by
  refine ⟨(List.takeWhile_append_dropWhile).symm, fun x hx => List.mem_takeWhile_imp hx, fun x hx => ?_⟩
  have hstop := List.head?_dropWhile_not p cs
  rw [Option.mem_def] at hx
  rw [hx] at hstop
  exact hstop

theorem ne_of_validUnenclosedChar (hc : validUnenclosedChar c = true) :
    c ≠ '(' ∧ c ≠ ')' ∧ c ≠ '>' ∧ c ≠ '<' ∧ c ≠ '=' ∧ c ≠ '!' ∧ c ≠ ':' ∧ c ≠ '"' := by
  refine ⟨?_, ?_, ?_, ?_, ?_, ?_, ?_, ?_⟩ <;> rintro rfl <;> exact absurd hc (by decide)

theorem not_bad_length (hw : w ≠ []) (hlen : w.length ≤ maxTextValLen) :
    ¬(w.length = 0 ∨ maxTextValLen < w.length) := by
  have hpos := List.length_pos_iff.2 hw
  omega

theorem parseInt64_eq_some (hw : w ≠ []) (hlen : w.length ≤ int64MaxChars) (hmax : (decimalValue w : ℤ) ≤ int64Max) :
    parseInt64 w = some (decimalValue w : ℤ) := by
  have hpos := List.length_pos_iff.2 hw
  unfold parseInt64
  rw [if_neg (by omega), if_neg (by omega)]

theorem all_isDigit_eq_false (h : ∃ x ∈ w, x.isDigit = false) : w.all Char.isDigit = false := by
  obtain ⟨x, hx, hxd⟩ := h
  exact List.all_eq_false.2 ⟨x, hx, by simp [hxd]⟩

theorem scanText_word (hw : ∀ x ∈ c :: w, validUnenclosedChar x) (hc : c ≠ '"') (hend : EndsWord rest) :
    scanText c (w ++ rest) =
      if (c :: w).length = 0 ∨ maxTextValLen < (c :: w).length then none
      else if (c :: w).all Char.isDigit then
        if int64MaxChars < (c :: w).length then none
        else (parseInt64 (c :: w)).map fun n => (.literalNumber n, rest)
      else some (wordToken (c :: w), rest) := by
  obtain ⟨htake, hdrop⟩ := takeWhile_dropWhile_run (w := c :: w) hw hend
  rw [List.cons_append] at htake hdrop
  unfold scanText
  rw [if_neg hc, htake, hdrop]

theorem scanText_string (hbody : ∀ x ∈ w, validEnclosedChar x) :
    scanText '"' (w ++ '"' :: rest) =
      if w.length = 0 ∨ maxTextValLen < w.length then none
      else some (.literalString (String.ofList w), rest) := by
  have hq : ∀ x ∈ w, decide (x ≠ '"') = true := fun x hx => by
    have hx := hbody x hx
    simp only [decide_eq_true_eq]
    rintro rfl
    exact absurd hx (by decide)
  obtain ⟨htake, hdrop⟩ := @takeWhile_dropWhile_run w ('"' :: rest) _ hq (by simp)
  have hall : w.all validEnclosedChar = true := List.all_eq_true.2 hbody
  unfold scanText
  rw [if_pos rfl, htake, hdrop]
  simp only [hall, Bool.not_true, Bool.false_eq_true, if_false]

/-- **A scan is a lexeme.**  What `scanText` reads at a quote or a word character is a string, a
number, a keyword or an identifier of the grammar. -/
theorem scanText_sound (hc : c = '"' ∨ validUnenclosedChar c = true) (h : scanText c cs = some (t, rest)) :
    Lexeme (c :: cs) t rest := by
  unfold scanText at h
  split_ifs at h with hq
  · subst hq
    obtain ⟨hsplit, hbody, hstop⟩ := run_of_takeWhile (fun x => decide (x ≠ '"')) cs
    split at h
    · cases h
    · next x after hdrop =>
      rw [hdrop] at hsplit hstop
      have hx : x = '"' := by simpa using hstop x rfl
      subst hx
      dsimp only at h
      split_ifs at h with hall hlen
      obtain ⟨rfl, rfl⟩ := Prod.mk.inj (Option.some.inj h)
      have hlex := @Lexeme.string (cs.takeWhile fun x => decide (x ≠ '"')) after
        (fun hnil => hlen (.inl (List.length_eq_zero_iff.2 hnil))) (by omega) (by simpa using hall)
      rwa [← hsplit] at hlex
  · have hword : validUnenclosedChar c = true := hc.resolve_left hq
    obtain ⟨hsplit, hrun, hstop⟩ := run_of_takeWhile validUnenclosedChar (c :: cs)
    have hne : (c :: cs).takeWhile validUnenclosedChar ≠ [] := by
      rw [List.takeWhile_cons_of_pos hword]
      exact List.cons_ne_nil _ _
    rw [hsplit]
    dsimp only at h
    split_ifs at h with hlen hdig hlong
    · -- an all-digit word is a number when it fits an `int64_t`
      obtain ⟨n, hn, hnt⟩ := Option.map_eq_some_iff.1 h
      obtain ⟨rfl, rfl⟩ := Prod.mk.inj hnt
      unfold parseInt64 at hn
      split_ifs at hn with h0 hbig
      cases hn
      exact .number hne (by simpa using hdig) (by omega) (by omega) hstop
    · -- any other word is a keyword or an identifier
      obtain ⟨rfl, rfl⟩ := Prod.mk.inj (Option.some.inj h)
      have hletter : ∃ x ∈ (c :: cs).takeWhile validUnenclosedChar, x.isDigit = false := by
        simpa using hdig
      unfold wordToken
      dsimp only
      split
      · next t hkw => exact .keyword hne (by omega) hrun hletter hkw hstop
      · next hkw => exact .identifier hne (by omega) hrun hletter hkw hstop

end Scan

/-! ## One lexeme -/

section Next

variable {c : Char} {cs rest rest' : List Char} {t t' : Token}

theorem nextLexeme_of_space (hc : isSpace c = true) : nextLexeme c cs = none := by
  simp only [isSpace, Bool.or_eq_true, decide_eq_true_eq] at hc
  rcases hc with ((((rfl | rfl) | rfl) | rfl) | rfl) | rfl <;> rfl

theorem nextLexeme_word (hc : validUnenclosedChar c = true) : nextLexeme c cs = scanText c cs := by
  obtain ⟨h1, h2, h3, h4, h5, h6, h7, -⟩ := ne_of_validUnenclosedChar hc
  unfold nextLexeme
  simp [h1, h2, h3, h4, h5, h6, h7, hc]

theorem nextLexeme_quote : nextLexeme '"' cs = scanText '"' cs := rfl

/-- **What the loop reads is a lexeme.** -/
theorem nextLexeme_sound (h : nextLexeme c cs = some (t, rest)) : Lexeme (c :: cs) t rest := by
  unfold nextLexeme at h
  rcases ite_eq_iff.1 h with ⟨h1, h⟩ | ⟨-, h⟩
  · cases h; subst h1; exact .lparen _
  rcases ite_eq_iff.1 h with ⟨h2, h⟩ | ⟨-, h⟩
  · cases h; subst h2; exact .rparen _
  -- the operators of two characters, taken before those of one
  rcases ite_eq_iff.1 h with ⟨⟨rfl, hnext⟩, h⟩ | ⟨h3, h⟩
  · obtain ⟨cs, rfl⟩ := List.head?_eq_some_iff.1 hnext
    cases h
    exact .gte _
  rcases ite_eq_iff.1 h with ⟨rfl, h⟩ | ⟨-, h⟩
  · cases h; exact .gt fun hnext => h3 ⟨rfl, hnext⟩
  rcases ite_eq_iff.1 h with ⟨⟨rfl, hnext⟩, h⟩ | ⟨h5, h⟩
  · obtain ⟨cs, rfl⟩ := List.head?_eq_some_iff.1 hnext
    cases h
    exact .lte _
  rcases ite_eq_iff.1 h with ⟨rfl, h⟩ | ⟨-, h⟩
  · cases h; exact .lt fun hnext => h5 ⟨rfl, hnext⟩
  rcases ite_eq_iff.1 h with ⟨rfl, h⟩ | ⟨-, h⟩
  · cases h; exact .eq _
  rcases ite_eq_iff.1 h with ⟨⟨rfl, hnext⟩, h⟩ | ⟨-, h⟩
  · obtain ⟨cs, rfl⟩ := List.head?_eq_some_iff.1 hnext
    cases h
    exact .neq _
  rcases ite_eq_iff.1 h with ⟨rfl, h⟩ | ⟨-, h⟩
  · cases h; exact .colon _
  rcases ite_eq_iff.1 h with ⟨h10, h⟩ | ⟨-, h⟩
  · exact scanText_sound h10 h
  · cases h

theorem Lexeme.length_lt (h : Lexeme cs t rest) : rest.length < cs.length := by
  cases h with
  | number hw => simpa using List.length_pos_iff.2 hw
  | keyword hw => simpa using List.length_pos_iff.2 hw
  | identifier hw => simpa using List.length_pos_iff.2 hw
  | string => simp; omega
  | _ => simp only [List.length_cons]; omega

theorem exists_of_cons_eq_append {w : List Char} (hw : w ≠ []) (hs : c :: cs = w ++ rest) :
    ∃ w', w = c :: w' ∧ cs = w' ++ rest := by
  rcases List.cons_eq_append_iff.1 hs with ⟨rfl, -⟩ | hcons
  · exact absurd rfl hw
  · exact hcons

theorem nextLexeme_wordToken {w : List Char} (hw : ∀ x ∈ c :: w, validUnenclosedChar x)
    (hlen : (c :: w).length ≤ maxTextValLen) (hletter : ∃ x ∈ c :: w, x.isDigit = false) (hend : EndsWord rest) :
    nextLexeme c (w ++ rest) = some (wordToken (c :: w), rest) := by
  have hc := hw c List.mem_cons_self
  rw [nextLexeme_word hc, scanText_word hw (ne_of_validUnenclosedChar hc).2.2.2.2.2.2.2 hend,
    if_neg (not_bad_length (List.cons_ne_nil _ _) hlen), all_isDigit_eq_false hletter]
  rfl

/-- **The loop reads every lexeme.**  At the first character of a lexeme, the loop reads that lexeme. -/
theorem nextLexeme_complete (h : Lexeme (c :: cs) t rest) : nextLexeme c cs = some (t, rest) := by
  generalize hs : c :: cs = s at h
  cases h with
  | lparen => cases hs; rfl
  | rparen => cases hs; rfl
  | colon => cases hs; rfl
  | eq => cases hs; rfl
  | gte => cases hs; rfl
  | gt hnext =>
    cases hs
    unfold nextLexeme
    rw [if_neg (by decide), if_neg (by decide), if_neg fun h => hnext h.2, if_pos rfl]
  | lte => cases hs; rfl
  | lt hnext =>
    cases hs
    unfold nextLexeme
    rw [if_neg (by decide), if_neg (by decide), if_neg (by simp), if_neg (by decide), if_neg fun h => hnext h.2,
      if_pos rfl]
  | neq => cases hs; rfl
  | @number w _ hw hdig hlen hmax hend =>
    obtain ⟨w, rfl, rfl⟩ := exists_of_cons_eq_append hw hs
    have hvalid : ∀ y ∈ c :: w, validUnenclosedChar y := fun y hy => by
      simp [validUnenclosedChar, Char.isAlphanum, hdig y hy]
    rw [nextLexeme_word (hvalid c List.mem_cons_self),
      scanText_word hvalid (ne_of_validUnenclosedChar (hvalid c List.mem_cons_self)).2.2.2.2.2.2.2 hend]
    have hall : (c :: w).all Char.isDigit = true := List.all_eq_true.2 hdig
    have hshort : (c :: w).length ≤ maxTextValLen := le_trans hlen (by decide)
    rw [if_neg (not_bad_length hw hshort), if_pos hall, if_neg (not_lt.2 hlen), parseInt64_eq_some hw hlen hmax]
    rfl
  | @keyword w _ _ hw hlen hvalid hletter hkw hend =>
    obtain ⟨w, rfl, rfl⟩ := exists_of_cons_eq_append hw hs
    rw [nextLexeme_wordToken hvalid hlen hletter hend]
    unfold wordToken
    dsimp only
    rw [hkw]
  | @identifier w _ hw hlen hvalid hletter hkw hend =>
    obtain ⟨w, rfl, rfl⟩ := exists_of_cons_eq_append hw hs
    rw [nextLexeme_wordToken hvalid hlen hletter hend]
    unfold wordToken
    dsimp only
    rw [hkw]
  | @string body _ hbody hlen hall =>
    obtain ⟨rfl, rfl⟩ := List.cons.inj hs
    rw [nextLexeme_quote, scanText_string hall, if_neg (not_bad_length hbody hlen)]

theorem Lexeme.isSpace_eq_false (h : Lexeme (c :: cs) t rest) : isSpace c = false := by
  cases hc : isSpace c with
  | false => rfl
  | true =>
    have hnext := nextLexeme_complete h
    rw [nextLexeme_of_space hc] at hnext
    cases hnext

theorem Lexeme.functional (h : Lexeme cs t rest) (h' : Lexeme cs t' rest') : t = t' ∧ rest = rest' := by
  cases cs with
  | nil => exact absurd h.length_lt (Nat.not_lt_zero _)
  | cons c cs =>
    have hsame := (nextLexeme_complete h).symm.trans (nextLexeme_complete h')
    simpa using hsame

end Next

/-! ## The loop over the whole input -/

section Run

variable {fuel n : ℕ} {cs : List Char} {q r ts us : List Token} {t : Token}

@[simp] theorem tokLoop_nil : tokLoop fuel [] n q = some q.reverse := by
  cases fuel <;> rfl

theorem enqueue_eq_some {s : ℕ × List Token} : enqueue n q t = some s ↔ n < maxTokens ∧ s = (n + 1, t :: q) := by
  unfold enqueue maxToks
  by_cases hfull : maxTokens ≤ n
  · rw [if_pos (decide_eq_true hfull)]
    simp only [reduceCtorEq, false_iff, not_and]
    omega
  · rw [if_neg (by simpa using hfull), Option.some.injEq]
    exact ⟨fun h => ⟨by omega, h.symm⟩, fun h => h.2.symm⟩

/-- **The loop is sound.**  The loop returns the queue so far, then tokens of the grammar for the
rest of the input, no more than the queue has room for.  The proof follows the recursion of
`tokLoop`. -/
theorem tokLoop_sound : ∀ {fuel cs n q r}, n ≤ maxTokens → tokLoop fuel cs n q = some r →
    ∃ ts, r = q.reverse ++ ts ∧ Lexes cs ts ∧ n + ts.length ≤ maxTokens
  | _, [], n, q, r, hn, h => by
    rw [tokLoop_nil] at h
    cases h
    exact ⟨[], by simp, .nil, by simpa using hn⟩
  | 0, _ :: _, _, _, _, _, h => by cases h
  | fuel + 1, c :: cs, n, q, r, hn, h => by
    cases hc : isSpace c with
    | true =>
      rw [tokLoop_space hc] at h
      obtain ⟨ts, rfl, hlex, hlen⟩ := tokLoop_sound hn h
      exact ⟨ts, rfl, .space hc hlex, hlen⟩
    | false =>
      rw [tokLoop_lexeme hc, Option.bind_eq_some_iff] at h
      obtain ⟨⟨t, rest⟩, hnext, h⟩ := h
      rw [Option.bind_eq_some_iff] at h
      obtain ⟨s, henq, h⟩ := h
      obtain ⟨hroom, rfl⟩ := enqueue_eq_some.1 henq
      obtain ⟨ts, rfl, hlex, hlen⟩ := tokLoop_sound hroom h
      refine ⟨t :: ts, by simp, .lexeme (nextLexeme_sound hnext) hlex, ?_⟩
      rw [List.length_cons]
      omega

/-- **The loop is complete.**  With fuel for every character, the loop returns the tokens of the
grammar whenever the queue has room for them. -/
theorem tokLoop_complete (h : Lexes cs ts) (hfuel : cs.length ≤ fuel) (hroom : n + ts.length ≤ maxTokens) :
    tokLoop fuel cs n q = some (q.reverse ++ ts) := by
  induction h generalizing fuel n q with
  | nil => simp
  | @space c cs ts hc _ ih =>
    rw [List.length_cons] at hfuel
    obtain ⟨fuel, rfl⟩ : ∃ f, fuel = f + 1 := ⟨fuel - 1, by omega⟩
    rw [tokLoop_space hc]
    exact ih (by omega) hroom
  | @lexeme cs rest t ts hl _ ih =>
    have hshort := hl.length_lt
    obtain ⟨c, cs, rfl⟩ : ∃ c cs', cs = c :: cs' := List.exists_cons_of_ne_nil (List.ne_nil_of_length_pos (by omega))
    rw [List.length_cons] at hroom hfuel hshort
    obtain ⟨fuel, rfl⟩ : ∃ f, fuel = f + 1 := ⟨fuel - 1, by omega⟩
    have henq : enqueue n q t = some (n + 1, t :: q) := enqueue_eq_some.2 ⟨by omega, rfl⟩
    rw [tokLoop_lexeme hl.isSpace_eq_false, nextLexeme_complete hl, Option.bind_some, henq,
      Option.bind_some, ih (by omega) (by omega)]
    simp

theorem tokLoop_eq_some_iff (hfuel : cs.length ≤ fuel) :
    tokLoop fuel cs 0 [] = some ts ↔ Lexes cs ts ∧ ts.length ≤ maxTokens := by
  constructor
  · intro h
    obtain ⟨ts', rfl, hlex, hlen⟩ := tokLoop_sound (Nat.zero_le _) h
    exact ⟨by simpa using hlex, by simpa using hlen⟩
  · rintro ⟨hlex, hlen⟩
    have hrun : tokLoop fuel cs 0 [] = some ([].reverse ++ ts) := tokLoop_complete hlex hfuel (by simpa using hlen)
    simpa using hrun

/-- **The grammar reads an input one way at most.** -/
theorem Lexes.unique (h : Lexes cs ts) (h' : Lexes cs us) : ts = us := by
  induction h generalizing us with
  | nil =>
    cases h' with
    | nil => rfl
    | lexeme hl => exact absurd hl.length_lt (Nat.not_lt_zero _)
  | space hc _ ih =>
    cases h' with
    | space _ h' => exact ih h'
    | lexeme hl =>
      rw [hl.isSpace_eq_false] at hc
      cases hc
  | lexeme hl _ ih =>
    cases h' with
    | nil => exact absurd hl.length_lt (Nat.not_lt_zero _)
    | space hc =>
      rw [hl.isSpace_eq_false] at hc
      cases hc
    | lexeme hl' h' =>
      obtain ⟨rfl, rfl⟩ := hl.functional hl'
      rw [ih h']

theorem lexes_nil_iff : Lexes cs [] ↔ ∀ c ∈ cs, isSpace c = true := by
  induction cs with
  | nil => simp [Lexes.nil]
  | cons c cs ih =>
    rw [List.forall_mem_cons]
    constructor
    · intro h
      cases h with
      | space hc h => exact ⟨hc, ih.1 h⟩
    · rintro ⟨hc, hcs⟩
      exact .space hc (ih.2 hcs)

end Run

/-! ## `tok_tokenize` -/

section Tokenize

variable {s : String} {ts : List Token}

theorem tokTokenize_eq_some_iff :
    tokTokenize s = some ts ↔
      0 < s.utf8ByteSize ∧ s.utf8ByteSize ≤ maxCommandLen ∧ ts ≠ [] ∧ ts.length ≤ maxTokens ∧ Lexes s.toList ts := by
  have hloop := fun us => @tokLoop_eq_some_iff s.length s.toList us (le_of_eq s.length_toList)
  unfold tokTokenize
  by_cases hbad : s.utf8ByteSize = 0 ∨ maxCommandLen < s.utf8ByteSize
  · rw [if_pos hbad]
    simp only [reduceCtorEq, false_iff]
    omega
  · rw [if_neg hbad]
    have hsize : 0 < s.utf8ByteSize ∧ s.utf8ByteSize ≤ maxCommandLen := by omega
    simp only [hsize, true_and]
    cases hr : tokLoop s.length s.toList 0 [] with
    | none =>
      simp only [reduceCtorEq, false_iff]
      rintro ⟨-, hlen, hlex⟩
      rw [(hloop ts).2 ⟨hlex, hlen⟩] at hr
      cases hr
    | some us =>
      obtain ⟨hlex, hlen⟩ := (hloop us).1 hr
      cases us with
      | nil =>
        simp only [reduceCtorEq, false_iff]
        rintro ⟨hne, -, hlex'⟩
        exact hne (hlex'.unique hlex)
      | cons t us =>
        dsimp only
        constructor
        · rintro ⟨⟩
          exact ⟨List.cons_ne_nil _ _, hlen, hlex⟩
        · rintro ⟨-, -, hlex'⟩
          rw [hlex'.unique hlex]

theorem tokTokenize_eq_none_iff :
    tokTokenize s = none ↔
      s.utf8ByteSize = 0 ∨ maxCommandLen < s.utf8ByteSize ∨ (∀ c ∈ s.toList, isSpace c = true) ∨
        ∀ ts, Lexes s.toList ts → maxTokens < ts.length := by
  rw [Option.eq_none_iff_forall_ne_some]
  simp only [ne_eq, tokTokenize_eq_some_iff]
  constructor
  · intro h
    by_contra hout
    simp only [not_or, not_forall, not_lt] at hout
    obtain ⟨hpos, hlong, ⟨c, hc, hspace⟩, ts, hlex, hlen⟩ := hout
    have hne : ts ≠ [] := by
      rintro rfl
      exact hspace (lexes_nil_iff.1 hlex c hc)
    exact h ts ⟨by omega, by omega, hne, hlen, hlex⟩
  · rintro (hempty | hlong | hblank | hmany) ts ⟨hpos, hshort, hne, hlen, hlex⟩
    · omega
    · omega
    · exact hne (hlex.unique (lexes_nil_iff.2 hblank))
    · exact absurd (hmany ts hlex) (not_lt.2 hlen)

/-- **`tok_tokenize` is the lexical grammar.** -/
theorem tokTokenize_lexes (s : String) :
    (∀ ts, tokTokenize s = some ts ↔
      0 < s.utf8ByteSize ∧ s.utf8ByteSize ≤ maxCommandLen ∧ ts ≠ [] ∧ ts.length ≤ maxTokens ∧ Lexes s.toList ts) ∧
    (tokTokenize s = none ↔
      s.utf8ByteSize = 0 ∨ maxCommandLen < s.utf8ByteSize ∨ (∀ c ∈ s.toList, isSpace c = true) ∨
        ∀ ts, Lexes s.toList ts → maxTokens < ts.length) :=
  ⟨fun _ => tokTokenize_eq_some_iff, tokTokenize_eq_none_iff⟩

end Tokenize

end Orrp.Query
