import Mathlib

/-!
# The tokenizer (`query/tokenizer.c`)

`tokTokenize` is `tok_tokenize`: one pass over the input that queues a token per symbol, operator,
quoted string or word, and gives up (`NULL`, here `none`) on an invalid character, an unterminated
or empty string, a word or string of more than `MAX_TEXT_VAL_LEN` characters, an all-digit word that
is not an `int64_t`, the `MAX_TOKENS`-th token, and an input that is empty, too long or blank.

The C loop walks an index `i` over the input; `tokLoop` walks the list of the characters not read
yet, with the input's length as fuel (every iteration reads at least one character).
-/

namespace Orrp.Query

/-- `token_type` with the token's payload: the (lower-cased) text of an identifier, the text of a
quoted string, the value of a number. -/
inductive Token
  | cmdEvent | cmdQuery | cmdIndex
  | kwIn | kwId | kwEntity | kwTake | kwCursor | kwWhere | kwBy | kwHaving | kwCount | kwKey
  | identifier (text : String)
  | literalString (text : String)
  | literalNumber (n : ℤ)
  | opAnd | opOr | opNot | opGt | opGte | opEq | opNeq | opLte | opLt
  | symColon | symLparen | symRparen
  deriving DecidableEq, Repr

/-- `MAX_TOKENS`. -/
def maxTokens : ℕ := 256
/-- `MAX_COMMAND_LEN`. -/
def maxCommandLen : ℕ := 2048
/-- `MAX_TEXT_VAL_LEN`. -/
def maxTextValLen : ℕ := 128
/-- `INT64_MAX_CHARS`. -/
def int64MaxChars : ℕ := 19
/-- `INT64_MAX`. -/
def int64Max : ℤ := 2 ^ 63 - 1

/-- `isspace` in the C locale. -/
def isSpace (c : Char) : Bool :=
  c = ' ' || c = '\t' || c = '\n' || c = '\x0b' || c = '\x0c' || c = '\r'

/-- `_valid_unenclosed_char`: `isalnum` (ASCII only in the C locale), `_`, `-` and `.`. -/
def validUnenclosedChar (c : Char) : Bool :=
  c.isAlphanum || c = '_' || c = '-' || c = '.'

/-- `_valid_enclosed_char`: a word character or a blank. -/
def validEnclosedChar (c : Char) : Bool :=
  validUnenclosedChar c || c = ' '

/-- `_max_toks`. -/
def maxToks (numTokens : ℕ) : Bool := maxTokens ≤ numTokens

/-- The value of a run of decimal digits. -/
def decimalValue (ds : List Char) : ℕ :=
  ds.foldl (fun acc d => 10 * acc + (d.toNat - '0'.toNat)) 0

/-- `_parse_int64` on an all-digit word: `strtoll` reports `ERANGE` past `INT64_MAX`. -/
def parseInt64 (ds : List Char) : Option ℤ :=
  if ds.length = 0 ∨ int64MaxChars < ds.length then none
  else if int64Max < (decimalValue ds : ℤ) then none
  else some (decimalValue ds)

/-- `kw_map`: the words that are keywords, compared after lower-casing. -/
def kwMap : List (String × Token) :=
  [("and", .opAnd), ("or", .opOr), ("not", .opNot), ("event", .cmdEvent), ("query", .cmdQuery),
   ("index", .cmdIndex), ("in", .kwIn), ("id", .kwId), ("entity", .kwEntity), ("cursor", .kwCursor),
   ("take", .kwTake), ("where", .kwWhere), ("by", .kwBy), ("having", .kwHaving),
   ("count", .kwCount), ("key", .kwKey)]

/-- The token of an unquoted word that is not all digits: its keyword, else an identifier with the
lower-cased text (`_to_lowercase`). -/
def wordToken (w : List Char) : Token :=
  let lower := String.ofList (w.map Char.toLower)
  match kwMap.lookup lower with
  | some t => t
  | none => .identifier lower

/-- `_enqueue`: refuses a token once `MAX_TOKENS` are queued. The queue is kept newest first. -/
def enqueue (numTokens : ℕ) (q : List Token) (t : Token) : Option (ℕ × List Token) :=
  if maxToks numTokens then none else some (numTokens + 1, t :: q)

/-- The token of the word or quoted string that starts the remaining input `c :: cs` (with `c` a
quote or a word character), and the input after it. -/
def scanText (c : Char) (cs : List Char) : Option (Token × List Char) :=
  if c = '"' then
    -- the content runs to the next quote; every character before it must be enclosed-valid
    let body := cs.takeWhile (· ≠ '"')
    match cs.dropWhile (· ≠ '"') with
    | [] => none
    | _ :: rest =>
      if !body.all validEnclosedChar then none
      else if body.length = 0 ∨ maxTextValLen < body.length then none
      else some (.literalString (String.ofList body), rest)
  else
    let w := (c :: cs).takeWhile validUnenclosedChar
    let rest := (c :: cs).dropWhile validUnenclosedChar
    if w.length = 0 ∨ maxTextValLen < w.length then none
    else if w.all Char.isDigit then
      if int64MaxChars < w.length then none
      else (parseInt64 w).map fun n => (.literalNumber n, rest)
    else some (wordToken w, rest)

/-- The body of the `while (i < input_len)` loop of `tok_tokenize`, over the characters not read
yet; `n` counts the tokens queued so far and `q` holds them, newest first. -/
def tokLoop : ℕ → List Char → ℕ → List Token → Option (List Token)
  | _, [], _, q => some q.reverse
  | 0, _ :: _, _, _ => none
  | fuel + 1, c :: cs, n, q =>
    let emit (t : Token) (rest : List Char) : Option (List Token) :=
      (enqueue n q t).bind fun (n', q') => tokLoop fuel rest n' q'
    if isSpace c then tokLoop fuel cs n q
    else if c = '(' then emit .symLparen cs
    else if c = ')' then emit .symRparen cs
    else if c = '>' ∧ cs.head? = some '=' then emit .opGte cs.tail
    else if c = '>' then emit .opGt cs
    else if c = '<' ∧ cs.head? = some '=' then emit .opLte cs.tail
    else if c = '<' then emit .opLt cs
    else if c = '=' then emit .opEq cs
    else if c = '!' ∧ cs.head? = some '=' then emit .opNeq cs.tail
    else if c = ':' then emit .symColon cs
    else if c = '"' ∨ validUnenclosedChar c then
      (scanText c cs).bind fun (t, rest) => emit t rest
    else none

/-- `tok_tokenize`: `none` for an empty or over-long input and for an input with no token. -/
def tokTokenize (input : String) : Option (List Token) :=
  if input.utf8ByteSize = 0 ∨ maxCommandLen < input.utf8ByteSize then none
  else match tokLoop input.length input.toList 0 [] with
    | some [] => none
    | r => r

end Orrp.Query
