import Orrp.Query.Tokenizer
import Orrp.Engine.Validator
import Orrp.Engine.WorkerMsg

/-!
# An event's tag on the write path and on the read path

An `EVENT` tag `k:v` is parsed by `_parse_tag`, indexed by the worker under `custom_tag_into` of
the tag, and found again by a query `where:(k:v)`, which `_parse_exp` reads.  The two parsers agree
when the key is an identifier (`parseExp_of_eventTag`), and the worker's op is then keyed as the
evaluator reads the tag (`createWriteToEventIndexOp_serDbKey`).  `_parse_tag` also takes a quoted
string as a key, which `_parse_exp` does not take as an operand.
-/

namespace Orrp.Engine

open Orrp.Query

theorem parseTagValue_custom {k : String} {v : Token} {rest rest' : List Token} {t : Tag}
    (hv : isLiteralOrIdentifier v = true) (h : parseTagValue (.custom k) v rest = some (t, rest')) :
    t.key = .custom k ∧ expTagValue v = some t.value ∧ rest' = rest := by
  cases v <;> simp [isLiteralOrIdentifier] at hv
  case identifier s | literalString s =>
    simp only [parseTagValue] at h
    split_ifs at h
    cases h
    exact ⟨rfl, rfl, rfl⟩
  case literalNumber n =>
    simp only [parseTagValue] at h
    cases h
    exact ⟨rfl, rfl, rfl⟩

theorem parseExpLoop_zero (ts : List Token) (values : List Node) (ops : List Token)
    (expecting : Bool) : parseExpLoop ts values ops 0 expecting = some (values, ops, ts) := by
  cases ts with
  | nil => rfl
  | cons t ts =>
    unfold parseExpLoop
    simp

theorem parseExp_tag {k : String} {v : Token} {val : Node} (hv : expTagValue v = some val)
    (rest : List Token) :
    parseExp (.symLparen :: .identifier k :: .symColon :: v :: .symRparen :: rest) =
      some (.tag (.custom k) val, rest) := by
  simp [parseExp, parseExpLoop, hv, reduceToLparen, unwind, isComparisonOp, parseExpLoop_zero]

/-- **The parsers agree on identifier keys.** An `EVENT` tag `k:v` whose key is an identifier,
written as the where-expression `(k:v)`, parses to the same tag node. -/
theorem parseExp_of_eventTag {k : String} {v : Token} {rest rest' : List Token} {t : Tag}
    (h : parseTag (.identifier k :: .symColon :: v :: rest) = some (t, rest')) :
    parseExp (.symLparen :: .identifier k :: .symColon :: v :: .symRparen :: []) =
      some (.tag t.key t.value, []) := by
  have hv : isLiteralOrIdentifier v = true := by
    by_contra hne
    simp [parseTag, tagKeyOf, hne] at h
  have h' : parseTagValue (.custom k) v rest = some (t, rest') := by
    simpa [parseTag, tagKeyOf, hv] using h
  obtain ⟨hk, hval, -⟩ := parseTagValue_custom hv h'
  rw [parseExp_tag hval, hk]

/-! ## A quoted key -/

/-- `EVENT in:"c" entity:"u" "k":"v"`: a custom tag whose key was written as a quoted string. -/
def quotedKeyEvent : Command :=
  ⟨.event, [⟨.reserved .kwIn, .literal (.str "c")⟩, ⟨.reserved .kwEntity, .literal (.str "u")⟩,
    ⟨.custom "k", .literal (.str "v")⟩]⟩

/-- The event with a quoted key is accepted and its tag is indexed under `c|0|k:v`, but the query
that writes the same key and value tokens in its where-expression does not parse: `_parse_exp`
takes no quoted string as an operand. -/
theorem quotedKeyEvent_unqueryable :
    parse (tokTokenize "EVENT in:\"c\" entity:\"u\" \"k\":\"v\"") = .ok quotedKeyEvent ∧
    validatorAnalyze quotedKeyEvent = .valid ∧
    createWriteToEventIndexOp "c" 1 ⟨.custom "k", .literal (.str "v")⟩ =
      .ok ⟨⟨.add, ⟨"c", .usr .invertedEventIndex, none, .str "k:v"⟩, 1⟩, "c|0|k:v"⟩ ∧
    parse (tokTokenize "QUERY in:\"c\" where:(\"k\":\"v\")") = .error "Invalid tag" := by
  refine ⟨?_, ?_, ?_, ?_⟩ <;> decide +kernel

end Orrp.Engine
