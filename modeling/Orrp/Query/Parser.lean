import Orrp.Query.Ast
import Orrp.Query.Tokenizer

/-!
# The parser (`query/parser.c`)

* `parseExp` — `_parse_exp`, the shunting-yard parser of a where-expression: an operand stack of
  nodes, an operator stack of tokens, `paren_depth` and `expecting_primary`;
* `parseTag`, `parseTags` — `_parse_tag` and `_parse_tags`: `key:value` tags until the input ends;
* `parse` — the command token and its tags.

The messages `_parse_exp` writes into the result are overwritten by `_parse_tags` ("Invalid tag")
before `parse` returns, so `parseExp` and `parseTag` only say whether they succeed.
-/

namespace Orrp.Query

/-! ## Operators -/

/-- `_is_comparison_op`. -/
def isComparisonOp : Token → Bool
  | .opEq | .opNeq | .opGt | .opGte | .opLt | .opLte => true
  | _ => false

/-- `_get_precedence`. -/
def getPrecedence : Token → ℕ
  | .opNot => 4
  | .opEq | .opNeq | .opGt | .opGte | .opLt | .opLte => 3
  | .opAnd => 2
  | .opOr => 1
  | _ => 0

/-- `associativity`. -/
inductive Associativity
  | right | left
  deriving DecidableEq, Repr

/-- `get_associativity`: only `NOT` is right-associative. -/
def getAssociativity : Token → Associativity
  | .opNot => .right
  | _ => .left

/-- The `switch` of `_apply_operator` on a comparison token (`AST_OP_EQ` is its fallback). -/
def compOpOf : Token → CompOp
  | .opEq => .eq
  | .opNeq => .neq
  | .opGt => .gt
  | .opGte => .gte
  | .opLt => .lt
  | .opLte => .lte
  | _ => .eq

/-- `_apply_operator`, once it has popped the operator `op`: `NOT` takes one operand, `AND`, `OR` and the
comparisons take two (the right one is on top); any other token makes no node. -/
def applyOp (op : Token) (values : List Node) : Option (List Node) :=
  if op = .opNot then
    match values with
    | operand :: values => some (.not operand :: values)
    | [] => none
  else
    match values with
    | right :: left :: values =>
      if op = .opAnd ∨ op = .opOr then
        some (.logical (if op = .opAnd then .and else .or) left right :: values)
      else if isComparisonOp op then some (.comparison (compOpOf op) left right :: values)
      else none
    | _ => none

/-- The inner loop of the binary-operator branch: apply the stacked operators that bind at least
as tightly as the incoming operator `op1`, down to the nearest `(`. -/
def reduceFor (op1 : Token) : List Node → List Token → Option (List Node × List Token)
  | values, [] => some (values, [])
  | values, op2 :: ops =>
    if op2 = .symLparen then some (values, op2 :: ops)
    else if (getAssociativity op1 = .left ∧ getPrecedence op1 ≤ getPrecedence op2) ∨
        (getAssociativity op1 = .right ∧ getPrecedence op1 < getPrecedence op2) then
      (applyOp op2 values).bind fun values' => reduceFor op1 values' ops
    else some (values, op2 :: ops)

/-- The inner loop of the `)` branch: apply operators down to the nearest `(` and pop it; `none`
("Mismatched parentheses") when the stack has no `(`. -/
def reduceToLparen : List Node → List Token → Option (List Node × List Token)
  | _, [] => none
  | values, op :: ops =>
    if op = .symLparen then some (values, ops)
    else (applyOp op values).bind fun values' => reduceToLparen values' ops

/-- The final unwinding of `_parse_exp`: apply every stacked operator; a `(` left on the stack is
"Mismatched parentheses". -/
def unwind : List Node → List Token → Option (List Node)
  | values, [] => some values
  | values, op :: ops =>
    if op = .symLparen then none
    else (applyOp op values).bind fun values' => unwind values' ops

/-- The value node of the token after `key:` inside an expression. -/
def expTagValue : Token → Option Node
  | .identifier t | .literalString t => some (.literal (.str t))
  | .literalNumber n => some (.literal (.num n))
  | _ => none

/-! ## The shunting-yard loop -/

/-- The `while (!queue_empty(tokens) && paren_depth > 0)` loop of `_parse_exp`, on the tokens not
read yet.  `depth` is `paren_depth`, `expecting` is `expecting_primary`; the result is the two
stacks and the tokens left when the loop stops. -/
def parseExpLoop : List Token → List Node → List Token → ℕ → Bool →
    Option (List Node × List Token × List Token)
  | [], values, ops, _, _ => some (values, ops, [])
  | tok :: rest, values, ops, depth, expecting =>
    if depth = 0 then some (values, ops, tok :: rest)
    else if expecting then
      match tok with
      | .identifier k =>
        match rest with
        -- an identifier followed by `:` is a `key:value` tag
        | .symColon :: v :: rest' =>
          (expTagValue v).bind fun val =>
            parseExpLoop rest' (.tag (.custom k) val :: values) ops depth false
        | [.symColon] => none
        | rest => parseExpLoop rest (.literal (.str k) :: values) ops depth false
      | .literalNumber n => parseExpLoop rest (.literal (.num n) :: values) ops depth false
      -- a prefix `NOT` raises `paren_depth` exactly as a `(` does
      | .opNot => parseExpLoop rest values (.opNot :: ops) (depth + 1) true
      | .symLparen => parseExpLoop rest values (.symLparen :: ops) (depth + 1) true
      | _ => none
    else if tok = .opAnd ∨ tok = .opOr ∨ isComparisonOp tok then
      (reduceFor tok values ops).bind fun (values', ops') =>
        parseExpLoop rest values' (tok :: ops') depth true
    else if tok = .symRparen then
      (reduceToLparen values ops).bind fun (values', ops') =>
        parseExpLoop rest values' ops' (depth - 1) false
    else none

/-- `_parse_exp`: the expression that starts with `(`, and the tokens after it. -/
def parseExp : List Token → Option (Node × List Token)
  | .symLparen :: rest =>
    (parseExpLoop rest [] [.symLparen] 1 true).bind fun (values, ops, rest') =>
      (unwind values ops).bind fun values' =>
        match values' with
        | [e] => some (e, rest')
        | _ => none
  | _ => none

/-! ## Tags and commands -/

/-- `MAX_ENTITY_STR_LEN` (`SLOT_SIZE - TAG_UNION_SIZE - NULL_TERM_SIZE`). -/
def maxEntityStrLen : ℕ := 62
/-- `MAX_CUSTOM_TAGS`. -/
def maxCustomTags : ℕ := 32

/-- The key of a tag: an identifier or a quoted string is a custom key; of the keywords that
`_is_token_kw` accepts, `id`, `by`, `count` and `having` have no case and fail. -/
def tagKeyOf : Token → Option TagKey
  | .identifier t | .literalString t => some (.custom t)
  | .kwIn => some (.reserved .kwIn)
  | .kwEntity => some (.reserved .kwEntity)
  | .kwWhere => some (.reserved .kwWhere)
  | .kwTake => some (.reserved .kwTake)
  | .kwCursor => some (.reserved .kwCursor)
  | .kwKey => some (.reserved .kwKey)
  | _ => none

/-- `_is_literal_or_identifier`. -/
def isLiteralOrIdentifier : Token → Bool
  | .identifier _ | .literalString _ | .literalNumber _ => true
  | _ => false

/-- The longest text value `_parse_tag` takes: `MAX_ENTITY_STR_LEN` for `entity` and
`MAX_TEXT_VAL_LEN` otherwise (for a custom key the C code compares the union's `reserved_key` with
`AST_KW_ENTITY`, which a string pointer never equals). -/
def textValLimit (key : TagKey) : ℕ :=
  if key = .reserved .kwEntity then maxEntityStrLen else maxTextValLen

/-- The value part of `_parse_tag`, from the token after `:` on: a text or a number literal, or
else the parenthesised expression `_parse_exp` reads. -/
def parseTagValue (key : TagKey) (first : Token) (rest : List Token) : Option (Tag × List Token) :=
  match first with
  | .identifier t | .literalString t =>
    if textValLimit key < t.length then none else some (⟨key, .literal (.str t)⟩, rest)
  | .literalNumber n => some (⟨key, .literal (.num n)⟩, rest)
  | _ => (parseExp (first :: rest)).map fun (e, rest') => (⟨key, e⟩, rest')

/-- `_parse_tag`: `key:value`, where the value of `where` must start with `(` and every other
value must be a literal or an identifier. -/
def parseTag (tokens : List Token) : Option (Tag × List Token) :=
  if tokens.length < 3 then none
  else
    match tokens with
    | keyTok :: sep :: first :: rest =>
      (tagKeyOf keyTok).bind fun key =>
        if sep ≠ .symColon then none
        else if key = .reserved .kwWhere ∧ first ≠ .symLparen then none
        else if key ≠ .reserved .kwWhere ∧ !isLiteralOrIdentifier first then none
        else parseTagValue key first rest
    | _ => none

/-- Whether a tag has a custom key. -/
def Tag.isCustom (t : Tag) : Bool :=
  match t.key with
  | .custom _ => true
  | .reserved _ => false

/-- `_parse_tags`: tags until the input ends, at most `MAX_CUSTOM_TAGS` of them custom.  The fuel
is the number of tokens, and every tag reads at least three. -/
def parseTags : ℕ → List Token → ℕ → List Tag → Except String (List Tag)
  | _, [], _, acc => .ok acc.reverse
  | 0, _ :: _, _, _ => .error "Invalid tag"
  | fuel + 1, t :: ts, numCusTags, acc =>
    match parseTag (t :: ts) with
    | none => .error "Invalid tag"
    | some (tag, rest) =>
      let numCusTags' := if tag.isCustom then numCusTags + 1 else numCusTags
      if maxCustomTags < numCusTags' then .error "Too many custom tags!"
      else parseTags fuel rest numCusTags' (tag :: acc)

/-- `_resolve_cmd_type`. -/
def resolveCmdType : Token → Option CommandType
  | .cmdQuery => some .query
  | .cmdEvent => some .event
  | .cmdIndex => some .index
  | _ => none

/-- `parse`, on the queue `tok_tokenize` returned (`none` is its `NULL`). -/
def parse : Option (List Token) → Except String Command
  | none => .error "Invalid input: token queue is NULL."
  | some [] => .error "Invalid input: token queue is empty."
  | some (cmdTok :: rest) =>
    match resolveCmdType cmdTok with
    | none => .error "Invalid command!"
    | some type =>
      if rest = [] then .error "Invalid input: no key-value tags"
      else (parseTags rest.length rest 0 []).map fun tags => ⟨type, tags⟩

end Orrp.Query
