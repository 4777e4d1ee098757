import Orrp.Query.ParseDepth

/-!
# Commands as text

`renderCommand` writes a command the way a client types it: keys and comparison identifiers bare,
string values in double quotes, numbers in decimal, and in a where-expression only the parentheses
that the documented precedence (`NOT` > comparison > `AND` > `OR`, binary operators
left-associative) needs.  This is the text the round trip `parse (tokTokenize (renderCommand c))`
starts from; it is a specification, not a function of the C code.
-/

namespace Orrp.Query

/-- The keyword of a reserved key. -/
def ReservedKey.text : ReservedKey → String
  | .kwIn => "in"
  | .kwEntity => "entity"
  | .kwWhere => "where"
  | .kwTake => "take"
  | .kwCursor => "cursor"
  | .kwId => "id"
  | .kwKey => "key"

/-- The command keyword. -/
def CommandType.text : CommandType → String
  | .event => "EVENT"
  | .query => "QUERY"
  | .index => "INDEX"

/-- The operator of a comparison. -/
def CompOp.text : CompOp → String
  | .gt => ">"
  | .lt => "<"
  | .gte => ">="
  | .lte => "<="
  | .eq => "="
  | .neq => "!="

/-- The key of a tag. -/
def TagKey.text : TagKey → String
  | .reserved k => k.text
  | .custom k => k

/-- A literal value: a string in double quotes, a number in decimal. -/
def renderLiteral : Literal → String
  | .str s => "\"" ++ s ++ "\""
  | .num n => toString n

/-- An operand of a comparison: an identifier bare, a number in decimal. -/
def renderOperand : Node → String
  | .literal (.str s) => s
  | .literal (.num n) => toString n
  | _ => ""

/-- How tightly an expression node binds; tags and literals are atoms. -/
def Node.prec : Node → ℕ
  | .not _ => 4
  | .comparison .. => 3
  | .logical .and .. => 2
  | .logical .or .. => 1
  | _ => 5

/-- `s` in parentheses when `b` holds. -/
def parenIf (b : Bool) (s : String) : String := if b then "(" ++ s ++ ")" else s

/-- A where-expression with the fewest parentheses its precedence allows. -/
def renderExp : Node → String
  | .tag k (.literal l) => k.text ++ ":" ++ renderLiteral l
  | .comparison op l r => renderOperand l ++ " " ++ op.text ++ " " ++ renderOperand r
  | .logical .and a b => parenIf (a.prec < 2) (renderExp a) ++ " AND " ++ parenIf (b.prec < 3) (renderExp b)
  | .logical .or a b => parenIf (a.prec < 1) (renderExp a) ++ " OR " ++ parenIf (b.prec < 2) (renderExp b)
  | .not a => "NOT " ++ parenIf (a.prec < 4) (renderExp a)
  | _ => ""

/-- A tag: `key:value`, with a where-expression in parentheses. -/
def renderTag (t : Tag) : String :=
  match t.value with
  | .literal l => t.key.text ++ ":" ++ renderLiteral l
  | e => t.key.text ++ ":(" ++ renderExp e ++ ")"

/-- A command: its keyword and its tags, separated by blanks. -/
def renderCommand (cmd : Command) : String :=
  " ".intercalate (cmd.type.text :: cmd.tags.map renderTag)

/-- A query whose where-expression is `NOT a:"x"`, written before its `in` tag. -/
def notWhereFirstQuery : Command :=
  ⟨.query, [⟨.reserved .kwWhere, .not (.strTag "a" "x")⟩, ⟨.reserved .kwIn, .literal (.str "c")⟩]⟩

/-- The text of `notWhereFirstQuery` does not parse back: the `NOT` leaves `paren_depth` at `1`
after the closing parenthesis, so `in` is read as the next token of the expression. -/
theorem parse_render_notWhereFirstQuery :
    renderCommand notWhereFirstQuery = "QUERY where:(NOT a:\"x\") in:\"c\"" ∧
      parse (tokTokenize (renderCommand notWhereFirstQuery)) = .error "Invalid tag" := by
  decide +kernel

end Orrp.Query
