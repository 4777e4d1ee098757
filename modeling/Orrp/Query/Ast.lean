import Mathlib.Data.Int.Basic

/-!
# The syntax tree of the query language (`query/ast.h`)

* `Literal`, `TagKey`, `Node` — the nodes `parse` builds: tags with a reserved or a custom key,
  literals, and the where-expression nodes (comparisons, `AND`/`OR`, `NOT`);
* `Tag`, `Command` — the root: the command type and its tag list, in the order of the input.

The C `ast_node_t` is a tagged union.  Here every kind of node is a constructor, so a node only holds
the members of its own kind; the one union the engine reads across kinds is the literal's
`string_value`/`number_value`, which `Literal.stringValue` models.
-/

namespace Orrp.Query

/-- `ast_reserved_key_t`. -/
inductive ReservedKey
  | kwIn | kwEntity | kwWhere | kwTake | kwCursor | kwId | kwKey
  deriving DecidableEq, Repr

/-- `ast_literal_node_t`: a string or an `int64_t`. -/
inductive Literal
  | str (s : String)
  | num (n : ℤ)
  deriving DecidableEq, Repr

/-- `ast_comparison_op_t`. -/
inductive CompOp
  | gt | lt | gte | lte | eq | neq
  deriving DecidableEq, Repr

/-- `ast_logical_node_op_t`. -/
inductive LogicOp
  | and | or
  deriving DecidableEq, Repr

/-- `ast_tag_key_type_t` with its union: a reserved keyword or a custom key text. -/
inductive TagKey
  | reserved (k : ReservedKey)
  | custom (k : String)
  deriving DecidableEq, Repr

/-- `ast_node_t` below the command node. -/
inductive Node
  | tag (key : TagKey) (value : Node)
  | literal (l : Literal)
  | comparison (op : CompOp) (left right : Node)
  | logical (op : LogicOp) (left right : Node)
  | not (operand : Node)
  deriving DecidableEq, Repr

/-- `ast_command_type_t`. -/
inductive CommandType
  | event | query | index
  deriving DecidableEq, Repr

/-- A tag of a command's tag list: an `AST_TAG_NODE` with its key and value. -/
structure Tag where
  key : TagKey
  value : Node
  deriving DecidableEq, Repr

/-- `ast_command_node_t`: the command and its tags, first tag first. -/
structure Command where
  type : CommandType
  tags : List Tag
  deriving DecidableEq, Repr

/-- A custom tag `key:value` with a string value. -/
abbrev Node.strTag (k v : String) : Node := .tag (.custom k) (.literal (.str v))

/-- A custom tag `key:value` with a number value. -/
abbrev Node.numTag (k : String) (n : ℤ) : Node := .tag (.custom k) (.literal (.num n))

/-- The `string_value` member of a literal.  A number literal stores its `int64_t` in the same
union, so the C code reading `string_value` from it reads the number's bits as a pointer; that
read is `none` here. -/
def Literal.stringValue : Literal → Option String
  | .str s => some s
  | .num _ => none

@[simp] theorem Literal.stringValue_str (s : String) : (Literal.str s).stringValue = some s := rfl
@[simp] theorem Literal.stringValue_num (n : ℤ) : (Literal.num n).stringValue = none := rfl

end Orrp.Query
