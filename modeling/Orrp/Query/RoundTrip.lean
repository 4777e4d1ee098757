import Orrp.Query.Render
import Orrp.Query.Lexer

/-!
# Reading a command back

`renderCommand` writes a command the way a client types it.  `tok_tokenize` reads that text as
`commandTokens`, and `parse` builds the command again, except where a `NOT` stands in a tag that
is not the last one: the `NOT` keeps `paren_depth` above `0` after the expression's closing
parenthesis, and `_parse_exp` reads on into the next tag.

* `readsBack` — the shunting-yard loop reads the tokens of a where-expression from any state whose
  operator stack it does not reach into, and leaves the expression's pending operators on the stack
  over operands that they reduce to it;
* `parse_commandTokens` — `parse` reads the tokens of a well-formed command back, or fails with
  "Invalid tag" when a tag other than the last holds a `NOT`;
* `tokTokenize_renderCommand` — the text of a well-formed command that fits the tokenizer's limits
  is read as its tokens;
* `parse_renderCommand` — so `parse (tok_tokenize (renderCommand cmd))` is `cmd` exactly when only
  the last tag holds a `NOT`, and "Invalid tag" otherwise.
-/

namespace Orrp.Query

/-! ## The tokens of a command -/

/-- The token of a comparison operator. -/
def CompOp.token : CompOp → Token
  | .gt => .opGt
  | .lt => .opLt
  | .gte => .opGte
  | .lte => .opLte
  | .eq => .opEq
  | .neq => .opNeq

/-- The token of `AND` and `OR`. -/
def LogicOp.token : LogicOp → Token
  | .and => .opAnd
  | .or => .opOr

/-- The precedence `_get_precedence` gives `AND` and `OR`. -/
def LogicOp.prec (op : LogicOp) : ℕ := getPrecedence op.token

/-- The keyword token of a reserved key. -/
def ReservedKey.token : ReservedKey → Token
  | .kwIn => .kwIn
  | .kwEntity => .kwEntity
  | .kwWhere => .kwWhere
  | .kwTake => .kwTake
  | .kwCursor => .kwCursor
  | .kwId => .kwId
  | .kwKey => .kwKey

/-- The token of a tag's key: a keyword, or the identifier of a custom key. -/
def TagKey.token : TagKey → Token
  | .reserved k => k.token
  | .custom k => .identifier k

/-- The command token. -/
def CommandType.token : CommandType → Token
  | .event => .cmdEvent
  | .query => .cmdQuery
  | .index => .cmdIndex

/-- The token of a literal written as a value: a quoted string, or a number. -/
def Literal.token : Literal → Token
  | .str s => .literalString s
  | .num n => .literalNumber n

/-- The token of a literal written bare, as an operand of a comparison. -/
def Literal.operandToken : Literal → Token
  | .str s => .identifier s
  | .num n => .literalNumber n

/-- The tokens of `renderOperand`. -/
def operandTokens : Node → List Token
  | .literal l => [l.operandToken]
  | _ => []

/-- The tokens `ts` in parentheses when `b` holds. -/
def parenTokensIf (b : Bool) (ts : List Token) : List Token :=
  if b then .symLparen :: (ts ++ [.symRparen]) else ts

/-- The tokens of `renderExp`. -/
def expTokens : Node → List Token
  | .tag k (.literal l) => [k.token, .symColon, l.token]
  | .comparison op l r => operandTokens l ++ op.token :: operandTokens r
  | .logical op a b =>
    parenTokensIf (a.prec < op.prec) (expTokens a) ++
      op.token :: parenTokensIf (b.prec < op.prec + 1) (expTokens b)
  | .not a => .opNot :: parenTokensIf (a.prec < 4) (expTokens a)
  | _ => []

/-- The tokens of `renderTag`. -/
def tagTokens (t : Tag) : List Token :=
  match t.value with
  | .literal l => [t.key.token, .symColon, l.token]
  | e => t.key.token :: .symColon :: .symLparen :: (expTokens e ++ [.symRparen])

/-- The tokens of `renderCommand`. -/
def commandTokens (cmd : Command) : List Token := cmd.type.token :: cmd.tags.flatMap tagTokens

@[simp] theorem getPrecedence_compOp (op : CompOp) : getPrecedence op.token = 3 := by
  cases op <;> rfl

@[simp] theorem isComparisonOp_compOp (op : CompOp) : isComparisonOp op.token = true := by
  cases op <;> rfl

theorem LogicOp.prec_le (op : LogicOp) : op.prec ≤ 2 := by
  cases op <;> decide

@[simp] theorem Node.prec_logical (op : LogicOp) (a b : Node) : (Node.logical op a b).prec = op.prec := by
  cases op <;> rfl

theorem LogicOp.token_binary (op : LogicOp) :
    op.token = .opAnd ∨ op.token = .opOr ∨ isComparisonOp op.token = true := by
  cases op <;> simp [LogicOp.token]

/-! ## Well-formed commands -/

/-- A word the tokenizer reads as the identifier of its own text: word characters, not all digits,
in lower case, and no keyword. -/
def IsIdent (k : String) : Prop :=
  k.toList ≠ [] ∧ k.length ≤ maxTextValLen ∧ k.toList.all validUnenclosedChar ∧
    k.toList.any (fun c => !c.isDigit) ∧ k.toList.map Char.toLower = k.toList ∧ kwMap.lookup k = none

instance (k : String) : Decidable (IsIdent k) := by unfold IsIdent; infer_instance

/-- A text the tokenizer reads between double quotes. -/
def IsText (s : String) : Prop :=
  s.toList ≠ [] ∧ s.length ≤ maxTextValLen ∧ s.toList.all validEnclosedChar

instance (s : String) : Decidable (IsText s) := by unfold IsText; infer_instance

/-- A number the tokenizer reads from its decimal digits. -/
def IsNumeral (n : ℤ) : Prop := 0 ≤ n ∧ n ≤ int64Max

instance (n : ℤ) : Decidable (IsNumeral n) := by unfold IsNumeral; infer_instance

/-- A literal written as a tag's value. -/
def Literal.IsValue : Literal → Prop
  | .str s => IsText s
  | .num n => IsNumeral n

instance : DecidablePred Literal.IsValue
  | .str s => inferInstanceAs (Decidable (IsText s))
  | .num n => inferInstanceAs (Decidable (IsNumeral n))

/-- A literal written bare, as an operand of a comparison. -/
def Literal.IsOperand : Literal → Prop
  | .str s => IsIdent s
  | .num n => IsNumeral n

instance : DecidablePred Literal.IsOperand
  | .str s => inferInstanceAs (Decidable (IsIdent s))
  | .num n => inferInstanceAs (Decidable (IsNumeral n))

/-- A text value no longer than `limit`. -/
def Literal.Fits (limit : ℕ) : Literal → Prop
  | .str s => s.length ≤ limit
  | .num _ => True

instance (limit : ℕ) : DecidablePred (Literal.Fits limit)
  | .str s => inferInstanceAs (Decidable (s.length ≤ limit))
  | .num _ => inferInstanceAs (Decidable True)

/-- The where-expressions the parser reads back: tags with a custom key and a literal value,
comparisons of two literals, and `AND`, `OR` and `NOT` over such. -/
inductive Node.WellFormed : Node → Prop
  | tag {k : String} {l : Literal} : IsIdent k → l.IsValue → (Node.tag (.custom k) (.literal l)).WellFormed
  | comparison {op : CompOp} {l r : Literal} : l.IsOperand → r.IsOperand →
      (Node.comparison op (.literal l) (.literal r)).WellFormed
  | logical {op : LogicOp} {a b : Node} : a.WellFormed → b.WellFormed → (Node.logical op a b).WellFormed
  | not {a : Node} : a.WellFormed → (Node.not a).WellFormed

/-- The tags the parser reads back: a `where` with a well-formed expression, or a literal value
within `_parse_tag`'s limit for its key, under any reserved key but `where` and `id`, or under a
custom key. -/
inductive Tag.WellFormed : Tag → Prop
  | whereExp {e : Node} : e.WellFormed → Tag.WellFormed ⟨.reserved .kwWhere, e⟩
  | reserved {k : ReservedKey} {l : Literal} : k ≠ .kwWhere → k ≠ .kwId → l.IsValue →
      l.Fits (textValLimit (.reserved k)) → Tag.WellFormed ⟨.reserved k, .literal l⟩
  | custom {k : String} {l : Literal} : IsIdent k → l.IsValue → Tag.WellFormed ⟨.custom k, .literal l⟩

/-- A command the parser reads back, wherever its `NOT`s stand: at least one tag, each well
formed, and at most `MAX_CUSTOM_TAGS` of them custom. -/
structure Command.WellFormed (cmd : Command) : Prop where
  tags : ∀ t ∈ cmd.tags, t.WellFormed
  ne_nil : cmd.tags ≠ []
  custom : cmd.tags.countP Tag.isCustom ≤ maxCustomTags

theorem Node.WellFormed.ne_literal {e : Node} (he : e.WellFormed) (l : Literal) : e ≠ .literal l := by
  cases he <;> simp

/-! ## The operator stack -/

/-- The operator on top of the stack, if any, is a `(` or binds more loosely than `q`: the
operators `reduceFor` applies for one of precedence `q` stop there. -/
def StopsAt (q : ℕ) (ops : List Token) : Prop :=
  ∀ op ∈ ops.head?, op = .symLparen ∨ getPrecedence op < q

theorem StopsAt.mono {q q' : ℕ} {ops : List Token} (h : StopsAt q ops) (hq : q ≤ q') : StopsAt q' ops :=
  fun op hop => (h op hop).imp_right fun hlt => lt_of_lt_of_le hlt hq

@[simp] theorem stopsAt_lparen (q : ℕ) (ops : List Token) : StopsAt q (.symLparen :: ops) := by
  simp [StopsAt]

section Stack

variable {values : List Node} {ops : List Token}

theorem unwind_append : ∀ (pend : List Token) (values : List Node) (ops : List Token),
    unwind values (pend ++ ops) = (unwind values pend).bind fun vs => unwind vs ops
  | [], _, _ => rfl
  | op :: pend, values, ops => by
    by_cases hl : op = .symLparen
    · simp [unwind, hl]
    · simp only [List.cons_append, unwind, hl, if_false]
      rcases applyOp op values with _ | vs
      · rfl
      · exact unwind_append pend vs ops

theorem reduceToLparen_append : ∀ {pend : List Token} (values : List Node) (ops : List Token),
    .symLparen ∉ pend →
      reduceToLparen values (pend ++ ops) = (unwind values pend).bind fun vs => reduceToLparen vs ops
  | [], _, _, _ => rfl
  | op :: pend, values, ops, hpend => by
    have hl : op ≠ .symLparen := fun h => hpend (h ▸ List.mem_cons_self)
    simp only [List.cons_append, reduceToLparen, unwind, hl, if_false]
    rcases applyOp op values with _ | vs
    · rfl
    · exact reduceToLparen_append vs ops fun h => hpend (List.mem_cons_of_mem _ h)

theorem reduceFor_append {op1 : Token} (hleft : getAssociativity op1 = .left) :
    ∀ {pend : List Token} (values : List Node) (ops : List Token),
      (∀ op ∈ pend, op ≠ .symLparen ∧ getPrecedence op1 ≤ getPrecedence op) →
        reduceFor op1 values (pend ++ ops) = (unwind values pend).bind fun vs => reduceFor op1 vs ops
  | [], _, _, _ => rfl
  | op :: pend, values, ops, hpend => by
    obtain ⟨hl, hprec⟩ := hpend op List.mem_cons_self
    simp only [List.cons_append, reduceFor, unwind, hl, if_false, hleft, hprec, true_and, true_or, if_true]
    rcases applyOp op values with _ | vs
    · rfl
    · exact reduceFor_append hleft vs ops fun x hx => hpend x (List.mem_cons_of_mem _ hx)

theorem reduceFor_stop {op1 : Token} (hleft : getAssociativity op1 = .left)
    (h : StopsAt (getPrecedence op1) ops) : reduceFor op1 values ops = some (values, ops) := by
  rcases ops with _ | ⟨op2, ops⟩
  · rfl
  · by_cases hl : op2 = .symLparen
    · simp [reduceFor, hl]
    · have hlt : getPrecedence op2 < getPrecedence op1 := (h op2 rfl).resolve_left hl
      simp [reduceFor, hl, hleft, not_le.2 hlt]

end Stack

/-! ## The operators an expression leaves pending -/

/-- The operators `_parse_exp` leaves on the stack after the tokens of `e`, top first: those of
its right spine, which the next operator or `)` applies. -/
def pendingOps : Node → List Token
  | .comparison op _ _ => [op.token]
  | .logical op _ b => (if b.prec < op.prec + 1 then [] else pendingOps b) ++ [op.token]
  | .not a => (if a.prec < 4 then [] else pendingOps a) ++ [.opNot]
  | _ => []

/-- The operators left pending by `e` written in parentheses when its precedence is below `p`. -/
def pendingIf (p : ℕ) (e : Node) : List Token := if e.prec < p then [] else pendingOps e

theorem pendingOps_logical (op : LogicOp) (a b : Node) :
    pendingOps (.logical op a b) = pendingIf (op.prec + 1) b ++ [op.token] := rfl

theorem pendingOps_not (a : Node) : pendingOps (.not a) = pendingIf 4 a ++ [.opNot] := rfl

theorem pendingOps_prec : ∀ (e : Node), ∀ op ∈ pendingOps e, op ≠ .symLparen ∧ e.prec ≤ getPrecedence op
  | .comparison op _ _ => by
    simp only [pendingOps, List.mem_singleton]
    rintro _ rfl
    exact ⟨by cases op <;> decide, by simp [Node.prec]⟩
  | .logical lop a b => by
    intro op hop
    rw [pendingOps_logical, List.mem_append, List.mem_singleton] at hop
    rcases hop with hop | rfl
    · unfold pendingIf at hop
      split_ifs at hop with hb
      · cases hop
      · obtain ⟨hl, hp⟩ := pendingOps_prec b op hop
        exact ⟨hl, by rw [Node.prec_logical]; omega⟩
    · exact ⟨by cases lop <;> decide, by simp [LogicOp.prec]⟩
  | .not a => by
    intro op hop
    rw [pendingOps_not, List.mem_append, List.mem_singleton] at hop
    rcases hop with hop | rfl
    · unfold pendingIf at hop
      split_ifs at hop with ha
      · cases hop
      · obtain ⟨hl, hp⟩ := pendingOps_prec a op hop
        exact ⟨hl, by show 4 ≤ getPrecedence op; omega⟩
    · exact ⟨by decide, le_refl _⟩
  | .tag _ _ | .literal _ => by simp [pendingOps]

theorem pendingIf_prec (p : ℕ) (e : Node) : ∀ op ∈ pendingIf p e, op ≠ .symLparen ∧ p ≤ getPrecedence op := by
  intro op hop
  unfold pendingIf at hop
  split_ifs at hop with he
  · cases hop
  · obtain ⟨hl, hp⟩ := pendingOps_prec e op hop
    exact ⟨hl, by omega⟩

theorem lparen_not_mem_pendingOps (e : Node) : .symLparen ∉ pendingOps e :=
  fun h => (pendingOps_prec e _ h).1 rfl

/-! ## The shunting-yard loop, branch by branch -/

section Loop

variable {values : List Node} {ops rest : List Token} {depth : ℕ}

theorem parseExpLoop_tag {k : String} {v : Token} (hd : depth ≠ 0) :
    parseExpLoop (.identifier k :: .symColon :: v :: rest) values ops depth true =
      (expTagValue v).bind fun val => parseExpLoop rest (.tag (.custom k) val :: values) ops depth false := by
  simp [parseExpLoop, hd]

theorem parseExpLoop_operand (l : Literal) (hd : depth ≠ 0) (hr : ∀ t ∈ rest.head?, t ≠ .symColon) :
    parseExpLoop (l.operandToken :: rest) values ops depth true =
      parseExpLoop rest (.literal l :: values) ops depth false := by
  cases l with
  | num n => simp [Literal.operandToken, parseExpLoop, hd]
  | str k =>
    rcases rest with _ | ⟨t, rest⟩
    · simp [Literal.operandToken, parseExpLoop, hd]
    · have ht : t ≠ .symColon := hr t rfl
      simp [Literal.operandToken, parseExpLoop, hd, ht]

theorem parseExpLoop_open {tok : Token} (hd : depth ≠ 0) (htok : tok = .opNot ∨ tok = .symLparen) :
    parseExpLoop (tok :: rest) values ops depth true = parseExpLoop rest values (tok :: ops) (depth + 1) true := by
  rcases htok with rfl | rfl <;> simp [parseExpLoop, hd]

theorem parseExpLoop_depth_zero (ts : List Token) (expecting : Bool) :
    parseExpLoop ts values ops 0 expecting = some (values, ops, ts) := by
  rcases ts with _ | ⟨t, ts⟩
  · rfl
  · rw [parseExpLoop.eq_def]
    simp

theorem parseExpLoop_binary {tok : Token} (hd : depth ≠ 0)
    (hop : tok = .opAnd ∨ tok = .opOr ∨ isComparisonOp tok = true) :
    parseExpLoop (tok :: rest) values ops depth false =
      (reduceFor tok values ops).bind fun r => parseExpLoop rest r.1 (tok :: r.2) depth true := by
  rw [parseExpLoop.eq_def]
  simp only [hd, if_false, Bool.false_eq_true, hop, if_true]

theorem parseExpLoop_rparen (hd : depth ≠ 0) :
    parseExpLoop (.symRparen :: rest) values ops depth false =
      (reduceToLparen values ops).bind fun r => parseExpLoop rest r.1 r.2 (depth - 1) false := by
  rw [parseExpLoop.eq_def]
  simp [hd, isComparisonOp]

end Loop

/-! ## Reading an expression back -/

/-- `_parse_exp` reads the tokens of `e` back: from a state where it expects an operand and the
stack's top stops the binary operators of `e`, it goes on after them with the pending operators of
`e` on the stack, over operands that they reduce to `e`.  Each `NOT` of `e` has raised
`paren_depth` for good. -/
def ReadsBack (e : Node) : Prop :=
  ∀ (values : List Node) (ops rest : List Token) (depth : ℕ), (e.prec ≤ 3 → StopsAt e.prec ops) →
    depth ≠ 0 → (∀ t ∈ rest.head?, t ≠ .symColon) →
      ∃ values', parseExpLoop (expTokens e ++ rest) values ops depth true =
          parseExpLoop rest values' (pendingOps e ++ ops) (depth + e.notCount) false ∧
        unwind values' (pendingOps e) = some (e :: values)

theorem ReadsBack.paren {e : Node} (h : ReadsBack e) (p : ℕ) (values : List Node) (ops rest : List Token)
    (depth : ℕ) (hstop : p ≤ e.prec → e.prec ≤ 3 → StopsAt e.prec ops) (hd : depth ≠ 0)
    (hrest : ∀ t ∈ rest.head?, t ≠ .symColon) :
    ∃ values', parseExpLoop (parenTokensIf (e.prec < p) (expTokens e) ++ rest) values ops depth true =
        parseExpLoop rest values' (pendingIf p e ++ ops) (depth + e.notCount) false ∧
      unwind values' (pendingIf p e) = some (e :: values) := by
  unfold parenTokensIf pendingIf
  by_cases hp : e.prec < p
  · simp only [hp, decide_true, if_true, List.nil_append]
    obtain ⟨ve, hrun, hunw⟩ :=
      h values (.symLparen :: ops) (.symRparen :: rest) (depth + 1) (fun _ => stopsAt_lparen _ _)
        (by omega) (by simp)
    refine ⟨e :: values, ?_, rfl⟩
    rw [List.cons_append, List.append_assoc, List.singleton_append, parseExpLoop_open hd (Or.inr rfl), hrun,
      parseExpLoop_rparen (by omega), reduceToLparen_append _ _ (lparen_not_mem_pendingOps e), hunw]
    simp only [Option.bind_some, reduceToLparen, if_true]
    congr 1
    omega
  · simp only [hp, decide_false, Bool.false_eq_true, if_false]
    exact h values ops rest depth (hstop (not_lt.1 hp)) hd hrest

/-- **The shunting-yard loop reads every well-formed expression back.**  The induction follows the
expression; a binary node reads its left side, applies what that left pending when its own
operator arrives, and reads its right side over that operator. -/
theorem readsBack {e : Node} (he : e.WellFormed) : ReadsBack e := by
  induction he with
  | @tag k l _ _ =>
    intro values ops rest depth _ hd _
    refine ⟨.tag (.custom k) (.literal l) :: values, ?_, rfl⟩
    have hval : expTagValue l.token = some (.literal l) := by cases l <;> rfl
    simp only [expTokens, TagKey.token, List.cons_append, List.nil_append, parseExpLoop_tag hd, hval,
      Option.bind_some, pendingOps, Node.notCount, Nat.add_zero]
  | @comparison op l r _ _ =>
    intro values ops rest depth hstop hd hrest
    refine ⟨.literal r :: .literal l :: values, ?_, ?_⟩
    · have hstop' : StopsAt (getPrecedence op.token) ops := by simpa [Node.prec] using hstop
      simp only [expTokens, operandTokens, List.cons_append, List.nil_append]
      rw [parseExpLoop_operand l hd (by cases op <;> simp [CompOp.token]), parseExpLoop_binary hd (Or.inr (Or.inr (isComparisonOp_compOp op))),
        reduceFor_stop (by cases op <;> rfl) hstop', Option.bind_some, parseExpLoop_operand r hd hrest]
      simp [pendingOps, Node.notCount]
    · cases op <;> rfl
  | @logical op a b _ _ iha ihb =>
    intro values ops rest depth hstop hd hrest
    have hops : StopsAt op.prec ops := by simpa using hstop (by simpa using (LogicOp.prec_le op).trans (by decide))
    obtain ⟨va, hruna, hunwa⟩ := iha.paren op.prec values ops
      (op.token :: (parenTokensIf (b.prec < op.prec + 1) (expTokens b) ++ rest)) depth (fun hp _ => hops.mono hp) hd
      (by cases op <;> simp [LogicOp.token])
    have hred : reduceFor op.token va (pendingIf op.prec a ++ ops) = some (a :: values, ops) := by
      rw [@reduceFor_append op.token (by cases op <;> rfl) (pendingIf op.prec a) va ops (pendingIf_prec _ a), hunwa,
        Option.bind_some]
      exact reduceFor_stop (by cases op <;> rfl) hops
    obtain ⟨vb, hrunb, hunwb⟩ := ihb.paren (op.prec + 1) (a :: values) (op.token :: ops) rest (depth + a.notCount)
      (fun hp _ => fun x hx => by cases hx; exact Or.inr (by simp only [LogicOp.prec] at hp; omega)) (by omega) hrest
    refine ⟨vb, ?_, ?_⟩
    · rw [expTokens, List.append_assoc, List.cons_append, hruna, parseExpLoop_binary (by omega) op.token_binary, hred,
        Option.bind_some, hrunb, pendingOps_logical, List.append_assoc, List.singleton_append, Node.notCount,
        Nat.add_assoc]
    · rw [pendingOps_logical, unwind_append, hunwb, Option.bind_some]
      cases op <;> rfl
  | @not a _ iha =>
    intro values ops rest depth _ hd hrest
    obtain ⟨va, hruna, hunwa⟩ := iha.paren 4 values (.opNot :: ops) rest (depth + 1) (fun hp hp' => absurd (hp.trans hp') (by decide)) (by omega) hrest
    refine ⟨va, ?_, ?_⟩
    · rw [expTokens, List.cons_append, parseExpLoop_open hd (Or.inl rfl), hruna, pendingOps_not, List.append_assoc,
        List.singleton_append, Node.notCount]
      congr 1
      omega
    · rw [pendingOps_not, unwind_append, hunwa, Option.bind_some]
      rfl

/-! ## Reading a command back -/

/-- A token after which `_parse_exp` reads on: a binary operator or `)`. -/
def Token.Continues (t : Token) : Prop :=
  t = .opAnd ∨ t = .opOr ∨ isComparisonOp t = true ∨ t = .symRparen

theorem TagKey.token_not_continues (k : TagKey) : ¬ k.token.Continues := by
  cases k with
  | reserved k => cases k <;> simp [TagKey.token, ReservedKey.token, Token.Continues, isComparisonOp]
  | custom k => simp [TagKey.token, Token.Continues, isComparisonOp]

/-- **`_parse_exp` reads a where-expression back**, and the tokens after it stay for the next tag,
unless the expression holds a `NOT` and more tokens follow: `paren_depth` is then still positive
after the closing `)`, and the loop fails on the next tag's key. -/
theorem parseExp_expTokens {e : Node} (he : e.WellFormed) {rest : List Token}
    (hrest : ∀ t ∈ rest.head?, ¬ t.Continues) :
    parseExp (.symLparen :: (expTokens e ++ .symRparen :: rest)) =
      if e.notCount = 0 ∨ rest = [] then some (e, rest) else none := by
  obtain ⟨ve, hrun, hunw⟩ :=
    readsBack he [] [.symLparen] (.symRparen :: rest) 1 (fun _ => stopsAt_lparen _ _) one_ne_zero (by simp)
  have hclose : parseExpLoop (.symRparen :: rest) ve (pendingOps e ++ [.symLparen]) (1 + e.notCount) false =
      parseExpLoop rest [e] [] e.notCount false := by
    rw [parseExpLoop_rparen (by omega), reduceToLparen_append _ _ (lparen_not_mem_pendingOps e), hunw]
    simp [reduceToLparen]
  rw [parseExp, hrun, hclose]
  rcases rest with _ | ⟨t, rest⟩
  · simp [parseExpLoop, unwind]
  · by_cases hn : e.notCount = 0
    · simp [hn, parseExpLoop_depth_zero, unwind]
    · -- the loop reads on into the next tag, which no expression continues with
      have ht := hrest t rfl
      simp only [Token.Continues, not_or] at ht
      rw [parseExpLoop.eq_def]
      simp [hn, ht.1, ht.2.1, ht.2.2.1, ht.2.2.2]

theorem tagTokens_exp {k : TagKey} {e : Node} (he : e.WellFormed) :
    tagTokens ⟨k, e⟩ = k.token :: .symColon :: .symLparen :: (expTokens e ++ [.symRparen]) := by
  unfold tagTokens
  split
  · rename_i l hl
    exact absurd hl (he.ne_literal l)
  · rfl

theorem tagTokens_ne_nil (t : Tag) : tagTokens t ≠ [] := by
  unfold tagTokens
  split <;> simp

theorem head?_tagTokens (t : Tag) : (tagTokens t).head? = some t.key.token := by
  unfold tagTokens
  split <;> rfl

theorem parseTag_cons (keyTok sep first : Token) (rest : List Token) :
    parseTag (keyTok :: sep :: first :: rest) =
      (tagKeyOf keyTok).bind fun key =>
        if sep ≠ .symColon then none
        else if key = .reserved .kwWhere ∧ first ≠ .symLparen then none
        else if key ≠ .reserved .kwWhere ∧ !isLiteralOrIdentifier first then none
        else parseTagValue key first rest := by
  rw [parseTag, if_neg (by simp)]

theorem parseTag_tagTokens {t : Tag} (ht : t.WellFormed) {rest : List Token}
    (hrest : ∀ x ∈ rest.head?, ¬ x.Continues) :
    parseTag (tagTokens t ++ rest) = if t.value.notCount = 0 ∨ rest = [] then some (t, rest) else none := by
  cases ht with
  | @whereExp e he =>
    rw [tagTokens_exp he, List.cons_append, List.cons_append, List.cons_append, parseTag_cons, List.append_assoc,
      List.singleton_append]
    simp only [TagKey.token, ReservedKey.token, tagKeyOf, Option.bind_some, parseTagValue, parseExp_expTokens he hrest]
    split_ifs <;> simp_all
  | @reserved k l hwhere hid hl hfits =>
    have hkey : tagKeyOf k.token = some (.reserved k) := by cases k <;> simp_all [ReservedKey.token, tagKeyOf]
    cases l with
    | str s =>
      have hlen : ¬ textValLimit (.reserved k) < s.length := not_lt.2 hfits
      simp [tagTokens, parseTag, TagKey.token, hkey, hwhere, Literal.token, isLiteralOrIdentifier, parseTagValue,
        hlen, Node.notCount]
    | num n =>
      simp [tagTokens, parseTag, TagKey.token, hkey, hwhere, Literal.token, isLiteralOrIdentifier, parseTagValue,
        Node.notCount]
  | @custom k l hk hl =>
    cases l with
    | str s =>
      have hlen : ¬ textValLimit (.custom k) < s.length := not_lt.2 (by simpa [textValLimit] using hl.2.1)
      simp [tagTokens, parseTag, TagKey.token, tagKeyOf, Literal.token, isLiteralOrIdentifier, parseTagValue,
        hlen, Node.notCount]
    | num n =>
      simp [tagTokens, parseTag, TagKey.token, tagKeyOf, Literal.token, isLiteralOrIdentifier, parseTagValue,
        Node.notCount]

theorem forall_dropLast_cons {t : Tag} {ts : List Tag} (p : Tag → Prop) (h : p t ∨ ts = []) :
    (∀ x ∈ (t :: ts).dropLast, p x) ↔ ∀ x ∈ ts.dropLast, p x := by
  rcases ts with _ | ⟨t', ts⟩
  · simp
  · rw [List.dropLast_cons_cons, List.forall_mem_cons]
    simp only [reduceCtorEq, or_false] at h
    exact ⟨fun h' => h'.2, fun h' => ⟨h, h'⟩⟩

/-- **`_parse_tags` reads the tags back**, one `_parse_tag` after the other, and fails with
"Invalid tag" at the first tag before the last that holds a `NOT`. -/
theorem parseTags_tagTokens {ts : List Tag} (hts : ∀ t ∈ ts, t.WellFormed) :
    ∀ {fuel numCusTags : ℕ} {acc : List Tag}, (ts.flatMap tagTokens).length ≤ fuel →
      numCusTags + ts.countP Tag.isCustom ≤ maxCustomTags →
      parseTags fuel (ts.flatMap tagTokens) numCusTags acc =
        if ∀ t ∈ ts.dropLast, t.value.notCount = 0 then .ok (acc.reverse ++ ts) else .error "Invalid tag" := by
  induction ts with
  | nil => intro fuel numCusTags acc _ _; simp [parseTags]
  | cons t ts ih =>
    intro fuel numCusTags acc hfuel hcus
    have hwf := hts t List.mem_cons_self
    obtain ⟨x, xs, hx⟩ := List.exists_cons_of_ne_nil (tagTokens_ne_nil t)
    have hlen : (tagTokens t).length ≥ 1 := List.length_pos_of_ne_nil (tagTokens_ne_nil t)
    rw [List.flatMap_cons, List.length_append] at hfuel
    obtain ⟨fuel, rfl⟩ : ∃ f, fuel = f + 1 := ⟨fuel - 1, by omega⟩
    have hrest : ∀ y ∈ (ts.flatMap tagTokens).head?, ¬ y.Continues := by
      rcases ts with _ | ⟨t', ts⟩
      · simp
      · rw [List.flatMap_cons, List.head?_append, head?_tagTokens]
        intro y hy
        cases hy
        exact TagKey.token_not_continues _
    have hnil : ts.flatMap tagTokens = [] ↔ ts = [] := by
      rw [List.flatMap_eq_nil_iff]
      constructor
      · intro h
        rcases ts with _ | ⟨t', ts⟩
        · rfl
        · exact absurd (h t' List.mem_cons_self) (tagTokens_ne_nil t')
      · rintro rfl
        simp
    have hstep := parseTag_tagTokens hwf hrest
    rw [List.flatMap_cons, hx, List.cons_append, parseTags, ← List.cons_append, ← hx, hstep]
    by_cases hok : t.value.notCount = 0 ∨ ts.flatMap tagTokens = []
    · have hiff := forall_dropLast_cons (fun x : Tag => x.value.notCount = 0) (hok.imp_right hnil.1)
      have hcount : (if t.isCustom then numCusTags + 1 else numCusTags) + ts.countP Tag.isCustom ≤ maxCustomTags := by
        rw [List.countP_cons] at hcus
        split_ifs at hcus ⊢ <;> omega
      have hcus' : ¬ maxCustomTags < (if t.isCustom then numCusTags + 1 else numCusTags) := by omega
      rw [if_pos hok]
      simp only [hcus', if_false]
      rw [ih (fun t' ht' => hts t' (List.mem_cons_of_mem _ ht')) (by omega) hcount]
      by_cases hc : ∀ x ∈ ts.dropLast, x.value.notCount = 0
      · rw [if_pos hc, if_pos (hiff.2 hc)]
        simp
      · rw [if_neg hc, if_neg (mt hiff.1 hc)]
    · rw [if_neg hok]
      simp only [not_or] at hok
      -- `t` stands before the last tag and holds a `NOT`
      obtain ⟨t', ts', rfl⟩ := List.exists_cons_of_ne_nil fun h => hok.2 (hnil.2 h)
      have hbad : ¬ ∀ x ∈ (t :: t' :: ts').dropLast, x.value.notCount = 0 := fun h =>
        hok.1 (h t (by simp [List.dropLast_cons_cons]))
      rw [if_neg hbad]

end Orrp.Query

namespace Orrp.Query

theorem resolveCmdType_token (ty : CommandType) : resolveCmdType ty.token = some ty := by
  cases ty <;> rfl

/-- **`parse` reads the tokens of a well-formed command back**, unless a tag before the last holds a
`NOT`: the command then fails with "Invalid tag". -/
theorem parse_commandTokens {cmd : Command} (hwf : cmd.WellFormed) :
    parse (some (commandTokens cmd)) =
      if ∀ t ∈ cmd.tags.dropLast, t.value.notCount = 0 then .ok cmd else .error "Invalid tag" := by
  have hne : cmd.tags.flatMap tagTokens ≠ [] := by
    obtain ⟨t, ts, h⟩ := List.exists_cons_of_ne_nil hwf.ne_nil
    simp [h, tagTokens_ne_nil]
  rw [commandTokens, parse, resolveCmdType_token]
  simp only [hne, if_false]
  rw [parseTags_tagTokens hwf.tags le_rfl (by simpa using hwf.custom)]
  split_ifs <;> rfl

/-! ## The text of a command -/

/-- `cs` is read as the tokens `ts` before any input that does not go on with a word. -/
def LexesAs (cs : List Char) (ts : List Token) : Prop :=
  ∀ rest us, EndsWord rest → Lexes rest us → Lexes (cs ++ rest) (ts ++ us)

/-- `cs` is read as the tokens `ts` before any input: it ends with no word. -/
def LexesAsAny (cs : List Char) (ts : List Token) : Prop :=
  ∀ rest us, Lexes rest us → Lexes (cs ++ rest) (ts ++ us)

section Lexing

variable {cs cs' : List Char} {ts ts' : List Token}

theorem LexesAsAny.lexesAs (h : LexesAsAny cs ts) : LexesAs cs ts := fun rest us _ hr => h rest us hr

theorem LexesAsAny.append (h₁ : LexesAsAny cs ts) (h₂ : LexesAs cs' ts') : LexesAs (cs ++ cs') (ts ++ ts') := by
  intro rest us hend hr
  rw [List.append_assoc, List.append_assoc]
  exact h₁ _ _ (h₂ rest us hend hr)

theorem LexesAs.append (h₁ : LexesAs cs ts) (h₂ : LexesAs cs' ts') (hb : EndsWord cs') :
    LexesAs (cs ++ cs') (ts ++ ts') := by
  intro rest us hend hr
  rw [List.append_assoc, List.append_assoc]
  refine h₁ _ _ ?_ (h₂ rest us hend hr)
  rcases cs' with _ | ⟨c, cs'⟩
  · simpa using hend
  · exact hb

theorem endsWord_cons {c : Char} (hc : validUnenclosedChar c = false) (cs : List Char) : EndsWord (c :: cs) := by
  intro x hx
  cases hx
  exact hc

theorem endsWord_singleton_append {c : Char} (hc : validUnenclosedChar c = false) (cs : List Char) :
    EndsWord ([c] ++ cs) :=
  endsWord_cons hc cs

theorem lexesAsAny_space : LexesAsAny [' '] [] := fun _ _ hr => .space (by decide) hr
theorem lexesAsAny_lparen : LexesAsAny ['('] [.symLparen] := fun rest _ hr => .lexeme (.lparen rest) hr
theorem lexesAsAny_rparen : LexesAsAny [')'] [.symRparen] := fun rest _ hr => .lexeme (.rparen rest) hr
theorem lexesAsAny_colon : LexesAsAny [':'] [.symColon] := fun rest _ hr => .lexeme (.colon rest) hr

theorem lexesAsAny_compOp (op : CompOp) : LexesAsAny (op.text.toList ++ [' ']) [op.token] := by
  intro rest us hr
  have hsp : Lexes (' ' :: rest) us := .space (by decide) hr
  cases op with
  | gt => simpa [CompOp.text, CompOp.token] using Lexes.lexeme (Lexeme.gt (by simp)) hsp
  | lt => simpa [CompOp.text, CompOp.token] using Lexes.lexeme (Lexeme.lt (by simp)) hsp
  | gte => simpa [CompOp.text, CompOp.token] using Lexes.lexeme (Lexeme.gte _) hsp
  | lte => simpa [CompOp.text, CompOp.token] using Lexes.lexeme (Lexeme.lte _) hsp
  | eq => simpa [CompOp.text, CompOp.token] using Lexes.lexeme (Lexeme.eq _) hsp
  | neq => simpa [CompOp.text, CompOp.token] using Lexes.lexeme (Lexeme.neq _) hsp

/-- The text `w` is a keyword: a word the tokenizer reads, after lower-casing, as the token `t`. -/
def KeywordText (w : List Char) (t : Token) : Prop :=
  w ≠ [] ∧ w.length ≤ maxTextValLen ∧ w.all validUnenclosedChar ∧ w.any (fun c => !c.isDigit) ∧
    kwMap.lookup (String.ofList (w.map Char.toLower)) = some t

instance (w : List Char) (t : Token) : Decidable (KeywordText w t) := by unfold KeywordText; infer_instance

theorem exists_not_isDigit {w : List Char} (h : w.any (fun c => !c.isDigit)) : ∃ c ∈ w, c.isDigit = false := by
  simpa using h

theorem lexesAs_keyword {w : List Char} {t : Token} (h : KeywordText w t) : LexesAs w [t] :=
  fun _ _ hend hr => .lexeme (.keyword h.1 h.2.1 (by simpa using h.2.2.1) (exists_not_isDigit h.2.2.2.1)
    h.2.2.2.2 hend) hr

theorem keywordText_reservedKey (k : ReservedKey) : KeywordText k.text.toList k.token := by
  cases k <;> decide

theorem keywordText_commandType (ty : CommandType) : KeywordText ty.text.toList ty.token := by
  cases ty <;> decide

theorem lexesAs_ident {k : String} (h : IsIdent k) : LexesAs k.toList [.identifier k] := by
  obtain ⟨hne, hlen, hvalid, hdigit, hlower, hkw⟩ := h
  intro rest us hend hr
  have hlex := Lexeme.identifier hne (by rwa [String.length_toList]) (by simpa using hvalid)
    (exists_not_isDigit hdigit) (by rw [hlower, String.ofList_toList]; exact hkw) hend
  rw [hlower, String.ofList_toList] at hlex
  exact .lexeme hlex hr

theorem lexesAsAny_text {s : String} (h : IsText s) : LexesAsAny ('"' :: (s.toList ++ ['"'])) [.literalString s] := by
  obtain ⟨hne, hlen, hvalid⟩ := h
  intro rest us hr
  have hlex := @Lexeme.string s.toList rest hne (by rwa [String.length_toList]) (by simpa using hvalid)
  rw [String.ofList_toList] at hlex
  simpa using Lexes.lexeme hlex hr

/-! ### Numbers in decimal -/

theorem decimalValue_append_digit (ds : List Char) (c : Char) :
    decimalValue (ds ++ [c]) = 10 * decimalValue ds + (c.toNat - '0'.toNat) := by
  simp [decimalValue, List.foldl_append]

theorem decimalValue_toDigits (m : ℕ) : decimalValue (Nat.toDigits 10 m) = m := by
  induction m using Nat.strong_induction_on with
  | _ m ih =>
    have hdigit : ∀ d < 10, (Nat.digitChar d).toNat - '0'.toNat = d := by decide
    by_cases hm : m < 10
    · rw [Nat.toDigits_of_lt_base hm]
      simpa [decimalValue] using hdigit m hm
    · -- the digits of `m / 10`, then the last one
      have hsplit : Nat.toDigits 10 (m / 10) ++ Nat.toDigits 10 (m % 10) = Nat.toDigits 10 m := by
        rw [Nat.toDigits_append_toDigits (by norm_num) (by omega) (Nat.mod_lt _ (by norm_num)), Nat.div_add_mod]
      rw [← hsplit, Nat.toDigits_of_lt_base (Nat.mod_lt _ (by norm_num)), decimalValue_append_digit,
        ih _ (by omega), hdigit _ (Nat.mod_lt _ (by norm_num))]
      omega

theorem toDigits_ne_nil (m : ℕ) : Nat.toDigits 10 m ≠ [] := by
  intro h
  have := decimalValue_toDigits m
  rw [h] at this
  by_cases hm : m < 10
  · rw [Nat.toDigits_of_lt_base hm] at h
    cases h
  · simp [decimalValue] at this
    omega

theorem lexesAs_numeral {n : ℤ} (h : IsNumeral n) : LexesAs (toString n).toList [.literalNumber n] := by
  obtain ⟨m, rfl⟩ := Int.eq_ofNat_of_zero_le h.1
  have hdigits : (toString (m : ℤ)).toList = Nat.toDigits 10 m := by
    show (toString m).toList = _
    simp [Nat.repr]
  have hlt : m < 10 ^ int64MaxChars := by
    have hz : (m : ℤ) < 10 ^ 19 := lt_of_le_of_lt h.2 (by decide)
    exact_mod_cast hz
  intro rest us hend hr
  have hlex := Lexeme.number (toDigits_ne_nil m) (fun c hc => Nat.isDigit_of_mem_toDigits (by decide) (by decide) hc)
    (Nat.toDigits_length _ _ _ (by decide) hlt) (by rw [decimalValue_toDigits]; exact h.2) hend
  rw [decimalValue_toDigits] at hlex
  rw [hdigits]
  exact .lexeme hlex hr

/-! ### Literals, expressions and tags -/

theorem lexesAs_renderLiteral {l : Literal} (h : l.IsValue) : LexesAs (renderLiteral l).toList [l.token] := by
  cases l with
  | str s => simpa [renderLiteral, Literal.token, String.toList_append] using (lexesAsAny_text h).lexesAs
  | num n => exact lexesAs_numeral h

theorem lexesAs_renderOperand {l : Literal} (h : l.IsOperand) :
    LexesAs (renderOperand (.literal l)).toList (operandTokens (.literal l)) := by
  cases l with
  | str s => exact lexesAs_ident h
  | num n => exact lexesAs_numeral h

theorem lexesAs_parenIf {s : String} (h : LexesAs s.toList ts) (b : Bool) :
    LexesAs (parenIf b s).toList (parenTokensIf b ts) := by
  cases b
  · simpa [parenIf, parenTokensIf] using h
  · have h' := lexesAsAny_lparen.append (h.append lexesAsAny_rparen.lexesAs (endsWord_cons (by decide) []))
    simpa [parenIf, parenTokensIf, String.toList_append] using h'

/-- **The text of a well-formed expression is read as its tokens.** -/
theorem lexesAs_renderExp {e : Node} (he : e.WellFormed) : LexesAs (renderExp e).toList (expTokens e) := by
  induction he with
  | @tag k l hk hl =>
    have h := (lexesAs_ident hk).append (lexesAsAny_colon.append (lexesAs_renderLiteral hl))
      (endsWord_singleton_append (by decide) _)
    show LexesAs (k ++ ":" ++ renderLiteral l).toList [.identifier k, .symColon, l.token]
    simpa only [String.toList_append, show ":".toList = [':'] from rfl, List.append_assoc, List.singleton_append,
      List.cons_append, List.nil_append] using h
  | @comparison op l r hl hr =>
    have h := (lexesAs_renderOperand hl).append
      (lexesAsAny_space.append ((lexesAsAny_compOp op).append (lexesAs_renderOperand hr)))
      (endsWord_singleton_append (by decide) _)
    show LexesAs (renderOperand (.literal l) ++ " " ++ op.text ++ " " ++ renderOperand (.literal r)).toList
      (operandTokens (.literal l) ++ op.token :: operandTokens (.literal r))
    simpa only [String.toList_append, show " ".toList = [' '] from rfl, List.append_assoc, List.singleton_append,
      List.cons_append, List.nil_append] using h
  | @logical op a b _ _ iha ihb =>
    cases op with
    | and =>
      have h := (lexesAs_parenIf iha (a.prec < 2)).append (lexesAsAny_space.append
        ((lexesAs_keyword (show KeywordText ['A', 'N', 'D'] .opAnd by decide)).append
          (lexesAsAny_space.append (lexesAs_parenIf ihb (b.prec < 3))) (endsWord_singleton_append (by decide) _)))
        (endsWord_singleton_append (by decide) _)
      show LexesAs (parenIf (a.prec < 2) (renderExp a) ++ " AND " ++ parenIf (b.prec < 3) (renderExp b)).toList
        (parenTokensIf (a.prec < 2) (expTokens a) ++ .opAnd :: parenTokensIf (b.prec < 3) (expTokens b))
      simpa only [String.toList_append, show " AND ".toList = [' ', 'A', 'N', 'D', ' '] from rfl, List.append_assoc,
        List.singleton_append, List.cons_append, List.nil_append] using h
    | or =>
      have h := (lexesAs_parenIf iha (a.prec < 1)).append (lexesAsAny_space.append
        ((lexesAs_keyword (show KeywordText ['O', 'R'] .opOr by decide)).append
          (lexesAsAny_space.append (lexesAs_parenIf ihb (b.prec < 2))) (endsWord_singleton_append (by decide) _)))
        (endsWord_singleton_append (by decide) _)
      show LexesAs (parenIf (a.prec < 1) (renderExp a) ++ " OR " ++ parenIf (b.prec < 2) (renderExp b)).toList
        (parenTokensIf (a.prec < 1) (expTokens a) ++ .opOr :: parenTokensIf (b.prec < 2) (expTokens b))
      simpa only [String.toList_append, show " OR ".toList = [' ', 'O', 'R', ' '] from rfl, List.append_assoc,
        List.singleton_append, List.cons_append, List.nil_append] using h
  | @not a _ iha =>
    have h := (lexesAs_keyword (show KeywordText ['N', 'O', 'T'] .opNot by decide)).append
      (lexesAsAny_space.append (lexesAs_parenIf iha (a.prec < 4))) (endsWord_singleton_append (by decide) _)
    show LexesAs ("NOT " ++ parenIf (a.prec < 4) (renderExp a)).toList (.opNot :: parenTokensIf (a.prec < 4) (expTokens a))
    simpa only [String.toList_append, show "NOT ".toList = ['N', 'O', 'T', ' '] from rfl, List.append_assoc,
      List.singleton_append, List.cons_append, List.nil_append] using h

theorem renderTag_exp {k : TagKey} {e : Node} (he : e.WellFormed) :
    renderTag ⟨k, e⟩ = k.text ++ ":(" ++ renderExp e ++ ")" := by
  unfold renderTag
  split
  · rename_i l hl
    exact absurd hl (he.ne_literal l)
  · rfl

theorem lexesAs_renderTag {t : Tag} (ht : t.WellFormed) : LexesAs (renderTag t).toList (tagTokens t) := by
  cases ht with
  | @whereExp e he =>
    have h := (lexesAs_keyword (keywordText_reservedKey .kwWhere)).append (lexesAsAny_colon.append
      (lexesAsAny_lparen.append ((lexesAs_renderExp he).append lexesAsAny_rparen.lexesAs (endsWord_cons (by decide) []))))
      (endsWord_singleton_append (by decide) _)
    rw [renderTag_exp he, tagTokens_exp he]
    simpa only [String.toList_append, show ":(".toList = [':', '('] from rfl, show ")".toList = [')'] from rfl,
      TagKey.text, TagKey.token, List.append_assoc, List.singleton_append, List.cons_append, List.nil_append] using h
  | @reserved k l _ _ hl _ =>
    have h := (lexesAs_keyword (keywordText_reservedKey k)).append (lexesAsAny_colon.append (lexesAs_renderLiteral hl))
      (endsWord_singleton_append (by decide) _)
    show LexesAs (k.text ++ ":" ++ renderLiteral l).toList [k.token, .symColon, l.token]
    simpa only [String.toList_append, show ":".toList = [':'] from rfl, List.append_assoc, List.singleton_append,
      List.cons_append, List.nil_append] using h
  | @custom k l hk hl =>
    have h := (lexesAs_ident hk).append (lexesAsAny_colon.append (lexesAs_renderLiteral hl))
      (endsWord_singleton_append (by decide) _)
    show LexesAs (k ++ ":" ++ renderLiteral l).toList [.identifier k, .symColon, l.token]
    simpa only [String.toList_append, show ":".toList = [':'] from rfl, List.append_assoc, List.singleton_append,
      List.cons_append, List.nil_append] using h

theorem toList_intercalate_space (x : String) (xs : List String) :
    (" ".intercalate (x :: xs)).toList = x.toList ++ xs.flatMap fun y => ' ' :: y.toList := by
  induction xs generalizing x with
  | nil => simp
  | cons y ys ih =>
    rw [String.intercalate_cons_cons, String.toList_append, String.toList_append, ih]
    simp

theorem lexesAs_tags {tags : List Tag} (hts : ∀ t ∈ tags, t.WellFormed) :
    LexesAs ((tags.map renderTag).flatMap fun y => ' ' :: y.toList) (tags.flatMap tagTokens) := by
  induction tags with
  | nil => exact fun rest us _ hr => by simpa using hr
  | cons t tags ih =>
    have ih' := ih fun t' ht' => hts t' (List.mem_cons_of_mem _ ht')
    have hb : EndsWord ((tags.map renderTag).flatMap fun y => ' ' :: y.toList) := by
      rcases tags with _ | ⟨t', tags⟩
      · intro x hx
        cases hx
      · exact endsWord_cons (by decide) _
    have h := lexesAsAny_space.append ((lexesAs_renderTag (hts t List.mem_cons_self)).append ih' hb)
    simpa only [List.map_cons, List.flatMap_cons, List.cons_append, List.singleton_append, List.nil_append] using h

/-- **The text of a well-formed command is read as its tokens.** -/
theorem lexes_renderCommand {cmd : Command} (hwf : cmd.WellFormed) :
    Lexes (renderCommand cmd).toList (commandTokens cmd) := by
  have hb : EndsWord ((cmd.tags.map renderTag).flatMap fun y => ' ' :: y.toList) := by
    obtain ⟨t, ts, h⟩ := List.exists_cons_of_ne_nil hwf.ne_nil
    rw [h]
    exact endsWord_cons (by decide) _
  have h := (lexesAs_keyword (keywordText_commandType cmd.type)).append (lexesAs_tags hwf.tags) hb [] []
    (fun _ hx => by cases hx) .nil
  rw [renderCommand, toList_intercalate_space]
  simpa only [commandTokens, List.append_nil, List.singleton_append] using h

end Lexing

/-! ## The round trip -/

theorem tokTokenize_renderCommand {cmd : Command} (hwf : cmd.WellFormed)
    (hbytes : (renderCommand cmd).utf8ByteSize ≤ maxCommandLen) (htoks : (commandTokens cmd).length ≤ maxTokens) :
    tokTokenize (renderCommand cmd) = some (commandTokens cmd) := by
  have hpos : 0 < (renderCommand cmd).utf8ByteSize := by
    rw [Nat.pos_iff_ne_zero, Ne, String.utf8ByteSize_eq_zero_iff]
    intro h
    have hnil := congrArg String.toList h
    rw [renderCommand, toList_intercalate_space] at hnil
    have hkw := (keywordText_commandType cmd.type).1
    simp_all
  exact tokTokenize_eq_some_iff.2 ⟨hpos, hbytes, by simp [commandTokens], htoks, lexes_renderCommand hwf⟩

/-- **The parser reads back the commands the printer writes.**  For every well-formed command whose
text fits `MAX_COMMAND_LEN` bytes and `MAX_TOKENS` tokens, `parse (tok_tokenize (renderCommand cmd))`
is the command itself when only its last tag holds a `NOT`, and "Invalid tag" otherwise. -/
theorem parse_renderCommand {cmd : Command} (hwf : cmd.WellFormed)
    (hbytes : (renderCommand cmd).utf8ByteSize ≤ maxCommandLen) (htoks : (commandTokens cmd).length ≤ maxTokens) :
    parse (tokTokenize (renderCommand cmd)) =
      if ∀ t ∈ cmd.tags.dropLast, t.value.notCount = 0 then .ok cmd else .error "Invalid tag" := by
  rw [tokTokenize_renderCommand hwf hbytes htoks, parse_commandTokens hwf]

/-- A query over the container `metrics` for clicks or views outside the region `eu`; its `NOT`
stands in its last tag. -/
def sampleQuery : Command :=
  ⟨.query, [⟨.reserved .kwIn, .literal (.str "metrics")⟩,
    ⟨.reserved .kwWhere, .logical .and (.logical .or (.strTag "kind" "click") (.strTag "kind" "view"))
      (.not (.strTag "region" "eu"))⟩]⟩

theorem sampleQuery_wellFormed : sampleQuery.WellFormed := by
  refine ⟨?_, by simp [sampleQuery], by decide⟩
  simp only [sampleQuery, List.mem_cons, List.not_mem_nil, or_false, forall_eq_or_imp, forall_eq]
  exact ⟨.reserved (by decide) (by decide) (by decide) (by decide),
    .whereExp (.logical (.logical (.tag (by decide) (by decide)) (.tag (by decide) (by decide)))
      (.not (.tag (by decide) (by decide))))⟩

/-- `QUERY in:"metrics" where:((kind:"click" OR kind:"view") AND NOT region:"eu")` reads back. -/
theorem parse_renderCommand_sampleQuery :
    renderCommand sampleQuery = "QUERY in:\"metrics\" where:((kind:\"click\" OR kind:\"view\") AND NOT region:\"eu\")" ∧
      parse (tokTokenize (renderCommand sampleQuery)) = .ok sampleQuery := by
  refine ⟨by decide, ?_⟩
  rw [parse_renderCommand sampleQuery_wellFormed (by decide) (by decide), if_pos (by decide)]

end Orrp.Query
