import Orrp.Query.Parser

/-!
# What `paren_depth` counts

`_parse_exp` stops reading when `paren_depth` drops to `0`.  The counter goes up on `(` and on a
prefix `NOT`, and down on `)` only, so it is always the number of `(` still open on the operator
stack plus the number of `NOT` tokens read (`depthPotential`, kept by every step of the loop:
`parseExpLoop_potential`).  An expression can therefore end before the input does only if it read
no `NOT` at all:

* `parseExp_notCount_of_ne_nil` — an expression followed by more tokens has no `NOT` node;
* `parse_notCount_of_lt` — in every command `parse` returns, only the last tag may hold a `NOT`;
* `parse_literal` — and every tag but a `where` holds a literal.

Every token `_parse_tag` reads is one of its input, and what it leaves is a suffix of it:

* `parse_tagFrom` — a tag's custom key and its literal value are the texts of tokens of the input.
-/

namespace Orrp.Query

/-- The `NOT` nodes of a tree. -/
def Node.notCount : Node → ℕ
  | .tag _ v => v.notCount
  | .literal _ => 0
  | .comparison _ l r => l.notCount + r.notCount
  | .logical _ l r => l.notCount + r.notCount
  | .not a => a.notCount + 1

/-- The `NOT` nodes on the operand stack. -/
def notSum (values : List Node) : ℕ := (values.map Node.notCount).sum

/-- What `paren_depth` counts while the loop runs: the `NOT` tokens read so far (applied, or still
on the operator stack) and the `(` still open. -/
def depthPotential (values : List Node) (ops : List Token) : ℕ :=
  notSum values + ops.count .opNot + ops.count .symLparen

@[simp] theorem notSum_nil : notSum [] = 0 := rfl
@[simp] theorem notSum_cons (v : Node) (vs : List Node) : notSum (v :: vs) = v.notCount + notSum vs := by
  simp [notSum]

theorem depthPotential_cons_op {values : List Node} {op : Token} {ops : List Token}
    (hn : op ≠ .opNot) (hl : op ≠ .symLparen) :
    depthPotential values (op :: ops) = depthPotential values ops := by
  simp [depthPotential, hn, hl]

theorem expTagValue_notCount {v : Token} {val : Node} (h : expTagValue v = some val) : val.notCount = 0 := by
  unfold expTagValue at h
  split at h <;> cases h <;> rfl

/-! ## One operator -/

theorem applyOp_notSum {op : Token} {values values' : List Node} (h : applyOp op values = some values') :
    notSum values' = notSum values + if op = .opNot then 1 else 0 := by
  unfold applyOp at h
  by_cases hn : op = .opNot
  · rw [if_pos hn] at h
    rcases values with _ | ⟨a, vs⟩
    · cases h
    · cases h
      simp [Node.notCount, hn]
      omega
  · rw [if_neg hn] at h
    rcases values with _ | ⟨r, _ | ⟨l, vs⟩⟩
    · cases h
    · cases h
    · simp only at h
      split_ifs at h <;> cases h <;> simp [Node.notCount, hn] <;> omega

theorem applyOp_potential {op : Token} {values values' : List Node} {ops : List Token}
    (h : applyOp op values = some values') (hl : op ≠ .symLparen) :
    depthPotential values' ops = depthPotential values (op :: ops) := by
  have hs := applyOp_notSum h
  by_cases hn : op = .opNot
  · subst hn
    simp only [if_true] at hs
    simp [depthPotential, hs]
    omega
  · simp only [hn, if_false, Nat.add_zero] at hs
    rw [depthPotential_cons_op hn hl]
    simp [depthPotential, hs]

/-! ## The three inner loops -/

theorem reduceFor_potential {op1 : Token} :
    ∀ {ops : List Token} {values values' : List Node} {ops' : List Token},
      reduceFor op1 values ops = some (values', ops') →
      depthPotential values' ops' = depthPotential values ops := by
  intro ops
  induction ops with
  | nil =>
    intro values values' ops' h
    cases h
    rfl
  | cons op2 ops ih =>
    intro values values' ops' h
    unfold reduceFor at h
    by_cases hl : op2 = .symLparen
    · rw [if_pos hl] at h
      cases h
      rfl
    · rw [if_neg hl] at h
      split_ifs at h
      · obtain ⟨vs, hvs, hrest⟩ := Option.bind_eq_some_iff.mp h
        rw [ih hrest, applyOp_potential hvs hl]
      · cases h
        rfl

theorem reduceToLparen_potential :
    ∀ {ops : List Token} {values values' : List Node} {ops' : List Token},
      reduceToLparen values ops = some (values', ops') →
      depthPotential values' ops' + 1 = depthPotential values ops := by
  intro ops
  induction ops with
  | nil =>
    intro values values' ops' h
    cases h
  | cons op ops ih =>
    intro values values' ops' h
    unfold reduceToLparen at h
    by_cases hl : op = .symLparen
    · rw [if_pos hl] at h
      cases h
      subst hl
      simp [depthPotential]
      omega
    · rw [if_neg hl] at h
      obtain ⟨vs, hvs, hrest⟩ := Option.bind_eq_some_iff.mp h
      rw [ih hrest, applyOp_potential hvs hl]

theorem unwind_notSum :
    ∀ {ops : List Token} {values values' : List Node},
      unwind values ops = some values' → notSum values' = depthPotential values ops := by
  intro ops
  induction ops with
  | nil =>
    intro values values' h
    cases h
    simp [depthPotential]
  | cons op ops ih =>
    intro values values' h
    unfold unwind at h
    by_cases hl : op = .symLparen
    · rw [if_pos hl] at h
      cases h
    · rw [if_neg hl] at h
      obtain ⟨vs, hvs, hrest⟩ := Option.bind_eq_some_iff.mp h
      rw [ih hrest, applyOp_potential hvs hl]

theorem ne_opNot_of_binary {tok : Token} (h : tok = .opAnd ∨ tok = .opOr ∨ isComparisonOp tok = true) :
    tok ≠ .opNot ∧ tok ≠ .symLparen := by
  rcases h with rfl | rfl | h
  · exact ⟨by decide, by decide⟩
  · exact ⟨by decide, by decide⟩
  · constructor <;> (rintro rfl; simp [isComparisonOp] at h)

/-! ## The loop -/

/-- **The invariant of `_parse_exp`**: `paren_depth` is the potential of the two stacks. When the
loop stops with tokens left, the counter is `0`, so no `NOT` was read and no `(` is open. -/
theorem parseExpLoop_potential {ts : List Token} {values : List Node} {ops : List Token} {depth : ℕ}
    {expecting : Bool} {r : List Node × List Token × List Token}
    (h : parseExpLoop ts values ops depth expecting = some r)
    (hd : depth = depthPotential values ops) (hr : r.2.2 ≠ []) : depthPotential r.1 r.2.1 = 0 := by
  fun_induction parseExpLoop ts values ops depth expecting with
  | case1 =>
    cases h
    exact absurd rfl hr
  | case2 =>
    cases h
    exact hd.symm
  | case3 values ops depth hz k v rest' ih =>
    obtain ⟨val, hval, hloop⟩ := Option.bind_eq_some_iff.mp h
    refine ih val hloop ?_
    simp [hd, depthPotential, Node.notCount, expTagValue_notCount hval]
  | case4 => cases h
  | case5 values ops depth hz k rest _ _ ih => exact ih h (by simp [hd, depthPotential, Node.notCount])
  | case6 rest values ops depth hz n ih => exact ih h (by simp [hd, depthPotential, Node.notCount])
  | case7 rest values ops depth hz ih =>
    -- `NOT` raises the counter and is counted on the operator stack
    exact ih h (by simp [hd, depthPotential]; omega)
  | case8 rest values ops depth hz ih => exact ih h (by simp [hd, depthPotential]; omega)
  | case9 => cases h
  | case10 tok rest values ops depth expecting hz hexp hop ih =>
    obtain ⟨⟨vs, os⟩, hred, hloop⟩ := Option.bind_eq_some_iff.mp h
    refine ih vs os hloop ?_
    obtain ⟨hn, hl⟩ := ne_opNot_of_binary hop
    rw [depthPotential_cons_op hn hl, reduceFor_potential hred, hd]
  | case11 rest values ops depth expecting hz hexp hop ih =>
    obtain ⟨⟨vs, os⟩, hred, hloop⟩ := Option.bind_eq_some_iff.mp h
    refine ih vs os hloop ?_
    have := reduceToLparen_potential hred
    omega
  | case12 => cases h

/-- **An expression followed by more tokens holds no `NOT`.** -/
theorem parseExp_notCount_of_ne_nil {ts rest : List Token} {e : Node} (h : parseExp ts = some (e, rest))
    (hr : rest ≠ []) : e.notCount = 0 := by
  unfold parseExp at h
  split at h
  · obtain ⟨⟨values, ops, rest'⟩, hloop, h⟩ := Option.bind_eq_some_iff.mp h
    obtain ⟨values', hunw, h⟩ := Option.bind_eq_some_iff.mp h
    rcases values' with _ | ⟨e', _ | ⟨_, _⟩⟩ <;> simp only [Option.some.injEq, Prod.mk.injEq,
      reduceCtorEq] at h
    obtain ⟨rfl, rfl⟩ := h
    have h0 := parseExpLoop_potential hloop (by simp [depthPotential]) hr
    have h1 := unwind_notSum hunw
    simpa [h0] using h1
  · cases h

/-! ## Tags and commands -/

theorem parseTagValue_cases {key : TagKey} {first : Token} {rest rest' : List Token} {t : Tag}
    (h : parseTagValue key first rest = some (t, rest')) :
    (∃ l, t = ⟨key, .literal l⟩) ∨ ∃ e, t = ⟨key, e⟩ ∧ parseExp (first :: rest) = some (e, rest') := by
  unfold parseTagValue at h
  split at h
  · split_ifs at h
    cases h
    exact .inl ⟨_, rfl⟩
  · split_ifs at h
    cases h
    exact .inl ⟨_, rfl⟩
  · cases h
    exact .inl ⟨_, rfl⟩
  · obtain ⟨⟨e, r⟩, he, h⟩ := Option.map_eq_some_iff.mp h
    cases h
    exact .inr ⟨e, rfl, he⟩

theorem parseTag_notCount_of_ne_nil {ts rest : List Token} {t : Tag} (h : parseTag ts = some (t, rest))
    (hr : rest ≠ []) : t.value.notCount = 0 := by
  unfold parseTag at h
  split_ifs at h
  split at h
  · obtain ⟨key, -, h⟩ := Option.bind_eq_some_iff.mp h
    split_ifs at h
    rcases parseTagValue_cases h with ⟨l, rfl⟩ | ⟨e, rfl, he⟩
    · rfl
    · exact parseExp_notCount_of_ne_nil he hr
  · cases h

theorem parseTags_succ_cons {fuel n : ℕ} {t : Token} {ts : List Token} {acc tags : List Tag}
    (h : parseTags (fuel + 1) (t :: ts) n acc = .ok tags) :
    ∃ tag rest n', parseTag (t :: ts) = some (tag, rest) ∧ parseTags fuel rest n' (tag :: acc) = .ok tags := by
  simp only [parseTags] at h
  split at h
  · cases h
  · rename_i tag rest htag
    split_ifs at h <;> exact ⟨tag, rest, _, htag, h⟩

theorem parseTags_notCount {fuel : ℕ} :
    ∀ {ts : List Token} {n : ℕ} {acc tags : List Tag}, parseTags fuel ts n acc = .ok tags →
      ∃ parsed, tags = acc.reverse ++ parsed ∧
        ∀ i (hi : i + 1 < parsed.length), parsed[i].value.notCount = 0 := by
  induction fuel with
  | zero =>
    intro ts n acc tags h
    cases ts with
    | nil => exact ⟨[], by simpa [parseTags] using h.symm, by simp⟩
    | cons t ts => simp [parseTags] at h
  | succ fuel ih =>
    intro ts n acc tags h
    cases ts with
    | nil => exact ⟨[], by simpa [parseTags] using h.symm, by simp⟩
    | cons t ts =>
      obtain ⟨tag, rest, n', htag, h⟩ := parseTags_succ_cons h
      cases rest with
      | nil =>
        refine ⟨[tag], ?_, by simp⟩
        cases fuel <;> simpa [parseTags] using h.symm
      | cons r rs =>
        obtain ⟨parsed, rfl, hp⟩ := ih h
        refine ⟨tag :: parsed, by simp, ?_⟩
        intro i hi
        cases i with
        | zero => exact parseTag_notCount_of_ne_nil htag (by simp)
        | succ i => exact hp i (by simpa using hi)

/-- **Only the last tag may hold a `NOT`.** In every command `parse` returns, every tag but the
last has no `NOT` in its value: a where-expression with a `NOT` swallows the rest of the input, so a
tag after it is read as part of the expression and rejected. -/
theorem parse_notCount_of_lt {ts : Option (List Token)} {cmd : Command} (h : parse ts = .ok cmd)
    {i : ℕ} (hi : i + 1 < cmd.tags.length) : cmd.tags[i].value.notCount = 0 := by
  unfold parse at h
  split at h
  · cases h
  · cases h
  · split at h
    · cases h
    · split_ifs at h
      simp only [Except.map] at h
      split at h
      · cases h
      · rename_i tags htags
        cases h
        obtain ⟨parsed, rfl, hp⟩ := parseTags_notCount htags
        simpa using hp i (by simpa using hi)

/-! ## Tag values -/

theorem parseTagValue_literal {key : TagKey} {first : Token} {rest rest' : List Token} {t : Tag}
    (h : parseTagValue key first rest = some (t, rest')) (hlit : isLiteralOrIdentifier first = true) :
    ∃ l, t.value = .literal l := by
  cases first <;> simp only [isLiteralOrIdentifier, Bool.false_eq_true] at hlit <;>
    simp only [parseTagValue] at h
  all_goals
    (try split_ifs at h)
    cases h
    exact ⟨_, rfl⟩

theorem parseTag_literal {toks rest : List Token} {t : Tag} (h : parseTag toks = some (t, rest))
    (hk : t.key ≠ .reserved .kwWhere) : ∃ l, t.value = .literal l := by
  unfold parseTag at h
  split_ifs at h
  split at h
  next keyTok sep first rest' _ =>
    obtain ⟨key, -, h⟩ := Option.bind_eq_some_iff.mp h
    split_ifs at h with hsep hwhere hlit
    rcases parseTagValue_cases h with ⟨l, rfl⟩ | ⟨e, rfl, -⟩
    · exact ⟨l, rfl⟩
    · -- not a `where`, so the value had to start with a literal
      have hfirst : isLiteralOrIdentifier first = true := by simpa [hk] using hlit
      exact parseTagValue_literal h hfirst
  next => cases h

theorem parseTags_mem {fuel : ℕ} :
    ∀ {ts : List Token} {n : ℕ} {acc tags : List Tag}, parseTags fuel ts n acc = .ok tags →
      ∀ t ∈ tags, t ∈ acc ∨ ∃ toks rest, parseTag toks = some (t, rest) := by
  induction fuel with
  | zero =>
    intro ts n acc tags h t ht
    cases ts with
    | nil =>
      simp only [parseTags, Except.ok.injEq] at h
      subst h
      exact .inl (List.mem_reverse.1 ht)
    | cons t ts => simp [parseTags] at h
  | succ fuel ih =>
    intro ts n acc tags h t ht
    cases ts with
    | nil =>
      simp only [parseTags, Except.ok.injEq] at h
      subst h
      exact .inl (List.mem_reverse.1 ht)
    | cons tok ts =>
      obtain ⟨tag, rest, n', htag, h⟩ := parseTags_succ_cons h
      rcases ih h t ht with hacc | hread
      · rcases List.mem_cons.1 hacc with rfl | hacc
        · exact .inr ⟨_, _, htag⟩
        · exact .inl hacc
      · exact .inr hread

/-- **Tags hold literals.**  In every command `parse` returns, every tag but a `where` holds a
literal. -/
theorem parse_literal {ts : Option (List Token)} {cmd : Command} (h : parse ts = .ok cmd)
    {t : Tag} (ht : t ∈ cmd.tags) (hk : t.key ≠ .reserved .kwWhere) : ∃ l, t.value = .literal l := by
  unfold parse at h
  split at h
  · cases h
  · cases h
  · split at h
    · cases h
    · split_ifs at h
      simp only [Except.map] at h
      split at h
      · cases h
      · rename_i tags htags
        cases h
        rcases parseTags_mem htags t ht with hacc | ⟨toks, rest, htag⟩
        · cases hacc
        · exact parseTag_literal htag hk

/-! ## Where the texts of a tag come from -/

theorem parseExpLoop_suffix {ts : List Token} {values : List Node} {ops : List Token} {depth : ℕ}
    {expecting : Bool} {r : List Node × List Token × List Token}
    (h : parseExpLoop ts values ops depth expecting = some r) : r.2.2 <:+ ts := by
  fun_induction parseExpLoop ts values ops depth expecting with
  | case1 =>
    cases h
    exact List.nil_suffix
  | case2 =>
    cases h
    exact List.suffix_refl _
  | case3 values ops depth hz k v rest' ih =>
    obtain ⟨val, -, hloop⟩ := Option.bind_eq_some_iff.mp h
    exact (ih val hloop).trans ⟨[_, _, _], rfl⟩
  | case4 => cases h
  | case5 values ops depth hz k rest _ _ ih => exact (ih h).trans (List.suffix_cons _ _)
  | case6 rest values ops depth hz n ih => exact (ih h).trans (List.suffix_cons _ _)
  | case7 rest values ops depth hz ih => exact (ih h).trans (List.suffix_cons _ _)
  | case8 rest values ops depth hz ih => exact (ih h).trans (List.suffix_cons _ _)
  | case9 => cases h
  | case10 tok rest values ops depth expecting hz hexp hop ih =>
    obtain ⟨⟨vs, os⟩, -, hloop⟩ := Option.bind_eq_some_iff.mp h
    exact (ih vs os hloop).trans (List.suffix_cons _ _)
  | case11 rest values ops depth expecting hz hexp hop ih =>
    obtain ⟨⟨vs, os⟩, -, hloop⟩ := Option.bind_eq_some_iff.mp h
    exact (ih vs os hloop).trans (List.suffix_cons _ _)
  | case12 => cases h

theorem parseExp_suffix {ts rest : List Token} {e : Node} (h : parseExp ts = some (e, rest)) : rest <:+ ts := by
  unfold parseExp at h
  split at h
  · obtain ⟨⟨values, ops, rest'⟩, hloop, h⟩ := Option.bind_eq_some_iff.mp h
    obtain ⟨values', -, h⟩ := Option.bind_eq_some_iff.mp h
    rcases values' with _ | ⟨e', _ | ⟨_, _⟩⟩ <;> simp only [Option.some.injEq, Prod.mk.injEq,
      reduceCtorEq] at h
    obtain ⟨-, rfl⟩ := h
    exact (parseExpLoop_suffix hloop).trans (List.suffix_cons _ _)
  · cases h

theorem parseTagValue_suffix {key : TagKey} {first : Token} {rest rest' : List Token} {t : Tag}
    (h : parseTagValue key first rest = some (t, rest')) : rest' <:+ first :: rest := by
  unfold parseTagValue at h
  split at h
  · split_ifs at h
    cases h
    exact List.suffix_cons _ _
  · split_ifs at h
    cases h
    exact List.suffix_cons _ _
  · cases h
    exact List.suffix_cons _ _
  · obtain ⟨⟨e, r⟩, he, h⟩ := Option.map_eq_some_iff.mp h
    cases h
    exact parseExp_suffix he

/-- A tag whose texts are those of tokens of `toks`: its custom key is the text of a word or a quoted
string, and, unless it is a `where`, its value is the literal of a token. -/
def TagFrom (toks : List Token) (t : Tag) : Prop :=
  (∀ k, t.key = .custom k → .identifier k ∈ toks ∨ .literalString k ∈ toks) ∧
    (t.key ≠ .reserved .kwWhere → ∃ tok ∈ toks, expTagValue tok = some t.value)

theorem TagFrom.mono {toks toks' : List Token} {t : Tag} (h : TagFrom toks t) (hsub : toks ⊆ toks') :
    TagFrom toks' t := by
  obtain ⟨hkey, hval⟩ := h
  refine ⟨fun k hk => (hkey k hk).imp (fun h => hsub h) (fun h => hsub h), fun hw => ?_⟩
  obtain ⟨tok, htok, he⟩ := hval hw
  exact ⟨tok, hsub htok, he⟩

theorem tagKeyOf_custom {tok : Token} {k : String} (h : tagKeyOf tok = some (.custom k)) :
    tok = .identifier k ∨ tok = .literalString k := by
  cases tok <;> simp only [tagKeyOf, Option.some.injEq, reduceCtorEq, TagKey.custom.injEq] at h
  · exact .inl (congrArg _ h)
  · exact .inr (congrArg _ h)

theorem parseTagValue_literal_token {key : TagKey} {first : Token} {rest rest' : List Token} {t : Tag}
    (h : parseTagValue key first rest = some (t, rest')) (hlit : isLiteralOrIdentifier first = true) :
    t.key = key ∧ expTagValue first = some t.value := by
  cases first <;> simp only [isLiteralOrIdentifier, Bool.false_eq_true] at hlit <;>
    simp only [parseTagValue] at h
  all_goals
    (try split_ifs at h)
    cases h
    exact ⟨rfl, rfl⟩

/-- **A tag's texts.**  `_parse_tag` reads a tag from its key token and the token after `:`, and
leaves a suffix of its input. -/
theorem parseTag_from {toks rest : List Token} {t : Tag} (h : parseTag toks = some (t, rest)) :
    rest <:+ toks ∧ TagFrom toks t := by
  unfold parseTag at h
  split_ifs at h
  split at h
  next keyTok sep first rest' _ =>
    obtain ⟨key, hkey, h⟩ := Option.bind_eq_some_iff.mp h
    split_ifs at h with hsep hwhere hlit
    have hsuf : rest <:+ keyTok :: sep :: first :: rest' :=
      (parseTagValue_suffix h).trans ⟨[_, _], rfl⟩
    have htkey : t.key = key := by
      rcases parseTagValue_cases h with ⟨l, rfl⟩ | ⟨e, rfl, -⟩ <;> rfl
    refine ⟨hsuf, fun k hk => ?_, fun hw => ?_⟩
    · rw [htkey] at hk
      rcases tagKeyOf_custom (hk ▸ hkey) with rfl | rfl
      · exact .inl List.mem_cons_self
      · exact .inr List.mem_cons_self
    · -- not a `where`, so the value had to start with a literal
      have hfirst : isLiteralOrIdentifier first = true := by
        rw [htkey] at hw
        simpa [hw] using hlit
      exact ⟨first, by simp, (parseTagValue_literal_token h hfirst).2⟩
  next => cases h

theorem parseTag_length_lt {toks rest : List Token} {t : Tag} (h : parseTag toks = some (t, rest)) :
    rest.length < toks.length := by
  unfold parseTag at h
  split_ifs at h
  split at h
  next keyTok sep first rest' _ =>
    obtain ⟨key, -, h⟩ := Option.bind_eq_some_iff.mp h
    split_ifs at h
    have hle := (parseTagValue_suffix h).length_le
    simp only [List.length_cons] at hle ⊢
    omega
  next => cases h

theorem parseTags_length {fuel : ℕ} :
    ∀ {ts : List Token} {n : ℕ} {acc tags : List Tag}, parseTags fuel ts n acc = .ok tags →
      tags.length ≤ acc.length + ts.length := by
  induction fuel with
  | zero =>
    intro ts n acc tags h
    cases ts with
    | nil =>
      simp only [parseTags, Except.ok.injEq] at h
      simp [← h]
    | cons t ts => simp [parseTags] at h
  | succ fuel ih =>
    intro ts n acc tags h
    cases ts with
    | nil =>
      simp only [parseTags, Except.ok.injEq] at h
      simp [← h]
    | cons tok ts =>
      obtain ⟨tag, rest, n', htag, h⟩ := parseTags_succ_cons h
      have hlt := parseTag_length_lt htag
      have hle := ih h
      simp only [List.length_cons] at hlt hle ⊢
      omega

theorem parseTags_from {fuel : ℕ} :
    ∀ {ts : List Token} {n : ℕ} {acc tags : List Tag}, parseTags fuel ts n acc = .ok tags →
      ∀ {all : List Token}, ts <:+ all → (∀ t ∈ acc, TagFrom all t) → ∀ t ∈ tags, TagFrom all t := by
  induction fuel with
  | zero =>
    intro ts n acc tags h all _ hacc t ht
    cases ts with
    | nil =>
      simp only [parseTags, Except.ok.injEq] at h
      subst h
      exact hacc t (List.mem_reverse.1 ht)
    | cons t ts => simp [parseTags] at h
  | succ fuel ih =>
    intro ts n acc tags h all hsuf hacc t ht
    cases ts with
    | nil =>
      simp only [parseTags, Except.ok.injEq] at h
      subst h
      exact hacc t (List.mem_reverse.1 ht)
    | cons tok ts =>
      obtain ⟨tag, rest, n', htag, h⟩ := parseTags_succ_cons h
      obtain ⟨hrest, hfrom⟩ := parseTag_from htag
      refine ih h (hrest.trans hsuf) (fun u hu => ?_) t ht
      rcases List.mem_cons.1 hu with rfl | hu
      · exact hfrom.mono hsuf.subset
      · exact hacc u hu

theorem parse_some_tags {toks : List Token} {cmd : Command} (h : parse (some toks) = .ok cmd) :
    ∃ cmdTok rest, toks = cmdTok :: rest ∧ parseTags rest.length rest 0 [] = .ok cmd.tags := by
  cases toks with
  | nil => simp [parse] at h
  | cons cmdTok rest =>
    simp only [parse] at h
    split at h
    · cases h
    · split_ifs at h
      simp only [Except.map] at h
      split at h
      · cases h
      · rename_i tags htags
        cases h
        exact ⟨cmdTok, rest, rfl, htags⟩

theorem parse_tags_length {toks : List Token} {cmd : Command} (h : parse (some toks) = .ok cmd) :
    cmd.tags.length ≤ toks.length := by
  obtain ⟨cmdTok, rest, rfl, htags⟩ := parse_some_tags h
  have hle := parseTags_length htags
  simp only [List.length_nil, List.length_cons] at hle ⊢
  omega

/-- **The texts of a command.**  Every tag of a command `parse` returns has its custom key and, unless
it is a `where`, its value from tokens of its input. -/
theorem parse_tagFrom {toks : List Token} {cmd : Command} (h : parse (some toks) = .ok cmd) :
    ∀ t ∈ cmd.tags, TagFrom toks t := by
  obtain ⟨cmdTok, rest, rfl, htags⟩ := parse_some_tags h
  exact parseTags_from htags (List.suffix_cons _ _) (by simp)

end Orrp.Query
