import Orrp.Query.Parser

/-!
# Command contexts (`engine/cmd_context`)

`build_cmd_context` walks a command's tags once: the value of each reserved tag goes to its field of
`cmd_ctx_t` (a later tag of the same key replacing an earlier one) and the custom tags are linked
into one list, in the order of the command.

* `buildCmdContext_customTags` — the custom tags are the command's custom tags in order;
* `buildCmdContext_reservedValue` — a reserved field holds the value of the last tag of its key;
* `astFindCustomTag` — `ast_find_custom_tag`, the first custom tag of a key.
-/

namespace Orrp.Engine

open Orrp.Query

/-- `cmd_ctx_t`. -/
structure CmdCtx where
  inTagValue : Option Node
  entityTagValue : Option Node
  whereTagValue : Option Node
  takeTagValue : Option Node
  cursorTagValue : Option Node
  keyTagValue : Option Node
  customTags : List Tag
  arrivalTs : ℤ
  deriving DecidableEq, Repr

/-- One tag of the loop of `build_cmd_context`. -/
def addTagToCmdContext (ctx : CmdCtx) (t : Tag) : CmdCtx :=
  match t.key with
  | .reserved .kwIn => { ctx with inTagValue := some t.value }
  | .reserved .kwEntity => { ctx with entityTagValue := some t.value }
  | .reserved .kwWhere => { ctx with whereTagValue := some t.value }
  | .reserved .kwTake => { ctx with takeTagValue := some t.value }
  | .reserved .kwCursor => { ctx with cursorTagValue := some t.value }
  | .reserved .kwId => ctx
  | .reserved .kwKey => { ctx with keyTagValue := some t.value }
  | .custom _ => { ctx with customTags := ctx.customTags ++ [t] }

/-- `build_cmd_context`: the context of a command that arrived at `arrivalTs`. -/
def buildCmdContext (cmd : Command) (arrivalTs : ℤ) : CmdCtx :=
  cmd.tags.foldl addTagToCmdContext ⟨none, none, none, none, none, none, [], arrivalTs⟩

/-- The field a reserved key fills; `id` fills none. -/
def CmdCtx.reservedValue (ctx : CmdCtx) : ReservedKey → Option Node
  | .kwIn => ctx.inTagValue
  | .kwEntity => ctx.entityTagValue
  | .kwWhere => ctx.whereTagValue
  | .kwTake => ctx.takeTagValue
  | .kwCursor => ctx.cursorTagValue
  | .kwKey => ctx.keyTagValue
  | .kwId => none

/-- The value of the last tag of reserved key `k`. -/
def lastTagValue (tags : List Tag) (k : ReservedKey) : Option Node :=
  (tags.reverse.find? fun t => t.key = .reserved k).map Tag.value

/-- `num_custom_tags`. -/
def CmdCtx.numCustomTags (ctx : CmdCtx) : ℕ := ctx.customTags.length

/-- `ast_find_custom_tag` on the custom tags: the first of key `key`; an empty key finds none. -/
def astFindCustomTag (tags : List Tag) (key : String) : Option Tag :=
  if key = "" then none else tags.find? fun t => t.key = .custom key

theorem addTagToCmdContext_customTags (ctx : CmdCtx) (t : Tag) :
    (addTagToCmdContext ctx t).customTags = ctx.customTags ++ (if t.isCustom then [t] else []) := by
  rcases t with ⟨key, value⟩
  cases key with
  | reserved k => cases k <;> simp [addTagToCmdContext, Tag.isCustom]
  | custom k => simp [addTagToCmdContext, Tag.isCustom]

theorem addTagToCmdContext_arrivalTs (ctx : CmdCtx) (t : Tag) :
    (addTagToCmdContext ctx t).arrivalTs = ctx.arrivalTs := by
  rcases t with ⟨key, value⟩
  cases key with
  | reserved k => cases k <;> rfl
  | custom k => rfl

theorem foldl_addTagToCmdContext_customTags (tags : List Tag) (ctx : CmdCtx) :
    (tags.foldl addTagToCmdContext ctx).customTags = ctx.customTags ++ tags.filter Tag.isCustom := by
  induction tags generalizing ctx with
  | nil => simp
  | cons t ts ih =>
    rw [List.foldl_cons, ih, addTagToCmdContext_customTags, List.filter_cons]
    split <;> simp_all

theorem buildCmdContext_customTags (cmd : Command) (ts : ℤ) :
    (buildCmdContext cmd ts).customTags = cmd.tags.filter Tag.isCustom := by
  rw [buildCmdContext, foldl_addTagToCmdContext_customTags, List.nil_append]

theorem foldl_addTagToCmdContext_arrivalTs (tags : List Tag) (ctx : CmdCtx) :
    (tags.foldl addTagToCmdContext ctx).arrivalTs = ctx.arrivalTs := by
  induction tags generalizing ctx with
  | nil => rfl
  | cons t ts ih => rw [List.foldl_cons, ih, addTagToCmdContext_arrivalTs]

theorem buildCmdContext_arrivalTs (cmd : Command) (ts : ℤ) :
    (buildCmdContext cmd ts).arrivalTs = ts :=
  foldl_addTagToCmdContext_arrivalTs cmd.tags _

theorem lastTagValue_of_mem {tags : List Tag} {k : ReservedKey} (h : ∃ t ∈ tags, t.key = .reserved k) :
    ∃ t ∈ tags, t.key = .reserved k ∧ lastTagValue tags k = some t.value := by
  obtain ⟨t, ht, hk⟩ := h
  rcases hf : tags.reverse.find? (fun t => decide (t.key = .reserved k)) with _ | u
  · rw [List.find?_eq_none] at hf
    exact absurd (decide_eq_true hk) (hf t (List.mem_reverse.2 ht))
  · refine ⟨u, List.mem_reverse.1 (List.mem_of_find?_eq_some hf), ?_, ?_⟩
    · exact of_decide_eq_true (List.find?_some (p := fun t : Tag => decide (t.key = .reserved k)) hf)
    · simp only [lastTagValue, hf, Option.map_some]

theorem addTagToCmdContext_reservedValue (ctx : CmdCtx) (t : Tag) {k : ReservedKey}
    (hk : k ≠ .kwId) :
    (addTagToCmdContext ctx t).reservedValue k =
      if t.key = .reserved k then some t.value else ctx.reservedValue k := by
  rcases t with ⟨key, value⟩
  cases key with
  | reserved k' => cases k' <;> cases k <;> simp_all [addTagToCmdContext, CmdCtx.reservedValue]
  | custom k' => cases k <;> simp [addTagToCmdContext, CmdCtx.reservedValue]

theorem lastTagValue_cons (t : Tag) (ts : List Tag) (k : ReservedKey) :
    lastTagValue (t :: ts) k =
      (lastTagValue ts k).or (if t.key = .reserved k then some t.value else none) := by
  unfold lastTagValue
  rw [List.reverse_cons, List.find?_append]
  cases hf : ts.reverse.find? (fun t => decide (t.key = .reserved k)) with
  | none => by_cases ht : t.key = .reserved k <;> simp [ht]
  | some u => simp

theorem foldl_addTagToCmdContext_reservedValue {k : ReservedKey} (hk : k ≠ .kwId) (tags : List Tag)
    (ctx : CmdCtx) :
    (tags.foldl addTagToCmdContext ctx).reservedValue k = (lastTagValue tags k).or (ctx.reservedValue k) := by
  induction tags generalizing ctx with
  | nil => simp [lastTagValue]
  | cons t ts ih =>
    rw [List.foldl_cons, ih, addTagToCmdContext_reservedValue _ _ hk, lastTagValue_cons, Option.or_assoc]
    split <;> rfl

/-- **A reserved field** holds the value of the last tag of its key, `NULL` without one. -/
theorem buildCmdContext_reservedValue (cmd : Command) (ts : ℤ) {k : ReservedKey} (hk : k ≠ .kwId) :
    (buildCmdContext cmd ts).reservedValue k = lastTagValue cmd.tags k := by
  rw [buildCmdContext, foldl_addTagToCmdContext_reservedValue hk]
  cases k <;> simp [CmdCtx.reservedValue]

end Orrp.Engine
