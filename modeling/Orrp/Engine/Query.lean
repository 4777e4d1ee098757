import Orrp.Engine.WorkerMsg
import Orrp.Lib.Page

/-!
# Queries (`engine/eng_query`, `bitmap_take`, `eng_query` and `_handle_query_result`)

`eng_query_exec` evaluates a query's `where` expression to a bitmap of event ids and cuts a page
out of it with `bitmap_take`: the ids from `cursor` on, at most `take` of them, and the id the next
page starts at, or `0` when this page holds the rest.  `take` defaults to `5000` and `cursor` to
`0`; both are the literals' `int64_t` values stored in `uint32_t`s.  `_handle_query_result` then
reads each id's record from `events_db`, in increasing order, and skips ids not stored yet.

* `bitmapTake_eq` — the page is the `take` smallest ids from the cursor on, and the next cursor the
  one after them;
* `followCursor_partition` — a client that follows the cursor from `0` reads the whole bitmap, in
  order, in full pages and a last one, each cursor being the smallest id not yet returned;
* `engQuery_eq` — a query whose expression evaluates returns the stored records of that page, in
  increasing order;
* `engQueryExec_narrowed` — a `take` or `cursor` of `2^32` or more is read modulo `2^32`.
-/

namespace Orrp.Engine

open Orrp.Query Orrp.Lib

/-- `bitmap_take`: drop the ids below `startVal`; if more than `limit` remain, keep the `limit`
smallest and return the next one as the cursor, else keep them all and return `0`.  A `limit` of
`0` clears the bitmap. -/
def bitmapTake (bm : Finset ℕ) (limit startVal : ℕ) : Finset ℕ × ℕ :=
  if limit = 0 then (∅, 0)
  else
    let bm := if startVal ≠ 0 then bm.filter (startVal ≤ ·) else bm
    if bm.card ≤ limit then (bm, 0)
    else
      -- `roaring_bitmap_select` of rank `limit`, then the range from it removed
      match bm.sort[limit]? with
      | some nextCursor => (bm.filter (· < nextCursor), nextCursor)
      | none => (bm, 0)

/-- The `uint32_t` a numeric tag's `number_value` is stored in: its value modulo `2^32`.  The
validator admits only numbers for `take` and `cursor`; the source reads `number_value` without a
check. -/
def numberValueU32 : Node → ℕ
  | .literal (.num n) => (n % 2 ^ 32).toNat
  | _ => 0

/-- `eng_query_exec`'s `limit`: the `take` value, `5000` without one. -/
def CmdCtx.queryLimit (ctx : CmdCtx) : ℕ := (ctx.takeTagValue.map numberValueU32).getD 5000

/-- `eng_query_exec`'s `start_val`: the `cursor` value, `0` without one. -/
def CmdCtx.queryStart (ctx : CmdCtx) : ℕ := (ctx.cursorTagValue.map numberValueU32).getD 0

/-- `eng_query_exec`: the events of the `where` expression and the next cursor, paged when `limit`
or `start_val` is non-zero. -/
def engQueryExec (snap : Snapshot) (ctx : CmdCtx) : Except String (Finset ℕ × ℕ) :=
  match ctx.whereTagValue with
  | none => .error "Invalid args"
  | some exp =>
    match engEvalResolveExpToEvents snap exp with
    | .error msg => .error msg
    | .ok events =>
      if ctx.queryLimit ≠ 0 ∨ ctx.queryStart ≠ 0 then
        .ok (bitmapTake events ctx.queryLimit ctx.queryStart)
      else .ok (events, 0)

/-- `api_obj_t`: an event id and the record stored for it. -/
structure ApiObj where
  id : ℕ
  data : DbValue
  deriving DecidableEq

/-- `_handle_query_result`: the page's ids in increasing order, each with its record from the
container's `events_db`, skipping ids with none; and the next cursor. -/
def handleQueryResult (lmdb : Lmdb) (containerName : String) :
    Except String (Finset ℕ × ℕ) → Except String (List ApiObj × ℕ)
  | .error msg => .error msg
  | .ok (events, nextCursor) =>
    .ok (events.sort.filterMap (fun id => (lmdb (eventDbKey containerName id)).map (ApiObj.mk id)),
      nextCursor)

/-- `eng_query` once the container and its transactions are open: the command's context, executed
over the container's snapshot, and the page read from `events_db`. -/
def engQuery (snap : Snapshot) (lmdb : Lmdb) (cmd : Command) : Except String (List ApiObj × ℕ) :=
  handleQueryResult lmdb snap.containerName (engQueryExec snap (buildCmdContext cmd (-1)))

/-! ## A page -/

/-- The ids of `s` from `c` on, at most `n` of them, the smallest. -/
def page (s : Finset ℕ) (c n : ℕ) : Finset ℕ := ((s.filter (c ≤ ·)).sort.take n).toFinset

/-- Where the page after `page s c n` starts: the next id from `c` on, `0` when there is none. -/
def nextCursor (s : Finset ℕ) (c n : ℕ) : ℕ := ((s.filter (c ≤ ·)).sort[n]?).getD 0

/-- **`bitmap_take`.**  With a non-zero limit the page is the `limit` smallest ids from the cursor
on, and the cursor returned is the id after them, `0` when the page holds the rest. -/
theorem bitmapTake_eq (bm : Finset ℕ) {limit : ℕ} (startVal : ℕ) (hl : limit ≠ 0) :
    bitmapTake bm limit startVal = (page bm startVal limit, nextCursor bm startVal limit) := by
  have hfrom : (if startVal ≠ 0 then bm.filter (startVal ≤ ·) else bm) =
      bm.filter (startVal ≤ ·) := by
    split
    · rfl
    · rename_i h
      rw [not_not] at h
      subst h
      simp
  unfold bitmapTake page nextCursor
  rw [if_neg hl]
  dsimp only
  rw [hfrom]
  by_cases hc : (bm.filter (startVal ≤ ·)).card ≤ limit
  · -- the rest fits in the page
    rw [if_pos hc, take_sort_eq_of_card_le _ hc,
      List.getElem?_eq_none (by rw [Finset.length_sort]; exact hc)]
    rfl
  · -- the page ends below the id of rank `limit`
    have hlt : limit < (bm.filter (startVal ≤ ·)).sort.length := by
      rw [Finset.length_sort]
      omega
    rw [if_neg hc, List.getElem?_eq_getElem hlt, Option.getD_some]
    dsimp only
    rw [filter_lt_getElem_sort _ hlt]

theorem card_page (s : Finset ℕ) (c n : ℕ) : (page s c n).card = min n (s.filter (c ≤ ·)).card := by
  rw [page, List.toFinset_card_of_nodup ((Finset.sort_nodup _ _).sublist (List.take_sublist _ _)),
    List.length_take, Finset.length_sort]

/-! ## Following the cursor

A client reads a whole result by asking again from the cursor each answer returns, until it is
`0`.  From a cursor that is the id of rank `j`, each request takes the next chunk of `limit` ids of
the sorted list. -/

/-- The pages a client reads by following `next_cursor` from `cursor`: `bitmap_take` of a fresh
copy of the bitmap from each cursor the one before returned, until one returns `0`, in at most
`fuel` requests. -/
def followCursor (bm : Finset ℕ) (limit : ℕ) : ℕ → ℕ → List (Finset ℕ × ℕ)
  | 0, _ => []
  | fuel + 1, cursor =>
    let r := bitmapTake bm limit cursor
    r :: if r.2 = 0 then [] else followCursor bm limit fuel r.2

/-- The `i`-th page of the sorted ids `r` left from some cursor on, with the cursor after it. -/
def pageOf (r : List ℕ) (limit i : ℕ) : Finset ℕ × ℕ :=
  ((chunk r limit i).toFinset, (r[(i + 1) * limit]?).getD 0)

theorem pageOf_succ (r : List ℕ) (limit i : ℕ) :
    pageOf r limit (i + 1) = pageOf (r.drop limit) limit i := by
  simp only [pageOf, chunk_succ, List.getElem?_drop, Nat.succ_mul (i + 1), Nat.add_comm _ limit]

/-- **One request.**  From a cursor that leaves the ids of rank `j` on, `bitmap_take` returns the
first page of those. -/
theorem bitmapTake_of_filter {bm : Finset ℕ} {limit c j : ℕ} (hl : limit ≠ 0)
    (hc : bm.filter (c ≤ ·) = (bm.sort.drop j).toFinset) :
    bitmapTake bm limit c = pageOf (bm.sort.drop j) limit 0 := by
  rw [bitmapTake_eq bm c hl]
  simp only [page, nextCursor, pageOf, chunk, hc, sort_toFinset_of_sublist bm (List.drop_sublist _ _),
    Nat.zero_mul, Nat.zero_add, Nat.one_mul, List.drop_zero]

/-- **The client's loop.**  From the cursor of rank `j` (or `0`), with enough requests, the pages
are the chunks of the ids from rank `j` on; induction on the requests, the cursor each returns
being the id of the next rank. -/
theorem followCursor_eq {bm : Finset ℕ} {limit : ℕ} (hl : 0 < limit) : ∀ (fuel j c : ℕ),
    bm.filter (c ≤ ·) = (bm.sort.drop j).toFinset → (j = 0 ∨ j < bm.card) →
    chunkCount (bm.card - j) limit ≤ fuel →
    followCursor bm limit fuel c =
      (List.range (chunkCount (bm.card - j) limit)).map (pageOf (bm.sort.drop j) limit)
  | 0, j, c, _, _, hf => by
    simp [chunkCount] at hf
  | fuel + 1, j, c, hc, hj, hf => by
    have hlen : bm.sort.length = bm.card := Finset.length_sort _
    rw [followCursor, bitmapTake_of_filter hl.ne' hc]
    by_cases hlast : bm.card - j ≤ limit
    · -- the ids left fit in this page: its cursor is `0`
      have hnone : bm.sort[j + limit]? = none := List.getElem?_eq_none (by omega)
      rw [chunkCount_of_le hlast]
      simp [pageOf, List.getElem?_drop, hnone]
    · -- another page follows, from the id of rank `j + limit`
      have hlt : j + limit < bm.sort.length := by omega
      have hcursor : (pageOf (bm.sort.drop j) limit 0).2 = bm.sort[j + limit] := by
        simp [pageOf, List.getElem?_drop, List.getElem?_eq_getElem hlt]
      have hne : bm.sort[j + limit] ≠ 0 := by
        have h0 : bm.sort[0] < bm.sort[j + limit] :=
          (Finset.sortedLT_sort bm).getElem_lt_getElem_iff.2 (by omega)
        omega
      have hcount : chunkCount (bm.card - j) limit = chunkCount (bm.card - (j + limit)) limit + 1 := by
        rw [Nat.sub_add_eq]
        exact chunkCount_of_lt hl (by omega)
      have hrest := followCursor_eq hl fuel (j + limit) _ (filter_le_getElem_sort bm hlt) (.inr (by omega))
        (by omega)
      rw [hcursor, if_neg hne, hrest, hcount, List.range_succ_eq_map, List.map_cons, List.map_map]
      congr 1
      exact List.map_congr_left fun i _ => by rw [Function.comp_apply, pageOf_succ, List.drop_drop]

/-- The pages of `bm` in closed form: its sorted ids cut into chunks of `limit`. -/
def cursorPages (bm : Finset ℕ) (limit : ℕ) : List (Finset ℕ × ℕ) :=
  (List.range (chunkCount bm.card limit)).map (pageOf bm.sort limit)

theorem followCursor_zero (bm : Finset ℕ) {limit : ℕ} (hl : 0 < limit) :
    followCursor bm limit (bm.card + 1) 0 = cursorPages bm limit := by
  have hall : bm.filter (0 ≤ ·) = (bm.sort.drop 0).toFinset := by
    rw [List.drop_zero, Finset.sort_toFinset, Finset.filter_true_of_mem fun x _ => Nat.zero_le x]
  simpa [cursorPages] using
    followCursor_eq hl (bm.card + 1) 0 0 hall (.inl rfl) (chunkCount_le_self_add_one _ _)

section Pages

variable (bm : Finset ℕ) {limit : ℕ}

theorem sort_pageOf (limit i : ℕ) : (pageOf bm.sort limit i).1.sort = chunk bm.sort limit i :=
  sort_toFinset_of_sublist bm (chunk_sublist _ _ _)

theorem card_pageOf (limit i : ℕ) :
    (pageOf bm.sort limit i).1.card = min limit (bm.card - i * limit) := by
  rw [← Finset.length_sort (· ≤ ·), sort_pageOf, length_chunk, Finset.length_sort]

theorem pageOf_cursor {i : ℕ} (hi : (i + 1) * limit < bm.card) :
    (pageOf bm.sort limit i).2 ∈ bm ∧
      bm.filter (· < (pageOf bm.sort limit i).2) = (bm.sort.take ((i + 1) * limit)).toFinset := by
  have hlt : (i + 1) * limit < bm.sort.length := by rwa [Finset.length_sort]
  have hc : (pageOf bm.sort limit i).2 = bm.sort[(i + 1) * limit] := by
    simp [pageOf, List.getElem?_eq_getElem hlt]
  rw [hc]
  exact ⟨(Finset.mem_sort _).1 (List.getElem_mem hlt), filter_lt_getElem_sort bm hlt⟩

theorem length_cursorPages (limit : ℕ) : (cursorPages bm limit).length = chunkCount bm.card limit := by
  simp [cursorPages]

theorem flatten_cursorPages (hl : 0 < limit) :
    ((cursorPages bm limit).map fun p => p.1.sort).flatten = bm.sort := by
  have hpages : ((cursorPages bm limit).map fun p => p.1.sort) =
      (List.range (chunkCount bm.card limit)).map (chunk bm.sort limit) := by
    rw [cursorPages, List.map_map]
    exact List.map_congr_left fun i _ => sort_pageOf bm limit i
  rw [hpages, flatten_chunks]
  rw [Finset.length_sort]
  exact le_chunkCount_mul _ hl

theorem mem_take_cursorPages {i : ℕ} (hi : i + 1 ≤ chunkCount bm.card limit) (x : ℕ) :
    (∃ p ∈ (cursorPages bm limit).take (i + 1), x ∈ p.1) ↔ x ∈ bm.sort.take ((i + 1) * limit) := by
  rw [← flatten_chunks_take, List.mem_flatten, cursorPages, ← List.map_take, List.take_range,
    Nat.min_eq_left hi]
  simp [pageOf]

end Pages

/-- **Paging through a result.**  Following the cursor from `0` with any limit `L ≥ 1`, the client
stops on a cursor of `0`; the pages, each sorted, are `B`'s sorted ids one run after another, so
they are disjoint and cover `B`; every page but the last holds `L` ids and the last `1` to `L`
(none for an empty `B`); and each cursor before the last is the smallest id not yet returned. -/
theorem followCursor_partition (B : Finset ℕ) {L : ℕ} (hL : 1 ≤ L) {pages : List (Finset ℕ × ℕ)}
    (hp : followCursor B L (B.card + 1) 0 = pages) :
    (pages.map Prod.snd).getLast? = some 0 ∧
    (pages.map fun p => p.1.sort).flatten = B.sort ∧
    (pages.map Prod.fst).Pairwise Disjoint ∧
    (∀ x, x ∈ B ↔ ∃ p ∈ pages, x ∈ p.1) ∧
    (∀ p ∈ pages.getLast?, p.1.card ≤ L ∧ (0 < p.1.card ↔ B.Nonempty)) ∧
    ∀ i (hi : i + 1 < pages.length), pages[i].1.card = L ∧ pages[i].2 ∈ B ∧
      ∀ x ∈ B, x < pages[i].2 ↔ ∃ p ∈ pages.take (i + 1), x ∈ p.1 := by
  have hpages : pages = cursorPages B L := hp ▸ followCursor_zero B hL
  have hflat := flatten_cursorPages B hL
  have hfull := chunkCount_pred_mul_le B.card L
  have hcover := le_chunkCount_mul B.card hL
  have hk : chunkCount B.card L ≠ 0 := Nat.succ_ne_zero _
  simp only [hpages]
  refine ⟨?last, hflat, ?disjoint, ?union, ?lastCard, ?cursor⟩
  case last =>
    have hnone : B.sort[chunkCount B.card L * L]? = none :=
      List.getElem?_eq_none (by rw [Finset.length_sort]; exact hcover)
    simp [cursorPages, List.getLast?_range, hk, pageOf, Nat.sub_add_cancel (Nat.pos_of_ne_zero hk), hnone]
  case disjoint =>
    have hnd := hflat ▸ Finset.sort_nodup B (· ≤ ·)
    rw [List.nodup_flatten, List.pairwise_map] at hnd
    rw [List.pairwise_map]
    exact hnd.2.imp fun h => Finset.disjoint_left.2 fun _ hx hy =>
      h ((Finset.mem_sort _).2 hx) ((Finset.mem_sort _).2 hy)
  case union =>
    intro x
    rw [← Finset.mem_sort (· ≤ ·), ← hflat, List.mem_flatten]
    simp
  case lastCard =>
    intro p hp
    simp only [cursorPages, List.getLast?_map, List.getLast?_range, hk, if_false, Option.map_some,
      Option.mem_def, Option.some.injEq] at hp
    subst hp
    rw [card_pageOf, ← Finset.card_pos]
    omega
  case cursor =>
    intro i hi
    rw [length_cursorPages] at hi
    have hlt : (i + 1) * L < B.card := by
      have h1 : (i + 1) * L ≤ B.card - 1 := (Nat.mul_le_mul_right L (Nat.le_sub_one_of_lt hi)).trans hfull
      have h2 : 0 < (i + 1) * L := Nat.mul_pos (Nat.succ_pos i) hL
      omega
    obtain ⟨hmem, hbelow⟩ := pageOf_cursor B hlt
    simp only [cursorPages, List.getElem_map, List.getElem_range]
    refine ⟨?_, hmem, fun x hx => ?_⟩
    · rw [card_pageOf]
      rw [Nat.succ_mul] at hlt
      omega
    · rw [← cursorPages, mem_take_cursorPages B (by omega), ← List.mem_toFinset, ← hbelow]
      simp [hx]

theorem followCursor_partition_edges :
    ((followCursor {0, 4294967295} 1 (Finset.card {0, 4294967295} + 1) 0).map Prod.snd).getLast? = some 0 ∧
    ((followCursor {0, 4294967295} 1 (Finset.card {0, 4294967295} + 1) 0).map fun p => p.1.sort).flatten = ({0, 4294967295} : Finset ℕ).sort ∧
    ((followCursor {0, 4294967295} 1 (Finset.card {0, 4294967295} + 1) 0).map Prod.fst).Pairwise Disjoint ∧
    (∀ x, x ∈ ({0, 4294967295} : Finset ℕ) ↔ ∃ p ∈ (followCursor {0, 4294967295} 1 (Finset.card {0, 4294967295} + 1) 0), x ∈ p.1) ∧
    (∀ p ∈ (followCursor {0, 4294967295} 1 (Finset.card {0, 4294967295} + 1) 0).getLast?, p.1.card ≤ 1 ∧ (0 < p.1.card ↔ ({0, 4294967295} : Finset ℕ).Nonempty)) ∧
    ∀ i (hi : i + 1 < (followCursor {0, 4294967295} 1 (Finset.card {0, 4294967295} + 1) 0).length),
      (followCursor {0, 4294967295} 1 (Finset.card {0, 4294967295} + 1) 0)[i].1.card = 1 ∧ (followCursor {0, 4294967295} 1 (Finset.card {0, 4294967295} + 1) 0)[i].2 ∈ ({0, 4294967295} : Finset ℕ) ∧
      ∀ x ∈ ({0, 4294967295} : Finset ℕ), x < (followCursor {0, 4294967295} 1 (Finset.card {0, 4294967295} + 1) 0)[i].2 ↔ ∃ p ∈ (followCursor {0, 4294967295} 1 (Finset.card {0, 4294967295} + 1) 0).take (i + 1), x ∈ p.1 :=
  followCursor_partition {0, 4294967295} le_rfl rfl

/-! ## Reading the page -/

section Handle

variable {lmdb : Lmdb} {containerName : String}

theorem mem_handleQueryResult {events : Finset ℕ} {cursor : ℕ} {objs : List ApiObj} {next : ℕ}
    (h : handleQueryResult lmdb containerName (.ok (events, cursor)) = .ok (objs, next))
    (o : ApiObj) : o ∈ objs ↔ o.id ∈ events ∧ lmdb (eventDbKey containerName o.id) = some o.data := by
  simp only [handleQueryResult, Except.ok.injEq, Prod.mk.injEq] at h
  rw [← h.1, List.mem_filterMap]
  constructor
  · rintro ⟨id, hid, hv⟩
    obtain ⟨v, hv', rfl⟩ := Option.map_eq_some_iff.1 hv
    exact ⟨(Finset.mem_sort (· ≤ ·)).1 hid, hv'⟩
  · rintro ⟨hid, hv⟩
    exact ⟨o.id, (Finset.mem_sort (· ≤ ·)).2 hid, by rw [hv]; rfl⟩

theorem handleQueryResult_sorted {events : Finset ℕ} {cursor : ℕ} {objs : List ApiObj} {next : ℕ}
    (h : handleQueryResult lmdb containerName (.ok (events, cursor)) = .ok (objs, next)) :
    (objs.map ApiObj.id).Pairwise (· < ·) := by
  simp only [handleQueryResult, Except.ok.injEq, Prod.mk.injEq] at h
  rw [← h.1, List.pairwise_map]
  have hid : ∀ id o, (lmdb (eventDbKey containerName id)).map (ApiObj.mk id) = some o → o.id = id := by
    intro id o ho
    obtain ⟨v, -, rfl⟩ := Option.map_eq_some_iff.1 ho
    rfl
  refine ((Finset.sortedLT_sort events).pairwise).filterMap _ fun a a' hlt o ho o' ho' => ?_
  rw [hid a o ho, hid a' o' ho']
  exact hlt

end Handle

/-! ## A whole query -/

theorem engQueryExec_eq {snap : Snapshot} {ctx : CmdCtx} {exp : Node} {d : Finset ℕ}
    (hw : ctx.whereTagValue = some exp) (hd : snap.denote exp = some d)
    (hnodup : (snap.tagKeys exp).Nodup) (hinter : snap.intermediateNeed exp ≤ maxEvalStack)
    (hcache : (snap.tagKeys exp).length ≤ maxEvalStack) :
    engQueryExec snap ctx = .ok (if ctx.queryLimit ≠ 0 ∨ ctx.queryStart ≠ 0 then
      bitmapTake d ctx.queryLimit ctx.queryStart else (d, 0)) := by
  obtain ⟨r, s', he, hpost⟩ := eval_spec hd (evalPre_initState hnodup hinter hcache)
  have hevents : engEvalResolveExpToEvents snap exp = .ok d := by
    simp only [engEvalResolveExpToEvents, he, hpost.value]
  rw [engQueryExec, hw]
  dsimp only
  rw [hevents]
  dsimp only
  split <;> rfl

/-- **A query.**  When the `where` expression of a `QUERY` evaluates to its meaning `d` and the
limit is not `0`, `eng_query` returns the records stored for the page of `d` from the cursor on, in
increasing order of id, and the cursor of the next page. -/
theorem engQuery_eq {snap : Snapshot} {lmdb : Lmdb} {cmd : Command} {exp : Node} {d : Finset ℕ}
    (hw : (buildCmdContext cmd (-1)).whereTagValue = some exp) (hd : snap.denote exp = some d)
    (hnodup : (snap.tagKeys exp).Nodup) (hinter : snap.intermediateNeed exp ≤ maxEvalStack)
    (hcache : (snap.tagKeys exp).length ≤ maxEvalStack)
    (hl : (buildCmdContext cmd (-1)).queryLimit ≠ 0) :
    ∃ objs, engQuery snap lmdb cmd = .ok (objs, nextCursor d (buildCmdContext cmd (-1)).queryStart
        (buildCmdContext cmd (-1)).queryLimit) ∧
      (objs.map ApiObj.id).Pairwise (· < ·) ∧
      ∀ o, o ∈ objs ↔ o.id ∈ page d (buildCmdContext cmd (-1)).queryStart
          (buildCmdContext cmd (-1)).queryLimit ∧
        lmdb (eventDbKey snap.containerName o.id) = some o.data := by
  have hexec : engQueryExec snap (buildCmdContext cmd (-1)) =
      .ok (bitmapTake d (buildCmdContext cmd (-1)).queryLimit (buildCmdContext cmd (-1)).queryStart) := by
    rw [engQueryExec_eq hw hd hnodup hinter hcache, if_pos (.inl hl)]
  rw [bitmapTake_eq d _ hl] at hexec
  obtain ⟨objs, hobjs⟩ : ∃ objs, handleQueryResult lmdb snap.containerName
      (.ok (page d (buildCmdContext cmd (-1)).queryStart (buildCmdContext cmd (-1)).queryLimit,
        nextCursor d (buildCmdContext cmd (-1)).queryStart (buildCmdContext cmd (-1)).queryLimit)) =
      .ok (objs, nextCursor d (buildCmdContext cmd (-1)).queryStart
        (buildCmdContext cmd (-1)).queryLimit) := ⟨_, rfl⟩
  refine ⟨objs, ?_, handleQueryResult_sorted hobjs, mem_handleQueryResult hobjs⟩
  rw [engQuery, hexec, hobjs]

/-- **Limits past `2^32`.**  With `take:t` and `cursor:c`, `t` not a multiple of `2^32`, a query
returns the page of `t mod 2^32` ids from `c mod 2^32` on: the literals' values are narrowed to the
`uint32_t`s `limit` and `start_val`, though the validator admits any positive `int64_t`. -/
theorem engQueryExec_narrowed {snap : Snapshot} {ctx : CmdCtx} {exp : Node} {d : Finset ℕ}
    (hw : ctx.whereTagValue = some exp) (hd : snap.denote exp = some d)
    (hnodup : (snap.tagKeys exp).Nodup) (hinter : snap.intermediateNeed exp ≤ maxEvalStack)
    (hcache : (snap.tagKeys exp).length ≤ maxEvalStack) {t c : ℤ}
    (ht : ctx.takeTagValue = some (.literal (.num t)))
    (hc : ctx.cursorTagValue = some (.literal (.num c))) (hne : t % 2 ^ 32 ≠ 0) :
    ∃ r, engQueryExec snap ctx = .ok r ∧ r.1 = page d (c % 2 ^ 32).toNat (t % 2 ^ 32).toNat ∧
      r.1.card = min (t % 2 ^ 32).toNat (d.filter ((c % 2 ^ 32).toNat ≤ ·)).card := by
  have hlimit : ctx.queryLimit = (t % 2 ^ 32).toNat := by
    simp [CmdCtx.queryLimit, ht, numberValueU32]
  have hstart : ctx.queryStart = (c % 2 ^ 32).toNat := by
    simp [CmdCtx.queryStart, hc, numberValueU32]
  have hl : ctx.queryLimit ≠ 0 := by
    rw [hlimit]
    omega
  refine ⟨_, engQueryExec_eq hw hd hnodup hinter hcache, ?_, ?_⟩
  · rw [if_pos (.inl hl), bitmapTake_eq d _ hl, hlimit, hstart]
  · rw [if_pos (.inl hl), bitmapTake_eq d _ hl, hlimit, hstart, card_page]

theorem engQueryExec_narrowed_take :
    parse (tokTokenize "QUERY in:c where:(a:x) take:4294967297 cursor:1") =
      .ok ⟨.query, [⟨.reserved .kwIn, .literal (.str "c")⟩, ⟨.reserved .kwWhere, .strTag "a" "x"⟩,
        ⟨.reserved .kwTake, .literal (.num 4294967297)⟩, ⟨.reserved .kwCursor, .literal (.num 1)⟩]⟩ ∧
    validatorAnalyze ⟨.query, [⟨.reserved .kwIn, .literal (.str "c")⟩,
        ⟨.reserved .kwWhere, .strTag "a" "x"⟩, ⟨.reserved .kwTake, .literal (.num 4294967297)⟩,
        ⟨.reserved .kwCursor, .literal (.num 1)⟩]⟩ = .valid ∧
    (∃ r, engQueryExec sampleSnapshot (buildCmdContext ⟨.query, [⟨.reserved .kwIn, .literal (.str "c")⟩,
        ⟨.reserved .kwWhere, .strTag "a" "x"⟩, ⟨.reserved .kwTake, .literal (.num 4294967297)⟩,
        ⟨.reserved .kwCursor, .literal (.num 1)⟩]⟩ (-1)) = .ok r ∧
      r.1 = page {1, 2} ((1 : ℤ) % 2 ^ 32).toNat ((4294967297 : ℤ) % 2 ^ 32).toNat ∧
      r.1.card = min ((4294967297 : ℤ) % 2 ^ 32).toNat
        (({1, 2} : Finset ℕ).filter (((1 : ℤ) % 2 ^ 32).toNat ≤ ·)).card) ∧
    min ((4294967297 : ℤ) % 2 ^ 32).toNat (({1, 2} : Finset ℕ).filter (((1 : ℤ) % 2 ^ 32).toNat ≤ ·)).card = 1 :=
  ⟨by decide +kernel, by decide +kernel,
    engQueryExec_narrowed rfl (by decide) (by decide) (by decide) (by decide) rfl rfl (by decide),
    by decide⟩

theorem engQueryExec_error_mem {snap : Snapshot} {ctx : CmdCtx} {msg : String}
    (h : engQueryExec snap ctx = .error msg) : msg ∈ "Invalid args" :: evalMessages := by
  unfold engQueryExec at h
  split at h
  · cases h
    exact List.mem_cons_self
  · split at h
    · cases h
      exact List.mem_cons_of_mem _ (engEvalResolveExpToEvents_error_mem ‹_›)
    · split at h <;> cases h

end Orrp.Engine
