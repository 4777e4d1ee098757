import Orrp.Lib.BlockLoop
import Orrp.Lib.LittleEndian

/-!
# The 64-bit hash (`core/hash.c`)

`xxhash64` is documented as XXH64.  It reads its input in little-endian words: four lanes over
stripes of 32 bytes when there are at least 32 bytes, then words of 8 and 4 bytes and single
bytes, and ends with the avalanche.  `xxh64` states XXH64 as its specification describes it, over
the stripes and lanes of the input; `xxh64With merge` is the same with `merge` in place of the
step that folds each lane accumulator into the converged hash.

* `xxhash64_eq_xxh64With` — the code is the specification with its own merge step,
  `(h ^ (h >> 27)) * PRIME64_1 + PRIME64_4` on `h = acc ^ round(0, v)`, where XXH64 has
  `h * PRIME64_1 + PRIME64_4`;
* `xxhash64_eq_xxh64_of_lt` — below 32 bytes no merge is made, and the code is XXH64.
-/

namespace Orrp.Core

open Orrp.Lib

/-- `PRIME64_1`. -/
def prime64_1 : UInt64 := 0x9E3779B185EBCA87
/-- `PRIME64_2`. -/
def prime64_2 : UInt64 := 0xC2B2AE3D27D4EB4F
/-- `PRIME64_3`. -/
def prime64_3 : UInt64 := 0x165667B19E3779F9
/-- `PRIME64_4`. -/
def prime64_4 : UInt64 := 0x85EBCA77C2b2AE63
/-- `PRIME64_5`. -/
def prime64_5 : UInt64 := 0x27D4EB2F165667C5

/-- `xxhash_rotl64`. -/
def xxhashRotl64 (x r : UInt64) : UInt64 := (x <<< r) ||| (x >>> (64 - r))

/-- `xxhash64_finalize`. -/
def xxhash64Finalize (h : UInt64) : UInt64 :=
  let h := h ^^^ (h >>> 33)
  let h := h * prime64_2
  let h := h ^^^ (h >>> 29)
  let h := h * prime64_3
  h ^^^ (h >>> 32)

/-- A little-endian word read from the start of the remaining input (`*(const uint64_t *)p` with
`w = 8`, `*(const uint32_t *)p` with `w = 4`). -/
def readLE (w : ℕ) (p : List UInt8) : UInt64 := UInt64.ofNat (leValue (p.take w))

/-- The four lane accumulators `v1 … v4`. -/
structure Lanes where
  v1 : UInt64
  v2 : UInt64
  v3 : UInt64
  v4 : UInt64

/-- One turn of the stripe loop: each lane takes the next 8 bytes. -/
def stripeTurn (v : Lanes) (p : List UInt8) : Lanes :=
  ⟨xxhashRotl64 (v.v1 + readLE 8 p * prime64_2) 31 * prime64_1,
    xxhashRotl64 (v.v2 + readLE 8 (p.drop 8) * prime64_2) 31 * prime64_1,
    xxhashRotl64 (v.v3 + readLE 8 (p.drop 16) * prime64_2) 31 * prime64_1,
    xxhashRotl64 (v.v4 + readLE 8 (p.drop 24) * prime64_2) 31 * prime64_1⟩

/-- One turn of the loop over the words of 8 bytes after the stripes. -/
def wordTurn (h64 : UInt64) (p : List UInt8) : UInt64 :=
  let k1 := readLE 8 p * prime64_2
  let k1 := xxhashRotl64 k1 31 * prime64_1
  xxhashRotl64 (h64 ^^^ k1) 27 * prime64_1 + prime64_4

/-- The merge round of the code, for one lane accumulator. -/
def codeMerge (h v : UInt64) : UInt64 :=
  let h := h ^^^ (xxhashRotl64 (v * prime64_2) 31 * prime64_1)
  (h ^^^ (h >>> 27)) * prime64_1 + prime64_4

/-- `xxhash64` on the bytes `input`.  The stripe loop is a `do … while (p <= limit)` entered with
at least 32 bytes, so it runs while 32 bytes remain. -/
def xxhash64 (input : List UInt8) (seed : UInt64) : UInt64 :=
  let len := input.length
  let (h64, p) : UInt64 × List UInt8 :=
    if 32 ≤ len then
      let (v, p) := blockLoop 32 stripeTurn len
        ⟨seed + prime64_1 + prime64_2, seed + prime64_2, seed + 0, seed - prime64_1⟩ input
      let h64 := xxhashRotl64 v.v1 1 + xxhashRotl64 v.v2 7 + xxhashRotl64 v.v3 12 + xxhashRotl64 v.v4 18
      (codeMerge (codeMerge (codeMerge (codeMerge h64 v.v1) v.v2) v.v3) v.v4, p)
    else (seed + prime64_5, input)
  let h64 := h64 + UInt64.ofNat len
  let (h64, p) := blockLoop 8 wordTurn len h64 p
  -- a word of 4 bytes
  let (h64, p) :=
    if 4 ≤ p.length then (xxhashRotl64 (h64 ^^^ readLE 4 p * prime64_1) 23 * prime64_2 + prime64_3, p.drop 4)
    else (h64, p)
  -- the single bytes
  let h64 := p.foldl (fun h64 b => xxhashRotl64 (h64 ^^^ b.toUInt64 * prime64_5) 11 * prime64_1) h64
  xxhash64Finalize h64

/-! ## XXH64 -/

section Spec

/-- `round (acc, lane)`. -/
def xxhRound (acc lane : UInt64) : UInt64 := xxhashRotl64 (acc + lane * prime64_2) 31 * prime64_1

/-- `mergeAccumulator (acc, accN)`. -/
def mergeAccumulator (acc accN : UInt64) : UInt64 := (acc ^^^ xxhRound 0 accN) * prime64_1 + prime64_4

/-- The `j`-th lane of 8 bytes of a stripe, little-endian. -/
def lane (stripe : List UInt8) (j : ℕ) : UInt64 := UInt64.ofNat (leValue (chunk stripe 8 j))

/-- A stripe: each accumulator takes its lane. -/
def stripeStep (v : Lanes) (stripe : List UInt8) : Lanes :=
  ⟨xxhRound v.v1 (lane stripe 0), xxhRound v.v2 (lane stripe 1), xxhRound v.v3 (lane stripe 2),
    xxhRound v.v4 (lane stripe 3)⟩

/-- A lane of 8 bytes after the stripes. -/
def laneStep (acc : UInt64) (l : List UInt8) : UInt64 :=
  xxhashRotl64 (acc ^^^ xxhRound 0 (lane l 0)) 27 * prime64_1 + prime64_4

/-- XXH64 with `merge` folding each lane accumulator into the converged hash. -/
def xxh64With (merge : UInt64 → UInt64 → UInt64) (input : List UInt8) (seed : UInt64) : UInt64 :=
  let len := input.length
  let stripes := (List.range (len / 32)).map (chunk input 32)
  -- steps 1 to 3: the accumulators, their convergence and the merges
  let acc :=
    if 32 ≤ len then
      let v := stripes.foldl stripeStep ⟨seed + prime64_1 + prime64_2, seed + prime64_2, seed, seed - prime64_1⟩
      let acc := xxhashRotl64 v.v1 1 + xxhashRotl64 v.v2 7 + xxhashRotl64 v.v3 12 + xxhashRotl64 v.v4 18
      merge (merge (merge (merge acc v.v1) v.v2) v.v3) v.v4
    else seed + prime64_5
  -- step 4: the length
  let acc := acc + UInt64.ofNat len
  -- step 5: the input after the stripes, in lanes of 8 bytes, then 4 bytes, then single bytes
  let rest := input.drop (32 * (len / 32))
  let acc := ((List.range (rest.length / 8)).map (chunk rest 8)).foldl laneStep acc
  let rest := rest.drop (8 * (rest.length / 8))
  let (acc, rest) :=
    if 4 ≤ rest.length then
      (xxhashRotl64 (acc ^^^ UInt64.ofNat (leValue (rest.take 4)) * prime64_1) 23 * prime64_2 + prime64_3,
        rest.drop 4)
    else (acc, rest)
  let acc := rest.foldl (fun acc b => xxhashRotl64 (acc ^^^ b.toUInt64 * prime64_5) 11 * prime64_1) acc
  -- step 6: the avalanche
  xxhash64Finalize acc

/-- XXH64. -/
def xxh64 (input : List UInt8) (seed : UInt64) : UInt64 := xxh64With mergeAccumulator input seed

-- the published XXH64 values of the empty input and of a 39-byte one, with seed 0
example : xxh64 [] 0 = 0xEF46DB3751D8E999 := by decide

example : xxh64 "Nobody inspects the spammish repetition".toUTF8.data.toList 0 = 0xFBCEA83C8A378BF1 := by
  decide

end Spec

/-! ## The code and the specification -/

section Refinement

theorem stripeTurn_eq (v : Lanes) (p : List UInt8) : stripeTurn v p = stripeStep v (p.take 32) := by
  have hlane : ∀ j, j < 4 → readLE 8 (p.drop (j * 8)) = lane (p.take 32) j := fun j hj => by
    unfold readLE lane chunk
    rw [List.drop_take, List.take_take, Nat.min_eq_left (by omega)]
  unfold stripeTurn stripeStep xxhRound
  rw [← hlane 0 (by decide), ← hlane 1 (by decide), ← hlane 2 (by decide), ← hlane 3 (by decide)]
  rfl

theorem wordTurn_eq (h : UInt64) (p : List UInt8) : wordTurn h p = laneStep h (p.take 8) := by
  unfold wordTurn laneStep xxhRound lane readLE chunk
  rw [UInt64.zero_add, List.drop_zero, List.take_take, Nat.min_self]

theorem blockLoop_stripeTurn (v : Lanes) (input : List UInt8) :
    blockLoop 32 stripeTurn input.length v input =
      (((List.range (input.length / 32)).map (chunk input 32)).foldl stripeStep v,
        input.drop (32 * (input.length / 32))) := by
  have hread : ∀ v p, stripeTurn v p = stripeTurn v (p.take 32) := fun v p => by
    rw [stripeTurn_eq, stripeTurn_eq, List.take_take, Nat.min_self]
  rw [blockLoop_eq (by decide) hread _ v input (Nat.div_le_self _ _)]
  refine Prod.ext (List.foldl_ext _ _ _ fun v c hc => ?_) rfl
  obtain ⟨i, -, rfl⟩ := List.mem_map.1 hc
  rw [stripeTurn_eq, chunk, List.take_take, Nat.min_self]

theorem blockLoop_wordTurn {fuel : ℕ} (acc : UInt64) (rest : List UInt8) (hfuel : rest.length / 8 ≤ fuel) :
    blockLoop 8 wordTurn fuel acc rest =
      (((List.range (rest.length / 8)).map (chunk rest 8)).foldl laneStep acc, rest.drop (8 * (rest.length / 8))) := by
  have hread : ∀ h p, wordTurn h p = wordTurn h (p.take 8) := fun h p => by
    rw [wordTurn_eq, wordTurn_eq, List.take_take, Nat.min_self]
  rw [blockLoop_eq (by decide) hread fuel acc rest hfuel]
  refine Prod.ext (List.foldl_ext _ _ _ fun h c hc => ?_) rfl
  obtain ⟨i, -, rfl⟩ := List.mem_map.1 hc
  rw [wordTurn_eq, chunk, List.take_take, Nat.min_self]

/-- **The code is XXH64 with its own merge step**, on every input and seed. -/
theorem xxhash64_eq_xxh64With (input : List UInt8) (seed : UInt64) :
    xxhash64 input seed = xxh64With codeMerge input seed := by
  have hfuel : (input.drop (32 * (input.length / 32))).length / 8 ≤ input.length := by
    rw [List.length_drop]
    exact le_trans (Nat.div_le_self _ _) (Nat.sub_le _ _)
  unfold xxhash64 xxh64With
  dsimp only
  by_cases hlong : 32 ≤ input.length
  · rw [if_pos hlong, if_pos hlong, blockLoop_stripeTurn, UInt64.add_zero]
    dsimp only
    rw [blockLoop_wordTurn _ _ hfuel]
    rfl
  · have hnone : input.length / 32 = 0 := Nat.div_eq_of_lt (by omega)
    rw [if_neg hlong, if_neg hlong]
    dsimp only
    rw [hnone, Nat.mul_zero, List.drop_zero] at hfuel ⊢
    rw [blockLoop_wordTurn _ _ hfuel]
    rfl

theorem xxh64With_of_lt {input : List UInt8} (seed : UInt64) (m m' : UInt64 → UInt64 → UInt64)
    (h : input.length < 32) : xxh64With m input seed = xxh64With m' input seed := by
  unfold xxh64With
  dsimp only
  have hshort : ¬32 ≤ input.length := by omega
  rw [if_neg hshort, if_neg hshort]

/-- **Below 32 bytes the code is XXH64.** -/
theorem xxhash64_eq_xxh64_of_lt {input : List UInt8} (seed : UInt64) (h : input.length < 32) :
    xxhash64 input seed = xxh64 input seed := by
  rw [xxhash64_eq_xxh64With, xxh64, xxh64With_of_lt seed codeMerge mergeAccumulator h]

/-- The code is XXH64 with its own merge step on every input, XXH64 itself below 32 bytes, and not
XXH64 on 32 zero bytes with seed 0. -/
theorem xxhash64_merge_differs :
    (∀ input seed, xxhash64 input seed = xxh64With codeMerge input seed) ∧
      (∀ input seed, input.length < 32 → xxhash64 input seed = xxh64 input seed) ∧
      xxhash64 (List.replicate 32 0) 0 ≠ xxh64 (List.replicate 32 0) 0 :=
  ⟨xxhash64_eq_xxh64With, fun _ seed h => xxhash64_eq_xxh64_of_lt seed h, by decide⟩

end Refinement

end Orrp.Core
