import Orrp.Lib.Msgpack
import Orrp.Lib.LittleEndian

/-!
# The msgpack wire format

Each value of a msgpack document starts with a header byte.  The byte either holds the whole value
(a small number, `nil`) or says what follows it: a number, or the length of a string or the count
of an array or a map, in a field of 1, 2, 4 or 8 bytes, most significant first, and then the bytes
of the string or the values of the array or the map.  A writer uses the shortest header
(`uintBytes`, `intBytes`, `strHeader`, `arrayHeader`, `mapHeader`); a negative number is stored in
two's complement.

`parse fuel count bs` reads `count` values one after another, and `Decodes bs vs` says that the
bytes `bs` are exactly the values `vs`.

* `parse_frame` — a read does not look past the values it reads, and more fuel reads the same;
* `parse_add`, `parse_split` — reading `n + m` values is reading `n` values and then `m`;
* `Decodes.append` — two byte strings one after the other are their values one after the other;
* `readHead_intBytes` — every `int64_t` reads back from its shortest encoding;
* `decodes_uintBytes`, `decodes_str`, `Decodes.array`, `Decodes.map` — a header followed by what it
  announces is one value;
* `Decodes.parse_arrayHeader_short` — an array header announcing more values than follow is not
  read.
-/

namespace Orrp.Lib

/-- The `n` bytes of `x`, most significant first. -/
def beBytes (n x : ℕ) : List UInt8 := (leBytes n x).reverse

/-- The number `bs` stores, most significant byte first. -/
def beValue (bs : List UInt8) : ℕ := leValue bs.reverse

@[simp] theorem length_beBytes (n x : ℕ) : (beBytes n x).length = n := by
  rw [beBytes, List.length_reverse, length_leBytes]

theorem beValue_beBytes {n x : ℕ} (h : x < 256 ^ n) : beValue (beBytes n x) = x := by
  rw [beValue, beBytes, List.reverse_reverse, leValue_leBytes_of_lt h]

/-- The UTF-8 bytes of a string. -/
def utf8Bytes (s : String) : List UInt8 := s.toByteArray.data.toList

/-- The string whose UTF-8 encoding is `bs`, if there is one. -/
def strOfBytes (bs : List UInt8) : Option String := String.fromUTF8? ⟨bs.toArray⟩

theorem strOfBytes_utf8Bytes (s : String) : strOfBytes (utf8Bytes s) = some s := by
  simp [strOfBytes, utf8Bytes, String.fromUTF8?, s.isValidUTF8]
  rfl

/-! ### ASCII text -/

section Ascii

theorem flatMap_utf8EncodeChar_of_ascii : ∀ {l : List Char}, (∀ c ∈ l, c.val ≤ 127) →
    l.flatMap String.utf8EncodeChar = l.map fun c => c.val.toUInt8
  | [], _ => rfl
  | c :: l, h => by
    rw [List.flatMap_cons, List.map_cons,
      String.utf8EncodeChar_eq_singleton (Char.utf8Size_eq_one_iff.2 (h c List.mem_cons_self)),
      flatMap_utf8EncodeChar_of_ascii fun c hc => h c (List.mem_cons_of_mem _ hc)]
    rfl

theorem utf8Bytes_of_ascii {s : String} (h : ∀ c ∈ s.toList, c.val ≤ 127) :
    utf8Bytes s = s.toList.map fun c => c.val.toUInt8 := by
  conv_lhs => rw [← String.ofList_toList (s := s)]
  rw [utf8Bytes, String.toByteArray_ofList, List.utf8Encode, List.toList_data_toByteArray,
    flatMap_utf8EncodeChar_of_ascii h]

theorem toUInt8_val_ne_zero {c : Char} (hc : c.val ≤ 127) (h0 : c ≠ '\x00') : c.val.toUInt8 ≠ 0 := by
  intro h
  apply h0
  have h1 : c.val.toUInt8.toNat = c.val.toNat % 256 := UInt32.toNat_toUInt8 _
  rw [h, UInt8.toNat_zero] at h1
  have h2 : c.val.toNat = 0 := by
    have : c.val.toNat ≤ 127 := hc
    omega
  exact Char.ext (UInt32.toNat_inj.1 h2)

theorem utf8Bytes_ascii {s : String} (h : ∀ c ∈ s.toList, c.val ≤ 127 ∧ c ≠ '\x00') :
    0 ∉ utf8Bytes s ∧ (utf8Bytes s).length = s.length := by
  rw [utf8Bytes_of_ascii fun c hc => (h c hc).1, List.length_map, String.length_toList]
  refine ⟨fun h0 => ?_, rfl⟩
  obtain ⟨c, hc, hz⟩ := List.mem_map.1 h0
  exact toUInt8_val_ne_zero (h c hc).1 (h c hc).2 hz

end Ascii

namespace Msgpack

/-! ## Headers -/

/-- The shortest encoding of an unsigned number below `2 ^ 32`. -/
def uintBytes (n : ℕ) : List UInt8 :=
  if n ≤ 127 then [n.toUInt8]
  else if n ≤ 0xff then [0xcc, n.toUInt8]
  else if n ≤ 0xffff then 0xcd :: beBytes 2 n
  else 0xce :: beBytes 4 n

/-- The `k` bytes of the two's complement of `n`, most significant first. -/
def intBE (k : ℕ) (n : ℤ) : List UInt8 := beBytes k (n % 2 ^ (8 * k)).toNat

/-- The shortest encoding of a signed number of 64 bits: a non-negative one in the unsigned forms,
eight bytes after `0xcf` at most, and a negative one as a negative fixint from `-32` on and in the
signed forms `0xd0` to `0xd3` below that. -/
def intBytes (n : ℤ) : List UInt8 :=
  if -32 ≤ n then
    if n ≤ 127 then intBE 1 n
    else if n ≤ 0xff then [0xcc, n.toNat.toUInt8]
    else if n ≤ 0xffff then 0xcd :: beBytes 2 n.toNat
    else if n ≤ 0xffffffff then 0xce :: beBytes 4 n.toNat
    else 0xcf :: beBytes 8 n.toNat
  else if -0x80 ≤ n then 0xd0 :: intBE 1 n
  else if -0x8000 ≤ n then 0xd1 :: intBE 2 n
  else if -0x80000000 ≤ n then 0xd2 :: intBE 4 n
  else 0xd3 :: intBE 8 n

/-- The shortest header of a string of `len` bytes. -/
def strHeader (len : ℕ) : List UInt8 :=
  if len ≤ 31 then [(0xa0 + len).toUInt8]
  else if len ≤ 0xff then [0xd9, len.toUInt8]
  else if len ≤ 0xffff then 0xda :: beBytes 2 len
  else 0xdb :: beBytes 4 len

/-- The shortest header of an array of `count` values. -/
def arrayHeader (count : ℕ) : List UInt8 :=
  if count ≤ 15 then [(0x90 + count).toUInt8]
  else if count ≤ 0xffff then 0xdc :: beBytes 2 count
  else 0xdd :: beBytes 4 count

/-- The shortest header of a map of `count` entries. -/
def mapHeader (count : ℕ) : List UInt8 :=
  if count ≤ 15 then [(0x80 + count).toUInt8]
  else if count ≤ 0xffff then 0xde :: beBytes 2 count
  else 0xdf :: beBytes 4 count

/-! ## Reading -/

/-- A `k`-byte two's complement number. -/
def signed (k n : ℕ) : ℤ := if n < 2 ^ (8 * k - 1) then n else (n : ℤ) - 2 ^ (8 * k)

/-- What a header says: a value, or a string of `len` bytes, or an array or a map of `count`
values or entries, whose bytes follow. -/
inductive Head
  | value (v : MpValue)
  | str (len : ℕ)
  | array (count : ℕ)
  | map (count : ℕ)

/-- What a header byte says: the whole header, or that the number, length or count it announces
is in the next `k` bytes. -/
inductive Tag
  | head (h : Head)
  | uint (k : ℕ)
  | int (k : ℕ)
  | str (k : ℕ)
  | array (k : ℕ)
  | map (k : ℕ)

/-- The tag of a header byte; `none` for the kinds this reader does not know. -/
def tagOf (b : UInt8) : Option Tag :=
  let n := b.toNat
  if n < 0x80 then some (.head (.value (.uint n)))
  else if n < 0x90 then some (.head (.map (n - 0x80)))
  else if n < 0xa0 then some (.head (.array (n - 0x90)))
  else if n < 0xc0 then some (.head (.str (n - 0xa0)))
  else if n = 0xc0 then some (.head (.value .nil))
  else if 0xcc ≤ n ∧ n ≤ 0xcf then some (.uint (2 ^ (n - 0xcc)))
  else if 0xd0 ≤ n ∧ n ≤ 0xd3 then some (.int (2 ^ (n - 0xd0)))
  else if 0xd9 ≤ n ∧ n ≤ 0xdb then some (.str (2 ^ (n - 0xd9)))
  else if n = 0xdc then some (.array 2)
  else if n = 0xdd then some (.array 4)
  else if n = 0xde then some (.map 2)
  else if n = 0xdf then some (.map 4)
  else if 0xe0 ≤ n then some (.head (.value (.int ((n : ℤ) - 256))))
  else none

/-- The first `k` bytes as a number, and the bytes after them. -/
def takeBE (k : ℕ) (bs : List UInt8) : Option (ℕ × List UInt8) :=
  if k ≤ bs.length then some (beValue (bs.take k), bs.drop k) else none

/-- A header whose number is in the next `k` bytes. -/
def fieldHead (k : ℕ) (bs : List UInt8) (g : ℕ → Head) : Option (Head × List UInt8) :=
  (takeBE k bs).map fun p => (g p.1, p.2)

/-- The header at the start of `bs`, and the bytes after it. -/
def readHead : List UInt8 → Option (Head × List UInt8)
  | [] => none
  | b :: bs =>
    match tagOf b with
    | none => none
    | some (.head h) => some (h, bs)
    | some (.uint k) => fieldHead k bs fun n => .value (.uint n)
    | some (.int k) => fieldHead k bs fun n => .value (.int (signed k n))
    | some (.str k) => fieldHead k bs .str
    | some (.array k) => fieldHead k bs .array
    | some (.map k) => fieldHead k bs .map

/-- The entries of a map from its keys and values, read one after another. -/
def pairUp : List MpValue → List (MpValue × MpValue)
  | k :: v :: rest => (k, v) :: pairUp rest
  | _ => []

/-- The keys and values of a map, one after another. -/
def flatPairs (es : List (MpValue × MpValue)) : List MpValue := es.flatMap fun e => [e.1, e.2]

/-- Read `count` values one after another, the values nested in them reading from `fuel`; the
values, and the bytes after them. -/
def parse : ℕ → ℕ → List UInt8 → Option (List MpValue × List UInt8)
  | _, 0, bs => some ([], bs)
  | 0, _ + 1, _ => none
  | fuel + 1, count + 1, bs =>
    match readHead bs with
    | none => none
    | some (.value v, r) => (parse fuel count r).map fun q => (v :: q.1, q.2)
    | some (.str len, r) =>
      if len ≤ r.length then
        (strOfBytes (r.take len)).bind fun s => (parse fuel count (r.drop len)).map fun q => (.str s :: q.1, q.2)
      else none
    | some (.array k, r) =>
      (parse fuel k r).bind fun p => (parse fuel count p.2).map fun q => (.array p.1 :: q.1, q.2)
    | some (.map k, r) =>
      (parse fuel (2 * k) r).bind fun p => (parse fuel count p.2).map fun q => (.map (pairUp p.1) :: q.1, q.2)

/-- The bytes `bs` are exactly the values `vs`. -/
def Decodes (bs : List UInt8) (vs : List MpValue) : Prop :=
  ∃ fuel, parse fuel vs.length bs = some (vs, [])

/-! ## Headers read back -/

lemma toNat_toUInt8 {x : ℕ} (hx : x < 256) : x.toUInt8.toNat = x := UInt8.toNat_ofNat_of_lt' hx

lemma signed_emod {k : ℕ} {n : ℤ} (hk : 0 < k) (hlo : -2 ^ (8 * k - 1) ≤ n) (hn : n < 0) :
    signed k (n % 2 ^ (8 * k)).toNat = n := by
  have hM : (2 : ℤ) ^ (8 * k) = 2 * 2 ^ (8 * k - 1) := by
    rw [← pow_succ']
    congr 1
    omega
  have hmod : n % 2 ^ (8 * k) = n + 2 ^ (8 * k) := by
    rw [← Int.add_emod_right, Int.emod_eq_of_lt (by omega) (by omega)]
  have hx : (((n % 2 ^ (8 * k)).toNat : ℕ) : ℤ) = n + 2 ^ (8 * k) := by
    rw [hmod, Int.toNat_of_nonneg (by omega)]
  rw [signed, if_neg]
  · rw [hx]
    ring
  · intro hlt
    have h := (Nat.cast_lt (α := ℤ)).2 hlt
    push_cast at h
    omega

lemma intBE_one (n : ℤ) : intBE 1 n = [(n % 256).toNat.toUInt8] := by
  simp only [intBE, beBytes, leBytes, List.reverse_singleton]
  rw [Nat.mod_eq_of_lt (by omega)]
  rfl

section Field

variable {k : ℕ} {bs t r : List UInt8} {g : ℕ → Head}

lemma takeBE_append {v : ℕ} (h : takeBE k bs = some (v, r)) : takeBE k (bs ++ t) = some (v, r ++ t) := by
  unfold takeBE at h ⊢
  by_cases hk : k ≤ bs.length
  · rw [if_pos hk] at h
    obtain ⟨rfl, rfl⟩ := Prod.mk.inj (Option.some.inj h)
    rw [if_pos (by rw [List.length_append]; omega), List.take_append_of_le_length hk,
      List.drop_append_of_le_length hk]
  · rw [if_neg hk] at h
    cases h

lemma fieldHead_append {h : Head} (hr : fieldHead k bs g = some (h, r)) :
    fieldHead k (bs ++ t) g = some (h, r ++ t) := by
  obtain ⟨⟨v, r'⟩, hv, he⟩ := Option.map_eq_some_iff.1 hr
  obtain ⟨rfl, rfl⟩ := Prod.mk.inj he
  rw [fieldHead, takeBE_append hv, Option.map_some]

lemma fieldHead_beBytes {x : ℕ} (hx : x < 256 ^ k) (t : List UInt8) :
    fieldHead k (beBytes k x ++ t) g = some (g x, t) := by
  have hk : (beBytes k x).length = k := length_beBytes k x
  rw [fieldHead, takeBE, if_pos (by rw [List.length_append]; omega), List.take_left' hk,
    List.drop_left' hk, beValue_beBytes hx, Option.map_some]

lemma fieldHead_one {x : ℕ} (hx : x < 256) (t : List UInt8) :
    fieldHead 1 (x.toUInt8 :: t) g = some (g x, t) := by
  simp [fieldHead, takeBE, beValue, toNat_toUInt8 hx]

end Field

lemma readHead_append {bs t r : List UInt8} {h : Head} (hr : readHead bs = some (h, r)) :
    readHead (bs ++ t) = some (h, r ++ t) := by
  cases bs with
  | nil => cases hr
  | cons b bs =>
    rw [List.cons_append]
    rw [readHead] at hr ⊢
    cases ht : tagOf b with
    | none =>
      rw [ht] at hr
      cases hr
    | some tag =>
      rw [ht] at hr
      cases tag with
      | head h' =>
        obtain ⟨rfl, rfl⟩ := Prod.mk.inj (Option.some.inj hr)
        rfl
      | uint k | int k | str k | array k | map k => exact fieldHead_append hr

lemma readHead_fix {b : UInt8} {h : Head} (hb : tagOf b = some (.head h)) (t : List UInt8) :
    readHead (b :: t) = some (h, t) := by
  rw [readHead, hb]

section Fix

variable {n : ℕ} (t : List UInt8)

lemma readHead_fixint (hn : n ≤ 127) : readHead (n.toUInt8 :: t) = some (.value (.uint n), t) := by
  have hb : n.toUInt8.toNat = n := toNat_toUInt8 (by omega)
  refine readHead_fix ?_ t
  rw [tagOf, hb, if_pos (by omega)]

lemma readHead_fixmap (hn : n ≤ 15) : readHead ((0x80 + n).toUInt8 :: t) = some (.map n, t) := by
  have hb : (0x80 + n).toUInt8.toNat = 0x80 + n := toNat_toUInt8 (by omega)
  refine readHead_fix ?_ t
  rw [tagOf, hb, if_neg (by omega), if_pos (by omega), Nat.add_sub_cancel_left]

lemma readHead_fixarray (hn : n ≤ 15) : readHead ((0x90 + n).toUInt8 :: t) = some (.array n, t) := by
  have hb : (0x90 + n).toUInt8.toNat = 0x90 + n := toNat_toUInt8 (by omega)
  refine readHead_fix ?_ t
  rw [tagOf, hb, if_neg (by omega), if_neg (by omega), if_pos (by omega), Nat.add_sub_cancel_left]

lemma readHead_fixstr (hn : n ≤ 31) : readHead ((0xa0 + n).toUInt8 :: t) = some (.str n, t) := by
  have hb : (0xa0 + n).toUInt8.toNat = 0xa0 + n := toNat_toUInt8 (by omega)
  refine readHead_fix ?_ t
  rw [tagOf, hb, if_neg (by omega), if_neg (by omega), if_neg (by omega), if_pos (by omega),
    Nat.add_sub_cancel_left]

lemma readHead_negFixint {n : ℤ} (h1 : -32 ≤ n) (h2 : n < 0) :
    readHead (intBE 1 n ++ t) = some (.value (.int n), t) := by
  have hb : ((n % 256).toNat.toUInt8).toNat = (n % 256).toNat := toNat_toUInt8 (by omega)
  rw [intBE_one, List.singleton_append]
  refine readHead_fix ?_ t
  simp (disch := omega) only [tagOf, hb, if_neg, if_pos]
  rw [show ((n % 256).toNat : ℤ) - 256 = n by omega]

lemma readHead_nil : readHead (0xc0 :: t) = some (.value .nil, t) := readHead_fix rfl t

end Fix

section Headers

variable {n : ℕ} (t : List UInt8)

lemma readHead_uintBytes (hn : n < 2 ^ 32) : readHead (uintBytes n ++ t) = some (.value (.uint n), t) := by
  unfold uintBytes
  split_ifs with h1 h2 h3
  · exact readHead_fixint t h1
  · show fieldHead 1 (n.toUInt8 :: t) (fun n => .value (.uint n)) = _
    exact fieldHead_one (by omega) t
  · show fieldHead 2 (beBytes 2 n ++ t) (fun n => .value (.uint n)) = _
    exact fieldHead_beBytes (by omega) t
  · show fieldHead 4 (beBytes 4 n ++ t) (fun n => .value (.uint n)) = _
    exact fieldHead_beBytes (by omega) t

example : uintBytes 300 = [0xcd, 1, 44] := by decide

lemma readHead_strHeader (hn : n < 2 ^ 32) : readHead (strHeader n ++ t) = some (.str n, t) := by
  unfold strHeader
  split_ifs with h1 h2 h3
  · exact readHead_fixstr t h1
  · show fieldHead 1 (n.toUInt8 :: t) .str = _
    exact fieldHead_one (by omega) t
  · show fieldHead 2 (beBytes 2 n ++ t) .str = _
    exact fieldHead_beBytes (by omega) t
  · show fieldHead 4 (beBytes 4 n ++ t) .str = _
    exact fieldHead_beBytes (by omega) t

lemma readHead_arrayHeader (hn : n < 2 ^ 32) : readHead (arrayHeader n ++ t) = some (.array n, t) := by
  unfold arrayHeader
  split_ifs with h1 h2
  · exact readHead_fixarray t h1
  · show fieldHead 2 (beBytes 2 n ++ t) .array = _
    exact fieldHead_beBytes (by omega) t
  · show fieldHead 4 (beBytes 4 n ++ t) .array = _
    exact fieldHead_beBytes (by omega) t

lemma readHead_mapHeader (hn : n < 2 ^ 32) : readHead (mapHeader n ++ t) = some (.map n, t) := by
  unfold mapHeader
  split_ifs with h1 h2
  · exact readHead_fixmap t h1
  · show fieldHead 2 (beBytes 2 n ++ t) .map = _
    exact fieldHead_beBytes (by omega) t
  · show fieldHead 4 (beBytes 4 n ++ t) .map = _
    exact fieldHead_beBytes (by omega) t

/-- **Signed numbers.**  Every `int64_t` reads back from its shortest encoding, a non-negative one
as an unsigned number. -/
lemma readHead_intBytes {n : ℤ} (hlo : -2 ^ 63 ≤ n) (hhi : n < 2 ^ 63) :
    readHead (intBytes n ++ t) = some (.value (.ofInt n), t) := by
  unfold intBytes
  split_ifs with h1 h2 h3 h4 h5 h6 h7 h8
  · -- one byte for both fixints, the sign telling them apart
    rcases lt_or_ge n 0 with hn | hn
    · rw [MpValue.ofInt_of_neg hn]
      exact readHead_negFixint t h1 hn
    · rw [MpValue.ofInt_of_nonneg hn, intBE_one, List.singleton_append,
        show (n % 256).toNat = n.toNat by omega]
      exact readHead_fixint t (by omega)
  · rw [MpValue.ofInt_of_nonneg (by omega)]
    show fieldHead 1 (n.toNat.toUInt8 :: t) (fun n => .value (.uint n)) = _
    exact fieldHead_one (by omega) t
  · rw [MpValue.ofInt_of_nonneg (by omega)]
    show fieldHead 2 (beBytes 2 n.toNat ++ t) (fun n => .value (.uint n)) = _
    exact fieldHead_beBytes (by omega) t
  · rw [MpValue.ofInt_of_nonneg (by omega)]
    show fieldHead 4 (beBytes 4 n.toNat ++ t) (fun n => .value (.uint n)) = _
    exact fieldHead_beBytes (by omega) t
  · rw [MpValue.ofInt_of_nonneg (by omega)]
    show fieldHead 8 (beBytes 8 n.toNat ++ t) (fun n => .value (.uint n)) = _
    exact fieldHead_beBytes (by omega) t
  · rw [MpValue.ofInt_of_neg (by omega)]
    show fieldHead 1 (intBE 1 n ++ t) (fun m => .value (.int (signed 1 m))) = _
    rw [intBE, fieldHead_beBytes (by omega) t, signed_emod (by decide) (by norm_num; omega) (by omega)]
  · rw [MpValue.ofInt_of_neg (by omega)]
    show fieldHead 2 (intBE 2 n ++ t) (fun m => .value (.int (signed 2 m))) = _
    rw [intBE, fieldHead_beBytes (by omega) t, signed_emod (by decide) (by norm_num; omega) (by omega)]
  · rw [MpValue.ofInt_of_neg (by omega)]
    show fieldHead 4 (intBE 4 n ++ t) (fun m => .value (.int (signed 4 m))) = _
    rw [intBE, fieldHead_beBytes (by omega) t, signed_emod (by decide) (by norm_num; omega) (by omega)]
  · rw [MpValue.ofInt_of_neg (by omega)]
    show fieldHead 8 (intBE 8 n ++ t) (fun m => .value (.int (signed 8 m))) = _
    rw [intBE, fieldHead_beBytes (by omega) t, signed_emod (by decide) (by norm_num; omega) (by omega)]

example : intBytes (-200) = [0xd1, 0xff, 0x38] := by decide

end Headers

/-! ## Reading values -/

@[simp] lemma parse_zero (fuel : ℕ) (bs : List UInt8) : parse fuel 0 bs = some ([], bs) := by
  cases fuel <;> rfl

lemma parse_zero_eq {fuel : ℕ} {bs : List UInt8} {x : List MpValue × List UInt8}
    (h : parse fuel 0 bs = some x) : x = ([], bs) := by
  rw [parse_zero] at h
  exact (Option.some.inj h).symm

section Step

variable {fuel count : ℕ} {bs r : List UInt8}

lemma parse_none (h : readHead bs = none) : parse (fuel + 1) (count + 1) bs = none := by
  rw [parse, h]

lemma parse_value {v : MpValue} (h : readHead bs = some (.value v, r)) :
    parse (fuel + 1) (count + 1) bs = (parse fuel count r).map fun q => (v :: q.1, q.2) := by
  rw [parse, h]

lemma parse_str {len : ℕ} (h : readHead bs = some (.str len, r)) :
    parse (fuel + 1) (count + 1) bs =
      if len ≤ r.length then
        (strOfBytes (r.take len)).bind fun s => (parse fuel count (r.drop len)).map fun q => (.str s :: q.1, q.2)
      else none := by
  rw [parse, h]

lemma parse_array {k : ℕ} (h : readHead bs = some (.array k, r)) :
    parse (fuel + 1) (count + 1) bs =
      (parse fuel k r).bind fun p => (parse fuel count p.2).map fun q => (.array p.1 :: q.1, q.2) := by
  rw [parse, h]

lemma parse_map {k : ℕ} (h : readHead bs = some (.map k, r)) :
    parse (fuel + 1) (count + 1) bs =
      (parse fuel (2 * k) r).bind fun p => (parse fuel count p.2).map fun q => (.map (pairUp p.1) :: q.1, q.2) := by
  rw [parse, h]

end Step

section Branch

variable {o : Option (List MpValue × List UInt8)} {vs : List MpValue} {r : List UInt8}

lemma map_cons_eq_some {v : MpValue} (h : (o.map fun q => (v :: q.1, q.2)) = some (vs, r)) :
    ∃ vs', o = some (vs', r) ∧ vs = v :: vs' := by
  obtain ⟨⟨vs', r'⟩, hq, he⟩ := Option.map_eq_some_iff.1 h
  obtain ⟨rfl, rfl⟩ := Prod.mk.inj he
  exact ⟨vs', hq, rfl⟩

lemma nested_eq_some {next : List UInt8 → Option (List MpValue × List UInt8)} {w : List MpValue → MpValue}
    (h : (o.bind fun p => (next p.2).map fun q => (w p.1 :: q.1, q.2)) = some (vs, r)) :
    ∃ items r₁ vs', o = some (items, r₁) ∧ next r₁ = some (vs', r) ∧ vs = w items :: vs' := by
  obtain ⟨⟨items, r₁⟩, hp, h⟩ := Option.bind_eq_some_iff.1 h
  obtain ⟨vs', hq, rfl⟩ := map_cons_eq_some h
  exact ⟨items, r₁, vs', hp, hq, rfl⟩

end Branch

/-- **Framing.**  A read gives the same values with more fuel, and does not look past the values
it reads.  The induction follows the recursion of `parse`. -/
lemma parse_frame {f count : ℕ} {bs r : List UInt8} {vs : List MpValue} (h : parse f count bs = some (vs, r))
    {g : ℕ} (hg : f ≤ g) (t : List UInt8) : parse g count (bs ++ t) = some (vs, r ++ t) := by
  induction f, count, bs using parse.induct generalizing g vs r with
  | case1 f bs =>
    obtain ⟨rfl, rfl⟩ := Prod.mk.inj (parse_zero_eq h)
    rw [parse_zero]
  | case2 count bs => cases h
  | case3 f count bs hh =>
    rw [parse_none hh] at h
    cases h
  | case4 f count bs v r₀ hh ih =>
    obtain ⟨g, rfl⟩ : ∃ g', g = g' + 1 := ⟨g - 1, by omega⟩
    rw [parse_value hh] at h
    rw [parse_value (readHead_append hh)]
    obtain ⟨vs', hq, rfl⟩ := map_cons_eq_some h
    rw [ih hq (by omega), Option.map_some]
  | case5 f count bs len r₀ hh hlen ih =>
    obtain ⟨g, rfl⟩ : ∃ g', g = g' + 1 := ⟨g - 1, by omega⟩
    rw [parse_str hh, if_pos hlen] at h
    rw [parse_str (readHead_append hh), if_pos (by rw [List.length_append]; omega),
      List.take_append_of_le_length hlen, List.drop_append_of_le_length hlen]
    obtain ⟨s, hs, h⟩ := Option.bind_eq_some_iff.1 h
    obtain ⟨vs', hq, rfl⟩ := map_cons_eq_some h
    rw [hs, Option.bind_some, ih hq (by omega), Option.map_some]
  | case6 f count bs len r₀ hh hlen =>
    rw [parse_str hh, if_neg hlen] at h
    cases h
  | case7 f count bs k r₀ hh ih₁ ih₂ =>
    obtain ⟨g, rfl⟩ : ∃ g', g = g' + 1 := ⟨g - 1, by omega⟩
    rw [parse_array hh] at h
    rw [parse_array (readHead_append hh)]
    obtain ⟨items, r₁, vs', hp, hq, rfl⟩ := nested_eq_some h
    rw [ih₁ hp (by omega), Option.bind_some, ih₂ (items, r₁) hq (by omega), Option.map_some]
  | case8 f count bs k r₀ hh ih₁ ih₂ =>
    obtain ⟨g, rfl⟩ : ∃ g', g = g' + 1 := ⟨g - 1, by omega⟩
    rw [parse_map hh] at h
    rw [parse_map (readHead_append hh)]
    obtain ⟨items, r₁, vs', hp, hq, rfl⟩ := nested_eq_some (w := fun items => .map (pairUp items)) h
    rw [ih₁ hp (by omega), Option.bind_some, ih₂ (items, r₁) hq (by omega), Option.map_some]

lemma parse_of_le {f g count : ℕ} {bs : List UInt8} {x : List MpValue × List UInt8}
    (h : parse f count bs = some x) (hle : f ≤ g) : parse g count bs = some x := by
  have h' := parse_frame h hle []
  rwa [List.append_nil, List.append_nil] at h'

lemma parse_append {fuel count : ℕ} {bs r : List UInt8} {vs : List MpValue} (t : List UInt8)
    (h : parse fuel count bs = some (vs, r)) : parse fuel count (bs ++ t) = some (vs, r ++ t) :=
  parse_frame h (Nat.le_refl fuel) t

/-- **Sequencing.**  Reading `n` values and then `m` more is reading `n + m` values. -/
lemma parse_add {f g n m : ℕ} {bs r r' : List UInt8} {vs ws : List MpValue}
    (h₁ : parse f n bs = some (vs, r)) (h₂ : parse g m r = some (ws, r')) :
    parse (f + g) (n + m) bs = some (vs ++ ws, r') := by
  induction f, n, bs using parse.induct generalizing vs r with
  | case1 f bs =>
    obtain ⟨rfl, rfl⟩ := Prod.mk.inj (parse_zero_eq h₁)
    rw [Nat.zero_add]
    exact parse_of_le h₂ (Nat.le_add_left g f)
  | case2 n bs => cases h₁
  | case3 f n bs hh =>
    rw [parse_none hh] at h₁
    cases h₁
  | case4 f n bs v r₀ hh ih =>
    rw [parse_value hh] at h₁
    rw [Nat.add_right_comm f 1 g, Nat.add_right_comm n 1 m, parse_value hh]
    obtain ⟨vs', hq, rfl⟩ := map_cons_eq_some h₁
    rw [ih hq h₂, Option.map_some]
    rfl
  | case5 f n bs len r₀ hh hlen ih =>
    rw [parse_str hh, if_pos hlen] at h₁
    rw [Nat.add_right_comm f 1 g, Nat.add_right_comm n 1 m, parse_str hh, if_pos hlen]
    obtain ⟨s, hs, h₁⟩ := Option.bind_eq_some_iff.1 h₁
    obtain ⟨vs', hq, rfl⟩ := map_cons_eq_some h₁
    rw [hs, Option.bind_some, ih hq h₂, Option.map_some]
    rfl
  | case6 f n bs len r₀ hh hlen =>
    rw [parse_str hh, if_neg hlen] at h₁
    cases h₁
  | case7 f n bs k r₀ hh _ ih =>
    rw [parse_array hh] at h₁
    rw [Nat.add_right_comm f 1 g, Nat.add_right_comm n 1 m, parse_array hh]
    obtain ⟨items, r₁, vs', hp, hq, rfl⟩ := nested_eq_some h₁
    rw [parse_of_le hp (Nat.le_add_right f g), Option.bind_some, ih (items, r₁) hq h₂, Option.map_some]
    rfl
  | case8 f n bs k r₀ hh _ ih =>
    rw [parse_map hh] at h₁
    rw [Nat.add_right_comm f 1 g, Nat.add_right_comm n 1 m, parse_map hh]
    obtain ⟨items, r₁, vs', hp, hq, rfl⟩ := nested_eq_some (w := fun items => .map (pairUp items)) h₁
    rw [parse_of_le hp (Nat.le_add_right f g), Option.bind_some, ih (items, r₁) hq h₂, Option.map_some]
    rfl

/-- **Splitting.**  Reading `n + m` values is reading `n` values and then `m` more. -/
lemma parse_split {f n m : ℕ} {bs r : List UInt8} {ws : List MpValue} (h : parse f (n + m) bs = some (ws, r)) :
    ∃ ws₁ r₁ ws₂, parse f n bs = some (ws₁, r₁) ∧ parse f m r₁ = some (ws₂, r) ∧ ws = ws₁ ++ ws₂ := by
  induction f, n, bs using parse.induct generalizing ws r with
  | case1 f bs =>
    rw [Nat.zero_add] at h
    exact ⟨[], bs, ws, parse_zero f bs, h, rfl⟩
  | case2 n bs =>
    rw [Nat.add_right_comm n 1 m] at h
    cases h
  | case3 f n bs hh =>
    rw [Nat.add_right_comm n 1 m, parse_none hh] at h
    cases h
  | case4 f n bs v r₀ hh ih =>
    rw [Nat.add_right_comm n 1 m, parse_value hh] at h
    obtain ⟨ws', hq, rfl⟩ := map_cons_eq_some h
    obtain ⟨ws₁, r₁, ws₂, h₁, h₂, rfl⟩ := ih hq
    refine ⟨v :: ws₁, r₁, ws₂, ?_, parse_of_le h₂ (Nat.le_succ f), rfl⟩
    rw [parse_value hh, h₁, Option.map_some]
  | case5 f n bs len r₀ hh hlen ih =>
    rw [Nat.add_right_comm n 1 m, parse_str hh, if_pos hlen] at h
    obtain ⟨s, hs, h⟩ := Option.bind_eq_some_iff.1 h
    obtain ⟨ws', hq, rfl⟩ := map_cons_eq_some h
    obtain ⟨ws₁, r₁, ws₂, h₁, h₂, rfl⟩ := ih hq
    refine ⟨.str s :: ws₁, r₁, ws₂, ?_, parse_of_le h₂ (Nat.le_succ f), rfl⟩
    rw [parse_str hh, if_pos hlen, hs, Option.bind_some, h₁, Option.map_some]
  | case6 f n bs len r₀ hh hlen =>
    rw [Nat.add_right_comm n 1 m, parse_str hh, if_neg hlen] at h
    cases h
  | case7 f n bs k r₀ hh _ ih =>
    rw [Nat.add_right_comm n 1 m, parse_array hh] at h
    obtain ⟨items, r₂, ws', hp, hq, rfl⟩ := nested_eq_some h
    obtain ⟨ws₁, r₁, ws₂, h₁, h₂, rfl⟩ := ih (items, r₂) hq
    refine ⟨.array items :: ws₁, r₁, ws₂, ?_, parse_of_le h₂ (Nat.le_succ f), rfl⟩
    rw [parse_array hh, hp, Option.bind_some, h₁, Option.map_some]
  | case8 f n bs k r₀ hh _ ih =>
    rw [Nat.add_right_comm n 1 m, parse_map hh] at h
    obtain ⟨items, r₂, ws', hp, hq, rfl⟩ := nested_eq_some (w := fun items => .map (pairUp items)) h
    obtain ⟨ws₁, r₁, ws₂, h₁, h₂, rfl⟩ := ih (items, r₂) hq
    refine ⟨.map (pairUp items) :: ws₁, r₁, ws₂, ?_, parse_of_le h₂ (Nat.le_succ f), rfl⟩
    rw [parse_map hh, hp, Option.bind_some, h₁, Option.map_some]

lemma parse_det {f g n : ℕ} {bs : List UInt8} {x y : List MpValue × List UInt8} (hx : parse f n bs = some x)
    (hy : parse g n bs = some y) : x = y := by
  have h := parse_of_le hx (Nat.le_add_right f g)
  rw [parse_of_le hy (Nat.le_add_left g f)] at h
  exact (Option.some.inj h).symm

lemma parse_nil (f m : ℕ) : parse f (m + 1) [] = none := by
  cases f with
  | zero => rfl
  | succ f => exact parse_none rfl

lemma parse_array_inv {f c k : ℕ} {bs r : List UInt8} {x : List MpValue × List UInt8}
    (hh : readHead bs = some (.array k, r)) (h : parse f (c + 1) bs = some x) : ∃ f' y, parse f' k r = some y := by
  cases f with
  | zero => cases h
  | succ f =>
    rw [parse_array hh] at h
    obtain ⟨p, hp, -⟩ := Option.bind_eq_some_iff.1 h
    exact ⟨f, p, hp⟩

lemma parse_map_inv {f c k : ℕ} {bs r : List UInt8} {x : List MpValue × List UInt8}
    (hh : readHead bs = some (.map k, r)) (h : parse f (c + 1) bs = some x) :
    ∃ f' y, parse f' (2 * k) r = some y := by
  cases f with
  | zero => cases h
  | succ f =>
    rw [parse_map hh] at h
    obtain ⟨p, hp, -⟩ := Option.bind_eq_some_iff.1 h
    exact ⟨f, p, hp⟩

/-! ## Decoding -/

@[simp] lemma length_flatPairs (es : List (MpValue × MpValue)) : (flatPairs es).length = 2 * es.length := by
  induction es with
  | nil => rfl
  | cons e es ih =>
    rw [flatPairs, List.flatMap_cons, List.length_append, ← flatPairs, ih, List.length_cons]
    simp only [List.length_cons, List.length_nil]
    omega

@[simp] lemma pairUp_flatPairs (es : List (MpValue × MpValue)) : pairUp (flatPairs es) = es := by
  induction es with
  | nil => rfl
  | cons e es ih =>
    rw [flatPairs, List.flatMap_cons, ← flatPairs]
    exact congrArg (e :: ·) ih

lemma decodes_nil : Decodes [] [] := ⟨0, rfl⟩

lemma Decodes.append {a b : List UInt8} {vs ws : List MpValue} (ha : Decodes a vs) (hb : Decodes b ws) :
    Decodes (a ++ b) (vs ++ ws) := by
  obtain ⟨fa, ha⟩ := ha
  obtain ⟨fb, hb⟩ := hb
  have ha' := parse_append b ha
  rw [List.nil_append] at ha'
  exact ⟨fa + fb, by rw [List.length_append]; exact parse_add ha' hb⟩

lemma Decodes.entry {kb vb rest : List UInt8} {k v : MpValue} {es : List (MpValue × MpValue)}
    (hk : Decodes kb [k]) (hv : Decodes vb [v]) (hr : Decodes rest (flatPairs es)) :
    Decodes (kb ++ (vb ++ rest)) (flatPairs ((k, v) :: es)) :=
  hk.append (hv.append hr)

lemma Decodes.lastEntry {kb vb : List UInt8} {k v : MpValue} (hk : Decodes kb [k]) (hv : Decodes vb [v]) :
    Decodes (kb ++ vb) (flatPairs [(k, v)]) :=
  hk.append hv

lemma Decodes.parse_rest {a b : List UInt8} {vs : List MpValue} (ha : Decodes a vs) {f m : ℕ}
    {x : List MpValue × List UInt8} (h : parse f (vs.length + m) (a ++ b) = some x) : ∃ y, parse f m b = some y := by
  obtain ⟨f₀, hf₀⟩ := ha
  obtain ⟨ws, r⟩ := x
  obtain ⟨ws₁, r₁, ws₂, h₁, h₂, -⟩ := parse_split h
  have hb := parse_append b hf₀
  rw [List.nil_append] at hb
  obtain ⟨-, rfl⟩ := Prod.mk.inj (parse_det h₁ hb)
  exact ⟨_, h₂⟩

lemma Decodes.parse_arrayHeader_short {body : List UInt8} {vs : List MpValue} (hb : Decodes body vs) {n : ℕ}
    (hn : vs.length < n) (hlt : n < 2 ^ 32) (f c : ℕ) : parse f (c + 1) (arrayHeader n ++ body) = none := by
  cases h : parse f (c + 1) (arrayHeader n ++ body) with
  | none => rfl
  | some x =>
    obtain ⟨f', y, hy⟩ := parse_array_inv (readHead_arrayHeader body hlt) h
    obtain ⟨k, rfl⟩ := Nat.exists_eq_add_of_lt hn
    rw [← List.append_nil body, Nat.add_assoc] at hy
    obtain ⟨z, hz⟩ := hb.parse_rest hy
    rw [parse_nil] at hz
    cases hz

lemma Decodes.parse_mapHeader_last {pre rest : List UInt8} {vs : List MpValue} (hpre : Decodes pre vs) {k : ℕ}
    (hk : vs.length + 1 = 2 * k) (hlt : k < 2 ^ 32) (hrest : ∀ f, parse f 1 rest = none) (f c : ℕ) :
    parse f (c + 1) (mapHeader k ++ (pre ++ rest)) = none := by
  cases h : parse f (c + 1) (mapHeader k ++ (pre ++ rest)) with
  | none => rfl
  | some x =>
    obtain ⟨f', y, hy⟩ := parse_map_inv (readHead_mapHeader (pre ++ rest) hlt) h
    rw [← hk] at hy
    obtain ⟨z, hz⟩ := hpre.parse_rest hy
    rw [hrest] at hz
    cases hz

lemma decodes_of_readHead {bs : List UInt8} {v : MpValue} (h : readHead bs = some (.value v, [])) :
    Decodes bs [v] :=
  ⟨1, by rw [List.length_singleton, parse_value h, parse_zero, Option.map_some]⟩

lemma decodes_uintBytes {n : ℕ} (hn : n < 2 ^ 32) : Decodes (uintBytes n) [.uint n] := by
  have h := readHead_uintBytes [] hn
  rw [List.append_nil] at h
  exact decodes_of_readHead h

lemma decodes_intBytes {n : ℤ} (hlo : -2 ^ 63 ≤ n) (hhi : n < 2 ^ 63) : Decodes (intBytes n) [.ofInt n] := by
  have h := readHead_intBytes [] hlo hhi
  rw [List.append_nil] at h
  exact decodes_of_readHead h

lemma decodes_nilByte : Decodes [0xc0] [.nil] := decodes_of_readHead (readHead_nil [])

lemma decodes_str (s : String) (hs : (utf8Bytes s).length < 2 ^ 32) :
    Decodes (strHeader (utf8Bytes s).length ++ utf8Bytes s) [.str s] := by
  refine ⟨1, ?_⟩
  rw [List.length_singleton, parse_str (readHead_strHeader _ hs), if_pos (Nat.le_refl _), List.take_length,
    List.drop_length, strOfBytes_utf8Bytes, Option.bind_some, parse_zero, Option.map_some]

lemma Decodes.array {body : List UInt8} {vs : List MpValue} {n : ℕ} (hb : Decodes body vs)
    (hn : vs.length = n) (hlt : n < 2 ^ 32) : Decodes (arrayHeader n ++ body) [.array vs] := by
  obtain ⟨f, hf⟩ := hb
  refine ⟨f + 1, ?_⟩
  rw [hn] at hf
  rw [List.length_singleton, parse_array (readHead_arrayHeader body hlt), hf, Option.bind_some, parse_zero,
    Option.map_some]

lemma Decodes.map {body : List UInt8} {es : List (MpValue × MpValue)} {n : ℕ} (hb : Decodes body (flatPairs es))
    (hn : es.length = n) (hlt : n < 2 ^ 32) : Decodes (mapHeader n ++ body) [.map es] := by
  obtain ⟨f, hf⟩ := hb
  refine ⟨f + 1, ?_⟩
  rw [length_flatPairs, hn] at hf
  rw [List.length_singleton, parse_map (readHead_mapHeader body hlt), hf, Option.bind_some, parse_zero,
    Option.map_some, pairUp_flatPairs]

end Msgpack

end Orrp.Lib
