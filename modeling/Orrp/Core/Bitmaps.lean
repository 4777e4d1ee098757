import Mathlib.Data.Finset.Sort
import Mathlib.Data.Finset.Card
import Orrp.Lib.LittleEndian

/-!
# Serialized bitmaps (`core/bitmaps`)

`bitmap_serialize` writes a 16-byte `bitmap_serialization_header_t` (the size of the roaring
payload and a version, two `uint64_t` copied with `memcpy`, so little-endian on the machines the
server runs on) followed by the roaring library's portable serialization of the bitmap.
`bitmap_deserialize` reads the header back, checks that the buffer holds the payload the header
declares, and hands the payload to `roaring_bitmap_portable_deserialize_safe`, or creates an empty
bitmap for an empty payload.

The roaring library is a parameter: a `PortableCodec` holds its serializer and its bounded decoder
with the laws the wrapper relies on, and `arrayCodec` is one that meets them.

* `bitmapDeserialize_bitmapSerialize` — a serialized bitmap deserializes to itself;
* `bitmapDeserialize_isSome` — a buffer is accepted only if it holds the header and the payload
  the header declares, or if `16 + roaring_bitmap_size` wraps in `size_t`;
* `bitmapDeserialize_append` — the bytes after the declared payload are not read;
* `bitmapDeserialize_wrapped` — it does wrap: a header declaring `2 ^ 64 - 1` bytes in front of any
  payload is accepted, and the decoder is allowed to read that many bytes from a buffer that ends
  after the payload.
-/

namespace Orrp.Core

open Orrp.Lib

/-- A roaring bitmap, as the set of its values. -/
abbrev Bitmap := Finset UInt32

/-- `sizeof(bitmap_serialization_header_t)`. -/
def headerSize : ℕ := 16

/-- `size_t` arithmetic is modulo `SIZE_MAX + 1`. -/
def sizeTModulus : ℕ := 2 ^ 64

/-- `bitmap_serialization_header_t`. -/
structure SerializationHeader where
  roaringBitmapSize : UInt64
  version : UInt64
  deriving DecidableEq, Repr

/-- The header as `memcpy` lays it out: its two fields in order, each little-endian. -/
def SerializationHeader.bytes (h : SerializationHeader) : List UInt8 :=
  leBytes 8 h.roaringBitmapSize.toNat ++ leBytes 8 h.version.toNat

/-- The header `memcpy` reads from the start of a buffer. -/
def SerializationHeader.read (buf : List UInt8) : SerializationHeader :=
  ⟨UInt64.ofNat (leValue (buf.take 8)), UInt64.ofNat (leValue ((buf.drop 8).take 8))⟩

/-- The roaring library's portable format, with the laws the wrapper relies on. -/
structure PortableCodec where
  /-- `roaring_bitmap_portable_serialize`; the length is `roaring_bitmap_portable_size_in_bytes`. -/
  serialize : Bitmap → List UInt8
  /-- `roaring_bitmap_portable_deserialize_safe (p, maxbytes)`, given the bytes from `p` to the end
  of the caller's buffer. -/
  deserializeSafe : List UInt8 → ℕ → Option Bitmap
  /-- The decoder reads an encoding back whenever `maxbytes` covers it, whatever follows it. -/
  deserializeSafe_serialize : ∀ bm rest n, (serialize bm).length ≤ n →
    deserializeSafe (serialize bm ++ rest) n = some bm
  /-- The decoder reads nothing past `maxbytes`. -/
  deserializeSafe_take : ∀ buf n, deserializeSafe buf n = deserializeSafe (buf.take n) n
  /-- Only the empty bitmap may have an empty encoding. -/
  eq_empty_of_serialize_eq_nil : ∀ bm, serialize bm = [] → bm = ∅
  /-- An encoding and its header fit a `size_t`. -/
  size_lt : ∀ bm, headerSize + (serialize bm).length < sizeTModulus

/-- `bitmap_serialize`: the header, then the portable serialization when it is not empty.  The
header's version is left zero by the initializer. -/
def bitmapSerialize (C : PortableCodec) (bm : Bitmap) : List UInt8 :=
  let roaringBitmapSize := (C.serialize bm).length
  (SerializationHeader.mk (UInt64.ofNat roaringBitmapSize) 0).bytes ++
    if 0 < roaringBitmapSize then C.serialize bm else []

/-- `bitmap_deserialize` of a buffer of `buf.length` bytes: `NULL` for a buffer shorter than the
header or than the total size the header declares, that size computed in `size_t`. -/
def bitmapDeserialize (C : PortableCodec) (buf : List UInt8) : Option Bitmap :=
  if buf.length < headerSize then none
  else
    let header := SerializationHeader.read buf
    let expectedTotalSize := (headerSize + header.roaringBitmapSize.toNat) % sizeTModulus
    if buf.length < expectedTotalSize then none
    else if 0 < header.roaringBitmapSize.toNat then
      C.deserializeSafe (buf.drop headerSize) header.roaringBitmapSize.toNat
    else some ∅

/-! ## The header -/

section Header

variable (h : SerializationHeader)

@[simp] theorem SerializationHeader.length_bytes : h.bytes.length = headerSize := by
  simp [SerializationHeader.bytes, headerSize]

/-- **The header reads back**, whatever follows it. -/
@[simp] theorem SerializationHeader.read_bytes (rest : List UInt8) : SerializationHeader.read (h.bytes ++ rest) = h := by
  have hfit : ∀ x : UInt64, x.toNat < 256 ^ 8 := fun x => x.toNat_lt
  unfold SerializationHeader.read SerializationHeader.bytes
  rw [List.append_assoc, List.take_left' length_leBytes, List.drop_left' length_leBytes,
    List.take_left' length_leBytes, leValue_leBytes_of_lt (hfit _), leValue_leBytes_of_lt (hfit _),
    UInt64.ofNat_toNat, UInt64.ofNat_toNat]

end Header

/-! ## Deserializing -/

section Deserialize

variable (C : PortableCodec) {buf : List UInt8} {bm : Bitmap}

theorem roaringBitmapSize_toNat : (UInt64.ofNat (C.serialize bm).length).toNat = (C.serialize bm).length := by
  have hfit := C.size_lt bm
  unfold headerSize sizeTModulus at hfit
  rw [UInt64.toNat_ofNat', Nat.mod_eq_of_lt (by omega)]

/-- **Round trip.**  `bitmap_deserialize` gives back the bitmap `bitmap_serialize` wrote, also the
empty one with its possibly empty payload. -/
theorem bitmapDeserialize_bitmapSerialize : bitmapDeserialize C (bitmapSerialize C bm) = some bm := by
  have hfit := C.size_lt bm
  unfold bitmapDeserialize bitmapSerialize
  dsimp only
  rw [SerializationHeader.read_bytes, roaringBitmapSize_toNat, List.length_append,
    SerializationHeader.length_bytes, if_neg (by omega), Nat.mod_eq_of_lt hfit]
  by_cases hpos : 0 < (C.serialize bm).length
  · -- the payload, read within its declared size
    have hdec := C.deserializeSafe_serialize bm [] _ le_rfl
    rw [List.append_nil] at hdec
    rw [if_pos hpos, if_neg (by omega), if_pos hpos, List.drop_left' (SerializationHeader.length_bytes _), hdec]
  · -- an empty payload, which only the empty bitmap has
    have hnil : C.serialize bm = [] := List.eq_nil_of_length_eq_zero (by omega)
    rw [if_neg hpos, if_neg (by simp [hnil]), if_neg hpos, C.eq_empty_of_serialize_eq_nil bm hnil]

/-- **What is accepted.**  A buffer is accepted only if it holds the header, and the payload the
header declares unless `16 + roaring_bitmap_size` wraps modulo `2 ^ 64`. -/
theorem bitmapDeserialize_isSome (h : (bitmapDeserialize C buf).isSome) :
    headerSize ≤ buf.length ∧
      (headerSize + (SerializationHeader.read buf).roaringBitmapSize.toNat ≤ buf.length ∨
        sizeTModulus ≤ headerSize + (SerializationHeader.read buf).roaringBitmapSize.toNat) := by
  unfold bitmapDeserialize at h
  dsimp only at h
  by_cases hshort : buf.length < headerSize
  · rw [if_pos hshort] at h
    simp at h
  rw [if_neg hshort] at h
  by_cases hlong : buf.length < (headerSize + (SerializationHeader.read buf).roaringBitmapSize.toNat) % sizeTModulus
  · rw [if_pos hlong] at h
    simp at h
  refine ⟨by omega, ?_⟩
  by_cases hwrap : headerSize + (SerializationHeader.read buf).roaringBitmapSize.toNat < sizeTModulus
  · rw [Nat.mod_eq_of_lt hwrap] at hlong
    exact .inl (by omega)
  · exact .inr (by omega)

theorem bitmapDeserialize_append {h : SerializationHeader} {payload : List UInt8}
    (hsize : payload.length = h.roaringBitmapSize.toNat) (trailing : List UInt8) :
    bitmapDeserialize C (h.bytes ++ payload ++ trailing) = bitmapDeserialize C (h.bytes ++ payload) := by
  unfold bitmapDeserialize
  simp only [List.append_assoc, SerializationHeader.read_bytes, List.length_append,
    SerializationHeader.length_bytes, List.drop_left' (SerializationHeader.length_bytes h)]
  rw [C.deserializeSafe_take (payload ++ trailing), C.deserializeSafe_take payload,
    List.take_left' hsize, List.take_of_length_le hsize.le]
  have hmod := Nat.mod_le (headerSize + h.roaringBitmapSize.toNat) sizeTModulus
  rw [if_neg (show ¬headerSize + (payload.length + trailing.length) < headerSize by omega),
    if_neg (show ¬headerSize + (payload.length + trailing.length) <
      (headerSize + h.roaringBitmapSize.toNat) % sizeTModulus by omega),
    if_neg (show ¬headerSize + payload.length < headerSize by omega),
    if_neg (show ¬headerSize + payload.length < (headerSize + h.roaringBitmapSize.toNat) % sizeTModulus by omega)]

/-- **The size check wraps.**  A header declaring `2 ^ 64 - 1` payload bytes, in front of the
encoding of any bitmap, passes the check, since `16 + (2 ^ 64 - 1)` is `15` in `size_t`: the
decoder is handed `maxbytes = 2 ^ 64 - 1` for a buffer that ends after the encoding, and returns
the bitmap. -/
theorem bitmapDeserialize_wrapped (bm : Bitmap) :
    bitmapDeserialize C ((SerializationHeader.mk (UInt64.ofNat (sizeTModulus - 1)) 0).bytes ++ C.serialize bm) =
      some bm := by
  have hfit := C.size_lt bm
  have hsize : (UInt64.ofNat (sizeTModulus - 1)).toNat = sizeTModulus - 1 := by
    rw [UInt64.toNat_ofNat']
    rfl
  unfold bitmapDeserialize
  dsimp only
  rw [SerializationHeader.read_bytes, List.length_append, SerializationHeader.length_bytes, hsize,
    List.drop_left' (SerializationHeader.length_bytes _)]
  unfold headerSize sizeTModulus at hfit ⊢
  have hdec := C.deserializeSafe_serialize bm [] (2 ^ 64 - 1) (by omega)
  rw [List.append_nil] at hdec
  rw [if_neg (by omega), if_neg (by omega), if_pos (by omega), hdec]

/-- **`bitmap_deserialize` and its size check.**  For every codec that meets the laws: every
bitmap survives `bitmap_serialize` then `bitmap_deserialize`; a buffer is accepted only if it holds
the header and, unless `16 + roaring_bitmap_size` wraps in `size_t`, the declared payload; and the
sum does wrap, so that the encoding of any bitmap behind a header declaring `2 ^ 64 - 1` bytes is
accepted and decoded although the buffer is shorter than `16 + (2 ^ 64 - 1)` bytes. -/
theorem bitmapDeserialize_sizeCheck :
    (∀ bm, bitmapDeserialize C (bitmapSerialize C bm) = some bm) ∧
    (∀ buf, (bitmapDeserialize C buf).isSome →
      headerSize ≤ buf.length ∧
        (headerSize + (SerializationHeader.read buf).roaringBitmapSize.toNat ≤ buf.length ∨
          sizeTModulus ≤ headerSize + (SerializationHeader.read buf).roaringBitmapSize.toNat)) ∧
    ∀ bm, bitmapDeserialize C ((SerializationHeader.mk (UInt64.ofNat (sizeTModulus - 1)) 0).bytes ++ C.serialize bm) =
        some bm ∧
      ((SerializationHeader.mk (UInt64.ofNat (sizeTModulus - 1)) 0).bytes ++ C.serialize bm).length <
        headerSize + (sizeTModulus - 1) := by
  refine ⟨fun _ => bitmapDeserialize_bitmapSerialize C, fun _ h => bitmapDeserialize_isSome C h, fun bm => ?_⟩
  refine ⟨bitmapDeserialize_wrapped C bm, ?_⟩
  have hfit := C.size_lt bm
  rw [List.length_append, SerializationHeader.length_bytes]
  unfold headerSize sizeTModulus at hfit ⊢
  omega

end Deserialize

/-! ## A codec that meets the laws

A count of eight bytes, then the values in ascending order, four bytes each: the layout of a
single roaring array container.  It shows that the laws of `PortableCodec` can be met together. -/

section ArrayCodec

/-- The values of a bitmap, ascending. -/
def sortedValues (bm : Bitmap) : List ℕ := (bm.image UInt32.toNat).sort (· ≤ ·)

/-- Reads `k` values of four bytes each. -/
def readValues : ℕ → List UInt8 → Option (List ℕ)
  | 0, _ => some []
  | k + 1, bs => if bs.length < 4 then none else (readValues k (bs.drop 4)).map (leValue (bs.take 4) :: ·)

def arraySerialize (bm : Bitmap) : List UInt8 :=
  leBytes 8 (sortedValues bm).length ++ (sortedValues bm).flatMap (leBytes 4)

def arrayDeserializeSafe (buf : List UInt8) (maxbytes : ℕ) : Option Bitmap :=
  let buf := buf.take maxbytes
  if buf.length < 8 then none
  else (readValues (leValue (buf.take 8)) (buf.drop 8)).map fun vs => (vs.map UInt32.ofNat).toFinset

variable {bm : Bitmap} {vs : List ℕ}

theorem length_flatMap_leBytes (w : ℕ) : (vs.flatMap (leBytes w)).length = w * vs.length := by
  induction vs with
  | nil => rfl
  | cons v vs ih => rw [List.flatMap_cons, List.length_append, length_leBytes, ih, List.length_cons, Nat.mul_succ,
      Nat.add_comm]

theorem sortedValues_lt : (∀ v ∈ sortedValues bm, v < 256 ^ 4) ∧ (sortedValues bm).length ≤ 2 ^ 32 := by
  have hsub : bm.image UInt32.toNat ⊆ Finset.range (2 ^ 32) := fun v hv => by
    obtain ⟨x, -, rfl⟩ := Finset.mem_image.1 hv
    exact Finset.mem_range.2 x.toNat_lt
  refine ⟨fun v hv => ?_, ?_⟩
  · have hv' := hsub ((Finset.mem_sort _).1 hv)
    simpa using hv'
  · rw [sortedValues, Finset.length_sort]
    simpa using Finset.card_le_card hsub

theorem readValues_flatMap (hvs : ∀ v ∈ vs, v < 256 ^ 4) (rest : List UInt8) :
    readValues vs.length (vs.flatMap (leBytes 4) ++ rest) = some vs := by
  induction vs with
  | nil => rfl
  | cons v vs ih =>
    have hv := hvs v List.mem_cons_self
    rw [List.length_cons, readValues, List.flatMap_cons, List.append_assoc, List.take_left' length_leBytes,
      List.drop_left' length_leBytes, ih fun v hv => hvs v (List.mem_cons_of_mem _ hv), leValue_leBytes_of_lt hv,
      List.length_append, length_leBytes, if_neg (by omega)]
    rfl

theorem toFinset_sortedValues : ((sortedValues bm).map UInt32.ofNat).toFinset = bm := by
  ext x
  simp [sortedValues, Finset.mem_sort]

theorem arrayDeserializeSafe_arraySerialize (rest : List UInt8) {n : ℕ} (hn : (arraySerialize bm).length ≤ n) :
    arrayDeserializeSafe (arraySerialize bm ++ rest) n = some bm := by
  obtain ⟨hvals, hcount⟩ := @sortedValues_lt bm
  have hcount' : (sortedValues bm).length < 256 ^ 8 := by omega
  unfold arrayDeserializeSafe
  dsimp only
  rw [List.take_append, List.take_of_length_le hn]
  unfold arraySerialize
  rw [List.append_assoc, List.take_left' length_leBytes, List.drop_left' length_leBytes,
    leValue_leBytes_of_lt hcount', readValues_flatMap hvals, List.length_append, length_leBytes,
    if_neg (by omega), Option.map_some, toFinset_sortedValues]

/-- `arraySerialize` and `arrayDeserializeSafe` as a roaring codec. -/
def arrayCodec : PortableCodec where
  serialize := arraySerialize
  deserializeSafe := arrayDeserializeSafe
  deserializeSafe_serialize _ rest _ hn := arrayDeserializeSafe_arraySerialize rest hn
  deserializeSafe_take buf n := by
    unfold arrayDeserializeSafe
    rw [List.take_take, Nat.min_self]
  eq_empty_of_serialize_eq_nil bm h := by
    have hlen := congrArg List.length h
    simp [arraySerialize] at hlen
  size_lt bm := by
    have hcount := (@sortedValues_lt bm).2
    rw [arraySerialize, List.length_append, length_leBytes, length_flatMap_leBytes]
    unfold headerSize sizeTModulus
    omega

-- a header that declares five payload bytes in front of three is refused
example : bitmapDeserialize arrayCodec ((SerializationHeader.mk 5 0).bytes ++ [1, 2, 3]) = none := by
  decide

-- the encoding of the empty bitmap behind a header that declares `2 ^ 64 - 1` bytes is accepted
example : bitmapDeserialize arrayCodec ((SerializationHeader.mk (UInt64.ofNat (2 ^ 64 - 1)) 0).bytes ++ leBytes 8 0) =
    some ∅ := by
  decide

end ArrayCodec

end Orrp.Core
