import TiffJni.Machine.FixedWidth
import Mathlib.Data.BitVec

/-! # The pixel buffer of a decoded image

`decode` sizes its buffer by multiplying two signed dimensions and widening the
product, lets libtiff write the raster into it and converts it in place. Accesses
are checked against the block, so what the arithmetic gets wrong becomes visible.
-/
namespace TiffJni.Image
open FixedWidth

abbrev Word := BitVec 32

def sizeofUnsignedInt : ℕ := 4

def bufferSizeOf (m : DataModel) (width height : ℤ) : ℕ :=
  m.toSizeT (toSigned 32 (width * height) * sizeofUnsignedInt)

/-- A block of the native heap read as an `unsigned int` array. -/
structure PixelBuffer where
  bytes : ℕ
  words : List Word
  length_words : words.length = bytes / sizeofUnsignedInt

/-- What `_TIFFmalloc` answers: no block for zero bytes, else one of exactly that size or none. -/
def PixelBuffer.allocate (s : ℕ) (succeeds : Bool) (uninitialized : ℕ → Word) : Option PixelBuffer :=
  if s = 0 then none
  else if succeeds then
    some ⟨s,(List.range (s / sizeofUnsignedInt)).map uninitialized,by rw [List.length_map, List.length_range]⟩
  else none

/-- Write words from the start of the block on; there is no result when they do not fit. -/
def PixelBuffer.write (b : PixelBuffer) (written : List Word) : Option PixelBuffer :=
  if h : written.length ≤ b.words.length then
    some ⟨b.bytes,written ++ b.words.drop written.length,by
      rw [List.length_append, List.length_drop, ← b.length_words]
      omega⟩
  else none

/-- From the ABGR order of libtiff to the ARGB order of Android. -/
def toArgb (tmp : Word) : Word :=
  (tmp &&& 0xff000000#32) ||| ((tmp &&& 0x00ff0000#32).sshiftRight 16) ||| (tmp &&& 0x0000ff00#32) |||
    ((tmp &&& 0xff#32) <<< 16)

/-- One assignment of the conversion loop, to the word at a signed index. -/
def PixelBuffer.convertAt (b : PixelBuffer) (index : ℤ) : Option PixelBuffer :=
  if 0 ≤ index ∧ index < b.words.length then
    some ⟨b.bytes,b.words.modify index.toNat toArgb,by rw [List.length_modify, b.length_words]⟩
  else none

/-- The indexes `j + width * i` of the conversion loop, in the order it visits them. -/
def conversionIndices (width height : ℤ) : List ℤ :=
  (List.range height.toNat).flatMap fun (i : ℕ) => (List.range width.toNat).map fun (j : ℕ) =>
    toSigned 32 (j + toSigned 32 (width * i))

def PixelBuffer.convert (b : PixelBuffer) (width height : ℤ) : Option PixelBuffer :=
  (conversionIndices width height).foldlM PixelBuffer.convertAt b

theorem PixelBuffer.allocate_eq_none {s : ℕ} {succeeds : Bool} (uninitialized : ℕ → Word)
    (h : ¬(succeeds = true ∧ s ≠ 0)) : allocate s succeeds uninitialized = none := by
  unfold allocate
  split
  · rfl
  · rename_i hne
    rw [if_neg fun hsucceeds => h ⟨hsucceeds,hne⟩]

theorem PixelBuffer.allocate_eq_some {s : ℕ} {succeeds : Bool} (uninitialized : ℕ → Word)
    (h : succeeds = true ∧ s ≠ 0) : ∃ b, allocate s succeeds uninitialized = some b ∧ b.bytes = s := by
  unfold allocate
  rw [if_neg h.2, if_pos h.1]
  exact ⟨_,rfl,rfl⟩

theorem PixelBuffer.bytes_of_write {b b' : PixelBuffer} {written : List Word} (h : b.write written = some b') :
    b'.bytes = b.bytes := by
  unfold write at h
  split at h
  · cases h
    rfl
  · cases h

theorem PixelBuffer.bytes_of_convert {b b' : PixelBuffer} {width height : ℤ}
    (h : b.convert width height = some b') : b'.bytes = b.bytes := by
  unfold convert at h
  generalize conversionIndices width height = indices at h
  induction indices generalizing b with
  | nil =>
    cases h
    rfl
  | cons index indices ih =>
    rw [List.foldlM_cons] at h
    obtain ⟨b₁,hone,hrest⟩ := Option.bind_eq_some_iff.mp h
    refine (ih hrest).trans ?_
    unfold convertAt at hone
    split at hone
    · cases hone
      rfl
    · cases hone

theorem PixelBuffer.write_of_le {b : PixelBuffer} {written : List Word} (h : written.length ≤ b.words.length) :
    ∃ b', b.write written = some b' := by
  unfold write
  rw [dif_pos h]
  exact ⟨_,rfl⟩

theorem PixelBuffer.convert_of_inside {b : PixelBuffer} {width height : ℤ}
    (h : ∀ index ∈ conversionIndices width height, 0 ≤ index ∧ index < b.words.length) :
    ∃ b', b.convert width height = some b' := by
  unfold convert
  generalize conversionIndices width height = indices at h
  induction indices generalizing b with
  | nil => exact ⟨b,rfl⟩
  | cons index indices ih =>
    have hone : b.convertAt index =
        some ⟨b.bytes,b.words.modify index.toNat toArgb,by rw [List.length_modify, b.length_words]⟩ := by
      unfold convertAt
      rw [if_pos (h index (List.mem_cons_self ..))]
    rw [List.foldlM_cons, hone]
    refine ih ?_
    intro index' hmem
    rw [List.length_modify]
    exact h index' (List.mem_cons_of_mem _ hmem)

/-- The product of the dimensions survives the arithmetic of the buffer size. The second
range of LP64 is where the sign extension of a wrapped product makes up for the wrap. -/
def SizeFits : DataModel → ℕ → Prop
  | .ilp32, pixels => pixels < 2 ^ 30
  | .lp64, pixels => pixels < 2 ^ 31 ∨ 2 ^ 62 - 2 ^ 31 ≤ pixels ∧ pixels < 2 ^ 62

def SizeVanishes : DataModel → ℕ → Prop
  | .ilp32, pixels => pixels % 2 ^ 30 = 0
  | .lp64, pixels => pixels % 2 ^ 32 = 0

instance : (m : DataModel) → (pixels : ℕ) → Decidable (SizeFits m pixels)
  | .ilp32, pixels => inferInstanceAs (Decidable (pixels < 2 ^ 30))
  | .lp64, pixels => inferInstanceAs (Decidable (pixels < 2 ^ 31 ∨ 2 ^ 62 - 2 ^ 31 ≤ pixels ∧ pixels < 2 ^ 62))

instance : (m : DataModel) → (pixels : ℕ) → Decidable (SizeVanishes m pixels)
  | .ilp32, pixels => inferInstanceAs (Decidable (pixels % 2 ^ 30 = 0))
  | .lp64, pixels => inferInstanceAs (Decidable (pixels % 2 ^ 32 = 0))

theorem toSigned_mul_toSigned (w h : ℕ) :
    toSigned 32 (toSigned 32 w * toSigned 32 h) = toSigned 32 (w * h : ℕ) := by
  simp only [toSigned, Int.bmod_mul_bmod, Int.mul_bmod_bmod, Nat.cast_mul]

theorem bufferSizeOf_ilp32 (w h : ℕ) :
    bufferSizeOf .ilp32 (toSigned 32 w) (toSigned 32 h) = 4 * (w * h % 2 ^ 30) := by
  have hcast : (bufferSizeOf .ilp32 (toSigned 32 w) (toSigned 32 h) : ℤ) = (4 * (w * h % 2 ^ 30) : ℕ) := by
    rw [bufferSizeOf, toSigned_mul_toSigned, toSigned_32, DataModel.toSizeT, toUnsigned_cast]
    generalize w * h = p
    simp only [sizeofUnsignedInt, DataModel.longBits]
    split <;> omega
  exact_mod_cast hcast

theorem bufferSizeOf_lp64 (w h : ℕ) :
    bufferSizeOf .lp64 (toSigned 32 w) (toSigned 32 h) =
      if w * h % 2 ^ 32 < 2 ^ 31 then 4 * (w * h % 2 ^ 32) else 2 ^ 64 - 4 * (2 ^ 32 - w * h % 2 ^ 32) := by
  have hcast : (bufferSizeOf .lp64 (toSigned 32 w) (toSigned 32 h) : ℤ) = ((if w * h % 2 ^ 32 < 2 ^ 31 then
      4 * (w * h % 2 ^ 32) else 2 ^ 64 - 4 * (2 ^ 32 - w * h % 2 ^ 32) : ℕ) : ℤ) := by
    rw [bufferSizeOf, toSigned_mul_toSigned, toSigned_32, DataModel.toSizeT, toUnsigned_cast]
    generalize w * h = p
    simp only [sizeofUnsignedInt, DataModel.longBits]
    split <;> omega
  exact_mod_cast hcast

theorem bufferSizeOf_eq_iff (m : DataModel) (w h : ℕ) :
    bufferSizeOf m (toSigned 32 w) (toSigned 32 h) = 4 * (w * h) ↔ SizeFits m (w * h) := by
  cases m with
  | ilp32 =>
    rw [bufferSizeOf_ilp32, SizeFits]
    generalize w * h = p
    omega
  | lp64 =>
    rw [bufferSizeOf_lp64, SizeFits]
    generalize w * h = p
    split <;> omega

theorem bufferSizeOf_eq_zero_iff (m : DataModel) (w h : ℕ) :
    bufferSizeOf m (toSigned 32 w) (toSigned 32 h) = 0 ↔ SizeVanishes m (w * h) := by
  cases m with
  | ilp32 =>
    rw [bufferSizeOf_ilp32, SizeVanishes]
    omega
  | lp64 =>
    rw [bufferSizeOf_lp64, SizeVanishes]
    generalize w * h = p
    split <;> omega

theorem toSigned_32_toNat {x : ℕ} (hx : x < 2 ^ 32) {i : ℕ} (hi : i < (toSigned 32 x).toNat) :
    toSigned 32 x = x ∧ x < 2 ^ 31 ∧ i < x := by
  rw [toSigned_32] at hi ⊢
  split at hi
  · rw [if_pos (by assumption)]
    omega
  · omega

theorem index_lt_mul {w h i j : ℕ} (hi : i < h) (hj : j < w) : w * i + j < w * h := by
  have hrow : w * (i + 1) ≤ w * h := Nat.mul_le_mul_left w hi
  rw [Nat.mul_add, Nat.mul_one] at hrow
  omega

/-- Signed dimensions that both let the loop turn have a product without a wrap. -/
theorem SizeFits.lt_two_pow_31 {m : DataModel} {w h : ℕ} (hfits : SizeFits m (w * h)) (hw : w < 2 ^ 31)
    (hh : h < 2 ^ 31) : w * h < 2 ^ 31 := by
  have hmul : w * h ≤ (2 ^ 31 - 1) * (2 ^ 31 - 1) := Nat.mul_le_mul (by omega) (by omega)
  cases m with
  | ilp32 =>
    simp only [SizeFits] at hfits
    omega
  | lp64 =>
    simp only [SizeFits] at hfits
    omega

/-- An element count that survives its conversion to a `jsize` without a sign is exact. -/
theorem SizeFits.toSigned_eq {m : DataModel} {p : ℕ} (h : SizeFits m p) (hpos : 0 ≤ toSigned 32 p) :
    toSigned 32 p = p := by
  rw [toSigned_32] at hpos ⊢
  cases m with
  | ilp32 =>
    simp only [SizeFits] at h
    split <;> omega
  | lp64 =>
    simp only [SizeFits] at h
    split at hpos <;> omega

/-- Where the size fits, every index the conversion loop touches is inside the raster. -/
theorem conversionIndices_inside {m : DataModel} {w h : ℕ} (hw : w < 2 ^ 32) (hh : h < 2 ^ 32)
    (hfits : SizeFits m (w * h)) {index : ℤ}
    (hmem : index ∈ conversionIndices (toSigned 32 w) (toSigned 32 h)) : 0 ≤ index ∧ index < (w * h : ℕ) := by
  simp only [conversionIndices, List.mem_flatMap, List.mem_map, List.mem_range] at hmem
  obtain ⟨i,hi,j,hj,rfl⟩ := hmem
  obtain ⟨hwidth,hw31,hj⟩ := toSigned_32_toNat hw hj
  obtain ⟨-,hh31,hi⟩ := toSigned_32_toNat hh hi
  have hlt := hfits.lt_two_pow_31 hw31 hh31
  have hinside := index_lt_mul hi hj
  have hrow : toSigned 32 ((w : ℤ) * i) = (w * i : ℕ) := by
    rw [← Nat.cast_mul]
    exact toSigned_natCast (by omega)
  rw [hwidth, hrow, ← Nat.cast_add, toSigned_natCast (by omega)]
  omega

end TiffJni.Image
