import TiffJni.Image.PixelBuffer

/-! # The conversion loop

Each bit of a converted word is a bit of the word before it, so converting twice changes
nothing. The loop visits every pixel of the raster once, row by row: the words before the
next index are converted and the others are as libtiff wrote them.
-/
namespace TiffJni.Image
open FixedWidth

/-- The bit of the word of libtiff that bit `i` of the word of Android is. -/
def argbBit (i : ℕ) : ℕ :=
  if i < 8 then i + 16 else if 16 ≤ i ∧ i < 24 then i - 16 else i

theorem argbBit_lt {i : ℕ} (h : i < 32) : argbBit i < 32 := by
  unfold argbBit
  split
  · omega
  split <;> omega

theorem argbBit_argbBit (i : ℕ) : argbBit (argbBit i) = i := by
  unfold argbBit
  split <;> split <;> (try split) <;> omega

/-- The masks of the conversion, bit by bit. -/
theorem masks_getLsbD : ∀ i < 32,
    (0xff000000#32).getLsbD i = decide (24 ≤ i) ∧
    (0x00ff0000#32).getLsbD i = decide (16 ≤ i ∧ i < 24) ∧
    (0x0000ff00#32).getLsbD i = decide (8 ≤ i ∧ i < 16) ∧
    (0xff#32).getLsbD i = decide (i < 8) := by
  decide

/-- The mask clears the sign of `tmp`, so the arithmetic shift brings in zeros. -/
theorem blue_getLsbD (p : Word) {i : ℕ} (hi : i < 32) :
    ((p &&& 0x00ff0000#32).sshiftRight 16).getLsbD i = (decide (i < 8) && p.getLsbD (i + 16)) := by
  have hmsb : (p &&& 0x00ff0000#32).msb = false := by
    rw [BitVec.msb_and]
    exact Bool.and_false _
  rw [BitVec.getLsbD_sshiftRight, hmsb, BitVec.getLsbD_and, Nat.add_comm]
  by_cases hlow : i + 16 < 32
  · obtain ⟨-,hmask,-⟩ := masks_getLsbD (i + 16) hlow
    have hiff : 16 ≤ i + 16 ∧ i + 16 < 24 ↔ i < 8 := by omega
    have hnot : ¬32 ≤ i := by omega
    rw [if_pos hlow, hmask, decide_eq_decide.mpr hiff, Bool.and_comm (p.getLsbD _), decide_eq_false hnot]
    exact Bool.true_and _
  · have hnot : ¬i < 8 := by omega
    simp [hnot, hlow]

theorem red_getLsbD (p : Word) {i : ℕ} (hi : i < 32) :
    ((p &&& 0xff#32) <<< 16).getLsbD i = (decide (16 ≤ i ∧ i < 24) && p.getLsbD (i - 16)) := by
  obtain ⟨-,-,-,hmask⟩ := masks_getLsbD (i - 16) (by omega)
  rw [BitVec.getLsbD_shiftLeft, BitVec.getLsbD_and, hmask]
  by_cases hge : 16 ≤ i
  · have hiff : i - 16 < 8 ↔ i < 24 := by omega
    simp [hge, hi, hiff, Bool.and_comm]
  · simp [hge]

theorem toArgb_getLsbD (p : Word) {i : ℕ} (hi : i < 32) : (toArgb p).getLsbD i = p.getLsbD (argbBit i) := by
  obtain ⟨halpha,-,hgreen,-⟩ := masks_getLsbD i hi
  rw [toArgb, BitVec.getLsbD_or, BitVec.getLsbD_or, BitVec.getLsbD_or, BitVec.getLsbD_and, BitVec.getLsbD_and,
    blue_getLsbD p hi, red_getLsbD p hi, halpha, hgreen]
  unfold argbBit
  split
  · rename_i hblue
    have h24 : ¬24 ≤ i := by omega
    have h8 : ¬8 ≤ i := by omega
    have h16 : ¬16 ≤ i := by omega
    simp [hblue, h24, h16, h8]
  split
  · rename_i hblue hred
    have h24 : ¬24 ≤ i := by omega
    have h16 : ¬i < 16 := by omega
    simp [hblue, hred, h24, h16]
  · rename_i hblue hred
    have hsame : 24 ≤ i ∨ 8 ≤ i ∧ i < 16 := by omega
    rcases hsame with halpha | hgreen
    · have h16 : ¬i < 16 := by omega
      simp [hblue, hred, halpha, h16]
    · have h24 : ¬24 ≤ i := by omega
      simp [hblue, hred, hgreen, h24]

theorem toArgb_toArgb (p : Word) : toArgb (toArgb p) = p := by
  apply BitVec.eq_of_getLsbD_eq
  intro i hi
  rw [toArgb_getLsbD _ hi, toArgb_getLsbD _ (argbBit_lt hi), argbBit_argbBit]

theorem map_toArgb_map_toArgb (words : List Word) : (words.map toArgb).map toArgb = words := by
  have htwice : toArgb ∘ toArgb = id := funext toArgb_toArgb
  rw [List.map_map, htwice, List.map_id]

/-- The channels of a word in the order of libtiff and of the same pixel in that of Android. -/
structure SamePixel (abgr argb : Word) : Prop where
  alpha : argb.extractLsb' 24 8 = abgr.extractLsb' 24 8
  red : argb.extractLsb' 16 8 = abgr.extractLsb' 0 8
  green : argb.extractLsb' 8 8 = abgr.extractLsb' 8 8
  blue : argb.extractLsb' 0 8 = abgr.extractLsb' 16 8

theorem toArgb_extractLsb' (p : Word) {start source : ℕ} (hstart : start + 8 ≤ 32)
    (hbit : ∀ i < 8, argbBit (start + i) = source + i) :
    (toArgb p).extractLsb' start 8 = p.extractLsb' source 8 := by
  apply BitVec.eq_of_getLsbD_eq
  intro i hi
  rw [BitVec.getLsbD_extractLsb', BitVec.getLsbD_extractLsb', toArgb_getLsbD p (by omega), hbit i hi]

theorem samePixel_toArgb (p : Word) : SamePixel p (toArgb p) where
  alpha := toArgb_extractLsb' p (by decide) (by decide)
  red := toArgb_extractLsb' p (by decide) (by decide)
  green := toArgb_extractLsb' p (by decide) (by decide)
  blue := toArgb_extractLsb' p (by decide) (by decide)

/-- The rows of a raster, one after another, are all its indexes in order. -/
theorem rows_eq_range (w h : ℕ) :
    ((List.range h).flatMap fun i => (List.range w).map fun j => w * i + j) = List.range (w * h) := by
  induction h with
  | zero => simp
  | succ h ih =>
    rw [List.range_succ, List.flatMap_append, ih, Nat.mul_succ, List.range_add]
    simp

theorem conversionIndices_eq {w h : ℕ} (hlt : w * h < 2 ^ 31) :
    conversionIndices w h = (List.range (w * h)).map fun (i : ℕ) => (i : ℤ) := by
  rw [← rows_eq_range, List.map_flatMap, conversionIndices, Int.toNat_natCast, Int.toNat_natCast]
  apply List.flatMap_congr
  intro i hi
  rw [List.map_map]
  apply List.map_congr_left
  intro j hj
  have hinside := index_lt_mul (List.mem_range.mp hi) (List.mem_range.mp hj)
  have hrow : toSigned 32 ((w : ℤ) * i) = (w * i : ℕ) := by
    rw [← Nat.cast_mul]
    exact toSigned_natCast (by omega)
  rw [hrow, ← Nat.cast_add, toSigned_natCast (by omega), Function.comp_apply, Nat.add_comm]

/-- The words after the first `k` turns: those before `k` are converted, the others as they were. -/
def convertedTo (words : List Word) (k : ℕ) : List Word :=
  words.mapIdx fun i p => if i < k then toArgb p else p

theorem convertedTo_length (words : List Word) (k : ℕ) : (convertedTo words k).length = words.length :=
  List.length_mapIdx

theorem convertedTo_zero (words : List Word) : convertedTo words 0 = words := by
  apply List.ext_getElem (convertedTo_length words 0)
  intro i hi hi'
  simp only [convertedTo, List.getElem_mapIdx, Nat.not_lt_zero, if_false]

theorem convertedTo_all (words : List Word) : convertedTo words words.length = words.map toArgb := by
  apply List.ext_getElem (by rw [convertedTo_length, List.length_map])
  intro i hi hi'
  rw [convertedTo_length] at hi
  simp only [convertedTo, List.getElem_mapIdx, if_pos hi, List.getElem_map]

theorem modify_convertedTo (words : List Word) (k : ℕ) :
    (convertedTo words k).modify k toArgb = convertedTo words (k + 1) := by
  apply List.ext_getElem (by rw [List.length_modify, convertedTo_length, convertedTo_length])
  intro i hi hi'
  simp only [List.getElem_modify, convertedTo, List.getElem_mapIdx]
  by_cases hk : k = i
  · rw [if_pos hk, if_neg (by omega), if_pos (by omega)]
  · have hiff : i < k ↔ i < k + 1 := by omega
    rw [if_neg hk, if_congr hiff rfl rfl]

/-- One turn of the loop converts the next word. -/
theorem PixelBuffer.convertAt_convertedTo {b : PixelBuffer} {words : List Word} {k : ℕ}
    (hb : b.words = convertedTo words k) (hk : k < words.length) :
    ∃ b', b.convertAt k = some b' ∧ b'.words = convertedTo words (k + 1) := by
  have hlength : b.words.length = words.length := by rw [hb, convertedTo_length]
  refine ⟨_,if_pos ⟨Int.natCast_nonneg k,by omega⟩,?_⟩
  change b.words.modify (k : ℤ).toNat toArgb = _
  rw [Int.toNat_natCast, hb, modify_convertedTo]

theorem PixelBuffer.convert_range {b : PixelBuffer} {k : ℕ} (hk : k ≤ b.words.length) :
    ∃ b', ((List.range k).map fun (i : ℕ) => (i : ℤ)).foldlM PixelBuffer.convertAt b = some b' ∧
      b'.words = convertedTo b.words k := by
  induction k with
  | zero => exact ⟨b,rfl,(convertedTo_zero _).symm⟩
  | succ k ih =>
    obtain ⟨b₁,hrun,hwords₁⟩ := ih (by omega)
    obtain ⟨b₂,hturn,hwords₂⟩ := convertAt_convertedTo hwords₁ hk
    refine ⟨b₂,?_,hwords₂⟩
    rw [List.range_succ, List.map_append, List.foldlM_append, hrun]
    simp only [List.map_cons, List.map_nil, List.foldlM_cons, List.foldlM_nil]
    change (b₁.convertAt k).bind _ = _
    rw [hturn]
    rfl

theorem PixelBuffer.convert_words {b : PixelBuffer} {w h : ℕ} (hlt : w * h < 2 ^ 31)
    (hb : b.words.length = w * h) :
    ∃ b', b.convert w h = some b' ∧ b'.words = b.words.map toArgb := by
  obtain ⟨b',hrun,hwords⟩ := b.convert_range (k := w * h) hb.ge
  refine ⟨b',?_,?_⟩
  · rw [convert, conversionIndices_eq hlt, hrun]
  · rw [hwords, ← hb, convertedTo_all]

end TiffJni.Image
