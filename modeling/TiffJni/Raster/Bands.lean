import TiffJni.Raster.Display

/-! # Bands of rows

The get routines take the rows of an image band by band: each band ends with its strip or row of
tiles, or with the raster. The lines of the raster follow the rows, upward or downward.
-/
namespace TiffJni.Raster
open FixedWidth

variable {rows off h row : UInt32}

/-- The numbers of rows for which the arithmetic of the loops does not overflow. -/
structure BandFits (rows off h : UInt32) : Prop where
  pos : 0 < rows.toNat
  le : h.toNat + off.toNat ≤ 2 ^ 31

theorem bandRow_toNat (hfits : BandFits rows off h) (hrow : row.toNat < h.toNat) :
    (bandRow rows off row).toNat = (row.toNat + off.toNat) % rows.toNat := by
  have hle := hfits.le
  rw [bandRow, UInt32.toNat_mod, UInt32.toNat_add, Nat.mod_eq_of_lt (by omega : row.toNat + _ < 2 ^ 32)]

/-- A band ends with its strip or with the image. -/
theorem bandRows_toNat (hfits : BandFits rows off h) (hrow : row.toNat < h.toNat) :
    (bandRows rows off h row).toNat = min (rows.toNat - (bandRow rows off row).toNat) (h.toNat - row.toNat) := by
  have hle := hfits.le
  have hword := rows.toNat_lt
  have hband := bandRow_toNat hfits hrow
  have hmod := Nat.mod_lt (row.toNat + off.toNat) hfits.pos
  have hle : bandRow rows off row ≤ rows := by
    rw [UInt32.le_iff_toNat_le]
    omega
  have hrest : (rows - bandRow rows off row).toNat = rows.toNat - (bandRow rows off row).toNat :=
    UInt32.toNat_sub_of_le _ _ hle
  -- the row that follows the band is still a row number
  have hnext : row.toNat + (rows.toNat - (bandRow rows off row).toNat) < 2 ^ 32 := by
    rw [hband]
    rcases Nat.lt_or_ge (row.toNat + off.toNat) rows.toNat with hfirst | hlater
    · rw [Nat.mod_eq_of_lt hfirst]
      omega
    · omega
  have hsum : (row + (rows - bandRow rows off row)).toNat =
      row.toNat + (rows.toNat - (bandRow rows off row).toNat) := by
    rw [UInt32.toNat_add, hrest, Nat.mod_eq_of_lt hnext]
  have hrow' : row ≤ h := by
    rw [UInt32.le_iff_toNat_le]
    omega
  unfold bandRows
  dsimp only
  split
  · rename_i hlast
    rw [UInt32.lt_iff_toNat_lt, hsum] at hlast
    rw [UInt32.toNat_sub_of_le _ _ hrow']
    omega
  · rename_i hmore
    rw [UInt32.lt_iff_toNat_lt, hsum] at hmore
    rw [hrest]
    omega

theorem bandRows_spec (hfits : BandFits rows off h) (hrow : row.toNat < h.toNat) :
    0 < (bandRows rows off h row).toNat ∧ row.toNat + (bandRows rows off h row).toNat ≤ h.toNat ∧
      (bandRow rows off row).toNat + (bandRows rows off h row).toNat ≤ rows.toNat := by
  have hnrow := bandRows_toNat hfits hrow
  have hband := bandRow_toNat hfits hrow
  have hmod := Nat.mod_lt (row.toNat + off.toNat) hfits.pos
  omega

/-- Every row of a band lies in the strip or tile that the band begins in. -/
theorem bandRows_same (hfits : BandFits rows off h) (hrow : row.toNat < h.toNat) {r : ℕ}
    (hr : r < (bandRows rows off h row).toNat) :
    (row.toNat + r + off.toNat) / rows.toNat = (row.toNat + off.toNat) / rows.toNat ∧
      (row.toNat + r + off.toNat) % rows.toNat = (bandRow rows off row).toNat + r := by
  obtain ⟨-,-,hrest⟩ := bandRows_spec hfits hrow
  have hband := bandRow_toNat hfits hrow
  have hdiv := Nat.div_add_mod (row.toNat + off.toNat) rows.toNat
  have hsplit : row.toNat + r + off.toNat =
      rows.toNat * ((row.toNat + off.toNat) / rows.toNat) + ((bandRow rows off row).toNat + r) := by omega
  have hlt : (bandRow rows off row).toNat + r < rows.toNat := by omega
  rw [hsplit, Nat.mul_add_div hfits.pos, Nat.mul_add_mod, Nat.div_eq_of_lt hlt, Nat.mod_eq_of_lt hlt, Nat.add_zero]
  exact ⟨rfl,rfl⟩

theorem firstLine_toNat {flip : Flip} (h₀ : 0 < h.toNat) : (firstLine flip h).toNat = mirror flip.vertically h.toNat 0 := by
  have hone : (1 : UInt32) ≤ h := by
    rw [UInt32.le_iff_toNat_le]
    exact h₀
  unfold firstLine mirror
  split
  · rw [UInt32.toNat_sub_of_le _ _ hone]
    rfl
  · rfl

/-- The line of the raster that a row goes to, from one band to the next. -/
theorem nextLine_toNat (hfits : BandFits rows off h) {flip : Flip} {y : UInt32} (hrow : row.toNat < h.toNat)
    (hy : y.toNat = mirror flip.vertically h.toNat row.toNat) :
    (row + bandRows rows off h row).toNat = row.toNat + (bandRows rows off h row).toNat ∧
      ((row + bandRows rows off h row).toNat < h.toNat → (nextLine flip y (bandRows rows off h row)).toNat =
        mirror flip.vertically h.toNat (row + bandRows rows off h row).toNat) := by
  have hword := h.toNat_lt
  obtain ⟨hpos,hle,-⟩ := bandRows_spec hfits hrow
  have hnext : (row + bandRows rows off h row).toNat = row.toNat + (bandRows rows off h row).toNat := by
    rw [UInt32.toNat_add, Nat.mod_eq_of_lt (by omega : row.toNat + _ < 2 ^ 32)]
  refine ⟨hnext,?_⟩
  rw [hnext]
  intro hmore
  unfold nextLine
  unfold mirror at hy ⊢
  cases hv : flip.vertically with
  | false =>
    simp only [hv, Bool.false_eq_true, if_false] at hy ⊢
    rw [UInt32.toNat_add, Nat.mod_eq_of_lt (by omega : y.toNat + _ < 2 ^ 32), hy]
  | true =>
    simp only [hv, if_true] at hy ⊢
    have hsub : bandRows rows off h row ≤ y := by
      rw [UInt32.le_iff_toNat_le]
      omega
    rw [UInt32.toNat_sub_of_le _ _ hsub]
    omega

theorem line_toNat {v : Bool} {w y : UInt32} (hcells : w.toNat * h.toNat < 2 ^ 32) (hrow : row.toNat < h.toNat)
    (hy : y.toNat = mirror v h.toNat row.toNat) : (y * w).toNat = mirror v h.toNat row.toNat * w.toNat := by
  have hlt := mirror_lt v hrow
  have harea : mirror v h.toNat row.toNat * w.toNat ≤ h.toNat * w.toNat := Nat.mul_le_mul_right _ hlt.le
  rw [Nat.mul_comm w.toNat] at hcells
  rw [UInt32.toNat_mul, hy, Nat.mod_eq_of_lt (harea.trans_lt hcells)]

end TiffJni.Raster
