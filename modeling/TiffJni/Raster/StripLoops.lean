import TiffJni.Raster.Bands

/-! # From strip to strip

The loop over the strips shows all rows of the image that it was called for, whatever the
reads do, as long as what they leave in the buffer is enough for the put routine.
-/
namespace TiffJni.Raster
open FixedWidth

variable {σ : Type}

namespace StripLoop
variable {l : StripLoop σ}

/-- The sizes for which the arithmetic of the loop does not overflow. -/
structure Fits (l : StripLoop σ) : Prop where
  width : l.w.toNat < 2 ^ 30
  cells : l.w.toNat * l.h.toNat < 2 ^ 32
  band : BandFits l.d.rowsperstrip l.img.rowOffset l.h

theorem nrow_spec (hfits : l.Fits) {row : UInt32} (hrow : row.toNat < l.h.toNat) :
    0 < (l.nrow row).toNat ∧ row.toNat + (l.nrow row).toNat ≤ l.h.toNat ∧
      (l.stripRow row).toNat + (l.nrow row).toNat ≤ l.d.rowsperstrip.toNat := bandRows_spec hfits.band hrow

theorem next_line (hfits : l.Fits) {row y : UInt32} (hrow : row.toNat < l.h.toNat)
    (hy : y.toNat = mirror l.flip.vertically l.h.toNat row.toNat) :
    (row + l.nrow row).toNat = row.toNat + (l.nrow row).toNat ∧ ((row + l.nrow row).toNat < l.h.toNat →
      (nextLine l.flip y (l.nrow row)).toNat = mirror l.flip.vertically l.h.toNat (row + l.nrow row).toNat) :=
  nextLine_toNat hfits.band hrow hy

theorem width_add_toskew (hfits : l.Fits) :
    (l.w.toNat : ℤ) + l.toskew = if l.flip.vertically then -(l.w.toNat : ℤ) else l.w.toNat := by
  have hwidth := hfits.width
  unfold toskew
  cases l.flip.vertically with
  | false =>
    simp only [Bool.false_eq_true, if_false, UInt32.sub_self]
    have hzero : (0 : UInt32).toNat = 0 := rfl
    rw [hzero, toSigned_natCast (by decide)]
    omega
  | true =>
    simp only [if_true]
    have htwice : (l.w + l.w).toNat = l.w.toNat + l.w.toNat := by
      rw [UInt32.toNat_add, Nat.mod_eq_of_lt (by omega : l.w.toNat + l.w.toNat < 2 ^ 32)]
    rw [htwice, toSigned_natCast (by omega)]
    omega

/-- What the reads of a band have to leave behind: a buffer of the same size from which the put routine can
take the rows of the band. Only `stops` allows a band to end the loop. -/
def Delivers (l : StripLoop σ) (holds : σ → Prop) (stops : Prop) (scan : Scan) (size : ℕ)
    (right : ℕ → ℕ → Word → Prop) : Prop :=
  ∀ row : UInt32, row.toNat < l.h.toNat → ∀ fr : Frame σ, fr.buf.length = size → holds fr.file →
    ∃ ok buf file, l.readBand row fr = some (ok,buf,file) ∧ buf.length = size ∧ holds file ∧ (ok = false → stops) ∧
      (ok = true → ∀ r < (l.nrow row).toNat, ∀ c < l.w.toNat, ∃ p,
        scan.pixel buf (l.pos row + r * scan.line l.w.toNat l.fromskew) c = some p ∧ right c (row.toNat + r) p)

variable {holds : σ → Prop} {stops : Prop} {scan : Scan} {size : ℕ} {right : ℕ → ℕ → Word → Prop}

/-- From any row on, the loop ends and shows the rows that are left. -/
theorem run_shows (hfits : l.Fits) (hputs : l.put.Puts scan) (hdelivers : l.Delivers holds stops scan size right)
    {turns : ℕ} (row y : UInt32) (fr : Frame σ) (hturns : l.h.toNat - row.toNat < turns) (hrow : row.toNat ≤ l.h.toNat)
    (hy : row.toNat < l.h.toNat → y.toNat = mirror l.flip.vertically l.h.toNat row.toNat)
    (hraster : l.w.toNat * l.h.toNat ≤ fr.raster.length) (hbuf : fr.buf.length = size) (hfile : holds fr.file) :
    ∃ ok fr', l.run turns row y fr = some (ok,fr') ∧ holds fr'.file ∧ (ok = false → stops) ∧
      Within (l.w.toNat * l.h.toNat) fr.raster fr'.raster ∧
      (ok = true → Shows ⟨l.flip.vertically,false⟩ l.w.toNat l.h.toNat right (fun _ y => row.toNat ≤ y)
        fr.raster fr'.raster) := by
  induction turns generalizing row y fr with
  | zero => omega
  | succ turns ih =>
    rw [run]
    by_cases hdone : l.h ≤ row
    · rw [if_pos hdone]
      rw [UInt32.le_iff_toNat_le] at hdone
      exact ⟨true,fr,rfl,hfile,fun h => (Bool.noConfusion h),Within.refl _ _,
        fun _ => Shows.refl fun _ _ _ _ => by omega⟩
    rw [if_neg hdone]
    rw [UInt32.le_iff_toNat_le, not_le] at hdone
    have hstrip : l.d.rowsperstrip ≠ 0 := by
      intro hzero
      have hpos := hfits.band.pos
      rw [hzero] at hpos
      exact absurd hpos (Nat.lt_irrefl 0)
    obtain ⟨ok,buf,file,hband,hbuf₁,hfile₁,hstops,hpixels⟩ := hdelivers row hdone fr hbuf hfile
    rw [if_neg hstrip, hband]
    simp only [Option.bind_eq_bind, Option.bind_some]
    cases ok with
    | false =>
      exact ⟨false,_,rfl,hfile₁,fun _ => hstops rfl,Within.refl _ _,fun h => (Bool.noConfusion h)⟩
    | true =>
      simp only [if_true]
      obtain ⟨hpos,hle,-⟩ := nrow_spec hfits hdone
      obtain ⟨hnext,hline⟩ := next_line hfits hdone (hy hdone)
      have hcp : ((y * l.w).toNat : ℤ) = (mirror l.flip.vertically l.h.toNat row.toNat * l.w.toNat + 0 : ℕ) := by
        rw [line_toNat hfits.cells hdone (hy hdone), Nat.add_zero]
      obtain ⟨raster,hput,hshows⟩ := hputs.shows (k := l.w.toNat) (n := (l.nrow row).toNat) hcp
        (width_add_toskew hfits) hle (Nat.zero_add _).le hraster
        (by simpa only [Nat.zero_add] using hpixels rfl)
      rw [hput]
      simp only [Option.bind_some]
      obtain ⟨ok,fr',hrun,hholds,hstops',hwithin,hrest⟩ := ih (row + l.nrow row) _
        ⟨raster,buf,file⟩ (by omega) (by omega) hline (hshows.length_eq ▸ hraster) hbuf₁ hfile₁
      refine ⟨ok,fr',hrun,hholds,hstops',hshows.within.trans hwithin,?_⟩
      intro hok
      refine (hshows.trans (hrest hok)).congr ?_
      intro x hx y hy
      rw [hnext]
      omega

theorem get_gets (hfits : l.Fits) (hputs : l.put.Puts scan) (hdelivers : l.Delivers holds stops scan size right)
    {turns : ℕ} {buf : List UInt8} {raster : List Word} {file : σ} (hturns : l.h.toNat < turns)
    (hraster : l.w.toNat * l.h.toNat ≤ raster.length) (hbuf : buf.length = size) (hfile : holds file) :
    Gets l.flip l.w.toNat l.h.toNat right holds stops raster (l.get turns buf raster file) := by
  obtain ⟨ok,fr,hrun,hholds,hstops,hwithin,hshows⟩ := run_shows hfits hputs hdelivers 0 _
    ⟨raster,buf,file⟩ (show l.h.toNat - 0 < turns by omega) (Nat.zero_le _) firstLine_toNat hraster hbuf hfile
  rw [get, hrun]
  refine finish_gets hfits.cells hraster hholds hstops hwithin ?_
  intro hok
  exact (hshows hok).congr fun _ _ _ _ => ⟨fun _ => Nat.zero_le _,fun _ => trivial⟩

end StripLoop

end TiffJni.Raster
