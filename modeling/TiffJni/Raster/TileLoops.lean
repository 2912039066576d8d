import TiffJni.Raster.Bands

/-! # From tile to tile

The loops over the rows of tiles and over the tiles of a row show all of the image that they were
called for. The last tile of a row is clipped, so that a line of the raster is never left. A
failure ends its row of tiles only.
-/
namespace TiffJni.Raster
open FixedWidth

variable {σ : Type}

theorem ofInt_natCast32 (n : ℕ) : UInt32.ofInt n = UInt32.ofNat n := by
  unfold UInt32.ofInt
  apply UInt32.toNat_inj.mp
  rw [UInt32.toNat_ofNat', UInt32.toNat_ofNat']
  have h : (((n : ℤ) % 2 ^ 32).toNat) = n % 2 ^ 32 := by
    have : ((n : ℤ) % 2 ^ 32) = (n % 2 ^ 32 : ℕ) := by push_cast; rfl
    rw [this, Int.toNat_natCast]
  rw [h, Nat.mod_mod]

/-- The skew of a clipped tile is what its clipped width leaves. -/
theorem clip_spec {tilewidth k : UInt32} (hk : k ≤ tilewidth) (hlt : tilewidth.toNat < 2 ^ 31) :
    toSigned 32 ((tilewidth - k).toNat : ℤ) = (tilewidth.toNat - k.toNat : ℕ) ∧
      tilewidth - UInt32.ofInt (tilewidth.toNat - k.toNat : ℕ) = k := by
  have hrest : (tilewidth - k).toNat = tilewidth.toNat - k.toNat := UInt32.toNat_sub_of_le _ _ hk
  refine ⟨?_,?_⟩
  · rw [hrest, toSigned_natCast (by omega)]
  · rw [← hrest, ofInt_natCast32, UInt32.ofNat_toNat]
    have hle : tilewidth - k ≤ tilewidth := by
      rw [UInt32.le_iff_toNat_le, hrest]
      omega
    rw [UInt32.le_iff_toNat_le] at hk
    apply UInt32.toNat_inj.mp
    rw [UInt32.toNat_sub_of_le _ _ hle, hrest]
    omega

namespace TileLoop
variable {l : TileLoop σ}

/-- The sizes for which the arithmetic of the loops does not overflow; the image begins with a whole tile. -/
structure Fits (l : TileLoop σ) : Prop where
  width : l.d.tilewidth.toNat + l.w.toNat < 2 ^ 31
  tile : 0 < l.d.tilewidth.toNat
  aligned : l.img.colOffset % l.d.tilewidth = 0
  column : l.img.colOffset.toNat + l.w.toNat < 2 ^ 32
  cells : l.w.toNat * l.h.toNat < 2 ^ 32
  band : BandFits l.d.tilelength l.img.rowOffset l.h

theorem nrow_spec (hfits : l.Fits) {row : UInt32} (hrow : row.toNat < l.h.toNat) :
    0 < (l.nrow row).toNat ∧ row.toNat + (l.nrow row).toNat ≤ l.h.toNat ∧
      (l.tileRow row).toNat + (l.nrow row).toNat ≤ l.d.tilelength.toNat := bandRows_spec hfits.band hrow

theorem next_line (hfits : l.Fits) {row y : UInt32} (hrow : row.toNat < l.h.toNat)
    (hy : y.toNat = mirror l.flip.vertically l.h.toNat row.toNat) :
    (row + l.nrow row).toNat = row.toNat + (l.nrow row).toNat ∧ ((row + l.nrow row).toNat < l.h.toNat →
      (nextLine l.flip y (l.nrow row)).toNat = mirror l.flip.vertically l.h.toNat (row + l.nrow row).toNat) :=
  nextLine_toNat hfits.band hrow hy

theorem tilewidth_add_toskew (hfits : l.Fits) :
    (l.d.tilewidth.toNat : ℤ) + l.toskew = if l.flip.vertically then -(l.w.toNat : ℤ) else l.w.toNat := by
  have hwidth := hfits.width
  unfold toskew
  cases l.flip.vertically with
  | false =>
    simp only [Bool.false_eq_true, if_false]
    -- the difference may be negative, and is one as an `int32`
    have hdiff : toSigned 32 ((l.d.tilewidth - l.w).toNat : ℤ) = l.d.tilewidth.toNat - l.w.toNat := by
      have hlt := l.w.toNat_lt
      rw [UInt32.toNat_sub, toSigned_32]
      omega
    rw [hdiff]
    omega
  | true =>
    simp only [if_true]
    have hsum : (l.d.tilewidth + l.w).toNat = l.d.tilewidth.toNat + l.w.toNat := by
      rw [UInt32.toNat_add, Nat.mod_eq_of_lt (by omega : l.d.tilewidth.toNat + l.w.toNat < 2 ^ 32)]
    rw [hsum, toSigned_natCast (by omega)]
    omega

/-- What the reads of a tile have to leave behind: a buffer of the same size from which the put routine can
take the part of the tile that is wanted. -/
def Delivers (l : TileLoop σ) (holds : σ → Prop) (stops : Prop) (scan : Scan) (size : ℕ)
    (right : ℕ → ℕ → Word → Prop) : Prop :=
  ∀ row : UInt32, row.toNat < l.h.toNat → ∀ tocol : UInt32, tocol.toNat < l.w.toNat →
    l.d.tilewidth.toNat ∣ tocol.toNat → ∀ fr : Frame σ, fr.buf.length = size → holds fr.file →
    ∃ ok buf file, l.readBand row (l.img.colOffset + tocol) fr = some (ok,buf,file) ∧ buf.length = size ∧ holds file ∧
      (ok = false → stops) ∧
      (ok = true → ∀ k fromskew : ℕ, k + fromskew = l.d.tilewidth.toNat → tocol.toNat + k ≤ l.w.toNat →
        (fromskew = 0 ∨ tocol.toNat + k = l.w.toNat) → ∀ r < (l.nrow row).toNat, ∀ c < k,
        ∃ p, scan.pixel buf (l.pos row 0 + r * scan.line k fromskew) c = some p ∧
          right (tocol.toNat + c) (row.toNat + r) p)

variable {holds : σ → Prop} {stops : Prop} {scan : Scan} {size : ℕ} {right : ℕ → ℕ → Word → Prop}

/-- One turn of the inner loop puts the part of a tile that lies inside the image. -/
theorem columns_step (hfits : l.Fits) (hputs : l.put.Puts scan) {row y : UInt32} (hrow : row.toNat < l.h.toNat)
    (hy : y.toNat = mirror l.flip.vertically l.h.toNat row.toNat) (turns : ℕ) {tocol : UInt32} (hcol : tocol.toNat < l.w.toNat)
    {fr : Frame σ} (hraster : l.w.toNat * l.h.toNat ≤ fr.raster.length) {buf : List UInt8} {file : σ}
    (hband : l.readBand row (l.img.colOffset + tocol) fr = some (true,buf,file))
    (hpixels : ∀ k fromskew : ℕ, k + fromskew = l.d.tilewidth.toNat → tocol.toNat + k ≤ l.w.toNat →
      (fromskew = 0 ∨ tocol.toNat + k = l.w.toNat) → ∀ r < (l.nrow row).toNat, ∀ c < k,
      ∃ p, scan.pixel buf (l.pos row 0 + r * scan.line k fromskew) c = some p ∧ right (tocol.toNat + c) (row.toNat + r) p) :
    ∃ (k : UInt32) (raster : List Word), 0 < k.toNat ∧ tocol.toNat + k.toNat ≤ l.w.toNat ∧
      (tocol.toNat + k.toNat < l.w.toNat → k = l.d.tilewidth) ∧
      l.columns row y (turns + 1) 0 l.d.tilewidth l.toskew tocol (l.img.colOffset + tocol) fr =
        l.columns row y turns 0 l.d.tilewidth l.toskew (tocol + k) (l.img.colOffset + tocol + k) ⟨raster,buf,file⟩ ∧
      Shows ⟨l.flip.vertically,false⟩ l.w.toNat l.h.toNat right (fun x y => (tocol.toNat ≤ x ∧
        x < tocol.toNat + k.toNat) ∧ row.toNat ≤ y ∧ y < row.toNat + (l.nrow row).toNat) fr.raster raster := by
  have hwidth := hfits.width
  have htw := hfits.tile
  obtain ⟨-,hle,-⟩ := nrow_spec hfits hrow
  have hmore : ¬l.w ≤ tocol := by rwa [UInt32.le_iff_toNat_le, not_le]
  have hnext : (tocol + l.d.tilewidth).toNat = tocol.toNat + l.d.tilewidth.toNat := by
    rw [UInt32.toNat_add, Nat.mod_eq_of_lt (by omega : tocol.toNat + l.d.tilewidth.toNat < 2 ^ 32)]
  have hrest : (l.w - tocol).toNat = l.w.toNat - tocol.toNat :=
    UInt32.toNat_sub_of_le _ _ (by rw [UInt32.le_iff_toNat_le]; omega)
  have hcp : ((y * l.w).toNat : ℤ) + tocol.toNat =
      (mirror l.flip.vertically l.h.toNat row.toNat * l.w.toNat + tocol.toNat : ℕ) := by
    rw [line_toNat hfits.cells hrow hy]
    exact (Nat.cast_add _ _).symm
  have hput (k fromskew : ℕ) (hk : k + fromskew = l.d.tilewidth.toNat) (hin : tocol.toNat + k ≤ l.w.toNat)
      (hlast : fromskew = 0 ∨ tocol.toNat + k = l.w.toNat) :
      ∃ raster, l.put ((y * l.w).toNat + tocol.toNat) k (l.nrow row).toNat fromskew (l.toskew + fromskew) buf
        (l.pos row 0) fr.raster = some raster ∧ Shows ⟨l.flip.vertically,false⟩ l.w.toNat l.h.toNat right
          (fun x y => (tocol.toNat ≤ x ∧ x < tocol.toNat + k) ∧ row.toNat ≤ y ∧ y < row.toNat + (l.nrow row).toNat)
          fr.raster raster :=
    hputs.shows hcp (by rw [← tilewidth_add_toskew hfits, ← hk]; push_cast; ring) hle hin hraster
      (hpixels k fromskew hk hin hlast)
  rw [columns, if_neg hmore, hband]
  simp only [Option.bind_eq_bind, Option.bind_some, if_true]
  by_cases hclipped : l.w < tocol + l.d.tilewidth
  · have hlt := hclipped
    rw [UInt32.lt_iff_toNat_lt, hnext] at hlt
    obtain ⟨raster,hraster',hshows⟩ := hput (l.w.toNat - tocol.toNat)
      (l.d.tilewidth.toNat - (l.w.toNat - tocol.toNat)) (by omega) (by omega) (by omega)
    obtain ⟨hskewed,hback⟩ := clip_spec (show l.w - tocol ≤ l.d.tilewidth by rw [UInt32.le_iff_toNat_le]; omega) (by omega)
    rw [hrest] at hskewed hback
    refine ⟨l.w - tocol,raster,by omega,by omega,by omega,?_,by rwa [hrest]⟩
    simp only [hclipped, decide_true, if_true, hskewed, hback, hrest, hraster', Option.bind_some]
  · have hge := hclipped
    rw [UInt32.lt_iff_toNat_lt, hnext, not_lt] at hge
    obtain ⟨raster,hraster',hshows⟩ := hput l.d.tilewidth.toNat 0 rfl hge (Or.inl rfl)
    rw [Nat.cast_zero, add_zero] at hraster'
    refine ⟨l.d.tilewidth,raster,htw,hge,fun _ => rfl,?_,hshows⟩
    simp only [hclipped, decide_false, Bool.false_eq_true, if_false, hraster', Option.bind_some]

/-- From any tile of a row on, the inner loop ends and shows the tiles that are left. -/
theorem columns_shows (hfits : l.Fits) (hputs : l.put.Puts scan) (hdelivers : l.Delivers holds stops scan size right)
    {row y : UInt32} (hrow : row.toNat < l.h.toNat) (hy : y.toNat = mirror l.flip.vertically l.h.toNat row.toNat)
    {turns : ℕ} (tocol : UInt32) (fr : Frame σ) (hturns : l.w.toNat - tocol.toNat < turns)
    (hcol : tocol.toNat ≤ l.w.toNat) (htile : tocol.toNat < l.w.toNat → l.d.tilewidth.toNat ∣ tocol.toNat)
    (hraster : l.w.toNat * l.h.toNat ≤ fr.raster.length) (hbuf : fr.buf.length = size) (hfile : holds fr.file) :
    ∃ ok fr', l.columns row y turns 0 l.d.tilewidth l.toskew tocol (l.img.colOffset + tocol) fr = some (ok,fr') ∧
      fr'.buf.length = size ∧ holds fr'.file ∧ (ok = false → stops) ∧
      Within (l.w.toNat * l.h.toNat) fr.raster fr'.raster ∧
      (ok = true → Shows ⟨l.flip.vertically,false⟩ l.w.toNat l.h.toNat right
        (fun x y => tocol.toNat ≤ x ∧ row.toNat ≤ y ∧ y < row.toNat + (l.nrow row).toNat) fr.raster fr'.raster) := by
  induction turns generalizing tocol fr with
  | zero => omega
  | succ turns ih =>
    by_cases hdone : l.w ≤ tocol
    · rw [columns, if_pos hdone]
      rw [UInt32.le_iff_toNat_le] at hdone
      exact ⟨true,fr,rfl,hbuf,hfile,fun h => (Bool.noConfusion h),Within.refl _ _,
        fun _ => Shows.refl fun _ _ _ _ => by omega⟩
    have hmore := hdone
    rw [UInt32.le_iff_toNat_le, not_le] at hmore
    obtain ⟨ok,buf,file,hband,hbuf₁,hfile₁,hstops,hpixels⟩ := hdelivers row hrow tocol hmore (htile hmore) fr hbuf hfile
    cases ok with
    | false =>
      rw [columns, if_neg hdone, hband]
      exact ⟨false,_,rfl,hbuf₁,hfile₁,fun _ => hstops rfl,Within.refl _ _,fun h => (Bool.noConfusion h)⟩
    | true =>
      have hwidth := hfits.width
      obtain ⟨k,raster,hpos,hin,hnext,hstep,hshows⟩ :=
        columns_step hfits hputs hrow hy turns hmore hraster hband (hpixels rfl)
      have hsum : (tocol + k).toNat = tocol.toNat + k.toNat := by
        rw [UInt32.toNat_add, Nat.mod_eq_of_lt (by omega : tocol.toNat + k.toNat < 2 ^ 32)]
      have haligned : (tocol + k).toNat < l.w.toNat → l.d.tilewidth.toNat ∣ (tocol + k).toNat := by
        rw [hsum]
        intro hlt
        rw [hnext hlt]
        exact Nat.dvd_add (htile hmore) (Nat.dvd_refl _)
      obtain ⟨ok,fr',hcolumns,hbuf',hfile',hstops',hwithin,hrest⟩ := ih (tocol + k) ⟨raster,buf,file⟩ (by omega) (by omega)
        haligned (hshows.length_eq ▸ hraster) hbuf₁ hfile₁
      rw [← UInt32.add_assoc] at hcolumns
      refine ⟨ok,fr',hstep.trans hcolumns,hbuf',hfile',hstops',hshows.within.trans hwithin,?_⟩
      intro hok
      refine (hshows.trans (hrest hok)).congr ?_
      intro x hx y hy
      rw [hsum]
      omega

/-- From any row on, the outer loop ends and shows the rows that are left. -/
theorem rows_shows (hfits : l.Fits) (hputs : l.put.Puts scan) (hdelivers : l.Delivers holds stops scan size right)
    {turns : ℕ} (row y : UInt32) (fr : Frame σ) (hturns : l.w.toNat + (l.h.toNat - row.toNat) < turns)
    (hrow : row.toNat ≤ l.h.toNat)
    (hy : row.toNat < l.h.toNat → y.toNat = mirror l.flip.vertically l.h.toNat row.toNat)
    (hraster : l.w.toNat * l.h.toNat ≤ fr.raster.length) (hbuf : fr.buf.length = size) (hfile : holds fr.file) :
    ∃ ok fr', l.rows turns row y fr = some (ok,fr') ∧ holds fr'.file ∧ (ok = false → stops) ∧
      Within (l.w.toNat * l.h.toNat) fr.raster fr'.raster ∧
      (ok = true → Shows ⟨l.flip.vertically,false⟩ l.w.toNat l.h.toNat right (fun _ y => row.toNat ≤ y)
        fr.raster fr'.raster) := by
  induction turns generalizing row y fr with
  | zero => omega
  | succ turns ih =>
    rw [rows]
    by_cases hdone : l.h ≤ row
    · rw [if_pos hdone]
      rw [UInt32.le_iff_toNat_le] at hdone
      exact ⟨true,fr,rfl,hfile,fun h => (Bool.noConfusion h),Within.refl _ _,
        fun _ => Shows.refl fun _ _ _ _ => by omega⟩
    rw [if_neg hdone]
    rw [UInt32.le_iff_toNat_le, not_le] at hdone
    have hlength : l.d.tilelength ≠ 0 := by
      intro hzero
      have hpos := hfits.band.pos
      rw [hzero] at hpos
      exact absurd hpos (Nat.lt_irrefl 0)
    have hleft : l.leftmostFromskew = 0 := by
      rw [leftmostFromskew, hfits.aligned]
      exact toSigned_natCast (x := 0) (by decide)
    have hwhole : l.leftmostTw = l.d.tilewidth := by
      rw [leftmostTw, hfits.aligned]
      exact UInt32.sub_zero _
    obtain ⟨hpos,hle,-⟩ := nrow_spec hfits hdone
    obtain ⟨hnext,hline⟩ := next_line hfits hdone (hy hdone)
    obtain ⟨ok,fr₁,hcolumns,hbuf₁,hfile₁,hstops,hwithin,hshows⟩ := columns_shows hfits hputs hdelivers hdone (hy hdone)
      0 fr (show l.w.toNat - 0 < turns by omega) (Nat.zero_le _)
      (fun _ => Nat.dvd_zero _) hraster hbuf hfile
    obtain ⟨ret,fr₂,hrows,hfile₂,hstops',hwithin',hrest⟩ := ih (row + l.nrow row) _ fr₁
      (by omega) (by omega) hline (hwithin.length_eq ▸ hraster) hbuf₁ hfile₁
    rw [UInt32.add_zero] at hcolumns
    rw [if_neg hlength, hleft, hwhole, add_zero, hcolumns]
    simp only [Option.bind_eq_bind, Option.bind_some, hrows]
    refine ⟨ok && ret,fr₂,rfl,hfile₂,?_,hwithin.trans hwithin',?_⟩
    · intro hfail
      rcases Bool.and_eq_false_iff.mp hfail with hfail | hfail
      · exact hstops hfail
      · exact hstops' hfail
    · intro hok
      obtain ⟨hok,hret⟩ := Bool.and_eq_true_iff.mp hok
      refine ((hshows hok).trans (hrest hret)).congr ?_
      intro x hx y hy
      have hzero : (0 : UInt32).toNat = 0 := rfl
      omega

theorem get_gets (hfits : l.Fits) (hputs : l.put.Puts scan) (hdelivers : l.Delivers holds stops scan size right)
    {turns : ℕ} {buf : List UInt8} {raster : List Word} {file : σ} (hturns : l.w.toNat + l.h.toNat < turns)
    (hraster : l.w.toNat * l.h.toNat ≤ raster.length) (hbuf : buf.length = size) (hfile : holds file) :
    Gets l.flip l.w.toNat l.h.toNat right holds stops raster (l.get turns buf raster file) := by
  have htile : l.d.tilewidth ≠ 0 := by
    intro hzero
    have hpos := hfits.tile
    rw [hzero] at hpos
    exact absurd hpos (Nat.lt_irrefl 0)
  obtain ⟨ok,fr,hrows,hholds,hstops,hwithin,hshows⟩ := rows_shows hfits hputs
    hdelivers 0 _ ⟨raster,buf,file⟩ (show l.w.toNat + (l.h.toNat - 0) < turns by omega) (Nat.zero_le _) firstLine_toNat hraster hbuf hfile
  rw [get, if_neg htile, hrows]
  refine finish_gets hfits.cells hraster hholds hstops hwithin ?_
  intro hok
  exact (hshows hok).congr fun _ _ _ _ => ⟨fun _ => Nat.zero_le _,fun _ => trivial⟩

end TileLoop

end TiffJni.Raster
