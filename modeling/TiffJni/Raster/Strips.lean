import TiffJni.Raster.Buffers
import TiffJni.Raster.StripLoops

/-! # Images in strips

What the loop over the strips has to deliver follows from what a read leaves in a plane, because the
rows of a band lie inside the strip that is read for it.
-/
namespace TiffJni.Raster
open FixedWidth

variable {σ : Type}

namespace StripLoop
variable {l : StripLoop σ}

/-- Whole rows of the image, in buffers of the sizes that the library computes. -/
structure Whole (l : StripLoop σ) (scanline : ℕ) : Prop where
  width_eq : l.img.width = l.w
  col_eq : l.img.colOffset = 0
  rows_le : l.h.toNat + l.img.rowOffset.toNat ≤ l.d.imagelength.toNat
  scanline_eq : l.d.scanlineSize l.m = scanline
  strip_eq : l.d.stripSize l.m = (min l.d.rowsperstrip.toNat l.d.imagelength.toNat * scanline : ℕ)
  strip_lt : 2 * (min l.d.rowsperstrip.toNat l.d.imagelength.toNat * scanline) < 2 ^ l.m.longBits

theorem Whole.band_le {scanline : ℕ} (hwhole : l.Whole scanline) (hfits : l.Fits) {row : UInt32}
    (hrow : row.toNat < l.h.toNat) : (l.stripRow row).toNat + (l.nrow row).toNat ≤
      min l.d.rowsperstrip.toNat l.d.imagelength.toNat := by
  have hrows := hwhole.rows_le
  have hstrip : (l.stripRow row).toNat = (row.toNat + l.img.rowOffset.toNat) % l.d.rowsperstrip.toNat :=
    bandRow_toNat hfits.band hrow
  have hmod := Nat.mod_le (row.toNat + l.img.rowOffset.toNat) l.d.rowsperstrip.toNat
  obtain ⟨-,hle,hrest⟩ := nrow_spec hfits hrow
  omega

theorem Whole.pos_eq {scanline : ℕ} (hwhole : l.Whole scanline) (hfits : l.Fits) {row : UInt32}
    (hrow : row.toNat < l.h.toNat) : l.pos row = ((l.stripRow row).toNat * scanline : ℕ) := by
  have hband := hwhole.band_le hfits hrow
  have hlt := hwhole.strip_lt
  have hle : (l.stripRow row).toNat * scanline ≤ min l.d.rowsperstrip.toNat l.d.imagelength.toNat * scanline :=
    Nat.mul_le_mul_right scanline (by omega)
  have hzero : toSigned 32 ((0 : UInt32).toNat : ℤ) = 0 := toSigned_natCast (x := 0) (by decide)
  rw [pos, hwhole.scanline_eq, hwhole.col_eq, hzero, zero_mul, add_zero, ← Nat.cast_mul]
  exact toSigned_natCast (by omega)

theorem Whole.fromskew_eq {scanline : ℕ} (hwhole : l.Whole scanline) : l.fromskew = 0 := by
  rw [fromskew, hwhole.width_eq, if_neg (by rw [UInt32.lt_iff_toNat_lt]; exact lt_irrefl _)]
  exact toSigned_natCast (x := 0) (by decide)

/-- A pixel of a band is made of what the reads of the band left behind. -/
theorem Whole.delivers {scanline total : ℕ} (hwhole : l.Whole scanline) (hfits : l.Fits) {scan : Scan} {clip : ℕ}
    (hwalks : scan.Walks l.w.toNat scanline (l.planes.map Plane.start) clip) {holds : σ → Prop}
    (post : UInt32 → UInt16 → Bool → List UInt8 → Prop) {right : ℕ → ℕ → Word → Prop} {stops : Prop}
    (hplanes : Apart l.planes (min l.d.rowsperstrip.toNat l.d.imagelength.toNat * scanline) total)
    (hreads : ∀ row : UInt32, row.toNat < l.h.toNat →
      Reads (min l.d.rowsperstrip.toNat l.d.imagelength.toNat * scanline) holds (post row) fun sample =>
        l.read (l.d.computeStrip (row + l.img.rowOffset) sample) (l.size row))
    (hstops : l.img.stoponerr = true → ∀ row : UInt32, row.toNat < l.h.toNat → ∀ q ∈ l.planes, ∀ data,
      post row q.sample false data → stops)
    (hright : ∀ row : UInt32, row.toNat < l.h.toNat → ∀ r < (l.nrow row).toNat, ∀ c < l.w.toNat, ∀ data p,
      (∀ q ∈ l.planes, ∃ ok, post row q.sample ok (data q)) →
      FromPlanes scan l.planes scanline data ((l.stripRow row).toNat + r) c p → right c (row.toNat + r) p) :
    l.Delivers holds stops scan total right := by
  intro row hrow fr hbuf hfile
  obtain ⟨ok,buf,file,hread,hbuf',hfile',hfail,hposts,-⟩ := readPlanes_spec l.img.stoponerr
    (hreads row hrow) hplanes hbuf hfile
  have hsize : (l.d.stripSize l.m).toNat = min l.d.rowsperstrip.toNat l.d.imagelength.toNat * scanline := by
    rw [hwhole.strip_eq, Int.toNat_natCast]
  refine ⟨ok,buf,file,?_,hbuf',hfile',?_,?_⟩
  · rw [readBand, hsize]
    exact hread
  · intro hok
    obtain ⟨hstop,q,hq,data,hpost⟩ := hfail hok
    exact hstops hstop row hrow q hq data hpost
  intro hok r hr c hc
  have hband := hwhole.band_le hfits hrow
  have hat : l.pos row + r * scan.line l.w.toNat l.fromskew = (((l.stripRow row).toNat + r) * scanline : ℕ) := by
    have hline := hwalks.line_eq l.w.toNat 0 rfl (Nat.zero_le clip)
    rw [Nat.cast_zero] at hline
    rw [hwhole.pos_eq hfits hrow, hwhole.fromskew_eq, hline]
    push_cast
    ring
  obtain ⟨p,hp,hfrom⟩ := hwalks.pixel_fromPlanes buf ((l.stripRow row).toNat + r)
    (fun q hq => hbuf'.symm ▸ hplanes.fits q hq) (Nat.mul_le_mul_right scanline (by omega)) hc
  refine ⟨p,?_,hright row hrow r hr c hc _ p (hposts hok) hfrom⟩
  rw [hat]
  exact hp

end StripLoop

end TiffJni.Raster
