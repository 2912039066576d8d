import TiffJni.Raster.Buffers
import TiffJni.Raster.TileLoops

/-! # Images in tiles

What the loops over the tiles have to deliver follows from what a read leaves in a plane, because the
rows of a band lie inside the tiles that are read for it.
-/
namespace TiffJni.Raster
open FixedWidth

variable {σ : Type}

namespace TileLoop
variable {l : TileLoop σ}

/-- Buffers of the sizes that the library computes. -/
structure Whole (l : TileLoop σ) (rowsize : ℕ) : Prop where
  rowsize_eq : l.d.tileRowSize l.m = rowsize
  tile_eq : l.d.tileSize l.m = (l.d.tilelength.toNat * rowsize : ℕ)
  tile_lt : 2 * (l.d.tilelength.toNat * rowsize) < 2 ^ l.m.longBits

theorem Whole.pos_eq {rowsize : ℕ} (hwhole : l.Whole rowsize) (hfits : l.Fits) {row : UInt32}
    (hrow : row.toNat < l.h.toNat) : l.pos row 0 = ((l.tileRow row).toNat * rowsize : ℕ) := by
  have hlt := hwhole.tile_lt
  obtain ⟨-,-,hrest⟩ := nrow_spec hfits hrow
  have hle : (l.tileRow row).toNat * rowsize ≤ l.d.tilelength.toNat * rowsize := Nat.mul_le_mul_right rowsize (by omega)
  rw [pos, hwhole.rowsize_eq, zero_mul, add_zero, ← Nat.cast_mul]
  exact toSigned_natCast (by omega)

/-- A pixel of a tile is made of what the reads of the tile left behind; only an image that is no whole number of
tiles wide needs the put routine to find the lines of a clipped tile. -/
theorem Whole.delivers {rowsize total : ℕ} (hwhole : l.Whole rowsize) (hfits : l.Fits) {scan : Scan} {clip : ℕ}
    (hclip : l.d.tilewidth.toNat ∣ l.w.toNat ∨ l.d.tilewidth.toNat ≤ clip)
    (hwalks : scan.Walks l.d.tilewidth.toNat rowsize (l.planes.map Plane.start) clip)
    {holds : σ → Prop} (post : UInt32 → UInt32 → UInt16 → Bool → List UInt8 → Prop) {right : ℕ → ℕ → Word → Prop}
    {stops : Prop}
    (hplanes : Apart l.planes (l.d.tilelength.toNat * rowsize) total)
    (hreads : ∀ row : UInt32, row.toNat < l.h.toNat → ∀ tocol : UInt32, tocol.toNat < l.w.toNat →
      l.d.tilewidth.toNat ∣ tocol.toNat → Reads (l.d.tilelength.toNat * rowsize) holds (post row tocol) fun sample =>
        readTile l.d l.read (l.img.colOffset + tocol) (row + l.img.rowOffset) 0 sample)
    (hstops : l.img.stoponerr = true → ∀ row : UInt32, row.toNat < l.h.toNat → ∀ tocol : UInt32,
      tocol.toNat < l.w.toNat → ∀ q ∈ l.planes, ∀ data, post row tocol q.sample false data → stops)
    (hright : ∀ row : UInt32, row.toNat < l.h.toNat → ∀ tocol : UInt32, l.d.tilewidth.toNat ∣ tocol.toNat →
      ∀ r < (l.nrow row).toNat, ∀ c < l.d.tilewidth.toNat, tocol.toNat + c < l.w.toNat → ∀ data p,
      (∀ q ∈ l.planes, ∃ ok, post row tocol q.sample ok (data q)) →
      FromPlanes scan l.planes rowsize data ((l.tileRow row).toNat + r) c p → right (tocol.toNat + c) (row.toNat + r) p) :
    l.Delivers holds stops scan total right := by
  intro row hrow tocol hcol hdvd fr hbuf hfile
  obtain ⟨ok,buf,file,hread,hbuf',hfile',hfail,hposts,-⟩ := readPlanes_spec l.img.stoponerr
    (hreads row hrow tocol hcol hdvd) hplanes hbuf hfile
  have hsize : (l.d.tileSize l.m).toNat = l.d.tilelength.toNat * rowsize := by
    rw [hwhole.tile_eq, Int.toNat_natCast]
  refine ⟨ok,buf,file,?_,hbuf',hfile',?_,?_⟩
  · rw [readBand, hsize]
    exact hread
  · intro hok
    obtain ⟨hstop,q,hq,data,hpost⟩ := hfail hok
    exact hstops hstop row hrow tocol hcol q hq data hpost
  intro hok k fromskew hk hin hlast r hr c hc
  obtain ⟨-,-,hrest⟩ := nrow_spec hfits hrow
  have hskew : fromskew ≤ clip := by
    rcases hclip with hwhole | hclip
    · rcases hlast with rfl | hlast
      · exact Nat.zero_le clip
      -- the last tile of a row is a whole one
      have hk' : l.d.tilewidth.toNat ∣ k := (Nat.dvd_add_right hdvd).mp (hlast ▸ hwhole)
      have hle := Nat.le_of_dvd (by omega) hk'
      omega
    · omega
  have hat : l.pos row 0 + r * scan.line k fromskew = (((l.tileRow row).toNat + r) * rowsize : ℕ) := by
    rw [hwhole.pos_eq hfits hrow, hwalks.line_eq k fromskew hk hskew]
    push_cast
    ring
  obtain ⟨p,hp,hfrom⟩ := hwalks.pixel_fromPlanes buf ((l.tileRow row).toNat + r)
    (fun q hq => hbuf'.symm ▸ hplanes.fits q hq) (Nat.mul_le_mul_right rowsize (by omega)) (show c < _ by omega)
  refine ⟨p,?_,hright row hrow tocol hdvd r hr c (by omega) (by omega) _ p (hposts hok) hfrom⟩
  rw [hat]
  exact hp

end TileLoop

end TiffJni.Raster
