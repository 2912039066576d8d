import TiffJni.Raster.Planes

/-! # Before the first read

All four get routines ask for a buffer first. Where it can be had there is room in it for every plane, and where not
they leave the raster and the file alone.
-/
namespace TiffJni.Raster
open FixedWidth

variable {σ : Type}

/-- The size of a strip or tile. -/
def Directory.partSize (d : Directory) (m : DataModel) (tiled : Bool) : ℤ := if tiled then d.tileSize m else d.stripSize m

namespace Put

def bufSize (m : DataModel) (img : RGBAImage) (size : ℤ) : Put → ℤ
  | .contig _ => size
  | .separate _ => separateSize m img size

def nrowsub (d : Directory) : Put → UInt32 → UInt32
  | .contig _ => roundUp d.ycbcrsubsampling.2.toUInt32
  | .separate _ => id

end Put

section ready
variable {m : DataModel} {d : Directory} {img : RGBAImage} {read : ReadEncoded σ} {room : ℤ → Bool} {turns : ℕ}
variable {tiled : Bool} {put : Put} {raster : List Word} {w h : UInt32} {file : σ}

/-- What a get routine needs before its first read. -/
structure Ready (m : DataModel) (d : Directory) (img : RGBAImage) (room : ℤ → Bool) (tiled : Bool) (put : Put) : Prop where
  rows : tiled = false → ∀ routine, put = .contig routine → d.ycbcrsubsampling.2.toUInt32 ≠ 0
  size : put.bufSize m img (d.partSize m tiled) ≠ 0
  room : room (put.bufSize m img (d.partSize m tiled)) = true

/-- The loop that a get routine is. -/
def getLoop (m : DataModel) (d : Directory) (img : RGBAImage) (read : ReadEncoded σ) (turns : ℕ) (tiled : Bool) (put : Put)
    (raster : List Word) (w h : UInt32) (file : σ) : Option (Bool × List Word × σ) :=
  let size := (d.partSize m tiled).toNat
  let buf := List.replicate (put.bufSize m img (d.partSize m tiled)).toNat 0
  if tiled then TileLoop.get ⟨m,d,img,put.routine img size,read,put.planes img size,w,h⟩ turns buf raster file
  else StripLoop.get ⟨m,d,img,put.routine img size,read,put.planes img size,put.nrowsub d,w,h⟩ turns buf raster file

theorem allocate_eq (room : ℤ → Bool) (size : ℤ) : allocate room size =
    if size ≠ 0 ∧ room size = true then some (List.replicate size.toNat 0) else none := rfl

theorem rgbaImageGet_ready (h₀ : Ready m d img room tiled put) :
    rgbaImageGet m d img read room turns tiled put raster w h file =
      getLoop m d img read turns tiled put raster w h file := by
  obtain ⟨hrows,hsize,hroom⟩ := h₀
  have hbuf := allocate_eq room (put.bufSize m img (d.partSize m tiled))
  rw [if_pos ⟨hsize,hroom⟩] at hbuf
  cases put with
  | contig put =>
    cases tiled with
    | false =>
      have hver := hrows rfl put rfl
      simp only [Directory.partSize, Put.bufSize, Bool.false_eq_true, if_false] at hbuf
      simp only [rgbaImageGet, gtStripContig, hver, hbuf, Bool.false_eq_true, if_false]
      rfl
    | true =>
      simp only [Directory.partSize, Put.bufSize, if_true] at hbuf
      simp only [rgbaImageGet, gtTileContig, hbuf, if_true]
      rfl
  | separate put =>
    cases tiled with
    | false =>
      simp only [Directory.partSize, Put.bufSize, Bool.false_eq_true, if_false] at hbuf hsize
      simp only [rgbaImageGet, gtStripSeparate, hsize, hbuf, Bool.false_eq_true, if_false]
      rfl
    | true =>
      simp only [Directory.partSize, Put.bufSize, if_true] at hbuf hsize
      simp only [rgbaImageGet, gtTileSeparate, hsize, hbuf, if_true, if_false]
      rfl

/-- Without it the raster and the file are left alone. -/
theorem rgbaImageGet_not_ready (h₀ : ¬Ready m d img room tiled put) :
    rgbaImageGet m d img read room turns tiled put raster w h file = some (false,raster,file) := by
  have hbuf (hrows : tiled = false → ∀ routine, put = .contig routine → d.ycbcrsubsampling.2.toUInt32 ≠ 0) :
      allocate room (put.bufSize m img (d.partSize m tiled)) = none := by
    rw [allocate_eq, if_neg]
    rintro ⟨hsize,hroom⟩
    exact h₀ ⟨hrows,hsize,hroom⟩
  cases put with
  | contig put =>
    cases tiled with
    | false =>
      simp only [rgbaImageGet, gtStripContig, Bool.false_eq_true, if_false]
      split
      · rfl
      · rename_i hver
        have hnone := hbuf fun _ _ _ => hver
        simp only [Directory.partSize, Put.bufSize, Bool.false_eq_true, if_false] at hnone
        rw [hnone]
    | true =>
      have hnone := hbuf (fun h => Bool.noConfusion h)
      simp only [Directory.partSize, Put.bufSize, if_true] at hnone
      simp only [rgbaImageGet, gtTileContig, hnone, if_true]
  | separate put =>
    have hnone := hbuf (fun _ _ h => Put.noConfusion h)
    cases tiled with
    | false =>
      simp only [Directory.partSize, Put.bufSize, Bool.false_eq_true, if_false] at hnone
      simp only [rgbaImageGet, gtStripSeparate, hnone, Bool.false_eq_true, if_false]
      split <;> rfl
    | true =>
      simp only [Directory.partSize, Put.bufSize, if_true] at hnone
      simp only [rgbaImageGet, gtTileSeparate, hnone, if_true]
      split <;> rfl

/-- A buffer that could be had has room for every plane. -/
theorem Ready.size_eq (h₀ : Ready m d img room tiled put) (hroom : ∀ n, room n = true → 0 ≤ n) :
    0 < d.partSize m tiled ∧ put.bufSize m img (d.partSize m tiled) = put.count img * d.partSize m tiled := by
  have hpos : 0 < put.bufSize m img (d.partSize m tiled) := lt_of_le_of_ne (hroom _ h₀.room) (Ne.symm h₀.size)
  cases put with
  | contig put =>
    refine ⟨hpos,?_⟩
    simp only [Put.bufSize, Put.count, Nat.cast_one, one_mul]
  | separate put =>
    simp only [Put.bufSize, separateSize] at hpos ⊢
    have hlt : (d.partSize m tiled).natAbs < 2 ^ m.longBits := by
      unfold Directory.partSize
      split
      · exact toTmsize_natAbs_lt m _
      · exact toTmsize_natAbs_lt m _
    have hexact := safeMultiply_ne_zero hlt hpos.ne'
    rw [hexact] at hpos ⊢
    by_cases halpha : img.alpha = 0
    · rw [if_neg (not_not.mpr halpha)] at hpos ⊢
      simp only [Put.count, if_pos halpha, Nat.cast_ofNat, and_true]
      omega
    · rw [if_pos halpha] at hpos ⊢
      simp only [Put.count, if_neg halpha, Nat.cast_ofNat, and_true]
      omega

theorem planes_apart (put : Put) (img : RGBAImage) (size : ℕ) : Apart (put.planes img size) size (put.count img * size) := by
  cases put with
  | contig put =>
    rw [Put.count, Nat.one_mul]
    refine ⟨?_,List.pairwise_singleton _ _⟩
    intro p hp
    rw [List.mem_singleton.mp hp]
    exact (Nat.zero_add size).le
  | separate put => exact separatePlanes_apart img size

end ready

end TiffJni.Raster
