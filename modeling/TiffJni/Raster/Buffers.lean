import TiffJni.Raster.GetRoutines

/-! # Buffers of strips and tiles

A buffer holds one plane, or several planes of the same size one behind the other. What the reads of
a band leave in a plane stays there, and the sizes that the library computes, where they are
not zero, are the sizes of the rows that the get routines ask for.
-/
namespace TiffJni.Raster
open FixedWidth

variable {σ : Type}

/-- A read keeps the size of its plane; `post` says what it leaves there. -/
def Reads (size : ℕ) (holds : σ → Prop) (post : UInt16 → Bool → List UInt8 → Prop)
    (read : UInt16 → List UInt8 → σ → Option (Bool × List UInt8 × σ)) : Prop :=
  ∀ sample buf file, buf.length = size → holds file → ∃ ok buf' file', read sample buf file = some (ok,buf',file') ∧
    buf'.length = size ∧ holds file' ∧ post sample ok buf'

def Plane.data (p : Plane) (size : ℕ) (buf : List UInt8) : List UInt8 := (buf.drop p.start).take size

theorem Plane.length_data {p : Plane} {size : ℕ} {buf : List UInt8} (h : p.start + size ≤ buf.length) :
    (p.data size buf).length = size := by
  rw [data, List.length_take, List.length_drop]
  omega

theorem Plane.getElem?_data {p : Plane} {size i : ℕ} {buf : List UInt8} (h : i < size) :
    (p.data size buf)[i]? = buf[p.start + i]? := by
  rw [data, List.getElem?_take_of_lt h, List.getElem?_drop]

/-- Planes of a buffer that do not overlap, in the order of the reads. -/
structure Apart (planes : List Plane) (size total : ℕ) : Prop where
  fits : ∀ p ∈ planes, p.start + size ≤ total
  apart : planes.Pairwise fun p q => p.start + size ≤ q.start

theorem Apart.tail {p : Plane} {planes : List Plane} {size total : ℕ} (h : Apart (p :: planes) size total) :
    Apart planes size total :=
  ⟨fun q hq => h.fits q (List.mem_cons_of_mem p hq),(List.pairwise_cons.mp h.apart).2⟩

/-- Every plane holds what its own read left there, and a failure ends the reads only where it is not
to be passed over. -/
theorem readPlanes_spec (stoponerr : Bool) {size total : ℕ} {holds : σ → Prop} {post : UInt16 → Bool → List UInt8 → Prop}
    {read : UInt16 → List UInt8 → σ → Option (Bool × List UInt8 × σ)} (hreads : Reads size holds post read)
    {planes : List Plane} (hplanes : Apart planes size total) {buf : List UInt8} {file : σ} (hbuf : buf.length = total)
    (hfile : holds file) : ∃ ok buf' file', readPlanes stoponerr size read planes buf file = some (ok,buf',file') ∧
      buf'.length = total ∧ holds file' ∧ (ok = false → stoponerr = true ∧ ∃ p ∈ planes, ∃ data, post p.sample false data) ∧
      (ok = true → ∀ p ∈ planes, ∃ okp, post p.sample okp (p.data size buf')) ∧
      ∀ i, (∀ p ∈ planes, i < p.start) → buf'[i]? = buf[i]? := by
  induction planes generalizing buf file with
  | nil =>
    exact ⟨true,buf,file,rfl,hbuf,hfile,fun h => (Bool.noConfusion h),fun _ p hp => absurd hp List.not_mem_nil,
      fun _ _ => rfl⟩
  | cons p planes ih =>
    have hfit := hplanes.fits p List.mem_cons_self
    obtain ⟨ok,data,file₁,hread,hdata,hfile₁,hpost⟩ := hreads p.sample (p.data size buf) file
      (p.length_data (by omega)) hfile
    rw [Plane.data] at hread
    have hlength : (buf.take p.start ++ data ++ buf.drop (p.start + size)).length = total := by
      rw [List.length_append, List.length_append, List.length_take, List.length_drop, hdata]
      omega
    have hhead : (buf.take p.start).length = p.start := by
      rw [List.length_take]
      omega
    have hleft (i : ℕ) (hi : i < p.start) : (buf.take p.start ++ data ++ buf.drop (p.start + size))[i]? = buf[i]? := by
      rw [List.append_assoc, List.getElem?_append_left (by omega), List.getElem?_take_of_lt hi]
    have hinside : p.data size (buf.take p.start ++ data ++ buf.drop (p.start + size)) = data := by
      rw [Plane.data, List.append_assoc, List.drop_append_of_le_length hhead.ge, List.drop_of_length_le hhead.le,
        List.nil_append, ← hdata, List.take_left]
    simp only [readPlanes, hread, Option.bind_eq_bind, Option.bind_some]
    by_cases hstop : ok = false ∧ stoponerr = true
    · rw [if_pos hstop]
      refine ⟨false,_,file₁,rfl,hlength,hfile₁,fun _ => ⟨hstop.2,p,List.mem_cons_self,data,?_⟩,fun h => (Bool.noConfusion h),?_⟩
      · rw [← hstop.1]
        exact hpost
      · exact fun i hi => hleft i (hi p List.mem_cons_self)
    · rw [if_neg hstop]
      obtain ⟨ok',buf',file',hrest,hbuf',hfile',hfail,hposts,hkept⟩ := ih hplanes.tail hlength hfile₁
      refine ⟨ok',buf',file',hrest,hbuf',hfile',?_,?_,?_⟩
      · intro hok
        obtain ⟨hstop,q,hq,hpost⟩ := hfail hok
        exact ⟨hstop,q,List.mem_cons_of_mem p hq,hpost⟩
      · intro hok q hq
        rcases List.mem_cons.mp hq with rfl | hq
        · refine ⟨ok,?_⟩
          have hsame : q.data size buf' = data := by
            rw [← hinside]
            apply List.ext_getElem?
            intro i
            rcases Nat.lt_or_ge i size with hi | hi
            · rw [Plane.getElem?_data hi, Plane.getElem?_data hi, hkept]
              intro p hp
              have hafter := (List.pairwise_cons.mp hplanes.apart).1 p hp
              omega
            · rw [List.getElem?_eq_none (by rw [Plane.length_data] <;> omega),
                List.getElem?_eq_none (by rw [Plane.length_data] <;> omega)]
          rw [hsame]
          exact hpost
        · exact hposts hok q hq
      · intro i hi
        rw [hkept i fun q hq => hi q (List.mem_cons_of_mem p hq), hleft i (hi p List.mem_cons_self)]

/-- A word that the put routine makes of row `ρ` of the planes. -/
def FromPlanes (scan : Scan) (planes : List Plane) (scanline : ℕ) (data : Plane → List UInt8) (ρ x : ℕ) (p : Word) :
    Prop :=
  ∃ g : ℕ → UInt8, p = scan.word g x ∧
    ∀ q ∈ planes, ∀ i < scanline, g (q.start + i) = (data q).getD (ρ * scanline + i) 0

/-- The put routine finds the pixels of a row in the planes of the buffer. -/
theorem Scan.Walks.pixel_fromPlanes {scan : Scan} {w scanline clip size x : ℕ} {planes : List Plane}
    (hwalks : scan.Walks w scanline (planes.map Plane.start) clip) (buf : List UInt8) (ρ : ℕ)
    (hplanes : ∀ p ∈ planes, p.start + size ≤ buf.length) (hrow : (ρ + 1) * scanline ≤ size) (hx : x < w) :
    ∃ p, scan.pixel buf (ρ * scanline : ℕ) x = some p ∧
      FromPlanes scan planes scanline (fun q => q.data size buf) ρ x p := by
  rw [Nat.succ_mul] at hrow
  refine ⟨_,hwalks.pixel_eq buf (ρ * scanline) x hx ?_,_,rfl,?_⟩
  · intro s hs
    obtain ⟨q,hq,rfl⟩ := List.mem_map.mp hs
    have hfit := hplanes q hq
    omega
  · intro q hq i hi
    rw [List.getD_eq_getElem?_getD, List.getD_eq_getElem?_getD, Plane.getElem?_data (by omega)]
    congr 2
    omega

theorem toTmsize_of_pos {m : DataModel} {size : UInt64} (h : 0 < Directory.toTmsize m size) :
    Directory.toTmsize m size = size.toNat ∧ 2 * size.toNat < 2 ^ m.longBits := by
  unfold Directory.toTmsize at h ⊢
  dsimp only at h ⊢
  split at h
  · rename_i hsame
    rw [if_pos hsame]
    have hbound : m.toLong size.toNat * 2 < (2 ^ m.longBits : ℕ) := by
      have hlt := Int.bmod_lt (x := size.toNat) (m := 2 ^ m.longBits) (Nat.two_pow_pos _)
      have heven : 2 ∣ 2 ^ m.longBits := by cases m <;> decide
      unfold DataModel.toLong toSigned
      omega
    have hword : 2 ^ m.longBits ≤ 2 ^ 64 := by cases m <;> decide
    obtain ⟨n,hn⟩ := Int.eq_ofNat_of_zero_le h.le
    rw [hn] at hsame hbound ⊢
    rw [toUnsigned_of_lt (by omega)] at hsame
    subst hsame
    exact ⟨rfl,by omega⟩
  · exact absurd h (lt_irrefl 0)

theorem toTmsize_of_lt {m : DataModel} {size : UInt64} (h : 2 * size.toNat < 2 ^ m.longBits) :
    Directory.toTmsize m size = size.toNat := by
  have hlt := size.toNat_lt
  have hlong : m.toLong size.toNat = size.toNat := toSigned_natCast h
  unfold Directory.toTmsize
  dsimp only
  rw [hlong, toUnsigned_of_lt hlt, if_pos rfl]

theorem multiply64_ne_zero {first second : UInt64} (h : multiply64 first second ≠ 0) :
    (multiply64 first second).toNat = first.toNat * second.toNat ∧ first ≠ 0 ∧ second ≠ 0 := by
  have hnat : (multiply64 first second).toNat ≠ 0 := fun hzero => h (UInt64.toNat_inj.mp hzero)
  rw [multiply64_toNat] at hnat ⊢
  split at hnat
  · rename_i hfits
    rw [if_pos hfits]
    refine ⟨rfl,?_,?_⟩
    · rintro rfl
      simp at hnat
    · rintro rfl
      simp at hnat
  · exact absurd rfl hnat

/-- Bits to bytes; where the sum overflows there are none. -/
theorem howmany64_eight {x : UInt64} (h : howmany64 x 8 ≠ 0) : (howmany64 x 8).toNat = (x.toNat + 7) / 8 ∧ x ≠ 0 := by
  have hlt := x.toNat_lt
  have height : (8 : UInt64).toNat = 8 := rfl
  have hseven : ((8 : UInt64) - 1).toNat = 7 := rfl
  have hnat : (howmany64 x 8).toNat ≠ 0 := fun hzero => h (UInt64.toNat_inj.mp hzero)
  rw [howmany64, UInt64.toNat_div, UInt64.toNat_add, hseven, height] at hnat ⊢
  refine ⟨by omega,?_⟩
  rintro rfl
  exact hnat rfl

namespace Directory
variable {d : Directory}

/-- The samples of a pixel that a scanline holds. -/
def channels (d : Directory) : ℕ := if d.separate then 1 else d.samplesperpixel.toNat

theorem scanlineSize64_toNat (hplain : d.subsampled = false) (hne : d.scanlineSize64 ≠ 0) :
    d.scanlineSize64.toNat = (d.imagewidth.toNat * d.channels * d.bitspersample.toNat + 7) / 8 := by
  unfold scanlineSize64 at hne ⊢
  unfold channels
  cases hs : d.separate with
  | true =>
    simp only [hs, if_true] at hne ⊢
    obtain ⟨hbytes,hbits⟩ := howmany64_eight hne
    obtain ⟨hproduct,-⟩ := multiply64_ne_zero hbits
    rw [hbytes, hproduct, UInt32.toNat_toUInt64, UInt16.toNat_toUInt64, Nat.mul_one]
  | false =>
    simp only [hs, hplain, Bool.false_eq_true, false_and, if_false] at hne ⊢
    obtain ⟨hbytes,hbits⟩ := howmany64_eight hne
    obtain ⟨hproduct,hsamples,-⟩ := multiply64_ne_zero hbits
    obtain ⟨hcount,-⟩ := multiply64_ne_zero hsamples
    rw [hbytes, hproduct, hcount, UInt32.toNat_toUInt64, UInt16.toNat_toUInt64, UInt16.toNat_toUInt64]

/-- A strip buffer that could be had is a whole number of scanlines, as many as a strip has rows. -/
theorem stripSize_spec {m : DataModel} (hplain : d.subsampled = false) (hpos : 0 < d.stripSize m) :
    ∃ scanline : ℕ, 0 < scanline ∧ scanline = d.scanlineSize64.toNat ∧ d.scanlineSize m = scanline ∧
      d.stripSize m = (min d.rowsperstrip.toNat d.imagelength.toNat * scanline : ℕ) ∧
      2 * (min d.rowsperstrip.toNat d.imagelength.toNat * scanline) < 2 ^ m.longBits ∧ d.scanlineSize64 ≠ 0 := by
  have hrows : d.vStripSize64 (if d.imagelength < d.rowsperstrip then d.imagelength else d.rowsperstrip) =
      multiply64 (if (if d.imagelength < d.rowsperstrip then d.imagelength else d.rowsperstrip) = 0xffffffff then
        d.imagelength else if d.imagelength < d.rowsperstrip then d.imagelength else d.rowsperstrip).toUInt64
        d.scanlineSize64 := by
    simp only [vStripSize64, hplain, Bool.false_eq_true, and_false, if_false]
  have hmin : (if (if d.imagelength < d.rowsperstrip then d.imagelength else d.rowsperstrip) = 0xffffffff then
      d.imagelength else if d.imagelength < d.rowsperstrip then d.imagelength else d.rowsperstrip).toNat =
      min d.rowsperstrip.toNat d.imagelength.toNat := by
    have hword := d.imagelength.toNat_lt
    have hmax : (0xffffffff : UInt32).toNat = 2 ^ 32 - 1 := rfl
    simp only [UInt32.lt_iff_toNat_lt, ← UInt32.toNat_inj, hmax]
    split_ifs <;> omega
  obtain ⟨hsize,hfits⟩ := toTmsize_of_pos hpos
  have hne : d.stripSize64 ≠ 0 := by
    intro hzero
    have hpos' := hpos
    rw [stripSize, hsize, hzero] at hpos'
    exact absurd hpos' (lt_irrefl 0)
  have htotal : d.stripSize64.toNat = min d.rowsperstrip.toNat d.imagelength.toNat * d.scanlineSize64.toNat ∧
      d.scanlineSize64 ≠ 0 := by
    rw [stripSize64, hrows] at hne ⊢
    obtain ⟨hproduct,-,hscanline⟩ := multiply64_ne_zero hne
    rw [hproduct, UInt32.toNat_toUInt64, hmin]
    exact ⟨rfl,hscanline⟩
  have hS : 0 < d.scanlineSize64.toNat := Nat.pos_of_ne_zero fun hzero => htotal.2 (UInt64.toNat_inj.mp hzero)
  rw [htotal.1] at hsize hfits
  rw [stripSize, hsize] at hpos
  have hmul : 0 < min d.rowsperstrip.toNat d.imagelength.toNat * d.scanlineSize64.toNat := by exact_mod_cast hpos
  have hle := Nat.le_mul_of_pos_left d.scanlineSize64.toNat (Nat.pos_of_mul_pos_right hmul)
  exact ⟨_,hS,rfl,toTmsize_of_lt (by omega),hsize,hfits,htotal.2⟩

/-- A strip of fewer rows is a whole number of scanlines too. -/
theorem vStripSize_eq {m : DataModel} (hplain : d.subsampled = false) (hpos : 0 < d.stripSize m) {rows : UInt32}
    (hrows : rows.toNat ≤ min d.rowsperstrip.toNat d.imagelength.toNat) (hheight : d.imagelength.toNat ≤ 2 ^ 31) :
    d.vStripSize m rows = (rows.toNat * (d.scanlineSize m).toNat : ℕ) := by
  obtain ⟨scanline,-,hS,hline,-,hfits,-⟩ := stripSize_spec hplain hpos
  have hle : rows.toNat * scanline ≤ min d.rowsperstrip.toNat d.imagelength.toNat * scanline := Nat.mul_le_mul_right _ hrows
  have hlong : 2 ^ m.longBits ≤ 2 ^ 64 := Nat.pow_le_pow_right (by decide) (by cases m <;> decide)
  have hnot : rows ≠ 0xffffffff := by
    rintro rfl
    have hmax : (0xffffffff : UInt32).toNat = 2 ^ 32 - 1 := rfl
    omega
  have hsize : (d.vStripSize64 rows).toNat = rows.toNat * scanline := by
    simp only [vStripSize64, hplain, Bool.false_eq_true, and_false, if_false, if_neg hnot]
    rw [multiply64_toNat, UInt32.toNat_toUInt64, ← hS, if_pos (by omega)]
  rw [vStripSize, toTmsize_of_lt (by omega), hsize, hline, Int.toNat_natCast]

theorem howmany8_toNat (x : UInt64) : (howmany8 x).toNat = (x.toNat + 7) / 8 := by
  have hlt := x.toNat_lt
  have hshift : (x >>> 3).toNat = x.toNat / 8 := by
    rw [UInt64.toNat_shiftRight]
    exact Nat.shiftRight_eq_div_pow x.toNat 3
  have hand : (x &&& 7).toNat = x.toNat % 8 := by
    rw [UInt64.toNat_and]
    exact Nat.and_two_pow_sub_one_eq_mod x.toNat 3
  have hzero : x &&& 7 = 0 ↔ x.toNat % 8 = 0 := by
    rw [← hand, ← UInt64.toNat_inj]
    rfl
  unfold howmany8
  split
  · rename_i hrest
    rw [ne_eq, hzero] at hrest
    have hone : (1 : UInt64).toNat = 1 := rfl
    rw [UInt64.toNat_add, hshift, hone, Nat.mod_eq_of_lt (by omega : x.toNat / 8 + 1 < 2 ^ 64)]
    omega
  · rename_i hwhole
    rw [ne_eq, not_not, hzero] at hwhole
    rw [hshift]
    omega

theorem howmany8_ne_zero {x : UInt64} (h : howmany8 x ≠ 0) : x ≠ 0 := by
  rintro rfl
  exact h rfl

theorem tileRowSize64_toNat (hne : d.tileRowSize64 ≠ 0) :
    d.tileRowSize64.toNat = (d.tilewidth.toNat * d.channels * d.bitspersample.toNat + 7) / 8 := by
  unfold tileRowSize64 at hne ⊢
  unfold channels
  split at hne
  · exact absurd rfl hne
  · rename_i hsome
    rw [if_neg hsome]
    dsimp only at hne ⊢
    cases hs : d.separate with
    | true =>
      simp only [hs, if_true] at hne ⊢
      obtain ⟨hproduct,-⟩ := multiply64_ne_zero (howmany8_ne_zero hne)
      rw [howmany8_toNat, hproduct, UInt32.toNat_toUInt64, UInt16.toNat_toUInt64, Nat.mul_one, Nat.mul_comm]
    | false =>
      simp only [hs, Bool.false_eq_true, if_false] at hne ⊢
      split at hne
      · exact absurd rfl hne
      · rename_i hsamples
        rw [if_neg hsamples]
        obtain ⟨hproduct,hbits,-⟩ := multiply64_ne_zero (howmany8_ne_zero hne)
        obtain ⟨hproduct',-⟩ := multiply64_ne_zero hbits
        rw [howmany8_toNat, hproduct, hproduct', UInt32.toNat_toUInt64, UInt16.toNat_toUInt64, UInt16.toNat_toUInt64]
        congr 2
        ring

/-- A tile buffer that could be had is a whole number of tile rows, as many as a tile has. -/
theorem tileSize_spec {m : DataModel} (hplain : d.subsampled = false) (hpos : 0 < d.tileSize m) :
    ∃ rowsize : ℕ, 0 < rowsize ∧ rowsize = d.tileRowSize64.toNat ∧ d.tileRowSize m = rowsize ∧
      d.tileSize m = (d.tilelength.toNat * rowsize : ℕ) ∧ 2 * (d.tilelength.toNat * rowsize) < 2 ^ m.longBits ∧
      d.tileRowSize64 ≠ 0 ∧ d.tilewidth ≠ 0 ∧ d.tilelength ≠ 0 := by
  obtain ⟨hsize,hfits⟩ := toTmsize_of_pos hpos
  have hne : d.tileSize64 ≠ 0 := by
    intro hzero
    have hpos' := hpos
    rw [tileSize, hsize, hzero] at hpos'
    exact absurd hpos' (lt_irrefl 0)
  have htotal : d.tileSize64.toNat = d.tilelength.toNat * d.tileRowSize64.toNat ∧ d.tileRowSize64 ≠ 0 ∧
      d.tilewidth ≠ 0 ∧ d.tilelength ≠ 0 := by
    unfold tileSize64 vTileSize64 at hne ⊢
    split at hne
    · exact absurd rfl hne
    · rename_i hsome
      simp only [not_or] at hsome
      simp only [hplain, Bool.false_eq_true, false_and, and_false, if_false, hsome, or_self] at hne ⊢
      obtain ⟨hproduct,-,hrow⟩ := multiply64_ne_zero hne
      rw [hproduct, UInt32.toNat_toUInt64]
      exact ⟨rfl,hrow,hsome.2.1,hsome.1⟩
  have hR : 0 < d.tileRowSize64.toNat := Nat.pos_of_ne_zero fun hzero => htotal.2.1 (UInt64.toNat_inj.mp hzero)
  rw [htotal.1] at hsize hfits
  rw [tileSize, hsize] at hpos
  have hmul : 0 < d.tilelength.toNat * d.tileRowSize64.toNat := by exact_mod_cast hpos
  have hle := Nat.le_mul_of_pos_left d.tileRowSize64.toNat (Nat.pos_of_mul_pos_right hmul)
  exact ⟨_,hR,rfl,toTmsize_of_lt (by omega),hsize,hfits,htotal.2⟩

end Directory

theorem safeMultiply_ne_zero {m : DataModel} {v size : ℤ} (hlt : size.natAbs < 2 ^ m.longBits)
    (h : safeMultiply m v size ≠ 0) : safeMultiply m v size = v * size := by
  unfold safeMultiply at h ⊢
  split at h
  · rename_i hexact
    rw [if_pos hexact]
    obtain ⟨hne,hquotient⟩ := hexact
    have hdivision := Int.mul_tdiv_add_tmod (m.toLong (v * size)) size
    rw [hquotient, Int.mul_comm] at hdivision
    -- the product differs from the exact one by less than what wrapping would change
    have hsmall : ((m.toLong (v * size)).tmod size).natAbs < 2 ^ m.longBits := by
      rw [Int.natAbs_tmod]
      exact (Nat.mod_lt _ (Int.natAbs_pos.mpr hne)).trans hlt
    have hwrap : ((2 ^ m.longBits : ℕ) : ℤ) ∣ (m.toLong (v * size)).tmod size := by
      have hmod : ((2 ^ m.longBits : ℕ) : ℤ) ∣ m.toLong (v * size) - v * size := Int.dvd_bmod_sub_self
      have hdiff : (m.toLong (v * size)).tmod size = m.toLong (v * size) - v * size := by omega
      rw [hdiff]
      exact hmod
    have hzero : (m.toLong (v * size)).tmod size = 0 := by
      by_contra hne
      have hle := Nat.le_of_dvd (Int.natAbs_pos.mpr hne) (Int.natCast_dvd.mp hwrap)
      omega
    omega
  · exact absurd rfl h

theorem toTmsize_natAbs_lt (m : DataModel) (size : UInt64) : (Directory.toTmsize m size).natAbs < 2 ^ m.longBits := by
  have hpos := Nat.two_pow_pos m.longBits
  unfold Directory.toTmsize
  dsimp only
  split
  · have hlt := Int.bmod_lt (x := size.toNat) hpos
    have hge := Int.le_bmod (x := size.toNat) hpos
    unfold DataModel.toLong toSigned
    omega
  · exact hpos

end TiffJni.Raster
