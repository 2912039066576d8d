import TiffJni.Raster.Contents
import TiffJni.Reading.Served

/-! # The parts of a stored image

An image is stored in a content if the raw data of every strip or tile lies inside the content and stands for
enough bytes. Then the reads of its strips and tiles give what they hold; the last strip of a
plane may be shorter than the others.
-/
namespace TiffJni.Reading
open FixedWidth Raster TiffJni.Stream Transcript

variable {ε τ : Type}

theorem swabArrayOfShort_length : (wp : List UInt8) → (swabArrayOfShort wp).length = wp.length
  | a :: b :: wp => by
    rw [swabArrayOfShort, List.length_cons, List.length_cons, swabArrayOfShort_length wp, List.length_cons, List.length_cons]
  | [a] => rfl
  | [] => rfl

/-- Whole samples are swapped one by one. -/
theorem swabArrayOfShort_take : (wp : List UInt8) → (n : ℕ) →
    swabArrayOfShort (wp.take (2 * n)) = (swabArrayOfShort wp).take (2 * n)
  | wp,0 => rfl
  | a :: b :: wp,n + 1 => by
    rw [show 2 * (n + 1) = 2 * n + 1 + 1 from rfl, List.take_succ_cons, List.take_succ_cons, swabArrayOfShort,
      swabArrayOfShort, List.take_succ_cons, List.take_succ_cons, swabArrayOfShort_take wp n]
  | [a],n + 1 => rfl
  | [],n + 1 => rfl

namespace Source
variable {s : Source ε τ} {c : List UInt8} {at_ : ℕ → τ → Prop}

/-- Decoded bytes as samples in the order of the machine. -/
def samples (s : Source ε τ) (bytes : List UInt8) : List UInt8 := if s.swab then swabArrayOfShort bytes else bytes

theorem samples_length (bytes : List UInt8) : (s.samples bytes).length = bytes.length := by
  unfold samples
  split
  · exact swabArrayOfShort_length bytes
  · rfl

theorem samples_take (bytes : List UInt8) {k : ℕ} (heven : s.swab = true → k % 2 = 0) :
    s.samples (bytes.take k) = (s.samples bytes).take k := by
  unfold samples
  split
  · rename_i hswab
    rw [← Nat.mul_div_cancel' (Nat.dvd_of_mod_eq_zero (heven hswab))]
    exact swabArrayOfShort_take bytes (k / 2)
  · rfl

theorem decode_spec {raw bytes buf : List UInt8} (hdecodes : Decodes s.decoder raw bytes) (behind : List UInt8) {cc : ℕ}
    (hcc : cc ≤ bytes.length) (hbuf : cc ≤ buf.length) (heven : s.swab = true → cc % 2 = 0) (client : τ) :
    s.decode raw.length cc buf ⟨raw ++ behind,client⟩ =
      some (true,(s.samples bytes).take cc ++ buf.drop cc,⟨raw ++ behind,client⟩) := by
  have hlength : (bytes.take cc).length = cc := List.length_take_of_le hcc
  rw [decode, hdecodes behind cc hcc, Option.bind_eq_bind, Option.bind_some]
  dsimp only
  rw [hlength, if_neg (by omega), if_pos rfl, ← samples_take bytes heven, postdecode, samples]
  split
  · rename_i hswab
    have hwhole : (cc : ℤ) % 2 = 0 := by
      have := heven hswab
      omega
    rw [if_pos hwhole, Int.toNat_natCast, List.take_left' hlength, List.drop_left' hlength]
    rfl
  · rfl

/-- The last strip of a plane has the rows that are left. -/
theorem stripRows_spec {d₀ : Directory} (hsetup : d₀.setup false = some s.d) (hpos : 0 < s.d.imagelength.toNat)
    (hheight : s.d.imagelength.toNat ≤ 2 ^ 31) (strip : UInt32) : ∃ rows, s.stripRows strip = some rows ∧ 0 < rows.toNat ∧ rows.toNat =
      min (min s.d.rowsperstrip.toNat s.d.imagelength.toNat) (s.d.imagelength.toNat -
        strip.toNat % s.d.stripsPerPlane.toNat * min s.d.rowsperstrip.toNat s.d.imagelength.toNat) := by
  obtain ⟨hne,-,-⟩ := Directory.nstrips_spec hsetup
  have hrps := Directory.rowsperstrip_pos hsetup
  have hcount := Directory.stripsPerPlane_toNat hne hpos
  obtain ⟨rowsperstrip,hrowsperstrip⟩ : ∃ rowsperstrip : UInt32, rowsperstrip =
      if s.d.imagelength < s.d.rowsperstrip then s.d.imagelength else s.d.rowsperstrip := ⟨_,rfl⟩
  have hr : rowsperstrip.toNat = min s.d.rowsperstrip.toNat s.d.imagelength.toNat := by
    rw [hrowsperstrip]
    split
    · rename_i hlt
      rw [UInt32.lt_iff_toNat_lt] at hlt
      omega
    · rename_i hnot
      rw [UInt32.lt_iff_toNat_lt] at hnot
      omega
  rw [← hr] at hcount ⊢
  have hrpos : 0 < rowsperstrip.toNat := by omega
  have hone : (1 : UInt32).toNat = 1 := rfl
  have hplane : (s.d.imagelength + rowsperstrip - 1) / rowsperstrip = s.d.stripsPerPlane := by
    apply UInt32.toNat_inj.mp
    have hsum : (s.d.imagelength + rowsperstrip - 1).toNat = s.d.imagelength.toNat + rowsperstrip.toNat - 1 := by
      rw [UInt32.toNat_sub, UInt32.toNat_add, hone]
      omega
    rw [UInt32.toNat_div, hsum, hcount]
  have hbegin : strip.toNat % s.d.stripsPerPlane.toNat * rowsperstrip.toNat < s.d.imagelength.toNat := by
    refine mul_lt_of_lt_ceil hrpos ?_
    rw [← hcount]
    exact Nat.mod_lt _ (Nat.pos_iff_ne_zero.mpr fun hzero => hne (UInt32.toNat_inj.mp hzero))
  have hword := s.d.imagelength.toNat_lt
  have hskipped : (strip % s.d.stripsPerPlane * rowsperstrip).toNat =
      strip.toNat % s.d.stripsPerPlane.toNat * rowsperstrip.toNat := by
    rw [UInt32.toNat_mul, UInt32.toNat_mod, Nat.mod_eq_of_lt (by omega)]
  have hleft : (s.d.imagelength - strip % s.d.stripsPerPlane * rowsperstrip).toNat =
      s.d.imagelength.toNat - strip.toNat % s.d.stripsPerPlane.toNat * rowsperstrip.toNat := by
    rw [UInt32.toNat_sub_of_le _ _ (by rw [UInt32.le_iff_toNat_le, hskipped]; exact hbegin.le), hskipped]
  have hzero : rowsperstrip ≠ 0 := fun hzero => absurd hrpos (by rw [hzero]; exact Nat.lt_irrefl 0)
  have hrows : (if rowsperstrip < s.d.imagelength - strip % s.d.stripsPerPlane * rowsperstrip then rowsperstrip else
      s.d.imagelength - strip % s.d.stripsPerPlane * rowsperstrip).toNat = min rowsperstrip.toNat
        (s.d.imagelength.toNat - strip.toNat % s.d.stripsPerPlane.toNat * rowsperstrip.toNat) := by
    split
    · rename_i hlt
      rw [UInt32.lt_iff_toNat_lt, hleft] at hlt
      omega
    · rename_i hnot
      rw [UInt32.lt_iff_toNat_lt, hleft] at hnot
      rw [hleft]
      omega
  rw [stripRows, ← hrowsperstrip, if_neg hzero, hplane, if_neg hne]
  exact ⟨_,rfl,by rw [hrows]; omega,hrows⟩

/-- The bytes of a strip or tile; only tiles are all of one size. -/
def partBytes (s : Source ε τ) (tiled : Bool) (number : UInt32) : ℕ :=
  (if tiled then s.d.tileSize s.m else s.d.vStripSize s.m ((s.stripRows number).getD 0)).toNat

/-- What the strips and tiles hold if their data stands for `bytes`. -/
def contents (s : Source ε τ) (tiled : Bool) (bytes : UInt32 → List UInt8) (number : UInt32) : List UInt8 :=
  s.samples ((bytes number).take (s.partBytes tiled number))

/-- The image is stored in the content: the data of every strip or tile stands for enough bytes. -/
structure Holds (s : Source ε τ) (c : List UInt8) (tiled : Bool) (bytes : UInt32 → List UInt8) : Prop where
  stored : ∀ number < s.d.nstrips, ∃ offset bytecount, s.Stored c number offset bytecount ∧
    Decodes s.decoder (s.raw c offset bytecount) (bytes number)
  enough : ∀ number < s.d.nstrips, s.partBytes tiled number ≤ (bytes number).length
  /-- A length that stands for that of the image is refused by `TIFFStartTile`. -/
  extent : tiled = true → s.d.tilelength ≠ 0xffffffff

section given
variable {tiled : Bool} {bytes : UInt32 → List UInt8} {d₀ : Directory} {t : Tags}

theorem shorts_even (n : ℕ) : (n * 16 + 7) / 8 % 2 = 0 := by omega

theorem lineSize_even (h : Layout s.d t tiled) (hpos : 0 < s.d.partSize s.m tiled) (hswab : s.swab = true) :
    s.d.lineSize s.m tiled % 2 = 0 := by
  have hbits : s.d.bitspersample.toNat = 16 := by
    have hboth := of_decide_eq_true hswab
    rw [hboth.2]
    rfl
  rw [h.lineSize_eq hpos, hbits]
  exact shorts_even _

theorem stripsperimage_ne_zero (hsetup : d₀.setup tiled = some s.d) : s.d.stripsperimage ≠ 0 := by
  cases tiled with
  | false =>
    obtain ⟨hne,heq,-⟩ := Directory.nstrips_spec hsetup
    rwa [heq]
  | true =>
    obtain ⟨hne,hn,hspi,-⟩ := Directory.setup_eq true hsetup
    rw [if_pos rfl] at hne hn
    obtain ⟨-,-,-,hcount⟩ := Directory.numberOfTiles_eq d₀ hne
    rw [hspi, hn]
    cases hs : d₀.separate with
    | false => rwa [if_neg Bool.false_ne_true]
    | true =>
      simp only [hs, if_true] at hcount
      have hproduct := fun hzero => hne (UInt32.toNat_inj.mp (hcount.trans hzero))
      intro hzero
      have hnat := congrArg UInt32.toNat hzero
      rw [if_pos rfl, UInt32.toNat_div, hcount, UInt16.toNat_toUInt32,
        Nat.mul_div_cancel _ (Nat.pos_iff_ne_zero.mpr (Nat.mul_ne_zero_iff.mp hproduct).2)] at hnat
      exact (Nat.mul_ne_zero_iff.mp hproduct).1 hnat

/-- A strip or tile that was filled is decoded from its raw data. -/
theorem decoded (hserves : Serves s.calls c at_) (hroomy : s.Roomy) (hlt : c.length + 1024 ≤ 2 ^ 31)
    (hholds : s.Holds c tiled bytes) {number : UInt32} (hnumber : number < s.d.nstrips) {cc : ℕ}
    (hcc : cc ≤ s.partBytes tiled number) {buf : List UInt8} (hbuf : cc ≤ buf.length)
    (heven : s.swab = true → cc % 2 = 0) {tif : Tif τ} {p : ℕ} (hat : at_ p tif.client) :
    ∃ rawcc filled, s.fill number tif = some (some rawcc,filled) ∧ (∃ p', at_ p' filled.client) ∧
      s.decode rawcc cc buf filled = some (true,(s.samples (bytes number)).take cc ++ buf.drop cc,filled) := by
  obtain ⟨offset,bytecount,hstored,hdecodes⟩ := hholds.stored number hnumber
  obtain ⟨behind,client,hfill,hat'⟩ := fill_spec hserves hroomy hlt hstored hat
  have hdecode := decode_spec hdecodes behind (hcc.trans (hholds.enough number hnumber)) hbuf heven client
  rw [raw_length hstored.inside] at hdecode
  exact ⟨_,_,hfill,hat',hdecode⟩

/-- What was decoded is what the strip or tile holds, as far as it goes. -/
theorem decoded_gives {number : UInt32} {cc : ℕ} {asked : ℤ} (buf : List UInt8)
    (hcc : cc ≤ (s.samples (bytes number)).length) (hall : s.swab = true → s.partBytes tiled number % 2 = 0)
    (hasked : ∀ i : ℕ, (asked = -1 ∨ i < asked) → i < s.partBytes tiled number → i < cc) :
    Gives (s.contents tiled bytes) number asked true ((s.samples (bytes number)).take cc ++ buf.drop cc) := by
  refine ⟨rfl,?_⟩
  intro i hi hlt
  rw [contents, samples_take _ hall, List.length_take] at hlt
  have hicc := hasked i hi (by omega)
  rw [List.getElem?_append_left (by rw [List.length_take]; omega), List.getElem?_take_of_lt hicc, contents,
    samples_take _ hall, List.getElem?_take_of_lt (by omega)]

theorem decodeStrip_eq {strip : UInt32} {stripsize rawcc : ℤ} {buf : List UInt8} {tif filled : Tif τ}
    (hfill : s.fill strip tif = some (some rawcc,filled)) (hsome : s.d.stripsperimage ≠ 0) :
    s.decodeStrip strip stripsize buf tif = s.decode rawcc stripsize buf filled := by
  rw [decodeStrip, hfill, Option.bind_eq_bind, Option.bind_some]
  dsimp only
  rw [if_neg hsome]

theorem readEncodedStrip_gives (hserves : Serves s.calls c at_) (hroomy : s.Roomy) (hlt : c.length + 1024 ≤ 2 ^ 31)
    (h : Layout s.d t false) (hpos : 0 < s.d.partSize s.m false) (hslack : Slack s.m s.d false)
    (hholds : s.Holds c false bytes) :
    Leaves s.m s.d false s.readEncodedStrip (fun tif => ∃ p, at_ p tif.client) (Gives (s.contents false bytes)) := by
  rintro number hnumber hrows asked hasked buf tif hbuf ⟨p,hat⟩
  obtain ⟨d₀,hsetup⟩ := h.setup
  obtain ⟨rows,hstripRows,hsome,hmin⟩ := stripRows_spec hsetup hrows h.sizes.height number
  obtain ⟨scanline,hscanline,-,hline,hstrip,-⟩ := Directory.stripSize_spec h.sampled hpos
  have hlineSize : s.d.lineSize s.m false = scanline := by
    rw [Directory.lineSize, if_neg Bool.false_ne_true, hline, Int.toNat_natCast]
  have hle : rows.toNat ≤ min s.d.rowsperstrip.toNat s.d.imagelength.toNat := by
    rw [hmin]
    exact Nat.min_le_left _ _
  have hsize : s.d.vStripSize s.m rows = (rows.toNat * scanline : ℕ) := by
    rw [Directory.vStripSize_eq h.sampled hpos hle h.sizes.height, hline, Int.toNat_natCast]
  have hpart : s.partBytes false number = rows.toNat * scanline := by
    rw [partBytes, if_neg Bool.false_ne_true, hstripRows, Option.getD_some, hsize, Int.toNat_natCast]
  obtain ⟨asks,-,rfl⟩ := h.asked_rows hpos hslack hasked
  rw [hlineSize]
  -- as much as was asked for, and no more than there is
  obtain ⟨cc,hcc⟩ : ∃ cc, cc = min (asks * scanline) (rows.toNat * scanline) := ⟨_,rfl⟩
  have hstripsize : (if ((asks * scanline : ℕ) : ℤ) ≠ -1 ∧ ((asks * scanline : ℕ) : ℤ) < (rows.toNat * scanline : ℕ)
      then ((asks * scanline : ℕ) : ℤ) else (rows.toNat * scanline : ℕ)) = (cc : ℤ) := by
    split <;> omega
  have hlarge : cc ≤ buf.length := by
    have hmul : rows.toNat * scanline ≤ min s.d.rowsperstrip.toNat s.d.imagelength.toNat * scanline :=
      Nat.mul_le_mul_right _ hle
    have hbufsize : (s.d.partSize s.m false).toNat = min s.d.rowsperstrip.toNat s.d.imagelength.toNat * scanline := by
      rw [Directory.partSize, if_neg Bool.false_ne_true, hstrip, Int.toNat_natCast]
    omega
  have heven (hswab : s.swab = true) (n : ℕ) : n * scanline % 2 = 0 := by
    rw [Nat.mul_mod, ← hlineSize, lineSize_even h hpos hswab, Nat.mul_zero]
  have hwhole (hswab : s.swab = true) : cc % 2 = 0 := by
    rcases Nat.le_total (asks * scanline) (rows.toNat * scanline) with hless | hmore
    · rw [hcc, Nat.min_eq_left hless, heven hswab]
    · rw [hcc, Nat.min_eq_right hmore, heven hswab]
  have hshort : cc ≤ s.partBytes false number := by omega
  have hread : cc ≤ (s.samples (bytes number)).length := by
    rw [samples_length]
    exact hshort.trans (hholds.enough number hnumber)
  obtain ⟨rawcc,filled,hfill,hat',hdecode⟩ := decoded hserves hroomy hlt hholds hnumber hshort hlarge hwhole hat
  refine ⟨true,_,filled,?_,?_,hat',decoded_gives buf hread ?_ ?_⟩
  · have hnonzero : ((rows.toNat * scanline : ℕ) : ℤ) ≠ 0 := by
      have := Nat.mul_pos hsome hscanline
      omega
    have hminus : (cc : ℤ) ≠ -1 := by omega
    rw [readEncodedStrip, if_neg (UInt32.not_le.mpr hnumber), hstripRows, Option.bind_eq_bind, Option.bind_some, hsize]
    dsimp only
    rw [if_neg hnonzero, hstripsize, decodeStrip_eq hfill (stripsperimage_ne_zero hsetup), hdecode,
      Option.bind_eq_bind, Option.bind_some]
    simp only [hminus, ne_eq, not_false_eq_true, decide_true, Bool.and_true]
  · rw [List.length_append, List.length_take, List.length_drop, ← hbuf]
    omega
  · intro hswab
    rw [hpart]
    exact heven hswab _
  · intro i hi hlt
    rw [hpart] at hlt
    omega

theorem decodeTile_eq {tile : UInt32} {size rawcc : ℤ} {buf : List UInt8} {tif filled : Tif τ}
    (hfill : s.fill tile tif = some (some rawcc,filled)) (hsetup : d₀.setup true = some s.d)
    (hwidth : s.d.tilewidth ≠ 0xffffffff) (hlength : s.d.tilelength ≠ 0xffffffff) :
    s.decodeTile tile size buf tif = s.decode rawcc size buf filled := by
  obtain ⟨hacross,hdown⟩ := Directory.tiles_ne_zero hsetup hwidth hlength
  rw [decodeTile, hfill, Option.bind_eq_bind, Option.bind_some]
  dsimp only
  rw [if_neg (not_or.mpr ⟨hacross,hdown⟩), if_neg (stripsperimage_ne_zero hsetup)]

theorem readEncodedTile_gives (hserves : Serves s.calls c at_) (hroomy : s.Roomy) (hlt : c.length + 1024 ≤ 2 ^ 31)
    (h : Layout s.d t true) (hpos : 0 < s.d.partSize s.m true) (hholds : s.Holds c true bytes) :
    Leaves s.m s.d true s.readEncodedTile (fun tif => ∃ p, at_ p tif.client) (Gives (s.contents true bytes)) := by
  rintro number hnumber hrows asked hasked buf tif hbuf ⟨p,hat⟩
  obtain ⟨d₀,hsetup⟩ := h.setup
  obtain ⟨rowsize,hrowsize,-,hline,htile,-⟩ := Directory.tileSize_spec h.sampled hpos
  have hwidth : s.d.tilewidth ≠ 0xffffffff := by
    intro hall
    have htile := h.sizes.tile rfl
    have hmax : (0xffffffff : UInt32).toNat = 2 ^ 32 - 1 := rfl
    rw [hall, hmax] at htile
    omega
  have hlineSize : s.d.lineSize s.m true = rowsize := by
    rw [Directory.lineSize, if_pos rfl, hline, Int.toNat_natCast]
  obtain ⟨cc,hcc⟩ : ∃ cc, cc = s.d.tilelength.toNat * rowsize := ⟨_,rfl⟩
  rw [← hcc] at htile
  have hpart : s.partBytes true number = cc := by
    rw [partBytes, if_pos rfl, htile, Int.toNat_natCast]
  have hbufsize : (s.d.partSize s.m true).toNat = cc := by
    rw [Directory.partSize, if_pos rfl, htile, Int.toNat_natCast]
  have hwhole (hswab : s.swab = true) : cc % 2 = 0 := by
    rw [hcc, Nat.mul_mod, ← hlineSize, lineSize_even h hpos hswab, Nat.mul_zero]
  have hshort : cc ≤ s.partBytes true number := hpart.ge
  have hread : cc ≤ (s.samples (bytes number)).length := by
    rw [samples_length]
    exact hshort.trans (hholds.enough number hnumber)
  obtain ⟨rawcc,filled,hfill,hat',hdecode⟩ := decoded hserves hroomy hlt hholds hnumber hshort
    (show cc ≤ buf.length by omega) hwhole hat
  rw [Directory.Asked, if_pos rfl] at hasked
  refine ⟨true,_,filled,?_,?_,hat',decoded_gives buf hread (fun hswab => hpart.symm ▸ hwhole hswab) ?_⟩
  · have hminus : (cc : ℤ) ≠ -1 := by omega
    rw [readEncodedTile, if_neg (UInt32.not_le.mpr hnumber), htile, if_pos (Or.inl hasked)]
    dsimp only
    rw [decodeTile_eq hfill hsetup hwidth (hholds.extent rfl), hdecode, Option.bind_eq_bind, Option.bind_some]
    simp only [hminus, ne_eq, not_false_eq_true, decide_true, Bool.and_true]
  · rw [List.length_append, List.length_take, List.length_drop]
    omega
  · intro i _ hlt
    rwa [hpart] at hlt

theorem readEncoded_gives (hserves : Serves s.calls c at_) (hroomy : s.Roomy) (hlt : c.length + 1024 ≤ 2 ^ 31)
    (h : Layout s.d t tiled) (hpos : 0 < s.d.partSize s.m tiled) (hslack : Slack s.m s.d tiled)
    (hholds : s.Holds c tiled bytes) :
    Leaves s.m s.d tiled (s.readEncoded tiled) (fun tif => ∃ p, at_ p tif.client) (Gives (s.contents tiled bytes)) := by
  cases tiled with
  | false => exact readEncodedStrip_gives hserves hroomy hlt h hpos hslack hholds
  | true => exact readEncodedTile_gives hserves hroomy hlt h hpos hholds

/-- The strip or tile of a pixel reaches beyond the row of the pixel in it. -/
theorem partBytes_enough (h : Layout s.d t tiled) (hpos : 0 < s.d.partSize s.m tiled) {x y : ℕ} {sample : UInt16}
    (hx : x < s.d.imagewidth.toNat) (hy : y < s.d.imagelength.toNat) (hsample : sample < s.d.samplesperpixel) :
    s.d.part tiled x y sample < s.d.nstrips ∧
      (s.d.partRow tiled y + 1) * s.d.lineSize s.m tiled ≤ s.partBytes tiled (s.d.part tiled x y sample) := by
  obtain ⟨d₀,hsetup⟩ := h.setup
  have hyNat : (UInt32.ofNat y).toNat = y := UInt32.toNat_ofNat_of_lt' (hy.trans s.d.imagelength.toNat_lt)
  have hxNat : (UInt32.ofNat x).toNat = x := UInt32.toNat_ofNat_of_lt' (hx.trans s.d.imagewidth.toNat_lt)
  cases tiled with
  | true =>
    obtain ⟨rowsize,-,-,hline,htile,-,-,-,htl⟩ := Directory.tileSize_spec h.sampled hpos
    have hcheck : s.d.checkTile (UInt32.ofNat x) (UInt32.ofNat y) 0 sample = true := by
      refine decide_eq_true ⟨?_,?_,Directory.imagedepth_pos hsetup,fun _ => hsample⟩
      · rwa [UInt32.lt_iff_toNat_lt, hxNat]
      · rwa [UInt32.lt_iff_toNat_lt, hyNat]
    have hlast : y % s.d.tilelength.toNat < s.d.tilelength.toNat :=
      Nat.mod_lt y (Nat.pos_iff_ne_zero.mpr fun hzero => htl (UInt32.toNat_inj.mp hzero))
    rw [Directory.part, if_pos rfl, Directory.partRow, if_pos rfl, Directory.lineSize, if_pos rfl, partBytes, if_pos rfl,
      hline, htile, Int.toNat_natCast, Int.toNat_natCast]
    exact ⟨(Directory.tiles_numbered hsetup).inRange (_,_,_,_) hcheck,Nat.mul_le_mul_right _ hlast⟩
  | false =>
    obtain ⟨scanline,-,-,hline,-⟩ := Directory.stripSize_spec h.sampled hpos
    have hrps := Directory.rowsperstrip_pos hsetup
    have hrow : (UInt32.ofNat y).toNat < s.d.imagelength.toNat := by rwa [hyNat]
    obtain ⟨rows,hstripRows,-,hmin⟩ := stripRows_spec hsetup (Nat.zero_lt_of_lt hy) h.sizes.height
      (s.d.computeStrip (UInt32.ofNat y) sample)
    have hle : rows.toNat ≤ min s.d.rowsperstrip.toNat s.d.imagelength.toNat := by
      rw [hmin]
      exact Nat.min_le_left _ _
    have hsize := Directory.vStripSize_eq h.sampled hpos hle h.sizes.height
    have hdigits := Directory.computeStrip_toNat hsetup (c := (UInt32.ofNat y,sample)) hrow fun _ => hsample
    have hbelow := (Directory.stripsPerPlane_spec (Directory.nstrips_spec hsetup).1).2.1 y hy
    dsimp only at hdigits
    rw [hdigits, hyNat, Nat.mul_add_mod, Nat.mod_eq_of_lt hbelow] at hmin
    have hband := Nat.div_add_mod y s.d.rowsperstrip.toNat
    have hlast := Nat.mod_lt y hrps
    have hinside : y % s.d.rowsperstrip.toNat < rows.toNat := by
      rw [Nat.mul_comm] at hband
      rcases Nat.le_total s.d.rowsperstrip.toNat s.d.imagelength.toNat with hless | hall
      · rw [Nat.min_eq_left hless] at hmin
        omega
      · rw [Nat.min_eq_right hall, Nat.div_eq_of_lt (hy.trans_le hall)] at hmin
        rw [Nat.mod_eq_of_lt (hy.trans_le hall)]
        omega
    rw [Directory.part, if_neg Bool.false_ne_true, Directory.partRow, if_neg Bool.false_ne_true, Directory.lineSize,
      if_neg Bool.false_ne_true, partBytes, if_neg Bool.false_ne_true, hstripRows, Option.getD_some, hsize,
      Int.toNat_natCast]
    exact ⟨Directory.computeStrip_lt hsetup hrow sample,Nat.mul_le_mul_right _ hinside⟩

theorem covers {img : RGBAImage} {put : Put} {stop : Bool} (h : Layout s.d t tiled) (hpos : 0 < s.d.partSize s.m tiled)
    (hbegun : Begun s.d t stop img put) (hholds : s.Holds c tiled bytes) :
    Covers s.m s.d img put tiled (s.contents tiled bytes) := by
  intro x hx y hy k hk
  obtain ⟨hnumber,hrow⟩ := partBytes_enough h hpos hx hy (hbegun.sample_lt h.samples k hk)
  rw [contents, samples_length, List.length_take_of_le (hholds.enough _ hnumber)]
  exact hrow

end given

end Source

end TiffJni.Reading
