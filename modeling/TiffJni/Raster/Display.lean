import TiffJni.Raster.GetRoutines

/-! # What a raster shows

A pixel of an image has a cell in the raster, which depends on how the image is mirrored. Get
routines fill these cells rectangle by rectangle, and a relation between places and words says
which words are right. Mirroring every line turns one display into another.
-/
namespace TiffJni.Raster
open Painting

/-- The cell of the pixel in column `x` of row `y`. -/
def cell (flip : Flip) (w h x y : ℕ) : ℕ := mirror flip.vertically h y * w + mirror flip.horizontally w x

theorem cell_lt (flip : Flip) {w h x y : ℕ} (hx : x < w) (hy : y < h) : cell flip w h x y < w * h := by
  have hline : (mirror flip.vertically h y + 1) * w ≤ h * w := Nat.mul_le_mul_right w (mirror_lt _ hy)
  have hcolumn := mirror_lt flip.horizontally hx
  rw [Nat.succ_mul, Nat.mul_comm h w] at hline
  unfold cell
  omega

theorem cell_div {flip : Flip} {w h x y : ℕ} (hx : x < w) : cell flip w h x y / w = mirror flip.vertically h y := by
  have hcolumn := mirror_lt flip.horizontally hx
  rw [cell, Nat.mul_comm, Nat.mul_add_div (by omega), Nat.div_eq_of_lt hcolumn, Nat.add_zero]

theorem cell_mod {flip : Flip} {w h x y : ℕ} (hx : x < w) : cell flip w h x y % w = mirror flip.horizontally w x := by
  rw [cell, Nat.mul_comm, Nat.mul_add_mod, Nat.mod_eq_of_lt (mirror_lt _ hx)]

theorem cell_inj {flip : Flip} {w h x y x' y' : ℕ} (hx : x < w) (hy : y < h) (hx' : x' < w) (hy' : y' < h)
    (heq : cell flip w h x y = cell flip w h x' y') : x = x' ∧ y = y' := by
  have hline := congrArg (· / w) heq
  have hcolumn := congrArg (· % w) heq
  simp only [cell_div hx, cell_div hx'] at hline
  simp only [cell_mod hx, cell_mod hx'] at hcolumn
  refine ⟨?_,?_⟩
  · rw [← mirror_mirror flip.horizontally hx, hcolumn, mirror_mirror _ hx']
  · rw [← mirror_mirror flip.vertically hy, hline, mirror_mirror _ hy']

/-- The cells of a region of the image hold words that are right for their places, and every other cell
is as it was. -/
structure Shows (flip : Flip) (w h : ℕ) (right : ℕ → ℕ → Word → Prop) (region : ℕ → ℕ → Prop)
    (raster raster' : List Word) : Prop where
  length_eq : raster'.length = raster.length
  shown : ∀ x < w, ∀ y < h, region x y → ∃ p, raster'[cell flip w h x y]? = some p ∧ right x y p
  kept : ∀ i, (∀ x < w, ∀ y < h, region x y → i ≠ cell flip w h x y) → raster'[i]? = raster[i]?

section shows
variable {flip : Flip} {w h : ℕ} {right : ℕ → ℕ → Word → Prop} {region region' : ℕ → ℕ → Prop}
variable {raster raster' raster'' : List Word}

theorem Shows.refl (h₀ : ∀ x < w, ∀ y < h, ¬region x y) : Shows flip w h right region raster raster :=
  ⟨rfl,fun x hx y hy hregion => (h₀ x hx y hy hregion).elim,fun _ _ => rfl⟩

theorem Shows.trans (h₁ : Shows flip w h right region raster raster')
    (h₂ : Shows flip w h right region' raster' raster'') :
    Shows flip w h right (fun x y => region x y ∨ region' x y) raster raster'' where
  length_eq := h₂.length_eq.trans h₁.length_eq
  shown := by
    intro x hx y hy hregion
    by_cases hlater : region' x y
    · exact h₂.shown x hx y hy hlater
    · obtain ⟨p,hp,hright⟩ := h₁.shown x hx y hy (hregion.resolve_right hlater)
      refine ⟨p,?_,hright⟩
      rw [h₂.kept, hp]
      intro x' hx' y' hy' hregion' heq
      obtain ⟨rfl,rfl⟩ := cell_inj hx hy hx' hy' heq
      exact hlater hregion'
  kept := by
    intro i hi
    rw [h₂.kept i fun x hx y hy hregion => hi x hx y hy (Or.inr hregion),
      h₁.kept i fun x hx y hy hregion => hi x hx y hy (Or.inl hregion)]

theorem Shows.congr (hshows : Shows flip w h right region raster raster')
    (hregion : ∀ x < w, ∀ y < h, region' x y ↔ region x y) : Shows flip w h right region' raster raster' where
  length_eq := hshows.length_eq
  shown := fun x hx y hy hxy => hshows.shown x hx y hy ((hregion x hx y hy).mp hxy)
  kept := fun i hi => hshows.kept i fun x hx y hy hxy => hi x hx y hy ((hregion x hx y hy).mpr hxy)

/-- Two rasters that differ at most in their first `n` cells. -/
structure Within (n : ℕ) (raster raster' : List Word) : Prop where
  length_eq : raster'.length = raster.length
  behind : ∀ i, n ≤ i → raster'[i]? = raster[i]?

theorem Within.refl (n : ℕ) (raster : List Word) : Within n raster raster := ⟨rfl,fun _ _ => rfl⟩

theorem Within.trans {n : ℕ} (h₁ : Within n raster raster') (h₂ : Within n raster' raster'') : Within n raster raster'' :=
  ⟨h₂.length_eq.trans h₁.length_eq,fun i hi => (h₂.behind i hi).trans (h₁.behind i hi)⟩

/-- Nothing is written behind the last line. -/
theorem Shows.within (hshows : Shows flip w h right region raster raster') : Within (w * h) raster raster' := by
  refine ⟨hshows.length_eq,?_⟩
  intro i hi
  refine hshows.kept i ?_
  intro x hx y hy _ heq
  have hlt := cell_lt flip hx hy
  omega

end shows

/-- A put routine shows a rectangle: `n` rows from `row` on, of `k` pixels from column `tocol` on. -/
theorem PutRoutine.Puts.shows {put : PutRoutine} {scan : Scan} (hputs : put.Puts scan) {v : Bool}
    {w h row n tocol k : ℕ} {right : ℕ → ℕ → Word → Prop} {cp fromskew toskew pp : ℤ} {buf : List UInt8}
    {raster : List Word} (hcp : cp = (mirror v h row * w + tocol : ℕ)) (hstep : k + toskew = if v then -(w : ℤ) else w)
    (hrow : row + n ≤ h) (hcol : tocol + k ≤ w) (hsize : w * h ≤ raster.length)
    (hpixels : ∀ r < n, ∀ c < k, ∃ p, scan.pixel buf (pp + r * scan.line k fromskew) c = some p ∧
      right (tocol + c) (row + r) p) :
    ∃ raster', put cp k n fromskew toskew buf pp raster = some raster' ∧
      Shows ⟨v,false⟩ w h right (fun x y => (tocol ≤ x ∧ x < tocol + k) ∧ row ≤ y ∧ y < row + n) raster raster' := by
  have hcell (r c : ℕ) (hr : r < n) (hc : c < k) : cp + r * (k + toskew) + c = cell ⟨v,false⟩ w h (tocol + c) (row + r) := by
    have hxc : mirror false w (tocol + c) = tocol + c := rfl
    rw [hcp, hstep, cell, hxc]
    cases v with
    | false =>
      simp only [mirror, Bool.false_eq_true, if_false]
      push_cast
      ring
    | true =>
      have hup : h - 1 - row = (h - 1 - (row + r)) + r := by omega
      simp only [mirror, if_true]
      rw [hup]
      push_cast
      ring
  let picture : ℕ → Word := fun i =>
    (scan.pixel buf (pp + ((mirror v h (i / w) - row : ℕ) : ℤ) * scan.line k fromskew) (i % w - tocol)).getD 0
  have hpicture (r c : ℕ) (hr : r < n) (hc : c < k) : scan.pixel buf (pp + r * scan.line k fromskew) c =
      some (picture (cell ⟨v,false⟩ w h (tocol + c) (row + r))) := by
    have hx : tocol + c < w := by omega
    have hy : row + r < h := by omega
    have hxc : mirror false w (tocol + c) = tocol + c := rfl
    obtain ⟨p,hp,-⟩ := hpixels r hr c hc
    simp only [picture]
    rw [cell_div hx, cell_mod hx, mirror_mirror _ hy, hxc, Nat.add_sub_cancel_left, Nat.add_sub_cancel_left, hp]
    rfl
  obtain ⟨raster',hput,hpainted⟩ := hputs picture cp k n fromskew toskew buf pp raster (by
    intro r hr c hc
    have hlt := cell_lt ⟨v,false⟩ (show tocol + c < w by omega) (show row + r < h by omega)
    exact ⟨_,hcell r c hr hc,by omega,hpicture r c hr hc⟩)
  refine ⟨raster',hput,hpainted.length_eq,?_,?_⟩
  · rintro x hx y hy ⟨⟨hlo,hhi⟩,hlo',hhi'⟩
    obtain ⟨c,rfl⟩ := Nat.exists_eq_add_of_le hlo
    obtain ⟨r,rfl⟩ := Nat.exists_eq_add_of_le hlo'
    have hr : r < n := by omega
    have hc : c < k := by omega
    obtain ⟨p,hp,hright⟩ := hpixels r hr c hc
    refine ⟨p,?_,hright⟩
    rw [hpainted.inside, ← hpicture r c hr hc, hp]
    refine ⟨r,hr,?_⟩
    rw [mem_span, ← hcell r c hr hc]
    omega
  · intro i hi
    refine hpainted.outside i ?_
    rintro ⟨r,hr,hspan⟩
    rw [mem_span] at hspan
    obtain ⟨c,hc⟩ := Int.eq_ofNat_of_zero_le (Int.sub_nonneg.mpr hspan.1)
    have hck : c < k := by omega
    refine hi (tocol + c) (by omega) (row + r) (by omega) (by omega) ?_
    have hthis := hcell r c hr hck
    omega

/-- Swapping the ends inward mirrors what lies between them. -/
theorem swapInward_spec (left right : ℕ) (raster : List Word) (hlen : left < right → right < raster.length) :
    ∃ raster', swapInward left right raster = some raster' ∧ raster'.length = raster.length ∧
      ∀ i, raster'[i]? = if left ≤ i ∧ i ≤ right then raster[left + right - i]? else raster[i]? := by
  induction hn : right - left using Nat.strong_induction_on generalizing left right raster with
  | _ n ih =>
    subst hn
    rw [swapInward]
    by_cases hlt : left < right
    · have hright := hlen hlt
      have hleft : left < raster.length := by omega
      rw [if_pos hlt, List.getElem?_eq_getElem hleft, List.getElem?_eq_getElem hright]
      obtain ⟨raster',hswap,hlength,hget⟩ := ih (right - 1 - (left + 1)) (by omega) (left + 1) (right - 1)
        ((raster.set left raster[right]).set right raster[left]) (by intro _; rw [List.length_set, List.length_set]; omega) rfl
      refine ⟨raster',hswap,?_,?_⟩
      · rw [hlength, List.length_set, List.length_set]
      · intro i
        have hsum : left + 1 + (right - 1) - i = left + right - i := by omega
        rw [hget, hsum, List.getElem?_set, List.getElem?_set, List.getElem?_set, List.getElem?_set, List.length_set]
        rcases Nat.lt_trichotomy i left with hi | rfl | hi
        · rw [if_neg (by omega), if_neg (by omega), if_neg (by omega), if_neg (by omega)]
        · rw [if_neg (by omega), if_neg (by omega), if_pos rfl, if_pos hleft, if_pos (by omega),
            Nat.add_sub_cancel_left, List.getElem?_eq_getElem hright]
        rcases Nat.lt_trichotomy i right with hi' | rfl | hi'
        · rw [if_pos (by omega), if_neg (by omega), if_neg (by omega), if_pos (by omega)]
        · rw [if_neg (by omega), if_pos rfl, if_pos hright, if_pos (by omega), Nat.add_sub_cancel,
            List.getElem?_eq_getElem hleft]
        · rw [if_neg (by omega), if_neg (by omega), if_neg (by omega), if_neg (by omega)]
    · rw [if_neg hlt]
      refine ⟨raster,rfl,rfl,?_⟩
      intro i
      by_cases hi : left ≤ i ∧ i ≤ right
      · obtain rfl : left = right := by omega
        obtain rfl : i = left := by omega
        rw [if_pos hi, Nat.add_sub_cancel]
      · rw [if_neg hi]

/-- `mirrorLines` mirrors each of the `h` lines and nothing else. -/
theorem mirrorLines_spec {w h : UInt32} {raster : List Word} (hword : w.toNat * h.toNat < 2 ^ 32)
    (hsize : w.toNat * h.toNat ≤ raster.length) :
    ∃ raster', mirrorLines w h raster = some raster' ∧ raster'.length = raster.length ∧
      (∀ x < w.toNat, ∀ y < h.toNat, raster'[y * w.toNat + (w.toNat - 1 - x)]? = raster[y * w.toNat + x]?) ∧
      ∀ i, w.toNat * h.toNat ≤ i → raster'[i]? = raster[i]? := by
  unfold mirrorLines
  have hlines : ∀ n ≤ h.toNat, ∃ raster', (List.range n).foldlM (fun raster line =>
      let left := (UInt32.ofNat line * w).toNat
      swapInward left (left + w.toNat - 1) raster) raster = some raster' ∧ raster'.length = raster.length ∧
      (∀ x < w.toNat, ∀ y < n, raster'[y * w.toNat + (w.toNat - 1 - x)]? = raster[y * w.toNat + x]?) ∧
      ∀ i, w.toNat * n ≤ i → raster'[i]? = raster[i]? := by
    intro n hn
    induction n with
    | zero => exact ⟨raster,rfl,rfl,fun _ _ y hy => absurd hy (Nat.not_lt_zero y),fun _ _ => rfl⟩
    | succ n ih =>
      obtain ⟨raster₁,hfold,hlength,hmirrored,hbehind⟩ := ih (by omega)
      have harea : w.toNat * (n + 1) ≤ w.toNat * h.toNat := Nat.mul_le_mul_left _ hn
      rw [Nat.mul_succ] at harea
      have hleft : (UInt32.ofNat n * w).toNat = n * w.toNat := by
        have hlt := h.toNat_lt
        have hline : n < 2 ^ 32 := by omega
        rw [UInt32.toNat_mul, UInt32.toNat_ofNat_of_lt' hline, Nat.mul_comm n]
        rcases Nat.eq_zero_or_pos w.toNat with hzero | hpos
        · rw [hzero, Nat.zero_mul, Nat.zero_mod]
        · exact Nat.mod_eq_of_lt (by omega)
      obtain ⟨raster',hswap,hlength',hget⟩ := swapInward_spec (n * w.toNat)
        (n * w.toNat + w.toNat - 1) raster₁ (by rw [Nat.mul_comm n] at *; omega)
      refine ⟨raster',?_,hlength'.trans hlength,?_,?_⟩
      · rw [List.range_succ, List.foldlM_append, hfold]
        simp only [Option.bind_eq_bind, Option.bind_some, List.foldlM_cons, List.foldlM_nil, hleft, hswap]
        rfl
      · intro x hx y hy
        rw [hget]
        rcases Nat.lt_succ_iff_lt_or_eq.mp hy with hy | rfl
        · have hline : (y + 1) * w.toNat ≤ n * w.toNat := Nat.mul_le_mul_right _ hy
          rw [Nat.succ_mul] at hline
          rw [if_neg (by omega), hmirrored x hx y hy]
        · have hother : y * w.toNat + (y * w.toNat + w.toNat - 1) - (y * w.toNat + (w.toNat - 1 - x)) =
              y * w.toNat + x := by omega
          rw [if_pos (by omega), hother, hbehind]
          rw [Nat.mul_comm]
          omega
      · intro i hi
        rw [Nat.mul_succ] at hi
        rw [hget, hbehind i (by omega)]
        split
        · rename_i hmid
          rw [Nat.mul_comm n] at hmid
          rcases Nat.eq_zero_or_pos w.toNat with hzero | hpos
          · rw [hzero, Nat.zero_mul] at hmid
            obtain rfl : i = 0 := by omega
            rw [hzero, Nat.mul_zero, hbehind 0 (by rw [hzero]; omega)]
          · omega
        · rfl
  exact hlines h.toNat le_rfl

/-- What a get routine has to do: all of the image is shown if it reports success, and nothing is written
behind the image either way. Only `stops` allows a failure. -/
def Gets {σ : Type} (flip : Flip) (w h : ℕ) (right : ℕ → ℕ → Word → Prop) (holds : σ → Prop) (stops : Prop)
    (raster : List Word) (r : Option (Bool × List Word × σ)) : Prop :=
  ∃ ok raster' file, r = some (ok,raster',file) ∧ holds file ∧ (ok = false → stops) ∧
    Within (w * h) raster raster' ∧ (ok = true → Shows flip w h right (fun _ _ => True) raster raster')

theorem Shows.mono {flip : Flip} {w h : ℕ} {right right' : ℕ → ℕ → Word → Prop} {region : ℕ → ℕ → Prop}
    {raster raster' : List Word} (hshows : Shows flip w h right region raster raster')
    (hright : ∀ x < w, ∀ y < h, ∀ p, right x y p → right' x y p) : Shows flip w h right' region raster raster' where
  length_eq := hshows.length_eq
  shown := by
    intro x hx y hy hregion
    obtain ⟨p,hp,hp'⟩ := hshows.shown x hx y hy hregion
    exact ⟨p,hp,hright x hx y hy p hp'⟩
  kept := hshows.kept

theorem Gets.mono {σ : Type} {flip : Flip} {w h : ℕ} {right right' : ℕ → ℕ → Word → Prop} {holds : σ → Prop} {stops : Prop}
    {raster : List Word} {r : Option (Bool × List Word × σ)} (hgets : Gets flip w h right holds stops raster r)
    (hright : ∀ x < w, ∀ y < h, ∀ p, right x y p → right' x y p) : Gets flip w h right' holds stops raster r := by
  obtain ⟨ok,raster',file,heq,hholds,hstops,hwithin,hshows⟩ := hgets
  exact ⟨ok,raster',file,heq,hholds,hstops,hwithin,fun hok => (hshows hok).mono hright⟩

theorem finish_gets {σ : Type} {flip : Flip} {w h : UInt32} {right : ℕ → ℕ → Word → Prop} {holds : σ → Prop}
    {stops : Prop} {raster : List Word} {ok : Bool} {fr : Frame σ} (hword : w.toNat * h.toNat < 2 ^ 32)
    (hsize : w.toNat * h.toNat ≤ raster.length) (hholds : holds fr.file) (hstops : ok = false → stops)
    (hwithin : Within (w.toNat * h.toNat) raster fr.raster)
    (hshows : ok = true → Shows ⟨flip.vertically,false⟩ w.toNat h.toNat right (fun _ _ => True) raster fr.raster) :
    Gets flip w.toNat h.toNat right holds stops raster (finish flip w h (some (ok,fr))) := by
  cases flip with
  | mk v hz =>
    cases hz with
    | false => exact ⟨ok,fr.raster,fr.file,rfl,hholds,hstops,hwithin,hshows⟩
    | true =>
      obtain ⟨raster',hmirror,hlength,hmirrored,hbehind⟩ := mirrorLines_spec hword (hwithin.length_eq ▸ hsize)
      refine ⟨ok,raster',fr.file,?_,hholds,hstops,hwithin.trans ⟨hlength,hbehind⟩,?_⟩
      · simp only [finish, Option.bind_eq_bind, Option.bind_some, if_true, hmirror]
      intro hok
      have hplain := hshows hok
      refine ⟨hlength.trans hplain.length_eq,?_,?_⟩
      · intro x hx y hy _
        obtain ⟨p,hp,hright⟩ := hplain.shown x hx y hy trivial
        refine ⟨p,?_,hright⟩
        have hline := hmirrored x hx (mirror v h.toNat y) (mirror_lt _ hy)
        have hxc : mirror false w.toNat x = x := rfl
        have hxm : mirror true w.toNat x = w.toNat - 1 - x := rfl
        rw [cell, hxm, hline, ← hp, cell, hxc]
      · intro i hi
        refine (hwithin.trans ⟨hlength,hbehind⟩).behind i ?_
        by_contra hlt
        -- a cell of the image is the cell of a pixel
        have hpos : 0 < w.toNat := Nat.pos_of_ne_zero fun hzero => by simp [hzero] at hlt
        have hx := Nat.mod_lt i hpos
        have hy : i / w.toNat < h.toNat := Nat.div_lt_of_lt_mul (not_le.mp hlt)
        refine hi (mirror true w.toNat (i % w.toNat)) (mirror_lt _ hx) (mirror v h.toNat (i / w.toNat)) (mirror_lt _ hy)
          trivial ?_
        rw [cell, mirror_mirror _ hx, mirror_mirror _ hy, Nat.mul_comm, Nat.div_add_mod]

end TiffJni.Raster
