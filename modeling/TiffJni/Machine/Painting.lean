import Mathlib.Data.Set.Lattice

/-! # Painting a block of cells

A loop that assigns cells of a block paints a region of it: the cells of the region hold
what the picture wants there, and every other cell is as it was. Painting two regions one
after the other paints both of them, so a nest of loops is accounted for region by region.
-/
namespace TiffJni.Painting
variable {α : Type*} {picture : ℕ → α} {r s : Set ℕ} {block block' block'' : List α}

/-- An assignment through a signed index; there is no result outside the block. -/
def poke (block : List α) (i : ℤ) (a : α) : Option (List α) :=
  if 0 ≤ i ∧ i < block.length then some (block.set i.toNat a) else none

/-- What an index of the block holds. -/
def peek (block : List α) (i : ℤ) : Option α := if 0 ≤ i then block[i.toNat]? else none

structure Painted (picture : ℕ → α) (r : Set ℕ) (block block' : List α) : Prop where
  length_eq : block'.length = block.length
  inside : ∀ i ∈ r, block'[i]? = some (picture i)
  outside : ∀ i ∉ r, block'[i]? = block[i]?

theorem Painted.refl (picture : ℕ → α) (block : List α) : Painted picture ∅ block block :=
  ⟨rfl,fun _ h => h.elim,fun _ _ => rfl⟩

theorem Painted.trans (h : Painted picture r block block') (h' : Painted picture s block' block'') :
    Painted picture (r ∪ s) block block'' where
  length_eq := h'.length_eq.trans h.length_eq
  inside := by
    intro i hi
    by_cases hs : i ∈ s
    · exact h'.inside i hs
    · rw [h'.outside i hs]
      exact h.inside i (hi.resolve_right hs)
  outside := by
    intro i hi
    rw [Set.mem_union, not_or] at hi
    rw [h'.outside i hi.2, h.outside i hi.1]

theorem Painted.congr (h : Painted picture r block block') (hregion : ∀ i, i ∈ s ↔ i ∈ r) :
    Painted picture s block block' := by
  rw [Set.ext hregion]
  exact h

theorem painted_poke (block : List α) {i : ℤ} {a : α} {k : ℕ} (hi : i = k) (hk : k < block.length) (ha : a = picture k) :
    ∃ block', poke block i a = some block' ∧ Painted picture {k} block block' := by
  subst hi ha
  refine ⟨_,if_pos ⟨Int.natCast_nonneg k,by omega⟩,List.length_set,?_,?_⟩
  · rintro i rfl
    rw [Int.toNat_natCast, List.getElem?_set_self hk]
  · intro i hi
    rw [Int.toNat_natCast]
    exact List.getElem?_set_ne fun h => hi h.symm

/-- The `w` cells from a signed index on. -/
def span (start : ℤ) (w : ℕ) : Set ℕ := {i | start ≤ i ∧ (i : ℤ) < start + w}

theorem mem_span {start : ℤ} {w i : ℕ} : i ∈ span start w ↔ start ≤ i ∧ (i : ℤ) < start + w := Iff.rfl

end TiffJni.Painting
