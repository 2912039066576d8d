import Mathlib.Logic.Function.Basic
import Mathlib.Order.Basic
import Mathlib.Data.Nat.Basic

/-! # A heap of blocks

Addresses are handed out in order and never twice, so an address that was freed
stays dead and every later access through it is visible as one. The cells from
`next` on are free by construction.
-/
namespace TiffJni.Machine

structure Heap (α : Type*) where
  cells : ℕ → Option α
  next : ℕ
  fresh : ∀ p, next ≤ p → cells p = none

namespace Heap
variable {α : Type*} {base h : Heap α} {p q : ℕ} {a : α}

def empty : Heap α := ⟨fun _ => none,0,fun _ _ => rfl⟩

def alloc (h : Heap α) (a : α) : Heap α where
  cells := Function.update h.cells h.next (some a)
  next := h.next + 1
  fresh p hp := by
    rw [Function.update_of_ne (by omega)]
    exact h.fresh p (by omega)

def free (h : Heap α) (p : ℕ) : Heap α where
  cells := Function.update h.cells p none
  next := h.next
  fresh q hq := by
    by_cases hp : q = p
    · rw [hp, Function.update_self]
    · rw [Function.update_of_ne hp]
      exact h.fresh q hq

/-- Store into a block that exists; elsewhere there is nothing to store into. -/
def store (h : Heap α) (p : ℕ) (a : α) : Heap α where
  cells := if p < h.next then Function.update h.cells p (some a) else h.cells
  next := h.next
  fresh q hq := by
    split
    · rw [Function.update_of_ne (by omega)]
      exact h.fresh q hq
    · exact h.fresh q hq

theorem lt_next_of_cell (hc : h.cells p = some a) : p < h.next := by
  by_contra hp
  rw [h.fresh p (by omega)] at hc
  cases hc

@[simp] theorem alloc_next : (h.alloc a).next = h.next + 1 := rfl
@[simp] theorem free_next : (h.free p).next = h.next := rfl
@[simp] theorem store_next : (h.store p a).next = h.next := rfl

@[simp] theorem alloc_self : (h.alloc a).cells h.next = some a := Function.update_self ..
@[simp] theorem free_self : (h.free p).cells p = none := Function.update_self ..

theorem alloc_of_ne (hq : q ≠ h.next) : (h.alloc a).cells q = h.cells q := Function.update_of_ne hq _ _

theorem free_of_ne (hq : q ≠ p) : (h.free p).cells q = h.cells q := Function.update_of_ne hq _ _

theorem store_self (hp : p < h.next) : (h.store p a).cells p = some a := by
  simp only [store, if_pos hp, Function.update_self]

theorem store_of_ne (hq : q ≠ p) : (h.store p a).cells q = h.cells q := by
  simp only [store]
  split
  · exact Function.update_of_ne hq _ _
  · rfl

/-- `h` has the blocks of `base` as they were, and its own from `base.next` on. -/
structure Extends (base h : Heap α) : Prop where
  next_le : base.next ≤ h.next
  cells_eq : ∀ p, p < base.next → h.cells p = base.cells p

theorem Extends.refl (h : Heap α) : Extends h h := ⟨le_refl _,fun _ _ => rfl⟩

theorem Extends.trans {h' : Heap α} (e : Extends base h) (e' : Extends h h') : Extends base h' :=
  ⟨Nat.le_trans e.next_le e'.next_le,
    fun p hp => (e'.cells_eq p (Nat.lt_of_lt_of_le hp e.next_le)).trans (e.cells_eq p hp)⟩

theorem Extends.alloc (e : Extends base h) (a : α) : Extends base (h.alloc a) where
  next_le := Nat.le_succ_of_le e.next_le
  cells_eq p hp := by
    rw [alloc_of_ne (Nat.ne_of_lt (Nat.lt_of_lt_of_le hp e.next_le))]
    exact e.cells_eq p hp

theorem Extends.store (e : Extends base h) (hp : base.next ≤ p) (a : α) : Extends base (h.store p a) where
  next_le := e.next_le
  cells_eq q hq := by
    rw [store_of_ne (Nat.ne_of_lt (Nat.lt_of_lt_of_le hq hp))]
    exact e.cells_eq q hq

theorem Extends.free (e : Extends base h) (hp : base.next ≤ p) : Extends base (h.free p) where
  next_le := e.next_le
  cells_eq q hq := by
    rw [free_of_ne (Nat.ne_of_lt (Nat.lt_of_lt_of_le hq hp))]
    exact e.cells_eq q hq

end Heap

end TiffJni.Machine
