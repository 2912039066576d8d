import Mathlib.Tactic.Ring

/-! # Conversions between fixed-width integer types

A value of a C integer type is an integer in the range of the type. Converting
to an unsigned type reduces modulo its size; converting to a signed type takes
the two's-complement representative. The two data models of the supported
targets differ in the width of `long`, of `size_t` and of a pointer.
-/
namespace TiffJni.FixedWidth

/-- Conversion to an unsigned type of `w` bits. -/
def toUnsigned (w : ℕ) (x : ℤ) : ℕ := (x % (2 ^ w : ℕ)).toNat

/-- Conversion to a two's-complement signed type of `w` bits. -/
def toSigned (w : ℕ) (x : ℤ) : ℤ := x.bmod (2 ^ w)

theorem toUnsigned_cast (w : ℕ) (x : ℤ) : (toUnsigned w x : ℤ) = x % (2 ^ w : ℕ) := by
  have hpos : (0 : ℤ) < (2 ^ w : ℕ) := by exact_mod_cast Nat.two_pow_pos w
  exact Int.toNat_of_nonneg (Int.emod_nonneg x hpos.ne')

theorem toUnsigned_lt (w : ℕ) (x : ℤ) : toUnsigned w x < 2 ^ w := by
  have hpos : (0 : ℤ) < (2 ^ w : ℕ) := by exact_mod_cast Nat.two_pow_pos w
  have h := Int.emod_lt_of_pos x hpos
  rw [← toUnsigned_cast] at h
  exact_mod_cast h

theorem toUnsigned_of_lt {w : ℕ} {x : ℕ} (h : x < 2 ^ w) : toUnsigned w x = x := by
  have hx : (toUnsigned w x : ℤ) = x := by
    rw [toUnsigned_cast]
    exact Int.emod_eq_of_lt (by omega) (by exact_mod_cast h)
  exact_mod_cast hx

theorem toUnsigned_natCast (w x : ℕ) : toUnsigned w x = x % 2 ^ w := by
  have h : (toUnsigned w x : ℤ) = (x % 2 ^ w : ℕ) := by
    rw [toUnsigned_cast]
    norm_cast
  exact_mod_cast h

theorem toSigned_of_mem {w : ℕ} {x : ℤ} (hl : -(2 ^ w : ℕ) ≤ x * 2) (hu : x * 2 < (2 ^ w : ℕ)) :
    toSigned w x = x := Int.bmod_eq_of_le_mul_two hl hu

theorem toSigned_natCast {w x : ℕ} (h : 2 * x < 2 ^ w) : toSigned w x = x := by
  have h' : ((2 * x : ℕ) : ℤ) < (2 ^ w : ℕ) := by exact_mod_cast h
  exact toSigned_of_mem (by omega) (by omega)

theorem toSigned_32 (p : ℕ) :
    toSigned 32 p = if p % 2 ^ 32 < 2 ^ 31 then ((p % 2 ^ 32 : ℕ) : ℤ) else (p % 2 ^ 32 : ℕ) - 2 ^ 32 := by
  simp only [toSigned, Int.bmod]
  split <;> split <;> omega

/-- A signed conversion followed by an unsigned one of the same width only reduces once. -/
@[simp] theorem toUnsigned_toSigned (w : ℕ) (x : ℤ) : toUnsigned w (toSigned w x) = toUnsigned w x := by
  unfold toUnsigned toSigned
  rw [Int.bmod_emod]

theorem toSigned_toUnsigned {v w : ℕ} (h : v ≤ w) (x : ℤ) : toSigned v (toUnsigned w x) = toSigned v x := by
  have hdvd : ((2 ^ v : ℕ) : ℤ) ∣ (2 ^ w : ℕ) := by exact_mod_cast Nat.pow_dvd_pow 2 h
  rw [toSigned, toSigned, toUnsigned_cast, ← Int.emod_bmod, Int.emod_emod_of_dvd x hdvd, Int.emod_bmod]

/-- The two data models the library is built for. -/
inductive DataModel
  | ilp32
  | lp64
  deriving DecidableEq, Repr

/-- Width of `long`, `unsigned long`, `size_t`, `ssize_t` and of a pointer. -/
def DataModel.longBits : DataModel → ℕ
  | .ilp32 => 32
  | .lp64 => 64

theorem DataModel.two_pow_32_le (m : DataModel) : 2 ^ 32 ≤ 2 ^ m.longBits := by
  cases m <;> decide

def DataModel.toLong (m : DataModel) (x : ℤ) : ℤ := toSigned m.longBits x

def DataModel.toSizeT (m : DataModel) (x : ℤ) : ℕ := toUnsigned m.longBits x

theorem DataModel.toLong_of_lt (m : DataModel) {x : ℕ} (h : x < 2 ^ 31) : m.toLong x = x :=
  toSigned_natCast (by have := m.two_pow_32_le; omega)

theorem DataModel.toSizeT_of_lt (m : DataModel) {x : ℕ} (h : x < 2 ^ 32) : m.toSizeT x = x :=
  toUnsigned_of_lt (h.trans_le m.two_pow_32_le)

theorem DataModel.toSizeT_lt (m : DataModel) (x : ℤ) : m.toSizeT x < 2 ^ m.longBits := toUnsigned_lt _ _

@[simp] theorem DataModel.toSizeT_toLong (m : DataModel) (x : ℤ) : m.toSizeT (m.toLong x) = m.toSizeT x :=
  toUnsigned_toSigned _ x

end TiffJni.FixedWidth
