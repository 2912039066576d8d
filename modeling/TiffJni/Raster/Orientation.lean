import Mathlib.Data.Nat.Notation
import Mathlib.Tactic.IntervalCases

/-! # Orientations

The value of the tag names the corner that the first row and the first column of a file are
at. `setorientation` answers how the picture has to be mirrored to start at the corner that was
asked for. It takes no notice of whether rows run across or down.
-/
namespace TiffJni.Raster

/-- The two bits of `flip`. -/
structure Flip where
  vertically : Bool
  horizontally : Bool
  deriving DecidableEq, Repr

def orientationTopLeft : ℕ := 1
def orientationTopRight : ℕ := 2
def orientationBotRight : ℕ := 3
def orientationBotLeft : ℕ := 4
def orientationLeftTop : ℕ := 5
def orientationRightTop : ℕ := 6
def orientationRightBot : ℕ := 7
def orientationLeftBot : ℕ := 8

def setorientation (orientation reqOrientation : ℕ) : Flip :=
  if orientation = orientationTopLeft ∨ orientation = orientationLeftTop then
    if reqOrientation = orientationTopRight ∨ reqOrientation = orientationRightTop then ⟨false,true⟩
    else if reqOrientation = orientationBotRight ∨ reqOrientation = orientationRightBot then ⟨true,true⟩
    else if reqOrientation = orientationBotLeft ∨ reqOrientation = orientationLeftBot then ⟨true,false⟩
    else ⟨false,false⟩
  else if orientation = orientationTopRight ∨ orientation = orientationRightTop then
    if reqOrientation = orientationTopLeft ∨ reqOrientation = orientationLeftTop then ⟨false,true⟩
    else if reqOrientation = orientationBotRight ∨ reqOrientation = orientationRightBot then ⟨true,false⟩
    else if reqOrientation = orientationBotLeft ∨ reqOrientation = orientationLeftBot then ⟨true,true⟩
    else ⟨false,false⟩
  else if orientation = orientationBotRight ∨ orientation = orientationRightBot then
    if reqOrientation = orientationTopLeft ∨ reqOrientation = orientationLeftTop then ⟨true,true⟩
    else if reqOrientation = orientationTopRight ∨ reqOrientation = orientationRightTop then ⟨true,false⟩
    else if reqOrientation = orientationBotLeft ∨ reqOrientation = orientationLeftBot then ⟨false,true⟩
    else ⟨false,false⟩
  else if orientation = orientationBotLeft ∨ orientation = orientationLeftBot then
    if reqOrientation = orientationTopLeft ∨ reqOrientation = orientationLeftTop then ⟨true,false⟩
    else if reqOrientation = orientationTopRight ∨ reqOrientation = orientationRightTop then ⟨true,true⟩
    else if reqOrientation = orientationBotRight ∨ reqOrientation = orientationRightBot then ⟨false,true⟩
    else ⟨false,false⟩
  else ⟨false,false⟩

/-- How a picture that starts at the top left has to be mirrored to start at the corner of the tag. -/
def corner (orientation : ℕ) : Flip :=
  ⟨orientation = orientationBotRight ∨ orientation = orientationBotLeft ∨ orientation = orientationRightBot ∨
      orientation = orientationLeftBot,
    orientation = orientationTopRight ∨ orientation = orientationBotRight ∨ orientation = orientationRightTop ∨
      orientation = orientationRightBot⟩

/-- The values the tag can have: `_TIFFVSetField` refuses any other. -/
def IsOrientation (orientation : ℕ) : Prop := 1 ≤ orientation ∧ orientation ≤ 8

instance (orientation : ℕ) : Decidable (IsOrientation orientation) := inferInstanceAs (Decidable (_ ∧ _))

theorem setorientation_eq {orientation reqOrientation : ℕ} (h : IsOrientation orientation)
    (hreq : IsOrientation reqOrientation) : setorientation orientation reqOrientation =
      ⟨(corner orientation).vertically ^^ (corner reqOrientation).vertically,
        (corner orientation).horizontally ^^ (corner reqOrientation).horizontally⟩ := by
  obtain ⟨hlo,hhi⟩ := h
  obtain ⟨hreqlo,hreqhi⟩ := hreq
  interval_cases orientation <;> interval_cases reqOrientation <;> decide

/-- The index of a row or a column after mirroring `n` of them. -/
def mirror (flip : Bool) (n i : ℕ) : ℕ := if flip then n - 1 - i else i

theorem mirror_lt (flip : Bool) {n i : ℕ} (h : i < n) : mirror flip n i < n := by
  unfold mirror
  split <;> omega

theorem mirror_mirror (flip : Bool) {n i : ℕ} (h : i < n) : mirror flip n (mirror flip n i) = i := by
  unfold mirror
  split <;> omega

theorem mirror_xor {f g : Bool} {n i : ℕ} (h : i < n) : mirror (f ^^ g) n i = mirror f n (mirror g n i) := by
  cases f <;> cases g <;> simp [mirror]
  omega

end TiffJni.Raster
