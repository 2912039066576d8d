import TiffJni.Reading.Parts

/-! # Stored images are shown

Down to the calls on the file: an image that is stored in a content is shown, wherever its strips or
tiles are and in whatever order, by every server that answers like a file with that content.
-/
namespace TiffJni.Reading
open FixedWidth Raster TiffJni.Stream Transcript

variable {ε τ : Type}

/-- A server whose calls are recorded serves what it serves, and the record leads from the first state to the last. -/
theorem Serves.recorded {calls : Server ε FileCall Answer τ} {c : List UInt8} {at_ : ℕ → τ → Prop}
    (h : Serves calls c at_) (start : τ) : Serves calls.recorded c fun p client =>
      at_ p client.1 ∧ calls.feed client.2 start = .ok client.1 where
  seek := by
    rintro p ⟨client,made⟩ offset ⟨hat,hmade⟩ hoffset
    obtain ⟨client',hcall,hat'⟩ := h.seek p client offset hat hoffset
    exact ⟨_,calls.recorded_call hcall,hat',calls.feed_concat hmade hcall⟩
  read := by
    rintro p ⟨client,made⟩ size ⟨hat,hmade⟩
    obtain ⟨client',hcall,hat'⟩ := h.read p client size hat
    exact ⟨_,calls.recorded_call hcall,hat',calls.feed_concat hmade hcall⟩

namespace Source
variable {s : Source ε τ} {c : List UInt8} {at_ : ℕ → τ → Prop}

/-- The image is one that is shown, and there is memory to read it. -/
structure Prepared (s : Source ε τ) (c : List UInt8) (tiled : Bool) (conversions : Conversions) (memory : Bool) (t : Tags)
    (room : ℤ → Bool) (stop : Bool) (img : RGBAImage) (put : Put) : Prop where
  layout : Layout s.d t tiled
  passes : Passes s.m conversions memory tiled s.d t room stop img put
  slack : Slack s.m s.d tiled
  orientation : IsOrientation t.orientation
  room : ∀ n, room n = true → 0 ≤ n
  roomy : s.Roomy
  small : c.length + 1024 ≤ 2 ^ 31

/-- Besides, its strips or tiles are stored in the content. -/
structure Showable (s : Source ε τ) (c : List UInt8) (tiled : Bool) (bytes : UInt32 → List UInt8) (conversions : Conversions)
    (memory : Bool) (t : Tags) (room : ℤ → Bool) (stop : Bool) (img : RGBAImage) (put : Put) : Prop
    extends s.Prepared c tiled conversions memory t room stop img put where
  holds : s.Holds c tiled bytes

section rendered
variable {tiled stop memory : Bool} {bytes : UInt32 → List UInt8} {conversions : Conversions} {t : Tags}
variable {room : ℤ → Bool} {img : RGBAImage} {put : Put} {turns orientation p : ℕ}

theorem Prepared.pos (h : s.Prepared c tiled conversions memory t room stop img put) : 0 < s.d.partSize s.m tiled :=
  (h.passes.ready.size_eq h.room).1

theorem Prepared.begun (h : s.Prepared c tiled conversions memory t room stop img put) : Begun s.d t stop img put :=
  rgbaImageBegin_begun h.layout.plain h.layout.samples h.passes.begun

/-- What the strips or tiles hold by another account that is as good. -/
theorem Showable.rendered_as (h : s.Showable c tiled bytes conversions memory t room stop img put)
    (hserves : Serves s.calls c at_) {held : UInt32 → List UInt8}
    (hheld : ∀ number < s.d.nstrips, s.contents tiled bytes number = held number) (raster : List Word) (tif : Tif τ)
    (hturns : s.d.imagewidth.toNat + s.d.imagelength.toNat < turns)
    (hraster : raster.length = s.d.imagewidth.toNat * s.d.imagelength.toNat) (horientation : IsOrientation orientation)
    (hat : at_ p tif.client) :
    ∃ tif', readRGBAImageOriented s.m conversions memory tiled s.d t (s.readEncoded tiled) room turns s.d.imagewidth
      s.d.imagelength raster orientation stop tif = some (true,rasterOf (corner orientation) s.d.imagewidth.toNat
        s.d.imagelength.toNat (scene t.orientation s.d.imagewidth.toNat s.d.imagelength.toNat
          (picture s.m s.d t img put tiled held)),tif') ∧ ∃ p', at_ p' tif'.client := by
  have hbegun := h.begun
  have hleaves : Leaves s.m s.d tiled (s.readEncoded tiled) (fun tif => ∃ p, at_ p tif.client) (Gives held) :=
    (readEncoded_gives hserves h.roomy h.small h.layout h.pos h.slack h.holds).mono
      fun number hnumber asked ok data hgives => by
        rw [Gives, ← hheld number hnumber]
        exact hgives
  have hcovers : Covers s.m s.d img put tiled held := by
    intro x hx y hy k hk
    obtain ⟨hnumber,-⟩ := partBytes_enough h.layout h.pos hx hy (hbegun.sample_lt h.layout.samples k hk)
    rw [← hheld _ hnumber]
    exact covers h.layout h.pos hbegun h.holds x hx y hy k hk
  rw [← rasterOf_setorientation h.orientation horientation]
  exact h.layout.shows_picture h.passes h.room hleaves hcovers h.slack hturns hraster ⟨p,hat⟩

end rendered

end Source

end TiffJni.Reading
