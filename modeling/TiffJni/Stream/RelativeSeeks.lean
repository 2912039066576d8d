import TiffJni.Stream.SeekOutcomes

/-! # Relative seeks are not those of `lseek`

`seek` answers with the displacement it was given, whatever the displacement counts
from, and `SEEK_END` skips as far behind the mark as it should end up before the end.
A relative seek is the one libtiff asks for exactly where its displacement counts from
zero.
-/
namespace TiffJni.Stream.TiffInputStream
open FixedWidth Jni Transcript
variable {σ : Type*} {m : DataModel} {S : InputStream σ} {c : List UInt8} {start turns : ℕ}
  {ts : TiffInputStream (JavaInputStreamAdaptor σ)} {a : JavaInputStreamAdaptor σ}

inductive RelativeOrigin
  | seekCur
  | seekEnd
  deriving DecidableEq, Repr

namespace RelativeOrigin

def value : RelativeOrigin → ℤ
  | .seekCur => TiffInputStream.seekCur
  | .seekEnd => TiffInputStream.seekEnd

/-- What a displacement counts from, at a position in a file of the given length. -/
def base (pos length : ℕ) : RelativeOrigin → ℕ
  | .seekCur => pos
  | .seekEnd => length

end RelativeOrigin

/-- A seek by `d` in a file that begins at `start` moves to `target`, answers with it, and the next read starts there. -/
structure FollowsLseek (m : DataModel) (K : ExactContract S c) (start turns : ℕ)
    (ts : TiffInputStream (JavaInputStreamAdaptor σ)) (origin : RelativeOrigin) (d : ℤ) (target : ℕ) : Prop where
  answer : (ts.seek m S (UInt64.ofInt d) origin.value).1.toNat = target
  moved : ∀ a, (ts.seek m S (UInt64.ofInt d) origin.value).2.mInStream = some a →
    K.pos a.fEnv.stream = start + target
  delivers : ∀ size : ℕ, ∃ ts', (ts.seek m S (UInt64.ofInt d) origin.value).2.read m S turns size =
    .ok (((((c.drop start).drop target).take size).length,((c.drop start).drop target).take size),ts')

theorem toNat_ofInt (d : ℤ) : (UInt64.ofInt d).toNat = (d % 2 ^ 64).toNat := by
  rw [UInt64.ofInt, UInt64.toNat_ofNat']
  omega

theorem seek_open (hs : ts.mInStream = some a) (offset : UInt64) (origin : ℤ) : ts.seek m S offset origin =
    (offset,{ ts with mInStream := some (seekSwitch m S ts.mStreamLength a (toUnsigned 32 offset.toNat) origin) }) := by
  simp only [seek, seekInt_open m S hs, if_true]

theorem seek_cur_pos (K : ExactContract S c) (mStreamLength : ℤ) (a : JavaInputStreamAdaptor σ) (offset : UInt64) :
    K.pos (seekSwitch m S mStreamLength a (toUnsigned 32 offset.toNat) seekCur).fEnv.stream =
      min (K.pos a.fEnv.stream + offset.toNat % 2 ^ 32) c.length := by
  have hlt : offset.toNat % 2 ^ 32 < 2 ^ 32 := Nat.mod_lt _ (by decide)
  rw [seekSwitch, if_neg (by decide), if_pos rfl, skipSize_eq, JavaInputStreamAdaptor.doSkip_stream, K.available_pos,
    toSigned_natCast (by omega), K.skip_exact]

theorem pos_of_empty (K : ExactContract S c) {stream : σ} (hempty : c.length - K.pos stream = 0)
    (h : Reached m S turns stream ts) (ha : ts.mInStream = some a) : K.pos a.fEnv.stream = K.pos stream := by
  have hahead := h.ahead K a ha
  have hle := K.pos_le a.fEnv.stream
  omega

/-- Over a stream that behaves as `ByteArrayInputStream` does, opened wherever it stood, in every state of an open file and
for every displacement whose target lies inside the content, a relative seek is that of `lseek` if and only if what the
displacement counts from is zero. -/
theorem relative_seek_iff (K : ExactContract S c) (hturns : c.length < turns) {stream : σ}
    (h : Reached m S turns stream ts) (hs : ts.mInStream = some a) (origin : RelativeOrigin) (d : ℤ) (target : ℕ)
    (hle : target ≤ c.length - K.pos stream)
    (htarget : origin.base (K.pos a.fEnv.stream - K.pos stream) (c.length - K.pos stream) + d = target) :
    FollowsLseek m K (K.pos stream) turns ts origin d target ↔
      origin.base (K.pos a.fEnv.stream - K.pos stream) (c.length - K.pos stream) = 0 := by
  have hsound := h.sound K.toStreamContract
  have hsmall := K.rest_lt stream
  have hpos := K.pos_le a.fEnv.stream
  have hahead := h.ahead K a hs
  have hseek := seek_open (m := m) (S := S) hs (UInt64.ofInt d) origin.value
  have hbase : origin.base (K.pos a.fEnv.stream - K.pos stream) (c.length - K.pos stream) ≤
      c.length - K.pos stream := by
    cases origin with
    | seekCur =>
      change K.pos a.fEnv.stream - K.pos stream ≤ _
      omega
    | seekEnd => exact Nat.le_refl _
  constructor
  · intro hfollows
    have htoff := hfollows.answer
    rw [hseek, toNat_ofInt] at htoff
    omega
  · intro hzero
    have htoff : (UInt64.ofInt d).toNat = target := by
      rw [toNat_ofInt]
      omega
    have hsound' : Sound m K.toStreamContract (K.pos stream) (ts.seek m S (UInt64.ofInt d) origin.value).2 :=
      seekInt_sound hsound _ _
    have hcall : ts.callback m S turns (.seek (UInt64.ofInt d) origin.value) =
        .ok (.offset (ts.seek m S (UInt64.ofInt d) origin.value).1,(ts.seek m S (UInt64.ofInt d) origin.value).2) := rfl
    have hreached : Reached m S turns stream (ts.seek m S (UInt64.ofInt d) origin.value).2 := h.call hcall
    rw [hseek] at hsound' hreached
    have hmoved : K.pos (seekSwitch m S ts.mStreamLength a (toUnsigned 32 (UInt64.ofInt d).toNat)
        origin.value).fEnv.stream = K.pos stream + target := by
      cases origin with
      | seekCur =>
        have hzero : K.pos a.fEnv.stream - K.pos stream = 0 := hzero
        refine (seek_cur_pos K _ _ _).trans ?_
        rw [htoff]
        omega
      | seekEnd =>
        have hempty : c.length - K.pos stream = 0 := hzero
        rw [pos_of_empty K hempty hreached rfl]
        omega
    refine ⟨by rw [hseek, htoff],?_,?_⟩
    · intro b hb
      rw [hseek] at hb
      cases hb
      exact hmoved
    · intro size
      obtain ⟨b,hread,-⟩ := read_exact K hsound' rfl hturns size
      rw [hmoved, ← List.drop_drop] at hread
      rw [hseek]
      exact ⟨_,hread⟩

/-- Two of three bytes have been read, so going one byte on counts from two. -/
theorem relative_seek_iff_twoBytesIn :
    FollowsLseek .lp64 (byteArrayExact [1,2,3] (by decide)) 0 4 twoBytesIn .seekCur 1 3 ↔
      RelativeOrigin.base 2 3 .seekCur = 0 :=
  relative_seek_iff (byteArrayExact [1,2,3] (by decide)) (by decide) twoBytesIn_reached rfl .seekCur 1 3 (by decide) rfl

/-- After two of three bytes, a seek by nothing from the current position answers that the
position is zero. -/
theorem tell_answers_zero :
    Reached .lp64 (byteArrayInputStream [1,2,3]) 4 (.new _) twoBytesIn ∧
      ¬FollowsLseek .lp64 (byteArrayExact [1,2,3] (by decide)) 0 4 twoBytesIn .seekCur 0 2 := by
  refine ⟨twoBytesIn_reached,?_⟩
  intro h
  have hanswer := h.answer
  revert hanswer
  decide +kernel

end TiffJni.Stream.TiffInputStream
