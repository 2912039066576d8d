import TiffJni.Stream.ReferenceFile
import Mathlib.Data.UInt

/-! # What an absolute seek reports

`seekInt` returns true on every open stream, so `seek` answers with the offset it
was given whatever `reset` and `skip` did, and whatever the narrowing to 32 bits
left of it. The two conditions under which that answer is right are exact.
-/
namespace TiffJni.Stream.TiffInputStream
open FixedWidth Jni Transcript
variable {σ : Type*} {m : DataModel} {S : InputStream σ} {c : List UInt8} {turns : ℕ}

/-- Going to `n` bytes after the mark fails: `reset` throws, or `skip` falls short. -/
def SeekFails (S : InputStream σ) (a : JavaInputStreamAdaptor σ) (n : ℕ) : Prop :=
  (S.reset a.fEnv.stream).1 = true ∨ (S.skip (S.reset a.fEnv.stream).2 n).1.value < n

/-- An absolute seek over content marked at `start` reports success exactly where it succeeded. -/
structure SeekReported (m : DataModel) (K : StreamContract S c) (start turns : ℕ)
    (ts : TiffInputStream (JavaInputStreamAdaptor σ)) (offset : UInt64) : Prop where
  positioned : (ts.seek m S offset seekBeg).1 = offset →
    ∀ a, (ts.seek m S offset seekBeg).2.mInStream = some a → K.pos a.fEnv.stream = start + offset.toNat
  delivers : (ts.seek m S offset seekBeg).1 = offset → ∀ size : ℕ, ∃ r ts',
    (ts.seek m S offset seekBeg).2.read m S turns size = .ok (r,ts') ∧ r.2 <+: c.drop (start + offset.toNat)
  failure : ∀ a, ts.mInStream = some a → SeekFails S a offset.toNat → (ts.seek m S offset seekBeg).1 = -1

theorem ne_neg_one_of_lt {offset : UInt64} (h : offset.toNat < 2 ^ 31) : offset ≠ -1 := by
  rintro rfl
  exact absurd h (by decide)

/-- Where neither step fails, the stream ends up at the offset. -/
theorem seek_pos_of_not_fails {K : StreamContract S c} {start : ℕ} {ts : TiffInputStream (JavaInputStreamAdaptor σ)}
    (h : Sound m K start ts) {a : JavaInputStreamAdaptor σ} (hs : ts.mInStream = some a) {offset : UInt64}
    (hoff : offset.toNat < 2 ^ 31) (hok : ¬SeekFails S a offset.toNat) :
    ∃ a', ts.seek m S offset seekBeg = (offset,{ ts with mInStream := some a' }) ∧
      K.pos a'.fEnv.stream = start + offset.toNat := by
  obtain ⟨hreset,hskip⟩ := not_or.mp hok
  obtain ⟨a',he,hpos⟩ := seek_beg (m := m) K hs offset
  obtain ⟨k,hv,hle,hmove⟩ := K.skip_spec (S.reset a.fEnv.stream).2 offset.toNat (by omega)
  have hk : k = offset.toNat := by omega
  refine ⟨a',he,?_⟩
  rw [hpos, Nat.mod_eq_of_lt (by omega), hmove, K.reset_pos _ (Bool.eq_false_iff.mpr hreset), h.marked a hs, hk]

def twoBytesIn : TiffInputStream (JavaInputStreamAdaptor (ByteArrayState [1,2,3])) where
  mTif := some 0
  mInStream := some {
    fEnv := {
      stream := ⟨2,0,by decide,by decide⟩
      array := ⟨[2],by decide⟩
      exceptionPending := false
      events := [⟨.available,false,false⟩,⟨.getByteArrayRegion 1 1,false,false⟩,⟨.read 1,false,false⟩,
        ⟨.getByteArrayRegion 1 0,false,false⟩,⟨.read 1,false,false⟩,⟨.available,false,false⟩,
        ⟨.mark 6,false,false⟩,⟨.available,false,false⟩] }
    fCapacity := 1
    fBytesRead := 2
    fIsAtEnd := false }
  mStreamLength := 3

theorem twoBytesIn_reached : Reached .lp64 (byteArrayInputStream [1,2,3]) 4 (.new _) twoBytesIn := by
  refine ⟨.oneByte,[.read 2],some 0,twoBytesIn,by decide,?_,[],rfl⟩
  decide +kernel

/-- Over any stream that honours its contract, in every state and for every offset
inside the content, a seek reports its outcome truthfully if and only if the file is
closed or `reset` does not throw and `skip` moves over the whole offset. -/
theorem seek_reported_iff (K : StreamContract S c) (hc : c.length < 2 ^ 31) (hturns : c.length < turns)
    {stream : σ} {ts : TiffInputStream (JavaInputStreamAdaptor σ)} (h : Reached m S turns stream ts)
    (offset : UInt64) (hoff : K.pos stream + offset.toNat ≤ c.length) :
    SeekReported m K (K.pos stream) turns ts offset ↔
      ∀ a, ts.mInStream = some a → ¬SeekFails S a offset.toNat := by
  have hsound := h.sound K
  have hne : offset ≠ -1 := ne_neg_one_of_lt (by omega)
  constructor
  · intro hr a hs hfails
    obtain ⟨a',he,-⟩ := seek_beg (m := m) K hs offset
    have hanswer := hr.failure a hs hfails
    rw [he] at hanswer
    exact hne hanswer
  · intro hok
    cases hs : ts.mInStream with
    | none =>
      have hclosed := seek_closed (m := m) (S := S) hs offset seekBeg
      constructor
      · intro he
        rw [hclosed] at he
        exact absurd he.symm hne
      · intro he
        rw [hclosed] at he
        exact absurd he.symm hne
      · intro a ha
        rw [hs] at ha
        cases ha
    | some a =>
      obtain ⟨a',he,hpos⟩ := seek_pos_of_not_fails hsound hs (by omega) (hok a hs)
      have hsound' : Sound m K (K.pos stream) (ts.seek m S offset seekBeg).2 := seekInt_sound hsound _ _
      rw [he] at hsound'
      constructor
      · intro _ b hb
        rw [he] at hb
        cases hb
        exact hpos
      · intro _ size
        obtain ⟨b,hb,-⟩ := read_contract hsound' rfl hturns size
        rw [hpos] at hb
        exact ⟨_,_,by rw [he, hb],List.take_prefix _ _⟩
      · intro b hb hfails
        rw [hs] at hb
        cases hb
        exact absurd hfails (hok a hs)

theorem seek_reported_iff_twoBytesIn :
    SeekReported .lp64 (byteArrayContract [1,2,3] (by decide)) 0 4 twoBytesIn 1 ↔
      ∀ a, twoBytesIn.mInStream = some a → ¬SeekFails (byteArrayInputStream [1,2,3]) a 1 :=
  seek_reported_iff (byteArrayContract [1,2,3] (by decide)) (by decide) (by decide) twoBytesIn_reached 1 (by decide)

/-- After two bytes, going back to the start of a stream without mark support is
reported as a success although the stream still stands at the third byte. -/
theorem unmarkable_seek_misreported :
    Reached .lp64 (unmarkableInputStream [1,2,3]) 4 (.new _) twoBytesIn ∧
      ¬SeekReported .lp64 (unmarkableContract [1,2,3] (by decide)) 0 4 twoBytesIn 0 := by
  constructor
  · refine ⟨.oneByte,[.read 2],some 0,twoBytesIn,by decide,?_,[],rfl⟩
    decide +kernel
  intro h
  have hpos := h.positioned rfl _ rfl
  cases hpos

section Truncation
variable {ts : TiffInputStream (JavaInputStreamAdaptor σ)}

/-- A seek that answers with its offset leaves the next read at that offset of the content `rest`. -/
def SeekExact (m : DataModel) (S : InputStream σ) (rest : List UInt8) (turns : ℕ)
    (ts : TiffInputStream (JavaInputStreamAdaptor σ)) (offset : UInt64) : Prop :=
  (ts.seek m S offset seekBeg).1 = offset → ∀ size : ℕ, ∃ ts', (ts.seek m S offset seekBeg).2.read m S turns size =
    .ok ((((rest.drop offset.toNat).take size).length,(rest.drop offset.toNat).take size),ts')

theorem read_after_seek {K : ExactContract S c} {start : ℕ} (h : Sound m K.toStreamContract start ts)
    (hturns : c.length < turns) {a : JavaInputStreamAdaptor σ} (hs : ts.mInStream = some a) (offset : UInt64) (size : ℕ) :
    ∃ ts', (ts.seek m S offset seekBeg).2.read m S turns size =
      .ok (((((c.drop start).drop (offset.toNat % 2 ^ 32)).take size).length,
        ((c.drop start).drop (offset.toNat % 2 ^ 32)).take size),ts') := by
  have hsound : Sound m K.toStreamContract start (ts.seek m S offset seekBeg).2 := seekInt_sound h _ _
  obtain ⟨a',he,hpos⟩ := seek_beg_exact K h hs offset
  rw [he] at hsound ⊢
  obtain ⟨b,hread,-⟩ := read_exact K hsound rfl hturns size
  rw [hpos, drop_min_length, ← List.drop_drop] at hread
  exact ⟨_,hread⟩

/-- Over a stream that behaves as `ByteArrayInputStream` does, opened wherever it stood, in every state and for every
64-bit offset, a seek that reports success is followed by the bytes at the offset if and only if the file is
closed, the offset fits 32 bits, or its low 32 bits lie past the content. -/
theorem seek_exact_iff (K : ExactContract S c) (hturns : c.length < turns) {stream : σ}
    (h : Reached m S turns stream ts) (offset : UInt64) :
    SeekExact m S (c.drop (K.pos stream)) turns ts offset ↔ ts.mInStream = none ∨ offset.toNat < 2 ^ 32 ∨
      (c.drop (K.pos stream)).length ≤ offset.toNat % 2 ^ 32 := by
  have hsound := h.sound K.toStreamContract
  have hlt : (c.drop (K.pos stream)).length < 2 ^ 31 := by
    rw [List.length_drop]
    exact K.rest_lt stream
  generalize hrest : c.drop (K.pos stream) = rest at hlt ⊢
  cases hs : ts.mInStream with
  | none =>
    have hclosed := seek_closed (m := m) (S := S) hs offset seekBeg
    refine ⟨fun _ => Or.inl rfl,fun _ he size => ⟨ts,?_⟩⟩
    rw [hclosed] at he ⊢
    have hend : rest.length ≤ offset.toNat := by
      rw [← he]
      exact (hlt.trans (show 2 ^ 31 < (-1 : UInt64).toNat by decide)).le
    rw [read_closed hs, List.drop_eq_nil_of_le hend, List.take_nil]
    rfl
  | some a =>
    obtain ⟨a',he,-⟩ := seek_beg (m := m) K.toStreamContract hs offset
    constructor
    · intro hexact
      by_contra hnot
      simp only [reduceCtorEq, false_or, not_or, not_lt, not_le] at hnot
      obtain ⟨hfar,hinside⟩ := hnot
      obtain ⟨ts₁,hread⟩ := hexact (by rw [he]) 1
      obtain ⟨ts₂,hread'⟩ := read_after_seek hsound hturns hs offset 1
      rw [hrest, hread] at hread'
      have hlen := congrArg List.length (congrArg (fun r => r.1.2) (Except.ok.inj hread'))
      simp only [List.length_take, List.length_drop] at hlen
      omega
    · rintro (hnone | hfits | hpast) - size
      · cases hnone
      · obtain ⟨ts',hread⟩ := read_after_seek hsound hturns hs offset size
        rw [hrest, Nat.mod_eq_of_lt hfits] at hread
        exact ⟨ts',hread⟩
      · obtain ⟨ts',hread⟩ := read_after_seek hsound hturns hs offset size
        have hle := Nat.mod_le offset.toNat (2 ^ 32)
        rw [hrest, List.drop_eq_nil_of_le hpast] at hread
        rw [List.drop_eq_nil_of_le (hpast.trans hle)]
        exact ⟨ts',hread⟩

theorem seek_exact_iff_twoBytesIn : SeekExact .lp64 (byteArrayInputStream [1,2,3]) [1,2,3] 4 twoBytesIn 1 ↔
    twoBytesIn.mInStream = none ∨ (1 : UInt64).toNat < 2 ^ 32 ∨ [1,2,3].length ≤ (1 : UInt64).toNat % 2 ^ 32 :=
  seek_exact_iff (byteArrayExact [1,2,3] (by decide)) (by decide) twoBytesIn_reached 1

/-- A seek to `2 ^ 32` over three bytes reports success, and the read after it delivers the first byte. -/
theorem truncated_seek_inexact :
    Reached .lp64 (byteArrayInputStream [1,2,3]) 4 (.new _) twoBytesIn ∧
      ¬SeekExact .lp64 (byteArrayInputStream [1,2,3]) [1,2,3] 4 twoBytesIn (2 ^ 32) := by
  refine ⟨twoBytesIn_reached,?_⟩
  intro h
  obtain ⟨ts',hread⟩ := h (by decide +kernel) 1
  have hdelivered : (read .lp64 (byteArrayInputStream [1,2,3]) 4
      (seek .lp64 (byteArrayInputStream [1,2,3]) twoBytesIn (2 ^ 32) seekBeg).2 1).map (fun r => r.1.2) = .ok [1] := by
    decide +kernel
  have hbytes := (congrArg (Except.map fun r => r.1.2) hread).symm.trans hdelivered
  have hinside : ([1,2,3].drop (2 ^ 32 : UInt64).toNat).take 1 = ([1] : List UInt8) := Except.ok.inj hbytes
  revert hinside
  decide +kernel

end Truncation

end TiffJni.Stream.TiffInputStream
