import TiffJni.Stream.SeekOutcomes

/-! # When the read callback falls short

`read` asks `available` first and never requests more than the answer, so it takes
an estimate for the end of the stream. It meets a request exactly when the estimate
covers what the request and the remaining content have in common.
-/
namespace TiffJni.Stream.TiffInputStream
open FixedWidth Jni Transcript
variable {σ : Type*} {m : DataModel} {S : InputStream σ} {c : List UInt8} {turns : ℕ}

/-- The bytes still to come; a file that has been closed has none. -/
def remaining (K : ReadContract S c) (ts : TiffInputStream (JavaInputStreamAdaptor σ)) : List UInt8 :=
  match ts.mInStream with
  | none => []
  | some inStream => c.drop (K.pos inStream.fEnv.stream)

def ReadComplete (m : DataModel) (K : ReadContract S c) (turns : ℕ)
    (ts : TiffInputStream (JavaInputStreamAdaptor σ)) (size : ℕ) : Prop :=
  ∃ ts', ts.read m S turns size = .ok
    (((min size (remaining K ts).length : ℕ),(remaining K ts).take (min size (remaining K ts).length)),ts')

/-- Over every stream that honours its contract, in every state and for every request, the
read callback is complete if and only if `available` covers what the request can get. -/
theorem read_complete_iff (K : StreamContract S c) (hturns : c.length < turns) {stream : σ}
    {ts : TiffInputStream (JavaInputStreamAdaptor σ)} (h : Reached m S turns stream ts) (size : ℕ) :
    ReadComplete m K.toReadContract turns ts size ↔ ∀ a, ts.mInStream = some a →
      (min size (remaining K.toReadContract ts).length : ℕ) ≤ (S.available a.fEnv.stream).1.value := by
  have hsound := h.sound K
  cases hs : ts.mInStream with
  | none =>
    constructor
    · intro _ a ha
      cases ha
    · intro _
      refine ⟨ts,?_⟩
      have hrem : remaining K.toReadContract ts = [] := by
        simp only [remaining, hs]
      rw [hrem, List.take_nil, List.length_nil, Nat.min_zero]
      exact read_closed hs turns size
  | some a =>
    obtain ⟨b,hread,-⟩ := read_contract hsound hs hturns size
    have hle := K.available_le a.fEnv.stream
    have hnn := K.available_nonneg a.fEnv.stream
    have hrem : remaining K.toReadContract ts = c.drop (K.pos a.fEnv.stream) := by
      simp only [remaining, hs]
    rw [hrem, List.length_drop]
    constructor
    · rintro ⟨ts',hcomplete⟩ a₁ ha
      cases ha
      rw [hread, hrem, List.length_drop] at hcomplete
      have hcount := congrArg (fun r => r.1.1) (Except.ok.inj hcomplete)
      dsimp only at hcount
      omega
    · intro hcovers
      have havail := hcovers a rfl
      have hmin : min (S.available a.fEnv.stream).1.value.toNat size =
          min size (c.length - K.pos a.fEnv.stream) := by omega
      rw [hmin] at hread
      refine ⟨{ ts with mInStream := some b },?_⟩
      rw [hread, hrem, List.length_drop]

theorem read_complete_iff_twoBytesIn :
    ReadComplete .lp64 (byteArrayContract [1,2,3] (by decide)).toReadContract 4 twoBytesIn 5 ↔
      ∀ a, twoBytesIn.mInStream = some a →
        (min 5 (remaining (byteArrayContract [1,2,3] (by decide)).toReadContract twoBytesIn).length : ℕ) ≤
          ((byteArrayInputStream [1,2,3]).available a.fEnv.stream).1.value :=
  read_complete_iff (byteArrayContract [1,2,3] (by decide)) (by decide) twoBytesIn_reached 5

def unhurriedOpened : TiffInputStream (JavaInputStreamAdaptor (ByteArrayState [1,2,3])) where
  mTif := some 0
  mInStream := some {
    fEnv := {
      stream := .new _
      array := .oneByte
      exceptionPending := false
      events := [⟨.mark 0,false,false⟩,⟨.available,false,false⟩] }
    fCapacity := 1
    fBytesRead := 0
    fIsAtEnd := false }
  mStreamLength := 0

/-- Three bytes remain, none of them is available without blocking, and a read of one gets nothing. -/
theorem unhurried_read_short :
    Reached .lp64 (unhurriedInputStream [1,2,3]) 4 (.new _) unhurriedOpened ∧
      ¬ReadComplete .lp64 (unhurriedContract [1,2,3] (by decide)).toReadContract 4 unhurriedOpened 1 := by
  constructor
  · refine ⟨.oneByte,[],some 0,unhurriedOpened,by decide,?_,[],rfl⟩
    decide +kernel
  rintro ⟨ts',hcomplete⟩
  have hcount := congrArg (Except.map fun r => r.1.1) hcomplete
  have hread : (unhurriedOpened.read .lp64 (unhurriedInputStream [1,2,3]) 4 1).map (fun r => r.1.1) = .ok 0 := by
    decide +kernel
  cases Except.ok.inj (hread.symm.trans hcount)

end TiffJni.Stream.TiffInputStream
