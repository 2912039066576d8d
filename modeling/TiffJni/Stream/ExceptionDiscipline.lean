import TiffJni.Stream.JavaInputStreamAdaptor

/-! # Pending exceptions across adaptor operations

Nothing is assumed of the stream here: every method may throw on every call and
answer anything. The log of an operation shows whether Java was invoked under a
pending exception, and the value the operation returned shows whether a failure
it met was reported.
-/
namespace TiffJni.Stream.JavaInputStreamAdaptor
open FixedWidth Jni
variable {σ : Type*} (m : DataModel) (S : InputStream σ)

inductive Operation
  | available
  | read (size : ℕ)
  | doSkip (size : ℕ)
  | reset
  | mark (readLimit : ℕ)
  deriving DecidableEq, Repr

/-- One operation: what it returned, zero for a `void` one, and the adaptor after it. A
`read` whose loop has not ended within `turns` turns has returned nothing. -/
def perform (turns : ℕ) (a : JavaInputStreamAdaptor σ) : Operation → Option ℕ × JavaInputStreamAdaptor σ
  | .available => (some (a.available m S).1,(a.available m S).2)
  | .read size => ((a.read m S turns size).1,(a.read m S turns size).2.2)
  | .doSkip size => (some (a.doSkip m S size).1,(a.doSkip m S size).2)
  | .reset => (some 0,a.reset S)
  | .mark readLimit => (some 0,a.mark S readLimit)

structure OperationRecord where
  operation : Operation
  events : List JniEvent
  returned : Option ℕ
  pendingAfter : Bool

def eventsSince (a a' : JavaInputStreamAdaptor σ) : List JniEvent :=
  a'.fEnv.events.take (a'.fEnv.events.length - a.fEnv.events.length)

/-- The records of a sequence of operations; it ends early in a `read` that does not return. -/
def runOperations (turns : ℕ) : List Operation → JavaInputStreamAdaptor σ → List OperationRecord
  | [], _ => []
  | op :: ops, a =>
    let (returned,a') := a.perform m S turns op
    ⟨op,a.eventsSince a',returned,a'.fEnv.exceptionPending⟩ ::
      match returned with
      | none => []
      | some _ => runOperations turns ops a'

/-- Calls that run Java code, as opposed to copying out of an array. -/
def InvokesJava : JniCall → Prop
  | .getByteArrayRegion _ _ => False
  | _ => True

def IsSkip : JniCall → Prop
  | .skip _ => True
  | _ => False

def IsReadOrCopy : JniCall → Prop
  | .read _ => True
  | .getByteArrayRegion _ _ => True
  | _ => False

structure Disciplined (r : OperationRecord) : Prop where
  notInvokedPending : ∀ e ∈ r.events, InvokesJava e.call → e.pending = false
  nothingPending : r.returned ≠ none → r.pendingAfter = false
  skipReported : ∀ n, r.operation = .doSkip n → JNIEnv.Threw r.events IsSkip → r.returned = some 0
  readReported : ∀ n, r.operation = .read n → JNIEnv.Threw r.events IsReadOrCopy → r.returned = some 0

/-- No `skip` call issued along the sequence throws. -/
def QuietSkips (turns : ℕ) : List Operation → JavaInputStreamAdaptor σ → Prop
  | [], _ => True
  | op :: ops, a =>
    (∀ n, op = .doSkip n → (S.skip a.fEnv.stream (toSigned 64 n)).1.threw = false) ∧
      ((a.perform m S turns op).1 ≠ none → QuietSkips turns ops (a.perform m S turns op).2)

variable {m S}

structure LogsQuietly (new : List JniEvent) (a a' : JavaInputStreamAdaptor σ) : Prop where
  events : a'.fEnv.events = new ++ a.fEnv.events
  notPending : ∀ e ∈ new, e.pending = false
  quiet : a'.fEnv.exceptionPending = false

theorem LogsQuietly.trans {new new' : List JniEvent} {a b d : JavaInputStreamAdaptor σ}
    (h : LogsQuietly new a b) (h' : LogsQuietly new' b d) : LogsQuietly (new' ++ new) a d where
  events := by rw [h'.events, h.events, List.append_assoc]
  notPending := by
    intro e he
    rcases List.mem_append.mp he with he | he
    · exact h'.notPending e he
    · exact h.notPending e he
  quiet := h'.quiet

theorem eventsSince_eq {new : List JniEvent} {a a' : JavaInputStreamAdaptor σ}
    (h : a'.fEnv.events = new ++ a.fEnv.events) : a.eventsSince a' = new := by
  rw [eventsSince, h, List.length_append, Nat.add_sub_cancel, List.take_left]

/-- `available` clears whatever is pending when it returns, its own exception or an older one. -/
theorem available_quiet (a : JavaInputStreamAdaptor σ) : (a.available m S).2.fEnv.exceptionPending = false := by
  simp only [available]
  split
  · rfl
  · next h => exact Bool.eq_false_iff.mpr h

theorem available_events (a : JavaInputStreamAdaptor σ) : (a.available m S).2.fEnv.events =
    ⟨.available,a.fEnv.exceptionPending,(S.available a.fEnv.stream).1.threw⟩ :: a.fEnv.events := by
  simp only [available]
  split <;> rfl

theorem available_logs {a : JavaInputStreamAdaptor σ} (ha : a.fEnv.exceptionPending = false) :
    LogsQuietly [⟨.available,false,(S.available a.fEnv.stream).1.threw⟩] a (a.available m S).2 where
  events := by
    rw [available_events, ha]
    rfl
  notPending := by simp
  quiet := available_quiet a

theorem not_threw_of_quiet {new : List JniEvent} {p : JniCall → Prop} (h : ∀ e ∈ new, e.threw = false) :
    ¬JNIEnv.Threw new p := by
  rintro ⟨e,he,-,ht⟩
  rw [h e he] at ht
  cases ht

/-- One turn of the loop over any stream: it leaves the loop, with `failed` when a call
threw, or it goes on from an adaptor that met no exception. -/
theorem doReadLoop_turn_logs {a : JavaInputStreamAdaptor σ} (ha : a.fEnv.exceptionPending = false)
    (turns size bytesRead : ℕ) (buffer : List UInt8) :
    (∃ new exit buffer' a', doReadLoop m S (turns + 1) a size bytesRead buffer = (some exit,buffer',a') ∧
      LogsQuietly new a a' ∧ (JNIEnv.Threw new IsReadOrCopy → exit = .failed)) ∨
    ∃ new size' bytesRead' buffer' a', doReadLoop m S (turns + 1) a size bytesRead buffer =
        doReadLoop m S turns a' size' bytesRead' buffer' ∧
      LogsQuietly new a a' ∧ ¬JNIEnv.Threw new IsReadOrCopy := by
  rw [doReadLoop]
  simp only [JNIEnv.exceptionCheck]
  have hread := JNIEnv.callRead_events S a.fEnv (a.requested m size)
  have hpending := JNIEnv.callRead_pending S a.fEnv (a.requested m size)
  rw [ha, Bool.false_or] at hpending
  rw [ha] at hread
  generalize (a.fEnv.callRead S (a.requested m size)).1 = n
  generalize (a.fEnv.callRead S (a.requested m size)).2 = env at hread hpending ⊢
  generalize (S.read a.fEnv.stream a.fEnv.array (a.requested m size)).1.threw = threw at hread hpending
  cases threw with
  | true =>
    simp only [hpending, ↓reduceIte]
    exact Or.inl ⟨[⟨.read (a.requested m size),false,true⟩],_,_,_,rfl,⟨hread,by simp,rfl⟩,fun _ => rfl⟩
  | false =>
    simp only [hpending, Bool.false_eq_true, ↓reduceIte]
    by_cases hn : n < 0
    · simp only [if_pos hn]
      exact Or.inl ⟨[⟨.read (a.requested m size),false,false⟩],_,_,_,rfl,⟨hread,by simp,hpending⟩,
        fun h => (not_threw_of_quiet (by simp) h).elim⟩
    simp only [if_neg hn]
    unfold JNIEnv.getByteArrayRegion
    by_cases hout : n < 0 ∨ env.array.data.length < n
    · simp only [if_pos hout, JNIEnv.log_pending, Bool.or_true, ↓reduceIte]
      refine Or.inl ⟨[⟨.getByteArrayRegion n buffer.length,false,true⟩,⟨.read (a.requested m size),false,false⟩],
        _,_,_,rfl,⟨?_,by simp,rfl⟩,fun _ => rfl⟩
      rw [JNIEnv.exceptionClear_events, JNIEnv.log_events, hread, hpending]
      rfl
    simp only [if_neg hout, JNIEnv.log_pending, hpending, Bool.or_self, Bool.false_eq_true, ↓reduceIte]
    have hturn : LogsQuietly [⟨.getByteArrayRegion n buffer.length,false,false⟩,
        ⟨.read (a.requested m size),false,false⟩] a { a with
          fEnv := env.log (.getByteArrayRegion n buffer.length) false
          fBytesRead := m.toSizeT (a.fBytesRead + n) } := by
      refine ⟨?_,by simp,by rw [JNIEnv.log_pending, hpending]; rfl⟩
      rw [JNIEnv.log_events, hread, hpending]
      rfl
    split
    · exact Or.inl ⟨_,_,_,_,rfl,hturn,fun h => (not_threw_of_quiet (by simp) h).elim⟩
    · exact Or.inr ⟨_,_,_,_,_,rfl,hturn,not_threw_of_quiet (by simp)⟩

/-- However many turns the loop has taken, it left with `failed` if one of its calls threw. -/
theorem doReadLoop_logs (turns : ℕ) {a : JavaInputStreamAdaptor σ} (ha : a.fEnv.exceptionPending = false)
    (size bytesRead : ℕ) (buffer : List UInt8) :
    ∃ new, LogsQuietly new a (doReadLoop m S turns a size bytesRead buffer).2.2 ∧
      (JNIEnv.Threw new IsReadOrCopy → (doReadLoop m S turns a size bytesRead buffer).1 = some .failed) := by
  induction turns generalizing a size bytesRead buffer with
  | zero => exact ⟨[],⟨rfl,by simp,ha⟩,by simp [JNIEnv.Threw]⟩
  | succ turns ih =>
    rcases doReadLoop_turn_logs (m := m) (S := S) ha turns size bytesRead buffer with
      ⟨new,exit,buffer',a',he,hnew,hfail⟩ | ⟨new,size',bytesRead',buffer',a',he,hnew,hquiet⟩
    · rw [he]
      exact ⟨new,hnew,fun h => congrArg some (hfail h)⟩
    · rw [he]
      obtain ⟨rest,hrest,hfail⟩ := ih hnew.quiet size' bytesRead' buffer'
      refine ⟨rest ++ new,hnew.trans hrest,?_⟩
      rintro ⟨e,hmem,hc,ht⟩
      rcases List.mem_append.mp hmem with hmem | hmem
      · exact hfail ⟨e,hmem,hc,ht⟩
      · exact (hquiet ⟨e,hmem,hc,ht⟩).elim

theorem read_logs (turns : ℕ) {a : JavaInputStreamAdaptor σ} (ha : a.fEnv.exceptionPending = false) (size : ℕ) :
    ∃ new, LogsQuietly new a (a.read m S turns size).2.2 ∧
      (JNIEnv.Threw new IsReadOrCopy → (a.read m S turns size).1 = some 0) := by
  obtain ⟨new,hnew,hfail⟩ := doReadLoop_logs (m := m) (S := S) turns ha size 0 []
  rw [read, doRead]
  rcases he : doReadLoop m S turns a size 0 [] with ⟨exit,buffer,a'⟩
  rw [he] at hnew hfail
  rcases exit with _ | _ | bytesRead
  · refine ⟨new,hnew,fun h => ?_⟩
    cases hfail h
  · exact ⟨new,hnew,fun _ => rfl⟩
  · refine ⟨_,hnew.trans (available_logs hnew.quiet),?_⟩
    rintro ⟨e,he',hc,ht⟩
    rcases List.mem_append.mp he' with he' | he'
    · rw [List.mem_singleton.mp he'] at hc
      exact hc.elim
    · cases hfail ⟨e,he',hc,ht⟩

/-- `doSkip` calls `available` before it looks for an exception, so the log of its two
calls carries the outcome of `skip` into the second. -/
theorem doSkip_events {a : JavaInputStreamAdaptor σ} (ha : a.fEnv.exceptionPending = false) (size : ℕ) :
    (a.doSkip m S size).2.fEnv.exceptionPending = false ∧ ∃ threw, (a.doSkip m S size).2.fEnv.events =
      [⟨.available,(S.skip a.fEnv.stream (toSigned 64 size)).1.threw,threw⟩,
        ⟨.skip (toSigned 64 size),false,(S.skip a.fEnv.stream (toSigned 64 size)).1.threw⟩] ++ a.fEnv.events := by
  let a₁ : JavaInputStreamAdaptor σ := { a with fEnv := (a.fEnv.callSkip S (toSigned 64 size)).2 }
  have hq := available_quiet (m := m) (S := S) a₁
  have he := available_events (m := m) (S := S) a₁
  have hstate : (a.doSkip m S size).2 = (a₁.available m S).2 := by
    simp only [a₁] at hq ⊢
    simp only [doSkip, JNIEnv.exceptionCheck, hq, Bool.false_eq_true, ↓reduceIte]
  rw [hstate]
  refine ⟨hq,(S.available a₁.fEnv.stream).1.threw,he.trans ?_⟩
  simp only [a₁, JNIEnv.callSkip_events, JNIEnv.callSkip_pending, ha, Bool.false_or]
  rfl

theorem reset_logs {a : JavaInputStreamAdaptor σ} (ha : a.fEnv.exceptionPending = false) :
    LogsQuietly [⟨.reset,false,(S.reset a.fEnv.stream).1⟩] a (a.reset S) := by
  simp only [reset]
  split
  · exact ⟨by simp [ha],by simp,rfl⟩
  · next h => exact ⟨by simp [ha],by simp,Bool.eq_false_iff.mpr h⟩

theorem mark_logs {a : JavaInputStreamAdaptor σ} (ha : a.fEnv.exceptionPending = false) (readLimit : ℕ) :
    LogsQuietly [⟨.mark (toSigned 32 readLimit),false,(S.mark a.fEnv.stream (toSigned 32 readLimit)).1⟩]
      a (a.mark S readLimit) := by
  simp only [mark]
  split
  · exact ⟨by simp [ha],by simp,rfl⟩
  · next h => exact ⟨by simp [ha],by simp,Bool.eq_false_iff.mpr h⟩

/-- Operations other than `doSkip` keep the discipline whatever the stream does. -/
theorem LogsQuietly.disciplined {new : List JniEvent} {a a' : JavaInputStreamAdaptor σ} (h : LogsQuietly new a a')
    {op : Operation} {returned : Option ℕ}
    (hskip : ∀ n, op = .doSkip n → JNIEnv.Threw new IsSkip → returned = some 0)
    (hread : ∀ n, op = .read n → JNIEnv.Threw new IsReadOrCopy → returned = some 0) :
    Disciplined ⟨op,a.eventsSince a',returned,a'.fEnv.exceptionPending⟩ := by
  rw [eventsSince_eq h.events]
  exact ⟨fun e he _ => h.notPending e he,fun _ => h.quiet,hskip,hread⟩

/-- One operation keeps the discipline exactly when it is not a `doSkip` whose `skip` throws. -/
theorem perform_disciplined (turns : ℕ) {a : JavaInputStreamAdaptor σ} (ha : a.fEnv.exceptionPending = false)
    (op : Operation) :
    (a.perform m S turns op).2.fEnv.exceptionPending = false ∧
    (Disciplined ⟨op,a.eventsSince (a.perform m S turns op).2,(a.perform m S turns op).1,
        (a.perform m S turns op).2.fEnv.exceptionPending⟩ ↔
      ∀ n, op = .doSkip n → (S.skip a.fEnv.stream (toSigned 64 n)).1.threw = false) := by
  cases op with
  | available =>
    have h := available_logs (m := m) (S := S) ha
    exact ⟨h.quiet,fun _ => by simp,fun _ => h.disciplined (by simp) (by simp)⟩
  | read size =>
    obtain ⟨new,h,hfail⟩ := read_logs (m := m) (S := S) turns ha size
    exact ⟨h.quiet,fun _ => by simp,fun _ => h.disciplined (by simp) (fun _ _ => hfail)⟩
  | reset =>
    have h := reset_logs (S := S) ha
    exact ⟨h.quiet,fun _ => by simp,fun _ => h.disciplined (by simp) (by simp)⟩
  | mark readLimit =>
    have h := mark_logs (S := S) ha readLimit
    exact ⟨h.quiet,fun _ => by simp,fun _ => h.disciplined (by simp) (by simp)⟩
  | doSkip size =>
    obtain ⟨hq,threw,he⟩ := doSkip_events (m := m) (S := S) ha size
    refine ⟨hq,?_,?_⟩
    · intro h n hn
      cases hn
      have hnew := h.notInvokedPending
      dsimp only [perform] at hnew
      rw [eventsSince_eq he] at hnew
      exact hnew _ (List.mem_cons_self ..) trivial
    · intro h
      have hs := h size rfl
      rw [hs] at he
      have hl : LogsQuietly [⟨.available,false,threw⟩,⟨.skip (toSigned 64 size),false,false⟩] a
          (a.doSkip m S size).2 := ⟨he,by simp,hq⟩
      refine hl.disciplined ?_ (by simp)
      rintro n - ⟨e,hmem,hc,ht⟩
      rcases List.mem_cons.mp hmem with rfl | hmem
      · exact hc.elim
      · rw [List.mem_singleton.mp hmem] at ht
        cases ht

/-- The records of a whole run are disciplined exactly when no `skip` along it throws. -/
theorem runOperations_disciplined {turns : ℕ} {ops : List Operation} {a : JavaInputStreamAdaptor σ}
    (ha : a.fEnv.exceptionPending = false) :
    (∀ r ∈ runOperations m S turns ops a, Disciplined r) ↔ QuietSkips m S turns ops a := by
  induction ops generalizing a with
  | nil => simp [runOperations,QuietSkips]
  | cons op ops ih =>
    obtain ⟨hq,hd⟩ := perform_disciplined (m := m) (S := S) turns ha op
    simp only [runOperations, QuietSkips, List.forall_mem_cons, hd]
    refine and_congr_right (fun _ => ?_)
    cases hr : (a.perform m S turns op).1 with
    | none => simp
    | some k => simpa using ih hq

/-- From the environment a native method is entered with, the exception discipline
holds of every operation of a sequence if and only if no `skip` it issues throws. -/
theorem exceptionDiscipline_iff (m : DataModel) (S : InputStream σ) (turns : ℕ) (ops : List Operation)
    (stream : σ) (array : JByteArray) :
    (∀ r ∈ runOperations m S turns ops (new (JNIEnv.enter stream array)), Disciplined r) ↔
      QuietSkips m S turns ops (new (JNIEnv.enter stream array)) :=
  runOperations_disciplined rfl

/-- A stream that has been closed: every method but `mark` throws. -/
def closedStream : InputStream Unit where
  available s := (⟨0,true⟩,s)
  read s _ _ := (⟨0,true⟩,[],s)
  skip s _ := (⟨0,true⟩,s)
  reset s := (true,s)
  mark s _ := (false,s)

/-- Skipping on a closed stream invokes `available` while the exception of `skip` is pending. -/
theorem closedStream_undisciplined :
    ¬∀ r ∈ runOperations .lp64 closedStream 1 [.doSkip 8] (new (JNIEnv.enter () .oneByte)),
      Disciplined r := by
  intro h
  have hd := (h _ (List.mem_cons_self ..)).notInvokedPending
  have hp := hd ⟨.available,true,true⟩ (by decide) trivial
  cases hp

end TiffJni.Stream.JavaInputStreamAdaptor
