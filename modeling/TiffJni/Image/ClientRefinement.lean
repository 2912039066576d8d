import TiffJni.Image.NativeEffects

/-! # Files on the native heap are the files of the stream model

Where one open file is studied a `TiffInputStream` contains its adaptor; on the native
heap it points to it. The client procedures answer alike in both, so what is proved about
every reachable state of a stream file holds of the files a native call opens.
-/
namespace TiffJni.Image.Native
open FixedWidth Jni TiffJni.Stream Machine
variable {σ : Type} {m : DataModel} {S : InputStream σ} {turns : ℕ} {n n' : Native σ} {fd : ℕ}
  {raw : TiffInputStream ℕ} {ts ts' : TiffInputStream (JavaInputStreamAdaptor σ)}

/-- Every object of `n` is in `n'` as it was. -/
def Includes (n n' : Native σ) : Prop := ∀ x o, n.heap.cells x = some o → n'.heap.cells x = some o

theorem Includes.of_alloc {o : NativeObject σ} (h : n'.heap = n.heap.alloc o) : Includes n n' := by
  intro x o' hx
  rw [h, Heap.alloc_of_ne (Heap.lt_next_of_cell hx).ne, hx]

theorem Includes.of_heap (h : n'.heap = n.heap) : Includes n n' := fun x o hx => by rw [h, hx]

inductive LeadsTo (n : Native σ) : Option ℕ → Option (JavaInputStreamAdaptor σ) → Prop
  | null : LeadsTo n none none
  | adaptor {p a} (h : n.heap.cells p = some (.javaInputStreamAdaptor a)) : LeadsTo n (some p) (some a)

theorem LeadsTo.store {p : Option ℕ} {inStream : Option (JavaInputStreamAdaptor σ)} {o : NativeObject σ}
    (h : LeadsTo n p inStream) (hc : n.heap.cells fd = some (.tiffInputStream raw)) :
    LeadsTo { n with heap := n.heap.store fd o } p inStream := by
  cases h with
  | null => exact .null
  | @adaptor q a ha =>
    refine .adaptor ((Heap.store_of_ne ?_).trans ha)
    rintro rfl
    cases ha.symm.trans hc

theorem LeadsTo.mono {p : Option ℕ} {inStream : Option (JavaInputStreamAdaptor σ)} (h : LeadsTo n p inStream)
    (hn : Includes n n') : LeadsTo n' p inStream := by
  cases h with
  | null => exact .null
  | adaptor ha => exact .adaptor (hn _ _ ha)

/-- `raw`, with the adaptor behind its pointer in its place, is `ts`. -/
structure Matches (n : Native σ) (raw : TiffInputStream ℕ) (ts : TiffInputStream (JavaInputStreamAdaptor σ)) :
    Prop where
  tif : ts.mTif = raw.mTif
  length : ts.mStreamLength = raw.mStreamLength
  inStream : LeadsTo n raw.mInStream ts.mInStream

def Represents (n : Native σ) (fd : ℕ) (ts : TiffInputStream (JavaInputStreamAdaptor σ)) : Prop :=
  ∃ raw, n.heap.cells fd = some (.tiffInputStream raw) ∧ Matches n raw ts

theorem Represents.mono (h : Represents n fd ts) (hn : Includes n n') : Represents n' fd ts := by
  obtain ⟨raw,hraw,htif,hlength,hin⟩ := h
  exact ⟨raw,hn _ _ hraw,htif,hlength,hin.mono hn⟩

theorem Matches.setTif (h : Matches n raw ts) (hraw : n.heap.cells fd = some (.tiffInputStream raw)) (tif : Option ℕ) :
    Represents { n with heap := n.heap.store fd (.tiffInputStream { raw with mTif := tif }) } fd
      { ts with mTif := tif } :=
  ⟨_,Heap.store_self (Heap.lt_next_of_cell hraw),rfl,h.length,h.inStream.store hraw⟩

theorem Matches.none_iff (h : Matches n raw ts) : raw.mInStream = none ↔ ts.mInStream = none := by
  obtain ⟨-,-,hin⟩ := h
  cases hr : raw.mInStream with
  | none =>
    rw [hr] at hin
    cases hts : ts.mInStream with
    | none => simp
    | some a =>
      rw [hts] at hin
      cases hin
  | some p =>
    rw [hr] at hin
    cases hts : ts.mInStream with
    | none =>
      rw [hts] at hin
      cases hin
    | some a => simp

theorem Matches.eq_assemble {a : JavaInputStreamAdaptor σ} (h : Matches n raw ts) (ha : ts.mInStream = some a) :
    assemble raw (some a) = ts := by
  obtain ⟨mTif,mInStream,mStreamLength⟩ := ts
  obtain ⟨htif,hlength,-⟩ := h
  cases ha
  rw [assemble, ← htif, ← hlength]

/-- What leaves the adaptor alone does the same to the pointer as to the adaptor in its place. -/
theorem onPointer_callback (h : Matches n raw ts) {call : Callback}
    (hcall : raw.mInStream = none ∨ reachesAdaptor call = false) :
    ∃ ts', ts.callback m S turns call = .ok ((onPointer m raw call).1,ts') ∧
      Matches n (onPointer m raw call).2 ts' := by
  cases call with
  | read size =>
    have hnone := h.none_iff.mp (hcall.resolve_right (by simp [reachesAdaptor]))
    refine ⟨ts,?_,h⟩
    simp only [TiffInputStream.callback, TiffInputStream.read, hnone, onPointer]
  | seek offset origin =>
    have hnone := h.none_iff.mp (hcall.resolve_right (by simp [reachesAdaptor]))
    refine ⟨ts,?_,h⟩
    simp only [TiffInputStream.callback, TiffInputStream.seek, TiffInputStream.seekInt_closed m S hnone, onPointer,
      Bool.false_eq_true, ↓reduceIte]
  | write size => exact ⟨ts,rfl,h⟩
  | size =>
    refine ⟨ts,?_,h⟩
    simp only [TiffInputStream.callback, TiffInputStream.size, TiffInputStream.getSize, onPointer, h.length]
  | close =>
    have hclosed := h.none_iff
    obtain ⟨htif,hlength,hin⟩ := h
    simp only [TiffInputStream.callback, TiffInputStream.close, onPointer]
    cases hr : raw.mInStream with
    | none =>
      rw [hclosed.mp hr]
      rw [hr] at hin
      rw [hclosed.mp hr] at hin
      refine ⟨ts,rfl,htif,hlength,?_⟩
      rw [hr, hclosed.mp hr]
      exact hin
    | some p =>
      cases hts : ts.mInStream with
      | none => cases hr.symm.trans (hclosed.mpr hts)
      | some a => exact ⟨_,rfl,htif,hlength,.null⟩
  | map => exact ⟨ts,rfl,h⟩
  | unmap => exact ⟨ts,rfl,h⟩

theorem callback_adaptor {a : JavaInputStreamAdaptor σ} (ha : ts.mInStream = some a) {call : Callback}
    (hcall : reachesAdaptor call = true) {answer : Answer} (h : ts.callback m S turns call = .ok (answer,ts')) :
    ∃ b, ts' = { ts with mInStream := some b } := by
  cases call with
  | read size =>
    simp only [TiffInputStream.callback, TiffInputStream.read, ha] at h
    split at h
    · cases h
    · rename_i hread
      split at hread
      · cases hread
      · cases hread
        cases h
        exact ⟨_,rfl⟩
  | seek offset origin =>
    simp only [TiffInputStream.callback, TiffInputStream.seek, TiffInputStream.seekInt_open m S ha] at h
    cases h
    exact ⟨_,rfl⟩
  | write size => cases hcall
  | size => cases hcall
  | close => cases hcall
  | map => cases hcall
  | unmap => cases hcall

/-- A client procedure on the heap answers as the callback of the file it represents. -/
theorem clientProc_refines (h : Represents n fd ts) (call : Callback) : (clientProc m S turns fd call).Ends n
    (fun answer n' => ∃ ts', ts.callback m S turns call = .ok (answer,ts') ∧ Represents n' fd ts')
    (fun stop _ => stop = .stillRunning ∧ ts.callback m S turns call = .error .stillRunning) := by
  obtain ⟨raw,hraw,hmatches⟩ := h
  have hlt := Heap.lt_next_of_cell hraw
  have hpointer : raw.mInStream = none ∨ reachesAdaptor call = false → (do
      store fd (.tiffInputStream (onPointer m raw call).2)
      return (onPointer m raw call).1 : NativeProgram σ Answer).Ends n
      (fun answer n' => ∃ ts', ts.callback m S turns call = .ok (answer,ts') ∧ Represents n' fd ts')
      (fun stop _ => stop = .stillRunning ∧ ts.callback m S turns call = .error .stillRunning) := by
    intro hcall
    have hanswer : ∃ ts', ts.callback m S turns call = .ok ((onPointer m raw call).1,ts') ∧
        Matches n (onPointer m raw call).2 ts' := onPointer_callback hmatches hcall
    obtain ⟨ts',hcallback,htif,hlength,hin⟩ := hanswer
    apply Program.Ends.bind
    apply store_ends
    exact Program.Ends.pure ⟨ts',hcallback,_,Heap.store_self hlt,htif,hlength,hin.store hraw⟩
  apply Program.Ends.bind
  apply load_ends NativeObject.tiffInputStream? hraw rfl
  cases hr : raw.mInStream with
  | none => exact hpointer (Or.inl hr)
  | some p =>
    cases hreach : reachesAdaptor call with
    | false => exact hpointer (Or.inr hreach)
    | true =>
      have hin := hmatches.inStream
      rw [hr] at hin
      generalize hts : ts.mInStream = inStream at hin
      cases hin with
      | @adaptor _ a ha =>
        have hne : fd ≠ p := by
          rintro rfl
          cases hraw.symm.trans ha
        apply Program.Ends.bind
        apply callAdaptor_ends ha
        rw [hmatches.eq_assemble hts]
        cases hcallback : ts.callback m S turns call with
        | error e => exact Program.Ends.stop ⟨rfl,rfl⟩
        | ok result =>
          obtain ⟨answer,ts'⟩ := result
          obtain ⟨b,rfl⟩ := callback_adaptor hts hreach hcallback
          apply Program.Ends.bind
          apply store_ends
          refine Program.Ends.pure ⟨_,rfl,raw,(Heap.store_of_ne hne).trans hraw,hmatches.tif,hmatches.length,?_⟩
          rw [hr]
          exact .adaptor (Heap.store_self (Heap.lt_next_of_cell ha))

theorem clientProcs_refines (h : Represents n fd ts) (calls : List Callback) :
    (Program.each (fun call => clientProc m S turns fd call >>= fun _ => pure ()) calls).Ends n
      (fun _ n' => ∃ ts', (TiffInputStream.callbacks m S turns).feed calls ts = .ok ts' ∧ Represents n' fd ts')
      (fun stop _ => stop = .stillRunning ∧
        ∀ ts', (TiffInputStream.callbacks m S turns).feed calls ts ≠ .ok ts') := by
  induction calls generalizing n ts with
  | nil => exact Program.Ends.pure ⟨ts,rfl,h⟩
  | cons call calls ih =>
    apply Program.Ends.bind
    apply Program.Ends.bind
    refine (clientProc_refines h call).mono ?_ ?_
    · rintro answer s ⟨ts₁,hcallback,h₁⟩
      apply Program.Ends.pure
      refine (ih h₁).mono ?_ ?_
      · rintro _ s' ⟨ts₂,hfeed,h₂⟩
        exact ⟨ts₂,(TiffInputStream.callbacks m S turns).feed_cons_ok.mpr ⟨answer,ts₁,hcallback,hfeed⟩,h₂⟩
      · rintro stop _ ⟨hstop,hnone⟩
        refine ⟨hstop,?_⟩
        intro ts' hfeed
        obtain ⟨answer',ts₂,hcallback',hrest⟩ := (TiffInputStream.callbacks m S turns).feed_cons_ok.mp hfeed
        cases hcallback.symm.trans hcallback'
        exact hnone ts' hrest
    · rintro stop _ ⟨hstop,herror⟩
      refine ⟨hstop,?_⟩
      intro ts' hfeed
      obtain ⟨answer',ts₂,hcallback,-⟩ := (TiffInputStream.callbacks m S turns).feed_cons_ok.mp hfeed
      cases herror.symm.trans hcallback

theorem makeFileStream_refines {p str : ℕ} {a : JavaInputStreamAdaptor σ}
    (hp : n.heap.cells p = some (.tiffInputStream .new))
    (hstr : n.heap.cells str = some (.javaInputStreamAdaptor a)) (opening : List Callback) (opens : Bool) :
    (makeFileStream m S turns p str opening opens).Ends n
      (fun tif n' => ∃ ts', TiffInputStream.makeFileStream m S turns .new a opening tif = .ok ts' ∧
        Represents n' p ts')
      (fun stop _ => stop = .stillRunning ∧
        ∀ ts', (TiffInputStream.callbacks m S turns).feed opening (TiffInputStream.new.attach m S a) ≠ .ok ts') := by
  have hne : p ≠ str := by
    rintro rfl
    cases hp.symm.trans hstr
  have hplt := Heap.lt_next_of_cell hp
  have hstrlt := Heap.lt_next_of_cell hstr
  obtain ⟨b,hattached⟩ : ∃ b, (TiffInputStream.new.attach m S a).mInStream = some b := ⟨_,rfl⟩
  apply Program.Ends.bind
  apply load_ends NativeObject.tiffInputStream? hp rfl
  apply Program.Ends.bind
  apply callAdaptor_ends hstr
  apply Program.Ends.bind
  apply store_ends
  apply Program.Ends.bind
  apply store_ends
  have hassemble : (assemble (TiffInputStream.new : TiffInputStream ℕ) none).attach m S a =
      TiffInputStream.new.attach m S a := rfl
  rw [hassemble, hattached, Option.getD_some]
  have hopen : Represents
      { heap := (n.heap.store str (.javaInputStreamAdaptor b)).store p
          (.tiffInputStream { (TiffInputStream.new : TiffInputStream ℕ) with
            mInStream := some str
            mStreamLength := (TiffInputStream.new.attach m S a).mStreamLength })
        adaptorCalls := str :: n.adaptorCalls
        libtiffCalls := n.libtiffCalls } p (TiffInputStream.new.attach m S a) := by
    refine ⟨_,Heap.store_self hplt,rfl,rfl,?_⟩
    rw [hattached]
    exact .adaptor ((Heap.store_of_ne hne.symm).trans (Heap.store_self hstrlt))
  apply Program.Ends.bind
  apply Program.Ends.bind
  refine (clientProcs_refines hopen opening).mono ?_ (fun _ _ he => he)
  rintro _ s ⟨ts',hfeed,hrep⟩
  have hfile : ∀ tif, TiffInputStream.makeFileStream m S turns .new a opening tif =
      .ok { ts' with mTif := tif } := by
    intro tif
    rw [TiffInputStream.makeFileStream, hfeed]
  obtain ⟨raw,hraw,hmatches⟩ := hrep
  apply Program.Ends.bind
  apply load_ends NativeObject.tiffInputStream? hraw rfl
  cases opens with
  | true =>
    have hincludes : Includes s { s with heap := s.heap.alloc (.tiff ⟨.tiffInputStream p,raw.map.1 ≠ 0⟩) } :=
      .of_alloc rfl
    obtain ⟨raw',hraw',hmatches'⟩ := Represents.mono ⟨raw,hraw,hmatches⟩ hincludes
    apply Program.Ends.bind
    apply new_ends
    apply Program.Ends.pure
    apply Program.Ends.bind
    apply load_ends NativeObject.tiffInputStream? hraw' rfl
    apply Program.Ends.bind
    apply store_ends
    exact Program.Ends.pure ⟨_,hfile _,hmatches'.setTif hraw' _⟩
  | false =>
    apply Program.Ends.pure
    apply Program.Ends.bind
    apply load_ends NativeObject.tiffInputStream? hraw rfl
    apply Program.Ends.bind
    apply store_ends
    exact Program.Ends.pure ⟨_,hfile _,hmatches.setTif hraw _⟩

/-- The object at `fd` represents a state an open file over `stream` can be in. -/
def FileAt (m : DataModel) (S : InputStream σ) (turns : ℕ) (stream : σ) (n : Native σ) (fd : ℕ) : Prop :=
  ∃ ts, Represents n fd ts ∧ ts.Reached m S turns stream

theorem makeFileStream_fileAt {p str : ℕ} {stream : σ} {array : JByteArray} (harray : 0 < array.data.length)
    (hp : n.heap.cells p = some (.tiffInputStream .new))
    (hstr : n.heap.cells str = some (.javaInputStreamAdaptor (.new (JNIEnv.enter stream array))))
    (opening : List Callback) (opens : Bool) : (makeFileStream m S turns p str opening opens).Ends n
      (fun _ n' => FileAt m S turns stream n' p) (fun stop _ => stop = .stillRunning) := by
  refine (makeFileStream_refines hp hstr opening opens).mono ?_ (fun _ _ he => he.1)
  rintro tif n' ⟨ts',hfile,hrep⟩
  exact ⟨ts',hrep,array,opening,tif,ts',harray,hfile,[],rfl⟩

theorem clientProcs_fileAt {stream : σ} (h : FileAt m S turns stream n fd) (calls : List Callback) :
    (Program.each (fun call => clientProc m S turns fd call >>= fun _ => pure ()) calls).Ends n
      (fun _ n' => FileAt m S turns stream n' fd) (fun stop _ => stop = .stillRunning) := by
  obtain ⟨ts,hrep,array,opening,tif,opened,harray,hopened,cs,hcs⟩ := h
  refine (clientProcs_refines hrep calls).mono ?_ (fun _ _ he => he.1)
  rintro _ n' ⟨ts',hfeed,hrep'⟩
  refine ⟨ts',hrep',array,opening,tif,opened,harray,hopened,cs ++ calls,?_⟩
  exact (TiffInputStream.callbacks m S turns).feed_append_ok.mpr ⟨ts,hcs,hfeed⟩

end TiffJni.Image.Native
