import TiffJni.Image.ClientRefinement
import TiffJni.Image.NativeCalls
import TiffJni.Stream.CallbackContract

/-! # When a decode call returns

The read loop of the adaptor is the only one without a bound, and only libtiff's calls on
the client of a stream enter it. Where these return, so does the decode.
-/
namespace TiffJni.Image
open FixedWidth Jni TiffJni.Stream Machine Native
variable {σ α : Type} {m : DataModel} {S : InputStream σ} {turns : ℕ} {n n' : Native σ}

/-- No callback looks at the handle. -/
theorem callback_mTif {ts ts' : TiffInputStream (JavaInputStreamAdaptor σ)} {call : Callback} {answer : Answer}
    (h : ts.callback m S turns call = .ok (answer,ts')) (tif : Option ℕ) :
    ({ ts with mTif := tif }).callback m S turns call = .ok (answer,{ ts' with mTif := tif }) := by
  obtain ⟨mTif,inStream,length⟩ := ts
  cases inStream with
  | none =>
    cases call with
    | _ =>
      cases h
      rfl
  | some a =>
    cases call with
    | read size =>
      simp only [TiffInputStream.callback, TiffInputStream.read] at h ⊢
      split at h
      · cases h
      · rename_i hread
        split at hread
        · cases hread
        · cases hread
          cases h
          rfl
    | _ =>
      cases h
      rfl

theorem feed_mTif {ts ts' : TiffInputStream (JavaInputStreamAdaptor σ)} {calls : List Callback}
    (h : (TiffInputStream.callbacks m S turns).feed calls ts = .ok ts') (tif : Option ℕ) :
    (TiffInputStream.callbacks m S turns).feed calls { ts with mTif := tif } = .ok { ts' with mTif := tif } := by
  induction calls generalizing ts with
  | nil =>
    cases h
    rfl
  | cons call calls ih =>
    obtain ⟨answer,ts₁,hcall,hrest⟩ := (TiffInputStream.callbacks m S turns).feed_cons_ok.mp h
    exact (TiffInputStream.callbacks m S turns).feed_cons_ok.mpr
      ⟨answer,{ ts₁ with mTif := tif },callback_mTif hcall tif,ih hrest⟩

namespace Native

/-- A program stopped for another reason than a read loop that goes on. -/
def NoLoop (stop : Stop) (_ : Native σ) : Prop := stop ≠ .stillRunning

theorem load_noLoop (select : NativeObject σ → Option α) {p : ℕ} {Q : α → Native σ → Prop} (h : ∀ a, Q a n) :
    (load select p).Ends n Q NoLoop := by
  cases hc : (n.heap.cells p).bind select with
  | none =>
    refine Program.Ends.of_error (e := .dangling p) (t := n) ?_ (fun he => by cases he)
    simp only [load, hc]
  | some a =>
    refine Program.Ends.of_ok (a := a) (t := n) ?_ (h a)
    simp only [load, hc]

theorem delete_noLoop (select : NativeObject σ → Option α) {p : ℕ} {Q : Unit → Native σ → Prop}
    (h : Q () { n with heap := n.heap.free p }) : (delete select p).Ends n Q NoLoop := by
  apply Program.Ends.bind
  exact load_noLoop select fun _ => Program.Ends.modify h

/-- The client behind a handle returns from each of `calls`; a file has none in Java. -/
def Answers (m : DataModel) (S : InputStream σ) (turns : ℕ) (n : Native σ) (tif : ℕ) (calls : List Callback) : Prop :=
  ∃ handle, n.heap.cells tif = some (.tiff handle) ∧ ∀ fd, handle.clientData = .tiffInputStream fd →
    ∃ ts ts', Represents n fd ts ∧ (TiffInputStream.callbacks m S turns).feed calls ts = .ok ts'

theorem Answers.mono {tif : ℕ} {calls : List Callback} (h : Answers m S turns n tif calls) (hn : Includes n n') :
    Answers m S turns n' tif calls := by
  obtain ⟨handle,hc,hclient⟩ := h
  refine ⟨handle,hn _ _ hc,?_⟩
  intro fd hfd
  obtain ⟨ts,ts',hrep,hfeed⟩ := hclient fd hfd
  exact ⟨ts,ts',hrep.mono hn,hfeed⟩

/-- The client that a stream call makes answers what libtiff asks to open the file, then what it
asks to read the image of a file it could open. -/
def AnswersStream (m : DataModel) (S : InputStream σ) (turns : ℕ) (stream : σ) (array : JByteArray)
    (opening : List Callback) (opened : Option DecodeOutcome) : Prop :=
  ∃ ts, (TiffInputStream.callbacks m S turns).feed (opening ++ opened.elim [] DecodeOutcome.reading)
    (TiffInputStream.new.attach m S (.new (JNIEnv.enter stream array))) = .ok ts

theorem serve_noLoop {tif : ℕ} {calls : List Callback} (h : Answers m S turns n tif calls) :
    (serve m S turns tif calls).Ends n (fun _ _ => True) NoLoop := by
  obtain ⟨handle,hc,hclient⟩ := h
  apply Program.Ends.bind
  apply load_ends NativeObject.tiff? hc rfl
  cases hd : handle.clientData with
  | fileDescriptor => exact Program.Ends.pure trivial
  | tiffInputStream fd =>
    obtain ⟨ts,ts',hrep,hfeed⟩ := hclient fd hd
    exact (clientProcs_refines hrep calls).mono (fun _ _ _ => trivial) (fun _ _ he => (he.2 ts' hfeed).elim)

end Native

namespace TiffImage

theorem readRGBAImageOriented_noLoop {tif rwidth rheight raster : ℕ} {d : DecodeOutcome}
    (h : Answers m S turns n tif d.reading) :
    (readRGBAImageOriented m S turns tif rwidth rheight raster d).Ends n (fun _ _ => True) NoLoop := by
  apply Program.Ends.bind
  apply record_ends
  apply Program.Ends.bind
  have hanswers : Answers m S turns { n with
      libtiffCalls := .readRGBAImageOriented rwidth rheight raster :: n.libtiffCalls } tif d.reading :=
    h.mono (.of_heap rfl)
  refine (serve_noLoop hanswers).mono ?_ (fun _ _ he => he)
  intro _ s _
  apply Program.Ends.bind
  apply load_noLoop
  intro block
  cases block.write (d.writtenWords rwidth rheight) with
  | none => exact Program.Ends.stop (fun he => by cases he)
  | some block' =>
    apply Program.Ends.bind
    exact store_ends (Program.Ends.pure trivial)

theorem convertBuffer_noLoop (width height : ℤ) (buffer : ℕ) :
    (convertBuffer width height buffer).Ends n (fun _ _ => True) NoLoop := by
  apply Program.Ends.bind
  apply load_noLoop
  intro block
  cases block.convert width height with
  | none => exact Program.Ends.stop (fun he => by cases he)
  | some block' => exact store_ends trivial

theorem fillBuffer_noLoop {tif : ℕ} {d : DecodeOutcome} (h : Answers m S turns n tif d.reading) (image : TiffImage)
    (buffer : ℕ) : (fillBuffer m S turns image tif d (some buffer)).Ends n (fun _ _ => True) NoLoop := by
  apply Program.Ends.bind
  refine (readRGBAImageOriented_noLoop h).mono ?_ (fun _ _ he => he)
  intro ok s _
  cases ok with
  | true =>
    apply Program.Ends.bind
    exact (convertBuffer_noLoop _ _ _).mono (fun _ _ _ => Program.Ends.pure trivial) (fun _ _ he => he)
  | false =>
    apply Program.Ends.bind
    exact delete_noLoop _ (Program.Ends.pure trivial)

theorem decodeTiff_noLoop {tif : ℕ} {d : DecodeOutcome} (h : Answers m S turns n tif d.reading) (image : TiffImage) :
    (decodeTiff m S turns image tif d).Ends n (fun _ _ => True) NoLoop := by
  by_cases ha : d.Allocates m
  · obtain ⟨noted,block,-,-,hrun⟩ := decodeTiff_allocated S turns ha image tif n
    exact Program.Ends.of_eq hrun (fillBuffer_noLoop (h.mono (.of_alloc rfl)) noted _)
  · obtain ⟨noted,-,hrun⟩ := decodeTiff_unallocated S turns ha image tif n
    exact Program.Ends.of_ok hrun trivial

theorem decodePath_noLoop (image : TiffImage) (mapped : Bool) (opened : Option DecodeOutcome) :
    (image.decodePath m S turns mapped opened).Ends n (fun _ _ => True) NoLoop := by
  apply Program.Ends.bind
  cases opened with
  | none => exact Program.Ends.pure (Program.Ends.pure trivial)
  | some d =>
    have hanswers : Answers m S turns { n with heap := n.heap.alloc (.tiff ⟨.fileDescriptor,mapped⟩) } n.heap.next
        d.reading := ⟨_,Heap.alloc_self,fun fd hfd => by cases hfd⟩
    apply Program.Ends.bind
    refine new_ends (Program.Ends.pure ?_)
    apply Program.Ends.bind
    refine ((decodeTiff_ends (Handle.file n mapped) image d).and (decodeTiff_noLoop hanswers image)).mono ?_
      (fun _ _ he => he.2)
    rintro image' s ⟨hd,-⟩
    obtain ⟨o,ho,he⟩ := hd.kept.live n.heap.next _ (Nat.ne_of_lt (Nat.lt_succ_self _)) Heap.alloc_self
    cases he
    apply Program.Ends.bind
    exact tiffClose_file_ends ho (Program.Ends.pure trivial)

theorem decodeStream_noLoop (image : TiffImage) {stream : σ} {array : JByteArray} {opening : List Callback}
    {opened : Option DecodeOutcome} (h : AnswersStream m S turns stream array opening opened) :
    (image.decodeStream m S turns stream array opening opened).Ends n (fun _ _ => True) NoLoop := by
  obtain ⟨ts₂,hfeed⟩ := h
  obtain ⟨ts₁,hopening,hreading⟩ := (TiffInputStream.callbacks m S turns).feed_append_ok.mp hfeed
  apply Program.Ends.bind
  apply new_ends
  apply Program.Ends.bind
  apply new_ends
  generalize JavaInputStreamAdaptor.new (JNIEnv.enter stream array) = a at hopening ⊢
  dsimp only [Heap.alloc_next]
  have hfresh := FreshClient.alloc n a
  apply Program.Ends.bind
  have hmade : (makeFileStream m S turns (n.heap.next + 1) n.heap.next opening opened.isSome).Ends _ _
      (Halted n True) :=
    makeFileStream_ends hfresh.isolated (Nat.le_succ _) (Nat.le_refl _) hfresh.stream hfresh.adaptor opening _
  refine (hmade.and (makeFileStream_refines hfresh.stream hfresh.adaptor opening _)).mono ?_
    (fun _ _ he => (he.2.2 ts₁ hopening).elim)
  rintro tif s ⟨⟨-,hcases⟩,ts',hfile,hrep⟩
  cases opened with
  | none =>
    rcases hcases with ⟨hopens,-⟩ | ⟨-,rfl,-⟩
    · cases hopens
    · exact Program.Ends.pure trivial
  | some d =>
    rcases hcases with ⟨-,rfl,-,htif⟩ | ⟨hopens,-⟩
    swap
    · cases hopens
    rw [TiffInputStream.makeFileStream, hopening] at hfile
    cases hfile
    have hanswers : Answers m S turns s (n.heap.next + 2) d.reading := by
      refine ⟨_,htif,?_⟩
      intro fd hfd
      cases hfd
      exact ⟨_,_,hrep,feed_mTif hreading _⟩
    apply Program.Ends.bind
    exact (decodeTiff_noLoop hanswers _).mono (fun _ _ _ => Program.Ends.pure trivial) (fun _ _ he => he)

end TiffImage

theorem toIntArray_noLoop (image : TiffImage) (data : Option ℕ) (array : ArrayOutcome) :
    (toIntArray image data array).Ends n (fun _ _ => True) NoLoop := by
  cases data with
  | none => exact Program.Ends.pure trivial
  | some b =>
    unfold toIntArray
    dsimp only
    generalize toSigned 32 (image.getSize / sizeofUnsignedInt : ℕ) = length
    unfold buildArray
    split
    · split
      · apply Program.Ends.bind
        apply load_noLoop
        intro block
        split
        · exact Program.Ends.stop (fun he => by cases he)
        · exact Program.Ends.pure trivial
      · exact Program.Ends.pure trivial
    · exact Program.Ends.pure trivial

/-- The client of a call's stream returns from every call libtiff makes of it while it opens the
file and reads the image. -/
def NativeCall.Answered (m : DataModel) (S : InputStream σ) (turns : ℕ) : NativeCall σ → Prop
  | .decodeStream (some is) _ => AnswersStream m S turns is.stream is.array is.opening is.opened
  | _ => True

/-- A stream that honours its contract lets every call of libtiff return. -/
theorem NativeCall.answered_of_contract {c : List UInt8} (K : StreamContract S c) {is : StreamArgument σ}
    (harray : 0 < is.array.data.length) (hturns : c.length < turns) (array : ArrayOutcome) :
    (NativeCall.decodeStream (some is) array).Answered m S turns :=
  TiffInputStream.feed_returns (TiffInputStream.attach_sound K .new is.stream harray) hturns _

theorem decodeJNI_noLoop {p : NativeProgram σ (Option ℕ × TiffImage)} (array : ArrayOutcome)
    (hp : p.Ends n (fun _ _ => True) NoLoop) :
    (do
      let (data,tiffImage) ← p
      let response ← toIntArray tiffImage data array
      return (response,some tiffImage) : NativeProgram σ (Response × Option TiffImage)).Ends n
      (fun _ _ => True) NoLoop := by
  apply Program.Ends.bind
  refine hp.mono ?_ (fun _ _ he => he)
  rintro ⟨data,image'⟩ s _
  apply Program.Ends.bind
  exact (toIntArray_noLoop image' data array).mono (fun _ _ _ => Program.Ends.pure trivial) (fun _ _ he => he)

theorem perform_noLoop {tiffImage : Option TiffImage} {call : NativeCall σ}
    (ho : call = .release → ∀ image, tiffImage = some image → Owned n image) (hanswered : call.Answered m S turns) :
    (perform m S turns tiffImage call).Ends n (fun _ _ => True) NoLoop := by
  cases call with
  | getWidth => exact Program.Ends.pure trivial
  | getHeight => exact Program.Ends.pure trivial
  | getSize => exact Program.Ends.pure trivial
  | decode path array =>
    change (decodeJNI m S turns tiffImage path array).Ends n _ _
    cases tiffImage with
    | none => exact Program.Ends.pure trivial
    | some image =>
      cases path with
      | none => exact Program.Ends.pure trivial
      | some path =>
        unfold decodeJNI
        dsimp only
        split
        · exact decodeJNI_noLoop array (image.decodePath_noLoop path.mapped path.opened)
        · exact Program.Ends.pure trivial
  | decodeStream is array =>
    cases tiffImage with
    | none => exact Program.Ends.pure trivial
    | some image =>
      cases is with
      | none => exact Program.Ends.pure trivial
      | some is => exact decodeJNI_noLoop array (image.decodeStream_noLoop hanswered)
  | release =>
    apply Program.Ends.bind
    cases tiffImage with
    | none => exact Program.Ends.pure (Program.Ends.pure trivial)
    | some image =>
      exact (destroy_ends (ho rfl image rfl)).mono (fun _ _ _ => Program.Ends.pure trivial) (fun _ _ he => he.elim)

/-- A call returns when the client of its stream does and the size of its file fits. -/
theorem perform_returns {tiffImage : Option TiffImage} {call : NativeCall σ}
    (ho : call = .release → ∀ image, tiffImage = some image → Owned n image) (hanswered : call.Answered m S turns)
    (hfits : call.Fits m) :
    ∃ r n', perform m S turns tiffImage call n = (.ok r,n') ∧ Performed m n call tiffImage r n' := by
  have hends := ((perform_ends ho).and (perform_noLoop ho hanswered)).returns ?_
  · obtain ⟨r,n',hrun,hperformed,-⟩ := hends
    exact ⟨r,n',hrun,hperformed⟩
  · rintro stop t ⟨hhalted,hloop⟩
    exact hloop (hhalted.stillRunning hfits)

end TiffJni.Image
