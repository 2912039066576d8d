import TiffJni.Image.DecodeReturns

/-! # The size of the pixel buffer

Two dimensions of an untrusted file are stored in `int`, multiplied as `int` and widened
to `unsigned long`. The block that is asked for has the size of the image in exactly the
ranges of `SizeFits`; elsewhere only a request that yields no block does no harm. What a
run asks of libtiff is read off the calls it leaves recorded.
-/
namespace TiffJni.Image
open FixedWidth Jni TiffJni.Stream Machine Native
variable {σ α β : Type} {m : DataModel} {S : InputStream σ} {turns : ℕ} {n n' base : Native σ}

namespace Native

/-- However the program ends, it has recorded exactly `calls`. -/
def Records (calls : List LibtiffCall) (p : NativeProgram σ α) : Prop :=
  ∀ n, (p n).2.libtiffCalls = calls ++ n.libtiffCalls

abbrev Quiet (p : NativeProgram σ α) : Prop := Records [] p

theorem Quiet.pure (a : α) : Quiet (Pure.pure a : NativeProgram σ α) := fun _ => rfl

theorem Quiet.stop (e : Stop) : Quiet (Program.stop e : NativeProgram σ α) := fun _ => rfl

/-- What follows is quiet, so it does not matter whether it is reached. -/
theorem Records.bind {calls : List LibtiffCall} {p : NativeProgram σ α} {f : α → NativeProgram σ β}
    (hp : Records calls p) (hf : ∀ a, Quiet (f a)) : Records calls (p >>= f) := by
  intro n
  have hn := hp n
  rcases hrun : p n with ⟨e | a,n'⟩
  · rw [Program.bind_of_error hrun]
    rwa [hrun] at hn
  · rw [Program.bind_of_ok hrun, hf a n']
    rwa [hrun] at hn

theorem Quiet.each {γ : Type} {f : γ → NativeProgram σ Unit} (hf : ∀ c, Quiet (f c)) (cs : List γ) :
    Quiet (Program.each f cs) := by
  induction cs with
  | nil => exact Quiet.pure ()
  | cons c cs ih => exact (hf c).bind fun _ => ih

theorem store_quiet (p : ℕ) (o : NativeObject σ) : Quiet (store p o) := fun _ => rfl

theorem load_quiet (select : NativeObject σ → Option α) (p : ℕ) : Quiet (load select p) := by
  intro n
  unfold load
  split <;> rfl

theorem delete_quiet (select : NativeObject σ → Option α) (p : ℕ) : Quiet (delete select p) :=
  (load_quiet select p).bind fun _ _ => rfl

theorem callAdaptor_quiet (p : ℕ) : Quiet (callAdaptor p : NativeProgram σ _) :=
  Records.bind (fun _ => rfl) fun _ => load_quiet _ p

theorem clientProc_quiet (fd : ℕ) (call : Callback) : Quiet (clientProc m S turns fd call) := by
  refine (load_quiet _ fd).bind fun ts => ?_
  split
  · refine (callAdaptor_quiet _).bind fun adaptor => ?_
    split
    · exact Quiet.stop _
    · exact (store_quiet _ _).bind fun _ => Quiet.pure _
  · exact (store_quiet _ _).bind fun _ => Quiet.pure _

theorem serve_quiet (tif : ℕ) (calls : List Callback) : Quiet (serve m S turns tif calls) := by
  refine (load_quiet _ tif).bind fun handle => ?_
  split
  · exact Quiet.pure ()
  · exact Quiet.each (fun call => (clientProc_quiet _ call).bind fun _ => Quiet.pure ()) calls

end Native

/-- What a decode asks of libtiff, the latest call first: a block of `s` bytes, and where it is
answered one, that the raster of the image be written into it. -/
def DecodeOutcome.asked (d : DecodeOutcome) (s : ℕ) : Option ℕ → List LibtiffCall
  | none => [.malloc s none]
  | some raster => [.readRGBAImageOriented d.imageWidth.toNat d.imageLength.toNat raster,.malloc s (some raster)]

namespace TiffImage
variable {d : DecodeOutcome} {image : TiffImage} {tif buffer : ℕ}

theorem readRGBAImageOriented_records (rwidth rheight raster : ℕ) :
    Records [.readRGBAImageOriented rwidth rheight raster]
      (readRGBAImageOriented m S turns tif rwidth rheight raster d) := by
  refine Records.bind (fun _ => rfl) fun _ => ?_
  refine (serve_quiet tif _).bind fun _ => (load_quiet _ raster).bind fun block => ?_
  split
  · exact Quiet.stop _
  · exact (store_quiet _ _).bind fun _ => Quiet.pure _

theorem convertBuffer_quiet (width height : ℤ) (buffer : ℕ) :
    Quiet (convertBuffer width height buffer : NativeProgram σ Unit) := by
  refine (load_quiet _ buffer).bind fun block => ?_
  split
  · exact Quiet.stop _
  · exact store_quiet _ _

theorem fillBuffer_records :
    Records [.readRGBAImageOriented (toUnsigned 32 image.width) (toUnsigned 32 image.height) buffer]
      (fillBuffer m S turns image tif d (some buffer)) := by
  refine (readRGBAImageOriented_records _ _ buffer).bind fun ok => ?_
  split
  · exact (convertBuffer_quiet _ _ buffer).bind fun _ => Quiet.pure _
  · exact (delete_quiet _ buffer).bind fun _ => Quiet.pure _

/-- Every run of `decode`, also one that stops, asks for a block of `bufferSize` bytes, and for the
raster of the image when it has got one. -/
theorem decodeTiff_asks (image : TiffImage) (tif : ℕ) (d : DecodeOutcome) (n : Native σ) :
    (decodeTiff m S turns image tif d n).2.libtiffCalls =
      d.asked (d.bufferSize m) (if d.Allocates m then some n.heap.next else none) ++ n.libtiffCalls := by
  by_cases ha : d.Allocates m
  · obtain ⟨noted,block,hnoted,hbytes,hrun⟩ := decodeTiff_allocated S turns ha image tif n
    rw [hrun, fillBuffer_records, hnoted.width, hnoted.height, DecodeOutcome.toUnsigned_width,
      DecodeOutcome.toUnsigned_height, if_pos ha, withBuffer, hbytes]
    rfl
  · obtain ⟨noted,-,hrun⟩ := decodeTiff_unallocated S turns ha image tif n
    rw [hrun, if_neg ha]
    rfl

theorem serve_returns (h : Handle base n tif) {calls : List Callback} (hanswers : Answers m S turns n tif calls) :
    ∃ n', serve m S turns tif calls n = (.ok (),n') ∧ Served n n' := by
  have hends : (serve m S turns tif calls).Ends n (fun _ n' => Served n n' ∧ Isolated base n') (Halted base True) :=
    serve_ends h calls
  obtain ⟨_,n',hrun,⟨hserved,-⟩,-⟩ := (hends.and (serve_noLoop hanswers)).returns fun _ _ he =>
    he.2 (he.1.stillRunning trivial)
  exact ⟨n',hrun,hserved⟩

/-- libtiff writes the raster without knowing the size of the block. -/
theorem readRGBAImageOriented_overruns {rwidth rheight raster : ℕ} {block : PixelBuffer} (h : Handle base n tif)
    (hanswers : Answers m S turns n tif d.reading) (hc : n.heap.cells raster = some (.pixelBuffer block))
    (hover : block.words.length < (d.writtenWords rwidth rheight).length) :
    (readRGBAImageOriented m S turns tif rwidth rheight raster d n).1 = .error .outOfBounds := by
  have hrecorded : record (.readRGBAImageOriented rwidth rheight raster) n = (.ok (),{ n with
      libtiffCalls := .readRGBAImageOriented rwidth rheight raster :: n.libtiffCalls }) := rfl
  obtain ⟨n',hserve,hserved⟩ := serve_returns (h.recorded (.readRGBAImageOriented rwidth rheight raster :: n.libtiffCalls))
    (hanswers.mono (.of_heap rfl))
  obtain ⟨o,ho,he⟩ := hserved.live raster _ hc
  cases he
  have hload : load NativeObject.pixelBuffer? raster n' = (.ok block,n') := by
    simp only [load, ho, Option.bind_some, NativeObject.pixelBuffer?]
  have hwrite : block.write (d.writtenWords rwidth rheight) = none := dif_neg (by omega)
  unfold readRGBAImageOriented
  rw [Program.bind_of_ok hrecorded, Program.bind_of_ok hserve, Program.bind_of_ok hload, hwrite]
  rfl

/-- A block that is smaller than the raster is overrun once libtiff has read all of it. -/
theorem decodeTiff_overruns (h : Handle base n tif) (hanswers : Answers m S turns n tif d.reading)
    (ha : d.Allocates m) (hread : d.readSucceeds = true) (hsize : d.bufferSize m < sizeofUnsignedInt * d.pixels)
    (image : TiffImage) : (decodeTiff m S turns image tif d n).1 = .error .outOfBounds := by
  obtain ⟨noted,block,hnoted,hbytes,hrun⟩ := decodeTiff_allocated S turns ha image tif n
  have hover : block.words.length < (d.writtenWords (toUnsigned 32 noted.width) (toUnsigned 32 noted.height)).length := by
    rw [hnoted.width, hnoted.height, DecodeOutcome.toUnsigned_width, DecodeOutcome.toUnsigned_height,
      DecodeOutcome.writtenWords, if_pos hread, List.length_map, List.length_range, ← DecodeOutcome.pixels,
      block.length_words, hbytes]
    exact Nat.div_lt_of_lt_mul hsize
  have hstop := readRGBAImageOriented_overruns (h.withBuffer block) (hanswers.mono (.of_alloc rfl)) Heap.alloc_self hover
  obtain ⟨n',hstop⟩ : ∃ n', readRGBAImageOriented m S turns tif (toUnsigned 32 noted.width)
      (toUnsigned 32 noted.height) n.heap.next d (withBuffer n block) = (.error .outOfBounds,n') :=
    ⟨_,Prod.ext hstop rfl⟩
  rw [hrun, fillBuffer, Program.bind_of_error hstop]

end TiffImage

/-- Decoding on the handle `tif` asks for `s` bytes and is answered `answer`: a block of exactly the
image's size that libtiff's raster and the conversion stay inside of, or none. In every other case
no buffer is left. -/
structure ExactlySized (m : DataModel) (S : InputStream σ) (turns : ℕ) (n : Native σ) (image : TiffImage)
    (tif : ℕ) (d : DecodeOutcome) (s : ℕ) (answer : Option ℕ) : Prop where
  asked : (TiffImage.decodeTiff m S turns image tif d n).2.libtiffCalls = d.asked s answer ++ n.libtiffCalls
  exact : ∀ raster, answer = some raster → s = sizeofUnsignedInt * (d.imageWidth.toNat * d.imageLength.toNat)
  written : ∀ raster, answer = some raster → ∀ i < d.imageWidth.toNat * d.imageLength.toNat,
    sizeofUnsignedInt * (i + 1) ≤ s
  touched : ∀ raster, answer = some raster → ∀ index ∈ conversionIndices d.width d.height,
    0 ≤ index ∧ sizeofUnsignedInt * (index + 1) ≤ s
  returns : Answers m S turns n tif d.reading →
    ∃ image', (TiffImage.decodeTiff m S turns image tif d n).1 = .ok image'
  inBounds : (TiffImage.decodeTiff m S turns image tif d n).1 ≠ .error .outOfBounds
  buffer : ∀ image' n', TiffImage.decodeTiff m S turns image tif d n = (.ok image',n') →
    image'.buffer = (if d.readSucceeds = true then answer else none) ∧
    ∀ b, image'.buffer = some b → ∃ block, n'.heap.cells b = some (.pixelBuffer block) ∧ block.bytes = s

theorem exactlySized_of_fits {tif : ℕ} (h : Handle base n tif) (image : TiffImage) {d : DecodeOutcome}
    (hfits : d.Allocates m → SizeFits m d.pixels) :
    ExactlySized m S turns n image tif d (d.bufferSize m) (if d.Allocates m then some n.heap.next else none) := by
  have hends : (TiffImage.decodeTiff m S turns image tif d).Ends n _ _ := decodeTiff_ends h image d
  have hallocates : ∀ raster, (if d.Allocates m then some n.heap.next else none) = some raster → d.Allocates m := by
    intro raster hraster
    by_contra ha
    rw [if_neg ha] at hraster
    cases hraster
  have hsize : d.Allocates m →
      d.bufferSize m = sizeofUnsignedInt * (d.imageWidth.toNat * d.imageLength.toNat) :=
    fun ha => DecodeOutcome.bufferSize_eq_iff.mpr (hfits ha)
  refine ⟨TiffImage.decodeTiff_asks image tif d n,fun raster hr => hsize (hallocates raster hr),?_,?_,?_,?_,?_⟩
  · intro raster hr i hi
    rw [hsize (hallocates raster hr)]
    exact Nat.mul_le_mul_left _ hi
  · intro raster hr index hmem
    have hinside := conversionIndices_inside d.imageWidth.toNat_lt d.imageLength.toNat_lt (hfits (hallocates raster hr)) hmem
    rw [hsize (hallocates raster hr), sizeofUnsignedInt]
    omega
  · intro hanswers
    obtain ⟨image',n',hrun,-⟩ := (hends.and (TiffImage.decodeTiff_noLoop hanswers image)).returns fun _ _ he =>
      he.2 (he.1.stillRunning hfits)
    exact ⟨image',by rw [hrun]⟩
  · rcases hrun : TiffImage.decodeTiff m S turns image tif d n with ⟨stop | image',n'⟩
    · intro hstop
      exact (hends.stopped hrun).inBounds hfits (Except.error.inj hstop)
    · intro hstop
      cases hstop
  · intro image' n' hrun
    have hdecoded := hends.returned hrun
    by_cases hs : d.Succeeds m
    · obtain ⟨hb,block,hfills,hc⟩ := hdecoded.picture hs
      refine ⟨?_,?_⟩
      · rw [hb, if_pos hs.2, if_pos hs.1]
      · intro b hb'
        cases hb.symm.trans hb'
        exact ⟨block,hc,hfills.bytes⟩
    · obtain ⟨hb,-⟩ := hdecoded.null hs
      refine ⟨?_,?_⟩
      · rw [hb]
        split
        · rename_i hread
          rw [if_neg fun ha => hs ⟨ha,hread⟩]
        · rfl
      · intro b hb'
        cases hb.symm.trans hb'

theorem DecodeOutcome.asked_inj {d : DecodeOutcome} {s s' : ℕ} {answer answer' : Option ℕ}
    (h : d.asked s answer = d.asked s' answer') : s = s' ∧ answer = answer' := by
  cases answer with
  | none =>
    cases answer' with
    | none =>
      cases h
      exact ⟨rfl,rfl⟩
    | some raster' => cases h
  | some raster =>
    cases answer' with
    | none => cases h
    | some raster' =>
      cases h
      exact ⟨rfl,rfl⟩

theorem exactlySized_iff {tif : ℕ} (h : Handle base n tif) (image : TiffImage) (d : DecodeOutcome) :
    (∃ s answer, ExactlySized m S turns n image tif d s answer) ↔
      d.mallocSucceeds = false ∨ SizeVanishes m d.pixels ∨ SizeFits m d.pixels := by
  have hcondition : (d.mallocSucceeds = false ∨ SizeVanishes m d.pixels ∨ SizeFits m d.pixels) ↔
      (d.Allocates m → SizeFits m d.pixels) := by
    rw [← or_assoc, ← DecodeOutcome.not_allocates_iff, imp_iff_not_or]
  rw [hcondition]
  constructor
  · rintro ⟨s,answer,hsized⟩ ha
    have hasked := hsized.asked
    rw [TiffImage.decodeTiff_asks] at hasked
    obtain ⟨rfl,rfl⟩ := DecodeOutcome.asked_inj (List.append_cancel_right hasked)
    exact DecodeOutcome.bufferSize_eq_iff.mp (hsized.exact _ (if_pos ha))
  · intro hfits
    exact ⟨_,_,exactlySized_of_fits h image hfits⟩

def oneHandle : Native (ByteArrayState [1,2,3]) := ⟨Heap.empty.alloc (.tiff ⟨.fileDescriptor,true⟩),[],[]⟩

theorem oneHandle_handle : Handle Native.empty oneHandle 0 := by
  refine ⟨(Isolated.refl Native.empty).withHeap ((Heap.Extends.refl _).alloc _),Nat.le_refl _,_,Heap.alloc_self,?_⟩
  intro fd hfd
  cases hfd

/-- A file of 65537 by 65536 pixels: the product wraps to 65536. -/
def wrapping : DecodeOutcome := ⟨65537,65536,true,fun _ => 0,[],true,0,fun _ => 0⟩

theorem exactlySized_iff_wrapping :
    (∃ s answer, ExactlySized .lp64 (byteArrayInputStream [1,2,3]) 4 oneHandle TiffImage.new 0 wrapping s answer) ↔
      wrapping.mallocSucceeds = false ∨ SizeVanishes .lp64 wrapping.pixels ∨ SizeFits .lp64 wrapping.pixels :=
  exactlySized_iff oneHandle_handle TiffImage.new wrapping

/-- libtiff is given a block of 262144 bytes and runs out of it. -/
theorem wrapping_undersized :
    (¬∃ s answer, ExactlySized .lp64 (byteArrayInputStream [1,2,3]) 4 oneHandle TiffImage.new 0 wrapping s answer) ∧
    (TiffImage.decodeTiff .lp64 (byteArrayInputStream [1,2,3]) 4 TiffImage.new 0 wrapping oneHandle).2.libtiffCalls =
      [.readRGBAImageOriented 65537 65536 1,.malloc 262144 (some 1)] ∧
    (TiffImage.decodeTiff .lp64 (byteArrayInputStream [1,2,3]) 4 TiffImage.new 0 wrapping oneHandle).1 =
      .error .outOfBounds := by
  have hsize : wrapping.bufferSize .lp64 = 262144 := by decide
  have hanswers : Answers .lp64 (byteArrayInputStream [1,2,3]) 4 oneHandle 0 wrapping.reading :=
    ⟨_,Heap.alloc_self,fun fd hfd => by cases hfd⟩
  have hstop := TiffImage.decodeTiff_overruns oneHandle_handle hanswers (by decide) rfl (by rw [hsize]; decide) TiffImage.new
  refine ⟨?_,?_,hstop⟩
  · rintro ⟨s,answer,hsized⟩
    exact hsized.inBounds hstop
  · rw [TiffImage.decodeTiff_asks, hsize, if_pos (by decide)]
    rfl

end TiffJni.Image
