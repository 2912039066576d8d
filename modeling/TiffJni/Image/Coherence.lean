import TiffJni.Image.DecodeReturns
import TiffJni.Image.RasterPicture

/-! # The members of an image agree

`decode` overwrites the dimensions, the size and the buffer one after another and can
fail in between. Every call returns if the client of its stream does, after it they agree
all the same, and what it hands to Java is the picture of its own raster, in an array of
exactly one element for each pixel.
-/
namespace TiffJni.Image
open FixedWidth Jni TiffJni.Stream Machine Native
variable {σ : Type} {m : DataModel} {S : InputStream σ} {turns : ℕ} {n n' : Native σ} {image : TiffImage}

/-- The picture of the file a call opens has fewer than `2 ^ 31` bytes. -/
def NativeCall.SmallImage (call : NativeCall σ) : Prop :=
  ∀ d streams array, call.decodes = some (some d,streams,array) → 4 * d.pixels < 2 ^ 31

theorem NativeCall.SmallImage.fits {call : NativeCall σ} (h : call.SmallImage) : call.Fits m :=
  fun d streams array hcall => sizeFits_of_small (h d streams array hcall)

/-- The size member is the size of the image, and the size of the block behind the buffer. -/
structure Coherent (n : Native σ) (image : TiffImage) : Prop where
  size : (image.getSize : ℤ) = 4 * image.getWidth * image.getHeight
  buffer : ∀ b, image.buffer = some b →
    ∃ block, n.heap.cells b = some (.pixelBuffer block) ∧ block.bytes = image.getSize

/-- What a decode call makes of its own file: `null` unless every stage succeeded, else the picture
of its raster in a block made during the call, which the returned array copies word by word. -/
structure OwnPicture (m : DataModel) (n : Native σ) (opened : Option DecodeOutcome) (array : ArrayOutcome)
    (response : Response) (image : TiffImage) (n' : Native σ) : Prop where
  null_iff : response = .null ↔ ¬∃ d, opened = some d ∧ d.Succeeds m
  picture : ∀ d, opened = some d → d.Succeeds m → ∃ b block, image.buffer = some b ∧ n.heap.next ≤ b ∧
    n'.heap.cells b = some (.pixelBuffer block) ∧ Converted d block ∧
    (array.newIntArray = true → array.getIntArrayElements = true →
      response = .intArray block.words ∧ (block.words.length : ℤ) = image.getWidth * image.getHeight)

structure CoherentCall (m : DataModel) (S : InputStream σ) (turns : ℕ) (record : CallRecord σ) : Prop where
  before : ∀ image, record.tiffImage = some image → Coherent record.before image
  returns : record.call.Answered m S turns → ∃ response tiffImage, record.result.1 = .ok (response,tiffImage)
  after : ∀ response image, record.result.1 = .ok (response,some image) → Coherent record.result.2 image
  inBounds : record.result.1 ≠ .error .outOfBounds
  decoded : ∀ image opened streams array response tiffImage, record.tiffImage = some image →
    record.call.decodes = some (opened,streams,array) → record.result.1 = .ok (response,tiffImage) →
    ∃ image', tiffImage = some image' ∧ OwnPicture m record.before opened array response image' record.result.2

theorem Decoded.coherent {opened : Option DecodeOutcome} {streams : Bool} {r : Option ℕ × TiffImage}
    (h : Decoded m n image opened streams r n') (ho : Owned n image) (hc : Coherent n image)
    (hsmall : ∀ d, opened = some d → 4 * d.pixels < 2 ^ 31) : Coherent n' r.2 := by
  refine ⟨?_,(h.owned ho).buffer⟩
  unfold TiffImage.getSize TiffImage.getWidth TiffImage.getHeight
  cases hopened : opened with
  | none =>
    obtain ⟨-,-,hwidth,hheight,hsize⟩ := h.unopened hopened
    rw [hwidth, hheight, hsize]
    exact hc.size
  | some d =>
    have hd := hsmall d hopened
    have hp := h.picture d hopened
    rw [hp.width, hp.height, hp.bufferSize, DecodeOutcome.bufferSize_eq_iff.mpr (sizeFits_of_small hd), mul_assoc,
      DecodeOutcome.width_mul_height hd, sizeofUnsignedInt, Nat.cast_mul]
    rfl

/-- A decode that succeeded delivers the block it has filled. -/
theorem Decoded.delivers {d : DecodeOutcome} {streams : Bool} {r : Option ℕ × TiffImage} {array : ArrayOutcome}
    {response : Response} (h : Decoded m n image (some d) streams r n') (hresponse : Delivered array r n' response)
    (hsmall : 4 * d.pixels < 2 ^ 31) (hs : d.Succeeds m) : ∃ b block, r.2.buffer = some b ∧ n.heap.next ≤ b ∧
      n'.heap.cells b = some (.pixelBuffer block) ∧ d.Fills m block ∧
      (array.newIntArray = true → array.getIntArrayElements = true →
        response = .intArray block.words ∧ (block.words.length : ℤ) = r.2.getWidth * r.2.getHeight) := by
  have hp := h.picture d rfl
  obtain ⟨b,block,hb,hfresh,hfills,hcell⟩ := hp.picture hs
  unfold Delivered at hresponse
  rw [hp.returned, hb] at hresponse
  refine ⟨b,block,hb,hfresh,hcell,hfills,?_⟩
  intro hnew hget
  have hwords := DecodeOutcome.words_of_bytes (sizeFits_of_small hsmall) hfills.bytes
  have hcount : r.2.bufferSize / sizeofUnsignedInt < 2 ^ 31 := by
    rw [hp.bufferSize, ← hfills.bytes, ← block.length_words, hwords]
    omega
  refine ⟨hresponse.2 hnew hget hcount block hcell,?_⟩
  rw [hwords, TiffImage.getWidth, TiffImage.getHeight, hp.width, hp.height, DecodeOutcome.width_mul_height hsmall]

theorem Decoded.null_iff {opened : Option DecodeOutcome} {streams : Bool} {r : Option ℕ × TiffImage}
    {array : ArrayOutcome} {response : Response} (h : Decoded m n image opened streams r n')
    (hresponse : Delivered array r n' response) : response = .null ↔ ¬∃ d, opened = some d ∧ d.Succeeds m := by
  unfold Delivered at hresponse
  cases hopened : opened with
  | none =>
    rw [(h.unopened hopened).1] at hresponse
    simp [hresponse]
  | some d =>
    have hp := h.picture d hopened
    by_cases hs : d.Succeeds m
    · obtain ⟨b,block,hb,-⟩ := hp.picture hs
      rw [hp.returned, hb] at hresponse
      exact ⟨fun hnull => (hresponse.1 hnull).elim,fun hnone => (hnone ⟨d,rfl,hs⟩).elim⟩
    · rw [hp.returned, hp.null hs] at hresponse
      refine ⟨fun _ => ?_,fun _ => hresponse⟩
      rintro ⟨d',hd',hs'⟩
      cases hd'
      exact hs hs'

theorem Decoded.ownPicture {opened : Option DecodeOutcome} {streams : Bool} {r : Option ℕ × TiffImage}
    {array : ArrayOutcome} {response : Response} (h : Decoded m n image opened streams r n')
    (hresponse : Delivered array r n' response) (hsmall : ∀ d, opened = some d → 4 * d.pixels < 2 ^ 31) :
    OwnPicture m n opened array response r.2 n' := by
  refine ⟨h.null_iff hresponse,?_⟩
  rintro d rfl hs
  obtain ⟨b,block,hb,hfresh,hcell,hfills,hdelivered⟩ := h.delivers hresponse (hsmall d rfl) hs
  exact ⟨b,block,hb,hfresh,hcell,hfills.converted (hsmall d rfl) hs,hdelivered⟩

def Settled (tiffImage : Option TiffImage) (n : Native σ) : Prop :=
  ∀ image, tiffImage = some image → Owned n image ∧ Coherent n image

theorem Performed.settled {call : NativeCall σ} {tiffImage : Option TiffImage} {r : Response × Option TiffImage}
    (h : Performed m n call tiffImage r n') (hsmall : call.SmallImage) (hs : Settled tiffImage n) :
    Settled r.2 n' := by
  cases h with
  | idle _ => exact hs
  | decoded hcall hd _ =>
    obtain ⟨ho,hc⟩ := hs _ rfl
    intro image himage
    cases himage
    refine ⟨hd.owned ho,hd.coherent ho hc ?_⟩
    rintro d rfl
    exact hsmall d _ _ hcall
  | released _ =>
    intro image himage
    cases himage

theorem Performed.decode {call : NativeCall σ} {tiffImage : Option TiffImage} {opened : Option DecodeOutcome}
    {streams : Bool} {array : ArrayOutcome} {response : Response} {tiffImage' : Option TiffImage}
    (h : Performed m n call tiffImage (response,tiffImage') n') (himage : tiffImage = some image)
    (hcall : call.decodes = some (opened,streams,array)) :
    ∃ r, tiffImage' = some r.2 ∧ Decoded m n image opened streams r n' ∧ Delivered array r n' response := by
  cases h with
  | idle hidle =>
    rcases hidle with hnone | ⟨hnone,-⟩
    · cases himage.symm.trans hnone
    · cases hnone.symm.trans hcall
  | decoded hcall' hd hresponse =>
    cases hcall'.symm.trans hcall
    cases himage
    exact ⟨_,rfl,hd,hresponse⟩
  | released _ => cases hcall

theorem perform_coherentCall {tiffImage : Option TiffImage} {call : NativeCall σ} (hsmall : call.SmallImage)
    (hs : Settled tiffImage n) : CoherentCall m S turns ⟨call,tiffImage,n,perform m S turns tiffImage call n⟩ := by
  have hends : (perform m S turns tiffImage call).Ends n _ _ := perform_ends fun _ image hi => (hs image hi).1
  have hreturns : call.Answered m S turns →
      ∃ response tiffImage', (perform m S turns tiffImage call n).1 = .ok (response,tiffImage') := by
    intro hanswered
    obtain ⟨r,n',hrun,-⟩ := perform_returns (n := n) (fun _ image hi => (hs image hi).1) hanswered hsmall.fits
    exact ⟨r.1,r.2,by rw [hrun]⟩
  rcases hresult : perform m S turns tiffImage call n with ⟨stop | r,n'⟩
  · rw [hresult] at hreturns
    refine ⟨fun image hi => (hs image hi).2,hreturns,?_,?_,?_⟩
    · intro response image himage
      cases himage
    · intro hstop
      exact (hends.stopped hresult).inBounds hsmall.fits (Except.error.inj hstop)
    · intro image opened streams array response tiffImage' _ _ hr
      cases hr
  · have hperformed := hends.returned hresult
    rw [hresult] at hreturns
    refine ⟨fun image hi => (hs image hi).2,hreturns,?_,?_,?_⟩
    · intro response image himage
      cases himage
      exact (hperformed.settled hsmall hs image rfl).2
    · intro hstop
      cases hstop
    · rintro image opened streams array response tiffImage' himage hcall hr
      cases hr
      obtain ⟨r,rfl,hd,hresponse⟩ := hperformed.decode himage hcall
      refine ⟨r.2,rfl,hd.ownPicture hresponse ?_⟩
      rintro d rfl
      exact hsmall d _ _ hcall

theorem coherence (m : DataModel) (S : InputStream σ) (turns : ℕ) {calls : List (NativeCall σ)}
    (hsmall : ∀ call ∈ calls, call.SmallImage) (n : Native σ) : EveryCall m S turns (CoherentCall m S turns) calls n := by
  have hkeep : ∀ call tiffImage (n : Native σ) r n', call.SmallImage → Settled tiffImage n →
      perform m S turns tiffImage call n = (.ok r,n') → Settled r.2 n' := fun call tiffImage n r n' hcall hs hr =>
    ((perform_ends fun _ image hi => (hs image hi).1).returned hr).settled hcall hs
  refine callRecords_forall (I := Settled) (fun call tiffImage n hcall hs => perform_coherentCall hcall hs) hkeep
    hsmall ?_
  intro image himage
  cases himage
  refine ⟨Owned.new n,rfl,?_⟩
  intro b hb
  cases hb

def twoPixels : DecodeOutcome := ⟨2,1,true,fun _ => 0,[],true,0,fun i => BitVec.ofNat 32 i⟩

theorem coherence_twoPixels : EveryCall .lp64 (byteArrayInputStream [1,2,3]) 4
    (CoherentCall .lp64 (byteArrayInputStream [1,2,3]) 4)
    [.decode (some ⟨true,true,some twoPixels⟩) ⟨true,true⟩,
      .decodeStream (some ⟨.new _,.oneByte,[],none⟩) ⟨true,true⟩] Native.empty := by
  refine coherence .lp64 (byteArrayInputStream [1,2,3]) 4 ?_ Native.empty
  intro call hcall d streams array hdecodes
  simp only [List.mem_cons, List.not_mem_nil, or_false] at hcall
  rcases hcall with rfl | rfl
  · cases hdecodes
    decide
  · cases hdecodes

end TiffJni.Image
