import TiffJni.Image.Coherence

/-! # The pixels Java receives

From the raster libtiff writes to the array a decode call returns: the block has one word
for each pixel, the loop converts each of them once, and the array copies the block.
-/
namespace TiffJni.Image
open FixedWidth Jni TiffJni.Stream Machine Native
variable {σ : Type} {m : DataModel} {S : InputStream σ} {turns : ℕ}

/-- A decode of a small image, on an object in any state, returns the block it has filled. -/
theorem perform_delivers {call : NativeCall σ} {d : DecodeOutcome} {streams : Bool} {array : ArrayOutcome}
    (hcall : call.decodes = some (some d,streams,array)) (hanswered : call.Answered m S turns)
    (hsmall : 4 * d.pixels < 2 ^ 31) (hs : d.Succeeds m) (hnew : array.newIntArray = true)
    (hget : array.getIntArrayElements = true) (image : TiffImage) (n : Native σ) :
    ∃ block b image' n', perform m S turns (some image) call n = (.ok (.intArray block.words,some image'),n') ∧
      image'.buffer = some b ∧ n'.heap.cells b = some (.pixelBuffer block) ∧ d.Fills m block := by
  have hfits : call.Fits m := by
    intro d' streams' array' hcall'
    cases hcall.symm.trans hcall'
    exact sizeFits_of_small hsmall
  have hrelease : call ≠ .release := by
    rintro rfl
    cases hcall
  have hreturns : ∃ r n', perform m S turns (some image) call n = (.ok r,n') ∧ Performed m n call (some image) r n' :=
    perform_returns (fun h => (hrelease h).elim) hanswered hfits
  obtain ⟨⟨response,tiffImage⟩,n',hrun,hperformed⟩ := hreturns
  obtain ⟨r,rfl,hd,hresponse⟩ := hperformed.decode rfl hcall
  obtain ⟨b,block,hb,-,hc,hfills,hdelivered⟩ := hd.delivers hresponse hsmall hs
  obtain ⟨rfl,-⟩ := hdelivered hnew hget
  exact ⟨block,b,r.2,n',hrun,hb,hc,hfills⟩

theorem decode_converts {call : NativeCall σ} {d : DecodeOutcome} {streams : Bool} {array : ArrayOutcome}
    (hcall : call.decodes = some (some d,streams,array)) (hanswered : call.Answered m S turns)
    (hsmall : 4 * d.pixels < 2 ^ 31) (hs : d.Succeeds m) (hnew : array.newIntArray = true)
    (hget : array.getIntArrayElements = true) (image : TiffImage) (n : Native σ) :
    ∃ block b image' n', perform m S turns (some image) call n = (.ok (.intArray block.words,some image'),n') ∧
      image'.buffer = some b ∧ n'.heap.cells b = some (.pixelBuffer block) ∧ Converted d block := by
  have hdelivers : ∃ block b image' n',
      perform m S turns (some image) call n = (.ok (.intArray block.words,some image'),n') ∧
      image'.buffer = some b ∧ n'.heap.cells b = some (.pixelBuffer block) ∧ d.Fills m block :=
    perform_delivers hcall hanswered hsmall hs hnew hget image n
  obtain ⟨block,b,image',n',hrun,hb,hc,hfills⟩ := hdelivers
  exact ⟨block,b,image',n',hrun,hb,hc,hfills.converted hsmall hs⟩

/-- What is left of an image of one pixel that could not be read. -/
def unread : TiffImage := ⟨none,4,1,1,none,none⟩

theorem decode_converts_twoPixels : ∃ block b image' n',
    perform .lp64 (byteArrayInputStream [1,2,3]) 4 (some unread)
      (.decodeStream (some ⟨.new _,.oneByte,[.read 2],some twoPixels⟩) ⟨true,true⟩) Native.empty =
      (.ok (.intArray block.words,some image'),n') ∧
    image'.buffer = some b ∧ n'.heap.cells b = some (.pixelBuffer block) ∧ Converted twoPixels block := by
  have hanswered : (NativeCall.decodeStream (some ⟨.new _,.oneByte,[.read 2],some twoPixels⟩) ⟨true,true⟩).Answered
      .lp64 (byteArrayInputStream [1,2,3]) 4 :=
    NativeCall.answered_of_contract (byteArrayContract [1,2,3] (by decide)) (by decide) (by decide) _
  exact decode_converts rfl hanswered (by decide) (by decide) rfl rfl unread Native.empty

end TiffJni.Image
