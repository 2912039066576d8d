import TiffJni.Image.DecodeCalls
import TiffJni.Image.TiffImageJni

/-! # What a native call does

A call on one object leaves everything alone, decodes, or releases. Each invariant of
an object's life is derived from these three cases. The first is the one they all rest
on: an image always owns what its pointers lead to.
-/
namespace TiffJni.Image
open FixedWidth Jni TiffJni.Stream Machine Native
variable {σ : Type}

/-- The decode a call comes to on a live image: what its file answers, whether it streams, and
the array it is to fill. Null arguments and lost path characters come to none. -/
def NativeCall.decodes : NativeCall σ → Option (Option DecodeOutcome × Bool × ArrayOutcome)
  | .decode (some path) array => if path.utfChars then some (path.opened,false,array) else none
  | .decodeStream (some is) array => some (is.opened,true,array)
  | _ => none

/-- The sizes of the files of a call survive the arithmetic of `decode`. -/
def NativeCall.Fits (m : DataModel) (call : NativeCall σ) : Prop :=
  ∀ d streams array, call.decodes = some (some d,streams,array) → SizeFits m d.pixels

def Delivered (array : ArrayOutcome) (r : Option ℕ × TiffImage) (n : Native σ) (response : Response) : Prop :=
  match r.1 with
  | none => response = .null
  | some b => response ≠ .null ∧ (array.newIntArray = true → array.getIntArrayElements = true →
    r.2.bufferSize / sizeofUnsignedInt < 2 ^ 31 → ∀ block, n.heap.cells b = some (.pixelBuffer block) →
      response = .intArray block.words)

inductive Performed (m : DataModel) (n : Native σ) :
    NativeCall σ → Option TiffImage → Response × Option TiffImage → Native σ → Prop
  | idle {call tiffImage response} (h : tiffImage = none ∨ call.decodes = none ∧ call ≠ .release) :
      Performed m n call tiffImage (response,tiffImage) n
  | decoded {call opened streams array image r response n'} (hcall : call.decodes = some (opened,streams,array))
      (hd : Decoded m n image opened streams r n') (hresponse : Delivered array r n' response) :
      Performed m n call (some image) (response,some r.2) n'
  | released {image n'} (h : Removed n (image.Names n) n') :
      Performed m n .release (some image) (.void,none) n'

variable {m : DataModel} {S : InputStream σ} {turns : ℕ} {n n' base : Native σ} {image : TiffImage}

/-- What decoding a file leaves in the buffer is a block of exactly the size it notes. -/
theorem DecodedPicture.block {d : DecodeOutcome} {r : Option ℕ × TiffImage} (h : DecodedPicture m n d r n') :
    ∀ b, r.2.buffer = some b → ∃ block, n'.heap.cells b = some (.pixelBuffer block) ∧
      block.bytes = r.2.bufferSize := by
  intro b hb
  by_cases hs : d.Succeeds m
  · obtain ⟨b',block,hb',-,hfills,hc⟩ := h.picture hs
    cases hb'.symm.trans hb
    exact ⟨block,hc,hfills.bytes.trans h.bufferSize.symm⟩
  · cases (h.null hs).symm.trans hb

theorem Decoded.owned {opened : Option DecodeOutcome} {streams : Bool} {r : Option ℕ × TiffImage}
    (h : Decoded m n image opened streams r n') (ho : Owned n image) : Owned n' r.2 := by
  have hold := ho.frame (fun x hx => h.isolated.cells_eq (ho.lt_next hx))
  constructor
  · intro b hb
    cases hopened : opened with
    | none =>
      obtain ⟨-,hbuffer,-,-,hbytes⟩ := h.unopened hopened
      rw [hbuffer] at hb
      rw [hbytes]
      exact hold.buffer b hb
    | some d => exact (h.picture d hopened).block b hb
  · intro p hp
    cases streams with
    | false =>
      rw [(h.kept rfl).1] at hp
      exact hold.adaptor p hp
    | true =>
      obtain ⟨p',q,tif,hp',-,hs,-⟩ := h.made rfl
      cases hp'.symm.trans hp
      exact hs.adaptor
  · intro q hq
    cases streams with
    | false =>
      rw [(h.kept rfl).2] at hq
      exact hold.stream q hq
    | true =>
      obtain ⟨p,q',tif,-,hq',hs,ht⟩ := h.made rfl
      cases hq'.symm.trans hq
      obtain ⟨ts,hts,htif,-⟩ := hs.stream
      refine ⟨ts,hts,?_⟩
      intro t ht'
      exact (ht t (htif.symm.trans ht')).2

theorem Decoded.buffer_cases {opened : Option DecodeOutcome} {streams : Bool} {r : Option ℕ × TiffImage}
    (h : Decoded m n image opened streams r n') :
    (opened = none ∧ r.2.buffer = image.buffer) ∨
      ∃ d, opened = some d ∧ (d.Succeeds m → ∃ b, r.2.buffer = some b ∧ n.heap.next ≤ b) ∧
        (¬d.Succeeds m → r.2.buffer = none) := by
  cases hopened : opened with
  | none => exact Or.inl ⟨rfl,(h.unopened hopened).2.1⟩
  | some d =>
    have hp := h.picture d hopened
    refine Or.inr ⟨d,rfl,?_,hp.null⟩
    intro hs
    obtain ⟨b,block,hb,hfresh,-⟩ := hp.picture hs
    exact ⟨b,hb,hfresh⟩

theorem Decoded.names_cases {opened : Option DecodeOutcome} {streams : Bool} {r : Option ℕ × TiffImage}
    (h : Decoded m n image opened streams r n') (ho : Owned n image) {x : ℕ}
    (hx : r.2.Names n' x) : n.heap.next ≤ x ∨ image.Names n x := by
  rcases hx with hx | hx | hx | ⟨q,ts,hq,hts,hx⟩
  · rcases h.buffer_cases with ⟨-,hb⟩ | ⟨d,-,hsome,hnone⟩
    · exact Or.inr (Or.inl (hb.symm.trans hx))
    · by_cases hs : d.Succeeds m
      · obtain ⟨b,hb,hfresh⟩ := hsome hs
        cases hb.symm.trans hx
        exact Or.inl hfresh
      · cases (hnone hs).symm.trans hx
  · cases streams with
    | false => exact Or.inr (Or.inr (Or.inl ((h.kept rfl).1.symm.trans hx)))
    | true =>
      obtain ⟨p,q,tif,hp,-,hs,-⟩ := h.made rfl
      cases hp.symm.trans hx
      exact Or.inl hs.recentAdaptor
  · cases streams with
    | false => exact Or.inr (Or.inr (Or.inr (Or.inl ((h.kept rfl).2.symm.trans hx))))
    | true =>
      obtain ⟨p,q,tif,-,hq,hs,-⟩ := h.made rfl
      cases hq.symm.trans hx
      exact Or.inl hs.recentStream
  · cases streams with
    | false =>
      have hq' := (h.kept rfl).2.symm.trans hq
      have hsame := h.isolated.cells_eq (ho.lt_next (Or.inr (Or.inr (Or.inl hq'))))
      exact Or.inr (Or.inr (Or.inr (Or.inr ⟨q,ts,hq',hsame.symm.trans hts,hx⟩)))
    | true =>
      obtain ⟨p,q',tif,-,hq',hs,ht⟩ := h.made rfl
      cases hq'.symm.trans hq
      obtain ⟨ts',hts',htif,-⟩ := hs.stream
      cases hts.symm.trans hts'
      exact Or.inl (ht x (htif.symm.trans hx)).1

/-- What a decode returns is a block of exactly the image's size. -/
theorem Decoded.returned_block {opened : Option DecodeOutcome} {streams : Bool} {r : Option ℕ × TiffImage}
    (h : Decoded m n image opened streams r n') : ∀ b, r.1 = some b →
      ∃ block, n'.heap.cells b = some (.pixelBuffer block) ∧ block.bytes = r.2.bufferSize := by
  intro b hb
  cases hopened : opened with
  | none =>
    rw [(h.unopened hopened).1] at hb
    cases hb
  | some d =>
    have hp := h.picture d hopened
    exact hp.block b (hp.returned.symm.trans hb)

theorem Decoded.returned_fits {opened : Option DecodeOutcome} {streams : Bool} {r : Option ℕ × TiffImage}
    (h : Decoded m n image opened streams r n') (hfits : ∀ d, opened = some d → SizeFits m d.pixels) :
    ∀ b, r.1 = some b → ∃ pixels, r.2.bufferSize = sizeofUnsignedInt * pixels ∧ SizeFits m pixels := by
  intro b hb
  cases hopened : opened with
  | none =>
    rw [(h.unopened hopened).1] at hb
    cases hb
  | some d =>
    have hd := hfits d hopened
    exact ⟨d.pixels,(h.picture d hopened).bufferSize.trans (DecodeOutcome.bufferSize_eq_iff.mpr hd),hd⟩

theorem toIntArray_ends {fits : Prop} {data : Option ℕ} {array : ArrayOutcome} (hi : Isolated base n)
    (hdata : ∀ b, data = some b → ∃ block, n.heap.cells b = some (.pixelBuffer block) ∧
      block.bytes = image.bufferSize)
    (hfits : fits → ∀ b, data = some b → ∃ pixels, image.bufferSize = sizeofUnsignedInt * pixels ∧
      SizeFits m pixels) :
    (toIntArray image data array).Ends n (fun response n' => n' = n ∧ Delivered array (data,image) n response)
      (Halted base fits) := by
  cases data with
  | none => exact Program.Ends.pure ⟨rfl,rfl⟩
  | some b =>
    obtain ⟨block,hc,hbytes⟩ := hdata b rfl
    have hwords : block.words.length = image.bufferSize / sizeofUnsignedInt := by rw [block.length_words, hbytes]
    have hlength : image.bufferSize / sizeofUnsignedInt < 2 ^ 31 →
        toSigned 32 (image.bufferSize / sizeofUnsignedInt : ℕ) = (image.bufferSize / sizeofUnsignedInt : ℕ) :=
      fun h => toSigned_natCast (by omega)
    have hroom : fits → 0 ≤ toSigned 32 (image.bufferSize / sizeofUnsignedInt : ℕ) → ¬(block.bytes < image.bufferSize ∨
        sizeofUnsignedInt * (toSigned 32 (image.bufferSize / sizeofUnsignedInt : ℕ)).toNat < image.bufferSize) := by
      intro hf hpos
      obtain ⟨pixels,hsize,hpixels⟩ := hfits hf b rfl
      have hcount : image.bufferSize / sizeofUnsignedInt = pixels := by
        rw [hsize, Nat.mul_div_cancel_left _ (by decide)]
      rw [hcount] at hpos ⊢
      rw [hpixels.toSigned_eq hpos, Int.toNat_natCast, hbytes, hsize]
      omega
    unfold toIntArray
    dsimp only [TiffImage.getSize]
    generalize toSigned 32 (image.bufferSize / sizeofUnsignedInt : ℕ) = length at hlength hroom ⊢
    unfold buildArray
    by_cases hnew : array.newIntArray ∧ 0 ≤ length
    · rw [if_pos hnew]
      cases hget : array.getIntArrayElements with
      | false =>
        refine Program.Ends.pure ⟨rfl,by simp,?_⟩
        intro _ hget'
        cases hget.symm.trans hget'
      | true =>
        apply Program.Ends.bind
        apply load_ends NativeObject.pixelBuffer? hc rfl
        by_cases hover : block.bytes < image.bufferSize ∨ sizeofUnsignedInt * length.toNat < image.bufferSize
        · rw [if_pos hover]
          exact Program.Ends.stop ⟨by simp,hi,fun hf => (hroom hf hnew.2 hover).elim⟩
        · rw [if_neg hover]
          refine Program.Ends.pure ⟨rfl,by simp,?_⟩
          intro _ _ hsmall block' hc'
          cases hc.symm.trans hc'
          have hexact : length.toNat = image.bufferSize / sizeofUnsignedInt := by
            rw [hlength hsmall, Int.toNat_natCast]
          rw [hexact, Nat.sub_self, List.replicate_zero, List.append_nil, List.take_of_length_le hwords.le]
    · rw [if_neg hnew]
      refine Program.Ends.pure ⟨rfl,by simp,?_⟩
      intro hnew' _ hsmall
      rw [hlength hsmall] at hnew
      exact (hnew ⟨hnew',Int.natCast_nonneg _⟩).elim

/-- A decode returned: the response delivers what it made of the file. -/
def DecodeReturned (m : DataModel) (n : Native σ) (image : TiffImage) (opened : Option DecodeOutcome)
    (streams : Bool) (array : ArrayOutcome) (result : Response × Option TiffImage) (n' : Native σ) : Prop :=
  ∃ r, result.2 = some r.2 ∧ Decoded m n image opened streams r n' ∧ Delivered array r n' result.1

/-- The part the two decode methods share: a decode, then the array for what it returned. -/
theorem decodeJNI_ends {p : NativeProgram σ (Option ℕ × TiffImage)} {opened : Option DecodeOutcome} {streams : Bool}
    (array : ArrayOutcome)
    (hp : p.Ends n (Decoded m n image opened streams) (Halted n (∀ d, opened = some d → SizeFits m d.pixels))) :
    (do
      let (data,tiffImage) ← p
      let response ← toIntArray tiffImage data array
      return (response,some tiffImage) : NativeProgram σ (Response × Option TiffImage)).Ends n
      (DecodeReturned m n image opened streams array)
      (Halted n (∀ d, opened = some d → SizeFits m d.pixels)) := by
  apply Program.Ends.bind
  refine hp.mono ?_ (fun _ _ he => he)
  rintro ⟨data,image'⟩ s hd
  apply Program.Ends.bind
  refine (toIntArray_ends hd.isolated hd.returned_block fun hf => hd.returned_fits hf).mono ?_ (fun _ _ he => he)
  rintro response _ ⟨rfl,hdelivered⟩
  exact Program.Ends.pure ⟨(data,image'),rfl,hd,hdelivered⟩

theorem DecodeReturned.performed {call : NativeCall σ} {opened : Option DecodeOutcome} {streams : Bool}
    {array : ArrayOutcome} {result : Response × Option TiffImage}
    (hcall : call.decodes = some (opened,streams,array))
    (h : DecodeReturned m n image opened streams array result n') : Performed m n call (some image) result n' := by
  obtain ⟨response,tiffImage⟩ := result
  obtain ⟨r,rfl,hd,hdelivered⟩ := h
  exact .decoded hcall hd hdelivered

theorem NativeCall.Fits.opened {call : NativeCall σ} {opened : Option DecodeOutcome} {streams : Bool}
    {array : ArrayOutcome} (h : call.Fits m) (hcall : call.decodes = some (opened,streams,array)) :
    ∀ d, opened = some d → SizeFits m d.pixels := by
  intro d hd
  exact h d streams array (by rw [hcall, hd])

/-- Only a release depends on what the image names: a decode may start from any image at all. -/
theorem perform_ends {tiffImage : Option TiffImage} {call : NativeCall σ}
    (ho : call = .release → ∀ image, tiffImage = some image → Owned n image) :
    (perform m S turns tiffImage call).Ends n (Performed m n call tiffImage) (Halted n (call.Fits m)) := by
  cases call with
  | getWidth => exact Program.Ends.pure (.idle (Or.inr ⟨rfl,by simp⟩))
  | getHeight => exact Program.Ends.pure (.idle (Or.inr ⟨rfl,by simp⟩))
  | getSize => exact Program.Ends.pure (.idle (Or.inr ⟨rfl,by simp⟩))
  | decode path array =>
    cases tiffImage with
    | none => exact Program.Ends.pure (.idle (Or.inl rfl))
    | some image =>
      cases path with
      | none => exact Program.Ends.pure (.idle (Or.inr ⟨rfl,by simp⟩))
      | some path =>
        change (decodeJNI m S turns (some image) (some path) array).Ends n _ _
        unfold decodeJNI
        dsimp only
        cases hutf : path.utfChars with
        | false =>
          simp only [Bool.false_eq_true, ↓reduceIte]
          refine Program.Ends.pure (.idle (Or.inr ⟨?_,by simp⟩))
          simp only [NativeCall.decodes, hutf, Bool.false_eq_true, ↓reduceIte]
        | true =>
          simp only [↓reduceIte]
          have hcall : (NativeCall.decode (some path) array : NativeCall σ).decodes =
              some (path.opened,false,array) := by
            simp only [NativeCall.decodes, hutf, ↓reduceIte]
          exact (decodeJNI_ends array (decodePath_ends image path.mapped path.opened)).mono
            (fun _ _ hr => hr.performed hcall) (fun _ _ he => he.imp fun hf => hf.opened hcall)
  | decodeStream is array =>
    cases tiffImage with
    | none => exact Program.Ends.pure (.idle (Or.inl rfl))
    | some image =>
      cases is with
      | none => exact Program.Ends.pure (.idle (Or.inr ⟨rfl,by simp⟩))
      | some is =>
        have hcall : (NativeCall.decodeStream (some is) array).decodes = some (is.opened,true,array) := rfl
        exact (decodeJNI_ends array (decodeStream_ends image is.stream is.array is.opening is.opened)).mono
          (fun _ _ hr => hr.performed hcall) (fun _ _ he => he.imp fun hf => hf.opened hcall)
  | release =>
    apply Program.Ends.bind
    cases tiffImage with
    | none => exact Program.Ends.pure (Program.Ends.pure (.idle (Or.inl rfl)))
    | some image =>
      refine (destroy_ends (ho rfl image rfl)).mono ?_ (fun _ _ he => he.elim)
      intro _ s hs
      exact Program.Ends.pure (.released hs)

theorem Performed.owned {call : NativeCall σ} {tiffImage : Option TiffImage} {r : Response × Option TiffImage}
    (h : Performed m n call tiffImage r n') (ho : ∀ image, tiffImage = some image → Owned n image) :
    ∀ image, r.2 = some image → Owned n' image := by
  cases h with
  | idle _ => exact ho
  | decoded _ hd _ =>
    intro image himage
    cases himage
    exact hd.owned (ho _ rfl)
  | released _ =>
    intro image himage
    cases himage

/-- What every call keeps and every record shows, the records of a whole sequence show. -/
theorem callRecords_forall {I : Option TiffImage → Native σ → Prop} {P : CallRecord σ → Prop}
    {A : NativeCall σ → Prop} (hrecord : ∀ call tiffImage n, A call → I tiffImage n →
      P ⟨call,tiffImage,n,perform m S turns tiffImage call n⟩)
    (hkeep : ∀ call tiffImage n r n', A call → I tiffImage n →
      perform m S turns tiffImage call n = (.ok r,n') → I r.2 n')
    {calls : List (NativeCall σ)} (hcalls : ∀ call ∈ calls, A call) {tiffImage : Option TiffImage} {n : Native σ}
    (hi : I tiffImage n) : ∀ record ∈ callRecords m S turns calls tiffImage n, P record := by
  induction calls generalizing tiffImage n with
  | nil => simp [callRecords]
  | cons call calls ih =>
    have ha := hcalls call (List.mem_cons_self ..)
    intro record hmem
    rw [callRecords] at hmem
    rcases List.mem_cons.mp hmem with rfl | hmem
    · exact hrecord call tiffImage n ha hi
    · rcases hresult : perform m S turns tiffImage call n with ⟨e | r,n'⟩
      · rw [hresult] at hmem
        cases hmem
      · rw [hresult] at hmem
        exact ih (fun c hc => hcalls c (List.mem_cons_of_mem _ hc)) (hkeep call tiffImage n r n' ha hi hresult)
          record hmem

end TiffJni.Image
