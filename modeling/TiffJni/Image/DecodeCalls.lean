import TiffJni.Image.Ownership

/-! # The two decode calls

Both calls have one specification. They differ in the pointers they overwrite: each
replaces the buffer of a file it opens, and only the stream call replaces the adaptor
and the `TiffInputStream`. Everything new is named by the image, and nothing old is
touched.
-/
namespace TiffJni.Image
open FixedWidth Jni TiffJni.Stream Machine Native
variable {σ : Type} {m : DataModel} {S : InputStream σ} {turns : ℕ} {n n' base : Native σ}
  {image : TiffImage}

structure DecodedPicture (m : DataModel) (n : Native σ) (d : DecodeOutcome) (r : Option ℕ × TiffImage)
    (n' : Native σ) : Prop where
  returned : r.1 = r.2.buffer
  width : r.2.width = d.width
  height : r.2.height = d.height
  bufferSize : r.2.bufferSize = d.bufferSize m
  picture : d.Succeeds m → ∃ b block, r.2.buffer = some b ∧ n.heap.next ≤ b ∧ d.Fills m block ∧
    n'.heap.cells b = some (.pixelBuffer block)
  null : ¬d.Succeeds m → r.2.buffer = none

/-- What a decode call makes of an image and the heap; `streams` tells the two calls apart. -/
structure Decoded (m : DataModel) (n : Native σ) (image : TiffImage) (opened : Option DecodeOutcome)
    (streams : Bool) (r : Option ℕ × TiffImage) (n' : Native σ) : Prop where
  isolated : Isolated n n'
  unopened : opened = none → r.1 = none ∧ r.2.buffer = image.buffer ∧ r.2.width = image.width ∧
    r.2.height = image.height ∧ r.2.bufferSize = image.bufferSize
  picture : ∀ d, opened = some d → DecodedPicture m n d r n'
  kept : streams = false → r.2.javaInputStreamAdaptor = image.javaInputStreamAdaptor ∧
    r.2.tiffInputStream = image.tiffInputStream
  made : streams = true → ∃ p q tif, r.2.javaInputStreamAdaptor = some p ∧ r.2.tiffInputStream = some q ∧
    Streaming n n' p q tif ∧
    ∀ t, tif = some t → n.heap.next ≤ t ∧ n'.heap.cells t = some (.tiff ⟨.tiffInputStream q,false⟩)
  named : ∀ x o, n.heap.next ≤ x → n'.heap.cells x = some o → r.2.Names n' x

theorem DecodedTiff.decodedPicture {s s' : Native σ} {image' : TiffImage} {d : DecodeOutcome}
    (h : DecodedTiff base m s image d image' s') (hle : n.heap.next ≤ s.heap.next)
    (hkeep : d.Succeeds m → n'.heap.cells s.heap.next = s'.heap.cells s.heap.next) :
    DecodedPicture m n d (image'.buffer,image') n' := by
  refine ⟨rfl,h.width,h.height,h.bufferSize,?_,fun hf => (h.null hf).1⟩
  intro hs
  obtain ⟨hb,block,hp,hc⟩ := h.picture hs
  exact ⟨s.heap.next,block,hb,hle,hp,(hkeep hs).trans hc⟩

/-- The only object a finished `decode(TIFF*)` has added is the buffer it leaves in the image. -/
theorem DecodedTiff.named {s s' : Native σ} {image' : TiffImage} {d : DecodeOutcome}
    (h : DecodedTiff base m s image d image' s') {x : ℕ} {o : NativeObject σ} (hx : s.heap.next ≤ x)
    (hc : s'.heap.cells x = some o) : image'.buffer = some x := by
  have hlt := Heap.lt_next_of_cell hc
  have hle := h.next_le
  have hxb : x = s.heap.next := by omega
  subst hxb
  by_cases hs : d.Succeeds m
  · exact (h.picture hs).1
  · cases (h.null hs).2.symm.trans hc

/-- Closing the handle of a file frees it; its close procedure is not one of Java's. -/
theorem tiffClose_file_ends {t : ℕ} {mapped : Bool} {Q : Unit → Native σ → Prop} {E : Stop → Native σ → Prop}
    (ht : n.heap.cells t = some (.tiff ⟨.fileDescriptor,mapped⟩)) (h : Q () { n with heap := n.heap.free t }) :
    (tiffClose m S turns t).Ends n Q E := by
  have hdelete : (delete NativeObject.tiff? t >>= fun _ => pure () : NativeProgram σ Unit).Ends n Q E := by
    apply Program.Ends.bind
    exact delete_ends NativeObject.tiff? ht rfl (Program.Ends.pure h)
  apply Program.Ends.bind
  apply load_ends NativeObject.tiff? ht rfl
  cases mapped with
  | false => exact hdelete
  | true =>
    apply Program.Ends.bind
    apply Program.Ends.bind
    exact load_ends NativeObject.tiff? ht rfl (Program.Ends.pure hdelete)

theorem Handle.file (n : Native σ) (mapped : Bool) :
    Handle n { n with heap := n.heap.alloc (.tiff ⟨.fileDescriptor,mapped⟩) } n.heap.next := by
  refine ⟨(Isolated.refl n).withHeap ((Heap.Extends.refl _).alloc _),Nat.le_refl _,_,Heap.alloc_self,?_⟩
  intro fd hfd
  cases hfd

/-- The two objects a stream call makes first. -/
structure FreshClient (n s : Native σ) (a : JavaInputStreamAdaptor σ) : Prop where
  isolated : Isolated n s
  stream : s.heap.cells (n.heap.next + 1) = some (.tiffInputStream .new)
  adaptor : s.heap.cells n.heap.next = some (.javaInputStreamAdaptor a)

theorem FreshClient.alloc (n : Native σ) (a : JavaInputStreamAdaptor σ) : FreshClient n
    { n with heap := (n.heap.alloc (.javaInputStreamAdaptor a)).alloc (.tiffInputStream .new) } a where
  isolated := (Isolated.refl n).withHeap (((Heap.Extends.refl _).alloc _).alloc _)
  stream := Heap.alloc_self
  adaptor := (Heap.alloc_of_ne (Nat.ne_of_lt (Nat.lt_succ_self _))).trans Heap.alloc_self

theorem decodePath_ends (image : TiffImage) (mapped : Bool) (opened : Option DecodeOutcome) :
    (image.decodePath m S turns mapped opened).Ends n (Decoded m n image opened false)
      (Halted n (∀ d, opened = some d → SizeFits m d.pixels)) := by
  cases opened with
  | none =>
    apply Program.Ends.bind
    refine Program.Ends.pure (Program.Ends.pure ⟨Isolated.refl n,fun _ => ⟨rfl,rfl,rfl,rfl,rfl⟩,?_,
      fun _ => ⟨rfl,rfl⟩,by simp,?_⟩)
    · intro d hd
      cases hd
    · intro x o hx hc
      rw [n.heap.fresh x hx] at hc
      cases hc
  | some d =>
    apply Program.Ends.bind
    apply Program.Ends.bind
    refine new_ends (Program.Ends.pure ?_)
    apply Program.Ends.bind
    refine (decodeTiff_ends (Handle.file n mapped) image d).mono ?_ (fun _ _ he => he.imp fun hf _ => hf d rfl)
    rintro image' s hd
    obtain ⟨o,ho,he⟩ := hd.kept.live n.heap.next _ (Nat.ne_of_lt (Nat.lt_succ_self _)) Heap.alloc_self
    cases he
    apply Program.Ends.bind
    refine tiffClose_file_ends ho (Program.Ends.pure ?_)
    have hkeep : ∀ x, x ≠ n.heap.next → (s.heap.free n.heap.next).cells x = s.heap.cells x :=
      fun x hx => Heap.free_of_ne hx
    refine ⟨hd.isolated.withHeap (hd.isolated.heap.free (Nat.le_refl _)),by simp,?_,?_,by simp,?_⟩
    · intro d' hd'
      cases hd'
      exact hd.decodedPicture (Nat.le_succ _) (fun _ => hkeep _ (Nat.ne_of_gt (Nat.lt_succ_self _)))
    · intro _
      exact ⟨hd.adaptor,hd.stream⟩
    · intro x o hx hc
      have hxne : x ≠ n.heap.next := by
        rintro rfl
        rw [Heap.free_self] at hc
        cases hc
      rw [hkeep x hxne] at hc
      exact Or.inl (hd.named (show n.heap.next + 1 ≤ x by omega) hc)

theorem decodeStream_ends (image : TiffImage) (stream : σ) (array : JByteArray) (opening : List Callback)
    (opened : Option DecodeOutcome) :
    (image.decodeStream m S turns stream array opening opened).Ends n (Decoded m n image opened true)
      (Halted n (∀ d, opened = some d → SizeFits m d.pixels)) := by
  apply Program.Ends.bind
  apply new_ends
  apply Program.Ends.bind
  apply new_ends
  generalize JavaInputStreamAdaptor.new (JNIEnv.enter stream array) = a
  dsimp only [Heap.alloc_next]
  have hfresh := FreshClient.alloc n a
  apply Program.Ends.bind
  refine (makeFileStream_ends hfresh.isolated (Nat.le_succ _) (Nat.le_refl _) hfresh.stream hfresh.adaptor opening
    opened.isSome).mono ?_ (fun _ _ he => he)
  rintro tif s ⟨hstream,hcases⟩
  cases opened with
  | none =>
    rcases hcases with ⟨hopens,-⟩ | ⟨-,rfl,hnext⟩
    · cases hopens
    have hnext : s.heap.next = n.heap.next + 2 := hnext
    refine Program.Ends.pure ⟨hstream.isolated,fun _ => ⟨rfl,rfl,rfl,rfl,rfl⟩,?_,by simp,?_,?_⟩
    · intro d hd
      cases hd
    · intro _
      refine ⟨_,_,none,rfl,rfl,hstream,?_⟩
      intro t ht
      cases ht
    · intro x o hx hc
      have hlt := Heap.lt_next_of_cell hc
      have hcase : n.heap.next = x ∨ n.heap.next + 1 = x := by omega
      rcases hcase with rfl | rfl
      · exact Or.inr (Or.inl rfl)
      · exact Or.inr (Or.inr (Or.inl rfl))
  | some d =>
    rcases hcases with ⟨-,rfl,hnext,htif⟩ | ⟨hopens,-⟩
    swap
    · cases hopens
    have hnext : s.heap.next = n.heap.next + 3 := hnext
    have htif : s.heap.cells (n.heap.next + 2) = some (.tiff ⟨.tiffInputStream (n.heap.next + 1),false⟩) := htif
    have hhandle : Handle n s (n.heap.next + 2) := by
      refine ⟨hstream.isolated,by omega,_,htif,?_⟩
      intro fd hfd
      cases hfd
      exact hstream.client
    apply Program.Ends.bind
    refine (decodeTiff_ends hhandle _ d).mono ?_ (fun _ _ he => he.imp fun hf _ => hf d rfl)
    rintro image' s' hd
    have hstream' := hstream.kept hd.kept (by omega) (by omega) hd.isolated
    obtain ⟨o,htif',he⟩ := hd.kept.live (n.heap.next + 2) _ (by omega) htif
    cases he
    refine Program.Ends.pure ⟨hd.isolated,by simp,?_,by simp,?_,?_⟩
    · intro d' hd'
      cases hd'
      exact hd.decodedPicture (by omega) (fun _ => rfl)
    · intro _
      refine ⟨_,_,_,hd.adaptor,hd.stream,hstream',?_⟩
      intro t ht
      cases ht
      exact ⟨show n.heap.next ≤ n.heap.next + 2 by omega,htif'⟩
    · intro x o hx hc
      have hcase : n.heap.next = x ∨ n.heap.next + 1 = x ∨ n.heap.next + 2 = x ∨ s.heap.next ≤ x := by omega
      rcases hcase with rfl | rfl | rfl | hnew
      · exact Or.inr (Or.inl hd.adaptor)
      · exact Or.inr (Or.inr (Or.inl hd.stream))
      · obtain ⟨ts,hts',htif',-⟩ := hstream'.stream
        exact Or.inr (Or.inr (Or.inr ⟨_,ts,hd.stream,hts',htif'⟩))
      · exact Or.inl (hd.named hnew hc)

end TiffJni.Image
