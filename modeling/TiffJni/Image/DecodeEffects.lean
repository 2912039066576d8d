import TiffJni.Image.NativeEffects
import TiffJni.Image.TiffImage

/-! # What one decode does to the native heap

Each method is specified once: which objects it leaves behind, what becomes of the
image, and that it stops only in an endless read or in an access outside a block.
-/
namespace TiffJni.Image
open FixedWidth Jni TiffJni.Stream Machine Native
variable {σ : Type} {m : DataModel} {S : InputStream σ} {turns : ℕ} {n n' base : Native σ} {fits : Prop}

/-- A native call stopped without following a dangling pointer or touching an older adaptor,
and without an access outside a block where the sizes fit. -/
structure Halted (base : Native σ) (fits : Prop) (stop : Stop) (n : Native σ) : Prop where
  notDangling : ∀ p, stop ≠ .dangling p
  isolated : Isolated base n
  inBounds : fits → stop ≠ .outOfBounds

theorem Halted.imp {fits' : Prop} {stop : Stop} (h : Halted base fits stop n) (hf : fits' → fits) :
    Halted base fits' stop n := ⟨h.notDangling,h.isolated,fun hf' => h.inBounds (hf hf')⟩

theorem Halted.stillRunning {stop : Stop} (h : Halted base fits stop n) (hf : fits) : stop = .stillRunning := by
  cases stop with
  | stillRunning => rfl
  | dangling p => exact (h.notDangling p rfl).elim
  | outOfBounds => exact (h.inBounds hf rfl).elim

/-- An open handle made after `base`, whose client was made after `base` as well. -/
structure Handle (base n : Native σ) (tif : ℕ) : Prop where
  isolated : Isolated base n
  recent : base.heap.next ≤ tif
  object : ∃ handle, n.heap.cells tif = some (.tiff handle) ∧
    ∀ fd, handle.clientData = .tiffInputStream fd → Client base n fd

theorem Handle.kept {tif : ℕ} {off : ℕ → Prop} (h : Handle base n tif) (hk : Kept off n n')
    (hoff : ∀ x o, n.heap.cells x = some o → off x → o.pixelBuffer?.isSome) (hi : Isolated base n') :
    Handle base n' tif := by
  obtain ⟨handle,hc,hclient⟩ := h.object
  obtain ⟨o,ho,he⟩ := hk.live tif _ (fun htif => Bool.false_ne_true (hoff tif _ hc htif)) hc
  cases he
  exact ⟨hi,h.recent,handle,ho,fun fd hfd => (hclient fd hfd).kept hk hoff hi⟩

theorem Handle.recorded {tif : ℕ} (h : Handle base n tif) (calls : List LibtiffCall) :
    Handle base { n with libtiffCalls := calls } tif := by
  have hkept : Kept (fun _ => False) n { n with libtiffCalls := calls } := Kept.of_cells_eq fun _ _ => rfl
  exact h.kept hkept (fun _ _ _ hoff => hoff.elim) (h.isolated.recorded calls)

theorem serve_ends {tif : ℕ} (h : Handle base n tif) (calls : List Callback) :
    (serve m S turns tif calls).Ends n (fun _ n' => Served n n' ∧ Isolated base n') (Halted base fits) := by
  obtain ⟨handle,hc,hclient⟩ := h.object
  apply Program.Ends.bind
  apply load_ends NativeObject.tiff? hc rfl
  cases hd : handle.clientData with
  | fileDescriptor => exact Program.Ends.pure ⟨Served.refl n,h.isolated⟩
  | tiffInputStream fd =>
    refine (clientProcs_ends (hclient fd hd) calls).mono (fun _ _ hq => hq) ?_
    rintro _ t ⟨rfl,hi⟩
    exact ⟨by simp,hi,by simp⟩

structure Rewritten (base n : Native σ) (p : ℕ) (block : PixelBuffer) (n' : Native σ) : Prop where
  isolated : Isolated base n'
  next : n'.heap.next = n.heap.next
  kept : Kept (fun x => x = p) n n'
  block : n'.heap.cells p = some (.pixelBuffer block)

theorem Rewritten.of_served {s : Native σ} {p : ℕ} {block block' : PixelBuffer} (hs : Served n s)
    (hi : Isolated base s) (hp : base.heap.next ≤ p) (hc : s.heap.cells p = some (.pixelBuffer block)) :
    Rewritten base n p block' { s with heap := s.heap.store p (.pixelBuffer block') } where
  isolated := hi.withHeap (hi.heap.store hp _)
  next := hs.next
  kept := (hs.kept _).trans (Kept.of_cells_eq fun _ hx => Heap.store_of_ne hx)
  block := Heap.store_self (Heap.lt_next_of_cell hc)

theorem Rewritten.trans {n'' : Native σ} {p : ℕ} {block block' : PixelBuffer}
    (h : Rewritten base n p block n') (h' : Rewritten base n' p block' n'') : Rewritten base n p block' n'' :=
  ⟨h'.isolated,h'.next.trans h.next,h.kept.trans h'.kept,h'.block⟩

theorem readRGBAImageOriented_ends {tif raster rwidth rheight : ℕ} {d : DecodeOutcome} {block : PixelBuffer}
    (h : Handle base n tif) (hraster : base.heap.next ≤ raster)
    (hc : n.heap.cells raster = some (.pixelBuffer block))
    (hfits : fits → ∃ block', block.write (d.writtenWords rwidth rheight) = some block') :
    (TiffImage.readRGBAImageOriented m S turns tif rwidth rheight raster d).Ends n
      (fun ok n' => ok = d.readSucceeds ∧ ∃ block', block.write (d.writtenWords rwidth rheight) = some block' ∧
        Rewritten base n raster block' n') (Halted base fits) := by
  apply Program.Ends.bind
  apply record_ends
  apply Program.Ends.bind
  refine (serve_ends (h.recorded _) d.reading).mono ?_ (fun _ _ he => he)
  rintro _ s ⟨hs,hi⟩
  obtain ⟨o,ho,he⟩ := hs.live raster _ hc
  cases he
  apply Program.Ends.bind
  apply load_ends NativeObject.pixelBuffer? ho rfl
  cases hw : block.write (d.writtenWords rwidth rheight) with
  | none =>
    refine Program.Ends.stop ⟨by simp,hi,?_⟩
    intro hf
    obtain ⟨block',hw'⟩ := hfits hf
    cases hw.symm.trans hw'
  | some block' =>
    apply Program.Ends.bind
    apply store_ends
    have hs : Served n s := ⟨hs.next,hs.dead,hs.live⟩
    exact Program.Ends.pure ⟨rfl,block',rfl,Rewritten.of_served hs hi hraster ho⟩

theorem convertBuffer_ends {width height : ℤ} {buffer : ℕ} {block : PixelBuffer} (hi : Isolated base n)
    (hbuffer : base.heap.next ≤ buffer) (hc : n.heap.cells buffer = some (.pixelBuffer block))
    (hfits : fits → ∃ block', block.convert width height = some block') :
    (TiffImage.convertBuffer width height buffer).Ends n
      (fun _ n' => ∃ block', block.convert width height = some block' ∧ Rewritten base n buffer block' n')
      (Halted base fits) := by
  apply Program.Ends.bind
  apply load_ends NativeObject.pixelBuffer? hc rfl
  cases hw : block.convert width height with
  | none =>
    refine Program.Ends.stop ⟨by simp,hi,?_⟩
    intro h
    obtain ⟨block',hw'⟩ := hfits h
    cases hw.symm.trans hw'
  | some block' => exact store_ends ⟨block',rfl,Rewritten.of_served (Served.refl n) hi hbuffer hc⟩

/-- What is left of a fresh block once the raster of `d` was read into it and converted. -/
def DecodeOutcome.Fills (m : DataModel) (d : DecodeOutcome) (block : PixelBuffer) : Prop :=
  ∃ allocated raster : PixelBuffer, allocated.bytes = d.bufferSize m ∧
    allocated.write (d.writtenWords (toUnsigned 32 d.width) (toUnsigned 32 d.height)) = some raster ∧
    raster.convert d.width d.height = some block

theorem DecodeOutcome.Fills.bytes {d : DecodeOutcome} {block : PixelBuffer} (h : d.Fills m block) :
    block.bytes = d.bufferSize m := by
  obtain ⟨allocated,raster,hbytes,hwrite,hconvert⟩ := h
  rw [PixelBuffer.bytes_of_convert hconvert, PixelBuffer.bytes_of_write hwrite, hbytes]

/-- The image once the dimensions of its file and the size of its buffer are noted. -/
structure Noted (m : DataModel) (d : DecodeOutcome) (image noted : TiffImage) : Prop where
  width : noted.width = d.width
  height : noted.height = d.height
  bufferSize : noted.bufferSize = d.bufferSize m
  adaptor : noted.javaInputStreamAdaptor = image.javaInputStreamAdaptor
  stream : noted.tiffInputStream = image.tiffInputStream

namespace TiffImage
variable {tif buffer : ℕ} {d : DecodeOutcome} {block : PixelBuffer}

/-- The buffer was filled and converted, or freed. -/
inductive FilledBuffer (base n : Native σ) (image : TiffImage) (buffer : ℕ) (d : DecodeOutcome)
    (block : PixelBuffer) : TiffImage → Native σ → Prop
  | filled {raster block' : PixelBuffer} {n' : Native σ} (hread : d.readSucceeds = true)
      (hwrite : block.write (d.writtenWords (toUnsigned 32 image.width) (toUnsigned 32 image.height)) = some raster)
      (hconvert : raster.convert image.width image.height = some block') (h : Rewritten base n buffer block' n') :
      FilledBuffer base n image buffer d block { image with buffer := some buffer } n'
  | freed {n' : Native σ} (hread : d.readSucceeds = false) (isolated : Isolated base n') (next : n'.heap.next = n.heap.next)
      (kept : Kept (fun x => x = buffer) n n') (dead : n'.heap.cells buffer = none) :
      FilledBuffer base n image buffer d block { image with buffer := none } n'

theorem fillBuffer_ends {image : TiffImage} (h : Handle base n tif) (hbuffer : base.heap.next ≤ buffer)
    (hc : n.heap.cells buffer = some (.pixelBuffer block))
    (hwrite : fits → ∃ raster, block.write (d.writtenWords (toUnsigned 32 image.width) (toUnsigned 32 image.height)) =
      some raster)
    (hconvert : fits → ∀ raster : PixelBuffer, raster.bytes = block.bytes →
      ∃ block', raster.convert image.width image.height = some block') :
    (fillBuffer m S turns image tif d (some buffer)).Ends n (FilledBuffer base n image buffer d block) (Halted base fits) := by
  apply Program.Ends.bind
  refine (readRGBAImageOriented_ends h hbuffer hc hwrite).mono ?_ (fun _ _ he => he)
  rintro _ s ⟨rfl,raster,hwritten,hr⟩
  cases hok : d.readSucceeds with
  | true =>
    apply Program.Ends.bind
    refine (convertBuffer_ends hr.isolated hbuffer hr.block
      fun hf => hconvert hf raster (PixelBuffer.bytes_of_write hwritten)).mono ?_ (fun _ _ he => he)
    rintro _ t ⟨block',hconverted,hr'⟩
    exact Program.Ends.pure (.filled hok hwritten hconverted (hr.trans hr'))
  | false =>
    apply Program.Ends.bind
    apply delete_ends NativeObject.pixelBuffer? hr.block rfl
    exact Program.Ends.pure (.freed hok (hr.isolated.withHeap (hr.isolated.heap.free hbuffer)) hr.next
      (hr.kept.trans (Kept.of_cells_eq fun _ hx => Heap.free_of_ne hx)) Heap.free_self)

/-- The native memory once `decode` has its buffer. -/
def withBuffer (n : Native σ) (block : PixelBuffer) : Native σ where
  heap := n.heap.alloc (.pixelBuffer block)
  adaptorCalls := n.adaptorCalls
  libtiffCalls := .malloc block.bytes (some n.heap.next) :: n.libtiffCalls

section Exits
variable (S : InputStream σ) (turns : ℕ)

theorem decodeTiff_noted (image : TiffImage) (d : DecodeOutcome) : ∃ noted, Noted m d image noted ∧
    ∀ tif (n : Native σ), decodeTiff m S turns image tif d n =
      (tiffMalloc (d.bufferSize m) d.mallocSucceeds d.uninitialized >>= fun buffer =>
        fillBuffer m S turns noted tif d buffer) n := by
  -- the arithmetic behind the dimensions and the size plays no part in what follows
  obtain ⟨width,hwidth⟩ : ∃ width, width = d.width := ⟨_,rfl⟩
  obtain ⟨height,hheight⟩ : ∃ height, height = d.height := ⟨_,rfl⟩
  obtain ⟨size,hsize⟩ : ∃ size, size = d.bufferSize m := ⟨_,rfl⟩
  refine ⟨{ image with width := width, height := height, bufferSize := size },⟨hwidth,hheight,hsize,rfl,rfl⟩,?_⟩
  intro tif n
  rw [← hsize]
  rw [DecodeOutcome.bufferSize] at hsize
  unfold decodeTiff
  dsimp only
  rw [← hsize, ← hwidth, ← hheight]

theorem decodeTiff_unallocated (ha : ¬d.Allocates m) (image : TiffImage) (tif : ℕ) (n : Native σ) :
    ∃ noted, Noted m d image noted ∧ decodeTiff m S turns image tif d n = (.ok { noted with buffer := none },
      { n with libtiffCalls := .malloc (d.bufferSize m) none :: n.libtiffCalls }) := by
  obtain ⟨noted,hnoted,hrun⟩ := decodeTiff_noted (m := m) S turns image d
  refine ⟨noted,hnoted,(hrun tif n).trans ?_⟩
  have hmalloc := tiffMalloc_none (PixelBuffer.allocate_eq_none d.uninitialized ha) n
  exact Program.bind_of_ok hmalloc

theorem decodeTiff_allocated (ha : d.Allocates m) (image : TiffImage) (tif : ℕ) (n : Native σ) :
    ∃ noted block, Noted m d image noted ∧ block.bytes = d.bufferSize m ∧ decodeTiff m S turns image tif d n =
      fillBuffer m S turns noted tif d (some n.heap.next) (withBuffer n block) := by
  obtain ⟨noted,hnoted,hrun⟩ := decodeTiff_noted (m := m) S turns image d
  obtain ⟨block,hblock,hbytes⟩ := PixelBuffer.allocate_eq_some d.uninitialized ha
  have hmalloc := tiffMalloc_some hblock n
  refine ⟨noted,block,hnoted,hbytes,(hrun tif n).trans ?_⟩
  rw [withBuffer, hbytes]
  exact Program.bind_of_ok hmalloc

end Exits

end TiffImage

structure DecodedTiff (base : Native σ) (m : DataModel) (n : Native σ) (image : TiffImage) (d : DecodeOutcome)
    (image' : TiffImage) (n' : Native σ) : Prop where
  isolated : Isolated base n'
  width : image'.width = d.width
  height : image'.height = d.height
  bufferSize : image'.bufferSize = d.bufferSize m
  adaptor : image'.javaInputStreamAdaptor = image.javaInputStreamAdaptor
  stream : image'.tiffInputStream = image.tiffInputStream
  next_le : n'.heap.next ≤ n.heap.next + 1
  kept : Kept (fun x => x = n.heap.next) n n'
  picture : d.Succeeds m → image'.buffer = some n.heap.next ∧
    ∃ block, d.Fills m block ∧ n'.heap.cells n.heap.next = some (.pixelBuffer block)
  null : ¬d.Succeeds m → image'.buffer = none ∧ n'.heap.cells n.heap.next = none

section DecodedTiff
variable {image image' : TiffImage} {d : DecodeOutcome} {block : PixelBuffer}

theorem DecodedTiff.unallocated {noted : TiffImage} (hi : Isolated base n) (ha : ¬d.Allocates m)
    (hnoted : Noted m d image noted) (calls : List LibtiffCall) :
    DecodedTiff base m n image d { noted with buffer := none } { n with libtiffCalls := calls } where
  isolated := hi.recorded _
  width := hnoted.width
  height := hnoted.height
  bufferSize := hnoted.bufferSize
  adaptor := hnoted.adaptor
  stream := hnoted.stream
  next_le := Nat.le_succ _
  kept := Kept.of_cells_eq fun _ _ => rfl
  picture hs := (ha hs.1).elim
  null _ := ⟨rfl,n.heap.fresh _ (Nat.le_refl _)⟩

theorem Kept.withBuffer (n : Native σ) (block : PixelBuffer) :
    Kept (fun x => x = n.heap.next) n (TiffImage.withBuffer n block) :=
  Kept.of_cells_eq fun _ hx => Heap.alloc_of_ne hx

theorem Handle.withBuffer {tif : ℕ} (h : Handle base n tif) (block : PixelBuffer) :
    Handle base (TiffImage.withBuffer n block) tif := by
  refine h.kept (Kept.withBuffer n block) ?_ ⟨h.isolated.heap.alloc _,h.isolated.calls⟩
  rintro x o hx rfl
  rw [n.heap.fresh _ (Nat.le_refl _)] at hx
  cases hx

theorem TiffImage.FilledBuffer.decodedTiff {noted : TiffImage} (hnoted : Noted m d image noted)
    (hbytes : block.bytes = d.bufferSize m) (ha : d.Allocates m)
    (h : FilledBuffer base (withBuffer n block) noted n.heap.next d block image' n') :
    DecodedTiff base m n image d image' n' := by
  have hkept := Kept.withBuffer n block
  obtain ⟨hwidth,hheight,hsize,hadaptor,hstream⟩ := hnoted
  cases h with
  | filled hread hwrite hconvert hr =>
    have hs : d.Succeeds m := ⟨ha,hread⟩
    rw [hwidth, hheight] at hwrite hconvert
    exact ⟨hr.isolated,hwidth,hheight,hsize,hadaptor,hstream,hr.next.le,hkept.trans hr.kept,
      fun _ => ⟨rfl,_,⟨block,_,hbytes,hwrite,hconvert⟩,hr.block⟩,fun hf => (hf hs).elim⟩
  | freed hread isolated next kept dead =>
    refine ⟨isolated,hwidth,hheight,hsize,hadaptor,hstream,next.le,hkept.trans kept,?_,fun _ => ⟨rfl,dead⟩⟩
    rintro ⟨-,hs⟩
    cases hread.symm.trans hs

end DecodedTiff

theorem decodeTiff_ends {tif : ℕ} (h : Handle base n tif) (image : TiffImage) (d : DecodeOutcome) :
    (TiffImage.decodeTiff m S turns image tif d).Ends n (DecodedTiff base m n image d)
      (Halted base (d.Allocates m → SizeFits m d.pixels)) := by
  by_cases ha : d.Allocates m
  · obtain ⟨noted,block,hnoted,hbytes,hrun⟩ := TiffImage.decodeTiff_allocated S turns ha image tif n
    have hfills : (TiffImage.fillBuffer m S turns noted tif d (some n.heap.next)).Ends (TiffImage.withBuffer n block)
        (TiffImage.FilledBuffer base (TiffImage.withBuffer n block) noted n.heap.next d block)
        (Halted base (d.Allocates m → SizeFits m d.pixels)) := by
      refine TiffImage.fillBuffer_ends (h.withBuffer block) h.isolated.heap.next_le Heap.alloc_self ?_ ?_
      · rw [hnoted.width, hnoted.height]
        exact fun hf => DecodeOutcome.write_of_fits (hf ha) hbytes
      · rw [hnoted.width, hnoted.height]
        exact fun hf raster hraster => DecodeOutcome.convert_of_fits (hf ha) (hraster.trans hbytes)
    exact Program.Ends.of_eq hrun (hfills.mono (fun _ _ hf => hf.decodedTiff hnoted hbytes ha) (fun _ _ he => he))
  · obtain ⟨noted,hnoted,hrun⟩ := TiffImage.decodeTiff_unallocated S turns ha image tif n
    exact Program.Ends.of_ok hrun (DecodedTiff.unallocated h.isolated ha hnoted _)

/-- The `TiffInputStream` at `q` reads through the adaptor at `p`, or has been closed, and holds `tif`. -/
structure Streaming (base n : Native σ) (p q : ℕ) (tif : Option ℕ) : Prop where
  isolated : Isolated base n
  recentAdaptor : base.heap.next ≤ p
  recentStream : base.heap.next ≤ q
  adaptor : ∃ a, n.heap.cells p = some (.javaInputStreamAdaptor a)
  stream : ∃ ts, n.heap.cells q = some (.tiffInputStream ts) ∧ ts.mTif = tif ∧
    (ts.mInStream = some p ∨ ts.mInStream = none)

theorem Streaming.client {p q : ℕ} {tif : Option ℕ} (h : Streaming base n p q tif) : Client base n q := by
  obtain ⟨ts,hts,-,hin⟩ := h.stream
  refine ⟨h.isolated,h.recentStream,ts,hts,?_⟩
  intro p' hp'
  rcases hin with hin | hin
  · cases hin.symm.trans hp'
    exact ⟨h.recentAdaptor,h.adaptor⟩
  · cases hin.symm.trans hp'

theorem Streaming.kept {p q : ℕ} {tif : Option ℕ} {off : ℕ → Prop} (h : Streaming base n p q tif)
    (hk : Kept off n n') (hp : ¬off p) (hq : ¬off q) (hi : Isolated base n') : Streaming base n' p q tif := by
  obtain ⟨a,ha⟩ := h.adaptor
  obtain ⟨ts,hts,htif,hin⟩ := h.stream
  obtain ⟨o,ho,he⟩ := hk.live p _ hp ha
  obtain ⟨o',ho',he'⟩ := hk.live q _ hq hts
  obtain ⟨a',rfl⟩ := he.adaptor_cases
  obtain ⟨ts',rfl,htif',hstream⟩ := he'.tiffInputStream_cases
  refine ⟨hi,h.recentAdaptor,h.recentStream,⟨a',ho⟩,ts',ho',htif'.trans htif,?_⟩
  cases hin' : ts'.mInStream with
  | none => exact Or.inr rfl
  | some x =>
    rcases hin with hin | hin
    · exact Or.inl ((hstream x hin').symm.trans hin)
    · cases hin.symm.trans (hstream x hin')

theorem Streaming.alloc {p q : ℕ} {tif : Option ℕ} (h : Streaming base n p q tif) (o : NativeObject σ) :
    Streaming base { n with heap := n.heap.alloc o } p q tif := by
  obtain ⟨a,ha⟩ := h.adaptor
  obtain ⟨ts,hts,-⟩ := h.stream
  have hk : Kept (fun x => x = n.heap.next) n { n with heap := n.heap.alloc o } :=
    Kept.of_cells_eq fun _ hx => Heap.alloc_of_ne hx
  refine h.kept hk ?_ ?_ (h.isolated.withHeap (h.isolated.heap.alloc _))
  · exact (Heap.lt_next_of_cell ha).ne
  · exact (Heap.lt_next_of_cell hts).ne

theorem Streaming.setTif {p q : ℕ} {tif : Option ℕ} {ts : TiffInputStream ℕ} (h : Streaming base n p q tif)
    (hts : n.heap.cells q = some (.tiffInputStream ts)) (tif' : Option ℕ) :
    Streaming base { n with heap := n.heap.store q (.tiffInputStream { ts with mTif := tif' }) } p q tif' := by
  obtain ⟨a,ha⟩ := h.adaptor
  obtain ⟨ts',hts',-,hin⟩ := h.stream
  cases hts.symm.trans hts'
  have hne : p ≠ q := by
    rintro rfl
    cases ha.symm.trans hts
  exact ⟨h.isolated.withHeap (h.isolated.heap.store h.recentStream _),h.recentAdaptor,h.recentStream,
    ⟨a,(Heap.store_of_ne hne).trans ha⟩,_,Heap.store_self (Heap.lt_next_of_cell hts),rfl,hin⟩

inductive OpenedClient (n s : Native σ) (fd : ℕ) : Bool → Option ℕ → Native σ → Prop
  | opened : OpenedClient n s fd true (some n.heap.next)
      { s with heap := s.heap.alloc (.tiff ⟨.tiffInputStream fd,false⟩) }
  | failed : OpenedClient n s fd false none s

theorem tiffClientOpen_ends {fd : ℕ} (h : Client base n fd) (opening : List Callback) (opens : Bool) :
    (tiffClientOpen m S turns fd opening opens).Ends n
      (fun tif n' => ∃ s, Served n s ∧ Isolated base s ∧ OpenedClient n s fd opens tif n') (Halted base fits) := by
  obtain ⟨ts,hts,-⟩ := h.object
  apply Program.Ends.bind
  refine (clientProcs_ends h opening).mono ?_ ?_
  · rintro _ s ⟨hs,hi⟩
    obtain ⟨o,ho,he⟩ := hs.live fd _ hts
    cases he with
    | tiffInputStream _ ts' htif hstream =>
      apply Program.Ends.bind
      apply load_ends NativeObject.tiffInputStream? ho rfl
      cases opens with
      | true =>
        apply Program.Ends.bind
        apply new_ends
        refine Program.Ends.pure ⟨s,hs,hi,?_⟩
        rw [hs.next]
        exact .opened
      | false => exact Program.Ends.pure ⟨s,hs,hi,.failed⟩
  · rintro _ s ⟨rfl,hi⟩
    exact ⟨by simp,hi,by simp⟩

theorem makeFileStream_ends {p str : ℕ} {ts : TiffInputStream ℕ} {a : JavaInputStreamAdaptor σ}
    (hi : Isolated base n) (hp : base.heap.next ≤ p) (hstr : base.heap.next ≤ str)
    (hts : n.heap.cells p = some (.tiffInputStream ts))
    (ha : n.heap.cells str = some (.javaInputStreamAdaptor a)) (opening : List Callback) (opens : Bool) :
    (makeFileStream m S turns p str opening opens).Ends n
      (fun tif n' => Streaming base n' str p tif ∧
        ((opens = true ∧ tif = some n.heap.next ∧ n'.heap.next = n.heap.next + 1 ∧
          n'.heap.cells n.heap.next = some (.tiff ⟨.tiffInputStream p,false⟩)) ∨
        (opens = false ∧ tif = none ∧ n'.heap.next = n.heap.next))) (Halted base fits) := by
  have hne : p ≠ str := by
    rintro rfl
    rw [hts] at ha
    cases ha
  have hplt := Heap.lt_next_of_cell hts
  have hstrlt := Heap.lt_next_of_cell ha
  apply Program.Ends.bind
  apply load_ends NativeObject.tiffInputStream? hts rfl
  apply Program.Ends.bind
  apply callAdaptor_ends ha
  apply Program.Ends.bind
  apply store_ends
  apply Program.Ends.bind
  apply store_ends
  -- from here on the object is a client of its own
  generalize hattached : (assemble ts none).attach m S a = attached
  have hstream : Streaming base
      { heap := (n.heap.store str (.javaInputStreamAdaptor (attached.mInStream.getD a))).store p
          (.tiffInputStream { ts with mInStream := some str, mStreamLength := attached.mStreamLength })
        adaptorCalls := str :: n.adaptorCalls
        libtiffCalls := n.libtiffCalls } str p ts.mTif := by
    refine ⟨(hi.call hstr).withHeap ((hi.heap.store hstr _).store hp _),hstr,hp,?_,?_⟩
    · refine ⟨attached.mInStream.getD a,?_⟩
      rw [Heap.store_of_ne hne.symm, Heap.store_self hstrlt]
    · exact ⟨_,Heap.store_self hplt,rfl,Or.inl rfl⟩
  apply Program.Ends.bind
  refine (tiffClientOpen_ends hstream.client opening opens).mono ?_ (fun _ _ he => he)
  rintro tif t ⟨s,hs,his,hopened⟩
  have hstream' := hstream.kept (hs.kept (fun _ => False)) not_false not_false his
  have hnext : s.heap.next = n.heap.next := hs.next
  have hlt : p < s.heap.next := by
    rw [hnext]
    exact hplt
  obtain ⟨ts',hts',-⟩ := hstream'.stream
  cases hopened with
  | opened =>
    have hts'' := (Heap.alloc_of_ne (a := NativeObject.tiff ⟨.tiffInputStream p,false⟩) hlt.ne).trans hts'
    apply Program.Ends.bind
    apply load_ends NativeObject.tiffInputStream? hts'' rfl
    apply Program.Ends.bind
    apply store_ends
    refine Program.Ends.pure ⟨(hstream'.alloc _).setTif hts'' _,Or.inl ⟨rfl,rfl,?_,?_⟩⟩
    · rw [Heap.store_next, Heap.alloc_next, hnext]
    · rw [Heap.store_of_ne (by omega), ← hnext, Heap.alloc_self]
  | failed =>
    apply Program.Ends.bind
    apply load_ends NativeObject.tiffInputStream? hts' rfl
    apply Program.Ends.bind
    apply store_ends
    exact Program.Ends.pure ⟨hstream'.setTif hts' _,Or.inr ⟨rfl,rfl,hnext⟩⟩

end TiffJni.Image
