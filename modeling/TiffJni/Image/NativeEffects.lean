import TiffJni.Image.NativeMemory

/-! # What libtiff's calls do to the native heap

The client procedures change adaptors and the pointer of the object they were given,
and nothing else: no object appears, disappears or changes its kind. A native call
that only allocates, and only follows pointers to what it allocated, leaves every
older object and every older adaptor alone.
-/
namespace TiffJni.Image.Native
open FixedWidth Jni TiffJni.Stream Machine
variable {σ α : Type} {m : DataModel} {S : InputStream σ} {turns : ℕ} {n n' base : Native σ}

inductive Evolves : NativeObject σ → NativeObject σ → Prop
  | pixelBuffer (b) : Evolves (.pixelBuffer b) (.pixelBuffer b)
  | tiff (t) : Evolves (.tiff t) (.tiff t)
  | adaptor (a a') : Evolves (.javaInputStreamAdaptor a) (.javaInputStreamAdaptor a')
  | tiffInputStream (ts ts' : TiffInputStream ℕ) (htif : ts'.mTif = ts.mTif)
      (hstream : ts'.mInStream = ts.mInStream ∨ ts'.mInStream = none) :
      Evolves (.tiffInputStream ts) (.tiffInputStream ts')

theorem Evolves.refl (o : NativeObject σ) : Evolves o o := by
  cases o with
  | pixelBuffer b => exact .pixelBuffer b
  | javaInputStreamAdaptor a => exact .adaptor a a
  | tiffInputStream ts => exact .tiffInputStream ts ts rfl (Or.inl rfl)
  | tiff t => exact .tiff t

theorem Evolves.trans {o o' o'' : NativeObject σ} (h : Evolves o o') (h' : Evolves o' o'') : Evolves o o'' := by
  cases h with
  | pixelBuffer b => exact h'
  | tiff t => exact h'
  | adaptor a a' =>
    cases h' with
    | adaptor _ a'' => exact .adaptor a a''
  | tiffInputStream ts ts' htif hstream =>
    cases h' with
    | tiffInputStream _ ts'' htif' hstream' =>
      refine .tiffInputStream ts ts'' (htif'.trans htif) ?_
      rcases hstream' with h | h
      · rw [h]
        exact hstream
      · exact Or.inr h

theorem Evolves.tiffInputStream_cases {ts : TiffInputStream ℕ} {o : NativeObject σ}
    (h : Evolves (.tiffInputStream ts) o) : ∃ ts', o = .tiffInputStream ts' ∧ ts'.mTif = ts.mTif ∧
      ∀ p, ts'.mInStream = some p → ts.mInStream = some p := by
  cases h with
  | tiffInputStream _ ts' htif hstream =>
    refine ⟨ts',rfl,htif,?_⟩
    intro p hp
    rcases hstream with hsame | hclosed
    · rw [← hsame, hp]
    · cases hclosed.symm.trans hp

theorem Evolves.adaptor_cases {a : JavaInputStreamAdaptor σ} {o : NativeObject σ}
    (h : Evolves (.javaInputStreamAdaptor a) o) : ∃ a', o = .javaInputStreamAdaptor a' := by
  cases h with
  | adaptor _ a' => exact ⟨a',rfl⟩

structure Served (n n' : Native σ) : Prop where
  next : n'.heap.next = n.heap.next
  dead : ∀ x, n.heap.cells x = none → n'.heap.cells x = none
  live : ∀ x o, n.heap.cells x = some o → ∃ o', n'.heap.cells x = some o' ∧ Evolves o o'

theorem Served.refl (n : Native σ) : Served n n := ⟨rfl,fun _ h => h,fun _ o h => ⟨o,h,Evolves.refl o⟩⟩

theorem Served.trans {n'' : Native σ} (h : Served n n') (h' : Served n' n'') : Served n n'' where
  next := h'.next.trans h.next
  dead x hx := h'.dead x (h.dead x hx)
  live x o hx := by
    obtain ⟨o',ho',he⟩ := h.live x o hx
    obtain ⟨o'',ho'',he'⟩ := h'.live x o' ho'
    exact ⟨o'',ho'',he.trans he'⟩

/-- Apart from the addresses in `off`, no object appears, disappears or changes its kind. -/
structure Kept (off : ℕ → Prop) (n n' : Native σ) : Prop where
  dead : ∀ x, ¬off x → n.heap.cells x = none → n'.heap.cells x = none
  live : ∀ x o, ¬off x → n.heap.cells x = some o → ∃ o', n'.heap.cells x = some o' ∧ Evolves o o'

theorem Kept.of_cells_eq {off : ℕ → Prop} (h : ∀ x, ¬off x → n'.heap.cells x = n.heap.cells x) : Kept off n n' where
  dead x hx hc := (h x hx).trans hc
  live x o hx hc := ⟨o,(h x hx).trans hc,Evolves.refl o⟩

theorem Kept.trans {off : ℕ → Prop} {n'' : Native σ} (h : Kept off n n') (h' : Kept off n' n'') :
    Kept off n n'' where
  dead x hx hc := h'.dead x hx (h.dead x hx hc)
  live x o hx hc := by
    obtain ⟨o',hc',he⟩ := h.live x o hx hc
    obtain ⟨o'',hc'',he'⟩ := h'.live x o' hx hc'
    exact ⟨o'',hc'',he.trans he'⟩

theorem Served.kept (h : Served n n') (off : ℕ → Prop) : Kept off n n' :=
  ⟨fun x _ => h.dead x,fun x o _ => h.live x o⟩

/-- The older objects are as they were, and no older adaptor was called. -/
structure Isolated (base n : Native σ) : Prop where
  heap : base.heap.Extends n.heap
  calls : ∃ new, n.adaptorCalls = new ++ base.adaptorCalls ∧ ∀ p ∈ new, base.heap.next ≤ p

theorem Isolated.refl (n : Native σ) : Isolated n n := ⟨Heap.Extends.refl _,[],rfl,by simp⟩

theorem Isolated.cells_eq (h : Isolated base n) {x : ℕ} (hx : x < base.heap.next) :
    n.heap.cells x = base.heap.cells x := h.heap.cells_eq x hx

theorem Isolated.call (h : Isolated base n) {p : ℕ} (hp : base.heap.next ≤ p) :
    Isolated base { n with adaptorCalls := p :: n.adaptorCalls } := by
  obtain ⟨new,hnew,hall⟩ := h.calls
  refine ⟨h.heap,p :: new,by rw [hnew]; rfl,?_⟩
  intro x hx
  rcases List.mem_cons.mp hx with rfl | hx
  · exact hp
  · exact hall x hx

theorem Isolated.withHeap (h : Isolated base n) {heap : Heap (NativeObject σ)}
    (hheap : base.heap.Extends heap) : Isolated base { n with heap := heap } := ⟨hheap,h.calls⟩

theorem Isolated.recorded (h : Isolated base n) (calls : List LibtiffCall) :
    Isolated base { n with libtiffCalls := calls } := ⟨h.heap,h.calls⟩

theorem tiffMalloc_none {size : ℕ} {succeeds : Bool} {uninitialized : ℕ → Word}
    (ha : PixelBuffer.allocate size succeeds uninitialized = none) (s : Native σ) :
    tiffMalloc size succeeds uninitialized s =
      (.ok none,{ s with libtiffCalls := .malloc size none :: s.libtiffCalls }) := by
  rw [tiffMalloc, ha]
  rfl

theorem tiffMalloc_some {size : ℕ} {succeeds : Bool} {uninitialized : ℕ → Word} {block : PixelBuffer}
    (ha : PixelBuffer.allocate size succeeds uninitialized = some block) (s : Native σ) :
    tiffMalloc size succeeds uninitialized s = (.ok (some s.heap.next),{ s with
      heap := s.heap.alloc (.pixelBuffer block)
      libtiffCalls := .malloc size (some s.heap.next) :: s.libtiffCalls }) := by
  rw [tiffMalloc, ha]
  rfl

section Primitives
variable {s : Native σ} {Q : α → Native σ → Prop} {E : Stop → Native σ → Prop}

theorem load_ends (select : NativeObject σ → Option α) {p : ℕ} {o : NativeObject σ} {a : α}
    (hc : s.heap.cells p = some o) (ho : select o = some a) (h : Q a s) : (load select p).Ends s Q E := by
  refine Program.Ends.of_ok ?_ h
  simp only [load, hc, Option.bind_some, ho]

theorem new_ends {o : NativeObject σ} {Q : ℕ → Native σ → Prop}
    (h : Q s.heap.next { s with heap := s.heap.alloc o }) : (new o).Ends s Q E := Program.Ends.of_ok rfl h

theorem record_ends {call : LibtiffCall} {Q : Unit → Native σ → Prop}
    (h : Q () { s with libtiffCalls := call :: s.libtiffCalls }) : (record call).Ends s Q E :=
  Program.Ends.of_ok rfl h

theorem store_ends {p : ℕ} {o : NativeObject σ} {Q : Unit → Native σ → Prop}
    (h : Q () { s with heap := s.heap.store p o }) : (store p o).Ends s Q E := Program.Ends.of_ok rfl h

theorem delete_ends {β : Type} (select : NativeObject σ → Option β) {p : ℕ} {o : NativeObject σ} {b : β}
    {Q : Unit → Native σ → Prop} (hc : s.heap.cells p = some o) (ho : select o = some b)
    (h : Q () { s with heap := s.heap.free p }) : (delete select p).Ends s Q E := by
  apply Program.Ends.bind
  apply load_ends select hc ho
  exact Program.Ends.modify h

theorem callAdaptor_ends {p : ℕ} {a : JavaInputStreamAdaptor σ}
    {Q : JavaInputStreamAdaptor σ → Native σ → Prop}
    (hc : s.heap.cells p = some (.javaInputStreamAdaptor a))
    (h : Q a { s with adaptorCalls := p :: s.adaptorCalls }) : (callAdaptor p).Ends s Q E := by
  apply Program.Ends.bind
  apply Program.Ends.modify
  exact load_ends (s := { s with adaptorCalls := p :: s.adaptorCalls }) NativeObject.javaInputStreamAdaptor? hc rfl h

end Primitives

theorem Served.store {p : ℕ} {o o' : NativeObject σ} (hc : n.heap.cells p = some o) (he : Evolves o o')
    (calls : List ℕ) : Served n { n with heap := n.heap.store p o', adaptorCalls := calls } where
  next := rfl
  dead x hx := by
    have hne : x ≠ p := by
      rintro rfl
      rw [hc] at hx
      cases hx
    rw [Heap.store_of_ne hne]
    exact hx
  live x o₁ hx := by
    by_cases hxp : x = p
    · subst hxp
      rw [hc] at hx
      cases hx
      exact ⟨o',Heap.store_self (Heap.lt_next_of_cell hc),he⟩
    · exact ⟨o₁,by rw [Heap.store_of_ne hxp, hx],Evolves.refl o₁⟩

/-- `fd` is an object made after `base` whose adaptor, if it has one, was made after `base` too. -/
structure Client (base n : Native σ) (fd : ℕ) : Prop where
  isolated : Isolated base n
  recent : base.heap.next ≤ fd
  object : ∃ ts, n.heap.cells fd = some (.tiffInputStream ts) ∧ ∀ p, ts.mInStream = some p →
    base.heap.next ≤ p ∧ ∃ a, n.heap.cells p = some (.javaInputStreamAdaptor a)

theorem Client.kept {fd : ℕ} {off : ℕ → Prop} (h : Client base n fd) (hk : Kept off n n')
    (hoff : ∀ x o, n.heap.cells x = some o → off x → o.pixelBuffer?.isSome) (hi : Isolated base n') :
    Client base n' fd := by
  obtain ⟨ts,hts,hp⟩ := h.object
  obtain ⟨o,ho,he⟩ := hk.live fd _ (fun hfd => Bool.false_ne_true (hoff fd _ hts hfd)) hts
  obtain ⟨ts',rfl,-,hstream⟩ := he.tiffInputStream_cases
  refine ⟨hi,h.recent,ts',ho,?_⟩
  intro p hp'
  obtain ⟨hle,a,ha⟩ := hp p (hstream p hp')
  obtain ⟨o',ho',he'⟩ := hk.live p _ (fun hx => Bool.false_ne_true (hoff p _ ha hx)) ha
  obtain ⟨a',rfl⟩ := he'.adaptor_cases
  exact ⟨hle,a',ho'⟩

theorem Client.served {fd : ℕ} (h : Client base n fd) (hs : Served n n') (hi : Isolated base n') :
    Client base n' fd := h.kept (hs.kept fun _ => False) (fun _ _ _ hx => hx.elim) hi

/-- One client procedure: it can only stop in a read loop that goes on. -/
theorem clientProc_ends {fd : ℕ} (h : Client base n fd) (call : Callback) :
    (clientProc m S turns fd call).Ends n (fun _ n' => Served n n' ∧ Isolated base n')
      (fun stop n' => stop = .stillRunning ∧ Isolated base n') := by
  obtain ⟨ts,hts,hp⟩ := h.object
  have hpointer : (do
      store fd (.tiffInputStream (onPointer m ts call).2)
      return (onPointer m ts call).1 : NativeProgram σ Answer).Ends n
      (fun _ n' => Served n n' ∧ Isolated base n') (fun stop n' => stop = .stillRunning ∧ Isolated base n') := by
    apply Program.Ends.bind
    apply store_ends
    refine Program.Ends.pure ⟨Served.store hts ?_ _,h.isolated.withHeap (h.isolated.heap.store h.recent _)⟩
    cases call with
    | close =>
      refine .tiffInputStream _ _ ?_ (Or.inr ?_)
      · simp only [onPointer, TiffInputStream.close]
        split <;> rfl
      · simp only [onPointer, TiffInputStream.close]
        split
        · assumption
        · rfl
    | _ => exact Evolves.refl _
  apply Program.Ends.bind
  apply load_ends NativeObject.tiffInputStream? hts rfl
  cases hin : ts.mInStream with
  | none => exact hpointer
  | some p =>
    obtain ⟨hle,a,ha⟩ := hp p hin
    cases hr : reachesAdaptor call with
    | false => exact hpointer
    | true =>
      apply Program.Ends.bind
      apply callAdaptor_ends ha
      split
      · exact Program.Ends.stop ⟨rfl,h.isolated.call hle⟩
      · apply Program.Ends.bind
        apply store_ends
        refine Program.Ends.pure ⟨Served.store ha (.adaptor a _) _,?_⟩
        exact (h.isolated.call hle).withHeap (h.isolated.heap.store hle _)

theorem clientProcs_ends {fd : ℕ} (h : Client base n fd) (calls : List Callback) :
    (Program.each (fun call => clientProc m S turns fd call >>= fun _ => pure ()) calls).Ends n
      (fun _ n' => Served n n' ∧ Isolated base n') (fun stop n' => stop = .stillRunning ∧ Isolated base n') := by
  refine Program.Ends.each (I := fun n' => Served n n' ∧ Isolated base n') ?_ calls ⟨Served.refl n,h.isolated⟩
  intro call s hs
  apply Program.Ends.bind
  refine (clientProc_ends (h.served hs.1 hs.2) call).mono ?_ (fun _ _ he => he)
  intro _ t ht
  exact Program.Ends.pure ⟨hs.1.trans ht.1,ht.2⟩

end TiffJni.Image.Native
