import TiffJni.Image.DecodeEffects

/-! # What an image owns

An image names the objects its pointers lead to: its buffer, its adaptor, its
`TiffInputStream` and the handle that one holds. It owns them while they are alive
and of the right kind, which is what its destructor relies on.
-/
namespace TiffJni.Image
open FixedWidth Jni TiffJni.Stream Machine Native
variable {σ : Type} {m : DataModel} {S : InputStream σ} {turns : ℕ} {n n' base : Native σ}
  {image : TiffImage}

/-- The objects the destructor gives back. -/
def TiffImage.Names (image : TiffImage) (n : Native σ) (x : ℕ) : Prop :=
  image.buffer = some x ∨ image.javaInputStreamAdaptor = some x ∨ image.tiffInputStream = some x ∨
    ∃ q ts, image.tiffInputStream = some q ∧ n.heap.cells q = some (.tiffInputStream ts) ∧ ts.mTif = some x

structure Owned (n : Native σ) (image : TiffImage) : Prop where
  buffer : ∀ b, image.buffer = some b →
    ∃ block, n.heap.cells b = some (.pixelBuffer block) ∧ block.bytes = image.bufferSize
  adaptor : ∀ p, image.javaInputStreamAdaptor = some p → ∃ a, n.heap.cells p = some (.javaInputStreamAdaptor a)
  stream : ∀ q, image.tiffInputStream = some q → ∃ ts, n.heap.cells q = some (.tiffInputStream ts) ∧
    ∀ t, ts.mTif = some t → n.heap.cells t = some (.tiff ⟨.tiffInputStream q,false⟩)

theorem Owned.new (n : Native σ) : Owned n TiffImage.new := by
  constructor
  · intro b hb
    cases hb
  · intro p hp
    cases hp
  · intro q hq
    cases hq

theorem TiffImage.not_names_new {x : ℕ} : ¬TiffImage.new.Names n x := by
  rintro (hx | hx | hx | ⟨q,ts,hx,-⟩) <;> cases hx

theorem Owned.live (h : Owned n image) {x : ℕ} (hx : image.Names n x) : ∃ o, n.heap.cells x = some o := by
  rcases hx with hx | hx | hx | ⟨q,ts,hq,hts,hx⟩
  · obtain ⟨block,hc,-⟩ := h.buffer x hx
    exact ⟨_,hc⟩
  · obtain ⟨a,hc⟩ := h.adaptor x hx
    exact ⟨_,hc⟩
  · obtain ⟨ts,hc,-⟩ := h.stream x hx
    exact ⟨_,hc⟩
  · obtain ⟨ts',hts',htif⟩ := h.stream q hq
    cases hts.symm.trans hts'
    exact ⟨_,htif x hx⟩

theorem Owned.lt_next (h : Owned n image) {x : ℕ} (hx : image.Names n x) : x < n.heap.next := by
  obtain ⟨o,ho⟩ := h.live hx
  exact Heap.lt_next_of_cell ho

theorem TiffImage.Names.congr {x : ℕ}
    (hq : ∀ q, image.tiffInputStream = some q → n'.heap.cells q = n.heap.cells q) :
    image.Names n' x ↔ image.Names n x := by
  unfold TiffImage.Names
  refine or_congr_right (or_congr_right (or_congr_right ?_))
  constructor
  · rintro ⟨q,ts,himage,hts,hx⟩
    exact ⟨q,ts,himage,(hq q himage).symm.trans hts,hx⟩
  · rintro ⟨q,ts,himage,hts,hx⟩
    exact ⟨q,ts,himage,(hq q himage).trans hts,hx⟩

theorem TiffImage.names_of_no_stream {x : ℕ} (hq : image.tiffInputStream = none) :
    image.Names n x ↔ image.buffer = some x ∨ image.javaInputStreamAdaptor = some x := by
  constructor
  · rintro (hx | hx | hx | ⟨q,ts,hx,-⟩)
    · exact Or.inl hx
    · exact Or.inr hx
    · cases hq.symm.trans hx
    · cases hq.symm.trans hx
  · rintro (hx | hx)
    · exact Or.inl hx
    · exact Or.inr (Or.inl hx)

theorem TiffImage.names_of_stream {q x : ℕ} {ts : TiffInputStream ℕ} (hq : image.tiffInputStream = some q)
    (hts : n.heap.cells q = some (.tiffInputStream ts)) :
    image.Names n x ↔ (image.buffer = some x ∨ image.javaInputStreamAdaptor = some x) ∨ x = q ∨ ts.mTif = some x := by
  constructor
  · rintro (hx | hx | hx | ⟨q',ts',hq',hts',hx⟩)
    · exact Or.inl (Or.inl hx)
    · exact Or.inl (Or.inr hx)
    · cases hq.symm.trans hx
      exact Or.inr (Or.inl rfl)
    · cases hq.symm.trans hq'
      cases hts.symm.trans hts'
      exact Or.inr (Or.inr hx)
  · rintro ((hx | hx) | rfl | hx)
    · exact Or.inl hx
    · exact Or.inr (Or.inl hx)
    · exact Or.inr (Or.inr (Or.inl hq))
    · exact Or.inr (Or.inr (Or.inr ⟨q,ts,hq,hts,hx⟩))

theorem Owned.frame (h : Owned n image) (hsame : ∀ x, image.Names n x → n'.heap.cells x = n.heap.cells x) :
    Owned n' image := by
  constructor
  · intro b hb
    rw [hsame b (Or.inl hb)]
    exact h.buffer b hb
  · intro p hp
    rw [hsame p (Or.inr (Or.inl hp))]
    exact h.adaptor p hp
  · intro q hq
    obtain ⟨ts,hts,htif⟩ := h.stream q hq
    refine ⟨ts,(hsame q (Or.inr (Or.inr (Or.inl hq)))).trans hts,?_⟩
    intro t ht
    exact (hsame t (Or.inr (Or.inr (Or.inr ⟨q,ts,hq,hts,ht⟩)))).trans (htif t ht)

section Destructor
variable {Q : Unit → Native σ → Prop} {E : Stop → Native σ → Prop}

/-- Closing the handle of a stream calls its `close` procedure, which does not follow the
pointer to the adaptor. -/
theorem tiffClose_stream_ends {t q : ℕ} {ts : TiffInputStream ℕ}
    (ht : n.heap.cells t = some (.tiff ⟨.tiffInputStream q,false⟩))
    (hq : n.heap.cells q = some (.tiffInputStream ts))
    (h : Q () { n with heap := (n.heap.free t).store q (.tiffInputStream ts.close.2) }) :
    (tiffClose m S turns t).Ends n Q E := by
  have hne : q ≠ t := by
    rintro rfl
    cases hq.symm.trans ht
  apply Program.Ends.bind
  apply load_ends NativeObject.tiff? ht rfl
  apply Program.Ends.bind
  refine delete_ends NativeObject.tiff? ht rfl ?_
  apply Program.Ends.bind
  apply Program.Ends.bind
  refine load_ends NativeObject.tiffInputStream? ((Heap.free_of_ne hne).trans hq) rfl ?_
  have hpointer : (do
      store q (.tiffInputStream (onPointer m ts .close).2)
      return (onPointer m ts .close).1 : NativeProgram σ Answer).Ends { n with heap := n.heap.free t }
      (fun _ s => Q () s) E := by
    apply Program.Ends.bind
    exact store_ends (Program.Ends.pure h)
  have hreturn := hpointer.mono (fun a s hs => Program.Ends.pure (E := E) (a := ()) hs) (fun _ _ he => he)
  cases hin : ts.mInStream with
  | none => exact hreturn
  | some p => exact hreturn

structure Removed (n : Native σ) (gone : ℕ → Prop) (n' : Native σ) : Prop where
  calls : n'.adaptorCalls = n.adaptorCalls
  next : n'.heap.next = n.heap.next
  dead : ∀ x, gone x → n'.heap.cells x = none
  same : ∀ x, ¬gone x → n'.heap.cells x = n.heap.cells x

theorem deleteTiffInputStream_ends {q : ℕ} {ts : TiffInputStream ℕ}
    (hq : n.heap.cells q = some (.tiffInputStream ts))
    (ht : ∀ t, ts.mTif = some t → n.heap.cells t = some (.tiff ⟨.tiffInputStream q,false⟩)) :
    (deleteTiffInputStream m S turns q).Ends n
      (fun _ n' => Removed n (fun x => x = q ∨ ts.mTif = some x) n') (fun _ _ => False) := by
  apply Program.Ends.bind
  apply load_ends NativeObject.tiffInputStream? hq rfl
  cases htif : ts.mTif with
  | none =>
    refine delete_ends NativeObject.tiffInputStream? hq rfl ⟨rfl,rfl,?_,?_⟩
    · rintro x (rfl | hx)
      · exact Heap.free_self
      · cases hx
    · intro x hx
      exact Heap.free_of_ne (fun h => hx (Or.inl h))
  | some t =>
    have hcell := ht t htif
    have hlt := Heap.lt_next_of_cell hq
    apply Program.Ends.bind
    apply tiffClose_stream_ends hcell hq
    refine delete_ends NativeObject.tiffInputStream? (Heap.store_self hlt) rfl ⟨rfl,rfl,?_,?_⟩
    · intro x hx
      by_cases hxq : x = q
      · rw [hxq]
        exact Heap.free_self
      · rcases hx with hx | hx
        · exact (hxq hx).elim
        · cases hx
          exact (Heap.free_of_ne hxq).trans ((Heap.store_of_ne hxq).trans Heap.free_self)
    · intro x hx
      have hxq : x ≠ q := fun h => hx (Or.inl h)
      have hxt : x ≠ t := fun h => hx (Or.inr (by rw [h]))
      exact (Heap.free_of_ne hxq).trans ((Heap.store_of_ne hxq).trans (Heap.free_of_ne hxt))

theorem ifNotNull_delete_ends {β : Type} (select : NativeObject σ → Option β) {p : Option ℕ}
    (hp : ∀ x, p = some x → ∃ o, n.heap.cells x = some o ∧ (select o).isSome) :
    (TiffImage.ifNotNull p (delete select)).Ends n (fun _ n' => Removed n (fun x => p = some x) n')
      (fun _ _ => False) := by
  cases p with
  | none => exact Program.Ends.pure ⟨rfl,rfl,by simp,fun _ _ => rfl⟩
  | some x =>
    obtain ⟨o,ho,hsel⟩ := hp x rfl
    obtain ⟨b,hb⟩ := Option.isSome_iff_exists.mp hsel
    refine delete_ends select ho hb ⟨rfl,rfl,?_,?_⟩
    · rintro y hy
      cases hy
      exact Heap.free_self
    · intro y hy
      exact Heap.free_of_ne (fun h => hy (by rw [h]))

theorem Removed.trans {n'' : Native σ} {gone gone' : ℕ → Prop} (h : Removed n gone n') (h' : Removed n' gone' n'') :
    Removed n (fun x => gone x ∨ gone' x) n'' where
  calls := h'.calls.trans h.calls
  next := h'.next.trans h.next
  dead x hx := by
    by_cases hg : gone' x
    · exact h'.dead x hg
    · rw [h'.same x hg]
      exact h.dead x (hx.resolve_right hg)
  same x hx := (h'.same x fun hg => hx (Or.inr hg)).trans (h.same x fun hg => hx (Or.inl hg))

theorem Removed.congr {gone gone' : ℕ → Prop} (h : Removed n gone n') (hiff : ∀ x, gone' x ↔ gone x) :
    Removed n gone' n' :=
  ⟨h.calls,h.next,fun x hx => h.dead x ((hiff x).mp hx),fun x hx => h.same x fun hg => hx ((hiff x).mpr hg)⟩

/-- The destructor of an image that owns its objects frees exactly them, without a call to
any adaptor. -/
theorem destroy_ends (h : Owned n image) :
    (image.destroy m S turns).Ends n (fun _ n' => Removed n (image.Names n) n') (fun _ _ => False) := by
  apply Program.Ends.bind
  refine (ifNotNull_delete_ends NativeObject.pixelBuffer? ?_).mono ?_ (fun _ _ he => he)
  · intro b hb
    obtain ⟨block,hc,-⟩ := h.buffer b hb
    exact ⟨_,hc,rfl⟩
  rintro _ n₁ h₁
  have hadaptor : ∀ p, image.javaInputStreamAdaptor = some p →
      ∃ a, n₁.heap.cells p = some (.javaInputStreamAdaptor a) := by
    intro p hp
    obtain ⟨a,ha⟩ := h.adaptor p hp
    refine ⟨a,(h₁.same p ?_).trans ha⟩
    intro hb
    obtain ⟨block,hc,-⟩ := h.buffer p hb
    cases hc.symm.trans ha
  apply Program.Ends.bind
  refine (ifNotNull_delete_ends NativeObject.javaInputStreamAdaptor? ?_).mono ?_ (fun _ _ he => he)
  · intro p hp
    obtain ⟨a,ha⟩ := hadaptor p hp
    exact ⟨_,ha,rfl⟩
  rintro _ n₂ h₂
  have h₁₂ := h₁.trans h₂
  -- the stream and its handle are of other kinds than what is gone by now
  have hkind : ∀ x o, n.heap.cells x = some o → o.pixelBuffer? = none → o.javaInputStreamAdaptor? = none →
      n₂.heap.cells x = some o := by
    intro x o hx hb hp
    rw [h₁₂.same x ?_]
    · exact hx
    rintro (hg | hg)
    · obtain ⟨block,hc,-⟩ := h.buffer x hg
      cases hc.symm.trans hx
      cases hb
    · obtain ⟨a,ha⟩ := h.adaptor x hg
      cases ha.symm.trans hx
      cases hp
  cases hq : image.tiffInputStream with
  | none => exact Program.Ends.pure (h₁₂.congr fun _ => TiffImage.names_of_no_stream hq)
  | some q =>
    obtain ⟨ts,hts,htif⟩ := h.stream q hq
    refine (deleteTiffInputStream_ends (hkind q _ hts rfl rfl) ?_).mono ?_ (fun _ _ he => he)
    · intro t ht
      exact hkind t _ (htif t ht) rfl rfl
    · intro _ n₃ h₃
      exact (h₁₂.trans h₃).congr fun _ => TiffImage.names_of_stream hq hts

end Destructor

end TiffJni.Image
