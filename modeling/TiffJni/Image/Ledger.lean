import TiffJni.Image.NativeCalls

/-! # What release gives back

The ledger of one object are the addresses handed out since it was made. Release frees
what the members name by then, so an object is lost when a member that names it is
overwritten: the buffer by the next file that opens, the adaptor and the
`TiffInputStream` by the next stream call.
-/
namespace TiffJni.Image
open FixedWidth Jni TiffJni.Stream Machine Native
variable {σ : Type} {m : DataModel} {S : InputStream σ} {turns : ℕ} {n n' base : Native σ} {image : TiffImage}

namespace NativeCall

def streams (call : NativeCall σ) : Prop := ∃ opened array, call.decodes = some (opened,true,array)

def opens (call : NativeCall σ) : Prop := ∃ d streams array, call.decodes = some (some d,streams,array)

def succeeds (m : DataModel) (call : NativeCall σ) : Prop :=
  ∃ d streams array, call.decodes = some (some d,streams,array) ∧ d.Succeeds m

end NativeCall

/-- No second stream call, and no file opened once a picture has been decoded. -/
def LeakFree (m : DataModel) (calls : List (NativeCall σ)) : Prop :=
  calls.Pairwise fun c c' => ¬(c.streams ∧ c'.streams) ∧ ¬(c.succeeds m ∧ c'.opens)

structure Acquired (base n : Native σ) (image : TiffImage) : Prop where
  owned : Owned n image
  next_le : base.heap.next ≤ n.heap.next
  recent : ∀ x, image.Names n x → base.heap.next ≤ x
  stream : image.javaInputStreamAdaptor = none → image.tiffInputStream = none

def Accounted (base n : Native σ) (image : TiffImage) : Prop :=
  ∀ x o, base.heap.next ≤ x → n.heap.cells x = some o → image.Names n x

theorem Acquired.new (n : Native σ) : Acquired n n TiffImage.new :=
  ⟨Owned.new n,Nat.le_refl _,fun _ hx => (TiffImage.not_names_new hx).elim,fun _ => rfl⟩

theorem Accounted.new (n : Native σ) : Accounted n n TiffImage.new := by
  intro x o hx hc
  rw [n.heap.fresh x hx] at hc
  cases hc

theorem Owned.buffer_of_names (h : Owned n image) {x : ℕ} {block : PixelBuffer} (hx : image.Names n x)
    (hc : n.heap.cells x = some (.pixelBuffer block)) : image.buffer = some x := by
  rcases hx with hx | hx | hx | ⟨q,ts,hq,hts,hx⟩
  · exact hx
  · obtain ⟨a,ha⟩ := h.adaptor x hx
    cases hc.symm.trans ha
  · obtain ⟨ts,hts,-⟩ := h.stream x hx
    cases hc.symm.trans hts
  · obtain ⟨ts',hts',htif⟩ := h.stream q hq
    cases hts.symm.trans hts'
    cases hc.symm.trans (htif x hx)

theorem Owned.adaptor_of_names (h : Owned n image) {x : ℕ} {a : JavaInputStreamAdaptor σ}
    (hx : image.Names n x) (hc : n.heap.cells x = some (.javaInputStreamAdaptor a)) :
    image.javaInputStreamAdaptor = some x := by
  rcases hx with hx | hx | hx | ⟨q,ts,hq,hts,hx⟩
  · obtain ⟨block,hb,-⟩ := h.buffer x hx
    cases hc.symm.trans hb
  · exact hx
  · obtain ⟨ts,hts,-⟩ := h.stream x hx
    cases hc.symm.trans hts
  · obtain ⟨ts',hts',htif⟩ := h.stream q hq
    cases hts.symm.trans hts'
    cases hc.symm.trans (htif x hx)

section Step
variable {opened : Option DecodeOutcome} {streams : Bool} {r : Option ℕ × TiffImage}

theorem Decoded.acquired (h : Decoded m n image opened streams r n') (ha : Acquired base n image) :
    Acquired base n' r.2 := by
  refine ⟨h.owned ha.owned,ha.next_le.trans h.isolated.heap.next_le,?_,?_⟩
  · intro x hx
    rcases h.names_cases ha.owned hx with hnew | hold
    · exact ha.next_le.trans hnew
    · exact ha.recent x hold
  · cases streams with
    | false =>
      rw [(h.kept rfl).1, (h.kept rfl).2]
      exact ha.stream
    | true =>
      obtain ⟨p,q,tif,hp,-⟩ := h.made rfl
      rw [hp]
      intro hnone
      cases hnone

theorem Decoded.cells_of_names (h : Decoded m n image opened streams r n') (ha : Acquired base n image) {x : ℕ}
    (hx : image.Names n x) : n'.heap.cells x = n.heap.cells x := h.isolated.cells_eq (ha.owned.lt_next hx)

theorem Decoded.accounted_before (h : Decoded m n image opened streams r n') (ha : Acquired base n image)
    (hacc : Accounted base n' r.2) : Accounted base n image := by
  intro x o hx hc
  have hlt := Heap.lt_next_of_cell hc
  rcases h.names_cases ha.owned (hacc x o hx ((h.isolated.cells_eq hlt).trans hc)) with hnew | hnamed
  · omega
  · exact hnamed

/-- An adaptor the image had before a stream call is named no more. -/
theorem Decoded.no_adaptor (h : Decoded m n image opened true r n') (ha : Acquired base n image)
    (hacc : Accounted base n' r.2) : image.javaInputStreamAdaptor = none := by
  obtain ⟨p,q,tif,hp,-,hs,-⟩ := h.made rfl
  by_contra hne
  obtain ⟨x,hx⟩ := Option.ne_none_iff_exists'.mp hne
  have hname : image.Names n x := Or.inr (Or.inl hx)
  obtain ⟨a,hc⟩ := ha.owned.adaptor x hx
  have hc' := (h.cells_of_names ha hname).trans hc
  have hx' := (h.owned ha.owned).adaptor_of_names (hacc x _ (ha.recent x hname) hc') hc'
  cases hp.symm.trans hx'
  have hlt := ha.owned.lt_next hname
  have hle := hs.recentAdaptor
  omega

/-- A buffer the image had before a file was opened is named no more. -/
theorem Decoded.no_buffer (h : Decoded m n image opened streams r n') (ha : Acquired base n image)
    (hacc : Accounted base n' r.2) (hsome : opened.isSome) : image.buffer = none := by
  by_contra hne
  obtain ⟨x,hx⟩ := Option.ne_none_iff_exists'.mp hne
  have hname : image.Names n x := Or.inl hx
  obtain ⟨block,hc,-⟩ := ha.owned.buffer x hx
  have hc' := (h.cells_of_names ha hname).trans hc
  have hx' := (h.owned ha.owned).buffer_of_names (hacc x _ (ha.recent x hname) hc') hc'
  rcases h.buffer_cases with ⟨hnone,-⟩ | ⟨d,-,hfresh,hnull⟩
  · rw [hnone] at hsome
    cases hsome
  · by_cases hs : d.Succeeds m
    · obtain ⟨b,hb,hle⟩ := hfresh hs
      cases hb.symm.trans hx'
      have hlt := ha.owned.lt_next hname
      omega
    · cases (hnull hs).symm.trans hx'

theorem Decoded.accounted (h : Decoded m n image opened streams r n') (ha : Acquired base n image)
    (hacc : Accounted base n image) (hstreams : streams = true → image.javaInputStreamAdaptor = none)
    (hopens : opened.isSome → image.buffer = none) : Accounted base n' r.2 := by
  intro x o hx hc
  by_cases hnew : n.heap.next ≤ x
  · exact h.named x o hnew hc
  rw [h.isolated.cells_eq (by omega)] at hc
  have hname := hacc x o hx hc
  -- an old object is named by a member that was not overwritten
  have hkept : ∀ p, image.Names n p → image.buffer ≠ some p → streams = false := by
    rintro p (hp | hp | hp | ⟨q,ts,hq,-⟩) hne
    · exact (hne hp).elim
    · by_contra hs
      cases (hstreams (by simpa using hs)).symm.trans hp
    · by_contra hs
      cases (ha.stream (hstreams (by simpa using hs))).symm.trans hp
    · by_contra hs
      cases (ha.stream (hstreams (by simpa using hs))).symm.trans hq
  by_cases hb : image.buffer = some x
  · rcases h.buffer_cases with ⟨-,hsame⟩ | ⟨d,hd,-⟩
    · exact Or.inl (hsame.trans hb)
    · cases (hopens (by rw [hd]; rfl)).symm.trans hb
  · obtain ⟨hadaptor,hstream⟩ := h.kept (hkept x hname hb)
    rcases hname with hx | hx | hx | ⟨q,ts,hq,hts,hx⟩
    · exact (hb hx).elim
    · exact Or.inr (Or.inl (hadaptor.trans hx))
    · exact Or.inr (Or.inr (Or.inl (hstream.trans hx)))
    · have hts' := (h.cells_of_names ha (Or.inr (Or.inr (Or.inl hq)))).trans hts
      exact Or.inr (Or.inr (Or.inr ⟨q,ts,hstream.trans hq,hts',hx⟩))

/-- A decode keeps the account exactly when it overwrites no member that names something. -/
theorem Decoded.accounted_iff (h : Decoded m n image opened streams r n') (ha : Acquired base n image) :
    Accounted base n' r.2 ↔ Accounted base n image ∧ (streams = true → image.javaInputStreamAdaptor = none) ∧
      (opened.isSome → image.buffer = none) := by
  constructor
  · intro hacc
    refine ⟨h.accounted_before ha hacc,?_,h.no_buffer ha hacc⟩
    rintro rfl
    exact h.no_adaptor ha hacc
  · rintro ⟨hacc,hstreams,hopens⟩
    exact h.accounted ha hacc hstreams hopens

end Step

structure Booked (m : DataModel) (base n : Native σ) (call : NativeCall σ) (image image' : TiffImage)
    (n' : Native σ) : Prop where
  acquired : Acquired base n' image'
  accounted : Accounted base n' image' ↔ Accounted base n image ∧
    (call.streams → image.javaInputStreamAdaptor = none) ∧ (call.opens → image.buffer = none)
  adaptor : image'.javaInputStreamAdaptor = none ↔ image.javaInputStreamAdaptor = none ∧ ¬call.streams
  buffer : image'.buffer = none ↔ (call.opens ∨ image.buffer = none) ∧ ¬call.succeeds m

theorem Booked.idle {call : NativeCall σ} (hcall : call.decodes = none) (ha : Acquired base n image) :
    Booked m base n call image image n := by
  have hstreams : ¬call.streams := by
    rintro ⟨opened,array,h⟩
    cases hcall.symm.trans h
  have hopens : ¬call.opens := by
    rintro ⟨d,streams,array,h⟩
    cases hcall.symm.trans h
  have hsucceeds : ¬call.succeeds m := by
    rintro ⟨d,streams,array,h,-⟩
    cases hcall.symm.trans h
  constructor <;> simp [hstreams, hopens, hsucceeds, ha]

theorem Decoded.booked {call : NativeCall σ} {opened : Option DecodeOutcome} {streams : Bool} {array : ArrayOutcome}
    {r : Option ℕ × TiffImage} (h : Decoded m n image opened streams r n')
    (hcall : call.decodes = some (opened,streams,array)) (ha : Acquired base n image) :
    Booked m base n call image r.2 n' := by
  have hstreams : call.streams ↔ streams = true := by
    constructor
    · rintro ⟨opened',array',h'⟩
      cases hcall.symm.trans h'
      rfl
    · rintro rfl
      exact ⟨opened,array,hcall⟩
  have hopens : call.opens ↔ opened.isSome := by
    constructor
    · rintro ⟨d,streams',array',h'⟩
      cases hcall.symm.trans h'
      rfl
    · intro hsome
      obtain ⟨d,rfl⟩ := Option.isSome_iff_exists.mp hsome
      exact ⟨d,streams,array,hcall⟩
  have hsucceeds : ∀ d, opened = some d → (call.succeeds m ↔ d.Succeeds m) := by
    rintro d rfl
    constructor
    · rintro ⟨d',streams',array',h',hs⟩
      cases hcall.symm.trans h'
      exact hs
    · intro hs
      exact ⟨d,streams,array,hcall,hs⟩
  refine ⟨h.acquired ha,?_,?_,?_⟩
  · rw [hstreams, hopens]
    exact h.accounted_iff ha
  · rw [hstreams]
    cases streams with
    | false => simp [(h.kept rfl).1]
    | true =>
      obtain ⟨p,q,tif,hp,-⟩ := h.made rfl
      simp [hp]
  · rw [hopens]
    rcases h.buffer_cases with ⟨rfl,hb⟩ | ⟨d,rfl,hfresh,hnull⟩
    · have hnot : ¬call.succeeds m := by
        rintro ⟨d,streams',array',h',-⟩
        cases hcall.symm.trans h'
      simp [hb, hnot]
    · rw [hsucceeds d rfl]
      by_cases hs : d.Succeeds m
      · obtain ⟨b,hb,-⟩ := hfresh hs
        simp [hb, hs]
      · simp [hnull hs, hs]

structure Balanced (m : DataModel) (base n : Native σ) (calls : List (NativeCall σ)) (image image' : TiffImage)
    (n' : Native σ) : Prop where
  acquired : Acquired base n' image'
  accounted : Accounted base n' image' ↔ Accounted base n image ∧ LeakFree m calls ∧
    (∀ call ∈ calls, call.streams → image.javaInputStreamAdaptor = none) ∧
    (∀ call ∈ calls, call.opens → image.buffer = none)

theorem Booked.balanced {call : NativeCall σ} {calls : List (NativeCall σ)} {image₁ image₂ : TiffImage}
    {n₁ n₂ : Native σ} (h : Booked m base n call image image₁ n₁) (hrest : Balanced m base n₁ calls image₁ image₂ n₂) :
    Balanced m base n (call :: calls) image image₂ n₂ := by
  refine ⟨hrest.acquired,?_⟩
  rw [hrest.accounted, h.accounted, h.adaptor, h.buffer, LeakFree, LeakFree, List.pairwise_cons]
  simp only [List.forall_mem_cons]
  constructor
  · rintro ⟨⟨hacc,hstream,hopen⟩,hfree,hstreams,hopens⟩
    refine ⟨hacc,⟨fun c hc => ⟨?_,?_⟩,hfree⟩,⟨hstream,fun c hc hs => (hstreams c hc hs).1⟩,hopen,?_⟩
    · rintro ⟨hs,hs'⟩
      exact (hstreams c hc hs').2 hs
    · rintro ⟨hs,ho⟩
      exact (hopens c hc ho).2 hs
    · intro c hc ho
      rcases (hopens c hc ho).1 with hc' | hb
      · exact hopen hc'
      · exact hb
  · rintro ⟨hacc,⟨hpair,hfree⟩,⟨hstream,hstreams⟩,hopen,hopens⟩
    refine ⟨⟨hacc,hstream,hopen⟩,hfree,?_,?_⟩
    · intro c hc hs
      exact ⟨hstreams c hc hs,fun hs' => (hpair c hc).1 ⟨hs',hs⟩⟩
    · intro c hc ho
      exact ⟨Or.inr (hopens c hc ho),fun hs => (hpair c hc).2 ⟨hs,ho⟩⟩

theorem runCalls_balanced {calls : List (NativeCall σ)} (hcalls : ∀ call ∈ calls, call ≠ .release)
    (ha : Acquired base n image) : (runCalls m S turns calls (some image)).Ends n
      (fun t n' => ∃ image', t = some image' ∧ Balanced m base n calls image image' n') (fun _ _ => True) := by
  induction calls generalizing n image with
  | nil =>
    refine Program.Ends.pure ⟨image,rfl,ha,?_⟩
    simp [LeakFree]
  | cons call calls ih =>
    have ho : ∀ image', some image = some image' → Owned n image' := by
      rintro _ ⟨⟩
      exact ha.owned
    apply Program.Ends.bind
    refine (perform_ends fun _ => ho).mono ?_ (fun _ _ _ => trivial)
    intro r s hperformed
    have hbooked : ∃ image₁, r.2 = some image₁ ∧ Booked m base n call image image₁ s := by
      cases hperformed with
      | idle hidle =>
        rcases hidle with hnone | ⟨hnone,-⟩
        · cases hnone
        · exact ⟨image,rfl,Booked.idle hnone ha⟩
      | decoded hcall hd _ => exact ⟨_,rfl,hd.booked hcall ha⟩
      | released _ => exact (hcalls _ (List.mem_cons_self ..) rfl).elim
    obtain ⟨image₁,himage,hbooked⟩ := hbooked
    rw [himage]
    refine (ih (fun c hc => hcalls c (List.mem_cons_of_mem _ hc)) hbooked.acquired).mono ?_ (fun _ _ he => he)
    rintro t n₂ ⟨image₂,rfl,hrest⟩
    exact ⟨image₂,rfl,hbooked.balanced hrest⟩

/-- Release frees what is named, so the ledger is empty exactly when everything is. -/
theorem nativeReleaseJNI_ends (ha : Acquired base n image) : (nativeReleaseJNI m S turns (some image)).Ends n
    (fun r n' => r = (.void,none) ∧ ((∀ p, base.heap.next ≤ p → n'.heap.cells p = none) ↔ Accounted base n image))
    (fun _ _ => False) := by
  apply Program.Ends.bind
  refine (destroy_ends ha.owned).mono ?_ (fun _ _ he => he)
  intro _ s hs
  refine Program.Ends.pure ⟨rfl,?_,?_⟩
  · intro hempty x o hx hc
    by_contra hname
    rw [← hs.same x hname, hempty x hx] at hc
    cases hc
  · intro hacc x hx
    by_cases hname : image.Names n x
    · exact hs.dead x hname
    · rw [hs.same x hname]
      by_contra hne
      obtain ⟨o,ho⟩ := Option.ne_none_iff_exists'.mp hne
      exact hname (hacc x o hx ho)

/-- After any calls that return, release empties the ledger of the object exactly when no
call overwrote a member that named something. -/
theorem ledger_empty_iff (m : DataModel) (S : InputStream σ) (turns : ℕ) {calls : List (NativeCall σ)}
    (hcalls : ∀ call ∈ calls, call ≠ .release) {n₀ n : Native σ} {tiffImage : Option TiffImage}
    (hrun : runCalls m S turns calls (some TiffImage.new) n₀ = (.ok tiffImage,n)) :
    ∃ n', nativeReleaseJNI m S turns tiffImage n = (.ok (.void,none),n') ∧
      ((∀ p, n₀.heap.next ≤ p → n'.heap.cells p = none) ↔ LeakFree m calls) := by
  obtain ⟨image,rfl,hbalanced⟩ := (runCalls_balanced hcalls (Acquired.new n₀)).returned hrun
  have hends : (nativeReleaseJNI m S turns (some image)).Ends n _ _ := nativeReleaseJNI_ends hbalanced.acquired
  rcases hrelease : nativeReleaseJNI m S turns (some image) n with ⟨stop | r,n'⟩
  · exact (hends.stopped hrelease).elim
  · obtain ⟨rfl,hempty⟩ := hends.returned hrelease
    refine ⟨n',rfl,hempty.trans ?_⟩
    rw [hbalanced.accounted]
    exact ⟨fun h => h.2.1,fun h => ⟨Accounted.new n₀,h,fun _ _ _ => rfl,fun _ _ _ => rfl⟩⟩

def unopenedStream : NativeCall (ByteArrayState [1,2,3]) :=
  .decodeStream (some ⟨.new _,.oneByte,[.read 2],none⟩) ⟨true,true⟩

def reopenedImage : TiffImage := ⟨none,0,0,0,some 2,some 3⟩

theorem ledger_empty_iff_unopenedStream : ∃ n,
    runCalls .lp64 (byteArrayInputStream [1,2,3]) 4 [unopenedStream,unopenedStream] (some TiffImage.new)
      Native.empty = (.ok (some reopenedImage),n) ∧
    ∃ n', nativeReleaseJNI .lp64 (byteArrayInputStream [1,2,3]) 4 (some reopenedImage) n = (.ok (.void,none),n') ∧
      ((∀ p, (Native.empty : Native (ByteArrayState [1,2,3])).heap.next ≤ p → n'.heap.cells p = none) ↔
        LeakFree .lp64 [unopenedStream,unopenedStream]) := by
  have hfst : (runCalls .lp64 (byteArrayInputStream [1,2,3]) 4 [unopenedStream,unopenedStream]
      (some TiffImage.new) Native.empty).1 = .ok (some reopenedImage) := by decide +kernel
  obtain ⟨n,hrun⟩ := Program.returns_of_fst hfst
  have hcalls : ∀ call ∈ [unopenedStream,unopenedStream], call ≠ .release := by simp [unopenedStream]
  exact ⟨n,hrun,ledger_empty_iff .lp64 (byteArrayInputStream [1,2,3]) 4 hcalls hrun⟩

theorem repeatedStream_leaks :
    let n := (runCalls .lp64 (byteArrayInputStream [1,2,3]) 4 [unopenedStream,unopenedStream]
      (some TiffImage.new) Native.empty).2
    (runCalls .lp64 (byteArrayInputStream [1,2,3]) 4 [unopenedStream,unopenedStream] (some TiffImage.new)
      Native.empty).1 = .ok (some reopenedImage) ∧
    (nativeReleaseJNI .lp64 (byteArrayInputStream [1,2,3]) 4 (some reopenedImage) n).1 = .ok (.void,none) ∧
    ((nativeReleaseJNI .lp64 (byteArrayInputStream [1,2,3]) 4 (some reopenedImage) n).2.heap.cells 0).isSome := by
  decide +kernel

end TiffJni.Image
