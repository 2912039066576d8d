import TiffJni.Image.NativeCalls

/-! # The objects of a stream call outlive it unused

The adaptor of a `decode(stream)` call holds that call's environment, stream and array,
and stays behind with the handle that leads to it. No later call uses it: it is not
called again, its state does not change before it is deleted, and nothing follows the
pointer left to it afterwards.
-/
namespace TiffJni.Image
open FixedWidth Jni TiffJni.Stream Machine Native
variable {σ : Type} {m : DataModel} {S : InputStream σ} {turns : ℕ}

/-- A call follows no dangling pointer, calls methods of adaptors made during itself only,
and leaves older objects as they are or deletes them. -/
structure LifetimeSafe (record : CallRecord σ) : Prop where
  notDangling : ∀ p, record.result.1 ≠ .error (.dangling p)
  ownAdaptors : ∃ calls, record.result.2.adaptorCalls = calls ++ record.before.adaptorCalls ∧
    ∀ p ∈ calls, record.before.heap.next ≤ p
  untouched : ∀ p, p < record.before.heap.next →
    record.result.2.heap.cells p = record.before.heap.cells p ∨ record.result.2.heap.cells p = none

theorem LifetimeSafe.of_isolated {record : CallRecord σ} (hd : ∀ p, record.result.1 ≠ .error (.dangling p))
    (hi : Isolated record.before record.result.2) : LifetimeSafe record :=
  ⟨hd,hi.calls,fun _ hp => Or.inl (hi.cells_eq hp)⟩

theorem perform_lifetimeSafe {tiffImage : Option TiffImage} {n : Native σ}
    (ho : ∀ image, tiffImage = some image → Owned n image) (call : NativeCall σ) :
    LifetimeSafe ⟨call,tiffImage,n,perform m S turns tiffImage call n⟩ := by
  have hends : (perform m S turns tiffImage call).Ends n _ _ := perform_ends fun _ => ho
  rcases hresult : perform m S turns tiffImage call n with ⟨stop | r,n'⟩
  · have hhalted := hends.stopped hresult
    refine LifetimeSafe.of_isolated ?_ hhalted.isolated
    intro p hp
    exact hhalted.notDangling p (Except.error.inj hp)
  · have hperformed := hends.returned hresult
    have hreturned : ∀ p, (Except.ok r : Except Stop (Response × Option TiffImage)) ≠ .error (.dangling p) := by
      intro p hp
      cases hp
    cases hperformed with
    | idle _ => exact LifetimeSafe.of_isolated hreturned (Isolated.refl n)
    | decoded _ hd _ => exact LifetimeSafe.of_isolated hreturned hd.isolated
    | @released image _ hremoved =>
      refine ⟨hreturned,⟨[],hremoved.calls,by simp⟩,?_⟩
      intro p _
      by_cases hp : image.Names n p
      · exact Or.inr (hremoved.dead p hp)
      · exact Or.inl (hremoved.same p hp)

/-- From any native state, every call of every sequence on a new object is safe, also one
that does not return. -/
theorem streamLifetime_safe (m : DataModel) (S : InputStream σ) (turns : ℕ) (calls : List (NativeCall σ))
    (n : Native σ) : EveryCall m S turns LifetimeSafe calls n := by
  have hkeep : ∀ call tiffImage (n : Native σ) r n', True → (∀ image, tiffImage = some image → Owned n image) →
      perform m S turns tiffImage call n = (.ok r,n') → ∀ image, r.2 = some image → Owned n' image :=
    fun call tiffImage n r n' _ ho hr => ((perform_ends fun _ => ho).returned hr).owned ho
  refine callRecords_forall (A := fun _ => True) (I := fun tiffImage n => ∀ image, tiffImage = some image →
    Owned n image) (fun call _ _ _ ho => perform_lifetimeSafe ho call) hkeep (fun _ _ => trivial) ?_
  intro image himage
  cases himage
  exact Owned.new n

end TiffJni.Image
