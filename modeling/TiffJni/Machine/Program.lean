import Mathlib.Data.List.Basic

/-! # Programs that may stop early

A program runs from a state, returns a value or stops for a reason, and leaves the
state it reached in either case. `Ends` is its weakest precondition, with one
postcondition for each way to end.
-/
namespace TiffJni.Machine

universe u v w

theorem bind_eq_ok {ε α β : Type} {x : Except ε α} {f : α → Except ε β} {b : β} :
    x >>= f = .ok b ↔ ∃ a, x = .ok a ∧ f a = .ok b := by
  cases x with
  | error e => simp [bind, Except.bind]
  | ok a => simp [bind, Except.bind]

def Program (ε : Type u) (S : Type v) (α : Type w) := S → Except ε α × S

namespace Program
variable {ε : Type u} {S : Type v} {α β : Type w} {γ : Type*}

def ret (a : α) : Program ε S α := fun s => (.ok a,s)

def stop (e : ε) : Program ε S α := fun s => (.error e,s)

def bind (p : Program ε S α) (f : α → Program ε S β) : Program ε S β := fun s =>
  match p s with
  | (.ok a,t) => f a t
  | (.error e,t) => (.error e,t)

instance : Monad (Program ε S) where
  pure := ret
  bind := bind

def modify (f : S → S) : Program ε S Unit := fun s => (.ok (),f s)

def get {ε : Type u} {S : Type w} : Program ε S S := fun s => (.ok s,s)

/-- A program on a part of the state; `put` puts the part it leaves back. -/
def zoom {ε' : Type*} {T : Type*} (part : S → T) (put : T → S → S) (wrap : ε' → ε) (p : Program ε' T α) :
    Program ε S α := fun s =>
  match p (part s) with
  | (.ok a,t) => (.ok a,put t s)
  | (.error e,t) => (.error (wrap e),put t s)

def each (f : γ → Program ε S Unit) : List γ → Program ε S Unit
  | [] => pure ()
  | c :: cs => f c >>= fun _ => each f cs

/-- From `s`, the program returns in `Q` or stops in `E`. -/
structure Ends (p : Program ε S α) (s : S) (Q : α → S → Prop) (E : ε → S → Prop) : Prop where
  returned : ∀ {a t}, p s = (.ok a,t) → Q a t
  stopped : ∀ {e t}, p s = (.error e,t) → E e t

theorem returns_of_fst {p : Program ε S α} {s : S} {a : α} (h : (p s).1 = .ok a) : ∃ t, p s = (.ok a,t) :=
  ⟨(p s).2,Prod.ext h rfl⟩

variable {p : Program ε S α} {f : α → Program ε S β} {s t : S} {Q Q' : α → S → Prop} {R : β → S → Prop}
  {E E' : ε → S → Prop}

theorem bind_of_ok {a : α} (hp : p s = (.ok a,t)) : (p >>= f) s = f a t := by
  change Program.bind p f s = _
  rw [Program.bind, hp]

theorem bind_of_error {e : ε} (hp : p s = (.error e,t)) : (p >>= f) s = (.error e,t) := by
  change Program.bind p f s = _
  rw [Program.bind, hp]

theorem Ends.of_ok {a : α} (hp : p s = (.ok a,t)) (h : Q a t) : p.Ends s Q E := by
  constructor
  · intro b u hb
    cases hp.symm.trans hb
    exact h
  · intro e u he
    cases hp.symm.trans he

theorem Ends.of_error {e : ε} (hp : p s = (.error e,t)) (h : E e t) : p.Ends s Q E := by
  constructor
  · intro b u hb
    cases hp.symm.trans hb
  · intro e' u he
    cases hp.symm.trans he
    exact h

/-- Only the run counts. -/
theorem Ends.of_eq {q : Program ε S α} {u : S} (hrun : p s = q u) (h : q.Ends u Q E) : p.Ends s Q E :=
  ⟨fun hp => h.returned (hrun.symm.trans hp),fun hp => h.stopped (hrun.symm.trans hp)⟩

theorem Ends.mono (h : p.Ends s Q E) (hq : ∀ a t, Q a t → Q' a t) (he : ∀ e t, E e t → E' e t) :
    p.Ends s Q' E' :=
  ⟨fun hp => hq _ _ (h.returned hp),fun hp => he _ _ (h.stopped hp)⟩

theorem Ends.and (h : p.Ends s Q E) (h' : p.Ends s Q' E') :
    p.Ends s (fun a t => Q a t ∧ Q' a t) fun e t => E e t ∧ E' e t :=
  ⟨fun hp => ⟨h.returned hp,h'.returned hp⟩,fun hp => ⟨h.stopped hp,h'.stopped hp⟩⟩

/-- A program that can stop in no way returns. -/
theorem Ends.returns (h : p.Ends s Q E) (hE : ∀ e t, ¬E e t) : ∃ a t, p s = (.ok a,t) ∧ Q a t := by
  rcases hp : p s with ⟨e | a,t⟩
  · exact (hE e t (h.stopped hp)).elim
  · exact ⟨a,t,rfl,h.returned hp⟩

theorem Ends.pure {a : α} (h : Q a s) : (Pure.pure a : Program ε S α).Ends s Q E := of_ok rfl h

theorem Ends.stop {e : ε} (h : E e s) : (Program.stop e : Program ε S α).Ends s Q E := of_error rfl h

theorem Ends.modify {g : S → S} {Q : Unit → S → Prop} (h : Q () (g s)) :
    (Program.modify g : Program ε S Unit).Ends s Q E := of_ok rfl h

theorem Ends.get {S : Type w} {s : S} {Q : S → S → Prop} {E : ε → S → Prop} (h : Q s s) :
    (Program.get : Program ε S S).Ends s Q E := of_ok rfl h

theorem Ends.zoom {ε' : Type*} {T : Type*} {part : S → T} {put : T → S → S} {wrap : ε' → ε}
    {p : Program ε' T α} (h : p.Ends (part s) (fun a t => Q a (put t s)) (fun e t => E (wrap e) (put t s))) :
    (p.zoom part put wrap).Ends s Q E := by
  rcases hp : p (part s) with ⟨e | a,t⟩
  · refine of_error ?_ (h.stopped hp)
    rw [Program.zoom, hp]
  · refine of_ok ?_ (h.returned hp)
    rw [Program.zoom, hp]

/-- Sequencing: what follows is verified in the states the first program returns in. -/
theorem Ends.bind (h : p.Ends s (fun a t => (f a).Ends t R E) E) : (p >>= f).Ends s R E := by
  rcases hp : p s with ⟨e | a,t⟩
  · exact of_error (bind_of_error hp) (h.stopped hp)
  · have hbind : (p >>= f) s = f a t := bind_of_ok hp
    have hrest := h.returned hp
    exact ⟨fun hr => hrest.returned (hbind ▸ hr),fun hr => hrest.stopped (hbind ▸ hr)⟩

theorem Ends.each {g : γ → Program ε S Unit} {I : S → Prop}
    (hstep : ∀ c s, I s → (g c).Ends s (fun _ t => I t) E) (cs : List γ) {s : S} (hs : I s) :
    (Program.each g cs).Ends s (fun _ t => I t) E := by
  induction cs generalizing s with
  | nil => exact Ends.pure hs
  | cons c cs ih =>
    apply Ends.bind
    exact (hstep c s hs).mono (fun _ _ ht => ih ht) (fun _ _ he => he)

end Program

end TiffJni.Machine
