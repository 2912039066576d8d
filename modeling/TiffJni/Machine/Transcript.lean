import Mathlib.Data.List.Basic

/-! # Servers, adaptive clients and transcripts

A server answers one call at a time from a private state. An adaptive client
chooses each call from the answers it has seen, so a client is a function of the
history. A simulation between two servers makes their transcripts equal for
every such client; nothing is assumed about the client but that the reference
server admits each call it issues.
-/
namespace TiffJni.Transcript

/-- A call either stops with `ε` or yields an answer and the next private state. -/
structure Server (ε C A S : Type*) where
  call : S → C → Except ε (A × S)

variable {ε C A S T : Type*}

namespace Server

def feed (srv : Server ε C A S) : List C → S → Except ε S
  | [], s => .ok s
  | c :: cs, s =>
    match srv.call s c with
    | .error e => .error e
    | .ok (_, s') => srv.feed cs s'

/-- The answers to `n` further calls of an adaptive client, after the history `hist`. -/
def transcript (srv : Server ε C A S) (client : List A → C) : ℕ → List A → S → Except ε (List A)
  | 0, hist, _ => .ok hist
  | n + 1, hist, s =>
    match srv.call s (client hist) with
    | .error e => .error e
    | .ok (a, s') => srv.transcript client n (hist ++ [a]) s'

def Reachable (srv : Server ε C A S) (s t : S) : Prop := ∃ cs, srv.feed cs s = .ok t

variable (srv : Server ε C A S)

@[simp] theorem feed_nil (s : S) : srv.feed [] s = .ok s := rfl

theorem feed_cons_ok {c : C} {cs : List C} {s u : S} :
    srv.feed (c :: cs) s = .ok u ↔ ∃ a t, srv.call s c = .ok (a,t) ∧ srv.feed cs t = .ok u := by
  simp only [feed]
  cases h : srv.call s c with
  | error e => simp
  | ok r =>
    obtain ⟨a,t⟩ := r
    constructor
    · intro hu
      exact ⟨a,t,rfl,hu⟩
    · rintro ⟨a',t',he,hu⟩
      cases he
      exact hu

theorem feed_append_ok {cs ds : List C} {s u : S} :
    srv.feed (cs ++ ds) s = .ok u ↔ ∃ t, srv.feed cs s = .ok t ∧ srv.feed ds t = .ok u := by
  induction cs generalizing s with
  | nil => simp
  | cons c cs ih =>
    rw [List.cons_append, feed_cons_ok]
    constructor
    · rintro ⟨a,t,hc,hu⟩
      obtain ⟨t',ht,hd⟩ := ih.mp hu
      exact ⟨t',srv.feed_cons_ok.mpr ⟨a,t,hc,ht⟩,hd⟩
    · rintro ⟨t',ht,hd⟩
      obtain ⟨a,t,hc,ht⟩ := srv.feed_cons_ok.mp ht
      exact ⟨a,t,hc,ih.mpr ⟨t',ht,hd⟩⟩

/-- What one returned call preserves, every finite run preserves. -/
theorem feed_invariant {P : S → Prop}
    (hstep : ∀ s c a t, P s → srv.call s c = .ok (a,t) → P t)
    {cs : List C} {s t : S} (hs : P s) (h : srv.feed cs s = .ok t) : P t := by
  induction cs generalizing s with
  | nil =>
    cases h
    exact hs
  | cons c cs ih =>
    obtain ⟨a,u,hc,hu⟩ := srv.feed_cons_ok.mp h
    exact ih (hstep s c a u hs hc) hu

theorem Reachable.invariant {srv : Server ε C A S} {P : S → Prop}
    (hstep : ∀ s c a t, P s → srv.call s c = .ok (a,t) → P t)
    {s t : S} (h : srv.Reachable s t) (hs : P s) : P t := by
  obtain ⟨cs,hcs⟩ := h
  exact srv.feed_invariant hstep hs hcs

/-- The server with a record of the calls that it answered. -/
def recorded : Server ε C A (S × List C) :=
  ⟨fun (s,calls) c => match srv.call s c with
    | .error e => .error e
    | .ok (a,s') => .ok (a,(s',calls ++ [c]))⟩

theorem recorded_call {s s' : S} {calls : List C} {c : C} {a : A} (h : srv.call s c = .ok (a,s')) :
    srv.recorded.call (s,calls) c = .ok (a,(s',calls ++ [c])) := by
  simp only [recorded, h]

theorem feed_concat {s t u : S} {calls : List C} {c : C} {a : A} (h : srv.feed calls s = .ok t)
    (hcall : srv.call t c = .ok (a,u)) : srv.feed (calls ++ [c]) s = .ok u :=
  srv.feed_append_ok.mpr ⟨t,h,srv.feed_cons_ok.mpr ⟨a,u,hcall,rfl⟩⟩

end Server

/-- Related states answer every admissible call alike and stay related. -/
structure Simulation (impl : Server ε C A S) (ref : Server ε C A T) (adm : C → Prop) where
  rel : S → T → Prop
  call : ∀ s t c, rel s t → adm c →
    ∃ a s' t', impl.call s c = .ok (a,s') ∧ ref.call t c = .ok (a,t') ∧ rel s' t'

namespace Simulation
variable {impl : Server ε C A S} {ref : Server ε C A T} {adm : C → Prop}

theorem feed (sim : Simulation impl ref adm) {cs : List C} (hcs : ∀ c ∈ cs, adm c)
    {s : S} {t : T} (hst : sim.rel s t) :
    ∃ s' t', impl.feed cs s = .ok s' ∧ ref.feed cs t = .ok t' ∧ sim.rel s' t' := by
  induction cs generalizing s t with
  | nil => exact ⟨s,t,rfl,rfl,hst⟩
  | cons c cs ih =>
    obtain ⟨a,s₁,t₁,hs,ht,hrel⟩ := sim.call s t c hst (hcs c (by simp))
    obtain ⟨s₂,t₂,hs₂,ht₂,hrel₂⟩ := ih (fun d hd => hcs d (by simp [hd])) hrel
    exact ⟨s₂,t₂,impl.feed_cons_ok.mpr ⟨a,s₁,hs,hs₂⟩,ref.feed_cons_ok.mpr ⟨a,t₁,ht,ht₂⟩,hrel₂⟩

/-- No adaptive client can tell related servers apart. -/
theorem transcript_eq (sim : Simulation impl ref adm) {client : List A → C}
    (hadm : ∀ hist, adm (client hist)) (n : ℕ) (hist : List A) {s : S} {t : T} (hst : sim.rel s t) :
    ∃ answers, impl.transcript client n hist s = .ok answers ∧
      ref.transcript client n hist t = .ok answers := by
  induction n generalizing hist s t with
  | zero => exact ⟨hist,rfl,rfl⟩
  | succ n ih =>
    obtain ⟨a,s',t',hs,ht,hrel⟩ := sim.call s t _ hst (hadm hist)
    obtain ⟨answers,hi,hr⟩ := ih (hist ++ [a]) hrel
    refine ⟨answers,?_,?_⟩
    · simpa only [Server.transcript,hs] using hi
    · simpa only [Server.transcript,ht] using hr

end Simulation

end TiffJni.Transcript
