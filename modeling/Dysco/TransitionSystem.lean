import Mathlib.Logic.Relation

/-! # Transition systems

A system is a set of initial states and a labelled step relation.  A safety
property of all reachable states is proved through an invariant that holds
initially and that every step preserves (`Reachable.invariant`).  A property of
the states after a given one is proved the same way, from that state
(`Steps.invariant`).  Restricting a system to the steps whose labels meet a
condition gives the runs in which every step meets it (`restrict`).  A system may be
watched by variables that only remember its runs (`Reachable.project`, `Reachable.lift`).
-/

/-- States of type `S`, steps labelled with `L`. -/
structure TransitionSystem (S L : Type) where
  /-- The states a run may start in. -/
  init : S → Prop
  /-- The steps. -/
  step : S → L → S → Prop

namespace TransitionSystem
variable {S L : Type} (T : TransitionSystem S L)

/-- A run from one state to another, with the labels of its steps in order. -/
inductive Steps : S → List L → S → Prop
  | refl (s : S) : Steps s [] s
  | tail {s t u : S} {ls : List L} {l : L} (run : Steps s ls t) (step : T.step t l u) :
      Steps s (ls ++ [l]) u

/-- Reached from an initial state. -/
def Reachable (s : S) : Prop := ∃ s₀ ls, T.init s₀ ∧ T.Steps s₀ ls s

/-- The runs all of whose steps meet a condition. -/
def restrict (good : S → L → Prop) : TransitionSystem S L where
  init := T.init
  step s l t := T.step s l t ∧ good s l

variable {T}

theorem Steps.single {s t : S} {l : L} (h : T.step s l t) : T.Steps s [l] t :=
  Steps.tail (Steps.refl s) h

theorem Steps.append {s t u : S} {ks ls : List L} (hst : T.Steps s ks t) (htu : T.Steps t ls u) :
    T.Steps s (ks ++ ls) u := by
  induction htu with
  | refl => rw [List.append_nil]; exact hst
  | tail run step ih => rw [← List.append_assoc]; exact ih.tail step

/-- **The invariant rule for runs.** -/
theorem Steps.invariant {P : S → Prop} {s t : S} {ls : List L}
    (hstep : ∀ s l t, P s → T.step s l t → P t) (hs : P s) (h : T.Steps s ls t) : P t := by
  induction h with
  | refl => exact hs
  | tail _ step ih => exact hstep _ _ _ ih step

theorem Reachable.of_init {s : S} (h : T.init s) : T.Reachable s := ⟨s, [], h, Steps.refl s⟩

theorem Reachable.tail {s t : S} {l : L} (h : T.Reachable s) (hst : T.step s l t) :
    T.Reachable t := by
  obtain ⟨s₀, ls, hinit, hrun⟩ := h
  exact ⟨s₀, ls ++ [l], hinit, hrun.tail hst⟩

theorem Reachable.steps {s t : S} {ls : List L} (h : T.Reachable s) (hst : T.Steps s ls t) :
    T.Reachable t := by
  obtain ⟨s₀, ks, hinit, hrun⟩ := h
  exact ⟨s₀, ks ++ ls, hinit, hrun.append hst⟩

/-- **The invariant rule.** -/
theorem Reachable.invariant {P : S → Prop} {s : S} (hinit : ∀ s, T.init s → P s)
    (hstep : ∀ s l t, P s → T.step s l t → P t) (h : T.Reachable s) : P s := by
  obtain ⟨s₀, ls, hs₀, hrun⟩ := h
  exact hrun.invariant hstep (hinit s₀ hs₀)

/-- Dropping the condition on the steps of a run. -/
theorem Steps.of_restrict {good : S → L → Prop} {s t : S} {ls : List L}
    (h : (T.restrict good).Steps s ls t) : T.Steps s ls t := by
  induction h with
  | refl => exact Steps.refl _
  | tail _ step ih => exact ih.tail step.1

theorem Reachable.of_restrict {good : S → L → Prop} {s : S}
    (h : (T.restrict good).Reachable s) : T.Reachable s := by
  obtain ⟨s₀, ls, hinit, hrun⟩ := h
  exact ⟨s₀, ls, hinit, hrun.of_restrict⟩

/-! ## History variables -/

section History
variable {R : Type} {U : TransitionSystem R L} {f : R → S}

/-- What a system with more variables reaches, the system without them reaches. -/
theorem Reachable.project {s : R} (hinit : ∀ s, U.init s → T.init (f s))
    (hstep : ∀ s l t, U.step s l t → T.step (f s) l (f t)) (h : U.Reachable s) :
    T.Reachable (f s) :=
  h.invariant (P := fun s => T.Reachable (f s)) (fun s hs => .of_init (hinit s hs))
    fun s l t hs ht => hs.tail (hstep s l t ht)

/-- If the other variables never block a step, every run is a run with them. -/
theorem Reachable.lift {s : S} (hinit : ∀ s, T.init s → ∃ s', U.init s' ∧ f s' = s)
    (hstep : ∀ s' l t, T.step (f s') l t → ∃ t', U.step s' l t' ∧ f t' = t)
    (h : T.Reachable s) : ∃ s', U.Reachable s' ∧ f s' = s := by
  refine h.invariant (P := fun s => ∃ s', U.Reachable s' ∧ f s' = s) (fun s hs => ?_) ?_
  · obtain ⟨s', hs', he⟩ := hinit s hs
    exact ⟨s', .of_init hs', he⟩
  · rintro _ l t ⟨s', hs', rfl⟩ ht
    obtain ⟨t', ht', he⟩ := hstep s' l t ht
    exact ⟨t', hs'.tail ht', he⟩

end History

end TransitionSystem
