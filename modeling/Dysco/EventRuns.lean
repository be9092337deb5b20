import Mathlib.Data.List.Induction

/-! # Runs of a machine over a list of events

A machine takes every event.  What holds at every step of a run is said about the prefixes
of its list of events (`AtEvery`): an invariant that every such step preserves holds after
every prefix (`AtEvery.invariant`), and a reflexive and transitive relation between the
states before and after every step holds between any two states of the run
(`AtEvery.related`).
-/
namespace EventRuns
variable {S L : Type} {step : S → L → S} {s : S} {ls xs ys : List L}

/-- The state after a list of events. -/
def ran (step : S → L → S) (s : S) (ls : List L) : S := ls.foldl step s

@[simp] theorem ran_nil : ran step s [] = s := rfl

theorem ran_append_singleton (l : L) : ran step s (xs ++ [l]) = step (ran step s xs) l := by
  rw [ran, ran, List.foldl_append]
  rfl

/-- At every step of the run, `P` holds of the state before it and its event. -/
def AtEvery (step : S → L → S) (P : S → L → Prop) (s : S) (ls : List L) : Prop :=
  ∀ xs l, xs ++ [l] <+: ls → P (ran step s xs) l

variable {P Q : S → L → Prop}

theorem AtEvery.imp (h : AtEvery step P s ls) (hPQ : ∀ t l, P t l → Q t l) :
    AtEvery step Q s ls :=
  fun xs l hpre => hPQ _ _ (h xs l hpre)

theorem AtEvery.and (hP : AtEvery step P s ls) (hQ : AtEvery step Q s ls) :
    AtEvery step (fun t l => P t l ∧ Q t l) s ls :=
  fun xs l hpre => ⟨hP xs l hpre, hQ xs l hpre⟩

/-- What holds of each event holds at every step. -/
theorem AtEvery.of_forall {p : L → Prop} (h : ∀ l ∈ ls, p l) :
    AtEvery step (fun _ l => p l) s ls :=
  fun _ l hpre => h l (hpre.subset (List.mem_append_right _ List.mem_cons_self))

theorem AtEvery.nil : AtEvery step P s [] := fun _ _ hpre => by
  have hlen := hpre.length_le
  simp at hlen

/-- A run is checked event by event. -/
theorem AtEvery.cons {l : L} (hl : P s l) (h : AtEvery step P (step s l) ls) :
    AtEvery step P s (l :: ls) := by
  intro xs m hpre
  cases xs with
  | nil =>
    obtain rfl : m = l := (List.cons_prefix_cons.mp hpre).1
    exact hl
  | cons x xs =>
    obtain ⟨rfl, hrest⟩ := List.cons_prefix_cons.mp hpre
    exact h xs m hrest

/-- **The invariant rule**, for a step whose condition holds all along the run. -/
theorem AtEvery.invariant {I : S → Prop} (h : AtEvery step P s ls) (hs : I s)
    (hstep : ∀ t l, I t → P t l → I (step t l)) (hpre : xs <+: ls) : I (ran step s xs) := by
  induction xs using List.reverseRecOn with
  | nil => exact hs
  | append_singleton xs l ih =>
    rw [ran_append_singleton]
    exact hstep _ l (ih ((List.prefix_append xs [l]).trans hpre)) (h xs l hpre)

/-- What every step relates, the run relates. -/
theorem AtEvery.related {R : S → S → Prop} (h : AtEvery step P s ls) (hrefl : ∀ t, R t t)
    (htrans : ∀ t u v, R t u → R u v → R t v) (hstep : ∀ t l, P t l → R t (step t l))
    (hpre : xs ++ ys <+: ls) : R (ran step s xs) (ran step s (xs ++ ys)) := by
  induction ys using List.reverseRecOn with
  | nil =>
    rw [List.append_nil]
    exact hrefl _
  | append_singleton ys l ih =>
    rw [← List.append_assoc] at hpre ⊢
    rw [ran_append_singleton]
    exact htrans _ _ _ (ih ((List.prefix_append _ _).trans hpre)) (hstep _ l (h _ l hpre))

/-- A condition on the steps, under an invariant of the run. -/
theorem AtEvery.with_invariant {I : S → Prop} (h : AtEvery step P s ls) (hs : I s)
    (hstep : ∀ t l, I t → P t l → I (step t l)) :
    AtEvery step (fun t l => I t ∧ P t l) s ls :=
  fun xs l hpre => ⟨h.invariant hs hstep ((List.prefix_append xs [l]).trans hpre), h xs l hpre⟩

end EventRuns
