import Dysco.EventRuns
import Mathlib.Logic.Function.Basic

/-! # First come, first served

A pool gives every key that asks for the first time the next of its free slots, for good, as long as
there are any.  After any list of requests the keys that have got a slot are the first ones that
asked, and the slots were given in their order (`ran_request`).
-/
namespace FirstServed
open EventRuns

/-- Who has which slot, and the free slots, the next one first. -/
structure Pool (K S : Type) where
  lookup : K → Option S
  free : List S

variable {K S : Type} [DecidableEq K] {p : Pool K S} {k x : K} {s : S} {ks : List K}

/-- A key that has no slot gets the next free one. -/
def request (p : Pool K S) (k : K) : Pool K S :=
  match p.lookup k, p.free with
  | none, s :: rest => ⟨Function.update p.lookup k (some s), rest⟩
  | _, _ => p

/-- Who has been served is not served again. -/
theorem request_of_some (hk : p.lookup k = some s) : request p k = p := by rw [request, hk]

/-- Nor is anyone when the pool is empty. -/
theorem request_of_nil (hfree : p.free = []) : request p k = p := by
  rw [request, hfree]
  split
  · rename_i h
    cases h
  · rfl

/-- A newcomer gets the first that is free. -/
theorem request_of_none {rest : List S} (hk : p.lookup k = none) (hfree : p.free = s :: rest) :
    request p k = ⟨Function.update p.lookup k (some s), rest⟩ := by rw [request, hk, hfree]

/-- The keys that ask and had no slot at first, in the order in which they first ask. -/
def newcomers (p : Pool K S) (ks : List K) : List K :=
  (ks.filter fun k => (p.lookup k).isNone).eraseDups

/-- Newcomers ask for the first time and had nothing before. -/
theorem mem_newcomers : k ∈ newcomers p ks ↔ k ∈ ks ∧ p.lookup k = none := by
  simp [newcomers, List.mem_eraseDups]

/-- One more request is a newcomer's if there was none before. -/
theorem newcomers_append (ks : List K) (x : K) : newcomers p (ks ++ [x]) =
    newcomers p ks ++ if p.lookup x = none ∧ x ∉ ks then [x] else [] := by
  rw [newcomers, List.filter_append, List.eraseDups_append]
  congr 1
  cases hx : p.lookup x with
  | some s => simp [hx]
  | none => by_cases hmem : x ∈ ks <;> simp [hx, hmem, List.removeAll, List.eraseDups_cons]

/-! ## Keys and slots side by side -/

theorem lookup_zip_eq_none {ss : List S} (hk : k ∉ ks) : (ks.zip ss).lookup k = none := by
  rw [List.lookup_eq_none_iff]
  rintro ⟨x, s⟩ hmem
  rw [bne_iff_ne]
  rintro rfl
  exact hk (List.of_mem_zip hmem).1

omit [DecidableEq K] in
/-- One more newcomer is served with the next of the pool. -/
theorem zip_append_singleton (ks : List K) (x : K) (ss : List S) :
    (ks ++ [x]).zip ss = ks.zip ss ++ [x].zip (ss.drop ks.length) := by
  induction ks generalizing ss with
  | nil => rfl
  | cons k ks ih =>
    cases ss with
    | nil => rfl
    | cons s ss => exact congrArg _ (ih ss)

/-- Every key of the list has a slot, or there are none left. -/
theorem lookup_zip_or (ks : List K) (ss : List S) (hk : k ∈ ks) :
    (∃ s, (ks.zip ss).lookup k = some s) ∨ ss.drop ks.length = [] := by
  induction ks generalizing ss with
  | nil => cases hk
  | cons x ks ih =>
    cases ss with
    | nil => exact .inr rfl
    | cons s ss =>
      by_cases hx : k = x
      · exact .inl ⟨s, by simp [hx]⟩
      · have hmem : k ∈ ks := (List.mem_cons.mp hk).resolve_left hx
        have hne : (k == x) = false := by simpa using hx
        simpa [List.lookup_cons, hne] using ih ss hmem

/-! ## Runs -/

/-- **Who has a slot after a run.** -/
theorem ran_request (p : Pool K S) (ks : List K) : ran request p ks =
    ⟨fun k => (p.lookup k).or (((newcomers p ks).zip p.free).lookup k),
      p.free.drop (newcomers p ks).length⟩ := by
  induction ks using List.reverseRecOn with
  | nil => simp [newcomers]
  | append_singleton ks x ih =>
    rw [ran_append_singleton, ih, newcomers_append]
    by_cases hnew : p.lookup x = none ∧ x ∉ ks
    · obtain ⟨hnone, hmem⟩ := hnew
      have hnot : x ∉ newcomers p ks := fun h => hmem (mem_newcomers.mp h).1
      have hlookup : (p.lookup x).or (((newcomers p ks).zip p.free).lookup x) = none := by
        rw [hnone, lookup_zip_eq_none hnot, Option.or_none]
      rw [if_pos ⟨hnone, hmem⟩, List.length_append, List.length_singleton, ← List.drop_drop,
        zip_append_singleton]
      cases hfree : p.free.drop (newcomers p ks).length with
      | nil => rw [request_of_nil rfl, List.zip_nil_right, List.append_nil, List.drop_nil]
      | cons s rest =>
        rw [request_of_none hlookup rfl]
        congr 1
        funext k
        simp only [List.lookup_append]
        by_cases hk : k = x
        · rw [hk, Function.update_self, hnone, lookup_zip_eq_none hnot]
          simp
        · have hne : (k == x) = false := by simpa using hk
          rw [Function.update_of_ne hk]
          simp [List.lookup_cons, hne]
    · rw [if_neg hnew, List.append_nil]
      cases hx : p.lookup x with
      | some s =>
        have hlookup : (p.lookup x).or (((newcomers p ks).zip p.free).lookup x) = some s := by
          rw [hx, Option.some_or]
        exact request_of_some hlookup
      | none =>
        have hmem : x ∈ newcomers p ks := by
          rw [mem_newcomers]
          exact ⟨not_not.mp fun h => hnew ⟨hx, h⟩, hx⟩
        obtain ⟨s, hs⟩ | hnil := lookup_zip_or (newcomers p ks) p.free hmem
        · have hlookup : (p.lookup x).or (((newcomers p ks).zip p.free).lookup x) = some s := by
            rw [hx, hs, Option.none_or]
          exact request_of_some hlookup
        · exact request_of_nil hnil

end FirstServed
