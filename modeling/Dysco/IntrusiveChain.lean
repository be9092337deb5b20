import Mathlib.Data.List.Nodup
import Mathlib.Data.List.Perm.Subperm
import Mathlib.Logic.Function.Basic

/-! # Intrusive chains

Nodes of a memory that are linked through a field of their own.  A list of nodes is
reached from a head if following the field from there meets exactly its nodes, in
order (`Chain`).  A node is linked in at a head by writing its field (`link`), and
unlinked by address: the walk from the head stops at the node that points to it and
makes that one point past it (`unlink`).

A node has one field, so linking it into a second chain takes it, and whatever hangs
below it, out of the first.  The lemmas say what a write does to the chain it is meant
for and when it leaves another chain alone (`Chain.congr`).

Several tables of buckets whose nodes are linked through the one field are `Links`.  A
table has its own heads, so a removal from one table that walks into the chain of another
may take the node out of that one (`Links.remove_any`).
-/
variable {Node : Type} [DecidableEq Node]

/-- From the head, following `next`, one meets exactly the nodes of the list. -/
inductive Chain (next : Node → Option Node) : Option Node → List Node → Prop
  | nil : Chain next none []
  | cons {a : Node} {l : List Node} (rest : Chain next (next a) l) : Chain next (some a) (a :: l)

/-- Putting a node at a head. -/
def link (next : Node → Option Node) (head : Option Node) (a : Node) : Node → Option Node :=
  Function.update next a head

/-- The walk of a removal, at a node that is not the one to remove. -/
def unlinkFrom (next : Node → Option Node) (p a : Node) : Nat → Node → Option Node
  | 0 => next
  | fuel + 1 =>
    match next p with
    | none => next
    | some q => if q = a then Function.update next p (next a) else unlinkFrom next q a fuel

/-- Taking a node out of the chain at a head, in at most `fuel` steps of the walk. -/
def unlink (next : Node → Option Node) (head : Option Node) (a : Node) (fuel : Nat) :
    Option Node × (Node → Option Node) :=
  match head with
  | none => (none, next)
  | some q => if q = a then (next a, next) else (some q, unlinkFrom next q a fuel)

/-- The nodes met from a head, in at most `fuel` steps. -/
def follow (next : Node → Option Node) : Option Node → Nat → List Node
  | none, _ => []
  | some _, 0 => []
  | some a, fuel + 1 => a :: follow next (next a) fuel

variable {next next' : Node → Option Node} {head : Option Node} {a p q : Node} {l m : List Node}

theorem unlinkFrom_of_none (h : next p = none) (fuel : Nat) : unlinkFrom next p a fuel = next := by
  cases fuel with
  | zero => rfl
  | succ fuel => rw [unlinkFrom, h]

theorem unlinkFrom_of_some (h : next p = some q) (fuel : Nat) :
    unlinkFrom next p a (fuel + 1) =
      if q = a then Function.update next p (next a) else unlinkFrom next q a fuel := by
  rw [unlinkFrom, h]

namespace Chain

omit [DecidableEq Node] in
/-- A head has one chain. -/
theorem unique (hl : Chain next head l) (hm : Chain next head m) : l = m := by
  induction hl generalizing m with
  | nil => cases hm; rfl
  | cons _ ih =>
    cases hm with
    | cons rest => rw [ih rest]

omit [DecidableEq Node] in
/-- The head is the first node. -/
theorem head_eq (h : Chain next head l) : head = l.head? := by
  cases h <;> rfl

omit [DecidableEq Node] in
/-- What a walk of sufficient length meets. -/
theorem follow_eq (h : Chain next head l) {fuel : Nat} (hf : l.length ≤ fuel) :
    follow next head fuel = l := by
  induction h generalizing fuel with
  | nil => cases fuel <;> rfl
  | cons rest ih =>
    cases fuel with
    | zero => exact absurd hf (Nat.not_succ_le_zero _)
    | succ fuel => rw [follow, ih (Nat.le_of_succ_le_succ hf)]

omit [DecidableEq Node] in
/-- A node of a chain points into the chain. -/
theorem next_mem (h : Chain next head l) (ha : a ∈ l) (hq : next a = some q) : q ∈ l := by
  induction h with
  | nil => cases ha
  | @cons x l rest ih =>
    rcases List.mem_cons.mp ha with rfl | hm
    · rw [hq] at rest
      cases rest
      exact List.mem_cons_of_mem _ List.mem_cons_self
    · exact List.mem_cons_of_mem _ (ih hm)

omit [DecidableEq Node] in
/-- What follows a node of a chain, from that node on. -/
theorem from_mem (h : Chain next head l) (ha : a ∈ l) : ∃ m, Chain next (some a) m ∧ m ⊆ l := by
  induction h with
  | nil => cases ha
  | @cons x l rest ih =>
    rcases List.mem_cons.mp ha with rfl | hm
    · exact ⟨_, cons rest, fun _ hx => hx⟩
    · obtain ⟨m, hc, hsub⟩ := ih hm
      exact ⟨m, hc, fun y hy => List.mem_cons_of_mem _ (hsub hy)⟩

omit [DecidableEq Node] in
/-- A chain only depends on the fields of its own nodes. -/
theorem congr (h : Chain next head l) (heq : ∀ x ∈ l, next' x = next x) : Chain next' head l := by
  induction h with
  | nil => exact nil
  | @cons a l rest ih =>
    refine cons ?_
    rw [heq a List.mem_cons_self]
    exact ih fun x hx => heq x (List.mem_cons_of_mem a hx)

/-- The head of a chain after a node was put there. -/
theorem link_self (h : Chain next head l) (ha : a ∉ l) :
    Chain (link next head a) (some a) (a :: l) := by
  refine cons ?_
  rw [link, Function.update_self]
  exact h.congr fun x hx => Function.update_of_ne (fun he => ha (by rwa [← he])) ..

/-- Linking a node in elsewhere. -/
theorem link_of_notMem (h : Chain next head l) (other : Option Node) (ha : a ∉ l) :
    Chain (link next other a) head l :=
  h.congr fun x hx => Function.update_of_ne (fun he => ha (by rwa [← he])) ..

/-- The walk of a removal does not write a node outside the chain it walks. -/
theorem unlinkFrom_of_notMem (h : Chain next (some p) l) {x : Node} (hx : x ∉ l) (fuel : Nat) :
    unlinkFrom next p a fuel x = next x := by
  induction fuel generalizing p l with
  | zero => rfl
  | succ fuel ih =>
    cases h with
    | @cons _ l rest =>
      cases hq : next p with
      | none => rw [unlinkFrom_of_none hq]
      | some q =>
        rw [unlinkFrom_of_some hq]
        split
        · exact Function.update_of_ne (fun he => hx (by rw [he]; exact List.mem_cons_self)) ..
        · exact ih (hq ▸ rest) fun hm => hx (List.mem_cons_of_mem _ hm)

/-- The walk of a removal takes the node out of what follows. -/
theorem unlinkFrom_erase (h : Chain next (some p) (p :: l)) (hn : (p :: l).Nodup) {fuel : Nat}
    (hf : l.length ≤ fuel) : Chain (unlinkFrom next p a fuel) (some p) (p :: l.erase a) := by
  induction fuel generalizing p l with
  | zero =>
    obtain rfl : l = [] := List.eq_nil_of_length_eq_zero (Nat.le_zero.mp hf)
    exact h
  | succ fuel ih =>
    cases h with
    | cons rest =>
      cases hq : next p with
      | none =>
        rw [unlinkFrom_of_none hq]
        rw [hq] at rest
        cases rest
        exact cons (hq ▸ nil)
      | some q =>
        rw [unlinkFrom_of_some hq]
        have hnext := hq ▸ rest
        cases hnext with
        | @cons _ k below =>
          have hp : p ∉ q :: k := (List.nodup_cons.mp hn).1
          split
          · rename_i hqa
            subst hqa
            -- the predecessor now points past the node
            rw [List.erase_cons_head]
            refine cons ?_
            rw [Function.update_self]
            exact below.congr fun x hx =>
              Function.update_of_ne
                (fun he => hp (by rw [← he]; exact List.mem_cons_of_mem _ hx)) ..
          · rename_i hqa
            rw [List.erase_cons_tail (by simpa using hqa)]
            have hrest : Chain next (some q) (q :: k) := cons below
            refine cons ?_
            rw [hrest.unlinkFrom_of_notMem hp, hq]
            exact ih hrest (List.nodup_cons.mp hn).2 (Nat.le_of_succ_le_succ hf)

/-- **Removal takes the node out of the chain**, and changes nothing if it is not there. -/
theorem unlink_erase (h : Chain next head l) (hn : l.Nodup) {fuel : Nat} (hf : l.length ≤ fuel) :
    Chain (unlink next head a fuel).2 (unlink next head a fuel).1 (l.erase a) := by
  cases h with
  | nil => exact nil
  | @cons q l rest =>
    rw [unlink]
    split
    · rename_i hqa
      subst hqa
      rw [List.erase_cons_head]
      exact rest
    · rename_i hqa
      rw [List.erase_cons_tail (by simpa using hqa)]
      exact unlinkFrom_erase (cons rest) hn (Nat.le_of_succ_le hf)

/-- Removal does not write a node outside the chain. -/
theorem unlink_of_notMem (h : Chain next head l) {x : Node} (hx : x ∉ l) (fuel : Nat) :
    (unlink next head a fuel).2 x = next x := by
  cases h with
  | nil => rfl
  | @cons q l rest =>
    rw [unlink]
    split
    · rfl
    · exact unlinkFrom_of_notMem (cons rest) hx fuel

/-- **Removal through two heads of one chain.**  The first removal has unlinked the node; the
second finds it only if it was the first of the chain. -/
theorem unlink_again (h : Chain next head l) (hn : l.Nodup) {fuel : Nat} (hf : l.length ≤ fuel) :
    Chain (unlink (unlink next head a fuel).2 head a fuel).2 (unlink next head a fuel).1
        (l.erase a) ∧
      Chain (unlink (unlink next head a fuel).2 head a fuel).2
        (unlink (unlink next head a fuel).2 head a fuel).1 (l.erase a) ∧
      ∀ x, x ∉ l → (unlink (unlink next head a fuel).2 head a fuel).2 x = next x := by
  have hfirst := h.unlink_erase (a := a) hn hf
  have hwrite : ∀ x, x ∉ l → (unlink next head a fuel).2 x = next x :=
    fun x hx => h.unlink_of_notMem hx fuel
  cases h with
  | nil => exact ⟨nil, nil, fun _ _ => rfl⟩
  | @cons q l rest =>
    by_cases hqa : q = a
    · subst hqa
      have heq : unlink next (some q) q fuel = (next q, next) := by rw [unlink, if_pos rfl]
      rw [heq] at hfirst ⊢
      rw [heq]
      exact ⟨hfirst, hfirst, fun _ _ => rfl⟩
    · have hhead : ∀ f : Node → Option Node, (unlink f (some q) a fuel).1 = some q := by
        intro f
        rw [unlink, if_neg hqa]
      rw [hhead] at hfirst ⊢
      have hsecond := hfirst.unlink_erase (a := a) (hn.erase a)
        (Nat.le_trans (List.length_erase_le) hf)
      rw [List.erase_of_not_mem (by simpa using hn.not_mem_erase)] at hsecond
      rw [hhead] at hsecond ⊢
      refine ⟨hsecond, hsecond, fun x hx => ?_⟩
      rw [hfirst.unlink_of_notMem (fun hm => hx (List.mem_of_mem_erase hm)), hwrite x hx]

/-- A node that points past its successor. -/
theorem bypass (h : Chain next head l) (hn : l.Nodup) (hq : q ∈ l) (ha : next q = some a) :
    Chain (Function.update next q (next a)) head (l.erase a) := by
  induction h with
  | nil => cases hq
  | @cons x l rest ih =>
    obtain ⟨hx, hn⟩ := List.nodup_cons.mp hn
    rcases List.mem_cons.mp hq with rfl | hq
    · rw [ha] at rest
      cases rest with
      | @cons _ l rest =>
        have hne : q ≠ a := fun he => hx (he ▸ List.mem_cons_self)
        rw [List.erase_cons_tail (by simpa using hne), List.erase_cons_head]
        refine cons ?_
        rw [Function.update_self]
        exact rest.congr fun y hy =>
          Function.update_of_ne (fun he => hx (by rw [← he]; exact List.mem_cons_of_mem _ hy)) ..
    · have hax : x ≠ a := fun he => hx (he ▸ next_mem rest hq ha)
      have hqx : x ≠ q := fun he => hx (he ▸ hq)
      rw [List.erase_cons_tail (by simpa using hax)]
      refine cons ?_
      rw [Function.update_of_ne hqx]
      exact ih hn hq

end Chain

omit [DecidableEq Node] in
/-- A walk stays within a set of nodes that the fields do not lead out of. -/
theorem mem_follow {S : Node → Prop} (hhead : ∀ q, head = some q → S q)
    (hnext : ∀ p q, S p → next p = some q → S q) {fuel : Nat} (ha : a ∈ follow next head fuel) :
    S a := by
  induction fuel generalizing head with
  | zero => cases head <;> cases ha
  | succ fuel ih =>
    cases head with
    | none => cases ha
    | some p =>
      have hp := hhead p rfl
      rcases List.mem_cons.mp ha with rfl | hm
      · exact hp
      · exact ih (fun q hq => hnext p q hp hq) hm

/-- **What a removal can do**, from any head: it takes the node off the head, or makes a node
that it meets and that points to it point past it, or does nothing. -/
theorem unlink_cases (S : Node → Prop) (hhead : ∀ q, head = some q → S q)
    (hnext : ∀ p q, S p → next p = some q → S q) (a : Node) (fuel : Nat) :
    (head = some a ∧ unlink next head a fuel = (next a, next)) ∨
      (∃ q, S q ∧ next q = some a ∧
        unlink next head a fuel = (head, Function.update next q (next a))) ∨
      unlink next head a fuel = (head, next) := by
  have hfrom : ∀ (fuel : Nat) (p : Node), S p →
      (∃ q, S q ∧ next q = some a ∧
        unlinkFrom next p a fuel = Function.update next q (next a)) ∨
        unlinkFrom next p a fuel = next := by
    intro fuel
    induction fuel with
    | zero => exact fun p _ => .inr rfl
    | succ fuel ih =>
      intro p hp
      cases hq : next p with
      | none => exact .inr (unlinkFrom_of_none hq _)
      | some q =>
        rw [unlinkFrom_of_some hq]
        split
        · rename_i hqa
          subst hqa
          exact .inl ⟨p, hp, hq, rfl⟩
        · exact ih q (hnext p q hp hq)
  cases head with
  | none => exact .inr (.inr rfl)
  | some p =>
    rw [unlink]
    split
    · rename_i hpa
      subst hpa
      exact .inl ⟨rfl, rfl⟩
    · rcases hfrom fuel p (hhead p rfl) with ⟨q, hS, hq, heq⟩ | heq
      · exact .inr (.inl ⟨q, hS, hq, by rw [heq]⟩)
      · exact .inr (.inr (by rw [heq]))

/-! ## Tables that share the field -/

/-- The heads of several tables of buckets, and the one field of the nodes through which all of
them are linked. -/
structure Links (Table Node : Type) where
  next : Node → Option Node
  head : Table → Nat → Option Node

namespace Links
variable {Table : Type} [DecidableEq Table] {k : Links Table Node} {t t' : Table} {b b' : Nat}

/-- The nodes of a bucket. -/
def Leads (k : Links Table Node) (t : Table) (b : Nat) (l : List Node) : Prop :=
  Chain k.next (k.head t b) l

/-- The heads once that of one bucket was moved. -/
def setHead (k : Links Table Node) (t : Table) (b : Nat) (o : Option Node) :
    Table → Nat → Option Node :=
  Function.update k.head t (Function.update (k.head t) b o)

/-- Putting a node at the head of a bucket. -/
def insert (k : Links Table Node) (t : Table) (b : Nat) (a : Node) : Links Table Node where
  next := link k.next (k.head t b) a
  head := k.setHead t b (some a)

/-- Taking a node out of a bucket. -/
def remove (k : Links Table Node) (t : Table) (b : Nat) (a : Node) (fuel : Nat) :
    Links Table Node where
  next := (unlink k.next (k.head t b) a fuel).2
  head := k.setHead t b (unlink k.next (k.head t b) a fuel).1

omit [DecidableEq Node] in
theorem setHead_self (k : Links Table Node) (t : Table) (b : Nat) (o : Option Node) :
    k.setHead t b o t b = o := by
  rw [setHead, Function.update_self, Function.update_self]

omit [DecidableEq Node] in
theorem setHead_of_ne (k : Links Table Node) (o : Option Node) (hne : (t', b') ≠ (t, b)) :
    k.setHead t b o t' b' = k.head t' b' := by
  rw [setHead]
  by_cases ht : t' = t
  · subst ht
    rw [Function.update_self, Function.update_of_ne fun hb => hne (by rw [hb])]
  · rw [Function.update_of_ne ht]

theorem insert_head_self (k : Links Table Node) : (k.insert t b a).head t b = some a :=
  setHead_self ..

theorem insert_head_of_ne (k : Links Table Node) (hne : (t', b') ≠ (t, b)) :
    (k.insert t b a).head t' b' = k.head t' b' :=
  setHead_of_ne k _ hne

theorem remove_next (k : Links Table Node) (t : Table) (b : Nat) (a : Node) (fuel : Nat) :
    (k.remove t b a fuel).next = (unlink k.next (k.head t b) a fuel).2 := rfl

theorem remove_head_self (k : Links Table Node) (fuel : Nat) :
    (k.remove t b a fuel).head t b = (unlink k.next (k.head t b) a fuel).1 :=
  setHead_self ..

theorem remove_head_of_ne (k : Links Table Node) (hne : (t', b') ≠ (t, b)) (fuel : Nat) :
    (k.remove t b a fuel).head t' b' = k.head t' b' :=
  setHead_of_ne k _ hne

/-- The bucket that a node was put into. -/
theorem Leads.insert_self (h : k.Leads t b l) (ha : a ∉ l) :
    (k.insert t b a).Leads t b (a :: l) := by
  rw [Leads, insert_head_self]
  exact Chain.link_self h ha

/-- The other buckets. -/
theorem Leads.insert_of_ne (h : k.Leads t' b' l) (hne : (t', b') ≠ (t, b)) (ha : a ∉ l) :
    (k.insert t b a).Leads t' b' l := by
  rw [Leads, insert_head_of_ne k hne]
  exact Chain.link_of_notMem h _ ha

/-- **A node that is put into two tables** takes what hangs in its bucket of the second one into its
bucket of the first. -/
theorem Leads.insert_crossed (h : k.Leads t' b' l) (hne : (t', b') ≠ (t, b)) (ha : a ∉ l) :
    ((k.insert t b a).insert t' b' a).Leads t b (a :: l) := by
  have hhead : (k.insert t b a).head t' b' = k.head t' b' := insert_head_of_ne k hne
  have hself : ((k.insert t b a).insert t' b' a).head t b = some a :=
    (insert_head_of_ne _ hne.symm).trans (insert_head_self k)
  have hnext : ((k.insert t b a).insert t' b' a).next = link k.next (k.head t' b') a := by
    rw [← hhead]
    exact Function.update_idem ..
  rw [Leads, hself, hnext]
  exact Chain.link_self h ha

/-- The bucket that a node was taken out of. -/
theorem Leads.remove_self (h : k.Leads t b l) (hn : l.Nodup) {fuel : Nat} (hf : l.length ≤ fuel) :
    (k.remove t b a fuel).Leads t b (l.erase a) ∧
      ∀ x, x ∉ l → (k.remove t b a fuel).next x = k.next x := by
  refine ⟨?_, fun x hx => Chain.unlink_of_notMem h hx fuel⟩
  rw [Leads, remove_head_self]
  exact Chain.unlink_erase h hn hf

/-- **A removal from a table whose bucket leads anywhere into another table's chain** leaves that
chain as it is, or takes the node out of it. -/
theorem remove_any (h : k.Leads t' b' l) (hn : l.Nodup) (hne : (t', b') ≠ (t, b))
    (hhead : ∀ q, k.head t b = some q → q ∈ l ∨ ∃ m, Chain k.next (some q) m ∧ a ∉ m)
    (fuel : Nat) :
    ((k.remove t b a fuel).Leads t' b' l ∨ (k.remove t b a fuel).Leads t' b' (l.erase a)) ∧
      (∀ x, x ∉ l → (k.remove t b a fuel).next x = k.next x) ∧
      ((k.remove t b a fuel).head t b = k.head t b ∨
        k.head t b = some a ∧ (k.remove t b a fuel).head t b = k.next a) := by
  have hsame := remove_head_of_ne (a := a) k hne fuel
  have hself := remove_head_self (t := t) (b := b) (a := a) k fuel
  have hnext : (k.remove t b a fuel).next = (unlink k.next (k.head t b) a fuel).2 := rfl
  -- what the walk meets lies in the chain, or in one without the node
  obtain ⟨hhd, heq⟩ | ⟨q, hq, hqa, heq⟩ | heq := unlink_cases
    (fun q => q ∈ l ∨ ∃ m, Chain k.next (some q) m ∧ a ∉ m) hhead
    (fun p q hp hq => hp.imp (fun hm => Chain.next_mem h hm hq) fun ⟨m, hm, ha⟩ => by
      cases hm with
      | @cons _ m rest => exact ⟨m, hq ▸ rest, fun hc => ha (List.mem_cons_of_mem _ hc)⟩) a fuel
  · rw [hself, hnext, heq]
    exact ⟨.inl (by rw [Leads, hnext, hsame, heq]; exact h), fun _ _ => rfl, .inr ⟨hhd, rfl⟩⟩
  · have hql : q ∈ l := by
      rcases hq with hq | ⟨m, hm, ha⟩
      · exact hq
      · exact absurd (Chain.next_mem hm (by cases hm; exact List.mem_cons_self) hqa) ha
    rw [hself, hnext, heq]
    refine ⟨.inr ?_, fun x hx => Function.update_of_ne (fun he : x = q => hx (he ▸ hql)) ..,
      .inl rfl⟩
    rw [Leads, hnext, hsame, heq]
    exact Chain.bypass h hn hql hqa
  · rw [hself, hnext, heq]
    exact ⟨.inl (by rw [Leads, hnext, hsame, heq]; exact h), fun _ _ => rfl, .inl rfl⟩

/-- **Removal from two tables whose buckets lead to one chain**: the node is out of both. -/
theorem Leads.remove_both (h : k.Leads t b l) (h' : k.Leads t' b' l) (hne : (t', b') ≠ (t, b))
    (hn : l.Nodup) {fuel : Nat} (hf : l.length ≤ fuel) :
    ((k.remove t b a fuel).remove t' b' a fuel).Leads t b (l.erase a) ∧
      ((k.remove t b a fuel).remove t' b' a fuel).Leads t' b' (l.erase a) ∧
      ∀ x, x ∉ l → ((k.remove t b a fuel).remove t' b' a fuel).next x = k.next x := by
  have hheads : k.head t' b' = k.head t b := (Chain.head_eq h').trans (Chain.head_eq h).symm
  have hfirst : (k.remove t b a fuel).head t' b' = k.head t b :=
    (remove_head_of_ne k hne fuel).trans hheads
  have hnext : ((k.remove t b a fuel).remove t' b' a fuel).next =
      (unlink (unlink k.next (k.head t b) a fuel).2 (k.head t b) a fuel).2 := by
    rw [remove_next, hfirst, remove_next]
  obtain ⟨hpen, htag, hwrite⟩ := Chain.unlink_again (a := a) h hn hf
  refine ⟨?_, ?_, ?_⟩
  · rw [Leads]
    have hself : ((k.remove t b a fuel).remove t' b' a fuel).head t b =
        (unlink k.next (k.head t b) a fuel).1 :=
      (remove_head_of_ne _ hne.symm fuel).trans (remove_head_self k fuel)
    rw [hself, hnext]
    exact hpen
  · rw [Leads, remove_head_self, hfirst]
    rw [hnext, remove_next]
    exact htag
  · intro x hx
    rw [hnext]
    exact hwrite x hx

end Links
