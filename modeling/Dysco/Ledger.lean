import Dysco.Connected
import Dysco.TableLinks
import Dysco.HostRuns

/-! # Who holds a block

Every piece of memory that the module has made and not freed has one role: it is a block in
a table, a block that is still being made, the block of a new path, which only the block of the
old path leads to, or a service chain that a pending block owns.  A `Ledger` says which, and that
tables and pointers agree with it.
-/

namespace BucketTable
variable {Node K : Type} {hash : K → Nat} {keyOf : Node → K} {t : BucketTable Node} {m n : Node}

/-- A node that lies where its key says is taken out, and no other. -/
theorem remove_spec [DecidableEq Node] (hn : (hash (keyOf n), n) ∈ t.entries)
    (hnodup : t.nodes.Nodup) :
    (remove hash keyOf t n).nodes.Nodup ∧
      ∀ m, (remove hash keyOf t n).Holds m ↔ t.Holds m ∧ m ≠ n := by
  have hperm : t.nodes.Perm (n :: (remove hash keyOf t n).nodes) :=
    (List.perm_cons_erase hn).map Prod.snd
  obtain ⟨hnot, hrest⟩ := List.nodup_cons.mp (hperm.nodup_iff.mp hnodup)
  refine ⟨hrest, fun m => ?_⟩
  rw [← mem_nodes, ← mem_nodes, hperm.mem_iff, List.mem_cons]
  constructor
  · intro hm
    exact ⟨Or.inr hm, fun heq => hnot (heq ▸ hm)⟩
  · rintro ⟨heq | hm, hne⟩
    · exact absurd heq hne
    · exact hm

/-- A node that is not in the table is put into it. -/
theorem insert_nodup (hn : ¬ t.Holds n) (hnodup : t.nodes.Nodup) :
    (insert hash keyOf t n).nodes.Nodup :=
  List.nodup_cons.mpr ⟨fun hm => hn (mem_nodes.mp hm), hnodup⟩

end BucketTable

namespace Dysco

variable {E A : Env} {h g : Host} {p q r a s old : Nat}

/-! ## Roles -/

/-- What a piece of memory is to the module. -/
inductive Role where
  /-- In the output table. -/
  | out
  /-- In both pending tables. -/
  | pen
  /-- An output block that is in no table. -/
  | bare
  /-- The output block of the new path of a session. -/
  | other (old : Nat)
  /-- In the input table. -/
  | inp
  /-- In the table of reconfiguration blocks. -/
  | rcb
  /-- A service chain made for an output block. -/
  | chain (p : Nat)
  /-- The service chain of a policy. -/
  | policy
  /-- Something else that is being made. -/
  | raw
deriving DecidableEq

/-- Output blocks that may own a service chain. -/
def Owner (o : Option Role) : Prop := o = some .out ∨ o = some .pen ∨ o = some .bare

/-- What has an entry of its own in a table. -/
def Role.Filed : Role → Prop
  | .out | .pen | .inp | .rcb => True
  | _ => False

/-- What is still being made. -/
def Making (ρ : Nat → Option Role) (a : Nat) : Prop := ρ a = some .raw ∨ ρ a = some .bare

/-- Nothing is being made that was not being made before. -/
def Finished (ρ ρ' : Nat → Option Role) : Prop := ∀ a, Making ρ' a → Making ρ a

section Finished
variable {ρ ρ' ρ'' : Nat → Option Role} {o : Option Role}

theorem Finished.refl (ρ : Nat → Option Role) : Finished ρ ρ := fun _ => id

theorem Finished.trans (h1 : Finished ρ ρ') (h2 : Finished ρ' ρ'') : Finished ρ ρ'' := fun a ha =>
  h1 a (h2 a ha)

theorem Finished.update (hf : Finished ρ ρ') (ho : o ≠ some .raw ∧ o ≠ some .bare) :
    Finished ρ (Function.update ρ' a o) := by
  intro x hx
  by_cases hxa : x = a
  · subst hxa
    rw [Making, Function.update_self] at hx
    exact (hx.elim ho.1 ho.2).elim
  · rw [Making, Function.update_of_ne hxa] at hx
    exact hf x hx

/-- What was begun at an address has come to an end. -/
theorem Finished.made (hf : Finished (Function.update ρ a o) ρ') (ha : ¬ Making ρ' a) :
    Finished ρ ρ' := by
  intro x hx
  have hxa : x ≠ a := by
    rintro rfl
    exact ha hx
  have hx' := hf x hx
  rwa [Making, Function.update_of_ne hxa] at hx'

theorem not_making {r : Role} (ha : ρ a = some r) (hr : r ≠ .raw ∧ r ≠ .bare) : ¬ Making ρ a := by
  rw [Making, ha]
  exact fun hm => hm.elim (fun hc => hr.1 (Option.some.inj hc)) fun hc => hr.2 (Option.some.inj hc)

theorem not_making_none (ha : ρ a = none) : ¬ Making ρ a := by
  rw [Making, ha]
  exact fun hm => hm.elim nofun nofun

end Finished

/-- What has a role is what was handed out and not freed. -/
structure Alive (h : Host) (ρ : Nat → Option Role) : Prop where
  lt : ∀ a, ρ a ≠ none → a < h.brk
  live : ∀ a, a < h.brk → (ρ a ≠ none ↔ h.oom a = false ∧ a ∉ h.freed)
  freed_lt : ∀ a ∈ h.freed, a < h.brk

/-- Memory is in use as it was if nothing is handed out or freed. -/
theorem Alive.of_same {ρ : Nat → Option Role} (ha : Alive h ρ) (hbrk : g.brk = h.brk)
    (hoom : g.oom = h.oom) (hfreed : g.freed = h.freed) : Alive g ρ where
  lt := by
    rw [hbrk]
    exact ha.lt
  live := by
    rw [hbrk, hoom, hfreed]
    exact ha.live
  freed_lt := by
    rw [hbrk, hfreed]
    exact ha.freed_lt

/-- The tables hold what has its entry there. -/
structure Listed (h : Host) (ρ : Nat → Option Role) : Prop where
  out : ∀ p, h.hashOut.Holds p ↔ ρ p = some .out
  inp : ∀ q, h.hashIn.Holds q ↔ ρ q = some .inp
  pen : ∀ p, h.hashPen.Holds p ↔ ρ p = some .pen
  tag : ∀ p, h.hashPenTag.Holds p ↔ ρ p = some .pen
  rcb : ∀ r, h.hashReconfig.Holds r ↔ ρ r = some .rcb

/-- A block that was being made has become the other path of a block that had none. -/
structure Grafted (ρ ρ' : Nat → Option Role) (p old : Nat) : Prop where
  before : ρ p = some .bare
  after : ρ' p = some (.other old)
  rest : ∀ x, x ≠ p → ρ' x = ρ x
  alone : ∀ n, ρ n ≠ some (.other old)

namespace Grafted
variable {ρ ρ' : Nat → Option Role}

theorem update (hp : ρ p = some .bare) (hnot : ∀ n, ρ n ≠ some (.other old)) :
    Grafted ρ (Function.update ρ p (some (.other old))) p old where
  before := hp
  after := Function.update_self ..
  rest _ hx := Function.update_of_ne hx ..
  alone := hnot

/-- Nothing else has changed. -/
theorem same (g : Grafted ρ ρ' p old) (o : Role) (hbare : o ≠ .bare) (hother : o ≠ .other old)
    (x : Nat) : ρ' x = some o ↔ ρ x = some o := by
  by_cases hx : x = p
  · rw [hx, g.before, g.after, Option.some.injEq, Option.some.injEq]
    exact iff_of_false hother.symm hbare.symm
  · rw [g.rest x hx]

theorem used (g : Grafted ρ ρ' p old) (x : Nat) : ρ' x ≠ none ↔ ρ x ≠ none := by
  by_cases hx : x = p
  · rw [hx, g.before, g.after]
    exact iff_of_true (Option.some_ne_none _) (Option.some_ne_none _)
  · rw [g.rest x hx]

theorem filed (g : Grafted ρ ρ' p old) (x : Nat) (o : Role) (ho : o.Filed) :
    ρ' x = some o ↔ ρ x = some o :=
  g.same o (by rintro rfl; exact ho) (by rintro rfl; exact ho) x

/-- The other paths that there were are still there. -/
theorem keep (g : Grafted ρ ρ' p old) {n y : Nat} (hn : ρ n = some (.other y)) :
    ρ' n = some (.other y) := by
  rw [g.rest n]
  · exact hn
  · rintro rfl
    rw [g.before] at hn
    cases hn

/-- The other path of a block is the new one, or was there. -/
theorem others (g : Grafted ρ ρ' p old) {n y : Nat} (hn : ρ' n = some (.other y)) :
    n = p ∧ y = old ∨ n ≠ p ∧ y ≠ old ∧ ρ n = some (.other y) := by
  by_cases hnp : n = p
  · rw [hnp, g.after] at hn
    cases hn
    exact Or.inl ⟨hnp, rfl⟩
  · rw [g.rest n hnp] at hn
    refine Or.inr ⟨hnp, ?_, hn⟩
    rintro rfl
    exact g.alone n hn

/-- A block still has one other path at most. -/
theorem one (g : Grafted ρ ρ' p old)
    (hone : ∀ y n n', ρ n = some (.other y) → ρ n' = some (.other y) → n = n') (y n n' : Nat)
    (hn : ρ' n = some (.other y)) (hn' : ρ' n' = some (.other y)) : n = n' := by
  rcases g.others hn with ⟨rfl, rfl⟩ | ⟨-, hy, hn⟩ <;>
    rcases g.others hn' with ⟨rfl, hy'⟩ | ⟨-, hy', hn'⟩
  · rfl
  · exact absurd rfl hy'
  · exact absurd hy' hy
  · exact hone y n n' hn hn'

/-- An owner of a service chain stays one: the block that was being made has none. -/
theorem owner (g : Grafted ρ ρ' p old) (hfree : (h.outMem p).freeSc = false) (x : Nat)
    (hx : (h.outMem x).freeSc = true) : Owner (ρ' x) ↔ Owner (ρ x) := by
  have hxp : x ≠ p := by
    rintro rfl
    rw [hfree] at hx
    cases hx
  rw [g.rest x hxp]

end Grafted

/-- Tables and pointers agree with the roles. -/
structure Placed (E : Env) (h : Host) (ρ : Nat → Option Role) : Prop where
  out : ∀ p, h.hashOut.Holds p ↔ ρ p = some .out
  inp : ∀ q, h.hashIn.Holds q ↔ ρ q = some .inp
  pen : ∀ p, h.hashPen.Holds p ↔ ρ p = some .pen
  tag : ∀ p, h.hashPenTag.Holds p ↔ ρ p = some .pen
  rcb : ∀ r, h.hashReconfig.Holds r ↔ ρ r = some .rcb
  out_nodup : h.hashOut.nodes.Nodup
  inp_nodup : h.hashIn.nodes.Nodup
  pen_nodup : h.hashPen.nodes.Nodup
  tag_nodup : h.hashPenTag.nodes.Nodup
  rcb_nodup : h.hashReconfig.nodes.Nodup
  pen_key : ∀ e ∈ h.hashPen.entries, e.1 = E.penHash (h.outMem e.2).super
  tag_key : ∀ e ∈ h.hashPenTag.entries, e.1 = E.tagHash (h.outMem e.2).dyscoTag
  tag_zero : ∀ e ∈ h.hashPenTag.entries, e.1 = E.tagHash 0#32
  threaded : Threaded h.hashOut h.hashPen h.hashPenTag h.links
  chain : ∀ s p, ρ s = some (.chain p) →
    Owner (ρ p) ∧ (h.outMem p).freeSc = true ∧ (h.outMem p).sc = some s
  owns : ∀ p, Owner (ρ p) → (h.outMem p).freeSc = true →
    ∃ s, (h.outMem p).sc = some s ∧ ρ s = some (.chain p)
  other : ∀ p n, ρ p = some .out → (h.outMem p).otherPath = some n → ρ n = some (.other p)
  pen_other : ∀ p, ρ p = some .pen → (h.outMem p).otherPath = none
  named : ∀ n old, ρ n = some (.other old) → ρ old = some .out ∧
    ((h.outMem old).otherPath = some n ∨ (h.outMem old).otherPath = none ∧
      ∃ r, ρ r = some .rcb ∧ (h.rcbMem r).oldDcb = some old ∧ (h.rcbMem r).newDcb = some n)
  one : ∀ old n n', ρ n = some (.other old) → ρ n' = some (.other old) → n = n'
  rcb_new : ∀ r n, ρ r = some .rcb → (h.rcbMem r).newDcb = some n →
    ∃ old, (h.rcbMem r).oldDcb = some old ∧ ρ n = some (.other old)
  blank : ∀ r, ρ r ≠ some .rcb → (h.rcbMem r).oldDcb = none ∧ (h.rcbMem r).newDcb = none
  policy : ∀ s, ρ s = some .policy ↔ ∃ pol ∈ h.policies, pol.sc = s

/-- Every address has at most one role, and the host agrees. -/
structure Ledger (E : Env) (h : Host) (ρ : Nat → Option Role) : Prop extends
  Alive h ρ, Placed E h ρ

/-- A block with no part in a reconfiguration yet. -/
def Host.Idle (h : Host) (old : Nat) : Prop :=
  (h.outMem old).otherPath = none ∧
    ∀ r, h.hashReconfig.Holds r → (h.rcbMem r).oldDcb ≠ some old

namespace Ledger
variable {ρ : Nat → Option Role}

/-- The tables under other roles, if no entry has changed its own. -/
theorem listed (hp : Ledger E h ρ) {ρ' : Nat → Option Role}
    (hfiled : ∀ x o, o.Filed → (ρ' x = some o ↔ ρ x = some o)) : Listed h ρ' where
  out x := (hp.out x).trans (hfiled x .out trivial).symm
  inp x := (hp.inp x).trans (hfiled x .inp trivial).symm
  pen x := (hp.pen x).trans (hfiled x .pen trivial).symm
  tag x := (hp.tag x).trans (hfiled x .pen trivial).symm
  rcb x := (hp.rcb x).trans (hfiled x .rcb trivial).symm

/-- A write to a block that is not pending leaves the keys of those that are. -/
theorem keys_setOut (hp : Ledger E h ρ) (hnot : ρ p ≠ some .pen) (d : CbOut) :
    (∀ e ∈ h.hashPen.entries, e.1 = E.penHash ((h.setOut p d).outMem e.2).super) ∧
      ∀ e ∈ h.hashPenTag.entries, e.1 = E.tagHash ((h.setOut p d).outMem e.2).dyscoTag := by
  refine ⟨fun e he => ?_, fun e he => ?_⟩
  · have hpend := (hp.pen e.2).mp ⟨e.1, he⟩
    rw [Host.setOut_outMem_of_ne h (by rintro rfl; exact hnot hpend)]
    exact hp.pen_key e he
  · have hpend := (hp.tag e.2).mp ⟨e.1, he⟩
    rw [Host.setOut_outMem_of_ne h (by rintro rfl; exact hnot hpend)]
    exact hp.tag_key e he

/-! ### Writes that change no role -/

theorem setIn (hp : Ledger E h ρ) (q : Nat) (d : CbIn) : Ledger E (h.setIn q d) ρ := { hp with }
theorem setSc (hp : Ledger E h ρ) (s : Nat) (d : ServiceChain) : Ledger E (h.setSc s d) ρ :=
  { hp with }
theorem allocateLocalPort (hp : Ledger E h ρ) : Ledger E h.allocateLocalPort.2 ρ := { hp with }

/-- A write to an output block that changes neither its chain nor its path. -/
theorem setOut (hp : Ledger E h ρ) {d : CbOut} (hsc : d.sc = (h.outMem p).sc)
    (hfree : d.freeSc = (h.outMem p).freeSc) (hother : d.otherPath = (h.outMem p).otherPath)
    (hkey : ρ p = some .pen → E.penHash d.super = E.penHash (h.outMem p).super ∧
      E.tagHash d.dyscoTag = E.tagHash (h.outMem p).dyscoTag) : Ledger E (h.setOut p d) ρ := by
  have hne : ∀ x, x ≠ p → (h.setOut p d).outMem x = h.outMem x := fun x hx =>
    Host.setOut_outMem_of_ne h hx d
  have hself : (h.setOut p d).outMem p = d := Host.setOut_outMem_self h d
  have hscs : ∀ x, ((h.setOut p d).outMem x).sc = (h.outMem x).sc := by grind
  have hfrees : ∀ x, ((h.setOut p d).outMem x).freeSc = (h.outMem x).freeSc := by grind
  have hothers : ∀ x, ((h.setOut p d).outMem x).otherPath = (h.outMem x).otherPath := by grind
  exact { hp with
    pen_key := fun e he => by
      have hrole := (hp.pen e.2).mp ⟨e.1, he⟩
      have hold := hp.pen_key e he
      grind
    tag_key := fun e he => by
      have hrole := (hp.tag e.2).mp ⟨e.1, he⟩
      have hold := hp.tag_key e he
      grind
    chain := by
      simp only [hfrees, hscs]
      exact hp.chain
    owns := by
      simp only [hfrees, hscs]
      exact hp.owns
    other := by
      simp only [hothers]
      exact hp.other
    pen_other := by
      simp only [hothers]
      exact hp.pen_other
    named := by
      simp only [hothers]
      exact hp.named }

/-- A write to a block without a chain that is still being made. -/
theorem setOut_bare (hp : Ledger E h ρ) {d : CbOut} (hrole : ρ p = some .bare)
    (hbefore : (h.outMem p).freeSc = false) (hafter : d.freeSc = false) :
    Ledger E (h.setOut p d) ρ := by
  have hkeys := hp.keys_setOut (p := p) (by rw [hrole]; exact nofun) d
  have hne : ∀ x, x ≠ p → (h.setOut p d).outMem x = h.outMem x := fun x hx =>
    Host.setOut_outMem_of_ne h hx d
  have hself : (h.setOut p d).outMem p = d := Host.setOut_outMem_self h d
  exact { hp with
    pen_key := hkeys.1
    tag_key := hkeys.2
    chain := by grind [hp.chain]
    owns := by grind [hp.owns]
    other := by grind [hp.other]
    pen_other := by grind [hp.pen_other]
    named := by grind [hp.named, Host.setOut_rcbMem] }

/-- A write to a reconfiguration block that leaves its pointers alone. -/
theorem setRcb (hp : Ledger E h ρ) {d : CbReconfig} (hold : d.oldDcb = (h.rcbMem r).oldDcb)
    (hnew : d.newDcb = (h.rcbMem r).newDcb) : Ledger E (h.setRcb r d) ρ := by
  have hne : ∀ x, x ≠ r → (h.setRcb r d).rcbMem x = h.rcbMem x := fun x hx =>
    Host.setRcb_rcbMem_of_ne h hx d
  have hself : (h.setRcb r d).rcbMem r = d := Host.setRcb_rcbMem_self h d
  have holds : ∀ x, ((h.setRcb r d).rcbMem x).oldDcb = (h.rcbMem x).oldDcb := by grind
  have hnews : ∀ x, ((h.setRcb r d).rcbMem x).newDcb = (h.rcbMem x).newDcb := by grind
  exact { hp with
    named := by
      simp only [holds, hnews]
      exact hp.named
    rcb_new := by
      simp only [holds, hnews]
      exact hp.rcb_new
    blank := by
      simp only [holds, hnews]
      exact hp.blank }

/-- Naming the old block in a reconfiguration block that names no new one. -/
theorem setRcb_old (hp : Ledger E h ρ) {d : CbReconfig} (hrole : ρ r = some .rcb)
    (hbefore : (h.rcbMem r).newDcb = none) (hafter : d.newDcb = none) :
    Ledger E (h.setRcb r d) ρ := by
  have hne : ∀ x, x ≠ r → (h.setRcb r d).rcbMem x = h.rcbMem x := fun x hx =>
    Host.setRcb_rcbMem_of_ne h hx d
  have hself : (h.setRcb r d).rcbMem r = d := Host.setRcb_rcbMem_self h d
  exact { hp with
    named := by
      intro n old hn
      obtain ⟨hout, hpath | ⟨hnone, x, hx, hxold, hxnew⟩⟩ := hp.named n old hn
      · exact ⟨hout, Or.inl hpath⟩
      · have hxr : x ≠ r := by grind
        exact ⟨hout, Or.inr ⟨hnone, x, hx, by rw [hne x hxr]; exact hxold, by
          rw [hne x hxr]; exact hxnew⟩⟩
    rcb_new := by grind [hp.rcb_new]
    blank := by grind [hp.blank] }

/-! ### Allocation -/

/-- An allocation that failed. -/
theorem bump (hp : Ledger E h ρ) (hoom : h.oom h.brk = true) : Ledger E h.bump ρ :=
  { hp with
    lt := fun a ha => Nat.lt_succ_of_lt (hp.lt a ha)
    live := fun a ha => by
      have hlt := hp.lt a
      have hlive := hp.live a
      grind [Host.bump_brk, Host.bump_oom, Host.bump]
    freed_lt := fun a ha => Nat.lt_succ_of_lt (hp.freed_lt a ha) }

/-- The places do not depend on where memory lies that is being filled in. -/
theorem retag (hp : Placed E h ρ) (ρ' : Nat → Option Role)
    (hsame : ∀ x o, o ≠ .raw → (ρ' x = some o ↔ ρ x = some o)) : Placed E h ρ' :=
  have howner : ∀ x, Owner (ρ' x) ↔ Owner (ρ x) := by grind [Owner]
  have hrcb : ∀ x, ρ' x = some .rcb ↔ ρ x = some .rcb := fun x => hsame x _ nofun
  { hp with
    out := by grind [hp.out]
    inp := by grind [hp.inp]
    pen := by grind [hp.pen]
    tag := by grind [hp.tag]
    rcb := by grind [hp.rcb]
    chain := by grind [hp.chain]
    owns := by grind [hp.owns]
    other := by grind [hp.other]
    pen_other := by grind [hp.pen_other]
    named := by grind [hp.named]
    one := by grind [hp.one]
    rcb_new := by grind [hp.rcb_new]
    blank := by grind [hp.blank]
    policy := by grind [hp.policy] }

/-- Memory that was just handed out. -/
theorem alloc (hp : Ledger E h ρ) (hoom : h.oom h.brk = false) :
    Ledger E h.bump (Function.update ρ h.brk (some .raw)) := by
  have hfree : ρ h.brk = none := by
    by_contra hc
    exact Nat.lt_irrefl _ (hp.lt _ hc)
  have hnot : h.brk ∉ h.freed := fun hc => Nat.lt_irrefl _ (hp.freed_lt _ hc)
  have hne : ∀ x, x ≠ h.brk → Function.update ρ h.brk (some .raw) x = ρ x := fun x hx =>
    Function.update_of_ne hx ..
  have hself : Function.update ρ h.brk (some .raw) h.brk = some .raw := Function.update_self ..
  generalize Function.update ρ h.brk (some Role.raw) = ρ' at hne hself ⊢
  exact { retag hp.toPlaced ρ' (by grind) with
    lt := fun a ha => by
      have hlt := hp.lt a
      grind [Host.bump_brk]
    live := fun a ha => by
      have hlive := hp.live a
      grind [Host.bump_brk, Host.bump_oom, Host.bump]
    freed_lt := fun a ha => Nat.lt_succ_of_lt (hp.freed_lt a ha) }

/-- A block that could not be used is given back. -/
theorem free (hp : Ledger E h ρ) (hrole : ρ a = some .raw) :
    Ledger E (h.kfree a) (Function.update ρ a none) := by
  have hne : ∀ x, x ≠ a → Function.update ρ a none x = ρ x :=
    fun x hx => Function.update_of_ne hx ..
  have hself : Function.update ρ a none a = none := Function.update_self ..
  have hlt := hp.lt a (by rw [hrole]; exact Option.some_ne_none _)
  generalize Function.update ρ a none = ρ' at hne hself ⊢
  exact { retag hp.toPlaced ρ' (by grind) with
    lt := fun x hx => by
      have hltx := hp.lt x
      grind [Host.kfree]
    live := fun x hx => by
      have hlive := hp.live x
      grind [Host.kfree]
    freed_lt := fun x hx => by
      have hltx := hp.freed_lt x
      grind [Host.kfree] }

/-- Memory in use is in use under any other role. -/
theorem alive (hp : Ledger E h ρ) (ρ' : Nat → Option Role) (hsame : ∀ x, ρ' x ≠ none ↔ ρ x ≠ none) :
    Alive h ρ' where
  lt a ha := hp.lt a ((hsame a).mp ha)
  live a ha := (hsame a).trans (hp.live a ha)
  freed_lt := hp.freed_lt

/-- A write to memory that is no output block yet. -/
theorem setOut_raw (hp : Ledger E h ρ) (hrole : ρ p = some .raw) (d : CbOut) :
    Ledger E (h.setOut p d) ρ := by
  have hne : ∀ x, x ≠ p → (h.setOut p d).outMem x = h.outMem x := fun x hx =>
    Host.setOut_outMem_of_ne h hx d
  exact { hp with
    pen_key := fun e he => by
      have hpen := (hp.pen e.2).mp ⟨e.1, he⟩
      have hold := hp.pen_key e he
      grind
    tag_key := fun e he => by
      have hpen := (hp.tag e.2).mp ⟨e.1, he⟩
      have hold := hp.tag_key e he
      grind
    chain := by grind [hp.chain, Owner]
    owns := by grind [hp.owns, Owner]
    other := by grind [hp.other]
    pen_other := by grind [hp.pen_other]
    named := by grind [hp.named, Host.setOut_rcbMem] }

/-- Memory that holds no chain becomes an output block, and the other way round. -/
theorem swap (hp : Ledger E h ρ) {o : Role} (ho : o = .raw ∨ o = .bare)
    (hrole : ρ p = some .raw ∨ ρ p = some .bare) (hfree : (h.outMem p).freeSc = false) :
    Ledger E h (Function.update ρ p (some o)) := by
  have hne : ∀ x, x ≠ p → Function.update ρ p (some o) x = ρ x := fun x hx =>
    Function.update_of_ne hx ..
  have hself : Function.update ρ p (some o) p = some o := Function.update_self ..
  generalize Function.update ρ p (some o) = ρ' at hne hself ⊢
  have hother : ∀ x o, o ≠ .raw → o ≠ .bare → (ρ' x = some o ↔ ρ x = some o) := by grind
  have howner : ∀ x, (h.outMem x).freeSc = true → (Owner (ρ' x) ↔ Owner (ρ x)) := by grind
  exact { hp.alive ρ' (by grind) with
    out := by grind [hp.out]
    inp := by grind [hp.inp]
    pen := by grind [hp.pen]
    tag := by grind [hp.tag]
    rcb := by grind [hp.rcb]
    out_nodup := hp.out_nodup
    inp_nodup := hp.inp_nodup
    pen_nodup := hp.pen_nodup
    tag_nodup := hp.tag_nodup
    rcb_nodup := hp.rcb_nodup
    pen_key := hp.pen_key
    tag_key := hp.tag_key
    tag_zero := hp.tag_zero
    threaded := hp.threaded
    chain := by grind [hp.chain]
    owns := by grind [hp.owns]
    other := by grind [hp.other]
    pen_other := by grind [hp.pen_other]
    named := by grind [hp.named]
    one := by grind [hp.one]
    rcb_new := by grind [hp.rcb_new]
    blank := by grind [hp.blank]
    policy := by grind [hp.policy] }

/-! ### Tables -/

/-- Two hosts that differ in the tables of output blocks only, as far as roles are concerned. -/
structure SameBlocks (h g : Host) : Prop where
  brk : g.brk = h.brk
  oom : g.oom = h.oom
  freed : g.freed = h.freed
  outMem : g.outMem = h.outMem
  rcbMem : g.rcbMem = h.rcbMem
  policies : g.policies = h.policies
  hashIn : g.hashIn = h.hashIn
  hashReconfig : g.hashReconfig = h.hashReconfig

/-- The tables of output blocks agree with the roles. -/
structure Filed (E : Env) (h g : Host) (ρ : Nat → Option Role) : Prop extends SameBlocks h g where
  out : ∀ x, g.hashOut.Holds x ↔ ρ x = some .out
  pen : ∀ x, g.hashPen.Holds x ↔ ρ x = some .pen
  tag : ∀ x, g.hashPenTag.Holds x ↔ ρ x = some .pen
  out_nodup : g.hashOut.nodes.Nodup
  pen_nodup : g.hashPen.nodes.Nodup
  tag_nodup : g.hashPenTag.nodes.Nodup
  pen_key : ∀ e ∈ g.hashPen.entries, e.1 = E.penHash (h.outMem e.2).super
  tag_key : ∀ e ∈ g.hashPenTag.entries, e.1 = E.tagHash (h.outMem e.2).dyscoTag
  tag_zero : ∀ e ∈ g.hashPenTag.entries, e.1 = E.tagHash 0#32
  threaded : Threaded g.hashOut g.hashPen g.hashPenTag g.links

/-- An output block that has no other path moves between the tables of output blocks. -/
theorem move (hp : Ledger E h ρ) {o o' : Role} (ho : o = .bare ∨ o = .pen) (ho' : Owner (some o'))
    (hrole : ρ p = some o) (hpath : (h.outMem p).otherPath = none)
    (hg : Filed E h g (Function.update ρ p (some o'))) :
    Ledger E g (Function.update ρ p (some o')) := by
  have hne : ∀ x, x ≠ p → Function.update ρ p (some o') x = ρ x := fun x hx =>
    Function.update_of_ne hx ..
  have hself : Function.update ρ p (some o') p = some o' := Function.update_self ..
  generalize Function.update ρ p (some o') = ρ' at hne hself hg ⊢
  have hbefore : Owner (some o) := by grind [Owner]
  have hsame : ∀ x r, ¬ Owner (some r) → (ρ' x = some r ↔ ρ x = some r) := by grind [Owner]
  have hother : ∀ x old, ρ' x = some (.other old) ↔ ρ x = some (.other old) := fun x old =>
    hsame x _ (by grind [Owner])
  have hchain : ∀ x p, ρ' x = some (.chain p) ↔ ρ x = some (.chain p) := fun x p =>
    hsame x _ (by grind [Owner])
  have hrcb : ∀ x, ρ' x = some .rcb ↔ ρ x = some .rcb := fun x => hsame x _ (by grind [Owner])
  have hinp : ∀ x, ρ' x = some .inp ↔ ρ x = some .inp := fun x => hsame x _ (by grind [Owner])
  have hpolicy : ∀ x, ρ' x = some .policy ↔ ρ x = some .policy := fun x =>
    hsame x _ (by grind [Owner])
  have howner : ∀ x, Owner (ρ' x) ↔ Owner (ρ x) := by grind
  have hout : ∀ x, ρ x = some .out → ρ' x = some .out := by grind
  have hout' : ∀ x, ρ' x = some .out → x ≠ p → ρ x = some .out := by grind
  have hpen' : ∀ x, ρ' x = some .pen → x ≠ p → ρ x = some .pen := by grind
  have halive := hp.alive ρ' (by grind)
  exact { halive.of_same hg.brk hg.oom hg.freed with
    out := hg.out
    pen := hg.pen
    tag := hg.tag
    out_nodup := hg.out_nodup
    pen_nodup := hg.pen_nodup
    tag_nodup := hg.tag_nodup
    inp := by simpa only [hg.hashIn, hinp] using hp.inp
    inp_nodup := by simpa only [hg.hashIn] using hp.inp_nodup
    rcb := by simpa only [hg.hashReconfig, hrcb] using hp.rcb
    rcb_nodup := by simpa only [hg.hashReconfig] using hp.rcb_nodup
    pen_key := by simpa only [hg.outMem] using hg.pen_key
    tag_key := by simpa only [hg.outMem] using hg.tag_key
    tag_zero := hg.tag_zero
    threaded := hg.threaded
    chain := by simpa only [hg.outMem, hchain, howner] using hp.chain
    owns := by simpa only [hg.outMem, hchain, howner] using hp.owns
    other := fun x n hx hn => by
      rw [hg.outMem] at hn
      by_cases hxp : x = p
      · rw [hxp, hpath] at hn
        cases hn
      · exact (hother n x).mpr (hp.other x n (hout' x hx hxp) hn)
    pen_other := fun x hx => by
      rw [hg.outMem]
      by_cases hxp : x = p
      · rwa [hxp]
      · exact hp.pen_other x (hpen' x hx hxp)
    named := fun n old hn => by
      simp only [hg.outMem, hg.rcbMem, hrcb]
      exact (hp.named n old ((hother n old).mp hn)).imp (hout old) id
    one := by simpa only [hother] using hp.one
    rcb_new := by simpa only [hg.rcbMem, hrcb, hother] using hp.rcb_new
    blank := by simpa only [hg.rcbMem, ne_eq, hrcb] using hp.blank
    policy := by simpa only [hg.policies, hpolicy] using hp.policy }

theorem insertOut (hp : Ledger E h ρ) (hrole : ρ p = some .bare)
    (hpath : (h.outMem p).otherPath = none) :
    Ledger E (h.insertOut E p) (Function.update ρ p (some .out)) := by
  have hnot : ¬ h.hashOut.Holds p := by
    rw [hp.out, hrole]
    exact nofun
  have hholds : ∀ x, (h.insertOut E p).hashOut.Holds x ↔ x = p ∨ h.hashOut.Holds x := fun x =>
    BucketTable.holds_insert
  exact hp.move (Or.inl rfl) (Or.inl rfl) hrole hpath
    { brk := rfl, oom := rfl, freed := rfl, outMem := rfl, rcbMem := rfl, policies := rfl
      hashIn := rfl, hashReconfig := rfl
      out := by
        intro x
        rw [hholds, hp.out, Function.update_apply]
        grind
      pen := by
        intro x
        have hx := hp.pen x
        rw [Function.update_apply]
        grind [Host.insertOut]
      tag := by
        intro x
        have hx := hp.tag x
        rw [Function.update_apply]
        grind [Host.insertOut]
      out_nodup := BucketTable.insert_nodup hnot hp.out_nodup
      pen_nodup := hp.pen_nodup
      tag_nodup := hp.tag_nodup
      pen_key := hp.pen_key
      tag_key := hp.tag_key
      tag_zero := hp.tag_zero
      threaded := hp.threaded.insertOut hnot (by
        rw [hp.pen, hrole]
        exact nofun) }

/-- An output block with the tag zero goes into both pending tables, if all pending blocks are in
its bucket of `dysco_hash_pen`. -/
theorem insertPending (hp : Ledger E h ρ) (hrole : ρ p = some .bare)
    (hpath : (h.outMem p).otherPath = none) (hzero : (h.outMem p).dyscoTag = 0#32)
    (hone : ∀ x, ρ x = some .pen → E.penHash (h.outMem x).super = E.penHash (h.outMem p).super) :
    Ledger E ((h.insertPen E p).insertTag E p) (Function.update ρ p (some .pen)) := by
  have hpen : ¬ h.hashPen.Holds p := by
    rw [hp.pen, hrole]
    exact nofun
  have htag : ¬ h.hashPenTag.Holds p := by
    rw [hp.tag, hrole]
    exact nofun
  have hout : ¬ h.hashOut.Holds p := by
    rw [hp.out, hrole]
    exact nofun
  have hbucket : ∀ e ∈ h.hashPen.entries, e.1 = E.penHash (h.outMem p).super := fun e he =>
    (hp.pen_key e he).trans (hone e.2 ((hp.pen e.2).mp ⟨e.1, he⟩))
  have htagBucket : ∀ e ∈ h.hashPenTag.entries, e.1 = E.tagHash (h.outMem p).dyscoTag :=
    fun e he => by rw [hzero]; exact hp.tag_zero e he
  have hpens : ∀ x, ((h.insertPen E p).insertTag E p).hashPen.Holds x ↔ x = p ∨ h.hashPen.Holds x :=
    fun x => BucketTable.holds_insert
  have htags : ∀ x, ((h.insertPen E p).insertTag E p).hashPenTag.Holds x ↔
      x = p ∨ h.hashPenTag.Holds x := fun x => BucketTable.holds_insert
  exact hp.move (Or.inl rfl) (Or.inr (Or.inl rfl)) hrole hpath
    { brk := rfl, oom := rfl, freed := rfl, outMem := rfl, rcbMem := rfl, policies := rfl
      hashIn := rfl, hashReconfig := rfl
      out := by
        intro x
        have hx := hp.out x
        rw [Function.update_apply]
        grind [Host.insertPen, Host.insertTag]
      pen := by
        intro x
        rw [hpens, hp.pen, Function.update_apply]
        grind
      tag := by
        intro x
        rw [htags, hp.tag, Function.update_apply]
        grind
      out_nodup := hp.out_nodup
      pen_nodup := BucketTable.insert_nodup hpen hp.pen_nodup
      tag_nodup := BucketTable.insert_nodup htag hp.tag_nodup
      pen_key := fun e he => (List.mem_cons.mp he).elim (fun heq => by rw [heq]) (hp.pen_key e)
      tag_key := fun e he => (List.mem_cons.mp he).elim (fun heq => by rw [heq]; rfl) (hp.tag_key e)
      tag_zero := fun e he => (List.mem_cons.mp he).elim
        (fun heq => by rw [heq]; exact congrArg E.tagHash hzero) (hp.tag_zero e)
      threaded := hp.threaded.insertPending hout hpen hbucket htagBucket }

/-- No more blocks are pending than were made. -/
theorem pen_length (hp : Ledger E h ρ) : h.hashPen.nodes.length ≤ h.brk := by
  have hsub : h.hashPen.nodes ⊆ List.range h.brk := by
    intro p hm
    refine List.mem_range.mpr (hp.lt p ?_)
    rw [(hp.pen p).mp (BucketTable.mem_nodes.mp hm)]
    exact nofun
  have hlen := (List.subperm_of_subset hp.pen_nodup hsub).length_le
  rwa [List.length_range] at hlen

/-- A pending block is where its keys say, and is taken out of both tables. -/
theorem removePending (hp : Ledger E h ρ) (hrole : ρ p = some .pen) :
    Ledger E ((h.removePen E p).removeTag E p) (Function.update ρ p (some .bare)) := by
  obtain ⟨b, hb⟩ := (hp.pen p).mpr hrole
  obtain ⟨b', hb'⟩ := (hp.tag p).mpr hrole
  have hkey := hp.pen_key _ hb
  have hkey' := hp.tag_key _ hb'
  simp only at hkey hkey'
  subst hkey hkey'
  obtain ⟨hpen_nodup, hpens⟩ : ((h.removePen E p).removeTag E p).hashPen.nodes.Nodup ∧
      ∀ x, ((h.removePen E p).removeTag E p).hashPen.Holds x ↔ h.hashPen.Holds x ∧ x ≠ p :=
    BucketTable.remove_spec hb hp.pen_nodup
  obtain ⟨htag_nodup, htags⟩ : ((h.removePen E p).removeTag E p).hashPenTag.nodes.Nodup ∧
      ∀ x, ((h.removePen E p).removeTag E p).hashPenTag.Holds x ↔ h.hashPenTag.Holds x ∧ x ≠ p :=
    BucketTable.remove_spec hb' hp.tag_nodup
  have hapart : ∀ x, h.hashPen.Holds x → ¬ h.hashOut.Holds x := by
    intro x hx
    rw [hp.out, (hp.pen x).mp hx]
    exact nofun
  -- the bucket of the block is that of the tag zero
  have htagBucket : ∀ e ∈ h.hashPenTag.entries, e.1 = E.tagHash (h.outMem p).dyscoTag :=
    fun e he => (hp.tag_zero e he).trans (hp.tag_zero _ hb').symm
  exact hp.move (Or.inr rfl) (Or.inr (Or.inr rfl)) hrole (hp.pen_other p hrole)
    { brk := rfl, oom := rfl, freed := rfl, outMem := rfl, rcbMem := rfl, policies := rfl
      hashIn := rfl, hashReconfig := rfl
      out := by
        intro x
        have hx := hp.out x
        rw [Function.update_apply]
        grind [Host.removePen, Host.removeTag]
      pen := by
        intro x
        rw [hpens, hp.pen, Function.update_apply]
        grind
      tag := by
        intro x
        rw [htags, hp.tag, Function.update_apply]
        grind
      out_nodup := hp.out_nodup
      pen_nodup := hpen_nodup
      tag_nodup := htag_nodup
      pen_key := fun e he => hp.pen_key e (List.mem_of_mem_erase he)
      tag_key := fun e he => hp.tag_key e (List.mem_of_mem_erase he)
      tag_zero := fun e he => hp.tag_zero e (List.mem_of_mem_erase he)
      threaded := hp.threaded.removePending hb hp.pen_nodup hapart htagBucket hp.pen_length }

/-- The other tables and the list of policies agree with the roles. -/
structure Filled (h g : Host) (ρ : Nat → Option Role) : Prop where
  brk : g.brk = h.brk
  oom : g.oom = h.oom
  freed : g.freed = h.freed
  outMem : g.outMem = h.outMem
  rcbMem : g.rcbMem = h.rcbMem
  hashOut : g.hashOut = h.hashOut
  hashPen : g.hashPen = h.hashPen
  hashPenTag : g.hashPenTag = h.hashPenTag
  links : g.links = h.links
  inp : ∀ q, g.hashIn.Holds q ↔ ρ q = some .inp
  inp_nodup : g.hashIn.nodes.Nodup
  rcb : ∀ r, g.hashReconfig.Holds r ↔ ρ r = some .rcb
  rcb_nodup : g.hashReconfig.nodes.Nodup
  policy : ∀ s, ρ s = some .policy ↔ ∃ pol ∈ g.policies, pol.sc = s

/-- Memory that was filled in gets its place; a reconfiguration block names no block before. -/
theorem fill (hp : Ledger E h ρ) {o : Role} (hrole : ρ a = some .raw)
    (ho : o = .inp ∨ o = .rcb ∨ o = .policy) (hg : Filled h g (Function.update ρ a (some o))) :
    Ledger E g (Function.update ρ a (some o)) := by
  have hne : ∀ x, x ≠ a → Function.update ρ a (some o) x = ρ x := fun x hx =>
    Function.update_of_ne hx ..
  have hself : Function.update ρ a (some o) a = some o := Function.update_self ..
  generalize Function.update ρ a (some o) = ρ' at hne hself hg ⊢
  have hsame : ∀ x r, r ≠ .raw → r ≠ .inp → r ≠ .rcb → r ≠ .policy →
      (ρ' x = some r ↔ ρ x = some r) := by grind
  have hother : ∀ x old, ρ' x = some (.other old) ↔ ρ x = some (.other old) := fun x old =>
    hsame x _ nofun nofun nofun nofun
  have hchain : ∀ x p, ρ' x = some (.chain p) ↔ ρ x = some (.chain p) := fun x p =>
    hsame x _ nofun nofun nofun nofun
  have hout : ∀ x, ρ' x = some .out ↔ ρ x = some .out := fun x =>
    hsame x _ nofun nofun nofun nofun
  have hpen : ∀ x, ρ' x = some .pen ↔ ρ x = some .pen := fun x =>
    hsame x _ nofun nofun nofun nofun
  have hrcb : ∀ x, ρ x = some .rcb → ρ' x = some .rcb := by grind
  have hrcb' : ∀ x, ρ' x = some .rcb → x ≠ a → ρ x = some .rcb := by grind
  have howner : ∀ x, Owner (ρ' x) ↔ Owner (ρ x) := by grind [Owner]
  have hblank := hp.blank a (by rw [hrole]; exact nofun)
  have halive := hp.alive ρ' (by grind)
  exact { halive.of_same hg.brk hg.oom hg.freed with
    inp := hg.inp
    inp_nodup := hg.inp_nodup
    rcb := hg.rcb
    rcb_nodup := hg.rcb_nodup
    policy := hg.policy
    out := by simpa only [hg.hashOut, hout] using hp.out
    pen := by simpa only [hg.hashPen, hpen] using hp.pen
    tag := by simpa only [hg.hashPenTag, hpen] using hp.tag
    out_nodup := by simpa only [hg.hashOut] using hp.out_nodup
    pen_nodup := by simpa only [hg.hashPen] using hp.pen_nodup
    tag_nodup := by simpa only [hg.hashPenTag] using hp.tag_nodup
    pen_key := by simpa only [hg.hashPen, hg.outMem] using hp.pen_key
    tag_key := by simpa only [hg.hashPenTag, hg.outMem] using hp.tag_key
    tag_zero := by simpa only [hg.hashPenTag] using hp.tag_zero
    threaded := by
      rw [hg.hashOut, hg.hashPen, hg.hashPenTag, hg.links]
      exact hp.threaded
    chain := by simpa only [hg.outMem, hchain, howner] using hp.chain
    owns := by simpa only [hg.outMem, hchain, howner] using hp.owns
    other := by simpa only [hg.outMem, hother, hout] using hp.other
    pen_other := by simpa only [hg.outMem, hpen] using hp.pen_other
    named := fun n old hn => by
      simp only [hg.outMem, hg.rcbMem, hout]
      obtain ⟨hold, hpath | ⟨hnone, r, hr, hdcbs⟩⟩ := hp.named n old ((hother n old).mp hn)
      · exact ⟨hold, Or.inl hpath⟩
      · exact ⟨hold, Or.inr ⟨hnone, r, hrcb r hr, hdcbs⟩⟩
    one := by simpa only [hother] using hp.one
    rcb_new := fun r n hr hn => by
      simp only [hg.rcbMem, hother] at hn ⊢
      by_cases hra : r = a
      · rw [hra, hblank.2] at hn
        cases hn
      · exact hp.rcb_new r n (hrcb' r hr hra) hn
    blank := fun r hr => by
      rw [hg.rcbMem]
      exact hp.blank r fun hc => hr (hrcb r hc) }

/-- An input block goes into its table. -/
theorem insertIn (hp : Ledger E h ρ) (hrole : ρ q = some .raw) :
    Ledger E (h.insertIn E q) (Function.update ρ q (some .inp)) := by
  have hnot : ¬ h.hashIn.Holds q := by
    rw [hp.inp, hrole]
    exact nofun
  have hholds : ∀ x, (h.insertIn E q).hashIn.Holds x ↔ x = q ∨ h.hashIn.Holds x := fun x =>
    BucketTable.holds_insert
  exact hp.fill hrole (Or.inl rfl)
    { brk := rfl, oom := rfl, freed := rfl, outMem := rfl, rcbMem := rfl, hashOut := rfl
      hashPen := rfl, hashPenTag := rfl, links := rfl
      inp := by
        intro x
        rw [hholds, hp.inp, Function.update_apply]
        grind
      inp_nodup := BucketTable.insert_nodup hnot hp.inp_nodup
      rcb := by
        intro x
        have hx := hp.rcb x
        rw [Function.update_apply]
        grind [Host.insertIn]
      rcb_nodup := hp.rcb_nodup
      policy := by
        intro x
        have hx := hp.policy x
        rw [Function.update_apply]
        grind [Host.insertIn] }

theorem insertReconfig (hp : Ledger E h ρ) (hrole : ρ r = some .raw) :
    Ledger E (h.insertReconfig E r) (Function.update ρ r (some .rcb)) := by
  have hnot : ¬ h.hashReconfig.Holds r := by
    rw [hp.rcb, hrole]
    exact nofun
  have hholds : ∀ x, (h.insertReconfig E r).hashReconfig.Holds x ↔ x = r ∨ h.hashReconfig.Holds x :=
    fun x => BucketTable.holds_insert
  exact hp.fill hrole (Or.inr (Or.inl rfl))
    { brk := rfl, oom := rfl, freed := rfl, outMem := rfl, rcbMem := rfl, hashOut := rfl
      hashPen := rfl, hashPenTag := rfl, links := rfl
      inp := by
        intro x
        have hx := hp.inp x
        rw [Function.update_apply]
        grind [Host.insertReconfig]
      inp_nodup := hp.inp_nodup
      rcb := by
        intro x
        rw [hholds, hp.rcb, Function.update_apply]
        grind
      rcb_nodup := BucketTable.insert_nodup hnot hp.rcb_nodup
      policy := by
        intro x
        have hx := hp.policy x
        rw [Function.update_apply]
        grind [Host.insertReconfig] }

/-- A chain goes into the list of policies. -/
theorem addPolicy (hp : Ledger E h ρ) (hrole : ρ s = some .raw) (filter : SkBuff → Bool) :
    Ledger E { h with policies := ⟨filter, s⟩ :: h.policies }
      (Function.update ρ s (some .policy)) :=
  hp.fill hrole (Or.inr (Or.inr rfl))
    { brk := rfl, oom := rfl, freed := rfl, outMem := rfl, rcbMem := rfl, hashOut := rfl
      hashPen := rfl, hashPenTag := rfl, links := rfl
      inp := by
        intro x
        have hx := hp.inp x
        rw [Function.update_apply]
        grind
      inp_nodup := hp.inp_nodup
      rcb := by
        intro x
        have hx := hp.rcb x
        rw [Function.update_apply]
        grind
      rcb_nodup := hp.rcb_nodup
      policy := by
        intro x
        rw [List.exists_mem_cons_iff, ← hp.policy, Function.update_apply]
        grind }

/-- The roles once the policies are gone. -/
def unpoliced (ρ : Nat → Option Role) (a : Nat) : Option Role :=
  if ρ a = some .policy then none else ρ a

theorem delPolicies (hp : Ledger E h ρ) : Ledger E (Dysco.delPolicies h) (unpoliced ρ) := by
  have hsame : ∀ x r, r ≠ .policy → (unpoliced ρ x = some r ↔ ρ x = some r) := by grind [unpoliced]
  have hnone : ∀ x, unpoliced ρ x ≠ some .policy := by grind [unpoliced]
  have hused : ∀ x, unpoliced ρ x ≠ none ↔ ρ x ≠ none ∧ ρ x ≠ some .policy := by grind [unpoliced]
  have hfreed : ∀ x, x ∈ (Dysco.delPolicies h).freed ↔ ρ x = some .policy ∨ x ∈ h.freed := by
    intro x
    simp only [Dysco.delPolicies, List.mem_append, List.mem_reverse, List.mem_map, ← hp.policy]
  generalize unpoliced ρ = ρ' at hsame hnone hused ⊢
  have hother : ∀ x old, ρ' x = some (.other old) ↔ ρ x = some (.other old) := fun x old =>
    hsame x _ nofun
  have hchain : ∀ x p, ρ' x = some (.chain p) ↔ ρ x = some (.chain p) := fun x p => hsame x _ nofun
  have hfiled : ∀ x o, o.Filed → (ρ' x = some o ↔ ρ x = some o) := fun x o ho =>
    hsame x o (by rintro rfl; exact ho)
  have hout : ∀ x, ρ' x = some .out ↔ ρ x = some .out := fun x => hfiled x _ trivial
  have hpen : ∀ x, ρ' x = some .pen ↔ ρ x = some .pen := fun x => hfiled x _ trivial
  have hrcb : ∀ x, ρ' x = some .rcb ↔ ρ x = some .rcb := fun x => hfiled x _ trivial
  have howner : ∀ x, Owner (ρ' x) ↔ Owner (ρ x) := by grind [Owner]
  exact { hp.listed hfiled, hp with
    lt := fun x hx => hp.lt x ((hused x).mp hx).1
    live := fun x hx => by
      have hlive := hp.live x hx
      rw [hused, hfreed]
      change _ ↔ h.oom x = false ∧ _
      grind
    freed_lt := fun x hx => by
      rcases (hfreed x).mp hx with hpol | hold
      · exact hp.lt x (by rw [hpol]; exact nofun)
      · exact hp.freed_lt x hold
    chain := by
      simp only [hchain, howner]
      exact hp.chain
    owns := by
      simp only [hchain, howner]
      exact hp.owns
    other := by
      simp only [hother, hout]
      exact hp.other
    pen_other := by
      simp only [hpen]
      exact hp.pen_other
    named := by
      simp only [hother, hout, hrcb]
      exact hp.named
    one := by
      simp only [hother]
      exact hp.one
    rcb_new := by
      simp only [hother, hrcb]
      exact hp.rcb_new
    blank := by
      simp only [ne_eq, hrcb]
      exact hp.blank
    policy := fun x => iff_of_false (hnone x) fun ⟨_, hx, _⟩ => nomatch hx }

/-! ### Pointers -/

/-- A block that is being made gets a chain of its own. -/
theorem own (hp : Ledger E h ρ) {d : CbOut} (hrole : ρ p = some .bare) (hs : ρ s = some .raw)
    (hbefore : (h.outMem p).freeSc = false) (hfree : d.freeSc = true) (hsc : d.sc = some s) :
    Ledger E (h.setOut p d) (Function.update ρ s (some (.chain p))) := by
  have hne : ∀ x, x ≠ s → Function.update ρ s (some (.chain p)) x = ρ x := fun x hx =>
    Function.update_of_ne hx ..
  have hself : Function.update ρ s (some (.chain p)) s = some (.chain p) := Function.update_self ..
  generalize Function.update ρ s (some (Role.chain p)) = ρ' at hne hself ⊢
  have hmne : ∀ x, x ≠ p → (h.setOut p d).outMem x = h.outMem x := fun x hx =>
    Host.setOut_outMem_of_ne h hx d
  have hmself : (h.setOut p d).outMem p = d := Host.setOut_outMem_self h d
  have halive := hp.alive ρ' (by grind)
  have hkeys := hp.keys_setOut (p := p) (by rw [hrole]; exact nofun) d
  have hsame : ∀ x r, r ≠ .raw → r ≠ .chain p → (ρ' x = some r ↔ ρ x = some r) := by grind
  have hfiled : ∀ x o, o.Filed → (ρ' x = some o ↔ ρ x = some o) := fun x o ho =>
    hsame x o (by rintro rfl; exact ho) (by rintro rfl; exact ho)
  have hother : ∀ x old, ρ' x = some (.other old) ↔ ρ x = some (.other old) := fun x old =>
    hsame x _ nofun nofun
  have hout : ∀ x, ρ' x = some .out ↔ ρ x = some .out := fun x => hfiled x _ trivial
  have hpen : ∀ x, ρ' x = some .pen ↔ ρ x = some .pen := fun x => hfiled x _ trivial
  have hrcb : ∀ x, ρ' x = some .rcb ↔ ρ x = some .rcb := fun x => hfiled x _ trivial
  have hpolicy : ∀ x, ρ' x = some .policy ↔ ρ x = some .policy := fun x => hsame x _ nofun nofun
  have howner : ∀ x, Owner (ρ' x) ↔ Owner (ρ x) := by grind [Owner]
  exact { halive, hp.listed hfiled, hp with
    pen_key := hkeys.1
    tag_key := hkeys.2
    chain := fun x y hx => by
      by_cases hxs : x = s
      · obtain rfl : p = y := by grind
        rw [hmself, howner]
        exact ⟨Or.inr (Or.inr hrole), hfree, hxs ▸ hsc⟩
      · obtain ⟨hown, hfreeY, hscY⟩ := hp.chain x y (by rw [← hne x hxs, hx])
        have hy : y ≠ p := by grind
        rw [hmne y hy, howner]
        exact ⟨hown, hfreeY, hscY⟩
    owns := fun y hown hfreeY => by
      by_cases hy : y = p
      · exact ⟨s, by rw [hy, hmself, hsc], by rw [hy, hself]⟩
      · rw [hmne y hy] at hfreeY ⊢
        obtain ⟨x, hscX, hx⟩ := hp.owns y ((howner y).mp hown) hfreeY
        exact ⟨x, hscX, by grind⟩
    other := fun x n hx hn => by
      rw [hmne x (by grind)] at hn
      exact (hother n x).mpr (hp.other x n ((hout x).mp hx) hn)
    pen_other := fun x hx => by
      rw [hmne x (by grind)]
      exact hp.pen_other x ((hpen x).mp hx)
    named := by
      intro n old hn
      obtain ⟨hold, hpath⟩ := hp.named n old ((hother n old).mp hn)
      rw [hmne old (by grind)]
      simp only [hout, hrcb, Host.setOut_rcbMem]
      exact ⟨hold, hpath⟩
    one := by
      simp only [hother]
      exact hp.one
    rcb_new := by
      simp only [hother, hrcb, Host.setOut_rcbMem]
      exact hp.rcb_new
    blank := by
      simp only [ne_eq, hrcb, Host.setOut_rcbMem]
      exact hp.blank
    policy := fun x => (hpolicy x).trans (hp.policy x) }

/-- What there is of the block of a new path before a session is reconfigured. -/
theorem idle (hp : Ledger E h ρ) (hidle : h.Idle old) (n : Nat) : ρ n ≠ some (.other old) := by
  intro hn
  obtain ⟨-, hpath | ⟨-, r, hr, hdcb, -⟩⟩ := hp.named n old hn
  · rw [hidle.1] at hpath
    cases hpath
  · exact hidle.2 r ((hp.rcb r).mpr hr) hdcb

/-- The left anchor gives a block its other path. -/
theorem adopt (hp : Ledger E h ρ) {d : CbOut} (hrole : ρ p = some .bare)
    (hfree : (h.outMem p).freeSc = false) (hold : ρ old = some .out)
    (hnot : ∀ n, ρ n ≠ some (.other old)) (hsc : d.sc = (h.outMem old).sc)
    (hfreeSc : d.freeSc = (h.outMem old).freeSc)
    (hpath : d.otherPath = some p) :
    Ledger E (h.setOut old d) (Function.update ρ p (some (.other old))) := by
  have hg := Grafted.update hrole hnot
  generalize Function.update ρ p (some (Role.other old)) = ρ' at hg ⊢
  have hmne : ∀ x, x ≠ old → (h.setOut old d).outMem x = h.outMem x := fun x hx =>
    Host.setOut_outMem_of_ne h hx d
  have hmself : (h.setOut old d).outMem old = d := Host.setOut_outMem_self h d
  have hscs : ∀ x, ((h.setOut old d).outMem x).sc = (h.outMem x).sc := by grind
  have hfrees : ∀ x, ((h.setOut old d).outMem x).freeSc = (h.outMem x).freeSc := by grind
  have hchain : ∀ x y, ρ' x = some (.chain y) ↔ ρ x = some (.chain y) := fun x y =>
    hg.same (.chain y) nofun nofun x
  have hout := hg.same .out nofun nofun
  have hpen := hg.same .pen nofun nofun
  have hrcb := hg.same .rcb nofun nofun
  have howner := hg.owner hfree
  have hkeys := hp.keys_setOut (p := old) (by rw [hold]; exact nofun) d
  exact { hp.alive ρ' hg.used, hp.listed hg.filed, hp with
    pen_key := hkeys.1
    tag_key := hkeys.2
    chain := fun x y hx => by
      obtain ⟨hown, hfreeY, hscY⟩ := hp.chain x y ((hchain x y).mp hx)
      rw [hscs, hfrees]
      exact ⟨(howner y hfreeY).mpr hown, hfreeY, hscY⟩
    owns := fun y hown hfreeY => by
      rw [hfrees] at hfreeY
      rw [hscs]
      simp only [hchain]
      exact hp.owns y ((howner y hfreeY).mp hown) hfreeY
    other := fun x n hx hn => by
      by_cases hxo : x = old
      · rw [hxo, hmself, hpath] at hn
        cases hn
        rw [hxo, hg.after]
      · rw [hmne x hxo] at hn
        exact hg.keep (hp.other x n ((hout x).mp hx) hn)
    pen_other := fun x hx => by
      have hpend := (hpen x).mp hx
      rw [hmne x (by grind)]
      exact hp.pen_other x hpend
    named := fun n y hn => by
      simp only [hout, hrcb, Host.setOut_rcbMem]
      rcases hg.others hn with ⟨rfl, rfl⟩ | ⟨-, hy, hn⟩
      · exact ⟨hold, Or.inl (by rw [hmself, hpath])⟩
      · rw [hmne y hy]
        exact hp.named n y hn
    one := hg.one hp.one
    rcb_new := fun x n hx hn => by
      obtain ⟨y, hy, hrolen⟩ := hp.rcb_new x n ((hrcb x).mp hx) hn
      exact ⟨y, hy, hg.keep hrolen⟩
    blank := fun x hx => hp.blank x fun hc => hx ((hrcb x).mpr hc)
    policy := fun x => (hg.same .policy nofun nofun x).trans (hp.policy x) }

/-- The right anchor names both blocks in the reconfiguration block first. -/
theorem enlist (hp : Ledger E h ρ) {d : CbReconfig} (hrole : ρ p = some .bare)
    (hfree : (h.outMem p).freeSc = false) (hr : ρ r = some .rcb)
    (hblank : (h.rcbMem r).newDcb = none)
    (hold : ρ old = some .out) (hidle : h.Idle old) (holdDcb : d.oldDcb = some old)
    (hnewDcb : d.newDcb = some p) :
    Ledger E (h.setRcb r d) (Function.update ρ p (some (.other old))) := by
  have hg := Grafted.update hrole (hp.idle hidle)
  generalize Function.update ρ p (some (Role.other old)) = ρ' at hg ⊢
  have hmne : ∀ x, x ≠ r → (h.setRcb r d).rcbMem x = h.rcbMem x := fun x hx =>
    Host.setRcb_rcbMem_of_ne h hx d
  have hmself : (h.setRcb r d).rcbMem r = d := Host.setRcb_rcbMem_self h d
  have hchain : ∀ x y, ρ' x = some (.chain y) ↔ ρ x = some (.chain y) := fun x y =>
    hg.same (.chain y) nofun nofun x
  have hout := hg.same .out nofun nofun
  have hpen := hg.same .pen nofun nofun
  have hrcb := hg.same .rcb nofun nofun
  have howner := hg.owner hfree
  exact { hp.alive ρ' hg.used, hp.listed hg.filed, hp with
    chain := fun x y hx => by
      obtain ⟨hown, hfreeY, hscY⟩ := hp.chain x y ((hchain x y).mp hx)
      exact ⟨(howner y hfreeY).mpr hown, hfreeY, hscY⟩
    owns := fun y hown hfreeY => by
      simp only [hchain]
      exact hp.owns y ((howner y hfreeY).mp hown) hfreeY
    other := fun x n hx hn => hg.keep (hp.other x n ((hout x).mp hx) hn)
    pen_other := fun x hx => hp.pen_other x ((hpen x).mp hx)
    named := fun n y hn => by
      simp only [hout, hrcb, Host.setRcb_outMem]
      rcases hg.others hn with ⟨rfl, rfl⟩ | ⟨-, -, hn⟩
      · exact ⟨hold, Or.inr ⟨hidle.1, r, hr, by rw [hmself, holdDcb], by rw [hmself, hnewDcb]⟩⟩
      · obtain ⟨hout', hpath | ⟨hnone, x, hx, hxold, hxnew⟩⟩ := hp.named n y hn
        · exact ⟨hout', Or.inl hpath⟩
        · have hxr : x ≠ r := by grind
          exact ⟨hout', Or.inr ⟨hnone, x, hx, by rw [hmne x hxr, hxold], by rw [hmne x hxr, hxnew]⟩⟩
    one := hg.one hp.one
    rcb_new := fun x n hx hn => by
      by_cases hxr : x = r
      · rw [hxr, hmself] at hn ⊢
        cases Option.some.inj (hnewDcb.symm.trans hn)
        exact ⟨old, holdDcb, hg.after⟩
      · rw [hmne x hxr] at hn ⊢
        obtain ⟨y, hy, hrolen⟩ := hp.rcb_new x n ((hrcb x).mp hx) hn
        exact ⟨y, hy, hg.keep hrolen⟩
    blank := fun x hx => by
      have hx' : ρ x ≠ some .rcb := fun hc => hx ((hrcb x).mpr hc)
      rw [hmne x (by grind)]
      exact hp.blank x hx'
    policy := fun x => (hg.same .policy nofun nofun x).trans (hp.policy x) }

/-- The right anchor gives the old block the other path that the reconfiguration block names. -/
theorem link (hp : Ledger E h ρ) {d : CbOut} {n : Nat} (hr : ρ r = some .rcb)
    (holdDcb : (h.rcbMem r).oldDcb = some old) (hnewDcb : (h.rcbMem r).newDcb = some n)
    (hsc : d.sc = (h.outMem old).sc) (hfreeSc : d.freeSc = (h.outMem old).freeSc)
    (hpath : d.otherPath = some n) : Ledger E (h.setOut old d) ρ := by
  obtain ⟨old', holdDcb', hrole⟩ := hp.rcb_new r n hr hnewDcb
  obtain rfl : old = old' := Option.some.inj (holdDcb.symm.trans holdDcb')
  obtain ⟨hold, -⟩ := hp.named n old hrole
  have hmne : ∀ x, x ≠ old → (h.setOut old d).outMem x = h.outMem x := fun x hx =>
    Host.setOut_outMem_of_ne h hx d
  have hmself : (h.setOut old d).outMem old = d := Host.setOut_outMem_self h d
  have hscs : ∀ x, ((h.setOut old d).outMem x).sc = (h.outMem x).sc := by grind
  have hfrees : ∀ x, ((h.setOut old d).outMem x).freeSc = (h.outMem x).freeSc := by grind
  have hkeys := hp.keys_setOut (p := old) (by rw [hold]; exact nofun) d
  exact { hp with
    pen_key := hkeys.1
    tag_key := hkeys.2
    chain := by
      simp only [hscs, hfrees]
      exact hp.chain
    owns := by
      simp only [hscs, hfrees]
      exact hp.owns
    other := fun x y hx hy => by
      by_cases hxo : x = old
      · rw [hxo, hmself, hpath] at hy
        cases hy
        rw [hxo, hrole]
      · rw [hmne x hxo] at hy
        exact hp.other x y hx hy
    pen_other := fun x hx => by
      rw [hmne x (by grind)]
      exact hp.pen_other x hx
    named := fun x y hx => by
      by_cases hy : y = old
      · rw [hy, hmself, hpath, hp.one old x n (hy ▸ hx) hrole]
        exact ⟨hold, Or.inl rfl⟩
      · rw [hmne y hy]
        exact hp.named x y hx }

end Ledger
end Dysco
