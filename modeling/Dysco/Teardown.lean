import Dysco.LedgerSteps
import Dysco.TwoPaths

/-! # What the module frees when it is unloaded

`dysco_destroy_hashes` walks over the five tables.  A block of the output table takes the block of
its other path and its own service chain with it; for the other tables a block is freed as it is. In
the runs where no step loses track of memory, or crosses the chains of `dysco_hash_pen`, the tables
are what their heads lead to, and the walk frees each block once, unless a SYN is pending, whose
block lies in two tables, or a right anchor has not hung the new path on yet (`released_iff_ran`).
-/
namespace Dysco
open EventRuns

variable {E A : Env} {h : Host} {p a : Nat} {ρ : Nat → Option Role}

/-! ## The walk -/

/-- `dysco_free_dcb_out`: what is freed with an output block. -/
def Host.freeDcbOut (h : Host) (p : Nat) : List Nat :=
  (h.outMem p).otherPath.toList ++
    (if (h.outMem p).freeSc then (h.outMem p).sc.toList else []) ++ [p]

/-- `dysco_destroy_hashes`: what is freed, up to the policies. -/
def destroyHashes (h : Host) : List Nat :=
  h.hashOut.nodes.flatMap h.freeDcbOut ++ h.hashIn.nodes ++ h.hashPen.nodes ++
    h.hashReconfig.nodes ++ h.hashPenTag.nodes

/-- In use, and no policy's. -/
def Host.Live (h : Host) (a : Nat) : Prop :=
  a < h.brk ∧ h.oom a = false ∧ a ∉ h.freed ∧ ∀ pol ∈ h.policies, pol.sc ≠ a

/-- Every block is freed once, and the chains of the policies are left alone. -/
structure Released (h : Host) : Prop where
  once : (destroyHashes h).Nodup
  all : ∀ a, h.Live a → a ∈ destroyHashes h
  policy : ∀ pol ∈ h.policies, pol.sc ∉ destroyHashes h

/-- No SYN is pending, and a block that is reconfigured leads to the block of the new path. -/
structure Host.Quiet (h : Host) : Prop where
  pen : ∀ p, ¬ h.hashPen.Holds p
  paths : ∀ r old new, h.hashReconfig.Holds r → (h.rcbMem r).oldDcb = some old →
    (h.rcbMem r).newDcb = some new → (h.outMem old).otherPath ≠ none

theorem mem_freeDcbOut : a ∈ h.freeDcbOut p ↔
    (h.outMem p).otherPath = some a ∨ ((h.outMem p).freeSc = true ∧ (h.outMem p).sc = some a) ∨
    a = p := by
  rw [Host.freeDcbOut, List.mem_append, List.mem_append, List.mem_singleton, Option.mem_toList,
    or_assoc]
  split
  · rename_i hfree
    rw [Option.mem_toList]
    simp only [hfree, true_and]
  · rename_i hfree
    simp only [hfree, List.not_mem_nil, Bool.false_eq_true, false_and]

theorem mem_destroyHashes : a ∈ destroyHashes h ↔
    (∃ p, h.hashOut.Holds p ∧ a ∈ h.freeDcbOut p) ∨ h.hashIn.Holds a ∨ h.hashPen.Holds a ∨
      h.hashReconfig.Holds a ∨ h.hashPenTag.Holds a := by
  simp only [destroyHashes, List.mem_append, List.mem_flatMap, BucketTable.mem_nodes, or_assoc]

namespace Ledger

/-- What is freed with an output block belongs to that block. -/
theorem role_freeDcbOut (hp : Ledger E h ρ) (hrole : ρ p = some .out) (ha : a ∈ h.freeDcbOut p) :
    ρ a = some (.other p) ∧ (h.outMem p).otherPath = some a ∨ ρ a = some (.chain p) ∨
      ρ a = some .out ∧ a = p := by
  rcases mem_freeDcbOut.mp ha with hpath | ⟨hfree, hsc⟩ | rfl
  · exact Or.inl ⟨hp.other p a hrole hpath, hpath⟩
  · obtain ⟨s, hs, hchain⟩ := hp.owns p (Or.inl hrole) hfree
    obtain rfl : a = s := Option.some.inj (hsc.symm.trans hs)
    exact Or.inr (Or.inl hchain)
  · exact Or.inr (Or.inr ⟨hrole, rfl⟩)

theorem nodup_freeDcbOut (hp : Ledger E h ρ) (hrole : ρ p = some .out) :
    (h.freeDcbOut p).Nodup := by
  have hpath : ∀ n, (h.outMem p).otherPath = some n → ρ n = some (.other p) :=
    fun n => hp.other p n hrole
  have hsc : (h.outMem p).freeSc = true → ∃ s, (h.outMem p).sc = some s ∧ ρ s = some (.chain p) :=
    hp.owns p (Or.inl hrole)
  rw [Host.freeDcbOut]
  cases ho : (h.outMem p).otherPath with
  | none =>
    split
    · rename_i hfree
      obtain ⟨s, hs, hchain⟩ := hsc hfree
      rw [hs]
      simp only [Option.toList_none, Option.toList_some]
      grind
    · simp only [Option.toList_none]
      grind
  | some n =>
    have hother := hpath n ho
    split
    · rename_i hfree
      obtain ⟨s, hs, hchain⟩ := hsc hfree
      rw [hs]
      simp only [Option.toList_some]
      grind
    · simp only [Option.toList_some]
      grind

/-- What two output blocks are freed with is not the same. -/
theorem nodup_hashOut (hp : Ledger E h ρ) : (h.hashOut.nodes.flatMap h.freeDcbOut).Nodup := by
  have hrole : ∀ p ∈ h.hashOut.nodes, ρ p = some .out :=
    fun p hm => (hp.out p).mp (BucketTable.mem_nodes.mp hm)
  refine List.nodup_flatMap.mpr ⟨fun p hm => hp.nodup_freeDcbOut (hrole p hm), ?_⟩
  refine hp.out_nodup.imp_of_mem fun {p p'} hm hm' hne => ?_
  intro a ha ha'
  have hleft := hp.role_freeDcbOut (hrole p hm) ha
  have hright := hp.role_freeDcbOut (hrole p' hm') ha'
  grind

/-- What the walk over the output table frees. -/
theorem role_hashOut (hp : Ledger E h ρ) (ha : a ∈ h.hashOut.nodes.flatMap h.freeDcbOut) :
    (∃ p, ρ a = some (.other p) ∧ (h.outMem p).otherPath = some a) ∨ (∃ p, ρ a = some (.chain p)) ∨
      ρ a = some .out := by
  obtain ⟨p, hm, ha⟩ := List.mem_flatMap.mp ha
  have hrole := (hp.out p).mp (BucketTable.mem_nodes.mp hm)
  rcases hp.role_freeDcbOut hrole ha with hother | hchain | hout
  · exact Or.inl ⟨p, hother⟩
  · exact Or.inr (Or.inl ⟨p, hchain⟩)
  · exact Or.inr (Or.inr hout.1)

/-- What the walk over all tables frees. -/
theorem role_destroyHashes (hp : Ledger E h ρ) (ha : a ∈ destroyHashes h) :
    (∃ p, ρ a = some (.other p) ∧ (h.outMem p).otherPath = some a) ∨ (∃ p, ρ a = some (.chain p)) ∨
      ρ a = some .out ∨ ρ a = some .inp ∨ ρ a = some .pen ∨ ρ a = some .rcb := by
  have hin := hp.inp a
  have hpen := hp.pen a
  have htag := hp.tag a
  have hrcb := hp.rcb a
  simp only [destroyHashes, List.mem_append, BucketTable.mem_nodes] at ha
  rcases ha with (((hout | hin) | hpen) | hrcb) | htag
  · have hrole := hp.role_hashOut hout
    grind
  all_goals grind

/-- A walk that meets no pending block frees nothing twice. -/
theorem nodup_destroyHashes (hp : Ledger E h ρ) (hpen : ∀ p, ¬ h.hashPen.Holds p) :
    (destroyHashes h).Nodup := by
  have hnone : ∀ a, ρ a ≠ some .pen := fun a ha => hpen a ((hp.pen a).mpr ha)
  have hpens : h.hashPen.nodes = [] := List.eq_nil_iff_forall_not_mem.mpr fun a ha =>
    hpen a (BucketTable.mem_nodes.mp ha)
  have htags : h.hashPenTag.nodes = [] := List.eq_nil_iff_forall_not_mem.mpr fun a ha =>
    hnone a ((hp.tag a).mp (BucketTable.mem_nodes.mp ha))
  rw [destroyHashes, hpens, htags, List.append_nil, List.append_nil]
  refine (hp.nodup_hashOut.append hp.inp_nodup ?_).append hp.rcb_nodup ?_
  · intro a ha ha'
    have hrole := hp.role_hashOut ha
    have hin := (hp.inp a).mp (BucketTable.mem_nodes.mp ha')
    grind
  · intro a ha ha'
    have hrcb := (hp.rcb a).mp (BucketTable.mem_nodes.mp ha')
    rcases List.mem_append.mp ha with ha | ha
    · have hrole := hp.role_hashOut ha
      grind
    · have hin := (hp.inp a).mp (BucketTable.mem_nodes.mp ha)
      grind

end Ledger

/-! ## At rest -/

/-- Nothing is being made. -/
def Host.Settled (E : Env) (h : Host) : Prop := ∃ ρ, Ledger E h ρ ∧ ∀ a, ¬ Making ρ a

namespace Host.Settled

/-- In a quiet host the walk frees all there is. -/
theorem released (hs : h.Settled E) (hq : h.Quiet) : Released h := by
  obtain ⟨ρ, hp, hmade⟩ := hs
  have hnopen : ∀ a, ρ a ≠ some .pen := fun a ha => hq.pen a ((hp.pen a).mpr ha)
  refine ⟨hp.nodup_destroyHashes hq.pen, fun a ha => ?_, fun pol hpol ha => ?_⟩
  · obtain ⟨hlt, hoom, hnot, hpol⟩ := ha
    obtain ⟨o, ho⟩ := Option.ne_none_iff_exists'.mp ((hp.live a hlt).mpr ⟨hoom, hnot⟩)
    rw [mem_destroyHashes]
    cases o with
    | out => exact Or.inl ⟨a, (hp.out a).mpr ho, mem_freeDcbOut.mpr (Or.inr (Or.inr rfl))⟩
    | pen => exact absurd ho (hnopen a)
    | bare => exact absurd (Or.inr ho) (hmade a)
    | raw => exact absurd (Or.inl ho) (hmade a)
    | inp => exact Or.inr (Or.inl ((hp.inp a).mpr ho))
    | rcb => exact Or.inr (Or.inr (Or.inr (Or.inl ((hp.rcb a).mpr ho))))
    | policy =>
      obtain ⟨pol, hm, hsc⟩ := (hp.policy a).mp ho
      exact absurd hsc (hpol pol hm)
    | other old =>
      obtain ⟨hold, hpath | ⟨hnone, r, hr, holdDcb, hnewDcb⟩⟩ := hp.named a old ho
      · exact Or.inl ⟨old, (hp.out old).mpr hold, mem_freeDcbOut.mpr (Or.inl hpath)⟩
      · exact absurd hnone (hq.paths r old a ((hp.rcb r).mpr hr) holdDcb hnewDcb)
    | chain p =>
      obtain ⟨hout | hpen | hbare, hfree, hsc⟩ := hp.chain a p ho
      · exact Or.inl ⟨p, (hp.out p).mpr hout, mem_freeDcbOut.mpr (Or.inr (Or.inl ⟨hfree, hsc⟩))⟩
      · exact absurd hpen (hnopen p)
      · exact absurd (Or.inr hbare) (hmade p)
  · have hrole := (hp.policy pol.sc).mpr ⟨pol, hpol, rfl⟩
    have hfreed := hp.role_destroyHashes ha
    grind

/-- A walk that frees all there is, and nothing twice, was over a quiet host. -/
theorem quiet (hs : h.Settled E) (hr : Released h) : h.Quiet := by
  obtain ⟨ρ, hp, -⟩ := hs
  refine ⟨fun p hpen => ?_, fun r old new hm holdDcb hnewDcb hnone => ?_⟩
  · -- a pending block is in both tables
    have htag := (hp.tag p).mpr ((hp.pen p).mp hpen)
    have honce := hr.once
    rw [destroyHashes] at honce
    exact (List.nodup_append.mp honce).2.2 p
      (List.mem_append_left _ (List.mem_append_right _ (BucketTable.mem_nodes.mpr hpen))) p
      (BucketTable.mem_nodes.mpr htag) rfl
  · obtain ⟨old', holdDcb', hother⟩ := hp.rcb_new r new ((hp.rcb r).mp hm) hnewDcb
    obtain rfl : old = old' := Option.some.inj (holdDcb.symm.trans holdDcb')
    have hlt := hp.lt new (by rw [hother]; exact nofun)
    have hlive := (hp.live new hlt).mp (by rw [hother]; exact nofun)
    have hfreed := hp.role_destroyHashes (hr.all new ⟨hlt, hlive.1, hlive.2, fun pol hpol heq => by
      have hrole := (hp.policy new).mpr ⟨pol, hpol, heq⟩
      grind⟩)
    grind

end Host.Settled

/-! ## Runs -/

/-- The module has been loaded and has handed out nothing; no pointer that the memory of a future
reconfiguration block may hold counts as one. -/
structure Host.JustLoaded (h : Host) : Prop extends h.Loaded where
  brk : h.brk = 0
  freed : h.freed = []
  policies : h.policies = []
  heads : ∀ t b, h.links.head t b = none
  blank : ∀ r, (h.rcbMem r).oldDcb = none ∧ (h.rcbMem r).newDcb = none

theorem Host.JustLoaded.fresh : Host.fresh.JustLoaded :=
  { Host.Loaded.fresh with
    brk := rfl, freed := rfl, policies := rfl, heads := fun _ _ => rfl
    blank := fun _ => ⟨rfl, rfl⟩ }

theorem Host.JustLoaded.settled (hl : h.JustLoaded) (E : Env) : h.Settled E := by
  refine ⟨fun _ => none, ?_, fun a => not_making_none rfl⟩
  have hholds : ∀ (t : BucketTable Nat) a, t.entries = [] → ¬ t.Holds a := by
    rintro t a ht ⟨b, hb⟩
    rw [ht] at hb
    cases hb
  have hnodes : ∀ t : BucketTable Nat, t.entries = [] → t.nodes.Nodup := fun t ht => by
    rw [BucketTable.nodes, ht]
    exact List.nodup_nil
  exact
    { lt := fun a ha => absurd rfl ha
      live := fun a ha => by
        rw [hl.brk] at ha
        exact absurd ha (Nat.not_lt_zero a)
      freed_lt := fun a ha => by
        rw [hl.freed] at ha
        cases ha
      out := fun p => iff_of_false (hholds _ p hl.out) (by rintro ⟨⟩)
      inp := fun q => iff_of_false (hholds _ q hl.inp) (by rintro ⟨⟩)
      pen := fun p => iff_of_false (hholds _ p hl.pen) (by rintro ⟨⟩)
      tag := fun p => iff_of_false (hholds _ p hl.tag) (by rintro ⟨⟩)
      rcb := fun r => iff_of_false (hholds _ r hl.reconfig) (by rintro ⟨⟩)
      out_nodup := hnodes _ hl.out
      inp_nodup := hnodes _ hl.inp
      pen_nodup := hnodes _ hl.pen
      tag_nodup := hnodes _ hl.tag
      rcb_nodup := hnodes _ hl.reconfig
      pen_key := fun e he => by
        rw [hl.pen] at he
        cases he
      tag_key := fun e he => by
        rw [hl.tag] at he
        cases he
      tag_zero := fun e he => by
        rw [hl.tag] at he
        cases he
      threaded := .empty hl.out hl.pen hl.tag hl.heads
      chain := by rintro _ _ ⟨⟩
      owns := fun p ho => by
        rcases ho with ho | ho | ho <;> cases ho
      other := by rintro _ _ ⟨⟩
      pen_other := by rintro _ ⟨⟩
      named := by rintro _ _ ⟨⟩
      one := by rintro _ _ _ ⟨⟩
      rcb_new := by rintro _ _ ⟨⟩
      blank := fun r _ => hl.blank r
      policy := fun s => iff_of_false (by rintro ⟨⟩) (by
        rintro ⟨pol, hpol, -⟩
        rw [hl.policies] at hpol
        cases hpol) }

/-- An event that does not make the module lose track of a block. -/
def Clean (E : Env) (h : Host) : HostEvent → Prop
  | .leaves A (.frame f) => SameBucket (A.hashed E) h f.skb
  | .enters A (.frame f) => OneBucket (A.hashed E) h f.skb
  | .leaves A (.datagram hProto pkt) =>
    ntohs hProto = ethPIp → pkt.SynLeaves A → LeftMade (A.hashed E) h pkt
  | .enters A (.datagram hProto pkt) =>
    ntohs hProto = ethPIp → pkt.SynEnters → SynMade (A.hashed E) h pkt
  | _ => True

theorem hostStep_settled (hs : h.Settled E) (ev : HostEvent) (hc : Clean E h ev) :
    (hostStep E h ev).Settled E := by
  obtain ⟨ρ, hp, hmade⟩ := hs
  -- the tables keep their hash functions, whatever the kernel answers
  have hthere : ∀ A : Env, Ledger (A.hashed E) h ρ := fun A => { hp with }
  have hback : ∀ (A : Env) (g : Host) ρ', Ledger (A.hashed E) g ρ' → Finished ρ ρ' → g.Settled E :=
    fun A g ρ' hg hfin =>
    ⟨ρ', { hg with }, fun a ha => hmade a (hfin a ha)⟩
  cases ev with
  | leaves A pkt =>
    cases pkt with
    | frame f =>
      obtain ⟨ρ', hg, hfin⟩ := output_ledger (hthere A) hc
      exact hback A _ ρ' hg hfin
    | datagram hProto pkt =>
      rw [hostStep, dyscoOutput]
      split
      · exact ⟨ρ, hp, hmade⟩
      · rename_i hip
        obtain ⟨ρ', hg, hfin⟩ := controlOutput_ledger (hthere A) (hc (not_not.mp hip))
        exact hback A _ ρ' hg hfin
  | enters A pkt =>
    cases pkt with
    | frame f =>
      obtain ⟨ρ', hg, hfin⟩ := input_ledger (hthere A) hc
      exact hback A _ ρ' hg hfin
    | datagram hProto pkt =>
      rw [hostStep, dyscoInput]
      split
      · exact ⟨ρ, hp, hmade⟩
      · rename_i hip
        obtain ⟨ρ', hg, hfin⟩ := controlInput_ledger (hthere A) (hc (not_not.mp hip))
        exact hback A _ ρ' hg hfin
  | addPolicy filter sc made =>
    obtain ⟨ρ', hg, hfin⟩ := addPolicy_ledger hp filter sc made
    exact ⟨ρ', hg, fun a ha => hmade a (hfin a ha)⟩
  | delPolicies =>
    refine ⟨Ledger.unpoliced ρ, hp.delPolicies, fun a ha => hmade a ?_⟩
    grind [Making, Ledger.unpoliced]
  | socket k tp => exact ⟨ρ, { hp with }, hmade⟩

/-- In a settled host the links agree with the tables. -/
theorem Host.Settled.agrees (hs : h.Settled E) : h.Agrees E := by
  obtain ⟨ρ, hp, -⟩ := hs
  refine hp.threaded.agrees hp.out_nodup hp.pen_nodup fun p hheld => hp.lt p ?_
  rcases hheld with hout | hpen
  · rw [(hp.out p).mp hout]
    exact nofun
  · rw [(hp.pen p).mp hpen]
    exact nofun

/-- **In every run that loses track of no block** the walk over the tables frees each block once,
and the chains of the policies not at all, in those states where no SYN is pending and no
reconfigured block still lacks its other path.  In every state of such a run the tables are what
their heads lead to. -/
theorem released_iff_ran (E : Env) (h : Host) (hl : h.JustLoaded) (evs : List HostEvent)
    (hc : AtEvery (hostStep E) (Clean E) h evs) :
    (ran (hostStep E) h evs).Agrees E ∧
      (Released (ran (hostStep E) h evs) ↔ (ran (hostStep E) h evs).Quiet) := by
  have hs := AtEvery.invariant (I := fun g => g.Settled E) hc (hl.settled E)
    (fun g ev hg hev => hostStep_settled hg ev hev) List.prefix_rfl
  exact ⟨hs.agrees, hs.quiet, hs.released⟩

theorem chainedSyn_protocol : (chainedSyn 0#32).protocol ≠ ipprotoUdp := by decide
theorem enteredSyn_protocol : (enteredSyn 0#32).protocol ≠ ipprotoUdp := by decide +kernel

/-- The SYN of a session enters a middlebox and leaves it again, and the host becomes the left
anchor. -/
def passedRun : List HostEvent :=
  [.enters default (.frame ⟨chainedSyn 0#32, chainedSyn_protocol⟩),
    .leaves default (.frame ⟨enteredSyn 0#32, enteredSyn_protocol⟩),
    .leaves { (default : Env) with ifaddrs := [0#32] } (.datagram (htons ethPIp) anchoringSyn)]

/-- The host before the reconfiguration. -/
def passedHost : Host := ran (hostStep default) Host.fresh (passedRun.take 2)

theorem idle_passedHost : passedHost.lookupOut default anchoringSyn.msg.leftSS = some 1 ∧
    passedHost.Idle 1 := by
  have hempty : passedHost.hashReconfig.entries = [] := by decide +kernel
  refine ⟨by decide +kernel, by decide +kernel, ?_⟩
  rintro r ⟨b, hb⟩
  rw [hempty] at hb
  cases hb

theorem clean_passedRun : AtEvery (hostStep default) (Clean default) Host.fresh passedRun := by
  refine .cons (fun _ _ _ _ p hp => ?_)
    (.cons (fun _ hpen => ?_) (.cons (fun _ _ _ _ old hfound _ _ => ?_) .nil))
  · obtain ⟨b, hb⟩ := hp
    cases hb
  · revert hpen
    decide +kernel
  · obtain ⟨hone, hidle⟩ := idle_passedHost
    obtain rfl : 1 = old := Option.some.inj (hone.symm.trans hfound)
    exact hidle

/-- All eight pieces of memory of that run are freed. -/
theorem released_iff_passedRun : ((ran (hostStep default) Host.fresh passedRun).Agrees default ∧
      (Released (ran (hostStep default) Host.fresh passedRun) ↔
        (ran (hostStep default) Host.fresh passedRun).Quiet)) ∧
    destroyHashes (ran (hostStep default) Host.fresh passedRun) = [3, 2, 6, 1, 7, 4, 0, 5] :=
  ⟨released_iff_ran default Host.fresh .fresh passedRun clean_passedRun, by decide +kernel⟩

/-- With a SYN in the middlebox its block is freed twice, and its chain is not freed. -/
theorem not_released : ¬ ∀ (E : Env) (h : Host), h.JustLoaded → ∀ evs : List HostEvent,
    Released (ran (hostStep E) h evs) := by
  intro hall
  have honce := (hall default Host.fresh .fresh
    [.enters default (.frame ⟨chainedSyn 0#32, by decide⟩)]).once
  revert honce
  decide +kernel

end Dysco
