import Dysco.Retransmission

/-! # A `DYSCO_SYN` that fails

Memory may run out at each block that a `DYSCO_SYN` makes, and an anchor may not find its
session.  Where the message arrives, the input path takes back what it has put into the
tables, and a failure leaves no trace: the message sent again is handled as on a host that
differs only in what the allocator returns next.  Where the message leaves, the
reconfiguration block is put into its table first and stays there; so only a failure up to
the allocation of that block leaves no trace (`leavesNoTrace_iff`).
-/
namespace Dysco
open BucketTable

variable {E : Env} {g g' h h' : Host} {pkt : ControlPacket}

/-! ## Hosts with the same blocks -/

/-- The tables are the same, and so is every block that was there before. -/
structure NoTrace (h h' : Host) : Prop where
  hashOut : h'.hashOut = h.hashOut
  hashIn : h'.hashIn = h.hashIn
  hashPen : h'.hashPen = h.hashPen
  hashPenTag : h'.hashPenTag = h.hashPenTag
  hashReconfig : h'.hashReconfig = h.hashReconfig
  outMem : ∀ x < h.brk, h'.outMem x = h.outMem x
  inMem : ∀ x < h.brk, h'.inMem x = h.inMem x
  rcbMem : ∀ x < h.brk, h'.rcbMem x = h.rcbMem x
  scMem : h'.scMem = h.scMem

/-- The hosts differ only in the allocator: where the next block lies, what is there, and
whether it can be had. -/
structure SameLive (h h' : Host) : Prop extends NoTrace h h' where
  brk_le : h.brk ≤ h'.brk
  sockMem : h'.sockMem = h.sockMem
  dyscoTag : h'.dyscoTag = h.dyscoTag
  allocPorts : h'.allocPorts = h.allocPorts
  policies : h'.policies = h.policies

namespace SameLive

theorem refl (h : Host) : SameLive h h :=
  ⟨⟨rfl, rfl, rfl, rfl, rfl, fun _ _ => rfl, fun _ _ => rfl, fun _ _ => rfl, rfl⟩,
    Nat.le_refl _, rfl, rfl, rfl, rfl⟩

/-- A failed allocation leaves nothing but a number that is used up. -/
theorem bump (s : SameLive h g) : SameLive h g.bump :=
  { s with brk_le := Nat.le_succ_of_le s.brk_le }

theorem kfree (s : SameLive h g) (p : Nat) : SameLive h (g.kfree p) := { s with }

/-- A write to a block that was not there before. -/
theorem setOut (s : SameLive h g) {p : Nat} (hp : h.brk ≤ p) (d : CbOut) :
    SameLive h (g.setOut p d) :=
  { s with
    outMem := fun x hx => by
      rw [Host.setOut_outMem_of_ne g (Nat.ne_of_lt (Nat.lt_of_lt_of_le hx hp))]
      exact s.outMem x hx }

/-- What is written to memory that was not in use does not count. -/
theorem setIn (s : SameLive h g) {q : Nat} (hq : h.brk ≤ q) (d : CbIn) :
    SameLive h (g.setIn q d) :=
  { s with
    inMem := fun x hx => by
      rw [Host.setIn_inMem_of_ne g (Nat.ne_of_lt (Nat.lt_of_lt_of_le hx hq))]
      exact s.inMem x hx }

theorem setRcb (s : SameLive h g) {r : Nat} (hr : h.brk ≤ r) (d : CbReconfig) :
    SameLive h (g.setRcb r d) :=
  { s with
    rcbMem := fun x hx => by
      rw [Host.setRcb_rcbMem_of_ne g (Nat.ne_of_lt (Nat.lt_of_lt_of_le hx hr))]
      exact s.rcbMem x hx }

/-- A search finds the same, as the tables hold only blocks that were there before. -/
theorem lookupReconfig (s : SameLive h g) (hwf : h.WF) (ss : TcpSession) :
    g.lookupReconfig E ss = h.lookupReconfig E ss := by
  rw [Host.lookupReconfig, Host.lookupReconfig, s.hashReconfig]
  exact lookup_congr fun x hx => by rw [s.rcbMem x (hwf.reconfig_lt x hx)]

end SameLive

/-- What is taken out of the table of reconfiguration blocks as soon as it was put in leaves
it as it was. -/
theorem removeReconfig_insertReconfig (h : Host) (r : Nat) :
    (h.insertReconfig E r).removeReconfig E r = h := by
  rw [Host.removeReconfig, Host.insertReconfig, BucketTable.remove, BucketTable.insert]
  simp only [List.erase_cons_head]

/-! ## Whether memory could be had -/

/-- What an allocation answers, and that it takes the next address. -/
theorem oom_of_kmalloc {o : Option Nat} (hk : g.kmalloc = (o, g')) :
    g' = g.bump ∧ o = if g.oom g.brk then none else some g.brk := by
  rw [Host.kmalloc] at hk
  split at hk
  · rename_i hoom
    cases hk
    exact ⟨rfl, (if_pos hoom).symm⟩
  · rename_i hoom
    cases hk
    exact ⟨rfl, (if_neg hoom).symm⟩

theorem oom_of_kzallocOut {o : Option Nat} (hk : g.kzallocOut = (o, g')) :
    o = (if g.oom g.brk then none else some g.brk) ∧ g'.brk = g.brk + 1 ∧ g'.oom = g.oom ∧
      (o = none → g' = g.bump) := by
  rw [Host.kzallocOut] at hk
  split at hk
  · rename_i hoom
    cases hk
    exact ⟨(if_pos hoom).symm, rfl, rfl, fun _ => rfl⟩
  · rename_i hoom
    cases hk
    exact ⟨(if_neg hoom).symm, rfl, rfl, fun h => nomatch h⟩

/-! ## A message that fails on its way in -/

/-- `dysco_control_config_rightA` has one allocation: when it fails, the input block is freed and
the reconfiguration is taken out of its table. -/
theorem controlConfigRightA_failed {m : ControlMessage} {r q p : Nat}
    (hf : controlConfigRightA E g r m q p = (false, g')) : g' = (g.kfree q).removeReconfig E r := by
  rw [controlConfigRightA] at hf
  split at hf
  · exact (Prod.mk.inj hf).2.symm
  · simp only at hf
    split at hf <;> exact absurd (congrArg Prod.fst hf) Bool.noConfusion

/-- The input path takes block `r` back. -/
theorem controlReconfigIn_failed {r : Nat} (s : SameLive h (g.removeReconfig E r))
    (hf : controlReconfigIn E g pkt r = (false, g')) : SameLive h g' := by
  have hle : h.brk ≤ g.brk := s.brk_le
  rw [controlReconfigIn] at hf
  split at hf
  · rename_i g1 hk
    obtain ⟨rfl, -⟩ := oom_of_kmalloc hk
    rw [← (Prod.mk.inj hf).2]
    exact s.bump
  rename_i q g1 hq
  obtain ⟨rfl, rfl⟩ := Host.kmalloc_some hq
  simp only at hf
  generalize hd : (g.bump.rcbMem r).newPathIn (g.bump.inMem g.brk) pkt.skbIif = d at hf
  have s1 : SameLive h ((g.bump.setIn g.brk d).removeReconfig E r) := s.bump.setIn hle d
  split at hf
  · rename_i g2 hp
    rw [buildCbInReverse] at hp
    split at hp
    · rename_i g3 hk
      obtain ⟨-, -, -, heq⟩ := oom_of_kzallocOut hk
      cases hp
      rw [← (Prod.mk.inj hf).2, heq rfl]
      exact s1.bump.kfree g.brk
    · cases hp
  · rename_i p g2 hp
    obtain ⟨rfl, rfl⟩ := buildCbInReverse_some hp
    split at hf
    · split at hf
      · rename_i g3 hcfg
        rw [controlConfigRightA_failed hcfg] at hf
        rw [← (Prod.mk.inj hf).2]
        have hp' : h.brk ≤ (g.bump.setIn g.brk d).brk := Nat.le_succ_of_le hle
        exact ((((s1.bump.setOut hp' _).setOut hp' _).setOut hp' _).setIn hle _).kfree g.brk
      · exact absurd (congrArg Prod.fst hf) Bool.noConfusion
    · exact absurd (congrArg Prod.fst hf) Bool.noConfusion

/-- **A `DYSCO_SYN` that comes in and fails** leaves the live part of the host as it was. -/
theorem synIn_failed (hf : synIn E h pkt = (false, g')) : SameLive h g' := by
  rw [synIn] at hf
  split at hf
  · exact absurd (congrArg Prod.fst hf) Bool.noConfusion
  split at hf
  · rename_i h1 hr
    rw [insertRcbControlInput] at hr
    split at hr
    · rename_i h2 hk
      obtain ⟨rfl, -⟩ := oom_of_kmalloc hk
      cases hr
      cases hf
      exact (SameLive.refl h).bump
    · cases hr
  · rename_i r h1 hr
    obtain ⟨rfl, rfl⟩ := insertRcbControlInput_some hr
    refine controlReconfigIn_failed ?_ hf
    rw [removeReconfig_insertReconfig]
    exact (SameLive.refl h).bump.setRcb (Nat.le_refl _) _

theorem oom_of_buildCbInReverse {rcb : CbReconfig} {p : Nat}
    (hp : buildCbInReverse g pkt rcb = (some p, g')) : g.oom g.brk = false := by
  rw [buildCbInReverse] at hp
  split at hp
  · cases hp
  · rename_i x g1 hk
    obtain ⟨ho, -, -, -⟩ := oom_of_kzallocOut hk
    split at ho
    · cases ho
    · rename_i hoom
      exact Bool.eq_false_iff.mpr hoom

theorem oom_of_kmalloc_some {p : Nat} (hk : g.kmalloc = (some p, g')) : g.oom g.brk = false := by
  obtain ⟨-, ho⟩ := oom_of_kmalloc hk
  split at ho
  · cases ho
  · rename_i hoom
    exact Bool.eq_false_iff.mpr hoom

/-- A message that makes its blocks on its way in has had memory for all three, and the right
anchor has found its session. -/
theorem synIn_handled (hwf : h.WF) (hnone : h.lookupReconfig E pkt.msg.super = none)
    (hok : synIn E h pkt = (true, g')) :
    g'.brk = h.brk + 3 ∧ h.oom h.brk = false ∧ h.oom (h.brk + 1) = false ∧
      h.oom (h.brk + 2) = false ∧
      (pkt.daddr = pkt.msg.rightA → h.lookupOut E pkt.msg.rightSS.reverse ≠ none) := by
  have hright : pkt.daddr = pkt.msg.rightA →
      h.lookupOut E pkt.msg.rightSS.reverse ≠ none ∧ g'.brk = h.brk + 3 := by
    intro hr
    obtain ⟨old, r, q, p, C⟩ := synIn_rightA hwf hnone hr hok
    refine ⟨?_, C.brk⟩
    rw [C.old_lookup]
    exact Option.some_ne_none old
  rw [synIn, hnone] at hok
  simp only at hok
  split at hok
  · cases hok
  rename_i r h1 hr
  have hoom : h.oom h.brk = false := by
    rw [insertRcbControlInput] at hr
    split at hr
    · cases hr
    · rename_i x h2 hk
      exact oom_of_kmalloc_some hk
  obtain ⟨rfl, rfl⟩ := insertRcbControlInput_some hr
  rw [controlReconfigIn] at hok
  split at hok
  · cases hok
  rename_i q h2 hq
  have hoom1 := oom_of_kmalloc_some hq
  obtain ⟨rfl, rfl⟩ := Host.kmalloc_some hq
  simp only at hok
  split at hok
  · cases hok
  rename_i p h3 hp
  have hoom2 := oom_of_buildCbInReverse hp
  obtain ⟨rfl, rfl⟩ := buildCbInReverse_some hp
  refine ⟨?_, hoom, hoom1, hoom2, fun hr => (hright hr).1⟩
  split at hok
  · rename_i hr
    exact (hright hr).2
  · rw [← (Prod.mk.inj hok).2]
    rfl

/-! ## A message that leaves -/

/-- Starting at the left anchor does not touch the table of reconfigurations. -/
theorem startLeftA_hashReconfig (g : Host) (pkt : ControlPacket) (r old : Nat) :
    (startLeftA E g pkt r old).2.hashReconfig = g.hashReconfig := by
  rw [startLeftA]
  split
  · rename_i g1 hk
    obtain ⟨-, -, -, heq⟩ := oom_of_kzallocOut hk
    rw [heq rfl]
    rfl
  · rename_i p g1 hk
    obtain ⟨rfl, rfl⟩ := Host.kzallocOut_some hk
    simp only
    generalize hg2 : ((g.bump.setOut g.brk default).setRcb r _).setOut g.brk _ = g2
    have htab : g2.hashReconfig = g.hashReconfig := by rw [← hg2]; rfl
    cases hrev : insertCbOutReverse E g2 g.brk true with
    | mk q g3 =>
      have R := insertCbOutReverse_made hrev
      have hmark := (markOld_same (g3.setOut g.brk ((g3.outMem g.brk).withDcbIn q)) pkt.msg old
        g.brk).2.2.2.2
      rw [← htab, ← R.hashReconfig]
      exact hmark

/-! ## Failures -/

/-- The two calls that handle a `DYSCO_SYN`. -/
inductive Way where
  /-- `dysco_control_input`. -/
  | arriving
  /-- `dysco_control_output_syn`. -/
  | leaving
deriving DecidableEq, Repr

/-- The host, the message and whether it is handled. -/
def handleSyn (E : Env) (w : Way) (h : Host) (pkt : ControlPacket) :
    Host × ControlPacket × Bool :=
  match w with
  | .arriving => controlInput E h pkt
  | .leaving => ((controlOutputSyn E h pkt).2.1, (controlOutputSyn E h pkt).2.2,
      (controlOutputSyn E h pkt).1)

/-- The packet is a `DYSCO_SYN` that the module looks at. -/
structure ControlPacket.IsSyn (pkt : ControlPacket) : Prop where
  port : pkt.dest = dyscoControlPort ∨ pkt.source = dyscoControlPort
  long : controlMinLen ≤ (ntohs pkt.udpLen).toNat
  mtype : pkt.msg.mtype = .syn

/-- The session of an anchor is not found.  Elsewhere, and where the message is known already, no
session is looked for. -/
def LookupFails (E : Env) (w : Way) (h : Host) (pkt : ControlPacket) : Prop :=
  h.lookupReconfig E pkt.msg.super = none ∧
    match w with
    | .arriving => pkt.daddr = pkt.msg.rightA ∧ h.lookupOut E pkt.msg.rightSS.reverse = none
    | .leaving => pkt.saddr = pkt.msg.leftA ∧ h.lookupOut E pkt.msg.leftSS = none

/-- An allocation that the call attempts fails, or a lookup does. -/
def Fails (E : Env) (w : Way) (h : Host) (pkt : ControlPacket) : Prop :=
  (∃ a, h.brk ≤ a ∧ a < (handleSyn E w h pkt).1.brk ∧ h.oom a = true) ∨ LookupFails E w h pkt

/-- The ends of a run in which memory can be had, from a host with the blocks of `h`: the
allocator is free to return any new block with any content. -/
def Undisturbed (E : Env) (w : Way) (h : Host) (pkt : ControlPacket)
    (ends : Host × ControlPacket × Bool) : Prop :=
  ∃ g, SameLive h g ∧ (∀ a, g.oom a = false) ∧ ends = handleSyn E w g pkt

/-- The call leaves the tables and all blocks as they were; the message sent again is again a
first one, and if memory can be had then, it ends as if the failure had not been. -/
structure LeavesNoTrace (E : Env) (w : Way) (h : Host) (pkt : ControlPacket) : Prop where
  same : NoTrace h (handleSyn E w h pkt).1
  first : (handleSyn E w h pkt).1.lookupReconfig E pkt.msg.super =
    h.lookupReconfig E pkt.msg.super
  again : Undisturbed E w h pkt
    (handleSyn E w { (handleSyn E w h pkt).1 with oom := fun _ => false } pkt)

theorem SameLive.leavesNoTrace {w : Way} (hwf : h.WF) (s : SameLive h (handleSyn E w h pkt).1) :
    LeavesNoTrace E w h pkt where
  same := s.toNoTrace
  first := s.lookupReconfig hwf _
  again := ⟨{ (handleSyn E w h pkt).1 with oom := fun _ => false }, { s with }, fun _ => rfl, rfl⟩

/-- A `DYSCO_SYN` that comes in goes to its handler. -/
theorem controlInput_syn (hsyn : pkt.IsSyn) (h : Host) :
    controlInput E h pkt = ((synIn E h pkt).2, pkt, (synIn E h pkt).1) := by
  rw [controlInput, if_neg (not_not_intro hsyn.port), if_neg (Nat.not_lt_of_ge hsyn.long),
    hsyn.mtype]

/-- So a failure on the way in is cleaned up, whichever allocation it is. -/
theorem arriving_leavesNoTrace (hwf : h.WF) (hsyn : pkt.IsSyn) (hf : Fails E .arriving h pkt) :
    LeavesNoTrace E .arriving h pkt := by
  have hcall : (handleSyn E .arriving h pkt).1 = (synIn E h pkt).2 := by
    rw [handleSyn, controlInput_syn hsyn]
  refine SameLive.leavesNoTrace hwf ?_
  rw [Fails, hcall] at hf
  rw [hcall]
  cases hs : synIn E h pkt with
  | mk ok g =>
    rw [hs] at hf
    cases ok with
    | false => exact synIn_failed hs
    | true =>
      cases hnone : h.lookupReconfig E pkt.msg.super with
      | some r =>
        have hsame : synIn E h pkt = (true, h) := by rw [synIn, hnone]
        rw [hsame] at hs
        cases hs
        exact SameLive.refl h
      | none =>
        -- nothing can have failed
        obtain ⟨hbrk, h0, h1, h2, hright⟩ := synIn_handled hwf hnone hs
        obtain ⟨a, hle, hlt, hoom⟩ | ⟨-, hr, hlook⟩ := hf
        · rw [hbrk] at hlt
          obtain rfl | rfl | rfl : a = h.brk ∨ a = h.brk + 1 ∨ a = h.brk + 2 := by omega
          · exact absurd (h0.symm.trans hoom) Bool.noConfusion
          · exact absurd (h1.symm.trans hoom) Bool.noConfusion
          · exact absurd (h2.symm.trans hoom) Bool.noConfusion
        · exact absurd hlook (hright hr)

/-- The allocation of the reconfiguration block on the way out. -/
theorem insertCbControl_cases {pkt1 : ControlPacket} {r : Option Nat}
    (hins : insertCbControl E h pkt = (r, g, pkt1)) :
    r = none ∧ h.oom h.brk = true ∧ g = h.bump ∨
      r ≠ none ∧ h.oom h.brk = false ∧
        g.hashReconfig = ⟨(E.sessionHash pkt.msg.leftSS, h.brk) :: h.hashReconfig.entries⟩ := by
  cases r with
  | none =>
    rw [insertCbControl] at hins
    split at hins
    · rename_i h1 hk
      obtain ⟨rfl, ho⟩ := oom_of_kmalloc hk
      cases hins
      refine Or.inl ⟨rfl, ?_, rfl⟩
      by_contra hoom
      rw [if_neg hoom] at ho
      cases ho
    · cases hins
  | some r =>
    obtain ⟨sport, dport, R⟩ := insertCbControl_some hins
    refine Or.inr ⟨Option.some_ne_none r, ?_, ?_⟩
    · rw [insertCbControl] at hins
      split at hins
      · cases hins
      · rename_i x h1 hk
        exact oom_of_kmalloc_some hk
    · rw [R.hashReconfig, R.r_eq]

/-- A block that stays in the table of reconfiguration blocks is a trace. -/
theorem not_noTrace {e : Nat × Nat} (htab : g.hashReconfig = ⟨e :: h.hashReconfig.entries⟩) :
    ¬ NoTrace h g := by
  intro hn
  have hlen := congrArg (fun t => t.entries.length) (htab.symm.trans hn.hashReconfig)
  simp only [List.length_cons] at hlen
  omega

/-- A `DYSCO_SYN` that leaves again, for a reconfiguration that is filed, does nothing. -/
theorem leaving_known (hleft : pkt.saddr = pkt.msg.leftA) {r : Nat}
    (hr : h.lookupReconfig E pkt.msg.super = some r) : (controlOutputSyn E h pkt).2.1 = h := by
  rw [controlOutputSyn]
  simp only [hleft, if_true, hr]

/-- At the left anchor a failure of the first allocation leaves no trace; after it the
reconfiguration is filed, and stays. -/
theorem leaving_left (hleft : pkt.saddr = pkt.msg.leftA)
    (hr : h.lookupReconfig E pkt.msg.super = none) {old : Nat}
    (hold : h.lookupOut E pkt.msg.leftSS = some old) :
    (h.oom h.brk = true ∧ (controlOutputSyn E h pkt).2.1 = h.bump) ∨
      h.oom h.brk = false ∧ ¬ NoTrace h (controlOutputSyn E h pkt).2.1 := by
  rw [controlOutputSyn]
  simp only [hleft, if_true, hr, hold]
  cases hins : insertCbControl E h (pkt.announce (h.outMem old) (h.inOf (h.outMem old))) with
  | mk r rest =>
    obtain ⟨g, pkt1⟩ := rest
    obtain ⟨rfl, hoom, rfl⟩ | ⟨hsome, hoom, htab⟩ := insertCbControl_cases hins
    · exact Or.inl ⟨hoom, rfl⟩
    · cases r with
      | none => exact absurd rfl hsome
      | some r =>
        exact Or.inr ⟨hoom, not_noTrace ((startLeftA_hashReconfig g pkt1 r old).trans htab)⟩

/-- It is the same at a host between the anchors. -/
theorem leaving_middle (hleft : pkt.saddr ≠ pkt.msg.leftA) :
    (controlOutputSyn E h pkt).2.1 = h ∨
      (h.oom h.brk = true ∧ (controlOutputSyn E h pkt).2.1 = h.bump) ∨
      h.oom h.brk = false ∧ ¬ NoTrace h (controlOutputSyn E h pkt).2.1 := by
  rw [controlOutputSyn]
  simp only [hleft, if_false]
  split
  · exact Or.inl rfl
  refine Or.inr ?_
  cases hins : insertCbControl E h pkt with
  | mk r rest =>
    obtain ⟨g, pkt1⟩ := rest
    obtain ⟨rfl, hoom, rfl⟩ | ⟨hsome, hoom, htab⟩ := insertCbControl_cases hins
    · exact Or.inl ⟨hoom, rfl⟩
    · cases r with
      | none => exact absurd rfl hsome
      | some r =>
        exact Or.inr ⟨hoom,
          not_noTrace ((sameReconfig_controlInsertOut g pkt1 r).hashReconfig.trans htab)⟩

/-- A call that leaves the host as it is has not failed to allocate. -/
theorem Fails.lookup {w : Way} (hf : Fails E w h pkt) (hsame : (handleSyn E w h pkt).1 = h) :
    LookupFails E w h pkt := by
  obtain ⟨a, hle, hlt, -⟩ | hlook := hf
  · rw [hsame] at hlt
    omega
  · exact hlook

/-- Where a message that leaves can fail, and what is left behind. -/
theorem leaving_cases (hf : Fails E .leaving h pkt) :
    ((controlOutputSyn E h pkt).2.1 = h ∧ LookupFails E .leaving h pkt) ∨
      (h.oom h.brk = true ∧ (controlOutputSyn E h pkt).2.1 = h.bump) ∨
      (h.oom h.brk = false ∧ ¬ NoTrace h (controlOutputSyn E h pkt).2.1 ∧
        ¬ (pkt.saddr = pkt.msg.leftA ∧ h.lookupOut E pkt.msg.leftSS = none)) := by
  by_cases hleft : pkt.saddr = pkt.msg.leftA
  · cases hr : h.lookupReconfig E pkt.msg.super with
    | some r =>
      have hsame := leaving_known hleft hr
      exact Or.inl ⟨hsame, hf.lookup hsame⟩
    | none =>
      cases hold : h.lookupOut E pkt.msg.leftSS with
      | none =>
        refine Or.inl ⟨?_, hr, hleft, hold⟩
        rw [controlOutputSyn]
        simp only [hleft, if_true, hr, hold]
      | some old =>
        obtain hbump | ⟨hoom, htrace⟩ := leaving_left hleft hr hold
        · exact Or.inr (Or.inl hbump)
        · exact Or.inr (Or.inr ⟨hoom, htrace, fun hc => nomatch hc.2⟩)
  · obtain hsame | hbump | ⟨hoom, htrace⟩ := leaving_middle (E := E) (h := h) hleft
    · exact Or.inl ⟨hsame, hf.lookup hsame⟩
    · exact Or.inr (Or.inl hbump)
    · exact Or.inr (Or.inr ⟨hoom, htrace, fun hc => hleft hc.1⟩)

/-- **A failing `DYSCO_SYN` leaves no trace exactly when** it fails on its way in, or on its way
out where the left session is not found or the reconfiguration block, the first that is made,
cannot be had. -/
theorem leavesNoTrace_iff {w : Way} (hwf : h.WF) (hsyn : pkt.IsSyn) (hf : Fails E w h pkt) :
    LeavesNoTrace E w h pkt ↔ w = .arriving ∨
      pkt.saddr = pkt.msg.leftA ∧ h.lookupOut E pkt.msg.leftSS = none ∨ h.oom h.brk = true := by
  cases w with
  | arriving => exact iff_of_true (arriving_leavesNoTrace hwf hsyn hf) (Or.inl rfl)
  | leaving =>
    have hclean : SameLive h (controlOutputSyn E h pkt).2.1 → LeavesNoTrace E .leaving h pkt :=
      fun s => SameLive.leavesNoTrace (w := .leaving) hwf s
    obtain ⟨hsame, -, hleft, hlook⟩ | ⟨hoom, hbump⟩ | ⟨hoom, htrace, hfound⟩ := leaving_cases hf
    · refine iff_of_true (hclean ?_) (Or.inr (Or.inl ⟨hleft, hlook⟩))
      rw [hsame]
      exact SameLive.refl h
    · refine iff_of_true (hclean ?_) (Or.inr (Or.inr hoom))
      rw [hbump]
      exact (SameLive.refl h).bump
    · refine iff_of_false (fun hl => htrace hl.same) ?_
      rintro (harr | hc | hc)
      · cases harr
      · exact hfound hc
      · exact absurd (hoom.symm.trans hc) Bool.noConfusion

/-! ## Memory for one block only -/

/-- The left anchor, when only the allocation that would return `a` fails. -/
def leftHostWithout (a : Nat) : Host := { leftHost with oom := fun x => x == a }

/-- The first `DYSCO_SYN` of a left anchor. -/
def firstSyn : ControlPacket :=
  { synOnTheWay 0x0100000a#32 0x0200000a#32 with
    dest := dyscoControlPort, udpLen := htons 200#16, msg.mtype := .syn }

theorem isSyn_firstSyn : firstSyn.IsSyn := ⟨Or.inl rfl, by decide, rfl⟩

theorem leftHostWithout_wf (a : Nat) : (leftHostWithout a).WF := { leftHost_wf with }

/-- No memory for the reconfiguration itself. -/
theorem leavesNoTrace_firstSyn : LeavesNoTrace default .leaving (leftHostWithout 1) firstSyn := by
  refine (leavesNoTrace_iff (leftHostWithout_wf 1) isSyn_firstSyn (Or.inl ⟨1, ?_⟩)).mpr
    (Or.inr (Or.inr ?_))
  · decide +kernel
  · decide +kernel

/-- There is memory for the reconfiguration block but not for the new path's. -/
theorem not_leavesNoTrace : ¬ ∀ (E : Env) (w : Way) (h : Host) (pkt : ControlPacket), h.WF →
    pkt.IsSyn → Fails E w h pkt → LeavesNoTrace E w h pkt := by
  intro hall
  have hsame := (hall default .leaving (leftHostWithout 2) firstSyn (leftHostWithout_wf 2)
    isSyn_firstSyn (Or.inl ⟨2, by decide +kernel⟩)).same.hashReconfig
  revert hsame
  decide +kernel

end Dysco
