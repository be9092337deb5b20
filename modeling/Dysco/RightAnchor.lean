import Dysco.Control

/-! # What a `DYSCO_SYN` does at the right anchor

A `DYSCO_SYN` that succeeds at the right anchor makes three blocks: one for the
reconfiguration and one for each direction of the new path.  Of what was there before,
it touches the old path's output block alone, and of that the state-transfer flag
alone (`synIn_rightA`).
-/
namespace Dysco
open BucketTable

variable {E : Env} {h h' : Host}

theorem insertRcbControlInput_some {pkt : ControlPacket} {r : Nat}
    (hr : insertRcbControlInput E h pkt = (some r, h')) :
    r = h.brk ∧ h' = (h.bump.setRcb h.brk
      ((h.rcbMem h.brk).ofSynIn pkt)).insertReconfig E h.brk := by
  unfold insertRcbControlInput at hr
  split at hr
  · cases hr
  · rename_i a ha hk
    obtain ⟨rfl, rfl⟩ := Host.kmalloc_some hk
    cases hr
    exact ⟨rfl, rfl⟩

theorem buildCbInReverse_some {pkt : ControlPacket} {rcb : CbReconfig} {p : Nat}
    (hp : buildCbInReverse h pkt rcb = (some p, h')) :
    p = h.brk ∧
      h' = (h.bump.setOut h.brk default).setOut h.brk (rcb.reverseOut pkt) := by
  unfold buildCbInReverse at hp
  split at hp
  · cases hp
  · rename_i a ha hk
    obtain ⟨rfl, rfl⟩ := Host.kzallocOut_some hk
    cases hp
    exact ⟨rfl, rfl⟩

/-- The new path at the right anchor: the blocks made for a `DYSCO_SYN`, and what did not
change. -/
structure RightConfigured (E : Env) (h h' : Host) (pkt : ControlPacket) (old r q p : Nat) :
    Prop where
  old_lookup : h.lookupOut E pkt.msg.rightSS.reverse = some old
  r_eq : r = h.brk
  q_eq : q = h.brk + 1
  p_eq : p = h.brk + 2
  brk : h'.brk = h.brk + 3
  old_block : h'.outMem old =
    if pkt.msg.WithState then (h.outMem old).withStateT else h.outMem old
  new_out : h'.outMem p =
    (computeDeltasOut ((((h.rcbMem r).ofSynIn pkt).reverseOut pkt).withDcbIn (some q))
      (h.outMem old) ((h.rcbMem r).ofSynIn pkt)).withOtherPath old
  new_in : h'.inMem q =
    (computeDeltasIn
      (((((h.rcbMem r).ofSynIn pkt).newPathIn (h.inMem q) pkt.skbIif).withDcbOut p).withSuper
        pkt.msg.rightSS)
      (h.outMem old) (h.inOf (h.outMem old)) ((h.rcbMem r).ofSynIn pkt)).withTwoPaths true
  rcb : h'.rcbMem r = { (h.rcbMem r).ofSynIn pkt with oldDcb := some old, newDcb := some p }
  out_ne : ∀ x, x ≠ old → x ≠ p → h'.outMem x = h.outMem x
  in_ne : ∀ x, x ≠ q → h'.inMem x = h.inMem x
  rcb_ne : ∀ x, x ≠ r → h'.rcbMem x = h.rcbMem x
  hashOut : h'.hashOut = h.hashOut
  hashIn : h'.hashIn = ⟨(E.sessionHash (h'.inMem q).sub, q) :: h.hashIn.entries⟩
  hashReconfig : h'.hashReconfig =
    ⟨(E.sessionHash pkt.msg.super, r) :: h.hashReconfig.entries⟩

/-- `dysco_control_config_rightA`, where it finds the old path's block. -/
theorem controlConfigRightA_true {m : ControlMessage} {r q p : Nat}
    (hok : controlConfigRightA E h r m q p = (true, h')) :
    ∃ old, h.lookupOut E m.rightSS.reverse = some old ∧
      h' =
        let h1 := ((h.setIn q ((computeDeltasIn ((h.inMem q).withSuper m.rightSS) (h.outMem old)
              (h.inOf (h.outMem old)) (h.rcbMem r)).withTwoPaths true)).setRcb r
            { h.rcbMem r with oldDcb := some old, newDcb := some p }).setOut p
          ((computeDeltasOut (h.outMem p) (h.outMem old) (h.rcbMem r)).withOtherPath old)
        if m.WithState then h1.setOut old (h1.outMem old).withStateT else h1 := by
  unfold controlConfigRightA at hok
  split at hok
  · cases hok
  · rename_i old hlook
    refine ⟨old, hlook, ?_⟩
    simp only at hok ⊢
    split at hok
    · rename_i hst
      rw [if_pos hst]
      exact (Prod.mk.inj hok).2.symm
    · rename_i hst
      rw [if_neg hst]
      exact (Prod.mk.inj hok).2.symm

/-- The host when the right anchor is about to be configured: block `r` for the
reconfiguration, `q` and `p` for the new path. -/
structure NewPathBlocks (E : Env) (h h' : Host) (pkt : ControlPacket) (r q p : Nat) : Prop where
  r_eq : r = h.brk
  q_eq : q = h.brk + 1
  p_eq : p = h.brk + 2
  brk : h'.brk = h.brk + 3
  outMem : h'.outMem = Function.update h.outMem p
    ((((h.rcbMem r).ofSynIn pkt).reverseOut pkt).withDcbIn (some q))
  inMem : h'.inMem = Function.update h.inMem q
    ((((h.rcbMem r).ofSynIn pkt).newPathIn (h.inMem q) pkt.skbIif).withDcbOut p)
  rcbMem : h'.rcbMem = Function.update h.rcbMem r ((h.rcbMem r).ofSynIn pkt)
  hashOut : h'.hashOut = h.hashOut
  hashIn : h'.hashIn = h.hashIn
  hashReconfig : h'.hashReconfig =
    ⟨(E.sessionHash pkt.msg.super, r) :: h.hashReconfig.entries⟩

/-- A `DYSCO_SYN` that succeeds at the right anchor goes through that host. -/
theorem synIn_blocks {pkt : ControlPacket} (hnone : h.lookupReconfig E pkt.msg.super = none)
    (hright : pkt.daddr = pkt.msg.rightA) (hok : synIn E h pkt = (true, h')) :
    ∃ hb h4 r q p, NewPathBlocks E h hb pkt r q p ∧
      controlConfigRightA E hb r pkt.msg q p = (true, h4) ∧ h' = h4.insertIn E q := by
  unfold synIn at hok
  rw [hnone] at hok
  simp only at hok
  split at hok
  · cases hok
  rename_i r h1 hrcb
  obtain ⟨rfl, h1_eq⟩ := insertRcbControlInput_some hrcb
  unfold controlReconfigIn at hok
  split at hok
  · cases hok
  rename_i q h2 hq
  obtain ⟨q_eq, h2_eq⟩ := Host.kmalloc_some hq
  simp only at hok
  split at hok
  · cases hok
  rename_i p h3 hp
  obtain ⟨p_eq, h3_eq⟩ := buildCbInReverse_some hp
  rw [if_pos hright] at hok
  split at hok
  · cases hok
  rename_i h4 hcfg
  have hq' : q = h.brk + 1 := by rw [q_eq, h1_eq]; rfl
  have hp' : p = h.brk + 2 := by rw [p_eq, h2_eq, h1_eq]; rfl
  have hrcb : h2.rcbMem h.brk = (h.rcbMem h.brk).ofSynIn pkt := by simp [h2_eq, h1_eq]
  have hin : h2.inMem = h.inMem := by simp [h2_eq, h1_eq]
  rw [← p_eq] at h3_eq
  rw [hrcb, hin] at h3_eq
  refine ⟨_, h4, h.brk, q, p, ?_, hcfg, (Prod.mk.inj hok).2.symm⟩
  have hout3 : h3.outMem = Function.update h.outMem p
      (((h.rcbMem h.brk).ofSynIn pkt).reverseOut pkt) := by
    rw [h3_eq]
    simp [Host.setOut, h2_eq, h1_eq]
  have hin3 : h3.inMem = Function.update h.inMem q
      (((h.rcbMem h.brk).ofSynIn pkt).newPathIn (h.inMem q) pkt.skbIif) := by
    rw [h3_eq]
    simp [Host.setIn, h2_eq, h1_eq]
  constructor
  · rfl
  · exact hq'
  · exact hp'
  · simp [h3_eq, h2_eq, h1_eq]
  · simp [Host.setOut, hout3]
  · simp [Host.setIn, hin3]
  · simp [h3_eq, h2_eq, h1_eq, Host.setRcb]
  · simp [h3_eq, h2_eq, h1_eq]
  · simp [h3_eq, h2_eq, h1_eq]
  · simp [h3_eq, h2_eq, h1_eq, Host.insertReconfig, BucketTable.insert, CbReconfig.ofSynIn]

/-- **A `DYSCO_SYN` that is handled at the right anchor configures the new path.** -/
theorem synIn_rightA {pkt : ControlPacket} (hwf : h.WF)
    (hnone : h.lookupReconfig E pkt.msg.super = none) (hright : pkt.daddr = pkt.msg.rightA)
    (hok : synIn E h pkt = (true, h')) :
    ∃ old r q p, RightConfigured E h h' pkt old r q p := by
  obtain ⟨hb, h4, r, q, p, B, hcfg, hh'⟩ := synIn_blocks hnone hright hok
  obtain ⟨old, hlook, h4_eq⟩ := controlConfigRightA_true hcfg
  have hpr := B.p_eq
  -- the search for the old path's block does not see the new blocks
  have hlook' : h.lookupOut E pkt.msg.rightSS.reverse = some old := by
    rw [← hlook]
    unfold Host.lookupOut
    rw [B.hashOut]
    refine (BucketTable.lookup_congr fun m hm => ?_).symm
    have := hwf.out_lt m hm
    rw [B.outMem, Function.update_of_ne (by omega)]
  have hmem := (h.lookupOut_eq_some hlook').1
  have hold : old < h.brk := hwf.out_lt old hmem
  have hne : old ≠ p := by omega
  have hout_old : hb.outMem old = h.outMem old := by rw [B.outMem, Function.update_of_ne hne]
  have hout_p : hb.outMem p = (((h.rcbMem r).ofSynIn pkt).reverseOut pkt).withDcbIn (some q) := by
    rw [B.outMem, Function.update_self]
  have hin_q : hb.inMem q =
      (((h.rcbMem r).ofSynIn pkt).newPathIn (h.inMem q) pkt.skbIif).withDcbOut p := by
    rw [B.inMem, Function.update_self]
  have hrcb_r : hb.rcbMem r = (h.rcbMem r).ofSynIn pkt := by rw [B.rcbMem, Function.update_self]
  have hinOf : hb.inOf (h.outMem old) = h.inOf (h.outMem old) := by
    unfold Host.inOf
    cases hd : (h.outMem old).dcbIn with
    | none => rfl
    | some x =>
      have := hwf.dcbIn_lt old x hmem hd
      have := B.q_eq
      simp only [Option.elim_some]
      rw [B.inMem, Function.update_of_ne (by omega)]
  simp only [hout_old, hout_p, hin_q, hrcb_r, hinOf] at h4_eq
  refine ⟨old, r, q, p, ?_⟩
  constructor
  · exact hlook'
  · exact B.r_eq
  · exact B.q_eq
  · exact B.p_eq
  · rw [hh', h4_eq]
    split <;> simp [B.brk]
  · rw [hh', h4_eq]
    split <;> simp [hne, hout_old]
  · rw [hh', h4_eq]
    split <;> simp [hne.symm]
  · rw [hh', h4_eq]
    split <;> simp
  · rw [hh', h4_eq]
    split <;> simp
  · intro x hxo hxp
    rw [hh', h4_eq]
    split <;> simp [hxo, hxp, B.outMem]
  · intro x hx
    rw [hh', h4_eq]
    split <;> simp [hx, B.inMem]
  · intro x hx
    rw [hh', h4_eq]
    split <;> simp [hx, B.rcbMem]
  · rw [hh', h4_eq]
    split <;> simp [B.hashOut]
  · rw [hh', h4_eq]
    split <;> simp [Host.insertIn, BucketTable.insert, B.hashIn]
  · rw [hh', h4_eq]
    split <;> simp [B.hashReconfig]

end Dysco
