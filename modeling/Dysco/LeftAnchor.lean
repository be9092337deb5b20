import Dysco.Control

/-! # What a `DYSCO_SYN` does at the left anchor

The first `DYSCO_SYN` that leaves the left anchor makes a block for the reconfiguration
and the two blocks of the new path, and puts the block of the old path into
`DYSCO_SYN_SENT` (`controlOutputSyn_leftA`).  A later one finds the reconfiguration
block and only has its fields filled in again.
-/
namespace Dysco
open BucketTable

variable {E : Env} {h h' : Host}

/-- The reconfiguration block made from a `DYSCO_SYN` that leaves, in memory that held
`rcb`. -/
def CbReconfig.ofSynOut (rcb : CbReconfig) (pkt : ControlPacket) (sport dport : U16) :
    CbReconfig :=
  { rcb with
    recDone := false
    super := pkt.msg.leftSS
    subOut := { sip := pkt.saddr, dip := pkt.daddr, sport := sport, dport := dport }
    leftIseq := ntohl pkt.msg.leftIseq
    leftIack := ntohl pkt.msg.leftIack
    leftIts := ntohl pkt.msg.leftIts
    leftItsr := ntohl pkt.msg.leftItsr
    leftIws := ntohs pkt.msg.leftIws
    leftIwsr := ntohs pkt.msg.leftIwsr
    sackOk := (ntohs pkt.msg.sackOk).setWidth 8
    nhMac := pkt.hDest }

/-- Putting the ports of the subsession into a message. -/
def ControlPacket.withPorts (pkt : ControlPacket) (sport dport : U16) : ControlPacket :=
  fixUdpChecksum { pkt with msg.sport := sport, msg.dport := dport }

/-- What `insertCbControl` leaves behind. -/
structure RcbInserted (E : Env) (h h' : Host) (pkt pkt' : ControlPacket) (r : Nat)
    (sport dport : U16) : Prop where
  r_eq : r = h.brk
  brk : h'.brk = h.brk + 1
  pkt_eq : pkt' = pkt.withPorts sport dport
  rcbMem : h'.rcbMem = Function.update h.rcbMem r ((h.rcbMem r).ofSynOut pkt sport dport)
  hashReconfig : h'.hashReconfig =
    ⟨(E.sessionHash pkt.msg.leftSS, r) :: h.hashReconfig.entries⟩
  outMem : h'.outMem = h.outMem
  inMem : h'.inMem = h.inMem
  hashOut : h'.hashOut = h.hashOut
  hashIn : h'.hashIn = h.hashIn

theorem insertCbControl_some {pkt pkt' : ControlPacket} {r : Nat}
    (hr : insertCbControl E h pkt = (some r, h', pkt')) :
    ∃ sport dport, RcbInserted E h h' pkt pkt' r sport dport := by
  unfold insertCbControl at hr
  split at hr
  · cases hr
  · rename_i a h1 hk
    obtain ⟨rfl, rfl⟩ := Host.kmalloc_some hk
    simp only [Prod.mk.injEq, Option.some.injEq] at hr
    obtain ⟨rfl, hh', hpkt⟩ := hr
    subst hh'
    refine ⟨_, _, rfl, rfl, hpkt.symm, rfl, ?_, rfl, rfl, rfl, rfl⟩
    simp [Host.insertReconfig, BucketTable.insert, Host.allocateLocalPort]

/-- What the first `DYSCO_SYN` leaves behind at the left anchor: the blocks made, the old
path's block, and what did not change. -/
structure LeftStarted (E : Env) (h h' : Host) (pkt : ControlPacket) (old r p : Nat)
    (q : Option Nat) : Prop where
  p_eq : p = h.brk
  q_eq : ∀ x, q = some x → x = h.brk + 1
  brk : h'.brk = h.brk + 2
  old_block : h'.outMem old =
    ((if pkt.msg.WithState then (h.outMem old).withOldPath.withStateT
      else (h.outMem old).withOldPath).withState .synSent).withOtherPath p
  new_out : h'.outMem p =
    ((arp E pkt.tos (h.rcbMem r).newLeft).withOtherPath old).withDcbIn q
  new_in : ∀ x, q = some x →
    h'.inMem x = ((arp E pkt.tos (h.rcbMem r).newLeft).withOtherPath old).reverseIn p true
  old_in : ∀ x, (h.outMem old).dcbIn = some x → h'.inMem x = (h.inMem x).withTwoPaths true
  rcb : h'.rcbMem = Function.update h.rcbMem r { h.rcbMem r with oldDcb := some old }
  out_ne : ∀ x, x ≠ old → x ≠ p → h'.outMem x = h.outMem x
  in_ne : ∀ x, (h.outMem old).dcbIn ≠ some x → q ≠ some x → h'.inMem x = h.inMem x
  hashOut : h'.hashOut = h.hashOut
  hashReconfig : h'.hashReconfig = h.hashReconfig
  hashIn : h'.hashIn = q.elim h.hashIn
    fun x => ⟨(E.sessionHash (h'.inMem x).sub, x) :: h.hashIn.entries⟩

/-- What `insertCbOutReverse` does, whether or not memory is there. -/
structure ReverseMade (E : Env) (h h' : Host) (p : Nat) (twoPaths : Bool) (q : Option Nat) :
    Prop where
  q_eq : ∀ x, q = some x → x = h.brk
  brk : h'.brk = h.brk + 1
  inMem : h'.inMem = q.elim h.inMem
    fun x => Function.update h.inMem x ((h.outMem p).reverseIn p twoPaths)
  outMem : h'.outMem = q.elim h.outMem
    fun x => Function.update h.outMem p ((h.outMem p).withDcbIn (some x))
  rcbMem : h'.rcbMem = h.rcbMem
  hashOut : h'.hashOut = h.hashOut
  hashReconfig : h'.hashReconfig = h.hashReconfig
  hashIn : h'.hashIn = q.elim h.hashIn
    fun x => ⟨(E.sessionHash (h'.inMem x).sub, x) :: h.hashIn.entries⟩

theorem insertCbOutReverse_made {p : Nat} {twoPaths : Bool} {q : Option Nat}
    (hq : insertCbOutReverse E h p twoPaths = (q, h')) : ReverseMade E h h' p twoPaths q := by
  unfold insertCbOutReverse at hq
  split at hq
  · rename_i h1 hk
    unfold Host.kzallocIn at hk
    split at hk
    · cases hk
      cases hq
      exact ⟨fun _ hx => (nomatch hx), rfl, rfl, rfl, rfl, rfl, rfl, rfl⟩
    · cases hk
  · rename_i a h1 hk
    obtain ⟨rfl, rfl⟩ := Host.kzallocIn_some hk
    cases hq
    refine ⟨fun x hx => (Option.some.inj hx).symm, rfl, ?_, rfl, rfl, rfl, rfl, ?_⟩
    · simp [Host.setIn]
    · simp [Host.insertIn, BucketTable.insert]

/-- The last step of `startLeftA`, on the blocks of the old path. -/
def Host.markOld (h : Host) (m : ControlMessage) (old p : Nat) : Host :=
  let h := h.setOut old (h.outMem old).withOldPath
  let h := if m.WithState then h.setOut old (h.outMem old).withStateT else h
  let h :=
    match (h.outMem old).dcbIn with
    | none => h
    | some oldIn => h.setIn oldIn ((h.inMem oldIn).withTwoPaths true)
  h.setOut old (((h.outMem old).withState .synSent).withOtherPath p)

/-- What `markOld` does to memory. -/
theorem markOld_eq (h : Host) (m : ControlMessage) (old p : Nat) :
    (h.markOld m old p).outMem = Function.update h.outMem old
        (((if m.WithState then (h.outMem old).withOldPath.withStateT
          else (h.outMem old).withOldPath).withState .synSent).withOtherPath p) ∧
      (h.markOld m old p).inMem = (h.outMem old).dcbIn.elim h.inMem
        fun x => Function.update h.inMem x ((h.inMem x).withTwoPaths true) := by
  have hdcb : ∀ d : CbOut, d.withOldPath.withStateT.dcbIn = d.dcbIn ∧
      d.withOldPath.dcbIn = d.dcbIn := fun _ => ⟨rfl, rfl⟩
  unfold Host.markOld
  by_cases hm : m.WithState <;> cases hd : (h.outMem old).dcbIn <;>
    simp [hm, hd, hdcb, Host.setOut, Host.setIn]

theorem markOld_same (h : Host) (m : ControlMessage) (old p : Nat) :
    (h.markOld m old p).brk = h.brk ∧ (h.markOld m old p).rcbMem = h.rcbMem ∧
      (h.markOld m old p).hashOut = h.hashOut ∧ (h.markOld m old p).hashIn = h.hashIn ∧
      (h.markOld m old p).hashReconfig = h.hashReconfig := by
  unfold Host.markOld
  simp only
  split <;> split <;> exact ⟨rfl, rfl, rfl, rfl, rfl⟩

/-- The left anchor starts a reconfiguration. -/
theorem startLeftA_true {pkt : ControlPacket} {r old : Nat} (hold : old < h.brk)
    (hdcb : ∀ x, (h.outMem old).dcbIn = some x → x < h.brk)
    (hok : startLeftA E h pkt r old = (true, h')) :
    ∃ p q, LeftStarted E h h' pkt old r p q := by
  unfold startLeftA at hok
  split at hok
  · cases hok
  rename_i p h1 hk
  obtain ⟨rfl, h1_eq⟩ := Host.kzallocOut_some hk
  simp only at hok
  have hrcb1 : h1.rcbMem = h.rcbMem := by rw [h1_eq]; rfl
  rw [hrcb1] at hok
  simp only [Host.setRcb_rcbMem_self] at hok
  have hnew : ({ h.rcbMem r with oldDcb := some old } : CbReconfig).newLeft =
      (h.rcbMem r).newLeft := rfl
  rw [hnew] at hok
  generalize hd : (arp E pkt.tos (h.rcbMem r).newLeft).withOtherPath old = new at hok
  generalize hh2 : (h1.setRcb r { h.rcbMem r with oldDcb := some old }).setOut h.brk new = h2
    at hok
  cases hrev : insertCbOutReverse E h2 h.brk true with
  | mk q h3 =>
    rw [hrev] at hok
    simp only at hok
    have R := insertCbOutReverse_made hrev
    have hne : old ≠ h.brk := by omega
    have hbrk2 : h2.brk = h.brk + 1 := by rw [← hh2, h1_eq]; rfl
    have hout2 : h2.outMem = Function.update h.outMem h.brk new := by
      rw [← hh2, h1_eq]
      simp [Host.setOut]
    have hin2 : h2.inMem = h.inMem := by rw [← hh2, h1_eq]; rfl
    have hrcb2 : h2.rcbMem = Function.update h.rcbMem r { h.rcbMem r with oldDcb := some old } := by
      rw [← hh2, h1_eq]
      rfl
    have htab2 : h2.hashOut = h.hashOut ∧ h2.hashReconfig = h.hashReconfig ∧
        h2.hashIn = h.hashIn := by
      rw [← hh2, h1_eq]
      exact ⟨rfl, rfl, rfl⟩
    -- the new block, whether or not there was memory for the input block
    have hout3 : h3.outMem h.brk = q.elim new (fun x => new.withDcbIn (some x)) := by
      rw [R.outMem, hout2]
      cases q <;> simp
    have hout3_ne : ∀ x, x ≠ h.brk → h3.outMem x = h.outMem x := by
      intro x hx
      rw [R.outMem, hout2]
      cases q <;> simp [hx]
    have hdcbIn : (h3.outMem h.brk).withDcbIn q = new.withDcbIn q := by
      rw [hout3]
      cases q <;> rfl
    rw [hdcbIn] at hok
    generalize hh4 : h3.setOut h.brk (new.withDcbIn q) = h4 at hok
    have hout4 : h4.outMem = Function.update h3.outMem h.brk (new.withDcbIn q) := by rw [← hh4]; rfl
    have hold4 : h4.outMem old = h.outMem old := by
      rw [hout4, Function.update_of_ne hne, hout3_ne old hne]
    have hmark : h' = h4.markOld pkt.msg old h.brk := by
      unfold Host.markOld
      exact (Prod.mk.inj hok).2.symm
    obtain ⟨hout, hin⟩ := markOld_eq h4 pkt.msg old h.brk
    obtain ⟨hbrk, hrcb, hho, hhi, hhr⟩ := markOld_same h4 pkt.msg old h.brk
    rw [← hmark] at hout hin hbrk hrcb hho hhi hhr
    rw [hold4] at hout hin
    have hin4 : h4.inMem = h3.inMem := by rw [← hh4]; rfl
    have hnewOut : h2.outMem h.brk = new := by rw [hout2, Function.update_self]
    have hq : ∀ x, q = some x → x = h.brk + 1 := fun x hx => by rw [R.q_eq x hx, hbrk2]
    refine ⟨h.brk, q, ?_⟩
    constructor
    · rfl
    · exact hq
    · rw [hbrk, ← hh4, Host.setOut_brk, R.brk, hbrk2]
    · rw [hout, Function.update_self]
    · rw [hout, Function.update_of_ne hne.symm, hout4, Function.update_self, hd]
    · intro x hx
      have hxb := hq x hx
      have hne' : (h.outMem old).dcbIn ≠ some x := by
        intro hc
        have := hdcb x hc
        omega
      rw [hin, hin4, R.inMem, hx, Option.elim_some, hnewOut, hd]
      cases hdo : (h.outMem old).dcbIn with
      | none => simp
      | some y =>
        have hxy : x ≠ y := fun hc => hne' (by rw [hdo, hc])
        simp [hxy]
    · intro x hx
      have hlt := hdcb x hx
      rw [hin, hx, Option.elim_some, Function.update_self, hin4, R.inMem, hin2]
      cases hqc : q with
      | none => rfl
      | some y =>
        have := hq y hqc
        rw [Option.elim_some, Function.update_of_ne (by omega)]
    · rw [hrcb, ← hh4, Host.setOut_rcbMem, R.rcbMem, hrcb2]
    · intro x hxo hxp
      rw [hout, Function.update_of_ne hxo, hout4, Function.update_of_ne hxp, hout3_ne x hxp]
    · intro x hxo hxq
      have h3x : h3.inMem x = h.inMem x := by
        rw [R.inMem, hin2]
        cases hqc : q with
        | none => rfl
        | some y =>
          have hxy : x ≠ y := fun hc => hxq (by rw [hqc, hc])
          rw [Option.elim_some, Function.update_of_ne hxy]
      rw [hin, hin4]
      cases hdo : (h.outMem old).dcbIn with
      | none => exact h3x
      | some y =>
        have hxy : x ≠ y := fun hc => hxo (by rw [hdo, hc])
        rw [Option.elim_some, Function.update_of_ne hxy, h3x]
    · rw [hho, ← hh4, Host.setOut_hashOut, R.hashOut, htab2.1]
    · rw [hhr, ← hh4, Host.setOut_hashReconfig, R.hashReconfig, htab2.2.1]
    · rw [hhi, ← hh4, Host.setOut_hashIn, R.hashIn, htab2.2.2]
      cases hqc : q with
      | none => rfl
      | some x =>
        have hxb := hq x hqc
        have hsub : h'.inMem x = h3.inMem x := by
          rw [hin, hin4]
          cases hdo : (h.outMem old).dcbIn with
          | none => rfl
          | some y =>
            have := hdcb y hdo
            rw [Option.elim_some, Function.update_of_ne (by omega)]
        rw [Option.elim_some, Option.elim_some, hsub]

/-- **The first `DYSCO_SYN` that leaves the left anchor** goes through `insertCbControl` and
`startLeftA`. -/
theorem controlOutputSyn_leftA {pkt pkt' : ControlPacket} (hwf : h.WF)
    (hleft : pkt.saddr = pkt.msg.leftA) (hnone : h.lookupReconfig E pkt.msg.super = none)
    (hok : controlOutputSyn E h pkt = (true, h', pkt')) :
    ∃ (old : Nat) (sport dport : U16) (h1 : Host) (p : Nat) (q : Option Nat),
      h.lookupOut E pkt.msg.leftSS = some old ∧
      RcbInserted E h h1 (pkt.announce (h.outMem old) (h.inOf (h.outMem old))) pkt' h.brk
        sport dport ∧
      LeftStarted E h1 h' pkt' old h.brk p q := by
  unfold controlOutputSyn at hok
  simp only [hleft, if_true, hnone] at hok
  split at hok
  · cases hok
  rename_i old hlook
  split at hok
  · cases hok
  rename_i r h1 pkt1 hr
  obtain ⟨sport, dport, R⟩ := insertCbControl_some hr
  simp only [Prod.mk.injEq] at hok
  obtain ⟨hstart, hh', hpkt⟩ := hok
  rw [← hpkt]
  obtain ⟨hmem, -⟩ := h.lookupOut_eq_some hlook
  have hold : old < h1.brk := by
    have := hwf.out_lt old hmem
    rw [R.brk]
    omega
  have hdcb : ∀ x, (h1.outMem old).dcbIn = some x → x < h1.brk := by
    intro x hx
    rw [R.outMem] at hx
    have := hwf.dcbIn_lt old x hmem hx
    rw [R.brk]
    omega
  have hr := R.r_eq
  subst hr
  obtain ⟨p, q, L⟩ := startLeftA_true hold hdcb (Prod.ext hstart hh')
  exact ⟨old, sport, dport, h1, p, q, hlook, R, L⟩

end Dysco
