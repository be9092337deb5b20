import Dysco.LeftAnchor
import Dysco.RightAnchor

/-! # A `DYSCO_SYN` that is sent again

A `DYSCO_SYN` that is not acknowledged is sent again by the daemon of the left anchor,
and by the daemons on its way.  At the left anchor the module recognises it by the
reconfiguration block and fills the message in from there: the host does not change
and the message is the same (`passSyn_left`).  At a host on the way the input path makes
one block and the output path another under the same key (`reconfigCount_middle`), and a
message sent again keeps the ports it arrived with.
-/
namespace Dysco
open BucketTable

variable {E : Env} {h h' : Host}

/-- A `DYSCO_SYN` on its way through a host: it arrives, unless the host is where it starts,
and is sent on. -/
def passSyn (E : Env) (h : Host) (arriving : Option ControlPacket) (leaving : ControlPacket) :
    Bool × Host × ControlPacket :=
  match arriving with
  | none => controlOutputSyn E h leaving
  | some pkt =>
    match synIn E h pkt with
    | (false, h) => (false, h, leaving)
    | (true, h) => controlOutputSyn E h leaving

/-- The fields of a `DYSCO_SYN` that the module fills in. -/
structure SameAnnouncement (m m' : ControlMessage) : Prop where
  leftIseq : m'.leftIseq = m.leftIseq
  leftIack : m'.leftIack = m.leftIack
  leftIts : m'.leftIts = m.leftIts
  leftItsr : m'.leftItsr = m.leftItsr
  leftIws : m'.leftIws = m.leftIws
  leftIwsr : m'.leftIwsr = m.leftIwsr
  sackOk : m'.sackOk = m.sackOk
  sport : m'.sport = m.sport
  dport : m'.dport = m.dport

/-- How many reconfiguration blocks a session has. -/
def Host.reconfigCount (h : Host) (ss : TcpSession) : Nat :=
  (h.hashReconfig.entries.filter fun e => decide ((h.rcbMem e.2).super = ss)).length

/-- Every reconfiguration block is in the bucket of its key. -/
def Host.ReconfigFiled (E : Env) (h : Host) : Prop :=
  ∀ e ∈ h.hashReconfig.entries, e.1 = E.sessionHash (h.rcbMem e.2).super

/-- A search fails only if there is no block. -/
theorem reconfigCount_of_none (hf : h.ReconfigFiled E) {ss : TcpSession}
    (hnone : h.lookupReconfig E ss = none) : h.reconfigCount ss = 0 := by
  unfold Host.reconfigCount
  rw [List.length_eq_zero_iff, List.filter_eq_nil_iff]
  intro e he hkey
  rw [decide_eq_true_eq] at hkey
  have hfind := List.find?_eq_none.mp (Option.map_eq_none_iff.mp hnone) e he
  exact hfind (answers_iff.mpr ⟨by rw [hf e he, hkey], hkey⟩)

/-- A new block for the session counts one more. -/
theorem reconfigCount_insert {ss : TcpSession} {r b : Nat} {rcb : CbReconfig}
    (hlt : ∀ x, h.hashReconfig.Holds x → x < r) (hsuper : rcb.super = ss)
    (hmem : h'.rcbMem = Function.update h.rcbMem r rcb)
    (htab : h'.hashReconfig = ⟨(b, r) :: h.hashReconfig.entries⟩) :
    h'.reconfigCount ss = h.reconfigCount ss + 1 := by
  have hold : ∀ e ∈ h.hashReconfig.entries,
      decide ((h'.rcbMem e.2).super = ss) = decide ((h.rcbMem e.2).super = ss) := by
    intro e he
    have := hlt e.2 ⟨e.1, he⟩
    rw [hmem, Function.update_of_ne (by omega)]
  unfold Host.reconfigCount
  rw [htab, List.filter_cons_of_pos (by rw [hmem, Function.update_self, decide_eq_true hsuper]),
    List.length_cons, List.filter_congr hold]

/-! ## The left anchor -/

/-- What is filled in again from a block that was made from the message is what the
message said. -/
theorem sameAnnouncement_again {pkt pkt' : ControlPacket} {rcb' : CbReconfig}
    {old : CbOut} {oldIn : CbIn} {sport dport : U16} (rcb : CbReconfig) (o : Option Nat)
    (hpkt : pkt' = (pkt.announce old oldIn).withPorts sport dport)
    (hrcb : rcb' = { rcb.ofSynOut (pkt.announce old oldIn) sport dport with oldDcb := o }) :
    SameAnnouncement pkt'.msg (pkt.announceAgain rcb').msg := by
  rw [hpkt, hrcb]
  have hsack : ∀ b : Bool,
      htons (((ntohs (htons ((BitVec.ofBool b).setWidth 16))).setWidth 8).setWidth
      16) = htons ((BitVec.ofBool b).setWidth 16) := by decide
  constructor
  · exact congrArg htonl (ntohl_htonl old.inIseq)
  · exact congrArg htonl (ntohl_htonl old.inIack)
  · exact congrArg htonl (ntohl_htonl old.tsIn)
  · exact congrArg htonl (ntohl_htonl old.tsrIn)
  · exact congrArg htons (ntohs_htons old.wsIn)
  · exact congrArg htons (ntohs_htons oldIn.wsIn)
  · exact hsack old.sackOk
  · rfl
  · rfl

/-- **At the left anchor** the message sent again is the same, and the host stays as it
is. -/
theorem passSyn_left {pkt pkt1 : ControlPacket} {h1 : Host} (hwf : h.WF) (hf : h.ReconfigFiled E)
    (hcount : h.reconfigCount pkt.msg.super ≤ 1) (hleft : pkt.saddr = pkt.msg.leftA)
    (hsuper : pkt.msg.super = pkt.msg.leftSS)
    (hok : controlOutputSyn E h pkt = (true, h1, pkt1)) :
    (∃ pkt2, controlOutputSyn E h1 pkt = (true, h1, pkt2) ∧ SameAnnouncement pkt1.msg pkt2.msg) ∧
      h1.reconfigCount pkt.msg.super ≤ 1 := by
  cases hlook : h.lookupReconfig E pkt.msg.super with
  | some r =>
    have hagain : controlOutputSyn E h pkt = (true, h, pkt.announceAgain (h.rcbMem r)) := by
      unfold controlOutputSyn
      simp only [hleft, if_true, hlook]
    rw [hagain] at hok
    obtain ⟨rfl, rfl⟩ := (Prod.mk.inj (Prod.mk.inj hok).2)
    exact ⟨⟨_, hagain, ⟨rfl, rfl, rfl, rfl, rfl, rfl, rfl, rfl, rfl⟩⟩, hcount⟩
  | none =>
    obtain ⟨old, sport, dport, hb, p, q, hold, R, L⟩ := controlOutputSyn_leftA hwf hleft hlook hok
    have hmem : h1.rcbMem = Function.update h.rcbMem h.brk
        { (h.rcbMem h.brk).ofSynOut (pkt.announce (h.outMem old) (h.inOf (h.outMem old)))
            sport dport with oldDcb := some old } := by
      rw [L.rcb, R.rcbMem, Function.update_self, Function.update_idem]
    have htab : h1.hashReconfig =
        ⟨(E.sessionHash pkt.msg.leftSS, h.brk) :: h.hashReconfig.entries⟩ := by
      rw [L.hashReconfig, R.hashReconfig]
      rfl
    have hkey : (h1.rcbMem h.brk).super = pkt.msg.super := by
      rw [hmem, Function.update_self, hsuper]
      rfl
    have hfound : h1.lookupReconfig E pkt.msg.super = some h.brk := by
      unfold Host.lookupReconfig
      rw [htab, ← hsuper, ← hkey]
      exact lookup_insert_self rfl
    refine ⟨⟨pkt.announceAgain (h1.rcbMem h.brk), ?_, ?_⟩, ?_⟩
    · unfold controlOutputSyn
      simp only [hleft, if_true, hfound]
    · refine sameAnnouncement_again (h.rcbMem h.brk) (some old) R.pkt_eq ?_
      rw [hmem, Function.update_self]
    · rw [reconfigCount_insert hwf.reconfig_lt (by rw [hsuper]; rfl) hmem htab,
        reconfigCount_of_none hf hlook]

/-! ## Hosts on the way -/

/-- What concerns reconfiguration blocks. -/
structure SameReconfig (h h' : Host) : Prop where
  rcbMem : h'.rcbMem = h.rcbMem
  hashReconfig : h'.hashReconfig = h.hashReconfig

theorem SameReconfig.trans {h1 h2 h3 : Host} (h : SameReconfig h1 h2) (h' : SameReconfig h2 h3) :
    SameReconfig h1 h3 :=
  ⟨h'.rcbMem.trans h.rcbMem, h'.hashReconfig.trans h.hashReconfig⟩

/-- Making the blocks of the new path leaves the reconfiguration blocks alone. -/
theorem sameReconfig_controlInsertOut (h : Host) (pkt : ControlPacket) (r : Nat) :
    SameReconfig h (controlInsertOut E h pkt r) := by
  unfold controlInsertOut
  split
  · rename_i h1 hk
    unfold Host.kzallocOut at hk
    split at hk <;> cases hk
    exact ⟨rfl, rfl⟩
  · rename_i p h1 hk
    obtain ⟨rfl, rfl⟩ := Host.kzallocOut_some hk
    simp only
    generalize arp E pkt.tos _ = dcb
    have hins : ∀ h2 : Host, SameReconfig h2 (insertCbOut E h2 h.brk false) := by
      intro h2
      unfold insertCbOut
      cases hrev : insertCbOutReverse E (h2.insertOut E h.brk) h.brk false with
      | mk q h3 =>
        have R := insertCbOutReverse_made hrev
        simp only [hrev]
        exact ⟨R.rcbMem, R.hashReconfig⟩
    have h2 := hins ((h.bump.setOut h.brk default).setOut h.brk dcb)
    split
    · exact ⟨h2.rcbMem, h2.hashReconfig⟩
    · exact ⟨h2.rcbMem, h2.hashReconfig⟩

/-- A `DYSCO_SYN` that a host on the way lets through for the first time leaves one block
more. -/
theorem synIn_middle {pkt : ControlPacket} (hnone : h.lookupReconfig E pkt.msg.super = none)
    (hmiddle : pkt.daddr ≠ pkt.msg.rightA) (hok : synIn E h pkt = (true, h')) :
    h'.rcbMem = Function.update h.rcbMem h.brk ((h.rcbMem h.brk).ofSynIn pkt) ∧
      h'.hashReconfig = ⟨(E.sessionHash pkt.msg.super, h.brk) :: h.hashReconfig.entries⟩ ∧
      h.brk < h'.brk := by
  unfold synIn at hok
  rw [hnone] at hok
  simp only at hok
  split at hok
  · cases hok
  rename_i r h1 hrcb
  obtain ⟨rfl, h1_eq⟩ := insertRcbControlInput_some hrcb
  unfold controlReconfigIn at hok
  split at hok
  · cases hok
  rename_i q h2 hq
  obtain ⟨q_eq, h2_eq⟩ := Host.kmalloc_some hq
  simp only at hok
  split at hok
  · cases hok
  rename_i p h3 hp
  obtain ⟨p_eq, h3_eq⟩ := buildCbInReverse_some hp
  rw [if_neg hmiddle] at hok
  have hh' := (Prod.mk.inj hok).2
  unfold controlConfigMiddle at hh'
  simp only at hh'
  rw [← hh']
  refine ⟨?_, ?_, ?_⟩
  · simp [h3_eq, h2_eq, h1_eq, Host.setRcb]
  · simp [h3_eq, h2_eq, h1_eq, Host.insertReconfig, BucketTable.insert, CbReconfig.ofSynIn]
  · simp [h3_eq, h2_eq, h1_eq]
    omega

/-- A host on the way that has an outgoing block for the session lets a message through as it
arrived. -/
theorem passSyn_known {arriving leaving : ControlPacket} {r : Nat}
    (hmsg : arriving.msg = leaving.msg) (hnot : leaving.saddr ≠ leaving.msg.leftA)
    (hr : h.lookupReconfig E leaving.msg.super = some r) (hsip : (h.rcbMem r).subOut.sip ≠ 0#32) :
    passSyn E h (some arriving) leaving = (true, h, leaving) := by
  have hin : synIn E h arriving = (true, h) := by
    unfold synIn
    rw [hmsg, hr]
  unfold passSyn
  simp only [hin]
  unfold controlOutputSyn
  simp [hnot, hr, hsip]

/-- **At a host on the way** that has no outgoing block, the session is left with two
blocks. -/
theorem reconfigCount_middle {arriving leaving pkt1 : ControlPacket} {h1 : Host} (hwf : h.WF)
    (hmsg : arriving.msg = leaving.msg) (hright : arriving.daddr ≠ arriving.msg.rightA)
    (hnot : leaving.saddr ≠ leaving.msg.leftA) (hsuper : leaving.msg.super = leaving.msg.leftSS)
    (hnew : ∀ r, h.lookupReconfig E leaving.msg.super = some r → (h.rcbMem r).subOut.sip = 0#32)
    (hok : passSyn E h (some arriving) leaving = (true, h1, pkt1)) :
    2 ≤ h1.reconfigCount leaving.msg.super := by
  unfold passSyn at hok
  simp only at hok
  split at hok
  · cases hok
  rename_i h0 hin
  -- after the arrival there is a block, and it has no outgoing subsession
  have hcount0 : 1 ≤ h0.reconfigCount leaving.msg.super ∧
      (∃ r, h0.lookupReconfig E leaving.msg.super = some r ∧ (h0.rcbMem r).subOut.sip = 0#32) ∧
      ∀ x, h0.hashReconfig.Holds x → x < h0.brk := by
    cases hlook : h.lookupReconfig E leaving.msg.super with
    | some r =>
      have heq : synIn E h arriving = (true, h) := by
        unfold synIn
        rw [hmsg, hlook]
      rw [heq] at hin
      cases hin
      refine ⟨?_, ⟨r, hlook, hnew r hlook⟩, hwf.reconfig_lt⟩
      obtain ⟨⟨b, hb⟩, hkey⟩ := h.lookupReconfig_eq_some hlook
      unfold Host.reconfigCount
      exact List.length_pos_of_mem (List.mem_filter.mpr ⟨hb, decide_eq_true hkey⟩)
    | none =>
      obtain ⟨hmem, htab, hbrk⟩ := synIn_middle (by rw [hmsg]; exact hlook) hright hin
      have hkey : (h0.rcbMem h.brk).super = leaving.msg.super := by
        rw [hmem, Function.update_self, ← hmsg]
        rfl
      have hfound : h0.lookupReconfig E leaving.msg.super = some h.brk := by
        unfold Host.lookupReconfig
        rw [htab, hmsg, ← hkey]
        exact lookup_insert_self rfl
      refine ⟨?_, ⟨h.brk, hfound, ?_⟩, ?_⟩
      · rw [reconfigCount_insert hwf.reconfig_lt (by rw [← hmsg]; rfl) hmem htab]
        omega
      · rw [hmem, Function.update_self]
        rfl
      · rintro x ⟨b, hb⟩
        rw [htab] at hb
        rcases List.mem_cons.mp hb with heq | hb
        · rw [(Prod.mk.inj heq).2]
          exact hbrk
        · have := hwf.reconfig_lt x ⟨b, hb⟩
          omega
  obtain ⟨hcount, ⟨r, hr, hsip⟩, hlt⟩ := hcount0
  unfold controlOutputSyn at hok
  simp only [hnot, if_false, hr, Option.elim_some, hsip, ne_eq, not_true_eq_false, decide_false,
    Bool.false_eq_true] at hok
  split at hok
  · cases hok
  rename_i r' h2 pkt2 hins
  obtain ⟨sport, dport, R⟩ := insertCbControl_some hins
  simp only [Prod.mk.injEq, true_and] at hok
  have hsame := sameReconfig_controlInsertOut (E := E) h2 pkt2 r'
  rw [hok.1] at hsame
  have hr' := R.r_eq
  subst hr'
  have htwo : h1.reconfigCount leaving.msg.super = h0.reconfigCount leaving.msg.super + 1 :=
    reconfigCount_insert hlt (by rw [hsuper]; rfl) (hsame.rcbMem.trans R.rcbMem)
      (hsame.hashReconfig.trans R.hashReconfig)
  omega

/-! ## Any number of times -/

/-- The host after the same message has passed once more. -/
def passed (E : Env) (arriving : Option ControlPacket) (leaving : ControlPacket) (h : Host) :
    Host :=
  (passSyn E h arriving leaving).2.1

/-- Sending the message again changes nothing: after any number of times the host is as it
was and the message leaves as it did first, and the session has one block at most. -/
def Idempotent (E : Env) (arriving : Option ControlPacket) (leaving : ControlPacket) (h1 : Host)
    (pkt1 : ControlPacket) : Prop :=
  (∀ n, (passed E arriving leaving)^[n] h1 = h1 ∧
      (passSyn E ((passed E arriving leaving)^[n] h1) arriving leaving).1 = true ∧
      SameAnnouncement pkt1.msg
        (passSyn E ((passed E arriving leaving)^[n] h1) arriving leaving).2.2.msg) ∧
    h1.reconfigCount leaving.msg.super ≤ 1

/-- A host that one more pass leaves as it is stays as it is. -/
theorem idempotent_of_pass {arriving : Option ControlPacket} {leaving pkt1 pkt2 : ControlPacket}
    {h1 : Host} (hpass : passSyn E h1 arriving leaving = (true, h1, pkt2))
    (hsame : SameAnnouncement pkt1.msg pkt2.msg)
    (hcount : h1.reconfigCount leaving.msg.super ≤ 1) :
    Idempotent E arriving leaving h1 pkt1 := by
  refine ⟨fun n => ?_, hcount⟩
  have hfix : (passed E arriving leaving)^[n] h1 = h1 := by
    apply Function.iterate_fixed
    unfold passed
    rw [hpass]
  rw [hfix, hpass]
  exact ⟨rfl, rfl, hsame⟩

/-- **Sending a `DYSCO_SYN` again is idempotent exactly at the left anchor**, and at hosts
that had an outgoing block for the session before. -/
theorem passSyn_idempotent_iff {arriving : Option ControlPacket} {leaving pkt1 : ControlPacket}
    {h1 : Host} (hwf : h.WF) (hf : h.ReconfigFiled E)
    (hcount : h.reconfigCount leaving.msg.super ≤ 1)
    (hsuper : leaving.msg.super = leaving.msg.leftSS)
    (hleft : arriving = none ↔ leaving.saddr = leaving.msg.leftA)
    (hmiddle : ∀ pkt, arriving = some pkt → pkt.msg = leaving.msg ∧ pkt.daddr ≠ pkt.msg.rightA)
    (hok : passSyn E h arriving leaving = (true, h1, pkt1)) :
    Idempotent E arriving leaving h1 pkt1 ↔
      (leaving.saddr = leaving.msg.leftA ∨
        ∃ r, h.lookupReconfig E leaving.msg.super = some r ∧ (h.rcbMem r).subOut.sip ≠ 0#32) := by
  cases arriving with
  | none =>
    have hl := hleft.mp rfl
    have hok' : controlOutputSyn E h leaving = (true, h1, pkt1) := hok
    obtain ⟨⟨pkt2, hagain, hsame⟩, hcount1⟩ := passSyn_left hwf hf hcount hl hsuper hok'
    exact ⟨fun _ => Or.inl hl, fun _ => idempotent_of_pass hagain hsame hcount1⟩
  | some pkt =>
    obtain ⟨hmsg, hright⟩ := hmiddle pkt rfl
    have hnot : leaving.saddr ≠ leaving.msg.leftA := fun hl => nomatch hleft.mpr hl
    by_cases hknown : ∃ r, h.lookupReconfig E leaving.msg.super = some r ∧
        (h.rcbMem r).subOut.sip ≠ 0#32
    · obtain ⟨r, hr, hsip⟩ := hknown
      have hpass := passSyn_known hmsg hnot hr hsip
      rw [hpass] at hok
      obtain ⟨rfl, rfl⟩ := Prod.mk.inj (Prod.mk.inj hok).2
      refine ⟨fun _ => Or.inr ⟨r, hr, hsip⟩, fun _ => ?_⟩
      exact idempotent_of_pass hpass ⟨rfl, rfl, rfl, rfl, rfl, rfl, rfl, rfl, rfl⟩ hcount
    · have htwo := reconfigCount_middle hwf hmsg hright hnot hsuper
        (fun r hr => by_contra fun hsip => hknown ⟨r, hr, hsip⟩) hok
      refine ⟨fun hid => ?_, fun hor => ?_⟩
      · have := hid.2
        omega
      · exact absurd hor (not_or.mpr ⟨hnot, hknown⟩)

/-- A left anchor, 10.0.0.1, with the block of the left session at address 0. -/
def leftHost : Host :=
  { Host.fresh with
    brk := 1
    outMem := Function.update default 0 { (default : CbOut) with inIseq := 7#32 }
    hashOut := ⟨[(0, 0)]⟩ }

theorem leftHost_wf : leftHost.WF := by
  constructor
  · rintro p ⟨b, hb⟩
    cases List.mem_singleton.mp hb
    exact Nat.zero_lt_one
  · rintro q ⟨b, hb⟩
    cases hb
  · rintro r ⟨b, hb⟩
    cases hb
  · rintro p q ⟨b, hb⟩ hq
    cases List.mem_singleton.mp hb
    cases hq

/-- A `DYSCO_SYN` from 10.0.0.1 through 10.0.0.2 to the right anchor, 10.0.0.3, as it is at
`saddr` on its way to `daddr`. -/
def synOnTheWay (saddr daddr : U32) : ControlPacket :=
  { (default : ControlPacket) with
    saddr := saddr, daddr := daddr
    msg.leftA := 0x0100000a#32, msg.rightA := 0x0300000a#32, msg.sport := 5#16 }

theorem passSyn_leftHost :
    Idempotent default none (synOnTheWay 0x0100000a#32 0x0200000a#32)
        (passSyn default leftHost none (synOnTheWay 0x0100000a#32 0x0200000a#32)).2.1
        (passSyn default leftHost none (synOnTheWay 0x0100000a#32 0x0200000a#32)).2.2 ↔
      ((synOnTheWay 0x0100000a#32 0x0200000a#32).saddr =
          (synOnTheWay 0x0100000a#32 0x0200000a#32).msg.leftA ∨
        ∃ r, leftHost.lookupReconfig default (synOnTheWay 0x0100000a#32 0x0200000a#32).msg.super =
          some r ∧ (leftHost.rcbMem r).subOut.sip ≠ 0#32) := by
  have hok : (passSyn default leftHost none (synOnTheWay 0x0100000a#32 0x0200000a#32)).1 =
      true := by
    decide +kernel
  refine passSyn_idempotent_iff leftHost_wf ?_ (Nat.zero_le 1) rfl ⟨fun _ => rfl, fun _ => rfl⟩
    (fun _ h => nomatch h) (Prod.ext hok rfl)
  intro e he
  cases he

/-- At the host on the way, 10.0.0.2, the session is left with two blocks, and the message
sent again has lost the ports it was first given. -/
theorem passSyn_middle_twice :
    let arriving := some (synOnTheWay 0x0100000a#32 0x0200000a#32)
    let leaving := synOnTheWay 0x0200000a#32 0x0300000a#32
    let first := passSyn default Host.fresh arriving leaving
    let again := passSyn default first.2.1 arriving leaving
    first.1 = true ∧ again.1 = true ∧ first.2.1.reconfigCount leaving.msg.super = 2 ∧
      first.2.2.msg.sport ≠ again.2.2.msg.sport ∧
      ¬ Idempotent default arriving leaving first.2.1 first.2.2 := by
  intro arriving leaving first again
  have hcount : first.2.1.reconfigCount leaving.msg.super = 2 := by decide +kernel
  refine ⟨by decide +kernel, by decide +kernel, hcount, by decide +kernel, fun hid => ?_⟩
  have := hid.2
  omega

end Dysco
