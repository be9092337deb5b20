import Dysco.SynReemission
import Dysco.Unmanaged

/-! # Who frees a packet

A packet that is not passed on should be freed exactly once, by the module or, if the driver asks
for it, by the stack.  The module frees a frame before it answers zero, and a datagram
never.  So `veth_xmit`, which takes zero to mean that the packet is gone, loses the datagrams
that are refused, and the netfilter hooks, which take it to mean that the stack is to free the
packet, free a frame twice.  The receive handler of `veth` works on a clone of a packet that is
shared and forgets to hand it back: the stack goes on with a packet that the handler has dropped,
and the clone is left.

`ownedOnce_iff` gives, for each driver, the packets that it mishandles.
-/
namespace Dysco

variable {E : Env} {h g : Host} {skb : SkBuff}

/-! ## The frames that the output hook drops -/

/-- The chain that a SYN is to carry does not fit behind it. -/
def NoRoom (skb : SkBuff) (sc : ServiceChain) : Prop := skb.tailroom < sc.pktSize

/-- A SYN whose chain does not fit: the chain of its block, or of the policy that takes it. -/
structure ChainTooLong (E : Env) (h : Host) (skb : SkBuff) : Prop extends skb.IsTcp where
  syn : skb.hasSyn = true
  noAck : skb.hasAck = false
  room : (∃ p, h.lookupOut E skb.session = some p ∧ NoRoom skb (h.chain (h.outMem p))) ∨
    (h.lookupOut E skb.session = none ∧ h.lookupPen E skb.session = none ∧
      ¬ CarriesPendingTag E h skb ∧ h.oom h.brk = false ∧
      ∃ sc, matchPolicy h skb = some sc ∧ (h.scMem sc).hops ≠ [] ∧ NoRoom skb (h.scMem sc))

theorem ServiceChain.length_bytes (sc : ServiceChain) :
    sc.bytes.length = 4 + sc.hops.length * 4 := by
  have hhops : (sc.hops.flatMap ByteOrder.bytes32).length = sc.hops.length * 4 := by
    induction sc.hops with
    | nil => rfl
    | cons hop hops ih =>
      rw [List.flatMap_cons, List.length_append, ih, List.length_cons]
      simp
      omega
  rw [ServiceChain.bytes, List.length_append, hhops]
  rfl

theorem addSc_eq_none_iff (skb : SkBuff) (super : TcpSession) (sc : ServiceChain) :
    addSc skb super sc = none ↔ NoRoom skb sc := by
  have hlen : (super.bytes ++ sc.bytes).length = sc.pktSize := by
    rw [List.length_append, ServiceChain.length_bytes]
    rfl
  rw [addSc, NoRoom, ← hlen]
  simp only
  split
  · exact iff_of_true rfl ‹_›
  · refine iff_of_false ?_ ‹_›
    split <;> exact Option.some_ne_none _

theorem chain_congr {d d' : CbOut} (hsc : d'.sc = d.sc) (hmem : g.scMem = h.scMem) :
    g.chain d' = h.chain d := by
  rw [Host.chain, Host.chain, hsc, hmem]

theorem sc_parseTcpSynOptS (skb : SkBuff) (d : CbOut) : (parseTcpSynOptS skb d).sc = d.sc := by
  rw [parseTcpSynOptS_eq]
  rfl

/-- A SYN is dropped if its chain does not fit, a SYN+ACK never. -/
theorem outSynWith_dropped (h : Host) (skb : SkBuff) (p : Nat) :
    (outSynWith E h skb p).2.2 = false ↔
      skb.hasAck = false ∧ NoRoom skb (h.chain (h.outMem p)) := by
  rw [outSynWith]
  simp only
  generalize hd : parseTcpSynOptS skb { h.outMem p with seqCutoff := ntohl skb.seq } = d
  have hsc : d.sc = (h.outMem p).sc := by rw [← hd, sc_parseTcpSynOptS]
  by_cases hack : skb.hasAck = true
  · rw [if_pos hack]
    refine iff_of_false ?_ fun hn => Bool.false_ne_true (hn.1.symm.trans hack)
    split <;> exact Bool.noConfusion
  · rw [if_neg hack]
    have hsc' : (if (d.nhMac.setWidth 32 : U32) = 0#32 then arp E skb.tos d else d).sc =
        (h.outMem p).sc := by
      split
      · exact hsc
      · exact hsc
    generalize (if (d.nhMac.setWidth 32 : U32) = 0#32 then arp E skb.tos d else d) = d' at hsc' ⊢
    have hchain : ((h.setOut p d).setOut p d').chain d' = h.chain (h.outMem p) :=
      chain_congr hsc' rfl
    have hroom := addSc_eq_none_iff (outHdrRewrite E skb d') d'.super
      (h.chain (h.outMem p))
    simp only
    rw [outTxInit, hchain, and_iff_right (Bool.eq_false_iff.mpr hack)]
    refine Iff.trans ?_ hroom
    cases addSc (outHdrRewrite E skb d') d'.super (h.chain (h.outMem p)) with
    | none => exact iff_of_true rfl rfl
    | some skb' => exact iff_of_false Bool.noConfusion (Option.some_ne_none _)

theorem insertCbOut_scMem (h : Host) (p : Nat) (twoPaths : Bool) :
    (insertCbOut E h p twoPaths).scMem = h.scMem := by
  rw [insertCbOut, insertCbOutReverse]
  cases hk : (h.insertOut E p).kzallocIn with
  | mk o h1 =>
    have hmem : h1.scMem = h.scMem := by
      rw [Host.kzallocIn] at hk
      split at hk <;> cases hk <;> rfl
    cases o with
    | none => exact hmem
    | some q => exact hmem

/-- A SYN without block is dropped if a policy's chain does not fit. -/
theorem outSyn_none_dropped (h : Host) (skb : SkBuff) :
    (outSyn E h skb none).2.2 = false ↔ skb.hasAck = false ∧ h.oom h.brk = false ∧
      ∃ sc, matchPolicy h skb = some sc ∧ (h.scMem sc).hops ≠ [] ∧ NoRoom skb (h.scMem sc) := by
  simp only [outSyn]
  cases hsc : matchPolicy h skb with
  | none =>
    refine iff_of_false Bool.noConfusion ?_
    rintro ⟨-, -, sc, hsome, -⟩
    cases hsome
  | some sc =>
    simp only
    by_cases hf : h.oom h.brk = true ∨ (h.scMem sc).hops = []
    · obtain ⟨hnone, -⟩ := createCbOut_failed (E := E) skb hf
      cases hmade : createCbOut E h skb sc with
      | mk o g =>
        rw [hmade] at hnone
        obtain rfl : o = none := hnone
        refine iff_of_false Bool.noConfusion ?_
        rintro ⟨-, ho, sc', hsome, hhops, -⟩
        obtain rfl := Option.some.inj hsome
        exact hf.elim (fun h1 => Bool.false_ne_true (ho.symm.trans h1)) hhops
    · obtain ⟨ho, hhops⟩ := not_or.mp hf
      have ho : h.oom h.brk = false := Bool.eq_false_iff.mpr ho
      obtain ⟨g, hg, -, hchain⟩ := createCbOut_made (E := E) skb ho hhops
      obtain ⟨q, hq⟩ := insertCbOut_self (E := E) g h.brk false
      have hsame : (insertCbOut E g h.brk false).chain
          ((insertCbOut E g h.brk false).outMem h.brk) = h.scMem sc := by
        rw [hq, ← hchain]
        exact chain_congr rfl (insertCbOut_scMem g h.brk false)
      rw [hg, outSynWith_dropped, hsame]
      refine and_congr_right fun _ => ⟨fun hroom => ⟨ho, sc, rfl, hhops, hroom⟩, ?_⟩
      rintro ⟨-, sc', hsome, -, hroom⟩
      obtain rfl := Option.some.inj hsome
      exact hroom

/-- **The output hook drops a frame exactly if** it is a SYN whose chain does not fit. -/
theorem output_dropped_iff (h : Host) (skb : SkBuff) :
    (output E h skb).2.2 = false ↔ ChainTooLong E h skb := by
  by_cases htcp : skb.IsTcp
  swap
  · rw [output_of_not_tcp htcp]
    exact iff_of_false Bool.noConfusion fun hc => htcp hc.toIsTcp
  cases hout : h.lookupOut E skb.session with
  | some p =>
    rw [output_unfold, if_neg (not_not_intro htcp.ip), if_neg (not_not_intro htcp.tcp)]
    simp only [hout, outputWith]
    by_cases hsyn : skb.hasSyn = true
    · rw [if_pos hsyn, outSyn, outSynWith_dropped]
      constructor
      · rintro ⟨hack, hroom⟩
        exact { htcp with syn := hsyn, noAck := hack, room := Or.inl ⟨p, hout, hroom⟩ }
      · intro hc
        refine ⟨hc.noAck, ?_⟩
        obtain ⟨p', hp', hroom⟩ | ⟨hnone, -⟩ := hc.room
        · obtain rfl := Option.some.inj (hout.symm.trans hp')
          exact hroom
        · exact absurd (hout.symm.trans hnone) (Option.some_ne_none p)
    · rw [if_neg hsyn]
      exact iff_of_false Bool.noConfusion fun hc => hsyn hc.syn
  | none =>
    cases hpen : h.lookupPen E skb.session with
    | some p =>
      rw [output_unfold, if_neg (not_not_intro htcp.ip), if_neg (not_not_intro htcp.tcp)]
      simp only [hout, hpen]
      refine iff_of_false Bool.noConfusion fun hc => ?_
      obtain ⟨p', hp', -⟩ | ⟨-, hnone, -⟩ := hc.room
      · cases hout.symm.trans hp'
      · cases hpen.symm.trans hnone
    | none =>
      by_cases htag : CarriesPendingTag E h skb
      · have hpass : (output E h skb).2.2 = true := by
          obtain ⟨p, g, hfound⟩ : ∃ p g, lookupPenTag E h skb = (some p, g) := by
            have hsome := carriesPendingTag_iff.mp htag
            obtain ⟨p, hp⟩ := Option.ne_none_iff_exists'.mp hsome
            exact ⟨p, _, Prod.ext hp rfl⟩
          rw [output_unfold, if_neg (not_not_intro htcp.ip), if_neg (not_not_intro htcp.tcp)]
          simp only [hout, hpen, hfound]
        rw [hpass]
        refine iff_of_false Bool.noConfusion fun hc => ?_
        obtain ⟨p', hp', -⟩ | ⟨-, -, hno, -⟩ := hc.room
        · cases hout.symm.trans hp'
        · exact hno htag
      · obtain ⟨hyes, -⟩ | ⟨-, heq⟩ := output_of_none htcp hout hpen
        · exact absurd hyes htag
        rw [heq]
        by_cases hsyn : skb.hasSyn = true
        · rw [if_pos hsyn, outSyn_none_dropped]
          constructor
          · rintro ⟨hack, ho, hsc⟩
            exact { htcp with
              syn := hsyn, noAck := hack, room := Or.inr ⟨hout, hpen, htag, ho, hsc⟩ }
          · intro hc
            obtain ⟨p', hp', -⟩ | ⟨-, -, -, ho, hsc⟩ := hc.room
            · cases hout.symm.trans hp'
            · exact ⟨hc.noAck, ho, hsc⟩
        · rw [if_neg hsyn]
          exact iff_of_false Bool.noConfusion fun hc => hsyn hc.syn

/-! ## The frames that the input hook drops -/

/-- A SYN with a payload, for which a block cannot be had. -/
structure SynLost (E : Env) (h : Host) (skb : SkBuff) : Prop extends skb.IsTcp where
  unknown : h.lookupIn E skb.session = none
  syn : skb.hasSyn = true
  payload : skb.doff.toNat * 4 < skb.tcpLen
  oom : h.ChainOom skb.synPacket

/-- **The input hook drops a frame exactly if** it is a SYN with a payload for which there is no
memory. -/
theorem input_dropped_iff (h : Host) (skb : SkBuff) :
    (input E h skb).2.2 = false ↔ SynLost E h skb := by
  by_cases htcp : skb.IsTcp
  swap
  · rw [input_of_not_tcp htcp]
    exact iff_of_false Bool.noConfusion fun hc => htcp hc.toIsTcp
  rw [input, if_neg (not_not_intro htcp.ip), if_neg (not_not_intro htcp.tcp)]
  cases hin : h.lookupIn E skb.session with
  | some q =>
    refine iff_of_false ?_ fun hc => ?_
    · simp only
      repeat' split
      all_goals exact Bool.noConfusion
    · cases hin.symm.trans hc.unknown
  | none =>
    simp only
    by_cases hsyn : skb.hasSyn = true
    swap
    · rw [if_neg hsyn]
      exact iff_of_false Bool.noConfusion fun hc => hsyn hc.syn
    rw [if_pos hsyn, rxInitiationNew]
    by_cases hpay : skb.doff.toNat * 4 < skb.tcpLen
    swap
    · rw [if_neg hpay]
      exact iff_of_false Bool.noConfusion fun hc => hpay hc.payload
    rw [if_pos hpay]
    by_cases ho : h.ChainOom skb.synPacket
    · obtain ⟨g, hg, -⟩ := insertCbInput_oom E skb ho
      rw [hg]
      exact iff_of_true rfl { htcp with unknown := hin, syn := hsyn, payload := hpay, oom := ho }
    · obtain ⟨q, g, hg, -⟩ := insertCbInput_ok E skb ho
      rw [hg]
      exact iff_of_false Bool.noConfusion fun hc => ho hc.oom

/-! ## The datagrams that the output hook refuses -/

/-- The blocks and sockets that a message to the management port names are not all there. -/
def SocketsUnknown (E : Env) (h : Host) (m : ControlMessage) : Prop :=
  ∀ l, h.lookupOut E m.leftSS.reverse = some l → (h.outMem l).myTp = none ∧
    ∀ r, h.lookupOut E m.rightSS = some r →
      E.establishedSock m.leftSS (h.inOf (h.outMem l)).skbIif = none ∨
        E.establishedSock m.rightSS.reverse (h.inOf (h.outMem r)).skbIif = none

/-- A `DYSCO_SYN` for which there is no memory or, at the left anchor, no session. -/
def SynRefused (E : Env) (h : Host) (pkt : ControlPacket) : Prop :=
  if pkt.saddr = pkt.msg.leftA then
    h.lookupReconfig E pkt.msg.super = none ∧
      (h.lookupOut E pkt.msg.leftSS = none ∨ h.oom h.brk = true ∨ h.oom (h.brk + 1) = true)
  else
    (∀ r, h.lookupReconfig E pkt.msg.super = some r → (h.rcbMem r).subOut.sip = 0#32) ∧
      h.oom h.brk = true

/-- A control datagram of this host that cannot be handled. -/
structure Refused (E : Env) (h : Host) (pkt : ControlPacket) : Prop where
  port : pkt.dest = dyscoControlPort ∨ pkt.source = dyscoControlPort ∨ pkt.dest = dyscoMgmPort
  long : controlMinLen ≤ (ntohs pkt.udpLen).toNat
  local_addr : pkt.saddr ∈ E.ifaddrs
  failed : (pkt.dest = dyscoMgmPort ∧ SocketsUnknown E h pkt.msg) ∨
    (pkt.dest ≠ dyscoMgmPort ∧ pkt.msg.mtype = .syn ∧ SynRefused E h pkt)

theorem ctlSaveRcvWindow_failed_iff (h : Host) (m : ControlMessage) :
    (ctlSaveRcvWindow E h m).1 = false ↔ SocketsUnknown E h m := by
  rw [ctlSaveRcvWindow, SocketsUnknown]
  cases hl : h.lookupOut E m.leftSS.reverse with
  | none => exact iff_of_true rfl fun l hn => nomatch hn
  | some l =>
    have hone : ∀ P : Nat → Prop, (∀ l', some l = some l' → P l') ↔ P l :=
      fun P => ⟨fun hp => hp l rfl, fun hp l' hl' => Option.some.inj hl' ▸ hp⟩
    rw [hone]
    simp only
    cases hmy : (h.outMem l).myTp with
    | some my => exact iff_of_false Bool.noConfusion fun hn => nomatch hn.1
    | none =>
      simp only [Option.isSome_none, Bool.false_eq_true, if_false, true_and]
      cases hr : h.lookupOut E m.rightSS with
      | none => exact iff_of_true rfl fun r hn => nomatch hn
      | some r =>
        simp only [Option.some.injEq, forall_eq']
        cases E.establishedSock m.leftSS (h.inOf (h.outMem l)).skbIif with
        | none => exact iff_of_true rfl (Or.inl rfl)
        | some my =>
          cases E.establishedSock m.rightSS.reverse (h.inOf (h.outMem r)).skbIif with
          | none => exact iff_of_true rfl (Or.inr rfl)
          | some other =>
            exact iff_of_false Bool.noConfusion fun hn => hn.elim (fun h1 => nomatch h1)
              fun h1 => nomatch h1

/-- The block of a reconfiguration is the first that is made on the way out. -/
theorem insertCbControl_brk {pkt pkt1 : ControlPacket} {r : Option Nat}
    (hins : insertCbControl E h pkt = (r, g, pkt1)) : g.brk = h.brk + 1 ∧ g.oom = h.oom := by
  rw [insertCbControl, Host.kmalloc] at hins
  by_cases ho : h.oom h.brk = true
  · simp only [if_pos ho] at hins
    cases hins
    exact ⟨rfl, rfl⟩
  · simp only [if_neg ho] at hins
    cases hins
    exact ⟨rfl, rfl⟩

theorem startLeftA_failed_iff (g : Host) (pkt : ControlPacket) (r old : Nat) :
    (startLeftA E g pkt r old).1 = false ↔ g.oom g.brk = true := by
  rw [startLeftA, kzallocOut_eq]
  by_cases ho : g.oom g.brk = true
  · rw [if_pos ho]
    exact iff_of_true rfl ho
  · rw [if_neg ho]
    exact iff_of_false Bool.noConfusion ho

theorem controlOutputSyn_refused_iff (h : Host) (pkt : ControlPacket) :
    (controlOutputSyn E h pkt).1 = false ↔ SynRefused E h pkt := by
  rw [controlOutputSyn, SynRefused]
  simp only
  by_cases hleft : pkt.saddr = pkt.msg.leftA
  · rw [if_pos hleft, if_pos hleft]
    cases hr : h.lookupReconfig E pkt.msg.super with
    | some r => exact iff_of_false Bool.noConfusion fun hn => by cases hn.1
    | none =>
      cases hold : h.lookupOut E pkt.msg.leftSS with
      | none => exact iff_of_true rfl ⟨rfl, Or.inl rfl⟩
      | some old =>
        simp only [true_and, reduceCtorEq, false_or]
        cases hins : insertCbControl E h
            (pkt.announce (h.outMem old) (h.inOf (h.outMem old))) with
        | mk o rest =>
          obtain ⟨g, pkt1⟩ := rest
          obtain ⟨hbrk, hoom⟩ := insertCbControl_brk hins
          obtain ⟨rfl, ho, -⟩ | ⟨hsome, ho, -⟩ := insertCbControl_cases hins
          · exact iff_of_true rfl (Or.inl ho)
          · obtain ⟨r, rfl⟩ := Option.ne_none_iff_exists'.mp hsome
            simp only
            rw [startLeftA_failed_iff, hbrk, hoom, ho]
            simp
  · rw [if_neg hleft, if_neg hleft]
    have hagain : (h.lookupReconfig E pkt.msg.super).elim false
        (fun r => decide ((h.rcbMem r).subOut.sip ≠ 0#32)) = false ↔
        ∀ r, h.lookupReconfig E pkt.msg.super = some r → (h.rcbMem r).subOut.sip = 0#32 := by
      cases h.lookupReconfig E pkt.msg.super <;> simp
    rw [← hagain]
    generalize (h.lookupReconfig E pkt.msg.super).elim false
      (fun r => decide ((h.rcbMem r).subOut.sip ≠ 0#32)) = again
    cases again with
    | true => exact iff_of_false Bool.noConfusion fun hn => by cases hn.1
    | false =>
      simp only [Bool.false_eq_true, if_false, true_and]
      cases hins : insertCbControl E h pkt with
      | mk o rest =>
        obtain ⟨g, pkt1⟩ := rest
        obtain ⟨rfl, ho, -⟩ | ⟨hsome, ho, -⟩ := insertCbControl_cases hins
        · exact iff_of_true rfl ho
        · obtain ⟨r, rfl⟩ := Option.ne_none_iff_exists'.mp hsome
          exact iff_of_false Bool.noConfusion fun h1 => Bool.false_ne_true (ho.symm.trans h1)

/-- **`dysco_control_output` answers zero exactly if** the datagram cannot be handled. -/
theorem controlOutput_refused_iff (h : Host) (pkt : ControlPacket) :
    (controlOutput E h pkt).2.2 = false ↔ Refused E h pkt := by
  rw [controlOutput]
  by_cases hport : pkt.dest = dyscoControlPort ∨ pkt.source = dyscoControlPort ∨
      pkt.dest = dyscoMgmPort
  swap
  · rw [if_pos hport]
    exact iff_of_false Bool.noConfusion fun hr => hport hr.port
  rw [if_neg (not_not_intro hport)]
  by_cases hlen : (ntohs pkt.udpLen).toNat < controlMinLen
  · rw [if_pos hlen]
    exact iff_of_false Bool.noConfusion fun hr => Nat.not_lt_of_le hr.long hlen
  rw [if_neg hlen]
  by_cases haddr : pkt.saddr ∈ E.ifaddrs
  swap
  · rw [if_pos haddr]
    exact iff_of_false Bool.noConfusion fun hr => haddr hr.local_addr
  rw [if_neg (not_not_intro haddr)]
  have hfailed : Refused E h pkt ↔
      ((pkt.dest = dyscoMgmPort ∧ SocketsUnknown E h pkt.msg) ∨
        (pkt.dest ≠ dyscoMgmPort ∧ pkt.msg.mtype = .syn ∧ SynRefused E h pkt)) :=
    ⟨fun hr => hr.failed, fun hf => ⟨hport, Nat.le_of_not_lt hlen, haddr, hf⟩⟩
  rw [hfailed]
  by_cases hmgm : pkt.dest = dyscoMgmPort
  · rw [if_pos hmgm]
    simp only [hmgm, true_and, ne_eq, not_true_eq_false, false_and, or_false]
    exact ctlSaveRcvWindow_failed_iff h pkt.msg
  · rw [if_neg hmgm]
    simp only [hmgm, false_and, ne_eq, not_false_eq_true, true_and, false_or]
    cases hm : pkt.msg.mtype with
    | syn =>
      simp only [true_and]
      exact controlOutputSyn_refused_iff h pkt
    | synAck =>
      refine iff_of_false ?_ fun hn => by cases hn.1
      simp only
      split <;> exact Bool.noConfusion
    | ack => exact iff_of_false Bool.noConfusion fun hn => by cases hn.1
    | fin => exact iff_of_false Bool.noConfusion fun hn => by cases hn.1
    | stateTransferred => exact iff_of_false Bool.noConfusion fun hn => by cases hn.1
    | ackAck => exact iff_of_false Bool.noConfusion fun hn => by cases hn.1
    | unknown code => exact iff_of_false Bool.noConfusion fun hn => by cases hn.1

/-! ## The drivers -/

/-- The four places from which a packet reaches a hook. -/
inductive Binding where
  | nfIn
  | nfOut
  /-- Transmission; the device may have no peer. -/
  | vethXmit (peer : Bool)
  /-- Reception; the packet may come from the loopback device, and others may hold it. -/
  | vethReceive (loopback : Bool) (sharing : Sharing)
deriving DecidableEq, Repr

variable (E) in
def Binding.run : Binding → Host → Packet → Host × Fate
  | .nfIn => dyscoNfIn E
  | .nfOut => dyscoNfOut E
  | .vethXmit peer => Dysco.vethXmit E peer
  | .vethReceive loopback sharing => dyscoHandleFrame E loopback sharing

/-- A packet that is passed on is not freed, and one that is not is freed exactly once; so is a
clone, which is not passed on. -/
def Fate.OwnedOnce (fate : Fate) : Prop :=
  (fate.frees = if fate.passed = true then 0 else 1) ∧ ∀ n, fate.clone = some n → n = 1

/-- A SYN that is lost at one of the addresses of the device that it matches. -/
def LostAtOne (E : Env) : List U32 → Host → Packet → Prop
  | [], _, _ => False
  | ifa :: ifas, h, .frame f =>
    if f.skb.daddr = ifa then
      SynLost E h f.skb ∨ LostAtOne E ifas (input E h f.skb).1 (.frame (f.received E h))
    else LostAtOne E ifas h (.frame f)
  | _ :: _, _, .datagram _ _ => False

/-- The packets that a driver and the module treat differently: netfilter frees again the frames
that the hooks have dropped, `veth_xmit` does not free the datagrams that are refused, and the
receive handler has dropped the shared packets that it passes on. -/
def Mishandled (E : Env) (h : Host) : Binding → Packet → Prop
  | .nfIn, .frame f => f.skb.daddr ∈ E.ifaddrs ∧ SynLost E h f.skb
  | .nfOut, .frame f => ChainTooLong E h { f.skb with hProto := htons ethPIp }
  | .vethXmit _, .datagram hProto pkt => ntohs hProto = ethPIp ∧ Refused E h pkt
  | .vethReceive loopback sharing, pkt => loopback = false ∧ isValidEtherAddr pkt.hSource = true ∧
      sharing = .shared true ∧ ¬ LostAtOne E E.ifaddrs h pkt
  | .nfIn, .datagram _ _ | .nfOut, .datagram _ _ | .vethXmit _, .frame _ => False

/-- The result of the output hook, for a datagram. -/
theorem dyscoOutput_refused_iff (h : Host) (hProto : U16) (pkt : ControlPacket) :
    (dyscoOutput E h (.datagram hProto pkt)).2.2 = false ↔
      ntohs hProto = ethPIp ∧ Refused E h pkt := by
  rw [dyscoOutput]
  by_cases hip : ntohs hProto = ethPIp
  · rw [if_neg (not_not_intro hip), and_iff_right hip]
    exact controlOutput_refused_iff h pkt
  · rw [if_pos hip]
    exact iff_of_false Bool.noConfusion fun hr => hip hr.1

/-- A datagram always goes on from the input hook. -/
theorem dyscoInput_datagram (h : Host) (hProto : U16) (pkt : ControlPacket) :
    (dyscoInput E h (.datagram hProto pkt)).2.2 = true := by
  rw [dyscoInput]
  split <;> rfl

/-- However many addresses match, the packet is freed once if it is consumed. -/
theorem handleAddrs_frees (ifas : List U32) (h : Host) (pkt : Packet) :
    (handleAddrs E ifas h pkt).2.1.frees =
      pkt.frees + if (handleAddrs E ifas h pkt).2.2 = true then 0 else 1 := by
  induction ifas generalizing h pkt with
  | nil => rfl
  | cons ifa ifas ih =>
    rw [handleAddrs]
    split
    · have hfrees := dyscoInput_frees E h pkt
      cases hret : dyscoInput E h pkt with
      | mk g rest =>
        obtain ⟨pkt', ret⟩ := rest
        rw [hret] at hfrees
        cases ret with
        | true =>
          have hnext := ih g pkt'
          rw [show pkt'.frees = pkt.frees from hfrees] at hnext
          exact hnext
        | false => exact hfrees
    · exact ih h pkt

/-- **A packet is consumed exactly if** it is a SYN that is lost at an address of the device. -/
theorem handleAddrs_consumed_iff (ifas : List U32) (h : Host) (pkt : Packet) :
    (handleAddrs E ifas h pkt).2.2 = false ↔ LostAtOne E ifas h pkt := by
  induction ifas generalizing h pkt with
  | nil => exact iff_of_false Bool.noConfusion id
  | cons ifa ifas ih =>
    rw [handleAddrs]
    cases pkt with
    | datagram hProto pkt =>
      refine iff_of_false ?_ id
      have hnext : ∀ g pkt', ¬ (handleAddrs E ifas g (.datagram hProto pkt')).2.2 = false := by
        intro g pkt' hc
        have hlost := (ih g (.datagram hProto pkt')).mp hc
        cases ifas <;> exact hlost
      split
      · simp only [dyscoInput_datagram, if_true]
        rw [dyscoInput]
        split
        · exact hnext h pkt
        · exact hnext _ _
      · exact hnext h pkt
    | frame f =>
      rw [LostAtOne]
      by_cases haddr : f.skb.daddr = ifa
      swap
      · rw [if_neg haddr, if_neg (show ¬ (Packet.frame f).daddr = ifa from haddr)]
        exact ih h (.frame f)
      rw [if_pos haddr, if_pos (show (Packet.frame f).daddr = ifa from haddr)]
      rw [← input_dropped_iff, dyscoInput]
      cases hret : (input E h f.skb).2.2 with
      | false => exact iff_of_true rfl (Or.inl rfl)
      | true =>
        simp only [if_true, Bool.true_eq_false, false_or]
        exact ih (input E h f.skb).1 (.frame (f.received E h))

/-- Without a clone only the packet counts. -/
theorem ownedOnce_own_iff {passed : Bool} {n : Nat} :
    Fate.OwnedOnce { passed, frees := n } ↔ n = if passed = true then 0 else 1 :=
  and_iff_left fun _ hn => nomatch hn

/-- A netfilter hook frees a packet once more than the module has, if the answer is zero. -/
theorem netfilter_ownedOnce_iff {freed : Nat} {ret : Bool} (h : Host) :
    (if ret then (h, ({ passed := true, frees := freed } : Fate))
      else (h, { passed := false, frees := freed + 1 })).2.OwnedOnce ↔ freed = 0 := by
  cases ret with
  | true => exact ownedOnce_own_iff
  | false => exact ownedOnce_own_iff.trans Nat.succ_inj

theorem freedBefore_iff (ret : Bool) : (if ret = true then 0 else 1) = 0 ↔ ¬ ret = false := by
  cases ret <;> simp

/-- What `veth_xmit` does with a packet that the hook has freed `freed` times. -/
theorem vethXmit_ownedOnce_iff {freed : Nat} {ret peer : Bool} (h : Host) :
    (if ret = false then (h, ({ passed := false, frees := freed } : Fate))
      else if peer = false then (h, { passed := false, frees := freed + 1 })
      else (h, { passed := true, frees := freed })).2.OwnedOnce ↔
      freed = if ret = true then 0 else 1 := by
  cases ret with
  | false => exact ownedOnce_own_iff
  | true =>
    cases peer with
    | false => exact ownedOnce_own_iff.trans Nat.succ_inj
    | true => exact ownedOnce_own_iff

/-- The receive handler: a packet of its own is right, and of the shared ones those of which no
clone can be had or whose clone is consumed. -/
theorem dyscoHandleFrame_ownedOnce_iff (loopback : Bool) (sharing : Sharing) (h : Host)
    (pkt : Packet) : (dyscoHandleFrame E loopback sharing h pkt).2.OwnedOnce ↔
      ¬ Mishandled E h (.vethReceive loopback sharing) pkt := by
  rw [Mishandled, dyscoHandleFrame.eq_def]
  by_cases hloop : loopback = true
  · rw [if_pos hloop]
    exact iff_of_true (ownedOnce_own_iff.mpr rfl) fun hm => by
      rw [hm.1] at hloop
      cases hloop
  rw [if_neg hloop]
  by_cases hvalid : isValidEtherAddr pkt.hSource = true
  swap
  · rw [if_pos (by simpa using hvalid)]
    exact iff_of_true (ownedOnce_own_iff.mpr rfl) fun hm => hvalid hm.2.1
  rw [if_neg (by simpa using hvalid), ← handleAddrs_consumed_iff]
  have hfrees := handleAddrs_frees (E := E) E.ifaddrs h pkt
  cases sharing with
  | own =>
    refine iff_of_true (ownedOnce_own_iff.mpr ?_) fun hm => nomatch hm.2.2.1
    rw [hfrees, Nat.add_sub_cancel_left]
  | shared cloned =>
    cases cloned with
    | false =>
      refine iff_of_true (ownedOnce_own_iff.mpr rfl) fun hm => ?_
      cases hm.2.2.1
    | true =>
      simp only [hloop, hvalid, true_and, not_not]
      rw [Fate.OwnedOnce]
      simp only [hfrees, Nat.add_sub_cancel_left]
      cases (handleAddrs E E.ifaddrs h pkt).2.2 with
      | true => exact iff_of_false (fun ho => Nat.one_ne_zero ho.1) Bool.noConfusion
      | false => exact iff_of_true ⟨rfl, fun n hn => (Option.some.inj hn).symm⟩ rfl

/-- **A packet is freed exactly once or passed on unless** the driver and the module disagree on
what zero means. -/
theorem ownedOnce_iff (E : Env) (b : Binding) (h : Host) (pkt : Packet) :
    (b.run E h pkt).2.OwnedOnce ↔ ¬ Mishandled E h b pkt := by
  cases b with
  | nfIn =>
    rw [Binding.run, dyscoNfIn]
    by_cases haddr : pkt.daddr ∈ E.ifaddrs
    swap
    · rw [if_neg haddr]
      refine iff_of_true (ownedOnce_own_iff.mpr rfl) ?_
      cases pkt with
      | frame f => exact fun hm => haddr hm.1
      | datagram hProto pkt => exact id
    rw [if_pos haddr]
    simp only
    rw [netfilter_ownedOnce_iff, dyscoInput_frees, Nat.add_sub_cancel_left]
    cases pkt with
    | frame f =>
      rw [Mishandled, and_iff_right (show f.skb.daddr ∈ E.ifaddrs from haddr),
        ← input_dropped_iff]
      exact freedBefore_iff (input E h f.skb).2.2
    | datagram hProto pkt =>
      rw [dyscoInput_datagram]
      exact iff_of_true rfl id
  | nfOut =>
    rw [Binding.run, dyscoNfOut]
    simp only
    rw [netfilter_ownedOnce_iff, dyscoOutput_frees, Nat.add_sub_cancel_left]
    cases pkt with
    | frame f => exact (freedBefore_iff _).trans (not_congr (output_dropped_iff h _))
    | datagram hProto pkt => exact iff_of_true rfl id
  | vethXmit peer =>
    rw [Binding.run, Dysco.vethXmit]
    simp only
    rw [vethXmit_ownedOnce_iff, dyscoOutput_frees, Nat.add_sub_cancel_left]
    cases pkt with
    | frame f => exact iff_of_true rfl id
    | datagram hProto pkt =>
      rw [Mishandled, ← dyscoOutput_refused_iff]
      cases (dyscoOutput E h (.datagram hProto pkt)).2.2 with
      | true => exact iff_of_true rfl Bool.noConfusion
      | false => exact iff_of_false Nat.zero_ne_one fun hn => hn rfl
  | vethReceive loopback sharing => exact dyscoHandleFrame_ownedOnce_iff loopback sharing h pkt

/-- A message to the management port, about sessions that this host does not know. -/
def unknownSession : ControlPacket :=
  { (default : ControlPacket) with
    saddr := htonl 0x0a000003#32, dest := dyscoMgmPort, udpLen := htons 111#16 }

theorem refused_unknownSession :
    Refused { (default : Env) with ifaddrs := [htonl 0x0a000003#32] } Host.fresh
      unknownSession where
  port := Or.inr (Or.inr rfl)
  long := by decide
  local_addr := List.mem_singleton_self _
  failed := Or.inl ⟨rfl, fun l hl => by
    rw [Host.lookupOut, Host.fresh, BucketTable.lookup_empty] at hl
    cases hl⟩

/-- `veth_xmit` neither forwards nor frees such a message. -/
theorem not_ownedOnce : ¬ ∀ (E : Env) (b : Binding) (h : Host) (pkt : Packet),
    (b.run E h pkt).2.OwnedOnce := by
  intro hall
  have howned := hall { (default : Env) with ifaddrs := [htonl 0x0a000003#32] } (.vethXmit true)
    Host.fresh (.datagram (htons ethPIp) unknownSession)
  rw [Binding.run, Dysco.vethXmit] at howned
  simp only at howned
  rw [vethXmit_ownedOnce_iff, dyscoOutput_frees, Nat.add_sub_cancel_left,
    (dyscoOutput_refused_iff _ _ _).mpr ⟨by decide, refused_unknownSession⟩] at howned
  exact Nat.zero_ne_one howned

end Dysco
