import Dysco.SynFailure
import Dysco.Wiring

/-! # The two anchors of a reconfiguration

When the middleboxes between two anchors are removed, the anchors' daemons exchange `DYSCO_SYN`,
`DYSCO_SYN_ACK` and `DYSCO_ACK` over a network that may lose, repeat and reorder them, while both
stacks go on sending segments of the session, some on the old path and some on the new one.
Whatever the order of all this, what an anchor's stack is handed from the new path is what the other
stack has sent, in the numbers of its own session (`anchors_deliver`), and an anchor that has
switched agrees with the other one on where the old path ends (`cutoffs_agree`).
-/
namespace Dysco
open TransitionSystem BucketTable

/-- The two ends of a reconfiguration. -/
inductive Anchor where
  | left
  | right
deriving DecidableEq, Repr

def Anchor.other : Anchor → Anchor
  | .left => .right
  | .right => .left

/-- A reconfiguration after which nothing is left between the anchors: what the rest of the kernel
answers at either anchor, its address, and the session as its own stack sends it. -/
structure Reconfiguration where
  env : Anchor → Env
  addr : Anchor → U32
  own : Anchor → TcpSession
  apart : addr .left ≠ addr .right
  /-- The left anchor's kernel sends to the right anchor from the address that its daemon uses. -/
  routed : ∀ tos, ∃ hop, (env .left).route tos (addr .right) = some (addr .left, hop)

/-- The message is about this reconfiguration, which is without state transfer. -/
structure Reconfiguration.Names (c : Reconfiguration) (m : ControlMessage) : Prop where
  super : m.super = c.own .left
  leftSS : m.leftSS = c.own .left
  rightSS : m.rightSS = (c.own .right).reverse
  leftA : m.leftA = c.addr .left
  rightA : m.rightA = c.addr .right
  plain : ¬ m.WithState

/-- Both anchors and the network between them, with what has been sent and handed on so far. -/
structure Anchors where
  host : Anchor → Host
  /-- The control messages that have left either anchor. -/
  control : List ControlPacket
  /-- The segments that have left an anchor, on either path. -/
  wire : Anchor → List SkBuff
  /-- The segments of the session that an anchor's stack has sent. -/
  sent : Anchor → List SkBuff
  /-- Those of them that have not gone to the other anchor, but left on the old path. -/
  onOld : Anchor → List SkBuff
  /-- What an anchor's stack has been handed from the new path. -/
  got : Anchor → List SkBuff
  /-- Whether an anchor's daemon has been handed the message that it waits for. -/
  heard : Anchor → Bool

/-- The message that an anchor's daemon waits for before it answers. -/
def Anchor.awaits : Anchor → MessageType
  | .left => .synAck
  | .right => .syn

/-- What happens: the network may hand on anything that has left, at any time, again, or never. -/
inductive AnchorMove where
  /-- The daemon sends a message, for the first time or again. -/
  | speaks (x : Anchor) (pkt : ControlPacket)
  /-- A message arrives. -/
  | hears (x : Anchor) (pkt : ControlPacket)
  /-- The stack sends a segment of the session. -/
  | sends (x : Anchor) (skb : SkBuff)
  /-- A segment that the other anchor has addressed to this one arrives. -/
  | takes (x : Anchor) (skb : SkBuff)
  /-- A segment arrives from anywhere else, such as the old path. -/
  | foreign (x : Anchor) (skb : SkBuff)

/-- When a daemon sends which message: it answers what it has heard. -/
def Anchors.MaySay (s : Anchors) : Anchor → MessageType → Prop
  | .left, .syn => True
  | .left, .ack => s.heard .left = true
  | .right, .synAck => s.heard .right = true
  | _, _ => False

namespace Reconfiguration
variable (c : Reconfiguration)

/-- The daemon of an anchor sends the message to the other anchor. -/
structure Speaks (s : Anchors) (x : Anchor) (pkt : ControlPacket) : Prop
    extends pkt.Handled (c.env x) where
  names : c.Names pkt.msg
  saddr : pkt.saddr = c.addr x
  daddr : pkt.daddr = c.addr x.other
  may : s.MaySay x pkt.msg.mtype

/-- A message as a daemon writes it: what the module fills in is still empty. -/
def message (x : Anchor) (mtype : MessageType) : ControlPacket :=
  { (default : ControlPacket) with
    saddr := c.addr x
    daddr := c.addr x.other
    source := dyscoControlPort
    udpLen := htons 111#16
    msg :=
      { (default : ControlMessage) with
        mtype := mtype
        super := c.own .left
        leftSS := c.own .left
        rightSS := (c.own .right).reverse
        leftA := c.addr .left
        rightA := c.addr .right } }

theorem speaks_message {s : Anchors} {x : Anchor} {mtype : MessageType}
    (hown : c.addr x ∈ (c.env x).ifaddrs) (hmay : s.MaySay x mtype) :
    c.Speaks s x (c.message x mtype) where
  port := Or.inr rfl
  not_mgm := (by decide : 0#16 ≠ dyscoMgmPort)
  long := (by decide : controlMinLen ≤ (ntohs (htons 111#16)).toNat)
  local_addr := hown
  names := ⟨rfl, rfl, rfl, rfl, rfl, (by decide : ¬ ntohs 0#16 = stateTransfer)⟩
  saddr := rfl
  daddr := rfl
  may := hmay

/-- When a move can happen. -/
def Enabled (s : Anchors) : AnchorMove → Prop
  | .speaks x pkt => c.Speaks s x pkt
  | .hears x pkt => pkt ∈ s.control ∧ pkt.daddr = c.addr x
  | .sends x skb => SegmentOf (c.own x) skb
  | .takes x skb => skb ∈ s.wire x.other ∧ skb.daddr = c.addr x
  | .foreign x skb => skb.IsTcp ∧ skb.hasSyn = false ∧ skb.saddr ≠ c.addr x.other

/-- What a move does.  A packet goes on only if the hook has passed it on. -/
def effect (s : Anchors) : AnchorMove → Anchors
  | .speaks x pkt =>
    let r := controlOutput (c.env x) (s.host x) pkt
    { s with
      host := Function.update s.host x r.1
      control := if r.2.2 then r.2.1 :: s.control else s.control }
  | .hears x pkt =>
    let r := dyscoInput (c.env x) (s.host x) (.datagram (htons ethPIp) pkt)
    { s with
      host := Function.update s.host x r.1
      heard :=
        if r.2.2 ∧ pkt.msg.mtype = x.awaits then Function.update s.heard x true else s.heard }
  | .sends x skb =>
    let r := output (c.env x) (s.host x) skb
    { s with
      host := Function.update s.host x r.1
      wire := if r.2.2 then Function.update s.wire x (r.2.1 :: s.wire x) else s.wire
      sent := Function.update s.sent x (skb :: s.sent x)
      onOld :=
        if r.2.2 ∧ r.2.1.daddr ≠ c.addr x.other then
          Function.update s.onOld x (skb :: s.onOld x)
        else s.onOld }
  | .takes x skb =>
    let r := input (c.env x) (s.host x) skb
    { s with
      host := Function.update s.host x r.1
      got := if r.2.2 then Function.update s.got x (r.2.1 :: s.got x) else s.got }
  | .foreign x skb =>
    { s with host := Function.update s.host x (input (c.env x) (s.host x) skb).1 }

/-- An anchor with the session on one path, before it has heard of the reconfiguration, and with
memory to be had. -/
structure Idle (x : Anchor) (o : Nat) (h : Host) : Prop where
  wf : h.WF
  memory : ∀ a, h.oom a = false
  first : h.lookupReconfig (c.env x) (c.own .left) = none
  session : h.lookupOut (c.env x) (c.own x) = some o
  onePath : (h.outMem o).otherPath = none
  plain : (h.outMem o).stateT = false
  /-- The old path goes by way of other hosts. -/
  detour : (h.outMem o).sub.dip ≠ c.addr x.other

/-- No switch has begun: the session's block is unmarked, no other block is bound to it, and blocks
lead to blocks that are there. -/
structure Ready (x : Anchor) (o : Nat) (h : Host) : Prop extends c.Idle x o h where
  state : (h.outMem o).state = .onePath
  unmarked : (h.outMem o).validAckCut = false
  alone : ∀ p, (h.outMem p).otherPath ≠ some o
  inner : ∀ q p, h.hashIn.Holds q → (h.inMem q).dcbOut = some p → p < h.brk

/-- Nothing has been said or sent yet. -/
structure Still (s : Anchors) : Prop where
  ready : ∀ x, ∃ o, c.Ready x o (s.host x)
  control : s.control = []
  wire : ∀ x, s.wire x = []
  onOld : ∀ x, s.onOld x = []
  got : ∀ x, s.got x = []
  heard : ∀ x, s.heard x = false

/-- The system, from the moment the first `DYSCO_SYN` has left the left anchor. -/
def system : TransitionSystem Anchors AnchorMove where
  init s := ∃ s₀ pkt, c.Still s₀ ∧ c.Speaks s₀ .left pkt ∧ pkt.msg.mtype = .syn ∧
    s = c.effect s₀ (.speaks .left pkt)
  step s l t := c.Enabled s l ∧ t = c.effect s l

/-- The input hook hands every message on, whatever its handler answers. -/
theorem effect_hears (s : Anchors) (x : Anchor) (pkt : ControlPacket) : c.effect s (.hears x pkt) =
    { s with
      host := Function.update s.host x (controlInput (c.env x) (s.host x) pkt).1
      heard := if pkt.msg.mtype = x.awaits then Function.update s.heard x true else s.heard } := by
  have hip : ¬ ntohs (htons ethPIp) ≠ ethPIp := not_not_intro (ntohs_htons _)
  simp only [effect, dyscoInput, if_neg hip, true_and]

/-- The output block of the session at an anchor. -/
def block (s : Anchors) (x : Anchor) : CbOut :=
  ((s.host x).lookupOut (c.env x) (c.own x)).elim default (s.host x).outMem

end Reconfiguration

/-! ## An anchor with both paths -/

/-- The blocks of the session at an anchor: of the old path, and both of the new one. -/
structure Blocks where
  old : Nat
  new : Nat
  inp : Nat

/-- An anchor from which the new path goes out as subsession `sub`. -/
structure Bridge (E : Env) (own sub : TcpSession) (b : Blocks) (h : Host) : Prop where
  look : h.lookupOut E own = some b.old
  apart : (h.outMem b.old).sub.dip ≠ sub.dip
  up : ∀ n, (h.outMem b.old).otherPath = some n → n = b.new
  plain : (h.outMem b.old).stateT = false
  goes : (h.outMem b.new).sub = sub
  back : (h.outMem b.new).otherPath = some b.old
  comes : h.lookupIn E sub.reverse = some b.inp
  super : (h.inMem b.inp).super = own.reverse
  leads : (h.inMem b.inp).dcbOut = some b.new

section Bridge
variable {E : Env} {own sub : TcpSession} {b : Blocks} {h g : Host} {skb skb' : SkBuff} {u v : U32}

theorem Bridge.wired (hb : Bridge E own sub b h) (hs : SameWiring h g) : Bridge E own sub b g where
  look := (hs.lookupOut own).trans hb.look
  apart := by
    have hsub : (g.outMem b.old).sub = (h.outMem b.old).sub := hs.outField CbOut.sub b.old
    rw [hsub]
    exact hb.apart
  up n hn := hb.up n ((hs.outField CbOut.otherPath b.old).symm.trans hn)
  plain := (hs.outField CbOut.stateT b.old).trans hb.plain
  goes := (hs.outField CbOut.sub b.new).trans hb.goes
  back := (hs.outField CbOut.otherPath b.new).trans hb.back
  comes := (hs.lookupIn sub.reverse).trans hb.comes
  super := (hs.inField CbIn.super b.inp).trans hb.super
  leads := (hs.inField CbIn.dcbOut b.inp).trans hb.leads

theorem Renumbered.segmentOf (hr : Renumbered u v skb skb') (htcp : skb.IsTcp)
    (hsyn : skb.hasSyn = false) : SegmentOf skb'.session skb' := by
  have hhead : (skb'.hProto, skb'.protocol, skb'.flags) = (skb.hProto, skb.protocol, skb.flags) :=
    congrArg Prod.fst hr.body
  simp only [Prod.mk.injEq] at hhead
  obtain ⟨hproto, hprotocol, hflags⟩ := hhead
  refine ⟨⟨?_, ?_⟩, rfl, ?_⟩
  · rw [hproto]
    exact htcp.ip
  · rw [hprotocol]
    exact htcp.tcp
  · rw [SkBuff.hasSyn, hflags]
    exact hsyn

/-- **A segment leaves.**  If it is addressed to where the new path goes, it leaves as the new
path's block has it. -/
theorem Bridge.leaves (hb : Bridge E own sub b h) (hm : (h.outMem b.new).MovesBy u v)
    (hs : SegmentOf own skb) (hto : (output E h skb).2.1.daddr = sub.dip) :
    (output E h skb).2.1.session = sub ∧ Renumbered u v skb (output E h skb).2.1 ∧
      ((h.outMem b.old).state = .synSent → (h.outMem b.old).validAckCut = true) := by
  obtain ⟨s, hsame, heq⟩ := output_segment (E := E) hs.toIsTcp hs.notSyn (hs.session.symm ▸ hb.look)
  rw [heq] at hto ⊢
  rcases outTranslate_ways (E := E) h s b.old with hold | ⟨n, hn, hnew, hwhen⟩
  · exact absurd ((congrArg TcpSession.dip hold).symm.trans hto) hb.apart
  · obtain rfl := hb.up n hn
    obtain ⟨hnum, hsession⟩ := outRewrite_renumbered (E := E) hm s
    simp only [hnew]
    exact ⟨hsession.trans hb.goes, hsame.toRenumbered.zero_trans hnum, hwhen⟩

theorem sameWiring_output {o : Nat} (ho : h.lookupOut E own = some o) (hs : SegmentOf own skb) :
    SameWiring h (output E h skb).1 := by
  obtain ⟨s, -, heq⟩ := output_segment (E := E) hs.toIsTcp hs.notSyn (hs.session.symm ▸ ho)
  rw [heq]
  exact sameWiring_outTranslate h s o

/-- **A segment of the new path arrives.** -/
theorem Bridge.arrives (hb : Bridge E own sub b h) (hm : (h.inMem b.inp).MovesBy u v)
    (hs : SegmentOf sub.reverse skb) : Renumbered u v skb (input E h skb).2.1 ∧
      (input E h skb).2.1.session = own.reverse := by
  rw [input_segment hs.toIsTcp hs.notSyn (hs.session.symm ▸ hb.comes)]
  simp only
  rw [inputSegment_packet hb.leads hb.back]
  have hwired := sameWiring_inputSegment h skb b.inp
  obtain ⟨hnum, hsession⟩ := inHdrRewriteCsum_renumbered (hwired.inMovesBy hm) skb
  exact ⟨hnum, hsession.trans ((hwired.inField CbIn.super b.inp).trans hb.super)⟩

end Bridge

/-! ## The left anchor -/

/-- What a `DYSCO_SYN` of the reconfiguration tells the right anchor. -/
structure ControlPacket.Tells (pkt : ControlPacket) (sub : TcpSession) (iseq iack : U32) :
    Prop where
  sport : pkt.msg.sport = sub.sport
  dport : pkt.msg.dport = sub.dport
  iseq : ntohl pkt.msg.leftIseq = iseq
  iack : ntohl pkt.msg.leftIack = iack

/-- The reconfiguration block from which the message is filled in again. -/
structure CbReconfig.Tells (rcb : CbReconfig) (old : Nat) (sub : TcpSession) (iseq iack : U32) :
    Prop where
  old : rcb.oldDcb = some old
  sport : rcb.subOut.sport = sub.sport
  dport : rcb.subOut.dport = sub.dport
  iseq : rcb.leftIseq = iseq
  iack : rcb.leftIack = iack

/-- The left anchor once its first `DYSCO_SYN` has left: its new path translates nothing, and
nothing but the new path's blocks leads to the block of the old path. -/
structure LeftWired (c : Reconfiguration) (sub : TcpSession) (l : Blocks) (iseq iack : U32)
    (h : Host) : Prop extends Bridge (c.env .left) (c.own .left) sub l h where
  sip : sub.sip = c.addr .left
  dip : sub.dip = c.addr .right
  forth : (h.outMem l.old).otherPath = some l.new
  outMoves : (h.outMem l.new).MovesBy 0#32 0#32
  inMoves : (h.inMem l.inp).MovesBy 0#32 0#32
  oldPath : (h.outMem l.old).oldPath = true
  numbers : ((h.outMem l.old).inIseq, (h.outMem l.old).inIack) = (iseq, iack)
  soloIn : ∀ q, h.hashIn.Holds q → (h.inMem q).dcbOut = some l.new → q = l.inp
  soloOut : ∀ p, (h.outMem p).otherPath = some l.old → p = l.new
  filed : ∃ r, h.lookupReconfig (c.env .left) (c.own .left) = some r ∧
    (h.rcbMem r).Tells l.old sub iseq iack

section Left
variable {c : Reconfiguration} {E : Env} {h g : Host} {sub : TcpSession} {l : Blocks}
  {iseq iack : U32} {s : Anchors} {pkt : ControlPacket} {o old r : Nat}

theorem LeftWired.wired (hl : LeftWired c sub l iseq iack h) (hs : SameWiring h g) :
    LeftWired c sub l iseq iack g where
  toBridge := hl.toBridge.wired hs
  sip := hl.sip
  dip := hl.dip
  forth := (hs.outField CbOut.otherPath l.old).trans hl.forth
  outMoves := hs.outMovesBy hl.outMoves
  inMoves := hs.inMovesBy hl.inMoves
  oldPath := (hs.outField CbOut.oldPath l.old).trans hl.oldPath
  numbers := (hs.outField (fun d => (d.inIseq, d.inIack)) l.old).trans hl.numbers
  soloIn q hq hout := by
    rw [hs.hashIn] at hq
    exact hl.soloIn q hq ((hs.inField CbIn.dcbOut q).symm.trans hout)
  soloOut p hp := hl.soloOut p ((hs.outField CbOut.otherPath p).symm.trans hp)
  filed := by
    obtain ⟨r, hlook, ht⟩ := hl.filed
    refine ⟨r, (hs.lookupReconfig _).trans hlook, ?_, ?_, ?_, ?_, ?_⟩
    · exact (hs.rcbField CbReconfig.oldDcb r).trans ht.old
    · exact (hs.rcbField (fun d => d.subOut.sport) r).trans ht.sport
    · exact (hs.rcbField (fun d => d.subOut.dport) r).trans ht.dport
    · exact (hs.rcbField CbReconfig.leftIseq r).trans ht.iseq
    · exact (hs.rcbField CbReconfig.leftIack r).trans ht.iack

/-- A `DYSCO_SYN` that is sent again is filled in from what is filed. -/
theorem LeftWired.syn_again (hl : LeftWired c sub l iseq iack h) (hn : c.Names pkt.msg)
    (hsaddr : pkt.saddr = c.addr .left) : ∃ rcb : CbReconfig, rcb.Tells l.old sub iseq iack ∧
      controlOutputSyn (c.env .left) h pkt = (true, h, pkt.announceAgain rcb) := by
  obtain ⟨r, hlook, ht⟩ := hl.filed
  refine ⟨h.rcbMem r, ht, ?_⟩
  rw [controlOutputSyn, if_pos (hsaddr.trans hn.leftA.symm), hn.super, hlook]

theorem insertCbOutReverse_memory (hoom : h.oom h.brk = false) (p : Nat) (two : Bool) :
    (insertCbOutReverse E h p two).1 = some h.brk := by
  rw [insertCbOutReverse, Host.kzallocIn, if_neg (by simp [hoom])]

/-- With memory, the left anchor starts, and the block of the new path gets its input block. -/
theorem startLeftA_memory (hmem : ∀ a, h.oom a = false) (hne : old ≠ h.brk) :
    (startLeftA E h pkt r old).1 = true ∧
      ((startLeftA E h pkt r old).2.outMem h.brk).dcbIn ≠ none := by
  have hk : h.kzallocOut = (some h.brk, h.bump.setOut h.brk default) := by
    rw [Host.kzallocOut, if_neg (by simp [hmem])]
  rw [startLeftA, hk]
  simp only
  generalize hg : ((h.bump.setOut h.brk default).setRcb r _).setOut h.brk _ = g
  have hoom : g.oom g.brk = false := by
    rw [← hg]
    exact hmem _
  have hrev := insertCbOutReverse_memory (E := E) hoom h.brk true
  generalize insertCbOutReverse E g h.brk true = made at hrev ⊢
  obtain ⟨q, k⟩ := made
  obtain rfl : q = some g.brk := hrev
  simp only
  refine ⟨trivial, ?_⟩
  obtain ⟨hout, -⟩ := markOld_eq (k.setOut h.brk ((k.outMem h.brk).withDcbIn (some g.brk)))
    pkt.msg old h.brk
  have hself := congrFun hout h.brk
  rw [Function.update_of_ne hne.symm, Host.setOut_outMem_self] at hself
  intro hnone
  have hdcb := congrArg CbOut.dcbIn hself
  rw [Host.markOld] at hdcb
  exact Option.some_ne_none g.brk (hdcb.symm.trans hnone)

theorem controlOutputSyn_memory (hwf : h.WF) (hmem : ∀ a, h.oom a = false)
    (hleft : pkt.saddr = pkt.msg.leftA) (hnone : h.lookupReconfig E pkt.msg.super = none)
    (hold : h.lookupOut E pkt.msg.leftSS = some old) :
    (controlOutputSyn E h pkt).1 = true ∧
      ((controlOutputSyn E h pkt).2.1.outMem (h.brk + 1)).dcbIn ≠ none := by
  have hlt := hwf.out_lt old (h.lookupOut_eq_some hold).1
  rw [controlOutputSyn, if_pos hleft, hnone, hold]
  simp only
  cases hr : insertCbControl E h (pkt.announce (h.outMem old) (h.inOf (h.outMem old))) with
  | mk o made =>
    obtain ⟨h1, pkt1⟩ := made
    cases o with
    | none =>
      rw [insertCbControl, Host.kmalloc, if_neg (by simp [hmem])] at hr
      cases hr
    | some r =>
      obtain ⟨sport, dport, R⟩ := insertCbControl_some hr
      have hoom : h1.oom = h.oom := by
        rw [insertCbControl, Host.kmalloc, if_neg (by simp [hmem])] at hr
        have hhost := congrArg (fun made => made.2.1.oom) hr
        exact hhost.symm
      have hstart : (startLeftA E h1 pkt1 r old).1 = true ∧
          ((startLeftA E h1 pkt1 r old).2.outMem h1.brk).dcbIn ≠ none :=
        startLeftA_memory (fun a => by rw [hoom, hmem a]) (by rw [R.brk]; omega)
      rw [R.brk] at hstart
      exact hstart

/-- The message that leaves tells what the old path's block holds, and the ports. -/
theorem tells_announce {d : CbOut} {i : CbIn} {sport dport : U16}
    (hs : sub.sport = sport ∧ sub.dport = dport) :
    ((pkt.announce d i).withPorts sport dport).Tells sub d.inIseq d.inIack :=
  ⟨hs.1.symm, hs.2.symm, ntohl_htonl _, ntohl_htonl _⟩

/-- The block of the new path has the subsession between the anchors. -/
theorem arp_newLeft (c : Reconfiguration) {rcb : CbReconfig} {sport dport : U16}
    (hsub : rcb.subOut = ⟨c.addr .left, c.addr .right, sport, dport⟩) (tos : U8) :
    (arp (c.env .left) tos rcb.newLeft).sub = ⟨c.addr .left, c.addr .right, sport, dport⟩ := by
  obtain ⟨hop, hroute⟩ := c.routed tos
  have hdip : rcb.newLeft.sub = ⟨c.addr .left, c.addr .right, sport, dport⟩ := hsub
  rw [arp, hdip, hroute]
  rfl

/-- The blocks that the first `DYSCO_SYN` makes at the left anchor. -/
theorem LeftStarted.wired {h1 h' : Host} {pkt1 pkt' : ControlPacket} {sport dport : U16}
    {p x : Nat} (hr : c.Ready .left o h) (hn : c.Names pkt1.msg)
    (haddr : pkt1.saddr = c.addr .left ∧ pkt1.daddr = c.addr .right)
    (hnum : ntohl pkt1.msg.leftIseq = (h.outMem o).inIseq ∧
      ntohl pkt1.msg.leftIack = (h.outMem o).inIack)
    (R : RcbInserted (c.env .left) h h1 pkt1 pkt' h.brk sport dport)
    (S : LeftStarted (c.env .left) h1 h' pkt' o h.brk p (some x)) :
    LeftWired c ⟨c.addr .left, c.addr .right, sport, dport⟩ ⟨o, p, x⟩ (h.outMem o).inIseq
      (h.outMem o).inIack h' := by
  have hlt := hr.wf.out_lt o (h.lookupOut_eq_some hr.session).1
  have hp : p = h.brk + 1 := S.p_eq.trans R.brk
  have hx : x = h.brk + 2 := by rw [S.q_eq x rfl, R.brk]
  have hplain : ¬ pkt'.msg.WithState := by
    rw [R.pkt_eq]
    exact hn.plain
  have hold := S.old_block
  rw [if_neg hplain, R.outMem] at hold
  have hrcb : h1.rcbMem h.brk = (h.rcbMem h.brk).ofSynOut pkt1 sport dport := by
    rw [R.rcbMem, Function.update_self]
  have hsubOut : (h1.rcbMem h.brk).subOut = ⟨c.addr .left, c.addr .right, sport, dport⟩ := by
    rw [hrcb, CbReconfig.ofSynOut, haddr.1, haddr.2]
  have hsub := arp_newLeft c hsubOut pkt'.tos
  have hsuper : (h1.rcbMem h.brk).super = c.own .left := by
    rw [hrcb]
    exact hn.leftSS
  have hnewIn := S.new_in x rfl
  have hinDcb : ∀ y, y ≠ x → (h'.inMem y).dcbOut = (h.inMem y).dcbOut := by
    intro y hy
    by_cases hback : (h1.outMem o).dcbIn = some y
    · rw [S.old_in y hback, R.inMem]
      rfl
    · rw [S.in_ne y hback fun he => hy (Option.some.inj he).symm, R.inMem]
  constructor
  · constructor
    · rw [Host.lookupOut, S.hashOut, R.hashOut, ← hr.session, Host.lookupOut]
      refine lookup_congr fun m hm => ?_
      have hmlt := hr.wf.out_lt m hm
      by_cases hmo : m = o
      · rw [hmo, hold]
        rfl
      · rw [S.out_ne m hmo (by omega), R.outMem]
    · rw [hold]
      exact hr.detour
    · intro n hn'
      rw [hold] at hn'
      exact (Option.some.inj hn').symm
    · rw [hold]
      exact hr.plain
    · rw [S.new_out]
      exact hsub
    · rw [S.new_out]
      rfl
    · have hkey : (h'.inMem x).sub =
          (⟨c.addr .left, c.addr .right, sport, dport⟩ : TcpSession).reverse := by
        rw [hnewIn, ← hsub]
        rfl
      rw [Host.lookupIn, S.hashIn, Option.elim_some, hkey,
        lookup_cons (f := fun q => (h'.inMem q).sub) hkey, if_pos rfl]
    · rw [hnewIn, ← hsuper]
      rfl
    · rw [hnewIn]
      rfl
  · rfl
  · rfl
  · rw [hold]
    rfl
  · rw [S.new_out]
    exact ⟨fun _ => shift_zero_add _ _, fun _ => shift_zero_add _ _⟩
  · rw [hnewIn]
    exact ⟨fun _ => shift_zero_add _ _, fun _ => shift_zero_add _ _⟩
  · rw [hold]
    rfl
  · rw [hold]
    rfl
  · intro q hq hdcb
    by_contra hqx
    rw [hinDcb q hqx] at hdcb
    rw [S.hashIn, Option.elim_some] at hq
    obtain ⟨bucket, hbucket⟩ := hq
    rcases List.mem_cons.mp hbucket with heq | hmem
    · exact hqx (congrArg Prod.snd heq)
    · rw [R.hashIn] at hmem
      have := hr.inner q p ⟨bucket, hmem⟩ hdcb
      omega
  · intro y hy
    by_contra hyp
    by_cases hyo : y = o
    · rw [hyo, hold] at hy
      have hpo : p = o := Option.some.inj hy
      omega
    · rw [S.out_ne y hyo hyp, R.outMem] at hy
      exact hr.alone y hy
  · have hrcb' : h'.rcbMem h.brk = { h1.rcbMem h.brk with oldDcb := some o } := by
      rw [S.rcb, Function.update_self]
    refine ⟨h.brk, ?_, ?_⟩
    · have hkey : (h'.rcbMem h.brk).super = pkt1.msg.leftSS := by
        rw [hrcb', hrcb]
        rfl
      rw [Host.lookupReconfig, S.hashReconfig, R.hashReconfig,
        lookup_cons (f := fun r => (h'.rcbMem r).super) hkey, if_pos hn.leftSS]
    · rw [hrcb', hrcb]
      exact ⟨rfl, rfl, rfl, hnum.1, hnum.2⟩

/-- **The first `DYSCO_SYN` leaves the left anchor.** -/
theorem leftWired_first (hr : c.Ready .left o h) (hn : c.Names pkt.msg)
    (hsaddr : pkt.saddr = c.addr .left) (hdaddr : pkt.daddr = c.addr .right) :
    ∃ sub l d i sport dport, LeftWired c sub l (h.outMem o).inIseq (h.outMem o).inIack
        (controlOutputSyn (c.env .left) h pkt).2.1 ∧
      (controlOutputSyn (c.env .left) h pkt).1 = true ∧
      (controlOutputSyn (c.env .left) h pkt).2.2 = (pkt.announce d i).withPorts sport dport ∧
      (controlOutputSyn (c.env .left) h pkt).2.2.Tells sub (h.outMem o).inIseq (h.outMem o).inIack ∧
      ((controlOutputSyn (c.env .left) h pkt).2.1.outMem l.old).state = .synSent ∧
      ((controlOutputSyn (c.env .left) h pkt).2.1.outMem l.old).validAckCut = false := by
  have hleft : pkt.saddr = pkt.msg.leftA := hsaddr.trans hn.leftA.symm
  have hnone : h.lookupReconfig (c.env .left) pkt.msg.super = none := by
    rw [hn.super]
    exact hr.first
  have hold : h.lookupOut (c.env .left) pkt.msg.leftSS = some o := by
    rw [hn.leftSS]
    exact hr.session
  obtain ⟨hok, hdcb⟩ := controlOutputSyn_memory hr.wf hr.memory hleft hnone hold
  generalize hres : controlOutputSyn (c.env .left) h pkt = res at hok hdcb ⊢
  obtain ⟨ok, h', pkt'⟩ := res
  obtain rfl : ok = true := hok
  obtain ⟨old, sport, dport, h1, p, q, hlook, R, S⟩ := controlOutputSyn_leftA hr.wf hleft hnone hres
  obtain rfl : old = o := Option.some.inj (hlook.symm.trans hold)
  have hq : q ≠ none := by
    have hnew := congrArg CbOut.dcbIn S.new_out
    rw [S.p_eq, R.brk] at hnew
    intro hq
    exact hdcb (hnew.trans hq)
  obtain ⟨x, rfl⟩ := Option.ne_none_iff_exists'.mp hq
  have hannounced : c.Names (pkt.announce (h.outMem old) (h.inOf (h.outMem old))).msg :=
    ⟨hn.super, hn.leftSS, hn.rightSS, hn.leftA, hn.rightA, hn.plain⟩
  have hwired := S.wired hr hannounced ⟨hsaddr, hdaddr⟩ ⟨ntohl_htonl _, ntohl_htonl _⟩ R
  have hplain : ¬ pkt'.msg.WithState := by
    rw [R.pkt_eq]
    exact hn.plain
  have hblock : h'.outMem old =
      ((h.outMem old).withOldPath.withState .synSent).withOtherPath p := by
    rw [S.old_block, if_neg hplain, R.outMem]
  refine ⟨_, ⟨old, p, x⟩, h.outMem old, h.inOf (h.outMem old), sport, dport, hwired, rfl, R.pkt_eq,
    ?_, ?_, ?_⟩
  · simp only
    rw [R.pkt_eq]
    exact tells_announce ⟨rfl, rfl⟩
  · exact congrArg CbOut.state hblock
  · exact (congrArg CbOut.validAckCut hblock).trans hr.unmarked

end Left

/-! ## The right anchor -/

/-- The right anchor once a `DYSCO_SYN` has arrived: its new path's blocks translate between the
left session's initial numbers `iseq` and `iack` and its own, `oseq` and `oack`. -/
structure RightWired (c : Reconfiguration) (sub : TcpSession) (b : Blocks)
    (iseq iack oseq oack : U32) (h : Host) : Prop
    extends Bridge (c.env .right) (c.own .right) sub.reverse b h where
  numbers : ((h.outMem b.old).inIseq, (h.outMem b.old).inIack) = (oseq, oack)
  outMoves : (h.outMem b.new).MovesBy (iack - oseq) (iseq - oack)
  inMoves : (h.inMem b.inp).MovesBy (oack - iseq) (oseq - iack)
  cutoff : ∀ x, (h.outMem b.new).cutoffOfSeq x = x + (oack - iseq)
  filed : ∃ r, h.lookupReconfig (c.env .right) (c.own .left) = some r ∧
    (h.rcbMem r).oldDcb = some b.old ∧ (h.rcbMem r).newDcb = some b.new

section Right
variable {c : Reconfiguration} {E : Env} {h g : Host} {sub : TcpSession} {b : Blocks}
  {iseq iack oseq oack : U32} {pkt : ControlPacket} {x : Anchor} {o : Nat}

theorem Reconfiguration.Idle.wired (hi : c.Idle x o h) (hs : SameWiring h g) : c.Idle x o g where
  wf := hs.wf hi.wf
  memory a := by
    rw [hs.oom]
    exact hi.memory a
  first := (hs.lookupReconfig _).trans hi.first
  session := (hs.lookupOut _).trans hi.session
  onePath := (hs.outField CbOut.otherPath o).trans hi.onePath
  plain := (hs.outField CbOut.stateT o).trans hi.plain
  detour := by
    have hsub : (g.outMem o).sub = (h.outMem o).sub := hs.outField CbOut.sub o
    rw [hsub]
    exact hi.detour

theorem RightWired.wired (hr : RightWired c sub b iseq iack oseq oack h) (hs : SameWiring h g) :
    RightWired c sub b iseq iack oseq oack g where
  toBridge := hr.toBridge.wired hs
  numbers := (hs.outField (fun d => (d.inIseq, d.inIack)) b.old).trans hr.numbers
  outMoves := hs.outMovesBy hr.outMoves
  inMoves := hs.inMovesBy hr.inMoves
  cutoff y := by
    have hiack : (g.outMem b.new).inIack = (h.outMem b.new).inIack := hs.outField CbOut.inIack b.new
    have hoack : (g.outMem b.new).outIack = (h.outMem b.new).outIack :=
      hs.outField CbOut.outIack b.new
    rw [← hr.cutoff y, CbOut.cutoffOfSeq, CbOut.cutoffOfSeq, hiack, hoack]
  filed := by
    obtain ⟨r, hlook, hold, hnew⟩ := hr.filed
    exact ⟨r, (hs.lookupReconfig _).trans hlook, (hs.rcbField CbReconfig.oldDcb r).trans hold,
      (hs.rcbField CbReconfig.newDcb r).trans hnew⟩

theorem kmalloc_memory (hmem : ∀ a, h.oom a = false) : h.kmalloc = (some h.brk, h.bump) := by
  rw [Host.kmalloc, if_neg (by simp [hmem])]

theorem kzallocOut_memory (hmem : ∀ a, h.oom a = false) :
    h.kzallocOut = (some h.brk, h.bump.setOut h.brk default) := by
  rw [Host.kzallocOut, if_neg (by simp [hmem])]

/-- With memory and the session, the right anchor gets its blocks. -/
theorem controlReconfigIn_memory (hlt : ∀ p, h.hashOut.Holds p → p < h.brk)
    (hmem : ∀ a, h.oom a = false) (hright : pkt.daddr = pkt.msg.rightA)
    (hold : h.lookupOut E pkt.msg.rightSS.reverse = some o) (r : Nat) :
    (controlReconfigIn E h pkt r).1 = true := by
  rw [controlReconfigIn, kmalloc_memory hmem]
  simp only
  generalize hg : h.bump.setIn h.brk _ = g
  have hgmem : ∀ a, g.oom a = false := fun a => by rw [← hg]; exact hmem a
  have hbrk : g.brk = h.brk + 1 := by rw [← hg]; rfl
  rw [buildCbInReverse, kzallocOut_memory hgmem]
  simp only [hright, if_true]
  generalize hk : Host.setIn (Host.setOut _ g.brk (CbOut.withDcbIn _ _)) _ _ = k
  -- the new block is not in the table
  have hlook : k.lookupOut E pkt.msg.rightSS.reverse = some o := by
    have htab : k.hashOut = h.hashOut := by rw [← hk, ← hg]; rfl
    rw [← hold, Host.lookupOut, Host.lookupOut, htab]
    refine lookup_congr fun m hm => ?_
    have hne : m ≠ g.brk := by
      have := hlt m hm
      omega
    have hout : k.outMem m = g.outMem m := by
      rw [← hk]
      simp [hne]
    rw [hout, ← hg]
    rfl
  rw [controlConfigRightA, hlook]
  by_cases hst : pkt.msg.WithState
  · simp only [if_pos hst]
  · simp only [if_neg hst]

/-- With memory and the session, a first `DYSCO_SYN` is handled at the right anchor. -/
theorem synIn_memory (hwf : h.WF) (hmem : ∀ a, h.oom a = false)
    (hnone : h.lookupReconfig E pkt.msg.super = none) (hright : pkt.daddr = pkt.msg.rightA)
    (hold : h.lookupOut E pkt.msg.rightSS.reverse = some o) : (synIn E h pkt).1 = true := by
  rw [synIn, hnone, insertRcbControlInput, kmalloc_memory hmem]
  simp only
  generalize hg : (h.bump.setRcb h.brk _).insertReconfig E h.brk = g
  have hgmem : ∀ a, g.oom a = false := fun a => by rw [← hg]; exact hmem a
  have hglook : g.lookupOut E pkt.msg.rightSS.reverse = some o := by rw [← hg]; exact hold
  refine controlReconfigIn_memory (fun p hp => ?_) hgmem hright hglook _
  rw [← hg] at hp ⊢
  exact (hwf.out_lt p hp).trans (Nat.lt_succ_self _)

theorem computeDeltasOut_sub (dcb old : CbOut) (rcb : CbReconfig) :
    (computeDeltasOut dcb old rcb).sub = dcb.sub := by
  unfold computeDeltasOut
  simp only
  split <;> split <;> rfl

theorem computeDeltasIn_kept (dcb : CbIn) (old : CbOut) (oldIn : CbIn) (rcb : CbReconfig) :
    ((computeDeltasIn dcb old oldIn rcb).sub, (computeDeltasIn dcb old oldIn rcb).super,
      (computeDeltasIn dcb old oldIn rcb).dcbOut) = (dcb.sub, dcb.super, dcb.dcbOut) := by
  unfold computeDeltasIn
  simp only
  split <;> split <;> rfl

/-- **A first `DYSCO_SYN` arrives at the right anchor.** -/
theorem rightWired_first (hi : c.Idle .right o h) (hn : c.Names pkt.msg)
    (haddr : pkt.saddr = sub.sip ∧ pkt.daddr = sub.dip)
    (hsub : sub.sip = c.addr .left ∧ sub.dip = c.addr .right) (ht : pkt.Tells sub iseq iack) :
    ∃ b, RightWired c sub b iseq iack (h.outMem o).inIseq (h.outMem o).inIack
        (synIn (c.env .right) h pkt).2 ∧ b.old = o ∧
      (synIn (c.env .right) h pkt).2.outMem o = h.outMem o := by
  have hright : pkt.daddr = pkt.msg.rightA := by rw [haddr.2, hsub.2, hn.rightA]
  have hrev : pkt.msg.rightSS.reverse = c.own .right := by
    rw [hn.rightSS, TcpSession.reverse_reverse]
  have hnone : h.lookupReconfig (c.env .right) pkt.msg.super = none := by
    rw [hn.super]
    exact hi.first
  have hold : h.lookupOut (c.env .right) pkt.msg.rightSS.reverse = some o := by
    rw [hrev]
    exact hi.session
  have hok := synIn_memory hi.wf hi.memory hnone hright hold
  generalize hres : synIn (c.env .right) h pkt = res at hok ⊢
  obtain ⟨ok, h'⟩ := res
  obtain rfl : ok = true := hok
  obtain ⟨old, r, q, p, C⟩ := synIn_rightA hi.wf hnone hright hres
  obtain rfl : old = o := Option.some.inj (C.old_lookup.symm.trans hold)
  have hlt := hi.wf.out_lt old (h.lookupOut_eq_some hold).1
  have hblock : h'.outMem old = h.outMem old := by rw [C.old_block, if_neg hn.plain]
  have hO := C.opposite
  have hin := computeDeltasIn_kept
    (((((h.rcbMem r).ofSynIn pkt).newPathIn (h.inMem q) pkt.skbIif).withDcbOut p).withSuper
      pkt.msg.rightSS) (h.outMem old) (h.inOf (h.outMem old)) ((h.rcbMem r).ofSynIn pkt)
  simp only [Prod.mk.injEq] at hin
  obtain ⟨hinSub, hinSuper, hinOut⟩ := hin
  have hsession : sub = ⟨pkt.saddr, pkt.daddr, pkt.msg.sport, pkt.msg.dport⟩ := by
    rw [haddr.1, haddr.2, ht.sport, ht.dport]
  refine ⟨⟨old, p, q⟩, ?_, rfl, hblock⟩
  constructor
  · constructor
    · rw [Host.lookupOut, C.hashOut, ← hi.session, Host.lookupOut]
      refine lookup_congr fun m hm => ?_
      have hmlt := hi.wf.out_lt m hm
      have hp := C.p_eq
      by_cases hmo : m = old
      · rw [hmo, hblock]
      · rw [C.out_ne m hmo (by omega)]
    · rw [hblock]
      intro hdip
      exact hi.detour (hdip.trans hsub.1)
    · intro n hn'
      rw [hblock, hi.onePath] at hn'
      cases hn'
    · rw [hblock]
      exact hi.plain
    · rw [C.new_out, CbOut.withOtherPath]
      simp only
      rw [computeDeltasOut_sub, hsession]
      rfl
    · rw [C.new_out]
      rfl
    · have hkey : (h'.inMem q).sub = sub := by
        rw [C.new_in, hsession]
        exact hinSub
      rw [TcpSession.reverse_reverse, Host.lookupIn, C.hashIn, hkey,
        lookup_cons (f := fun q => (h'.inMem q).sub) hkey, if_pos rfl]
    · rw [C.new_in, ← hn.rightSS]
      exact hinSuper
    · rw [C.new_in]
      exact hinOut
  · rw [hblock]
  · rw [← ht.iseq, ← ht.iack]
    exact ⟨hO.out_seq, hO.out_ack⟩
  · rw [← ht.iseq, ← ht.iack]
    exact ⟨hO.in_seq, hO.in_ack⟩
  · rw [← ht.iseq]
    exact hO.cutoff
  · refine ⟨r, ?_, ?_, ?_⟩
    · have hkey : (h'.rcbMem r).super = pkt.msg.super := by
        rw [C.rcb]
        rfl
      rw [Host.lookupReconfig, C.hashReconfig,
        lookup_cons (f := fun r => (h'.rcbMem r).super) hkey, if_pos hn.super]
    · rw [C.rcb]
    · rw [C.rcb]

/-- A `DYSCO_SYN` that arrives again does nothing. -/
theorem RightWired.syn_again (hr : RightWired c sub b iseq iack oseq oack h)
    (hn : c.Names pkt.msg) : synIn (c.env .right) h pkt = (true, h) := by
  obtain ⟨r, hlook, -⟩ := hr.filed
  rw [synIn, hn.super, hlook]

theorem RightWired.new_ne (hr : RightWired c sub b iseq iack oseq oack h) : b.new ≠ b.old := by
  intro heq
  have hgoes := hr.goes
  rw [heq] at hgoes
  exact hr.apart (congrArg TcpSession.dip hgoes)

theorem RightWired.replaceCbRightA_eq (hr : RightWired c sub b iseq iack oseq oack h)
    (hn : pkt.msg.super = c.own .left) : (replaceCbRightA (c.env .right) h pkt).1 =
      h.setOut b.old
        (((h.outMem b.old).withOldPath.withState .synReceived).withOtherPath b.new) := by
  obtain ⟨r, hlook, hold, hnew⟩ := hr.filed
  rw [replaceCbRightA, hn, hlook]
  simp only [hold, hnew]

/-- **The right anchor begins to use the new path**, or begins again. -/
theorem RightWired.replaced (hr : RightWired c sub b iseq iack oseq oack h)
    (hn : pkt.msg.super = c.own .left) :
    RightWired c sub b iseq iack oseq oack (replaceCbRightA (c.env .right) h pkt).1 := by
  obtain ⟨r, hlook, hold, hnew⟩ := hr.filed
  rw [hr.replaceCbRightA_eq hn]
  generalize hg : h.setOut b.old _ = g
  have hself : g.outMem b.old =
      ((h.outMem b.old).withOldPath.withState .synReceived).withOtherPath b.new := by
    rw [← hg, Host.setOut_outMem_self]
  have hother : ∀ p, p ≠ b.old → g.outMem p = h.outMem p := by
    intro p hp
    rw [← hg, Host.setOut_outMem_of_ne _ hp]
  have hgnew := hother b.new hr.new_ne
  have hsuper : ∀ p, (g.outMem p).super = (h.outMem p).super := by
    intro p
    by_cases hp : p = b.old
    · rw [hp, hself]
      rfl
    · rw [hother p hp]
  have hin : g.inMem = h.inMem := by
    rw [← hg]
    rfl
  have htable : (g.hashOut, g.hashIn, g.hashReconfig, g.rcbMem) =
      (h.hashOut, h.hashIn, h.hashReconfig, h.rcbMem) := by
    rw [← hg]
    rfl
  simp only [Prod.mk.injEq] at htable
  obtain ⟨htout, htin, htrec, hrcb⟩ := htable
  constructor
  · constructor
    · rw [← hr.look, Host.lookupOut, Host.lookupOut, htout]
      exact lookup_congr fun p _ => hsuper p
    · rw [hself]
      exact hr.apart
    · intro n hn'
      rw [hself] at hn'
      exact (Option.some.inj hn').symm
    · rw [hself]
      exact hr.plain
    · rw [hgnew, hr.goes]
    · rw [hgnew, hr.back]
    · rw [← hr.comes, Host.lookupIn, Host.lookupIn, htin, hin]
    · rw [hin, hr.super]
    · rw [hin, hr.leads]
  · rw [hself]
    exact hr.numbers
  · rw [hgnew]
    exact hr.outMoves
  · rw [hin]
    exact hr.inMoves
  · rw [hgnew]
    exact hr.cutoff
  · refine ⟨r, ?_, ?_, ?_⟩
    · rw [← hlook, Host.lookupReconfig, Host.lookupReconfig, htrec, hrcb]
    · rw [hrcb, hold]
    · rw [hrcb, hnew]

end Right

end Dysco
