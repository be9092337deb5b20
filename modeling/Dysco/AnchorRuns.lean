import Dysco.Anchors

/-! # Runs of a reconfiguration

From the moment the first `DYSCO_SYN` has left the left anchor, whatever the network does with
messages and segments, both anchors keep the wiring of their blocks, and what has left on the new
path carries the numbers of the left session.  So what an anchor's stack is handed from the new path
is what the other stack has sent, in the numbers of its own session (`anchors_deliver`). -/
namespace Dysco
open TransitionSystem BucketTable

@[simp] theorem Anchor.other_other (x : Anchor) : x.other.other = x := by
  cases x <;> rfl

theorem Anchor.left_ne_right : Anchor.left ≠ .right := by decide

/-! A message concerns the host of one anchor. -/

section Messages
variable {c : Reconfiguration} {s : Anchors} {x y : Anchor} {pkt : ControlPacket}

theorem Reconfiguration.speaks_host : (c.effect s (.speaks x pkt)).host x =
    (controlOutput (c.env x) (s.host x) pkt).1 := by
  rw [effect]
  simp only [Function.update_self]

theorem Reconfiguration.speaks_host_of_ne (hy : y ≠ x) :
    (c.effect s (.speaks x pkt)).host y = s.host y := by
  rw [effect]
  simp only [Function.update_of_ne hy]

theorem Reconfiguration.hears_host : (c.effect s (.hears x pkt)).host x =
    (controlInput (c.env x) (s.host x) pkt).1 := by
  rw [effect_hears]
  simp only [Function.update_self]

theorem Reconfiguration.hears_host_of_ne (hy : y ≠ x) :
    (c.effect s (.hears x pkt)).host y = s.host y := by
  rw [effect_hears]
  simp only [Function.update_of_ne hy]

end Messages

/-! ## What is settled first -/

/-- What is settled when the first `DYSCO_SYN` has left: the subsession of the new path, the left
anchor's blocks, the session's block at the right one, and the initial numbers of both sessions. -/
structure Deal where
  sub : TcpSession
  l : Blocks
  o : Nat
  iseq : Anchor → U32
  iack : Anchor → U32

namespace Deal
variable (d : Deal)

/-- The new path as an anchor sends on it. -/
def path : Anchor → TcpSession
  | .left => d.sub
  | .right => d.sub.reverse

/-- How far an anchor moves the numbers of what it sends on the new path, to those of the left
session. -/
def out : Anchor → U32 × U32
  | .left => (0#32, 0#32)
  | .right => (d.iack .left - d.iseq .right, d.iseq .left - d.iack .right)

/-- How far an anchor moves the numbers of what arrives on the new path, to those of its own
session. -/
def inp : Anchor → U32 × U32
  | .left => (0#32, 0#32)
  | .right => (d.iack .right - d.iseq .left, d.iseq .right - d.iack .left)

theorem path_other (x : Anchor) : d.path x.other = (d.path x).reverse := by
  cases x
  · rfl
  · exact (TcpSession.reverse_reverse _).symm

theorem renumbered {d : Deal} {x : Anchor} {skb s skb' : SkBuff}
    (hout : Renumbered (d.out x.other).1 (d.out x.other).2 skb s)
    (hin : Renumbered (d.inp x).1 (d.inp x).2 s skb') :
    Renumbered (d.iack x - d.iseq x.other) (d.iseq x - d.iack x.other) skb skb' := by
  cases x with
  | left => exact hout.trans_zero hin
  | right => exact hout.zero_trans hin

end Deal

/-- How far the left anchor's switch has come, as far as its own segments go. -/
def CbOut.progress (d : CbOut) : ConnState × Bool := (d.state, d.validAckCut)

/-- The fields of a message that the handlers only read. -/
def ControlPacket.envelope (pkt : ControlPacket) : (U16 × U16 × U16 × U32 × U32) ×
    (MessageType × TcpSession × TcpSession × TcpSession × U32 × U32 × U16) :=
  ((pkt.dest, pkt.source, pkt.udpLen, pkt.saddr, pkt.daddr), (pkt.msg.mtype, pkt.msg.super,
    pkt.msg.leftSS, pkt.msg.rightSS, pkt.msg.leftA, pkt.msg.rightA, pkt.msg.semantic))

/-- An anchor whose blocks are there. -/
structure Reconfiguration.Spans (c : Reconfiguration) (d : Deal) (x : Anchor) (b : Blocks)
    (h : Host) : Prop extends Bridge (c.env x) (c.own x) (d.path x) b h where
  numbers : ((h.outMem b.old).inIseq, (h.outMem b.old).inIack) = (d.iseq x, d.iack x)
  outMoves : (h.outMem b.new).MovesBy (d.out x).1 (d.out x).2
  inMoves : (h.inMem b.inp).MovesBy (d.inp x).1 (d.inp x).2

/-- The anchors' hosts, where `told` says whether the right one has heard of the reconfiguration.
Until then the left one lets nothing out on the new path. -/
structure Reconfiguration.Hosts (c : Reconfiguration) (d : Deal) (host : Anchor → Host)
    (told : Bool) : Prop where
  left : LeftWired c d.sub d.l (d.iseq .left) (d.iack .left) (host .left)
  right : told = true → ∃ b, RightWired c d.sub b (d.iseq .left) (d.iack .left) (d.iseq .right)
    (d.iack .right) (host .right)
  idle : told = false → c.Idle .right d.o (host .right) ∧
    (((host .right).outMem d.o).inIseq, ((host .right).outMem d.o).inIack) =
      (d.iseq .right, d.iack .right)
  starting : told = false → ((host .left).outMem d.l.old).progress = (.synSent, false)

/-- What a message that has left says, and to whom. -/
structure Reconfiguration.Said (c : Reconfiguration) (d : Deal) (heard : Anchor → Bool)
    (pkt : ControlPacket) : Prop extends pkt.Enters where
  names : c.Names pkt.msg
  kind : (pkt.saddr = c.addr .left ∧ pkt.daddr = c.addr .right ∧ pkt.msg.mtype = .syn ∧
      pkt.Tells d.sub (d.iseq .left) (d.iack .left)) ∨
    (pkt.daddr = c.addr .right ∧ pkt.msg.mtype = .ack ∧ heard .left = true) ∨
    (pkt.daddr = c.addr .left ∧ pkt.msg.mtype = .synAck ∧ heard .right = true)

/-- What is on its way, and what has been handed on. -/
structure Reconfiguration.Traffic (c : Reconfiguration) (d : Deal) (s : Anchors) : Prop where
  control : ∀ pkt ∈ s.control, c.Said d s.heard pkt
  order : s.heard .left = true → s.heard .right = true
  wire : ∀ x, ∀ skb ∈ s.wire x, skb.daddr = c.addr x.other → s.heard .right = true ∧
    SegmentOf (d.path x) skb ∧
      ∃ skb₀ ∈ s.sent x, Renumbered (d.out x).1 (d.out x).2 skb₀ skb
  got : ∀ x, ∀ skb ∈ s.got x, skb.session = (c.own x).reverse ∧
    ∃ skb₀ ∈ s.sent x.other, Renumbered (d.iack x - d.iseq x.other) (d.iseq x - d.iack x.other)
      skb₀ skb

section Hosts
variable {c : Reconfiguration} {d : Deal} {host : Anchor → Host} {told : Bool} {x : Anchor}
  {E : Env} {h g : Host} {own : TcpSession} {skb : SkBuff} {pkt pkt' : ControlPacket}
  {heard : Anchor → Bool} {s : Anchors} {o a : Nat}

/-! ## One anchor at a time -/

theorem Reconfiguration.Hosts.spans (hs : c.Hosts d host told) (x : Anchor) (ht : told = true) :
    ∃ b, c.Spans d x b (host x) := by
  cases x with
  | left =>
    have hl := hs.left
    exact ⟨d.l, hl.toBridge, hl.numbers, hl.outMoves, hl.inMoves⟩
  | right =>
    obtain ⟨b, hr⟩ := hs.right ht
    exact ⟨b, hr.toBridge, hr.numbers, hr.outMoves, hr.inMoves⟩

/-- The session is there all the time. -/
theorem Reconfiguration.Hosts.session (hs : c.Hosts d host told) (x : Anchor) :
    ∃ o, (host x).lookupOut (c.env x) (c.own x) = some o ∧
      (told = false → x = .right → o = d.o) := by
  cases x with
  | left => exact ⟨_, hs.left.look, fun _ hx => by cases hx⟩
  | right =>
    cases told with
    | true =>
      obtain ⟨b, hr⟩ := hs.right rfl
      exact ⟨_, hr.look, fun ht => by cases ht⟩
    | false => exact ⟨_, (hs.idle rfl).1.session, fun _ _ => rfl⟩

/-- The new path leads from an anchor to the other one. -/
theorem Reconfiguration.Hosts.dip (hs : c.Hosts d host told) (x : Anchor) :
    (d.path x).dip = c.addr x.other := by
  cases x with
  | left => exact hs.left.dip
  | right => exact hs.left.sip

/-- An anchor may move on as far as its wiring allows. -/
theorem Reconfiguration.Hosts.same (hs : c.Hosts d host told) (hg : SameWiring (host x) g)
    (hstart : told = false → x = .left →
      (g.outMem d.l.old).progress = ((host .left).outMem d.l.old).progress) :
    c.Hosts d (Function.update host x g) told := by
  cases x with
  | left =>
    refine ⟨hs.left.wired hg, hs.right, hs.idle, fun ht => ?_⟩
    exact (hstart ht rfl).trans (hs.starting ht)
  | right =>
    refine ⟨hs.left, fun ht => ?_, fun ht => ?_, hs.starting⟩
    · obtain ⟨b, hr⟩ := hs.right ht
      exact ⟨b, hr.wired hg⟩
    · obtain ⟨hidle, hnum⟩ := hs.idle ht
      exact ⟨hidle.wired hg, (hg.outField (fun d => (d.inIseq, d.inIack)) d.o).trans hnum⟩

/-! ### Segments -/

/-- A segment that leaves does not bring the switch on. -/
theorem output_progress (ho : h.lookupOut E own = some o) (hs : SegmentOf own skb) (a : Nat) :
    ((output E h skb).1.outMem a).progress = (h.outMem a).progress := by
  obtain ⟨m, hm⟩ := output_segment_marks (E := E) hs.toIsTcp hs.notSyn (hs.session.symm ▸ ho)
  rw [hm]
  by_cases ha : a = o
  · rw [ha, Host.setOut_outMem_self]
    rfl
  · rw [Host.setOut_outMem_of_ne _ ha]

/-- Nor does one that arrives, for a block to which its own does not lead. -/
theorem input_progress (htcp : skb.IsTcp) (hsyn : skb.hasSyn = false)
    (hlead : ∀ q, h.lookupIn E skb.session = some q → ∀ p, (h.inMem q).dcbOut = some p →
      (h.outMem p).otherPath ≠ some a) :
    ((input E h skb).1.outMem a).progress = (h.outMem a).progress := by
  cases hq : h.lookupIn E skb.session with
  | none => rw [input_unknown htcp hsyn hq]
  | some q =>
    have hswitch : ∀ p, ((h.setOut p (h.outMem p).withUseNpSeq).outMem a).progress =
        (h.outMem a).progress := by
      intro p
      by_cases ha : a = p
      · rw [ha, Host.setOut_outMem_self]
        rfl
      · rw [Host.setOut_outMem_of_ne _ ha]
    have hdata : ((inTwoPathsDataSeg h skb q).1.outMem a).progress = (h.outMem a).progress := by
      rw [inTwoPathsDataSeg]
      split
      · rfl
      · rename_i p hp
        simp only
        split
        · rfl
        · split
          · rfl
          · rename_i old hold
            have hne : a ≠ old := by
              rintro rfl
              exact hlead q hq p hp hold
            split
            · rw [Host.setOut_outMem_of_ne _ hne]
            · rfl
    have hack : ((inTwoPathsAck h skb q).outMem a).progress = (h.outMem a).progress := by
      rw [inTwoPathsAck]
      simp only
      repeat' split
      all_goals first
        | rfl
        | exact hswitch _
    rw [input_segment htcp hsyn hq]
    simp only
    rw [inputSegment_host]
    split
    · split
      · exact hdata
      · exact hack
    · rfl

/-- **A segment leaves an anchor.** -/
theorem Reconfiguration.Hosts.sends (hs : c.Hosts d host told) (hskb : SegmentOf (c.own x) skb) :
    c.Hosts d (Function.update host x (output (c.env x) (host x) skb).1) told ∧
      (output (c.env x) (host x) skb).2.2 = true ∧
      ((output (c.env x) (host x) skb).2.1.daddr = c.addr x.other → told = true ∧
        SegmentOf (d.path x) (output (c.env x) (host x) skb).2.1 ∧
        Renumbered (d.out x).1 (d.out x).2 skb (output (c.env x) (host x) skb).2.1) := by
  obtain ⟨o, ho, hright⟩ := hs.session x
  refine ⟨hs.same (sameWiring_output ho hskb) fun ht hx => ?_, ?_, fun hto => ?_⟩
  · rw [output_progress ho hskb, hx]
  · obtain ⟨s, -, heq⟩ := output_segment hskb.toIsTcp hskb.notSyn (hskb.session.symm ▸ ho)
    rw [heq]
  · -- before the right anchor knows, nothing goes this way
    have ht : told = true := by
      by_contra hf
      rw [Bool.not_eq_true] at hf
      cases x with
      | left =>
        have hwhen :=
          (hs.left.toBridge.leaves hs.left.outMoves hskb (hto.trans hs.left.dip.symm)).2.2
        have hprogress := hs.starting hf
        rw [CbOut.progress, Prod.mk.injEq] at hprogress
        rw [hwhen hprogress.1] at hprogress
        cases hprogress.2
      | right =>
        obtain ⟨hidle, -⟩ := hs.idle hf
        obtain rfl := hright hf rfl
        obtain ⟨s, -, heq⟩ := output_segment hskb.toIsTcp hskb.notSyn (hskb.session.symm ▸ ho)
        rw [heq] at hto
        rcases outTranslate_ways (E := c.env .right) (host .right) s d.o with hold | ⟨n, hn, -⟩
        · exact hidle.detour ((congrArg TcpSession.dip hold).symm.trans hto)
        · rw [hidle.onePath] at hn
          cases hn
    obtain ⟨b, hb⟩ := hs.spans x ht
    obtain ⟨hsession, hnum, -⟩ := hb.toBridge.leaves hb.outMoves hskb (hto.trans (hs.dip x).symm)
    have hseg := hnum.segmentOf hskb.toIsTcp hskb.notSyn
    rw [hsession] at hseg
    exact ⟨ht, hseg, hnum⟩

/-- **A segment of the new path arrives at an anchor.** -/
theorem Reconfiguration.Hosts.takes (hs : c.Hosts d host told) (ht : told = true)
    (hskb : SegmentOf (d.path x.other) skb) :
    c.Hosts d (Function.update host x (input (c.env x) (host x) skb).1) told ∧
      (input (c.env x) (host x) skb).2.2 = true ∧
      Renumbered (d.inp x).1 (d.inp x).2 skb (input (c.env x) (host x) skb).2.1 ∧
      (input (c.env x) (host x) skb).2.1.session = (c.own x).reverse := by
  obtain ⟨b, hb⟩ := hs.spans x ht
  rw [d.path_other] at hskb
  refine ⟨hs.same (sameWiring_input hskb.toIsTcp hskb.notSyn) fun hf => ?_, ?_,
    hb.toBridge.arrives hb.inMoves hskb⟩
  · rw [ht] at hf
    cases hf
  · rw [input_segment hskb.toIsTcp hskb.notSyn (hskb.session.symm ▸ hb.comes)]

/-- **A segment arrives from elsewhere.** -/
theorem Reconfiguration.Hosts.foreign (hs : c.Hosts d host told) (htcp : skb.IsTcp)
    (hsyn : skb.hasSyn = false) (hfrom : skb.saddr ≠ c.addr x.other) :
    c.Hosts d (Function.update host x (input (c.env x) (host x) skb).1) told := by
  refine hs.same (sameWiring_input htcp hsyn) fun _ hx => ?_
  subst hx
  refine input_progress htcp hsyn fun q hq p hp hother => hfrom ?_
  -- only the new path's block leads to the session's block
  obtain rfl := hs.left.soloOut p hother
  obtain ⟨hheld, hkey⟩ := lookup_eq_some hq
  obtain rfl := hs.left.soloIn q hheld hp
  obtain ⟨-, hsub⟩ := lookup_eq_some hs.left.comes
  exact (congrArg TcpSession.sip (hkey.symm.trans hsub)).trans hs.left.dip

/-! ### Messages -/

theorem ControlPacket.Enters.of_envelope (hp : pkt.Enters) (he : pkt'.envelope = pkt.envelope) :
    pkt'.Enters := by
  simp only [ControlPacket.envelope, Prod.mk.injEq] at he
  obtain ⟨⟨hdest, hsource, hlen, -⟩, -⟩ := he
  constructor
  · rw [hdest, hsource]
    exact hp.port
  · rw [hlen]
    exact hp.long

theorem Reconfiguration.Names.of_envelope (hn : c.Names pkt.msg)
    (he : pkt'.envelope = pkt.envelope) : c.Names pkt'.msg := by
  simp only [ControlPacket.envelope, Prod.mk.injEq] at he
  obtain ⟨-, -, hsuper, hleft, hright, hleftA, hrightA, hsemantic⟩ := he
  refine ⟨hsuper.trans hn.super, hleft.trans hn.leftSS, hright.trans hn.rightSS,
    hleftA.trans hn.leftA, hrightA.trans hn.rightA, ?_⟩
  rw [ControlMessage.WithState, hsemantic]
  exact hn.plain

/-- The messages that a daemon sends. -/
theorem Reconfiguration.Speaks.kinds (hp : c.Speaks s x pkt) :
    x = .left ∧ pkt.msg.mtype = .syn ∨
      x = .left ∧ pkt.msg.mtype = .ack ∧ s.heard .left = true ∨
      x = .right ∧ pkt.msg.mtype = .synAck ∧ s.heard .right = true := by
  have hmay := hp.may
  cases x <;> cases hm : pkt.msg.mtype <;> rw [hm] at hmay <;> simp_all [Anchors.MaySay]

theorem ackOut_envelope (h : Host) (pkt : ControlPacket) :
    (ackOut E h pkt).2.envelope = pkt.envelope := by
  simp only [ackOut, replaceCbLeftA]
  repeat' split
  all_goals rfl

theorem replaceCbRightA_envelope (h : Host) (pkt : ControlPacket) :
    (replaceCbRightA E h pkt).2.envelope = pkt.envelope := by
  simp only [replaceCbRightA]
  repeat' split
  all_goals rfl

/-- A message of a daemon leaves, with its envelope as it was. -/
theorem Reconfiguration.Hosts.passes (hs : c.Hosts d s.host told) (hp : c.Speaks s x pkt) :
    (controlOutput (c.env x) (s.host x) pkt).2.2 = true ∧
      (controlOutput (c.env x) (s.host x) pkt).2.1.envelope = pkt.envelope := by
  rcases hp.kinds with ⟨rfl, hm⟩ | ⟨rfl, hm, -⟩ | ⟨rfl, hm, -⟩
  · obtain ⟨rcb, -, hout⟩ := hs.left.syn_again hp.names hp.saddr
    rw [controlOutput_syn hp.toHandled hm, hout]
    exact ⟨rfl, rfl⟩
  · rw [controlOutput_ack hp.toHandled hm]
    exact ⟨rfl, ackOut_envelope _ _⟩
  · rw [controlOutput_synAck hp.toHandled hm (hp.saddr.trans hp.names.rightA.symm)]
    exact ⟨rfl, replaceCbRightA_envelope _ _⟩

/-- **A daemon sends a message**, after the first one. -/
theorem Reconfiguration.Hosts.speaks (hs : c.Hosts d s.host (s.heard .right))
    (horder : s.heard .left = true → s.heard .right = true) (hp : c.Speaks s x pkt) :
    c.Hosts d (Function.update s.host x (controlOutput (c.env x) (s.host x) pkt).1)
        (s.heard .right) ∧
      c.Said d s.heard (controlOutput (c.env x) (s.host x) pkt).2.1 := by
  have he := (hs.passes hp).2
  have hfields := he
  simp only [ControlPacket.envelope, Prod.mk.injEq] at hfields
  obtain ⟨⟨-, -, -, hsaddr, hdaddr⟩, hmtype, -⟩ := hfields
  have henters := hp.toHandled.enters.of_envelope he
  have hnames := hp.names.of_envelope he
  rcases hp.kinds with ⟨rfl, hm⟩ | ⟨rfl, hm, hheard⟩ | ⟨rfl, hm, hheard⟩
  · -- the reconfiguration is known: the message is filled in again
    obtain ⟨rcb, ht, hout⟩ := hs.left.syn_again hp.names hp.saddr
    refine ⟨?_, henters, hnames,
      Or.inl ⟨hsaddr.trans hp.saddr, hdaddr.trans hp.daddr, hmtype.trans hm, ?_⟩⟩
    · rw [controlOutput_syn hp.toHandled hm, hout, Function.update_eq_self]
      exact hs
    · rw [controlOutput_syn hp.toHandled hm, hout]
      exact ⟨ht.sport, ht.dport, (ntohl_htonl _).trans ht.iseq, (ntohl_htonl _).trans ht.iack⟩
  · refine ⟨?_, henters, hnames,
      Or.inr (Or.inl ⟨hdaddr.trans hp.daddr, hmtype.trans hm, hheard⟩)⟩
    rw [controlOutput_ack hp.toHandled hm]
    refine hs.same (sameWiring_ackOut _ _) fun hf => ?_
    rw [horder hheard] at hf
    cases hf
  · obtain ⟨b, hr⟩ := hs.right hheard
    refine ⟨?_, henters, hnames,
      Or.inr (Or.inr ⟨hdaddr.trans hp.daddr, hmtype.trans hm, hheard⟩)⟩
    rw [controlOutput_synAck hp.toHandled hm (hp.saddr.trans hp.names.rightA.symm)]
    refine ⟨hs.left, fun _ => ⟨b, hr.replaced hp.names.super⟩, fun hf => ?_, fun hf => ?_⟩
    · rw [hheard] at hf
      cases hf
    · rw [hheard] at hf
      cases hf

/-- **A message arrives.** -/
theorem Reconfiguration.Hosts.hears (hs : c.Hosts d s.host (s.heard .right))
    (horder : s.heard .left = true → s.heard .right = true) (hp : c.Said d s.heard pkt)
    (hto : pkt.daddr = c.addr x) :
    c.Hosts d (c.effect s (.hears x pkt)).host ((c.effect s (.hears x pkt)).heard .right) ∧
      ((c.effect s (.hears x pkt)).heard .left = true →
        (c.effect s (.hears x pkt)).heard .right = true) ∧
      ∀ y, s.heard y = true → (c.effect s (.hears x pkt)).heard y = true := by
  have hlater : ∀ y, s.heard y = true → (c.effect s (.hears x pkt)).heard y = true := by
    intro y hy
    simp only [effect_hears]
    split
    · by_cases hyx : y = x
      · rw [hyx, Function.update_self]
      · rw [Function.update_of_ne hyx, hy]
    · exact hy
  cases x with
  | left =>
    obtain ⟨hm, hheard⟩ : pkt.msg.mtype = .synAck ∧ s.heard .right = true := by
      rcases hp.kind with ⟨-, hd, -⟩ | ⟨hd, -⟩ | ⟨-, hm, hheard⟩
      · exact absurd (hto.symm.trans hd) c.apart
      · exact absurd (hto.symm.trans hd) c.apart
      · exact ⟨hm, hheard⟩
    have htold := hlater .right hheard
    refine ⟨?_, fun _ => htold, hlater⟩
    rw [htold]
    rw [hheard] at hs
    simp only [effect_hears, controlInput_synAck hp.toEnters hm]
    exact hs.same (sameWiring_synAckIn _ _) fun hf => by cases hf
  | right =>
    rcases hp.kind with ⟨hsaddr, hdaddr, hm, ht⟩ | ⟨-, hm, hheard⟩ | ⟨hd, -⟩
    · have htold : (c.effect s (.hears .right pkt)).heard .right = true := by
        simp only [effect_hears, hm, Anchor.awaits, if_true, Function.update_self]
      refine ⟨?_, fun _ => htold, hlater⟩
      rw [htold]
      simp only [effect_hears, controlInput_syn ⟨hp.port, hp.long, hm⟩]
      cases hheard : s.heard .right with
      | true =>
        obtain ⟨b, hr⟩ := hs.right hheard
        rw [hr.syn_again hp.names, Function.update_eq_self, ← hheard]
        exact hs
      | false =>
        obtain ⟨hidle, hnum⟩ := hs.idle hheard
        obtain ⟨b, hr, -⟩ := rightWired_first hidle hp.names
          ⟨hsaddr.trans hs.left.sip.symm, hdaddr.trans hs.left.dip.symm⟩
          ⟨hs.left.sip, hs.left.dip⟩ ht
        rw [(Prod.mk.inj hnum).1, (Prod.mk.inj hnum).2] at hr
        exact ⟨hs.left, fun _ => ⟨b, hr⟩, fun hf => (by cases hf), fun hf => (by cases hf)⟩
    · have htold := hlater .right (horder hheard)
      refine ⟨?_, fun _ => htold, hlater⟩
      rw [htold]
      rw [horder hheard] at hs
      simp only [effect_hears, controlInput_ack hp.toEnters hm]
      exact hs.same (sameWiring_ackIn _ _) fun hf => by cases hf
    · exact absurd (hd.symm.trans hto) c.apart

/-! ## The invariant -/

/-- What holds throughout. -/
structure Reconfiguration.Sound (c : Reconfiguration) (d : Deal) (s : Anchors) : Prop
    extends c.Traffic d s where
  hosts : c.Hosts d s.host (s.heard .right)

theorem Reconfiguration.Said.later {heard' : Anchor → Bool} (hp : c.Said d heard pkt)
    (hlater : ∀ y, heard y = true → heard' y = true) : c.Said d heard' pkt where
  toEnters := hp.toEnters
  names := hp.names
  kind := by
    rcases hp.kind with hsyn | ⟨hd, hm, hheard⟩ | ⟨hd, hm, hheard⟩
    · exact Or.inl hsyn
    · exact Or.inr (Or.inl ⟨hd, hm, hlater _ hheard⟩)
    · exact Or.inr (Or.inr ⟨hd, hm, hlater _ hheard⟩)

/-- **Every move keeps the invariant.** -/
theorem Reconfiguration.Sound.step {l : AnchorMove} (hs : c.Sound d s) (hl : c.Enabled s l) :
    c.Sound d (c.effect s l) := by
  cases l with
  | speaks x pkt =>
    obtain ⟨hhosts, hsaid⟩ := hs.hosts.speaks hs.order hl
    refine ⟨⟨?_, hs.order, hs.wire, hs.got⟩, hhosts⟩
    intro p hp
    simp only [effect] at hp
    split at hp
    · rcases List.mem_cons.mp hp with rfl | hp
      · exact hsaid
      · exact hs.control p hp
    · exact hs.control p hp
  | hears x pkt =>
    obtain ⟨hhosts, horder, hlater⟩ := hs.hosts.hears hs.order (hs.control pkt hl.1) hl.2
    refine ⟨⟨fun p hp => (hs.control p hp).later hlater, horder, ?_, hs.got⟩, hhosts⟩
    intro y skb hskb hto
    obtain ⟨hheard, hrest⟩ := hs.wire y skb hskb hto
    exact ⟨hlater _ hheard, hrest⟩
  | sends x skb =>
    obtain ⟨hhosts, hpasses, hleaves⟩ := hs.hosts.sends hl
    have hmore : ∀ y, ∀ s₀ ∈ s.sent y, s₀ ∈ Function.update s.sent x (skb :: s.sent x) y := by
      intro y s₀ hmem
      by_cases hy : y = x
      · subst hy
        rw [Function.update_self]
        exact List.mem_cons_of_mem _ hmem
      · rwa [Function.update_of_ne hy]
    refine ⟨⟨hs.control, hs.order, ?_, ?_⟩, hhosts⟩
    · intro y skb' hskb' hto
      have hold : skb' ∈ s.wire y → s.heard .right = true ∧ SegmentOf (d.path y) skb' ∧
          ∃ skb₀ ∈ Function.update s.sent x (skb :: s.sent x) y,
            Renumbered (d.out y).1 (d.out y).2 skb₀ skb' := by
        intro hmem
        obtain ⟨hheard, hseg, skb₀, hmem₀, hnum⟩ := hs.wire y skb' hmem hto
        exact ⟨hheard, hseg, skb₀, hmore y skb₀ hmem₀, hnum⟩
      by_cases hy : y = x
      · subst hy
        simp only [effect, hpasses, if_true, Function.update_self] at hskb'
        rcases List.mem_cons.mp hskb' with rfl | hmem
        · obtain ⟨hheard, hseg, hnum⟩ := hleaves hto
          refine ⟨hheard, hseg, skb, ?_, hnum⟩
          simp only [effect, Function.update_self]
          exact List.mem_cons_self
        · exact hold hmem
      · simp only [effect, hpasses, if_true, Function.update_of_ne hy] at hskb'
        exact hold hskb'
    · intro y skb' hskb'
      obtain ⟨hsession, skb₀, hmem₀, hnum⟩ := hs.got y skb' hskb'
      exact ⟨hsession, skb₀, hmore _ skb₀ hmem₀, hnum⟩
  | takes x skb =>
    obtain ⟨hmem, hto⟩ := hl
    obtain ⟨hheard, hseg, skb₀, hmem₀, hnum⟩ := hs.wire x.other skb hmem
      (by rw [Anchor.other_other]; exact hto)
    obtain ⟨hhosts, hpasses, hin, hsession⟩ := hs.hosts.takes hheard hseg
    refine ⟨⟨hs.control, hs.order, hs.wire, ?_⟩, hhosts⟩
    intro y skb' hskb'
    by_cases hy : y = x
    · subst hy
      simp only [effect, hpasses, if_true, Function.update_self] at hskb'
      rcases List.mem_cons.mp hskb' with rfl | hold
      · exact ⟨hsession, skb₀, hmem₀, Deal.renumbered hnum hin⟩
      · exact hs.got y skb' hold
    · simp only [effect, hpasses, if_true, Function.update_of_ne hy] at hskb'
      exact hs.got y skb' hskb'
  | foreign x skb =>
    obtain ⟨htcp, hsyn, hfrom⟩ := hl
    exact ⟨⟨hs.control, hs.order, hs.wire, hs.got⟩, hs.hosts.foreign htcp hsyn hfrom⟩

theorem Reconfiguration.block_eq (ho : (s.host x).lookupOut (c.env x) (c.own x) = some o) :
    c.block s x = (s.host x).outMem o := by
  rw [block, ho]
  rfl

/-- **When the first `DYSCO_SYN` has left**, everything is settled. -/
theorem Reconfiguration.sound_init (hs : c.system.init s) : ∃ d, c.Sound d s := by
  obtain ⟨s₀, pkt, hstill, hp, hm, rfl⟩ := hs
  obtain ⟨o, hl⟩ := hstill.ready .left
  obtain ⟨r, hr⟩ := hstill.ready .right
  obtain ⟨sub, l, i, j, sport, dport, hwired, hok, hpkt, ht, hstate, hmark⟩ :=
    leftWired_first hl hp.names hp.saddr hp.daddr
  have hbl := block_eq hl.session
  have hbr := block_eq hr.session
  rw [← hbl] at hwired ht
  have he : (controlOutputSyn (c.env .left) (s₀.host .left) pkt).2.2.envelope = pkt.envelope := by
    rw [hpkt]
    rfl
  have hfirst := controlOutput_syn hp.toHandled hm (s₀.host .left)
  refine ⟨⟨sub, l, r, fun y => (c.block s₀ y).inIseq, fun y => (c.block s₀ y).inIack⟩,
    ⟨?_, ?_, ?_, ?_⟩, ?_, ?_, ?_, ?_⟩
  · intro p hpmem
    simp only [effect, hfirst, hok, if_true, hstill.control, List.mem_singleton] at hpmem
    subst hpmem
    refine ⟨hp.toHandled.enters.of_envelope he, hp.names.of_envelope he, Or.inl ⟨?_, ?_, ?_, ht⟩⟩
    · rw [hpkt]
      exact hp.saddr
    · rw [hpkt]
      exact hp.daddr
    · rw [hpkt]
      exact hm
  · intro hheard
    simp only [effect, hstill.heard] at hheard
    cases hheard
  · intro y skb hskb
    simp only [effect, hstill.wire] at hskb
    cases hskb
  · intro y skb hskb
    simp only [effect, hstill.got] at hskb
    cases hskb
  · simp only [effect, hfirst, Function.update_self]
    exact hwired
  · intro htold
    simp only [effect, hstill.heard] at htold
    cases htold
  · intro _
    exact ⟨hr.toIdle, congrArg (fun d : CbOut => (d.inIseq, d.inIack)) hbr.symm⟩
  · intro _
    simp only [effect, hfirst, Function.update_self]
    rw [CbOut.progress, hstate, hmark]

theorem Reconfiguration.sound_steps {t : Anchors} {ls : List AnchorMove} (hs : c.Sound d s)
    (ht : c.system.Steps s ls t) : c.Sound d t := by
  refine ht.invariant (P := c.Sound d) ?_ hs
  rintro s l t hs ⟨hl, rfl⟩
  exact hs.step hl

/-- The numbers of the sessions stay what they were. -/
theorem Reconfiguration.Sound.block (hs : c.Sound d s) (x : Anchor) :
    ((c.block s x).inIseq, (c.block s x).inIack) = (d.iseq x, d.iack x) := by
  cases x with
  | left =>
    rw [block_eq hs.hosts.left.look]
    exact hs.hosts.left.numbers
  | right =>
    cases hheard : s.heard .right with
    | true =>
      obtain ⟨b, hr⟩ := hs.hosts.right hheard
      rw [block_eq hr.look]
      exact hr.numbers
    | false =>
      obtain ⟨hidle, hnum⟩ := hs.hosts.idle hheard
      rw [block_eq hidle.session]
      exact hnum

end Hosts

/-- **The new path delivers.**  Over any run, in which the network may lose, repeat and reorder
messages and segments, every segment that an anchor has addressed to the other one finds its input
block there and is passed on, and all that a stack has been handed from the new path is what the
other stack has sent, as a segment of its own session, moved from the other session's numbers to its
own. -/
theorem anchors_deliver (c : Reconfiguration) {s t : Anchors} {ls : List AnchorMove}
    (hs : c.system.init s) (ht : c.system.Steps s ls t) (x : Anchor) :
    (∀ skb ∈ t.wire x.other, skb.daddr = c.addr x →
      ((t.host x).lookupIn (c.env x) skb.session).isSome ∧
        (input (c.env x) (t.host x) skb).2.2 = true) ∧
    ∀ skb' ∈ t.got x, skb'.session = (c.own x).reverse ∧
      ∃ skb ∈ t.sent x.other,
        Renumbered ((c.block t x).inIack - (c.block t x.other).inIseq)
          ((c.block t x).inIseq - (c.block t x.other).inIack) skb skb' := by
  obtain ⟨d, hsound⟩ := c.sound_init hs
  have hd := c.sound_steps hsound ht
  constructor
  · intro skb hskb hto
    obtain ⟨htold, hseg, -⟩ := hd.wire x.other skb hskb (by rw [Anchor.other_other]; exact hto)
    obtain ⟨b, hb⟩ := hd.hosts.spans x htold
    refine ⟨?_, (hd.hosts.takes htold hseg).2.1⟩
    rw [hseg.session, d.path_other, hb.comes]
    rfl
  · intro skb' hskb'
    have hx := hd.block x
    have hother := hd.block x.other
    rw [Prod.mk.injEq] at hx hother
    rw [hx.1, hx.2, hother.1, hother.2]
    exact hd.got x skb' hskb'

/-! ### A middlebox is removed -/

/-- The anchors are hosts 1 and 2; the middlebox has been the end of both sessions. -/
def removal : Reconfiguration where
  env x :=
    { (default : Env) with
      route := fun _ daddr => some (if x = .left then 1#32 else 2#32, daddr)
      ifaddrs := [if x = .left then 1#32 else 2#32] }
  addr x := if x = .left then 1#32 else 2#32
  own x :=
    if x = .left then ⟨1#32, 9#32, 0x1111#16, 0x5000#16⟩ else ⟨2#32, 9#32, 0x5000#16, 0x2222#16⟩
  apart := by decide
  routed _ := ⟨2#32, rfl⟩

/-- A host with the session on its way to the middlebox. -/
def removalHost (x : Anchor) : Host :=
  { Host.fresh with
    outMem := fun _ =>
      { (default : CbOut) with
        super := removal.own x
        sub := removal.own x
        inIseq := if x = .left then 1000#32 else 7000#32
        seqCutoff := if x = .left then 1000#32 else 7000#32
        inIack := if x = .left then 5000#32 else 3000#32
        dcbIn := some 0 }
    inMem := fun _ =>
      { (default : CbIn) with
        super := (removal.own x).reverse
        sub := (removal.own x).reverse
        dcbOut := some 0 }
    brk := 1
    hashOut := ⟨[(0, 0)]⟩
    hashIn := ⟨[(0, 0)]⟩ }

def removalStart : Anchors :=
  ⟨removalHost, [], fun _ => [], fun _ => [], fun _ => [], fun _ => [], fun _ => false⟩

/-- What the right anchor's stack sends: four bytes. -/
def removalSegment : SkBuff :=
  { (default : SkBuff) with
    hProto := htons 0x0800#16
    protocol := ipprotoTcp
    totLen := htons 44#16
    saddr := 2#32
    daddr := 9#32
    source := 0x5000#16
    dest := 0x2222#16
    seq := htonl 7001#32
    ackSeq := htonl 3001#32
    doff := 5#4
    flags := tcphdrAck
    data := [1#8, 2#8, 3#8, 4#8] }

/-- What the left anchor's stack sends: two bytes. -/
def removalData : SkBuff :=
  { removalSegment with
    totLen := htons 42#16
    saddr := 1#32
    source := 0x1111#16
    dest := 0x5000#16
    seq := htonl 1000#32
    ackSeq := htonl 5001#32
    data := [5#8, 6#8] }

/-- The right anchor answers, its segment overtakes the answer, the left one still sends on the old
path, and both anchors switch. -/
def removalMove : Nat → Anchors → AnchorMove
  | 0, s => .hears .right (s.control.headD default)
  | 1, _ => .speaks .right (removal.message .right .synAck)
  | 2, _ => .sends .right removalSegment
  | 3, s => .takes .left ((s.wire .right).headD default)
  | 4, _ => .sends .left removalData
  | 5, s => .hears .left (s.control.headD default)
  | 6, _ => .speaks .left (removal.message .left .ack)
  | _, s => .hears .right (s.control.headD default)

def removalRun : Nat → Anchors
  | 0 => removal.effect removalStart (.speaks .left (removal.message .left .syn))
  | n + 1 => removal.effect (removalRun n) (removalMove n (removalRun n))

theorem removal_ready (x : Anchor) : removal.Ready x 0 (removalHost x) where
  wf :=
    { out_lt := fun p hp => by
        obtain ⟨bucket, hmem⟩ := hp
        obtain rfl : p = 0 := congrArg Prod.snd (List.mem_singleton.mp hmem)
        exact Nat.zero_lt_one
      in_lt := fun q hq => by
        obtain ⟨bucket, hmem⟩ := hq
        obtain rfl : q = 0 := congrArg Prod.snd (List.mem_singleton.mp hmem)
        exact Nat.zero_lt_one
      reconfig_lt := fun r hr => by
        obtain ⟨bucket, hmem⟩ := hr
        cases hmem
      dcbIn_lt := fun p q _ hq => by
        cases hq
        exact Nat.zero_lt_one }
  memory _ := rfl
  first := by cases x <;> decide
  session := by cases x <;> decide
  onePath := rfl
  plain := rfl
  detour := by cases x <;> decide
  state := rfl
  unmarked := rfl
  alone _ hp := by cases hp
  inner q p _ hp := by
    cases hp
    exact Nat.zero_lt_one

theorem removal_ifaddrs (x : Anchor) : removal.addr x ∈ (removal.env x).ifaddrs :=
  List.mem_singleton.mpr rfl

theorem removal_init : removal.system.init (removalRun 0) :=
  ⟨removalStart, removal.message .left .syn,
    ⟨fun x => ⟨0, removal_ready x⟩, rfl, fun _ => rfl, fun _ => rfl, fun _ => rfl, fun _ => rfl⟩,
    removal.speaks_message (removal_ifaddrs _) trivial, rfl, rfl⟩

theorem removal_steps : ∃ ls, removal.system.Steps (removalRun 0) ls (removalRun 4) := by
  have h0 : removal.system.step (removalRun 0) (removalMove 0 (removalRun 0)) (removalRun 1) :=
    ⟨⟨by decide +kernel, by decide +kernel⟩, rfl⟩
  have h1 : removal.system.step (removalRun 1) (removalMove 1 (removalRun 1)) (removalRun 2) :=
    ⟨removal.speaks_message (removal_ifaddrs _)
      (by decide +kernel : (removalRun 1).heard .right = true), rfl⟩
  have h2 : removal.system.step (removalRun 2) (removalMove 2 (removalRun 2)) (removalRun 3) :=
    ⟨⟨⟨by decide, by decide⟩, by decide, by decide⟩, rfl⟩
  have h3 : removal.system.step (removalRun 3) (removalMove 3 (removalRun 3)) (removalRun 4) :=
    ⟨⟨by decide +kernel, by decide +kernel⟩, rfl⟩
  exact ⟨_, (((Steps.single h0).tail h1).tail h2).tail h3⟩

/-- The segment has arrived, in the left session's numbers. -/
theorem anchors_deliver_removal :
    ((removalRun 4).got .left).map (fun skb => (ntohl skb.seq, ntohl skb.ackSeq)) =
        [(5001#32, 1001#32)] ∧
      ∀ skb' ∈ (removalRun 4).got .left, skb'.session = (removal.own .left).reverse ∧
        ∃ skb ∈ (removalRun 4).sent .right,
          Renumbered ((removal.block (removalRun 4) .left).inIack -
              (removal.block (removalRun 4) .right).inIseq)
            ((removal.block (removalRun 4) .left).inIseq -
              (removal.block (removalRun 4) .right).inIack) skb skb' := by
  obtain ⟨ls, hsteps⟩ := removal_steps
  exact ⟨by decide +kernel, (anchors_deliver removal removal_init hsteps .left).2⟩

end Dysco
