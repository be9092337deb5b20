import Dysco.EventRuns
import Dysco.Traversal

/-! # A session on the path that its SYN made

After the SYN has gone through its chain, the hosts of the chain are joined: the blocks of a host
send packets of the session on as packets of the subsession that the next host expects, in both
directions (`Line`).  Neither a SYN+ACK nor a segment that is not a SYN changes that, whatever
their order, so everything else that either end sends goes through the same hosts and is handed
to each of their stacks with the five-tuple of the session (`afterwards_delivered`).
-/
namespace Dysco
open EventRuns

variable {E : Env} {h : Host} {skb skb' : SkBuff} {ss sub super : TcpSession} {p q : Nat}

/-! ## What leaves the blocks of a session alone -/

/-- The packets agree in all but addresses and ports and what changes from link to link. -/
def SameSegment (skb skb' : SkBuff) : Prop := skb'.core = { skb.core with
  saddr := skb'.saddr, daddr := skb'.daddr, source := skb'.source, dest := skb'.dest }

/-- A packet of the session other than the SYN that opens it. -/
structure Follows (ss : TcpSession) (skb : SkBuff) : Prop extends skb.IsTcp where
  session : skb.session = ss
  answer : skb.hasSyn = true → skb.hasAck = true

/-- A packet that is left as it is carries the same segment. -/
theorem Unaltered.sameSegment (hu : Unaltered skb skb') : SameSegment skb skb' := by
  rw [Unaltered] at hu
  rw [SameSegment, hu]
  rfl

/-- What two rewrites in a row leave alone. -/
theorem SameSegment.trans {s t u : SkBuff} (hst : SameSegment s t) (htu : SameSegment t u) :
    SameSegment s u := by
  rw [SameSegment] at hst htu ⊢
  rw [htu, hst]

/-- A middlebox that changes nothing that counts passes on the same segment of the same session. -/
theorem SameSegment.of_core (hcore : skb'.core = skb.core) :
    SameSegment skb skb' ∧ skb'.session = skb.session := by
  have hfield : ∀ {D : Type} (f : SkBuff → D), f skb'.core = f skb.core := fun f => congrArg f hcore
  have hsaddr : skb'.saddr = skb.saddr := hfield SkBuff.saddr
  have hdaddr : skb'.daddr = skb.daddr := hfield SkBuff.daddr
  have hsource : skb'.source = skb.source := hfield SkBuff.source
  have hdest : skb'.dest = skb.dest := hfield SkBuff.dest
  refine ⟨?_, hfield SkBuff.session⟩
  rw [SameSegment, hcore, hsaddr, hdaddr, hsource, hdest]
  rfl

/-- A segment of the session stays one under the addresses of another link. -/
theorem Follows.sameSegment (hf : Follows ss skb) (hs : SameSegment skb skb') :
    Follows skb'.session skb' := by
  rw [SameSegment] at hs
  have hfield : ∀ {D : Type} (f : SkBuff → D), f skb'.core = f { skb.core with
      saddr := skb'.saddr, daddr := skb'.daddr, source := skb'.source, dest := skb'.dest } :=
    fun f => congrArg f hs
  have hproto : skb'.hProto = skb.hProto := hfield SkBuff.hProto
  have hprotocol : skb'.protocol = skb.protocol := hfield SkBuff.protocol
  have hflags : skb'.flags = skb.flags := hfield SkBuff.flags
  refine ⟨⟨?_, ?_⟩, rfl, ?_⟩
  · rw [hproto]
    exact hf.ip
  · rw [hprotocol]
    exact hf.tcp
  · rw [SkBuff.hasSyn, SkBuff.hasAck, hflags]
    exact hf.answer

/-- A block that translates nothing only readdresses. -/
theorem CbIn.Plain.inHdrRewriteCsum {d : CbIn} (hd : d.Plain) (skb : SkBuff) :
    SameSegment skb (Dysco.inHdrRewriteCsum skb d) ∧ (Dysco.inHdrRewriteCsum skb d).session =
      d.super := by
  have hstill : d.Still :=
    ⟨hd.seqDelta, hd.ackDelta, fun _ => hd.tsDelta, fun _ => hd.wsDelta, hd.onePath⟩
  have hnone : Dysco.inHdrRewriteCsum skb d = inTupleRewriteCsum skb d := by
    rw [Dysco.inHdrRewriteCsum, inRewrite_still hstill]
    split
    · rw [hd.tsrDelta, rewriteTs_same]
    · rfl
  obtain ⟨hsame, hsession⟩ := unaltered_inTupleRewriteCsum skb d
  rw [hnone]
  exact ⟨hsame.sameSegment, hsession⟩

/-- On its way out a segment gets the addresses of the next link and keeps what it says. -/
theorem outHdrRewriteCsum_session (skb : SkBuff) (d : CbOut) :
    SameSegment skb (outHdrRewriteCsum E skb d) ∧ (outHdrRewriteCsum E skb d).session = d.sub := by
  refine ⟨(unaltered_outHdrRewriteCsum skb d).sameSegment, ?_⟩
  rw [outHdrRewriteCsum_eq]
  have hshape := (retupled skb d.sub.dip d.sub).shape
  generalize tupleRewriteCsum skb _ _ d.sub = s at hshape ⊢
  rw [hshape]
  rfl

/-- The input block is rewritten, but still belongs to the same sessions and translates nothing. -/
structure CbIn.SameWay (d d' : CbIn) : Prop where
  sub : d'.sub = d.sub
  super : d'.super = d.super
  plain : d.Plain → d'.Plain

/-- Blocks are rewritten in place, each in its own way. -/
structure Rewritten (h g : Host) : Prop where
  hashOut : g.hashOut = h.hashOut
  hashIn : g.hashIn = h.hashIn
  out : ∀ p, (h.outMem p).SameWay (g.outMem p)
  inp : ∀ q, (h.inMem q).SameWay (g.inMem q)

namespace Rewritten
variable {g k : Host}

theorem refl (h : Host) : Rewritten h h :=
  ⟨rfl, rfl, fun _ => ⟨rfl, rfl, rfl, rfl⟩, fun _ => ⟨rfl, rfl, id⟩⟩

/-- Two events in a row that only rewrite blocks. -/
theorem trans (hg : Rewritten h g) (hk : Rewritten g k) : Rewritten h k where
  hashOut := hk.hashOut.trans hg.hashOut
  hashIn := hk.hashIn.trans hg.hashIn
  out p := ⟨(hk.out p).super.trans (hg.out p).super, (hk.out p).sub.trans (hg.out p).sub,
    (hk.out p).otherPath.trans (hg.out p).otherPath, (hk.out p).myTp.trans (hg.out p).myTp⟩
  inp q := ⟨(hk.inp q).sub.trans (hg.inp q).sub, (hk.inp q).super.trans (hg.inp q).super,
    fun hd => (hk.inp q).plain ((hg.inp q).plain hd)⟩

/-- A block may be rewritten as long as it leads the same way. -/
theorem setOut {d : CbOut} (hd : (h.outMem p).SameWay d) : Rewritten h (h.setOut p d) where
  hashOut := rfl
  hashIn := rfl
  out x := by
    by_cases hx : x = p
    · rw [hx, Host.setOut_outMem_self]
      exact hd
    · rw [Host.setOut_outMem_of_ne _ hx]
      exact ⟨rfl, rfl, rfl, rfl⟩
  inp _ := ⟨rfl, rfl, id⟩

/-- So may an input block. -/
theorem setIn {d : CbIn} (hd : (h.inMem q).SameWay d) : Rewritten h (h.setIn q d) where
  hashOut := rfl
  hashIn := rfl
  out _ := ⟨rfl, rfl, rfl, rfl⟩
  inp x := by
    by_cases hx : x = q
    · rw [hx, Host.setIn_inMem_self]
      exact hd
    · rw [Host.setIn_inMem_of_ne _ hx]
      exact ⟨rfl, rfl, id⟩

/-- The session still goes out by the same link. -/
theorem goes (hg : Rewritten h g) (hs : Goes E h super sub p) : Goes E g super sub p where
  found := by
    rw [Host.lookupOut, hg.hashOut, ← hs.found]
    exact BucketTable.lookup_congr fun m _ => (hg.out m).super
  super := (hg.out p).super.trans hs.super
  sub := (hg.out p).sub.trans hs.sub
  onePath := (hg.out p).otherPath.trans hs.onePath
  noSock := (hg.out p).myTp.trans hs.noSock

/-- And it still comes in by it. -/
theorem comes (hg : Rewritten h g) (hs : Comes E h sub super q) : Comes E g sub super q where
  found := by
    rw [Host.lookupIn, hg.hashIn, ← hs.found]
    exact BucketTable.lookup_congr fun m _ => (hg.inp m).sub
  sub := (hg.inp q).sub.trans hs.sub
  super := (hg.inp q).super.trans hs.super
  plain := (hg.inp q).plain hs.plain

end Rewritten

/-! ## One host -/

/-- A SYN+ACK that comes in sets numbers of the blocks, all deltas being zero. -/
theorem setAckNumberOut_rewritten (h : Host) (skb : SkBuff) (q : Nat) :
    Rewritten h (setAckNumberOut E h skb q) := by
  have h1 : Rewritten h (h.setIn q ((h.inMem q).synAckIn skb)) :=
    .setIn ⟨rfl, rfl, fun hd => { hd with seqDelta := rfl, ackDelta := rfl }⟩
  rw [setAckNumberOut]
  simp only
  generalize h.setIn q ((h.inMem q).synAckIn skb) = g at h1 ⊢
  split
  · exact h1
  · rename_i p _
    obtain ⟨hsub, hsuper⟩ := parseTcpSynOptR_sessions skb (g.inMem q)
    have h2 : Rewritten g (g.setIn q (parseTcpSynOptR skb (g.inMem q))) :=
      .setIn ⟨hsub, hsuper, fun hd => hd.parseTcpSynOptR skb⟩
    refine (h1.trans h2).trans (.setOut ⟨?_, ?_, ?_, ?_⟩)
    all_goals
      rw [CbOut.synAckIn]
      split <;> split <;> rfl

/-- **What comes in** is handed to the stack as a packet of the session. -/
theorem Comes.input_eq (hc : Comes E h sub super q) (hf : Follows sub skb) :
    ∃ g inside, input E h skb = (g, inside, true) ∧ Rewritten h g ∧ SameSegment skb inside ∧
      inside.session = super := by
  have hfound : h.lookupIn E skb.session = some q := by rw [hf.session, hc.found]
  rw [input, if_neg (not_not_intro hf.ip), if_neg (not_not_intro hf.tcp), hfound]
  cases hsyn : skb.hasSyn with
  | false =>
    obtain ⟨hsame, hsession⟩ := hc.plain.inHdrRewriteCsum skb
    simp only [Bool.false_eq_true, if_false, inputSegment, hc.plain.onePath, if_true]
    exact ⟨h, _, rfl, .refl h, hsame, hsession.trans hc.super⟩
  | true =>
    simp only [hf.answer hsyn, if_true]
    have h1 : Rewritten h (h.setIn q { h.inMem q with skbIif := skb.skbIif }) :=
      .setIn ⟨rfl, rfl, fun hd => { hd with }⟩
    have h2 := h1.trans (setAckNumberOut_rewritten (E := E) _ skb q)
    generalize setAckNumberOut E _ skb q = g at h2 ⊢
    have hcomes := h2.comes hc
    obtain ⟨hsame, hsession⟩ := hcomes.plain.inHdrRewriteCsum skb
    exact ⟨g, _, rfl, h2, hsame, hsession.trans hcomes.super⟩

/-- A SYN+ACK that leaves does so in the input block. -/
theorem CbIn.SameWay.synAckOut (d : CbIn) (o : CbOut) : d.SameWay (d.synAckOut o) := by
  rw [CbIn.synAckOut]
  cases o.tsOk with
  | true =>
    simp only [if_true]
    split <;> exact ⟨rfl, rfl, fun hd =>
      { hd with seqDelta := rfl, ackDelta := rfl, tsDelta := rfl, tsrDelta := rfl }⟩
  | false =>
    simp only [Bool.false_eq_true, if_false]
    split <;> exact ⟨rfl, rfl, fun hd => { hd with seqDelta := rfl, ackDelta := rfl }⟩

/-- **What goes out** is sent as a packet of the subsession, if answers to it can come in. -/
theorem Goes.output_eq (hg : Goes E h super sub p) (hc : Comes E h sub.reverse super.reverse q)
    (hf : Follows super skb) :
    ∃ g out, output E h skb = (g, out, true) ∧ Rewritten h g ∧ SameSegment skb out ∧
      out.session = sub := by
  have hfound : h.lookupOut E skb.session = some p := by rw [hf.session, hg.found]
  cases hsyn : skb.hasSyn with
  | false =>
    have hhost := output_onePath hf.toIsTcp hsyn hfound hg.onePath
    have hrewritten : Rewritten h (output E h skb).1 := by
      rw [hhost]
      split
      · exact .setOut ⟨rfl, rfl, rfl, rfl⟩
      · exact .refl h
    have hpacket : ∃ d : CbOut, (output E h skb).2 = (outHdrRewriteCsum E skb d, true) ∧
        d.sub = sub := by
      rw [output_unfold, if_neg (not_not_intro hf.ip), if_neg (not_not_intro hf.tcp), hfound]
      simp only [outputWith, hsyn, Bool.false_eq_true, if_false, hg.noSock]
      rw [outTranslate]
      simp only [hg.onePath]
      refine ⟨_, rfl, ?_⟩
      split
      · rw [Host.setOut_outMem_self]
        exact hg.sub
      · exact hg.sub
    obtain ⟨d, hpkt, hsub⟩ := hpacket
    obtain ⟨hsame, hsession⟩ := outHdrRewriteCsum_session (E := E) skb d
    refine ⟨(output E h skb).1, outHdrRewriteCsum E skb d, ?_, hrewritten, hsame,
      hsession.trans hsub⟩
    rw [← hpkt]
  | true =>
    rw [output_unfold, if_neg (not_not_intro hf.ip), if_neg (not_not_intro hf.tcp), hfound]
    simp only [outputWith, hsyn, if_true, outSyn]
    rw [outSynWith]
    simp only [hf.answer hsyn, if_true]
    generalize hd : parseTcpSynOptS skb { h.outMem p with seqCutoff := ntohl skb.seq } = d
    have hway : (h.outMem p).SameWay d := by
      rw [← hd, parseTcpSynOptS_eq]
      exact ⟨rfl, rfl, rfl, rfl⟩
    have h1 : Rewritten h (h.setOut p d) := .setOut hway
    have hself : (h.setOut p d).outMem p = d := h.setOut_outMem_self d
    have hsub : d.sub = sub := hway.sub.trans hg.sub
    have hback : (h.setOut p d).lookupIn E d.sub.reverse = some q := by
      rw [hsub]
      exact (h1.comes hc).found
    generalize h.setOut p d = g at h1 hself hback ⊢
    rw [hback]
    simp only
    have h2 : Rewritten g (g.setOut p (d.synAckOut skb)) := .setOut (by
      rw [hself]
      exact ⟨rfl, rfl, rfl, rfl⟩)
    generalize g.setOut p (d.synAckOut skb) = k at h2 ⊢
    obtain ⟨hsame, hsession⟩ := outHdrRewriteCsum_session (E := E) skb (d.synAckOut skb)
    exact ⟨_, _, rfl, (h1.trans h2).trans (.setIn (.synAckOut _ _)), hsame, hsession.trans hsub⟩

/-! ## A line of hosts -/

/-- What a host has for a session between the link to the host before it and the link to the host
after it, each given by its subsession. -/
structure Joined (E : Env) (h : Host) (ss : TcpSession) (before after : Option TcpSession) :
    Prop where
  comes : ∀ sub ∈ before, ∃ q, Comes E h sub ss q
  goesBack : ∀ sub ∈ before, ∃ p, Goes E h ss.reverse sub.reverse p
  goes : ∀ sub ∈ after, ∃ p, Goes E h ss sub p
  comesBack : ∀ sub ∈ after, ∃ q, Comes E h sub.reverse ss.reverse q

/-- The host is joined to its neighbours, and its middlebox is transparent. -/
structure Stop.Joined (s : Stop) (ss : TcpSession) (before after : Option TcpSession) : Prop where
  blocks : Dysco.Joined s.env s.host ss before after
  transparent : ∀ skb, (s.emit skb).core = skb.core

/-- Each host is joined to the next by one of the `links`, the first to what comes before the line.
-/
inductive Line (ss : TcpSession) : Option TcpSession → List TcpSession → List Stop → Prop where
  | last {before s} (joined : s.Joined ss before none) : Line ss before [] [s]
  | link {before s sub links t stops} (joined : s.Joined ss before (some sub))
    (rest : Line ss (some sub) links (t :: stops)) : Line ss before (sub :: links) (s :: t :: stops)

/-- A packet comes in; the stack gets what the hook passes on. -/
def Stop.enter (s : Stop) (pkt : SkBuff) : Stop × Option SkBuff :=
  ({ s with host := (input s.env s.host pkt).1 }, passedOn (input s.env s.host pkt))

/-- A packet goes out, if the hook passes it on. -/
def Stop.leave (s : Stop) (skb : SkBuff) : Stop × Option SkBuff :=
  ({ s with host := (output s.env s.host skb).1 }, passedOn (output s.env s.host skb))

/-- A packet comes in, and the middlebox sends on what the stack gets. -/
def Stop.relay (s : Stop) (pkt : SkBuff) : Stop × Option SkBuff × Option SkBuff :=
  let arrived := s.enter pkt
  match arrived.2 with
  | none => (arrived.1, none, none)
  | some inside =>
    let gone := arrived.1.leave (s.emit inside)
    (gone.1, some inside, gone.2)

/-- What an event does to a line: the hosts afterwards, what their stacks have got and what has been
on their links, both from left to right. -/
structure Passage where
  stops : List Stop
  handed : List SkBuff
  wires : List SkBuff

/-- A packet comes in at the first host and goes to the last, as far as the hooks pass it on. -/
def goRight : List Stop → SkBuff → Passage
  | [], _ => ⟨[], [], []⟩
  | [s], pkt =>
    let arrived := s.enter pkt
    ⟨[arrived.1], arrived.2.toList, [pkt]⟩
  | s :: t :: stops, pkt =>
    let relayed := s.relay pkt
    match relayed.2.2 with
    | none => ⟨relayed.1 :: t :: stops, relayed.2.1.toList, [pkt]⟩
    | some out =>
      let rest := goRight (t :: stops) out
      ⟨relayed.1 :: rest.stops, relayed.2.1.toList ++ rest.handed, pkt :: rest.wires⟩

/-- The last host sends a packet, and it goes out at the first, as far as the hooks pass it on. -/
def goLeft : List Stop → SkBuff → Passage × Option SkBuff
  | [], _ => (⟨[], [], []⟩, none)
  | [s], skb =>
    let gone := s.leave skb
    (⟨[gone.1], [], gone.2.toList⟩, gone.2)
  | s :: t :: stops, skb =>
    let rest := goLeft (t :: stops) skb
    match rest.2 with
    | none => (⟨s :: rest.1.stops, rest.1.handed, rest.1.wires⟩, none)
    | some pkt =>
      let relayed := s.relay pkt
      (⟨relayed.1 :: rest.1.stops, relayed.2.1.toList ++ rest.1.handed,
        relayed.2.2.toList ++ rest.1.wires⟩, relayed.2.2)

/-- What either end sends. -/
inductive PathEvent where
  | right (skb : SkBuff)
  | left (skb : SkBuff)

/-- The first host sends a packet to the right, or the last one to the left. -/
def pathGo : List Stop → PathEvent → Passage
  | [], _ => ⟨[], [], []⟩
  | s :: stops, .right skb =>
    let gone := s.leave skb
    match gone.2 with
    | none => ⟨gone.1 :: stops, [], []⟩
    | some out =>
      let rest := goRight stops out
      ⟨gone.1 :: rest.stops, rest.handed, rest.wires⟩
  | s :: stops, .left skb =>
    let rest := goLeft stops skb
    match rest.2 with
    | none => ⟨s :: rest.1.stops, rest.1.handed, rest.1.wires⟩
    | some pkt =>
      let arrived := s.enter pkt
      ⟨arrived.1 :: rest.1.stops, arrived.2.toList ++ rest.1.handed, rest.1.wires⟩

/-- The hosts after an event. -/
def pathStep (stops : List Stop) (ev : PathEvent) : List Stop := (pathGo stops ev).stops

/-- The packet belongs to the session, in the direction it is sent. -/
def PathEvent.Of (ss : TcpSession) : PathEvent → Prop
  | .right skb => Follows ss skb
  | .left skb => Follows ss.reverse skb

/-- The packet goes over all the links with their subsessions, and every stack but the sender's gets
it, as a packet of the session. -/
structure Passage.Complete (ss : TcpSession) (links : List TcpSession) (skb : SkBuff)
    (w : Passage) : Prop where
  handed : w.handed.length = links.length
  same : ∀ d ∈ w.handed, SameSegment skb d ∧ d.session = ss
  wires : w.wires.map SkBuff.session = links

/-- What either end sends gets to the other, over the same links. -/
def Relayed (ss : TcpSession) (links : List TcpSession) (stops : List Stop) : PathEvent → Prop
  | .right skb => (pathGo stops (.right skb)).Complete ss links skb
  | .left skb => (pathGo stops (.left skb)).Complete ss.reverse (links.map TcpSession.reverse) skb

section Line
variable {s : Stop} {stops : List Stop} {links : List TcpSession} {before after : Option TcpSession}
  {pkt : SkBuff}

/-- A host stays joined to its neighbours. -/
theorem Joined.rewritten {g : Host} (hj : Joined E h ss before after) (hg : Rewritten h g) :
    Joined E g ss before after where
  comes sub hs := (hj.comes sub hs).imp fun _ => hg.comes
  goesBack sub hs := (hj.goesBack sub hs).imp fun _ => hg.goes
  goes sub hs := (hj.goes sub hs).imp fun _ => hg.goes
  comesBack sub hs := (hj.comesBack sub hs).imp fun _ => hg.comes

/-- A packet comes in at a joined host, from the one or the other side. -/
theorem Stop.Joined.enter (hj : s.Joined ss before after) (hc : ∃ q, Comes s.env s.host sub super q)
    (hf : Follows sub pkt) : ∃ inside, (s.enter pkt).2 = some inside ∧
      (s.enter pkt).1.Joined ss before after ∧ SameSegment pkt inside ∧ inside.session = super := by
  obtain ⟨q, hc⟩ := hc
  obtain ⟨g, inside, hin, hg, hsame, hsession⟩ := hc.input_eq hf
  rw [Stop.enter, hin]
  exact ⟨inside, rfl, ⟨hj.blocks.rewritten hg, hj.transparent⟩, hsame, hsession⟩

/-- A packet goes out to the one or the other side. -/
theorem Stop.Joined.leave (hj : s.Joined ss before after) (hg : ∃ p, Goes s.env s.host super sub p)
    (hc : ∃ q, Comes s.env s.host sub.reverse super.reverse q) (hf : Follows super skb) :
    ∃ out, (s.leave skb).2 = some out ∧ (s.leave skb).1.Joined ss before after ∧
      SameSegment skb out ∧ out.session = sub := by
  obtain ⟨p, hg⟩ := hg
  obtain ⟨q, hc⟩ := hc
  obtain ⟨g, out, hout, hrewritten, hsame, hsession⟩ := hg.output_eq hc hf
  rw [Stop.leave, hout]
  exact ⟨out, rfl, ⟨hj.blocks.rewritten hrewritten, hj.transparent⟩, hsame, hsession⟩

/-- A segment that leaves for the right takes the link to the next host. -/
theorem Stop.Joined.leaveRight (hj : s.Joined ss before (some sub)) (hf : Follows ss skb) :
    ∃ out, (s.leave skb).2 = some out ∧ (s.leave skb).1.Joined ss before (some sub) ∧
      SameSegment skb out ∧ out.session = sub :=
  hj.leave (hj.blocks.goes sub rfl) (hj.blocks.comesBack sub rfl) hf

/-- A segment that leaves for the left takes the link to the previous host, the other way round. -/
theorem Stop.Joined.leaveLeft (hj : s.Joined ss (some sub) after) (hf : Follows ss.reverse skb) :
    ∃ out, (s.leave skb).2 = some out ∧ (s.leave skb).1.Joined ss (some sub) after ∧
      SameSegment skb out ∧ out.session = sub.reverse :=
  hj.leave (hj.blocks.goesBack sub rfl) (hj.blocks.comes sub rfl) hf

/-- A transparent middlebox emits a packet of the same session. -/
theorem Stop.Joined.emits {inside : SkBuff} (hj : s.Joined ss before after) (hf : Follows sub pkt)
    (hsame : SameSegment pkt inside) (hsession : inside.session = super) :
    Follows super (s.emit inside) ∧ SameSegment pkt (s.emit inside) := by
  obtain ⟨hemit, hemitted⟩ := SameSegment.of_core (hj.transparent inside)
  have hout := hsame.trans hemit
  have hfollows := hf.sameSegment hout
  rw [hemitted, hsession] at hfollows
  exact ⟨hfollows, hout⟩

/-- **A packet on its way to the right** is handed to the stack and sent on. -/
theorem Stop.Joined.relayRight {next : TcpSession} (hj : s.Joined ss (some sub) (some next))
    (hf : Follows sub pkt) : ∃ inside out, (s.relay pkt).2 = (some inside, some out) ∧
      (s.relay pkt).1.Joined ss (some sub) (some next) ∧ SameSegment pkt inside ∧
      inside.session = ss ∧ SameSegment pkt out ∧ Follows next out := by
  obtain ⟨inside, hin, hj1, hsame, hsession⟩ := hj.enter (hj.blocks.comes sub rfl) hf
  obtain ⟨hf1, hemit⟩ := hj.emits hf hsame hsession
  obtain ⟨out, hout, hj2, hsame2, hsession2⟩ := hj1.leaveRight hf1
  have hf2 := hf1.sameSegment hsame2
  rw [hsession2] at hf2
  rw [Stop.relay]
  simp only [hin]
  exact ⟨inside, out, by rw [hout], hj2, hsame, hsession, hemit.trans hsame2, hf2⟩

/-- **A packet on its way to the left.** -/
theorem Stop.Joined.relayLeft {next : TcpSession} (hj : s.Joined ss (some sub) (some next))
    (hf : Follows next.reverse pkt) : ∃ inside out, (s.relay pkt).2 = (some inside, some out) ∧
      (s.relay pkt).1.Joined ss (some sub) (some next) ∧ SameSegment pkt inside ∧
      inside.session = ss.reverse ∧ SameSegment pkt out ∧ out.session = sub.reverse := by
  obtain ⟨inside, hin, hj1, hsame, hsession⟩ := hj.enter (hj.blocks.comesBack next rfl) hf
  obtain ⟨hf1, hemit⟩ := hj.emits hf hsame hsession
  obtain ⟨out, hout, hj2, hsame2, hsession2⟩ := hj1.leaveLeft hf1
  rw [Stop.relay]
  simp only [hin]
  exact ⟨inside, out, by rw [hout], hj2, hsame, hsession, hemit.trans hsame2, hsession2⟩

/-- A host that is joined to the first of a line lengthens it. -/
theorem Line.cons (hj : s.Joined ss before (some sub)) (hl : Line ss (some sub) links stops) :
    Line ss before (sub :: links) (s :: stops) := by
  cases hl with
  | last joined => exact .link hj (.last joined)
  | link joined rest => exact .link hj (.link joined rest)

/-- **From left to right.** -/
theorem Line.goRight (hl : Line ss before links stops) (hb : before = some sub)
    (hf : Follows sub pkt) : Line ss before links (Dysco.goRight stops pkt).stops ∧
      (Dysco.goRight stops pkt).Complete ss (sub :: links) pkt := by
  induction hl generalizing sub pkt with
  | last joined =>
    subst hb
    obtain ⟨inside, hin, hj, hsame, hsession⟩ := joined.enter (joined.blocks.comes sub rfl) hf
    rw [Dysco.goRight]
    simp only [hin]
    exact ⟨.last hj, rfl, by simpa using ⟨hsame, hsession⟩, by simp [hf.session]⟩
  | @link before s next links t stops joined rest ih =>
    subst hb
    obtain ⟨inside, out, hrelay, hj, hsame, hsession, hsent, hnext⟩ := joined.relayRight hf
    obtain ⟨hline, hall⟩ := ih rfl hnext
    rw [Dysco.goRight]
    simp only [hrelay]
    refine ⟨hline.cons hj, ?_, ?_, ?_⟩
    · simp [hall.handed]
    · rintro d (_ | ⟨_, hd⟩)
      · exact ⟨hsame, hsession⟩
      · exact ⟨hsent.trans (hall.same d hd).1, (hall.same d hd).2⟩
    · simp [hf.session, hall.wires]

/-- **From right to left.** -/
theorem Line.goLeft (hl : Line ss before links stops) (hb : before = some sub)
    (hf : Follows ss.reverse skb) : Line ss before links (Dysco.goLeft stops skb).1.stops ∧
      (Dysco.goLeft stops skb).1.handed.length = links.length ∧
      (∀ d ∈ (Dysco.goLeft stops skb).1.handed, SameSegment skb d ∧ d.session = ss.reverse) ∧
      (Dysco.goLeft stops skb).1.wires.map SkBuff.session = (sub :: links).map TcpSession.reverse ∧
      ∃ pkt, (Dysco.goLeft stops skb).2 = some pkt ∧ SameSegment skb pkt ∧
        pkt.session = sub.reverse := by
  induction hl generalizing sub with
  | last joined =>
    subst hb
    obtain ⟨out, hout, hj, hsame, hsession⟩ := joined.leaveLeft hf
    rw [Dysco.goLeft]
    simp only [hout]
    exact ⟨.last hj, rfl, by simp, by simp [hsession], out, rfl, hsame, hsession⟩
  | @link before s next links t stops joined rest ih =>
    subst hb
    obtain ⟨hline, hlen, hall, hwires, pkt, hpkt, hsame, hsession⟩ := ih rfl
    have hf1 := hf.sameSegment hsame
    rw [hsession] at hf1
    obtain ⟨inside, out, hrelay, hj, hin, hinside, hsent, hout⟩ := joined.relayLeft hf1
    rw [Dysco.goLeft]
    simp only [hpkt, hrelay]
    refine ⟨hline.cons hj, ?_, ?_, ?_, out, rfl, hsame.trans hsent, hout⟩
    · simp [hlen]
    · rintro d (_ | ⟨_, hd⟩)
      · exact ⟨hsame.trans hin, hinside⟩
      · exact hall d hd
    · simp [hout, hwires]

/-- What either end sends is relayed, and the hosts stay joined. -/
theorem Line.step {ev : PathEvent} (hl : Line ss none links stops) (hmany : links ≠ [])
    (hev : ev.Of ss) : Line ss none links (pathStep stops ev) ∧ Relayed ss links stops ev := by
  cases hl with
  | last joined => exact absurd rfl hmany
  | @link _ s sub links t stops joined rest =>
    cases ev with
    | right skb =>
      obtain ⟨out, hout, hj, hsame, hsession⟩ := joined.leaveRight hev
      have hf := Follows.sameSegment hev hsame
      rw [hsession] at hf
      obtain ⟨hline, hall⟩ := rest.goRight rfl hf
      rw [pathStep, Relayed, pathGo]
      simp only [hout]
      refine ⟨hline.cons hj, hall.handed, ?_, hall.wires⟩
      intro d hd
      exact ⟨hsame.trans (hall.same d hd).1, (hall.same d hd).2⟩
    | left skb =>
      obtain ⟨hline, hlen, hall, hwires, pkt, hpkt, hsame, hsession⟩ := rest.goLeft rfl hev
      have hf := Follows.sameSegment hev hsame
      rw [hsession] at hf
      obtain ⟨inside, hin, hj, hinside, hsession'⟩ :=
        joined.enter (joined.blocks.comesBack sub rfl) hf
      rw [pathStep, Relayed, pathGo]
      simp only [hpkt, hin]
      refine ⟨hline.cons hj, ?_, ?_, hwires⟩
      · simp [hlen]
      · rintro d (_ | ⟨_, hd⟩)
        · exact ⟨hsame.trans hinside, hsession'⟩
        · exact hall d hd

/-- **Whatever either end sends, whenever.** -/
theorem Line.relays {evs : List PathEvent} (hl : Line ss none links stops) (hmany : links ≠ [])
    (hevs : ∀ ev ∈ evs, ev.Of ss) :
    AtEvery pathStep (fun stops ev => Line ss none links stops ∧ Relayed ss links stops ev)
      stops evs ∧
      Line ss none links (ran pathStep stops evs) := by
  have hof : AtEvery pathStep (fun _ ev => ev.Of ss) stops evs := .of_forall hevs
  have hkept : ∀ l ev, Line ss none links l → PathEvent.Of ss ev →
      Line ss none links (pathStep l ev) :=
    fun _ _ hl hev => (hl.step hmany hev).1
  exact ⟨(hof.with_invariant hl hkept).imp fun _ _ hstep =>
    ⟨hstep.1, (hstep.1.step hmany hstep.2).2⟩,
    hof.invariant hl hkept (List.prefix_refl _)⟩

end Line

/-! ## The line that a SYN leaves behind -/

/-- The hosts after the tour of a SYN: it has left each of them but the last. -/
def settled : List Stop → SkBuff → List Stop
  | [], _ => []
  | [s], pkt => [{ s with host := (s.visit pkt).entered }]
  | s :: t :: stops, pkt =>
    let v := s.visit pkt
    match v.leaves with
    | none => { s with host := v.left } :: t :: stops
    | some out => { s with host := v.left } :: settled (t :: stops) out

/-- The subsessions of the links that a SYN has gone over. -/
def linksOf (stops : List Stop) (pkt : SkBuff) : List TcpSession :=
  (tour stops pkt).map fun v => v.arrives.session

@[simp] theorem Stop.visit_env (s : Stop) (pkt : SkBuff) : (s.visit pkt).env = s.env := by
  rw [Stop.visit]
  split <;> rfl

@[simp] theorem Stop.visit_arrives (s : Stop) (pkt : SkBuff) : (s.visit pkt).arrives = pkt := by
  rw [Stop.visit]
  split <;> rfl

/-- The last host, where the SYN has been handed to the application, is joined to the link it came
by. -/
theorem Visit.Sound.joined {s : Stop} {syn pkt : SkBuff} {hop : U32}
    (hv : (s.visit pkt).Sound syn hop) (ht : ∀ skb, (s.emit skb).core = skb.core) :
    Stop.Joined { s with host := (s.visit pkt).entered } syn.session (some pkt.session) none where
  blocks :=
    { comes := by
        rintro sub ⟨rfl⟩
        simpa using hv.comes
      goesBack := by
        rintro sub ⟨rfl⟩
        simpa using hv.goesBack
      goes := by simp
      comesBack := by simp }
  transparent := ht

/-- A host that has passed the SYN on is joined to both links. -/
theorem Visit.Passes.joined {s : Stop} {syn pkt out : SkBuff} (hv : (s.visit pkt).Passes syn out)
    (ht : ∀ skb, (s.emit skb).core = skb.core) :
    Stop.Joined { s with host := (s.visit pkt).left } syn.session (some pkt.session)
      (some out.session) where
  blocks :=
    { comes := by
        rintro sub ⟨rfl⟩
        simpa using hv.comes
      goesBack := by
        rintro sub ⟨rfl⟩
        simpa using hv.goesBack
      goes := by
        rintro sub ⟨rfl⟩
        simpa using hv.goes
      comesBack := by
        rintro sub ⟨rfl⟩
        simpa using hv.comesBack }
  transparent := ht

/-- The links are those that the SYN came by, as long as it was passed on. -/
theorem linksOf_cons {s : Stop} {stops : List Stop} {pkt out : SkBuff}
    (hout : (s.visit pkt).leaves = some out) :
    linksOf (s :: stops) pkt = pkt.session :: linksOf stops out := by
  rw [linksOf, tour_cons hout, List.map_cons, Stop.visit_arrives]
  rfl

theorem linksOf_single (s : Stop) (pkt : SkBuff) : linksOf [s] pkt = [pkt.session] := by
  rw [linksOf, tour_single, List.map_singleton, Stop.visit_arrives]

/-- The hosts that a SYN has visited are a line. -/
theorem line_settled {stops : List Stop} {syn pkt : SkBuff} {hops : List U32} (hne : stops ≠ [])
    (hlen : stops.length = hops.length)
    (hsound : List.Forall₂ (fun hop v => v.Sound syn hop) hops (tour stops pkt))
    (hpasses : ∀ v ∈ (tour stops pkt).dropLast, ∃ out, v.Passes syn out)
    (hready : AllReady syn stops pkt) :
    ∃ links, linksOf stops pkt = pkt.session :: links ∧
      Line syn.session (some pkt.session) links (settled stops pkt) := by
  induction stops generalizing hops pkt with
  | nil => exact absurd rfl hne
  | cons s stops ih =>
    obtain ⟨hr, hrest⟩ := hready
    cases stops with
    | nil =>
      rw [tour_single] at hsound
      obtain _ | ⟨hv, -⟩ := hsound
      exact ⟨[], linksOf_single s pkt, .last (hv.joined hr.transparent)⟩
    | cons t stops =>
      cases hout : (s.visit pkt).leaves with
      | none =>
        -- a tour that ended here would be too short
        have hlength := hsound.length_eq
        rw [tour] at hlength
        simp only [hout, List.length_cons, List.length_nil] at hlength hlen
        omega
      | some out =>
        rw [tour_cons hout] at hsound hpasses
        obtain _ | ⟨hv, hvs⟩ := hsound
        have hnext : tour (t :: stops) out ≠ [] := by
          rw [tour]
          split <;> exact List.cons_ne_nil _ _
        rw [List.dropLast_cons_of_ne_nil hnext] at hpasses
        obtain ⟨out', hthis⟩ := hpasses _ List.mem_cons_self
        obtain rfl : out = out' := Option.some.inj (hout.symm.trans hthis.sent)
        obtain ⟨links, hlinks, hline⟩ := ih (List.cons_ne_nil t stops) (Nat.succ.inj hlen) hvs
          (fun v hv => hpasses v (List.mem_cons_of_mem _ hv)) (hrest out hout).2
        refine ⟨out.session :: links, ?_, ?_⟩
        · rw [linksOf_cons hout, hlinks]
        · rw [settled]
          simp only [hout]
          exact hline.cons (hthis.joined hr.transparent)

/-- **Afterwards everything is delivered.**  Once the SYN of a session has gone from its source
through the hosts of its chain, what either end sends in the session, in any order, goes over the
links that the SYN has gone over, the stack of every host on the way and of the other end gets it
with the addresses and the ports of the session, and the hosts stay joined by these links. -/
theorem afterwards_delivered (E : Env) (h : Host) (syn : SkBuff) (hops : List U32)
    (stops : List Stop) (evs : List PathEvent) (hs : OpeningSyn syn) (hsrc : Source E h syn hops)
    (hfit : syn.len + (16 + 4 * hops.length) < 65536) (hlen : stops.length = hops.length)
    (hready : AllReady syn stops (output E h syn).2.1) (hevs : ∀ ev ∈ evs, ev.Of syn.session) :
    let links := linksOf stops (output E h syn).2.1
    let start := ⟨E, (output E h syn).1, id⟩ :: settled stops (output E h syn).2.1
    links.map TcpSession.dip = hops ∧
      AtEvery pathStep (fun line ev => Line syn.session none links line ∧
        Relayed syn.session links line ev) start evs ∧
      Line syn.session none links (ran pathStep start evs) := by
  obtain ⟨g, pkt, p, q, hout, hcarry, hgoes, hcomes⟩ := hsrc.sends hs hfit
  rw [hout] at hready ⊢
  obtain ⟨hsound, hpasses, -⟩ := tour_sound hs hcarry hlen hready hfit
  have hne : stops ≠ [] := by
    rintro rfl
    exact hsrc.chain (List.eq_nil_of_length_eq_zero hlen.symm)
  obtain ⟨links, hlinks, hline⟩ := line_settled hne hlen hsound hpasses hready
  have hsource : Stop.Joined ⟨E, g, id⟩ syn.session none (some pkt.session) := by
    refine ⟨⟨by simp, by simp, ?_, ?_⟩, fun _ => rfl⟩
    · rintro sub ⟨rfl⟩
      exact ⟨p, hgoes⟩
    · rintro sub ⟨rfl⟩
      exact ⟨q, hcomes⟩
  have haddressed : (linksOf stops pkt).map TcpSession.dip = hops := by
    have hsame : List.Forall₂ (· = ·) hops ((tour stops pkt).map fun v => v.arrives.daddr) := by
      refine List.forall₂_map_right_iff.mpr (hsound.imp ?_)
      exact fun _ _ hv => hv.addressed.symm
    rw [List.forall₂_eq_eq_eq] at hsame
    rw [linksOf, List.map_map, hsame]
    rfl
  refine ⟨haddressed, ?_⟩
  rw [hlinks]
  exact (hline.cons hsource).relays (List.cons_ne_nil _ _) hevs

/-- The SYN+ACK of the other end. -/
def answeringSynAck : SkBuff :=
  { plainSyn with saddr := plainSyn.daddr, daddr := plainSyn.saddr, source := plainSyn.dest,
                  dest := plainSyn.source, flags := tcphdrSyn ||| tcphdrAck }

/-- After the SYN of `syn_traverses_two`, the SYN+ACK of the other end and a segment of this one. -/
theorem afterwards_delivered_two :
    let links := linksOf [newStop, newStop] (output default chainingHost plainSyn).2.1
    let start : List Stop := ⟨default, (output default chainingHost plainSyn).1, id⟩ ::
      settled [newStop, newStop] (output default chainingHost plainSyn).2.1
    links.map TcpSession.dip = [0x0100000a#32, 0x0200000a#32] ∧
      Relayed plainSyn.session links start (.left answeringSynAck) ∧
      Relayed plainSyn.session links (pathStep start (.left answeringSynAck))
        (.right { plainSyn with flags := tcphdrAck }) := by
  have hpath := afterwards_delivered default chainingHost plainSyn [0x0100000a#32, 0x0200000a#32]
    [newStop, newStop] [.left answeringSynAck, .right { plainSyn with flags := tcphdrAck }]
    openingSyn_plainSyn source_chainingHost (by decide) rfl ready_newStops (by
      rintro ev (_ | ⟨_, _ | ⟨_, ⟨⟩⟩⟩)
      · exact ⟨⟨rfl, rfl⟩, rfl, fun _ => by decide⟩
      · exact ⟨⟨rfl, rfl⟩, rfl, by decide⟩)
  refine ⟨hpath.1, (hpath.2.1 [] _ ?_).2, (hpath.2.1 [_] _ ?_).2⟩
  · exact List.prefix_append _ _
  · exact List.prefix_refl _

end Dysco
