import Dysco.AnchorRuns

/-! # Where the old path ends

The left anchor's `DYSCO_ACK` tells the right one where the old path ends: at the last byte that the
left one has sent there.  Whatever is lost, repeated or reordered, and whatever the right anchor has
taken for the end before, an anchor that has switched agrees with the other one (`cutoffs_agree`),
and from anywhere the three messages, sent once more, get both anchors to switch (`anchors_finish`).
-/
namespace Dysco
open TransitionSystem BucketTable SerialNumber

/-- A block's state and how far it has sent on the old path. -/
def CbOut.sentUpTo (d : CbOut) : ConnState × U32 := (d.state, d.seqCutoff)

/-- Up to where a block acknowledges on the old path. -/
def CbOut.acksUpTo (d : CbOut) : Bool × U32 := (d.validAckCut, d.ackCutoff)

/-- A step that does not switch, and leaves a block that has switched alone. -/
structure CbOut.Stays (d d' : CbOut) : Prop where
  state : d'.state = d.state
  acks : d.state = .established → d'.acksUpTo = d.acksUpTo

theorem CbOut.Stays.refl (d : CbOut) : d.Stays d := ⟨rfl, fun _ => rfl⟩

section Moves
variable {E : Env} {h : Host} {own : TcpSession} {skb : SkBuff} {pkt : ControlPacket} {o a r : Nat}

/-! ## Segments -/

theorem CbOut.stays_lowerAckCutoff {d : CbOut} (hd : d.state = .synSent ∨ d.state = .synReceived)
    (seq : U32) : d.Stays (d.lowerAckCutoff seq) := by
  have hstate : (d.lowerAckCutoff seq).state = d.state := by
    rw [CbOut.lowerAckCutoff]
    split
    · split <;> rfl
    · rfl
  refine ⟨hstate, fun hest => ?_⟩
  rcases hd with hd | hd <;> (rw [hd] at hest; cases hest)

theorem stays_setOut {d : CbOut} (hd : (h.outMem o).Stays d) (a : Nat) :
    (h.outMem a).Stays ((h.setOut o d).outMem a) := by
  by_cases ha : a = o
  · rw [ha, Host.setOut_outMem_self]
    exact hd
  · rw [Host.setOut_outMem_of_ne _ ha]
    exact CbOut.Stays.refl _

theorem sentUpTo_setOut {d : CbOut} (hd : d.sentUpTo = (h.outMem o).sentUpTo) (a : Nat) :
    ((h.setOut o d).outMem a).sentUpTo = (h.outMem a).sentUpTo := by
  by_cases ha : a = o
  · rw [ha, Host.setOut_outMem_self]
    exact hd
  · rw [Host.setOut_outMem_of_ne _ ha]

/-- A segment that arrives. -/
theorem input_stays (htcp : skb.IsTcp) (hsyn : skb.hasSyn = false) (a : Nat) :
    (h.outMem a).Stays ((input E h skb).1.outMem a) ∧
      ((input E h skb).1.outMem a).sentUpTo = (h.outMem a).sentUpTo := by
  have hstay : (h.outMem a).Stays (h.outMem a) ∧ (h.outMem a).sentUpTo = (h.outMem a).sentUpTo :=
    ⟨CbOut.Stays.refl _, rfl⟩
  have hset : ∀ p d, (h.outMem p).Stays d → d.sentUpTo = (h.outMem p).sentUpTo →
      (h.outMem a).Stays ((h.setOut p d).outMem a) ∧
        ((h.setOut p d).outMem a).sentUpTo = (h.outMem a).sentUpTo :=
    fun p d hd hsent => ⟨stays_setOut hd a, sentUpTo_setOut hsent a⟩
  have hlower : ∀ (d : CbOut) (seq : U32), (d.lowerAckCutoff seq).sentUpTo = d.sentUpTo := by
    intro d seq
    rw [CbOut.lowerAckCutoff]
    split
    · split <;> rfl
    · rfl
  cases hq : h.lookupIn E skb.session with
  | none =>
    rw [input_unknown htcp hsyn hq]
    exact hstay
  | some q =>
    have hdata : (h.outMem a).Stays ((inTwoPathsDataSeg h skb q).1.outMem a) ∧
        ((inTwoPathsDataSeg h skb q).1.outMem a).sentUpTo = (h.outMem a).sentUpTo := by
      simp only [inTwoPathsDataSeg]
      split
      · exact hstay
      · split
        · exact hstay
        · split
          · exact hstay
          · split
            · rename_i hstate
              exact hset _ _ (CbOut.stays_lowerAckCutoff hstate _) (hlower _ _)
            · exact hstay
    have hack : (h.outMem a).Stays ((inTwoPathsAck h skb q).outMem a) ∧
        ((inTwoPathsAck h skb q).outMem a).sentUpTo = (h.outMem a).sentUpTo := by
      simp only [inTwoPathsAck]
      repeat' split
      all_goals first
        | exact hstay
        | exact hset _ _ ⟨rfl, fun _ => rfl⟩ rfl
    rw [input_segment htcp hsyn hq]
    simp only
    rw [inputSegment_host]
    split
    · split
      · exact hdata
      · exact hack
    · exact hstay

/-- A segment that leaves. -/
theorem output_stays (ho : h.lookupOut E own = some o) (hs : SegmentOf own skb) (a : Nat) :
    (h.outMem a).Stays ((output E h skb).1.outMem a) := by
  obtain ⟨m, hm⟩ := output_segment_marks (E := E) hs.toIsTcp hs.notSyn (hs.session.symm ▸ ho)
  rw [hm]
  have hmarks : (h.outMem o).Stays ((h.outMem o).withMarks m) := ⟨rfl, fun _ => rfl⟩
  exact stays_setOut hmarks a

/-- An ack does not move the mark. -/
theorem pickPathAck_sentUpTo (h : Host) (skb : SkBuff) (o n : Nat) :
    ((pickPathAck h skb o n).1.outMem o).sentUpTo = (h.outMem o).sentUpTo := by
  have hset : ∀ d : CbOut, d.sentUpTo = (h.outMem o).sentUpTo →
      ((h.setOut o d).outMem o).sentUpTo = (h.outMem o).sentUpTo :=
    fun d hd => sentUpTo_setOut hd o
  rw [pickPathAck]
  simp only
  split
  · split <;> rfl
  · split
    · split
      · rfl
      · split
        · split
          · rfl
          · refine hset _ ?_
            split <;> rfl
        · rfl
    · rfl

/-- Once the block has switched, what leaves does not count as sent on the old path. -/
theorem output_sentUpTo (ho : h.lookupOut E own = some o) (hs : SegmentOf own skb)
    (hest : (h.outMem o).state = .established) {n : Nat} (hn : (h.outMem o).otherPath = some n) :
    ((output E h skb).1.outMem o).sentUpTo = (h.outMem o).sentUpTo := by
  obtain ⟨s, -, heq⟩ := output_segment (E := E) hs.toIsTcp hs.notSyn (hs.session.symm ▸ ho)
  rw [heq]
  simp only [outTranslate, hn, pickPath, hest]
  split
  · rfl
  · exact pickPathAck_sentUpTo h s o n

/-- A packet has the addresses of the path that it takes. -/
theorem outTranslate_path (h : Host) (skb : SkBuff) (p : Nat) :
    (outTranslate E h skb p).2.1.session = (h.outMem (outTranslate E h skb p).2.2).sub := by
  have hsub : ∀ x, ((outTranslate E h skb p).1.outMem x).sub = (h.outMem x).sub :=
    (sameWiring_outTranslate h skb p).outField CbOut.sub
  simp only [outTranslate] at hsub ⊢
  cases hother : (h.outMem p).otherPath with
  | none =>
    simp only [hother] at hsub ⊢
    rw [(outHdrRewriteCsum_session _ _).2, hsub]
  | some n =>
    simp only [hother] at hsub ⊢
    rw [(outHdrRewriteCsum_session _ _).2, hsub]

theorem SameNumbers.endSeq {s : SkBuff} (hs : SameNumbers skb s) :
    s.endSeq = skb.endSeq ∧ s.segSz = skb.segSz := by
  have hbody := hs.body
  simp only [SkBuff.body, Prod.mk.injEq] at hbody
  obtain ⟨-, ⟨hlen, hopts, hdoff⟩, -⟩ := hbody
  have hsz : s.segSz = skb.segSz := by
    rw [SkBuff.segSz, SkBuff.segSz, SkBuff.ihl, SkBuff.ihl, hlen, hopts, hdoff]
  have hseq := hs.seq
  rw [BitVec.add_zero] at hseq
  exact ⟨by rw [SkBuff.endSeq, SkBuff.endSeq, hseq, hsz], hsz⟩

/-- **What a data segment does to the mark.**  Before the switch it moves the mark and goes on the
old path, afterwards it goes there only in front of the mark, and leaves it alone. -/
theorem output_seqCutoff {n : Nat} (ho : h.lookupOut E own = some o) (hs : SegmentOf own skb)
    (hn : (h.outMem o).otherPath = some n) (hst : (h.outMem o).stateT = false)
    (hstate : (h.outMem o).state = .synSent ∨ (h.outMem o).state = .established) :
    ((output E h skb).1.outMem o).seqCutoff =
        (if (h.outMem o).state = .synSent ∧ 0#16 < skb.segSz ∧
            after skb.endSeq (h.outMem o).seqCutoff = true then skb.endSeq
          else (h.outMem o).seqCutoff) ∧
      (0#16 < skb.segSz → (output E h skb).2.1.session = (h.outMem o).sub ∧
          (h.outMem o).state = .synSent ∨
        (output E h skb).2.1.session = (h.outMem o).sub ∧ (h.outMem o).state = .established ∧
          before skb.endSeq (h.outMem o).seqCutoff = true ∨
        (output E h skb).2.1.session = (h.outMem n).sub ∧
          (h.outMem o).state = .established) := by
  obtain ⟨s, hsame, heq⟩ := output_segment (E := E) hs.toIsTcp hs.notSyn (hs.session.symm ▸ ho)
  obtain ⟨hend, hsz⟩ := hsame.endSeq
  have hpath := outTranslate_path (E := E) h s o
  have hack := congrArg Prod.snd (pickPathAck_sentUpTo h s o n)
  rw [heq]
  simp only
  rw [hpath]
  simp only [outTranslate, hn, pickPath]
  rw [hsz, hend]
  rcases hstate with hs | hs
  · simp only [hs, true_and]
    by_cases hdata : 0#16 < skb.segSz
    · simp only [hdata, if_true, true_and]
      refine ⟨?_, fun _ => Or.inl trivial⟩
      split
      · rw [Host.setOut_outMem_self]
        rfl
      · rfl
    · simp only [hdata, false_and, if_false]
      exact ⟨hack, fun hd => hd.elim⟩
  · have hne : ¬ ConnState.established = ConnState.synSent := by decide
    simp only [hs, hne, false_and, if_false]
    by_cases hdata : 0#16 < skb.segSz
    · simp only [hdata, if_true, pickPathSeq, hst, Bool.false_eq_true, if_false]
      refine ⟨trivial, fun _ => ?_⟩
      cases hnp : (h.outMem o).useNpSeq with
      | true => exact Or.inr (Or.inr ⟨rfl, trivial⟩)
      | false =>
        cases hb : before skb.endSeq (h.outMem o).seqCutoff with
        | true => exact Or.inr (Or.inl ⟨rfl, trivial, rfl⟩)
        | false => exact Or.inr (Or.inr ⟨rfl, trivial⟩)
    · simp only [hdata, if_false]
      exact ⟨hack, fun hd => hd.elim⟩

/-! ## Messages -/

/-- The left anchor answers with where it stands, and has switched. -/
theorem ackOut_sentUpTo (hlook : h.lookupReconfig E pkt.msg.super = some r)
    (hplain : ¬ pkt.msg.WithState) (hleft : pkt.saddr = pkt.msg.leftA)
    (hold : (h.rcbMem r).oldDcb = some o) (hst : (h.outMem o).stateT = false)
    (hstate : (h.outMem o).state = .synSent ∨ (h.outMem o).state = .established) :
    ((ackOut E h pkt).1.outMem o).sentUpTo = (.established, (h.outMem o).seqCutoff) ∧
      ntohl (ackOut E h pkt).2.msg.seqCutoff = (h.outMem o).seqCutoff := by
  have heq : ackOut E h pkt = replaceCbLeftA h pkt r := by
    rw [ackOut, hlook]
    simp only [if_neg hplain, if_pos hleft, hold, hst, Bool.false_eq_true, if_false]
  rw [heq]
  rcases hstate with hs | hs
  · simp only [replaceCbLeftA, hold, hs, if_true]
    refine ⟨?_, ntohl_htonl _⟩
    rw [Host.setRcb_outMem, Host.setOut_outMem_self]
    rfl
  · have hne : ¬ ConnState.established = ConnState.synSent := by decide
    simp only [replaceCbLeftA, hold, hs, if_neg hne]
    refine ⟨?_, ntohl_htonl _⟩
    rw [Host.setRcb_outMem, Host.setOut_outMem_self, CbOut.sentUpTo, hs]

/-- A `DYSCO_SYN_ACK` tells the left anchor nothing about what it has sent itself. -/
theorem synAckIn_sentUpTo (h : Host) (pkt : ControlPacket) (a : Nat) :
    ((synAckIn E h pkt).1.outMem a).sentUpTo = (h.outMem a).sentUpTo := by
  have hset : ∀ p (d : CbOut), d.sentUpTo = (h.outMem p).sentUpTo →
      ((h.setOut p d).outMem a).sentUpTo = (h.outMem a).sentUpTo :=
    fun p d hd => sentUpTo_setOut hd a
  simp only [synAckIn]
  repeat' split
  all_goals first
    | rfl
    | exact hset _ _ rfl

/-- The right anchor takes over where the message says that the old path ends, unless it has
switched before. -/
theorem ackIn_acksUpTo {new : Nat} (hlook : h.lookupReconfig E pkt.msg.super = some r)
    (hright : pkt.msg.rightA = pkt.daddr) (hold : (h.rcbMem r).oldDcb = some o)
    (hst : (h.outMem o).stateT = false)
    (hup : ∀ n, (h.outMem o).otherPath = some n → n = new) :
    (ackIn E h pkt).1.outMem o = h.outMem o ∨
      ((ackIn E h pkt).1.outMem o).acksUpTo =
        (true, (h.outMem new).cutoffOfSeq (ntohl pkt.msg.seqCutoff)) := by
  rw [ackIn, hlook]
  simp only [if_pos hright, hold]
  split
  · exact Or.inl rfl
  · rename_i n hn
    obtain rfl := hup n hn
    split
    · exact Or.inl rfl
    · simp only [hst, Bool.false_eq_true, if_false]
      right
      rw [Host.setOut_outMem_self]
      rfl

/-- Where both paths are there, the right anchor has switched after the message. -/
theorem ackIn_established {new : Nat} (hlook : h.lookupReconfig E pkt.msg.super = some r)
    (hright : pkt.msg.rightA = pkt.daddr) (hold : (h.rcbMem r).oldDcb = some o)
    (hst : (h.outMem o).stateT = false) (hother : (h.outMem o).otherPath = some new) :
    ((ackIn E h pkt).1.outMem o).state = .established := by
  rw [ackIn, hlook]
  simp only [if_pos hright, hold, hother]
  split
  · assumption
  · simp only [hst, Bool.false_eq_true, if_false]
    rw [Host.setOut_outMem_self]
    rfl

end Moves

/-! ## The agreement -/

/-- Where the left anchor stands. -/
def Deal.leftBlock (d : Deal) (s : Anchors) : CbOut := (s.host .left).outMem d.l.old

/-- Every `DYSCO_ACK` says where the left anchor stopped sending on the old path, and so does the
right anchor once it has switched. -/
structure Reconfiguration.Agreed (c : Reconfiguration) (d : Deal) (s : Anchors) : Prop where
  phase : (d.leftBlock s).state = .synSent ∨ (d.leftBlock s).state = .established
  said : ∀ pkt ∈ s.control, pkt.msg.mtype = .ack →
    (d.leftBlock s).sentUpTo = (.established, ntohl pkt.msg.seqCutoff)
  right : (c.block s .right).state = .established → (d.leftBlock s).state = .established ∧
    (c.block s .right).acksUpTo =
      (true, (d.leftBlock s).seqCutoff + (d.iack .right - d.iseq .left))

section Agreement
variable {c : Reconfiguration} {d : Deal} {s t : Anchors} {x : Anchor} {g : Host} {skb : SkBuff}
  {pkt : ControlPacket} {o : Nat}

theorem Reconfiguration.block_of_host (hhost : s.host x = g)
    (ho : g.lookupOut (c.env x) (c.own x) = some o) : c.block s x = g.outMem o := by
  rw [block, hhost, ho]
  rfl

theorem Reconfiguration.block_congr (hhost : t.host x = s.host x) : c.block t x = c.block s x := by
  rw [block, block, hhost]

/-- A move that switches nobody. -/
theorem Reconfiguration.Agreed.keep (ha : c.Agreed d s)
    (hstate : (d.leftBlock t).state = (d.leftBlock s).state)
    (hcut : (d.leftBlock s).state = .established →
      (d.leftBlock t).sentUpTo = (d.leftBlock s).sentUpTo)
    (hright : (c.block s .right).Stays (c.block t .right))
    (hcontrol : ∀ pkt ∈ t.control, pkt.msg.mtype = .ack → pkt ∈ s.control) : c.Agreed d t where
  phase := by
    rw [hstate]
    exact ha.phase
  said pkt hp hm := by
    have hsaid := ha.said pkt (hcontrol pkt hp hm) hm
    exact (hcut (congrArg Prod.fst hsaid)).trans hsaid
  right hest := by
    rw [hright.state] at hest
    obtain ⟨hleft, hacks⟩ := ha.right hest
    have hsame : (d.leftBlock t).seqCutoff = (d.leftBlock s).seqCutoff :=
      congrArg Prod.snd (hcut hleft)
    refine ⟨hstate.trans hleft, ?_⟩
    rw [hright.acks hest, hsame]
    exact hacks

/-- The other anchor's host is as it was. -/
theorem Reconfiguration.Agreed.moved (ha : c.Agreed d s) (hs : c.Sound d s)
    (hhost : t.host = Function.update s.host x g) (hg : SameWiring (s.host x) g)
    (hcontrol : ∀ pkt ∈ t.control, pkt.msg.mtype = .ack → pkt ∈ s.control)
    (hleft : x = .left → (g.outMem d.l.old).state = (d.leftBlock s).state ∧
      ((d.leftBlock s).state = .established →
        (g.outMem d.l.old).sentUpTo = (d.leftBlock s).sentUpTo))
    (hright : x = .right → ∀ o, ((s.host .right).outMem o).Stays (g.outMem o)) :
    c.Agreed d t := by
  cases x with
  | left =>
    have hl : t.host .left = g := by rw [hhost, Function.update_self]
    have hr : t.host .right = s.host .right := by
      rw [hhost, Function.update_of_ne (by decide)]
    have hblock : d.leftBlock t = g.outMem d.l.old := by rw [Deal.leftBlock, hl]
    obtain ⟨hstate, hcut⟩ := hleft rfl
    rw [← hblock] at hstate hcut
    refine ha.keep hstate hcut ?_ hcontrol
    rw [block_congr hr]
    exact CbOut.Stays.refl _
  | right =>
    have hl : t.host .left = s.host .left := by rw [hhost, Function.update_of_ne (by decide)]
    have hr : t.host .right = g := by rw [hhost, Function.update_self]
    have hblock : d.leftBlock t = d.leftBlock s := by rw [Deal.leftBlock, hl, Deal.leftBlock]
    obtain ⟨o, ho, -⟩ := hs.hosts.session .right
    refine ha.keep (by rw [hblock]) (fun _ => by rw [hblock]) ?_ hcontrol
    rw [block_eq ho, block_of_host hr ((hg.lookupOut _).trans ho)]
    exact hright rfl o

/-- A segment arrives, on whichever path. -/
theorem Reconfiguration.Agreed.arrives (ha : c.Agreed d s) (hs : c.Sound d s) (htcp : skb.IsTcp)
    (hsyn : skb.hasSyn = false)
    (hhost : t.host = Function.update s.host x (input (c.env x) (s.host x) skb).1)
    (hcontrol : t.control = s.control) : c.Agreed d t := by
  refine ha.moved hs hhost (sameWiring_input htcp hsyn) (fun p hp _ => hcontrol ▸ hp) ?_ ?_
  · rintro rfl
    obtain ⟨hstays, hsent⟩ := input_stays (E := c.env .left) (h := s.host .left) htcp hsyn d.l.old
    exact ⟨hstays.state, fun _ => hsent⟩
  · rintro rfl o
    exact (input_stays htcp hsyn o).1

/-- A segment leaves. -/
theorem Reconfiguration.Agreed.sends (ha : c.Agreed d s) (hs : c.Sound d s)
    (hskb : SegmentOf (c.own x) skb) : c.Agreed d (c.effect s (.sends x skb)) := by
  obtain ⟨o, ho, -⟩ := hs.hosts.session x
  refine ha.moved hs rfl (sameWiring_output ho hskb) (fun p hp _ => hp) ?_ ?_
  · rintro rfl
    have hl := hs.hosts.left
    exact ⟨(output_stays hl.look hskb _).state, fun hest =>
      output_sentUpTo hl.look hskb hest hl.forth⟩
  · rintro rfl o'
    exact output_stays ho hskb o'

/-- A message leaves. -/
theorem Reconfiguration.Agreed.speaks (ha : c.Agreed d s) (hs : c.Sound d s)
    (hp : c.Speaks s x pkt) : c.Agreed d (c.effect s (.speaks x pkt)) := by
  have hmem : ∀ p, p ∈ (c.effect s (.speaks x pkt)).control → p ∈ s.control ∨
      p = (controlOutput (c.env x) (s.host x) pkt).2.1 := by
    intro p hmem
    simp only [effect] at hmem
    split at hmem
    · rcases List.mem_cons.mp hmem with rfl | hold
      · exact Or.inr rfl
      · exact Or.inl hold
    · exact Or.inl hmem
  rcases hp.kinds with ⟨rfl, hm⟩ | ⟨rfl, hm, hheard⟩ | ⟨rfl, hm, hheard⟩
  · obtain ⟨rcb, -, hout⟩ := hs.hosts.left.syn_again hp.names hp.saddr
    have hall := controlOutput_syn hp.toHandled hm (s.host .left)
    rw [hout] at hall
    refine ha.moved (x := .left) hs rfl ?_ (fun p hmem' hack => ?_) (fun _ => ?_)
      (fun hx => by cases hx)
    · rw [hall]
      exact SameWiring.refl _
    · rcases hmem p hmem' with hold | rfl
      · exact hold
      · rw [hall] at hack
        rw [show (pkt.announceAgain rcb).msg.mtype = pkt.msg.mtype from rfl, hm] at hack
        cases hack
    · rw [hall]
      exact ⟨rfl, fun _ => rfl⟩
  · have hl := hs.hosts.left
    obtain ⟨r, hlook, ht⟩ := hl.filed
    have hall := controlOutput_ack hp.toHandled hm (s.host .left)
    rw [← hp.names.super] at hlook
    obtain ⟨hblock, hpkt⟩ := ackOut_sentUpTo hlook hp.names.plain
      (hp.saddr.trans hp.names.leftA.symm) ht.old hl.plain ha.phase
    have hleft : (d.leftBlock (c.effect s (.speaks .left pkt))).sentUpTo =
        (.established, (d.leftBlock s).seqCutoff) := by
      have hhost : (c.effect s (.speaks .left pkt)).host .left =
          (ackOut (c.env .left) (s.host .left) pkt).1 := by rw [speaks_host, hall]
      rw [Deal.leftBlock, hhost]
      exact hblock
    refine ⟨Or.inr (congrArg Prod.fst hleft), fun p hmem' hack => ?_, fun hest => ?_⟩
    · rcases hmem p hmem' with hold | rfl
      · have hcut : (d.leftBlock s).seqCutoff = ntohl p.msg.seqCutoff :=
          congrArg Prod.snd (ha.said p hold hack)
        rw [hleft, hcut]
      · rw [hall, hleft, hpkt]
        rfl
    · rw [block_congr (speaks_host_of_ne Anchor.left_ne_right.symm)] at hest ⊢
      have hcut : (d.leftBlock (c.effect s (.speaks .left pkt))).seqCutoff =
          (d.leftBlock s).seqCutoff := congrArg Prod.snd hleft
      refine ⟨congrArg Prod.fst hleft, ?_⟩
      rw [hcut]
      exact (ha.right hest).2
  · obtain ⟨b, hr⟩ := hs.hosts.right hheard
    have hall := controlOutput_synAck hp.toHandled hm (hp.saddr.trans hp.names.rightA.symm)
      (s.host .right)
    have hleft : d.leftBlock (c.effect s (.speaks .right pkt)) = d.leftBlock s := by
      rw [Deal.leftBlock, speaks_host_of_ne Anchor.left_ne_right, Deal.leftBlock]
    have hhost : (c.effect s (.speaks .right pkt)).host .right =
        (replaceCbRightA (c.env .right) (s.host .right) pkt).1 := by rw [speaks_host, hall]
    have hstate : (c.block (c.effect s (.speaks .right pkt)) .right).state = .synReceived := by
      rw [block_of_host hhost (hr.replaced hp.names.super).look,
        hr.replaceCbRightA_eq hp.names.super, Host.setOut_outMem_self]
      rfl
    refine ⟨?_, fun p hmem' hack => ?_, fun hest => ?_⟩
    · rw [hleft]
      exact ha.phase
    · rw [hleft]
      rcases hmem p hmem' with hold | rfl
      · exact ha.said p hold hack
      · have he := replaceCbRightA_envelope (E := c.env .right) (s.host .right) pkt
        simp only [ControlPacket.envelope, Prod.mk.injEq] at he
        rw [hall, he.2.1, hm] at hack
        cases hack
    · rw [hstate] at hest
      cases hest

/-- A `DYSCO_SYN` does not touch the session's block at the right anchor. -/
theorem Reconfiguration.Sound.block_hears_syn (hs : c.Sound d s) (hmem : pkt ∈ s.control)
    (hm : pkt.msg.mtype = .syn) :
    c.block (c.effect s (.hears .right pkt)) .right = c.block s .right := by
  have hp := hs.control pkt hmem
  have hhost : (c.effect s (.hears .right pkt)).host .right =
      (synIn (c.env .right) (s.host .right) pkt).2 := by
    rw [hears_host, controlInput_syn ⟨hp.port, hp.long, hm⟩]
  rcases hp.kind with ⟨hsaddr, hdaddr, -, ht⟩ | ⟨-, hm', -⟩ | ⟨-, hm', -⟩
  · cases hheard : s.heard .right with
    | true =>
      obtain ⟨b, hr⟩ := hs.hosts.right hheard
      rw [hr.syn_again hp.names] at hhost
      exact block_congr hhost
    | false =>
      obtain ⟨hidle, -⟩ := hs.hosts.idle hheard
      obtain ⟨b, hr, hold, hsame⟩ := rightWired_first hidle hp.names
        ⟨hsaddr.trans hs.hosts.left.sip.symm, hdaddr.trans hs.hosts.left.dip.symm⟩
        ⟨hs.hosts.left.sip, hs.hosts.left.dip⟩ ht
      rw [block_of_host hhost hr.look, hold, hsame, block_eq hidle.session]
  · rw [hm] at hm'
    cases hm'
  · rw [hm] at hm'
    cases hm'

/-- A message arrives. -/
theorem Reconfiguration.Agreed.hears (ha : c.Agreed d s) (hs : c.Sound d s)
    (hmem : pkt ∈ s.control) (hto : pkt.daddr = c.addr x) :
    c.Agreed d (c.effect s (.hears x pkt)) := by
  have hp := hs.control pkt hmem
  cases x with
  | left =>
    have hm : pkt.msg.mtype = .synAck := by
      rcases hp.kind with ⟨-, hd, -⟩ | ⟨hd, -⟩ | ⟨-, hm, -⟩
      · exact absurd (hto.symm.trans hd) c.apart
      · exact absurd (hto.symm.trans hd) c.apart
      · exact hm
    have hsame := synAckIn_sentUpTo (E := c.env .left) (s.host .left) pkt d.l.old
    refine ha.moved (x := .left) hs (congrArg Anchors.host (c.effect_hears s .left pkt)) ?_
      (fun p hp _ => hp) (fun _ => ?_) (fun hx => by cases hx)
    · rw [controlInput_synAck hp.toEnters hm]
      exact sameWiring_synAckIn _ _
    · rw [controlInput_synAck hp.toEnters hm]
      exact ⟨congrArg Prod.fst hsame, fun _ => hsame⟩
  | right =>
    have hleft : d.leftBlock (c.effect s (.hears .right pkt)) = d.leftBlock s := by
      rw [Deal.leftBlock, hears_host_of_ne Anchor.left_ne_right, Deal.leftBlock]
    -- the right anchor's block is as it was, or has just switched
    have hcases : c.block (c.effect s (.hears .right pkt)) .right = c.block s .right ∨
        ((d.leftBlock s).state = .established ∧
          (c.block (c.effect s (.hears .right pkt)) .right).acksUpTo =
            (true, (d.leftBlock s).seqCutoff + (d.iack .right - d.iseq .left))) := by
      have hhost : (c.effect s (.hears .right pkt)).host .right =
          (controlInput (c.env .right) (s.host .right) pkt).1 := hears_host
      rcases hp.kind with ⟨-, -, hm, -⟩ | ⟨-, hm, hheard⟩ | ⟨hd, -⟩
      · exact Or.inl (hs.block_hears_syn hmem hm)
      · obtain ⟨b, hr⟩ := hs.hosts.right (hs.order hheard)
        obtain ⟨r, hlook, hold, -⟩ := hr.filed
        have hsaid := ha.said pkt hmem hm
        have hnum : ntohl pkt.msg.seqCutoff = (d.leftBlock s).seqCutoff :=
          (congrArg Prod.snd hsaid).symm
        rw [controlInput_ack hp.toEnters hm] at hhost
        rw [← hp.names.super] at hlook
        rw [block_of_host hhost ((sameWiring_ackIn _ _).lookupOut _ |>.trans hr.look),
          block_eq hr.look]
        rcases ackIn_acksUpTo hlook (hp.names.rightA.trans hto.symm) hold hr.plain hr.up
          with hstay | hnew
        · exact Or.inl hstay
        · rw [hr.cutoff, hnum] at hnew
          exact Or.inr ⟨congrArg Prod.fst hsaid, hnew⟩
      · exact absurd (hd.symm.trans hto) c.apart
    refine ⟨?_, fun p hp' hack => ?_, fun hest => ?_⟩
    · rw [hleft]
      exact ha.phase
    · rw [hleft]
      exact ha.said p hp' hack
    · rw [hleft]
      rcases hcases with hsame | hnew
      · rw [hsame] at hest ⊢
        exact ha.right hest
      · exact hnew

/-- **Every move keeps the agreement.** -/
theorem Reconfiguration.Agreed.step {l : AnchorMove} (ha : c.Agreed d s) (hs : c.Sound d s)
    (hl : c.Enabled s l) : c.Agreed d (c.effect s l) := by
  cases l with
  | speaks x pkt => exact ha.speaks hs hl
  | hears x pkt => exact ha.hears hs hl.1 hl.2
  | sends x skb => exact ha.sends hs hl
  | takes x skb =>
    obtain ⟨-, hseg, -⟩ := hs.wire x.other skb hl.1 (by rw [Anchor.other_other]; exact hl.2)
    exact ha.arrives (x := x) hs hseg.toIsTcp hseg.notSyn rfl rfl
  | foreign x skb =>
    obtain ⟨htcp, hsyn, -⟩ := hl
    exact ha.arrives (x := x) hs htcp hsyn rfl rfl

theorem Reconfiguration.agreed_init (hs : c.system.init s) (hd : c.Sound d s) : c.Agreed d s := by
  obtain ⟨s₀, pkt, hstill, -, -, rfl⟩ := hs
  obtain ⟨r, hr⟩ := hstill.ready .right
  have hstart := hd.hosts.starting (hstill.heard .right)
  refine ⟨Or.inl (congrArg Prod.fst hstart), fun p hp hm => ?_, fun hest => ?_⟩
  · rcases (hd.control p hp).kind with ⟨-, -, hm', -⟩ | ⟨-, -, hheard⟩ | ⟨-, hm', -⟩
    · rw [hm'] at hm
      cases hm
    · have hnot : s₀.heard .left = true := hheard
      rw [hstill.heard] at hnot
      cases hnot
    · rw [hm'] at hm
      cases hm
  · rw [block_of_host (speaks_host_of_ne Anchor.left_ne_right.symm) hr.session, hr.state] at hest
    cases hest

theorem Reconfiguration.agreed_steps {ls : List AnchorMove} (hs : c.system.init s)
    (hd : c.Sound d s) (ht : c.system.Steps s ls t) : c.Sound d t ∧ c.Agreed d t := by
  refine ht.invariant (P := fun s => c.Sound d s ∧ c.Agreed d s) ?_ ⟨hd, c.agreed_init hs hd⟩
  rintro s l t ⟨hs, ha⟩ ⟨hl, rfl⟩
  exact ⟨hs.step hl, ha.step hs hl⟩

end Agreement

/-! ## What the mark counts -/

/-- A run of segments and one more. -/
theorem SegmentRun.of_concat {ss : TcpSession} {iss : U32} {m m' : Nat} {skb : SkBuff}
    {run : List SkBuff} (hrun : SegmentRun ss iss m (run ++ [skb]) m') : ∃ m₁ a,
      SegmentRun ss iss m run m₁ ∧ SegmentAt ss iss a skb ∧ a + skb.segSz.toNat < m₁ + 2 ^ 31 ∧
        m₁ < a + skb.segSz.toNat + 2 ^ 31 ∧ m' = highWater m₁ a skb := by
  induction run generalizing m with
  | nil =>
    cases hrun with
    | cons hseg hahead hbehind hrest =>
      cases hrest
      exact ⟨m, _, .nil m, hseg, hahead, hbehind, rfl⟩
  | cons s run ih =>
    cases hrun with
    | cons hseg hahead hbehind hrest =>
      obtain ⟨m₁, a, hrun, hlast⟩ := ih hrest
      exact ⟨m₁, a, .cons hseg hahead hbehind hrun, hlast⟩

/-- The left anchor's mark is the highest end of what has left it on the old path, from the position
`m` that it had at first. -/
def Reconfiguration.Counts (c : Reconfiguration) (d : Deal) (iss : U32) (m : Nat) (s : Anchors) :
    Prop :=
  ∀ m', SegmentRun (c.own .left) iss m (s.onOld .left).reverse m' →
    (d.leftBlock s).seqCutoff = pos iss m'

section Counting
variable {c : Reconfiguration} {d : Deal} {s t : Anchors} {x : Anchor} {skb : SkBuff}
  {pkt : ControlPacket} {iss : U32} {m : Nat}

/-- A move after which the left anchor has sent nothing more. -/
theorem Reconfiguration.Counts.keep (hc : c.Counts d iss m s) (hold : t.onOld .left = s.onOld .left)
    (hcut : (d.leftBlock t).seqCutoff = (d.leftBlock s).seqCutoff) : c.Counts d iss m t := by
  intro m' hrun
  rw [hold] at hrun
  exact hcut.trans (hc m' hrun)

theorem Reconfiguration.Counts.other (hc : c.Counts d iss m s)
    (hold : t.onOld .left = s.onOld .left) (hhost : t.host .left = s.host .left) :
    c.Counts d iss m t :=
  hc.keep hold (by rw [Deal.leftBlock, hhost, Deal.leftBlock])

/-- **The left anchor's stack sends a segment.** -/
theorem Reconfiguration.Counts.sends (hc : c.Counts d iss m s) (hs : c.Sound d s)
    (ha : c.Agreed d s) (hskb : SegmentOf (c.own .left) skb) :
    c.Counts d iss m (c.effect s (.sends .left skb)) := by
  have hl := hs.hosts.left
  obtain ⟨-, hpasses, -⟩ := hs.hosts.sends (x := .left) hskb
  obtain ⟨hcut, hway⟩ := output_seqCutoff hl.look hskb hl.forth hl.plain ha.phase
  have hblock : (d.leftBlock (c.effect s (.sends .left skb))).seqCutoff =
      ((output (c.env .left) (s.host .left) skb).1.outMem d.l.old).seqCutoff := by
    rw [Deal.leftBlock, effect]
    simp only [Function.update_self]
  have hnew : ∀ {ss : TcpSession}, ss = ((s.host .left).outMem d.l.new).sub →
      ss.dip = c.addr .right := by
    rintro ss rfl
    rw [hl.goes]
    exact hl.dip
  intro m' hrun
  rw [hblock, hcut]
  by_cases hto : (output (c.env .left) (s.host .left) skb).2.1.daddr = c.addr .right
  · -- on the new path: no data from before the switch
    have hold : (c.effect s (.sends .left skb)).onOld .left = s.onOld .left := by
      simp only [effect, hpasses, Anchor.other, hto, ne_eq, not_true_eq_false, and_false, if_false]
    rw [hold] at hrun
    refine Eq.trans (if_neg ?_) (hc m' hrun)
    rintro ⟨hsent, hdata, -⟩
    have hout : ∀ ss : TcpSession, (output (c.env .left) (s.host .left) skb).2.1.session = ss →
        ss.dip = c.addr .right := fun ss hss => (congrArg TcpSession.dip hss).symm.trans hto
    rcases hway hdata with ⟨hss, -⟩ | ⟨hss, -⟩ | ⟨-, hest⟩
    · exact hl.apart ((hout _ hss).trans hl.dip.symm)
    · exact hl.apart ((hout _ hss).trans hl.dip.symm)
    · rw [hsent] at hest
      cases hest
  · have hold : (c.effect s (.sends .left skb)).onOld .left = skb :: s.onOld .left := by
      simp only [effect, hpasses, Anchor.other, hto, ne_eq, not_false_eq_true, and_self, if_true,
        Function.update_self]
    rw [hold, List.reverse_cons] at hrun
    obtain ⟨m₁, a, hbefore, hseg, hahead, hbehind, rfl⟩ := hrun.of_concat
    have hmark : ((s.host .left).outMem d.l.old).seqCutoff = pos iss m₁ := hc m₁ hbefore
    have hafter : after (pos iss (a + skb.segSz.toNat)) (pos iss m₁) =
        decide (m₁ < a + skb.segSz.toNat) := after_pos (by decide) iss hahead hbehind
    have hless : before (pos iss (a + skb.segSz.toNat)) (pos iss m₁) =
        decide (a + skb.segSz.toNat < m₁) := before_pos (by decide) iss hahead hbehind
    rw [hmark, hseg.endSeq, hafter, highWater]
    by_cases hdata : 0#16 < skb.segSz
    swap
    · rw [if_neg hdata, if_neg fun hn => hdata hn.2.1]
    rw [if_pos hdata]
    rcases hway hdata with ⟨-, hsent⟩ | ⟨-, hest, hback⟩ | ⟨hss, -⟩
    · by_cases hnew : m₁ < a + skb.segSz.toNat
      · rw [if_pos ⟨hsent, hdata, decide_eq_true hnew⟩, Nat.max_eq_right (Nat.le_of_lt hnew)]
      · rw [if_neg fun hn => hnew (of_decide_eq_true hn.2.2),
          Nat.max_eq_left (Nat.le_of_not_lt hnew)]
    · rw [hmark, hseg.endSeq, hless] at hback
      rw [Nat.max_eq_left (Nat.le_of_lt (of_decide_eq_true hback)), if_neg]
      rintro ⟨hsent, -⟩
      rw [hest] at hsent
      cases hsent
    · exact absurd (hnew hss) hto

/-- **Every move keeps the count.** -/
theorem Reconfiguration.Counts.step {l : AnchorMove} (hc : c.Counts d iss m s) (hs : c.Sound d s)
    (ha : c.Agreed d s) (hl : c.Enabled s l) : c.Counts d iss m (c.effect s l) := by
  have hseg : ∀ x skb, skb.IsTcp → skb.hasSyn = false →
      ∀ t : Anchors, t.host = Function.update s.host x (input (c.env x) (s.host x) skb).1 →
        t.onOld = s.onOld → c.Counts d iss m t := by
    intro x skb htcp hsyn t hhost hold
    cases x with
    | left =>
      have hsent := (input_stays (E := c.env .left) (h := s.host .left) htcp hsyn d.l.old).2
      refine hc.keep (congrFun hold _) ?_
      rw [Deal.leftBlock, hhost, Function.update_self]
      exact congrArg Prod.snd hsent
    | right =>
      exact hc.other (congrFun hold _) (by rw [hhost, Function.update_of_ne Anchor.left_ne_right])
  cases l with
  | speaks x pkt =>
    rcases hl.kinds with ⟨rfl, hm⟩ | ⟨rfl, hm, hheard⟩ | ⟨rfl, hm, hheard⟩
    · obtain ⟨rcb, -, hout⟩ := hs.hosts.left.syn_again hl.names hl.saddr
      exact hc.other rfl (by rw [speaks_host, controlOutput_syn hl.toHandled hm, hout])
    · obtain ⟨r, hlook, ht⟩ := hs.hosts.left.filed
      rw [← hl.names.super] at hlook
      obtain ⟨hblock, -⟩ := ackOut_sentUpTo hlook hl.names.plain
        (hl.saddr.trans hl.names.leftA.symm) ht.old hs.hosts.left.plain ha.phase
      refine hc.keep rfl ?_
      rw [Deal.leftBlock, speaks_host, controlOutput_ack hl.toHandled hm]
      exact congrArg Prod.snd hblock
    · exact hc.other rfl (speaks_host_of_ne Anchor.left_ne_right)
  | hears x pkt =>
    have hold : (c.effect s (.hears x pkt)).onOld .left = s.onOld .left := rfl
    cases x with
    | left =>
      have hp := hs.control pkt hl.1
      have hm : pkt.msg.mtype = .synAck := by
        rcases hp.kind with ⟨-, hd, -⟩ | ⟨hd, -⟩ | ⟨-, hm, -⟩
        · exact absurd (hl.2.symm.trans hd) c.apart
        · exact absurd (hl.2.symm.trans hd) c.apart
        · exact hm
      refine hc.keep hold ?_
      rw [Deal.leftBlock, hears_host, controlInput_synAck hp.toEnters hm]
      exact congrArg Prod.snd (synAckIn_sentUpTo (s.host .left) pkt d.l.old)
    | right => exact hc.other hold (hears_host_of_ne Anchor.left_ne_right)
  | sends x skb =>
    cases x with
    | left => exact hc.sends hs ha hl
    | right =>
      refine hc.other ?_ ?_
      · simp only [effect]
        split
        · exact Function.update_of_ne Anchor.left_ne_right ..
        · rfl
      · simp only [effect, Function.update_of_ne Anchor.left_ne_right]
  | takes x skb =>
    obtain ⟨-, hskb, -⟩ := hs.wire x.other skb hl.1 (by rw [Anchor.other_other]; exact hl.2)
    exact hseg x skb hskb.toIsTcp hskb.notSyn _ rfl rfl
  | foreign x skb =>
    obtain ⟨htcp, hsyn, -⟩ := hl
    exact hseg x skb htcp hsyn _ rfl rfl

theorem Reconfiguration.counts_steps {ls : List AnchorMove} (hs : c.system.init s)
    (hd : c.Sound d s) (ht : c.system.Steps s ls t)
    (hmark : (d.leftBlock s).seqCutoff = pos iss m) :
    c.Counts d iss m t := by
  have hstart : c.Counts d iss m s := by
    intro m' hrun
    obtain ⟨s₀, pkt, hstill, -, -, rfl⟩ := hs
    have hnone : (c.effect s₀ (.speaks .left pkt)).onOld .left = [] := hstill.onOld .left
    rw [hnone] at hrun
    cases hrun
    exact hmark
  have hall : c.Sound d t ∧ c.Agreed d t ∧ c.Counts d iss m t := by
    refine ht.invariant (P := fun s => c.Sound d s ∧ c.Agreed d s ∧ c.Counts d iss m s) ?_
      ⟨hd, c.agreed_init hs hd, hstart⟩
    rintro s l t ⟨hs, ha, hc⟩ ⟨hl, rfl⟩
    exact ⟨hs.step hl, ha.step hs hl, hc.step hs ha hl⟩
  exact hall.2.2

end Counting

/-- **The anchors agree on where the old path ends.**  Over any run, if the right anchor has
switched then so has the left one, and the right one acknowledges on the old path up to the left
one's mark, in the right session's numbers.  That mark is the highest end of the data that has left
the left anchor on the old path, from where it was when the run began. -/
theorem cutoffs_agree (c : Reconfiguration) {s t : Anchors} {ls : List AnchorMove}
    (hs : c.system.init s) (ht : c.system.Steps s ls t)
    (hest : (c.block t .right).state = .established) :
    (c.block t .left).state = .established ∧ (c.block t .right).validAckCut = true ∧
      (c.block t .right).ackCutoff = (c.block t .left).seqCutoff +
        ((c.block t .right).inIack - (c.block t .left).inIseq) ∧
      ∀ iss m m', (c.block s .left).seqCutoff = pos iss m →
        SegmentRun (c.own .left) iss m (t.onOld .left).reverse m' →
          (c.block t .left).seqCutoff = pos iss m' := by
  obtain ⟨d, hd⟩ := c.sound_init hs
  obtain ⟨hsound, hagreed⟩ := c.agreed_steps hs hd ht
  obtain ⟨hleft, hacks⟩ := hagreed.right hest
  have hblock : c.block t .left = d.leftBlock t := Reconfiguration.block_eq hsound.hosts.left.look
  have hblock₀ : c.block s .left = d.leftBlock s := Reconfiguration.block_eq hd.hosts.left.look
  have hnumL := hsound.block .left
  have hnumR := hsound.block .right
  rw [Prod.mk.injEq] at hnumL hnumR
  refine ⟨?_, congrArg Prod.fst hacks, ?_, fun iss m m' hmark hrun => ?_⟩
  · rw [hblock]
    exact hleft
  · rw [hnumR.2, hnumL.1, hblock]
    exact congrArg Prod.snd hacks
  · rw [hblock₀] at hmark
    rw [hblock]
    exact Reconfiguration.counts_steps hs hd ht hmark m' hrun

theorem removal_switches : ∃ ls, removal.system.Steps (removalRun 0) ls (removalRun 8) := by
  have h4 : removal.system.step (removalRun 4) (removalMove 4 (removalRun 4)) (removalRun 5) :=
    ⟨⟨⟨by decide, by decide⟩, by decide, by decide⟩, rfl⟩
  have h5 : removal.system.step (removalRun 5) (removalMove 5 (removalRun 5)) (removalRun 6) :=
    ⟨⟨by decide +kernel, by decide +kernel⟩, rfl⟩
  have h6 : removal.system.step (removalRun 6) (removalMove 6 (removalRun 6)) (removalRun 7) :=
    ⟨removal.speaks_message (removal_ifaddrs _)
      (by decide +kernel : (removalRun 6).heard .left = true), rfl⟩
  have h7 : removal.system.step (removalRun 7) (removalMove 7 (removalRun 7)) (removalRun 8) :=
    ⟨⟨by decide +kernel, by decide +kernel⟩, rfl⟩
  obtain ⟨ls, hsteps⟩ := removal_steps
  exact ⟨_, (((hsteps.tail h4).tail h5).tail h6).tail h7⟩

/-- Both anchors have switched; the left one had its mark at 1000 and has sent two bytes since. -/
theorem cutoffs_agree_removal :
    (removal.block (removalRun 8) .left).state = .established ∧
      (removal.block (removalRun 8) .right).validAckCut = true ∧
      (removal.block (removalRun 8) .right).ackCutoff =
        (removal.block (removalRun 8) .left).seqCutoff +
          ((removal.block (removalRun 8) .right).inIack -
            (removal.block (removalRun 8) .left).inIseq) ∧
      (removal.block (removalRun 8) .left).seqCutoff = pos 1000#32 2 := by
  obtain ⟨ls, hsteps⟩ := removal_switches
  have hold : (removalRun 8).onOld .left = [removalData] := by decide +kernel
  have hseg : SegmentAt (removal.own .left) 1000#32 0 removalData :=
    ⟨⟨by decide, by decide⟩, by decide, by decide, by decide⟩
  have hrun : SegmentRun (removal.own .left) 1000#32 0 ((removalRun 8).onOld .left).reverse 2 := by
    rw [hold]
    exact .cons hseg (by decide) (by decide) (.nil 2)
  obtain ⟨hleft, hvalid, hcut, hmark⟩ :=
    cutoffs_agree removal removal_init hsteps (by decide +kernel)
  exact ⟨hleft, hvalid, hcut, hmark 1000#32 0 2 (by decide +kernel) hrun⟩

/-! ## Finishing -/

section Finishing
variable {c : Reconfiguration} {d : Deal} {s t : Anchors} {x : Anchor} {pkt p : ControlPacket}
  {mtype : MessageType}

/-- **A message that has left is accepted**, however often it is handed on. -/
theorem Reconfiguration.Sound.accepted (hs : c.Sound d s) (hmem : pkt ∈ s.control)
    (hto : pkt.daddr = c.addr x) : (controlInput (c.env x) (s.host x) pkt).2.2 = true := by
  have hp := hs.control pkt hmem
  rcases hp.kind with ⟨hsaddr, hdaddr, hm, ht⟩ | ⟨hdaddr, hm, -⟩ | ⟨hdaddr, hm, -⟩
  · rw [controlInput_syn ⟨hp.port, hp.long, hm⟩]
    cases x with
    | left => exact absurd (hto.symm.trans hdaddr) c.apart
    | right =>
      cases hheard : s.heard .right with
      | true =>
        obtain ⟨b, hr⟩ := hs.hosts.right hheard
        rw [hr.syn_again hp.names]
      | false =>
        obtain ⟨hidle, -⟩ := hs.hosts.idle hheard
        refine synIn_memory hidle.wf hidle.memory ?_ (hdaddr.trans hp.names.rightA.symm)
          (o := d.o) ?_
        · rw [hp.names.super]
          exact hidle.first
        · rw [hp.names.rightSS, TcpSession.reverse_reverse]
          exact hidle.session
  · rw [controlInput_ack hp.toEnters hm]
  · rw [controlInput_synAck hp.toEnters hm]

/-- A message is sent, and arrives. -/
def Reconfiguration.exchanged (c : Reconfiguration) (s : Anchors) (x : Anchor)
    (mtype : MessageType) (p : ControlPacket) : Anchors :=
  c.effect (c.effect s (.speaks x (c.message x mtype))) (.hears x.other p)

theorem Reconfiguration.exchange (c : Reconfiguration) (x : Anchor) (mtype : MessageType)
    (hown : c.addr x ∈ (c.env x).ifaddrs) (hs : c.Sound d s) (ha : c.Agreed d s)
    (hmay : s.MaySay x mtype) : ∃ p,
      c.system.Steps s [.speaks x (c.message x mtype), .hears x.other p]
        (c.exchanged s x mtype p) ∧
      p.envelope = (c.message x mtype).envelope ∧ c.Sound d (c.exchanged s x mtype p) ∧
      c.Agreed d (c.exchanged s x mtype p) := by
  have hp := c.speaks_message hown hmay
  obtain ⟨hok, he⟩ := hs.hosts.passes hp
  generalize hm : c.message x mtype = m at hp hok he ⊢
  have hfirst : c.Enabled s (.speaks x m) := hp
  have hsecond : c.Enabled (c.effect s (.speaks x m))
      (.hears x.other (controlOutput (c.env x) (s.host x) m).2.1) := by
    constructor
    · rw [effect]
      simp only [hok, if_true]
      exact List.mem_cons_self
    · simp only [ControlPacket.envelope, Prod.mk.injEq] at he
      rw [he.1.2.2.2.2, ← hm]
      rfl
  refine ⟨_, ?_, he, ?_, ?_⟩
  · rw [exchanged, hm]
    exact (Steps.single (T := c.system) ⟨hfirst, rfl⟩).tail ⟨hsecond, rfl⟩
  · rw [exchanged, hm]
    exact (hs.step hfirst).step hsecond
  · rw [exchanged, hm]
    exact (ha.step hs hfirst).step (hs.step hfirst) hsecond

theorem Reconfiguration.exchanged_heard (he : p.envelope = (c.message x mtype).envelope) :
    (c.exchanged s x mtype p).heard =
      if mtype = x.other.awaits then Function.update s.heard x.other true else s.heard := by
  have hm : p.msg.mtype = mtype := congrArg (fun e => e.2.1) he
  rw [exchanged, effect_hears]
  simp only [hm, effect]

/-- When the right anchor has answered, both paths are there. -/
theorem Reconfiguration.exchanged_synAck (hown : c.addr .right ∈ (c.env .right).ifaddrs)
    (hs : c.Sound d s) (hheard : s.heard .right = true) :
    ∃ n, (c.block (c.exchanged s .right .synAck p) .right).otherPath = some n := by
  have hp : c.Speaks s .right (c.message .right .synAck) := c.speaks_message hown hheard
  obtain ⟨b, hr⟩ := hs.hosts.right hheard
  have hhost : (c.exchanged s .right .synAck p).host .right =
      (replaceCbRightA (c.env .right) (s.host .right) (c.message .right .synAck)).1 := by
    rw [exchanged, Anchor.other, hears_host_of_ne Anchor.left_ne_right.symm, speaks_host,
      controlOutput_synAck hp.toHandled rfl rfl]
  have hlook := (hr.replaced hp.names.super).look
  rw [block_of_host hhost hlook, hr.replaceCbRightA_eq hp.names.super, Host.setOut_outMem_self]
  exact ⟨_, rfl⟩

/-- When the left anchor has confirmed, the right one has switched. -/
theorem Reconfiguration.exchanged_ack (hown : c.addr .left ∈ (c.env .left).ifaddrs)
    (hs : c.Sound d s) (hheard : s.heard .left = true)
    (hboth : ∃ n, (c.block s .right).otherPath = some n)
    (he : p.envelope = (c.message .left .ack).envelope) :
    (c.block (c.exchanged s .left .ack p) .right).state = .established := by
  have hp : c.Speaks s .left (c.message .left .ack) := c.speaks_message hown hheard
  have hnames := hp.names.of_envelope he
  obtain ⟨b, hr⟩ := hs.hosts.right (hs.order hheard)
  obtain ⟨r, hlook, hold, -⟩ := hr.filed
  obtain ⟨n, hn⟩ := hboth
  have hfields := he
  simp only [ControlPacket.envelope, Prod.mk.injEq] at hfields
  have hhost : (c.exchanged s .left .ack p).host .right =
      (ackIn (c.env .right) (s.host .right) p).1 := by
    rw [exchanged, Anchor.other, hears_host, speaks_host_of_ne Anchor.left_ne_right.symm,
      controlInput_ack (hp.toHandled.enters.of_envelope he) hfields.2.1]
  rw [block_eq hr.look] at hn
  rw [← hnames.super] at hlook
  rw [block_of_host hhost ((sameWiring_ackIn _ _).lookupOut _ |>.trans hr.look)]
  exact ackIn_established hlook (hnames.rightA.trans hfields.1.2.2.2.2.symm) hold hr.plain hn

end Finishing

/-- **The switch can always be finished.**  Every message that has left, and may have come before,
is accepted where it is handed on.  Whatever has happened, if the daemons use addresses of their
hosts then sending and handing on each of the three messages once more leaves both anchors switched.
-/
theorem anchors_finish (c : Reconfiguration) (hown : ∀ x, c.addr x ∈ (c.env x).ifaddrs)
    {s t : Anchors} {ls : List AnchorMove} (hs : c.system.init s) (ht : c.system.Steps s ls t) :
    (∀ x, ∀ pkt ∈ t.control, pkt.daddr = c.addr x →
      (controlInput (c.env x) (t.host x) pkt).2.2 = true) ∧
    ∃ syn synAck ack u,
      syn.msg.mtype = .syn ∧ synAck.msg.mtype = .synAck ∧ ack.msg.mtype = .ack ∧
      c.system.Steps t
        [.speaks .left (c.message .left .syn), .hears .right syn,
          .speaks .right (c.message .right .synAck), .hears .left synAck,
          .speaks .left (c.message .left .ack), .hears .right ack] u ∧
      (c.block u .left).state = .established ∧ (c.block u .right).state = .established := by
  obtain ⟨d, hd⟩ := c.sound_init hs
  obtain ⟨hsound, hagreed⟩ := c.agreed_steps hs hd ht
  refine ⟨fun x pkt hmem hto => hsound.accepted hmem hto, ?_⟩
  -- the right anchor hears of it, or hears again
  obtain ⟨p, hrun, he, hs1, ha1⟩ := c.exchange .left .syn (hown .left) hsound hagreed trivial
  have hright : (c.exchanged t .left .syn p).heard .right = true := by
    rw [Reconfiguration.exchanged_heard he]
    rfl
  generalize c.exchanged t .left .syn p = t1 at hrun hs1 ha1 hright
  -- it answers
  obtain ⟨q, hrun', he', hs2, ha2⟩ := c.exchange .right .synAck (hown .right) hs1 ha1 hright
  have hleft : (c.exchanged t1 .right .synAck q).heard .left = true := by
    rw [Reconfiguration.exchanged_heard he']
    rfl
  have hboth := Reconfiguration.exchanged_synAck (p := q) (hown .right) hs1 hright
  generalize c.exchanged t1 .right .synAck q = t2 at hrun' hs2 ha2 hleft hboth
  -- and is confirmed
  obtain ⟨k, hrun'', he'', hs3, ha3⟩ := c.exchange .left .ack (hown .left) hs2 ha2 hleft
  have hest := Reconfiguration.exchanged_ack (hown .left) hs2 hleft hboth he''
  have hmtype : ∀ {x : Anchor} {mtype : MessageType} {p : ControlPacket},
      p.envelope = (c.message x mtype).envelope → p.msg.mtype = mtype :=
    fun he => congrArg (fun e => e.2.1) he
  refine ⟨p, q, k, _, hmtype he, hmtype he', hmtype he'', (hrun.append hrun').append hrun'',
    ?_, hest⟩
  rw [Reconfiguration.block_eq hs3.hosts.left.look]
  exact (ha3.right hest).1

/-- After four moves: the `DYSCO_SYN` has been handed on, the right anchor's answer has not. -/
theorem anchors_finish_removal :
    (∀ x, ∀ pkt ∈ (removalRun 4).control, pkt.daddr = removal.addr x →
      (controlInput (removal.env x) ((removalRun 4).host x) pkt).2.2 = true) ∧
    ∃ syn synAck ack u,
      syn.msg.mtype = .syn ∧ synAck.msg.mtype = .synAck ∧ ack.msg.mtype = .ack ∧
      removal.system.Steps (removalRun 4)
        [.speaks .left (removal.message .left .syn), .hears .right syn,
          .speaks .right (removal.message .right .synAck), .hears .left synAck,
          .speaks .left (removal.message .left .ack), .hears .right ack] u ∧
      (removal.block u .left).state = .established ∧
        (removal.block u .right).state = .established := by
  obtain ⟨ls, hsteps⟩ := removal_steps
  exact anchors_finish removal removal_ifaddrs removal_init hsteps

end Dysco
