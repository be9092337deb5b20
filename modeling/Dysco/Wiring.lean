import Dysco.RightAck
import Dysco.ControlMoves
import Dysco.Renumbering

/-! # The wiring of a host's blocks

What a reconfiguration sets up once is the wiring of its blocks: their sessions and subsessions, the
blocks they lead to, and the distances by which they move numbers.  Segments and the later control
messages change only how far the switch from one path to the other has come (`SameWiring`), so a
segment of a session with two paths leaves as the block of one of them has it, whenever it leaves
(`outTranslate_ways`).
-/
namespace Dysco
open BucketTable

variable {E : Env} {h g k : Host} {p q r : Nat} {skb : SkBuff} {a b : U32}

/-- The block without what tells how far the switch has come. -/
def CbOut.wiring (d : CbOut) : CbOut :=
  { d with
    state := .onePath, seqCutoff := 0#32, ackCutoff := 0#32, validAckCut := false,
    useNpSeq := false, useNpAck := false, ackCtr := 0#32 }

def CbIn.wiring (d : CbIn) : CbIn := { d with twoPaths := false }

def CbReconfig.wiring (d : CbReconfig) : CbReconfig := { d with recDone := false }

/-- The hosts differ only in how far their sessions' switches have come. -/
structure SameWiring (h g : Host) : Prop where
  out : ∀ p, (g.outMem p).wiring = (h.outMem p).wiring
  inp : ∀ q, (g.inMem q).wiring = (h.inMem q).wiring
  rcb : ∀ r, (g.rcbMem r).wiring = (h.rcbMem r).wiring
  hashOut : g.hashOut = h.hashOut
  hashIn : g.hashIn = h.hashIn
  hashReconfig : g.hashReconfig = h.hashReconfig
  brk : g.brk = h.brk
  oom : g.oom = h.oom

namespace SameWiring

theorem refl (h : Host) : SameWiring h h :=
  ⟨fun _ => rfl, fun _ => rfl, fun _ => rfl, rfl, rfl, rfl, rfl, rfl⟩

/-- Two steps that keep the wiring keep it together. -/
theorem trans (hg : SameWiring h g) (hk : SameWiring g k) : SameWiring h k where
  out p := (hk.out p).trans (hg.out p)
  inp q := (hk.inp q).trans (hg.inp q)
  rcb r := (hk.rcb r).trans (hg.rcb r)
  hashOut := hk.hashOut.trans hg.hashOut
  hashIn := hk.hashIn.trans hg.hashIn
  hashReconfig := hk.hashReconfig.trans hg.hashReconfig
  brk := hk.brk.trans hg.brk
  oom := hk.oom.trans hg.oom

/-- A block written with the same wiring: its numbers, cutoffs and counters may be anything. -/
theorem setOut {d : CbOut} (hd : d.wiring = (h.outMem p).wiring) : SameWiring h (h.setOut p d) := by
  refine { refl h with out := fun x => ?_ }
  by_cases hx : x = p
  · rw [hx, Host.setOut_outMem_self, hd]
  · rw [Host.setOut_outMem_of_ne _ hx]

/-- The same for an input block. -/
theorem setIn {d : CbIn} (hd : d.wiring = (h.inMem q).wiring) : SameWiring h (h.setIn q d) := by
  refine { refl h with inp := fun x => ?_ }
  by_cases hx : x = q
  · rw [hx, Host.setIn_inMem_self, hd]
  · rw [Host.setIn_inMem_of_ne _ hx]

/-- And for a reconfiguration. -/
theorem setRcb {d : CbReconfig} (hd : d.wiring = (h.rcbMem r).wiring) :
    SameWiring h (h.setRcb r d) := by
  refine { refl h with rcb := fun x => ?_ }
  by_cases hx : x = r
  · rw [hx, Host.setRcb_rcbMem_self, hd]
  · rw [Host.setRcb_rcbMem_of_ne _ hx]

/-! ### What depends on the wiring alone -/

/-- Every field of the wiring is read alike before and after. -/
theorem outField {D : Type} (hs : SameWiring h g) (f : CbOut → D) (p : Nat) :
    f (g.outMem p).wiring = f (h.outMem p).wiring := congrArg f (hs.out p)

theorem inField {D : Type} (hs : SameWiring h g) (f : CbIn → D) (q : Nat) :
    f (g.inMem q).wiring = f (h.inMem q).wiring := congrArg f (hs.inp q)

theorem rcbField {D : Type} (hs : SameWiring h g) (f : CbReconfig → D) (r : Nat) :
    f (g.rcbMem r).wiring = f (h.rcbMem r).wiring := congrArg f (hs.rcb r)

/-- **Lookups find the same blocks**, since the tables and the sessions they are filed by are
wiring. -/
theorem lookupOut (hs : SameWiring h g) (ss : TcpSession) :
    g.lookupOut E ss = h.lookupOut E ss := by
  rw [Host.lookupOut, hs.hashOut]
  exact lookup_congr fun p _ => hs.outField CbOut.super p

/-- So do lookups of input blocks. -/
theorem lookupIn (hs : SameWiring h g) (ss : TcpSession) : g.lookupIn E ss = h.lookupIn E ss := by
  rw [Host.lookupIn, hs.hashIn]
  exact lookup_congr fun q _ => hs.inField CbIn.sub q

/-- And of reconfigurations. -/
theorem lookupReconfig (hs : SameWiring h g) (ss : TcpSession) :
    g.lookupReconfig E ss = h.lookupReconfig E ss := by
  rw [Host.lookupReconfig, hs.hashReconfig]
  exact lookup_congr fun r _ => hs.rcbField CbReconfig.super r

/-- What is well formed stays so: all that it says is about wiring and about addresses in use. -/
theorem wf (hs : SameWiring h g) (hwf : h.WF) : g.WF where
  out_lt p hp := by
    rw [hs.hashOut] at hp
    rw [hs.brk]
    exact hwf.out_lt p hp
  in_lt q hq := by
    rw [hs.hashIn] at hq
    rw [hs.brk]
    exact hwf.in_lt q hq
  reconfig_lt r hr := by
    rw [hs.hashReconfig] at hr
    rw [hs.brk]
    exact hwf.reconfig_lt r hr
  dcbIn_lt p q hp hq := by
    have hsame : (g.outMem p).dcbIn = (h.outMem p).dcbIn := hs.outField CbOut.dcbIn p
    rw [hs.hashOut] at hp
    rw [hsame] at hq
    rw [hs.brk]
    exact hwf.dcbIn_lt p q hp hq

/-- The deltas are wiring, so an output block shifts as before. -/
theorem outMovesBy (hs : SameWiring h g) (hm : (h.outMem p).MovesBy a b) :
    (g.outMem p).MovesBy a b := by
  have hseq : ((g.outMem p).seqDelta, (g.outMem p).seqAdd) =
      ((h.outMem p).seqDelta, (h.outMem p).seqAdd) :=
        hs.outField (fun d => (d.seqDelta, d.seqAdd)) p
  have hack : ((g.outMem p).ackDelta, (g.outMem p).ackAdd) =
      ((h.outMem p).ackDelta, (h.outMem p).ackAdd) :=
        hs.outField (fun d => (d.ackDelta, d.ackAdd)) p
  rw [Prod.mk.injEq] at hseq hack
  constructor
  · rw [hseq.1, hseq.2]
    exact hm.seq
  · rw [hack.1, hack.2]
    exact hm.ack

/-- And so does an input block. -/
theorem inMovesBy (hs : SameWiring h g) (hm : (h.inMem q).MovesBy a b) :
    (g.inMem q).MovesBy a b := by
  have hseq : ((g.inMem q).seqDelta, (g.inMem q).seqAdd) =
      ((h.inMem q).seqDelta, (h.inMem q).seqAdd) := hs.inField (fun d => (d.seqDelta, d.seqAdd)) q
  have hack : ((g.inMem q).ackDelta, (g.inMem q).ackAdd) =
      ((h.inMem q).ackDelta, (h.inMem q).ackAdd) := hs.inField (fun d => (d.ackDelta, d.ackAdd)) q
  rw [Prod.mk.injEq] at hseq hack
  constructor
  · rw [hseq.1, hseq.2]
    exact hm.seq
  · rw [hack.1, hack.2]
    exact hm.ack

end SameWiring

/-! ## Segments -/

/-- `dysco_out_translate` moves cutoffs, marks and counters only. -/
theorem sameWiring_outTranslate (h : Host) (skb : SkBuff) (p : Nat) :
    SameWiring h (outTranslate E h skb p).1 := by
  obtain ⟨m, hm⟩ := outTranslate_marks E h skb p
  rw [hm]
  exact SameWiring.setOut rfl

/-- `dysco_in_two_paths_ack` may end the two paths of an input block, and lets data take the new
one. -/
theorem sameWiring_inTwoPathsAck (h : Host) (skb : SkBuff) (q : Nat) :
    SameWiring h (inTwoPathsAck h skb q) := by
  have hmark : SameWiring h (h.setIn q ((h.inMem q).withTwoPaths false)) := SameWiring.setIn rfl
  have hswitch : ∀ x, SameWiring h
      ((h.setOut x (h.outMem x).withUseNpSeq).setIn q ((h.inMem q).withTwoPaths false)) := by
    intro x
    have hout : SameWiring h (h.setOut x (h.outMem x).withUseNpSeq) := SameWiring.setOut rfl
    exact hout.trans (@SameWiring.setIn (h.setOut x (h.outMem x).withUseNpSeq) q _ rfl)
  simp only [inTwoPathsAck]
  repeat' split
  all_goals first
    | exact SameWiring.refl h
    | exact hmark
    | exact hswitch _

/-- `dysco_in_two_paths_data_seg` lowers the cutoff of acknowledgments of the old path. -/
theorem sameWiring_inTwoPathsDataSeg (h : Host) (skb : SkBuff) (q : Nat) :
    SameWiring h (inTwoPathsDataSeg h skb q).1 := by
  have hlower : ∀ (d : CbOut) (seq : U32), (d.lowerAckCutoff seq).wiring = d.wiring := by
    intro d seq
    rw [CbOut.lowerAckCutoff]
    split
    · split <;> rfl
    · rfl
  simp only [inTwoPathsDataSeg]
  repeat' split
  all_goals first
    | exact SameWiring.refl h
    | exact SameWiring.setOut (hlower _ _)

/-- The host that a segment leaves behind. -/
theorem inputSegment_host (h : Host) (skb : SkBuff) (q : Nat) :
    (inputSegment h skb q).1 = if (h.inMem q).twoPaths then
      if 0#16 < skb.segSz then (inTwoPathsDataSeg h skb q).1 else inTwoPathsAck h skb q
    else h := by
  rw [inputSegment]
  by_cases htwo : (h.inMem q).twoPaths = true
  · by_cases hdata : 0#16 < skb.segSz
    · simp only [htwo, hdata, if_true]
      split <;> rfl
    · simp only [htwo, hdata, if_true, if_false]
  · simp only [htwo, Bool.false_eq_true, if_false, if_true]

/-- So no segment that comes in changes the wiring, with one path or with two. -/
theorem sameWiring_inputSegment (h : Host) (skb : SkBuff) (q : Nat) :
    SameWiring h (inputSegment h skb q).1 := by
  rw [inputSegment_host]
  split
  · split
    · exact sameWiring_inTwoPathsDataSeg h skb q
    · exact sameWiring_inTwoPathsAck h skb q
  · exact SameWiring.refl h

/-- Where the blocks of both paths are there, a segment that arrives is handed on as its block has
it. -/
theorem inputSegment_packet {n o : Nat} (hout : (h.inMem q).dcbOut = some n)
    (hother : (h.outMem n).otherPath = some o) :
    (inputSegment h skb q).2 = inHdrRewriteCsum skb ((inputSegment h skb q).1.inMem q) := by
  have hok : (inTwoPathsDataSeg h skb q).2 = true := by
    simp only [inTwoPathsDataSeg, hout, hother]
    split
    · rfl
    · split <;> rfl
  rw [inputSegment]
  by_cases htwo : (h.inMem q).twoPaths = true
  · by_cases hdata : 0#16 < skb.segSz
    · simp only [htwo, hdata, if_true, hok]
    · simp only [htwo, hdata, if_true, if_false]
  · simp only [htwo, Bool.false_eq_true, if_false, if_true]

/-! ## Control messages after the first -/

/-- A `DYSCO_SYN_ACK` that comes to the left anchor moves the cutoff of acknowledgments. -/
theorem sameWiring_synAckIn (h : Host) (pkt : ControlPacket) :
    SameWiring h (synAckIn E h pkt).1 := by
  simp only [synAckIn]
  repeat' split
  all_goals first
    | exact SameWiring.refl h
    | exact SameWiring.setOut rfl

/-- A `DYSCO_ACK` that comes to the right anchor sets the cutoff and the state of its block. -/
theorem sameWiring_ackIn (h : Host) (pkt : ControlPacket) : SameWiring h (ackIn E h pkt).1 := by
  simp only [ackIn]
  repeat' split
  all_goals first
    | exact SameWiring.refl h
    | exact SameWiring.setOut rfl

/-- `dysco_replace_cb_leftA` sets the state of a block and notes that the path is there. -/
theorem sameWiring_replaceCbLeftA (h : Host) (pkt : ControlPacket) (r : Nat) :
    SameWiring h (replaceCbLeftA h pkt r).1 := by
  have hstate : ∀ d : CbOut,
      (if d.state = .synSent then d.withState .established else d).wiring = d.wiring := by
    intro d
    split <;> rfl
  simp only [replaceCbLeftA]
  split
  · exact SameWiring.refl h
  · rename_i old _
    generalize hd : (if (h.outMem old).state = .synSent then (h.outMem old).withState .established
      else h.outMem old) = d
    have hout : SameWiring h (h.setOut old d) := by
      apply SameWiring.setOut
      rw [← hd]
      exact hstate _
    exact hout.trans (@SameWiring.setRcb (h.setOut old d) r _ rfl)

/-- A `DYSCO_ACK` that leaves does so at the left anchor, unless it waits for a state transfer. -/
theorem sameWiring_ackOut (h : Host) (pkt : ControlPacket) : SameWiring h (ackOut E h pkt).1 := by
  rw [ackOut]
  split
  · exact SameWiring.refl h
  · rename_i r _
    split
    · exact SameWiring.refl h
    · split
      · split
        · exact SameWiring.refl h
        · split
          · exact SameWiring.refl h
          · exact sameWiring_replaceCbLeftA h pkt r
      · exact SameWiring.refl h

/-! ## The ways out -/

/-- Choosing a path ends at the block itself, or at the other one with the host and the packet as
they were; before the left anchor has switched, only if an acknowledgment cutoff is known. -/
theorem pickPath_ways (h : Host) (skb : SkBuff) (p other : Nat) :
    (pickPath h skb p other).2.2 = p ∨
      pickPath h skb p other = (h, skb, other) ∧
        ((h.outMem p).state = .synSent → (h.outMem p).validAckCut = true) := by
  have hack : (pickPathAck h skb p other).2.2 = p ∨
      pickPathAck h skb p other = (h, skb, other) ∧
        ((h.outMem p).state = .synSent → (h.outMem p).validAckCut = true) := by
    simp only [pickPathAck]
    split
    · split
      · rename_i hest
        exact Or.inr ⟨rfl, fun hs => by simp [hest] at hs⟩
      · exact Or.inl rfl
    · split
      · rename_i hcut
        split
        · exact Or.inr ⟨rfl, fun _ => hcut⟩
        · split
          · split
            · exact Or.inr ⟨rfl, fun _ => hcut⟩
            · exact Or.inl rfl
          · exact Or.inl rfl
      · exact Or.inl rfl
  have hseq : ∀ seq, pickPathSeq (h.outMem p) p other seq = p ∨
      pickPathSeq (h.outMem p) p other seq = other := by
    intro seq
    rw [pickPathSeq]
    repeat' split
    all_goals first
      | exact Or.inl rfl
      | exact Or.inr rfl
  simp only [pickPath]
  split
  · rename_i hstate
    split
    · rcases hseq skb.endSeq with hp | ho
      · exact Or.inl hp
      · rw [ho]
        exact Or.inr ⟨rfl, fun hs => by simp [hstate] at hs⟩
    · exact hack
  · rename_i hstate
    split
    · rcases hseq skb.endSeq with hp | ho
      · exact Or.inl hp
      · rw [ho]
        exact Or.inr ⟨rfl, fun hs => by simp [hstate] at hs⟩
    · exact hack
  · split
    · exact Or.inl rfl
    · exact hack
  · exact Or.inl rfl

/-- **The two ways out.**  A segment leaves with the subsession of its own block, or as the block of
the other path has it. -/
theorem outTranslate_ways (h : Host) (skb : SkBuff) (p : Nat) :
    (outTranslate E h skb p).2.1.session = (h.outMem p).sub ∨
      ∃ n, (h.outMem p).otherPath = some n ∧
        (outTranslate E h skb p).2.1 =
          outHdrRewriteCsum E (outRewrite skb (h.outMem n)) (h.outMem n) ∧
        ((h.outMem p).state = .synSent → (h.outMem p).validAckCut = true) := by
  have hsub : ∀ x, ((outTranslate E h skb p).1.outMem x).sub = (h.outMem x).sub :=
    (sameWiring_outTranslate h skb p).outField CbOut.sub
  simp only [outTranslate] at hsub ⊢
  cases hother : (h.outMem p).otherPath with
  | none =>
    left
    simp only [hother] at hsub ⊢
    rw [(outHdrRewriteCsum_session _ _).2]
    exact hsub p
  | some n =>
    simp only [hother] at hsub ⊢
    rcases pickPath_ways h skb p n with hp | ⟨hn, hwhen⟩
    · left
      rw [(outHdrRewriteCsum_session _ _).2, hp]
      exact hsub p
    · right
      rw [hn]
      exact ⟨n, rfl, rfl, hwhen⟩

/-! ## The hooks -/

/-- A segment of a session with an output block. -/
theorem output_segment {p : Nat} (htcp : skb.IsTcp) (hsyn : skb.hasSyn = false)
    (hp : h.lookupOut E skb.session = some p) : ∃ s, SameNumbers skb s ∧
      output E h skb = ((outTranslate E h s p).1, (outTranslate E h s p).2.1, true) := by
  have hout : output E h skb = outputWith E h skb p := by
    rw [output_unfold, if_neg (not_not_intro htcp.ip), if_neg (not_not_intro htcp.tcp), hp]
  rw [hout]
  simp only [outputWith, hsyn, Bool.false_eq_true, if_false]
  split
  · split
    · exact ⟨_, sameNumbers_fixRcvWindow skb _ _, rfl⟩
    · exact ⟨_, SameNumbers.refl skb, rfl⟩
  · exact ⟨_, SameNumbers.refl skb, rfl⟩

/-- Nothing but the marks of the block is written for it. -/
theorem output_segment_marks {p : Nat} (htcp : skb.IsTcp) (hsyn : skb.hasSyn = false)
    (hp : h.lookupOut E skb.session = some p) :
    ∃ m, (output E h skb).1 = h.setOut p ((h.outMem p).withMarks m) := by
  obtain ⟨s, -, heq⟩ := output_segment htcp hsyn hp
  obtain ⟨m, hm⟩ := outTranslate_marks E h s p
  exact ⟨m, by rw [heq, hm]⟩

/-- A segment of a subsession with an input block. -/
theorem input_segment {q : Nat} (htcp : skb.IsTcp) (hsyn : skb.hasSyn = false)
    (hq : h.lookupIn E skb.session = some q) :
    input E h skb = ((inputSegment h skb q).1, (inputSegment h skb q).2, true) := by
  rw [input, if_neg (not_not_intro htcp.ip), if_neg (not_not_intro htcp.tcp), hq]
  simp only [hsyn, Bool.false_eq_true, if_false]

/-- A segment of a session that the host does not know. -/
theorem input_unknown (htcp : skb.IsTcp) (hsyn : skb.hasSyn = false)
    (hq : h.lookupIn E skb.session = none) : input E h skb = (h, skb, true) := by
  rw [input, if_neg (not_not_intro htcp.ip), if_neg (not_not_intro htcp.tcp), hq]
  simp only [hsyn, Bool.false_eq_true, if_false]

/-- **Nothing but a SYN** changes the wiring at the input hook. -/
theorem sameWiring_input (htcp : skb.IsTcp) (hsyn : skb.hasSyn = false) :
    SameWiring h (input E h skb).1 := by
  cases hq : h.lookupIn E skb.session with
  | none =>
    rw [input_unknown htcp hsyn hq]
    exact SameWiring.refl h
  | some q =>
    rw [input_segment htcp hsyn hq]
    exact sameWiring_inputSegment h skb q

section Messages
variable {pkt : ControlPacket}

/-- The handlers look at the message when it enters. -/
structure ControlPacket.Enters (pkt : ControlPacket) : Prop where
  port : pkt.dest = dyscoControlPort ∨ pkt.source = dyscoControlPort
  long : controlMinLen ≤ (ntohs pkt.udpLen).toNat

/-- What the handlers take is long enough and comes to the port they listen to. -/
theorem ControlPacket.Handled.enters (hp : pkt.Handled E) : pkt.Enters := ⟨hp.port, hp.long⟩

/-- A `DYSCO_SYN_ACK` goes to its handler at the left anchor. -/
theorem controlInput_synAck (hp : pkt.Enters) (hm : pkt.msg.mtype = .synAck) (h : Host) :
    controlInput E h pkt = ((synAckIn E h pkt).1, (synAckIn E h pkt).2, true) := by
  rw [controlInput, if_neg (not_not_intro hp.port), if_neg (Nat.not_lt_of_ge hp.long), hm]

/-- A `DYSCO_ACK` goes to its handler at the right anchor. -/
theorem controlInput_ack (hp : pkt.Enters) (hm : pkt.msg.mtype = .ack) (h : Host) :
    controlInput E h pkt = ((ackIn E h pkt).1, (ackIn E h pkt).2, true) := by
  rw [controlInput, if_neg (not_not_intro hp.port), if_neg (Nat.not_lt_of_ge hp.long), hm]

/-- The ports that `dysco_output` tells control packets by. -/
theorem ControlPacket.Handled.ports (hp : pkt.Handled E) : pkt.dest = dyscoControlPort ∨
    pkt.source = dyscoControlPort ∨ pkt.dest = dyscoMgmPort := by
  rcases hp.port with hd | hs
  · exact Or.inl hd
  · exact Or.inr (Or.inl hs)

/-- A `DYSCO_SYN` that leaves goes to `dysco_control_output_syn`. -/
theorem controlOutput_syn (hp : pkt.Handled E) (hm : pkt.msg.mtype = .syn) (h : Host) :
    controlOutput E h pkt = ((controlOutputSyn E h pkt).2.1, (controlOutputSyn E h pkt).2.2,
      (controlOutputSyn E h pkt).1) := by
  rw [controlOutput, if_neg (not_not_intro hp.ports), if_neg (Nat.not_lt_of_ge hp.long),
    if_neg (not_not_intro hp.local_addr), if_neg hp.not_mgm, hm]

/-- A `DYSCO_SYN_ACK` from the right anchor goes to `dysco_replace_cb_rightA`. -/
theorem controlOutput_synAck (hp : pkt.Handled E) (hm : pkt.msg.mtype = .synAck)
    (hright : pkt.saddr = pkt.msg.rightA) (h : Host) : controlOutput E h pkt =
      ((replaceCbRightA E h pkt).1, (replaceCbRightA E h pkt).2, true) := by
  rw [controlOutput, if_neg (not_not_intro hp.ports), if_neg (Nat.not_lt_of_ge hp.long),
    if_neg (not_not_intro hp.local_addr), if_neg hp.not_mgm, hm]
  exact if_pos hright

/-- A `DYSCO_ACK` that leaves goes to its handler. -/
theorem controlOutput_ack (hp : pkt.Handled E) (hm : pkt.msg.mtype = .ack) (h : Host) :
    controlOutput E h pkt = ((ackOut E h pkt).1, (ackOut E h pkt).2, true) := by
  rw [controlOutput, if_neg (not_not_intro hp.ports), if_neg (Nat.not_lt_of_ge hp.long),
    if_neg (not_not_intro hp.local_addr), if_neg hp.not_mgm, hm]

end Messages

end Dysco
