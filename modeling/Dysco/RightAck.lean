import Dysco.TransitionSystem
import Dysco.Translation

/-! # The ack test at the right anchor

While a session has two paths, a pure ack that covers the cutoff sends new data to the new
path.  `dysco_in_two_paths_ack` compares the number as it arrives, before
`dysco_in_rewrite_ack` translates it, with a cutoff kept in the numbers of the old path.
So the test agrees with the number that is delivered only if both lie on the same side of the
cutoff; and as the input block of the old path is not marked at the right anchor, an
ack on the old path decides nothing there (`ackAgrees_iff`).
-/
namespace Dysco
open TransitionSystem

variable {E : Env}

/-- The blocks of a session with two paths at the right anchor. -/
structure RightBlocks where
  oldOut : Nat
  newOut : Nat
  newIn : Nat
  oldIn : Nat
  rcb : Nat

/-! ## What packets leave alone -/

/-- The fields of the blocks that the ack test rests on, apart from the cutoff and the marks. -/
def CbOut.route (d : CbOut) : Option Nat × Bool × Bool := (d.otherPath, d.oldPath, d.stateT)
def CbIn.route (d : CbIn) : Option Nat × U32 × Bool := (d.dcbOut, d.ackDelta, d.ackAdd)

/-- The blocks have the same routes, and the reconfiguration blocks are untouched. -/
structure SameRoutes (h h' : Host) : Prop where
  out : ∀ x, (h'.outMem x).route = (h.outMem x).route
  inp : ∀ x, (h'.inMem x).route = (h.inMem x).route
  rcb : h'.rcbMem = h.rcbMem

namespace SameRoutes

theorem refl (h : Host) : SameRoutes h h := ⟨fun _ => rfl, fun _ => rfl, rfl⟩

theorem trans {h h' h'' : Host} (a : SameRoutes h h') (b : SameRoutes h' h'') :
    SameRoutes h h'' :=
  ⟨fun x => (b.out x).trans (a.out x), fun x => (b.inp x).trans (a.inp x), b.rcb.trans a.rcb⟩

theorem setOut {h : Host} {p : Nat} {d : CbOut} (hd : d.route = (h.outMem p).route) :
    SameRoutes h (h.setOut p d) := by
  refine ⟨fun x => ?_, fun _ => rfl, rfl⟩
  by_cases hx : x = p
  · rw [hx, Host.setOut_outMem_self, hd]
  · rw [Host.setOut_outMem_of_ne _ hx]

theorem setIn {h : Host} {q : Nat} {d : CbIn} (hd : d.route = (h.inMem q).route) :
    SameRoutes h (h.setIn q d) := by
  refine ⟨fun _ => rfl, fun x => ?_, rfl⟩
  by_cases hx : x = q
  · rw [hx, Host.setIn_inMem_self, hd]
  · rw [Host.setIn_inMem_of_ne _ hx]

end SameRoutes

theorem outTranslate_routes (h : Host) (skb : SkBuff) (p : Nat) :
    SameRoutes h (outTranslate E h skb p).1 := by
  obtain ⟨d, heq, hd⟩ := outTranslate_writes E h skb p
  rw [heq]
  apply SameRoutes.setOut
  rw [CbOut.route, hd.otherPath, hd.oldPath, hd.stateT]
  rfl

theorem inTwoPathsAck_routes (h : Host) (skb : SkBuff) (q : Nat) :
    SameRoutes h (inTwoPathsAck h skb q) := by
  have hswitch : ∀ x, SameRoutes h
      ((h.setOut x (h.outMem x).withUseNpSeq).setIn q ((h.inMem q).withTwoPaths false)) := by
    intro x
    have hout : SameRoutes h (h.setOut x (h.outMem x).withUseNpSeq) := SameRoutes.setOut rfl
    exact hout.trans (SameRoutes.setIn (h := h.setOut x (h.outMem x).withUseNpSeq) rfl)
  rw [inTwoPathsAck]
  simp only
  split
  · exact SameRoutes.refl h
  · split
    · split
      · split
        · exact SameRoutes.setIn rfl
        · exact SameRoutes.refl h
      · split
        · exact hswitch _
        · exact SameRoutes.refl h
    · split
      · exact SameRoutes.refl h
      · split
        · exact SameRoutes.setIn rfl
        · split
          · exact hswitch _
          · exact SameRoutes.refl h

theorem inTwoPathsDataSeg_routes (h : Host) (skb : SkBuff) (q : Nat) :
    SameRoutes h (inTwoPathsDataSeg h skb q).1 := by
  rw [inTwoPathsDataSeg]
  split
  · exact SameRoutes.refl h
  · simp only
    split
    · exact SameRoutes.refl h
    · split
      · exact SameRoutes.refl h
      · split
        · apply SameRoutes.setOut
          rw [CbOut.lowerAckCutoff]
          split
          · split <;> rfl
          · rfl
        · exact SameRoutes.refl h

theorem inputSegment_routes (h : Host) (skb : SkBuff) (q : Nat) :
    SameRoutes h (inputSegment h skb q).1 := by
  have hhost : (inputSegment h skb q).1 =
      if (h.inMem q).twoPaths then
        if 0#16 < skb.segSz then (inTwoPathsDataSeg h skb q).1 else inTwoPathsAck h skb q
      else h := by
    rw [inputSegment]
    by_cases htwo : (h.inMem q).twoPaths = true
    · by_cases hdata : 0#16 < skb.segSz
      · simp only [htwo, hdata, if_true]
        split <;> rfl
      · simp only [htwo, hdata, if_true, if_false]
    · simp only [htwo, Bool.false_eq_true, if_false, if_true]
  rw [hhost]
  split
  · split
    · exact inTwoPathsDataSeg_routes h skb q
    · exact inTwoPathsAck_routes h skb q
  · exact SameRoutes.refl h

theorem ackIn_routes (h : Host) (pkt : ControlPacket) : SameRoutes h (ackIn E h pkt).1 := by
  rw [ackIn]
  split
  · exact SameRoutes.refl h
  · split
    · split
      · exact SameRoutes.refl h
      · simp only
        split
        · exact SameRoutes.refl h
        · split
          · exact SameRoutes.refl h
          · split
            · exact SameRoutes.refl h
            · exact SameRoutes.setOut rfl
    · exact SameRoutes.refl h

/-! ## The state with two paths -/

/-- What the right anchor's blocks keep while a session has two paths: the new path's input
block translates ack numbers by `d`, and leads to the old path's output block. -/
structure TwoPathsAtRight (b : RightBlocks) (d : U32) (h : Host) : Prop where
  new_in : (h.inMem b.newIn).dcbOut = some b.newOut
  new_shift : ∀ x, shift (h.inMem b.newIn).ackDelta (h.inMem b.newIn).ackAdd x = x + d
  new_out : (h.outMem b.newOut).otherPath = some b.oldOut
  new_path : (h.outMem b.newOut).oldPath = false
  old_out : (h.outMem b.oldOut).stateT = false
  old_in : (h.inMem b.oldIn).dcbOut = some b.oldOut
  old_rcb : (h.rcbMem b.rcb).oldDcb = some b.oldOut
  new_rcb : (h.rcbMem b.rcb).newDcb = some b.newOut
  ne : b.oldOut ≠ b.newOut

theorem TwoPathsAtRight.of_routes {b : RightBlocks} {d : U32} {h h' : Host}
    (ht : TwoPathsAtRight b d h) (hs : SameRoutes h h') : TwoPathsAtRight b d h' := by
  have hnewIn := hs.inp b.newIn
  have hnewOut := hs.out b.newOut
  simp only [CbIn.route, CbOut.route, Prod.mk.injEq] at hnewIn hnewOut
  refine ⟨?_, ?_, ?_, ?_, ?_, ?_, ?_, ?_, ht.ne⟩
  · rw [hnewIn.1, ht.new_in]
  · rw [hnewIn.2.1, hnewIn.2.2]
    exact ht.new_shift
  · rw [hnewOut.1, ht.new_out]
  · rw [hnewOut.2.1, ht.new_path]
  · exact (congrArg (fun r => r.2.2) (hs.out b.oldOut)).trans ht.old_out
  · exact (congrArg Prod.fst (hs.inp b.oldIn)).trans ht.old_in
  · rw [hs.rcb, ht.old_rcb]
  · rw [hs.rcb, ht.new_rcb]

/-- What happens to a session with two paths. -/
inductive RightEvent where
  /-- A segment of the session leaves the host. -/
  | segmentOut (skb : SkBuff)
  /-- A segment arrives on the new path. -/
  | segmentNew (skb : SkBuff)
  /-- A segment arrives on the old path. -/
  | segmentOld (skb : SkBuff)
  /-- The `DYSCO_SYN_ACK` leaves the host, for the first time or again. -/
  | synAckLeaves (pkt : ControlPacket)
  /-- The `DYSCO_ACK` arrives, for the first time or again. -/
  | ackArrives (pkt : ControlPacket)
  /-- Something else happens on the host, to other blocks. -/
  | elsewhere

/-- The right anchor from the `DYSCO_SYN` on, which left it in state `h₁`. -/
def rightSystem (E : Env) (b : RightBlocks) (h₁ : Host) : TransitionSystem Host RightEvent where
  init h := h = h₁
  step h l h' :=
    match l with
    | .segmentOut skb => h' = (outTranslate E h skb b.oldOut).1
    | .segmentNew skb => h' = (inputSegment h skb b.newIn).1
    | .segmentOld skb => h' = (inputSegment h skb b.oldIn).1
    | .synAckLeaves pkt =>
      h.lookupReconfig E pkt.msg.super = some b.rcb ∧ h' = (replaceCbRightA E h pkt).1
    | .ackArrives pkt =>
      h.lookupReconfig E pkt.msg.super = some b.rcb ∧ h' = (ackIn E h pkt).1
    | .elsewhere =>
      h'.outMem b.oldOut = h.outMem b.oldOut ∧ h'.outMem b.newOut = h.outMem b.newOut ∧
      h'.inMem b.newIn = h.inMem b.newIn ∧ h'.inMem b.oldIn = h.inMem b.oldIn ∧
      h'.rcbMem b.rcb = h.rcbMem b.rcb

/-- The switch of the old path's block does not touch what the ack test rests on. -/
theorem TwoPathsAtRight.synAckLeaves {b : RightBlocks} {d : U32} {h : Host}
    (ht : TwoPathsAtRight b d h) {pkt : ControlPacket}
    (hr : h.lookupReconfig E pkt.msg.super = some b.rcb) :
    TwoPathsAtRight b d (replaceCbRightA E h pkt).1 := by
  rw [replaceCbRightA, hr]
  simp only [ht.old_rcb, ht.new_rcb]
  refine ⟨ht.new_in, ht.new_shift, ?_, ?_, ?_, ht.old_in, ht.old_rcb, ht.new_rcb, ht.ne⟩
  · rw [Host.setOut_outMem_of_ne _ ht.ne.symm]
    exact ht.new_out
  · rw [Host.setOut_outMem_of_ne _ ht.ne.symm]
    exact ht.new_path
  · rw [Host.setOut_outMem_self]
    exact ht.old_out

/-- **One step keeps it.** -/
theorem TwoPathsAtRight.step {b : RightBlocks} {d : U32} {h h' h₁ : Host} {l : RightEvent}
    (ht : TwoPathsAtRight b d h) (hstep : (rightSystem E b h₁).step h l h') :
    TwoPathsAtRight b d h' := by
  cases l with
  | segmentOut skb =>
    rw [show h' = _ from hstep]
    exact ht.of_routes (outTranslate_routes h skb b.oldOut)
  | segmentNew skb =>
    rw [show h' = _ from hstep]
    exact ht.of_routes (inputSegment_routes h skb b.newIn)
  | segmentOld skb =>
    rw [show h' = _ from hstep]
    exact ht.of_routes (inputSegment_routes h skb b.oldIn)
  | synAckLeaves pkt =>
    obtain ⟨hr, rfl⟩ := hstep
    exact ht.synAckLeaves hr
  | ackArrives pkt =>
    obtain ⟨-, rfl⟩ := hstep
    exact ht.of_routes (ackIn_routes h pkt)
  | elsewhere =>
    obtain ⟨hold, hnew, hnewIn, holdIn, hrcb⟩ := hstep
    refine ⟨?_, ?_, ?_, ?_, ?_, ?_, ?_, ?_, ht.ne⟩
    · rw [hnewIn, ht.new_in]
    · rw [hnewIn]
      exact ht.new_shift
    · rw [hnew, ht.new_out]
    · rw [hnew, ht.new_path]
    · rw [hold, ht.old_out]
    · rw [holdIn, ht.old_in]
    · rw [hrcb, ht.old_rcb]
    · rw [hrcb, ht.new_rcb]

/-- **A `DYSCO_SYN` without state transfer enters the state with two paths.** -/
theorem RightConfigured.twoPaths {h h' : Host} {pkt : ControlPacket} {old r q p i : Nat}
    (C : RightConfigured E h h' pkt old r q p) (hwf : h.WF) (hplain : ¬ pkt.msg.WithState)
    (hstateT : (h.outMem old).stateT = false) (hdcbIn : (h.outMem old).dcbIn = some i)
    (hback : (h.inMem i).dcbOut = some old) :
    TwoPathsAtRight ⟨old, p, q, i, r⟩ ((h.outMem old).inIseq - ntohl pkt.msg.leftIack) h' := by
  have hmem := (h.lookupOut_eq_some C.old_lookup).1
  have hold := hwf.out_lt old hmem
  have hi := hwf.dcbIn_lt old i hmem hdcbIn
  have hp := C.p_eq
  have hq := C.q_eq
  have hne : i ≠ q := by omega
  refine ⟨?_, fun x => ?_, ?_, ?_, ?_, ?_, ?_, ?_, by simp only; omega⟩
  · rw [C.new_in, CbIn.withTwoPaths, computeDeltasIn]
    simp only
    split <;> split <;> rfl
  · rw [C.new_in]
    exact computeDeltasIn_shift_ack _ _ _ _ x
  · rw [C.new_out]
    rfl
  · rw [C.new_out, CbOut.withOtherPath, computeDeltasOut]
    simp only
    split <;> split <;> rfl
  · rw [C.old_block, if_neg hplain, hstateT]
  · rw [C.in_ne i hne, hback]
  · rw [C.rcb]
  · rw [C.rcb]

/-! ## The decision -/

/-- An ack that arrives at block `x` makes new data take the new path: the mark of the block is
cleared and `use_np_seq` is set. -/
def Decides (b : RightBlocks) (h : Host) (skb : SkBuff) (x : Nat) : Prop :=
  (h.inMem x).twoPaths = true ∧ ((inputSegment h skb x).1.inMem x).twoPaths = false ∧
    ((inputSegment h skb x).1.outMem b.oldOut).useNpSeq = true

/-- The ack number that a segment which arrives at block `x` delivers to the local TCP. -/
def delivered (h : Host) (skb : SkBuff) (x : Nat) : U32 :=
  ntohl (inRewriteAck skb (h.inMem x)).ackSeq

/-- The number lies at or beyond the cutoff of the old path. -/
def Reaches (b : RightBlocks) (h : Host) (ack : U32) : Prop :=
  after (h.outMem b.oldOut).seqCutoff ack = false

instance (b : RightBlocks) (h : Host) (ack : U32) : Decidable (Reaches b h ack) :=
  inferInstanceAs (Decidable (_ = _))

/-- A pure ack of a session with two paths only goes through the test. -/
theorem inputSegment_ack {h : Host} {skb : SkBuff} (hpure : skb.segSz = 0#16) (x : Nat) :
    (inputSegment h skb x).1 = if (h.inMem x).twoPaths then inTwoPathsAck h skb x else h := by
  have hdata : ¬ 0#16 < skb.segSz := by
    rw [hpure]
    decide
  rw [inputSegment]
  by_cases htwo : (h.inMem x).twoPaths = true
  · simp only [htwo, hdata, if_true, if_false]
  · simp only [htwo, Bool.false_eq_true, if_false, if_true]

/-- The test on the new path looks at the number as it arrives. -/
theorem TwoPathsAtRight.decides_new {b : RightBlocks} {d : U32} {h : Host} {skb : SkBuff}
    (ht : TwoPathsAtRight b d h) (hpure : skb.segSz = 0#16)
    (htwo : (h.inMem b.newIn).twoPaths = true) :
    Decides b h skb b.newIn ↔ Reaches b h (ntohl skb.ackSeq) := by
  rw [Decides, inputSegment_ack hpure, if_pos htwo, inTwoPathsAck, Reaches]
  simp only [ht.new_in, ht.new_path, ht.new_out, ht.old_out, Bool.false_eq_true, if_false,
    false_and]
  cases hafter : after (h.outMem b.oldOut).seqCutoff (ntohl skb.ackSeq) with
  | false =>
    simp only [Bool.not_false, if_true, Host.setIn_inMem_self, Host.setIn_outMem,
      Host.setOut_outMem_self, htwo, true_and, iff_true]
    exact ⟨rfl, rfl⟩
  | true => simp only [Bool.not_true, Bool.false_eq_true, if_false, htwo, Bool.true_eq_false,
      false_and, and_false]

/-- So does the test on the old path, if the block of the old path is marked. -/
theorem TwoPathsAtRight.decides_old {b : RightBlocks} {d : U32} {h : Host} {skb : SkBuff}
    (ht : TwoPathsAtRight b d h) (hpure : skb.segSz = 0#16)
    (hold : (h.outMem b.oldOut).oldPath = true) :
    Decides b h skb b.oldIn ↔
      (h.inMem b.oldIn).twoPaths = true ∧ Reaches b h (ntohl skb.ackSeq) := by
  rw [Decides]
  apply and_congr_right
  intro htwo
  rw [inputSegment_ack hpure, if_pos htwo, inTwoPathsAck, Reaches]
  simp only [ht.old_in, hold, ht.old_out, Bool.false_eq_true, if_false, if_true]
  cases hafter : after (h.outMem b.oldOut).seqCutoff (ntohl skb.ackSeq) with
  | false =>
    simp only [Bool.not_false, if_true, Host.setIn_inMem_self, Host.setIn_outMem,
      Host.setOut_outMem_self, iff_true]
    exact ⟨rfl, rfl⟩
  | true => simp only [Bool.not_true, Bool.false_eq_true, if_false, htwo, Bool.true_eq_false,
      false_and]

theorem TwoPathsAtRight.delivered_new {b : RightBlocks} {d : U32} {h : Host}
    (ht : TwoPathsAtRight b d h) (skb : SkBuff) :
    delivered h skb b.newIn = ntohl skb.ackSeq + d := by
  rw [delivered, inRewriteAck, rewriteAck_ackSeq, ntohl_htonl, ht.new_shift]

/-- An ack that arrives on the new path decides as the number it delivers says, and an ack with
the same information that arrives on the old path decides alike. -/
structure AckAgrees (b : RightBlocks) (h : Host) (skb skb' : SkBuff) : Prop where
  delivered : Decides b h skb b.newIn ↔ Reaches b h (delivered h skb b.newIn)
  onOldPath : Decides b h skb' b.oldIn ↔ Decides b h skb b.newIn

/-- The numbers of one ack, as they arrive on either path and as they are delivered, lie on one
side of the cutoff; and if that is beyond it, the old path's input block is marked. -/
def OneSide (b : RightBlocks) (h : Host) (skb skb' : SkBuff) (d : U32) : Prop :=
  (Reaches b h (ntohl skb.ackSeq) ↔ Reaches b h (ntohl skb.ackSeq + d)) ∧
    (if Reaches b h (ntohl skb.ackSeq) then
      (h.inMem b.oldIn).twoPaths = true ∧ Reaches b h (ntohl skb'.ackSeq)
    else (h.inMem b.oldIn).twoPaths = false ∨ ¬ Reaches b h (ntohl skb'.ackSeq))

theorem TwoPathsAtRight.ackAgrees_iff {b : RightBlocks} {d : U32} {h : Host} {skb skb' : SkBuff}
    (ht : TwoPathsAtRight b d h) (hold : (h.outMem b.oldOut).oldPath = true)
    (htwo : (h.inMem b.newIn).twoPaths = true) (hpure : skb.segSz = 0#16)
    (hpure' : skb'.segSz = 0#16) : AckAgrees b h skb skb' ↔ OneSide b h skb skb' d := by
  have hnew := ht.decides_new hpure htwo
  have hdelivered := ht.delivered_new skb
  have hold := ht.decides_old hpure' hold
  have hsplit : AckAgrees b h skb skb' ↔
      (Decides b h skb b.newIn ↔ Reaches b h (Dysco.delivered h skb b.newIn)) ∧
        (Decides b h skb' b.oldIn ↔ Decides b h skb b.newIn) :=
    ⟨fun ha => ⟨ha.delivered, ha.onOldPath⟩, fun ha => ⟨ha.1, ha.2⟩⟩
  rw [hsplit, hnew, hold, hdelivered, OneSide]
  apply and_congr_right
  intro _
  by_cases hreach : Reaches b h (ntohl skb.ackSeq)
  · rw [if_pos hreach]
    exact iff_true_right hreach
  · rw [if_neg hreach, iff_false_right hreach, not_and_or, Bool.not_eq_true]

/-- **The ack test at the right anchor agrees with what is delivered exactly when** the numbers of
the ack lie on one side of the cutoff, in every state with two paths. -/
theorem rightA_ack_iff {h₀ h₁ : Host} {pkt : ControlPacket} (hwf : h₀.WF)
    (hnone : h₀.lookupReconfig E pkt.msg.super = none) (hright : pkt.daddr = pkt.msg.rightA)
    (hplain : ¬ pkt.msg.WithState)
    (hsession : ∀ old, h₀.lookupOut E pkt.msg.rightSS.reverse = some old →
      (h₀.outMem old).stateT = false ∧
        ∃ i, (h₀.outMem old).dcbIn = some i ∧ (h₀.inMem i).dcbOut = some old)
    (hok : synIn E h₀ pkt = (true, h₁)) :
    ∃ b : RightBlocks, RightConfigured E h₀ h₁ pkt b.oldOut b.rcb b.newIn b.newOut ∧
      (h₀.outMem b.oldOut).dcbIn = some b.oldIn ∧
      ∀ h, (rightSystem E b h₁).Reachable h →
        (h.outMem b.oldOut).oldPath = true → (h.inMem b.newIn).twoPaths = true →
        ∀ skb skb', skb.segSz = 0#16 → skb'.segSz = 0#16 →
          delivered h skb' b.oldIn = delivered h skb b.newIn →
          (AckAgrees b h skb skb' ↔
            OneSide b h skb skb' ((h₀.outMem b.oldOut).inIseq - ntohl pkt.msg.leftIack)) := by
  obtain ⟨old, r, q, p, C⟩ := synIn_rightA hwf hnone hright hok
  obtain ⟨hstateT, i, hdcbIn, hback⟩ := hsession old C.old_lookup
  refine ⟨⟨old, p, q, i, r⟩, C, hdcbIn, ?_⟩
  intro h hreach hold htwo skb skb' hpure hpure' _
  have hinit : ∀ s, (rightSystem E ⟨old, p, q, i, r⟩ h₁).init s →
      TwoPathsAtRight ⟨old, p, q, i, r⟩ ((h₀.outMem old).inIseq - ntohl pkt.msg.leftIack) s := by
    rintro s rfl
    exact C.twoPaths hwf hplain hstateT hdcbIn hback
  have ht := hreach.invariant hinit fun _ _ _ hs hstep => hs.step hstep
  exact ht.ackAgrees_iff hold htwo hpure hpure'

/-- A host with one session, whose blocks are at addresses 0 and 1. -/
def ackHost : Host :=
  { Host.fresh with
    brk := 2
    outMem := Function.update default 0
      { (default : CbOut) with dcbIn := some 1, inIseq := 7#32, seqCutoff := 1#32 }
    inMem := Function.update default 1 { (default : CbIn) with dcbOut := some 0 }
    hashOut := ⟨[(0, 0)]⟩
    hashIn := ⟨[(0, 1)]⟩ }

/-- A `DYSCO_SYN` for that session, from a left session with the initial number `iack`. -/
def synFrom (iack : U32) : ControlPacket :=
  { (default : ControlPacket) with msg.leftIack := htonl iack }

/-- The host once the `DYSCO_SYN` has arrived, and once the answer has left. -/
def ackHostSyn (iack : U32) : Host := (synIn default ackHost (synFrom iack)).2
def ackHostTwo (iack : U32) : Host :=
  (replaceCbRightA default (ackHostSyn iack) (synFrom iack)).1

/-- A pure ack with number `ack`. -/
def pureAck (ack : U32) : SkBuff :=
  { (default : SkBuff) with ackSeq := htonl ack, doff := 5#4, totLen := htons 40#16 }

theorem ackHost_wf : ackHost.WF := by
  constructor
  · rintro p ⟨b, hb⟩
    cases List.mem_singleton.mp hb
    exact Nat.zero_lt_two
  · rintro q ⟨b, hb⟩
    cases List.mem_singleton.mp hb
    exact Nat.one_lt_two
  · rintro r ⟨b, hb⟩
    cases hb
  · rintro p q ⟨b, hb⟩ hq
    cases List.mem_singleton.mp hb
    cases hq
    exact Nat.one_lt_two

theorem ackHost_session (iack : U32) : ∀ old,
    ackHost.lookupOut default (synFrom iack).msg.rightSS.reverse = some old →
      (ackHost.outMem old).stateT = false ∧
        ∃ i, (ackHost.outMem old).dcbIn = some i ∧ (ackHost.inMem i).dcbOut = some old := by
  intro old hold
  cases hold
  exact ⟨rfl, 1, rfl, rfl⟩

/-- The blocks of that session and of its new path. -/
def ackBlocks : RightBlocks := ⟨0, 4, 3, 1, 2⟩

/-- Once the answer has left, the session has two paths. -/
theorem ackHostTwo_reachable {iack : U32}
    (hfiled : (ackHostSyn iack).lookupReconfig default (synFrom iack).msg.super = some 2) :
    (rightSystem default ackBlocks (ackHostSyn iack)).Reachable (ackHostTwo iack) :=
  (Reachable.of_init rfl).tail (l := RightEvent.synAckLeaves (synFrom iack)) ⟨hfiled, rfl⟩

/-- Equal initial numbers, and an ack of nothing. -/
theorem rightA_ack_zero : ∃ b : RightBlocks,
    AckAgrees b (ackHostTwo 7#32) (pureAck 0#32) (pureAck 0#32) := by
  have hok : synIn default ackHost (synFrom 7#32) = (true, ackHostSyn 7#32) :=
    Prod.ext (by decide +kernel) rfl
  obtain ⟨b, C, hin, hall⟩ := rightA_ack_iff (E := default) ackHost_wf (by decide +kernel)
    (by decide) (by decide) (ackHost_session 7#32) hok
  have hold : b.oldOut = 0 := Option.some.inj (C.old_lookup.symm.trans (by decide +kernel))
  have hrcb : b.rcb = 2 := C.r_eq
  have hnewIn : b.newIn = 3 := C.q_eq
  have hnewOut : b.newOut = 4 := C.p_eq
  have holdIn : b.oldIn = 1 := by
    rw [hold] at hin
    exact (Option.some.inj hin).symm
  have hb : b = ackBlocks := by
    obtain ⟨_, _, _, _, _⟩ := b
    cases hold
    cases hrcb
    cases hnewIn
    cases hnewOut
    cases holdIn
    rfl
  subst hb
  refine ⟨ackBlocks, (hall _ (ackHostTwo_reachable (by decide +kernel)) (by decide +kernel)
    (by decide +kernel) (pureAck 0#32) (pureAck 0#32) (by decide) (by decide)
    (by decide +kernel)).mpr ⟨?_, ?_⟩⟩
  · decide +kernel
  · decide +kernel

/-- The initial numbers differ by two, the cutoff is one: an ack that arrives as 0 is delivered as
2, and data stays on the old path. -/
theorem not_ackAgrees : ¬ ∀ (h₀ h₁ : Host) (pkt : ControlPacket) (b : RightBlocks),
    h₀.WF → pkt.daddr = pkt.msg.rightA → ¬ pkt.msg.WithState →
    synIn default h₀ pkt = (true, h₁) →
    RightConfigured default h₀ h₁ pkt b.oldOut b.rcb b.newIn b.newOut →
    (h₀.outMem b.oldOut).dcbIn = some b.oldIn →
    ∀ h, (rightSystem default b h₁).Reachable h →
      (h.outMem b.oldOut).oldPath = true → (h.inMem b.newIn).twoPaths = true →
      ∀ skb skb', skb.segSz = 0#16 → skb'.segSz = 0#16 →
        delivered h skb' b.oldIn = delivered h skb b.newIn → AckAgrees b h skb skb' := by
  intro hclaim
  have hok : synIn default ackHost (synFrom 5#32) = (true, ackHostSyn 5#32) :=
    Prod.ext (by decide +kernel) rfl
  obtain ⟨old, r, q, p, C⟩ := synIn_rightA ackHost_wf (by decide +kernel) (by decide) hok
  have hold : old = 0 := Option.some.inj (C.old_lookup.symm.trans (by decide +kernel))
  have hrcb : r = 2 := C.r_eq
  have hnewIn : q = 3 := C.q_eq
  have hnewOut : p = 4 := C.p_eq
  subst hold hrcb hnewIn hnewOut
  have hagree := hclaim ackHost (ackHostSyn 5#32) (synFrom 5#32) ackBlocks ackHost_wf (by decide)
    (by decide) hok C rfl _ (ackHostTwo_reachable (by decide +kernel)) (by decide +kernel)
    (by decide +kernel) (pureAck 0#32) (pureAck 2#32) (by decide) (by decide) (by decide +kernel)
  have hreach : Reaches ackBlocks (ackHostTwo 5#32)
      (delivered (ackHostTwo 5#32) (pureAck 0#32) ackBlocks.newIn) := by decide +kernel
  have hdecides := (hagree.delivered.mpr hreach).2.1
  revert hdecides
  decide +kernel

end Dysco
