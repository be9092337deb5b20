import Dysco.Rewriting
import Dysco.RightAnchor

/-! # Window scales at the right anchor

A TCP announces its window scale in its SYN or SYN+ACK; the scales are in force only if
both carried the option.  The right anchor rewrites the window of segments on the new
path from the scale of the sender to the scale that the receiver learned.

Each direction shifts left by one recorded scale and right by another, or not at all
(`window_outRewrite`, `window_inRewrite`).  The two shifts give the byte window for every
segment exactly when their difference is the one that was negotiated and does not
enlarge the field (`shifts_eq_iff`), which is what `rightA_window_iff` says of both
directions.
-/
namespace Dysco
open OnesComplement ByteOrder

variable {E : Env}

/-! ## What the parsers record -/

/-- An option that announces a window scale. -/
def TcpOption.IsWindow (o : TcpOption) : Prop := o.kind = tcpoptWindow ∧ o.size = 3

instance (o : TcpOption) : Decidable o.IsWindow := inferInstanceAs (Decidable (_ ∧ _))

/-- The scale a SYN or SYN+ACK announces; the last option counts. -/
def SkBuff.windowScale (skb : SkBuff) : Option U16 :=
  (skb.options.filter fun o => decide o.IsWindow).getLast?.map fun o => skb.wscale o.ptr

/-- The parser cuts window scales down to fourteen. -/
theorem SkBuff.wscale_le (skb : SkBuff) (k : Nat) : (skb.wscale k).toNat ≤ 14 := by
  unfold wscale
  simp only
  split
  · decide
  · rename_i hle
    rw [BitVec.toNat_setWidth]
    have hb := (byteAt skb.data k).isLt
    rw [BitVec.lt_def] at hle
    have h14 : (14#8).toNat = 14 := rfl
    omega

theorem SkBuff.windowScale_le {skb : SkBuff} {s : U16} (h : skb.windowScale = some s) :
    s.toNat ≤ 14 := by
  obtain ⟨o, -, rfl⟩ := Option.map_eq_some_iff.mp h
  exact skb.wscale_le _

/-- A loop over the options that sets the scale at every window option keeps the last. -/
theorem foldl_scale {D : Type} {f : D → TcpOption → D} {ws : D → U16} {g : TcpOption → U16}
    (hf : ∀ d o, ws (f d o) = if o.IsWindow then g o else ws d) (os : List TcpOption) (d : D) :
    ws (os.foldl f d) =
      ((os.filter fun o => decide o.IsWindow).getLast?.map g).getD (ws d) := by
  induction os generalizing d with
  | nil => rfl
  | cons o os ih =>
    rw [List.foldl_cons, ih, hf]
    by_cases ho : o.IsWindow
    · rw [if_pos ho, List.filter_cons_of_pos (by simpa using ho), List.getLast?_cons]
      cases (os.filter fun o => decide o.IsWindow).getLast? <;> rfl
    · rw [if_neg ho, List.filter_cons_of_neg (by simpa using ho)]

/-- The scale of a SYN that leaves is recorded, if it has one. -/
theorem wsIn_parseTcpSynOptS (skb : SkBuff) (d : CbOut) :
    (parseTcpSynOptS skb d).wsIn = skb.windowScale.getD d.wsIn := by
  have hf : ∀ (d : CbOut) (o : TcpOption),
      (parseOptS skb d o).wsIn = if o.IsWindow then skb.wscale o.ptr else d.wsIn := by
    intro d o
    unfold parseOptS TcpOption.IsWindow
    by_cases hk : o.kind = tcpoptWindow
    · by_cases hs : o.size = 3 <;> simp [hk, hs]
    · simp only [hk, false_and, if_false]
      repeat' split
      all_goals rfl
  exact foldl_scale hf skb.options { d with sackOk := false }

theorem wsIn_parseTcpSynOptR (skb : SkBuff) (d : CbIn) :
    (parseTcpSynOptR skb d).wsIn = skb.windowScale.getD d.wsIn := by
  have hf : ∀ (d : CbIn) (o : TcpOption),
      (parseOptR skb d o).wsIn = if o.IsWindow then skb.wscale o.ptr else d.wsIn := by
    intro d o
    unfold parseOptR TcpOption.IsWindow
    by_cases hk : o.kind = tcpoptWindow
    · by_cases hs : o.size = 3 <;> simp [hk, hs]
    · simp only [hk, false_and, if_false]
      repeat' split
      all_goals rfl
  exact foldl_scale hf skb.options { d with sackOk := false }

/-- The blocks of a session as the parsers left their scales: the output block from the
SYN or SYN+ACK `own` that left the host, the input block from the one, `peer`, that
arrived.  Both started from zero, or the input block was made from the output block. -/
structure ScalesRecorded (own peer : SkBuff) (i : CbIn) (o : CbOut) : Prop where
  out : ∃ o0 : CbOut, o0.wsIn = 0#16 ∧ o.wsIn = (parseTcpSynOptS own o0).wsIn
  inp : ∃ i0 : CbIn, (i0.wsIn = 0#16 ∨ i0.wsIn = o.wsIn) ∧ i.wsIn = (parseTcpSynOptR peer i0).wsIn

/-- The scale in force for the windows that the sender of `own` announces. -/
def negotiated (own peer : SkBuff) : Nat :=
  match own.windowScale, peer.windowScale with
  | some s, some _ => s.toNat
  | _, _ => 0

/-- The scale that both sides agree on is one that they may offer. -/
theorem negotiated_le (own peer : SkBuff) : negotiated own peer ≤ 14 := by
  unfold negotiated
  split
  · rename_i s _ h _
    exact SkBuff.windowScale_le h
  · exact Nat.zero_le _

theorem getD_windowScale_le (skb : SkBuff) {d : U16} (hd : d.toNat ≤ 14) :
    (skb.windowScale.getD d).toNat ≤ 14 := by
  cases h : skb.windowScale with
  | none => exact hd
  | some s => exact SkBuff.windowScale_le h

/-- Recorded scales stay in their range. -/
theorem ScalesRecorded.out_le {own peer : SkBuff} {i : CbIn} {o : CbOut}
    (h : ScalesRecorded own peer i o) : o.wsIn.toNat ≤ 14 := by
  obtain ⟨o0, h0, ho⟩ := h.out
  rw [ho, wsIn_parseTcpSynOptS]
  exact getD_windowScale_le own (by rw [h0]; decide)

theorem ScalesRecorded.inp_le {own peer : SkBuff} {i : CbIn} {o : CbOut}
    (h : ScalesRecorded own peer i o) : i.wsIn.toNat ≤ 14 := by
  obtain ⟨i0, h0, hi⟩ := h.inp
  rw [hi, wsIn_parseTcpSynOptR]
  apply getD_windowScale_le
  rcases h0 with h0 | h0
  · rw [h0]
    decide
  · rw [h0]
    exact h.out_le

/-! ## Two shifts -/

/-- What shifting left by `a` and right by `c` and keeping 16 bits does to a field. -/
def shifts (a c f : Nat) : Nat := f * 2 ^ a / 2 ^ c % 65536

/-- The field that stands for the byte window, for a sender with scale `own` and a
receiver that learned `peer`. -/
def windowField (own peer f : Nat) : Nat := min 65535 (f * 2 ^ own / 2 ^ peer)

/-- Scaling up and then down by more is scaling down by the difference. -/
theorem mul_pow_div_pow_of_le {a c : Nat} (h : a ≤ c) (f : Nat) :
    f * 2 ^ a / 2 ^ c = f / 2 ^ (c - a) := by
  obtain ⟨k, rfl⟩ := Nat.exists_eq_add_of_le h
  rw [Nat.add_sub_cancel_left, Nat.pow_add, Nat.mul_comm (2 ^ a),
    Nat.mul_div_mul_right _ _ (Nat.two_pow_pos a)]

/-- By less, it is scaling up by the difference. -/
theorem mul_pow_div_pow_of_ge {a c : Nat} (h : c ≤ a) (f : Nat) :
    f * 2 ^ a / 2 ^ c = f * 2 ^ (a - c) := by
  obtain ⟨k, rfl⟩ := Nat.exists_eq_add_of_le h
  rw [Nat.add_sub_cancel_left, Nat.pow_add, Nat.mul_comm (2 ^ c), ← Nat.mul_assoc,
    Nat.mul_div_cancel _ (Nat.two_pow_pos c)]

/-- **Two shifts keep the byte window of every field** exactly when they shift to the
right by what the scales differ. -/
theorem shifts_eq_iff {a c own peer : Nat} (ha : a ≤ 14) (hown : own ≤ 14) (hpeer : peer ≤ 14)
    (hc : c ≤ 14) :
    (∀ f < 65536, shifts a c f = windowField own peer f) ↔ own ≤ peer ∧ peer + a = c + own := by
  unfold shifts windowField
  constructor
  · intro h
    have h1 := h 1 (by decide)
    have htop := h 65535 (by decide)
    have hmid := h (2 ^ 14) (by decide)
    have hop : own ≤ peer := by
      by_contra hlt
      have hpow : 2 ^ 1 ≤ 2 ^ (own - peer) := Nat.pow_le_pow_right (by decide) (by omega)
      have hpow' : 2 ^ (own - peer) ≤ 2 ^ 14 := Nat.pow_le_pow_right (by decide) (by omega)
      rw [mul_pow_div_pow_of_ge (a := own) (by omega)] at h1 htop
      generalize 2 ^ (own - peer) = x at *
      by_cases hac : c ≤ a
      · rw [mul_pow_div_pow_of_ge hac] at h1 htop
        have hpa : 2 ^ (a - c) ≤ 2 ^ 14 := Nat.pow_le_pow_right (by decide) (by omega)
        generalize 2 ^ (a - c) = y at *
        omega
      · rw [mul_pow_div_pow_of_le (a := a) (by omega)] at h1
        have hle : 1 / 2 ^ (c - a) ≤ 1 := Nat.div_le_self _ _
        generalize 1 / 2 ^ (c - a) = y at *
        omega
    have hac : a ≤ c := by
      by_contra hlt
      have hpow : 2 ^ 1 ≤ 2 ^ (a - c) := Nat.pow_le_pow_right (by decide) (by omega)
      have hpow' : 2 ^ (a - c) ≤ 2 ^ 14 := Nat.pow_le_pow_right (by decide) (by omega)
      rw [mul_pow_div_pow_of_le hop, mul_pow_div_pow_of_ge (a := a) (by omega)] at h1
      have hle : 1 / 2 ^ (peer - own) ≤ 1 := Nat.div_le_self _ _
      generalize 1 / 2 ^ (peer - own) = x at *
      generalize 2 ^ (a - c) = y at *
      omega
    refine ⟨hop, ?_⟩
    rw [mul_pow_div_pow_of_le hop, mul_pow_div_pow_of_le hac, Nat.pow_div (by omega) (by decide),
      Nat.pow_div (by omega) (by decide)] at hmid
    have hl : 2 ^ (14 - (c - a)) ≤ 2 ^ 14 := Nat.pow_le_pow_right (by decide) (by omega)
    have hr : 2 ^ (14 - (peer - own)) ≤ 2 ^ 14 := Nat.pow_le_pow_right (by decide) (by omega)
    have heq : 2 ^ (14 - (c - a)) = 2 ^ (14 - (peer - own)) := by
      generalize 2 ^ (14 - (c - a)) = x at *
      generalize 2 ^ (14 - (peer - own)) = y at *
      omega
    have := Nat.pow_right_injective (Nat.le_refl 2) heq
    omega
  · rintro ⟨hop, heq⟩ f hf
    have hac : a ≤ c := by omega
    rw [mul_pow_div_pow_of_le hop, mul_pow_div_pow_of_le hac,
      show c - a = peer - own from by omega]
    have hle : f / 2 ^ (peer - own) ≤ f := Nat.div_le_self _ _
    generalize f / 2 ^ (peer - own) = x at *
    omega

/-! ## The window of a translated segment -/

/-- Writing to the options leaves the window. -/
theorem window_replaceWord (skb : SkBuff) (k : Nat) (f : U32 → U32) :
    (skb.replaceWord k f).window = skb.window := by
  rw [SkBuff.replaceWord, SkBuff.store]
  simp only [dyscoInetProtoCsumReplace4_window]

theorem window_replaceWords (skb : SkBuff) (ks : List Nat) (f : U32 → U32) :
    (skb.replaceWords ks f).window = skb.window := by
  induction ks generalizing skb with
  | nil => rfl
  | cons k ks ih => rw [replaceWords_cons, ih, window_replaceWord]

/-- Only the window translation touches the window. -/
theorem window_rewriteWith (skb : SkBuff) (d : Deltas) :
    ∃ s : SkBuff, s.window = skb.window ∧ rewriteWith skb d =
      if d.wsOk then rewriteRcvWnd s d.wsDelta d.wsIn d.wsOut else s := by
  refine ⟨_, ?_, rfl⟩
  have hseq : (rewriteSeq skb d.seqDelta d.seqAdd).window = skb.window := by
    unfold rewriteSeq
    split
    · rfl
    · simp only [dyscoInetProtoCsumReplace4_window]
  generalize rewriteSeq skb d.seqDelta d.seqAdd = s1 at *
  have hack : (rewriteAck s1 d.ackDelta d.ackAdd d.sackOk).window = s1.window := by
    unfold rewriteAck
    split
    · rfl
    · cases d.sackOk with
      | false => simp only [dyscoInetProtoCsumReplace4_window, Bool.false_eq_true, if_false]
      | true => simp only [dyscoInetProtoCsumReplace4_window, if_true, tcpSack_eq,
          window_replaceWords]
  generalize rewriteAck s1 d.ackDelta d.ackAdd d.sackOk = s2 at *
  have hts : (rewriteTs s2 d.tsDelta d.tsAdd d.tsrDelta d.tsrAdd).window = s2.window := by
    unfold rewriteTs
    split
    · rfl
    · simp only
      split <;> split <;> simp only [window_replaceWord]
  rw [← hseq, ← hack]
  split
  · exact hts
  · rfl

/-- A window translation is two shifts. -/
theorem window_rewriteRcvWnd (skb : SkBuff) {wsDelta wsIn wsOut : U16} (hin : wsIn.toNat ≤ 14)
    (hdelta : wsDelta = 0#16 → wsIn = wsOut) :
    (ntohs (rewriteRcvWnd skb wsDelta wsIn wsOut).window).toNat =
      shifts wsIn.toNat wsOut.toNat (ntohs skb.window).toNat := by
  have hf := (ntohs skb.window).isLt
  unfold rewriteRcvWnd shifts
  split
  · rename_i h0
    rw [hdelta h0, Nat.mul_div_cancel _ (Nat.two_pow_pos _), Nat.mod_eq_of_lt hf]
  · simp only [ntohs_htons]
    have hpow : 2 ^ wsIn.toNat ≤ 2 ^ 14 := Nat.pow_le_pow_right (by decide) hin
    have hlt : (ntohs skb.window).toNat * 2 ^ wsIn.toNat < 2 ^ 32 :=
      calc (ntohs skb.window).toNat * 2 ^ wsIn.toNat ≤ 65535 * 2 ^ 14 :=
            Nat.mul_le_mul (by omega) hpow
        _ < 2 ^ 32 := by decide
    rw [BitVec.toNat_setWidth, BitVec.toNat_ushiftRight, BitVec.toNat_shiftLeft,
      BitVec.toNat_setWidth, Nat.mod_eq_of_lt (show (ntohs skb.window).toNat < 2 ^ 32 by omega),
      Nat.shiftLeft_eq, Nat.mod_eq_of_lt hlt, Nat.shiftRight_eq_div_pow]

/-- A segment with a given window exists. -/
theorem exists_window {P : Nat → Prop} :
    (∀ skb : SkBuff, P (ntohs skb.window).toNat) ↔ ∀ f < 65536, P f := by
  constructor
  · intro h f hf
    have hskb := h { (default : SkBuff) with window := htons (BitVec.ofNat 16 f) }
    simp only [ntohs_htons, BitVec.toNat_ofNat, Nat.mod_eq_of_lt hf] at hskb
    exact hskb
  · intro h skb
    exact h _ (ntohs skb.window).isLt

/-! ## Both directions -/

/-- The shifts of a direction: the two recorded scales, or none when the left session's
scale is zero. -/
def shiftsFor (left own peer : U16) : Nat × Nat :=
  if left = 0#16 then (0, 0) else (own.toNat, peer.toNat)

/-- Only equal scales are no distance apart. -/
theorem distance_eq_zero {w : Nat} {a b : BitVec w} (h : distance a b = 0#w) : a = b := by
  unfold distance at h
  split at h
  · exact (sub_eq_zero.mp h).symm
  · exact sub_eq_zero.mp h

theorem shifts_zero {f : Nat} (hf : f < 65536) : shifts 0 0 f = f := by
  unfold shifts
  rw [Nat.pow_zero, Nat.mul_one, Nat.div_one, Nat.mod_eq_of_lt hf]

/-- **The window of a segment that leaves** is shifted by the difference of the scales on the two
sides. -/
theorem window_outRewrite (skb : SkBuff) (dcb old : CbOut) (rcb : CbReconfig)
    (hown : old.wsIn.toNat ≤ 14) :
    (ntohs (outRewrite skb (computeDeltasOut dcb old rcb)).window).toNat =
      shifts (shiftsFor rcb.leftIwsr old.wsIn rcb.leftIwsr).1
        (shiftsFor rcb.leftIwsr old.wsIn rcb.leftIwsr).2 (ntohs skb.window).toNat := by
  obtain ⟨s, hs, heq⟩ := window_rewriteWith skb (computeDeltasOut dcb old rcb).deltas
  rw [outRewrite_eq, heq, ← hs]
  by_cases hw : rcb.leftIwsr = 0#16
  · have hok : (computeDeltasOut dcb old rcb).deltas.wsOk = false := by
      unfold computeDeltasOut CbOut.deltas
      simp only [hw, ne_eq, not_true_eq_false, if_false]
    rw [hok, if_neg (by decide), shiftsFor, if_pos hw, shifts_zero (ntohs s.window).isLt]
  · have hd : (computeDeltasOut dcb old rcb).deltas.wsOk = true ∧
        (computeDeltasOut dcb old rcb).deltas.wsIn = old.wsIn ∧
        (computeDeltasOut dcb old rcb).deltas.wsOut = rcb.leftIwsr ∧
        (computeDeltasOut dcb old rcb).deltas.wsDelta = distance old.wsIn rcb.leftIwsr := by
      unfold computeDeltasOut CbOut.deltas
      simp only [ne_eq, hw, not_false_eq_true, if_true, and_self]
    rw [hd.1, if_pos rfl, hd.2.1, hd.2.2.1, hd.2.2.2, shiftsFor, if_neg hw,
      window_rewriteRcvWnd s hown distance_eq_zero]

/-- **The window of a segment that comes in**, likewise. -/
theorem window_inRewrite (skb : SkBuff) (dcb oldIn : CbIn) (old : CbOut) (rcb : CbReconfig)
    (hleft : rcb.leftIws.toNat ≤ 14) :
    (ntohs (inRewrite skb (computeDeltasIn dcb old oldIn rcb)).window).toNat =
      shifts (shiftsFor rcb.leftIws rcb.leftIws old.wsIn).1
        (shiftsFor rcb.leftIws rcb.leftIws old.wsIn).2 (ntohs skb.window).toNat := by
  obtain ⟨s, hs, heq⟩ := window_rewriteWith skb (computeDeltasIn dcb old oldIn rcb).deltas
  rw [inRewrite_eq, heq, ← hs]
  by_cases hw : rcb.leftIws = 0#16
  · have hok : (computeDeltasIn dcb old oldIn rcb).deltas.wsOk = false := by
      unfold computeDeltasIn CbIn.deltas
      simp only [hw, ne_eq, not_true_eq_false, if_false]
    rw [hok, if_neg (by decide), shiftsFor, if_pos hw, shifts_zero (ntohs s.window).isLt]
  · have hd : (computeDeltasIn dcb old oldIn rcb).deltas.wsOk = true ∧
        (computeDeltasIn dcb old oldIn rcb).deltas.wsIn = rcb.leftIws ∧
        (computeDeltasIn dcb old oldIn rcb).deltas.wsOut = old.wsIn ∧
        (computeDeltasIn dcb old oldIn rcb).deltas.wsDelta = distance rcb.leftIws old.wsIn := by
      unfold computeDeltasIn CbIn.deltas
      simp only [ne_eq, hw, not_false_eq_true, if_true, and_self]
    rw [hd.1, if_pos rfl, hd.2.1, hd.2.2.1, hd.2.2.2, shiftsFor, if_neg hw,
      window_rewriteRcvWnd s hleft distance_eq_zero]

/-- The scales the right anchor shifts by agree with the negotiated ones: the sender's is
at most the receiver's, and their difference is that of the shifts. -/
def ScalesAgree (shifts : Nat × Nat) (own peer : Nat) : Prop :=
  own ≤ peer ∧ peer + shifts.1 = shifts.2 + own

instance (shifts : Nat × Nat) (own peer : Nat) : Decidable (ScalesAgree shifts own peer) :=
  inferInstanceAs (Decidable (_ ∧ _))

/-- No shift is by more than fourteen bits. -/
theorem shiftsFor_le {left own peer : U16} (hown : own.toNat ≤ 14) (hpeer : peer.toNat ≤ 14) :
    (shiftsFor left own peer).1 ≤ 14 ∧ (shiftsFor left own peer).2 ≤ 14 := by
  unfold shiftsFor
  split
  · decide
  · exact ⟨hown, hpeer⟩

/-- **The right anchor keeps the byte window of every segment exactly when the scales it
shifts by agree with the negotiated ones**: to the left it shifts from the scale it
recorded of its own session to the one the left anchor learned, to the right from the
left session's scale to the same scale of its own session, and not at all where the
left session's scale is zero. -/
theorem rightA_window_iff {h h' : Host} {pkt : ControlPacket} (hwf : h.WF)
    (hnone : h.lookupReconfig E pkt.msg.super = none) (hright : pkt.daddr = pkt.msg.rightA)
    (hok : synIn E h pkt = (true, h')) {ownL peerL ownR peerR : SkBuff} {lin : CbIn}
    {lout : CbOut} (hL : ScalesRecorded ownL peerL lin lout)
    (hiws : pkt.msg.leftIws = htons lout.wsIn) (hiwsr : pkt.msg.leftIwsr = htons lin.wsIn)
    (hR : ∀ old, h.lookupOut E pkt.msg.rightSS.reverse = some old →
      ScalesRecorded ownR peerR (h.inOf (h.outMem old)) (h.outMem old)) :
    ∃ old q p, h.lookupOut E pkt.msg.rightSS.reverse = some old ∧
      (h'.outMem p).otherPath = some old ∧ (h'.inMem q).dcbOut = some p ∧
      ((∀ skb : SkBuff, (ntohs (outHdrRewriteCsum E (outRewrite skb (h'.outMem p))
            (h'.outMem p)).window).toNat =
          windowField (negotiated ownR peerR) (negotiated peerL ownL) (ntohs skb.window).toNat) ↔
        ScalesAgree (shiftsFor lin.wsIn (h.outMem old).wsIn lin.wsIn)
          (negotiated ownR peerR) (negotiated peerL ownL)) ∧
      ((∀ skb : SkBuff, (ntohs (inHdrRewriteCsum skb (h'.inMem q)).window).toNat =
          windowField (negotiated ownL peerL) (negotiated peerR ownR) (ntohs skb.window).toNat) ↔
        ScalesAgree (shiftsFor lout.wsIn lout.wsIn (h.outMem old).wsIn)
          (negotiated ownL peerL) (negotiated peerR ownR)) := by
  obtain ⟨old, r, q, p, C⟩ := synIn_rightA hwf hnone hright hok
  have hrec := hR old C.old_lookup
  refine ⟨old, q, p, C.old_lookup, ?_, ?_, ?_, ?_⟩
  · rw [C.new_out]
    rfl
  · rw [C.new_in]
    unfold CbIn.withTwoPaths computeDeltasIn
    simp only
    split <;> split <;> rfl
  · have hcode : ∀ skb : SkBuff, (ntohs (outHdrRewriteCsum E (outRewrite skb (h'.outMem p))
        (h'.outMem p)).window).toNat = shifts (shiftsFor lin.wsIn (h.outMem old).wsIn lin.wsIn).1
          (shiftsFor lin.wsIn (h.outMem old).wsIn lin.wsIn).2 (ntohs skb.window).toNat := by
      intro skb
      have hwin : (outHdrRewriteCsum E (outRewrite skb (h'.outMem p)) (h'.outMem p)).window =
          (outRewrite skb (h'.outMem p)).window := by
        rw [outHdrRewriteCsum_eq]
        simp only
        rw [(retupled _ _ _).shape]
      have hiwsr' : ((h.rcbMem r).ofSynIn pkt).leftIwsr = lin.wsIn := by
        rw [CbReconfig.ofSynIn]
        simp only [hiwsr, ntohs_htons]
      rw [hwin, C.new_out]
      have hout := window_outRewrite skb ((((h.rcbMem r).ofSynIn pkt).reverseOut pkt).withDcbIn
        (some q)) (h.outMem old) ((h.rcbMem r).ofSynIn pkt) hrec.out_le
      rw [hiwsr'] at hout
      exact hout
    have hle : (shiftsFor lin.wsIn (h.outMem old).wsIn lin.wsIn).1 ≤ 14 ∧
        (shiftsFor lin.wsIn (h.outMem old).wsIn lin.wsIn).2 ≤ 14 :=
      shiftsFor_le hrec.out_le hL.inp_le
    simp only [hcode]
    rw [exists_window (P := fun f => shifts _ _ f = windowField _ _ f)]
    exact shifts_eq_iff hle.1 (negotiated_le _ _) (negotiated_le _ _) hle.2
  · have hcode : ∀ skb : SkBuff, (ntohs (inHdrRewriteCsum skb (h'.inMem q)).window).toNat =
        shifts (shiftsFor lout.wsIn lout.wsIn (h.outMem old).wsIn).1
          (shiftsFor lout.wsIn lout.wsIn (h.outMem old).wsIn).2 (ntohs skb.window).toNat := by
      intro skb
      have hwin : (inTupleRewriteCsum skb (h'.inMem q)).window = skb.window := by
        rw [inTupleRewriteCsum_eq, (retupled _ _ _).shape]
      have hiws' : ((h.rcbMem r).ofSynIn pkt).leftIws = lout.wsIn := by
        rw [CbReconfig.ofSynIn]
        simp only [hiws, ntohs_htons]
      have hin := window_inRewrite (inTupleRewriteCsum skb (h'.inMem q))
        (((((h.rcbMem r).ofSynIn pkt).newPathIn (h.inMem q) pkt.skbIif).withDcbOut p).withSuper
          pkt.msg.rightSS)
        (h.inOf (h.outMem old)) (h.outMem old) ((h.rcbMem r).ofSynIn pkt)
        (by rw [hiws']; exact hL.out_le)
      rw [hiws', hwin, inRewrite_eq] at hin
      rw [inHdrRewriteCsum, inRewrite_eq, ← hin]
      have hdeltas : (h'.inMem q).deltas = (computeDeltasIn
          (((((h.rcbMem r).ofSynIn pkt).newPathIn (h.inMem q) pkt.skbIif).withDcbOut p).withSuper
            pkt.msg.rightSS)
          (h.outMem old) (h.inOf (h.outMem old)) ((h.rcbMem r).ofSynIn pkt)).deltas := by
        rw [C.new_in]
        rfl
      rw [hdeltas]
    have hle : (shiftsFor lout.wsIn lout.wsIn (h.outMem old).wsIn).1 ≤ 14 ∧
        (shiftsFor lout.wsIn lout.wsIn (h.outMem old).wsIn).2 ≤ 14 :=
      shiftsFor_le hL.out_le hrec.out_le
    simp only [hcode]
    rw [exists_window (P := fun f => shifts _ _ f = windowField _ _ f)]
    exact shifts_eq_iff hle.1 (negotiated_le _ _) (negotiated_le _ _) hle.2

/-- A SYN or SYN+ACK that announces the window scale `s`. -/
def synWithScale (s : U8) : SkBuff :=
  { (default : SkBuff) with doff := 6#4, flags := tcphdrSyn, data := [3#8, 3#8, s, 0#8] }

/-- A host with one session: it announced the scale `own`, its peer `peer`. -/
def scaledHost (own peer : U16) : Host :=
  { Host.fresh with
    brk := 2
    outMem := Function.update default 0 { (default : CbOut) with dcbIn := some 1, wsIn := own }
    inMem := Function.update default 1 { (default : CbIn) with wsIn := peer }
    hashOut := ⟨[(0, 0)]⟩
    hashIn := ⟨[(0, 1)]⟩ }

/-- A `DYSCO_SYN` from a left session that announced `own` and whose peer announced `peer`. -/
def synWithScales (own peer : U16) : ControlPacket :=
  { (default : ControlPacket) with msg.leftIws := htons own, msg.leftIwsr := htons peer }

theorem scaledHost_wf (own peer : U16) : (scaledHost own peer).WF := by
  constructor
  · rintro p ⟨b, hb⟩
    cases List.mem_singleton.mp hb
    exact Nat.zero_lt_two
  · rintro q ⟨b, hb⟩
    cases List.mem_singleton.mp hb
    exact Nat.one_lt_two
  · rintro r ⟨b, hb⟩
    cases hb
  · rintro p q ⟨b, hb⟩ hq
    cases List.mem_singleton.mp hb
    cases hq
    exact Nat.one_lt_two

theorem scalesRecorded_scaledHost (own peer : U8) (h : own.toNat ≤ 14) (h' : peer.toNat ≤ 14)
    {i : CbIn} {o : CbOut} (hi : i.wsIn = peer.setWidth 16) (ho : o.wsIn = own.setWidth 16) :
    ScalesRecorded (synWithScale own) (synWithScale peer) i o := by
  have hscale : ∀ s : U8, s.toNat ≤ 14 → (synWithScale s).windowScale = some (s.setWidth 16) := by
    intro s hs
    have hnot : ¬ 14#8 < s := by
      rw [BitVec.lt_def]
      exact Nat.not_lt.mpr hs
    have hval : (synWithScale s).wscale 2 = s.setWidth 16 := by
      unfold SkBuff.wscale
      have hb : byteAt (synWithScale s).data 2 = s := rfl
      simp only [hb, hnot, if_false]
    have hopt : (synWithScale s).options = [⟨tcpoptWindow, 3, 2⟩] := rfl
    unfold SkBuff.windowScale
    rw [hopt]
    exact congrArg some hval
  constructor
  · refine ⟨default, rfl, ?_⟩
    rw [wsIn_parseTcpSynOptS, hscale own h, Option.getD_some, ho]
  · refine ⟨default, Or.inl rfl, ?_⟩
    rw [wsIn_parseTcpSynOptR, hscale peer h', Option.getD_some, hi]

/-- All four ends announced the scale 7. -/
theorem rightA_window_seven : ∃ (h' : Host) (old q p : Nat),
    (scaledHost 7#16 7#16).lookupOut default (synWithScales 7#16 7#16).msg.rightSS.reverse =
        some old ∧
      (h'.outMem p).otherPath = some old ∧ (h'.inMem q).dcbOut = some p ∧
      ((∀ skb : SkBuff, (ntohs (outHdrRewriteCsum default (outRewrite skb (h'.outMem p))
            (h'.outMem p)).window).toNat =
          windowField (negotiated (synWithScale 7#8) (synWithScale 7#8))
            (negotiated (synWithScale 7#8) (synWithScale 7#8)) (ntohs skb.window).toNat) ↔
        ScalesAgree (shiftsFor 7#16 ((scaledHost 7#16 7#16).outMem old).wsIn 7#16)
          (negotiated (synWithScale 7#8) (synWithScale 7#8))
          (negotiated (synWithScale 7#8) (synWithScale 7#8))) ∧
      ((∀ skb : SkBuff, (ntohs (inHdrRewriteCsum skb (h'.inMem q)).window).toNat =
          windowField (negotiated (synWithScale 7#8) (synWithScale 7#8))
            (negotiated (synWithScale 7#8) (synWithScale 7#8)) (ntohs skb.window).toNat) ↔
        ScalesAgree (shiftsFor 7#16 7#16 ((scaledHost 7#16 7#16).outMem old).wsIn)
          (negotiated (synWithScale 7#8) (synWithScale 7#8))
          (negotiated (synWithScale 7#8) (synWithScale 7#8))) := by
  have hrec : ScalesRecorded (synWithScale 7#8) (synWithScale 7#8)
      { (default : CbIn) with wsIn := 7#16 } { (default : CbOut) with wsIn := 7#16 } :=
    scalesRecorded_scaledHost 7#8 7#8 (by decide) (by decide) rfl rfl
  have hok : (synIn default (scaledHost 7#16 7#16) (synWithScales 7#16 7#16)).1 = true := by
    decide +kernel
  refine ⟨_, rightA_window_iff (scaledHost_wf 7#16 7#16) rfl rfl (Prod.ext hok rfl) hrec rfl rfl
    ?_⟩
  intro old hold
  cases hold
  exact scalesRecorded_scaledHost 7#8 7#8 (by decide) (by decide) rfl rfl

/-- The right anchor announced 7 and the left session's peer 2: a window of 2048, that is of
262144 bytes, leaves as zero. -/
theorem rightA_window_zero :
    ScalesRecorded (synWithScale 7#8) (synWithScale 2#8)
        ((scaledHost 7#16 2#16).inMem 1) ((scaledHost 7#16 2#16).outMem 0) ∧
      (synIn default (scaledHost 7#16 2#16) (synWithScales 7#16 2#16)).1 = true ∧
      ((synIn default (scaledHost 7#16 2#16) (synWithScales 7#16 2#16)).2.outMem 4).otherPath =
        some 0 ∧
      negotiated (synWithScale 7#8) (synWithScale 2#8) = 7 ∧
      negotiated (synWithScale 2#8) (synWithScale 7#8) = 2 ∧
      (outRewrite { (default : SkBuff) with window := htons 2048#16 }
        ((synIn default (scaledHost 7#16 2#16) (synWithScales 7#16 2#16)).2.outMem 4)).window =
        0#16 ∧
      windowField 7 2 2048 = 65535 :=
  ⟨scalesRecorded_scaledHost 7#8 2#8 (by decide) (by decide) rfl rfl, by decide +kernel,
    by decide +kernel, by decide +kernel, by decide +kernel, by decide +kernel, by decide⟩

end Dysco
