import Dysco.SessionPath

/-! # Segments with their numbers moved

Between two stacks the module readdresses a segment, moves its two numbers by a distance each, and
with them its SACK edges, its timestamps and its window.  What the receiver otherwise goes by, and
the payload, is as it was sent (`Renumbered`), whichever of the rewriting functions it went through.
-/
namespace Dysco
open ByteOrder

variable {E : Env} {skb skb' : SkBuff} {a b c d : U32}

/-- What no translation touches: protocols, flags, lengths, the urgent pointer and the payload. -/
def SkBuff.body (skb : SkBuff) : (U16 × U8 × U8) × (U16 × List U32 × BitVec 4) × U16 × List U8 :=
  ((skb.hProto, skb.protocol, skb.flags), (skb.totLen, skb.ipOptions, skb.doff), skb.urgPtr,
    skb.payload)

/-- The segment with its sequence number moved by `a` and its acknowledgment number by `b`. -/
structure Renumbered (a b : U32) (skb skb' : SkBuff) : Prop where
  seq : ntohl skb'.seq = ntohl skb.seq + a
  ackSeq : ntohl skb'.ackSeq = ntohl skb.ackSeq + b
  body : skb'.body = skb.body

namespace Renumbered

/-- No packet is renumbered by nothing. -/
theorem refl (skb : SkBuff) : Renumbered 0#32 0#32 skb skb :=
  ⟨(BitVec.add_zero _).symm, (BitVec.add_zero _).symm, rfl⟩

/-- Two shifts in a row add up, in both numbers. -/
theorem trans {s t u : SkBuff} (hst : Renumbered a b s t) (htu : Renumbered c d t u) :
    Renumbered (a + c) (b + d) s u where
  seq := by rw [htu.seq, hst.seq, BitVec.add_assoc]
  ackSeq := by rw [htu.ackSeq, hst.ackSeq, BitVec.add_assoc]
  body := htu.body.trans hst.body

/-- A step that leaves the numbers alone, after one that moves them. -/
theorem trans_zero {s t u : SkBuff} (hst : Renumbered a b s t) (htu : Renumbered 0#32 0#32 t u) :
    Renumbered a b s u := by
  have h := hst.trans htu
  rwa [BitVec.add_zero, BitVec.add_zero] at h

/-- A step that keeps both numbers before one that shifts them counts for nothing. -/
theorem zero_trans {s t u : SkBuff} (hst : Renumbered 0#32 0#32 s t) (htu : Renumbered a b t u) :
    Renumbered a b s u := by
  have h := hst.trans htu
  rwa [BitVec.zero_add, BitVec.zero_add] at h

/-- Whatever keeps both numbers and the body of a packet has shifted by zero. -/
theorem of_eq (hseq : skb'.seq = skb.seq) (hack : skb'.ackSeq = skb.ackSeq)
    (hbody : skb'.body = skb.body) : Renumbered 0#32 0#32 skb skb' :=
  ⟨by rw [hseq, BitVec.add_zero], by rw [hack, BitVec.add_zero], hbody⟩

/-- A packet that is left as it is has its numbers. -/
theorem of_unaltered (hu : Unaltered skb skb') : Renumbered 0#32 0#32 skb skb' := by
  rw [Unaltered] at hu
  rw [hu]
  exact of_eq rfl rfl rfl

end Renumbered

/-! ## Words of the option area -/

/-- The numbers, what is behind the options, and the five-tuple. -/
structure SameNumbers (skb skb' : SkBuff) : Prop extends Renumbered 0#32 0#32 skb skb' where
  session : skb'.session = skb.session

theorem SameNumbers.refl (skb : SkBuff) : SameNumbers skb skb := ⟨Renumbered.refl skb, rfl⟩

/-- What two option rewrites in a row leave alone. -/
theorem SameNumbers.trans {s t u : SkBuff} (hst : SameNumbers s t) (htu : SameNumbers t u) :
    SameNumbers s u :=
  ⟨hst.toRenumbered.trans_zero htu.toRenumbered, htu.session.trans hst.session⟩

/-- A word that is stored inside the options touches neither the numbers nor the payload, and the
options are as long as before. -/
theorem sameNumbers_replaceWord {k n : Nat} (hn : skb.optLen = n) (hk : k + 4 ≤ n) (f : U32 → U32) :
    SameNumbers skb (skb.replaceWord k f) ∧ (skb.replaceWord k f).optLen = n := by
  have hdrop : (store32 skb.data k (skb.newWord k f)).drop skb.optLen =
      skb.data.drop skb.optLen := by
    unfold store32
    simp only [List.drop_set_of_lt (show k < skb.optLen by omega),
      List.drop_set_of_lt (show k + 1 < skb.optLen by omega),
      List.drop_set_of_lt (show k + 2 < skb.optLen by omega),
      List.drop_set_of_lt (show k + 3 < skb.optLen by omega)]
  refine ⟨⟨Renumbered.of_eq rfl rfl ?_, rfl⟩, hn⟩
  have hpayload : (skb.replaceWord k f).payload = skb.payload := hdrop
  rw [SkBuff.body, hpayload]
  rfl

/-- By induction on the places, so do several words. -/
theorem sameNumbers_replaceWords {ks : List Nat} {n : Nat} (hn : skb.optLen = n)
    (hks : ∀ k ∈ ks, k + 4 ≤ n) (f : U32 → U32) : SameNumbers skb (skb.replaceWords ks f) := by
  induction ks generalizing skb with
  | nil => exact SameNumbers.refl skb
  | cons k ks ih =>
    obtain ⟨hone, hlen⟩ := sameNumbers_replaceWord hn (hks k List.mem_cons_self) f
    rw [replaceWords_cons]
    exact hone.trans (ih hlen fun k' hk' => hks k' (List.mem_cons_of_mem _ hk'))

/-- `tcp_sack` stores its blocks inside the options. -/
theorem sameNumbers_tcpSack (skb : SkBuff) (delta : U32) (add : Bool) :
    SameNumbers skb (tcpSack skb delta add) := by
  rw [tcpSack_eq]
  exact sameNumbers_replaceWords rfl (fun k hk => (SkBuff.mem_sackEdges hk).2) _

/-- Half of a timestamp option, replaced or skipped. -/
theorem sameNumbers_half {k n : Nat} {delta : U32} {add : Bool} (hn : skb.optLen = n)
    (hk : k + 4 ≤ n) :
    SameNumbers skb (if delta = 0#32 then skb else skb.replaceWord k (shift delta add)) ∧
      (if delta = 0#32 then skb else skb.replaceWord k (shift delta add)).optLen = n := by
  split
  · exact ⟨SameNumbers.refl skb, hn⟩
  · exact sameNumbers_replaceWord hn hk _

/-- `dysco_rewrite_ts` stores two words inside the options. -/
theorem sameNumbers_rewriteTs (skb : SkBuff) (tsDelta : U32) (tsAdd : Bool) (tsrDelta : U32)
    (tsrAdd : Bool) : SameNumbers skb (rewriteTs skb tsDelta tsAdd tsrDelta tsrAdd) := by
  unfold rewriteTs
  cases hts : getTsOption skb with
  | none => exact SameNumbers.refl skb
  | some ts =>
    have hin := (getTsOption_lt hts).2
    have hfirst := @sameNumbers_half skb ts skb.optLen tsDelta tsAdd rfl (by omega)
    simp only
    generalize (if tsDelta = 0#32 then skb else skb.replaceWord ts (shift tsDelta tsAdd)) = s
      at hfirst ⊢
    exact hfirst.1.trans (sameNumbers_half hfirst.2 (by omega)).1

/-! ## The numbers and the window -/

/-- `dysco_rewrite_seq` shifts the sequence number by the delta of the block. -/
theorem rewriteSeq_renumbered {delta : U32} {add : Bool} (hs : ∀ x, shift delta add x = x + a)
    (skb : SkBuff) : Renumbered a 0#32 skb (rewriteSeq skb delta add) ∧
      (rewriteSeq skb delta add).session = skb.session := by
  have hseq := rewriteSeq_seq skb delta add
  have hrest : (rewriteSeq skb delta add).ackSeq = skb.ackSeq ∧
      (rewriteSeq skb delta add).body = skb.body ∧
      (rewriteSeq skb delta add).session = skb.session := by
    rw [rewriteSeq]
    split
    · exact ⟨rfl, rfl, rfl⟩
    · exact ⟨rfl, rfl, rfl⟩
  obtain ⟨hack, hbody, hsession⟩ := hrest
  exact ⟨⟨by rw [hseq, ntohl_htonl, hs], by rw [hack, BitVec.add_zero], hbody⟩, hsession⟩

/-- `dysco_rewrite_ack` shifts the acknowledgment, and the SACK blocks if there are any. -/
theorem rewriteAck_renumbered {delta : U32} {add : Bool} (hs : ∀ x, shift delta add x = x + b)
    (skb : SkBuff) (sackOk : Bool) : Renumbered 0#32 b skb (rewriteAck skb delta add sackOk) ∧
      (rewriteAck skb delta add sackOk).session = skb.session := by
  have hack := rewriteAck_ackSeq skb delta add sackOk
  have hsack := sameNumbers_tcpSack skb delta add
  have hrest : ntohl (rewriteAck skb delta add sackOk).seq = ntohl skb.seq ∧
      (rewriteAck skb delta add sackOk).body = skb.body ∧
      (rewriteAck skb delta add sackOk).session = skb.session := by
    rw [rewriteAck]
    split
    · exact ⟨rfl, rfl, rfl⟩
    · cases sackOk with
      | false => exact ⟨rfl, rfl, rfl⟩
      | true =>
        simp only [if_true]
        generalize tcpSack skb delta add = s at hsack ⊢
        exact ⟨hsack.seq.trans (BitVec.add_zero _), hsack.body, hsack.session⟩
  obtain ⟨hseq, hbody, hsession⟩ := hrest
  exact ⟨⟨by rw [hseq, BitVec.add_zero], by rw [hack, ntohl_htonl, hs], hbody⟩, hsession⟩

/-- The window is no number of the session. -/
theorem sameNumbers_rewriteRcvWnd (skb : SkBuff) (wsDelta wsIn wsOut : U16) :
    SameNumbers skb (rewriteRcvWnd skb wsDelta wsIn wsOut) := by
  rw [rewriteRcvWnd]
  split
  · exact SameNumbers.refl skb
  · exact ⟨Renumbered.of_eq rfl rfl rfl, rfl⟩

/-- Nor is the window that the splice corrects. -/
theorem sameNumbers_fixRcvWindow (skb : SkBuff) (my other : TcpSock) :
    SameNumbers skb (fixRcvWindow skb my other) := by
  rw [fixRcvWindow]
  split
  · exact SameNumbers.refl skb
  · exact ⟨Renumbered.of_eq rfl rfl rfl, rfl⟩

/-! ## The two rewriting paths -/

/-- The block moves sequence numbers by `a` and acknowledgment numbers by `b`. -/
structure CbOut.MovesBy (d : CbOut) (a b : U32) : Prop where
  seq : ∀ x, shift d.seqDelta d.seqAdd x = x + a
  ack : ∀ x, shift d.ackDelta d.ackAdd x = x + b

structure CbIn.MovesBy (d : CbIn) (a b : U32) : Prop where
  seq : ∀ x, shift d.seqDelta d.seqAdd x = x + a
  ack : ∀ x, shift d.ackDelta d.ackAdd x = x + b

/-- A delta of zero shifts by nothing in either direction. -/
theorem shift_zero_add (add : Bool) (x : U32) : shift 0#32 add x = x + 0#32 := by
  rw [shift_zero, BitVec.add_zero]

/-- Options that are rewritten in some cases. -/
theorem SameNumbers.ite {p : Prop} [Decidable p] {s t : SkBuff} (hs : SameNumbers s t) :
    SameNumbers s (if p then t else s) := by
  split
  · exact hs
  · exact SameNumbers.refl s

/-- **What a packet that leaves goes through**: both numbers are shifted by the deltas of the block,
and the rest of the block's work is on options and window. -/
theorem outTail_renumbered {d : CbOut} (hd : d.MovesBy a b) (skb : SkBuff) :
    Renumbered a b skb (outRewrite skb d) := by
  have hseq := (rewriteSeq_renumbered hd.seq skb).1
  have hack := (rewriteAck_renumbered hd.ack (outRewriteSeq skb d) d.sackOk).1
  have hnum := hseq.trans hack
  rw [BitVec.add_zero, BitVec.zero_add] at hnum
  have hts : SameNumbers (outRewriteAck (outRewriteSeq skb d) d) _ :=
    (sameNumbers_rewriteTs _ d.tsDelta d.tsAdd d.tsrDelta d.tsrAdd).ite (p := d.tsOk = true)
  have hws : SameNumbers _ (outRewrite skb d) :=
    (sameNumbers_rewriteRcvWnd _ d.wsDelta d.wsIn d.wsOut).ite (p := d.wsOk = true)
  exact hnum.trans_zero (hts.trans hws).toRenumbered

/-- **What a packet that comes in goes through**, with the deltas of the input block. -/
theorem inRewrite_renumbered {d : CbIn} (hd : d.MovesBy a b) (skb : SkBuff) :
    Renumbered a b skb (inRewrite skb d) ∧ (inRewrite skb d).session = skb.session := by
  obtain ⟨hseq, hseq'⟩ := rewriteSeq_renumbered hd.seq skb
  obtain ⟨hack, hack'⟩ := rewriteAck_renumbered hd.ack (inRewriteSeq skb d) d.sackOk
  have hnum := hseq.trans hack
  rw [BitVec.add_zero, BitVec.zero_add] at hnum
  have hts : SameNumbers (inRewriteAck (inRewriteSeq skb d) d) _ :=
    (sameNumbers_rewriteTs _ d.tsDelta d.tsAdd d.tsrDelta d.tsrAdd).ite (p := d.tsOk = true)
  have hws : SameNumbers _ (inRewrite skb d) :=
    (sameNumbers_rewriteRcvWnd _ d.wsDelta d.wsIn d.wsOut).ite (p := d.wsOk = true)
  have htail := hts.trans hws
  exact ⟨hnum.trans_zero htail.toRenumbered, htail.session.trans (hack'.trans hseq')⟩

/-- A segment that leaves through a block. -/
theorem outRewrite_renumbered {d : CbOut} (hd : d.MovesBy a b) (skb : SkBuff) :
    Renumbered a b skb (outHdrRewriteCsum E (outRewrite skb d) d) ∧
      (outHdrRewriteCsum E (outRewrite skb d) d).session = d.sub := by
  have hunaltered := unaltered_outHdrRewriteCsum (E := E) (outRewrite skb d) d
  exact ⟨(outTail_renumbered hd skb).trans_zero (.of_unaltered hunaltered),
    (outHdrRewriteCsum_session (outRewrite skb d) d).2⟩

/-- A segment that arrives at a block. -/
theorem inHdrRewriteCsum_renumbered {d : CbIn} (hd : d.MovesBy a b) (skb : SkBuff) :
    Renumbered a b skb (inHdrRewriteCsum skb d) ∧ (inHdrRewriteCsum skb d).session = d.super := by
  obtain ⟨hunaltered, hsession⟩ := unaltered_inTupleRewriteCsum skb d
  obtain ⟨hnum, hsame⟩ := inRewrite_renumbered hd (inTupleRewriteCsum skb d)
  exact ⟨(Renumbered.of_unaltered hunaltered).zero_trans hnum, hsame.trans hsession⟩

end Dysco
