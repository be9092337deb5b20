import Dysco.Rewriting

/-! # Checksums on the input path

`dysco_in_hdr_rewrite_csum` adds the two new addresses into one word before it updates
the checksums.  It judges the carry of that addition by the destination of the
subsession, `dcb_in->sub.dip`, where the output path uses the address just added.  The
packet leaves with valid checksums exactly when that makes no difference
(`inHdrRewriteCsum_valid_iff`).
-/
namespace Dysco
open OnesComplement ByteOrder

/-- The header checksum and the segment checksum are the ones computed from scratch. -/
def SkBuff.ChecksumsValid (skb : SkBuff) : Prop :=
  skb.ipCheck = skb.ipChecksum ∧ skb.check = skb.tcpChecksum

instance (skb : SkBuff) : Decidable skb.ChecksumsValid := inferInstanceAs (Decidable (_ ∧ _))

/-- SACK and timestamp values begin at even offsets. -/
def SkBuff.EvenOptions (skb : SkBuff) : Prop :=
  ∀ o ∈ skb.options, o.kind = tcpoptSack ∨ o.kind = tcpoptTimestamp → o.ptr % 2 = 0

instance (skb : SkBuff) : Decidable skb.EvenOptions :=
  inferInstanceAs (Decidable (∀ o ∈ skb.options, _))

theorem wordError_even (skb : SkBuff) {k : Nat} (hk : k % 2 = 0) (f : U32 → U32) :
    skb.wordError k f = 0 := by
  rw [SkBuff.wordError, weight, if_pos hk, sub_self, zero_mul]

theorem mem_blockEdges_even {lptr n k : Nat} (heven : lptr % 2 = 0) (h : k ∈ blockEdges lptr n) :
    k % 2 = 0 := by
  induction n generalizing lptr with
  | zero => cases h
  | succ n ih =>
    simp only [blockEdges, List.mem_cons] at h
    rcases h with rfl | rfl | h
    · exact heven
    · omega
    · exact ih (by omega) h

/-- Words at even offsets are all accounted for. -/
theorem Deltas.error_even {skb : SkBuff} (h : skb.EvenOptions) (d : Deltas) :
    d.error skb = 0 := by
  have hsack : skb.sackError d.ackDelta d.ackAdd = 0 := by
    unfold SkBuff.sackError
    apply List.sum_eq_zero
    intro x hx
    obtain ⟨k, hk, rfl⟩ := List.mem_map.mp hx
    obtain ⟨o, ho, hk⟩ := List.mem_flatMap.mp hk
    unfold TcpOption.edges at hk
    split at hk
    · rename_i hs
      exact wordError_even skb (mem_blockEdges_even (h o ho (Or.inl hs.1)) hk) _
    · cases hk
  have hts : skb.tsError d.tsDelta d.tsAdd d.tsrDelta d.tsrAdd = 0 := by
    unfold SkBuff.tsError
    cases hget : getTsOption skb with
    | none => rfl
    | some ts =>
      obtain ⟨o, ho, rfl⟩ := Option.map_eq_some_iff.mp hget
      have hkind := List.find?_some ho
      simp only [decide_eq_true_eq] at hkind
      have heven := h o (List.mem_of_find?_eq_some ho) (Or.inr hkind.1)
      simp only [Option.elim_some]
      rw [wordError_even skb heven, wordError_even skb (by omega), add_zero]
  unfold Deltas.error
  rw [hsack, hts, ite_self, ite_self, add_zero]

/-- The totals of a packet after both passes of the input path. -/
theorem totals_inHdrRewriteCsum {skb : SkBuff} (hw : skb.WellFormed)
    (hs : skb.ipSummed ≠ .checksumPartial) (heven : skb.EvenOptions) (dcb : CbIn) :
    (inHdrRewriteCsum skb dcb).WellFormed ∧ (inHdrRewriteCsum skb dcb).session = dcb.super ∧
      (inHdrRewriteCsum skb dcb).ipCheck ≠ 0xffff#16 ∧
      (inHdrRewriteCsum skb dcb).check ≠ 0xffff#16 ∧
      (inHdrRewriteCsum skb dcb).ipTotal = skb.ipTotal +
        (carry (dcb.super.sip + dcb.super.dip) dcb.super.dip -
          carry (dcb.super.sip + dcb.super.dip) dcb.sub.dip) ∧
      (inHdrRewriteCsum skb dcb).tcpTotal = skb.tcpTotal +
        (carry (dcb.super.sip + dcb.super.dip) dcb.super.dip -
          carry (dcb.super.sip + dcb.super.dip) dcb.sub.dip) := by
  have ht := retupled skb dcb.sub.dip dcb.super
  unfold inHdrRewriteCsum
  rw [inTupleRewriteCsum_eq, inRewrite_eq]
  generalize tupleRewriteCsum skb (addWords skb.saddr skb.daddr skb.daddr)
    (addWords dcb.super.sip dcb.super.dip dcb.sub.dip) dcb.super = s1 at *
  have hw1 : s1.WellFormed := by
    rw [ht.shape]
    exact ⟨hw.tcp, hw.header, hw.options, hw.segment⟩
  have hs1 : s1.ipSummed ≠ .checksumPartial := by
    rw [ht.shape]
    exact hs
  have heven1 : s1.EvenOptions := by
    rw [ht.shape]
    exact heven
  have hd := shifted_rewriteWith hw1 dcb.deltas
  rw [Deltas.error_even heven1] at hd
  generalize rewriteWith s1 dcb.deltas = s2 at *
  refine ⟨hd.wellFormed hw1, ?_, ?_, hd.ne_ffff hs1 (ht.ne_ffff hs), ?_, ?_⟩
  · rw [hd.session, ht.shape]
    rfl
  · rw [hd.ipCheck]
    exact ht.ipCheck_ne
  · rw [hd.ipTotal, ht.ipTotal]
  · rw [hd.total hs1, ht.total hs, add_zero]

/-- **The input path keeps checksums valid exactly when the carry is judged right**: the
two addresses of the super session, added as 32-bit words, wrap if and only if the
wrapped sum is below the destination of the subsession. -/
theorem inHdrRewriteCsum_valid_iff (skb : SkBuff) (dcb : CbIn) (hw : skb.WellFormed)
    (hs : skb.ipSummed ≠ .checksumPartial) (heven : skb.EvenOptions) (hip : skb.IpVerifies)
    (htcp : skb.TcpVerifies) :
    ((inHdrRewriteCsum skb dcb).session = dcb.super ∧
        (inHdrRewriteCsum skb dcb).ChecksumsValid) ↔
      (2 ^ 32 ≤ dcb.super.sip.toNat + dcb.super.dip.toNat ↔
        dcb.super.sip + dcb.super.dip < dcb.sub.dip) := by
  obtain ⟨hw', hsession, hipne, hne, hipT, htcpT⟩ := totals_inHdrRewriteCsum hw hs heven dcb
  rw [(SkBuff.ipVerifies_iff hw.tcp).mp hip, zero_add] at hipT
  rw [(SkBuff.tcpVerifies_iff hw.header).mp htcp, zero_add] at htcpT
  unfold SkBuff.ChecksumsValid
  rw [SkBuff.ipCheck_eq_iff hw'.tcp hipne, SkBuff.check_eq_iff hw'.header hne, hipT, htcpT,
    and_self, sub_eq_zero, carry_eq_iff, and_iff_right hsession]

/-- A segment without options and data, from 10.0.0.8 to 10.0.0.9. -/
def plainSegment : SkBuff :=
  { (default : SkBuff) with
    totLen := htons 40#16, protocol := ipprotoTcp, doff := 5#4, flags := tcphdrAck,
    saddr := 0x0800000a#32, daddr := 0x0900000a#32, ipCheck := 0xc0a6#16, check := 0xc49b#16 }

/-- A block that maps a subsession to host `10.0.0.n`, named in network order, to a session
from 10.0.0.1 to 10.0.0.2. -/
def blockFor (dip : U32) : CbIn :=
  { (default : CbIn) with
    sub.dip := dip, super.sip := 0x0100000a#32, super.dip := 0x0200000a#32 }

theorem plainSegment_wellFormed : plainSegment.WellFormed :=
  ⟨rfl, by decide, by decide, by decide⟩

/-- The subsession ends at 10.0.0.1: the carry is judged right. -/
theorem inHdrRewriteCsum_plain :
    ((inHdrRewriteCsum plainSegment (blockFor 0x0100000a#32)).session =
          (blockFor 0x0100000a#32).super ∧
        (inHdrRewriteCsum plainSegment (blockFor 0x0100000a#32)).ChecksumsValid) ↔
      (2 ^ 32 ≤ (blockFor 0x0100000a#32).super.sip.toNat +
      (blockFor 0x0100000a#32).super.dip.toNat ↔
        (blockFor 0x0100000a#32).super.sip + (blockFor 0x0100000a#32).super.dip <
          (blockFor 0x0100000a#32).sub.dip) :=
  inHdrRewriteCsum_valid_iff _ _ plainSegment_wellFormed (by decide) (by decide)
    (by decide +kernel) (by decide +kernel)

/-- The subsession ends at 10.0.0.9: a valid packet is delivered with wrong checksums. -/
theorem inHdrRewriteCsum_corrupts :
    plainSegment.WellFormed ∧ plainSegment.ipSummed ≠ .checksumPartial ∧
      plainSegment.EvenOptions ∧ plainSegment.IpVerifies ∧ plainSegment.TcpVerifies ∧
      plainSegment.session.dip = (blockFor 0x0900000a#32).sub.dip ∧
      ¬ (inHdrRewriteCsum plainSegment (blockFor 0x0900000a#32)).ChecksumsValid :=
  ⟨plainSegment_wellFormed, by decide, by decide, by decide +kernel, by decide +kernel, rfl,
    by decide +kernel⟩

end Dysco
