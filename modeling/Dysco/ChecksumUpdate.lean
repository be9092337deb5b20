import Dysco.InternetChecksum
import Dysco.Checksum

/-! # An incremental update is a recomputation

`Replaces ws ws' a b` says that a sequence of words becomes another one by the
replacement of one aligned word.  The update helpers turn the checksum of the one
sequence into the checksum of the other, the same representative of zero included.
For a packet whose checksum the device completes, the stored value is a sum
and not a checksum; for one whose data the device has summed, that sum follows too.
-/
namespace Dysco
open OnesComplement ByteOrder

/-- The sequence `ws'` is `ws` with one word, `a`, replaced by `b`: a 32-bit word that fills
two 16-bit ones, or a 16-bit word. -/
inductive Replaces : List U16 → List U16 → U32 → U32 → Prop
  | word32 (pre post : List U16) (a b : U32) :
      Replaces (pre ++ SkBuff.halves a ++ post) (pre ++ SkBuff.halves b ++ post) a b
  | word16 (pre post : List U16) (a b : U16) :
      Replaces (pre ++ [a] ++ post) (pre ++ [b] ++ post) (a.setWidth 32) (b.setWidth 32)

/-- The sum of residues moves by the difference of the words. -/
theorem Replaces.sum_residue {ws ws' : List U16} {a b : U32} (h : Replaces ws ws' a b) :
    (ws'.map residue).sum = (ws.map residue).sum - residue a + residue b := by
  cases h with
  | word32 pre post =>
    simp only [List.map_append, List.sum_append, sum_halves]
    ring
  | word16 pre post a b =>
    rw [residue_setWidth_of_le (by decide), residue_setWidth_of_le (by decide)]
    simp only [List.map_append, List.sum_append, List.map_cons, List.map_nil, List.sum_cons,
      List.sum_nil]
    ring

/-- A value with the right residue that is not `0xFFFF` is the new checksum. -/
theorem Replaces.eq_checksum {ws ws' : List U16} {a b : U32} (h : Replaces ws ws' a b)
    (hne : ∃ w ∈ ws', w ≠ 0#16) {c : U16} (hc : c ≠ 0xffff#16)
    (hres : residue c = residue (internetChecksum ws) + residue a - residue b) :
    c = internetChecksum ws' := by
  apply eq_internetChecksum hne hc
  rw [hres, residue_internetChecksum, h.sum_residue]
  ring

/-- `dysco_csum_replace4` recomputes. -/
theorem csumReplace4_eq {ws ws' : List U16} {a b : U32} (h : Replaces ws ws' a b)
    (hne : ∃ w ∈ ws', w ≠ 0#16) :
    csumReplace4 (internetChecksum ws) a b = internetChecksum ws' :=
  h.eq_checksum hne (csumReplace4_ne _ a b) (residue_csumReplace4 _ a b)

/-- `dysco_inet_proto_csum_replace4` recomputes, unless the device completes the checksum. -/
theorem inetCsumReplace4_eq {ws ws' : List U16} {a b : U32} (h : Replaces ws ws' a b)
    (hne : ∃ w ∈ ws', w ≠ 0#16) {skb : SkBuff} (hmode : skb.ipSummed ≠ .checksumPartial)
    (hcheck : skb.check = internetChecksum ws) (pseudohdr : Bool) :
    (dyscoInetProtoCsumReplace4 skb a b pseudohdr).check = internetChecksum ws' := by
  have hrep := replaced_dysco skb a b pseudohdr
  refine h.eq_checksum hne (hrep.ne_ffff hmode) ?_
  rw [hrep.residue_check hmode, hcheck]

/-- If the device completes the checksum, the stored sum of the pseudo-header follows. -/
theorem inetCsumReplace4_partial {ws ws' : List U16} {a b : U32} (h : Replaces ws ws' a b)
    {skb : SkBuff} (hmode : skb.ipSummed = .checksumPartial)
    (hcheck : residue skb.check = residue (onesSum ws)) :
    residue (dyscoInetProtoCsumReplace4 skb a b true).check = residue (onesSum ws') := by
  have hpartial := replaced_dysco skb a b true
  have hresidue := hpartial.residue_partial hmode rfl
  rw [hresidue, hcheck, residue_onesSum, residue_onesSum, h.sum_residue]

/-- If the device has summed the packet, the complement of its sum moves with the
pseudo-header. -/
theorem residue_not_csum (skb : SkBuff) (a b : U32) (hmode : skb.ipSummed = .checksumComplete) :
    residue (~~~(dyscoInetProtoCsumReplace4 skb a b true).csum) =
      residue (~~~skb.csum) + (residue b - residue a) := by
  simp only [dyscoInetProtoCsumReplace4, hmode, and_self, if_true]
  rw [BitVec.not_not, residue_fold64, residue_sum64, residue_not32]
  ring

/-- A 32-bit word is zero if its halves are. -/
theorem halves_eq_zero {x : U32} : (∀ w ∈ SkBuff.halves x, w = 0#16) ↔ x = 0#32 := by
  constructor
  · intro h
    have hlo : x.setWidth 16 = 0#16 := h _ List.mem_cons_self
    have hhi : (x >>> 16).setWidth 16 = 0#16 := h _ (List.mem_cons_of_mem _ List.mem_cons_self)
    have hlo' := congrArg BitVec.toNat hlo
    have hhi' := congrArg BitVec.toNat hhi
    rw [BitVec.toNat_setWidth, BitVec.toNat_ofNat] at hlo'
    rw [BitVec.toNat_setWidth, toNat_high16, BitVec.toNat_ofNat] at hhi'
    apply BitVec.eq_of_toNat_eq
    have := x.isLt
    rw [BitVec.toNat_ofNat]
    omega
  · rintro rfl w hw
    simpa [SkBuff.halves] using hw

/-- `csum_fold` is the checksum of the two halves. -/
theorem csumFold_eq (x : U32) : csumFold x = internetChecksum (SkBuff.halves x) := by
  have hres : residue (fold x) = residue (onesSum (SkBuff.halves x)) := by
    rw [residue_fold, residue_onesSum, sum_halves]
  have hfold : fold x = onesSum (SkBuff.halves x) := by
    by_cases hx : x = 0#32
    · rw [onesSum_eq_zero.mpr (halves_eq_zero.mpr hx), fold_eq_zero.mpr hx]
    · refine eq_of_residue_of_ne_zero (fun h => hx (fold_eq_zero.mp h)) (fun h => hx ?_) hres
      exact halves_eq_zero.mp (onesSum_eq_zero.mp h)
  rw [csumFold, hfold, internetChecksum]

/-- **An incremental update equals recomputation.** -/
theorem update_recomputes {ws ws' : List U16} {a b : U32} (h : Replaces ws ws' a b)
    (hne : ∃ w ∈ ws', w ≠ 0#16) (skb : SkBuff) :
    -- the helpers for a checksum outside a packet
    csumReplace4 (internetChecksum ws) a b = internetChecksum ws' ∧
    (∀ (x y : U16), a = x.setWidth 32 → b = y.setWidth 32 →
      csumReplace2 (internetChecksum ws) x y = internetChecksum ws') ∧
    -- the checksum of a packet
    (skb.ipSummed ≠ .checksumPartial → skb.check = internetChecksum ws → ∀ pseudohdr,
      (dyscoInetProtoCsumReplace4 skb a b pseudohdr).check = internetChecksum ws') ∧
    (skb.ipSummed = .checksumPartial → residue skb.check = residue (onesSum ws) →
      residue (dyscoInetProtoCsumReplace4 skb a b true).check = residue (onesSum ws')) ∧
    (skb.ipSummed = .checksumPartial →
      (dyscoInetProtoCsumReplace4 skb a b false).check = skb.check) ∧
    (skb.ipSummed = .checksumComplete →
      residue (~~~(dyscoInetProtoCsumReplace4 skb a b true).csum) =
        residue (~~~skb.csum) + (residue b - residue a)) ∧
    -- the sums that are folded do not overflow, and neither do the folds
    (∀ x y z : U32, (x.setWidth 64 + y.setWidth 64 + z.setWidth 64 : U64).toNat =
      x.toNat + y.toNat + z.toNat) ∧
    (∀ x : U64,
      let y := (x &&& 0xffffffff#64) + (x >>> 32)
      let z := (y &&& 0xffffffff#64) + (y >>> 32)
      y.toNat = x.toNat % 4294967296 + x.toNat / 4294967296 ∧
      z.toNat = y.toNat % 4294967296 + y.toNat / 4294967296 ∧
      z.toNat < 4294967296 ∧ fold64 x = z.setWidth 32) ∧
    (∀ x : U32,
      let y := (x &&& 0xffff#32) + (x >>> 16)
      let z := (y &&& 0xffff#32) + (y >>> 16)
      y.toNat = x.toNat % 65536 + x.toNat / 65536 ∧
      z.toNat = y.toNat % 65536 + y.toNat / 65536 ∧
      z.toNat < 65536 ∧ fold x = z.setWidth 16) ∧
    -- folding is one's-complement addition of the halves, unfolding is zero extension
    (∀ x : U32, csumFold x = internetChecksum (SkBuff.halves x)) ∧
    (∀ c : U16, (csumUnfold c).toNat = c.toNat) := by
  refine ⟨csumReplace4_eq h hne, ?_, fun hmode hcheck => inetCsumReplace4_eq h hne hmode hcheck,
    inetCsumReplace4_partial h, fun hmode => (replaced_dysco skb a b false).unchanged hmode rfl,
    residue_not_csum skb a b, toNat_sum64, fold64_steps, fold_steps, csumFold_eq, ?_⟩
  · rintro x y rfl rfl
    exact csumReplace4_eq h hne
  · exact fun c => BitVec.toNat_setWidth_of_le (by decide)

/-- The first half of a 32-bit word counted from 0 to 1, in front of a word of ones. -/
theorem update_recomputes_one :
    csumReplace4 (internetChecksum [0#16, 0#16, 0xffff#16]) 0#32 1#32 =
      internetChecksum [1#16, 0#16, 0xffff#16] :=
  (update_recomputes (Replaces.word32 [] [0xffff#16] 0#32 1#32)
    ⟨1#16, by decide, by decide⟩ default).1

end Dysco
