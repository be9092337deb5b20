import Mathlib.Tactic.LinearCombination
import Dysco.Packet

/-! # Incremental checksum updates

When a word that a checksum covers changes from `a` to `b`, the checksum is
adjusted instead of being computed again.  The module has its own helpers for this
next to the kernel's; all of them move the residue of the checksum by `a - b` and
never leave `0xFFFF` behind (`residue_csumReplace4`, `csumReplace4_ne`,
`residue_replace4`, `replace4_ne`).

`ipTotal` and `tcpTotal` are the residues of everything a checksum covers, itself
included.  A packet verifies when its total is zero (`ipVerifies_iff`,
`tcpVerifies_iff`), and if moreover its checksum is not `0xFFFF`, it is the one
computed from scratch (`ipCheck_eq_of_total`, `check_eq_of_total`).
-/
namespace Dysco
open OnesComplement ByteOrder

/-! ## The helpers -/

/-- `dysco_csum_replace4`: the checksum after the word `a` is replaced by `b`. -/
def csumReplace4 (sum : U16) (a b : U32) : U16 :=
  let unfold := ~~~csumUnfold sum
  let part : U64 := (~~~a).setWidth 64 + b.setWidth 64 + unfold.setWidth 64
  csumFold (fold64 part)

/-- `dysco_csum_replace2`. -/
def csumReplace2 (sum : U16) (a b : U16) : U16 :=
  csumReplace4 sum (a.setWidth 32) (b.setWidth 32)

/-- `inet_proto_csum_replace4`, the kernel's own helper, on `th->check`.  With
`pseudohdr` the word also counts in the pseudo-header. -/
def inetProtoCsumReplace4 (skb : SkBuff) (a b : U32) (pseudohdr : Bool) : SkBuff :=
  { skb with
    check :=
      if skb.ipSummed ≠ .checksumPartial then
        csumFold (csumAdd (csumSub (~~~csumUnfold skb.check) a) b)
      else if pseudohdr then
        ~~~csumFold (csumAdd (csumSub (csumUnfold skb.check) a) b)
      else skb.check
    csum :=
      if skb.ipSummed = .checksumComplete ∧ pseudohdr = true then
        ~~~csumAdd (csumSub (~~~skb.csum) a) b
      else skb.csum }

/-- `inet_proto_csum_replace2`. -/
def inetProtoCsumReplace2 (skb : SkBuff) (a b : U16) (pseudohdr : Bool) : SkBuff :=
  inetProtoCsumReplace4 skb (a.setWidth 32) (b.setWidth 32) pseudohdr

/-- `dysco_inet_proto_csum_replace4`, the module's own version. -/
def dyscoInetProtoCsumReplace4 (skb : SkBuff) (a b : U32) (pseudohdr : Bool) : SkBuff :=
  let cpart : U64 := (~~~a).setWidth 64 + b.setWidth 64
  { skb with
    check :=
      if skb.ipSummed ≠ .checksumPartial then
        csumFold (fold64 (cpart + (~~~csumUnfold skb.check).setWidth 64))
      else if pseudohdr then
        ~~~csumFold (fold64 (cpart + (csumUnfold skb.check).setWidth 64))
      else skb.check
    csum :=
      if skb.ipSummed = .checksumComplete ∧ pseudohdr = true then
        ~~~fold64 (cpart + (~~~skb.csum).setWidth 64)
      else skb.csum }

/-- The update of a checksum changes the checksum, and the device's. -/
theorem dyscoInetProtoCsumReplace4_eq (skb : SkBuff) (a b : U32) (pseudohdr : Bool) :
    ∃ check csum, dyscoInetProtoCsumReplace4 skb a b pseudohdr =
      { skb with check := check, csum := csum } := ⟨_, _, rfl⟩

@[simp] theorem dyscoInetProtoCsumReplace4_data (skb : SkBuff) (a b : U32) (pseudohdr : Bool) :
    (dyscoInetProtoCsumReplace4 skb a b pseudohdr).data = skb.data := by
  obtain ⟨check, csum, heq⟩ := dyscoInetProtoCsumReplace4_eq skb a b pseudohdr
  rw [heq]

@[simp] theorem dyscoInetProtoCsumReplace4_doff (skb : SkBuff) (a b : U32) (pseudohdr : Bool) :
    (dyscoInetProtoCsumReplace4 skb a b pseudohdr).doff = skb.doff := by
  obtain ⟨check, csum, heq⟩ := dyscoInetProtoCsumReplace4_eq skb a b pseudohdr
  rw [heq]

@[simp] theorem dyscoInetProtoCsumReplace4_window (skb : SkBuff) (a b : U32) (pseudohdr : Bool) :
    (dyscoInetProtoCsumReplace4 skb a b pseudohdr).window = skb.window := by
  obtain ⟨check, csum, heq⟩ := dyscoInetProtoCsumReplace4_eq skb a b pseudohdr
  rw [heq]

/-! ## What an update does to a residue -/

/-- Widening a word keeps its residue. -/
theorem residue_setWidth_of_le {v w : Nat} (h : v ≤ w) (x : BitVec v) :
    residue (x.setWidth w) = residue x := by
  unfold residue
  rw [BitVec.toNat_setWidth_of_le h]

theorem residue_csumUnfold (c : U16) : residue (csumUnfold c) = residue c :=
  residue_setWidth_of_le (by decide) c

/-- Folding and complementing a sum negates its residue. -/
theorem residue_csumFold (x : U32) : residue (csumFold x) = -residue x := by
  rw [csumFold, residue_not16, residue_fold]

/-- The sum of three 32-bit words does not overflow 64 bits. -/
theorem toNat_sum64 (a b c : U32) :
    (a.setWidth 64 + b.setWidth 64 + c.setWidth 64 : U64).toNat =
      a.toNat + b.toNat + c.toNat := by
  have := a.isLt
  have := b.isLt
  have := c.isLt
  simp only [BitVec.toNat_add, BitVec.toNat_setWidth]
  omega

/-- Three words do not overflow 64 bits, so the residues add up. -/
theorem residue_sum64 (a b c : U32) :
    residue (a.setWidth 64 + b.setWidth 64 + c.setWidth 64 : U64) =
      residue a + residue b + residue c := by
  unfold residue
  rw [toNat_sum64]
  push_cast
  rfl

theorem sum64_ne_zero {a b c : U32} (h : c ≠ 0#32) :
    (a.setWidth 64 + b.setWidth 64 + c.setWidth 64 : U64) ≠ 0#64 := by
  intro hz
  apply h
  have hnat := congrArg BitVec.toNat hz
  rw [toNat_sum64, BitVec.toNat_ofNat] at hnat
  apply BitVec.eq_of_toNat_eq
  rw [BitVec.toNat_ofNat]
  omega

/-- The unfolded checksum, complemented, keeps its upper half set. -/
theorem not_csumUnfold_ne_zero (c : U16) : ~~~csumUnfold c ≠ 0#32 := by
  intro hz
  have hnat := congrArg BitVec.toNat hz
  rw [BitVec.toNat_not, csumUnfold, BitVec.toNat_setWidth, BitVec.toNat_ofNat] at hnat
  have := c.isLt
  omega

theorem csumUnfold_ne_zero {c : U16} (h : c ≠ 0#16) : csumUnfold c ≠ 0#32 := by
  intro hz
  apply h
  have hnat := congrArg BitVec.toNat hz
  rw [csumUnfold, BitVec.toNat_setWidth, BitVec.toNat_ofNat] at hnat
  apply BitVec.eq_of_toNat_eq
  rw [BitVec.toNat_ofNat]
  have := c.isLt
  omega

/-- Folding a sum that is not zero never gives all ones, the complement of zero. -/
theorem csumFold_ne_ffff {x : U32} (h : x ≠ 0#32) : csumFold x ≠ 0xffff#16 := by
  intro hf
  exact h (fold_eq_zero.mp (not_eq_ffff.mp hf))

theorem not_csumFold_ne_zero {x : U32} (h : x ≠ 0#32) : ~~~csumFold x ≠ 0#16 := by
  rw [csumFold, BitVec.not_not]
  exact fun hz => h (fold_eq_zero.mp hz)

/-- `dysco_csum_replace4` takes the old word out of the sum and puts the new one in. -/
theorem residue_csumReplace4 (sum : U16) (a b : U32) :
    residue (csumReplace4 sum a b) = residue sum + residue a - residue b := by
  rw [csumReplace4, residue_csumFold, residue_fold64, residue_sum64, residue_not32,
    residue_not32, residue_csumUnfold]
  ring

/-- It never makes a checksum of all ones, which only an empty sum has. -/
theorem csumReplace4_ne (sum : U16) (a b : U32) : csumReplace4 sum a b ≠ 0xffff#16 := by
  apply csumFold_ne_ffff
  intro hz
  exact sum64_ne_zero (not_csumUnfold_ne_zero sum) (fold64_eq_zero.mp hz)

/-! ## One statement for the updates of `th->check`

Both versions change nothing but the checksum, and change it alike.
-/

/-- `skb'` is `skb` with its TCP checksum adjusted for a word of residue `a` that
becomes one of residue `b`. -/
structure Replaced (skb skb' : SkBuff) (a b : ZMod 65535) (pseudohdr : Bool) : Prop where
  same : skb' = { skb with check := skb'.check, csum := skb'.csum }
  residue_check : skb.ipSummed ≠ .checksumPartial →
    residue skb'.check = residue skb.check + a - b
  ne_ffff : skb.ipSummed ≠ .checksumPartial → skb'.check ≠ 0xffff#16
  residue_partial : skb.ipSummed = .checksumPartial → pseudohdr = true →
    residue skb'.check = residue skb.check - a + b
  ne_zero : skb.ipSummed = .checksumPartial → skb.check ≠ 0#16 → skb'.check ≠ 0#16
  unchanged : skb.ipSummed = .checksumPartial → pseudohdr = false → skb'.check = skb.check

/-- **The kernel's update.** -/
theorem replaced_inet (skb : SkBuff) (a b : U32) (pseudohdr : Bool) :
    Replaced skb (inetProtoCsumReplace4 skb a b pseudohdr) (residue a) (residue b) pseudohdr where
  same := rfl
  residue_check h := by
    simp only [inetProtoCsumReplace4, if_pos h]
    rw [residue_csumFold, csumAdd, residue_addc, csumSub, csumAdd, residue_addc, residue_not32,
      residue_not32, residue_csumUnfold]
    ring
  ne_ffff h := by
    simp only [inetProtoCsumReplace4, if_pos h]
    apply csumFold_ne_ffff
    intro hz
    exact not_csumUnfold_ne_zero _ (addc_eq_zero.mp (addc_eq_zero.mp hz).1).1
  residue_partial h hp := by
    simp only [inetProtoCsumReplace4, h, hp, ne_eq, not_true_eq_false, if_false, if_true]
    rw [residue_not16, residue_csumFold, csumAdd, residue_addc, csumSub, csumAdd, residue_addc,
      residue_not32, residue_csumUnfold]
    ring
  ne_zero h hc := by
    simp only [inetProtoCsumReplace4, h, ne_eq, not_true_eq_false, if_false]
    split
    · apply not_csumFold_ne_zero
      intro hz
      exact csumUnfold_ne_zero hc (addc_eq_zero.mp (addc_eq_zero.mp hz).1).1
    · exact hc
  unchanged h hp := by
    simp [inetProtoCsumReplace4, h, hp]

/-- **The module's update.** -/
theorem replaced_dysco (skb : SkBuff) (a b : U32) (pseudohdr : Bool) :
    Replaced skb (dyscoInetProtoCsumReplace4 skb a b pseudohdr) (residue a) (residue b)
      pseudohdr where
  same := rfl
  residue_check h := by
    simp only [dyscoInetProtoCsumReplace4, if_pos h]
    rw [residue_csumFold, residue_fold64, residue_sum64, residue_not32, residue_not32,
      residue_csumUnfold]
    ring
  ne_ffff h := by
    simp only [dyscoInetProtoCsumReplace4, if_pos h]
    apply csumFold_ne_ffff
    intro hz
    exact sum64_ne_zero (not_csumUnfold_ne_zero _) (fold64_eq_zero.mp hz)
  residue_partial h hp := by
    simp only [dyscoInetProtoCsumReplace4, h, hp, ne_eq, not_true_eq_false, if_false, if_true]
    rw [residue_not16, residue_csumFold, residue_fold64, residue_sum64, residue_not32,
      residue_csumUnfold]
    ring
  ne_zero h hc := by
    simp only [dyscoInetProtoCsumReplace4, h, ne_eq, not_true_eq_false, if_false]
    split
    · apply not_csumFold_ne_zero
      intro hz
      exact sum64_ne_zero (csumUnfold_ne_zero hc) (fold64_eq_zero.mp hz)
    · exact hc
  unchanged h hp := by
    simp [dyscoInetProtoCsumReplace4, h, hp]

/-- `inet_proto_csum_replace2` replaces a word of the segment. -/
theorem replaced_inet2 (skb : SkBuff) (a b : U16) (pseudohdr : Bool) :
    Replaced skb (inetProtoCsumReplace2 skb a b pseudohdr) (residue a) (residue b)
      pseudohdr := by
  have h := replaced_inet skb (a.setWidth 32) (b.setWidth 32) pseudohdr
  rwa [residue_setWidth_of_le (by decide), residue_setWidth_of_le (by decide)] at h

/-! ## Totals -/

namespace SkBuff

/-- The residue of the IP header words the module never changes. -/
def ipRest (skb : SkBuff) : ZMod 65535 :=
  residue (word16 (BitVec.ofNat 8 (64 + skb.ihl)) skb.tos) + residue skb.totLen +
    residue skb.id + residue skb.fragOff + residue (word16 skb.ttl skb.protocol) +
    (skb.ipOptions.map residue).sum

/-- The residue of the IP header, checksum included. -/
def ipTotal (skb : SkBuff) : ZMod 65535 :=
  skb.ipRest + residue skb.ipCheck + residue skb.saddr + residue skb.daddr

/-- The residue of the pseudo-header. -/
def pseudoTotal (skb : SkBuff) : ZMod 65535 :=
  residue skb.saddr + residue skb.daddr +
    residue ((BitVec.ofNat 32 skb.tcpLen + ipprotoTcp.setWidth 32) <<< 8)

/-- The residue of the pseudo-header and the TCP segment, checksum included. -/
def tcpTotal (skb : SkBuff) : ZMod 65535 :=
  skb.pseudoTotal + residue skb.source + residue skb.dest + residue skb.seq +
    residue skb.ackSeq +
    residue (word16 ((skb.doff.setWidth 8 <<< 4) ||| skb.res1.setWidth 8) skb.flags) +
    residue skb.window + residue skb.check + residue skb.urgPtr +
    byteSum 0 (skb.data.take (skb.tcpLen - 20))

end SkBuff

/-- A word counts as its two halves. -/
theorem sum_halves (x : U32) : ((SkBuff.halves x).map residue).sum = residue x := by
  simp only [SkBuff.halves, List.map_cons, List.map_nil, List.sum_cons, List.sum_nil]
  have h : (x.toNat : ZMod 65535) =
      ((x.toNat % 65536 : Nat) : ZMod 65535) + 65536 * ((x.toNat / 65536 : Nat) : ZMod 65535) := by
    have hdiv : x.toNat = x.toNat % 65536 + 65536 * (x.toNat / 65536) := by omega
    calc (x.toNat : ZMod 65535)
        = ((x.toNat % 65536 + 65536 * (x.toNat / 65536) : Nat) : ZMod 65535) := by rw [← hdiv]
      _ = _ := by push_cast; ring
  unfold residue
  rw [h, cast_two_pow_16, BitVec.toNat_setWidth, BitVec.toNat_setWidth, toNat_high16,
    Nat.mod_eq_of_lt (show x.toNat / 65536 < 2 ^ 16 from by have := x.isLt; omega)]
  ring

theorem sum_flatMap_halves (xs : List U32) :
    ((xs.flatMap SkBuff.halves).map residue).sum = (xs.map residue).sum := by
  induction xs with
  | nil => rfl
  | cons x xs ih =>
    rw [List.flatMap_cons, List.map_append, List.sum_append, sum_halves, ih, List.map_cons,
      List.sum_cons]

/-- Two bytes count as the word that they make. -/
theorem byteSum_bytes16 (x : U16) : byteSum 0 (bytes16 x) = residue x := by
  simp only [bytes16, byteSum, weight, byte, residue, BitVec.toNat_ofNat]
  have hx := x.isLt
  have h : (x.toNat : ZMod 65535) = ((x.toNat % 256 : Nat) : ZMod 65535) +
      256 * ((x.toNat / 256 : Nat) : ZMod 65535) := by
    have hdiv : x.toNat = x.toNat % 256 + 256 * (x.toNat / 256) := by omega
    calc (x.toNat : ZMod 65535)
        = ((x.toNat % 256 + 256 * (x.toNat / 256) : Nat) : ZMod 65535) := by rw [← hdiv]
      _ = _ := by push_cast; ring
  simp only [Nat.reducePow, Nat.div_one, if_true, Nat.zero_add, Nat.one_mod,
    Nat.one_ne_zero, if_false, Nat.mod_eq_of_lt (show x.toNat / 256 < 256 from by omega)]
  rw [h]
  ring

theorem byteSum_bytes32 (x : U32) : byteSum 0 (bytes32 x) = residue x := by
  have hload := residue_load32 (bytes32 x) 0
  have hx := load32_bytes32 [] [] x
  simp only [List.append_nil, List.nil_append, List.length_nil] at hx
  rw [hx] at hload
  rw [hload]
  simp only [bytes32, byteSum, weight, byteAt, List.getD_cons_zero, List.getD_cons_succ]
  norm_num
  ring

theorem byteSum_pair (lo hi : U8) : byteSum 0 [lo, hi] = residue (word16 lo hi) := by
  rw [residue_word16]
  simp [byteSum, weight]

/-- A part of even length does not shift the bytes behind it. -/
theorem byteSum_append_even {bs : List U8} (h : bs.length % 2 = 0) (cs : List U8) :
    byteSum 0 (bs ++ cs) = byteSum 0 bs + byteSum 0 cs := by
  rw [byteSum_append, Nat.zero_add, byteSum_of_even h]

/-! ## Verifying is having total zero -/

/-- A sum that is not zero folds to zero exactly when its residue is zero. -/
theorem csumFold_eq_zero {x : U32} (hx : x ≠ 0#32) : csumFold x = 0#16 ↔ residue x = 0 := by
  constructor
  · intro h
    have hres := residue_csumFold x
    rw [h, residue_zero] at hres
    rw [← neg_neg (residue x), ← hres, neg_zero]
  · intro h
    apply eq_of_residue (csumFold_ne_ffff hx) (by decide)
    rw [residue_csumFold, h, neg_zero, residue_zero]

theorem csumPartial_ne_zero (bs : List U8) {sum : U32} (h : sum ≠ 0#32) :
    csumPartial bs sum ≠ 0#32 :=
  sumWords_ne_zero _ h

/-- `csum_partial` adds the bytes to the sum that it is given. -/
theorem residue_csumPartial (bs : List U8) (sum : U32) :
    residue (csumPartial bs sum) = residue sum + byteSum 0 bs := by
  rw [csumPartial, residue_sumWords, sum_words]

namespace SkBuff

/-- The IP header counts its two addresses, its checksum and the rest. -/
theorem residue_ipWords (skb : SkBuff) (check : U16) :
    ((skb.ipWords check).map residue).sum =
      skb.ipRest + residue check + residue skb.saddr + residue skb.daddr := by
  simp only [ipWords, List.map_append, List.sum_append, List.map_cons, List.sum_cons,
    List.map_nil, List.sum_nil, sum_halves, sum_flatMap_halves, ipRest]
  ring

/-- The header of a TCP packet does not sum to the zero word. -/
theorem sumWords_ipWords_ne_zero {skb : SkBuff} (h : skb.protocol = ipprotoTcp) (check : U16) :
    sumWords (skb.ipWords check) 0#32 ≠ 0#32 := by
  have hmem : word16 skb.ttl skb.protocol ∈ skb.ipWords check := by simp [ipWords]
  apply sumWords_ne_zero_of_mem hmem
  intro hz
  have hnat := congrArg BitVec.toNat hz
  rw [toNat_word16, h] at hnat
  simp [ipprotoTcp] at hnat

/-- The pseudo header counts the addresses, the protocol and the length. -/
theorem residue_pseudoSum (skb : SkBuff) : residue skb.pseudoSum = skb.pseudoTotal := by
  rw [pseudoSum, csumTcpudpNofold, csumAdd, residue_addc, csumAdd, residue_addc, csumAdd,
    residue_addc, residue_zero, zero_add, pseudoTotal]

theorem tcpLen_lt (skb : SkBuff) : skb.tcpLen < 65536 := by
  have := (ntohs skb.totLen).isLt
  unfold tcpLen
  omega

/-- The length and protocol keep the pseudo-header from summing to zero. -/
theorem pseudoSum_ne_zero (skb : SkBuff) : skb.pseudoSum ≠ 0#32 := by
  intro hz
  have hlast := congrArg BitVec.toNat (addc_eq_zero.mp hz).2
  have hlt := skb.tcpLen_lt
  simp only [ipprotoTcp, BitVec.toNat_shiftLeft, BitVec.toNat_add, BitVec.toNat_ofNat,
    BitVec.toNat_setWidth, Nat.shiftLeft_eq] at hlast
  omega

theorem length_tcpHeader (skb : SkBuff) (check : U16) : (skb.tcpHeader check).length = 20 := rfl

/-- The TCP header counts each of its fields. -/
theorem byteSum_tcpHeader (skb : SkBuff) (check : U16) : byteSum 0 (skb.tcpHeader check) =
    residue skb.source + residue skb.dest + residue skb.seq + residue skb.ackSeq +
      residue (word16 ((skb.doff.setWidth 8 <<< 4) ||| skb.res1.setWidth 8) skb.flags) +
      residue skb.window + residue check + residue skb.urgPtr := by
  unfold tcpHeader
  rw [byteSum_append_even (by simp), byteSum_append_even (by simp), byteSum_append_even (by simp),
    byteSum_append_even (by simp), byteSum_append_even (by simp), byteSum_append_even (by simp),
    byteSum_append_even (by simp), byteSum_pair]
  simp only [byteSum_bytes16, byteSum_bytes32]
  ring

/-- The segment counts its header and what lies behind it, up to its length. -/
theorem byteSum_tcpBytes {skb : SkBuff} (h : 20 ≤ skb.tcpLen) (check : U16) :
    byteSum 0 ((skb.tcpBytes check).take skb.tcpLen) =
      byteSum 0 (skb.tcpHeader check) + byteSum 0 (skb.data.take (skb.tcpLen - 20)) := by
  rw [tcpBytes, List.take_append, length_tcpHeader, List.take_of_length_le
    (by rw [length_tcpHeader]; exact h), byteSum_append_even (by rw [length_tcpHeader])]

/-- **The IP header verifies when its total is zero.** -/
theorem ipVerifies_iff {skb : SkBuff} (h : skb.protocol = ipprotoTcp) :
    skb.IpVerifies ↔ skb.ipTotal = 0 := by
  unfold IpVerifies ipFastCsum
  rw [csumFold_eq_zero (sumWords_ipWords_ne_zero h _), residue_sumWords, residue_zero, zero_add,
    residue_ipWords, ipTotal]

/-- **The TCP segment verifies when its total is zero.** -/
theorem tcpVerifies_iff {skb : SkBuff} (h : 20 ≤ skb.tcpLen) :
    skb.TcpVerifies ↔ skb.tcpTotal = 0 := by
  unfold TcpVerifies
  rw [csumFold_eq_zero (csumPartial_ne_zero _ skb.pseudoSum_ne_zero), residue_csumPartial,
    residue_pseudoSum, byteSum_tcpBytes h, byteSum_tcpHeader, tcpTotal]
  ring_nf

/-- **A header with total zero carries the checksum computed from scratch**, unless it
carries `0xFFFF`. -/
theorem ipCheck_eq_iff {skb : SkBuff} (h : skb.protocol = ipprotoTcp)
    (hne : skb.ipCheck ≠ 0xffff#16) : skb.ipCheck = skb.ipChecksum ↔ skb.ipTotal = 0 := by
  have hscratch : residue skb.ipChecksum =
      -(skb.ipRest + residue skb.saddr + residue skb.daddr) := by
    rw [ipChecksum, ipFastCsum, residue_csumFold, residue_sumWords, residue_zero, zero_add,
      residue_ipWords, residue_zero, add_zero]
  constructor
  · intro heq
    have hcheck : residue skb.ipCheck = residue skb.ipChecksum := congrArg residue heq
    rw [ipTotal, hcheck, hscratch]
    ring
  · intro htotal
    apply eq_of_residue hne (csumFold_ne_ffff (sumWords_ipWords_ne_zero h _))
    rw [← ipFastCsum, ← ipChecksum, hscratch]
    rw [ipTotal] at htotal
    linear_combination htotal

/-- **A segment with total zero carries the checksum computed from scratch**, unless it
carries `0xFFFF`. -/
theorem check_eq_iff {skb : SkBuff} (h : 20 ≤ skb.tcpLen) (hne : skb.check ≠ 0xffff#16) :
    skb.check = skb.tcpChecksum ↔ skb.tcpTotal = 0 := by
  have hscratch : residue skb.tcpChecksum = -(skb.tcpTotal - residue skb.check) := by
    rw [tcpChecksum, residue_csumFold, residue_csumPartial, residue_pseudoSum,
      byteSum_tcpBytes h, byteSum_tcpHeader, residue_zero, tcpTotal]
    ring
  constructor
  · intro heq
    have hcheck : residue skb.check = residue skb.tcpChecksum := congrArg residue heq
    rw [hscratch] at hcheck
    linear_combination hcheck
  · intro htotal
    apply eq_of_residue hne (csumFold_ne_ffff (csumPartial_ne_zero _ skb.pseudoSum_ne_zero))
    rw [← tcpChecksum, hscratch, htotal]
    ring

/-- `th->check` holds the folded sum of the pseudo-header, for the device to complete. -/
def CheckIsPseudo (skb : SkBuff) : Prop :=
  skb.check = ~~~tcpV4Check skb.tcpLen skb.saddr skb.daddr 0#32

instance (skb : SkBuff) : Decidable skb.CheckIsPseudo := inferInstanceAs (Decidable (_ = _))

/-- When the device is to finish the checksum, the field holds the sum of the pseudo header. -/
theorem checkIsPseudo_iff (skb : SkBuff) :
    skb.CheckIsPseudo ↔ skb.check ≠ 0#16 ∧ residue skb.check = skb.pseudoTotal := by
  have hfold : ~~~tcpV4Check skb.tcpLen skb.saddr skb.daddr 0#32 = fold skb.pseudoSum := by
    rw [tcpV4Check, csumFold, BitVec.not_not, pseudoSum]
  have hne : fold skb.pseudoSum ≠ 0#16 := fun hz => skb.pseudoSum_ne_zero (fold_eq_zero.mp hz)
  unfold CheckIsPseudo
  rw [hfold]
  constructor
  · intro heq
    rw [heq]
    exact ⟨hne, by rw [residue_fold, residue_pseudoSum]⟩
  · rintro ⟨hc, hres⟩
    apply eq_of_residue_of_ne_zero hc hne
    rw [hres, residue_fold, residue_pseudoSum]

end SkBuff
end Dysco
