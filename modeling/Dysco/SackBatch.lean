import Dysco.SackEdges

/-! # The batched SACK translation

`dysco_tcp_sack_csum` is the sibling of `dysco_tcp_sack` that adds up the old and the
new edges in 64 bits and adjusts the checksum once, behind its loop.  The two leave
the same bytes behind (`tcpSackCsum_data`).  Their checksums denote the same value
unless the loop of the batched version returns from its middle, at an end-of-list
byte or at an option it does not accept: then the edges are written but the
checksum is not adjusted.
-/
namespace Dysco
open OnesComplement ByteOrder

/-! ## The batched version -/

/-- The loop over the options uses up the option area, so that it is left at its
head and not by a `return`. -/
def endsFrom (data : List U8) : Nat → Nat → Nat → Bool
  | 0, _, length => decide (length = 0)
  | fuel + 1, ptr, length =>
    if length = 0 then true
    else
      let opcode := byteAt data ptr
      if opcode = tcpoptEol then false
      else if opcode = tcpoptNop then endsFrom data fuel (ptr + 1) (length - 1)
      else
        let opsize := (byteAt data (ptr + 1)).toNat
        if opsize < 2 then false
        else if length < opsize then false
        else endsFrom data fuel (ptr + opsize) (length - opsize)

def SkBuff.optionsEnd (skb : SkBuff) : Bool := endsFrom skb.data skb.optLen 0 skb.optLen

/-- The locals of `dysco_tcp_sack_csum` that outlive a round of its loop. -/
structure SackSum where
  fixChecksum : Bool
  from64 : U64
  to64 : U64

/-- One block of a SACK option: both edges are added up and written. -/
def sackCsumBlock (delta : U32) (add : Bool) (s : SkBuff × SackSum) (lptr : Nat) :
    SkBuff × SackSum :=
  let leftEdge := load32 s.1.data lptr
  let rightEdge := load32 s.1.data (lptr + 4)
  let newAckL := htonl (shift delta add (ntohl leftEdge))
  let newAckR := htonl (shift delta add (ntohl rightEdge))
  let sum :=
    if s.1.ipSummed ≠ .checksumPartial then
      { fixChecksum := true
        from64 := s.2.from64 + leftEdge.setWidth 64 + rightEdge.setWidth 64
        to64 := s.2.to64 + newAckL.setWidth 64 + newAckR.setWidth 64 }
    else s.2
  ((s.1.store lptr newAckL).store (lptr + 4) newAckR, sum)

/-- The blocks of a SACK option, from offset `lptr` on. -/
def sackCsumBlocks (delta : U32) (add : Bool) : Nat → SkBuff × SackSum → Nat → SkBuff × SackSum
  | 0, s, _ => s
  | n + 1, s, lptr => sackCsumBlocks delta add n (sackCsumBlock delta add s lptr) (lptr + 8)

/-- `dysco_tcp_sack_csum`: translates the edges of the SACK blocks and adjusts the
checksum once. -/
def tcpSackCsum (skb : SkBuff) (delta : U32) (add : Bool) : SkBuff :=
  let s := skb.options.foldl
    (fun s o =>
      if o.IsSack then sackCsumBlocks delta add ((o.size - 2) / 8) s o.ptr else s)
    (skb, { fixChecksum := false, from64 := 0#64, to64 := 0#64 })
  -- a `return` in the loop skips the update behind it
  if skb.optionsEnd && s.2.fixChecksum then
    dyscoInetProtoCsumReplace4 s.1 (fold64 s.2.from64) (fold64 s.2.to64) false
  else s.1

/-! ## One pass over the edges -/

section Edges
variable (f : U32 → U32)

/-- One edge: it is added up and written. -/
def sackCsumEdge (s : SkBuff × SackSum) (k : Nat) : SkBuff × SackSum :=
  let sum :=
    if s.1.ipSummed ≠ .checksumPartial then
      { fixChecksum := true
        from64 := s.2.from64 + (load32 s.1.data k).setWidth 64
        to64 := s.2.to64 + (s.1.newWord k f).setWidth 64 }
    else s.2
  (s.1.store k (s.1.newWord k f), sum)

/-- A packet with some words replaced and its checksum as it was. -/
def SkBuff.storeWords (skb : SkBuff) (ks : List Nat) : SkBuff :=
  { skb with data := (skb.replaceWords ks f).data }

/-- The sum of the words at some offsets. -/
def SkBuff.oldSum (skb : SkBuff) (ks : List Nat) : Nat :=
  (ks.map fun k => (load32 skb.data k).toNat).sum

/-- The sum of the words that replace them. -/
def SkBuff.newSum (skb : SkBuff) (ks : List Nat) : Nat :=
  (ks.map fun k => (skb.newWord k f).toNat).sum

/-- A word is read and replaced alike in packets with the same bytes. -/
theorem replaceWords_data_congr {skb skb' : SkBuff} (h : skb'.data = skb.data) (ks : List Nat) :
    (skb'.replaceWords ks f).data = (skb.replaceWords ks f).data := by
  induction ks generalizing skb skb' with
  | nil => exact h
  | cons k ks ih =>
    rw [replaceWords_cons, replaceWords_cons]
    apply ih
    rw [SkBuff.replaceWord_data, SkBuff.replaceWord_data, SkBuff.newWord, SkBuff.newWord, h]

theorem storeWords_cons (skb : SkBuff) (k : Nat) (ks : List Nat) :
    skb.storeWords f (k :: ks) = (skb.store k (skb.newWord k f)).storeWords f ks := by
  have hdata : (skb.replaceWords (k :: ks) f).data =
      ((skb.store k (skb.newWord k f)).replaceWords ks f).data := by
    have hstep : (skb.replaceWord k f).data = (skb.store k (skb.newWord k f)).data := rfl
    rw [replaceWords_cons]
    exact replaceWords_data_congr f hstep ks
  rw [SkBuff.storeWords, SkBuff.storeWords, hdata]
  rfl

/-- Writing a word leaves the sums over the words behind it alone. -/
theorem sums_store (skb : SkBuff) {k : Nat} {ks : List Nat} (h : ∀ k' ∈ ks, k + 4 ≤ k')
    (x : U32) :
    (skb.store k x).oldSum ks = skb.oldSum ks ∧ (skb.store k x).newSum f ks = skb.newSum f ks := by
  have hload : ∀ k' ∈ ks, load32 (skb.store k x).data k' = load32 skb.data k' :=
    fun k' hk' => load32_store32_of_disjoint (Or.inr (h k' hk')) x
  constructor
  · rw [SkBuff.oldSum, SkBuff.oldSum,
      List.map_congr_left fun k' hk' => congrArg BitVec.toNat (hload k' hk')]
  · rw [SkBuff.newSum, SkBuff.newSum, List.map_congr_left fun k' hk' => ?_]
    rw [SkBuff.newWord, SkBuff.newWord, hload k' hk']

/-- Adding up in 64 bits. -/
theorem add_ofNat64 (x : U64) (w : U32) (n : Nat) :
    x + w.setWidth 64 + BitVec.ofNat 64 n = x + BitVec.ofNat 64 (w.toNat + n) := by
  rw [BitVec.ofNat_add, ← BitVec.add_assoc, BitVec.ofNat_toNat]

/-- **What the pass leaves behind**: the words are written, and unless the device completes the
checksum, the old and the new words have been added up. -/
theorem foldl_sackCsumEdge {skb : SkBuff} {ks : List Nat} (hks : Apart ks) (sum : SackSum) :
    ks.foldl (sackCsumEdge f) (skb, sum) =
      (skb.storeWords f ks,
        if skb.ipSummed ≠ .checksumPartial then
          { fixChecksum := sum.fixChecksum || !ks.isEmpty
            from64 := sum.from64 + BitVec.ofNat 64 (skb.oldSum ks)
            to64 := sum.to64 + BitVec.ofNat 64 (skb.newSum f ks) }
        else sum) := by
  induction ks generalizing skb sum with
  | nil =>
    simp only [List.foldl_nil, SkBuff.storeWords, SkBuff.replaceWords, SkBuff.oldSum,
      SkBuff.newSum, List.map_nil, List.sum_nil, BitVec.add_zero, List.isEmpty_nil,
      Bool.not_true, Bool.or_false, ite_self]
  | cons k ks ih =>
    have hbehind : ∀ k' ∈ ks, k + 4 ≤ k' := fun _ hk' => List.rel_of_pairwise_cons hks hk'
    obtain ⟨hold, hnew⟩ := sums_store f skb hbehind (skb.newWord k f)
    rw [List.foldl_cons, sackCsumEdge, ih hks.of_cons, storeWords_cons]
    have hmode : (skb.store k (skb.newWord k f)).ipSummed = skb.ipSummed := rfl
    simp only [hold, hnew, hmode]
    split
    · simp only [SkBuff.oldSum, SkBuff.newSum, List.map_cons, List.sum_cons, add_ofNat64,
        List.isEmpty_cons, Bool.not_false, Bool.or_true, Bool.true_or]
    · rfl

end Edges

theorem sackCsumBlock_eq (delta : U32) (add : Bool) (s : SkBuff × SackSum) (lptr : Nat) :
    sackCsumBlock delta add s lptr =
      sackCsumEdge (shift delta add) (sackCsumEdge (shift delta add) s lptr) (lptr + 4) := by
  have hright : ∀ x, load32 (s.1.store lptr x).data (lptr + 4) = load32 s.1.data (lptr + 4) :=
    fun x => load32_store32_of_disjoint (by omega) x
  have hmode : ∀ x, (s.1.store lptr x).ipSummed = s.1.ipSummed := fun _ => rfl
  simp only [sackCsumBlock, sackCsumEdge, SkBuff.newWord, hright, hmode]
  split <;> rfl

theorem sackCsumBlocks_eq (delta : U32) (add : Bool) (n : Nat) (s : SkBuff × SackSum)
    (lptr : Nat) : sackCsumBlocks delta add n s lptr =
      (blockEdges lptr n).foldl (sackCsumEdge (shift delta add)) s := by
  induction n generalizing s lptr with
  | zero => rfl
  | succ n ih =>
    rw [sackCsumBlocks, sackCsumBlock_eq, ih, blockEdges, List.foldl_cons, List.foldl_cons]

/-- The loop is one pass over the edges of the packet. -/
theorem foldl_options_eq (delta : U32) (add : Bool) (options : List TcpOption)
    (s : SkBuff × SackSum) :
    options.foldl (fun s o =>
      if o.IsSack then sackCsumBlocks delta add ((o.size - 2) / 8) s o.ptr else s) s =
      (options.flatMap TcpOption.edges).foldl (sackCsumEdge (shift delta add)) s := by
  rw [List.foldl_flatMap]
  congr 1
  funext s o
  rw [TcpOption.edges]
  split
  · rw [sackCsumBlocks_eq]
  · rfl

/-! ## The sums do not overflow -/

/-- Words four apart fill the area they lie in. -/
theorem length_le_of_apart {ks : List Nat} (hks : Apart ks) {lo n : Nat}
    (h : ∀ k ∈ ks, lo ≤ k ∧ k + 4 ≤ n) : ks.length * 4 ≤ n - lo := by
  induction ks generalizing lo with
  | nil => simp
  | cons k ks ih =>
    have hk := h k List.mem_cons_self
    have hrest : ∀ k' ∈ ks, k + 4 ≤ k' ∧ k' + 4 ≤ n := fun k' hk' =>
      ⟨List.rel_of_pairwise_cons hks hk', (h k' (List.mem_cons_of_mem _ hk')).2⟩
    have := ih hks.of_cons hrest
    rw [List.length_cons]
    omega

theorem sum_le_length_mul {ws : List Nat} {m : Nat} (h : ∀ w ∈ ws, w ≤ m) :
    ws.sum ≤ ws.length * m := by
  have := List.sum_le_card_nsmul ws m h
  rwa [smul_eq_mul] at this

/-- The option area has room for ten edges at most. -/
theorem length_sackEdges (skb : SkBuff) : skb.sackEdges.length ≤ 10 := by
  have harea : ∀ k ∈ skb.sackEdges, 0 ≤ k ∧ k + 4 ≤ 40 := by
    intro k hk
    have hlen := (SkBuff.mem_sackEdges hk).2
    have := skb.doff.isLt
    rw [SkBuff.optLen] at hlen
    omega
  have := length_le_of_apart skb.apart_sackEdges harea
  omega

theorem sum_sackEdges_lt (skb : SkBuff) (g : Nat → U32) :
    (skb.sackEdges.map fun k => (g k).toNat).sum < 18446744073709551616 := by
  have hle : ∀ w ∈ skb.sackEdges.map fun k => (g k).toNat, w ≤ 4294967295 := by
    intro w hw
    obtain ⟨k, -, rfl⟩ := List.mem_map.mp hw
    have := (g k).isLt
    omega
  have hsum := sum_le_length_mul hle
  have hlen := length_sackEdges skb
  rw [List.length_map] at hsum
  omega

/-- A sum of 64 bits that does not overflow, folded. -/
theorem residue_fold64_ofNat {n : Nat} (h : n < 18446744073709551616) :
    residue (fold64 (0#64 + BitVec.ofNat 64 n)) = (n : ZMod 65535) := by
  rw [residue_fold64, BitVec.zero_add, residue, BitVec.toNat_ofNat, Nat.mod_eq_of_lt h]

/-! ## The two checksums -/

/-- The plain version adjusts the checksum edge by edge. -/
theorem residue_check_replaceWords {skb : SkBuff} {ks : List Nat} (hks : Apart ks)
    (f : U32 → U32) (hmode : skb.ipSummed ≠ .checksumPartial) :
    residue (skb.replaceWords ks f).check =
      residue skb.check + ((skb.oldSum ks : ZMod 65535) - (skb.newSum f ks : ZMod 65535)) := by
  induction ks generalizing skb with
  | nil => simp [SkBuff.replaceWords, SkBuff.oldSum, SkBuff.newSum]
  | cons k ks ih =>
    have hbehind : ∀ k' ∈ ks, k + 4 ≤ k' := fun _ hk' => List.rel_of_pairwise_cons hks hk'
    obtain ⟨hold, hnew⟩ := sums_store f skb hbehind (skb.newWord k f)
    have hcheck : residue (skb.replaceWord k f).check =
        residue skb.check + residue (load32 skb.data k) - residue (skb.newWord k f) :=
      (replaced_dysco skb (load32 skb.data k) (skb.newWord k f) false).residue_check hmode
    have holdStep : (skb.replaceWord k f).oldSum ks = skb.oldSum ks := hold
    have hnewStep : (skb.replaceWord k f).newSum f ks = skb.newSum f ks := hnew
    have hmodeStep : (skb.replaceWord k f).ipSummed ≠ .checksumPartial := hmode
    rw [replaceWords_cons, ih hks.of_cons hmodeStep, hcheck, holdStep, hnewStep]
    simp only [SkBuff.oldSum, SkBuff.newSum, List.map_cons, List.sum_cons, Nat.cast_add, residue]
    ring

/-- If the device completes the checksum, neither version touches it. -/
theorem check_replaceWords_partial {skb : SkBuff} (ks : List Nat) (f : U32 → U32)
    (hmode : skb.ipSummed = .checksumPartial) : (skb.replaceWords ks f).check = skb.check := by
  induction ks generalizing skb with
  | nil => rfl
  | cons k ks ih =>
    have hcheck : (skb.replaceWord k f).check = skb.check :=
      (replaced_dysco skb (load32 skb.data k) (skb.newWord k f) false).unchanged hmode rfl
    have hmodeStep : (skb.replaceWord k f).ipSummed = .checksumPartial := hmode
    rw [replaceWords_cons, ih hmodeStep, hcheck]

section Batch
variable (skb : SkBuff) (delta : U32) (add : Bool)

/-- **The batched version, written out.** -/
theorem tcpSackCsum_eq : tcpSackCsum skb delta add =
    if skb.optionsEnd = true ∧ skb.ipSummed ≠ .checksumPartial ∧ skb.sackEdges ≠ [] then
      dyscoInetProtoCsumReplace4 (skb.storeWords (shift delta add) skb.sackEdges)
        (fold64 (0#64 + BitVec.ofNat 64 (skb.oldSum skb.sackEdges)))
        (fold64 (0#64 + BitVec.ofNat 64 (skb.newSum (shift delta add) skb.sackEdges))) false
    else skb.storeWords (shift delta add) skb.sackEdges := by
  rw [tcpSackCsum, foldl_options_eq]
  rw [show skb.options.flatMap TcpOption.edges = skb.sackEdges from rfl,
    foldl_sackCsumEdge _ skb.apart_sackEdges]
  by_cases hmode : skb.ipSummed = .checksumPartial
  · simp [hmode]
  · simp only [ne_eq, hmode, not_false_eq_true, if_true, true_and, Bool.false_or,
      Bool.and_eq_true, Bool.not_eq_true', List.isEmpty_eq_false_iff]

/-- **The bytes are those the plain version writes.** -/
theorem tcpSackCsum_data : (tcpSackCsum skb delta add).data = (tcpSack skb delta add).data := by
  rw [tcpSackCsum_eq, tcpSack_eq]
  split
  · exact dyscoInetProtoCsumReplace4_data _ _ _ _
  · rfl

/-- If the loop is left at its head, the checksums denote the same value. -/
theorem residue_tcpSackCsum_of_optionsEnd (hend : skb.optionsEnd = true)
    (hmode : skb.ipSummed ≠ .checksumPartial) :
    residue (tcpSackCsum skb delta add).check = residue (tcpSack skb delta add).check := by
  rw [tcpSack_eq, residue_check_replaceWords skb.apart_sackEdges _ hmode, tcpSackCsum_eq]
  by_cases hnil : skb.sackEdges = []
  · rw [if_neg fun h => h.2.2 hnil]
    simp [SkBuff.storeWords, SkBuff.oldSum, SkBuff.newSum, hnil]
  · rw [if_pos ⟨hend, hmode, hnil⟩]
    have hcheck := (replaced_dysco (skb.storeWords (shift delta add) skb.sackEdges)
      (fold64 (0#64 + BitVec.ofNat 64 (skb.oldSum skb.sackEdges)))
      (fold64 (0#64 + BitVec.ofNat 64 (skb.newSum (shift delta add) skb.sackEdges)))
      false).residue_check hmode
    have hold : skb.oldSum skb.sackEdges < 18446744073709551616 := sum_sackEdges_lt skb _
    have hnew : skb.newSum (shift delta add) skb.sackEdges < 18446744073709551616 :=
      sum_sackEdges_lt skb _
    rw [hcheck, residue_fold64_ofNat hold, residue_fold64_ofNat hnew]
    exact add_sub_assoc _ _ _

/-- If the loop is left from its middle, the checksum is not adjusted. -/
theorem check_tcpSackCsum_of_return (hend : skb.optionsEnd = false) :
    (tcpSackCsum skb delta add).check = skb.check := by
  rw [tcpSackCsum_eq, if_neg fun h => Bool.false_ne_true (hend.symm.trans h.1)]
  rfl

/-- If the device completes the checksum, it is left alone. -/
theorem check_tcpSackCsum_partial (hmode : skb.ipSummed = .checksumPartial) :
    (tcpSackCsum skb delta add).check = skb.check := by
  rw [tcpSackCsum_eq, if_neg fun h => h.2.1 hmode]
  rfl

end Batch

/-! ## How much the edges count -/

/-- Reversing the bytes of a word multiplies what it counts by 256. -/
theorem residue_swap32 (x : U32) : residue (swap32 x) = 256 * residue x := by
  obtain ⟨a, b, c, d, ha, hb, hc, hd, hx⟩ := exists_bytes x
  rw [residue, residue, toNat_swap32 ha hb hc hd hx, hx]
  push_cast
  have h : (16777216 : ZMod 65535) = 256 * 65536 := by norm_num
  have hsq : (256 : ZMod 65535) * 256 = 65536 := by norm_num
  rw [h, cast_two_pow_16]
  rw [cast_two_pow_16] at hsq
  linear_combination (-(b : ZMod 65535) - (d : ZMod 65535)) * hsq

/-- Shifting a number by `delta` takes it around the end of the number space. -/
def wraps (delta : U32) (add : Bool) (x : U32) : Bool :=
  if add then 4294967296 ≤ x.toNat + delta.toNat else x.toNat < delta.toNat

/-- `1` for an addition, `-1` for a subtraction. -/
def sign (add : Bool) : ZMod 65535 := if add then 1 else -1

theorem residue_shift (delta : U32) (add : Bool) (x : U32) :
    residue (shift delta add x) =
      residue x + sign add * (residue delta - if wraps delta add x then 1 else 0) := by
  have hx := x.isLt
  have hd := delta.isLt
  cases add with
  | true =>
    have hsum : (x + delta).toNat + (if wraps delta true x then 4294967296 else 0) =
        x.toNat + delta.toNat := by
      simp only [wraps, if_true, decide_eq_true_eq, BitVec.toNat_add]
      split <;> omega
    have hcast := congrArg (Nat.cast (R := ZMod 65535)) hsum
    simp only [Nat.cast_add, Nat.cast_ite, Nat.cast_ofNat, cast_two_pow_32, Nat.cast_zero] at hcast
    simp only [shift, sign, if_true, residue]
    linear_combination hcast
  | false =>
    have hsum : (x - delta).toNat + delta.toNat =
        x.toNat + if wraps delta false x then 4294967296 else 0 := by
      simp only [wraps, Bool.false_eq_true, if_false, decide_eq_true_eq, BitVec.toNat_sub]
      split <;> omega
    have hcast := congrArg (Nat.cast (R := ZMod 65535)) hsum
    simp only [Nat.cast_add, Nat.cast_ite, Nat.cast_ofNat, cast_two_pow_32, Nat.cast_zero] at hcast
    simp only [shift, sign, Bool.false_eq_true, if_false, residue]
    linear_combination hcast

/-- The edges whose translation wraps around. -/
def SkBuff.wrapCount (skb : SkBuff) (delta : U32) (add : Bool) : Nat :=
  skb.sackEdges.countP fun k => wraps delta add (ntohl (load32 skb.data k))

/-- What one edge counts less than its translation. -/
theorem residue_newWord (skb : SkBuff) (delta : U32) (add : Bool) (k : Nat) :
    residue (load32 skb.data k) - residue (skb.newWord k (shift delta add)) =
      -(256 * sign add) * (residue delta -
        if wraps delta add (ntohl (load32 skb.data k)) then 1 else 0) := by
  have hword : residue (load32 skb.data k) = 256 * residue (ntohl (load32 skb.data k)) := by
    rw [← residue_swap32, swap32_swap32]
  rw [SkBuff.newWord, residue_swap32, residue_shift, hword]
  ring

/-- **What all edges count less than their translations.** -/
theorem sums_sackEdges (skb : SkBuff) (delta : U32) (add : Bool) :
    (skb.oldSum skb.sackEdges : ZMod 65535) -
      (skb.newSum (shift delta add) skb.sackEdges : ZMod 65535) =
      -(256 * sign add) * ((skb.sackEdges.length * delta.toNat : Nat) -
        (skb.wrapCount delta add : Nat)) := by
  rw [SkBuff.oldSum, SkBuff.newSum, SkBuff.wrapCount]
  generalize skb.sackEdges = ks
  induction ks with
  | nil => simp
  | cons k ks ih =>
    have hedge := residue_newWord skb delta add k
    rw [residue, residue, residue] at hedge
    simp only [List.map_cons, List.sum_cons, List.length_cons, List.countP_cons]
    push_cast at ih ⊢
    linear_combination ih + hedge

/-- The edges count what their translations do if the delta, taken once for each edge,
counts as much as the wrap-arounds. -/
theorem sums_sackEdges_eq_zero_iff (skb : SkBuff) (delta : U32) (add : Bool) :
    (skb.oldSum skb.sackEdges : ZMod 65535) -
      (skb.newSum (shift delta add) skb.sackEdges : ZMod 65535) = 0 ↔
      skb.sackEdges.length * delta.toNat % 65535 = skb.wrapCount delta add % 65535 := by
  have hunit : IsUnit (-(256 * sign add) : ZMod 65535) := by
    refine IsUnit.of_mul_eq_one (-(256 * sign add)) ?_
    have hsq : (256 : ZMod 65535) * 256 = 65536 := by norm_num
    rw [cast_two_pow_16] at hsq
    have hsign : sign add * sign add = 1 := by cases add <;> simp [sign]
    linear_combination hsq * (sign add * sign add) + hsign
  rw [sums_sackEdges, hunit.mul_right_eq_zero, sub_eq_zero]
  exact ZMod.natCast_eq_natCast_iff _ _ _

/-! ## Agreement -/

/-- The two versions leave the same bytes behind, and checksums that denote the same
one's-complement value. -/
def SackAgree (skb : SkBuff) (delta : U32) (add : Bool) : Prop :=
  (tcpSackCsum skb delta add).data = (tcpSack skb delta add).data ∧
  residue (tcpSackCsum skb delta add).check = residue (tcpSack skb delta add).check

/-- **The versions agree unless the batched one leaves its loop by a `return`** with edges
written that count differently, in a packet whose checksum the module keeps. -/
theorem sackAgree_iff (skb : SkBuff) (delta : U32) (add : Bool) :
    SackAgree skb delta add ↔
      skb.ipSummed = .checksumPartial ∨ skb.optionsEnd = true ∨
      skb.sackEdges.length * delta.toNat % 65535 = skb.wrapCount delta add % 65535 := by
  rw [SackAgree, and_iff_right (tcpSackCsum_data skb delta add)]
  by_cases hmode : skb.ipSummed = .checksumPartial
  · rw [tcpSack_eq, check_tcpSackCsum_partial skb delta add hmode,
      check_replaceWords_partial _ _ hmode]
    exact iff_of_true rfl (Or.inl hmode)
  rw [or_iff_right hmode]
  cases hend : skb.optionsEnd with
  | true =>
    exact iff_of_true (residue_tcpSackCsum_of_optionsEnd skb delta add hend hmode) (Or.inl rfl)
  | false =>
    rw [or_iff_right Bool.false_ne_true, check_tcpSackCsum_of_return skb delta add hend,
      tcpSack_eq, residue_check_replaceWords skb.apart_sackEdges _ hmode, left_eq_add]
    exact sums_sackEdges_eq_zero_iff skb delta add

/-- One SACK block in front of the end-of-list byte, both its edges counted up by one. -/
theorem not_sackAgree : ¬ ∀ skb delta add, SackAgree skb delta add := by
  intro h
  have hres := (h { (default : SkBuff) with
    doff := 8#4, data := [5#8, 10#8] ++ List.replicate 10 0#8 } 1#32 true).2
  have hmod := (ZMod.natCast_eq_natCast_iff _ _ _).mp hres
  revert hmod
  decide +kernel

end Dysco
