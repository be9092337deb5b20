import Dysco.Input
import Dysco.SackEdges

/-! # Rewriting and the TCP checksum

Both directions rewrite a packet in the same two passes: the five-tuple, under one
pair of pre-added address words (`tupleRewriteCsum`), and the numbers, by the deltas of
a control block (`rewriteWith`).

`Shifted skb skb' d` says that a pass changed nothing but numbers and moved the total of
the segment by `d`.  Replacing a word of the fixed header moves it by nothing; replacing
a word behind it moves it by the difference of the two words, times the weight of the
offset less one (`shifted_word`), because the update counts the word as if it began at
an even offset.
-/
namespace Dysco
open OnesComplement ByteOrder

/-! ## Packets whose lengths fit together -/

/-- A TCP packet whose header and options lie inside the segment, and the segment
inside the packet. -/
structure SkBuff.WellFormed (skb : SkBuff) : Prop where
  tcp : skb.protocol = ipprotoTcp
  header : 20 ≤ skb.tcpLen
  options : skb.doff.toNat * 4 ≤ skb.tcpLen
  segment : skb.tcpLen ≤ 20 + skb.data.length

theorem SkBuff.WellFormed.word_le {skb : SkBuff} (hw : skb.WellFormed) {k : Nat}
    (hk : k + 4 ≤ skb.optLen) : k + 4 ≤ skb.tcpLen - 20 ∧ skb.tcpLen - 20 ≤ skb.data.length := by
  have := hw.options
  have := hw.segment
  unfold optLen at hk
  omega

/-! ## Moving a total -/

/-- A pass over the numbers of a packet that moves its total by `d`, unless the device is
to compute the checksum. -/
structure Shifted (skb skb' : SkBuff) (d : ZMod 65535) : Prop where
  shape : skb' =
    { skb with
      seq := skb'.seq
      ackSeq := skb'.ackSeq
      window := skb'.window
      check := skb'.check
      csum := skb'.csum
      data := skb'.data }
  length : skb'.data.length = skb.data.length
  total : skb.ipSummed ≠ .checksumPartial → skb'.tcpTotal = skb.tcpTotal + d
  ne_ffff : skb.ipSummed ≠ .checksumPartial → skb.check ≠ 0xffff#16 → skb'.check ≠ 0xffff#16
  check_eq : skb.ipSummed = .checksumPartial → skb'.check = skb.check

namespace Shifted
variable {skb skb' skb'' : SkBuff} {d d' : ZMod 65535}

theorem refl (skb : SkBuff) : Shifted skb skb 0 where
  shape := rfl
  length := rfl
  total _ := (add_zero _).symm
  ne_ffff _ h := h
  check_eq _ := rfl

theorem ipSummed (h : Shifted skb skb' d) : skb'.ipSummed = skb.ipSummed := by rw [h.shape]
theorem tcpLen (h : Shifted skb skb' d) : skb'.tcpLen = skb.tcpLen := by rw [h.shape]; rfl
theorem optLen (h : Shifted skb skb' d) : skb'.optLen = skb.optLen := by rw [h.shape]; rfl
theorem session (h : Shifted skb skb' d) : skb'.session = skb.session := by rw [h.shape]; rfl
theorem ipTotal (h : Shifted skb skb' d) : skb'.ipTotal = skb.ipTotal := by rw [h.shape]; rfl
theorem ipCheck (h : Shifted skb skb' d) : skb'.ipCheck = skb.ipCheck := by rw [h.shape]
theorem pseudoTotal (h : Shifted skb skb' d) : skb'.pseudoTotal = skb.pseudoTotal := by
  rw [h.shape]; rfl

theorem wellFormed (h : Shifted skb skb' d) (hw : skb.WellFormed) : skb'.WellFormed where
  tcp := by rw [h.shape]; exact hw.tcp
  header := by rw [h.tcpLen]; exact hw.header
  options := by rw [h.tcpLen, h.shape]; exact hw.options
  segment := by rw [h.tcpLen, h.length]; exact hw.segment

theorem trans (h : Shifted skb skb' d) (h' : Shifted skb' skb'' d') :
    Shifted skb skb'' (d + d') where
  shape := by
    conv_lhs => rw [h'.shape, h.shape]
  length := h'.length.trans h.length
  total hs := by rw [h'.total (by rwa [h.ipSummed]), h.total hs, add_assoc]
  ne_ffff hs hc := h'.ne_ffff (by rwa [h.ipSummed]) (h.ne_ffff hs hc)
  check_eq hs := (h'.check_eq (by rwa [h.ipSummed])).trans (h.check_eq hs)

end Shifted

/-! ## One word -/

section Word
variable {skb skb' : SkBuff}

/-- A pass over the fixed header that keeps the sum of numbers, window and checksum. -/
theorem shifted_header
    (shape : skb' =
      { skb with
        seq := skb'.seq
        ackSeq := skb'.ackSeq
        window := skb'.window
        check := skb'.check
        csum := skb'.csum })
    (hres : skb.ipSummed ≠ .checksumPartial →
      residue skb'.seq + residue skb'.ackSeq + residue skb'.window + residue skb'.check =
        residue skb.seq + residue skb.ackSeq + residue skb.window + residue skb.check)
    (hne : skb.ipSummed ≠ .checksumPartial → skb'.check ≠ 0xffff#16)
    (heq : skb.ipSummed = .checksumPartial → skb'.check = skb.check) :
    Shifted skb skb' 0 where
  shape := by
    conv_lhs => rw [shape]
    rw [shape]
  length := by rw [shape]
  total hs := by
    have hsum := hres hs
    rw [shape]
    simp only [SkBuff.tcpTotal, SkBuff.pseudoTotal, SkBuff.tcpLen, SkBuff.ihl]
    linear_combination hsum
  ne_ffff hs _ := hne hs
  check_eq := heq

/-- Replacing the sequence number. -/
theorem shifted_seq {new : U32} (h : Replaced skb skb' (residue skb.seq) (residue new) false) :
    Shifted skb { skb' with seq := new } 0 := by
  refine shifted_header ?_ (fun hs => ?_) h.ne_ffff fun hs => h.unchanged hs rfl
  · conv_lhs => rw [h.same]
    rw [h.same]
  · rw [h.same]
    simp only
    rw [h.residue_check hs]
    ring

/-- Replacing the acknowledgment number. -/
theorem shifted_ackSeq {new : U32}
    (h : Replaced skb skb' (residue skb.ackSeq) (residue new) false) :
    Shifted skb { skb' with ackSeq := new } 0 := by
  refine shifted_header ?_ (fun hs => ?_) h.ne_ffff fun hs => h.unchanged hs rfl
  · conv_lhs => rw [h.same]
    rw [h.same]
  · rw [h.same]
    simp only
    rw [h.residue_check hs]
    ring

/-- Replacing the window. -/
theorem shifted_window {new : U16}
    (h : Replaced skb skb' (residue skb.window) (residue new) false) :
    Shifted skb { skb' with window := new } 0 := by
  refine shifted_header ?_ (fun hs => ?_) h.ne_ffff fun hs => h.unchanged hs rfl
  · conv_lhs => rw [h.same]
    rw [h.same]
  · rw [h.same]
    simp only
    rw [h.residue_check hs]
    ring

theorem take_store32 (bs : List U8) (k n : Nat) (x : U32) :
    (store32 bs k x).take n = store32 (bs.take n) k x := by
  unfold store32
  rw [List.take_set, List.take_set, List.take_set, List.take_set]

theorem load32_take {bs : List U8} {k n : Nat} (h : k + 4 ≤ n) :
    load32 (bs.take n) k = load32 bs k := by
  have hbyte : ∀ i, i < n → byteAt (bs.take n) i = byteAt bs i := by
    intro i hi
    simp only [byteAt, List.getD_eq_getElem?_getD, List.getElem?_take_of_lt hi]
  unfold load32
  rw [hbyte _ (by omega), hbyte _ (by omega), hbyte _ (by omega), hbyte _ (by omega)]

/-- What the update of one word behind the header does to the total. -/
def SkBuff.wordError (skb : SkBuff) (k : Nat) (f : U32 → U32) : ZMod 65535 :=
  (weight k - 1) * (residue (skb.newWord k f) - residue (load32 skb.data k))

/-- **Replacing a word behind the header** moves the total unless the word begins at an
even offset. -/
theorem shifted_word (hw : skb.WellFormed) {k : Nat} (hk : k + 4 ≤ skb.optLen) (f : U32 → U32) :
    Shifted skb (skb.replaceWord k f) (skb.wordError k f) where
  shape := rfl
  length := by rw [SkBuff.replaceWord_data, length_store32]
  total hs := by
    obtain ⟨hend, hlen⟩ := hw.word_le hk
    have h := replaced_dysco skb (load32 skb.data k) (skb.newWord k f) false
    have hcheck := h.residue_check hs
    have hin : k + 4 ≤ (skb.data.take (skb.tcpLen - 20)).length := by
      rw [List.length_take]
      omega
    have hsum := byteSum_store32 hin (skb.newWord k f)
    rw [← take_store32, load32_take hend] at hsum
    have htotal : ∀ (c : U16) (s : U32) (data : List U8),
        ({ skb with check := c, csum := s, data := data } : SkBuff).tcpTotal =
          skb.tcpTotal - residue skb.check + residue c +
            (byteSum 0 (data.take (skb.tcpLen - 20)) -
              byteSum 0 (skb.data.take (skb.tcpLen - 20))) := by
      intro c s data
      simp only [SkBuff.tcpTotal, SkBuff.pseudoTotal, SkBuff.tcpLen, SkBuff.ihl]
      ring
    refine (htotal (dyscoInetProtoCsumReplace4 skb (load32 skb.data k) (skb.newWord k f)
      false).check _ (store32 skb.data k (skb.newWord k f))).trans ?_
    rw [hcheck, hsum, SkBuff.wordError]
    ring
  ne_ffff hs _ := (replaced_dysco skb (load32 skb.data k) (skb.newWord k f) false).ne_ffff hs
  check_eq hs := (replaced_dysco skb (load32 skb.data k) (skb.newWord k f) false).unchanged hs rfl

/-- The effect of a word depends only on the word. -/
theorem wordError_congr {k : Nat} (h : load32 skb'.data k = load32 skb.data k) (f : U32 → U32) :
    skb'.wordError k f = skb.wordError k f := by
  unfold SkBuff.wordError SkBuff.newWord
  rw [h]

/-- A word replaced by itself moves nothing. -/
theorem wordError_shift_zero (skb : SkBuff) (k : Nat) (add : Bool) :
    skb.wordError k (shift 0#32 add) = 0 := by
  unfold SkBuff.wordError SkBuff.newWord
  rw [shift_zero, htonl_ntohl, sub_self, mul_zero]

/-- Several words that do not overlap. -/
theorem shifted_words {ks : List Nat} (hw : skb.WellFormed) (hks : Apart ks)
    (hlen : ∀ k ∈ ks, k + 4 ≤ skb.optLen) (f : U32 → U32) :
    Shifted skb (skb.replaceWords ks f) (ks.map fun k => skb.wordError k f).sum := by
  induction ks generalizing skb with
  | nil => exact Shifted.refl skb
  | cons k ks ih =>
    have hstep := shifted_word hw (hlen k List.mem_cons_self) f
    have hrest := ih (hstep.wellFormed hw) hks.of_cons
      fun k' hk' => by rw [hstep.optLen]; exact hlen k' (List.mem_cons_of_mem _ hk')
    have heq : ks.map (fun k' => (skb.replaceWord k f).wordError k' f) =
        ks.map fun k' => skb.wordError k' f := by
      apply List.map_congr_left
      intro k' hk'
      exact wordError_congr (SkBuff.load32_replaceWord_of_disjoint
        (Or.inr (List.rel_of_pairwise_cons hks hk')) f) f
    rw [heq] at hrest
    rw [replaceWords_cons, List.map_cons, List.sum_cons]
    exact hstep.trans hrest

end Word

/-- Two options of which one lies behind the other. -/
def TcpOption.Separate (o o' : TcpOption) : Prop :=
  o.ptr + o.size ≤ o'.ptr ∨ o'.ptr + o'.size ≤ o.ptr

instance : Std.Symm TcpOption.Separate := ⟨fun _ _ => Or.symm⟩

theorem TcpOption.separate_of_mem {skb : SkBuff} {o o' : TcpOption} (ho : o ∈ skb.options)
    (ho' : o' ∈ skb.options) (hne : o ≠ o') : o.Separate o' := by
  have hpair : skb.options.Pairwise TcpOption.Separate :=
    (pairwise_optionsFrom skb.data skb.optLen 0 skb.optLen).imp Or.inl
  exact hpair.forall ho ho' hne

theorem doff_replaceWords (skb : SkBuff) (ks : List Nat) (f : U32 → U32) :
    (skb.replaceWords ks f).doff = skb.doff := by
  induction ks generalizing skb with
  | nil => rfl
  | cons k ks ih =>
    rw [replaceWords_cons, ih, SkBuff.replaceWord, SkBuff.store]
    simp only [dyscoInetProtoCsumReplace4_doff]

/-! ## The rewriting functions -/

section Rewrite
variable {skb : SkBuff}

theorem shifted_rewriteSeq (skb : SkBuff) (delta : U32) (add : Bool) :
    Shifted skb (rewriteSeq skb delta add) 0 := by
  unfold rewriteSeq
  split
  · exact Shifted.refl skb
  · exact shifted_seq (replaced_dysco skb skb.seq _ false)

theorem shifted_rewriteRcvWnd (skb : SkBuff) (wsDelta wsIn wsOut : U16) :
    Shifted skb (rewriteRcvWnd skb wsDelta wsIn wsOut) 0 := by
  unfold rewriteRcvWnd
  split
  · exact Shifted.refl skb
  · exact shifted_window (replaced_inet2 skb skb.window _ false)

/-- What the translation of the SACK edges does to the total. -/
def SkBuff.sackError (skb : SkBuff) (delta : U32) (add : Bool) : ZMod 65535 :=
  (skb.sackEdges.map fun k => skb.wordError k (shift delta add)).sum

/-- What the translation of the timestamps does to the total. -/
def SkBuff.tsError (skb : SkBuff) (tsDelta : U32) (tsAdd : Bool) (tsrDelta : U32)
    (tsrAdd : Bool) : ZMod 65535 :=
  (getTsOption skb).elim 0 fun ts =>
    skb.wordError ts (shift tsDelta tsAdd) + skb.wordError (ts + 4) (shift tsrDelta tsrAdd)

theorem shifted_rewriteAck (hw : skb.WellFormed) (delta : U32) (add sackOk : Bool) :
    Shifted skb (rewriteAck skb delta add sackOk)
      (if sackOk then skb.sackError delta add else 0) := by
  unfold rewriteAck
  split
  · rename_i h0
    have hzero : skb.sackError 0#32 add = 0 := by
      unfold SkBuff.sackError
      simp only [wordError_shift_zero, List.map_const', List.sum_replicate, smul_zero]
    rw [h0, hzero, ite_self]
    exact Shifted.refl skb
  · cases sackOk with
    | false => exact shifted_ackSeq (replaced_dysco skb skb.ackSeq _ false)
    | true =>
      have hsack := shifted_words hw skb.apart_sackEdges
        (fun k hk => (SkBuff.mem_sackEdges hk).2) (shift delta add)
      rw [← tcpSack_eq] at hsack
      have hack := shifted_ackSeq (replaced_dysco (tcpSack skb delta add)
        (tcpSack skb delta add).ackSeq (htonl (shift delta add (ntohl skb.ackSeq))) false)
      simp only [if_true]
      rw [← add_zero (skb.sackError delta add)]
      exact hsack.trans hack

/-- Behind the header, the translation of the acknowledgment number does what the
translation of the SACK edges does. -/
theorem rewriteAck_data (skb : SkBuff) (delta : U32) (add sackOk : Bool) :
    (rewriteAck skb delta add sackOk).data =
        (if delta = 0#32 ∨ sackOk = false then skb.data else (tcpSack skb delta add).data) ∧
      (rewriteAck skb delta add sackOk).optLen = skb.optLen := by
  unfold rewriteAck
  by_cases h0 : delta = 0#32
  · simp [h0]
  · have hopt : (tcpSack skb delta add).doff = skb.doff := by
      rw [tcpSack_eq]
      exact doff_replaceWords _ _ _
    cases sackOk <;> simp [h0, SkBuff.optLen, hopt]

/-- The translation of the acknowledgment number leaves the options alone. -/
theorem options_rewriteAck (skb : SkBuff) (delta : U32) (add sackOk : Bool) :
    (rewriteAck skb delta add sackOk).options = skb.options := by
  obtain ⟨hdata, hopt⟩ := rewriteAck_data skb delta add sackOk
  have hsack := SkBuff.options_tcpSack skb delta add
  have hdoff : (tcpSack skb delta add).optLen = skb.optLen := by
    rw [tcpSack_eq, SkBuff.optLen, doff_replaceWords, SkBuff.optLen]
  unfold SkBuff.options at hsack ⊢
  rw [hdoff] at hsack
  rw [hdata, hopt]
  split
  · rfl
  · exact hsack

/-- The translation of the acknowledgment number leaves the words outside the SACK edges
alone. -/
theorem load32_rewriteAck {i : Nat} (hi : ∀ k ∈ skb.sackEdges, i + 4 ≤ k ∨ k + 4 ≤ i)
    (delta : U32) (add sackOk : Bool) :
    load32 (rewriteAck skb delta add sackOk).data i = load32 skb.data i := by
  rw [(rewriteAck_data skb delta add sackOk).1]
  split
  · rfl
  · rw [tcpSack_eq]
    exact SkBuff.load32_replaceWords_of_disjoint hi _

/-- The timestamp option lies apart from the SACK edges. -/
theorem tsOption_apart {ts : Nat} (h : getTsOption skb = some ts) :
    ∀ k ∈ skb.sackEdges, ts + 8 ≤ k ∨ k + 4 ≤ ts := by
  intro k hk
  obtain ⟨o, ho, rfl⟩ := Option.map_eq_some_iff.mp h
  have hts := List.find?_some ho
  simp only [decide_eq_true_eq] at hts
  obtain ⟨o', ho', hk⟩ := List.mem_flatMap.mp hk
  have hin := TcpOption.mem_edges hk
  have hne : o ≠ o' := by
    rintro rfl
    unfold TcpOption.edges at hk
    split at hk
    · rename_i hsack
      have hkind := hsack.1
      rw [hts.1] at hkind
      exact absurd hkind (by decide)
    · cases hk
  have := TcpOption.separate_of_mem (List.mem_of_find?_eq_some ho) ho' hne
  unfold TcpOption.Separate at this
  omega

theorem shifted_rewriteTs (hw : skb.WellFormed) (tsDelta : U32) (tsAdd : Bool) (tsrDelta : U32)
    (tsrAdd : Bool) : Shifted skb (rewriteTs skb tsDelta tsAdd tsrDelta tsrAdd)
      (skb.tsError tsDelta tsAdd tsrDelta tsrAdd) := by
  unfold rewriteTs SkBuff.tsError
  cases hts : getTsOption skb with
  | none => exact Shifted.refl skb
  | some ts =>
    have hin := getTsOption_lt hts
    have hone : ∀ (s : SkBuff) (k : Nat) (delta : U32) (add : Bool), s.WellFormed →
        k + 4 ≤ s.optLen → Shifted s (if delta = 0#32 then s else s.replaceWord k (shift delta add))
          (s.wordError k (shift delta add)) := by
      intro s k delta add hs hk
      split
      · rename_i h0
        rw [h0, wordError_shift_zero]
        exact Shifted.refl s
      · exact shifted_word hs hk _
    have hkeep : load32 (if tsDelta = 0#32 then skb
        else skb.replaceWord ts (shift tsDelta tsAdd)).data (ts + 4) =
        load32 skb.data (ts + 4) := by
      split
      · rfl
      · exact SkBuff.load32_replaceWord_of_disjoint (by omega) _
    have hfirst := hone skb ts tsDelta tsAdd hw (by omega)
    have hsecond := hone _ (ts + 4) tsrDelta tsrAdd (hfirst.wellFormed hw)
      (by rw [hfirst.optLen]; omega)
    rw [wordError_congr hkeep] at hsecond
    exact hfirst.trans hsecond

end Rewrite

/-! ## The first pass: the five-tuple -/

/-- Two words added, with the carry judged by comparing the sum with `c`. -/
def addWords (a b c : U32) : U32 := a + b + if a + b < c then 1#32 else 0#32

/-- A judged carry, as a residue. -/
def carry (s c : U32) : ZMod 65535 := if s < c then 1 else 0

theorem residue_add_carry (a b : U32) :
    residue a + residue b = residue (a + b) + carry (a + b) b := by
  have ha := a.isLt
  have hb := b.isLt
  unfold carry
  simp only [BitVec.lt_def, BitVec.toNat_add]
  by_cases hlt : a.toNat + b.toNat < 2 ^ 32
  · rw [if_neg (by rw [Nat.mod_eq_of_lt hlt]; omega), add_zero]
    unfold residue
    rw [BitVec.toNat_add, Nat.mod_eq_of_lt hlt]
    push_cast
    rfl
  · have hmod : (a.toNat + b.toNat) % 2 ^ 32 = a.toNat + b.toNat - 2 ^ 32 := by omega
    rw [if_pos (by rw [hmod]; omega)]
    unfold residue
    rw [BitVec.toNat_add, hmod]
    have h : a.toNat + b.toNat = (a.toNat + b.toNat - 2 ^ 32) + 4294967296 := by omega
    have hcast : (a.toNat : ZMod 65535) + b.toNat =
        ((a.toNat + b.toNat - 2 ^ 32 : Nat) : ZMod 65535) + 4294967296 := by
      calc (a.toNat : ZMod 65535) + b.toNat
          = ((a.toNat + b.toNat : Nat) : ZMod 65535) := by push_cast; rfl
        _ = _ := by rw [h]; push_cast; ring
    rw [hcast, cast_two_pow_32]

/-- Adding the carry does not overflow. -/
theorem residue_addWords (a b c : U32) :
    residue (addWords a b c) = residue (a + b) + carry (a + b) c := by
  unfold addWords carry
  split
  · rename_i hlt
    have h : (a + b + 1#32).toNat = (a + b).toNat + 1 := by
      have hlt' := BitVec.lt_def.mp hlt
      have hc := c.isLt
      rw [BitVec.toNat_add (a + b), BitVec.toNat_ofNat]
      omega
    unfold residue
    rw [h]
    push_cast
    rfl
  · rw [add_zero, BitVec.add_zero]

/-- The judged carry is the real one if and only if the sum wrapped exactly when it is
below `c`. -/
theorem carry_eq_iff (a b c : U32) :
    carry (a + b) b = carry (a + b) c ↔ (2 ^ 32 ≤ a.toNat + b.toNat ↔ a + b < c) := by
  have hwrap : a + b < b ↔ 2 ^ 32 ≤ a.toNat + b.toNat := by
    have ha := a.isLt
    have hb := b.isLt
    rw [BitVec.lt_def, BitVec.toNat_add]
    omega
  unfold carry
  simp only [hwrap]
  have : Fact (1 < 65535) := ⟨by norm_num⟩
  have hne : (1 : ZMod 65535) ≠ 0 := one_ne_zero
  by_cases h1 : 2 ^ 32 ≤ a.toNat + b.toNat <;> by_cases h2 : a + b < c <;>
    simp [h2, hne, hne.symm]

/-- Rewriting the five-tuple when the addresses are accounted for by the words `old`
and `new`. -/
def tupleRewriteCsum (skb : SkBuff) (old new : U32) (ss : TcpSession) : SkBuff :=
  let skb := { skb with ipCheck := csumReplace4 skb.ipCheck old new }
  let skb := { skb with saddr := ss.sip, daddr := ss.dip }
  let skb := inetProtoCsumReplace4 skb old new true
  let skb := inetProtoCsumReplace2 skb skb.source ss.sport false
  let skb := { skb with source := ss.sport }
  let skb := inetProtoCsumReplace2 skb skb.dest ss.dport false
  { skb with dest := ss.dport }

theorem inTupleRewriteCsum_eq (skb : SkBuff) (dcb : CbIn) :
    inTupleRewriteCsum skb dcb = tupleRewriteCsum skb (addWords skb.saddr skb.daddr skb.daddr)
      (addWords dcb.super.sip dcb.super.dip dcb.sub.dip) dcb.super := by
  unfold inTupleRewriteCsum tupleRewriteCsum addWords
  rfl

theorem outHdrRewriteCsum_eq (E : Env) (skb : SkBuff) (dcb : CbOut) :
    outHdrRewriteCsum E skb dcb =
      { tupleRewriteCsum skb (addWords skb.saddr skb.daddr skb.daddr)
          (addWords dcb.sub.sip dcb.sub.dip dcb.sub.dip) dcb.sub with
        hDest := dcb.nhMac
        hSource := E.devAddr } := by
  unfold outHdrRewriteCsum tupleRewriteCsum addWords
  rfl

/-- The five-tuple of `skb` has become `ss`, with both totals off by `e`. -/
structure Retupled (skb skb' : SkBuff) (ss : TcpSession) (e : ZMod 65535) : Prop where
  shape : skb' =
    { skb with
      hDest := skb'.hDest
      hSource := skb'.hSource
      ipCheck := skb'.ipCheck
      saddr := ss.sip
      daddr := ss.dip
      source := ss.sport
      dest := ss.dport
      check := skb'.check
      csum := skb'.csum }
  ipTotal : skb'.ipTotal = skb.ipTotal + e
  ipCheck_ne : skb'.ipCheck ≠ 0xffff#16
  total : skb.ipSummed ≠ .checksumPartial → skb'.tcpTotal = skb.tcpTotal + e
  ne_ffff : skb.ipSummed ≠ .checksumPartial → skb'.check ≠ 0xffff#16
  pseudo : skb.ipSummed = .checksumPartial →
    residue skb'.check - skb'.pseudoTotal = residue skb.check - skb.pseudoTotal - e
  ne_zero : skb.ipSummed = .checksumPartial → skb.check ≠ 0#16 → skb'.check ≠ 0#16

/-- **What the first pass does to the totals.** -/
theorem retupled (skb : SkBuff) (c : U32) (ss : TcpSession) :
    Retupled skb (tupleRewriteCsum skb (addWords skb.saddr skb.daddr skb.daddr)
      (addWords ss.sip ss.dip c) ss) ss
      (carry (ss.sip + ss.dip) ss.dip - carry (ss.sip + ss.dip) c) := by
  have hold := residue_addWords skb.saddr skb.daddr skb.daddr
  rw [← residue_add_carry] at hold
  have hnew := residue_addWords ss.sip ss.dip c
  have hsum := residue_add_carry ss.sip ss.dip
  unfold tupleRewriteCsum
  generalize addWords skb.saddr skb.daddr skb.daddr = old at *
  generalize addWords ss.sip ss.dip c = new at *
  simp only
  have hip := residue_csumReplace4 skb.ipCheck old new
  have hipne := csumReplace4_ne skb.ipCheck old new
  generalize csumReplace4 skb.ipCheck old new = ipc at *
  -- three updates of the TCP checksum: the addresses and the two ports
  have h1 := replaced_inet { skb with ipCheck := ipc, saddr := ss.sip, daddr := ss.dip } old new
    true
  generalize inetProtoCsumReplace4
    { skb with ipCheck := ipc, saddr := ss.sip, daddr := ss.dip } old new true = s1 at *
  have h2 := replaced_inet2 s1 s1.source ss.sport false
  generalize inetProtoCsumReplace2 s1 s1.source ss.sport false = s2 at *
  have h3 := replaced_inet2 { s2 with source := ss.sport } s2.dest ss.dport false
  generalize inetProtoCsumReplace2 { s2 with source := ss.sport } s2.dest ss.dport false = s3 at *
  obtain ⟨check1, csum1, rfl⟩ : ∃ check csum, s1 =
      { skb with ipCheck := ipc, saddr := ss.sip, daddr := ss.dip,
                 check := check, csum := csum } := ⟨_, _, h1.same⟩
  obtain ⟨check2, csum2, rfl⟩ : ∃ check csum, s2 =
      { skb with ipCheck := ipc, saddr := ss.sip, daddr := ss.dip,
                 check := check, csum := csum } := ⟨_, _, h2.same⟩
  obtain ⟨check3, csum3, rfl⟩ : ∃ check csum, s3 =
      { skb with ipCheck := ipc, saddr := ss.sip, daddr := ss.dip, source := ss.sport,
                 check := check, csum := csum } := ⟨_, _, h3.same⟩
  constructor
  · dsimp only
  · simp only [SkBuff.ipTotal, SkBuff.ipRest, SkBuff.ihl]
    linear_combination hip + hold - hnew + hsum
  · exact hipne
  · intro hs
    have e1 := h1.residue_check hs
    have e2 := h2.residue_check hs
    have e3 := h3.residue_check hs
    simp only [SkBuff.tcpTotal, SkBuff.pseudoTotal, SkBuff.tcpLen, SkBuff.ihl] at e1 e2 e3 ⊢
    linear_combination e1 + e2 + e3 + hold - hnew + hsum
  · intro hs
    exact h3.ne_ffff hs
  · intro hs
    have e1 := h1.residue_partial hs rfl
    have e2 := h2.unchanged hs rfl
    have e3 := h3.unchanged hs rfl
    simp only [SkBuff.pseudoTotal, SkBuff.tcpLen, SkBuff.ihl] at e1 e2 e3 ⊢
    rw [e3, e2]
    linear_combination e1 - hold + hnew - hsum
  · intro hs hne
    exact h3.ne_zero hs (h2.ne_zero hs (h1.ne_zero hs hne))

/-! ## The second pass: numbers -/

/-- The deltas of a control block. -/
structure Deltas where
  seqDelta : U32
  seqAdd : Bool
  ackDelta : U32
  ackAdd : Bool
  sackOk : Bool
  tsOk : Bool
  tsDelta : U32
  tsAdd : Bool
  tsrDelta : U32
  tsrAdd : Bool
  wsOk : Bool
  wsDelta : U16
  wsIn : U16
  wsOut : U16

def CbOut.deltas (d : CbOut) : Deltas :=
  ⟨d.seqDelta, d.seqAdd, d.ackDelta, d.ackAdd, d.sackOk, d.tsOk, d.tsDelta, d.tsAdd, d.tsrDelta,
    d.tsrAdd, d.wsOk, d.wsDelta, d.wsIn, d.wsOut⟩

def CbIn.deltas (d : CbIn) : Deltas :=
  ⟨d.seqDelta, d.seqAdd, d.ackDelta, d.ackAdd, d.sackOk, d.tsOk, d.tsDelta, d.tsAdd, d.tsrDelta,
    d.tsrAdd, d.wsOk, d.wsDelta, d.wsIn, d.wsOut⟩

/-- The translations, under one set of deltas. -/
def rewriteWith (skb : SkBuff) (d : Deltas) : SkBuff :=
  let skb := rewriteSeq skb d.seqDelta d.seqAdd
  let skb := rewriteAck skb d.ackDelta d.ackAdd d.sackOk
  let skb := if d.tsOk then rewriteTs skb d.tsDelta d.tsAdd d.tsrDelta d.tsrAdd else skb
  if d.wsOk then rewriteRcvWnd skb d.wsDelta d.wsIn d.wsOut else skb

theorem outRewrite_eq (skb : SkBuff) (dcb : CbOut) :
    outRewrite skb dcb = rewriteWith skb dcb.deltas := rfl

theorem inRewrite_eq (skb : SkBuff) (dcb : CbIn) :
    inRewrite skb dcb = rewriteWith skb dcb.deltas := rfl

/-- What the translations do to the total: the words behind the header that are
translated, each counted as if at an even offset. -/
def Deltas.error (d : Deltas) (skb : SkBuff) : ZMod 65535 :=
  (if d.sackOk then skb.sackError d.ackDelta d.ackAdd else 0) +
    if d.tsOk then skb.tsError d.tsDelta d.tsAdd d.tsrDelta d.tsrAdd else 0

/-- **What the second pass does to the total.** -/
theorem shifted_rewriteWith {skb : SkBuff} (hw : skb.WellFormed) (d : Deltas) :
    Shifted skb (rewriteWith skb d) (d.error skb) := by
  have hseq := shifted_rewriteSeq skb d.seqDelta d.seqAdd
  have hdata : (rewriteSeq skb d.seqDelta d.seqAdd).data = skb.data := by
    unfold rewriteSeq
    split
    · rfl
    · simp only [dyscoInetProtoCsumReplace4_data]
  have hopt : (rewriteSeq skb d.seqDelta d.seqAdd).options = skb.options := by
    unfold SkBuff.options
    rw [hdata, hseq.optLen]
  have hedges : (rewriteSeq skb d.seqDelta d.seqAdd).sackEdges = skb.sackEdges := by
    unfold SkBuff.sackEdges
    rw [hopt]
  have hsack : (rewriteSeq skb d.seqDelta d.seqAdd).sackError d.ackDelta d.ackAdd =
      skb.sackError d.ackDelta d.ackAdd := by
    unfold SkBuff.sackError
    rw [hedges]
    exact congrArg List.sum (List.map_congr_left fun k _ => wordError_congr (by rw [hdata]) _)
  unfold rewriteWith
  generalize rewriteSeq skb d.seqDelta d.seqAdd = s1 at *
  simp only
  have hw1 := hseq.wellFormed hw
  have hack := shifted_rewriteAck hw1 d.ackDelta d.ackAdd d.sackOk
  have hopt2 := options_rewriteAck s1 d.ackDelta d.ackAdd d.sackOk
  have hload : ∀ i, (∀ k ∈ s1.sackEdges, i + 4 ≤ k ∨ k + 4 ≤ i) →
      load32 (rewriteAck s1 d.ackDelta d.ackAdd d.sackOk).data i = load32 s1.data i :=
    fun _ hi => load32_rewriteAck hi _ _ _
  generalize rewriteAck s1 d.ackDelta d.ackAdd d.sackOk = s2 at *
  have hts : s2.tsError d.tsDelta d.tsAdd d.tsrDelta d.tsrAdd =
      skb.tsError d.tsDelta d.tsAdd d.tsrDelta d.tsrAdd := by
    have hget : getTsOption s2 = getTsOption skb := by
      unfold getTsOption
      rw [hopt2, hopt]
    unfold SkBuff.tsError
    rw [hget]
    cases h : getTsOption skb with
    | none => simp only [Option.elim_none]
    | some ts =>
      have hapart := tsOption_apart h
      rw [← hedges] at hapart
      have h0 := hload ts fun k hk => by have := hapart k hk; omega
      have h4 := hload (ts + 4) fun k hk => by have := hapart k hk; omega
      rw [hdata] at h0 h4
      simp only [Option.elim_some]
      rw [wordError_congr h0, wordError_congr h4]
  have hthird : Shifted s2
      (if d.tsOk then rewriteTs s2 d.tsDelta d.tsAdd d.tsrDelta d.tsrAdd else s2)
      (if d.tsOk then skb.tsError d.tsDelta d.tsAdd d.tsrDelta d.tsrAdd else 0) := by
    split
    · rw [← hts]
      exact shifted_rewriteTs (hack.wellFormed hw1) _ _ _ _
    · exact Shifted.refl s2
  generalize (if d.tsOk then rewriteTs s2 d.tsDelta d.tsAdd d.tsrDelta d.tsrAdd else s2) = s3
    at *
  have hfourth : Shifted s3 (if d.wsOk then rewriteRcvWnd s3 d.wsDelta d.wsIn d.wsOut else s3)
      0 := by
    split
    · exact shifted_rewriteRcvWnd s3 _ _ _
    · exact Shifted.refl s3
  have hall := ((hseq.trans hack).trans hthird).trans hfourth
  rw [hsack, zero_add, add_zero] at hall
  exact hall

end Dysco
