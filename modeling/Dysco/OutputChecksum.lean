import Dysco.InputChecksum

/-! # Checksums on the output path

`dysco_out_translate` composes the clamping of an ack, the translations of one control
block and the rewriting of the five-tuple.  Each step adjusts the checksum for the word it
replaces as if the word began at an even offset of the segment.  SACK edges and
timestamps may begin at odd offsets, where the two bytes of each half count the other
way round; then the packet leaves with a wrong checksum, unless the differences
happen to add up to a multiple of 257 (`outTranslate_valid_iff`).
-/
namespace Dysco
open OnesComplement ByteOrder

/-- Both checksums are as the next hop expects them: computed, or the TCP checksum left
to the device over the sum of the pseudo-header. -/
def SkBuff.ChecksumsReady (skb : SkBuff) : Prop :=
  skb.ipCheck = skb.ipChecksum ∧
    if skb.ipSummed = .checksumPartial then skb.CheckIsPseudo else skb.check = skb.tcpChecksum

instance (skb : SkBuff) : Decidable skb.ChecksumsReady := inferInstanceAs (Decidable (_ ∧ _))

/-- Both checksums of a packet handed to the module pass the receiver's test, or the TCP
checksum is left to the device. -/
def SkBuff.ChecksumsPass (skb : SkBuff) : Prop :=
  skb.IpVerifies ∧
    if skb.ipSummed = .checksumPartial then skb.CheckIsPseudo else skb.TcpVerifies

instance (skb : SkBuff) : Decidable skb.ChecksumsPass := inferInstanceAs (Decidable (_ ∧ _))

/-! ## Words at odd offsets -/

/-- The words behind the header that a set of deltas translates, with the map applied to
each. -/
def Deltas.words (d : Deltas) (skb : SkBuff) : List (Nat × (U32 → U32)) :=
  (if d.sackOk then skb.sackEdges.map fun k => (k, shift d.ackDelta d.ackAdd) else []) ++
    if d.tsOk then
      (getTsOption skb).elim [] fun ts =>
        [(ts, shift d.tsDelta d.tsAdd), (ts + 4, shift d.tsrDelta d.tsrAdd)]
    else []

/-- How much the words at odd offsets grow in total, as the numbers they are in memory. -/
def Deltas.oddGrowth (d : Deltas) (skb : SkBuff) : ℤ :=
  ((d.words skb).map fun w =>
    if w.1 % 2 = 1 then
      ((skb.newWord w.1 w.2).toNat : ℤ) - (load32 skb.data w.1).toNat
    else 0).sum

theorem wordError_eq (skb : SkBuff) (k : Nat) (f : U32 → U32) :
    skb.wordError k f = 255 * ((if k % 2 = 1 then
      ((skb.newWord k f).toNat : ℤ) - (load32 skb.data k).toNat else 0 : ℤ) : ZMod 65535) := by
  rcases Nat.mod_two_eq_zero_or_one k with hk | hk
  · rw [wordError_even skb hk, if_neg (by omega)]
    simp
  · rw [SkBuff.wordError, weight, if_neg (by omega), if_pos hk]
    unfold residue
    push_cast
    ring

theorem Deltas.error_eq (d : Deltas) (skb : SkBuff) :
    d.error skb = 255 * (d.oddGrowth skb : ZMod 65535) := by
  have hsum : ∀ ws : List (Nat × (U32 → U32)),
      (ws.map fun w => skb.wordError w.1 w.2).sum = 255 * (((ws.map fun w =>
        if w.1 % 2 = 1 then
          ((skb.newWord w.1 w.2).toNat : ℤ) - (load32 skb.data w.1).toNat
        else 0).sum : ℤ) : ZMod 65535) := by
    intro ws
    induction ws with
    | nil => simp
    | cons w ws ih =>
      rw [List.map_cons, List.sum_cons, List.map_cons, List.sum_cons, ih, wordError_eq]
      push_cast
      ring
  have herror : d.error skb = ((d.words skb).map fun w => skb.wordError w.1 w.2).sum := by
    unfold Deltas.error Deltas.words SkBuff.sackError SkBuff.tsError
    rw [List.map_append, List.sum_append]
    congr 1
    · cases d.sackOk with
      | false => rfl
      | true => rw [if_pos rfl, if_pos rfl, List.map_map]; rfl
    · cases d.tsOk with
      | false => rfl
      | true =>
        rw [if_pos rfl, if_pos rfl]
        cases getTsOption skb with
        | none => rfl
        | some ts =>
          simp only [Option.elim_some, List.map_cons, List.map_nil, List.sum_cons, List.sum_nil,
            add_zero]
  rw [herror, hsum, Deltas.oddGrowth]

theorem mul_255_eq_zero (n : ℤ) : (255 * (n : ZMod 65535)) = 0 ↔ (257 : ℤ) ∣ n := by
  have hcast : (255 * (n : ZMod 65535)) = ((255 * n : ℤ) : ZMod 65535) := by push_cast; rfl
  rw [hcast, ZMod.intCast_zmod_eq_zero_iff_dvd]
  push_cast
  omega

/-! ## Choosing a path -/

/-- The choice of a path only changes an acknowledgment number. -/
theorem shifted_pickPathAck (h : Host) (skb : SkBuff) (p other : Nat) :
    Shifted skb (pickPathAck h skb p other).2.1 0 ∧
      (pickPathAck h skb p other).2.1.data = skb.data := by
  unfold pickPathAck
  simp only
  split
  · split <;> exact ⟨Shifted.refl skb, rfl⟩
  split
  · split
    · exact ⟨Shifted.refl skb, rfl⟩
    split
    · split
      · exact ⟨Shifted.refl skb, rfl⟩
      · exact ⟨shifted_ackSeq (replaced_inet skb skb.ackSeq _ false), rfl⟩
    · exact ⟨Shifted.refl skb, rfl⟩
  · exact ⟨Shifted.refl skb, rfl⟩

theorem shifted_pickPath (h : Host) (skb : SkBuff) (p other : Nat) :
    Shifted skb (pickPath h skb p other).2.1 0 ∧
      (pickPath h skb p other).2.1.data = skb.data := by
  unfold pickPath
  simp only
  split
  · split
    · exact ⟨Shifted.refl skb, rfl⟩
    · exact shifted_pickPathAck h skb p other
  · split
    · exact ⟨Shifted.refl skb, rfl⟩
    · exact shifted_pickPathAck h skb p other
  · split
    · exact ⟨Shifted.refl skb, rfl⟩
    · exact shifted_pickPathAck h skb p other
  · exact ⟨Shifted.refl skb, rfl⟩

theorem deltas_setOut (h : Host) {p : Nat} {d : CbOut} (hd : d.deltas = (h.outMem p).deltas)
    (x : Nat) : ((h.setOut p d).outMem x).deltas = (h.outMem x).deltas := by
  by_cases hx : x = p
  · subst hx
    rw [Host.setOut_outMem_self, hd]
  · rw [Host.setOut_outMem_of_ne h hx]

/-- The choice of a path leaves the deltas of every block alone. -/
theorem deltas_pickPath (h : Host) (skb : SkBuff) (p other x : Nat) :
    ((pickPath h skb p other).1.outMem x).deltas = (h.outMem x).deltas := by
  have hack : ((pickPathAck h skb p other).1.outMem x).deltas = (h.outMem x).deltas := by
    unfold pickPathAck
    simp only
    split
    · split <;> rfl
    split
    · split
      · rfl
      split
      · split
        · rfl
        · apply deltas_setOut
          split <;> rfl
      · rfl
    · rfl
  unfold pickPath
  simp only
  split
  · split
    · rfl
    · exact hack
  · split
    · rfl
    · exact hack
  · split
    · split
      · have hd : ((h.outMem p).withSeqCutoff skb.endSeq).deltas = (h.outMem p).deltas := rfl
        exact deltas_setOut h hd x
      · rfl
    · exact hack
  · rfl

/-- The block whose deltas translate a packet that leaves through block `p`. -/
def translator (h : Host) (skb : SkBuff) (p : Nat) : Option CbOut :=
  (h.outMem p).otherPath.map fun other => h.outMem (pickPath h skb p other).2.2

/-- How much the words at odd offsets grow when a packet leaves through block `p`. -/
def oddGrowth (h : Host) (skb : SkBuff) (p : Nat) : ℤ :=
  (translator h skb p).elim 0 fun dcb => dcb.deltas.oddGrowth skb

variable {E : Env}

/-- A set of deltas acts on the options alone. -/
theorem Deltas.oddGrowth_congr {skb skb' : SkBuff} (d : Deltas) (hdata : skb'.data = skb.data)
    (hopt : skb'.optLen = skb.optLen) : d.oddGrowth skb' = d.oddGrowth skb := by
  have hoptions : skb'.options = skb.options := by
    unfold SkBuff.options
    rw [hdata, hopt]
  have hwords : d.words skb' = d.words skb := by
    unfold Deltas.words SkBuff.sackEdges getTsOption
    rw [hoptions]
  unfold Deltas.oddGrowth SkBuff.newWord
  rw [hwords, hdata]

/-- Everything before the five-tuple is rewritten moves the total by the odd words. -/
theorem outTranslate_eq (h : Host) {skb : SkBuff} (hw : skb.WellFormed) (p : Nat) :
    ∃ (s : SkBuff) (dcb : CbOut), (outTranslate E h skb p).2.1 = outHdrRewriteCsum E s dcb ∧
      Shifted skb s (255 * (oddGrowth h skb p : ZMod 65535)) := by
  unfold outTranslate oddGrowth translator
  simp only
  cases hother : (h.outMem p).otherPath with
  | none =>
    refine ⟨skb, _, rfl, ?_⟩
    simp only [Option.map_none, Option.elim_none, Int.cast_zero, mul_zero]
    exact Shifted.refl skb
  | some other =>
    simp only [Option.map_some, Option.elim_some]
    obtain ⟨hpick, hdata⟩ := shifted_pickPath h skb p other
    have hdeltas := deltas_pickPath h skb p other (pickPath h skb p other).2.2
    refine ⟨_, _, rfl, ?_⟩
    have hrw := shifted_rewriteWith (hpick.wellFormed hw)
      ((pickPath h skb p other).1.outMem (pickPath h skb p other).2.2).deltas
    rw [Deltas.error_eq, Deltas.oddGrowth_congr _ hdata hpick.optLen, hdeltas] at hrw
    have hall := hpick.trans hrw
    rw [zero_add] at hall
    rw [outRewrite_eq, hdeltas]
    exact hall

/-- The five-tuple is rewritten without an error: the carry is judged by the word added. -/
theorem retupled_outHdrRewriteCsum (skb : SkBuff) (dcb : CbOut) :
    Retupled skb (outHdrRewriteCsum E skb dcb) dcb.sub 0 := by
  have ht := retupled skb dcb.sub.dip dcb.sub
  rw [sub_self] at ht
  rw [outHdrRewriteCsum_eq]
  generalize tupleRewriteCsum skb (addWords skb.saddr skb.daddr skb.daddr)
    (addWords dcb.sub.sip dcb.sub.dip dcb.sub.dip) dcb.sub = s at *
  exact
    { shape := by
        conv_lhs => rw [ht.shape]
      ipTotal := ht.ipTotal
      ipCheck_ne := ht.ipCheck_ne
      total := ht.total
      ne_ffff := ht.ne_ffff
      pseudo := ht.pseudo
      ne_zero := ht.ne_zero }

/-- **The output path keeps checksums valid exactly when the words it translates at odd
offsets grow by a multiple of 257 in total**, or the device computes the checksum. -/
theorem outTranslate_valid_iff (h : Host) (skb : SkBuff) (p : Nat) (hw : skb.WellFormed)
    (hpass : skb.ChecksumsPass) :
    (outTranslate E h skb p).2.1.ChecksumsReady ↔
      (skb.ipSummed = .checksumPartial ∨ (257 : ℤ) ∣ oddGrowth h skb p) := by
  obtain ⟨s, dcb, hout, hs⟩ := outTranslate_eq (E := E) h hw p
  obtain ⟨hip, htcp⟩ := hpass
  have hr := retupled_outHdrRewriteCsum (E := E) s dcb
  have hsw := hs.wellFormed hw
  rw [hout]
  generalize outHdrRewriteCsum E s dcb = out at hr ⊢
  have how : out.WellFormed := by
    rw [hr.shape]
    exact ⟨hsw.tcp, hsw.header, hsw.options, hsw.segment⟩
  have hsummed : out.ipSummed = skb.ipSummed := by rw [hr.shape, ← hs.ipSummed]
  have hipOk : out.ipCheck = out.ipChecksum := by
    rw [SkBuff.ipCheck_eq_iff how.tcp hr.ipCheck_ne, hr.ipTotal, hs.ipTotal, add_zero]
    exact (SkBuff.ipVerifies_iff hw.tcp).mp hip
  unfold SkBuff.ChecksumsReady
  rw [and_iff_right hipOk, hsummed]
  by_cases hp : skb.ipSummed = .checksumPartial
  · rw [if_pos hp] at htcp ⊢
    rw [SkBuff.checkIsPseudo_iff] at htcp
    have hsp : s.ipSummed = .checksumPartial := hs.ipSummed.trans hp
    have hcheck := hs.check_eq hp
    have hpseudo := hr.pseudo hsp
    rw [hcheck, htcp.2, hs.pseudoTotal] at hpseudo
    have hready : out.CheckIsPseudo := by
      rw [SkBuff.checkIsPseudo_iff]
      refine ⟨hr.ne_zero hsp (by rw [hcheck]; exact htcp.1), ?_⟩
      linear_combination hpseudo
    exact ⟨fun _ => Or.inl hp, fun _ => hready⟩
  · rw [if_neg hp] at htcp ⊢
    have hsp : s.ipSummed ≠ .checksumPartial := by rw [hs.ipSummed]; exact hp
    rw [SkBuff.check_eq_iff how.header (hr.ne_ffff hsp), hr.total hsp, hs.total hp,
      (SkBuff.tcpVerifies_iff hw.header).mp htcp, zero_add, add_zero, mul_255_eq_zero,
      or_iff_right hp]

/-- A segment from 10.0.0.1 to 10.0.0.2 with two bytes of data, a timestamp behind one
`NOP` and an end-of-list byte. -/
def oddTimestamp : SkBuff :=
  { (default : SkBuff) with
    totLen := htons 54#16, protocol := ipprotoTcp, doff := 8#4, flags := tcphdrAck,
    saddr := 0x0100000a#32, daddr := 0x0200000a#32,
    ipCheck := 0xc0a6#16, check := 0xbc5e#16,
    data := [1#8, 8#8, 10#8, 0#8, 0#8, 0#8, 1#8, 0#8, 0#8, 0#8, 1#8, 0#8, 0#8, 0#8] }

/-- A host whose session sends its data on a new path that adds `delta` to timestamps. -/
def twoPathHost (delta : U32) : Host :=
  { Host.fresh with
    outMem :=
      Function.update
        (Function.update default 0
          { (default : CbOut) with otherPath := some 1, state := .established, useNpSeq := true })
        1 { (default : CbOut) with tsOk := true, tsDelta := delta, tsAdd := true } }

theorem oddTimestamp_wellFormed : oddTimestamp.WellFormed :=
  ⟨rfl, by decide, by decide, by decide⟩

theorem outTranslate_oddTimestamp :
    (outTranslate default (twoPathHost 0#32) oddTimestamp 0).2.1.ChecksumsReady ↔
      (oddTimestamp.ipSummed = .checksumPartial ∨
        (257 : ℤ) ∣ oddGrowth (twoPathHost 0#32) oddTimestamp 0) :=
  outTranslate_valid_iff _ _ _ oddTimestamp_wellFormed (by decide +kernel)

/-- A timestamp at an odd offset is translated and the segment leaves with a wrong
checksum. -/
theorem outTranslate_corrupts :
    oddTimestamp.WellFormed ∧ oddTimestamp.ChecksumsPass ∧ oddTimestamp.hasSyn = false ∧
      ¬ (outTranslate default (twoPathHost 1#32) oddTimestamp 0).2.1.ChecksumsReady :=
  ⟨oddTimestamp_wellFormed, by decide +kernel, by decide, by decide +kernel⟩

end Dysco
