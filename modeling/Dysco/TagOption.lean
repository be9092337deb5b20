import Dysco.SackBatch

/-! # The tag option

`dysco_insert_tag` appends an option of eight bytes to a SYN: kind, length, two bytes
of padding and the tag.  `dysco_parse_tcp_syn_opt_s` reads four bytes from behind the
length, so it takes the padding for the lower half of the tag.  Of the tags only zero is
read back, and only if no end-of-list byte keeps the parser from the option
(`tagRoundTrip_iff`).  Nothing looks whether the header has room for two more words.
-/
namespace Dysco
open OnesComplement ByteOrder

/-! ## Options in front of the tag -/

/-- The loop over the options stops at an end-of-list byte. -/
def eolFrom (data : List U8) : Nat → Nat → Nat → Bool
  | 0, _, _ => false
  | fuel + 1, ptr, length =>
    if length = 0 then false
    else
      let opcode := byteAt data ptr
      if opcode = tcpoptEol then true
      else if opcode = tcpoptNop then eolFrom data fuel (ptr + 1) (length - 1)
      else
        let opsize := (byteAt data (ptr + 1)).toNat
        if opsize < 2 then false
        else if length < opsize then false
        else eolFrom data fuel (ptr + opsize) (length - opsize)

def SkBuff.optionsEol (skb : SkBuff) : Bool := eolFrom skb.data skb.optLen 0 skb.optLen

theorem byteAt_of_le {bs : List U8} {k : Nat} (h : bs.length ≤ k) : byteAt bs k = 0#8 := by
  rw [byteAt, List.getD_eq_getElem?_getD, List.getElem?_eq_none h]
  rfl

/-- The option that the parser meets at the tag. -/
theorem optionsFrom_tag (data : List U8) (tag : U32) (fuel : Nat) :
    optionsFrom (data ++ tagBytes tag) (fuel + 8) data.length 8 =
      [⟨dyscoTcpOption, 8, data.length + 2⟩] := by
  have hkind : byteAt (data ++ tagBytes tag) data.length = dyscoTcpOption := by
    have h := byteAt_append_right data (tagBytes tag) 0
    rw [Nat.add_zero] at h
    rw [h]
    rfl
  have hsize : byteAt (data ++ tagBytes tag) (data.length + 1) = 8#8 := by
    rw [byteAt_append_right]
    rfl
  rw [optionsFrom, if_neg (by decide)]
  simp only [hkind, hsize]
  rw [if_neg (by decide), if_neg (by decide), if_neg (by decide), if_neg (by decide)]
  rw [List.cons.injEq]
  refine ⟨rfl, ?_⟩
  rw [optionsFrom]
  exact if_pos rfl

/-- **If the parser gets through the options, it meets the tag behind them.** -/
theorem optionsFrom_append_of_ends {data : List U8} {fuel ptr length : Nat}
    (hlen : ptr + length = data.length) (h : endsFrom data fuel ptr length = true) (tag : U32) :
    optionsFrom (data ++ tagBytes tag) (fuel + 8) ptr (length + 8) =
      optionsFrom data fuel ptr length ++ [⟨dyscoTcpOption, 8, data.length + 2⟩] := by
  induction fuel generalizing ptr length with
  | zero =>
    have h0 : length = 0 := of_decide_eq_true h
    rw [h0] at hlen ⊢
    rw [show ptr = data.length from hlen]
    exact optionsFrom_tag data tag 0
  | succ fuel ih =>
    rw [endsFrom] at h
    by_cases h0 : length = 0
    · rw [h0] at hlen ⊢
      rw [show ptr = data.length from hlen, optionsFrom_tag data tag (fuel + 1), optionsFrom]
      rfl
    rw [if_neg h0] at h
    have hkind : byteAt (data ++ tagBytes tag) ptr = byteAt data ptr :=
      byteAt_append_left (by omega) _
    rw [show fuel + 1 + 8 = (fuel + 8).succ from by omega, optionsFrom.eq_2 (data ++ tagBytes tag),
      optionsFrom.eq_2 data, if_neg h0, if_neg (show ¬ length + 8 = 0 by omega)]
    simp only [hkind] at h ⊢
    split at h
    · cases h
    rename_i heol
    rw [if_neg heol, if_neg heol]
    split at h
    · rename_i hnop
      rw [if_pos hnop, if_pos hnop, show length + 8 - 1 = length - 1 + 8 from by omega]
      exact ih (by omega) h
    rename_i hnop
    rw [if_neg hnop, if_neg hnop]
    split at h
    · cases h
    rename_i hsmall
    split at h
    · cases h
    rename_i hbig
    -- the size byte is one of the packet's own: a byte behind it would be zero
    have hsize : byteAt (data ++ tagBytes tag) (ptr + 1) = byteAt data (ptr + 1) := by
      apply byteAt_append_left
      by_contra hout
      rw [byteAt_of_le (by omega)] at hsmall
      exact hsmall (by decide)
    simp only [hsize]
    rw [if_neg hsmall, if_neg hsmall, if_neg hbig, if_neg (by omega), List.cons_append,
      List.cons.injEq]
    refine ⟨rfl, ?_⟩
    rw [show length + 8 - (byteAt data (ptr + 1)).toNat =
      length - (byteAt data (ptr + 1)).toNat + 8 from by omega]
    exact ih (by omega) h

/-- **If the parser stops at an end-of-list byte, it does not meet the tag.** -/
theorem optionsFrom_append_of_eol {data : List U8} {fuel ptr length : Nat}
    (hlen : ptr + length = data.length) (h : eolFrom data fuel ptr length = true)
    (bs : List U8) (n : Nat) :
    optionsFrom (data ++ bs) (fuel + n) ptr (length + n) = optionsFrom data fuel ptr length := by
  induction fuel generalizing ptr length with
  | zero => cases h
  | succ fuel ih =>
    rw [eolFrom] at h
    split at h
    · cases h
    rename_i h0
    have hkind : byteAt (data ++ bs) ptr = byteAt data ptr := byteAt_append_left (by omega) _
    rw [show fuel + 1 + n = (fuel + n).succ from by omega, optionsFrom.eq_2 (data ++ bs),
      optionsFrom.eq_2 data, if_neg h0, if_neg (show ¬ length + n = 0 by omega)]
    simp only [hkind] at h ⊢
    split at h
    · rename_i heol
      rw [if_pos heol, if_pos heol]
    rename_i heol
    rw [if_neg heol, if_neg heol]
    split at h
    · rename_i hnop
      rw [if_pos hnop, if_pos hnop, show length + n - 1 = length - 1 + n from by omega]
      exact ih (by omega) h
    rename_i hnop
    rw [if_neg hnop, if_neg hnop]
    split at h
    · cases h
    rename_i hsmall
    split at h
    · cases h
    rename_i hbig
    have hsize : byteAt (data ++ bs) (ptr + 1) = byteAt data (ptr + 1) := by
      apply byteAt_append_left
      by_contra hout
      rw [byteAt_of_le (by omega)] at hsmall
      exact hsmall (by decide)
    simp only [hsize]
    rw [if_neg hsmall, if_neg hsmall, if_neg hbig, if_neg (by omega), List.cons.injEq]
    refine ⟨rfl, ?_⟩
    rw [show length + n - (byteAt data (ptr + 1)).toNat =
      length - (byteAt data (ptr + 1)).toNat + n from by omega]
    exact ih (by omega) h

/-! ## What the parser reads -/

/-- What the parser takes for the tag: four bytes behind the last option of the tag's kind. -/
def tagRead (data : List U8) (os : List TcpOption) : Option U32 :=
  ((os.filter fun o => decide (o.kind = dyscoTcpOption)).getLast?).map fun o => load32 data o.ptr

theorem parseOptS_tag (skb : SkBuff) (d : CbOut) (o : TcpOption) :
    ((parseOptS skb d o).tagOk, (parseOptS skb d o).dyscoTag) =
      if o.kind = dyscoTcpOption then (true, load32 skb.data o.ptr) else (d.tagOk, d.dyscoTag) := by
  rw [parseOptS]
  by_cases hk : o.kind = dyscoTcpOption
  · rw [if_pos hk, if_neg (by rw [hk]; decide), if_neg (by rw [hk]; decide),
      if_neg (by rw [hk]; decide), if_pos hk]
  · rw [if_neg hk]
    split
    · split <;> rfl
    · split
      · split <;> rfl
      · split
        · split <;> rfl
        · rfl

/-- **The parser finds a tag** exactly if it meets an option of the tag's kind, the last of
which counts. -/
theorem parseTcpSynOptS_tag (skb : SkBuff) (d : CbOut) :
    ((parseTcpSynOptS skb d).tagOk, (parseTcpSynOptS skb d).dyscoTag) =
      ((tagRead skb.data skb.options).map fun tag => (true, tag)).getD (d.tagOk, d.dyscoTag) := by
  have hfold : ∀ (os : List TcpOption) (d : CbOut),
      ((os.foldl (parseOptS skb) d).tagOk, (os.foldl (parseOptS skb) d).dyscoTag) =
        ((tagRead skb.data os).map fun tag => (true, tag)).getD (d.tagOk, d.dyscoTag) := by
    intro os
    induction os with
    | nil => exact fun _ => rfl
    | cons o os ih =>
      intro d
      rw [List.foldl_cons, ih, parseOptS_tag, tagRead, tagRead]
      by_cases hk : o.kind = dyscoTcpOption
      · rw [if_pos hk, List.filter_cons_of_pos (by simpa using hk), List.getLast?_cons]
        cases (os.filter fun o => decide (o.kind = dyscoTcpOption)).getLast? <;> rfl
      · rw [if_neg hk, List.filter_cons_of_neg (by simpa using hk)]
  exact hfold skb.options { d with sackOk := false }

/-- The tag is recovered into every block exactly if it is what the parser reads. -/
theorem recovered_iff (skb : SkBuff) (tag : U32) :
    (∀ d, (parseTcpSynOptS skb d).tagOk = true ∧ (parseTcpSynOptS skb d).dyscoTag = tag) ↔
      tagRead skb.data skb.options = some tag := by
  constructor
  · intro h
    have hread := parseTcpSynOptS_tag skb default
    rw [(h default).1, (h default).2] at hread
    cases hfound : tagRead skb.data skb.options with
    | none =>
      rw [hfound] at hread
      exact absurd (congrArg Prod.fst hread) Bool.noConfusion
    | some found =>
      rw [hfound] at hread
      exact congrArg some (congrArg Prod.snd hread).symm
  · intro hfound d
    have hread := parseTcpSynOptS_tag skb d
    rw [hfound] at hread
    exact ⟨congrArg Prod.fst hread, congrArg Prod.snd hread⟩

/-- Where the value of the tag option begins, the padding comes first. -/
theorem load32_tag (data : List U8) (tag : U32) :
    (load32 (data ++ tagBytes tag) (data.length + 2)).toNat = tag.toNat % 65536 * 65536 := by
  have hb : ∀ i, byteAt (data ++ tagBytes tag) (data.length + i) = byteAt (tagBytes tag) i :=
    byteAt_append_right data _
  rw [toNat_load32, show data.length + 2 + 1 = data.length + 3 from rfl,
    show data.length + 2 + 2 = data.length + 4 from rfl,
    show data.length + 2 + 3 = data.length + 5 from rfl, hb, hb, hb, hb]
  simp only [tagBytes, bytes16, bytes32, List.cons_append, List.nil_append, byteAt,
    List.getD_cons_zero, List.getD_cons_succ, byte, BitVec.toNat_ofNat, Nat.reducePow,
    Nat.div_one, Nat.zero_mod, Nat.zero_div]
  have := tag.isLt
  omega

theorem load32_tag_eq_iff (data : List U8) (tag : U32) :
    load32 (data ++ tagBytes tag) (data.length + 2) = tag ↔ tag = 0#32 := by
  have hread := load32_tag data tag
  have hlt := tag.isLt
  constructor
  · intro heq
    rw [heq] at hread
    apply BitVec.eq_of_toNat_eq
    rw [BitVec.toNat_ofNat]
    omega
  · rintro rfl
    apply BitVec.eq_of_toNat_eq
    rw [hread]
    rfl

/-! ## The round trip -/

/-- A SYN with whole headers of a legal length, with options that end at the end of the option area
or at an end-of-list byte, and nothing behind them. -/
structure PlainSyn (skb : SkBuff) : Prop where
  whole : skb.cut = 0
  doff : 5 ≤ skb.doff.toNat
  noPayload : skb.data.length = skb.optLen
  options : skb.optionsEnd = true ∨ skb.optionsEol = true

/-- The packets have the same bytes. -/
def SameBytes (skb skb' : SkBuff) : Prop := skb' = { skb with tailroom := skb'.tailroom }

/-- What the tag should do: if the header has room for it, the tagged packet has a legal header
with the tag behind the options, the parser recovers the tag, and its removal restores the
packet; if the header has no room, the packet stays as it is. -/
def TagRoundTrip (h : Host) (skb : SkBuff) : Prop :=
  if skb.doff.toNat ≤ 13 then
    (insertTag h skb).2.doff.toNat = skb.doff.toNat + 2 ∧
    (insertTag h skb).2.optLen = skb.optLen + 8 ∧
    (insertTag h skb).2.data = skb.data ++ tagBytes h.dyscoTag ∧
    (∀ d, (parseTcpSynOptS (insertTag h skb).2 d).tagOk = true ∧
      (parseTcpSynOptS (insertTag h skb).2 d).dyscoTag = h.dyscoTag) ∧
    SameBytes skb (removeTag (insertTag h skb).2)
  else (insertTag h skb).2 = skb

variable {h : Host} {skb : SkBuff}

theorem insertTag_data (h : Host) (hw : skb.cut = 0) :
    (insertTag h skb).2.data = skb.data ++ tagBytes h.dyscoTag := by
  rw [insertTag_of_whole h hw]

theorem insertTag_doff (hw : skb.cut = 0) (hroom : skb.doff.toNat ≤ 13) :
    (insertTag h skb).2.doff.toNat = skb.doff.toNat + 2 := by
  have hdoff : (insertTag h skb).2.doff = skb.doff + 2#4 := by rw [insertTag_of_whole h hw]
  rw [hdoff, BitVec.toNat_add, BitVec.toNat_ofNat]
  omega

theorem insertTag_optLen (hs : PlainSyn skb) (hroom : skb.doff.toNat ≤ 13) :
    (insertTag h skb).2.optLen = skb.optLen + 8 := by
  have hdoff := hs.doff
  rw [SkBuff.optLen, SkBuff.optLen, insertTag_doff hs.whole hroom]
  omega

/-- Removing the tag restores the packet, whatever the options are. -/
theorem removeTag_insertTag (h : Host) (hw : skb.cut = 0) :
    SameBytes skb (removeTag (insertTag h skb).2) := by
  have hlong : dyscoTcpOptionLen ≤ (insertTag h skb).2.data.length := by
    rw [insertTag_data h hw, List.length_append, length_tagBytes]
    exact Nat.le_add_left _ _
  have hlen : ¬ (insertTag h skb).2.len < dyscoTcpOptionLen := by
    rw [len_insertTag h (by rw [hw]; exact Nat.zero_le _), dyscoTcpOptionLen]
    omega
  have htrim : ((skb.data ++ tagBytes h.dyscoTag).take
      ((skb.data ++ tagBytes h.dyscoTag).length - 8)) = skb.data := by
    rw [List.length_append, length_tagBytes, Nat.add_sub_cancel, List.take_left]
  have hdoff : skb.doff + 2#4 - 2#4 = skb.doff := BitVec.add_sub_cancel _ _
  have htot : htons (ntohs (htons (ntohs skb.totLen + 8#16)) - 8#16) = skb.totLen := by
    rw [ntohs_htons, BitVec.add_sub_cancel, htons_ntohs]
  rw [SameBytes, removeTag, SkBuff.trim_of_le hlong hlen, insertTag_of_whole h hw]
  simp only [dyscoTcpOptionLen, htrim, hdoff, htot]

/-- What the parser reads in the tagged packet. -/
theorem tagRead_insertTag (hs : PlainSyn skb) (hroom : skb.doff.toNat ≤ 13) :
    tagRead (insertTag h skb).2.data (insertTag h skb).2.options =
      if skb.optionsEnd then
        some (load32 (skb.data ++ tagBytes h.dyscoTag) (skb.data.length + 2))
      else tagRead (skb.data ++ tagBytes h.dyscoTag) skb.options := by
  rw [SkBuff.options, insertTag_data h hs.whole, insertTag_optLen hs hroom]
  have hlen : 0 + skb.optLen = skb.data.length := by rw [Nat.zero_add, hs.noPayload]
  cases hend : skb.optionsEnd with
  | true =>
    rw [optionsFrom_append_of_ends hlen hend, if_pos rfl, tagRead, List.filter_append,
      List.getLast?_append]
    rfl
  | false =>
    have heol := hs.options.resolve_left (by rw [hend]; exact Bool.false_ne_true)
    rw [optionsFrom_append_of_eol hlen heol]
    rfl

/-- **The tag makes the round trip exactly when** the header has room, and either the parser
reaches the tag and the tag is zero, or it stops before and the last option of the tag's kind in
front of the end-of-list byte happens to read the tag. -/
theorem tagRoundTrip_iff (hs : PlainSyn skb) :
    TagRoundTrip h skb ↔ skb.doff.toNat ≤ 13 ∧
      if skb.optionsEnd then h.dyscoTag = 0#32
      else tagRead (skb.data ++ tagBytes h.dyscoTag) skb.options = some h.dyscoTag := by
  rw [TagRoundTrip]
  by_cases hroom : skb.doff.toNat ≤ 13
  · rw [if_pos hroom, and_iff_right (insertTag_doff hs.whole hroom),
      and_iff_right (insertTag_optLen hs hroom), and_iff_right (insertTag_data h hs.whole),
      and_iff_left (removeTag_insertTag h hs.whole), and_iff_right hroom, recovered_iff,
      tagRead_insertTag hs hroom]
    cases skb.optionsEnd with
    | true =>
      rw [if_pos rfl, if_pos rfl, Option.some.injEq]
      exact load32_tag_eq_iff _ _
    | false => exact Iff.rfl
  · rw [if_neg hroom]
    refine iff_of_false (fun heq => ?_) fun hc => hroom hc.1
    have hlen := congrArg (fun s => s.data.length) heq
    simp only [insertTag_data h hs.whole, List.length_append, length_tagBytes] at hlen
    omega

/-- A SYN without options. -/
def bareSyn : SkBuff := { (default : SkBuff) with doff := 5#4, flags := tcphdrSyn }

theorem tagRoundTrip_zero : TagRoundTrip Host.fresh bareSyn :=
  (tagRoundTrip_iff ⟨rfl, by decide, by decide, Or.inl (by decide)⟩).mpr ⟨by decide, by decide⟩

/-- The second tag of a host is read back as 65536. -/
theorem not_tagRoundTrip : ¬ ∀ h skb, PlainSyn skb → TagRoundTrip h skb := by
  intro hall
  have htrip := hall { Host.fresh with dyscoTag := 1#32 } bareSyn
    ⟨rfl, by decide, by decide, Or.inl (by decide)⟩
  have hparsed := (htrip.2.2.2.1 default).2
  revert hparsed
  decide +kernel

end Dysco
