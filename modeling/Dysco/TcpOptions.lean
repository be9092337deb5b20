import Dysco.ControlBlock
import Dysco.Checksum

/-! # TCP options

Four loops of the module walk the option area of a TCP header: they skip a no-op
byte, stop at the end-of-list byte, and read kind and size of anything else,
stopping if the size is less than two or more than what is left of the area.
`SkBuff.options` is the list of the options such a loop meets; each loop is a fold
over it.

The loops write only into values of options, and a value never overlaps the kind
or size of an option (`options_congr`): so a packet with its SACK edges or
timestamps rewritten has the same options, in the same places.
-/
namespace Dysco
open OnesComplement ByteOrder

def tcpoptEol : U8 := 0#8
def tcpoptNop : U8 := 1#8
def tcpoptWindow : U8 := 3#8
def tcpoptSackPerm : U8 := 4#8
def tcpoptSack : U8 := 5#8
def tcpoptTimestamp : U8 := 8#8
/-- The option kind reserved for experimentation. -/
def dyscoTcpOption : U8 := 253#8
def dyscoTcpOptionLen : Nat := 8

/-- An option met by a parsing loop, with the offset of its value from the end of the
fixed TCP header. -/
structure TcpOption where
  kind : U8
  size : Nat
  ptr : Nat
deriving DecidableEq, Repr

/-- The options met from offset `ptr` on, with `length` bytes of the area left.  Every
round of the loop uses up a byte, so `length` rounds are enough. -/
def optionsFrom (data : List U8) : Nat → Nat → Nat → List TcpOption
  | 0, _, _ => []
  | fuel + 1, ptr, length =>
    if length = 0 then []
    else
      let opcode := byteAt data ptr
      if opcode = tcpoptEol then []
      else if opcode = tcpoptNop then optionsFrom data fuel (ptr + 1) (length - 1)
      else
        let opsize := (byteAt data (ptr + 1)).toNat
        if opsize < 2 then []
        else if length < opsize then []
        else ⟨opcode, opsize, ptr + 2⟩ :: optionsFrom data fuel (ptr + opsize) (length - opsize)

namespace SkBuff

/-- The options of the packet. -/
def options (skb : SkBuff) : List TcpOption := optionsFrom skb.data skb.optLen 0 skb.optLen

/-- Writing a 32-bit word behind the fixed TCP header. -/
def store (skb : SkBuff) (k : Nat) (x : U32) : SkBuff :=
  { skb with data := store32 skb.data k x }

end SkBuff

/-! ## Where options lie -/

/-- Offset `k` lies in the value of an option. -/
def TcpOption.Covers (o : TcpOption) (k : Nat) : Prop := o.ptr ≤ k ∧ k + 2 < o.ptr + o.size

/-- An option lies behind the point the loop starts from, and inside the area. -/
theorem mem_optionsFrom {data : List U8} {fuel ptr length : Nat} {o : TcpOption}
    (h : o ∈ optionsFrom data fuel ptr length) :
    ptr + 2 ≤ o.ptr ∧ 2 ≤ o.size ∧ o.ptr + o.size ≤ ptr + length + 2 := by
  induction fuel generalizing ptr length with
  | zero => cases h
  | succ fuel ih =>
    unfold optionsFrom at h
    split at h
    · cases h
    · simp only at h
      split at h
      · cases h
      · split at h
        · have := ih h
          omega
        · split at h
          · cases h
          · split at h
            · cases h
            · rcases List.mem_cons.mp h with rfl | hmem
              · simp only
                omega
              · have := ih hmem
                omega

/-- **The options depend only on the bytes outside option values.** -/
theorem optionsFrom_congr {data data' : List U8} {fuel ptr length : Nat}
    (h : ∀ k, ptr ≤ k → (∀ o ∈ optionsFrom data fuel ptr length, ¬ o.Covers k) →
      byteAt data' k = byteAt data k) :
    optionsFrom data' fuel ptr length = optionsFrom data fuel ptr length := by
  induction fuel generalizing ptr length with
  | zero => rfl
  | succ fuel ih =>
    -- the two bytes the loop looks at first lie before every value
    have hbefore : ∀ k, ptr ≤ k → k < ptr + 2 → byteAt data' k = byteAt data k := by
      intro k hk hlt
      apply h k hk
      rintro o ho ⟨hlo, -⟩
      have := mem_optionsFrom ho
      omega
    unfold optionsFrom at h ⊢
    simp only [hbefore ptr (Nat.le_refl _) (by omega),
      hbefore (ptr + 1) (by omega) (by omega)] at h ⊢
    split
    · rfl
    · rename_i h0
      rw [if_neg h0] at h
      split
      · rfl
      · rename_i heol
        rw [if_neg heol] at h
        split
        · rename_i hnop
          rw [if_pos hnop] at h
          exact ih fun k hk hcov => h k (by omega) hcov
        · rename_i hnop
          rw [if_neg hnop] at h
          split
          · rfl
          · rename_i hsmall
            rw [if_neg hsmall] at h
            split
            · rfl
            · rename_i hbig
              rw [if_neg hbig] at h
              rw [List.cons.injEq]
              refine ⟨rfl, ih fun k hk hcov => h k (by omega) ?_⟩
              -- behind this option only the later ones can cover a byte
              intro o ho
              rcases List.mem_cons.mp ho with rfl | hmem
              · rintro ⟨-, hlt⟩
                simp only at hlt
                omega
              · exact hcov o hmem

namespace SkBuff

theorem mem_options {skb : SkBuff} {o : TcpOption} (h : o ∈ skb.options) :
    2 ≤ o.ptr ∧ 2 ≤ o.size ∧ o.ptr + o.size ≤ skb.optLen + 2 := by
  have := mem_optionsFrom h
  omega

/-- A write into the value of an option leaves the options as they are. -/
theorem options_store {skb : SkBuff} {o : TcpOption} (ho : o ∈ skb.options) {k : Nat}
    (hk : o.ptr ≤ k) (hend : k + 6 ≤ o.ptr + o.size) (x : U32) :
    (skb.store k x).options = skb.options := by
  apply optionsFrom_congr
  intro i _ hcov
  apply byteAt_store32_of_lt
  by_contra hin
  apply hcov o ho
  unfold TcpOption.Covers
  omega

end SkBuff

/-! ## SACK edges and timestamps -/

/-- Adding or subtracting a delta, as the flag next to it says. -/
def shift (delta : U32) (add : Bool) (x : U32) : U32 := if add then x + delta else x - delta

@[simp] theorem shift_zero (add : Bool) (x : U32) : shift 0#32 add x = x := by
  cases add <;> simp [shift]

namespace SkBuff

/-- Replacing a 32-bit word behind the TCP header by one the module computed, with the
checksum adjusted. -/
def replaceWord (skb : SkBuff) (k : Nat) (f : U32 → U32) : SkBuff :=
  let old := load32 skb.data k
  let new := htonl (f (ntohl old))
  (dyscoInetProtoCsumReplace4 skb old new false).store k new

end SkBuff

/-- One block of a SACK option: the checksum is adjusted for both edges, then both are
written. -/
def sackBlock (delta : U32) (add : Bool) (skb : SkBuff) (lptr : Nat) : SkBuff :=
  let leftEdge := load32 skb.data lptr
  let rightEdge := load32 skb.data (lptr + 4)
  let newAckL := htonl (shift delta add (ntohl leftEdge))
  let newAckR := htonl (shift delta add (ntohl rightEdge))
  let skb := dyscoInetProtoCsumReplace4 skb leftEdge newAckL false
  let skb := dyscoInetProtoCsumReplace4 skb rightEdge newAckR false
  (skb.store lptr newAckL).store (lptr + 4) newAckR

/-- The blocks of a SACK option, from offset `lptr` on. -/
def sackBlocks (delta : U32) (add : Bool) : Nat → SkBuff → Nat → SkBuff
  | 0, skb, _ => skb
  | n + 1, skb, lptr => sackBlocks delta add n (sackBlock delta add skb lptr) (lptr + 8)

/-- A SACK option with at least one block and no part of a block. -/
def TcpOption.IsSack (o : TcpOption) : Prop :=
  o.kind = tcpoptSack ∧ 10 ≤ o.size ∧ (o.size - 2) % 8 = 0

instance (o : TcpOption) : Decidable o.IsSack := inferInstanceAs (Decidable (_ ∧ _ ∧ _))

/-- `dysco_tcp_sack`: translates the edges of the SACK blocks. -/
def tcpSack (skb : SkBuff) (delta : U32) (add : Bool) : SkBuff :=
  skb.options.foldl
    (fun skb o =>
      if o.IsSack then sackBlocks delta add ((o.size - 2) / 8) skb o.ptr else skb)
    skb

/-- `dysco_get_ts_option`: the offset of the first timestamp option's value. -/
def getTsOption (skb : SkBuff) : Option Nat :=
  (skb.options.find? fun o => decide (o.kind = tcpoptTimestamp ∧ o.size = 10)).map TcpOption.ptr

/-- The timestamp option lies in the option area. -/
theorem getTsOption_lt {skb : SkBuff} {ts : Nat} (h : getTsOption skb = some ts) :
    2 ≤ ts ∧ ts + 8 ≤ skb.optLen := by
  obtain ⟨o, ho, rfl⟩ := Option.map_eq_some_iff.mp h
  have hsize := List.find?_some ho
  simp only [decide_eq_true_eq] at hsize
  have := SkBuff.mem_options (List.mem_of_find?_eq_some ho)
  omega

/-- The timestamp translation shared by both directions. -/
def rewriteTs (skb : SkBuff) (tsDelta : U32) (tsAdd : Bool) (tsrDelta : U32) (tsrAdd : Bool) :
    SkBuff :=
  match getTsOption skb with
  | none => skb
  | some ts =>
    let skb := if tsDelta = 0#32 then skb else skb.replaceWord ts (shift tsDelta tsAdd)
    if tsrDelta = 0#32 then skb else skb.replaceWord (ts + 4) (shift tsrDelta tsrAdd)

/-! ## Options of a SYN -/

/-- `get_unaligned_be32`, behind the fixed TCP header. -/
def SkBuff.be32 (skb : SkBuff) (k : Nat) : U32 := ntohl (load32 skb.data k)

/-- The window scale an option announces, at most 14. -/
def SkBuff.wscale (skb : SkBuff) (k : Nat) : U16 :=
  let sndWscale := byteAt skb.data k
  (if 14#8 < sndWscale then 14#8 else sndWscale).setWidth 16

/-- What `dysco_parse_tcp_syn_opt_r` does with one option. -/
def parseOptR (skb : SkBuff) (dcb : CbIn) (o : TcpOption) : CbIn :=
  if o.kind = tcpoptWindow then
    if o.size = 3 then
      { dcb with wsOk := true, wsDelta := 0#16, wsIn := skb.wscale o.ptr,
                 wsOut := skb.wscale o.ptr }
    else dcb
  else if o.kind = tcpoptTimestamp then
    -- timestamps are taken from a SYN+ACK only
    if o.size = 10 ∧ skb.hasAck = true then
      { dcb with tsOk := true, tsIn := skb.be32 o.ptr, tsOut := skb.be32 o.ptr,
                 tsrIn := skb.be32 (o.ptr + 4), tsrOut := skb.be32 (o.ptr + 4),
                 tsDelta := 0#32, tsrDelta := 0#32 }
    else dcb
  else if o.kind = tcpoptSackPerm then
    if o.size = 2 then { dcb with sackOk := true } else dcb
  else dcb

/-- `dysco_parse_tcp_syn_opt_r`: the options of a SYN or SYN+ACK, in the input path. -/
def parseTcpSynOptR (skb : SkBuff) (dcb : CbIn) : CbIn :=
  skb.options.foldl (parseOptR skb) { dcb with sackOk := false }

/-- What `dysco_parse_tcp_syn_opt_s` does with one option. -/
def parseOptS (skb : SkBuff) (dcb : CbOut) (o : TcpOption) : CbOut :=
  if o.kind = tcpoptWindow then
    if o.size = 3 then
      { dcb with wsOk := true, wsDelta := 0#16, wsIn := skb.wscale o.ptr,
                 wsOut := skb.wscale o.ptr }
    else dcb
  else if o.kind = tcpoptTimestamp then
    if o.size = 10 ∧ skb.hasAck = true then
      { dcb with tsOk := true, tsIn := skb.be32 o.ptr, tsOut := skb.be32 o.ptr,
                 tsrIn := skb.be32 (o.ptr + 4), tsrOut := skb.be32 (o.ptr + 4),
                 tsDelta := 0#32, tsrDelta := 0#32 }
    else dcb
  else if o.kind = tcpoptSackPerm then
    if o.size = 2 then { dcb with sackOk := true } else dcb
  else if o.kind = dyscoTcpOption then
    -- the tag is read from where the value begins
    { dcb with tagOk := true, dyscoTag := load32 skb.data o.ptr }
  else dcb

/-- `dysco_parse_tcp_syn_opt_s`: the options of a SYN or SYN+ACK, in the output path. -/
def parseTcpSynOptS (skb : SkBuff) (dcb : CbOut) : CbOut :=
  skb.options.foldl (parseOptS skb) { dcb with sackOk := false }

/-- The block with the options of another one. -/
def CbOut.withOptions (d o : CbOut) : CbOut :=
  { d with
    wsOk := o.wsOk, wsDelta := o.wsDelta, wsIn := o.wsIn, wsOut := o.wsOut
    tsOk := o.tsOk, tsIn := o.tsIn, tsOut := o.tsOut, tsDelta := o.tsDelta
    tsrIn := o.tsrIn, tsrOut := o.tsrOut, tsrDelta := o.tsrDelta
    sackOk := o.sackOk, tagOk := o.tagOk, dyscoTag := o.dyscoTag }

theorem parseOptS_eq (skb : SkBuff) (d : CbOut) (o : TcpOption) :
    parseOptS skb d o = d.withOptions (parseOptS skb d o) := by
  rw [parseOptS]
  generalize skb.be32 o.ptr = ts
  generalize skb.be32 (o.ptr + 4) = tsr
  generalize load32 skb.data o.ptr = tag
  generalize skb.wscale o.ptr = ws
  split
  · split <;> rfl
  · split
    · split <;> rfl
    · split
      · split <;> rfl
      · split <;> rfl

/-- **Parsing the options of a SYN** writes nothing but the options of the block. -/
theorem parseTcpSynOptS_eq (skb : SkBuff) (d : CbOut) :
    parseTcpSynOptS skb d = d.withOptions (parseTcpSynOptS skb d) := by
  have hfold : ∀ (os : List TcpOption) (d : CbOut),
      os.foldl (parseOptS skb) d = d.withOptions (os.foldl (parseOptS skb) d) := by
    intro os
    induction os with
    | nil => exact fun _ => rfl
    | cons o os ih =>
      intro d
      rw [List.foldl_cons, ih, parseOptS_eq]
      rfl
  exact hfold skb.options { d with sackOk := false }

/-! ## The tag -/

/-- `struct dysco_tcp_option`, as bytes: kind, length, two bytes of padding, the tag. -/
def tagBytes (tag : U32) : List U8 := [dyscoTcpOption, 8#8] ++ bytes16 0#16 ++ bytes32 tag

theorem length_tagBytes (tag : U32) : (tagBytes tag).length = 8 := rfl

/-- `dysco_insert_tag`: appends the tag option and counts the tag up. -/
def insertTag (h : Host) (skb : SkBuff) : Host × SkBuff :=
  let tag := h.dyscoTag
  let skb := skb.put (tagBytes tag)
  ({ h with dyscoTag := tag + 1#32 },
    { skb with doff := skb.doff + 2#4, totLen := htons (ntohs skb.totLen + 8#16) })

/-- Behind whole headers, the tag is appended to the options. -/
theorem insertTag_of_whole (h : Host) {skb : SkBuff} (hw : skb.cut = 0) :
    (insertTag h skb).2 = { skb with
      data := skb.data ++ tagBytes h.dyscoTag
      tailroom := skb.tailroom - (tagBytes h.dyscoTag).length
      doff := skb.doff + 2#4
      totLen := htons (ntohs skb.totLen + 8#16) } := by
  rw [insertTag, SkBuff.put_of_whole hw]

theorem cut_insertTag (h : Host) {skb : SkBuff} (hw : skb.cut = 0) :
    (insertTag h skb).2.cut = 0 := by
  rw [insertTag_of_whole h hw]
  exact hw

theorem len_insertTag (h : Host) {skb : SkBuff}
    (hcut : skb.cut ≤ skb.ihl * 4 + 20 + skb.data.length) :
    (insertTag h skb).2.len = skb.len + 8 := by
  have hkeep : (insertTag h skb).2.len = (skb.put (tagBytes h.dyscoTag)).len := rfl
  rw [hkeep, SkBuff.len_put hcut, length_tagBytes]

/-- `dysco_remove_tag`: cuts the last eight bytes off, where the tag was put. -/
def removeTag (skb : SkBuff) : SkBuff :=
  { skb.trim dyscoTcpOptionLen with
    doff := skb.doff - 2#4, totLen := htons (ntohs skb.totLen - 8#16) }

end Dysco
