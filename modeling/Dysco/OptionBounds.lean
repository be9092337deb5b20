import Dysco.SackEdges

/-! # What the option loops read and write

The loops over the option area once more, with every access checked: one outside the area, from
the end of the fixed TCP header to the data offset, is an error, `none`.  A loop fails in two
cases.  It reads the size of an option before it looks whether there is a byte for
it, so the area may be cut short after a kind (`cutShort`); and the output loop reads the four
bytes of a tag whatever the size of the option says.  In all other cases the checked loops
are the ones of the module (`optionsInside_iff`).
-/
namespace Dysco
open ByteOrder

/-! ## Checked accesses -/

namespace SkBuff

/-- A byte of the option area. -/
def readByte (skb : SkBuff) (k : Nat) : Option U8 :=
  if k < skb.optLen then some (byteAt skb.data k) else none

/-- Four bytes of the option area. -/
def readWord (skb : SkBuff) (k : Nat) : Option U32 :=
  if k + 4 ≤ skb.optLen then some (load32 skb.data k) else none

/-- Writing four bytes of the option area. -/
def writeWord (skb : SkBuff) (k : Nat) (x : U32) : Option SkBuff :=
  if k + 4 ≤ skb.optLen then some (skb.store k x) else none

variable {skb : SkBuff} {k : Nat}

/-- A checked access goes through exactly when it is inside the option area. -/
theorem readByte_of_lt (h : k < skb.optLen) : skb.readByte k = some (byteAt skb.data k) := if_pos h
theorem readByte_of_le (h : skb.optLen ≤ k) : skb.readByte k = none := if_neg (Nat.not_lt_of_le h)
theorem readWord_of_le (h : k + 4 ≤ skb.optLen) : skb.readWord k = some (load32 skb.data k) :=
  if_pos h
theorem readWord_of_lt (h : skb.optLen < k + 4) : skb.readWord k = none :=
  if_neg (Nat.not_le_of_lt h)
theorem writeWord_of_le (h : k + 4 ≤ skb.optLen) (x : U32) :
    skb.writeWord k x = some (skb.store k x) := if_pos h

end SkBuff

/-! ## The loop -/

/-- The loop shared by the four functions, from offset `ptr` on, with `length` bytes left.  Its
state `s` holds the packet `pkt s`; `body` deals with one option and says whether to return. -/
def walkOptions {S : Type} (pkt : S → SkBuff) (body : S → TcpOption → Option (S × Bool)) :
    Nat → Nat → Nat → S → Option S
  | 0, _, _, s => some s
  | fuel + 1, ptr, length, s =>
    if length = 0 then some s
    else do
      let opcode ← (pkt s).readByte ptr
      if opcode = tcpoptEol then some s
      else if opcode = tcpoptNop then walkOptions pkt body fuel (ptr + 1) (length - 1) s
      else do
        let opsize ← (pkt s).readByte (ptr + 1)
        if opsize.toNat < 2 then some s
        else if length < opsize.toNat then some s
        else do
          let (s, stop) ← body s ⟨opcode, opsize.toNat, ptr + 2⟩
          if stop then some s
          else walkOptions pkt body fuel (ptr + opsize.toNat) (length - opsize.toNat) s

/-- The loop comes to a last byte of the area that is the kind of an option. -/
def cutShortFrom (data : List U8) : Nat → Nat → Nat → Bool
  | 0, _, _ => false
  | fuel + 1, ptr, length =>
    if length = 0 then false
    else
      let opcode := byteAt data ptr
      if opcode = tcpoptEol then false
      else if opcode = tcpoptNop then cutShortFrom data fuel (ptr + 1) (length - 1)
      else if length = 1 then true
      else
        let opsize := (byteAt data (ptr + 1)).toNat
        if opsize < 2 then false
        else if length < opsize then false
        else cutShortFrom data fuel (ptr + opsize) (length - opsize)

/-- The option area is cut short after a kind. -/
def SkBuff.cutShort (skb : SkBuff) : Bool := cutShortFrom skb.data skb.optLen 0 skb.optLen

/-- Whether the walk is cut short depends on the bytes that it comes to. -/
theorem cutShortFrom_congr {data data' : List U8} {fuel ptr length : Nat}
    (h : ∀ k, ptr ≤ k → byteAt data' k = byteAt data k) :
    cutShortFrom data' fuel ptr length = cutShortFrom data fuel ptr length := by
  induction fuel generalizing ptr length with
  | zero => rfl
  | succ fuel ih =>
    simp only [cutShortFrom]
    rw [h ptr (Nat.le_refl _), h (ptr + 1) (Nat.le_succ _)]
    generalize (byteAt data (ptr + 1)).toNat = size
    rw [ih fun k hk => h k (Nat.le_of_succ_le hk),
      ih fun k hk => h k (Nat.le_trans (Nat.le_add_right ptr size) hk)]

/-- The options up to the first one at which a loop returns. -/
def upTo (stop : TcpOption → Bool) : List TcpOption → List TcpOption
  | [] => []
  | o :: os => o :: if stop o then [] else upTo stop os

/-- A loop that never breaks goes through all options. -/
theorem upTo_false (os : List TcpOption) : upTo (fun _ => false) os = os := by
  induction os with
  | nil => rfl
  | cons o os ih => rw [upTo, ih, if_neg Bool.false_ne_true]

/-- What a body does with one option: it applies `f` and returns if `stop`, or fails because the
option does not fit.  It writes into the option at most. -/
structure Body {S : Type} (pkt : S → SkBuff) (body : S → TcpOption → Option (S × Bool))
    (fits : Nat → TcpOption → Prop) (f : S → TcpOption → S) (stop : TcpOption → Bool) : Prop where
  ok : ∀ s o, 2 ≤ o.size → o.ptr + o.size ≤ (pkt s).optLen + 2 → fits (pkt s).optLen o →
    body s o = some (f s o, stop o)
  bad : ∀ s o, o.ptr + o.size ≤ (pkt s).optLen + 2 → ¬ fits (pkt s).optLen o → body s o = none
  optLen : ∀ s o, (pkt (f s o)).optLen = (pkt s).optLen
  behind : ∀ s o k, o.ptr + o.size ≤ k + 2 → byteAt (pkt (f s o)).data k = byteAt (pkt s).data k

/-- **A loop fails exactly if** it comes to the end of an area that is cut short or meets an
option that does not fit, and otherwise folds over the options. -/
theorem walkOptions_eq {S : Type} {pkt : S → SkBuff} {body : S → TcpOption → Option (S × Bool)}
    {fits : Nat → TcpOption → Prop} {f : S → TcpOption → S} {stop : TcpOption → Bool}
    (hb : Body pkt body fits f stop) {fuel length : Nat} (ptr : Nat) (s : S) (hlen : length ≤ fuel)
    (harea : ptr + length = (pkt s).optLen) :
    (walkOptions pkt body fuel ptr length s ≠ none ↔
      (cutShortFrom (pkt s).data fuel ptr length = false ∨
          ∃ o ∈ optionsFrom (pkt s).data fuel ptr length, stop o = true) ∧
        ∀ o ∈ upTo stop (optionsFrom (pkt s).data fuel ptr length), fits (pkt s).optLen o) ∧
    (walkOptions pkt body fuel ptr length s ≠ none →
      walkOptions pkt body fuel ptr length s =
        some ((upTo stop (optionsFrom (pkt s).data fuel ptr length)).foldl f s)) := by
  induction fuel generalizing ptr length s with
  | zero => simp [walkOptions, cutShortFrom, optionsFrom, upTo]
  | succ fuel ih =>
    rw [walkOptions, cutShortFrom, optionsFrom]
    by_cases h0 : length = 0
    · simp [h0, upTo]
    simp only [if_neg h0]
    rw [SkBuff.readByte_of_lt (by omega)]
    simp only [Option.bind_eq_bind, Option.bind_some]
    by_cases heol : byteAt (pkt s).data ptr = tcpoptEol
    · simp [heol, upTo]
    simp only [if_neg heol]
    by_cases hnop : byteAt (pkt s).data ptr = tcpoptNop
    · simp only [if_pos hnop]
      exact ih (ptr + 1) s (by omega) (by omega)
    simp only [if_neg hnop]
    by_cases h1 : length = 1
    · -- the size byte would lie behind the area; no option is met any more
      have hno : ∀ size, (if size < 2 then ([] : List TcpOption)
          else if length < size then [] else
            ⟨byteAt (pkt s).data ptr, size, ptr + 2⟩ ::
              optionsFrom (pkt s).data fuel (ptr + size) (length - size)) = [] := by
        intro size
        by_cases hsmall : size < 2
        · rw [if_pos hsmall]
        · rw [if_neg hsmall, if_pos (by omega)]
      rw [SkBuff.readByte_of_le (by omega), if_pos h1, hno]
      simp
    simp only [if_neg h1]
    rw [SkBuff.readByte_of_lt (by omega)]
    simp only [Option.bind_some]
    generalize hsize : (byteAt (pkt s).data (ptr + 1)).toNat = size
    by_cases hsmall : size < 2
    · simp [hsmall, upTo]
    simp only [if_neg hsmall]
    by_cases hbig : length < size
    · simp [hbig, upTo]
    simp only [if_neg hbig]
    generalize ho : (⟨byteAt (pkt s).data ptr, size, ptr + 2⟩ : TcpOption) = o
    have hptr : o.ptr = ptr + 2 := by rw [← ho]
    have hosize : o.size = size := by rw [← ho]
    have hin : o.ptr + o.size ≤ (pkt s).optLen + 2 := by omega
    rw [upTo]
    by_cases hfits : fits (pkt s).optLen o
    · rw [hb.ok s o (by omega) hin hfits]
      simp only [Option.bind_some]
      by_cases hstop : stop o = true
      · simp [hstop, hfits]
      rw [if_neg hstop, if_neg hstop]
      have hbehind : ∀ k, ptr + size ≤ k → byteAt (pkt (f s o)).data k = byteAt (pkt s).data k :=
        fun k hk => hb.behind s o k (by omega)
      have hrest : ptr + size + (length - size) = (pkt (f s o)).optLen := by
        rw [hb.optLen]
        omega
      have hnext := ih (ptr + size) (f s o) (by omega) hrest
      rw [cutShortFrom_congr hbehind, optionsFrom_congr fun k hk _ => hbehind k hk,
        hb.optLen] at hnext
      refine ⟨hnext.1.trans (and_congr ?_ ?_), hnext.2⟩
      · rw [List.exists_mem_cons_iff, or_iff_right hstop]
      · exact ⟨fun hall => List.forall_mem_cons.mpr ⟨hfits, hall⟩,
          fun hall => (List.forall_mem_cons.mp hall).2⟩
    · rw [hb.bad s o hin hfits]
      simp [hfits]

/-! ## The four loops -/

namespace Checked

/-- `dysco_get_ts_option`: returns at the first timestamp option. -/
def getTsOption (skb : SkBuff) : Option (Option Nat) :=
  walkOptions (fun _ => skb)
    (fun ts o =>
      if o.kind = tcpoptTimestamp ∧ o.size = 10 then some (some o.ptr, true) else some (ts, false))
    skb.optLen 0 skb.optLen none

/-- One block of a SACK option. -/
def sackBlock (delta : U32) (add : Bool) (skb : SkBuff) (lptr : Nat) : Option SkBuff := do
  let leftEdge ← skb.readWord lptr
  let rightEdge ← skb.readWord (lptr + 4)
  let newAckL := htonl (shift delta add (ntohl leftEdge))
  let newAckR := htonl (shift delta add (ntohl rightEdge))
  let skb := dyscoInetProtoCsumReplace4 skb leftEdge newAckL false
  let skb := dyscoInetProtoCsumReplace4 skb rightEdge newAckR false
  let skb ← skb.writeWord lptr newAckL
  skb.writeWord (lptr + 4) newAckR

/-- The blocks of a SACK option, from offset `lptr` on. -/
def sackBlocks (delta : U32) (add : Bool) : Nat → SkBuff → Nat → Option SkBuff
  | 0, skb, _ => some skb
  | n + 1, skb, lptr => do
    let skb ← sackBlock delta add skb lptr
    sackBlocks delta add n skb (lptr + 8)

/-- `dysco_tcp_sack`. -/
def tcpSack (skb : SkBuff) (delta : U32) (add : Bool) : Option SkBuff :=
  walkOptions id
    (fun skb o =>
      if o.IsSack then
        (sackBlocks delta add ((o.size - 2) / 8) skb o.ptr).map fun skb => (skb, false)
      else some (skb, false))
    skb.optLen 0 skb.optLen skb

/-- The window scale an option announces, at most 14. -/
def wscale (skb : SkBuff) (k : Nat) : Option U16 := do
  let sndWscale ← skb.readByte k
  some ((if 14#8 < sndWscale then 14#8 else sndWscale).setWidth 16)

/-- What `dysco_parse_tcp_syn_opt_r` does with one option. -/
def parseOptR (skb : SkBuff) (dcb : CbIn) (o : TcpOption) : Option CbIn :=
  if o.kind = tcpoptWindow then
    if o.size = 3 then do
      let ws ← wscale skb o.ptr
      some { dcb with wsOk := true, wsDelta := 0#16, wsIn := ws, wsOut := ws }
    else some dcb
  else if o.kind = tcpoptTimestamp then
    if o.size = 10 ∧ skb.hasAck = true then do
      let ts ← skb.readWord o.ptr
      let tsr ← skb.readWord (o.ptr + 4)
      some { dcb with tsOk := true, tsIn := ntohl ts, tsOut := ntohl ts, tsrIn := ntohl tsr,
                      tsrOut := ntohl tsr, tsDelta := 0#32, tsrDelta := 0#32 }
    else some dcb
  else if o.kind = tcpoptSackPerm then
    if o.size = 2 then some { dcb with sackOk := true } else some dcb
  else some dcb

/-- `dysco_parse_tcp_syn_opt_r`. -/
def parseTcpSynOptR (skb : SkBuff) (dcb : CbIn) : Option CbIn :=
  walkOptions (fun _ => skb) (fun dcb o => (parseOptR skb dcb o).map fun dcb => (dcb, false))
    skb.optLen 0 skb.optLen { dcb with sackOk := false }

/-- What `dysco_parse_tcp_syn_opt_s` does with one option. -/
def parseOptS (skb : SkBuff) (dcb : CbOut) (o : TcpOption) : Option CbOut :=
  if o.kind = tcpoptWindow then
    if o.size = 3 then do
      let ws ← wscale skb o.ptr
      some { dcb with wsOk := true, wsDelta := 0#16, wsIn := ws, wsOut := ws }
    else some dcb
  else if o.kind = tcpoptTimestamp then
    if o.size = 10 ∧ skb.hasAck = true then do
      let ts ← skb.readWord o.ptr
      let tsr ← skb.readWord (o.ptr + 4)
      some { dcb with tsOk := true, tsIn := ntohl ts, tsOut := ntohl ts, tsrIn := ntohl tsr,
                      tsrOut := ntohl tsr, tsDelta := 0#32, tsrDelta := 0#32 }
    else some dcb
  else if o.kind = tcpoptSackPerm then
    if o.size = 2 then some { dcb with sackOk := true } else some dcb
  else if o.kind = dyscoTcpOption then do
    -- the size of the option is not looked at
    let tag ← skb.readWord o.ptr
    some { dcb with tagOk := true, dyscoTag := tag }
  else some dcb

/-- `dysco_parse_tcp_syn_opt_s`. -/
def parseTcpSynOptS (skb : SkBuff) (dcb : CbOut) : Option CbOut :=
  walkOptions (fun _ => skb) (fun dcb o => (parseOptS skb dcb o).map fun dcb => (dcb, false))
    skb.optLen 0 skb.optLen { dcb with sackOk := false }

/-- Replacing a word of the option area. -/
def replaceWord (skb : SkBuff) (k : Nat) (f : U32 → U32) : Option SkBuff := do
  let old ← skb.readWord k
  let new := htonl (f (ntohl old))
  (dyscoInetProtoCsumReplace4 skb old new false).writeWord k new

/-- The timestamp translation of the callers of `dysco_get_ts_option`. -/
def rewriteTs (skb : SkBuff) (tsDelta : U32) (tsAdd : Bool) (tsrDelta : U32) (tsrAdd : Bool) :
    Option SkBuff := do
  match ← getTsOption skb with
  | none => some skb
  | some ts =>
    let skb ← if tsDelta = 0#32 then some skb else replaceWord skb ts (shift tsDelta tsAdd)
    if tsrDelta = 0#32 then some skb else replaceWord skb (ts + 4) (shift tsrDelta tsrAdd)

end Checked

/-! ## What fits -/

variable {skb : SkBuff}

/-- Every option fits, for loops that look at the size before they read the value. -/
abbrev anyOption (_ : Nat) (_ : TcpOption) : Prop := True

/-- The four bytes of a tag lie in the area. -/
def tagFits (optLen : Nat) (o : TcpOption) : Prop :=
  o.kind = dyscoTcpOption → o.ptr + 4 ≤ optLen

/-- The loop of `dysco_get_ts_option` stops at the first timestamp of the right size. -/
theorem body_getTsOption (skb : SkBuff) :
    Body (fun _ => skb)
      (fun ts o => if o.kind = tcpoptTimestamp ∧ o.size = 10 then some (some o.ptr, true)
        else some (ts, false))
      anyOption (fun ts o => if o.kind = tcpoptTimestamp ∧ o.size = 10 then some o.ptr else ts)
      fun o => decide (o.kind = tcpoptTimestamp ∧ o.size = 10) := by
  refine ⟨fun ts o _ _ _ => ?_, fun _ _ _ hbad => absurd trivial hbad, fun _ _ => rfl,
    fun _ _ _ _ => rfl⟩
  by_cases hts : o.kind = tcpoptTimestamp ∧ o.size = 10
  · simp [hts]
  · rw [if_neg hts, if_neg hts, decide_eq_false hts]

/-- One byte is read for a window scale. -/
theorem checked_wscale {k : Nat} (h : k < skb.optLen) :
    Checked.wscale skb k = some (skb.wscale k) := by
  rw [Checked.wscale, SkBuff.readByte_of_lt h]
  rfl

/-- An option that lies inside the area is read inside it. -/
theorem checked_parseOptR {dcb : CbIn} {o : TcpOption} (hin : o.ptr + o.size ≤ skb.optLen + 2) :
    Checked.parseOptR skb dcb o = some (parseOptR skb dcb o) := by
  rw [Checked.parseOptR, parseOptR]
  split
  · split
    · rw [checked_wscale (by omega)]
      rfl
    · rfl
  · split
    · split
      · rename_i hts
        have := hts.1
        rw [SkBuff.readWord_of_le (by omega), SkBuff.readWord_of_le (by omega)]
        rfl
      · rfl
    · split
      · split <;> rfl
      · rfl

/-- So it is on the way out, if the four bytes that are read of a tag are. -/
theorem checked_parseOptS {dcb : CbOut} {o : TcpOption} (hin : o.ptr + o.size ≤ skb.optLen + 2)
    (hfits : tagFits skb.optLen o) :
    Checked.parseOptS skb dcb o = some (parseOptS skb dcb o) := by
  rw [Checked.parseOptS, parseOptS]
  split
  · split
    · rw [checked_wscale (by omega)]
      rfl
    · rfl
  · split
    · split
      · rename_i hts
        have := hts.1
        rw [SkBuff.readWord_of_le (by omega), SkBuff.readWord_of_le (by omega)]
        rfl
      · rfl
    · split
      · split <;> rfl
      · split
        · rename_i htag
          rw [SkBuff.readWord_of_le (hfits htag)]
          rfl
        · rfl

/-- A tag that does not fit makes the output loop fail. -/
theorem checked_parseOptS_bad {dcb : CbOut} {o : TcpOption} (hfits : ¬ tagFits skb.optLen o) :
    Checked.parseOptS skb dcb o = none := by
  obtain ⟨htag, hout⟩ := not_forall.mp hfits
  rw [Checked.parseOptS, if_neg (by rw [htag]; decide), if_neg (by rw [htag]; decide),
    if_neg (by rw [htag]; decide), if_pos htag, SkBuff.readWord_of_lt (Nat.lt_of_not_le hout)]
  rfl

/-- The loop of `dysco_parse_tcp_syn_opt_r` never breaks. -/
theorem body_parseOptR (skb : SkBuff) :
    Body (fun _ => skb) (fun dcb o => (Checked.parseOptR skb dcb o).map fun dcb => (dcb, false))
      anyOption (parseOptR skb) fun _ => false := by
  refine ⟨fun dcb o _ hin _ => ?_, fun _ _ _ hbad => absurd trivial hbad, fun _ _ => rfl,
    fun _ _ _ _ => rfl⟩
  rw [checked_parseOptR hin]
  rfl

/-- Nor does that of `dysco_parse_tcp_syn_opt_s`. -/
theorem body_parseOptS (skb : SkBuff) :
    Body (fun _ => skb) (fun dcb o => (Checked.parseOptS skb dcb o).map fun dcb => (dcb, false))
      tagFits (parseOptS skb) fun _ => false := by
  refine ⟨fun dcb o _ hin hfits => ?_, fun dcb o _ hbad => ?_, fun _ _ => rfl, fun _ _ _ _ => rfl⟩
  · rw [checked_parseOptS hin hfits]
    rfl
  · rw [checked_parseOptS_bad hbad]
    rfl

/-! ### The SACK translation -/

/-- A SACK block inside the area is rewritten inside it. -/
theorem checked_sackBlock {lptr : Nat} (h : lptr + 8 ≤ skb.optLen) (delta : U32) (add : Bool) :
    Checked.sackBlock delta add skb lptr = some (sackBlock delta add skb lptr) := by
  rw [Checked.sackBlock, SkBuff.readWord_of_le (by omega), SkBuff.readWord_of_le (by omega)]
  simp only [Option.bind_eq_bind, Option.bind_some]
  rw [SkBuff.writeWord_of_le, Option.bind_some, SkBuff.writeWord_of_le]
  · rfl
  · exact h
  · change lptr + 4 ≤ skb.optLen
    omega

theorem sackBlock_optLen (delta : U32) (add : Bool) (skb : SkBuff) (lptr : Nat) :
    (sackBlock delta add skb lptr).optLen = skb.optLen := by
  rw [sackBlock_eq, SkBuff.replaceWord_optLen, SkBuff.replaceWord_optLen]

/-- By induction, so are several blocks in a row. -/
theorem checked_sackBlocks {n lptr : Nat} (h : lptr + 8 * n ≤ skb.optLen) (delta : U32)
    (add : Bool) :
    Checked.sackBlocks delta add n skb lptr = some (sackBlocks delta add n skb lptr) := by
  induction n generalizing skb lptr with
  | zero => rfl
  | succ n ih =>
    rw [Checked.sackBlocks, checked_sackBlock (by omega), sackBlocks]
    exact ih (by rw [sackBlock_optLen]; omega)

theorem sackBlocks_optLen (delta : U32) (add : Bool) (n : Nat) (skb : SkBuff) (lptr : Nat) :
    (sackBlocks delta add n skb lptr).optLen = skb.optLen := by
  induction n generalizing skb lptr with
  | zero => rfl
  | succ n ih => rw [sackBlocks, ih, sackBlock_optLen]

/-- The blocks of an option are written inside it. -/
theorem byteAt_sackBlocks {delta : U32} {add : Bool} {n lptr k : Nat} (hk : lptr + 8 * n ≤ k) :
    byteAt (sackBlocks delta add n skb lptr).data k = byteAt skb.data k := by
  induction n generalizing skb lptr with
  | zero => rfl
  | succ n ih =>
    rw [sackBlocks, ih (by omega), sackBlock_eq, SkBuff.replaceWord_data,
      byteAt_store32_of_lt (by omega), SkBuff.replaceWord_data, byteAt_store32_of_lt (by omega)]

/-- The loop of `dysco_tcp_sack` goes through all options and rewrites what is SACK. -/
theorem body_tcpSack (delta : U32) (add : Bool) :
    Body id
      (fun skb o =>
        if o.IsSack then
          (Checked.sackBlocks delta add ((o.size - 2) / 8) skb o.ptr).map fun skb => (skb, false)
        else some (skb, false))
      anyOption
      (fun skb o =>
        if o.IsSack then sackBlocks delta add ((o.size - 2) / 8) skb o.ptr else skb)
      fun _ => false := by
  refine ⟨fun skb o _ hin _ => ?_, fun _ _ _ hbad => absurd trivial hbad, fun skb o => ?_,
    fun skb o k hk => ?_⟩
  · have hin' : o.ptr + o.size ≤ skb.optLen + 2 := hin
    split
    · rename_i hsack
      have := hsack.2
      rw [checked_sackBlocks (by omega)]
      rfl
    · rfl
  · split
    · exact sackBlocks_optLen delta add _ skb o.ptr
    · rfl
  · split
    · rename_i hsack
      have := hsack.2
      exact byteAt_sackBlocks (by omega)
    · rfl

/-! ## Inside the area -/

/-- Up to the break, the loop has found the first timestamp. -/
theorem foldl_upTo_timestamp (os : List TcpOption) (ts : Option Nat) :
    (upTo (fun o => decide (o.kind = tcpoptTimestamp ∧ o.size = 10)) os).foldl
        (fun ts o => if o.kind = tcpoptTimestamp ∧ o.size = 10 then some o.ptr else ts) ts =
      ((os.find? fun o => decide (o.kind = tcpoptTimestamp ∧ o.size = 10)).map TcpOption.ptr).or
      ts := by
  induction os generalizing ts with
  | nil => simp [upTo]
  | cons o os ih =>
    rw [upTo, List.foldl_cons]
    by_cases hts : o.kind = tcpoptTimestamp ∧ o.size = 10
    · simp [hts]
    · rw [if_neg hts, List.find?_cons_of_neg (by simpa using hts), if_neg (by simpa using hts), ih]

/-- **`dysco_get_ts_option`** fails if the area is cut short and it has not returned before. -/
theorem checked_getTsOption (skb : SkBuff) :
    Checked.getTsOption skb =
      if skb.cutShort = true ∧ getTsOption skb = none then none else some (getTsOption skb) := by
  obtain ⟨hfails, hvalue⟩ := walkOptions_eq (body_getTsOption skb) 0 none
    (Nat.le_refl skb.optLen) (Nat.zero_add _)
  have hstop : (∃ o ∈ skb.options, decide (o.kind = tcpoptTimestamp ∧ o.size = 10) = true) ↔
      getTsOption skb ≠ none := by
    rw [getTsOption, ne_eq, Option.map_eq_none_iff, List.find?_eq_none]
    simp
  change Checked.getTsOption skb ≠ none ↔
    (skb.cutShort = false ∨ ∃ o ∈ skb.options, _) ∧ _ at hfails
  rw [hstop] at hfails
  by_cases hcut : skb.cutShort = true ∧ getTsOption skb = none
  · rw [if_pos hcut]
    exact by_contra fun hne => (hfails.mp hne).1.elim (by simp [hcut.1]) fun h => h hcut.2
  · rw [if_neg hcut]
    have hne : Checked.getTsOption skb ≠ none := by
      refine hfails.mpr ⟨?_, fun _ _ => trivial⟩
      rcases not_and_or.mp hcut with hc | hc
      · exact Or.inl (Bool.eq_false_iff.mpr hc)
      · exact Or.inr hc
    refine (hvalue hne).trans ?_
    rw [foldl_upTo_timestamp, Option.or_none]
    rfl

/-- **`dysco_tcp_sack`** fails if the area is cut short. -/
theorem checked_tcpSack (skb : SkBuff) (delta : U32) (add : Bool) :
    (Checked.tcpSack skb delta add ≠ none ↔ skb.cutShort = false) ∧
      (Checked.tcpSack skb delta add ≠ none →
        Checked.tcpSack skb delta add = some (tcpSack skb delta add)) := by
  obtain ⟨hfails, hvalue⟩ := walkOptions_eq (body_tcpSack delta add) 0 skb
    (Nat.le_refl skb.optLen) (Nat.zero_add _)
  rw [upTo_false] at hfails hvalue
  refine ⟨hfails.trans ⟨fun h => h.1.resolve_right ?_, fun h => ⟨Or.inl h, fun _ _ => trivial⟩⟩,
    hvalue⟩
  rintro ⟨_, _, hc⟩
  cases hc

/-- **`dysco_parse_tcp_syn_opt_r`** fails if the area is cut short. -/
theorem checked_parseTcpSynOptR (skb : SkBuff) (dcb : CbIn) :
    (Checked.parseTcpSynOptR skb dcb ≠ none ↔ skb.cutShort = false) ∧
      (Checked.parseTcpSynOptR skb dcb ≠ none →
        Checked.parseTcpSynOptR skb dcb = some (parseTcpSynOptR skb dcb)) := by
  obtain ⟨hfails, hvalue⟩ := walkOptions_eq (body_parseOptR skb) 0
    { dcb with sackOk := false } (Nat.le_refl skb.optLen) (Nat.zero_add _)
  rw [upTo_false] at hfails hvalue
  refine ⟨hfails.trans ⟨fun h => h.1.resolve_right ?_, fun h => ⟨Or.inl h, fun _ _ => trivial⟩⟩,
    hvalue⟩
  rintro ⟨_, _, hc⟩
  cases hc

/-- **`dysco_parse_tcp_syn_opt_s`** fails also if it meets a tag that does not fit. -/
theorem checked_parseTcpSynOptS (skb : SkBuff) (dcb : CbOut) :
    (Checked.parseTcpSynOptS skb dcb ≠ none ↔
        skb.cutShort = false ∧ ∀ o ∈ skb.options, tagFits skb.optLen o) ∧
      (Checked.parseTcpSynOptS skb dcb ≠ none →
        Checked.parseTcpSynOptS skb dcb = some (parseTcpSynOptS skb dcb)) := by
  obtain ⟨hfails, hvalue⟩ := walkOptions_eq (body_parseOptS skb) 0
    { dcb with sackOk := false } (Nat.le_refl skb.optLen) (Nat.zero_add _)
  rw [upTo_false] at hfails hvalue
  refine ⟨hfails.trans (and_congr_left fun _ => ⟨fun h => h.resolve_right ?_, Or.inl⟩), hvalue⟩
  rintro ⟨_, _, hc⟩
  cases hc

/-- A word inside the area is rewritten inside it. -/
theorem checked_replaceWord {k : Nat} (h : k + 4 ≤ skb.optLen) (f : U32 → U32) :
    Checked.replaceWord skb k f = some (skb.replaceWord k f) := by
  rw [Checked.replaceWord, SkBuff.readWord_of_le h]
  simp only [Option.bind_eq_bind, Option.bind_some]
  rw [SkBuff.writeWord_of_le]
  · rfl
  · exact h

/-- Both halves of a timestamp at `ts`, which may be left as they are. -/
theorem checked_replaceWord_unless {k : Nat} (h : k + 4 ≤ skb.optLen) (keep : Prop) [Decidable keep]
    (f : U32 → U32) :
    (if keep then some skb else Checked.replaceWord skb k f) =
      some (if keep then skb else skb.replaceWord k f) := by
  split
  · rfl
  · exact checked_replaceWord h f

/-- The eight bytes of a timestamp lie in the area. -/
theorem checked_rewriteTs (hts : Checked.getTsOption skb ≠ none) (tsDelta : U32) (tsAdd : Bool)
    (tsrDelta : U32) (tsrAdd : Bool) :
    Checked.rewriteTs skb tsDelta tsAdd tsrDelta tsrAdd =
      some (rewriteTs skb tsDelta tsAdd tsrDelta tsrAdd) := by
  have heq : Checked.getTsOption skb = some (getTsOption skb) := by
    rw [checked_getTsOption] at hts ⊢
    rw [if_neg fun hcut => hts (if_pos hcut)]
  unfold Checked.rewriteTs rewriteTs
  rw [heq]
  simp only [Option.bind_eq_bind, Option.bind_some]
  cases hget : getTsOption skb with
  | none => rfl
  | some ts =>
    have hin := getTsOption_lt hget
    by_cases hfirst : tsDelta = 0#32
    · simp only [if_pos hfirst]
      exact checked_replaceWord_unless (by omega) _ _
    · simp only [if_neg hfirst]
      rw [checked_replaceWord (by omega), Option.bind_some]
      exact checked_replaceWord_unless (by rw [SkBuff.replaceWord_optLen]; omega) _ _

/-- Whatever the options are, the loops and their callers stay inside the option area. -/
structure OptionsInside (skb : SkBuff) : Prop where
  getTsOption : Checked.getTsOption skb ≠ none
  tcpSack : ∀ delta add, Checked.tcpSack skb delta add ≠ none
  parseTcpSynOptR : ∀ dcb, Checked.parseTcpSynOptR skb dcb ≠ none
  parseTcpSynOptS : ∀ dcb, Checked.parseTcpSynOptS skb dcb ≠ none
  rewriteTs : ∀ tsDelta tsAdd tsrDelta tsrAdd,
    Checked.rewriteTs skb tsDelta tsAdd tsrDelta tsrAdd ≠ none

/-- **The loops stay inside the area exactly if** it is not cut short and its tags fit. -/
theorem optionsInside_iff (skb : SkBuff) : OptionsInside skb ↔
    skb.cutShort = false ∧
      ∀ o ∈ skb.options, o.kind = dyscoTcpOption → o.ptr + 4 ≤ skb.optLen := by
  constructor
  · intro h
    exact (checked_parseTcpSynOptS skb default).1.mp (h.parseTcpSynOptS default)
  · rintro ⟨hcut, htags⟩
    have hts : Checked.getTsOption skb ≠ none := by
      rw [checked_getTsOption, hcut]
      simp
    refine ⟨hts, fun delta add => (checked_tcpSack skb delta add).1.mpr hcut,
      fun dcb => (checked_parseTcpSynOptR skb dcb).1.mpr hcut,
      fun dcb => (checked_parseTcpSynOptS skb dcb).1.mpr ⟨hcut, htags⟩, fun _ _ _ _ => ?_⟩
    rw [checked_rewriteTs hts]
    exact Option.some_ne_none _

/-- Three no-ops and a kind: the size would be the first byte of the payload. -/
def cutShortPacket : SkBuff :=
  { (default : SkBuff) with doff := 6#4, data := [1#8, 1#8, 1#8, 3#8] }

/-- An option whose length byte would be the first byte behind the area. -/
theorem not_optionsInside : ¬ ∀ skb : SkBuff, 5 ≤ skb.doff.toNat → OptionsInside skb := by
  intro hall
  have hcut := (hall cutShortPacket (by decide)).parseTcpSynOptR default
  rw [(checked_parseTcpSynOptR cutShortPacket default).1] at hcut
  revert hcut
  decide

end Dysco
