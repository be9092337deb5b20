import Dysco.SeqCutoff
import Dysco.TagOption

/-! # A SYN that leaves a middlebox twice

The first time a SYN leaves a middlebox it goes through `dysco_out_handle_mb`, which cuts
off the tag it entered with.  If the SYN arrives again, the session has an output
block, and `dysco_out_syn` handles what the middlebox emits: it rewrites the header and
appends the chain in the same way, but leaves the tag where it is; and it drops a
SYN whose chain does not fit, which the first way sends without its chain.  So both
ways agree only on a SYN from which the middlebox has taken the tag itself
(`sameBothTimes_iff`), and never if the middlebox is transparent
(`not_sameBothTimes_of_grown`).
-/
namespace Dysco
open OnesComplement ByteOrder

variable {E : Env}

/-! ## What is on the wire -/

/-- A packet without the IP identification, its checksums and what is not in its bytes. -/
def SkBuff.wire (skb : SkBuff) : SkBuff :=
  { skb with
    id := 0#16, ipCheck := 0#16, check := 0#16, behind := [], ipSummed := .checksumNone,
    csum := 0#32, tailroom := 0, skbIif := 0#32, frees := 0 }

/-- The packets agree byte for byte, apart from the identification and the checksums. -/
def SameWire (skb skb' : SkBuff) : Prop := skb.wire = skb'.wire

theorem wire_fixTcpIpCsum (skb : SkBuff) : (fixTcpIpCsum skb).wire = skb.wire := by
  rw [fixTcpIpCsum]
  simp only
  split <;> rfl

/-- The bytes that `dysco_add_sc` appends. -/
def chainBytes (super : TcpSession) (sc : ServiceChain) : List U8 := super.bytes ++ sc.bytes

/-- The packet with its chain appended, on the wire. -/
def SkBuff.chained (skb : SkBuff) (bs : List U8) : SkBuff :=
  { (skb.put bs).wire with totLen := htons (BitVec.ofNat 16 (skb.put bs).len) }

theorem chained_of_whole {skb : SkBuff} (hw : skb.cut = 0) (bs : List U8) :
    skb.chained bs = { skb.wire with
      data := skb.data ++ bs
      totLen := htons (BitVec.ofNat 16 (skb.ihl * 4 + 20 + (skb.data.length + bs.length))) } := by
  have hlen : (skb.put bs).len = skb.ihl * 4 + 20 + (skb.data.length + bs.length) := by
    rw [SkBuff.len_put (by rw [hw]; exact Nat.zero_le _), SkBuff.len, hw, Nat.sub_zero,
      Nat.add_assoc]
  rw [SkBuff.chained, hlen, SkBuff.put_of_whole hw]
  rfl

theorem doff_chained {skb : SkBuff} (hw : skb.cut = 0) (bs : List U8) :
    (skb.chained bs).doff = skb.doff := by
  rw [chained_of_whole hw]
  rfl

theorem session_chained {skb : SkBuff} (hw : skb.cut = 0) (bs : List U8) :
    (skb.chained bs).session = skb.session := by
  rw [chained_of_whole hw]
  rfl

theorem data_chained (skb : SkBuff) (bs : List U8) :
    (skb.chained bs).data = skb.data ++ bs.drop skb.cut := rfl

/-- The chain fits into the tailroom. -/
def Fits (skb : SkBuff) (bs : List U8) : Prop := bs.length ≤ skb.tailroom

instance (skb : SkBuff) (bs : List U8) : Decidable (Fits skb bs) :=
  inferInstanceAs (Decidable (_ ≤ _))

theorem addSc_of_fits {skb : SkBuff} {super : TcpSession} {sc : ServiceChain}
    (h : Fits skb (chainBytes super sc)) :
    ∃ skb', addSc skb super sc = some skb' ∧ skb'.wire = skb.chained (chainBytes super sc) := by
  have hpkt : super.bytes ++ sc.bytes = chainBytes super sc := rfl
  rw [addSc, hpkt]
  simp only
  rw [if_neg (Nat.not_lt_of_ge h)]
  split
  · exact ⟨_, rfl, rfl⟩
  · exact ⟨_, rfl, rfl⟩

theorem addSc_of_not_fits {skb : SkBuff} {super : TcpSession} {sc : ServiceChain}
    (h : ¬ Fits skb (chainBytes super sc)) : addSc skb super sc = none := by
  rw [addSc]
  exact if_pos (Nat.lt_of_not_le h)

/-! ## The first time -/

/-- The next hop of a block: what `dysco_arp` fills in, and from what. -/
def CbOut.hop (d : CbOut) : U32 × U32 × Mac := (d.sub.sip, d.sub.dip, d.nhMac)

/-- The next hop has been looked up. -/
def CbOut.Resolved (E : Env) (tos : U8) (d : CbOut) : Prop := (arp E tos d).hop = d.hop

/-- Looking up the next hop again changes nothing. -/
theorem resolved_arp (tos : U8) (d : CbOut) : (arp E tos d).Resolved E tos := by
  rw [CbOut.Resolved, arp, CbOut.hop, CbOut.hop, arp]
  simp only
  cases E.neigh ((E.route tos d.sub.dip).getD (0#32, d.sub.dip)).2 <;> rfl

theorem CbOut.Resolved.congr {tos : U8} {d d' : CbOut} (h : d.Resolved E tos)
    (heq : d'.hop = d.hop) : d'.Resolved E tos := by
  have hsip : d'.sub.sip = d.sub.sip := congrArg Prod.fst heq
  have hdip : d'.sub.dip = d.sub.dip := congrArg (fun x => x.2.1) heq
  have hmac : d'.nhMac = d.nhMac := congrArg (fun x => x.2.2) heq
  have harp : (arp E tos d').hop = (arp E tos d).hop := by
    rw [arp, arp, CbOut.hop, CbOut.hop]
    simp only [hdip, hmac]
  rw [CbOut.Resolved, harp, heq]
  exact h

theorem hop_parseTcpSynOptS (skb : SkBuff) (d : CbOut) : (parseTcpSynOptS skb d).hop = d.hop := by
  rw [parseTcpSynOptS_eq]
  rfl

theorem insertCbOut_self (h : Host) (p : Nat) (twoPaths : Bool) :
    ∃ q, (insertCbOut E h p twoPaths).outMem p = (h.outMem p).withDcbIn q := by
  rw [insertCbOut, insertCbOutReverse]
  cases hk : (h.insertOut E p).kzallocIn with
  | mk o h1 =>
    cases o with
    | none =>
      rw [Host.kzallocIn] at hk
      split at hk <;> cases hk
      exact ⟨none, Host.setOut_outMem_self ..⟩
    | some q =>
      obtain ⟨rfl, rfl⟩ := Host.kzallocIn_some hk
      refine ⟨some (h.insertOut E p).brk, ?_⟩
      simp only [Host.setOut_outMem_self, Host.insertIn_outMem]
      rfl

/-- The block that the first emission leaves behind. -/
def firstBlock (E : Env) (h : Host) (skb : SkBuff) (p : Nat) : CbOut :=
  (outHandleMb E h skb p).1.outMem p

/-- The block is marked with a tag when the SYN leaves: the parser met an option of the tag's kind,
or the block was found by its tag. -/
def Tagged (h : Host) (skb : SkBuff) (p : Nat) : Prop :=
  (h.outMem p).tagOk = true ∨ (tagRead skb.data skb.options).isSome = true

instance (h : Host) (skb : SkBuff) (p : Nat) : Decidable (Tagged h skb p) :=
  inferInstanceAs (Decidable (_ ∨ _))

/-- The header rewritten, and the tag cut off if the block says there is one. -/
def stripped (E : Env) (h : Host) (skb : SkBuff) (p : Nat) : SkBuff :=
  if (firstBlock E h skb p).tagOk then removeTag (outHdrRewrite E skb (firstBlock E h skb p))
  else outHdrRewrite E skb (firstBlock E h skb p)

/-- **The first emission, written out.** -/
theorem outHandleMb_snd (h : Host) (skb : SkBuff) (p : Nat) :
    (outHandleMb E h skb p).2 = fixTcpIpCsum
      ((addSc (stripped E h skb p) (firstBlock E h skb p).super
        ((outHandleMb E h skb p).1.chain (firstBlock E h skb p))).getD (stripped E h skb p)) := rfl

/-- What the first emission leaves in the block, in terms of what it was. -/
theorem firstBlock_spec (h : Host) (skb : SkBuff) (p : Nat)
    (hchain : (h.chain (h.outMem p)).hops ≠ []) :
    ((firstBlock E h skb p).tagOk = true ↔ Tagged h skb p) ∧
      (firstBlock E h skb p).Resolved E skb.tos := by
  rw [firstBlock, outHandleMb]
  simp only
  have hsame : ((h.removePen E p).removeTag E p).outMem = h.outMem := rfl
  have hchain' : ((h.removePen E p).removeTag E p).chain (h.outMem p) = h.chain (h.outMem p) := rfl
  simp only [hsame, hchain']
  cases hhops : (h.chain (h.outMem p)).hops with
  | nil => exact absurd hhops hchain
  | cons hop hops =>
    simp only
    generalize (((h.removePen E p).removeTag E p).allocateLocalPort).2 = g
    generalize (((h.removePen E p).removeTag E p).allocateLocalPort).1 = sport
    generalize hd : arp E skb.tos { h.outMem p with sub.dip := hop } = d0
    have hresolved : d0.Resolved E skb.tos := by
      rw [← hd]
      exact resolved_arp _ _
    have htag : d0.tagOk = (h.outMem p).tagOk := by rw [← hd]; rfl
    generalize hd1 : ({ d0 with
      sub.sport := sport, sub.dport := g.allocateNeighborPort, outIseq := ntohl skb.seq,
      inIseq := ntohl skb.seq } : CbOut) = d1
    have hhop : d1.hop = d0.hop := by rw [← hd1]; rfl
    have htag1 : d1.tagOk = d0.tagOk := by rw [← hd1]
    obtain ⟨q, hself⟩ := insertCbOut_self (E := E) (g.setOut p (parseTcpSynOptS skb d1)) p false
    rw [hself, Host.setOut_outMem_self]
    have hparsed : (parseTcpSynOptS skb d1).tagOk =
        (((tagRead skb.data skb.options).map fun tag => (true, tag)).getD
          (d1.tagOk, d1.dyscoTag)).1 := congrArg Prod.fst (parseTcpSynOptS_tag skb d1)
    refine ⟨?_, hresolved.congr ?_⟩
    · have hok : ((parseTcpSynOptS skb d1).withDcbIn q).tagOk =
          (parseTcpSynOptS skb d1).tagOk := rfl
      rw [hok, hparsed, Tagged, ← htag, ← htag1]
      cases tagRead skb.data skb.options <;> simp
    · exact (hop_parseTcpSynOptS skb d1).trans hhop

/-! ## The second time -/

/-- What the emission of a SYN reads of a block: session, subsession, next hop and chain. -/
def Host.emits (h : Host) (d : CbOut) : TcpSession × TcpSession × Mac × ServiceChain :=
  (d.super, d.sub, d.nhMac, h.chain d)

/-- The SYN of a pending session leaves the middlebox for the first time, with whole headers; `hx`
is the host whose pending block `p` handles it. -/
structure FirstTime (E : Env) (h hx : Host) (o : SkBuff) (p : Nat) : Prop extends o.IsTcp where
  whole : o.cut = 0
  unknown : h.lookupOut E o.session = none
  found : h.lookupPen E o.session = some p ∧ hx = h ∨
    h.lookupPen E o.session = none ∧
      ∃ h', lookupPenTag E h o = (some p, h') ∧ hx = updateFiveTuple h' o p
  chain : (hx.chain (hx.outMem p)).hops ≠ []

/-- The SYN of the session arrives again at host `h`, as `syn`; block `p` still has what the first
emission has read; the middlebox emits `o'`. -/
structure SecondTime (E : Env) (hx : Host) (o : SkBuff) (h : Host) (syn o' : SkBuff) (p : Nat) :
    Prop extends o'.IsTcp where
  synIp : syn.IsTcp
  synFlag : syn.hasSyn = true
  synNoAck : syn.hasAck = false
  known : h.lookupIn E syn.session ≠ none
  flag : o'.hasSyn = true
  noAck : o'.hasAck = false
  found : h.lookupOut E o'.session = some p
  same : h.emits (h.outMem p) = (outHandleMb E hx o p).1.emits (firstBlock E hx o p)

/-- The header of the packets is the same; the bytes behind it may differ. -/
def SameHeader (o o' : SkBuff) : Prop := o'.wire = { o.wire with data := o'.data }

theorem SameHeader.eq {o o' : SkBuff} (hh : SameHeader o o') :
    o'.wire = { o.wire with data := o'.data } := hh

theorem SameHeader.tos {o o' : SkBuff} (hh : SameHeader o o') : o'.tos = o.tos := by
  have htos : o'.wire.tos = _ := congrArg SkBuff.tos hh.eq
  exact htos

theorem SameHeader.doff {o o' : SkBuff} (hh : SameHeader o o') : o'.doff = o.doff := by
  have hdoff : o'.wire.doff = _ := congrArg SkBuff.doff hh.eq
  exact hdoff

theorem SameHeader.cut {o o' : SkBuff} (hh : SameHeader o o') : o'.cut = o.cut := by
  have hcut : o'.wire.cut = _ := congrArg SkBuff.cut hh.eq
  exact hcut

/-- The SYN leaves for the first time as `first` and for the second time as `second`, with the
flag that tells if it is sent; `fits` and `fits'` say whether the chain fits.  Both times a chain
that does not fit stops the SYN, and what is sent both times is the same, with the data offset
`plain` that the SYN has without a tag. -/
def SameBothTimes (plain : BitVec 4) (fits fits' : Prop) (first second : SkBuff × Bool) : Prop :=
  (first.2 = true ↔ fits) ∧ (second.2 = true ↔ fits') ∧
    (first.2 = true → second.2 = true → SameWire first.1 second.1 ∧ second.1.doff = plain)

/-- The first emission goes through the pending block. -/
theorem FirstTime.output {h hx : Host} {o : SkBuff} {p : Nat} (hf : FirstTime E h hx o p) :
    output E h o = ((outHandleMb E hx o p).1, (outHandleMb E hx o p).2, true) := by
  rw [output_unfold, if_neg (not_not_intro hf.ip), if_neg (not_not_intro hf.tcp)]
  simp only [hf.unknown]
  obtain ⟨hpen, rfl⟩ | ⟨hpen, h', htag, rfl⟩ := hf.found
  · simp only [hpen]
  · simp only [hpen, htag]

/-- A retransmitted SYN touches no block on its way in. -/
theorem input_again {h : Host} {syn : SkBuff} (htcp : syn.IsTcp) (hsyn : syn.hasSyn = true)
    (hack : syn.hasAck = false) (hknown : h.lookupIn E syn.session ≠ none) :
    (input E h syn).1 = (insertTag h (removeSc syn)).1 := by
  rw [input, if_neg (not_not_intro htcp.ip), if_neg (not_not_intro htcp.tcp)]
  cases hq : h.lookupIn E syn.session with
  | none => exact absurd hq hknown
  | some q =>
    simp only [hsyn, hack, if_true]
    rfl

theorem emits_parseTcpSynOptS (h : Host) (skb : SkBuff) (d : CbOut) :
    h.emits (parseTcpSynOptS skb d) = h.emits d := by
  rw [parseTcpSynOptS_eq]
  rfl

/-- Looking up a resolved next hop again finds the same one. -/
theorem emits_arp {h : Host} {tos : U8} {d : CbOut} (hd : d.Resolved E tos) :
    h.emits (arp E tos d) = h.emits d := by
  have hsip : (arp E tos d).sub.sip = d.sub.sip := congrArg Prod.fst hd
  have hmac : (arp E tos d).nhMac = d.nhMac := congrArg (fun x => x.2.2) hd
  have hsub : (arp E tos d).sub = { d.sub with sip := (arp E tos d).sub.sip } := rfl
  rw [Host.emits, Host.emits, hmac, hsub, hsip]
  rfl

/-- The second emission keeps the tag, and is not sent if the chain does not fit. -/
theorem outSynWith_again {h : Host} {o : SkBuff} {p : Nat} {b : CbOut} {sc : ServiceChain}
    (hack : o.hasAck = false) (hb : b.Resolved E o.tos)
    (hsame : h.emits (h.outMem p) = (b.super, b.sub, b.nhMac, sc)) :
    ((outSynWith E h o p).2.2 = true ↔ Fits o (chainBytes b.super sc)) ∧
      (Fits o (chainBytes b.super sc) →
        (outSynWith E h o p).2.1.wire = (outHdrRewrite E o b).chained (chainBytes b.super sc)) := by
  rw [outSynWith]
  simp only [hack, Bool.false_eq_true, if_false]
  generalize hd : parseTcpSynOptS o { h.outMem p with seqCutoff := ntohl o.seq } = d
  have hemits : h.emits d = (b.super, b.sub, b.nhMac, sc) := by
    rw [← hd, emits_parseTcpSynOptS]
    exact hsame
  have hd' : h.emits (if (d.nhMac.setWidth 32 : U32) = 0#32 then arp E o.tos d else d) =
      (b.super, b.sub, b.nhMac, sc) := by
    have hsub : d.sub = b.sub := congrArg (fun x => x.2.1) hemits
    have hmac : d.nhMac = b.nhMac := congrArg (fun x => x.2.2.1) hemits
    have hres : d.Resolved E o.tos := hb.congr (by rw [CbOut.hop, CbOut.hop, hsub, hmac])
    split
    · exact (emits_arp hres).trans hemits
    · exact hemits
  generalize (if (d.nhMac.setWidth 32 : U32) = 0#32 then arp E o.tos d else d) = d' at hd' ⊢
  have hsuper : d'.super = b.super := congrArg Prod.fst hd'
  have hsub : d'.sub = b.sub := congrArg (fun x => x.2.1) hd'
  have hmac : d'.nhMac = b.nhMac := congrArg (fun x => x.2.2.1) hd'
  have hchain : ((h.setOut p d).setOut p d').chain d' = sc := congrArg (fun x => x.2.2.2) hd'
  have hrewrite : outHdrRewrite E o d' = outHdrRewrite E o b := by
    rw [outHdrRewrite, outHdrRewrite, hsub, hmac]
  rw [outTxInit, hsuper, hchain, hrewrite]
  by_cases hfits : Fits o (chainBytes b.super sc)
  · have hfits' : Fits (outHdrRewrite E o b) (chainBytes b.super sc) := hfits
    obtain ⟨skb', hadd, hwire⟩ := addSc_of_fits hfits'
    rw [hadd]
    exact ⟨iff_of_true rfl hfits, fun _ => (wire_fixTcpIpCsum skb').trans hwire⟩
  · have hfits' : ¬ Fits (outHdrRewrite E o b) (chainBytes b.super sc) := hfits
    rw [addSc_of_not_fits hfits']
    exact ⟨iff_of_false Bool.false_ne_true hfits, fun h => absurd h hfits⟩

/-! ## Both times -/

section Both
variable {hx h : Host} {o syn o' : SkBuff} {p : Nat}

/-- The chain the first emission appends. -/
def firstChain (E : Env) (hx : Host) (o : SkBuff) (p : Nat) : List U8 :=
  chainBytes (firstBlock E hx o p).super ((outHandleMb E hx o p).1.chain (firstBlock E hx o p))

/-- The second emission, in the terms of the first. -/
theorem SecondTime.output (hs : SecondTime E hx o h syn o' p) (hh : SameHeader o o')
    (hchain : (hx.chain (hx.outMem p)).hops ≠ []) :
    ((output E (input E h syn).1 o').2.2 = true ↔ Fits o' (firstChain E hx o p)) ∧
      (Fits o' (firstChain E hx o p) → (output E (input E h syn).1 o').2.1.wire =
        (outHdrRewrite E o' (firstBlock E hx o p)).chained (firstChain E hx o p)) := by
  have htos : o'.tos = o.tos := hh.tos
  have hres : (firstBlock E hx o p).Resolved E o'.tos := by
    rw [htos]
    exact (firstBlock_spec hx o p hchain).2
  rw [input_again hs.synIp hs.synFlag hs.synNoAck hs.known, output_unfold,
    if_neg (not_not_intro hs.ip), if_neg (not_not_intro hs.tcp)]
  have hfound : (insertTag h (removeSc syn)).1.lookupOut E o'.session = some p := hs.found
  simp only [hfound, outputWith, hs.flag, if_true, outSyn]
  have hsame : (insertTag h (removeSc syn)).1.emits
      ((insertTag h (removeSc syn)).1.outMem p) = _ := hs.same
  exact outSynWith_again hs.noAck hres hsame

/-- The first emission, if the chain fits. -/
theorem outHandleMb_wire (hfits : Fits (stripped E hx o p) (firstChain E hx o p)) :
    (outHandleMb E hx o p).2.wire = (stripped E hx o p).chained (firstChain E hx o p) := by
  obtain ⟨skb, hadd, hwire⟩ := addSc_of_fits hfits
  rw [outHandleMb_snd, hadd, Option.getD_some, wire_fixTcpIpCsum]
  exact hwire

/-- A tag that is cut off behind the headers shortens them by two words. -/
theorem stripped_of_tag (hw : o.cut = 0) (hlong : dyscoTcpOptionLen ≤ o.data.length)
    (htag : (firstBlock E hx o p).tagOk = true) :
    (stripped E hx o p).cut = 0 ∧ (stripped E hx o p).doff = o.doff - 2#4 := by
  have hrewrite : (outHdrRewrite E o (firstBlock E hx o p)).cut = 0 := hw
  have hdata : (outHdrRewrite E o (firstBlock E hx o p)).data = o.data := rfl
  have hdoff : (outHdrRewrite E o (firstBlock E hx o p)).doff = o.doff := rfl
  rw [stripped, if_pos htag]
  generalize outHdrRewrite E o (firstBlock E hx o p) = s at hrewrite hdata hdoff ⊢
  have hlen : ¬ s.len < dyscoTcpOptionLen := by
    rw [SkBuff.len, hrewrite, hdata]
    omega
  rw [removeTag, SkBuff.trim_of_le (hdata ▸ hlong) hlen, ← hdoff]
  exact ⟨hrewrite, rfl⟩

/-- If it is cut off the headers, no data is left. -/
theorem stripped_of_short (hw : o.cut = 0) (hshort : o.data.length < dyscoTcpOptionLen)
    (htag : (firstBlock E hx o p).tagOk = true) :
    (stripped E hx o p).data = [] ∧ 0 < (stripped E hx o p).cut := by
  have hrewrite : (outHdrRewrite E o (firstBlock E hx o p)).cut = 0 := hw
  have hdata : (outHdrRewrite E o (firstBlock E hx o p)).data = o.data := rfl
  rw [stripped, if_pos htag]
  generalize outHdrRewrite E o (firstBlock E hx o p) = s at hrewrite hdata ⊢
  rw [← hdata] at hshort
  have hlen : ¬ s.len < dyscoTcpOptionLen := by
    rw [SkBuff.len, hrewrite, dyscoTcpOptionLen]
    omega
  rw [removeTag, SkBuff.trim, if_neg hlen]
  simp only
  exact ⟨by rw [Nat.sub_eq_zero_of_le hshort.le, List.take_zero], by omega⟩

theorem stripped_of_not_tag (htag : (firstBlock E hx o p).tagOk ≠ true) :
    stripped E hx o p = outHdrRewrite E o (firstBlock E hx o p) := if_neg htag

/-- The same header and the same bytes make the same packet. -/
theorem chained_eq_iff {b : CbOut} {bs : List U8} (hw : o.cut = 0) (hh : SameHeader o o') :
    (outHdrRewrite E o b).chained bs = (outHdrRewrite E o' b).chained bs ↔ o.data = o'.data := by
  have hcut : (outHdrRewrite E o b).cut = 0 := hw
  have hcut' : (outHdrRewrite E o' b).cut = 0 := hh.cut.trans hw
  rw [chained_of_whole hcut, chained_of_whole hcut']
  constructor
  · intro heq
    exact List.append_cancel_right (congrArg SkBuff.data heq : o.data ++ bs = o'.data ++ bs)
  · intro hdata
    have hwire : o'.wire = o.wire := by
      rw [hh.eq, ← hdata]
      rfl
    have hre : ∀ skb : SkBuff, (outHdrRewrite E skb b).wire = (outHdrRewrite E skb.wire b).wire :=
      fun _ => rfl
    have hihl : o'.ihl = o.ihl := by
      have hopts : o'.wire.ihl = o.wire.ihl := congrArg SkBuff.ihl hwire
      exact hopts
    have hbytes : (outHdrRewrite E o b).data = o.data ∧ (outHdrRewrite E o b).ihl = o.ihl :=
      ⟨rfl, rfl⟩
    have hbytes' : (outHdrRewrite E o' b).data = o'.data ∧ (outHdrRewrite E o' b).ihl = o'.ihl :=
      ⟨rfl, rfl⟩
    rw [hre o, hre o', hwire, hbytes.1, hbytes.2, hbytes'.1, hbytes'.2, hihl, hdata]

theorem doff_of_chained {skb skb' : SkBuff} {bs : List U8} (hw : skb'.cut = 0)
    (h : skb.wire = skb'.chained bs) : skb.doff = skb'.doff := by
  have hdoff : skb.wire.doff = (skb'.chained bs).doff := congrArg SkBuff.doff h
  exact hdoff.trans (doff_chained hw bs)

/-- A SYN from which a tag is cut off is not the same the second time: it has a shorter header, or
less behind its headers. -/
theorem chained_ne_of_tag {bs : List U8} (hw : o.cut = 0) (hh : SameHeader o o')
    (htag : (firstBlock E hx o p).tagOk = true) (hbs : bs ≠ []) :
    (stripped E hx o p).chained bs ≠
      (outHdrRewrite E o' (firstBlock E hx o p)).chained bs := by
  intro heq
  have hcut' : (outHdrRewrite E o' (firstBlock E hx o p)).cut = 0 := hh.cut.trans hw
  have hsecond : (outHdrRewrite E o' (firstBlock E hx o p)).doff = o'.doff ∧
      (outHdrRewrite E o' (firstBlock E hx o p)).data = o'.data := ⟨rfl, rfl⟩
  by_cases hlong : dyscoTcpOptionLen ≤ o.data.length
  · obtain ⟨hcut, hdoff⟩ := @stripped_of_tag E hx o p hw hlong htag
    have hsame := congrArg SkBuff.doff heq
    rw [doff_chained hcut, doff_chained hcut', hdoff, hsecond.1, hh.doff] at hsame
    revert hsame
    generalize o.doff = d
    revert d
    decide
  · obtain ⟨hdata, hcut⟩ := @stripped_of_short E hx o p hw (Nat.lt_of_not_le hlong) htag
    have hlen := congrArg (fun s => s.data.length) heq
    have hpos := List.length_pos_iff.mpr hbs
    simp only [data_chained, hdata, hcut', List.nil_append, List.length_drop, List.length_append,
      List.drop_zero] at hlen
    omega

/-- If the SYN is sent the second time, it is the same only if there was no tag to take off. -/
theorem SameBothTimes.untagged {h1 : Host} {plain : BitVec 4} (hf : FirstTime E h1 hx o p)
    (hs : SecondTime E hx o h syn o' p) (hh : SameHeader o o')
    (hsame : SameBothTimes plain (Fits (stripped E hx o p) (firstChain E hx o p))
      (Fits o' (firstChain E hx o p)) (output E h1 o).2 (output E (input E h syn).1 o').2)
    (hfits' : Fits o' (firstChain E hx o p)) :
    ¬ Tagged hx o p ∧ o.data = o'.data ∧ o.doff = plain := by
  obtain ⟨hsent, hwire⟩ := hs.output hh hf.chain
  have htag := (firstBlock_spec (E := E) hx o p hf.chain).1
  rw [hf.output] at hsame
  obtain ⟨hfits, -, hboth⟩ := hsame
  have hfirst := outHandleMb_wire (hfits.mp rfl)
  obtain ⟨hequal, hplain⟩ := hboth rfl (hsent.mpr hfits')
  have hbytes : (stripped E hx o p).chained (firstChain E hx o p) =
      (outHdrRewrite E o' (firstBlock E hx o p)).chained (firstChain E hx o p) :=
    hfirst.symm.trans (hequal.trans (hwire hfits'))
  have hcut' : (outHdrRewrite E o' (firstBlock E hx o p)).cut = 0 := hh.cut.trans hf.whole
  have hdoff' : (output E (input E h syn).1 o').2.1.doff =
      (outHdrRewrite E o' (firstBlock E hx o p)).doff := doff_of_chained hcut' (hwire hfits')
  have hchain : firstChain E hx o p ≠ [] := List.cons_ne_nil _ _
  have hnot : ¬ Tagged hx o p := fun ht =>
    chained_ne_of_tag hf.whole hh (htag.mpr ht) hchain hbytes
  rw [stripped_of_not_tag (mt htag.mp hnot)] at hbytes
  exact ⟨hnot, (chained_eq_iff hf.whole hh).mp hbytes,
    hh.doff.symm.trans (hdoff'.symm.trans hplain)⟩

/-- **The SYN leaves the middlebox identically both times exactly when** the chain fits the first
time, and, unless it does not fit the second time, the middlebox has taken the tag from the SYN,
the block is not marked with one, and the bytes of the SYN are the same. -/
theorem sameBothTimes_iff {h1 : Host} (hf : FirstTime E h1 hx o p)
    (hs : SecondTime E hx o h syn o' p) (hh : SameHeader o o') (plain : BitVec 4) :
    SameBothTimes plain (Fits (stripped E hx o p) (firstChain E hx o p))
        (Fits o' (firstChain E hx o p)) (output E h1 o).2 (output E (input E h syn).1 o').2 ↔
      Fits (stripped E hx o p) (firstChain E hx o p) ∧
        (Fits o' (firstChain E hx o p) → ¬ Tagged hx o p ∧ o.data = o'.data ∧ o.doff = plain) := by
  constructor
  · intro hsame
    refine ⟨?_, hsame.untagged hf hs hh⟩
    have hfits := hsame.1
    rw [hf.output] at hfits
    exact hfits.mp rfl
  · rintro ⟨hfits, hcond⟩
    obtain ⟨hsent, hwire⟩ := hs.output hh hf.chain
    have htag := (firstBlock_spec (E := E) hx o p hf.chain).1
    have hfirst := outHandleMb_wire hfits
    rw [SameBothTimes, hf.output]
    refine ⟨iff_of_true rfl hfits, hsent, fun _ hsent' => ?_⟩
    have hfits' := hsent.mp hsent'
    obtain ⟨hnot, hdata, hplain⟩ := hcond hfits'
    rw [stripped_of_not_tag (mt htag.mp hnot), (chained_eq_iff hf.whole hh).mpr hdata] at hfirst
    have hcut' : (outHdrRewrite E o' (firstBlock E hx o p)).cut = 0 := hh.cut.trans hf.whole
    have hdoff' : (output E (input E h syn).1 o').2.1.doff =
        (outHdrRewrite E o' (firstBlock E hx o p)).doff := doff_of_chained hcut' (hwire hfits')
    exact ⟨hfirst.trans (hwire hfits').symm, hdoff'.trans (hh.doff.trans hplain)⟩

/-- What a transparent middlebox emits the second time has a header that is two words longer than
that of the SYN that arrived, if that was cut behind its headers. -/
theorem input_again_doff (hs : SecondTime E hx o h syn o' p) (hw : (removeSc syn).cut = 0) :
    (input E h syn).2.1.doff = syn.doff + 2#4 := by
  have hsc := removeSc_doff syn
  rw [input, if_neg (not_not_intro hs.synIp.ip), if_neg (not_not_intro hs.synIp.tcp)]
  cases hq : h.lookupIn E syn.session with
  | none => exact absurd hq hs.known
  | some q =>
    simp only [hs.synFlag, hs.synNoAck, if_true, Bool.false_eq_true, if_false]
    generalize (insertTag h (removeSc syn)).1.inMem q = d
    generalize removeSc syn = s at hsc hw ⊢
    have hrewrite : ∀ t : SkBuff, (inHdrRewrite t d).doff = t.doff := by
      intro t
      rw [inHdrRewrite]
      simp only
      split <;> rfl
    have htag : (insertTag h s).2.doff = s.doff + 2#4 := by rw [insertTag_of_whole h hw]
    rw [hrewrite, htag, hsc]

/-- A SYN that is sent on both times by a transparent middlebox is never the same. -/
theorem not_sameBothTimes_of_grown {h1 : Host} (hw : (removeSc syn).cut = 0)
    (hf : FirstTime E h1 hx o p)
    (hs : SecondTime E hx o h syn (input E h syn).2.1 p) (hh : SameHeader o (input E h syn).2.1)
    (hfits' : Fits (input E h syn).2.1 (firstChain E hx o p)) :
    ¬ SameBothTimes syn.doff (Fits (stripped E hx o p) (firstChain E hx o p))
        (Fits (input E h syn).2.1 (firstChain E hx o p)) (output E h1 o).2
        (output E (input E h syn).1 (input E h syn).2.1).2 := by
  intro hsame
  have hplain := (hsame.untagged hf hs hh hfits').2.2
  rw [← hh.doff, input_again_doff hs hw] at hplain
  revert hplain
  generalize syn.doff = d
  revert d
  decide

end Both

/-! ## Two runs -/

/-- The host once the middlebox has emitted `o`. -/
def emittedHost (o : SkBuff) : Host := (output default (chainedHost 0#32) o).1

/-- The SYN as it leaves a middlebox that takes the tag off. -/
def untaggedSyn : SkBuff := removeTag (enteredSyn 0#32)

theorem firstTime_untagged :
    FirstTime default (chainedHost 0#32) (chainedHost 0#32) untaggedSyn 2 where
  ip := by decide +kernel
  tcp := by decide +kernel
  whole := by decide +kernel
  unknown := by decide +kernel
  found := Or.inl ⟨by decide +kernel, rfl⟩
  chain := by decide +kernel

theorem secondTime_untagged : SecondTime default (chainedHost 0#32) untaggedSyn
    (emittedHost untaggedSyn) (chainedSyn 0#32) untaggedSyn 2 where
  ip := by decide +kernel
  tcp := by decide +kernel
  synIp := ⟨by decide +kernel, by decide +kernel⟩
  synFlag := by decide +kernel
  synNoAck := by decide +kernel
  known := by decide +kernel
  flag := by decide +kernel
  noAck := by decide +kernel
  found := by decide +kernel
  same := by decide +kernel

theorem sameBothTimes_untagged :
    SameBothTimes 5#4 (Fits (stripped default (chainedHost 0#32) untaggedSyn 2)
        (firstChain default (chainedHost 0#32) untaggedSyn 2))
      (Fits untaggedSyn (firstChain default (chainedHost 0#32) untaggedSyn 2))
      (output default (chainedHost 0#32) untaggedSyn).2
      (output default (input default (emittedHost untaggedSyn) (chainedSyn 0#32)).1
        untaggedSyn).2 := by
  refine (sameBothTimes_iff firstTime_untagged secondTime_untagged rfl 5#4).mpr ⟨?_, fun _ => ?_⟩
  · decide +kernel
  · exact ⟨by decide +kernel, rfl, by decide +kernel⟩

/-- The SYN as a transparent middlebox emits it when it has arrived again. -/
def taggedAgain : SkBuff :=
  (input default (emittedHost (enteredSyn 0#32)) (chainedSyn 0#32)).2.1

theorem firstTime_tagged :
    FirstTime default (chainedHost 0#32) (chainedHost 0#32) (enteredSyn 0#32) 2 where
  ip := by decide +kernel
  tcp := by decide +kernel
  whole := by decide +kernel
  unknown := by decide +kernel
  found := Or.inl ⟨by decide +kernel, rfl⟩
  chain := by decide +kernel

theorem secondTime_tagged : SecondTime default (chainedHost 0#32) (enteredSyn 0#32)
    (emittedHost (enteredSyn 0#32)) (chainedSyn 0#32) taggedAgain 2 where
  ip := by decide +kernel
  tcp := by decide +kernel
  synIp := ⟨by decide +kernel, by decide +kernel⟩
  synFlag := by decide +kernel
  synNoAck := by decide +kernel
  known := by decide +kernel
  flag := by decide +kernel
  noAck := by decide +kernel
  found := by decide +kernel
  same := by decide +kernel

/-- The second time the transparent middlebox's SYN still carries its tag. -/
theorem not_sameBothTimes : ¬ ∀ (E : Env) (h1 hx h : Host) (o syn o' : SkBuff) (p : Nat),
    FirstTime E h1 hx o p → SecondTime E hx o h syn o' p → SameHeader o o' →
    SameBothTimes syn.doff (Fits (stripped E hx o p) (firstChain E hx o p))
      (Fits o' (firstChain E hx o p)) (output E h1 o).2 (output E (input E h syn).1 o').2 := by
  intro hall
  refine not_sameBothTimes_of_grown (by decide +kernel) firstTime_tagged secondTime_tagged rfl
    (by decide +kernel) ?_
  exact hall _ _ _ _ _ _ _ 2 firstTime_tagged secondTime_tagged rfl

end Dysco
