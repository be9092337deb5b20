import Dysco.MappingDump
import Dysco.SynPayload
import Dysco.SynReemission
import Dysco.Transparency

/-! # A SYN with a chain visits a host

What `dysco_add_sc` appends on one host is what the next host reads (`synPacket_chainBytes`).
The SYN makes an input block, the output block of the other direction and, unless the chain ends
here, a pending block.  The middlebox gets the SYN of the session as its source sent it, but for a
tag behind the options; and when the middlebox sends it on, the tag is gone, the pending block
has become the output block, and the chain is one hop shorter.
-/
namespace Dysco
open ByteOrder OnesComplement

variable {E : Env} {h g : Host} {skb syn pkt : SkBuff} {sp : SynPacket} {x p q : Nat}

/-! ## Reading a chain back -/

/-- Hops that are written one behind the other are read back one by one, whatever lies around them.
-/
theorem load32_flatMap (bs cs : List U8) {hops : List U32} {i : Nat} (hi : i < hops.length) :
    load32 (bs ++ (hops.flatMap bytes32 ++ cs)) (bs.length + 4 * i) = hops[i] := by
  induction hops generalizing bs i with
  | nil => exact absurd hi (Nat.not_lt_zero i)
  | cons hop hops ih =>
    rw [List.flatMap_cons, List.append_assoc]
    cases i with
    | zero => exact load32_bytes32 bs (hops.flatMap bytes32 ++ cs) hop
    | succ i =>
      have hnext := ih (bs ++ bytes32 hop) (Nat.lt_of_succ_lt_succ hi)
      rw [List.append_assoc, List.length_append, length_bytes32] at hnext
      rw [List.getElem_cons_succ, ← hnext]
      congr 1
      omega

theorem length_flatMap_bytes32 (hops : List U32) :
    (hops.flatMap bytes32).length = 4 * hops.length := by
  induction hops with
  | nil => rfl
  | cons hop hops ih =>
    rw [List.flatMap_cons, List.length_append, ih, length_bytes32, List.length_cons]
    omega

/-- A chain in a payload takes a session and four bytes for each hop. -/
theorem length_chainBytes (ss : TcpSession) (sc : ServiceChain) :
    (chainBytes ss sc).length = 16 + 4 * sc.hops.length := by
  have hss : ss.bytes.length = 12 := rfl
  rw [chainBytes, List.length_append, ServiceChain.bytes, List.length_append, List.length_append,
    length_flatMap_bytes32, hss]
  simp only [length_bytes16]
  omega

/-- A read behind the first part does not see the first part. -/
theorem load32_append_right (as bs : List U8) (k : Nat) :
    load32 (as ++ bs) (as.length + k) = load32 bs k := by
  apply BitVec.eq_of_toNat_eq
  rw [toNat_load32, toNat_load32]
  simp only [Nat.add_assoc, byteAt_append_right]

theorem load16_append_right (as bs : List U8) (k : Nat) :
    load16 (as ++ bs) (as.length + k) = load16 bs k := by
  rw [load16, load16]
  simp only [Nat.add_assoc, byteAt_append_right]

/-- A chain is read as it was written, whatever follows it. -/
theorem readChain_bytes (as cs : List U8) (sc : ServiceChain) :
    readChain (as ++ (sc.bytes ++ cs)) as.length = sc := by
  have hlen : load16 (as ++ (sc.bytes ++ cs)) as.length = sc.len := by
    rw [ServiceChain.bytes, List.append_assoc, List.append_assoc]
    exact load16_bytes16 as _ sc.len
  have hpos : load16 (as ++ (sc.bytes ++ cs)) (as.length + 2) = sc.pos := by
    rw [ServiceChain.bytes, load16_append_right, List.append_assoc, List.append_assoc]
    exact load16_bytes16 (bytes16 sc.len) _ sc.pos
  have hhops : (readChain (as ++ (sc.bytes ++ cs)) as.length).hops = sc.hops := by
    apply List.ext_getElem
    · rw [readChain, List.length_map, List.length_range, hlen, ServiceChain.len, BitVec.toNat_ofNat,
        Nat.mod_eq_of_lt sc.short]
    · intro i _ hi
      simp only [readChain, List.getElem_map, List.getElem_range]
      rw [Nat.add_assoc, load32_append_right, ServiceChain.bytes, List.append_assoc]
      exact load32_flatMap (bytes16 sc.len ++ bytes16 sc.pos) cs hi
  have hread : readChain (as ++ (sc.bytes ++ cs)) as.length =
      ⟨load16 (as ++ (sc.bytes ++ cs)) (as.length + 2), _,
      (readChain (as ++ (sc.bytes ++ cs)) as.length).short⟩ := rfl
  cases sc with
  | mk pos hops short =>
    rw [hread]
    simp only [ServiceChain.mk.injEq]
    exact ⟨hpos, hhops⟩

/-- **A session and a chain are read as they were appended.** -/
theorem synPacket_chainBytes {ss : TcpSession} {sc : ServiceChain} {opts : List U8}
    (hdata : skb.data = opts ++ chainBytes ss sc) (hopt : skb.optLen = opts.length) :
    skb.synPacket = ⟨ss, sc⟩ := by
  have hbytes : skb.data ++ skb.behind = opts ++ (ss.bytes ++ (sc.bytes ++ skb.behind)) := by
    rw [hdata, chainBytes, List.append_assoc, List.append_assoc]
  have hchain : readChain (skb.data ++ skb.behind) (skb.optLen + 12) = sc := by
    have hlen : skb.optLen + 12 = (opts ++ ss.bytes).length := by
      rw [List.length_append, TcpSession.length_bytes, hopt]
    rw [hbytes, hlen, ← List.append_assoc]
    exact readChain_bytes (opts ++ ss.bytes) skb.behind sc
  have hread := readSession_append ss (sc.bytes ++ skb.behind)
  have hsip := load32_append_right opts (ss.bytes ++ (sc.bytes ++ skb.behind)) 0
  rw [Nat.add_zero] at hsip
  rw [SkBuff.synPacket, hchain, hbytes, hopt, hsip, load32_append_right, load16_append_right,
    load16_append_right]
  exact congrArg (fun ss => SynPacket.mk ss sc) hread

/-! ## What travels -/

/-- The packet without what changes from one link to the next. -/
def SkBuff.core (skb : SkBuff) : SkBuff :=
  { skb.wire with
    hDest := 0#48, hSource := 0#48, tos := 0#8, totLen := 0#16, fragOff := 0#16, ttl := 0#8 }

/-- The SYN of a session as an application sends it: the header has room for a tag, the options
fill the option area, and there is no payload. -/
structure OpeningSyn (syn : SkBuff) : Prop extends syn.IsTcp where
  whole : syn.cut = 0
  flag : syn.hasSyn = true
  noAck : syn.hasAck = false
  header : 5 ≤ syn.doff.toNat
  room : syn.doff.toNat ≤ 13
  noPayload : syn.data.length = syn.optLen
  options : syn.optionsEnd = true
  twoEnds : syn.session.reverse ≠ syn.session

/-- The SYN on its way to the first of `hops`, with session and chain behind its options. -/
structure Carrying (syn : SkBuff) (hops : List U32) (pkt : SkBuff) : Prop where
  core : pkt.core = { syn.core with
    saddr := pkt.saddr, daddr := pkt.daddr, source := pkt.source, dest := pkt.dest,
    data := pkt.data }
  data : ∃ sc : ServiceChain, sc.hops = hops ∧ pkt.data = syn.data ++ chainBytes syn.session sc
  totLen : (ntohs pkt.totLen).toNat = pkt.len
  next : hops.head? = some pkt.daddr

/-- The SYN as the stack of a host gets it: the five-tuple and the options of the original, and
a tag. -/
structure Delivered (syn : SkBuff) (tag : U32) (inside : SkBuff) : Prop where
  core : inside.core = { syn.core with doff := syn.doff + 2#4, data := syn.data ++ tagBytes tag }
  totLen : (ntohs inside.totLen).toNat = inside.len

theorem SkBuff.ihl_core (skb : SkBuff) : skb.core.ihl = skb.ihl := rfl

theorem SkBuff.data_core (skb : SkBuff) : skb.core.data = skb.data := rfl

/-- `dysco_in_hdr_rewrite` gives the packet the addresses of its session, and leaves the rest of its
core. -/
theorem core_inHdrRewrite (skb : SkBuff) (d : CbIn) :
    (inHdrRewrite skb d).core = { skb.core with
      saddr := d.super.sip, daddr := d.super.dip, source := d.super.sport,
      dest := d.super.dport } := by
  rw [inHdrRewrite]
  simp only
  split <;> rfl

/-- A tag makes the header two words longer and is the last of its options. -/
theorem core_insertTag (h : Host) (hw : skb.cut = 0) : (insertTag h skb).2.core =
    { skb.core with doff := skb.doff + 2#4, data := skb.data ++ tagBytes h.dyscoTag } := by
  rw [insertTag_of_whole h hw]
  rfl

namespace Carrying
variable {hops : List U32}

theorem doff (hc : Carrying syn hops pkt) : pkt.doff = syn.doff := by
  have hdoff : pkt.core.doff = _ := congrArg SkBuff.doff hc.core
  exact hdoff

theorem cut (hc : Carrying syn hops pkt) : pkt.cut = syn.cut := by
  have hcut : pkt.core.cut = _ := congrArg SkBuff.cut hc.core
  exact hcut

theorem ihl (hc : Carrying syn hops pkt) : pkt.ihl = syn.ihl := by
  have hopts : pkt.core.ipOptions = _ := congrArg SkBuff.ipOptions hc.core
  exact congrArg (fun o : List U32 => 5 + o.length) hopts

theorem flags (hc : Carrying syn hops pkt) : pkt.flags = syn.flags := by
  have hflags : pkt.core.flags = _ := congrArg SkBuff.flags hc.core
  exact hflags

theorem isTcp (hc : Carrying syn hops pkt) (hs : OpeningSyn syn) : pkt.IsTcp := by
  have hproto : pkt.core.hProto = _ := congrArg SkBuff.hProto hc.core
  have hprotocol : pkt.core.protocol = _ := congrArg SkBuff.protocol hc.core
  exact ⟨(congrArg ntohs hproto).trans hs.ip, hprotocol.trans hs.tcp⟩

/-- A SYN on its way has the options that it began with. -/
theorem optLen (hc : Carrying syn hops pkt) (hs : OpeningSyn syn) :
    pkt.optLen = syn.data.length := by
  rw [SkBuff.optLen, hc.doff, hs.noPayload]
  rfl

/-- **The payload is read as it was written**: the session and the hops that are left. -/
theorem synPacket (hc : Carrying syn hops pkt) (hs : OpeningSyn syn) :
    pkt.synPacket.ss = syn.session ∧ pkt.synPacket.sc.hops = hops := by
  obtain ⟨sc, hhops, hdata⟩ := hc.data
  rw [synPacket_chainBytes hdata (hc.optLen hs)]
  exact ⟨rfl, hhops⟩

/-- A SYN on its way is as `dysco_rx_initiation_new` needs it. -/
theorem sound (hc : Carrying syn hops pkt) (hs : OpeningSyn syn) : pkt.Sound where
  whole := hc.cut.trans hs.whole
  length := hc.totLen
  header := by
    rw [hc.doff]
    exact hs.header
  options := by
    obtain ⟨sc, -, hdata⟩ := hc.data
    have hopt := hc.optLen hs
    rw [SkBuff.optLen] at hopt
    rw [hdata, List.length_append]
    omega

/-- It has a payload, as there is a session in it. -/
theorem carriesChain (hc : Carrying syn hops pkt) (hs : OpeningSyn syn) (hne : hops ≠ []) :
    pkt.CarriesChain := by
  obtain ⟨sc, hhops, hdata⟩ := hc.data
  have hread := synPacket_chainBytes hdata (hc.optLen hs)
  rw [SkBuff.CarriesChain, SkBuff.payload, hdata, hread, hc.optLen hs, List.drop_left,
    length_chainBytes, hhops, ServiceChain.pktSize, hhops]
  exact ⟨List.length_pos_iff.mpr hne, by omega⟩

/-- Without its chain it is the SYN of the application again, but for the addresses. -/
theorem removeSc_eq (hc : Carrying syn hops pkt) (hs : OpeningSyn syn) (hne : hops ≠ []) :
    (removeSc pkt).core = { pkt.core with data := syn.data } ∧ (removeSc pkt).doff = pkt.doff ∧
      (removeSc pkt).data = syn.data ∧ (removeSc pkt).cut = 0 := by
  obtain ⟨sc, -, hdata⟩ := hc.data
  have hleft : pkt.data.take pkt.optLen = syn.data := by
    rw [hc.optLen hs, hdata, List.take_left]
  have hwhole : pkt.cut = 0 := hc.cut.trans hs.whole
  rw [(removeSc_of_carries (hc.sound hs) (hc.carriesChain hs hne)).1, hleft]
  exact ⟨rfl, rfl, rfl, hwhole⟩

/-- **What the stack gets.** -/
theorem delivered (hc : Carrying syn hops pkt) (hs : OpeningSyn syn) (hne : hops ≠ []) (h : Host)
    {d : CbIn} (hd : d.super = syn.session) :
    Delivered syn h.dyscoTag (inHdrRewrite (insertTag h (removeSc pkt)).2 d) := by
  obtain ⟨hsc, hdoff, hdata, hwhole⟩ := hc.removeSc_eq hs hne
  have hcore : (inHdrRewrite (insertTag h (removeSc pkt)).2 d).core =
      { syn.core with doff := syn.doff + 2#4, data := syn.data ++ tagBytes h.dyscoTag } := by
    rw [core_inHdrRewrite, core_insertTag h hwhole, hsc, hc.core, hdata, hdoff, hc.doff, hd]
    rfl
  have hremoved := chainRemoved (h := h) (hc.sound hs) (hc.carriesChain hs hne) d
  exact ⟨hcore, hremoved.totLen.trans hremoved.len.symm⟩

end Carrying

/-! ## The blocks of a SYN that arrives -/

/-- The block of a pending session. -/
def SynPacket.pendingBlock (sp : SynPacket) (s : Nat) : CbOut :=
  { (default : CbOut) with super := sp.ss, sc := some s, freeSc := true }

/-- The input block of a session that arrives with a chain. -/
def SynPacket.inBlock (sp : SynPacket) (skb : SkBuff) (p : Nat) : CbIn :=
  { (default : CbIn) with
    sub := skb.session, super := sp.ss, skbIif := skb.skbIif, dcbOut := some p }

/-- The output block of the other direction. -/
def SynPacket.backBlock (sp : SynPacket) (skb : SkBuff) (q : Nat) : CbOut :=
  { (default : CbOut) with
    super := sp.ss.reverse, sub := skb.session.reverse, inIack := ntohl skb.seq,
    outIack := ntohl skb.seq, nhMac := skb.hSource, dcbIn := some q }

/-- The host with a pending block for the session. -/
def Host.pended (h : Host) (E : Env) (sp : SynPacket) : Host :=
  { h with
    outMem := Function.update h.outMem h.brk (sp.pendingBlock (h.brk + 1))
    scMem := Function.update h.scMem (h.brk + 1) (sp.sc.rest (h.scMem (h.brk + 1)))
    brk := h.brk + 2
    hashPen := ⟨(E.penHash sp.ss, h.brk) :: h.hashPen.entries⟩
    hashPenTag := ⟨(E.tagHash 0#32, h.brk) :: h.hashPenTag.entries⟩
    links := (h.links.insert .pen (E.penHash sp.ss) h.brk).insert .penTag (E.tagHash 0#32) h.brk }

/-- `dysco_insert_pending` if there is memory for the block and for the chain. -/
theorem insertPending_made (E : Env) (sp : SynPacket) (h0 : h.oom h.brk = false)
    (h1 : h.oom (h.brk + 1) = false) : insertPending E h sp = (true, h.pended E sp) := by
  rw [insertPending, kzallocOut_eq, if_neg (by rw [h0]; exact Bool.false_ne_true)]
  simp only
  rw [kmalloc_eq, if_neg (by simp [h1])]
  simp only [Host.setOut, Host.setSc, Host.bump, Host.insertPen, Host.insertTag, BucketTable.insert,
    Function.update_self, Function.update_idem]
  rfl

/-- The block that waits has the session of the SYN and the chain behind it. -/
theorem pended_outMem_self : (h.pended E sp).outMem h.brk = sp.pendingBlock (h.brk + 1) :=
  Function.update_self ..

theorem pended_outMem_of_ne (hx : x ≠ h.brk) : (h.pended E sp).outMem x = h.outMem x :=
  Function.update_of_ne hx ..

theorem pended_scMem_self :
    (h.pended E sp).scMem (h.brk + 1) = sp.sc.rest (h.scMem (h.brk + 1)) :=
  Function.update_self ..

/-- What a SYN has put into memory for both directions, before its blocks are put into tables. -/
structure BothMade (h : Host) (skb : SkBuff) (sp : SynPacket) (g : Host) : Prop where
  inMem : (g.inMem h.brk).withDcbOut (h.brk + 1) = sp.inBlock skb (h.brk + 1)
  inOld : ∀ x < h.brk, g.inMem x = h.inMem x
  back : (g.outMem (h.brk + 1)).withDcbIn (some h.brk) = sp.backBlock skb h.brk
  outOld : ∀ x < h.brk, g.outMem x = h.outMem x
  hashIn : g.hashIn = h.hashIn
  hashOut : g.hashOut = h.hashOut
  oom : g.oom = h.oom
  dyscoTag : g.dyscoTag = h.dyscoTag

/-- The block translates nothing. -/
structure CbIn.Plain (d : CbIn) : Prop where
  seqDelta : d.seqDelta = 0#32
  ackDelta : d.ackDelta = 0#32
  tsDelta : d.tsDelta = 0#32
  tsrDelta : d.tsrDelta = 0#32
  wsDelta : d.wsDelta = 0#16
  onePath : d.twoPaths = false

/-- What a SYN with a chain leaves behind in a host on its way in. -/
structure Entered (E : Env) (h : Host) (skb : SkBuff) (sp : SynPacket) (g : Host) : Prop where
  sub : (g.inMem h.brk).sub = skb.session
  super : (g.inMem h.brk).super = sp.ss
  plain : (g.inMem h.brk).Plain
  inOld : ∀ x < h.brk, g.inMem x = h.inMem x
  back : g.outMem (h.brk + 1) = sp.backBlock skb h.brk
  outOld : ∀ x < h.brk, g.outMem x = h.outMem x
  hashIn : g.hashIn = ⟨(E.sessionHash skb.session, h.brk) :: h.hashIn.entries⟩
  hashOut : g.hashOut = ⟨(E.sessionHash sp.ss.reverse, h.brk + 1) :: h.hashOut.entries⟩
  oom : g.oom = h.oom
  last : sp.sc.hops.length ≤ 1 → g.hashPen = h.hashPen ∧ g.brk = h.brk + 2
  waits : 1 < sp.sc.hops.length →
    g.hashPen = ⟨(E.penHash sp.ss, h.brk + 2) :: h.hashPen.entries⟩ ∧
      g.outMem (h.brk + 2) = sp.pendingBlock (h.brk + 3) ∧
      (g.scMem (h.brk + 3)).hops = sp.sc.hops.tail ∧ g.brk = h.brk + 4

/-- Putting the two blocks into the tables. -/
theorem BothMade.entered (hp : BothMade h skb sp g) (E : Env)
    (hlast : sp.sc.hops.length ≤ 1 → g.hashPen = h.hashPen ∧ g.brk = h.brk + 2)
    (hwaits : 1 < sp.sc.hops.length →
      g.hashPen = ⟨(E.penHash sp.ss, h.brk + 2) :: h.hashPen.entries⟩ ∧
        g.outMem (h.brk + 2) = sp.pendingBlock (h.brk + 3) ∧
        (g.scMem (h.brk + 3)).hops = sp.sc.hops.tail ∧ g.brk = h.brk + 4) :
    let f := g.setIn h.brk ((g.inMem h.brk).withDcbOut (h.brk + 1))
    let f := f.setOut (h.brk + 1) ((f.outMem (h.brk + 1)).withDcbIn (some h.brk))
    Entered E h skb sp ((f.insertIn E h.brk).insertOut E (h.brk + 1)) ∧
      ((f.insertIn E h.brk).insertOut E (h.brk + 1)).dyscoTag = h.dyscoTag := by
  have hback : (g.setIn h.brk (sp.inBlock skb (h.brk + 1))).outMem (h.brk + 1) =
      g.outMem (h.brk + 1) := rfl
  simp only
  rw [hp.inMem, hback, hp.back]
  generalize hf : (g.setIn h.brk (sp.inBlock skb (h.brk + 1))).setOut (h.brk + 1)
    (sp.backBlock skb h.brk) = f
  have hin : f.inMem h.brk = sp.inBlock skb (h.brk + 1) := by
    rw [← hf, Host.setOut_inMem, Host.setIn_inMem_self]
  have hout : f.outMem (h.brk + 1) = sp.backBlock skb h.brk := by
    rw [← hf, Host.setOut_outMem_self]
  have hinMem : ∀ x, x ≠ h.brk → f.inMem x = g.inMem x := fun x hx => by
    rw [← hf, Host.setOut_inMem, Host.setIn_inMem_of_ne _ hx]
  have houtMem : ∀ x, x ≠ h.brk + 1 → f.outMem x = g.outMem x := fun x hx => by
    rw [← hf, Host.setOut_outMem_of_ne _ hx, Host.setIn_outMem]
  have hsub : (f.inMem h.brk).sub = skb.session := congrArg CbIn.sub hin
  have hsuper : (f.outMem (h.brk + 1)).super = sp.ss.reverse := congrArg CbOut.super hout
  have hsame : f.hashIn = g.hashIn ∧ f.hashOut = g.hashOut ∧ f.hashPen = g.hashPen ∧
      f.oom = g.oom ∧ f.dyscoTag = g.dyscoTag ∧ f.brk = g.brk ∧ f.scMem = g.scMem := by
    rw [← hf]
    exact ⟨rfl, rfl, rfl, rfl, rfl, rfl, rfl⟩
  clear hf hback
  obtain ⟨fin, fout, fpen, foom, ftag, fbrk, fsc⟩ := hsame
  refine ⟨?_, ftag.trans hp.dyscoTag⟩
  constructor
  · exact hsub
  · exact congrArg CbIn.super hin
  · change (f.inMem h.brk).Plain
    rw [hin]
    exact ⟨rfl, rfl, rfl, rfl, rfl, rfl⟩
  · exact fun x hx => (hinMem x (by omega)).trans (hp.inOld x hx)
  · exact hout
  · exact fun x hx => (houtMem x (by omega)).trans (hp.outOld x hx)
  · rw [Host.insertOut_hashIn, Host.insertIn, BucketTable.insert]
    simp only [hsub, fin, hp.hashIn]
  · rw [Host.insertOut, BucketTable.insert]
    simp only [Host.insertIn_outMem, hsuper, Host.insertIn_hashOut, fout, hp.hashOut]
  · exact foom.trans hp.oom
  · rintro hone
    obtain ⟨hpen, hbrk⟩ := hlast hone
    exact ⟨fpen.trans hpen, fbrk.trans hbrk⟩
  · rintro hmany
    obtain ⟨hpen, hblock, hchain, hbrk⟩ := hwaits hmany
    refine ⟨fpen.trans hpen, (houtMem _ (by omega)).trans hblock, ?_, fbrk.trans hbrk⟩
    exact (congrArg (fun m => (m (h.brk + 3)).hops) fsc).trans hchain

/-- The two blocks of a SYN. -/
theorem insertCbInReverse_made (skb : SkBuff) (sp : SynPacket) {c : CbIn}
    (hc : c = { (default : CbIn) with sub := skb.session, super := sp.ss, skbIif := skb.skbIif })
    (h1 : h.oom (h.brk + 1) = false) :
    ∃ g, insertCbInReverse ((h.bump.setIn h.brk default).setIn h.brk c) skb sp =
      (some (h.brk + 1), g) ∧
      BothMade h skb sp g ∧ g.hashPen = h.hashPen ∧ g.brk = h.brk + 2 := by
  rw [insertCbInReverse, kzallocOut_eq, if_neg (by simp [h1])]
  refine ⟨_, rfl, ?_, rfl, rfl⟩
  refine ⟨?_, fun x hx => ?_, ?_, fun x hx => ?_, rfl, rfl, rfl, rfl⟩
  · rw [Host.setOut_inMem, Host.setOut_inMem, Host.bump_inMem, Host.setIn_inMem_self, hc]
    rfl
  · rw [Host.setOut_inMem, Host.setOut_inMem, Host.bump_inMem, Host.setIn_inMem_of_ne _ (by omega),
      Host.setIn_inMem_of_ne _ (by omega), Host.bump_inMem]
  · rw [Host.setIn_brk, Host.setIn_brk, Host.bump_brk, Host.setOut_outMem_self,
      Host.setOut_outMem_self]
    rfl
  · rw [Host.setIn_brk, Host.setIn_brk, Host.bump_brk, Host.setOut_outMem_of_ne _ (by omega),
      Host.setOut_outMem_of_ne _ (by omega)]
    rfl

/-- **The blocks made for a SYN**, if there is memory. -/
theorem insertCbInput_made (E : Env) (skb : SkBuff) (sp : SynPacket)
    (ho : ∀ i < 4, h.oom (h.brk + i) = false) :
    ∃ g, insertCbInput E h skb sp = (some h.brk, g) ∧ Entered E h skb sp g ∧
      g.dyscoTag = h.dyscoTag := by
  have h0 : ¬ h.oom h.brk = true := by
    have := ho 0 (by omega)
    simpa using this
  have h2 := ho 2 (by omega)
  have h3 := ho 3 (by omega)
  rw [insertCbInput, kzallocIn_eq, if_neg h0]
  simp only
  generalize hc : ({ (h.bump.setIn h.brk default).inMem h.brk with
    sub := skb.session, super := sp.ss, twoPaths := false, skbIif := skb.skbIif, seqDelta := 0#32,
    ackDelta := 0#32 } : CbIn) = c
  rw [Host.setIn_inMem_self] at hc
  obtain ⟨k, hk, hp, hpen, hbrk⟩ := insertCbInReverse_made skb sp hc.symm (ho 1 (by omega))
  rw [hk]
  simp only
  by_cases hmany : 1 < sp.sc.hops.length
  · rw [if_pos hmany, insertPending_made E sp (by rw [hp.oom, hbrk]; exact h2)
      (by rw [hp.oom, hbrk]; exact h3)]
    have hp' : BothMade h skb sp (k.pended E sp) :=
      { hp with
        back := by
          rw [pended_outMem_of_ne (by omega)]
          exact hp.back
        outOld := fun x hx => (pended_outMem_of_ne (by omega)).trans (hp.outOld x hx) }
    refine ⟨_, rfl, hp'.entered E (fun hone => absurd hmany (by omega)) fun _ => ?_⟩
    have hnext : h.brk + 3 = k.brk + 1 := by omega
    refine ⟨?_, ?_, ?_, congrArg (· + 2) hbrk⟩
    · rw [← hpen, ← hbrk]
      rfl
    · rw [← hbrk, hnext]
      exact pended_outMem_self
    · rw [hnext, pended_scMem_self]
      rfl
  · rw [if_neg hmany]
    exact ⟨_, rfl, hp.entered E (fun _ => ⟨hpen, hbrk⟩) fun hc => absurd hc hmany⟩

/-- Reading the options of a SYN leaves the sessions of a block alone. -/
theorem parseTcpSynOptR_sessions (skb : SkBuff) (d : CbIn) :
    (parseTcpSynOptR skb d).sub = d.sub ∧ (parseTcpSynOptR skb d).super = d.super := by
  have hone : ∀ (d : CbIn) o, (parseOptR skb d o).sub = d.sub ∧ (parseOptR skb d o).super =
      d.super := by
    intro d o
    rw [parseOptR]
    split
    · split <;> exact ⟨rfl, rfl⟩
    · split
      · split <;> exact ⟨rfl, rfl⟩
      · split
        · split <;> exact ⟨rfl, rfl⟩
        · exact ⟨rfl, rfl⟩
  refine List.foldlRecOn skb.options (parseOptR skb) (b := { d with sackOk := false })
    (motive := fun e => e.sub = d.sub ∧ e.super = d.super) ⟨rfl, rfl⟩ fun e he o _ => ?_
  exact ⟨(hone e o).1.trans he.1, (hone e o).2.trans he.2⟩

/-- A block that translates nothing still does not once the options have been read. -/
theorem CbIn.Plain.parseTcpSynOptR {d : CbIn} (hd : d.Plain) (skb : SkBuff) :
    (Dysco.parseTcpSynOptR skb d).Plain := by
  have hone : ∀ (d : CbIn) o, d.Plain → (parseOptR skb d o).Plain := by
    intro d o hd
    rw [parseOptR]
    split
    · split
      · exact { hd with wsDelta := rfl }
      · exact hd
    · split
      · split
        · exact { hd with tsDelta := rfl, tsrDelta := rfl }
        · exact hd
      · split
        · split
          · exact { hd with }
          · exact hd
        · exact hd
  exact List.foldlRecOn skb.options (parseOptR skb) (b := { d with sackOk := false })
    (motive := CbIn.Plain) { hd with } fun e he o _ => hone e o he

/-- The blocks that the tables of sessions hold have been allocated. -/
structure Host.Tidy (h : Host) : Prop where
  out_lt : ∀ p, h.hashOut.Holds p → p < h.brk
  in_lt : ∀ q, h.hashIn.Holds q → q < h.brk
  pen_lt : ∀ p, h.hashPen.Holds p → p < h.brk

namespace Entered

/-- After a SYN has come in, its packets find the new input block, and all others what they found.
-/
theorem lookupIn (he : Entered E h skb sp g) (ht : h.Tidy) (ss : TcpSession) :
    g.lookupIn E ss = if skb.session = ss then some h.brk else h.lookupIn E ss := by
  rw [Host.lookupIn, he.hashIn, BucketTable.lookup_cons (f := fun q => (g.inMem q).sub) he.sub]
  congr 1
  exact BucketTable.lookup_congr fun q hq => congrArg CbIn.sub (he.inOld q (ht.in_lt q hq))

/-- The answers of the host find the block of the reverse direction. -/
theorem lookupOut (he : Entered E h skb sp g) (ht : h.Tidy) (ss : TcpSession) :
    g.lookupOut E ss = if sp.ss.reverse = ss then some (h.brk + 1) else h.lookupOut E ss := by
  have hsuper : (g.outMem (h.brk + 1)).super = sp.ss.reverse := congrArg CbOut.super he.back
  rw [Host.lookupOut, he.hashOut, BucketTable.lookup_cons (f := fun p => (g.outMem p).super) hsuper]
  congr 1
  exact BucketTable.lookup_congr fun p hp => congrArg CbOut.super (he.outOld p (ht.out_lt p hp))

/-- At the last hop nothing waits. -/
theorem lookupPen_last (he : Entered E h skb sp g) (ht : h.Tidy) (hone : sp.sc.hops.length ≤ 1)
    (ss : TcpSession) : g.lookupPen E ss = h.lookupPen E ss := by
  rw [Host.lookupPen, (he.last hone).1]
  exact BucketTable.lookup_congr fun p hp => congrArg CbOut.super (he.outOld p (ht.pen_lt p hp))

/-- With more hops to come, the SYN that leaves the middlebox finds its block. -/
theorem lookupPen_waits (he : Entered E h skb sp g) (hmany : 1 < sp.sc.hops.length) :
    g.lookupPen E sp.ss = some (h.brk + 2) := by
  obtain ⟨hpen, hblock, -⟩ := he.waits hmany
  have hsuper : (g.outMem (h.brk + 2)).super = sp.ss := congrArg CbOut.super hblock
  rw [Host.lookupPen, hpen, BucketTable.lookup_cons (f := fun p => (g.outMem p).super) hsuper,
    if_pos rfl]

/-- The addresses in the tables stay below the break. -/
theorem tidy (he : Entered E h skb sp g) (ht : h.Tidy) : g.Tidy := by
  have hone := he.last
  have hmany := he.waits
  have hbrk : h.brk + 2 ≤ g.brk := by
    by_cases hlen : sp.sc.hops.length ≤ 1
    · exact (hone hlen).2.ge
    · rw [(hmany (by omega)).2.2.2]
      omega
  refine ⟨fun p hp => ?_, fun q hq => ?_, fun p hp => ?_⟩
  · rw [he.hashOut] at hp
    obtain rfl | hold := BucketTable.holds_cons.mp hp
    · exact hbrk
    · have := ht.out_lt p hold
      omega
  · rw [he.hashIn] at hq
    obtain rfl | hold := BucketTable.holds_cons.mp hq
    · omega
    · have := ht.in_lt q hold
      omega
  · by_cases hlen : sp.sc.hops.length ≤ 1
    · rw [(hone hlen).1] at hp
      have := ht.pen_lt p hp
      omega
    · obtain ⟨hpen, -, -, hbrk4⟩ := hmany (by omega)
      rw [hpen] at hp
      obtain rfl | hold := BucketTable.holds_cons.mp hp
      · omega
      · have := ht.pen_lt p hold
        omega

/-- The options of the SYN go into its input block, and a tag has been taken. -/
theorem parsed (he : Entered E h skb sp g) (s t : SkBuff) :
    Entered E h skb sp (insertTag (g.setIn h.brk (parseTcpSynOptR s (g.inMem h.brk))) t).1 := by
  have hplain := he.plain.parseTcpSynOptR s
  obtain ⟨hsub, hsuper⟩ := parseTcpSynOptR_sessions s (g.inMem h.brk)
  generalize parseTcpSynOptR s (g.inMem h.brk) = d at hplain hsub hsuper
  have hself : (g.setIn h.brk d).inMem h.brk = d := g.setIn_inMem_self d
  have hold : ∀ x < h.brk, (g.setIn h.brk d).inMem x = h.inMem x := fun x hx =>
    (g.setIn_inMem_of_ne (by omega) d).trans (he.inOld x hx)
  have hset : Entered E h skb sp (g.setIn h.brk d) :=
    { he with
      sub := (congrArg CbIn.sub hself).trans (hsub.trans he.sub)
      super := (congrArg CbIn.super hself).trans (hsuper.trans he.super)
      plain := by
        rw [hself]
        exact hplain
      inOld := hold }
  exact { hset with }

end Entered

/-- **A SYN with a chain comes in.** -/
theorem Carrying.input_eq {hops : List U32} (hc : Carrying syn hops pkt) (hs : OpeningSyn syn)
    (hne : hops ≠ [])
    (hnew : h.lookupIn E pkt.session = none) (ho : ∀ i < 4, h.oom (h.brk + i) = false) :
    ∃ g inside, input E h pkt = (g, inside, true) ∧ Delivered syn h.dyscoTag inside ∧
      Entered E h pkt pkt.synPacket g := by
  have htcp := hc.isTcp hs
  have hsyn : pkt.hasSyn = true := by
    rw [SkBuff.hasSyn, hc.flags]
    exact hs.flag
  have hpay : pkt.payload ≠ [] := by
    have hlen := (hc.carriesChain hs hne).2
    rw [ServiceChain.pktSize] at hlen
    exact List.ne_nil_of_length_pos (by omega)
  obtain ⟨k, hk, he, htag⟩ := insertCbInput_made E pkt pkt.synPacket ho
  rw [input, if_neg (not_not_intro htcp.ip), if_neg (not_not_intro htcp.tcp), hnew]
  simp only [hsyn, if_true]
  rw [rxInitiationNew, if_pos ((hc.sound hs).payload_iff.mpr hpay), hk]
  have hparsed := he.parsed pkt (removeSc pkt)
  simp only
  have hcount : (k.setIn h.brk (parseTcpSynOptR pkt (k.inMem h.brk))).dyscoTag = h.dyscoTag := htag
  generalize k.setIn h.brk (parseTcpSynOptR pkt (k.inMem h.brk)) = f at hparsed hcount ⊢
  have hsuper := hparsed.super.trans (hc.synPacket hs).1
  have hdel := hc.delivered hs hne f hsuper
  rw [hcount] at hdel
  exact ⟨_, _, rfl, hdel, hparsed⟩

/-! ## The blocks of a SYN that leaves -/

/-- The host with an output block in its table, and the input block of the other direction. -/
def Host.opened (h : Host) (E : Env) (p : Nat) : Host :=
  { h with
    outMem := Function.update h.outMem p ((h.outMem p).withDcbIn (some h.brk))
    inMem := Function.update h.inMem h.brk ((h.outMem p).reverseIn p false)
    brk := h.brk + 1
    hashOut := ⟨(E.sessionHash (h.outMem p).super, p) :: h.hashOut.entries⟩
    hashIn := ⟨(E.sessionHash (h.outMem p).sub.reverse, h.brk) :: h.hashIn.entries⟩
    links := h.links.insert .out (E.sessionHash (h.outMem p).super) p }

/-- `dysco_insert_cb_out` if there is memory for the block of the reverse direction. -/
theorem insertCbOut_made (E : Env) (p : Nat) (h0 : h.oom h.brk = false) :
    insertCbOut E h p false = h.opened E p := by
  rw [insertCbOut, insertCbOutReverse, kzallocIn_eq, if_neg (by simp [Host.insertOut, h0])]
  simp only [Host.insertOut, Host.bump, Host.setIn, Host.setOut, Host.insertIn, BucketTable.insert,
    Function.update_self, Function.update_idem]
  rfl

/-- What becomes of a pending block when its SYN leaves. -/
structure CbOut.HandedTo (d d' : CbOut) (hop : U32) : Prop where
  super : d'.super = d.super
  dip : d'.sub.dip = hop
  sc : d'.sc = d.sc
  otherPath : d'.otherPath = d.otherPath
  myTp : d'.myTp = d.myTp

/-- The host once the SYN of a pending block has left. -/
def Host.released (h : Host) (E : Env) (p : Nat) (d : CbOut) (ports : U32) : Host :=
  Host.setOut { (h.removePen E p).removeTag E p with allocPorts := ports } p d

/-- **A pending block becomes the output block.** -/
theorem outHandleMb_made {hop : U32} {rest : List U32} (skb : SkBuff)
    (hchain : (h.chain (h.outMem p)).hops = hop :: rest) (h0 : h.oom h.brk = false) :
    ∃ d ports, (outHandleMb E h skb p).1 = (h.released E p d ports).opened E p ∧
      (h.outMem p).HandedTo d hop := by
  rw [outHandleMb]
  simp only
  have hsame : ((h.removePen E p).removeTag E p).outMem = h.outMem := rfl
  have hchain' : ((h.removePen E p).removeTag E p).chain (h.outMem p) = h.chain (h.outMem p) := rfl
  simp only [hsame, hchain', hchain, Host.allocateLocalPort]
  generalize hd : arp E skb.tos { h.outMem p with sub.dip := hop } = d0
  have h1 : (h.outMem p).HandedTo d0 hop := by
    rw [← hd]
    exact ⟨rfl, rfl, rfl, rfl, rfl⟩
  generalize hd1 : ({ d0 with
    sub.sport := _, sub.dport := _, outIseq := ntohl skb.seq, inIseq := ntohl skb.seq } : CbOut) =
      d1
  have h2 : (h.outMem p).HandedTo d1 hop := by
    rw [← hd1]
    exact { h1 with }
  have h3 : (h.outMem p).HandedTo (parseTcpSynOptS skb d1) hop := by
    rw [parseTcpSynOptS_eq]
    exact { h2 with }
  generalize parseTcpSynOptS skb d1 = d2 at h3
  rw [insertCbOut_made E p (by exact h0)]
  exact ⟨d2, _, rfl, h3⟩

/-- `dysco_out_hdr_rewrite` gives the packet the addresses of the next link. -/
theorem core_outHdrRewrite (skb : SkBuff) (d : CbOut) :
    (outHdrRewrite E skb d).core = { skb.core with
    saddr := d.sub.sip, daddr := d.sub.dip, source := d.sub.sport, dest := d.sub.dport } := rfl

/-- A tag behind the options is taken off again. -/
theorem core_removeTag {opts : List U8} {tag : U32} (hw : skb.cut = 0)
    (hdata : skb.data = opts ++ tagBytes tag) :
    (removeTag skb).core = { skb.core with doff := skb.doff - 2#4, data := opts } := by
  have hlong : dyscoTcpOptionLen ≤ skb.data.length := by
    rw [hdata, List.length_append, length_tagBytes]
    exact Nat.le_add_left _ _
  have hlen : ¬ skb.len < dyscoTcpOptionLen := by
    rw [SkBuff.len, hw]
    omega
  have hcut : skb.data.take (skb.data.length - dyscoTcpOptionLen) = opts := by
    rw [hdata, List.length_append, length_tagBytes, dyscoTcpOptionLen, Nat.add_sub_cancel,
      List.take_left]
  rw [removeTag, SkBuff.trim_of_le hlong hlen]
  simp only [hcut]
  rfl

/-- A packet with a chain appended carries it. -/
theorem Carrying.of_chained {s : SkBuff} {sc : ServiceChain} {hops : List U32}
    (hw : syn.cut = 0) (hwire : pkt.wire = s.chained (chainBytes syn.session sc))
    (hcore : s.core = { syn.core with
      saddr := s.saddr, daddr := s.daddr, source := s.source, dest := s.dest })
    (hsc : sc.hops = hops) (hnext : hops.head? = some s.daddr)
    (hfit : syn.len + (16 + 4 * hops.length) < 65536) : Carrying syn hops pkt := by
  have hdata : s.data = syn.data := by
    rw [← SkBuff.data_core, hcore]
    rfl
  have hihl : s.ihl = syn.ihl := by
    rw [← SkBuff.ihl_core, hcore]
    rfl
  have hcut : s.cut = 0 := by
    have hscut : s.core.cut = s.cut := rfl
    rw [← hscut, hcore]
    exact hw
  rw [chained_of_whole hcut] at hwire
  -- field by field, what is on the wire is what the chain was appended to
  have hfield : ∀ {D : Type} (f : SkBuff → D), f pkt.wire = f { s.wire with
      data := s.data ++ chainBytes syn.session sc
      totLen := htons (BitVec.ofNat 16 (s.ihl * 4 + 20 +
        (s.data.length + (chainBytes syn.session sc).length))) } :=
    fun f => congrArg f hwire
  have hpdata : pkt.data = s.data ++ chainBytes syn.session sc := hfield SkBuff.data
  have hpihl : pkt.ihl = s.ihl := hfield SkBuff.ihl
  have hpcut : pkt.cut = 0 := (hfield SkBuff.cut).trans hcut
  have htot : pkt.totLen = htons (BitVec.ofNat 16 (s.ihl * 4 + 20 +
    (s.data.length + (chainBytes syn.session sc).length))) := hfield SkBuff.totLen
  have hsaddr : pkt.saddr = s.saddr := hfield SkBuff.saddr
  have hdaddr : pkt.daddr = s.daddr := hfield SkBuff.daddr
  have hsource : pkt.source = s.source := hfield SkBuff.source
  have hdest : pkt.dest = s.dest := hfield SkBuff.dest
  refine ⟨?_, ⟨sc, hsc, hpdata.trans (by rw [hdata])⟩, ?_, hnext.trans (congrArg some hdaddr.symm)⟩
  · have hpkt : pkt.core = { s.core with data := s.data ++ chainBytes syn.session sc } :=
      hfield fun t => { t with
        hDest := 0#48, hSource := 0#48, tos := 0#8, totLen := 0#16, fragOff := 0#16, ttl := 0#8 }
    rw [hpkt, hcore, hpdata, hsaddr, hdaddr, hsource, hdest]
  · have hlen : pkt.len = syn.len + (16 + 4 * hops.length) := by
      rw [SkBuff.len, SkBuff.len, hpihl, hihl, hpcut, hw, hpdata, List.length_append,
        length_chainBytes, hsc, hdata]
      omega
    have hsame : s.ihl * 4 + 20 + (s.data.length + (chainBytes syn.session sc).length) =
        syn.len + (16 + 4 * hops.length) := by
      rw [SkBuff.len, hihl, hw, length_chainBytes, hsc, hdata]
      omega
    have htot' : pkt.totLen = htons (BitVec.ofNat 16 (syn.len + (16 + 4 * hops.length))) := by
      rw [← hsame]
      exact htot
    rw [hlen, htot', ntohs_htons, BitVec.toNat_ofNat]
    exact Nat.mod_eq_of_lt hfit

/-- The SYN of a session waits in a host, with the rest of its chain. -/
structure Waiting (E : Env) (g : Host) (syn : SkBuff) (p : Nat) (hops : List U32) : Prop where
  unknown : g.lookupOut E syn.session = none
  found : g.lookupPen E syn.session = some p
  super : (g.outMem p).super = syn.session
  chain : (g.chain (g.outMem p)).hops = hops
  memory : g.oom g.brk = false

section Leaving
variable {inside o : SkBuff} {tag : U32} {hop : U32} {rest : List U32}

/-- The parser finds the tag in what a transparent middlebox sends on. -/
theorem Delivered.tagged (hd : Delivered syn tag inside) (hs : OpeningSyn syn)
    (ho : o.core = inside.core)
    (g : Host) (p : Nat) : Tagged g o p := by
  have hplain : PlainSyn syn := ⟨hs.whole, hs.header, hs.noPayload, Or.inl hs.options⟩
  have hread := tagRead_insertTag (h := { Host.fresh with dyscoTag := tag }) hplain hs.room
  rw [if_pos hs.options] at hread
  have hcore : o.core =
      { syn.core with doff := syn.doff + 2#4, data := syn.data ++ tagBytes tag } :=
    ho.trans hd.core
  have hdata : o.data = (insertTag { Host.fresh with dyscoTag := tag } syn).2.data := by
    rw [← SkBuff.data_core, hcore, insertTag_of_whole _ hs.whole]
  have hopts : o.options = (insertTag { Host.fresh with dyscoTag := tag } syn).2.options := by
    have hsame : o.core.options = o.options := rfl
    rw [← hsame, hcore, insertTag_of_whole _ hs.whole]
    rfl
  refine Or.inr ?_
  rw [hdata, hopts, hread]
  rfl

/-- **The SYN leaves**, with a chain that is one hop shorter than the one it came with. -/
theorem Delivered.leaves (hd : Delivered syn tag inside) (hs : OpeningSyn syn)
    (ho : o.core = inside.core) (hw : Waiting E g syn p (hop :: rest))
    (hroom : 16 + 4 * (rest.length + 1) ≤ o.tailroom)
    (hfit : syn.len + (16 + 4 * (rest.length + 1)) < 65536) :
    ∃ d ports pkt, output E g o = ((g.released E p d ports).opened E p, pkt, true) ∧
      (g.outMem p).HandedTo d hop ∧ pkt.session = d.sub ∧ Carrying syn (hop :: rest) pkt := by
  have hcore : o.core =
      { syn.core with doff := syn.doff + 2#4, data := syn.data ++ tagBytes tag } :=
    ho.trans hd.core
  have hfield : ∀ {D : Type} (f : SkBuff → D), f o.core =
      f { syn.core with doff := syn.doff + 2#4, data := syn.data ++ tagBytes tag } :=
    fun f => congrArg f hcore
  have hsession : o.session = syn.session := hfield SkBuff.session
  have hdata : o.data = syn.data ++ tagBytes tag := hfield SkBuff.data
  have hdoff : o.doff = syn.doff + 2#4 := hfield SkBuff.doff
  have howhole : o.cut = 0 := (hfield SkBuff.cut).trans hs.whole
  have hproto : o.hProto = syn.hProto := hfield SkBuff.hProto
  have hprotocol : o.protocol = syn.protocol := hfield SkBuff.protocol
  have hne : (g.chain (g.outMem p)).hops ≠ [] := by
    rw [hw.chain]
    exact List.cons_ne_nil _ _
  have hf : FirstTime E g g o p :=
    { ip := (congrArg ntohs hproto).trans hs.ip
      tcp := hprotocol.trans hs.tcp
      whole := howhole
      unknown := (congrArg (g.lookupOut E) hsession).trans hw.unknown
      found := Or.inl ⟨(congrArg (g.lookupPen E) hsession).trans hw.found, rfl⟩
      chain := hne }
  obtain ⟨d, ports, hhost, hto⟩ := outHandleMb_made (E := E) o hw.chain hw.memory
  have hblock : firstBlock E g o p = d.withDcbIn (some g.brk) := by
    rw [firstBlock, hhost]
    have hself : (g.released E p d ports).outMem p = d := Host.setOut_outMem_self ..
    exact (Function.update_self ..).trans (congrArg (fun d => CbOut.withDcbIn d (some g.brk)) hself)
  have htag : (firstBlock E g o p).tagOk = true :=
    (firstBlock_spec g o p hne).1.mpr (hd.tagged hs ho g p)
  have hchain : ((outHandleMb E g o p).1.chain (firstBlock E g o p)).hops = hop :: rest := by
    have hsc : (firstBlock E g o p).sc = (g.outMem p).sc := by
      rw [hblock]
      exact hto.sc
    have hmem : (outHandleMb E g o p).1.scMem = g.scMem := by
      rw [hhost]
      rfl
    rw [Host.chain, hsc, hmem]
    exact hw.chain
  have hstripped : stripped E g o p = removeTag (outHdrRewrite E o (firstBlock E g o p)) :=
    if_pos htag
  have hdata' : (outHdrRewrite E o (firstBlock E g o p)).data = o.data := rfl
  have hcut := @core_removeTag (outHdrRewrite E o (firstBlock E g o p)) _ _ howhole
    (hdata'.trans hdata)
  have hsuper : (firstBlock E g o p).super = syn.session := by
    rw [hblock]
    exact hto.super.trans hw.super
  have hsub : (firstBlock E g o p).sub = d.sub := by rw [hblock]; rfl
  generalize hsc : (outHandleMb E g o p).1.chain (firstBlock E g o p) = sc at hchain
  have hbytes : firstChain E g o p = chainBytes syn.session sc := by
    rw [firstChain, hsuper, hsc]
  have hfits : Fits (stripped E g o p) (firstChain E g o p) := by
    have htail : o.tailroom ≤ (stripped E g o p).tailroom := by
      rw [hstripped, removeTag, SkBuff.trim]
      split
      · exact le_rfl
      · exact Nat.le_add_right _ _
    rw [Fits, hbytes, length_chainBytes, hchain]
    exact hroom.trans htail
  have hwire := outHandleMb_wire hfits
  rw [hbytes] at hwire
  have hscore : (stripped E g o p).core = { syn.core with
      saddr := d.sub.sip, daddr := d.sub.dip, source := d.sub.sport, dest := d.sub.dport } := by
    have hback : (outHdrRewrite E o (firstBlock E g o p)).doff - 2#4 = syn.doff :=
      (congrArg (· - 2#4) hdoff).trans (BitVec.add_sub_cancel _ _)
    rw [hstripped, hcut, hback, core_outHdrRewrite, hcore, hsub]
    rfl
  have hsfield : ∀ {D : Type} (f : SkBuff → D), f (stripped E g o p).core = f { syn.core with
      saddr := d.sub.sip, daddr := d.sub.dip, source := d.sub.sport, dest := d.sub.dport } :=
    fun f => congrArg f hscore
  have hssession : (stripped E g o p).session = d.sub := hsfield SkBuff.session
  refine ⟨d, ports, (outHandleMb E g o p).2, ?_, hto, ?_, ?_⟩
  · rw [hf.output, hhost]
  · have hsame : (outHandleMb E g o p).2.wire.session =
        ((stripped E g o p).chained (chainBytes syn.session sc)).session :=
          congrArg SkBuff.session hwire
    have hscut : (stripped E g o p).cut = 0 := (hsfield SkBuff.cut).trans hs.whole
    rw [session_chained hscut] at hsame
    exact Eq.trans hsame hssession
  · refine Carrying.of_chained hs.whole hwire ?_ hchain ?_ hfit
    · rw [hscore, ← hssession]
      rfl
    · have hdaddr : (stripped E g o p).daddr = d.sub.dip := hsfield SkBuff.daddr
      rw [hdaddr, hto.dip]
      rfl

end Leaving

/-! ## What the tables say afterwards -/

/-- Packets of the subsession come in as packets of the session. -/
structure Comes (E : Env) (h : Host) (sub super : TcpSession) (q : Nat) : Prop where
  found : h.lookupIn E sub = some q
  sub : (h.inMem q).sub = sub
  super : (h.inMem q).super = super
  plain : (h.inMem q).Plain

/-- Packets of the session go out as packets of the subsession. -/
structure Goes (E : Env) (h : Host) (super sub : TcpSession) (p : Nat) : Prop where
  found : h.lookupOut E super = some p
  super : (h.outMem p).super = super
  sub : (h.outMem p).sub = sub
  onePath : (h.outMem p).otherPath = none
  noSock : (h.outMem p).myTp = none

/-- The block of the reverse direction is made from the block that goes into the table. -/
theorem opened_inMem_self (h : Host) (p : Nat) :
    (h.opened E p).inMem h.brk = (h.outMem p).reverseIn p false := Function.update_self ..

theorem opened_outMem_self (h : Host) (p : Nat) :
    (h.opened E p).outMem p = (h.outMem p).withDcbIn (some h.brk) := Function.update_self ..

/-- No session changes when a block goes into the table. -/
theorem opened_super (h : Host) (p m : Nat) :
    ((h.opened E p).outMem m).super = (h.outMem m).super := by
  rw [Host.opened]
  simp only
  by_cases hm : m = p
  · rw [hm, Function.update_self]
    rfl
  · rw [Function.update_of_ne hm]

/-- From then on packets of the session find the block, and all others what they found. -/
theorem opened_lookupOut (h : Host) (p : Nat) (ss : TcpSession) : (h.opened E p).lookupOut E ss =
    if (h.outMem p).super = ss then some p else h.lookupOut E ss := by
  rw [Host.lookupOut]
  simp only [opened_super]
  exact BucketTable.lookup_cons (f := fun p => (h.outMem p).super) rfl

theorem opened_lookupPen (h : Host) (p : Nat) (ss : TcpSession) :
    (h.opened E p).lookupPen E ss = h.lookupPen E ss :=
  BucketTable.lookup_congr fun m _ => opened_super h p m

/-- The answers from the next hop find the new input block. -/
theorem opened_lookupIn (hlt : ∀ q, h.hashIn.Holds q → q < h.brk) (p : Nat) (sub : TcpSession) :
    (h.opened E p).lookupIn E sub =
      if (h.outMem p).sub.reverse = sub then some h.brk else h.lookupIn E sub := by
  have hself : ((h.opened E p).inMem h.brk).sub = (h.outMem p).sub.reverse :=
    congrArg CbIn.sub (opened_inMem_self h p)
  have hin : (h.opened E p).hashIn =
      ⟨(E.sessionHash (h.outMem p).sub.reverse, h.brk) :: h.hashIn.entries⟩ :=
    rfl
  rw [Host.lookupIn, hin, BucketTable.lookup_cons
    (f := fun q => ((h.opened E p).inMem q).sub) hself]
  congr 1
  refine BucketTable.lookup_congr fun q hq => congrArg CbIn.sub ?_
  exact Function.update_of_ne (Nat.ne_of_lt (hlt q hq)) ..

/-- The input block of the other direction. -/
theorem opened_comes (hlt : ∀ q, h.hashIn.Holds q → q < h.brk) (p : Nat) :
    Comes E (h.opened E p) (h.outMem p).sub.reverse (h.outMem p).super.reverse h.brk := by
  have hself := opened_inMem_self (E := E) h p
  refine ⟨?_, ?_, ?_, ?_⟩
  · rw [opened_lookupIn hlt, if_pos rfl]
  · rw [hself]
    rfl
  · rw [hself]
    rfl
  · rw [hself]
    exact ⟨rfl, rfl, rfl, rfl, rfl, rfl⟩

/-- So the session goes out by its new link. -/
theorem opened_goes (hpath : (h.outMem p).otherPath = none) (hsock : (h.outMem p).myTp = none) :
    Goes E (h.opened E p) (h.outMem p).super (h.outMem p).sub p := by
  have hself := opened_outMem_self (E := E) h p
  refine ⟨?_, ?_, ?_, ?_, ?_⟩
  · rw [opened_lookupOut, if_pos rfl]
  all_goals rw [hself]
  · rfl
  · rfl
  · exact hpath
  · exact hsock

/-- A block stays found if a block with another session is put in front of it. -/
theorem Goes.opened {super sub : TcpSession} (hg : Goes E h super sub q) (hqp : q ≠ p)
    (hne : (h.outMem p).super ≠ super) : Goes E (h.opened E p) super sub q := by
  have hself : (h.opened E p).outMem q = h.outMem q := Function.update_of_ne hqp ..
  refine ⟨?_, ?_, ?_, ?_, ?_⟩
  · rw [opened_lookupOut, if_neg hne]
    exact hg.found
  all_goals rw [hself]
  · exact hg.super
  · exact hg.sub
  · exact hg.onePath
  · exact hg.noSock

/-- What comes in by another link still comes in. -/
theorem Comes.opened {sub super : TcpSession} (hc : Comes E h sub super q)
    (hlt : ∀ q, h.hashIn.Holds q → q < h.brk) (hq : q < h.brk)
    (hne : (h.outMem p).sub.reverse ≠ sub) :
    Comes E (h.opened E p) sub super q := by
  have hself : (h.opened E p).inMem q = h.inMem q := Function.update_of_ne (Nat.ne_of_lt hq) ..
  refine ⟨?_, ?_, ?_, ?_⟩
  · rw [opened_lookupIn hlt, if_neg hne]
    exact hc.found
  all_goals rw [hself]
  · exact hc.sub
  · exact hc.super
  · exact hc.plain

section Released
variable {d : CbOut} {ports : U32} {super sub : TcpSession}

theorem released_outMem_self (h : Host) (p : Nat) (d : CbOut) (ports : U32) :
    (h.released E p d ports).outMem p = d := Host.setOut_outMem_self ..

theorem released_outMem_of_ne (hx : x ≠ p) : (h.released E p d ports).outMem x = h.outMem x :=
  Host.setOut_outMem_of_ne _ hx _

/-- The pending block that was made last is taken out. -/
theorem released_hashPen {es : List (Nat × Nat)}
    (hpen : h.hashPen = ⟨(E.penHash (h.outMem p).super, p) :: es⟩) :
    (h.released E p d ports).hashPen = ⟨es⟩ := by
  have hremove : (h.released E p d ports).hashPen =
      ⟨h.hashPen.entries.erase (E.penHash (h.outMem p).super, p)⟩ := rfl
  rw [hremove, hpen, List.erase_cons_head]

/-- Taking a block out of the pending tables does not touch the input side. -/
theorem Comes.released (hc : Comes E h sub super q) (ports : U32) :
    Comes E (h.released E p d ports) sub super q :=
  { hc with }

/-- Nor does it touch what goes out by other blocks. -/
theorem Goes.released (hg : Goes E h super sub q) (hqp : q ≠ p)
    (hkey : d.super = (h.outMem p).super)
    (ports : U32) : Goes E (h.released E p d ports) super sub q := by
  have hself : (h.released E p d ports).outMem q = h.outMem q := released_outMem_of_ne hqp
  refine ⟨?_, ?_, ?_, ?_, ?_⟩
  · exact (Host.lookupOut_setOut _ (fun _ => hkey) super).trans hg.found
  all_goals rw [hself]
  · exact hg.super
  · exact hg.sub
  · exact hg.onePath
  · exact hg.noSock

end Released

namespace Entered

/-- After the SYN has come in, its session comes in by the link that it took. -/
theorem comes (he : Entered E h skb sp g) (ht : h.Tidy) : Comes E g skb.session sp.ss h.brk where
  found := by rw [he.lookupIn ht, if_pos rfl]
  sub := he.sub
  super := he.super
  plain := he.plain

/-- And what the host sends back goes out by the same link. -/
theorem goesBack (he : Entered E h skb sp g) (ht : h.Tidy) :
    Goes E g sp.ss.reverse skb.session.reverse (h.brk + 1) where
  found := by rw [he.lookupOut ht, if_pos rfl]
  super := by
    rw [he.back]
    rfl
  sub := by
    rw [he.back]
    rfl
  onePath := by
    rw [he.back]
    rfl
  noSock := by
    rw [he.back]
    rfl

/-- **Once the SYN has left**, the pending block is gone, and there are blocks for both directions
on both sides of the host. -/
theorem passed {d : CbOut} {hop : U32} (he : Entered E h skb sp g) (ht : h.Tidy)
    (hmany : 1 < sp.sc.hops.length) (hto : (g.outMem (h.brk + 2)).HandedTo d hop)
    (hends : sp.ss.reverse ≠ sp.ss) (hfresh : d.sub.reverse ≠ skb.session) (ports : U32) :
    let f := (g.released E (h.brk + 2) d ports).opened E (h.brk + 2)
    (∀ ss, f.lookupPen E ss = h.lookupPen E ss) ∧ Comes E f skb.session sp.ss h.brk ∧
      Goes E f sp.ss d.sub (h.brk + 2) ∧ Comes E f d.sub.reverse sp.ss.reverse g.brk ∧
      Goes E f sp.ss.reverse skb.session.reverse (h.brk + 1) := by
  obtain ⟨hpen, hblock, -, hbrk⟩ := he.waits hmany
  have hpending : ∀ {D : Type} (f : CbOut → D), f (g.outMem (h.brk + 2)) =
      f (sp.pendingBlock (h.brk + 3)) :=
    fun f => congrArg f hblock
  have hkey : (g.outMem (h.brk + 2)).super = sp.ss := hpending CbOut.super
  have hcomes := (he.comes ht).released (p := h.brk + 2) (d := d) ports
  have hback := (he.goesBack ht).released (p := h.brk + 2) (by omega) hto.super ports
  have hkpen : (g.released E (h.brk + 2) d ports).hashPen = ⟨h.hashPen.entries⟩ :=
    released_hashPen (by rw [hkey]; exact hpen)
  have hkself := released_outMem_self (E := E) g (h.brk + 2) d ports
  have hklt : ∀ q, (g.released E (h.brk + 2) d ports).hashIn.Holds q →
      q < (g.released E (h.brk + 2) d ports).brk := (he.tidy ht).in_lt
  have hkbrk : (g.released E (h.brk + 2) d ports).brk = g.brk := rfl
  have hkold : ∀ x < h.brk, (g.released E (h.brk + 2) d ports).outMem x = h.outMem x :=
    fun x hx => (released_outMem_of_ne (by omega)).trans (he.outOld x hx)
  generalize g.released E (h.brk + 2) d ports = k at *
  have hsuper : (k.outMem (h.brk + 2)).super = sp.ss := by rw [hkself, hto.super, hkey]
  have hsub : (k.outMem (h.brk + 2)).sub = d.sub := by rw [hkself]
  refine ⟨fun ss => ?_, ?_, ?_, ?_, ?_⟩
  · rw [opened_lookupPen, Host.lookupPen, hkpen]
    exact BucketTable.lookup_congr fun p hp => congrArg CbOut.super (hkold p (ht.pen_lt p hp))
  · exact hcomes.opened hklt (by omega) (by rw [hsub]; exact hfresh)
  · rw [← hsuper, ← hsub]
    refine opened_goes ?_ ?_
    · rw [hkself, hto.otherPath]
      exact hpending CbOut.otherPath
    · rw [hkself, hto.myTp]
      exact hpending CbOut.myTp
  · rw [← hsuper, ← hsub, ← hkbrk]
    exact opened_comes hklt _
  · exact hback.opened (by omega) (by rw [hsuper]; exact hends.symm)

end Entered

end Dysco
