import Dysco.Input

/-! # What a SYN carries

A SYN without an ACK may carry a session and a service chain behind its header.  The
input path does not test that it does: whatever payload the first SYN of a session has is
taken for a chain, and so is whatever is behind the header of a SYN whose session has
an input block already, payload or not.

`input_syn_iff` says for which SYNs that is harmless: those that carry a chain and
nothing else, and those for which no block is made.
-/
namespace Dysco
open ByteOrder

variable (E : Env)

/-- A packet with whole headers, whose lengths agree. -/
structure SkBuff.Sound (skb : SkBuff) : Prop where
  whole : skb.cut = 0
  length : (ntohs skb.totLen).toNat = skb.len
  header : 5 ≤ skb.doff.toNat
  options : skb.doff.toNat * 4 ≤ 20 + skb.data.length

/-- The length of the IP header and the TCP header. -/
def SkBuff.headerLen (skb : SkBuff) : Nat := skb.ihl * 4 + skb.doff.toNat * 4

/-- The bytes behind the TCP header. -/
def SkBuff.payload (skb : SkBuff) : List U8 := skb.data.drop skb.optLen

/-- The payload is a session and a chain of at least one hop, and nothing else. -/
def SkBuff.CarriesChain (skb : SkBuff) : Prop :=
  1 ≤ skb.synPacket.sc.hops.length ∧ skb.payload.length = skb.synPacket.sc.pktSize

instance (skb : SkBuff) : Decidable skb.CarriesChain := inferInstanceAs (Decidable (_ ∧ _))

/-- The hops that lie inside the payload, behind a session and the two numbers of a chain. -/
def SkBuff.hopsInside (skb : SkBuff) : List U32 :=
  (List.range ((skb.payload.length - 16) / 4)).map fun i => load32 skb.payload (16 + 4 * i)

/-- The payload has been replaced by a tag, and nothing else is gone. -/
structure ChainRemoved (skb skb' : SkBuff) : Prop where
  whole : skb'.cut = 0
  data : ∃ tag, skb'.data = skb.data.take skb.optLen ++ tagBytes tag
  len : skb'.len = skb.headerLen + 8
  totLen : (ntohs skb'.totLen).toNat = skb.headerLen + 8

/-- No block has been put into a table or taken out of one, and no chain has been copied. -/
structure Host.SameTables (h h' : Host) : Prop where
  hashOut : h'.hashOut = h.hashOut
  hashIn : h'.hashIn = h.hashIn
  hashPen : h'.hashPen = h.hashPen
  hashPenTag : h'.hashPenTag = h.hashPenTag
  scMem : h'.scMem = h.scMem

/-- Unless the packet is as it was, it has been cut to its headers at most before the tag was put
behind them; and every chain that has been copied is made of hops that lie inside the payload. -/
structure KeptInside (h : Host) (skb : SkBuff) (out : Host × SkBuff × Bool) : Prop where
  length : out.2.1 = skb ∨ out.2.1 = skb.free ∨ skb.headerLen + 8 ≤ out.2.1.len
  hops : ∀ s, out.1.scMem s = h.scMem s ∨ (out.1.scMem s).hops = skb.hopsInside.tail

/-- A SYN was relieved of its chain, or else left as it came, perhaps dropped, without a
control block being made; and never was more than the payload cut off or read. -/
def SynHandled (h : Host) (skb : SkBuff) (out : Host × SkBuff × Bool) : Prop :=
  (skb.CarriesChain ∧ ChainRemoved skb out.2.1 ∨
    h.SameTables out.1 ∧ (out.2.1 = skb ∨ out.2.1 = skb.free)) ∧ KeptInside h skb out

/-- One of the allocations made for a SYN with a chain fails. -/
def Host.ChainOom (h : Host) (sp : SynPacket) : Prop :=
  h.oom h.brk = true ∨ h.oom (h.brk + 1) = true ∨
    1 < sp.sc.hops.length ∧ (h.oom (h.brk + 2) = true ∨ h.oom (h.brk + 3) = true)

/-- The SYN is not for Dysco, or carries a chain and nothing else, or no block is there or
made for it. -/
def SynHarmless (h : Host) (skb : SkBuff) : Prop :=
  ntohs skb.hProto ≠ ethPIp ∨ skb.protocol ≠ ipprotoTcp ∨ skb.CarriesChain ∨
    h.lookupIn E skb.session = none ∧ (skb.payload = [] ∨ h.ChainOom skb.synPacket)

/-! ## Making the blocks -/

variable {E} {h h' : Host} {skb : SkBuff} {sp : SynPacket}

theorem Host.SameTables.refl (h : Host) : h.SameTables h := ⟨rfl, rfl, rfl, rfl, rfl⟩

theorem Host.SameTables.trans {h'' : Host} (h₁ : h.SameTables h') (h₂ : h'.SameTables h'') :
    h.SameTables h'' :=
  ⟨h₂.hashOut.trans h₁.hashOut, h₂.hashIn.trans h₁.hashIn, h₂.hashPen.trans h₁.hashPen,
    h₂.hashPenTag.trans h₁.hashPenTag, h₂.scMem.trans h₁.scMem⟩

/-- An allocation fails exactly when memory is out at its address. -/
theorem kmalloc_eq (h : Host) :
    h.kmalloc = (if h.oom h.brk = true then none else some h.brk, h.bump) := by
  unfold Host.kmalloc
  split <;> rfl

theorem kzallocOut_eq (h : Host) :
    h.kzallocOut = if h.oom h.brk = true then (none, h.bump)
      else (some h.brk, h.bump.setOut h.brk default) := rfl

theorem kzallocIn_eq (h : Host) :
    h.kzallocIn = if h.oom h.brk = true then (none, h.bump)
      else (some h.brk, h.bump.setIn h.brk default) := rfl

variable (E sp) in
/-- A pending block needs two allocations. -/
theorem insertPending_oom (ho : h.oom h.brk = true ∨ h.oom (h.brk + 1) = true) :
    ∃ h', insertPending E h sp = (false, h') ∧ h.SameTables h' := by
  unfold insertPending
  rw [kzallocOut_eq]
  by_cases h0 : h.oom h.brk = true
  · rw [if_pos h0]
    exact ⟨_, rfl, rfl, rfl, rfl, rfl, rfl⟩
  · rw [if_neg h0]
    simp only
    generalize hg : Host.setOut (h.bump.setOut h.brk default) h.brk _ = g
    have h1 : g.oom g.brk = true := by
      rw [← hg]
      exact ho.resolve_left h0
    have hsame : h.SameTables g := by
      rw [← hg]
      exact ⟨rfl, rfl, rfl, rfl, rfl⟩
    rw [kmalloc_eq, if_pos h1]
    exact ⟨_, rfl, hsame.trans ⟨rfl, rfl, rfl, rfl, rfl⟩⟩

/-- Whatever has been copied since is the chain of the SYN without its first hop. -/
def Host.CopiesOnly (h h' : Host) (sp : SynPacket) : Prop :=
  ∀ s, h'.scMem s = h.scMem s ∨ (h'.scMem s).hops = sp.sc.hops.tail

variable (E sp) in
theorem insertPending_ok (ho : ¬ (h.oom h.brk = true ∨ h.oom (h.brk + 1) = true)) :
    ∃ h', insertPending E h sp = (true, h') ∧ h'.hashIn = h.hashIn ∧ h.CopiesOnly h' sp := by
  obtain ⟨h0, h1⟩ := not_or.mp ho
  unfold insertPending
  rw [kzallocOut_eq, if_neg h0]
  simp only
  generalize hg : Host.setOut (h.bump.setOut h.brk default) h.brk _ = g
  have h1 : ¬ g.oom g.brk = true := by
    rw [← hg]
    exact h1
  have hin : g.hashIn = h.hashIn := by
    rw [← hg]
    rfl
  have hsc : g.scMem = h.scMem := by
    rw [← hg]
    rfl
  rw [kmalloc_eq, if_neg h1]
  refine ⟨_, rfl, hin, fun s => ?_⟩
  have hmem : ∀ (k : Host) (p : Nat), ((k.insertPen E p).insertTag E p).scMem = k.scMem :=
    fun _ _ => rfl
  rw [hmem]
  by_cases hs : s = g.brk
  · right
    subst hs
    simp [Host.setOut, Host.setSc, ServiceChain.rest]
  · left
    simp [Host.setOut, Host.setSc, hs, hsc]

/-- The reverse block needs one. -/
theorem insertCbInReverse_oom (ho : h.oom h.brk = true) :
    insertCbInReverse h skb sp = (none, h.bump) := by
  unfold insertCbInReverse
  rw [kzallocOut_eq, if_pos ho]

variable (skb sp) in
theorem insertCbInReverse_ok (ho : h.oom h.brk ≠ true) :
    ∃ d, insertCbInReverse h skb sp =
      (some h.brk, (h.bump.setOut h.brk default).setOut h.brk d) := by
  unfold insertCbInReverse
  rw [kzallocOut_eq, if_neg ho]
  exact ⟨_, rfl⟩

variable (E skb) in
/-- Without memory the blocks of a SYN are not made. -/
theorem insertCbInput_oom (ho : h.ChainOom sp) :
    ∃ h', insertCbInput E h skb sp = (none, h') ∧ h.SameTables h' := by
  unfold insertCbInput
  rw [kzallocIn_eq]
  by_cases h0 : h.oom h.brk = true
  · rw [if_pos h0]
    exact ⟨_, rfl, rfl, rfl, rfl, rfl, rfl⟩
  · rw [if_neg h0]
    simp only
    generalize hg : Host.setIn (h.bump.setIn h.brk default) h.brk _ = g
    have hbrk : g.brk = h.brk + 1 := by rw [← hg]; rfl
    have hoom : g.oom = h.oom := by rw [← hg]; rfl
    have hsame : h.SameTables g := by
      rw [← hg]
      exact ⟨rfl, rfl, rfl, rfl, rfl⟩
    by_cases h1 : g.oom g.brk = true
    · rw [insertCbInReverse_oom h1]
      exact ⟨_, rfl, hsame.trans ⟨rfl, rfl, rfl, rfl, rfl⟩⟩
    · obtain ⟨d, hd⟩ := insertCbInReverse_ok skb sp h1
      rw [hoom, hbrk] at h1
      obtain ⟨hlen, h23⟩ := (ho.resolve_left h0).resolve_left h1
      rw [hd]
      simp only [if_pos hlen]
      obtain ⟨h', hp, hsame'⟩ := insertPending_oom E sp
        (h := (g.bump.setOut g.brk default).setOut g.brk d)
        (by simpa only [Host.setOut_brk, Host.setOut_oom, Host.bump_brk, Host.bump_oom, hoom, hbrk]
              using h23)
      rw [hp]
      have hset : g.SameTables ((g.bump.setOut g.brk default).setOut g.brk d) :=
        ⟨rfl, rfl, rfl, rfl, rfl⟩
      have hfree : h'.SameTables ((h'.kfree h.brk).kfree g.brk) := ⟨rfl, rfl, rfl, rfl, rfl⟩
      exact ⟨_, rfl, ((hsame.trans hset).trans hsame').trans hfree⟩

variable (E skb) in
/-- With memory they are, and the input table has a block more. -/
theorem insertCbInput_ok (ho : ¬ h.ChainOom sp) :
    ∃ q h', insertCbInput E h skb sp = (some q, h') ∧
      h'.hashIn.entries.length = h.hashIn.entries.length + 1 ∧ h.CopiesOnly h' sp := by
  obtain ⟨h0, ho⟩ := not_or.mp ho
  obtain ⟨h1, h23⟩ := not_or.mp ho
  unfold insertCbInput
  rw [kzallocIn_eq, if_neg h0]
  simp only
  generalize hg : Host.setIn (h.bump.setIn h.brk default) h.brk _ = g
  have hbrk : g.brk = h.brk + 1 := by rw [← hg]; rfl
  have hoom : g.oom = h.oom := by rw [← hg]; rfl
  have hin : g.hashIn = h.hashIn := by rw [← hg]; rfl
  have hsc : g.scMem = h.scMem := by rw [← hg]; rfl
  obtain ⟨d, hd⟩ := insertCbInReverse_ok (h := g) skb sp (by rwa [hoom, hbrk])
  rw [hd]
  simp only
  by_cases hlen : 1 < sp.sc.hops.length
  · simp only [if_pos hlen]
    obtain ⟨h', hp, hsame, hcopies⟩ := insertPending_ok E sp
      (h := (g.bump.setOut g.brk default).setOut g.brk d)
      (by
        simp only [Host.setOut_brk, Host.setOut_oom, Host.bump_brk, Host.bump_oom, hoom, hbrk]
        exact fun hc => h23 ⟨hlen, hc⟩)
    rw [hp]
    refine ⟨_, _, rfl, ?_, fun s => ?_⟩
    · simp [Host.insertIn, BucketTable.insert, hsame, hin]
    · rw [← hsc]
      exact hcopies s
  · simp only [if_neg hlen]
    refine ⟨_, _, rfl, ?_, fun s => Or.inl ?_⟩
    · simp [Host.insertIn, BucketTable.insert, hin]
    · rw [← hsc]
      rfl

/-! ## Cutting the chain off -/

theorem SkBuff.Sound.len_eq (hs : skb.Sound) : skb.len = skb.ihl * 4 + 20 + skb.data.length := by
  rw [SkBuff.len, hs.whole, Nat.sub_zero]

theorem SkBuff.Sound.optLen_le (hs : skb.Sound) : skb.optLen ≤ skb.data.length := by
  have := hs.header
  have := hs.options
  unfold optLen
  omega

/-- There is a payload if the segment is longer than its header. -/
theorem SkBuff.Sound.payload_iff (hs : skb.Sound) :
    skb.doff.toNat * 4 < skb.tcpLen ↔ skb.payload ≠ [] := by
  have hlen := hs.length
  have := hs.header
  have := hs.options
  have hpay : skb.payload.length = skb.data.length - skb.optLen := List.length_drop ..
  rw [hs.len_eq] at hlen
  rw [← List.length_pos_iff, hpay]
  unfold tcpLen optLen
  omega

/-- The rewriting of the five-tuple leaves the bytes and their number alone. -/
theorem inHdrRewrite_keeps (skb : SkBuff) (dcb : CbIn) :
    (inHdrRewrite skb dcb).data = skb.data ∧ (inHdrRewrite skb dcb).totLen = skb.totLen ∧
      (inHdrRewrite skb dcb).doff = skb.doff := by
  unfold inHdrRewrite
  simp only
  split <;> exact ⟨rfl, rfl, rfl⟩

theorem inHdrRewrite_len (skb : SkBuff) (dcb : CbIn) :
    (inHdrRewrite skb dcb).len = skb.len ∧ (inHdrRewrite skb dcb).cut = skb.cut := by
  unfold inHdrRewrite
  simp only
  split <;> exact ⟨rfl, rfl⟩

/-- The chain of a SYN that carries one is inside its payload. -/
theorem SkBuff.CarriesChain.hops_eq (hc : skb.CarriesChain) (hs : skb.Sound) :
    skb.synPacket.sc.hops = skb.hopsInside := by
  have hsize := hc.2
  have hpay : skb.payload.length = skb.data.length - skb.optLen := List.length_drop ..
  have hopt := hs.optLen_le
  have hread : ∀ k, k + 4 ≤ skb.payload.length →
      load32 (skb.data ++ skb.behind) (skb.optLen + k) = load32 skb.payload k := by
    intro k hk
    have hbyte : ∀ j < skb.payload.length,
        byteAt (skb.data ++ skb.behind) (skb.optLen + j) = byteAt skb.payload j := by
      intro j hj
      rw [byteAt_append_left (by omega), SkBuff.payload, byteAt_drop]
    apply BitVec.eq_of_toNat_eq
    rw [toNat_load32, toNat_load32]
    simp only [Nat.add_assoc]
    rw [hbyte k (by omega), hbyte (k + 1) (by omega), hbyte (k + 2) (by omega),
      hbyte (k + 3) (by omega)]
  unfold ServiceChain.pktSize at hsize
  apply List.ext_getElem
  · rw [hopsInside, List.length_map, List.length_range, hsize]
    omega
  · intro i hi _
    simp only [hopsInside, synPacket, readChain, List.getElem_map, List.getElem_range]
    rw [Nat.add_assoc, Nat.add_assoc, hread _ (by omega)]
    congr 1
    omega

/-- What is left of a SYN that carries a chain. -/
theorem removeSc_of_carries (hs : skb.Sound) (hc : skb.CarriesChain) :
    removeSc skb = { skb with
      data := skb.data.take skb.optLen, tailroom := skb.tailroom + skb.synPacket.sc.pktSize,
      totLen := htons (BitVec.ofNat 16 skb.headerLen) } ∧ skb.headerLen + 20 ≤ 65535 := by
  have hopt := hs.optLen_le
  have hheader := hs.header
  have hlen := hs.length
  have htot := (ntohs skb.totLen).isLt
  have hpay : skb.payload.length = skb.data.length - skb.optLen := List.length_drop ..
  have hsize : skb.synPacket.sc.pktSize = skb.data.length - skb.optLen := hc.2.symm.trans hpay
  have hbig : 20 ≤ skb.synPacket.sc.pktSize := by
    have := hc.1
    unfold ServiceChain.pktSize
    omega
  have hnot : ¬ skb.len < skb.synPacket.sc.pktSize := by
    rw [hs.len_eq]
    omega
  have hkept : skb.len - skb.synPacket.sc.pktSize = skb.headerLen := by
    rw [hs.len_eq, SkBuff.headerLen]
    unfold SkBuff.optLen at hopt hsize
    omega
  have hle : skb.headerLen + 20 ≤ 65535 := by
    rw [← hkept]
    omega
  have hcut : skb.data.length - skb.synPacket.sc.pktSize = skb.optLen := by omega
  refine ⟨?_, hle⟩
  rw [removeSc, SkBuff.trim_of_le (by omega) hnot, if_neg hnot, hkept, hcut]

/-- **A chain is removed as a whole**, and nothing else. -/
theorem chainRemoved (hs : skb.Sound) (hc : skb.CarriesChain) (dcb : CbIn) :
    ChainRemoved skb (inHdrRewrite (insertTag h (removeSc skb)).2 dcb) := by
  obtain ⟨heq, hle⟩ := removeSc_of_carries hs hc
  have hopt := hs.optLen_le
  have hheader := hs.header
  obtain ⟨hdata, htot, -⟩ := inHdrRewrite_keeps (insertTag h (removeSc skb)).2 dcb
  obtain ⟨hlen, hcut⟩ := inHdrRewrite_len (insertTag h (removeSc skb)).2 dcb
  have hwhole : (removeSc skb).cut = 0 := by
    rw [heq]
    exact hs.whole
  have htag := insertTag_of_whole h hwhole
  have hdata' : (inHdrRewrite (insertTag h (removeSc skb)).2 dcb).data =
      skb.data.take skb.optLen ++ tagBytes h.dyscoTag := by
    rw [hdata, htag, heq]
  refine ⟨hcut.trans (cut_insertTag h hwhole), ⟨_, hdata'⟩, ?_, ?_⟩
  · have hgrown := @len_insertTag h (removeSc skb) (by rw [hwhole]; exact Nat.zero_le _)
    have hleft : (removeSc skb).len =
        skb.ihl * 4 + 20 + (skb.data.take skb.optLen).length - skb.cut := by
      rw [heq]
      rfl
    rw [hlen, hgrown, hleft, hs.whole, List.length_take, SkBuff.headerLen]
    unfold SkBuff.optLen at hopt ⊢
    omega
  · rw [htot, htag, heq]
    simp only [ntohs_htons]
    rw [BitVec.toNat_add, BitVec.toNat_ofNat, BitVec.toNat_ofNat]
    omega

/-- The cut of a chain changes the length of a packet by what is cut. -/
theorem removeSc_len (hs : skb.Sound) :
    (removeSc skb).len = (skb.trim skb.synPacket.sc.pktSize).len ∧
      (removeSc skb).cut ≤ (removeSc skb).ihl * 4 + 20 + (removeSc skb).data.length := by
  have hcut := @SkBuff.cut_trim_le skb (by rw [hs.whole]; exact Nat.zero_le _)
    skb.synPacket.sc.pktSize
  rw [removeSc]
  generalize skb.trim skb.synPacket.sc.pktSize = s at hcut ⊢
  exact ⟨rfl, hcut⟩

/-- The length of a packet changes when a chain is cut off and a tag put on. -/
theorem len_insertTag_ne (hs : skb.Sound) (h : Host) (dcb : CbIn) :
    (inHdrRewrite (insertTag h (removeSc skb)).2 dcb).len ≠ skb.len := by
  obtain ⟨hkept, hcut⟩ := removeSc_len hs
  have hbig : 16 ≤ skb.synPacket.sc.pktSize := by
    unfold ServiceChain.pktSize
    omega
  rw [(inHdrRewrite_len _ dcb).1, len_insertTag h hcut, hkept]
  by_cases hlen : skb.len < skb.synPacket.sc.pktSize
  · rw [SkBuff.trim, if_pos hlen]
    omega
  · rw [SkBuff.len_trim hlen]
    omega

/-! ## SYNs that arrive -/

/-- A first SYN with a payload: the blocks are made if there is memory. -/
theorem rxInitiationNew_payload (hs : skb.Sound) (hpay : skb.payload ≠ []) :
    (h.ChainOom skb.synPacket →
      ∃ h', rxInitiationNew E h skb = (h', skb.free, false) ∧ h.SameTables h') ∧
    (¬ h.ChainOom skb.synPacket →
      ∃ h' dcb g, rxInitiationNew E h skb =
          (h', inHdrRewrite (insertTag g (removeSc skb)).2 dcb, true) ∧
        h'.hashIn.entries.length = h.hashIn.entries.length + 1 ∧
        h.CopiesOnly h' skb.synPacket) := by
  unfold rxInitiationNew
  rw [if_pos (hs.payload_iff.mpr hpay)]
  constructor
  · intro ho
    obtain ⟨h', hi, hsame⟩ := insertCbInput_oom E skb ho
    rw [hi]
    exact ⟨h', rfl, hsame⟩
  · intro ho
    obtain ⟨q, h', hi, hlen, hcopies⟩ := insertCbInput_ok E skb ho
    rw [hi]
    exact ⟨_, _, _, rfl, hlen, hcopies⟩

/-- A packet that goes through untouched, or is dropped. -/
theorem SynHandled.untouched {out : Host × SkBuff × Bool} (hsame : h.SameTables out.1)
    (hskb : out.2.1 = skb ∨ out.2.1 = skb.free) : SynHandled h skb out :=
  ⟨Or.inr ⟨hsame, hskb⟩, hskb.elim Or.inl fun hfree => Or.inr (Or.inl hfree),
    fun s => Or.inl (congrFun hsame.scMem s)⟩

/-- A packet that is relieved of its chain, of which nothing else is copied. -/
theorem SynHandled.removed {out : Host × SkBuff × Bool} (hs : skb.Sound) (hc : skb.CarriesChain)
    (hr : ChainRemoved skb out.2.1) (hcopies : h.CopiesOnly out.1 skb.synPacket) :
    SynHandled h skb out := by
  refine ⟨Or.inl ⟨hc, hr⟩, Or.inr (Or.inr hr.len.ge), fun s => ?_⟩
  rw [← hc.hops_eq hs]
  exact hcopies s

theorem synHandled_of_harmless (hsyn : skb.hasSyn = true) (hack : skb.hasAck = false)
    (hs : skb.Sound) (hok : SynHarmless E h skb) : SynHandled h skb (input E h skb) := by
  unfold input
  by_cases hip : ntohs skb.hProto ≠ ethPIp
  · rw [if_pos hip]
    exact .untouched (.refl h) (Or.inl rfl)
  rw [if_neg hip]
  by_cases htcp : skb.protocol ≠ ipprotoTcp
  · rw [if_pos htcp]
    exact .untouched (.refl h) (Or.inl rfl)
  rw [if_neg htcp]
  have hcase := (hok.resolve_left hip).resolve_left htcp
  cases hl : h.lookupIn E skb.session with
  | none =>
    simp only [hsyn, if_true]
    by_cases hpay : skb.payload = []
    · -- nothing behind the header
      unfold rxInitiationNew
      rw [if_neg (fun hlt => hs.payload_iff.mp hlt hpay)]
      exact .untouched (.refl h) (Or.inl rfl)
    · obtain ⟨hoom, hmade⟩ := rxInitiationNew_payload (E := E) (h := h) hs hpay
      by_cases ho : h.ChainOom skb.synPacket
      · obtain ⟨h', heq, hsame⟩ := hoom ho
        rw [heq]
        exact .untouched hsame (Or.inr rfl)
      · obtain ⟨h', dcb, g, heq, -, hcopies⟩ := hmade ho
        have hc : skb.CarriesChain := by
          rcases hcase with hc | ⟨-, hnil | hoom⟩
          · exact hc
          · exact absurd hnil hpay
          · exact absurd hoom ho
        have hremoved := chainRemoved (h := g) hs hc dcb
        rw [heq]
        generalize inHdrRewrite (insertTag g (removeSc skb)).2 dcb = t at hremoved ⊢
        exact .removed hs hc hremoved hcopies
  | some q =>
    simp only [hsyn, hack, if_true, Bool.false_eq_true, if_false]
    have hc : skb.CarriesChain := by
      rcases hcase with hc | ⟨hnone, -⟩
      · exact hc
      · rw [hl] at hnone
        cases hnone
    have hremoved := fun d => chainRemoved (h := h) hs hc d
    have hcopied : (insertTag h (removeSc skb)).1.scMem = h.scMem := rfl
    generalize insertTag h (removeSc skb) = x at hremoved hcopied ⊢
    exact .removed hs hc (hremoved _) fun s => Or.inl (congrFun hcopied s)

theorem not_synHandled_of_harmful (hsyn : skb.hasSyn = true) (hack : skb.hasAck = false)
    (hs : skb.Sound) (hbad : ¬ SynHarmless E h skb) : ¬ SynHandled h skb (input E h skb) := by
  unfold SynHarmless at hbad
  simp only [not_or, not_and_or, not_not] at hbad
  obtain ⟨hip, htcp, hc, hcase⟩ := hbad
  unfold input
  rw [if_neg (not_not.mpr hip), if_neg (not_not.mpr htcp)]
  rintro ⟨⟨hcarries, -⟩ | ⟨hsame, hskb⟩, -⟩
  · exact hc hcarries
  cases hl : h.lookupIn E skb.session with
  | none =>
    -- a block has been put into the input table
    obtain ⟨hpay, ho⟩ := hcase.resolve_left (not_not.mpr hl)
    obtain ⟨h', dcb, g, heq, hlen, -⟩ := (rxInitiationNew_payload (E := E) hs hpay).2 ho
    simp only [hl, hsyn, if_true, heq] at hsame
    rw [hsame.hashIn] at hlen
    omega
  | some q =>
    -- the packet has another length
    simp only [hl, hsyn, hack, if_true, Bool.false_eq_true, if_false] at hskb
    have hlen := fun d => len_insertTag_ne hs h d
    generalize insertTag h (removeSc skb) = x at hlen hskb
    rcases hskb with heq | heq
    · exact hlen _ (congrArg SkBuff.len heq)
    · exact hlen _ ((congrArg SkBuff.len heq).trans rfl)

/-- **A SYN is only treated as carrying a chain when it does** exactly if it carries one and
nothing else, or no block is there or made for it. -/
theorem input_syn_iff (h : Host) (skb : SkBuff) (hsyn : skb.hasSyn = true)
    (hack : skb.hasAck = false) (hs : skb.Sound) :
    SynHandled h skb (input E h skb) ↔ SynHarmless E h skb :=
  ⟨fun hh => by_contra fun hbad => not_synHandled_of_harmful hsyn hack hs hbad hh,
    synHandled_of_harmless hsyn hack hs⟩

/-- A SYN with some bytes behind its header. -/
def synWith (bs : List U8) : SkBuff :=
  { (default : SkBuff) with
    hProto := htons ethPIp
    protocol := ipprotoTcp
    flags := tcphdrSyn
    doff := 5#4
    totLen := htons (BitVec.ofNat 16 (40 + bs.length))
    data := bs }

/-- A session of zeros and a chain of one hop. -/
def oneHopChain : List U8 := List.replicate 12 0#8 ++ [1#8, 0#8, 0#8, 0#8, 10#8, 0#8, 0#8, 1#8]

theorem input_syn_oneHop :
    SynHarmless default Host.fresh (synWith oneHopChain) ∧
      SynHandled Host.fresh (synWith oneHopChain)
        (input default Host.fresh (synWith oneHopChain)) := by
  have hok : SynHarmless default Host.fresh (synWith oneHopChain) :=
    Or.inr (Or.inr (Or.inl (by decide +kernel)))
  have hs : (synWith oneHopChain).Sound := ⟨rfl, by decide, by decide, by decide⟩
  exact ⟨hok, (input_syn_iff Host.fresh (synWith oneHopChain) (by decide) (by decide) hs).mpr hok⟩

/-- A SYN whose chain says that it has one hop, and has none. -/
def shortChainSyn : SkBuff := synWith (oneHopChain.take 16)

/-- It is taken for a SYN with a chain, and cut by four bytes of its TCP header. -/
theorem input_syn_shortChain : shortChainSyn.hasSyn = true ∧ shortChainSyn.hasAck = false ∧
    shortChainSyn.Sound ∧ (removeSc shortChainSyn).len + 4 = shortChainSyn.headerLen ∧
    ¬ SynHandled Host.fresh shortChainSyn (input default Host.fresh shortChainSyn) := by
  have hs : shortChainSyn.Sound := ⟨rfl, by decide, by decide, by decide⟩
  refine ⟨by decide, by decide, hs, by decide +kernel,
    not_synHandled_of_harmful (by decide) (by decide) hs ?_⟩
  rintro (hip | htcp | hc | ⟨-, hpay | hoom⟩)
  · exact hip (by decide)
  · exact htcp rfl
  · exact absurd hc (by decide +kernel)
  · exact absurd hpay (by decide)
  · rcases hoom with ho | ho | ⟨-, ho | ho⟩ <;> cases ho

end Dysco
