import Dysco.TcpOptions

/-! # The output path

What the module does with a TCP packet that leaves the host: it chooses between the
old and the new path of a session that is being reconfigured, translates sequence
and acknowledgment numbers, timestamps and window, and puts the five-tuple of the
subsession in the place of the session's.  A SYN gets the service chain as its
payload and is given its control blocks.
-/
namespace Dysco
open OnesComplement ByteOrder

variable (E : Env)

/-! ## Rewriting -/

/-- The five-tuple of a packet. -/
def SkBuff.session (skb : SkBuff) : TcpSession :=
  { sip := skb.saddr, dip := skb.daddr, sport := skb.source, dport := skb.dest }

/-- `dysco_fix_tcp_ip_csum`: both checksums from scratch. -/
def fixTcpIpCsum (skb : SkBuff) : SkBuff :=
  let skb := { skb with ipCheck := skb.ipChecksum }
  if skb.ipSummed ≠ .checksumPartial then
    { skb with check := skb.tcpChecksum, ipSummed := .checksumUnnecessary }
  else
    { skb with check := ~~~tcpV4Check skb.tcpLen skb.saddr skb.daddr 0#32 }

/-- `dysco_out_hdr_rewrite`: the subsession's five-tuple and the next hop's address,
without checksums. -/
def outHdrRewrite (skb : SkBuff) (dcb : CbOut) : SkBuff :=
  { skb with
    saddr := dcb.sub.sip
    daddr := dcb.sub.dip
    source := dcb.sub.sport
    dest := dcb.sub.dport
    hDest := dcb.nhMac
    hSource := E.devAddr }

/-- `dysco_out_hdr_rewrite_csum`: the subsession's five-tuple, with both checksums
adjusted. -/
def outHdrRewriteCsum (skb : SkBuff) (dcb : CbOut) : SkBuff :=
  let old := skb.saddr + skb.daddr
  let old := old + if old < skb.daddr then 1#32 else 0#32
  let new := dcb.sub.sip + dcb.sub.dip
  let new := new + if new < dcb.sub.dip then 1#32 else 0#32
  let skb := { skb with ipCheck := csumReplace4 skb.ipCheck old new }
  let skb := { skb with saddr := dcb.sub.sip, daddr := dcb.sub.dip }
  let skb := inetProtoCsumReplace4 skb old new true
  let skb := inetProtoCsumReplace2 skb skb.source dcb.sub.sport false
  let skb := { skb with source := dcb.sub.sport }
  let skb := inetProtoCsumReplace2 skb skb.dest dcb.sub.dport false
  let skb := { skb with dest := dcb.sub.dport }
  { skb with hDest := dcb.nhMac, hSource := E.devAddr }

/-- The sequence number translation shared by both directions. -/
def rewriteSeq (skb : SkBuff) (seqDelta : U32) (seqAdd : Bool) : SkBuff :=
  if seqDelta = 0#32 then skb
  else
    let newSeq := htonl (shift seqDelta seqAdd (ntohl skb.seq))
    let skb := dyscoInetProtoCsumReplace4 skb skb.seq newSeq false
    { skb with seq := newSeq }

/-- The acknowledgment number translation shared by both directions. -/
def rewriteAck (skb : SkBuff) (ackDelta : U32) (ackAdd sackOk : Bool) : SkBuff :=
  if ackDelta = 0#32 then skb
  else
    let newAck := htonl (shift ackDelta ackAdd (ntohl skb.ackSeq))
    let skb := if sackOk then tcpSack skb ackDelta ackAdd else skb
    let skb := dyscoInetProtoCsumReplace4 skb skb.ackSeq newAck false
    { skb with ackSeq := newAck }

/-- The window translation shared by both directions. -/
def rewriteRcvWnd (skb : SkBuff) (wsDelta wsIn wsOut : U16) : SkBuff :=
  if wsDelta = 0#16 then skb
  else
    let wnd : U32 := (ntohs skb.window).setWidth 32
    let newWin := htons (((wnd <<< wsIn.toNat) >>> wsOut.toNat).setWidth 16)
    let skb := inetProtoCsumReplace2 skb skb.window newWin false
    { skb with window := newWin }

/-- `dysco_out_rewrite_seq`. -/
def outRewriteSeq (skb : SkBuff) (dcb : CbOut) : SkBuff := rewriteSeq skb dcb.seqDelta dcb.seqAdd

/-- `dysco_out_rewrite_ack`. -/
def outRewriteAck (skb : SkBuff) (dcb : CbOut) : SkBuff :=
  rewriteAck skb dcb.ackDelta dcb.ackAdd dcb.sackOk

/-- `dysco_out_rewrite_ts`. -/
def outRewriteTs (skb : SkBuff) (dcb : CbOut) : SkBuff :=
  rewriteTs skb dcb.tsDelta dcb.tsAdd dcb.tsrDelta dcb.tsrAdd

/-- `dysco_out_rewrite_rcv_wnd`. -/
def outRewriteRcvWnd (skb : SkBuff) (dcb : CbOut) : SkBuff :=
  rewriteRcvWnd skb dcb.wsDelta dcb.wsIn dcb.wsOut

/-! ## Choosing a path -/

/-- `dysco_pick_path_seq`, on a block `p` whose other path is `other`. -/
def pickPathSeq (dcb : CbOut) (p other : Nat) (seq : U32) : Nat :=
  if dcb.stateT then
    if dcb.state = .established then other else p
  else if dcb.useNpSeq then other
  -- not a retransmission of what was sent before the cutoff
  else if !before seq dcb.seqCutoff then other
  else p

/-- `dysco_pick_path_ack`, on a block `p` whose other path is `other`.  An ack that
reaches the cutoff is clamped to it and sent on the old path, twice at most. -/
def pickPathAck (h : Host) (skb : SkBuff) (p other : Nat) : Host × SkBuff × Nat :=
  let dcb := h.outMem p
  let ack := ntohl skb.ackSeq
  if dcb.stateT then
    if dcb.state = .established then (h, skb, other) else (h, skb, p)
  else if dcb.validAckCut then
    if dcb.useNpAck then (h, skb, other)
    else if !after dcb.ackCutoff ack then
      if skb.hasFin then (h, skb, other)
      else
        let ackCutoff := htonl dcb.ackCutoff
        let skb := inetProtoCsumReplace4 skb skb.ackSeq ackCutoff false
        let skb := { skb with ackSeq := ackCutoff }
        let dcb := { dcb with ackCtr := dcb.ackCtr + 1#32 }
        let dcb := if 1#32 < dcb.ackCtr then { dcb with useNpAck := true } else dcb
        (h.setOut p dcb, skb, p)
    else (h, skb, p)
  else (h, skb, p)

/-- The critical section of `dysco_out_translate` for a session with two paths. -/
def pickPath (h : Host) (skb : SkBuff) (p other : Nat) : Host × SkBuff × Nat :=
  let dcb := h.outMem p
  let seq := skb.endSeq
  match dcb.state with
  | .established | .synReceived =>
    if 0#16 < skb.segSz then (h, skb, pickPathSeq dcb p other seq)
    else pickPathAck h skb p other
  | .synSent =>
    -- the left anchor sends data on the old path and moves the cutoff with it
    if 0#16 < skb.segSz then
      (if after seq dcb.seqCutoff then h.setOut p (dcb.withSeqCutoff seq) else h, skb, p)
    else pickPathAck h skb p other
  | .onePath => (h, skb, p)

/-- The translations of `dysco_out_translate` for a session with two paths. -/
def outRewrite (skb : SkBuff) (dcb : CbOut) : SkBuff :=
  let skb := outRewriteSeq skb dcb
  let skb := outRewriteAck skb dcb
  let skb := if dcb.tsOk then outRewriteTs skb dcb else skb
  if dcb.wsOk then outRewriteRcvWnd skb dcb else skb

/-- `dysco_out_translate`.  The last component is the block whose path the packet takes. -/
def outTranslate (h : Host) (skb : SkBuff) (p : Nat) : Host × SkBuff × Nat :=
  let dcb := h.outMem p
  match dcb.otherPath with
  | none =>
    -- one path only: record the highest sequence number sent
    let h :=
      if 0#16 < skb.segSz ∧ after skb.endSeq dcb.seqCutoff then
        h.setOut p (dcb.withSeqCutoff skb.endSeq)
      else h
    (h, outHdrRewriteCsum E skb (h.outMem p), p)
  | some other =>
    let (h, skb, q) := pickPath h skb p other
    (h, outHdrRewriteCsum E (outRewrite skb (h.outMem q)) (h.outMem q), q)

/-- What choosing a path leaves alone in a block. -/
structure CbOut.SamePaths (d d' : CbOut) : Prop where
  state : d'.state = d.state
  otherPath : d'.otherPath = d.otherPath
  oldPath : d'.oldPath = d.oldPath
  stateT : d'.stateT = d.stateT

/-- The block with the cutoff and the ack counts of another one. -/
def CbOut.withMarks (d m : CbOut) : CbOut :=
  { d with seqCutoff := m.seqCutoff, useNpAck := m.useNpAck, ackCtr := m.ackCtr }

/-- Choosing a path writes to the block itself or not at all. -/
theorem pickPathAck_marks (h : Host) (skb : SkBuff) (p other : Nat) :
    ∃ m, (pickPathAck h skb p other).1 = h.setOut p ((h.outMem p).withMarks m) := by
  have hstay : ∃ m, h = h.setOut p ((h.outMem p).withMarks m) :=
    ⟨h.outMem p, by simp [Host.setOut, CbOut.withMarks]⟩
  rw [pickPathAck]
  simp only
  split
  · split <;> exact hstay
  · split
    · split
      · exact hstay
      · split
        · split
          · exact hstay
          · split
            · exact ⟨{ h.outMem p with useNpAck := true, ackCtr := (h.outMem p).ackCtr + 1#32 },
                rfl⟩
            · exact ⟨{ h.outMem p with ackCtr := (h.outMem p).ackCtr + 1#32 }, rfl⟩
        · exact hstay
    · exact hstay

theorem outTranslate_marks (h : Host) (skb : SkBuff) (p : Nat) :
    ∃ m, (outTranslate E h skb p).1 = h.setOut p ((h.outMem p).withMarks m) := by
  have hstay : ∃ m, h = h.setOut p ((h.outMem p).withMarks m) :=
    ⟨h.outMem p, by simp [Host.setOut, CbOut.withMarks]⟩
  have hcut : ∀ seq, ∃ m, h.setOut p ((h.outMem p).withSeqCutoff seq) =
      h.setOut p ((h.outMem p).withMarks m) := fun seq => ⟨(h.outMem p).withSeqCutoff seq, rfl⟩
  rw [outTranslate]
  simp only
  split
  · split
    · exact hcut _
    · exact hstay
  · rename_i other _
    rw [pickPath]
    simp only
    split
    · split
      · exact hstay
      · exact pickPathAck_marks h skb p other
    · split
      · exact hstay
      · exact pickPathAck_marks h skb p other
    · split
      · split
        · exact hcut _
        · exact hstay
      · exact pickPathAck_marks h skb p other
    · exact hstay

theorem outTranslate_writes (h : Host) (skb : SkBuff) (p : Nat) :
    ∃ d, (outTranslate E h skb p).1 = h.setOut p d ∧ (h.outMem p).SamePaths d := by
  obtain ⟨m, hm⟩ := outTranslate_marks E h skb p
  exact ⟨_, hm, rfl, rfl, rfl, rfl⟩

/-! ## Service chains on a SYN -/

/-- The bytes of a session. -/
def TcpSession.bytes (ss : TcpSession) : List U8 :=
  bytes32 ss.sip ++ bytes32 ss.dip ++ bytes16 ss.sport ++ bytes16 ss.dport

/-- The bytes of a service chain. -/
def ServiceChain.bytes (sc : ServiceChain) : List U8 :=
  bytes16 sc.len ++ bytes16 sc.pos ++ sc.hops.flatMap bytes32

/-- `dysco_add_sc`: appends session and service chain to a SYN, if there is room. -/
def addSc (skb : SkBuff) (super : TcpSession) (sc : ServiceChain) : Option SkBuff :=
  let pkt := super.bytes ++ sc.bytes
  if skb.tailroom < pkt.length then none
  else
    let skb := skb.put pkt
    let totLen := skb.totLen
    let skb := { skb with totLen := htons (BitVec.ofNat 16 skb.len) }
    let skb := { skb with ipCheck := csumReplace2 skb.ipCheck totLen skb.totLen }
    if skb.ipSummed ≠ .checksumPartial then
      some { skb with check := csumFold (csumPartial pkt (~~~csumUnfold skb.check)) }
    else some skb

/-- The service chain a block points to; a block without one has the empty chain. -/
def Host.chain (h : Host) (dcb : CbOut) : ServiceChain := dcb.sc.elim default h.scMem

/-- `dysco_out_tx_init`: the SYN with its chain, or nothing if it was dropped. -/
def outTxInit (h : Host) (skb : SkBuff) (dcb : CbOut) : SkBuff × Bool :=
  match addSc skb dcb.super (h.chain dcb) with
  | none => (skb.free, false)
  | some skb => (fixTcpIpCsum skb, true)

/-- `dysco_match_policy`: the chain of the first policy whose filter takes the packet. -/
def matchPolicy (h : Host) (skb : SkBuff) : Option Nat :=
  (h.policies.find? fun dps => dps.filter skb).map Policy.sc

/-- `dysco_arp`: the source address and the next hop's MAC address for a subsession. -/
def arp (tos : U8) (dcb : CbOut) : CbOut :=
  let rt := (E.route tos dcb.sub.dip).getD (0#32, dcb.sub.dip)
  { dcb with sub.sip := rt.1, nhMac := (E.neigh rt.2).getD dcb.nhMac }

/-- `dysco_create_cb_out`: the output block of a session that a policy takes. -/
def createCbOut (h : Host) (skb : SkBuff) (sc : Nat) : Option Nat × Host :=
  match h.kzallocOut with
  | (none, h) => (none, h)
  | (some p, h) =>
    let dcb := { h.outMem p with sc := some sc, super := skb.session }
    match (h.scMem sc).hops with
    | [] => (none, (h.setOut p dcb).kfree p)
    | hop :: _ =>
      let dcb := arp E skb.tos { dcb with sub.dip := hop }
      let (sport, h) := h.allocateLocalPort
      let dcb := { dcb with sub.sport := sport, sub.dport := h.allocateNeighborPort }
      (some p, h.setOut p dcb)

/-- What `dysco_insert_cb_out_reverse` fills in from an output block. -/
def CbOut.reverseIn (dcb : CbOut) (p : Nat) (twoPaths : Bool) : CbIn :=
  { (default : CbIn) with
    sub := dcb.sub.reverse
    super := dcb.super.reverse
    inIack := dcb.outIseq
    outIack := dcb.outIseq
    inIseq := dcb.outIack
    outIseq := dcb.outIack
    tsOk := dcb.tsOk
    tsIn := dcb.tsrIn
    tsOut := dcb.tsrIn
    tsrIn := dcb.tsIn
    tsrOut := dcb.tsIn
    wsOk := dcb.wsOk
    wsIn := dcb.wsIn
    wsOut := dcb.wsIn
    sackOk := dcb.sackOk
    twoPaths := twoPaths
    dcbOut := some p }

/-- `dysco_insert_cb_out_reverse`: the input block of the reverse direction. -/
def insertCbOutReverse (h : Host) (p : Nat) (twoPaths : Bool) : Option Nat × Host :=
  match h.kzallocIn with
  | (none, h) => (none, h)
  | (some q, h) =>
    let dcb := h.outMem p
    let h := h.setIn q (dcb.reverseIn p twoPaths)
    let h := h.setOut p (dcb.withDcbIn (some q))
    (some q, h.insertIn E q)

/-- `dysco_insert_cb_out`. -/
def insertCbOut (h : Host) (p : Nat) (twoPaths : Bool) : Host :=
  let h := h.insertOut E p
  let (q, h) := insertCbOutReverse E h p twoPaths
  h.setOut p ((h.outMem p).withDcbIn q)

/-- `dysco_lookup_pen_tag`, by a search of `dysco_hash_pen_tag`.  The block that receives the
parsed options is not cleared first, so what the options do not set is what was on the stack. -/
def lookupPenTagBy (search : U32 → Option Nat) (h : Host) (skb : SkBuff) : Option Nat × Host :=
  let aux := { E.stackCb with tagOk := false, sub.sip := 0#32, sub.sport := 0#16 }
  let aux := parseTcpSynOptS skb aux
  if aux.tagOk then
    match search aux.dyscoTag with
    | none => (none, h)
    | some p =>
      (some p, h.setOut p
        { h.outMem p with
          wsOk := aux.wsOk
          wsDelta := 0#16
          wsIn := aux.wsIn
          wsOut := aux.wsIn
          tsOk := aux.tsOk
          tsDelta := 0#32
          tsIn := aux.tsIn
          tsOut := aux.tsIn
          sackOk := aux.sackOk
          tagOk := true
          dyscoTag := aux.dyscoTag })
  else (none, h)

/-- `dysco_lookup_pen_tag`: the pending block of the tag in the packet. -/
def lookupPenTag (h : Host) (skb : SkBuff) : Option Nat × Host :=
  lookupPenTagBy E (h.lookupTag E) h skb

/-- `dysco_update_five_tuple`: the middlebox has changed the five-tuple. -/
def updateFiveTuple (h : Host) (skb : SkBuff) (p : Nat) : Host :=
  h.setOut p { h.outMem p with super := skb.session }

/-- `dysco_out_handle_mb`: a pending SYN leaves the middlebox. -/
def outHandleMb (h : Host) (skb : SkBuff) (p : Nat) : Host × SkBuff :=
  let h := h.removePen E p
  let h := h.removeTag E p
  let dcb := h.outMem p
  let dcb :=
    match (h.chain dcb).hops with
    | [] => dcb
    | hop :: _ => arp E skb.tos { dcb with sub.dip := hop }
  let (sport, h) := h.allocateLocalPort
  let dcb := { dcb with sub.sport := sport, sub.dport := h.allocateNeighborPort }
  let dcb := { dcb with outIseq := ntohl skb.seq, inIseq := ntohl skb.seq }
  let dcb := parseTcpSynOptS skb dcb
  let h := h.setOut p dcb
  let h := insertCbOut E h p false
  let dcb := h.outMem p
  let skb := outHdrRewrite E skb dcb
  let skb := if dcb.tagOk then removeTag skb else skb
  -- the result of adding the chain is not looked at
  let skb := (addSc skb dcb.super (h.chain dcb)).getD skb
  (h, fixTcpIpCsum skb)

/-- What a SYN+ACK leaving the host records in the output block. -/
def CbOut.synAckOut (dcb : CbOut) (skb : SkBuff) : CbOut :=
  { dcb with
    inIseq := ntohl skb.seq
    outIseq := ntohl skb.seq
    inIack := ntohl skb.ackSeq - 1#32
    outIack := ntohl skb.ackSeq - 1#32 }

/-- What a SYN+ACK leaving the host records in the input block of the session. -/
def CbIn.synAckOut (aux : CbIn) (dcb : CbOut) : CbIn :=
  let aux :=
    { aux with
      inIseq := dcb.outIack
      outIseq := dcb.outIack
      inIack := dcb.outIseq
      outIack := dcb.outIseq
      seqDelta := 0#32
      ackDelta := 0#32 }
  let aux :=
    if dcb.tsOk then
      { aux with
        tsOk := true
        tsIn := dcb.tsrOut
        tsOut := dcb.tsrOut
        tsrIn := dcb.tsOut
        tsrOut := dcb.tsOut
        tsDelta := 0#32
        tsrDelta := 0#32 }
    else { aux with tsOk := false }
  -- the server side does not accept the sack option
  if dcb.sackOk then aux else { aux with sackOk := false }

/-- `dysco_out_syn`, once the session has an output block. -/
def outSynWith (h : Host) (skb : SkBuff) (p : Nat) : Host × SkBuff × Bool :=
  let dcb := { h.outMem p with seqCutoff := ntohl skb.seq }
  let dcb := parseTcpSynOptS skb dcb
  let h := h.setOut p dcb
  if skb.hasAck then
    match h.lookupIn E dcb.sub.reverse with
    | none => (h, skb, true)
    | some q =>
      let dcb := dcb.synAckOut skb
      let h := h.setOut p dcb
      let h := h.setIn q ((h.inMem q).synAckOut dcb)
      (h, outHdrRewriteCsum E skb dcb, true)
  else
    -- a block whose first four bytes of the MAC address are zero has no next hop yet
    let dcb := if (dcb.nhMac.setWidth 32 : U32) = 0#32 then arp E skb.tos dcb else dcb
    let h := h.setOut p dcb
    let skb := outHdrRewrite E skb dcb
    let (skb, sent) := outTxInit h skb dcb
    (h, skb, sent)

/-- `dysco_out_syn`. -/
def outSyn (h : Host) (skb : SkBuff) (dcbOut : Option Nat) : Host × SkBuff × Bool :=
  match dcbOut with
  | some p => outSynWith E h skb p
  | none =>
    match matchPolicy h skb with
    | none => (h, skb, true)
    | some sc =>
      match createCbOut E h skb sc with
      | (none, h) => (h, skb, true)
      | (some p, h) => outSynWith E (insertCbOut E h p false) skb p

/-! ## The receive window of spliced sockets -/

def maxWndRec : U32 := 16384#32

/-- `dysco_fix_rcv_window`: throttles the sender while two sockets are spliced.  What the
function first computes from `other_tp->snd_wnd` is overwritten in both branches at
its end. -/
def fixRcvWindow (skb : SkBuff) (myTp otherTp : TcpSock) : SkBuff :=
  if skb.window = 0#16 then skb
  else
    let wscale := myTp.rcvWscale
    let oldWnd : U32 := (ntohs skb.window).setWidth 32 <<< wscale.toNat
    let rcvBuf :=
      if myTp.copiedSeq ≤ myTp.rcvNxt then myTp.rcvNxt - myTp.copiedSeq
      -- the constant added is 2 ^ 32
      else myTp.rcvNxt - otherTp.copiedSeq
    let newWnd :=
      if maxWndRec < rcvBuf then 0#32
      else if oldWnd < maxWndRec then oldWnd
      else maxWndRec
    let newWin := htons ((newWnd >>> wscale.toNat).setWidth 16)
    let skb := inetProtoCsumReplace2 skb skb.window newWin false
    { skb with window := newWin }

/-! ## The output hook -/

/-- The rest of `dysco_output`, for a session with an output block. -/
def outputWith (h : Host) (skb : SkBuff) (p : Nat) : Host × SkBuff × Bool :=
  if skb.hasSyn then outSyn E h skb (some p)
  else
    let dcb := h.outMem p
    let skb :=
      match dcb.myTp, dcb.otherTp with
      | some my, some other =>
        if skb.hasAck && !dcb.stateT then
          fixRcvWindow skb (h.sockMem my) (h.sockMem other)
        else skb
      | _, _ => skb
    let (h, skb, _) := outTranslate E h skb p
    (h, skb, true)

/-- `dysco_output`, for a TCP packet, by a search of each table of output blocks; the result
tells whether the packet is sent on. -/
def outputBy (out pen : TcpSession → Option Nat) (tag : U32 → Option Nat) (h : Host)
    (skb : SkBuff) : Host × SkBuff × Bool :=
  if ntohs skb.hProto ≠ ethPIp then (h, skb, true)
  else if skb.protocol ≠ ipprotoTcp then (h, skb, true)
  else
    match out skb.session with
    | some p => outputWith E h skb p
    | none =>
      match pen skb.session with
      | some p =>
        let (h, skb) := outHandleMb E h skb p
        (h, skb, true)
      | none =>
        match lookupPenTagBy E tag h skb with
        | (some p, h) =>
          -- the middlebox changed the five-tuple
          let (h, skb) := outHandleMb E (updateFiveTuple h skb p) skb p
          (h, skb, true)
        | (none, h) => if skb.hasSyn then outSyn E h skb none else (h, skb, true)

/-- `dysco_output`, for a TCP packet. -/
def output (h : Host) (skb : SkBuff) : Host × SkBuff × Bool :=
  outputBy E (h.lookupOut E) (h.lookupPen E) (h.lookupTag E) h skb

theorem output_unfold (h : Host) (skb : SkBuff) : output E h skb =
    if ntohs skb.hProto ≠ ethPIp then (h, skb, true)
    else if skb.protocol ≠ ipprotoTcp then (h, skb, true)
    else
      match h.lookupOut E skb.session with
      | some p => outputWith E h skb p
      | none =>
        match h.lookupPen E skb.session with
        | some p =>
          let (h, skb) := outHandleMb E h skb p
          (h, skb, true)
        | none =>
          match lookupPenTag E h skb with
          | (some p, h) =>
            let (h, skb) := outHandleMb E (updateFiveTuple h skb p) skb p
            (h, skb, true)
          | (none, h) => if skb.hasSyn then outSyn E h skb none else (h, skb, true) := by
  simp only [output, outputBy, lookupPenTag]

end Dysco
