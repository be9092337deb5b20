import Dysco.Output

/-! # The input path

What the module does with a TCP packet that arrives at the host: it puts the
five-tuple of the session back in the place of the subsession's and translates
numbers the other way round.  A SYN that carries a service chain is relieved of it,
gets a tag that identifies it when it leaves a middlebox, and has control blocks
made for it.  While a session has two paths, the input path also feeds the
decisions of the output path: an ack can switch data to the new path, and data on the
new path tells where the acks of the old path end.
-/
namespace Dysco
open OnesComplement ByteOrder

variable (E : Env)

/-! ## The service chain of a SYN -/

/-- `struct syn_packet`: the session and the chain behind the header of a SYN. -/
structure SynPacket where
  ss : TcpSession
  sc : ServiceChain
deriving DecidableEq, Repr

/-- Reading a service chain at offset `k`. -/
def readChain (data : List U8) (k : Nat) : ServiceChain where
  pos := load16 data (k + 2)
  hops := (List.range (load16 data k).toNat).map fun i => load32 data (k + 4 + 4 * i)
  short := by
    rw [List.length_map, List.length_range]
    exact (load16 data k).isLt

/-- The `syn_packet` that begins where the TCP header ends, in memory: nothing tests that it lies
inside the packet. -/
def SkBuff.synPacket (skb : SkBuff) : SynPacket where
  ss :=
    { sip := load32 (skb.data ++ skb.behind) skb.optLen
      dip := load32 (skb.data ++ skb.behind) (skb.optLen + 4)
      sport := load16 (skb.data ++ skb.behind) (skb.optLen + 8)
      dport := load16 (skb.data ++ skb.behind) (skb.optLen + 10) }
  sc := readChain (skb.data ++ skb.behind) (skb.optLen + 12)

/-- The size of a session and a chain in a packet. -/
def ServiceChain.pktSize (sc : ServiceChain) : Nat := 12 + (4 + sc.hops.length * 4)

/-- `dysco_remove_sc`: cuts the service chain off. -/
def removeSc (skb : SkBuff) : SkBuff :=
  let scMemsz := skb.synPacket.sc.pktSize
  let kept := if skb.len < scMemsz then skb.len else skb.len - scMemsz
  { skb.trim scMemsz with totLen := htons (BitVec.ofNat 16 kept) }

theorem removeSc_doff (skb : SkBuff) : (removeSc skb).doff = skb.doff := by
  rw [removeSc, SkBuff.trim]
  split <;> rfl

/-- The chain without its first hop, in memory that held `old`. -/
def ServiceChain.rest (sc old : ServiceChain) : ServiceChain where
  pos := old.pos
  hops := sc.hops.tail
  short := Nat.lt_of_le_of_lt (by rw [List.length_tail]; exact Nat.sub_le _ _) sc.short

/-- `dysco_insert_pending`: the output block of a SYN that the middlebox is to emit, in
both pending tables.  Its tag is the zero of a zeroed block. -/
def insertPending (h : Host) (sp : SynPacket) : Bool × Host :=
  match h.kzallocOut with
  | (none, h) => (false, h)
  | (some p, h) =>
    let h := h.setOut p { h.outMem p with super := sp.ss }
    match h.kmalloc with
    | (none, h) => (false, h.kfree p)
    | (some s, h) =>
      let h := h.setSc s (sp.sc.rest (h.scMem s))
      let h := h.setOut p { h.outMem p with sc := some s, freeSc := true }
      let h := h.insertPen E p
      (true, h.insertTag E p)

/-- `dysco_insert_cb_in_reverse`: the output block of the reverse direction. -/
def insertCbInReverse (h : Host) (skb : SkBuff) (sp : SynPacket) : Option Nat × Host :=
  match h.kzallocOut with
  | (none, h) => (none, h)
  | (some p, h) =>
    (some p, h.setOut p
      { h.outMem p with
        super := sp.ss.reverse
        sub := skb.session.reverse
        inIack := ntohl skb.seq
        outIack := ntohl skb.seq
        otherPath := none
        oldPath := false
        validAckCut := false
        useNpSeq := false
        useNpAck := false
        ackCutoff := 0#32
        ackCtr := 0#32
        state := .onePath
        nhMac := skb.hSource })

/-- `dysco_insert_cb_input`: the control blocks of a SYN that arrives with a chain. -/
def insertCbInput (h : Host) (skb : SkBuff) (sp : SynPacket) : Option Nat × Host :=
  match h.kzallocIn with
  | (none, h) => (none, h)
  | (some q, h) =>
    let h := h.setIn q
      { h.inMem q with
        sub := skb.session
        super := sp.ss
        twoPaths := false
        skbIif := skb.skbIif
        seqDelta := 0#32
        ackDelta := 0#32 }
    match insertCbInReverse h skb sp with
    | (none, h) => (none, h.kfree q)
    | (some p, h) =>
      let (ok, h) := if 1 < sp.sc.hops.length then insertPending E h sp else (true, h)
      if ok then
        let h := h.setIn q ((h.inMem q).withDcbOut p)
        let h := h.setOut p ((h.outMem p).withDcbIn (some q))
        let h := h.insertIn E q
        (some q, h.insertOut E p)
      else (none, (h.kfree q).kfree p)

/-! ## Rewriting -/

/-- `dysco_in_hdr_rewrite`: the session's five-tuple, with the checksums from scratch. -/
def inHdrRewrite (skb : SkBuff) (dcb : CbIn) : SkBuff :=
  let skb :=
    { skb with
      daddr := dcb.super.dip
      saddr := dcb.super.sip
      source := dcb.super.sport
      dest := dcb.super.dport }
  let skb := { skb with ipCheck := skb.ipChecksum }
  match skb.ipSummed with
  | .checksumUnnecessary => skb
  -- for Linux containers
  | .checksumPartial => { skb with ipSummed := .checksumUnnecessary }
  | .checksumNone | .checksumComplete => { skb with check := skb.tcpChecksum }

/-- `dysco_in_rewrite_seq`. -/
def inRewriteSeq (skb : SkBuff) (dcb : CbIn) : SkBuff := rewriteSeq skb dcb.seqDelta dcb.seqAdd

/-- `dysco_in_rewrite_ack`. -/
def inRewriteAck (skb : SkBuff) (dcb : CbIn) : SkBuff :=
  rewriteAck skb dcb.ackDelta dcb.ackAdd dcb.sackOk

/-- `dysco_in_rewrite_ts`. -/
def inRewriteTs (skb : SkBuff) (dcb : CbIn) : SkBuff :=
  rewriteTs skb dcb.tsDelta dcb.tsAdd dcb.tsrDelta dcb.tsrAdd

/-- `dysco_in_rewrite_rcv_wnd`. -/
def inRewriteRcvWnd (skb : SkBuff) (dcb : CbIn) : SkBuff :=
  rewriteRcvWnd skb dcb.wsDelta dcb.wsIn dcb.wsOut

/-- The first half of `dysco_in_hdr_rewrite_csum`: the session's five-tuple.  The carry
of the new addresses is taken from the subsession's destination. -/
def inTupleRewriteCsum (skb : SkBuff) (dcb : CbIn) : SkBuff :=
  let old := skb.saddr + skb.daddr
  let old := old + if old < skb.daddr then 1#32 else 0#32
  let new := dcb.super.sip + dcb.super.dip
  let new := new + if new < dcb.sub.dip then 1#32 else 0#32
  let skb := { skb with ipCheck := csumReplace4 skb.ipCheck old new }
  let skb := { skb with saddr := dcb.super.sip, daddr := dcb.super.dip }
  let skb := inetProtoCsumReplace4 skb old new true
  let skb := inetProtoCsumReplace2 skb skb.source dcb.super.sport false
  let skb := { skb with source := dcb.super.sport }
  let skb := inetProtoCsumReplace2 skb skb.dest dcb.super.dport false
  { skb with dest := dcb.super.dport }

/-- The second half: numbers, timestamps and window. -/
def inRewrite (skb : SkBuff) (dcb : CbIn) : SkBuff :=
  let skb := inRewriteSeq skb dcb
  let skb := inRewriteAck skb dcb
  let skb := if dcb.tsOk then inRewriteTs skb dcb else skb
  if dcb.wsOk then inRewriteRcvWnd skb dcb else skb

/-- `dysco_in_hdr_rewrite_csum`. -/
def inHdrRewriteCsum (skb : SkBuff) (dcb : CbIn) : SkBuff :=
  inRewrite (inTupleRewriteCsum skb dcb) dcb

/-! ## SYNs -/

/-- `dysco_rx_initiation_new`: a SYN for which there is no block yet. -/
def rxInitiationNew (h : Host) (skb : SkBuff) : Host × SkBuff × Bool :=
  if skb.doff.toNat * 4 < skb.tcpLen then
    match insertCbInput E h skb skb.synPacket with
    | (none, h) => (h, skb.free, false)
    | (some q, h) =>
      -- the options are read from memory, where the cut of the tail leaves them
      let h := h.setIn q (parseTcpSynOptR skb (h.inMem q))
      let (h, skb) := insertTag h (removeSc skb)
      (h, inHdrRewrite skb (h.inMem q), true)
  else (h, skb, true)

/-- What a SYN+ACK entering the host records in the input block, before its options. -/
def CbIn.synAckIn (dcb : CbIn) (skb : SkBuff) : CbIn :=
  { dcb with
    inIseq := ntohl skb.seq
    outIseq := ntohl skb.seq
    inIack := ntohl skb.ackSeq - 1#32
    outIack := ntohl skb.ackSeq - 1#32
    seqDelta := 0#32
    ackDelta := 0#32 }

/-- What a SYN+ACK entering the host records in the output block of the session. -/
def CbOut.synAckIn (dcb : CbOut) (skb : SkBuff) (dcbIn : CbIn) : CbOut :=
  let dcb :=
    { dcb with
      outIack := ntohl skb.seq
      inIack := ntohl skb.seq
      outIseq := ntohl skb.ackSeq - 1#32
      inIseq := ntohl skb.ackSeq - 1#32 }
  let dcb :=
    if dcbIn.tsOk then
      { dcb with
        tsOk := true
        tsrOut := dcbIn.tsIn
        tsrIn := dcbIn.tsIn
        tsOut := dcbIn.tsrIn
        tsIn := dcbIn.tsrIn
        tsDelta := 0#32
        tsrDelta := 0#32 }
    else dcb
  if dcbIn.sackOk then dcb else { dcb with sackOk := false }

/-- `dysco_set_ack_number_out`: the initial numbers, from a SYN+ACK that arrives. -/
def setAckNumberOut (h : Host) (skb : SkBuff) (q : Nat) : Host :=
  let h := h.setIn q ((h.inMem q).synAckIn skb)
  match h.lookupOut E (h.inMem q).super.reverse with
  | none => h
  | some p =>
    let h := h.setIn q (parseTcpSynOptR skb (h.inMem q))
    h.setOut p ((h.outMem p).synAckIn skb (h.inMem q))

/-! ## Two paths -/

/-- `dysco_in_two_paths_ack`: an ack segment of a session with two paths. -/
def inTwoPathsAck (h : Host) (skb : SkBuff) (q : Nat) : Host :=
  let dcbIn := h.inMem q
  let ackSeq := ntohl skb.ackSeq
  match dcbIn.dcbOut with
  | none => h
  | some p =>
    let dcb := h.outMem p
    if dcb.oldPath then
      if dcb.stateT then
        if dcb.state = .established then h.setIn q (dcbIn.withTwoPaths false) else h
      else if !after dcb.seqCutoff ackSeq then
        (h.setOut p dcb.withUseNpSeq).setIn q (dcbIn.withTwoPaths false)
      else h
    else
      -- received on the new path
      match dcb.otherPath with
      | none => h
      | some old =>
        let dcb := h.outMem old
        if dcb.stateT ∧ dcb.state = .established then
          h.setIn q (dcbIn.withTwoPaths false)
        else if !after dcb.seqCutoff ackSeq then
          (h.setOut old dcb.withUseNpSeq).setIn q (dcbIn.withTwoPaths false)
        else h

/-- The ack cutoff that data starting at `seq`, on a new path with block `newOut`, stands
for on the old path. -/
def CbOut.cutoffOfSeq (newOut : CbOut) (seq : U32) : U32 :=
  if newOut.inIack < newOut.outIack then seq - (newOut.outIack - newOut.inIack)
  else seq + (newOut.inIack - newOut.outIack)

/-- Lowering the provisional ack cutoff of an old-path block to `seq`, or setting it. -/
def CbOut.lowerAckCutoff (old : CbOut) (seq : U32) : CbOut :=
  if old.validAckCut then
    if before seq old.ackCutoff then { old with ackCutoff := seq } else old
  else old.withAckCutoff seq

/-- `dysco_in_two_paths_data_seg`: a data segment of a session with two paths.  The result
is false if a block is missing. -/
def inTwoPathsDataSeg (h : Host) (skb : SkBuff) (q : Nat) : Host × Bool :=
  match (h.inMem q).dcbOut with
  | none => (h, false)
  | some p =>
    let dcb := h.outMem p
    if dcb.oldPath then (h, true)
    else
      match dcb.otherPath with
      | none => (h, false)
      | some old =>
        let oldOut := h.outMem old
        -- data from the other anchor arrived before its control message
        if oldOut.state = .synSent ∨ oldOut.state = .synReceived then
          (h.setOut old (oldOut.lowerAckCutoff (dcb.cutoffOfSeq (ntohl skb.seq))), true)
        else (h, true)

/-- The part of `dysco_input` for a segment that is not a SYN. -/
def inputSegment (h : Host) (skb : SkBuff) (q : Nat) : Host × SkBuff :=
  let (h, ok) :=
    if (h.inMem q).twoPaths then
      if 0#16 < skb.segSz then inTwoPathsDataSeg h skb q else (inTwoPathsAck h skb q, true)
    else (h, true)
  if ok then (h, inHdrRewriteCsum skb (h.inMem q)) else (h, skb)

/-- `dysco_input`, for a TCP packet; the result tells whether the packet is passed on. -/
def input (h : Host) (skb : SkBuff) : Host × SkBuff × Bool :=
  if ntohs skb.hProto ≠ ethPIp then (h, skb, true)
  else if skb.protocol ≠ ipprotoTcp then (h, skb, true)
  else
    match h.lookupIn E skb.session with
    | none => if skb.hasSyn then rxInitiationNew E h skb else (h, skb, true)
    | some q =>
      if skb.hasSyn then
        if skb.hasAck then
          let h := h.setIn q { h.inMem q with skbIif := skb.skbIif }
          let h := setAckNumberOut E h skb q
          (h, inHdrRewriteCsum skb (h.inMem q), true)
        else
          -- a retransmission: only the chain is removed and a tag inserted
          let (h, skb) := insertTag h (removeSc skb)
          (h, inHdrRewrite skb (h.inMem q), true)
      else
        let (h, skb) := inputSegment h skb q
        (h, skb, true)

end Dysco
