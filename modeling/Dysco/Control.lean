import Dysco.Input

/-! # Reconfiguration control messages

A session is reconfigured by UDP messages between two anchors.  The *left* anchor
sends `DYSCO_SYN`; the *right* anchor answers with `DYSCO_SYN_ACK`, and the left anchor
with `DYSCO_ACK`.  The daemons build and resend the messages; the module looks at them
when they enter and when they leave a host, fills in what only it knows and keeps
the control blocks of the old and the new path.

At each anchor the output block of the old path carries the state of the
reconfiguration; the block of the new path is reached from it (`otherPath`), and
conversely.
-/
namespace Dysco
open OnesComplement ByteOrder

variable (E : Env)

/-- The message types the module tells apart. -/
inductive MessageType where
  | syn
  | synAck
  | ack
  | fin
  | stateTransferred
  | ackAck
  | unknown (code : U16)
deriving DecidableEq, Repr, Inhabited

/-- The number of a message type in the enumeration of the header file. -/
def MessageType.code : MessageType → U16
  | syn => 4#16
  | synAck => 5#16
  | ack => 6#16
  | fin => 7#16
  | stateTransferred => 17#16
  | ackAck => 18#16
  | unknown code => code

/-- `struct control_message`.  Numbers are in network order. -/
structure ControlMessage where
  mtype : MessageType
  super : TcpSession
  leftSS : TcpSession
  rightSS : TcpSession
  leftA : U32
  rightA : U32
  sport : U16
  dport : U16
  leftIseq : U32
  leftIack : U32
  rightIseq : U32
  rightIack : U32
  seqCutoff : U32
  leftIts : U32
  leftItsr : U32
  leftIws : U16
  leftIwsr : U16
  sackOk : U16
  semantic : U16
  srcMB : U32
  dstMB : U32
deriving DecidableEq, Repr, Inhabited

/-- The bytes of a control message. -/
def ControlMessage.bytes (m : ControlMessage) : List U8 :=
  bytes16 m.mtype.code ++ m.super.bytes ++ m.leftSS.bytes ++ m.rightSS.bytes ++
  bytes32 m.leftA ++ bytes32 m.rightA ++ bytes16 m.sport ++ bytes16 m.dport ++
  bytes32 m.leftIseq ++ bytes32 m.leftIack ++ bytes32 m.rightIseq ++ bytes32 m.rightIack ++
  bytes32 m.seqCutoff ++ bytes32 m.leftIts ++ bytes32 m.leftItsr ++ bytes16 m.leftIws ++
  bytes16 m.leftIwsr ++ bytes16 m.sackOk ++ bytes16 m.semantic ++ bytes32 m.srcMB ++
  bytes32 m.dstMB

/-- A UDP packet with a control message behind the nine bytes of the reliable-UDP
header. -/
structure ControlPacket where
  hDest : Mac
  hSource : Mac
  tos : U8
  saddr : U32
  daddr : U32
  source : U16
  dest : U16
  udpLen : U16
  check : U16
  rudp : List U8
  msg : ControlMessage
  /-- What follows the message: its service chain. -/
  rest : List U8
  ipSummed : IpSummed
  csum : U32
  csumValid : Bool
  skbIif : U32
deriving DecidableEq, Repr, Inhabited

/-- The semantic of a reconfiguration with state transfer. -/
def stateTransfer : U16 := 1#16

def ControlMessage.WithState (m : ControlMessage) : Prop := ntohs m.semantic = stateTransfer

instance (m : ControlMessage) : Decidable m.WithState := inferInstanceAs (Decidable (_ = _))

def dyscoControlPort : U16 := htons 2016#16
def dyscoMgmPort : U16 := htons 2017#16

/-- UDP header, reliable-UDP header and a control message. -/
def controlMinLen : Nat := 8 + 9 + 94

/-- `dysco_fix_udp_checksum`. -/
def fixUdpChecksum (pkt : ControlPacket) : ControlPacket :=
  let udpLen := (ntohs pkt.udpLen).toNat
  let udp :=
    bytes16 pkt.source ++ bytes16 pkt.dest ++ bytes16 pkt.udpLen ++ bytes16 0#16 ++ pkt.rudp ++
    pkt.msg.bytes ++ pkt.rest
  { pkt with
    check :=
      csumFold (csumPartial (udp.take udpLen)
        (csumTcpudpNofold pkt.saddr pkt.daddr udpLen ipprotoUdp 0#32))
    ipSummed := .checksumUnnecessary }

/-! ## Messages that enter a host -/

/-- What a `DYSCO_SYN` that arrives puts into a reconfiguration block.  The other fields
keep what was in memory. -/
def CbReconfig.ofSynIn (rcb : CbReconfig) (pkt : ControlPacket) : CbReconfig :=
  let m := pkt.msg
  { rcb with
    super := m.super
    leftSS := m.leftSS
    rightSS := m.rightSS
    subIn := { sip := pkt.saddr, dip := pkt.daddr, sport := m.sport, dport := m.dport }
    subOut := { rcb.subOut with sip := 0#32 }
    leftIseq := ntohl m.leftIseq
    leftIack := ntohl m.leftIack
    leftIts := ntohl m.leftIts
    leftItsr := ntohl m.leftItsr
    leftIws := ntohs m.leftIws
    leftIwsr := ntohs m.leftIwsr
    sackOk := (ntohs m.sackOk).setWidth 8 }

/-- `dysco_insert_rcb_control_input`: the reconfiguration block of a `DYSCO_SYN` that
arrives. -/
def insertRcbControlInput (h : Host) (pkt : ControlPacket) : Option Nat × Host :=
  match h.kmalloc with
  | (none, h) => (none, h)
  | (some r, h) => (some r, (h.setRcb r ((h.rcbMem r).ofSynIn pkt)).insertReconfig E r)

/-- The output block of the new path's reverse direction. -/
def CbReconfig.reverseOut (rcb : CbReconfig) (pkt : ControlPacket) : CbOut :=
  { (default : CbOut) with
    super := rcb.super.reverse
    sub := { sip := pkt.daddr, dip := pkt.saddr,
             sport := rcb.subIn.dport, dport := rcb.subIn.sport }
    outIseq := rcb.leftIack
    inIseq := rcb.leftIack
    outIack := rcb.leftIseq
    inIack := rcb.leftIseq
    nhMac := pkt.hSource }

/-- `dysco_build_cb_in_reverse`: makes that block. -/
def buildCbInReverse (h : Host) (pkt : ControlPacket) (rcb : CbReconfig) : Option Nat × Host :=
  match h.kzallocOut with
  | (none, h) => (none, h)
  | (some p, h) => (some p, h.setOut p (rcb.reverseOut pkt))

/-- The input mapping of the new path, in memory that held `dcb`. -/
def CbReconfig.newPathIn (rcb : CbReconfig) (dcb : CbIn) (skbIif : U32) : CbIn :=
  { dcb with
    sub := rcb.subIn
    inIseq := rcb.leftIseq
    inIack := rcb.leftIack
    twoPaths := false
    skbIif := skbIif }

/-- The unsigned distance between two numbers. -/
def distance {w : Nat} (a b : BitVec w) : BitVec w := if a < b then b - a else a - b

/-- `dysco_compute_deltas_out`: the translation of the new path's output block, which
receives the numbers of the old path. -/
def computeDeltasOut (dcb old : CbOut) (rcb : CbReconfig) : CbOut :=
  let dcb := { dcb with inIseq := old.inIseq, inIack := old.inIack }
  let dcb :=
    { dcb with
      seqDelta := distance dcb.inIseq dcb.outIseq
      seqAdd := decide (dcb.inIseq < dcb.outIseq)
      ackDelta := distance dcb.inIack dcb.outIack
      ackAdd := decide (dcb.inIack < dcb.outIack) }
  let dcb :=
    if rcb.leftIts ≠ 0#32 then
      { dcb with
        tsOk := true
        tsIn := old.tsIn
        tsOut := rcb.leftItsr
        tsDelta := distance old.tsIn rcb.leftItsr
        tsAdd := decide (old.tsIn < rcb.leftItsr)
        tsrIn := old.tsrIn
        tsrOut := rcb.leftIts
        tsrDelta := distance old.tsrIn rcb.leftIts
        tsrAdd := decide (old.tsrIn < rcb.leftIts) }
    else dcb
  let dcb :=
    if rcb.leftIwsr ≠ 0#16 then
      { dcb with
        wsOk := true
        wsIn := old.wsIn
        wsOut := rcb.leftIwsr
        wsDelta := distance old.wsIn rcb.leftIwsr }
    else { dcb with wsOk := false }
  { dcb with sackOk := rcb.sackOk.getLsbD 0 }

/-- `dysco_compute_deltas_in`: the translation of the new path's input block, back to the
numbers of the old path.  `oldIn` is the input block of the old path. -/
def computeDeltasIn (dcb : CbIn) (old : CbOut) (oldIn : CbIn) (rcb : CbReconfig) : CbIn :=
  let dcb := { dcb with outIseq := old.inIack, outIack := old.inIseq }
  let dcb :=
    { dcb with
      seqDelta := distance dcb.inIseq dcb.outIseq
      seqAdd := decide (dcb.inIseq < dcb.outIseq)
      ackDelta := distance dcb.inIack dcb.outIack
      ackAdd := decide (dcb.inIack < dcb.outIack) }
  let dcb :=
    if rcb.leftIts ≠ 0#32 then
      { dcb with
        tsOk := true
        tsIn := rcb.leftIts
        tsOut := oldIn.tsOut
        tsDelta := distance rcb.leftIts oldIn.tsOut
        tsAdd := decide (rcb.leftIts < oldIn.tsOut)
        tsrIn := rcb.leftItsr
        tsrOut := oldIn.tsrOut
        tsrDelta := distance rcb.leftItsr oldIn.tsrOut
        tsrAdd := decide (rcb.leftItsr < oldIn.tsrOut) }
    else { dcb with tsOk := false }
  let dcb :=
    if rcb.leftIws ≠ 0#16 then
      { dcb with
        wsOk := true
        wsIn := rcb.leftIws
        wsOut := old.wsIn
        wsDelta := distance rcb.leftIws old.wsIn }
    else { dcb with wsOk := false }
  { dcb with sackOk := rcb.sackOk.getLsbD 0 }

/-- The input block a block points to.  The code follows the pointer without a check; a block that
has none reads as the default block here. -/
def Host.inOf (h : Host) (dcb : CbOut) : CbIn := dcb.dcbIn.elim default h.inMem

/-- `dysco_control_config_rightA`: what a `DYSCO_SYN` does at the right anchor, for the
blocks `q` and `p` of the new path. -/
def controlConfigRightA (h : Host) (r : Nat) (m : ControlMessage) (q p : Nat) : Bool × Host :=
  match h.lookupOut E m.rightSS.reverse with
  | none => (false, (h.kfree q).removeReconfig E r)
  | some old =>
    let rcb := h.rcbMem r
    let oldOut := h.outMem old
    let dcbIn := (h.inMem q).withSuper m.rightSS
    let dcbIn := computeDeltasIn dcbIn oldOut (h.inOf oldOut) rcb
    let h := h.setIn q (dcbIn.withTwoPaths true)
    let dcbOut := computeDeltasOut (h.outMem p) oldOut rcb
    let h := h.setRcb r { rcb with oldDcb := some old, newDcb := some p }
    let h := h.setOut p (dcbOut.withOtherPath old)
    if m.WithState then (true, h.setOut old (h.outMem old).withStateT) else (true, h)

/-- The blocks of the new path at a host that is not the right anchor: nothing is
translated. -/
def controlConfigMiddle (h : Host) (r q p : Nat) : Host :=
  let rcb := h.rcbMem r
  let dcbIn := h.inMem q
  let dcbIn :=
    { dcbIn with
      super := rcb.super
      outIseq := rcb.leftIseq
      outIack := rcb.leftIack
      seqDelta := 0#32
      ackDelta := 0#32 }
  -- zero means that the option was not in the SYN
  let dcbIn :=
    if rcb.leftIts ≠ 0#32 then
      { dcbIn with tsIn := rcb.leftIts, tsOut := rcb.leftIts, tsDelta := 0#32, tsOk := true }
    else { dcbIn with tsOk := false }
  let dcbIn :=
    if rcb.leftIws ≠ 0#16 then
      { dcbIn with wsIn := rcb.leftIws, wsOut := rcb.leftIws, wsDelta := 0#16, wsOk := true }
    else { dcbIn with wsOk := false }
  let h := h.setIn q { dcbIn with sackOk := rcb.sackOk.getLsbD 0 }
  let h := h.setOut p { h.outMem p with sackOk := rcb.sackOk.getLsbD 0 }
  h.insertOut E p

/-- `dysco_control_reconfig_in`: the blocks of the new path for a `DYSCO_SYN` that arrives. -/
def controlReconfigIn (h : Host) (pkt : ControlPacket) (r : Nat) : Bool × Host :=
  match h.kmalloc with
  | (none, h) => (false, h.removeReconfig E r)
  | (some q, h) =>
    let rcb := h.rcbMem r
    let h := h.setIn q (rcb.newPathIn (h.inMem q) pkt.skbIif)
    match buildCbInReverse h pkt rcb with
    | (none, h) => (false, (h.kfree q).removeReconfig E r)
    | (some p, h) =>
      let h := h.setOut p ((h.outMem p).withDcbIn (some q))
      let h := h.setIn q ((h.inMem q).withDcbOut p)
      if pkt.daddr = pkt.msg.rightA then
        match controlConfigRightA E h r pkt.msg q p with
        | (false, h) => (false, h)
        | (true, h) => (true, h.insertIn E q)
      else (true, (controlConfigMiddle E h r q p).insertIn E q)

/-- `dysco_replace_cb_leftA`: the left anchor's switch to the new path.  A block that is
not in `DYSCO_SYN_SENT` has switched before. -/
def replaceCbLeftA (h : Host) (pkt : ControlPacket) (r : Nat) : Host × ControlPacket :=
  let rcb := h.rcbMem r
  match rcb.oldDcb with
  | none => (h, pkt)
  | some old =>
    let dcb := h.outMem old
    let dcb := if dcb.state = .synSent then dcb.withState .established else dcb
    let h := h.setOut old dcb
    let pkt := fixUdpChecksum { pkt with msg.seqCutoff := htonl dcb.seqCutoff }
    (h.setRcb r { rcb with recDone := true }, pkt)

/-- What a `DYSCO_SYN` does when it enters a host. -/
def synIn (h : Host) (pkt : ControlPacket) : Bool × Host :=
  match h.lookupReconfig E pkt.msg.super with
  | some _ => (true, h)
  | none =>
    match insertRcbControlInput E h pkt with
    | (none, h) => (false, h)
    | (some r, h) => controlReconfigIn E h pkt r

/-- What is done to a control packet on the common way out of the handlers: its checksum
counts as verified.  The handlers leave early in some cases. -/
def ControlPacket.verified (pkt : ControlPacket) : ControlPacket :=
  { pkt with csum := 0#32, csumValid := true, ipSummed := .checksumUnnecessary }

/-- What a `DYSCO_SYN_ACK` does when it enters a host. -/
def synAckIn (h : Host) (pkt : ControlPacket) : Host × ControlPacket :=
  if pkt.daddr = pkt.msg.leftA then
    match h.lookupOut E pkt.msg.leftSS with
    | none => (h, pkt)
    | some p =>
      let dcb := h.outMem p
      -- a block that is established has seen the message before
      if dcb.state = .established then (h, pkt.verified)
      else
        (h.setOut p (dcb.withAckCutoff (ntohl pkt.msg.seqCutoff)), pkt.verified)
  else (h, pkt.verified)

/-- What a `DYSCO_ACK` does when it enters a host: the right anchor switches to the new
path. -/
def ackIn (h : Host) (pkt : ControlPacket) : Host × ControlPacket :=
  match h.lookupReconfig E pkt.msg.super with
  | none => (h, pkt.verified)
  | some r =>
    if pkt.msg.rightA = pkt.daddr then
      match (h.rcbMem r).oldDcb with
      | none => (h, pkt.verified)
      | some old =>
        let dcb := h.outMem old
        match dcb.otherPath with
        | none => (h, pkt.verified)
        | some new =>
          if dcb.state = .established then (h, pkt)
          else if dcb.stateT then (h, pkt.verified)
          else
            let ackCutoff := (h.outMem new).cutoffOfSeq (ntohl pkt.msg.seqCutoff)
            (h.setOut old ((dcb.withAckCutoff ackCutoff).withState .established), pkt.verified)
    else (h, pkt.verified)

/-- What a `DYSCO_STATE_TRANSFERRED` does when it enters a host. -/
def stateTransferredIn (h : Host) (pkt : ControlPacket) : Host × ControlPacket :=
  match h.lookupReconfig E pkt.msg.super with
  | none => (h, pkt)
  | some r =>
    if pkt.daddr = pkt.msg.leftA then
      let (h, pkt) := replaceCbLeftA h pkt r
      (h, pkt.verified)
    else if pkt.daddr = pkt.msg.rightA then
      match (h.rcbMem r).oldDcb with
      | none => (h, pkt.verified)
      | some old => (h.setOut old ((h.outMem old).withState .established), pkt.verified)
    else (h, pkt.verified)

/-- `dysco_control_input`; the result tells whether the message was handled. -/
def controlInput (h : Host) (pkt : ControlPacket) : Host × ControlPacket × Bool :=
  if ¬ (pkt.dest = dyscoControlPort ∨ pkt.source = dyscoControlPort) then (h, pkt, true)
  else if (ntohs pkt.udpLen).toNat < controlMinLen then (h, pkt, true)
  else
    match pkt.msg.mtype with
    | .syn =>
      let (ok, h) := synIn E h pkt
      (h, pkt, ok)
    | .synAck =>
      let (h, pkt) := synAckIn E h pkt
      (h, pkt, true)
    | .ack =>
      let (h, pkt) := ackIn E h pkt
      (h, pkt, true)
    | .stateTransferred =>
      let (h, pkt) := stateTransferredIn E h pkt
      (h, pkt, true)
    | .fin | .ackAck | .unknown _ => (h, pkt.verified, true)

/-! ## Messages that leave a host -/

/-- `dysco_insert_cb_control`: the reconfiguration block of a `DYSCO_SYN` that leaves, with
ports for the subsession.  It is filed under the left session. -/
def insertCbControl (h : Host) (pkt : ControlPacket) : Option Nat × Host × ControlPacket :=
  match h.kmalloc with
  | (none, h) => (none, h, pkt)
  | (some r, h) =>
    let m := pkt.msg
    let (sport, h) := h.allocateLocalPort
    let dport := h.allocateNeighborPort
    let rcb :=
      { h.rcbMem r with
        recDone := false
        super := m.leftSS
        subOut := { sip := pkt.saddr, dip := pkt.daddr, sport := sport, dport := dport }
        leftIseq := ntohl m.leftIseq
        leftIack := ntohl m.leftIack
        leftIts := ntohl m.leftIts
        leftItsr := ntohl m.leftItsr
        leftIws := ntohs m.leftIws
        leftIwsr := ntohs m.leftIwsr
        sackOk := (ntohs m.sackOk).setWidth 8
        nhMac := pkt.hDest }
    let pkt := fixUdpChecksum { pkt with msg.sport := sport, msg.dport := dport }
    (some r, (h.setRcb r rcb).insertReconfig E r, pkt)

/-- `dysco_control_insert_out`: the blocks of the new path at a host that is neither
anchor. -/
def controlInsertOut (h : Host) (pkt : ControlPacket) (r : Nat) : Host :=
  match h.kzallocOut with
  | (none, h) => h
  | (some p, h) =>
    let rcb := h.rcbMem r
    let dcb :=
      { h.outMem p with
        super := rcb.super
        sub := rcb.subOut
        outIseq := rcb.leftIseq
        inIseq := rcb.leftIseq
        outIack := rcb.leftIack
        inIack := rcb.leftIack
        tsOut := rcb.leftIts
        tsIn := rcb.leftIts
        tsrOut := rcb.leftItsr
        tsrIn := rcb.leftItsr
        wsOut := rcb.leftIws
        wsIn := rcb.leftIws
        sackOk := rcb.sackOk.getLsbD 0
        nhMac := rcb.nhMac }
    let h := h.setOut p (arp E pkt.tos dcb)
    let h := insertCbOut E h p false
    let dcb := h.outMem p
    match dcb.dcbIn with
    | none => h
    | some q =>
      h.setIn q
        { h.inMem q with
          tsIn := dcb.tsrOut
          tsOut := dcb.tsrOut
          tsrIn := dcb.tsOut
          tsrOut := dcb.tsOut }

/-- `dysco_replace_cb_rightA`: the right anchor begins to use the new path and announces
its sequence number cutoff, in the numbers of the new path. -/
def replaceCbRightA (h : Host) (pkt : ControlPacket) : Host × ControlPacket :=
  match h.lookupReconfig E pkt.msg.super with
  | none => (h, pkt)
  | some r =>
    match (h.rcbMem r).oldDcb, (h.rcbMem r).newDcb with
    | some old, some new =>
      let oldOut := h.outMem old
      let h := h.setOut old ((oldOut.withOldPath.withState .synReceived).withOtherPath new)
      let newOut := h.outMem new
      let seqCutoff := shift newOut.seqDelta newOut.seqAdd oldOut.seqCutoff
      (h, fixUdpChecksum { pkt with msg.seqCutoff := htonl seqCutoff })
    | _, _ => (h, pkt)

/-- The block of the new path at the left anchor, before its next hop is known. -/
def CbReconfig.newLeft (rcb : CbReconfig) : CbOut :=
  { (default : CbOut) with
    super := rcb.super
    sub := rcb.subOut
    outIseq := rcb.leftIseq
    inIseq := rcb.leftIseq
    outIack := rcb.leftIack
    inIack := rcb.leftIack
    tsOut := rcb.leftIts
    tsIn := rcb.leftIts
    tsrOut := rcb.leftItsr
    tsrIn := rcb.leftItsr
    wsOut := rcb.leftIws
    wsIn := rcb.leftIws
    tsOk := decide (rcb.leftIts ≠ 0#32)
    wsOk := decide (rcb.leftIws ≠ 0#16)
    sackOk := rcb.sackOk.getLsbD 0
    nhMac := rcb.nhMac }

/-- What a `DYSCO_SYN` tells the right anchor about the left session. -/
def ControlPacket.announce (pkt : ControlPacket) (old : CbOut) (oldIn : CbIn) : ControlPacket :=
  { pkt with
    msg.leftIseq := htonl old.inIseq
    msg.leftIack := htonl old.inIack
    msg.leftIts := htonl old.tsIn
    msg.leftItsr := htonl old.tsrIn
    msg.leftIws := htons old.wsIn
    msg.leftIwsr := htons oldIn.wsIn
    msg.sackOk := htons ((BitVec.ofBool old.sackOk).setWidth 16) }

/-- What a `DYSCO_SYN` that is sent again tells the right anchor. -/
def ControlPacket.announceAgain (pkt : ControlPacket) (rcb : CbReconfig) : ControlPacket :=
  fixUdpChecksum
    { pkt with
      msg.leftIseq := htonl rcb.leftIseq
      msg.leftIack := htonl rcb.leftIack
      msg.leftIts := htonl rcb.leftIts
      msg.leftItsr := htonl rcb.leftItsr
      msg.leftIws := htons rcb.leftIws
      msg.leftIwsr := htons rcb.leftIwsr
      msg.sackOk := htons (rcb.sackOk.setWidth 16)
      msg.sport := rcb.subOut.sport
      msg.dport := rcb.subOut.dport }

/-- The left anchor enters the reconfiguration: block `r` has been made for it, `old` is
the block of the old path.  The code takes that block's input block to be there; where it is not,
nothing is written here. -/
def startLeftA (h : Host) (pkt : ControlPacket) (r old : Nat) : Bool × Host :=
  match h.kzallocOut with
  | (none, h) => (false, h)
  | (some p, h) =>
    let h := h.setRcb r { h.rcbMem r with oldDcb := some old }
    let dcb := arp E pkt.tos (h.rcbMem r).newLeft
    let h := h.setOut p (dcb.withOtherPath old)
    let (q, h) := insertCbOutReverse E h p true
    let h := h.setOut p ((h.outMem p).withDcbIn q)
    let h := h.setOut old (h.outMem old).withOldPath
    let h := if pkt.msg.WithState then h.setOut old (h.outMem old).withStateT else h
    let h :=
      match (h.outMem old).dcbIn with
      | none => h
      | some oldIn => h.setIn oldIn ((h.inMem oldIn).withTwoPaths true)
    (true, h.setOut old (((h.outMem old).withState .synSent).withOtherPath p))

/-- `dysco_control_output_syn`. -/
def controlOutputSyn (h : Host) (pkt : ControlPacket) : Bool × Host × ControlPacket :=
  let rcb := h.lookupReconfig E pkt.msg.super
  if pkt.saddr = pkt.msg.leftA then
    match rcb with
    | some r => (true, h, pkt.announceAgain (h.rcbMem r))
    | none =>
      match h.lookupOut E pkt.msg.leftSS with
      | none => (false, h, pkt)
      | some old =>
        let pkt := pkt.announce (h.outMem old) (h.inOf (h.outMem old))
        match insertCbControl E h pkt with
        | (none, h, pkt) => (false, h, pkt)
        | (some r, h, pkt) =>
          let (ok, h) := startLeftA E h pkt r old
          (ok, h, pkt)
  else
    let again := rcb.elim false fun r => decide ((h.rcbMem r).subOut.sip ≠ 0#32)
    if again then (true, h, pkt)
    else
      match insertCbControl E h pkt with
      | (none, h, pkt) => (false, h, pkt)
      | (some r, h, pkt) => (true, controlInsertOut E h pkt r, pkt)

/-- What a `DYSCO_ACK` does when it leaves a host. -/
def ackOut (h : Host) (pkt : ControlPacket) : Host × ControlPacket :=
  match h.lookupReconfig E pkt.msg.super with
  | none => (h, pkt)
  | some r =>
    if pkt.msg.WithState then (h, pkt)
    else if pkt.saddr = pkt.msg.leftA then
      match (h.rcbMem r).oldDcb with
      | none => (h, pkt)
      | some old => if (h.outMem old).stateT then (h, pkt) else replaceCbLeftA h pkt r
    else (h, pkt)

/-- `dysco_ctl_save_rcv_window`: ties the sockets of two sessions of a middlebox that is
being removed to their output blocks. -/
def ctlSaveRcvWindow (h : Host) (m : ControlMessage) : Bool × Host :=
  match h.lookupOut E m.leftSS.reverse with
  | none => (false, h)
  | some l =>
    if (h.outMem l).myTp.isSome then (true, h)
    else
      match h.lookupOut E m.rightSS with
      | none => (false, h)
      | some r =>
        match E.establishedSock m.leftSS (h.inOf (h.outMem l)).skbIif with
        | none => (false, h)
        | some my =>
          match E.establishedSock m.rightSS.reverse (h.inOf (h.outMem r)).skbIif with
          | none => (false, h)
          | some other =>
            let h := h.setOut l { h.outMem l with otherTp := some other, myTp := some my }
            (true, h.setOut r { h.outMem r with otherTp := some my, myTp := some other })

/-- `dysco_control_output`; the result tells whether the message is sent on. -/
def controlOutput (h : Host) (pkt : ControlPacket) : Host × ControlPacket × Bool :=
  if ¬ (pkt.dest = dyscoControlPort ∨ pkt.source = dyscoControlPort ∨
      pkt.dest = dyscoMgmPort) then (h, pkt, true)
  else if (ntohs pkt.udpLen).toNat < controlMinLen then (h, pkt, true)
  else if pkt.saddr ∉ E.ifaddrs then (h, pkt, true)
  else if pkt.dest = dyscoMgmPort then
    let (ok, h) := ctlSaveRcvWindow E h pkt.msg
    (h, pkt, ok)
  else
    match pkt.msg.mtype with
    | .syn =>
      let (ok, h, pkt) := controlOutputSyn E h pkt
      (h, pkt, ok)
    | .synAck =>
      if pkt.saddr = pkt.msg.rightA then
        let (h, pkt) := replaceCbRightA E h pkt
        (h, pkt, true)
      else (h, pkt, true)
    | .ack =>
      let (h, pkt) := ackOut E h pkt
      (h, pkt, true)
    | .fin | .stateTransferred | .ackAck | .unknown _ => (h, pkt, true)

end Dysco
