import Mathlib.Logic.Function.Basic
import Dysco.BucketTable
import Dysco.IntrusiveChain
import Dysco.Packet

/-! # Control blocks and the host

The data the kernel module keeps on a host.  A session is known by its TCP
five-tuple; the module maps the *super* session, which the applications see, to a
*sub* session, which travels between two neighbours.  An output control block
(`CbOut`) rewrites what leaves the host, an input control block (`CbIn`) rewrites
what enters it, and a reconfiguration control block (`CbReconfig`) keeps what a
`DYSCO_SYN` announced.

Blocks live in memory and refer to each other by address, a natural number.  `kzalloc` returns
zeroed memory; `kmalloc` returns memory as it was left.  The tables are those of
`BucketTable`: they link nodes and read keys from memory.
-/
namespace Dysco

/-- `struct tcp_session`: a TCP five-tuple, in network order. -/
structure TcpSession where
  sip : U32
  dip : U32
  sport : U16
  dport : U16
deriving DecidableEq, Repr, Inhabited

/-- The session seen from the other end. -/
def TcpSession.reverse (ss : TcpSession) : TcpSession :=
  { sip := ss.dip, dip := ss.sip, sport := ss.dport, dport := ss.sport }

@[simp] theorem TcpSession.reverse_reverse (ss : TcpSession) : ss.reverse.reverse = ss := rfl

/-- `struct service_chain`: the hosts still to visit, next one first.  The length
is kept in 16 bits. -/
structure ServiceChain where
  pos : U16
  hops : List U32
  short : hops.length < 65536
deriving DecidableEq, Repr

instance : Inhabited ServiceChain := ⟨⟨0#16, [], by decide⟩⟩

/-- The `len` field. -/
def ServiceChain.len (sc : ServiceChain) : U16 := BitVec.ofNat 16 sc.hops.length

/-- The connection states in use; `DYSCO_SYN_SENT`, `DYSCO_SYN_RECEIVED` and
`DYSCO_ESTABLISHED` are other names of adding, accepting and initializing a new path. -/
inductive ConnState where
  | onePath
  | synSent
  | synReceived
  | established
deriving DecidableEq, Repr, Inhabited

/-- `struct dysco_cb_out`: the output control block. -/
structure CbOut where
  dcbIn : Option Nat
  super : TcpSession
  sub : TcpSession
  inIseq : U32
  inIack : U32
  outIseq : U32
  outIack : U32
  ackDelta : U32
  seqDelta : U32
  seqCutoff : U32
  ackCutoff : U32
  myTp : Option Nat
  otherTp : Option Nat
  sc : Option Nat
  otherPath : Option Nat
  tsIn : U32
  tsOut : U32
  tsDelta : U32
  tsrIn : U32
  tsrOut : U32
  tsrDelta : U32
  dyscoTag : U32
  wsIn : U16
  wsOut : U16
  wsDelta : U16
  nhMac : Mac
  state : ConnState
  oldPath : Bool
  validAckCut : Bool
  useNpSeq : Bool
  useNpAck : Bool
  stateT : Bool
  freeSc : Bool
  ackAdd : Bool
  seqAdd : Bool
  sackOk : Bool
  tsOk : Bool
  tsAdd : Bool
  wsOk : Bool
  tsrAdd : Bool
  tagOk : Bool
  ackCtr : U32
deriving DecidableEq, Repr

/-- The zeroed block. -/
instance : Inhabited CbOut where
  default :=
    { dcbIn := none, super := default, sub := default, inIseq := 0#32, inIack := 0#32,
      outIseq := 0#32, outIack := 0#32, ackDelta := 0#32, seqDelta := 0#32, seqCutoff := 0#32,
      ackCutoff := 0#32, myTp := none, otherTp := none, sc := none, otherPath := none,
      tsIn := 0#32, tsOut := 0#32, tsDelta := 0#32, tsrIn := 0#32, tsrOut := 0#32,
      tsrDelta := 0#32, dyscoTag := 0#32, wsIn := 0#16, wsOut := 0#16, wsDelta := 0#16,
      nhMac := 0#48, state := .onePath, oldPath := false, validAckCut := false,
      useNpSeq := false, useNpAck := false, stateT := false, freeSc := false, ackAdd := false,
      seqAdd := false, sackOk := false, tsOk := false, tsAdd := false, wsOk := false,
      tsrAdd := false, tagOk := false, ackCtr := 0#32 }

/-- `struct dysco_cb_in`: the input control block. -/
structure CbIn where
  dcbOut : Option Nat
  sub : TcpSession
  super : TcpSession
  inIseq : U32
  inIack : U32
  outIseq : U32
  outIack : U32
  ackDelta : U32
  seqDelta : U32
  tsIn : U32
  tsOut : U32
  tsDelta : U32
  tsrIn : U32
  tsrOut : U32
  tsrDelta : U32
  wsIn : U16
  wsOut : U16
  wsDelta : U16
  twoPaths : Bool
  ackAdd : Bool
  seqAdd : Bool
  sackOk : Bool
  tsOk : Bool
  tsAdd : Bool
  tsrAdd : Bool
  wsOk : Bool
  skbIif : U32
deriving DecidableEq, Repr

/-- The zeroed block. -/
instance : Inhabited CbIn where
  default :=
    { dcbOut := none, sub := default, super := default, inIseq := 0#32, inIack := 0#32,
      outIseq := 0#32, outIack := 0#32, ackDelta := 0#32, seqDelta := 0#32, tsIn := 0#32,
      tsOut := 0#32, tsDelta := 0#32, tsrIn := 0#32, tsrOut := 0#32, tsrDelta := 0#32,
      wsIn := 0#16, wsOut := 0#16, wsDelta := 0#16, twoPaths := false, ackAdd := false,
      seqAdd := false, sackOk := false, tsOk := false, tsAdd := false, tsrAdd := false,
      wsOk := false, skbIif := 0#32 }

/-! Updates of single fields, named so that nested updates stay small. -/

def CbOut.withDcbIn (d : CbOut) (q : Option Nat) : CbOut := { d with dcbIn := q }
def CbOut.withOtherPath (d : CbOut) (p : Nat) : CbOut := { d with otherPath := some p }
def CbOut.withOldPath (d : CbOut) : CbOut := { d with oldPath := true }
def CbOut.withStateT (d : CbOut) : CbOut := { d with stateT := true }
def CbOut.withState (d : CbOut) (state : ConnState) : CbOut := { d with state := state }
def CbOut.withSeqCutoff (d : CbOut) (seq : U32) : CbOut := { d with seqCutoff := seq }
def CbOut.withAckCutoff (d : CbOut) (ack : U32) : CbOut :=
  { d with ackCutoff := ack, validAckCut := true }
def CbOut.withUseNpSeq (d : CbOut) : CbOut := { d with useNpSeq := true }
def CbIn.withDcbOut (d : CbIn) (p : Nat) : CbIn := { d with dcbOut := some p }
def CbIn.withSuper (d : CbIn) (super : TcpSession) : CbIn := { d with super := super }
def CbIn.withTwoPaths (d : CbIn) (twoPaths : Bool) : CbIn := { d with twoPaths := twoPaths }

/-- `struct dysco_cb_reconfig`: the reconfiguration control block. -/
structure CbReconfig where
  super : TcpSession
  leftSS : TcpSession
  rightSS : TcpSession
  subOut : TcpSession
  subIn : TcpSession
  oldDcb : Option Nat
  newDcb : Option Nat
  leftIseq : U32
  leftIack : U32
  leftIts : U32
  leftItsr : U32
  leftIws : U16
  leftIwsr : U16
  nhMac : Mac
  sackOk : U8
  recDone : Bool
deriving DecidableEq, Repr, Inhabited

/-- The fields of a `struct tcp_sock` that the receive-window code reads. -/
structure TcpSock where
  rcvWscale : U16
  rcvNxt : U32
  copiedSeq : U32
  sndWnd : U32
deriving DecidableEq, Repr, Inhabited

/-- `struct dysco_policies`: a packet filter and the chain for what it matches. -/
structure Policy where
  filter : SkBuff → Bool
  sc : Nat

/-- What the rest of the kernel answers: hash functions, routes, neighbours, the
device, sockets. -/
structure Env where
  sessionHash : TcpSession → Nat
  /-- The buckets of `dysco_hash_pen`; every table has a seed of its own. -/
  penHash : TcpSession → Nat
  tagHash : U32 → Nat
  /-- `__ip_route_output_key`, from type of service and destination: the source
  address it picks and the next hop. -/
  route : U8 → U32 → Option (U32 × U32)
  /-- `__neigh_lookup`. -/
  neigh : U32 → Option Mac
  /-- `skb->dev->dev_addr`. -/
  devAddr : Mac
  /-- The addresses of the device. -/
  ifaddrs : List U32
  /-- `__inet_lookup_established`, on a session and an interface. -/
  establishedSock : TcpSession → U32 → Option Nat
  /-- What lies on the stack where a function declares a block and does not clear it. -/
  stackCb : CbOut
deriving Inhabited

/-- The tables that output blocks are linked into, through one `rhash_head`. -/
inductive CbTable where
  | out
  | pen
  | penTag
deriving DecidableEq, Repr

/-- What the module keeps on a host, in one network namespace.  The tables are lists; what their
heads and the `rhash_head`s of the blocks really lead to is in `links`. -/
structure Host where
  outMem : Nat → CbOut
  inMem : Nat → CbIn
  rcbMem : Nat → CbReconfig
  scMem : Nat → ServiceChain
  sockMem : Nat → TcpSock
  /-- The address the next allocation returns. -/
  brk : Nat
  /-- Whether the allocation that would return this address fails. -/
  oom : Nat → Bool
  /-- What has been freed, latest first. -/
  freed : List Nat
  hashOut : BucketTable Nat
  hashIn : BucketTable Nat
  hashPen : BucketTable Nat
  hashPenTag : BucketTable Nat
  hashReconfig : BucketTable Nat
  /-- The bucket heads of the three tables of output blocks, and the blocks' `rhash_head`s. -/
  links : Links CbTable Nat
  dyscoTag : U32
  allocPorts : U32
  policies : List Policy

namespace Host
variable (E : Env)

/-- A host on which the module has just been loaded. -/
def fresh : Host where
  outMem := default
  inMem := default
  rcbMem := default
  scMem := default
  sockMem := default
  brk := 0
  oom := fun _ => false
  freed := []
  hashOut := BucketTable.empty
  hashIn := BucketTable.empty
  hashPen := BucketTable.empty
  hashPenTag := BucketTable.empty
  hashReconfig := BucketTable.empty
  links := ⟨fun _ => none, fun _ _ => none⟩
  dyscoTag := 0#32
  allocPorts := 0x2710ffff#32
  policies := []

/-! ## Memory -/

def setOut (h : Host) (p : Nat) (dcb : CbOut) : Host :=
  { h with outMem := Function.update h.outMem p dcb }

def setIn (h : Host) (p : Nat) (dcb : CbIn) : Host :=
  { h with inMem := Function.update h.inMem p dcb }

def setRcb (h : Host) (p : Nat) (rcb : CbReconfig) : Host :=
  { h with rcbMem := Function.update h.rcbMem p rcb }

def setSc (h : Host) (p : Nat) (sc : ServiceChain) : Host :=
  { h with scMem := Function.update h.scMem p sc }

/-- The host once an allocation was attempted. -/
def bump (h : Host) : Host := { h with brk := h.brk + 1 }

/-- `kmalloc`: the address, unless memory is out.  What is there stays. -/
def kmalloc (h : Host) : Option Nat × Host :=
  if h.oom h.brk then (none, h.bump) else (some h.brk, h.bump)

/-- `kzalloc` of an output control block. -/
def kzallocOut (h : Host) : Option Nat × Host :=
  if h.oom h.brk then (none, h.bump) else (some h.brk, h.bump.setOut h.brk default)

/-- `kzalloc` of an input control block. -/
def kzallocIn (h : Host) : Option Nat × Host :=
  if h.oom h.brk then (none, h.bump) else (some h.brk, h.bump.setIn h.brk default)

/-- `kfree`. -/
def kfree (h : Host) (p : Nat) : Host := { h with freed := p :: h.freed }

/-! ## Tables -/

def lookupOut (h : Host) (ss : TcpSession) : Option Nat :=
  BucketTable.lookup E.sessionHash (fun p => (h.outMem p).super) h.hashOut ss

def lookupIn (h : Host) (ss : TcpSession) : Option Nat :=
  BucketTable.lookup E.sessionHash (fun p => (h.inMem p).sub) h.hashIn ss

def lookupPen (h : Host) (ss : TcpSession) : Option Nat :=
  BucketTable.lookup E.penHash (fun p => (h.outMem p).super) h.hashPen ss

def lookupTag (h : Host) (tag : U32) : Option Nat :=
  BucketTable.lookup E.tagHash (fun p => (h.outMem p).dyscoTag) h.hashPenTag tag

def lookupReconfig (h : Host) (ss : TcpSession) : Option Nat :=
  BucketTable.lookup E.sessionHash (fun p => (h.rcbMem p).super) h.hashReconfig ss

def insertOut (h : Host) (p : Nat) : Host :=
  { h with
    hashOut := BucketTable.insert E.sessionHash (fun p => (h.outMem p).super) h.hashOut p
    links := h.links.insert .out (E.sessionHash (h.outMem p).super) p }

def insertIn (h : Host) (p : Nat) : Host :=
  { h with hashIn := BucketTable.insert E.sessionHash (fun p => (h.inMem p).sub) h.hashIn p }

def insertPen (h : Host) (p : Nat) : Host :=
  { h with
    hashPen := BucketTable.insert E.penHash (fun p => (h.outMem p).super) h.hashPen p
    links := h.links.insert .pen (E.penHash (h.outMem p).super) p }

def insertTag (h : Host) (p : Nat) : Host :=
  { h with
    hashPenTag := BucketTable.insert E.tagHash (fun p => (h.outMem p).dyscoTag) h.hashPenTag p
    links := h.links.insert .penTag (E.tagHash (h.outMem p).dyscoTag) p }

def insertReconfig (h : Host) (p : Nat) : Host :=
  { h with
    hashReconfig :=
      BucketTable.insert E.sessionHash (fun p => (h.rcbMem p).super) h.hashReconfig p }

def removePen (h : Host) (p : Nat) : Host :=
  { h with
    hashPen := BucketTable.remove E.penHash (fun p => (h.outMem p).super) h.hashPen p
    links := h.links.remove .pen (E.penHash (h.outMem p).super) p h.brk }

def removeTag (h : Host) (p : Nat) : Host :=
  { h with
    hashPenTag := BucketTable.remove E.tagHash (fun p => (h.outMem p).dyscoTag) h.hashPenTag p
    links := h.links.remove .penTag (E.tagHash (h.outMem p).dyscoTag) p h.brk }

def removeReconfig (h : Host) (p : Nat) : Host :=
  { h with
    hashReconfig :=
      BucketTable.remove E.sessionHash (fun p => (h.rcbMem p).super) h.hashReconfig p }

/-! ## What a write leaves alone -/

variable {E} (h : Host) {p q : Nat}

/-- A block that is written is read back; the others are as they were. -/
@[simp] theorem setOut_outMem_self (d : CbOut) : (h.setOut p d).outMem p = d :=
  Function.update_self ..

@[simp] theorem setOut_outMem_of_ne (hne : q ≠ p) (d : CbOut) :
    (h.setOut p d).outMem q = h.outMem q :=
  Function.update_of_ne hne ..

@[simp] theorem setIn_inMem_self (d : CbIn) : (h.setIn p d).inMem p = d :=
  Function.update_self ..

@[simp] theorem setIn_inMem_of_ne (hne : q ≠ p) (d : CbIn) : (h.setIn p d).inMem q = h.inMem q :=
  Function.update_of_ne hne ..

@[simp] theorem setRcb_rcbMem_self (d : CbReconfig) : (h.setRcb p d).rcbMem p = d :=
  Function.update_self ..

@[simp] theorem setRcb_rcbMem_of_ne (hne : q ≠ p) (d : CbReconfig) :
    (h.setRcb p d).rcbMem q = h.rcbMem q :=
  Function.update_of_ne hne ..

@[simp] theorem bump_brk : h.bump.brk = h.brk + 1 := rfl
@[simp] theorem bump_oom : h.bump.oom = h.oom := rfl
@[simp] theorem bump_outMem : h.bump.outMem = h.outMem := rfl
@[simp] theorem bump_inMem : h.bump.inMem = h.inMem := rfl
@[simp] theorem bump_rcbMem : h.bump.rcbMem = h.rcbMem := rfl
@[simp] theorem bump_scMem : h.bump.scMem = h.scMem := rfl
@[simp] theorem bump_hashOut : h.bump.hashOut = h.hashOut := rfl
@[simp] theorem bump_hashIn : h.bump.hashIn = h.hashIn := rfl
@[simp] theorem bump_hashPen : h.bump.hashPen = h.hashPen := rfl
@[simp] theorem bump_hashPenTag : h.bump.hashPenTag = h.hashPenTag := rfl
@[simp] theorem bump_hashReconfig : h.bump.hashReconfig = h.hashReconfig := rfl

@[simp] theorem setOut_inMem (d : CbOut) : (h.setOut p d).inMem = h.inMem := rfl
@[simp] theorem setOut_rcbMem (d : CbOut) : (h.setOut p d).rcbMem = h.rcbMem := rfl
@[simp] theorem setOut_scMem (d : CbOut) : (h.setOut p d).scMem = h.scMem := rfl
@[simp] theorem setOut_brk (d : CbOut) : (h.setOut p d).brk = h.brk := rfl
@[simp] theorem setOut_oom (d : CbOut) : (h.setOut p d).oom = h.oom := rfl
@[simp] theorem setOut_hashOut (d : CbOut) : (h.setOut p d).hashOut = h.hashOut := rfl
@[simp] theorem setOut_hashIn (d : CbOut) : (h.setOut p d).hashIn = h.hashIn := rfl
@[simp] theorem setOut_hashPen (d : CbOut) : (h.setOut p d).hashPen = h.hashPen := rfl
@[simp] theorem setOut_hashPenTag (d : CbOut) : (h.setOut p d).hashPenTag = h.hashPenTag := rfl
@[simp] theorem setOut_hashReconfig (d : CbOut) :
    (h.setOut p d).hashReconfig = h.hashReconfig := rfl

@[simp] theorem setIn_outMem (d : CbIn) : (h.setIn p d).outMem = h.outMem := rfl
@[simp] theorem setIn_rcbMem (d : CbIn) : (h.setIn p d).rcbMem = h.rcbMem := rfl
@[simp] theorem setIn_scMem (d : CbIn) : (h.setIn p d).scMem = h.scMem := rfl
@[simp] theorem setIn_brk (d : CbIn) : (h.setIn p d).brk = h.brk := rfl
@[simp] theorem setIn_oom (d : CbIn) : (h.setIn p d).oom = h.oom := rfl
@[simp] theorem setIn_hashOut (d : CbIn) : (h.setIn p d).hashOut = h.hashOut := rfl
@[simp] theorem setIn_hashIn (d : CbIn) : (h.setIn p d).hashIn = h.hashIn := rfl
@[simp] theorem setIn_hashPen (d : CbIn) : (h.setIn p d).hashPen = h.hashPen := rfl
@[simp] theorem setIn_hashPenTag (d : CbIn) : (h.setIn p d).hashPenTag = h.hashPenTag := rfl
@[simp] theorem setIn_hashReconfig (d : CbIn) : (h.setIn p d).hashReconfig = h.hashReconfig := rfl

@[simp] theorem setRcb_outMem (d : CbReconfig) : (h.setRcb p d).outMem = h.outMem := rfl
@[simp] theorem setRcb_inMem (d : CbReconfig) : (h.setRcb p d).inMem = h.inMem := rfl
@[simp] theorem setRcb_scMem (d : CbReconfig) : (h.setRcb p d).scMem = h.scMem := rfl
@[simp] theorem setRcb_brk (d : CbReconfig) : (h.setRcb p d).brk = h.brk := rfl
@[simp] theorem setRcb_hashOut (d : CbReconfig) : (h.setRcb p d).hashOut = h.hashOut := rfl
@[simp] theorem setRcb_hashIn (d : CbReconfig) : (h.setRcb p d).hashIn = h.hashIn := rfl
@[simp] theorem setRcb_hashPen (d : CbReconfig) : (h.setRcb p d).hashPen = h.hashPen := rfl
@[simp] theorem setRcb_hashPenTag (d : CbReconfig) : (h.setRcb p d).hashPenTag = h.hashPenTag := rfl
@[simp] theorem setRcb_hashReconfig (d : CbReconfig) :
    (h.setRcb p d).hashReconfig = h.hashReconfig := rfl

@[simp] theorem insertOut_outMem : (h.insertOut E p).outMem = h.outMem := rfl
@[simp] theorem insertOut_inMem : (h.insertOut E p).inMem = h.inMem := rfl
@[simp] theorem insertOut_rcbMem : (h.insertOut E p).rcbMem = h.rcbMem := rfl
@[simp] theorem insertOut_brk : (h.insertOut E p).brk = h.brk := rfl
@[simp] theorem insertOut_hashIn : (h.insertOut E p).hashIn = h.hashIn := rfl
@[simp] theorem insertOut_hashReconfig : (h.insertOut E p).hashReconfig = h.hashReconfig := rfl

@[simp] theorem insertIn_outMem : (h.insertIn E p).outMem = h.outMem := rfl
@[simp] theorem insertIn_inMem : (h.insertIn E p).inMem = h.inMem := rfl
@[simp] theorem insertIn_rcbMem : (h.insertIn E p).rcbMem = h.rcbMem := rfl
@[simp] theorem insertIn_brk : (h.insertIn E p).brk = h.brk := rfl
@[simp] theorem insertIn_hashOut : (h.insertIn E p).hashOut = h.hashOut := rfl
@[simp] theorem insertIn_hashReconfig : (h.insertIn E p).hashReconfig = h.hashReconfig := rfl

@[simp] theorem insertReconfig_outMem : (h.insertReconfig E p).outMem = h.outMem := rfl
@[simp] theorem insertReconfig_inMem : (h.insertReconfig E p).inMem = h.inMem := rfl
@[simp] theorem insertReconfig_rcbMem : (h.insertReconfig E p).rcbMem = h.rcbMem := rfl
@[simp] theorem insertReconfig_brk : (h.insertReconfig E p).brk = h.brk := rfl
@[simp] theorem insertReconfig_hashOut : (h.insertReconfig E p).hashOut = h.hashOut := rfl
@[simp] theorem insertReconfig_hashIn : (h.insertReconfig E p).hashIn = h.hashIn := rfl

/-- A search of the output table sees a write only if it changes the key of a node in the
table. -/
theorem lookupOut_setOut {d : CbOut} (hkey : h.hashOut.Holds p → d.super = (h.outMem p).super)
    (ss : TcpSession) : (h.setOut p d).lookupOut E ss = h.lookupOut E ss := by
  apply BucketTable.lookup_congr
  intro m hm
  by_cases hmp : m = p
  · subst hmp
    rw [setOut_outMem_self, hkey hm]
  · rw [setOut_outMem_of_ne h hmp]

/-- What `lookupOut` returns is in the table, under the session looked for. -/
theorem lookupOut_eq_some {ss : TcpSession} (hp : h.lookupOut E ss = some p) :
    h.hashOut.Holds p ∧ (h.outMem p).super = ss :=
  BucketTable.lookup_eq_some hp

/-- What is found is in the table, under the session that was asked for. -/
theorem lookupReconfig_eq_some {ss : TcpSession} (hp : h.lookupReconfig E ss = some p) :
    h.hashReconfig.Holds p ∧ (h.rcbMem p).super = ss :=
  BucketTable.lookup_eq_some hp

variable {h}

/-- Memory is handed out upwards. -/
theorem kmalloc_some {h' : Host} (hp : h.kmalloc = (some p, h')) :
    p = h.brk ∧ h' = h.bump := by
  unfold kmalloc at hp
  split at hp
  · cases hp
  · cases hp
    exact ⟨rfl, rfl⟩

/-- An output block that is allocated is zero, and its address was not in use. -/
theorem kzallocOut_some {h' : Host} (hp : h.kzallocOut = (some p, h')) :
    p = h.brk ∧ h' = h.bump.setOut h.brk default := by
  unfold kzallocOut at hp
  split at hp
  · cases hp
  · cases hp
    exact ⟨rfl, rfl⟩

/-- The same for an input block. -/
theorem kzallocIn_some {h' : Host} (hp : h.kzallocIn = (some p, h')) :
    p = h.brk ∧ h' = h.bump.setIn h.brk default := by
  unfold kzallocIn at hp
  split at hp
  · cases hp
  · cases hp
    exact ⟨rfl, rfl⟩

/-- Everything the tables hold, and the input blocks of the output table, has been
allocated. -/
structure WF (h : Host) : Prop where
  out_lt : ∀ p, h.hashOut.Holds p → p < h.brk
  in_lt : ∀ q, h.hashIn.Holds q → q < h.brk
  reconfig_lt : ∀ r, h.hashReconfig.Holds r → r < h.brk
  dcbIn_lt : ∀ p q, h.hashOut.Holds p → (h.outMem p).dcbIn = some q → q < h.brk

/-! ## Ports -/

/-- `allocate_neighbor_port`. -/
def allocateNeighborPort (h : Host) : U16 := htons ((h.allocPorts >>> 16).setWidth 16)

/-- `allocate_local_port`: the port, and the host once it is taken. -/
def allocateLocalPort (h : Host) : U16 × Host :=
  let lport : U16 := (h.allocPorts &&& 0xffff#32).setWidth 16
  let ports := h.allocPorts - 1#32
  (htons lport, { h with allocPorts := if lport = 10001#16 then ports - 10001#32 else ports })

end Host
end Dysco
