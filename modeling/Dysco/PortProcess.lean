import Mathlib.Data.Int.Order.Basic

/-! # The port process of the protocol model

The protocol of version 3.0 as its own model has it (`dysco3.pml`): every end of a
subsession is a port process with two input channels, `addr` for what the far end of a
subsession sends and `forward` for what the other port of the same middlebox hands over.
Here are the messages, the variables of one process and the macros; `PortOptions` has the
states.

An option takes at most one message, changes the variables and sends messages, in that
order.  Where the source has an `assert`, the option has the outcome `fault` if it fails.
Numbers are integers without a bound, as the source assumes that there is no wraparound;
the limit on the amount of data is left out.  No port is mobile: all `CHOOSE` lines set
`newNearLoc` to `nearLoc`, so a port receives on its own address only.
-/
namespace Dysco.PortProcess

/-- An address.  Address 0 is `null`. -/
abbrev Addr := Nat

/-- A message, with the fields that its type carries.  The flag tells TCP from UDP where
both occur. -/
inductive Msg where
  | syn (tcp : Bool) (seq : Int)
  | synAck (tcp : Bool) (seq ack : Int)
  | ack (tcp : Bool) (ack : Int)
  | synTimeout
  | requestLock (requestor anchor : Addr) (delta : Int)
  | ackLock (requestor anchor : Addr) (delta : Int)
  | nackLock (requestor anchor : Addr)
  | lockTimeout (requestor anchor : Addr)
  | cancelLock (requestor : Addr)
  | ackCancel (requestor : Addr)
  | rightRequest (anchor neighbor : Addr)
  | dataAck (seq ack : Int)
  | finAck (seq ack : Int)
deriving DecidableEq, Repr

/-- The state labels of the process. -/
inductive Loc where
  | endSynchronizing
  | onePath
  | endOnePath
  | anchoring
  | twoPaths
  | ended
deriving DecidableEq, Repr

/-- The assertions of the source. -/
inductive Fault where
  /-- `assert (sent >= newAck)` -/
  | ackUnsent
  /-- `assert (newSeq >= oldRcvd)` -/
  | newBelowOld
  /-- `assert (! lockPending || newSeq == requestor)` -/
  | lockPending
  /-- Any other assertion. -/
  | other
deriving DecidableEq, Repr

/-! ## Sequence numbers -/

/-- The variables of the normal protocol state. -/
structure Tcp where
  sending : Bool
  finSent : Bool
  receiving : Bool
  finRcvd : Bool
  /-- The number of the next byte to be sent. -/
  sent : Int
  /-- The number of the next sent byte to be acknowledged. -/
  sentAcked : Int
  /-- The number of the next byte to be received. -/
  rcvd : Int
  /-- The last number acknowledged. -/
  rcvdAcked : Int
deriving DecidableEq, Repr

/-- The variables that an anchor keeps for the old path. -/
structure OldPath where
  oldSent : Int
  oldSentAcked : Int
  oldRcvd : Int
  oldRcvdAcked : Int
  /-- The lowest number received on the new path. -/
  firstNewRcvd : Option Int
deriving DecidableEq, Repr

/-- `null` in all of them. -/
def OldPath.null : OldPath := ⟨0, 0, 0, 0, none⟩

namespace Tcp

def sendSyn (endpoint : Bool) (t : Tcp) (newSeq : Int) : Tcp :=
  { t with sent := (if endpoint then t.sent else newSeq) + 1, sending := true }

def receiveSyn (t : Tcp) (newSeq : Int) : Tcp := { t with rcvd := newSeq + 1, receiving := true }

def sendData (endpoint : Bool) (t : Tcp) (newSeq : Int) : Tcp :=
  { t with sent := (if endpoint then t.sent else newSeq) + 1 }

def receiveData (t : Tcp) (newSeq : Int) : Tcp :=
  if t.rcvd ≤ newSeq then { t with rcvd := newSeq + 1 } else t

def sendFin (t : Tcp) : Tcp := { t with sending := false, finSent := true }

def receiveFin (t : Tcp) : Tcp := { t with receiving := false, finRcvd := true }

def sendAck (endpoint : Bool) (t : Tcp) (newAck : Int) : Tcp :=
  let t := { t with rcvdAcked := if endpoint then t.rcvd else newAck }
  if t.receiving = false ∧ t.finRcvd = true ∧ t.rcvdAcked = t.rcvd then
    { t with finRcvd := false }
  else t

def receiveAck (t : Tcp) (newAck : Int) : Tcp :=
  let t := if t.sentAcked < newAck then { t with sentAcked := newAck } else t
  if t.sending = false ∧ t.finSent = true ∧ t.sentAcked = t.sent then
    { t with finSent := false }
  else t

/-- What `CheckEnding` tests. -/
def isEnded (t : Tcp) : Bool := !t.sending && !t.receiving && !t.finSent && !t.finRcvd

/-- The connection is still used. -/
def inUse (t : Tcp) : Bool := t.sending || t.receiving

end Tcp

/-! ## Ports -/

/-- The variables for locking and anchoring. -/
structure Locking where
  reconfigured : Bool
  lockPending : Bool
  locked : Bool
  requestor : Addr
  otherAnchor : Addr
  requestPendingRequestor : Addr
  requestPendingAnchor : Addr
  requestPendingDelta : Int
  /-- The port's entry of the array `requesting`. -/
  requesting : Bool
  newFarLoc : Addr
  newDelta : Int
deriving DecidableEq, Repr

/-- The variables of a port process. -/
structure Port where
  loc : Loc
  farLoc : Addr
  delta : Int
  tcp : Tcp
  lock : Locking
  old : OldPath
deriving DecidableEq, Repr

/-- What differs between sessions: the ports and how they are connected, the behavior of
the middleboxes, and what the `CHOOSE` lines stand for. -/
structure Config where
  /-- The port is an endpoint of the session. -/
  endpoint : Addr → Bool
  leftEnd : Addr
  rightEnd : Addr
  /-- The far end of a port's subsession, to begin with. -/
  far : Addr → Addr
  /-- The other port of the same middlebox. -/
  pair : Addr → Addr
  /-- What a port adds to outgoing sequence numbers: nothing, if it is transparent. -/
  offset : Addr → Int
  /-- The initial sequence number of an endpoint. -/
  isn : Addr → Int
  /-- The port may become the left anchor of a segment with that right anchor. -/
  choose : Addr → Addr → Bool
  /-- The port may ask its left neighbor to, with that right anchor and new neighbor. -/
  ask : Addr → Addr → Addr → Bool
  /-- The new neighbor that an anchor chooses, given the other anchor. -/
  newFar : Addr → Addr → Addr

/-- A message on its way into a channel. -/
inductive Send where
  | addr (dst : Addr) (m : Msg)
  | forward (dst : Addr) (m : Msg)
deriving DecidableEq, Repr

/-- What comes of an option. -/
inductive Outcome where
  | done (p : Port) (out : List Send)
  | fault (f : Fault)

/-- An assertion in front of the rest of an option. -/
def asserting (b : Prop) [Decidable b] (f : Fault) (os : List Outcome) : List Outcome :=
  if b then os else [.fault f]

namespace Port

/-- `CheckEnding`. -/
def checkEnding (p : Port) : Port := if p.tcp.isEnded then { p with loc := .ended } else p

/-- Back to the normal state of a port. -/
def toOnePath (endpoint : Bool) (p : Port) : Port :=
  { p with loc := if endpoint then .onePath else .endOnePath }

/-- The old path of the anchor has come to its end. -/
def Completed (p : Port) : Prop :=
  p.old.oldSentAcked = p.old.oldSent ∧
    ((p.tcp.receiving = false ∧ p.tcp.finRcvd = false ∧ p.old.firstNewRcvd = none) ∨
      (p.old.firstNewRcvd = some p.old.oldRcvd ∧ p.old.oldRcvdAcked = p.old.oldRcvd))

instance (p : Port) : Decidable p.Completed := inferInstanceAs (Decidable (_ ∧ _))

/-- The anchor once it has given the old path up. -/
def complete (endpoint : Bool) (p : Port) : Port :=
  checkEnding
    { p with
      loc := if endpoint then .onePath else .endOnePath
      farLoc := p.lock.newFarLoc
      delta := p.lock.newDelta
      lock :=
        { p.lock with
          reconfigured := true
          locked := false
          otherAnchor := 0
          newFarLoc := 0
          newDelta := 0 }
      old := .null }

/-- `CheckCompletion`. -/
def checkCompletion (endpoint : Bool) (p : Port) : Port :=
  if p.Completed then p.complete endpoint else p

/-- Becoming a left anchor. -/
def request (p : Port) (self anchor neighbor : Addr) : Port :=
  { p with
    loc := .anchoring
    lock :=
      { p.lock with
        lockPending := true
        requestor := self
        reconfigured := true
        otherAnchor := anchor
        newFarLoc := neighbor
        requesting := true } }

/-- A port that may become a left anchor. -/
def Idle (p : Port) : Prop :=
  p.lock.reconfigured = false ∧ p.tcp.inUse = true ∧ p.lock.lockPending = false ∧
    p.lock.locked = false

instance (p : Port) : Decidable p.Idle := inferInstanceAs (Decidable (_ ∧ _))

/-- Splitting the numbers between the old and the new path. -/
def split (p : Port) : Port :=
  { p with
    loc := .twoPaths
    old :=
      { oldSent := p.tcp.sent
        oldSentAcked := p.tcp.sentAcked
        oldRcvd := p.tcp.rcvd
        oldRcvdAcked := p.tcp.rcvdAcked
        firstNewRcvd := none }
    tcp := { p.tcp with sentAcked := p.tcp.sent }
    lock := { p.lock with newDelta := p.lock.newDelta + p.delta } }

/-! The macros, on the variables of a port. -/

def sendSyn (e : Bool) (p : Port) (newSeq : Int) : Port := { p with tcp := p.tcp.sendSyn e newSeq }
def receiveSyn (p : Port) (newSeq : Int) : Port := { p with tcp := p.tcp.receiveSyn newSeq }
def sendData (e : Bool) (p : Port) (newSeq : Int) : Port :=
  { p with tcp := p.tcp.sendData e newSeq }
def receiveData (p : Port) (newSeq : Int) : Port := { p with tcp := p.tcp.receiveData newSeq }
def sendFin (p : Port) : Port := { p with tcp := p.tcp.sendFin }
def receiveFin (p : Port) : Port := { p with tcp := p.tcp.receiveFin }
def sendAck (e : Bool) (p : Port) (newAck : Int) : Port := { p with tcp := p.tcp.sendAck e newAck }
def receiveAck (p : Port) (newAck : Int) : Port := { p with tcp := p.tcp.receiveAck newAck }

def receiveOldData (p : Port) (newSeq : Int) : Port :=
  if p.old.oldRcvd ≤ newSeq then
    { p with
      old := { p.old with oldRcvd := newSeq + 1 }
      tcp := { p.tcp with rcvd := if p.tcp.rcvd < newSeq + 1 then newSeq + 1 else p.tcp.rcvd } }
  else p

def receiveNewData (p : Port) (newSeq : Int) : Port :=
  { p with
    old :=
      { p.old with
        firstNewRcvd :=
          match p.old.firstNewRcvd with
          | none => some newSeq
          | some first => some (if newSeq < first then newSeq else first) }
    tcp := p.tcp.receiveData newSeq }

def sendOldAck (p : Port) (number : Int) : Port :=
  let p := { p with old := { p.old with oldRcvdAcked := number } }
  if p.tcp.receiving = false ∧ p.tcp.finRcvd = true ∧ p.tcp.rcvd = p.old.oldRcvd ∧
      p.old.oldRcvdAcked = p.old.oldRcvd then
    { p with tcp := { p.tcp with finRcvd := false } }
  else p

def sendNewAck (e : Bool) (p : Port) (newAck : Int) : Port :=
  let p := { p with tcp := { p.tcp with rcvdAcked := if e then p.tcp.rcvd else newAck } }
  if p.tcp.receiving = false ∧ p.tcp.finRcvd = true ∧ p.tcp.rcvdAcked = p.tcp.rcvd ∧
      p.old.oldRcvdAcked = p.old.oldRcvd then
    { p with tcp := { p.tcp with finRcvd := false } }
  else p

def receiveOldAck (p : Port) (newAck : Int) : Port :=
  let p :=
    if p.old.oldSentAcked < newAck then { p with old := { p.old with oldSentAcked := newAck } }
    else p
  if p.tcp.sending = false ∧ p.tcp.finSent = true ∧ p.old.oldSentAcked = p.old.oldSent ∧
      (p.tcp.sent = p.old.oldSent ∨ p.tcp.sentAcked = p.tcp.sent) then
    { p with tcp := { p.tcp with finSent := false } }
  else p

def receiveNewAck (p : Port) (newAck : Int) : Port :=
  let p :=
    if p.tcp.sentAcked < newAck then { p with tcp := { p.tcp with sentAcked := newAck } } else p
  if p.tcp.sending = false ∧ p.tcp.finSent = true ∧ p.tcp.sentAcked = p.tcp.sent ∧
      p.old.oldSentAcked = p.old.oldSent then
    { p with tcp := { p.tcp with finSent := false } }
  else p

/-- What the endpoint's assertion on acknowledgments tests. -/
def AckSent (e : Bool) (p : Port) (newAck : Int) : Prop := e = true → newAck ≤ p.tcp.sent

instance (e : Bool) (p : Port) (newAck : Int) : Decidable (p.AckSent e newAck) :=
  inferInstanceAs (Decidable (_ → _))

end Port

end Dysco.PortProcess
