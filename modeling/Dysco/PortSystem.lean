import Mathlib.Logic.Function.Basic
import Dysco.PortOptions
import Dysco.TransitionSystem

/-! # Sessions of port processes

Any number of port processes with unbounded FIFO channels.  A port begins its next option
only when it has put all messages of the last one into their channels, one step for each
message; between these steps the other ports may do anything.

An assertion that fails is no step: the run ends there.
-/
namespace Dysco.PortProcess

/-- A session: its ports, their channels, and what they have still to send. -/
structure Session where
  port : Addr → Port
  /-- What far ends have sent to an address, with their own addresses, oldest first. -/
  addr : Addr → List (Addr × Msg)
  /-- What the other port of the middlebox has forwarded, oldest first. -/
  forward : Addr → List Msg
  /-- The messages of a port's last option that are not in their channels yet. -/
  todo : Addr → List Send

/-- A step of a session. -/
inductive Event where
  | own (i : Addr) (a : Own)
  | fromAddr (i : Addr)
  | fromForward (i : Addr)
  | flush (i : Addr)

namespace Session
variable (s : Session)

/-- Port `i` has taken an option. -/
def act (i : Addr) (p : Port) (out : List Send) : Session :=
  { s with port := Function.update s.port i p, todo := Function.update s.todo i out }

/-- A message enters its channel. -/
def put (i : Addr) : Send → Session
  | .addr dst m => { s with addr := Function.update s.addr dst (s.addr dst ++ [(i, m)]) }
  | .forward dst m => { s with forward := Function.update s.forward dst (s.forward dst ++ [m]) }

/-- The head of an input channel is taken. -/
def popAddr (i : Addr) : Session :=
  { s with addr := Function.update s.addr i (s.addr i).tail }

def popForward (i : Addr) : Session :=
  { s with forward := Function.update s.forward i (s.forward i).tail }

def setTodo (i : Addr) (out : List Send) : Session :=
  { s with todo := Function.update s.todo i out }

end Session

/-- One step of a session. -/
inductive Step (C : Config) (s : Session) : Event → Session → Prop
  | own {i : Addr} {a : Own} {p : Port} {out : List Send} (ready : s.todo i = [])
      (option : .done p out ∈ ownOptions C i (s.port i) a) :
      Step C s (.own i a) (s.act i p out)
  | fromAddr {i src : Addr} {m : Msg} {rest : List (Addr × Msg)} {p : Port} {out : List Send}
      (ready : s.todo i = []) (head : s.addr i = (src, m) :: rest)
      (option : .done p out ∈ addrOptions C i (s.port i) src m) :
      Step C s (.fromAddr i) ((s.popAddr i).act i p out)
  | fromForward {i : Addr} {m : Msg} {rest : List Msg} {p : Port} {out : List Send}
      (ready : s.todo i = []) (head : s.forward i = m :: rest)
      (option : .done p out ∈ forwardOptions C i (s.port i) m) :
      Step C s (.fromForward i) ((s.popForward i).act i p out)
  | flush {i : Addr} {m : Send} {rest : List Send} (next : s.todo i = m :: rest) :
      Step C s (.flush i) ((s.put i m).setTodo i rest)

/-- A port before the three-way handshake. -/
def Config.port (C : Config) (i : Addr) : Port where
  loc := .endSynchronizing
  farLoc := C.far i
  delta := 0
  tcp :=
    { sending := false
      finSent := false
      receiving := false
      finRcvd := false
      sent := if C.endpoint i then C.isn i else 0
      sentAcked := 0
      rcvd := 0
      rcvdAcked := 0 }
  lock :=
    { reconfigured := false
      lockPending := false
      locked := false
      requestor := 0
      otherAnchor := 0
      requestPendingRequestor := 0
      requestPendingAnchor := 0
      requestPendingDelta := 0
      requesting := false
      newFarLoc := 0
      newDelta := 0 }
  old := .null

/-- The session as it begins: the left endpoint is about to send its `syn`. -/
def Config.start (C : Config) : Session where
  port := Function.update C.port C.leftEnd ((C.port C.leftEnd).sendSyn true 0)
  addr := fun _ => []
  forward := fun _ => []
  todo := Function.update (fun _ => []) C.leftEnd
    [.addr (C.far C.leftEnd) (.syn true (C.isn C.leftEnd))]

/-- The runs of a session. -/
def sessionSystem (C : Config) : TransitionSystem Session Event where
  init s := s = C.start
  step s e t := Step C s e t

end Dysco.PortProcess
