import Dysco.PortProcess

/-! # The states of the port process

For each state label of the source, the options of its `do` loop.  Each function lists what
an option may lead to, for the port at address `i`; a message that no option takes leads
to nothing, and stays where it is.
-/
namespace Dysco.PortProcess

variable (C : Config) (i : Addr) (p : Port)

/-- `endSynchronizing`: a message from the far end. -/
def synchronizingAddr : Msg → List Outcome
  | .syn tcp seq =>
    let p := p.receiveSyn seq
    if C.endpoint i then
      asserting (tcp = true) .other
        [.done ((p.sendSyn true seq).sendAck true 0)
          [.addr p.farLoc (.synAck true (p.tcp.sent + p.delta) p.tcp.rcvd)]]
    else
      .done p [.forward (C.pair i) (.syn tcp seq)] ::
        -- the inserted box fails
        if tcp then [] else [.done { p with loc := .ended } [.addr p.farLoc .synTimeout]]
  | .synAck tcp seq ack =>
    let newAck := ack - p.delta
    let p := p.receiveSyn seq
    asserting (p.AckSent (C.endpoint i) newAck) .ackUnsent <|
      let p := p.receiveAck newAck
      if C.endpoint i then
        asserting (tcp = true) .other
          [.done { p.sendAck true newAck with loc := .onePath }
            [.addr p.farLoc (.ack true p.tcp.rcvd)]]
      else
        .done p [.forward (C.pair i) (.synAck tcp seq newAck)] ::
          -- the message is lost
          if tcp then [] else [.done p [.forward (C.pair i) .synTimeout]]
  | .ack tcp ack =>
    let newAck := ack - p.delta
    asserting (p.AckSent (C.endpoint i) newAck) .ackUnsent <|
      let p := p.receiveAck newAck
      if C.endpoint i then [.done { p with loc := .onePath } []]
      else [.done { p with loc := .endOnePath } [.forward (C.pair i) (.ack tcp newAck)]]
  | .synTimeout => [.done { p with loc := .ended } [.forward (C.pair i) .synTimeout]]
  | _ => []

/-- `endSynchronizing`: a message from the other port of the middlebox. -/
def synchronizingForward : Msg → List Outcome
  | .syn tcp seq =>
    let p := if tcp then { p with delta := C.offset i } else p
    [.done (p.sendSyn false seq) [.addr p.farLoc (.syn tcp (seq + p.delta))]]
  | .synAck tcp seq ack =>
    let p := if tcp then { p with delta := C.offset i } else p
    [.done ((p.sendSyn false seq).sendAck false ack)
      [.addr p.farLoc (.synAck tcp (seq + p.delta) ack)]]
  | .ack tcp ack =>
    [.done { p.sendAck false ack with loc := .endOnePath } [.addr p.farLoc (.ack tcp ack)]]
  | .synTimeout => [.done { p with loc := .ended } [.addr p.farLoc .synTimeout]]
  | _ => []

/-- What a port does without having received anything. -/
inductive Own where
  | sendData
  | sendFin
  | anchor (anchor : Addr)
  | ask (anchor neighbor : Addr)
deriving DecidableEq, Repr

/-- The options of `OnePath` and `endOnePath` that begin a reconfiguration. -/
def chooseOwn : Own → List Outcome
  | .anchor anchor =>
    if p.Idle ∧ C.choose i anchor = true then
      [.done (p.request i anchor (C.newFar i anchor)) [.addr p.farLoc (.requestLock i anchor 0)]]
    else []
  | .ask anchor neighbor =>
    if p.Idle ∧ C.ask i anchor neighbor = true then
      [.done { p with lock.reconfigured := true } [.addr p.farLoc (.rightRequest anchor neighbor)]]
    else []
  | _ => []

/-- A left neighbor is asked to begin a reconfiguration. -/
def onRightRequest (anchor neighbor : Addr) : List Outcome :=
  if p.Idle then
    [.done (p.request i anchor neighbor) [.addr p.farLoc (.requestLock i anchor 0)]]
  else [.done p []]

/-- A right anchor is reached. -/
def onRequested (requestor anchor : Addr) (delta : Int) : List Outcome :=
  if p.tcp.inUse then
    [.done
      { p with
        loc := .anchoring
        lock :=
          { p.lock with
            otherAnchor := requestor
            newDelta := delta
            newFarLoc := C.newFar i requestor } }
      [.addr p.farLoc (.ackLock requestor anchor 0)]]
  else
    -- session soon over
    [.done p []]

/-- `OnePath`: sending or ending, or beginning a reconfiguration. -/
def onePathOwn : Own → List Outcome
  | .sendFin =>
    if p.tcp.sending then
      [.done ((p.sendFin.sendData true 0).sendAck true 0)
        [.addr p.farLoc (.finAck (p.tcp.sent + p.delta) p.tcp.rcvd)]]
    else []
  | .sendData =>
    if p.tcp.sending then
      [.done ((p.sendData true 0).sendAck true 0)
        [.addr p.farLoc (.dataAck (p.tcp.sent + p.delta) p.tcp.rcvd)]]
    else []
  | a => chooseOwn C i p a

/-- The reaction of an endpoint to a fin on its only path: an ack, or its own fin. -/
def answerFin (p : Port) : List (Port × List Send) :=
  (p.sendAck true 0, [.addr p.farLoc (.ack true p.tcp.rcvd)]) ::
    if p.tcp.sending then
      [((p.sendFin.sendData true 0).sendAck true 0,
        [.addr p.farLoc (.finAck (p.tcp.sent + p.delta) p.tcp.rcvd)])]
    else []

/-- `OnePath`: a message from the far end. -/
def onePathAddr : Msg → List Outcome
  | .dataAck seq ack =>
    let newAck := ack - p.delta
    let p := p.receiveData seq
    asserting (p.AckSent true newAck) .ackUnsent <|
      let p := p.receiveAck newAck
      [.done (p.sendAck true newAck) [.addr p.farLoc (.ack true p.tcp.rcvd)]]
  | .finAck seq ack =>
    let newAck := ack - p.delta
    let p := p.receiveFin.receiveData seq
    asserting (p.AckSent true newAck) .ackUnsent <|
      (answerFin (p.receiveAck newAck)).map fun (p, out) => .done p.checkEnding out
  | .ack true ack =>
    let newAck := ack - p.delta
    asserting (p.AckSent true newAck) .ackUnsent
      [.done (p.receiveAck newAck).checkEnding []]
  | .rightRequest anchor neighbor => onRightRequest i p anchor neighbor
  | .requestLock requestor anchor delta =>
    asserting (i = C.rightEnd) .other <|
      if anchor = i then onRequested C i p requestor anchor delta
      else
        -- the anchor is not found, or the message is lost
        [.done p [.addr p.farLoc (.nackLock requestor anchor)],
          .done p [.addr p.farLoc (.lockTimeout requestor anchor)]]
  | _ => []

/-- `endOnePath`: beginning a reconfiguration. -/
def endOnePathOwn : Own → List Outcome := chooseOwn C i p

/-- A data or fin message that passes a middlebox port from its far end. -/
def passAddr (fin : Bool) (seq ack : Int) : Port × List Send :=
  let newAck := ack - p.delta
  let p := if fin then p.receiveFin else p
  ((p.receiveData seq).receiveAck newAck,
    [.forward (C.pair i) (if fin then .finAck seq newAck else .dataAck seq newAck)])

/-- A data or fin message that passes a middlebox port from the other port. -/
def passForward (fin : Bool) (seq ack : Int) : Port × List Send :=
  let q := if fin then p.sendFin else p
  ((q.sendData false seq).sendAck false ack,
    [.addr p.farLoc (if fin then .finAck (seq + p.delta) ack else .dataAck (seq + p.delta) ack)])

/-- `endOnePath`: a message from the far end. -/
def endOnePathAddr : Msg → List Outcome
  | .dataAck seq ack =>
    let (p, out) := passAddr C i p false seq ack
    [.done p out]
  | .finAck seq ack =>
    let (p, out) := passAddr C i p true seq ack
    [.done p.checkEnding out]
  | .ack true ack =>
    let newAck := ack - p.delta
    [.done (p.receiveAck newAck).checkEnding [.forward (C.pair i) (.ack true newAck)]]
  | .rightRequest anchor neighbor => onRightRequest i p anchor neighbor
  | .requestLock requestor anchor delta =>
    if anchor = i then onRequested C i p requestor anchor delta
    else
      [.done p [.forward (C.pair i) (.requestLock requestor anchor delta)],
        -- the message is lost
        .done p [.addr p.farLoc (.lockTimeout 0 0)]]
  | .ackLock requestor anchor delta =>
    asserting ((p.lock.locked = true ∨ p.lock.lockPending = true) ∧
      requestor = p.lock.requestor) .other
      [.done { p with lock := { p.lock with lockPending := false, locked := true } }
          [.forward (C.pair i) (.ackLock requestor anchor delta)],
        -- the message is lost
        .done p [.forward (C.pair i) (.lockTimeout 0 0)]]
  | .nackLock requestor 0 =>
    asserting ((p.lock.locked = true ∨ p.lock.lockPending = true) ∧
      requestor = p.lock.requestor) .other
      [.done { p with lock :=
        { p.lock with lockPending := false, locked := false, requestor := 0 } }
        [.forward (C.pair i) (.nackLock requestor 0)]]
  | .lockTimeout 0 0 => [.done p [.forward (C.pair i) (.lockTimeout 0 0)]]
  | .cancelLock requestor => [.done p [.forward (C.pair i) (.cancelLock requestor)]]
  | .ackCancel requestor => [.done p [.forward (C.pair i) (.ackCancel requestor)]]
  | _ => []

/-- `endOnePath`: a message from the other port of the middlebox. -/
def endOnePathForward : Msg → List Outcome
  | .dataAck seq ack =>
    let (p, out) := passForward p false seq ack
    [.done p out]
  | .finAck seq ack =>
    let (p, out) := passForward p true seq ack
    [.done p out]
  | .ack true ack => [.done (p.sendAck false ack).checkEnding [.addr p.farLoc (.ack true ack)]]
  | .requestLock requestor anchor delta =>
    -- the second case is a retransmitted request
    asserting (p.lock.lockPending = false ∨ requestor = p.lock.requestor) .lockPending
      [.done { p with lock := { p.lock with lockPending := true, requestor := requestor } }
        [.addr p.farLoc (.requestLock requestor anchor (delta + p.delta))]]
  | .ackLock requestor anchor delta =>
    [.done p [.addr p.farLoc (.ackLock requestor anchor (delta + p.delta))]]
  | .nackLock requestor 0 => [.done p [.addr p.farLoc (.nackLock requestor 0)]]
  | .lockTimeout 0 0 => [.done p [.addr p.farLoc (.lockTimeout 0 0)]]
  | .cancelLock requestor =>
    asserting (p.lock.locked = true ∧ requestor = p.lock.requestor) .other
      [.done { p with lock :=
        { p.lock with lockPending := false, locked := false, requestor := 0 } }
        [.addr p.farLoc (.cancelLock requestor)]]
  | .ackCancel requestor => [.done p [.addr p.farLoc (.ackCancel requestor)]]
  | _ => []

/-- `Anchoring`: a message from the far end, on the path there is. -/
def anchoringAddr : Msg → List Outcome
  | .ackLock _ anchor delta =>
    asserting ((p.lock.locked = true ∨ p.lock.lockPending = true) ∧ anchor = p.lock.otherAnchor)
      .other <|
      if p.tcp.inUse then
        let granted :=
          { p.lock with locked := true, newDelta := delta, requestor := 0, requesting := false }
        if p.lock.requestPendingAnchor ≠ 0 then
          [.done
            { p with
              lock :=
                { granted with
                  requestPendingRequestor := 0
                  requestPendingAnchor := 0
                  requestPendingDelta := 0 } }
            [.forward (C.pair i) (.nackLock p.lock.requestPendingRequestor 0),
              .addr p.lock.newFarLoc (.syn false 0)]]
        else [.done { p with lock := granted } [.addr p.lock.newFarLoc (.syn false 0)]]
      else
        -- session soon over
        [.done p []]
  | .nackLock requestor 0 =>
    asserting ((p.lock.locked = true ∨ p.lock.lockPending = true) ∧ requestor = i) .other <|
      let refused := { p.lock with newFarLoc := 0, otherAnchor := 0, requesting := false }
      if p.lock.requestPendingRequestor ≠ 0 then
        [.done
          ({ p with
              lock :=
                { refused with
                  requestor := p.lock.requestPendingRequestor
                  requestPendingRequestor := 0 } }.toOnePath (C.endpoint i))
          [.addr p.farLoc
            (.requestLock p.lock.requestPendingRequestor p.lock.requestPendingAnchor
              (p.lock.requestPendingDelta + p.delta))]]
      else
        [.done
          ({ p with lock := { refused with requestor := 0, lockPending := false } }.toOnePath
            (C.endpoint i)) []]
  | .lockTimeout 0 0 =>
    if p.tcp.inUse then [.done p [.addr p.farLoc (.requestLock i p.lock.otherAnchor 0)]]
    else
      -- session soon over
      [.done ({ p with lock.requesting := false }.toOnePath (C.endpoint i)) []]
  | .requestLock requestor anchor delta =>
    -- a retransmitted request
    asserting (requestor = p.lock.otherAnchor ∧ anchor = i ∧ delta = p.lock.newDelta) .other
      [.done p [.addr p.farLoc (.ackLock requestor anchor 0)]]
  | .cancelLock requestor =>
    asserting (requestor = p.lock.otherAnchor) .other
      [.done (p.toOnePath (C.endpoint i)) [.addr p.farLoc (.ackCancel requestor)]]
  | .ackCancel requestor =>
    asserting (requestor = i) .other [.done (p.toOnePath (C.endpoint i)) []]
  | .dataAck seq ack =>
    asserting (p.AckSent (C.endpoint i) (ack - p.delta)) .ackUnsent <|
      let (q, out) := passAddr C i p false seq ack
      if C.endpoint i then [.done (q.sendAck true 0) [.addr q.farLoc (.ack true q.tcp.rcvd)]]
      else [.done q out]
  | .finAck seq ack =>
    asserting (p.AckSent (C.endpoint i) (ack - p.delta)) .ackUnsent <|
      let (q, out) := passAddr C i p true seq ack
      if C.endpoint i then (answerFin q).map fun (q, out) => .done q.checkEnding out
      else [.done q.checkEnding out]
  | .ack true ack =>
    let newAck := ack - p.delta
    asserting (p.AckSent (C.endpoint i) newAck) .ackUnsent
      [.done (p.receiveAck newAck).checkEnding
        (if C.endpoint i then [] else [.forward (C.pair i) (.ack true newAck)])]
  | _ => []

/-- `Anchoring`: a message from the far end of the new path. -/
def anchoringNewAddr : Msg → List Outcome
  | .syn false _ =>
    [.done p (if p.tcp.inUse then [.addr p.lock.newFarLoc (.synAck false 0 0)] else [])]
  | .synAck false _ _ =>
    if p.tcp.inUse then
      [.done (p.split.checkCompletion (C.endpoint i)) [.addr p.lock.newFarLoc (.ack false 0)]]
    else [.done p []]
  | .synTimeout => [.done p [.addr p.farLoc (.cancelLock i)]]
  | .ack false _ => [.done (p.split.checkCompletion (C.endpoint i)) []]
  | _ => []

/-- `Anchoring`: a message from the other port of the middlebox. -/
def anchoringForward : Msg → List Outcome
  | .requestLock requestor anchor delta =>
    if p.lock.requesting then
      [.done
        { p with
          lock :=
            { p.lock with
              requestPendingRequestor := requestor
              requestPendingAnchor := anchor
              requestPendingDelta := delta } } []]
    else [.done p [.forward (C.pair i) (.nackLock requestor 0)]]
  | .dataAck seq ack =>
    let (p, out) := passForward p false seq ack
    [.done p out]
  | .finAck seq ack =>
    let (p, out) := passForward p true seq ack
    [.done p out]
  | .ack true ack => [.done (p.sendAck false ack).checkEnding [.addr p.farLoc (.ack true ack)]]
  | _ => []

/-- `TwoPaths`: an endpoint sends or ends. -/
def twoPathsOwn : Own → List Outcome
  | .sendData =>
    if C.endpoint i = true ∧ p.tcp.sending = true then
      [.done ((p.sendData true 0).sendNewAck true 0)
        [.addr p.lock.newFarLoc (.dataAck (p.tcp.sent + p.lock.newDelta) p.tcp.rcvd)]]
    else []
  | .sendFin =>
    if C.endpoint i = true ∧ p.tcp.sending = true then
      [.done ((p.sendFin.sendData true 0).sendNewAck true 0)
        [.addr p.lock.newFarLoc (.finAck (p.tcp.sent + p.lock.newDelta) p.tcp.rcvd)]]
    else []
  | _ => []

/-- In `TwoPaths`, an endpoint that may end also after a fin. -/
def mayEnd (p : Port) (out : List Send) : List (Port × List Send) :=
  (p, out) ::
    if p.tcp.sending then
      [((p.sendFin.sendData true 0).sendNewAck true 0,
        out ++ [.addr p.lock.newFarLoc (.finAck (p.tcp.sent + p.lock.newDelta) p.tcp.rcvd)])]
    else []

/-- `TwoPaths`: a message from the far end of the old path. -/
def twoPathsAddr : Msg → List Outcome
  | .dataAck seq ack =>
    let newAck := ack - p.delta
    let p := (p.receiveOldData seq).receiveOldAck newAck
    if C.endpoint i then
      [.done ((p.sendOldAck p.old.oldRcvd).checkCompletion true)
        [.addr p.farLoc (.ack true p.old.oldRcvd)]]
    else [.done (p.checkCompletion false) [.forward (C.pair i) (.dataAck seq newAck)]]
  | .finAck seq ack =>
    let newAck := ack - p.delta
    let p := (p.receiveFin.receiveOldData seq).receiveOldAck newAck
    if C.endpoint i then
      (mayEnd (p.sendOldAck p.old.oldRcvd) [.addr p.farLoc (.ack true p.old.oldRcvd)]).map
        fun (p, out) => .done (p.checkCompletion true) out
    else [.done (p.checkCompletion false) [.forward (C.pair i) (.finAck seq newAck)]]
  | .ack true ack =>
    let newAck := ack - p.delta
    [.done ((p.receiveOldAck newAck).checkCompletion (C.endpoint i))
      (if C.endpoint i then [] else [.forward (C.pair i) (.ack true newAck)])]
  | _ => []

/-- `TwoPaths`: a message from the far end of the new path. -/
def twoPathsNewAddr : Msg → List Outcome
  | .dataAck seq ack =>
    asserting (p.old.oldRcvd ≤ seq) .newBelowOld <|
      let newAck := ack - p.lock.newDelta
      let p := p.receiveNewData seq
      asserting (p.AckSent (C.endpoint i) newAck) .ackUnsent <|
        let p := p.receiveNewAck newAck
        if C.endpoint i then
          [.done (p.sendNewAck true 0) [.addr p.lock.newFarLoc (.ack true p.tcp.rcvd)]]
        else [.done p [.forward (C.pair i) (.dataAck seq newAck)]]
  | .finAck seq ack =>
    let newAck := ack - p.lock.newDelta
    let p := p.receiveFin.receiveNewData seq
    asserting (p.AckSent (C.endpoint i) newAck) .ackUnsent <|
      let p := p.receiveNewAck newAck
      if C.endpoint i then
        (mayEnd (p.sendNewAck true 0) [.addr p.lock.newFarLoc (.ack true p.tcp.rcvd)]).map
          fun (p, out) => .done (p.checkCompletion true) out
      else [.done (p.checkCompletion false) [.forward (C.pair i) (.finAck seq newAck)]]
  | .ack true ack =>
    let newAck := ack - p.lock.newDelta
    asserting (p.AckSent (C.endpoint i) newAck) .ackUnsent
      [.done ((p.receiveNewAck newAck).checkCompletion (C.endpoint i))
        (if C.endpoint i then [] else [.forward (C.pair i) (.ack true newAck)])]
  | _ => []

/-- A data or fin message that an anchor sends on the old path, the new one, or both. -/
def splitForward (fin : Bool) (seq ack : Int) : Port × List Send :=
  let msg (seq ack : Int) : Msg := if fin then .finAck seq ack else .dataAck seq ack
  let q := if fin then p.sendFin else p
  if seq < p.old.oldSent then
    if ack ≤ p.old.oldRcvd then
      (q.sendOldAck ack, [.addr p.farLoc (msg (seq + p.delta) ack)])
    else
      (q.sendNewAck false ack,
        [.addr p.farLoc (msg (seq + p.delta) p.old.oldRcvdAcked),
          .addr p.lock.newFarLoc (.ack true ack)])
  else if ack ≤ p.old.oldRcvd ∧ p.old.oldRcvdAcked < ack then
    let r := p.sendOldAck ack
    let out := [.addr p.farLoc (.ack true ack),
      .addr p.lock.newFarLoc (msg (seq + p.lock.newDelta) p.tcp.rcvdAcked)]
    if fin then ((r.sendFin.sendData false seq).sendNewAck false ack, out)
    else (r.sendData false seq, out)
  else
    ((q.sendData false seq).sendNewAck false ack,
      [.addr p.lock.newFarLoc (msg (seq + p.lock.newDelta) ack)])

/-- `TwoPaths`: a message from the other port of the middlebox. -/
def twoPathsForward : Msg → List Outcome
  | .requestLock requestor _ _ => [.done p [.forward (C.pair i) (.nackLock requestor 0)]]
  | .dataAck seq ack =>
    let (p, out) := splitForward p false seq ack
    [.done (p.checkCompletion (C.endpoint i)) out]
  | .finAck seq ack =>
    let (p, out) := splitForward p true seq ack
    [.done (p.checkCompletion (C.endpoint i)) out]
  | .ack true ack =>
    let (p, out) : Port × List Send :=
      if ack ≤ p.old.oldRcvd then
        if p.old.oldRcvdAcked < ack then
          (p.sendOldAck ack, [.addr p.farLoc (.ack true ack)])
        else (p, [])
      else (p.sendNewAck false ack, [.addr p.lock.newFarLoc (.ack true ack)])
    [.done (p.checkCompletion (C.endpoint i)) out]
  | _ => []

/-- The options of a port that take no message. -/
def ownOptions (a : Own) : List Outcome :=
  match p.loc with
  | .onePath => onePathOwn C i p a
  | .endOnePath => endOnePathOwn C i p a
  | .twoPaths => twoPathsOwn C i p a
  | _ => []

/-- The options of a port that take a message sent by `src`. -/
def addrOptions (src : Addr) (m : Msg) : List Outcome :=
  match p.loc with
  | .endSynchronizing => if src = p.farLoc then synchronizingAddr C i p m else []
  | .onePath => if src = p.farLoc then onePathAddr C i p m else []
  | .endOnePath => if src = p.farLoc then endOnePathAddr C i p m else []
  | .anchoring =>
    (if src = p.farLoc then anchoringAddr C i p m else []) ++
      if src = p.lock.newFarLoc then anchoringNewAddr C i p m else []
  | .twoPaths =>
    (if src = p.farLoc then twoPathsAddr C i p m else []) ++
      if src = p.lock.newFarLoc then twoPathsNewAddr C i p m else []
  | .ended => []

/-- The options of a port that take a message from the other port of the middlebox. -/
def forwardOptions (m : Msg) : List Outcome :=
  match p.loc with
  | .endSynchronizing => synchronizingForward C i p m
  | .onePath => []
  | .endOnePath => endOnePathForward p m
  | .anchoring => anchoringForward C i p m
  | .twoPaths => twoPathsForward C i p m
  | .ended => []

end Dysco.PortProcess
