import Dysco.PortSystem

/-! # What an option does to the locks

The options of a port process, seen from the locking protocol.  Messages of the session
itself (`Msg.IsData`) leave the variables for locking alone, unless they complete a
reconfiguration; every control message has its own case.  `lockMove` says that there is
nothing else, so what is proved of every `LockMove` holds of every step.
-/
namespace Dysco.PortProcess

/-- A message that carries data or acknowledges it. -/
def Msg.IsData : Msg → Prop
  | .dataAck .. | .finAck .. | .ack true _ => True
  | _ => False

/-- What a port reacts to. -/
inductive Input where
  | own (a : Own)
  | addr (src : Addr) (m : Msg)
  | forward (m : Msg)

/-- The options for an input. -/
def options (C : Config) (i : Addr) (p : Port) : Input → List Outcome
  | .own a => ownOptions C i p a
  | .addr src m => addrOptions C i p src m
  | .forward m => forwardOptions C i p m

/-- The input belongs to the session itself. -/
def Input.IsData : Input → Prop
  | .own a => a = .sendData ∨ a = .sendFin
  | .addr _ m => m.IsData
  | .forward m => m.IsData

/-- Nothing but the numbers differs, and the state. -/
structure Port.SameLock (p q : Port) : Prop where
  farLoc : q.farLoc = p.farLoc
  delta : q.delta = p.delta
  lock : q.lock = p.lock

/-- The message goes where a port sends to, and meets a condition. -/
def Send.Meets (C : Config) (i : Addr) (p : Port) (f : Msg → Prop) : Send → Prop
  | .addr dst m => (dst = p.farLoc ∨ dst = p.lock.newFarLoc ∧ p.loc = .twoPaths) ∧ f m
  | .forward dst m => dst = C.pair i ∧ f m

/-- A port in its normal state. -/
def Port.Normal (p : Port) : Prop := p.loc = .onePath ∨ p.loc = .endOnePath

/-- What a port sends while a path is set up. -/
inductive SetUpMove (C : Config) (i : Addr) (p : Port) : Input → List Send → Prop
  | answer {tcp : Bool} {seq seq' ack' : Int} (he : C.endpoint i = true) :
      SetUpMove C i p (.addr p.farLoc (.syn tcp seq)) [.addr p.farLoc (.synAck true seq' ack')]
  | fail {seq : Int} :
      SetUpMove C i p (.addr p.farLoc (.syn false seq)) [.addr p.farLoc .synTimeout]
  | confirm {tcp : Bool} {seq ack ack' : Int} (he : C.endpoint i = true) :
      SetUpMove C i p (.addr p.farLoc (.synAck tcp seq ack)) [.addr p.farLoc (.ack true ack')]
  | lost {seq ack : Int} :
      SetUpMove C i p (.addr p.farLoc (.synAck false seq ack)) [.forward (C.pair i) .synTimeout]
  | confirmed {tcp : Bool} {ack : Int} (he : C.endpoint i = true) :
      SetUpMove C i p (.addr p.farLoc (.ack tcp ack)) []
  | passSyn {tcp : Bool} {seq : Int} :
      SetUpMove C i p (.addr p.farLoc (.syn tcp seq)) [.forward (C.pair i) (.syn tcp seq)]
  | passSynAck {tcp : Bool} {seq ack ack' : Int} :
      SetUpMove C i p (.addr p.farLoc (.synAck tcp seq ack))
        [.forward (C.pair i) (.synAck tcp seq ack')]
  | passAck {tcp : Bool} {ack ack' : Int} :
      SetUpMove C i p (.addr p.farLoc (.ack tcp ack)) [.forward (C.pair i) (.ack tcp ack')]
  | passTimeout : SetUpMove C i p (.addr p.farLoc .synTimeout) [.forward (C.pair i) .synTimeout]
  | sendSyn {tcp : Bool} {seq seq' : Int} :
      SetUpMove C i p (.forward (.syn tcp seq)) [.addr p.farLoc (.syn tcp seq')]
  | sendSynAck {tcp : Bool} {seq seq' ack : Int} :
      SetUpMove C i p (.forward (.synAck tcp seq ack)) [.addr p.farLoc (.synAck tcp seq' ack)]
  | sendAck {tcp : Bool} {ack : Int} :
      SetUpMove C i p (.forward (.ack tcp ack)) [.addr p.farLoc (.ack tcp ack)]
  | sendTimeout : SetUpMove C i p (.forward .synTimeout) [.addr p.farLoc .synTimeout]

/-- **What an option does to the locks.** -/
inductive LockMove (C : Config) (i : Addr) (p : Port) : Input → Port → List Send → Prop
  -- the session itself
  | data {inp : Input} {q : Port} {out : List Send} (hinp : inp.IsData) (hsame : p.SameLock q)
      (hloc : p.loc ≠ .endSynchronizing) (hq : q.loc = p.loc ∨ q.loc = .ended)
      (hout : ∀ m ∈ out, m.Meets C i p Msg.IsData) : LockMove C i p inp q out
  | completed {inp : Input} {q : Port} {out : List Send} (hinp : inp.IsData)
      (hsame : p.SameLock q) (hloc : p.loc = .twoPaths) (hq : q.loc = .twoPaths)
      (hdone : q.Completed) (hout : ∀ m ∈ out, m.Meets C i p Msg.IsData) :
      LockMove C i p inp (q.complete (C.endpoint i)) out
  | synchronizing {inp : Input} {q : Port} {out : List Send} (hloc : p.loc = .endSynchronizing)
      (hfar : q.farLoc = p.farLoc) (hlock : q.lock = p.lock)
      (hq : q.loc = .endSynchronizing ∨ q.Normal ∨ q.loc = .ended)
      (hmove : SetUpMove C i p inp out) : LockMove C i p inp q out
  -- beginning a reconfiguration
  | choose {anchor : Addr} (hloc : p.Normal) (hidle : p.Idle) (hc : C.choose i anchor = true) :
      LockMove C i p (.own (.anchor anchor)) (p.request i anchor (C.newFar i anchor))
        [.addr p.farLoc (.requestLock i anchor 0)]
  | ask {anchor neighbor : Addr} (hloc : p.Normal) (hidle : p.Idle)
      (hc : C.ask i anchor neighbor = true) :
      LockMove C i p (.own (.ask anchor neighbor)) { p with lock.reconfigured := true }
        [.addr p.farLoc (.rightRequest anchor neighbor)]
  | asked {anchor neighbor : Addr} (hloc : p.Normal) (hidle : p.Idle) :
      LockMove C i p (.addr p.farLoc (.rightRequest anchor neighbor))
        (p.request i anchor neighbor) [.addr p.farLoc (.requestLock i anchor 0)]
  | notAsked {anchor neighbor : Addr} (hloc : p.Normal) :
      LockMove C i p (.addr p.farLoc (.rightRequest anchor neighbor)) p []
  -- a request on its way
  | requested {requestor : Addr} {delta : Int} (hloc : p.Normal) (huse : p.tcp.inUse = true) :
      LockMove C i p (.addr p.farLoc (.requestLock requestor i delta))
        { p with
          loc := .anchoring
          lock :=
            { p.lock with
              otherAnchor := requestor
              newDelta := delta
              newFarLoc := C.newFar i requestor } }
        [.addr p.farLoc (.ackLock requestor i 0)]
  | notRequested {requestor : Addr} {delta : Int} (hloc : p.Normal) :
      LockMove C i p (.addr p.farLoc (.requestLock requestor i delta)) p []
  | notFound {requestor anchor : Addr} {delta : Int} {m : Msg} (hloc : p.loc = .onePath)
      (hne : anchor ≠ i) (hend : i = C.rightEnd)
      (hm : m = .nackLock requestor anchor ∨ m = .lockTimeout requestor anchor) :
      LockMove C i p (.addr p.farLoc (.requestLock requestor anchor delta)) p [.addr p.farLoc m]
  | requestAddr {requestor anchor : Addr} {delta : Int} (hloc : p.loc = .endOnePath)
      (hne : anchor ≠ i) :
      LockMove C i p (.addr p.farLoc (.requestLock requestor anchor delta)) p
        [.forward (C.pair i) (.requestLock requestor anchor delta)]
  | requestLost {requestor anchor : Addr} {delta : Int} (hloc : p.loc = .endOnePath) :
      LockMove C i p (.addr p.farLoc (.requestLock requestor anchor delta)) p
        [.addr p.farLoc (.lockTimeout 0 0)]
  | requestForward {requestor anchor : Addr} {delta : Int} (hloc : p.loc = .endOnePath)
      (hfree : p.lock.lockPending = false ∨ requestor = p.lock.requestor) :
      LockMove C i p (.forward (.requestLock requestor anchor delta))
        { p with lock := { p.lock with lockPending := true, requestor := requestor } }
        [.addr p.farLoc (.requestLock requestor anchor (delta + p.delta))]
  -- the answer on its way
  | ackAddr {requestor anchor : Addr} {delta : Int} (hloc : p.loc = .endOnePath)
      (hheld : (p.lock.locked = true ∨ p.lock.lockPending = true) ∧ requestor = p.lock.requestor) :
      LockMove C i p (.addr p.farLoc (.ackLock requestor anchor delta))
        { p with lock := { p.lock with lockPending := false, locked := true } }
        [.forward (C.pair i) (.ackLock requestor anchor delta)]
  | ackLost {requestor anchor : Addr} {delta : Int} (hloc : p.loc = .endOnePath)
      (hheld : (p.lock.locked = true ∨ p.lock.lockPending = true) ∧ requestor = p.lock.requestor) :
      LockMove C i p (.addr p.farLoc (.ackLock requestor anchor delta)) p
        [.forward (C.pair i) (.lockTimeout 0 0)]
  | ackForward {requestor anchor : Addr} {delta : Int} (hloc : p.loc = .endOnePath) :
      LockMove C i p (.forward (.ackLock requestor anchor delta)) p
        [.addr p.farLoc (.ackLock requestor anchor (delta + p.delta))]
  | nackAddr {requestor : Addr} (hloc : p.loc = .endOnePath)
      (hheld : (p.lock.locked = true ∨ p.lock.lockPending = true) ∧ requestor = p.lock.requestor) :
      LockMove C i p (.addr p.farLoc (.nackLock requestor 0))
        { p with lock := { p.lock with lockPending := false, locked := false, requestor := 0 } }
        [.forward (C.pair i) (.nackLock requestor 0)]
  | nackForward {requestor : Addr} (hloc : p.loc = .endOnePath) :
      LockMove C i p (.forward (.nackLock requestor 0)) p [.addr p.farLoc (.nackLock requestor 0)]
  | timeoutAddr (hloc : p.loc = .endOnePath) :
      LockMove C i p (.addr p.farLoc (.lockTimeout 0 0)) p
        [.forward (C.pair i) (.lockTimeout 0 0)]
  | timeoutForward (hloc : p.loc = .endOnePath) :
      LockMove C i p (.forward (.lockTimeout 0 0)) p [.addr p.farLoc (.lockTimeout 0 0)]
  | cancelAddr {requestor : Addr} (hloc : p.loc = .endOnePath) :
      LockMove C i p (.addr p.farLoc (.cancelLock requestor)) p
        [.forward (C.pair i) (.cancelLock requestor)]
  | cancelForward {requestor : Addr} (hloc : p.loc = .endOnePath)
      (hheld : p.lock.locked = true ∧ requestor = p.lock.requestor) :
      LockMove C i p (.forward (.cancelLock requestor))
        { p with lock := { p.lock with lockPending := false, locked := false, requestor := 0 } }
        [.addr p.farLoc (.cancelLock requestor)]
  | ackCancelAddr {requestor : Addr} (hloc : p.loc = .endOnePath) :
      LockMove C i p (.addr p.farLoc (.ackCancel requestor)) p
        [.forward (C.pair i) (.ackCancel requestor)]
  | ackCancelForward {requestor : Addr} (hloc : p.loc = .endOnePath) :
      LockMove C i p (.forward (.ackCancel requestor)) p [.addr p.farLoc (.ackCancel requestor)]
  -- an anchor
  | granted {requestor anchor : Addr} {delta : Int} (hloc : p.loc = .anchoring)
      (hheld : (p.lock.locked = true ∨ p.lock.lockPending = true) ∧ anchor = p.lock.otherAnchor)
      (huse : p.tcp.inUse = true) (hnone : p.lock.requestPendingAnchor = 0) :
      LockMove C i p (.addr p.farLoc (.ackLock requestor anchor delta))
        { p with
          lock :=
            { p.lock with locked := true, newDelta := delta, requestor := 0, requesting := false } }
        [.addr p.lock.newFarLoc (.syn false 0)]
  | grantedNack {requestor anchor : Addr} {delta : Int} (hloc : p.loc = .anchoring)
      (hheld : (p.lock.locked = true ∨ p.lock.lockPending = true) ∧ anchor = p.lock.otherAnchor)
      (huse : p.tcp.inUse = true) (hsome : p.lock.requestPendingAnchor ≠ 0) :
      LockMove C i p (.addr p.farLoc (.ackLock requestor anchor delta))
        { p with
          lock :=
            { p.lock with
              locked := true
              newDelta := delta
              requestor := 0
              requesting := false
              requestPendingRequestor := 0
              requestPendingAnchor := 0
              requestPendingDelta := 0 } }
        [.forward (C.pair i) (.nackLock p.lock.requestPendingRequestor 0),
          .addr p.lock.newFarLoc (.syn false 0)]
  | notGranted {requestor anchor : Addr} {delta : Int} (hloc : p.loc = .anchoring)
      (huse : p.tcp.inUse = false) :
      LockMove C i p (.addr p.farLoc (.ackLock requestor anchor delta)) p []
  | refused (hloc : p.loc = .anchoring) (hheld : p.lock.locked = true ∨ p.lock.lockPending = true)
      (hnone : p.lock.requestPendingRequestor = 0) :
      LockMove C i p (.addr p.farLoc (.nackLock i 0))
        ({ p with
            lock :=
              { p.lock with
                newFarLoc := 0
                otherAnchor := 0
                requesting := false
                requestor := 0
                lockPending := false } }.toOnePath (C.endpoint i)) []
  | refusedPass (hloc : p.loc = .anchoring)
      (hheld : p.lock.locked = true ∨ p.lock.lockPending = true)
      (hsome : p.lock.requestPendingRequestor ≠ 0) :
      LockMove C i p (.addr p.farLoc (.nackLock i 0))
        ({ p with
            lock :=
              { p.lock with
                newFarLoc := 0
                otherAnchor := 0
                requesting := false
                requestor := p.lock.requestPendingRequestor
                requestPendingRequestor := 0 } }.toOnePath (C.endpoint i))
        [.addr p.farLoc
          (.requestLock p.lock.requestPendingRequestor p.lock.requestPendingAnchor
            (p.lock.requestPendingDelta + p.delta))]
  | retry (hloc : p.loc = .anchoring) (huse : p.tcp.inUse = true) :
      LockMove C i p (.addr p.farLoc (.lockTimeout 0 0)) p
        [.addr p.farLoc (.requestLock i p.lock.otherAnchor 0)]
  | giveUp (hloc : p.loc = .anchoring) (huse : p.tcp.inUse = false) :
      LockMove C i p (.addr p.farLoc (.lockTimeout 0 0))
        ({ p with lock.requesting := false }.toOnePath (C.endpoint i)) []
  | requestedAgain (hloc : p.loc = .anchoring) :
      LockMove C i p (.addr p.farLoc (.requestLock p.lock.otherAnchor i p.lock.newDelta)) p
        [.addr p.farLoc (.ackLock p.lock.otherAnchor i 0)]
  | canceled (hloc : p.loc = .anchoring) :
      LockMove C i p (.addr p.farLoc (.cancelLock p.lock.otherAnchor))
        (p.toOnePath (C.endpoint i)) [.addr p.farLoc (.ackCancel p.lock.otherAnchor)]
  | cancelDone (hloc : p.loc = .anchoring) :
      LockMove C i p (.addr p.farLoc (.ackCancel i)) (p.toOnePath (C.endpoint i)) []
  | save {requestor anchor : Addr} {delta : Int} (hloc : p.loc = .anchoring)
      (hreq : p.lock.requesting = true) :
      LockMove C i p (.forward (.requestLock requestor anchor delta))
        { p with
          lock :=
            { p.lock with
              requestPendingRequestor := requestor
              requestPendingAnchor := anchor
              requestPendingDelta := delta } } []
  | refuse {requestor anchor : Addr} {delta : Int}
      (hloc : p.loc = .anchoring ∧ p.lock.requesting = false ∨ p.loc = .twoPaths) :
      LockMove C i p (.forward (.requestLock requestor anchor delta)) p
        [.forward (C.pair i) (.nackLock requestor 0)]
  -- the new path
  | newSyn {seq : Int} {out : List Send} (hloc : p.loc = .anchoring)
      (hout : out = [] ∨ out = [.addr p.lock.newFarLoc (.synAck false 0 0)]) :
      LockMove C i p (.addr p.lock.newFarLoc (.syn false seq)) p out
  | setUp {seq ack : Int} (hloc : p.loc = .anchoring) (huse : p.tcp.inUse = true) :
      LockMove C i p (.addr p.lock.newFarLoc (.synAck false seq ack))
        (p.split.checkCompletion (C.endpoint i)) [.addr p.lock.newFarLoc (.ack false 0)]
  | notSetUp {seq ack : Int} (hloc : p.loc = .anchoring) (huse : p.tcp.inUse = false) :
      LockMove C i p (.addr p.lock.newFarLoc (.synAck false seq ack)) p []
  | failed (hloc : p.loc = .anchoring) :
      LockMove C i p (.addr p.lock.newFarLoc .synTimeout) p [.addr p.farLoc (.cancelLock i)]
  | setUpRight {ack : Int} (hloc : p.loc = .anchoring) :
      LockMove C i p (.addr p.lock.newFarLoc (.ack false ack))
        (p.split.checkCompletion (C.endpoint i)) []

/-! ## The variables that the macros leave alone -/

/-- An assertion of the source adds no outcome but its failure. So an option that goes through has
met the assertion. -/
theorem mem_asserting {b : Prop} [Decidable b] {f : Fault} {os : List Outcome} {q : Port}
    {out : List Send} : .done q out ∈ asserting b f os ↔ b ∧ .done q out ∈ os := by
  unfold asserting
  split <;> simp_all

namespace Port
variable (p : Port)

@[simp] theorem checkEnding_farLoc : p.checkEnding.farLoc = p.farLoc := by
  unfold checkEnding
  split <;> rfl

@[simp] theorem checkEnding_delta : p.checkEnding.delta = p.delta := by
  unfold checkEnding
  split <;> rfl

@[simp] theorem checkEnding_lock : p.checkEnding.lock = p.lock := by
  unfold checkEnding
  split <;> rfl

/-- `CheckEnding` moves a port to its last state or nowhere. -/
theorem checkEnding_loc : p.checkEnding.loc = p.loc ∨ p.checkEnding.loc = .ended := by
  unfold checkEnding
  split
  · exact .inr rfl
  · exact .inl rfl

@[simp] theorem complete_farLoc (e : Bool) : (p.complete e).farLoc = p.lock.newFarLoc :=
  checkEnding_farLoc _

@[simp] theorem complete_delta (e : Bool) : (p.complete e).delta = p.lock.newDelta :=
  checkEnding_delta _

@[simp] theorem complete_lock (e : Bool) :
    (p.complete e).lock =
      { p.lock with
        reconfigured := true, locked := false, otherAnchor := 0, newFarLoc := 0, newDelta := 0 } :=
  checkEnding_lock _

/-- Whichever kind of port it is, `toOnePath` brings it to the normal state of its kind. -/
theorem toOnePath_normal (e : Bool) : (p.toOnePath e).Normal := by
  cases e
  · exact .inr rfl
  · exact .inl rfl

/-- After a completed reconfiguration a port is normal again, unless the session has ended
meanwhile. -/
theorem complete_loc (e : Bool) : (p.complete e).Normal ∨ (p.complete e).loc = .ended := by
  refine (checkEnding_loc _).imp_left fun h => ?_
  rw [Normal, complete, h]
  exact toOnePath_normal p e

variable {p} in
/-- A normal port takes no part in a reconfiguration, neither before the new path is there nor
after. -/
theorem Normal.ne (h : p.Normal) : p.loc ≠ .anchoring ∧ p.loc ≠ .twoPaths := by
  rcases h with h | h <;> rw [h] <;> exact ⟨nofun, nofun⟩

/-- `CheckCompletion` takes a port out of the reconfiguration. -/
theorem complete_loc_ne (e : Bool) :
    (p.complete e).loc ≠ .anchoring ∧ (p.complete e).loc ≠ .twoPaths := by
  rcases p.complete_loc e with h | h
  · exact h.ne
  · rw [h]
    exact ⟨nofun, nofun⟩

/-- Only numbers differ. -/
structure SameFrame (p q : Port) : Prop where
  same : p.SameLock q
  loc : q.loc = p.loc

variable {p}

theorem SameFrame.refl (p : Port) : p.SameFrame p := ⟨⟨rfl, rfl, rfl⟩, rfl⟩

/-- What two macros in a row leave alone. -/
theorem SameFrame.trans {q r : Port} (h : p.SameFrame q) (h' : q.SameFrame r) :
    p.SameFrame r :=
  ⟨⟨h'.same.farLoc.trans h.same.farLoc, h'.same.delta.trans h.same.delta,
    h'.same.lock.trans h.same.lock⟩, h'.loc.trans h.loc⟩

/-- A macro with two branches leaves alone what both branches leave alone. -/
theorem SameFrame.ite {b : Prop} [Decidable b] {q r : Port} (h : p.SameFrame q)
    (h' : p.SameFrame r) : p.SameFrame (if b then q else r) := by
  split
  · exact h
  · exact h'

/-- An update of the sequence numbers, whatever their new values, is none of the locks. -/
theorem SameFrame.numbers (t : Tcp) (o : OldPath) : p.SameFrame { p with tcp := t, old := o } :=
  ⟨⟨rfl, rfl, rfl⟩, rfl⟩

variable (p)

/-- The macros of `dysco3.pml` for data, for FIN and for acknowledgments change numbers only. -/
theorem sameFrame_sendData (e : Bool) (n : Int) : p.SameFrame (p.sendData e n) :=
  .numbers _ _

theorem sameFrame_receiveData (n : Int) : p.SameFrame (p.receiveData n) := .numbers _ _

theorem sameFrame_sendFin : p.SameFrame p.sendFin := .numbers _ _

theorem sameFrame_receiveFin : p.SameFrame p.receiveFin := .numbers _ _

theorem sameFrame_sendAck (e : Bool) (n : Int) : p.SameFrame (p.sendAck e n) := .numbers _ _

theorem sameFrame_receiveAck (n : Int) : p.SameFrame (p.receiveAck n) := .numbers _ _

theorem sameFrame_receiveOldData (n : Int) : p.SameFrame (p.receiveOldData n) :=
  .ite (.numbers _ _) (.refl p)

theorem sameFrame_receiveNewData (n : Int) : p.SameFrame (p.receiveNewData n) := .numbers _ _

theorem sameFrame_sendOldAck (n : Int) : p.SameFrame (p.sendOldAck n) :=
  .ite (.numbers _ _) (.numbers _ _)

theorem sameFrame_sendNewAck (e : Bool) (n : Int) : p.SameFrame (p.sendNewAck e n) :=
  .ite (.numbers _ _) (.numbers _ _)

/-- `ReceiveOldAck` has two updates, each under its own condition. -/
theorem sameFrame_receiveOldAck (n : Int) : p.SameFrame (p.receiveOldAck n) := by
  have h : p.SameFrame
      (if p.old.oldSentAcked < n then { p with old := { p.old with oldSentAcked := n } } else p) :=
    .ite (.numbers _ _) (.refl p)
  exact .ite (h.trans (.numbers _ _)) h

/-- `ReceiveNewAck` too, with the numbers of the new path. -/
theorem sameFrame_receiveNewAck (n : Int) : p.SameFrame (p.receiveNewAck n) := by
  have h : p.SameFrame
      (if p.tcp.sentAcked < n then { p with tcp := { p.tcp with sentAcked := n } } else p) :=
    .ite (.numbers _ _) (.refl p)
  exact .ite (h.trans (.numbers _ _)) h

end Port

/-! ## The session's own messages -/

section Data
variable {C : Config} {i : Addr} {p q : Port} {inp : Input} {out : List Send}

/-- The port sends the session's own messages only, to where a port sends. -/
def OnlyData (C : Config) (i : Addr) (p : Port) (out : List Send) : Prop :=
  ∀ m ∈ out, m.Meets C i p Msg.IsData

theorem onlyData_nil : OnlyData C i p [] := by
  intro m hm
  cases hm

/-- One more message of the session may be sent first. -/
theorem onlyData_cons {m : Send} (hm : m.Meets C i p Msg.IsData) (h : OnlyData C i p out) :
    OnlyData C i p (m :: out) := by
  intro k hk
  rcases List.mem_cons.mp hk with rfl | hk
  · exact hm
  · exact h k hk

/-- A message of the session along the path it has. -/
theorem onlyData_far {m : Msg} {dst : Addr} (hd : dst = p.farLoc) (hm : m.IsData)
    (h : OnlyData C i p out) : OnlyData C i p (.addr dst m :: out) :=
  onlyData_cons ⟨.inl hd, hm⟩ h

/-- While there are two paths, a message of the session may take the new one. -/
theorem onlyData_newFar {m : Msg} {dst : Addr} (hd : dst = p.lock.newFarLoc) (hm : m.IsData)
    (hloc : p.loc = .twoPaths) (h : OnlyData C i p out) :
    OnlyData C i p (.addr dst m :: out) :=
  onlyData_cons ⟨.inr ⟨hd, hloc⟩, hm⟩ h

/-- A message of the session handed to the other port of the same host. -/
theorem onlyData_pair {m : Msg} (hm : m.IsData) (h : OnlyData C i p out) :
    OnlyData C i p (.forward (C.pair i) m :: out) :=
  onlyData_cons ⟨rfl, hm⟩ h

theorem OnlyData.append {out' : List Send} (h : OnlyData C i p out) (h' : OnlyData C i p out') :
    OnlyData C i p (out ++ out') := by
  intro m hm
  rcases List.mem_append.mp hm with hm | hm
  · exact h m hm
  · exact h' m hm

theorem OnlyData.ite {b : Prop} [Decidable b] {out' : List Send} (h : OnlyData C i p out)
    (h' : OnlyData C i p out') : OnlyData C i p (if b then out else out') := by
  split
  · exact h
  · exact h'

/-- A step that changes nothing but numbers and sends nothing but the session's messages is of the
first kind. -/
theorem LockMove.of_sameFrame (hinp : inp.IsData) (hloc : p.loc ≠ .endSynchronizing)
    (h : p.SameFrame q) (hout : OnlyData C i p out) : LockMove C i p inp q out :=
  .data hinp h.same hloc (.inl h.loc) hout

/-- It stays so if the port goes to its last state at the end of the step. -/
theorem LockMove.of_checkEnding (hinp : inp.IsData) (hloc : p.loc ≠ .endSynchronizing)
    (h : p.SameFrame q) (hout : OnlyData C i p out) : LockMove C i p inp q.checkEnding out := by
  unfold Port.checkEnding
  split
  · exact .data hinp ⟨h.same.farLoc, h.same.delta, h.same.lock⟩ hloc (.inr rfl) hout
  · exact .of_sameFrame hinp hloc h hout

/-- At a port with two paths the step may complete the reconfiguration, which is the second kind. -/
theorem LockMove.of_checkCompletion {e : Bool} (he : C.endpoint i = e) (hinp : inp.IsData)
    (hloc : p.loc = .twoPaths) (h : p.SameFrame q) (hout : OnlyData C i p out) :
    LockMove C i p inp (q.checkCompletion e) out := by
  subst he
  unfold Port.checkCompletion
  split
  next hdone => exact .completed hinp h.same hloc (h.loc.trans hloc) hdone hout
  next => exact .of_sameFrame hinp (by rw [hloc]; nofun) h hout

variable (C i p)

/-- A middlebox port that takes data from the path hands it to the other port. -/
theorem passAddr_frame (fin : Bool) (seq ack : Int) :
    p.SameFrame (passAddr C i p fin seq ack).1 ∧
      OnlyData C i p (passAddr C i p fin seq ack).2 := by
  cases fin with
  | false =>
    exact ⟨(p.sameFrame_receiveData _).trans (Port.sameFrame_receiveAck _ _),
      onlyData_pair trivial onlyData_nil⟩
  | true =>
    exact ⟨(p.sameFrame_receiveFin.trans (Port.sameFrame_receiveData _ _)).trans
        (Port.sameFrame_receiveAck _ _),
      onlyData_pair trivial onlyData_nil⟩

/-- A port that is handed data sends it along the path. -/
theorem passForward_frame (fin : Bool) (seq ack : Int) :
    p.SameFrame (passForward p fin seq ack).1 ∧
      OnlyData C i p (passForward p fin seq ack).2 := by
  cases fin with
  | false =>
    exact ⟨(p.sameFrame_sendData _ _).trans (Port.sameFrame_sendAck _ _ _),
      onlyData_far rfl trivial onlyData_nil⟩
  | true =>
    exact ⟨(p.sameFrame_sendFin.trans (Port.sameFrame_sendData _ _ _)).trans
        (Port.sameFrame_sendAck _ _ _),
      onlyData_far rfl trivial onlyData_nil⟩

/-- With two paths there are four cases: the data and the acknowledgment each go the old way or the
new one, and what they change differs, but none touches a lock. -/
theorem splitForward_frame (hloc : p.loc = .twoPaths) (fin : Bool) (seq ack : Int) :
    p.SameFrame (splitForward p fin seq ack).1 ∧
      OnlyData C i p (splitForward p fin seq ack).2 := by
  have hfin : p.SameFrame (if fin then p.sendFin else p) := .ite p.sameFrame_sendFin (.refl p)
  have hmsg : ∀ a b : Int, Msg.IsData (if fin then .finAck a b else .dataAck a b) := by
    intro a b
    cases fin <;> exact trivial
  unfold splitForward
  by_cases hseq : seq < p.old.oldSent
  · simp only [if_pos hseq]
    by_cases hack : ack ≤ p.old.oldRcvd
    · rw [if_pos hack]
      exact ⟨hfin.trans (Port.sameFrame_sendOldAck _ _),
        onlyData_far rfl (hmsg _ _) onlyData_nil⟩
    · rw [if_neg hack]
      have hout : OnlyData C i p [.addr p.lock.newFarLoc (.ack true ack)] :=
        onlyData_newFar rfl (show Msg.IsData (.ack true ack) from trivial) hloc onlyData_nil
      exact ⟨hfin.trans (Port.sameFrame_sendNewAck _ _ _), onlyData_far rfl (hmsg _ _) hout⟩
  · simp only [if_neg hseq]
    by_cases hack : ack ≤ p.old.oldRcvd ∧ p.old.oldRcvdAcked < ack
    · rw [if_pos hack]
      have hnew : OnlyData C i p
          [.addr p.lock.newFarLoc
            (if fin then .finAck (seq + p.lock.newDelta) p.tcp.rcvdAcked
              else .dataAck (seq + p.lock.newDelta) p.tcp.rcvdAcked)] :=
        onlyData_newFar rfl (hmsg _ _) hloc onlyData_nil
      have hout := onlyData_far (p := p) rfl (show Msg.IsData (.ack true ack) from trivial) hnew
      cases fin with
      | true =>
        exact ⟨(((p.sameFrame_sendOldAck _).trans (Port.sameFrame_sendFin _)).trans
          (Port.sameFrame_sendData _ _ _)).trans (Port.sameFrame_sendNewAck _ _ _), hout⟩
      | false => exact ⟨(p.sameFrame_sendOldAck _).trans (Port.sameFrame_sendData _ _ _), hout⟩
    · rw [if_neg hack]
      exact ⟨(hfin.trans (Port.sameFrame_sendData _ _ _)).trans (Port.sameFrame_sendNewAck _ _ _),
        onlyData_newFar rfl (hmsg _ _) hloc onlyData_nil⟩

variable {C i p}

/-- Both answers to a FIN: an acknowledgment alone, or with a FIN of its own. -/
theorem answerFin_frame (h : p.SameFrame q) {x : Port × List Send} (hx : x ∈ answerFin q) :
    p.SameFrame x.1 ∧ OnlyData C i p x.2 := by
  unfold answerFin at hx
  rcases List.mem_cons.mp hx with rfl | hx
  · exact ⟨h.trans (Port.sameFrame_sendAck _ _ _),
      onlyData_far h.same.farLoc trivial onlyData_nil⟩
  · split at hx
    · rw [List.mem_singleton.mp hx]
      exact ⟨((h.trans q.sameFrame_sendFin).trans (Port.sameFrame_sendData _ _ _)).trans
          (Port.sameFrame_sendAck _ _ _),
        onlyData_far h.same.farLoc trivial onlyData_nil⟩
    · cases hx

/-- A port that has seen the other FIN may add its own to what it sends. -/
theorem mayEnd_frame (h : p.SameFrame q) (hloc : p.loc = .twoPaths)
    (hout : OnlyData C i p out) {x : Port × List Send} (hx : x ∈ mayEnd q out) :
    p.SameFrame x.1 ∧ OnlyData C i p x.2 := by
  unfold mayEnd at hx
  rcases List.mem_cons.mp hx with rfl | hx
  · exact ⟨h, hout⟩
  · split at hx
    · rw [List.mem_singleton.mp hx]
      exact ⟨((h.trans q.sameFrame_sendFin).trans (Port.sameFrame_sendData _ _ _)).trans
          (Port.sameFrame_sendNewAck _ _ _),
        hout.append (onlyData_newFar (by rw [h.same.lock]) trivial hloc onlyData_nil)⟩
    · cases hx

end Data

/-! ## There is nothing else -/

section Inversion
variable {C : Config} {i : Addr} {p q : Port} {out : List Send} {m : Msg}

/-- Setting up, from the path: an endpoint answers, a middlebox passes on or gives up. -/
theorem lockMove_synchronizingAddr (hloc : p.loc = .endSynchronizing)
    (h : .done q out ∈ synchronizingAddr C i p m) : LockMove C i p (.addr p.farLoc m) q out := by
  unfold synchronizingAddr at h
  split at h
  case h_1 tcp seq =>
    simp only at h
    split at h
    next he =>
      obtain ⟨-, h⟩ := mem_asserting.mp h
      cases List.mem_singleton.mp h
      exact .synchronizing hloc rfl rfl (.inl hloc) (.answer he)
    next =>
      rcases List.mem_cons.mp h with h | h
      · cases h
        exact .synchronizing hloc rfl rfl (.inl hloc) .passSyn
      · split at h
        next => cases h
        next ht =>
          cases List.mem_singleton.mp h
          rw [Bool.of_not_eq_true ht]
          exact .synchronizing hloc rfl rfl (.inr (.inr rfl)) .fail
  case h_2 tcp seq ack =>
    obtain ⟨-, h⟩ := mem_asserting.mp h
    simp only at h
    split at h
    next he =>
      obtain ⟨-, h⟩ := mem_asserting.mp h
      cases List.mem_singleton.mp h
      exact .synchronizing hloc rfl rfl (.inr (.inl (.inl rfl))) (.confirm he)
    next =>
      rcases List.mem_cons.mp h with h | h
      · cases h
        exact .synchronizing hloc rfl rfl (.inl hloc) .passSynAck
      · split at h
        next => cases h
        next ht =>
          cases List.mem_singleton.mp h
          rw [Bool.of_not_eq_true ht]
          exact .synchronizing hloc rfl rfl (.inl hloc) .lost
  case h_3 tcp ack =>
    obtain ⟨-, h⟩ := mem_asserting.mp h
    simp only at h
    split at h
    next he =>
      cases List.mem_singleton.mp h
      exact .synchronizing hloc rfl rfl (.inr (.inl (.inl rfl))) (.confirmed he)
    next =>
      cases List.mem_singleton.mp h
      exact .synchronizing hloc rfl rfl (.inr (.inl (.inr rfl))) .passAck
  case h_4 =>
    cases List.mem_singleton.mp h
    exact .synchronizing hloc rfl rfl (.inr (.inr rfl)) .passTimeout
  case h_5 => cases h

/-- Setting up, from the other port of the host: what it hands over is sent on. -/
theorem lockMove_synchronizingForward (hloc : p.loc = .endSynchronizing)
    (h : .done q out ∈ synchronizingForward C i p m) : LockMove C i p (.forward m) q out := by
  unfold synchronizingForward at h
  split at h
  case h_1 tcp seq =>
    cases List.mem_singleton.mp h
    cases tcp <;> exact .synchronizing hloc rfl rfl (.inl hloc) .sendSyn
  case h_2 tcp seq ack =>
    cases List.mem_singleton.mp h
    cases tcp <;> exact .synchronizing hloc rfl rfl (.inl hloc) .sendSynAck
  case h_3 =>
    cases List.mem_singleton.mp h
    exact .synchronizing hloc rfl rfl (.inr (.inl (.inr rfl))) .sendAck
  case h_4 =>
    cases List.mem_singleton.mp h
    exact .synchronizing hloc rfl rfl (.inr (.inr rfl)) .sendTimeout
  case h_5 => cases h

/-- A normal port may choose to reconfigure, alone or by asking its right neighbor. -/
theorem lockMove_chooseOwn {a : Own} (hloc : p.Normal) (h : .done q out ∈ chooseOwn C i p a) :
    LockMove C i p (.own a) q out := by
  cases a with
  | sendData => cases h
  | sendFin => cases h
  | anchor anchor =>
    simp only [chooseOwn] at h
    split at h
    next hc =>
      cases List.mem_singleton.mp h
      exact .choose hloc hc.1 hc.2
    next => cases h
  | ask anchor neighbor =>
    simp only [chooseOwn] at h
    split at h
    next hc =>
      cases List.mem_singleton.mp h
      exact .ask hloc hc.1 hc.2
    next => cases h

/-- An idle port that is asked to reconfigure becomes the left anchor; a busy one ignores the
message. -/
theorem lockMove_onRightRequest {anchor neighbor : Addr} (hloc : p.Normal)
    (h : .done q out ∈ onRightRequest i p anchor neighbor) :
    LockMove C i p (.addr p.farLoc (.rightRequest anchor neighbor)) q out := by
  unfold onRightRequest at h
  split at h
  next hc =>
    cases List.mem_singleton.mp h
    exact .asked hloc hc
  next =>
    cases List.mem_singleton.mp h
    exact .notAsked hloc

/-- The right anchor of a request grants it while the session is in use. -/
theorem lockMove_onRequested {requestor : Addr} {delta : Int} (hloc : p.Normal)
    (h : .done q out ∈ onRequested C i p requestor i delta) :
    LockMove C i p (.addr p.farLoc (.requestLock requestor i delta)) q out := by
  unfold onRequested at h
  split at h
  next hc =>
    cases List.mem_singleton.mp h
    exact .requested hloc hc
  next =>
    cases List.mem_singleton.mp h
    exact .notRequested hloc

/-- At an endpoint, what the port does of its own accord. -/
theorem lockMove_onePathOwn {a : Own} (hloc : p.loc = .onePath)
    (h : .done q out ∈ onePathOwn C i p a) : LockMove C i p (.own a) q out := by
  have hne : p.loc ≠ .endSynchronizing := by rw [hloc]; nofun
  cases a with
  | sendFin =>
    simp only [onePathOwn] at h
    split at h
    · cases List.mem_singleton.mp h
      exact .of_sameFrame (.inr rfl) hne
        ((p.sameFrame_sendFin.trans (Port.sameFrame_sendData _ _ _)).trans
          (Port.sameFrame_sendAck _ _ _))
        (onlyData_far rfl trivial onlyData_nil)
    · cases h
  | sendData =>
    simp only [onePathOwn] at h
    split at h
    · cases List.mem_singleton.mp h
      exact .of_sameFrame (.inl rfl) hne
        ((p.sameFrame_sendData _ _).trans (Port.sameFrame_sendAck _ _ _))
        (onlyData_far rfl trivial onlyData_nil)
    · cases h
  | anchor => exact lockMove_chooseOwn (.inl hloc) h
  | ask => exact lockMove_chooseOwn (.inl hloc) h

/-- At an endpoint, from the path. The assertion that the requested anchor is this host or the
request has come to the right end is part of the case. -/
theorem lockMove_onePathAddr (hloc : p.loc = .onePath) (h : .done q out ∈ onePathAddr C i p m) :
    LockMove C i p (.addr p.farLoc m) q out := by
  have hne : p.loc ≠ .endSynchronizing := by rw [hloc]; nofun
  unfold onePathAddr at h
  split at h
  case h_1 seq ack =>
    obtain ⟨-, h⟩ := mem_asserting.mp h
    cases List.mem_singleton.mp h
    exact .of_sameFrame trivial hne
      (((p.sameFrame_receiveData _).trans (Port.sameFrame_receiveAck _ _)).trans
        (Port.sameFrame_sendAck _ _ _))
      (onlyData_far rfl trivial onlyData_nil)
  case h_2 seq ack =>
    obtain ⟨-, h⟩ := mem_asserting.mp h
    obtain ⟨x, hx, he⟩ := List.mem_map.mp h
    cases he
    have hframe := (p.sameFrame_receiveFin.trans (Port.sameFrame_receiveData _ seq)).trans
      (Port.sameFrame_receiveAck _ (ack - p.delta))
    have hx := answerFin_frame (C := C) (i := i) hframe hx
    exact .of_checkEnding trivial hne hx.1 hx.2
  case h_3 ack =>
    obtain ⟨-, h⟩ := mem_asserting.mp h
    cases List.mem_singleton.mp h
    exact .of_checkEnding trivial hne (p.sameFrame_receiveAck _) onlyData_nil
  case h_4 anchor neighbor => exact lockMove_onRightRequest (.inl hloc) h
  case h_5 requestor anchor delta =>
    obtain ⟨hend, h⟩ := mem_asserting.mp h
    split at h
    next he =>
      subst he
      exact lockMove_onRequested (.inl hloc) h
    next he =>
      rcases List.mem_cons.mp h with h | h
      · cases h
        exact .notFound hloc he hend (.inl rfl)
      · cases List.mem_singleton.mp h
        exact .notFound hloc he hend (.inr rfl)
  case h_6 => cases h

/-- At a middlebox, from the path. A grant or a refusal is passed on only if the port holds the lock
for that requestor, which is what the assertion says. -/
theorem lockMove_endOnePathAddr (hloc : p.loc = .endOnePath)
    (h : .done q out ∈ endOnePathAddr C i p m) : LockMove C i p (.addr p.farLoc m) q out := by
  have hne : p.loc ≠ .endSynchronizing := by rw [hloc]; nofun
  unfold endOnePathAddr at h
  split at h
  case h_1 seq ack =>
    cases List.mem_singleton.mp h
    have hx := passAddr_frame C i p false seq ack
    exact .of_sameFrame trivial hne hx.1 hx.2
  case h_2 seq ack =>
    cases List.mem_singleton.mp h
    have hx := passAddr_frame C i p true seq ack
    exact .of_checkEnding trivial hne hx.1 hx.2
  case h_3 ack =>
    cases List.mem_singleton.mp h
    exact .of_checkEnding trivial hne (p.sameFrame_receiveAck _)
      (onlyData_pair trivial onlyData_nil)
  case h_4 anchor neighbor => exact lockMove_onRightRequest (.inr hloc) h
  case h_5 requestor anchor delta =>
    split at h
    next he =>
      subst he
      exact lockMove_onRequested (.inr hloc) h
    next he =>
      rcases List.mem_cons.mp h with h | h
      · cases h
        exact .requestAddr hloc he
      · cases List.mem_singleton.mp h
        exact .requestLost hloc
  case h_6 requestor anchor delta =>
    obtain ⟨hheld, h⟩ := mem_asserting.mp h
    rcases List.mem_cons.mp h with h | h
    · cases h
      exact .ackAddr hloc hheld
    · cases List.mem_singleton.mp h
      exact .ackLost hloc hheld
  case h_7 requestor =>
    obtain ⟨hheld, h⟩ := mem_asserting.mp h
    cases List.mem_singleton.mp h
    exact .nackAddr hloc hheld
  case h_8 =>
    cases List.mem_singleton.mp h
    exact .timeoutAddr hloc
  case h_9 =>
    cases List.mem_singleton.mp h
    exact .cancelAddr hloc
  case h_10 =>
    cases List.mem_singleton.mp h
    exact .ackCancelAddr hloc
  case h_11 => cases h

/-- At a middlebox, from the other port. A request takes the lock here, and a cancellation gives it
back. -/
theorem lockMove_endOnePathForward (hloc : p.loc = .endOnePath)
    (h : .done q out ∈ endOnePathForward p m) : LockMove C i p (.forward m) q out := by
  have hne : p.loc ≠ .endSynchronizing := by rw [hloc]; nofun
  unfold endOnePathForward at h
  split at h
  case h_1 seq ack =>
    cases List.mem_singleton.mp h
    have hx := passForward_frame C i p false seq ack
    exact .of_sameFrame trivial hne hx.1 hx.2
  case h_2 seq ack =>
    cases List.mem_singleton.mp h
    have hx := passForward_frame C i p true seq ack
    exact .of_sameFrame trivial hne hx.1 hx.2
  case h_3 ack =>
    cases List.mem_singleton.mp h
    exact .of_checkEnding trivial hne (p.sameFrame_sendAck _ _)
      (onlyData_far rfl trivial onlyData_nil)
  case h_4 requestor anchor delta =>
    obtain ⟨hfree, h⟩ := mem_asserting.mp h
    cases List.mem_singleton.mp h
    exact .requestForward hloc hfree
  case h_5 =>
    cases List.mem_singleton.mp h
    exact .ackForward hloc
  case h_6 =>
    cases List.mem_singleton.mp h
    exact .nackForward hloc
  case h_7 =>
    cases List.mem_singleton.mp h
    exact .timeoutForward hloc
  case h_8 requestor =>
    obtain ⟨hheld, h⟩ := mem_asserting.mp h
    cases List.mem_singleton.mp h
    exact .cancelForward hloc hheld
  case h_9 =>
    cases List.mem_singleton.mp h
    exact .ackCancelForward hloc
  case h_10 => cases h

/-- At an anchor, from the old path: the lock is granted, refused, asked for again or canceled. -/
theorem lockMove_anchoringAddr (hloc : p.loc = .anchoring)
    (h : .done q out ∈ anchoringAddr C i p m) : LockMove C i p (.addr p.farLoc m) q out := by
  have hne : p.loc ≠ .endSynchronizing := by rw [hloc]; nofun
  unfold anchoringAddr at h
  split at h
  case h_1 requestor anchor delta =>
    obtain ⟨hheld, h⟩ := mem_asserting.mp h
    split at h
    next huse =>
      simp only at h
      split at h
      next hsome =>
        cases List.mem_singleton.mp h
        exact .grantedNack hloc hheld huse hsome
      next hnone =>
        cases List.mem_singleton.mp h
        exact .granted hloc hheld huse (not_not.mp hnone)
    next huse =>
      cases List.mem_singleton.mp h
      exact .notGranted hloc (Bool.of_not_eq_true huse)
  case h_2 requestor =>
    obtain ⟨⟨hheld, rfl⟩, h⟩ := mem_asserting.mp h
    simp only at h
    split at h
    next hsome =>
      cases List.mem_singleton.mp h
      exact .refusedPass hloc hheld hsome
    next hnone =>
      cases List.mem_singleton.mp h
      exact .refused hloc hheld (not_not.mp hnone)
  case h_3 =>
    split at h
    next huse =>
      cases List.mem_singleton.mp h
      exact .retry hloc huse
    next huse =>
      cases List.mem_singleton.mp h
      exact .giveUp hloc (Bool.of_not_eq_true huse)
  case h_4 requestor anchor delta =>
    obtain ⟨hsame, h⟩ := mem_asserting.mp h
    cases List.mem_singleton.mp h
    obtain ⟨rfl, rfl, rfl⟩ := hsame
    exact .requestedAgain hloc
  case h_5 requestor =>
    obtain ⟨rfl, h⟩ := mem_asserting.mp h
    cases List.mem_singleton.mp h
    exact .canceled hloc
  case h_6 requestor =>
    obtain ⟨rfl, h⟩ := mem_asserting.mp h
    cases List.mem_singleton.mp h
    exact .cancelDone hloc
  case h_7 seq ack =>
    obtain ⟨-, h⟩ := mem_asserting.mp h
    have hx := passAddr_frame C i p false seq ack
    simp only at h
    split at h
    · cases List.mem_singleton.mp h
      exact .of_sameFrame trivial hne (hx.1.trans (Port.sameFrame_sendAck _ _ _))
        (onlyData_far hx.1.same.farLoc trivial onlyData_nil)
    · cases List.mem_singleton.mp h
      exact .of_sameFrame trivial hne hx.1 hx.2
  case h_8 seq ack =>
    obtain ⟨-, h⟩ := mem_asserting.mp h
    have hx := passAddr_frame C i p true seq ack
    simp only at h
    split at h
    · obtain ⟨x, hmem, he⟩ := List.mem_map.mp h
      cases he
      have hx := answerFin_frame (C := C) (i := i) hx.1 hmem
      exact .of_checkEnding trivial hne hx.1 hx.2
    · cases List.mem_singleton.mp h
      exact .of_checkEnding trivial hne hx.1 hx.2
  case h_9 ack =>
    obtain ⟨-, h⟩ := mem_asserting.mp h
    cases List.mem_singleton.mp h
    exact .of_checkEnding trivial hne (p.sameFrame_receiveAck _)
      (.ite onlyData_nil (onlyData_pair trivial onlyData_nil))
  case h_10 => cases h

/-- At an anchor, from the new path, whose setup the port watches. -/
theorem lockMove_anchoringNewAddr (hloc : p.loc = .anchoring)
    (h : .done q out ∈ anchoringNewAddr C i p m) :
    LockMove C i p (.addr p.lock.newFarLoc m) q out := by
  unfold anchoringNewAddr at h
  split at h
  case h_1 seq =>
    cases List.mem_singleton.mp h
    refine .newSyn hloc ?_
    split
    · exact .inr rfl
    · exact .inl rfl
  case h_2 seq ack =>
    split at h
    next huse =>
      cases List.mem_singleton.mp h
      exact .setUp hloc huse
    next huse =>
      cases List.mem_singleton.mp h
      exact .notSetUp hloc (Bool.of_not_eq_true huse)
  case h_3 =>
    cases List.mem_singleton.mp h
    exact .failed hloc
  case h_4 ack =>
    cases List.mem_singleton.mp h
    exact .setUpRight hloc
  case h_5 => cases h

/-- At an anchor, from the other port: a request from the right is saved while the port still waits
for its own, and refused after that. -/
theorem lockMove_anchoringForward (hloc : p.loc = .anchoring)
    (h : .done q out ∈ anchoringForward C i p m) : LockMove C i p (.forward m) q out := by
  have hne : p.loc ≠ .endSynchronizing := by rw [hloc]; nofun
  unfold anchoringForward at h
  split at h
  case h_1 requestor anchor delta =>
    split at h
    next hreq =>
      cases List.mem_singleton.mp h
      exact .save hloc hreq
    next hreq =>
      cases List.mem_singleton.mp h
      exact .refuse (.inl ⟨hloc, Bool.of_not_eq_true hreq⟩)
  case h_2 seq ack =>
    cases List.mem_singleton.mp h
    have hx := passForward_frame C i p false seq ack
    exact .of_sameFrame trivial hne hx.1 hx.2
  case h_3 seq ack =>
    cases List.mem_singleton.mp h
    have hx := passForward_frame C i p true seq ack
    exact .of_sameFrame trivial hne hx.1 hx.2
  case h_4 ack =>
    cases List.mem_singleton.mp h
    exact .of_checkEnding trivial hne (p.sameFrame_sendAck _ _)
      (onlyData_far rfl trivial onlyData_nil)
  case h_5 => cases h

/-- With two paths a port sends its own data on the new one. -/
theorem lockMove_twoPathsOwn {a : Own} (hloc : p.loc = .twoPaths)
    (h : .done q out ∈ twoPathsOwn C i p a) : LockMove C i p (.own a) q out := by
  have hne : p.loc ≠ .endSynchronizing := by rw [hloc]; nofun
  unfold twoPathsOwn at h
  split at h
  case h_1 =>
    split at h
    · cases List.mem_singleton.mp h
      exact .of_sameFrame (.inl rfl) hne
        ((p.sameFrame_sendData _ _).trans (Port.sameFrame_sendNewAck _ _ _))
        (onlyData_newFar rfl trivial hloc onlyData_nil)
    · cases h
  case h_2 =>
    split at h
    · cases List.mem_singleton.mp h
      exact .of_sameFrame (.inr rfl) hne
        ((p.sameFrame_sendFin.trans (Port.sameFrame_sendData _ _ _)).trans
          (Port.sameFrame_sendNewAck _ _ _))
        (onlyData_newFar rfl trivial hloc onlyData_nil)
    · cases h
  case h_3 => cases h

/-- With two paths, from the old one: each message may be the last that is missing there. -/
theorem lockMove_twoPathsAddr (hloc : p.loc = .twoPaths)
    (h : .done q out ∈ twoPathsAddr C i p m) : LockMove C i p (.addr p.farLoc m) q out := by
  have hne : p.loc ≠ .endSynchronizing := by rw [hloc]; nofun
  unfold twoPathsAddr at h
  split at h
  case h_1 seq ack =>
    have hframe := (p.sameFrame_receiveOldData seq).trans
      (Port.sameFrame_receiveOldAck _ (ack - p.delta))
    simp only at h
    split at h
    next he =>
      cases List.mem_singleton.mp h
      exact .of_checkCompletion he trivial hloc (hframe.trans (Port.sameFrame_sendOldAck _ _))
        (onlyData_far hframe.same.farLoc (show Msg.IsData (.ack true _) from trivial) onlyData_nil)
    next he =>
      cases List.mem_singleton.mp h
      exact .of_checkCompletion (Bool.of_not_eq_true he) trivial hloc hframe
        (onlyData_pair trivial onlyData_nil)
  case h_2 seq ack =>
    have hframe := (p.sameFrame_receiveFin.trans (Port.sameFrame_receiveOldData _ seq)).trans
      (Port.sameFrame_receiveOldAck _ (ack - p.delta))
    simp only at h
    split at h
    next he =>
      obtain ⟨x, hmem, hx⟩ := List.mem_map.mp h
      cases hx
      have hx := mayEnd_frame (C := C) (i := i) (hframe.trans (Port.sameFrame_sendOldAck _ _)) hloc
        (onlyData_far hframe.same.farLoc (show Msg.IsData (.ack true _) from trivial)
          onlyData_nil) hmem
      exact .of_checkCompletion he trivial hloc hx.1 hx.2
    next he =>
      cases List.mem_singleton.mp h
      exact .of_checkCompletion (Bool.of_not_eq_true he) trivial hloc hframe
        (onlyData_pair trivial onlyData_nil)
  case h_3 ack =>
    cases List.mem_singleton.mp h
    exact .of_checkCompletion rfl trivial hloc (p.sameFrame_receiveOldAck _)
      (.ite onlyData_nil (onlyData_pair trivial onlyData_nil))
  case h_4 => cases h

theorem lockMove_twoPathsNewAddr (hloc : p.loc = .twoPaths)
    (h : .done q out ∈ twoPathsNewAddr C i p m) :
    LockMove C i p (.addr p.lock.newFarLoc m) q out := by
  have hne : p.loc ≠ .endSynchronizing := by rw [hloc]; nofun
  unfold twoPathsNewAddr at h
  split at h
  case h_1 seq ack =>
    obtain ⟨-, h⟩ := mem_asserting.mp h
    obtain ⟨-, h⟩ := mem_asserting.mp h
    have hframe := (p.sameFrame_receiveNewData seq).trans
      (Port.sameFrame_receiveNewAck _ (ack - p.lock.newDelta))
    simp only at h
    split at h
    · cases List.mem_singleton.mp h
      exact .of_sameFrame trivial hne (hframe.trans (Port.sameFrame_sendNewAck _ _ _))
        (onlyData_newFar (by rw [hframe.same.lock])
        (show Msg.IsData (.ack true _) from trivial) hloc
          onlyData_nil)
    · cases List.mem_singleton.mp h
      exact .of_sameFrame trivial hne hframe (onlyData_pair trivial onlyData_nil)
  case h_2 seq ack =>
    obtain ⟨-, h⟩ := mem_asserting.mp h
    have hframe := (p.sameFrame_receiveFin.trans (Port.sameFrame_receiveNewData _ seq)).trans
      (Port.sameFrame_receiveNewAck _ (ack - p.lock.newDelta))
    simp only at h
    split at h
    next he =>
      obtain ⟨x, hmem, hx⟩ := List.mem_map.mp h
      cases hx
      have hx := mayEnd_frame (C := C) (i := i) (hframe.trans (Port.sameFrame_sendNewAck _ _ _))
        hloc (onlyData_newFar (by rw [hframe.same.lock])
          (show Msg.IsData (.ack true _) from trivial) hloc onlyData_nil) hmem
      exact .of_checkCompletion he trivial hloc hx.1 hx.2
    next he =>
      cases List.mem_singleton.mp h
      exact .of_checkCompletion (Bool.of_not_eq_true he) trivial hloc hframe
        (onlyData_pair trivial onlyData_nil)
  case h_3 ack =>
    obtain ⟨-, h⟩ := mem_asserting.mp h
    cases List.mem_singleton.mp h
    exact .of_checkCompletion rfl trivial hloc (p.sameFrame_receiveNewAck _)
      (.ite onlyData_nil (onlyData_pair trivial onlyData_nil))
  case h_4 => cases h

theorem lockMove_twoPathsForward (hloc : p.loc = .twoPaths)
    (h : .done q out ∈ twoPathsForward C i p m) : LockMove C i p (.forward m) q out := by
  have hne : p.loc ≠ .endSynchronizing := by rw [hloc]; nofun
  unfold twoPathsForward at h
  split at h
  case h_1 =>
    cases List.mem_singleton.mp h
    exact .refuse (.inr hloc)
  case h_2 seq ack =>
    cases List.mem_singleton.mp h
    have hx := splitForward_frame C i p hloc false seq ack
    exact .of_checkCompletion rfl trivial hloc hx.1 hx.2
  case h_3 seq ack =>
    cases List.mem_singleton.mp h
    have hx := splitForward_frame C i p hloc true seq ack
    exact .of_checkCompletion rfl trivial hloc hx.1 hx.2
  case h_4 ack =>
    simp only at h
    split at h
    · split at h
      · cases List.mem_singleton.mp h
        exact .of_checkCompletion rfl trivial hloc (p.sameFrame_sendOldAck _)
          (onlyData_far rfl trivial onlyData_nil)
      · cases List.mem_singleton.mp h
        exact .of_checkCompletion rfl trivial hloc (.refl p) onlyData_nil
    · cases List.mem_singleton.mp h
      exact .of_checkCompletion rfl trivial hloc (p.sameFrame_sendNewAck _ _)
        (onlyData_newFar rfl trivial hloc onlyData_nil)
  case h_5 => cases h

/-- **The options of a port are moves of these kinds.** -/
theorem lockMove {inp : Input} (h : .done q out ∈ options C i p inp) :
    LockMove C i p inp q out := by
  cases inp with
  | own a =>
    simp only [options, ownOptions] at h
    split at h
    next hloc => exact lockMove_onePathOwn hloc h
    next hloc => exact lockMove_chooseOwn (.inr hloc) h
    next hloc => exact lockMove_twoPathsOwn hloc h
    next => cases h
  | addr src m =>
    simp only [options, addrOptions] at h
    split at h
    next hloc =>
      split at h
      next hsrc => exact hsrc ▸ lockMove_synchronizingAddr hloc h
      next => cases h
    next hloc =>
      split at h
      next hsrc => exact hsrc ▸ lockMove_onePathAddr hloc h
      next => cases h
    next hloc =>
      split at h
      next hsrc => exact hsrc ▸ lockMove_endOnePathAddr hloc h
      next => cases h
    next hloc =>
      rcases List.mem_append.mp h with h | h
      · split at h
        next hsrc => exact hsrc ▸ lockMove_anchoringAddr hloc h
        next => cases h
      · split at h
        next hsrc => exact hsrc ▸ lockMove_anchoringNewAddr hloc h
        next => cases h
    next hloc =>
      rcases List.mem_append.mp h with h | h
      · split at h
        next hsrc => exact hsrc ▸ lockMove_twoPathsAddr hloc h
        next => cases h
      · split at h
        next hsrc => exact hsrc ▸ lockMove_twoPathsNewAddr hloc h
        next => cases h
    next => cases h
  | forward m =>
    simp only [options, forwardOptions] at h
    split at h
    next hloc => exact lockMove_synchronizingForward hloc h
    next => cases h
    next hloc => exact lockMove_endOnePathForward hloc h
    next hloc => exact lockMove_anchoringForward hloc h
    next hloc => exact lockMove_twoPathsForward hloc h
    next => cases h

end Inversion

end Dysco.PortProcess
