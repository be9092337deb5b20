import Dysco.Leases

/-! # The invariant of the locks

A watched session also remembers which left anchors have sent `cancelLock`, and for which
requests there has been a cause to refuse them.  In every state of a watched session there are
leases that agree with it (`Leased`): with the ports, with the tokens on their way, with the
requests that are saved, with the right anchors, and with the cancellations on their way.
-/
namespace Dysco.PortProcess

/-! ## Watched sessions -/

section Causes
variable (C : Config) (right : Addr → Prop) (port : Addr → Port)

/-- Each port is the next one that faces right after the port before it. -/
def Connected (qs : List Addr) : Prop := qs.IsChain fun p q => (port p).farLoc = C.pair q

/-- A left anchor that has been granted its lock, and has not returned. -/
def LeftGranted (B : Addr) : Prop :=
  right B ∧ (port B).Anchor ∧ (port B).lock.requesting = false

/-- Another left anchor that has been granted its lock is inside the segment that `X` asks
for. -/
def Contended (X : Addr) : Prop :=
  ∃ B qs, B ≠ X ∧ LeftGranted right port B ∧ Connected C port (X :: (qs ++ [B])) ∧
    ∀ q ∈ qs ++ [B], C.pair q ≠ (port X).lock.otherAnchor

/-- The right anchor that `X` asks for is not on its right in the session. -/
def NotFound (X : Addr) : Prop :=
  ∃ qs, Connected C port (X :: qs) ∧ (port (qs.getLastD X)).farLoc = C.rightEnd ∧
    C.rightEnd ≠ (port X).lock.otherAnchor ∧ ∀ q ∈ qs, C.pair q ≠ (port X).lock.otherAnchor

/-- There is a cause to refuse the request of `X`. -/
def Excused (X : Addr) : Prop :=
  (port X).loc = .anchoring ∧ (port X).lock.requesting = true ∧
    (Contended C right port X ∨ NotFound C port X)

end Causes

/-- A session, the left anchors that have sent `cancelLock`, and those whose request there has
been a cause to refuse. -/
structure Watched where
  session : Session
  canceling : Addr → Prop
  excused : Addr → Prop

/-- The port is about to send a `cancelLock` of its own. -/
def Session.SendsCancel (s : Session) (X : Addr) : Prop :=
  ∃ dst, .addr dst (.cancelLock X) ∈ s.todo X

/-- The runs of a watched session. -/
def watchedSystem (C : Config) (right : Addr → Prop) : TransitionSystem Watched Event where
  init w := w.session = C.start ∧ (∀ X, ¬ w.canceling X) ∧ ∀ X, ¬ w.excused X
  step w e w' := Step C w.session e w'.session ∧
    (∀ X, w'.canceling X ↔ w.canceling X ∨ w'.session.SendsCancel X) ∧
      ∀ X, w'.excused X ↔ w.excused X ∨ Excused C right w'.session.port X

/-- What a refusal of `X` needs. -/
def Watched.Cause (w : Watched) (X : Addr) : Prop :=
  w.excused X ∨ (w.session.port X).loc = .ended

/-! ## Requests that are saved, and right anchors -/

/-- A request that an anchor has saved is a token. -/
def SavedOk (right : Addr → Prop) (port : Addr → Port) (g : Addr → Lease) (q : Addr) : Prop :=
  right q → (port q).loc = .anchoring → (port q).lock.requesting = true →
    (port q).lock.requestPendingRequestor ≠ 0 →
      (g (port q).lock.requestPendingRequestor).token = .saved q ∧
        (port q).lock.requestPendingAnchor = (g (port q).lock.requestPendingRequestor).anchor ∧
          (port q).lock.requestPendingDelta =
            rightSum port (g (port q).lock.requestPendingRequestor).before

/-- The right anchor `R` of a lease: the lease reaches it, and it has the sum of the deltas. -/
structure EngagedOk (port : Addr → Port) (X : Addr) (L : Lease) (R : Addr) : Prop where
  phase : L.phase ≠ .idle
  anchor : L.anchor = R
  complete : L.phase = .asking → (port (L.held.getLastD X)).farLoc = R
  sum : L.phase ≠ .canceling →
    (port R).lock.newDelta =
      rightSum port L.held + if (port R).loc = .twoPaths then (port R).delta else 0

/-! ## Cancellations -/

def Msg.IsRequest : Msg → Prop
  | .requestLock .. => True
  | _ => False

/-- The cancellation of `X` comes before any request. -/
def FirstCancel (X : Addr) (ms : List Msg) : Prop :=
  ∃ pre post, ms = pre ++ .cancelLock X :: post ∧ ∀ m ∈ pre, ¬ m.IsRequest

/-- What is on its way to `q` and has passed the other port of its middlebox. -/
def Session.ahead (C : Config) (s : Session) (q : Addr) : List Msg :=
  s.at (.forwarded q) ++ s.at (.outForward (C.pair q) q)

/-- What is on its way to that port. -/
def Session.behind (C : Config) (s : Session) (q : Addr) : List Msg :=
  s.at (.inbox (C.pair q) (s.port (C.pair q)).farLoc) ++
    s.at (.outAddr (s.port (C.pair q)).farLoc (C.pair q))

/-- The cancellation of `X` is about to reach `q`, the first port that is still held. -/
def CancelOk (C : Config) (s : Session) (X q : Addr) : Prop :=
  FirstCancel X (s.ahead C q) ∨
    (s.port (C.pair q)).Passes ∧ FirstCancel X (s.ahead C q ++ s.behind C q)

/-! ## Messages -/

/-- The left anchor has been granted its lock. -/
def Lease.Opened (L : Lease) : Prop := L.phase = .granted ∨ L.phase = .canceling

section Messages
variable (C : Config) (g : Addr → Lease)

/-- Port `p` may have opened a path by way of `l`: it is an anchor with a lock, or it has been
reached itself from one. -/
inductive OpensFrom : Addr → Addr → Prop
  | anchor {p l : Addr} (h : (g p).Opened) : OpensFrom p l
  | along {p : Addr} (h : OpensFrom (C.far (C.pair p)) (C.pair p)) : OpensFrom p (C.far p)

/-- Every new path is opened by an anchor that has a lock, and only such an anchor cancels. -/
def OpenAddr (dst src : Addr) : Msg → Prop
  | .syn false _ => OpensFrom C g src dst
  | .synAck false _ _ | .synTimeout => OpensFrom C g dst src
  | .cancelLock r | .ackCancel r => (g r).phase = .canceling
  | _ => True

def OpenForward (dst : Addr) : Msg → Prop
  | .syn false _ => OpensFrom C g (C.far (C.pair dst)) (C.pair dst)
  | .synAck false _ _ | .synTimeout => OpensFrom C g (C.far dst) dst
  | .cancelLock r | .ackCancel r => (g r).phase = .canceling
  | _ => True

end Messages

/-- **The leases and a watched session agree.** -/
structure Leased (C : Config) (right : Addr → Prop) (w : Watched) (g : Addr → Lease) : Prop where
  sound : w.session.Sound C right
  lease : ∀ X, LeaseOk C right w.session.port w.Cause X (g X)
  account : Accounted w.session fun X => (g X).flight
  saved : ∀ q, SavedOk right w.session.port g q
  engaged : ∀ R, ¬ right R → (w.session.port R).Anchor →
    EngagedOk w.session.port (w.session.port R).lock.otherAnchor
      (g (w.session.port R).lock.otherAnchor) R
  cancel : ∀ X q rest, (g X).phase = .canceling → (g X).held = q :: rest →
    CancelOk C w.session X q
  opened : w.session.Messages (OpenAddr C g) (OpenForward C g)
  canceling : ∀ X, w.canceling X ↔ (g X).phase = .canceling

end Dysco.PortProcess
