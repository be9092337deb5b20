import Dysco.SessionRuns

/-! # The two directions of a session

Every port faces left or right, and its subsession and its middlebox connect it to ports
that face the other way (`Config.Facing`).  Requests, cancellations and the messages that
open a path travel right, their answers left (`directed_reachable`), so a port of one kind
sees the messages of its kind only: a left anchor is a port that faces right, whatever
happens in a run.
-/
namespace Dysco.PortProcess

/-- The ports that face right, and what the two directions ask of a session: only ports that
face right choose to become left anchors, and a port asks its left neighbor. -/
structure Config.Facing (C : Config) (right : Addr → Prop) : Prop where
  leftEnd : right C.leftEnd
  far : ∀ i, right (C.far i) ↔ ¬ right i
  pair : ∀ i, right (C.pair i) ↔ ¬ right i
  newFar : ∀ i anchor, right (C.newFar i anchor) ↔ ¬ right i
  choose : ∀ i anchor, C.choose i anchor = true → right i
  ask : ∀ i anchor neighbor, C.ask i anchor neighbor = true → ¬ right i ∧ ¬ right neighbor

/-- The message travels right if `b`, else left. -/
def Msg.Fits (right : Addr → Prop) (b : Prop) : Msg → Prop
  | .syn .. | .requestLock .. | .cancelLock .. => b
  | .synAck .. | .synTimeout | .ackLock .. | .nackLock .. | .lockTimeout .. | .ackCancel .. => ¬ b
  | .rightRequest _ neighbor => ¬ b ∧ ¬ right neighbor
  | .ack tcp _ => tcp = false → b
  | .dataAck .. | .finAck .. => True

/-- The session's own messages go both ways. -/
theorem Msg.IsData.fits {right : Addr → Prop} {b : Prop} {m : Msg} (h : m.IsData) :
    m.Fits right b := by
  cases m with
  | ack tcp =>
    cases tcp with
    | false => exact h.elim
    | true => nofun
  | dataAck => trivial
  | finAck => trivial
  | _ => exact h.elim

/-- What arrives from the far end comes from a port that faces the other way. -/
def FitsAddr (right : Addr → Prop) (dst src : Addr) (m : Msg) : Prop :=
  (right src ↔ ¬ right dst) ∧ m.Fits right (¬ right dst)

def FitsForward (right : Addr → Prop) (dst : Addr) (m : Msg) : Prop := m.Fits right (right dst)

/-- A port is connected to ports that face the other way. -/
structure Port.Directed (right : Addr → Prop) (i : Addr) (p : Port) : Prop where
  far : right p.farLoc ↔ ¬ right i
  newFar : p.loc = .anchoring ∨ p.loc = .twoPaths → (right p.lock.newFarLoc ↔ ¬ right i)

/-- All ports and all messages keep to their directions. -/
structure Session.Directed (right : Addr → Prop) (s : Session) : Prop where
  port : ∀ i, (s.port i).Directed right i
  messages : s.Messages (FitsAddr right) (FitsForward right)

section Step
variable {C : Config} {right : Addr → Prop} {i : Addr} {p q : Port} {inp : Input} {out : List Send}

/-- They go to where a port sends, and that is the right way for either kind of message. -/
theorem Send.Meets.has (hp : p.Directed right i) {m : Send}
    (h : m.Meets C i p Msg.IsData) : m.Has (FitsAddr right) (FitsForward right) i := by
  cases m with
  | addr dst m =>
    obtain ⟨hd, hm⟩ := h
    refine ⟨?_, hm.fits⟩
    rcases hd with rfl | ⟨rfl, hloc⟩
    · rw [hp.far, not_not]
    · rw [hp.newFar (.inr hloc), not_not]
  | forward dst m => exact h.2.fits

/-- What a step sends goes the way that its kind of message goes, given that what has come did. -/
theorem LockMove.directed_out (hC : C.Facing right) (hp : p.Directed right i)
    (hin : inp.Has (FitsAddr right) (FitsForward right) i) (h : LockMove C i p inp q out) :
    ∀ m ∈ out, m.Has (FitsAddr right) (FitsForward right) i := by
  have hfar := hp.far
  have hpair := hC.pair i
  have hnew := hp.newFar
  cases h
  case data hout => exact fun m hm => (hout m hm).has hp
  case completed hout => exact fun m hm => (hout m hm).has hp
  case synchronizing hmove =>
    cases hmove <;> simp_all [Send.Has, FitsAddr, FitsForward, Msg.Fits, Input.Has]
  case choose hc => simp [Send.Has, FitsAddr, Msg.Fits, hfar, hC.choose _ _ hc]
  case ask hc => simp [Send.Has, FitsAddr, Msg.Fits, hfar, hC.ask _ _ _ hc]
  case notFound hm =>
    rcases hm with rfl | rfl <;> simp_all [Send.Has, FitsAddr, Msg.Fits, Input.Has]
  case newSyn hloc hout =>
    rcases hout with rfl | rfl <;> simp_all [Send.Has, FitsAddr, Msg.Fits, Input.Has]
  all_goals simp_all [Send.Has, FitsAddr, FitsForward, Msg.Fits, Input.Has]

/-- A step that leaves the locks alone keeps the directions of a port, if it does not make it an
anchor. -/
theorem Port.Directed.of_same (hp : p.Directed right i) (hsame : p.SameLock q)
    (hloc : q.loc = .anchoring ∨ q.loc = .twoPaths → p.loc = .anchoring ∨ p.loc = .twoPaths) :
    q.Directed right i where
  far := by rw [hsame.farLoc]; exact hp.far
  newFar h := by rw [hsame.lock]; exact hp.newFar (hloc h)

/-- Completing moves the port to the new path, which leads the same way as the old one. -/
theorem Port.Directed.complete {e : Bool} (hnew : right p.lock.newFarLoc ↔ ¬ right i) :
    (p.complete e).Directed right i where
  far := by rw [p.complete_farLoc]; exact hnew
  newFar h := absurd h (not_or.mpr (p.complete_loc_ne e))

/-- With two paths the new neighbor is on the far side, so the completed port faces it. -/
theorem Port.Directed.checkCompletion {e : Bool} (hp : p.Directed right i)
    (hloc : p.loc = .twoPaths) : (p.checkCompletion e).Directed right i := by
  unfold Port.checkCompletion
  split
  · exact .complete (hp.newFar (.inr hloc))
  · exact hp

/-- The anchor that splits its path has chosen its new neighbor before. -/
theorem Port.Directed.split (hp : p.Directed right i) (hloc : p.loc = .anchoring) :
    p.split.Directed right i :=
  ⟨hp.far, fun _ => hp.newFar (.inl hloc)⟩

/-- **The step lemma** for directions, one case for each kind of step. -/
theorem LockMove.directed_port (hC : C.Facing right) (hp : p.Directed right i)
    (hin : inp.Has (FitsAddr right) (FitsForward right) i) (h : LockMove C i p inp q out) :
    q.Directed right i := by
  cases h with
  | data hinp hsame hloc hq hout =>
    refine hp.of_same hsame fun h => ?_
    rcases hq with hq | hq
    · rwa [hq] at h
    · simp [hq] at h
  | completed hinp hsame hloc hq hdone hout =>
    exact .complete ((hp.of_same hsame fun _ => .inr hloc).newFar (.inr hq))
  | synchronizing hloc hfar hlock hq hmove =>
    refine ⟨by rw [hfar]; exact hp.far, fun h => ?_⟩
    rcases hq with hq | (hq | hq) | hq <;> simp [hq] at h
  | choose hloc hidle hc => exact ⟨hp.far, fun _ => hC.newFar _ _⟩
  | asked hloc hidle =>
    refine ⟨hp.far, fun _ => ?_⟩
    simp only [Input.Has, FitsAddr, Msg.Fits, not_not] at hin
    exact iff_of_false hin.2.2 (not_not.mpr hin.2.1)
  | requested hloc huse => exact ⟨hp.far, fun _ => hC.newFar _ _⟩
  | setUp hloc huse => exact (hp.split hloc).checkCompletion rfl
  | setUpRight hloc => exact (hp.split hloc).checkCompletion rfl
  | refused | refusedPass | giveUp | canceled | cancelDone =>
    refine ⟨hp.far, fun h => absurd h (not_or.mpr (Port.toOnePath_normal _ _).ne)⟩
  | granted hloc | grantedNack hloc | save hloc => exact ⟨hp.far, fun _ => hp.newFar (.inl hloc)⟩
  | requestForward hloc | ackAddr hloc | nackAddr hloc | cancelForward hloc =>
    exact ⟨hp.far, fun h => by simp [hloc] at h⟩
  | ask hloc => exact ⟨hp.far, fun h => absurd h (not_or.mpr hloc.ne)⟩
  | _ => exact hp

end Step

variable {C : Config} {right : Addr → Prop} {s t : Session}

/-- At the beginning each port faces its neighbor, and the first SYN travels right. -/
theorem directed_start (hC : C.Facing right) : C.start.Directed right where
  port :=
    have hport (i : Addr) : (C.port i).Directed right i :=
      ⟨hC.far i, fun h => by simp [Config.port] at h⟩
    Config.start_ports hport ((hport _).of_same ⟨rfl, rfl, rfl⟩ id)
  messages := Config.start_messages (by simp [FitsAddr, Msg.Fits, hC.far, hC.leftEnd])

/-- **One step of the session** keeps all the directions. -/
theorem directed_step {e : Event} (hC : C.Facing right) (hs : s.Directed right)
    (h : Step C s e t) : t.Directed right := by
  rcases h.cases with ⟨i, inp, s', q, out, -, -, hoffers, hopt, rfl⟩ | ⟨i, m, rest, -, hnext, rfl⟩
  · have hmove := lockMove hopt
    have hin := hs.messages.input hoffers
    refine ⟨fun j => ?_, hs.messages.act hoffers (hmove.directed_out hC (hs.port i) hin)⟩
    by_cases hj : j = i
    · subst hj
      rw [Session.act_port_self]
      exact hmove.directed_port hC (hs.port j) hin
    · rw [Session.act_port_of_ne _ hj, hoffers.port]
      exact hs.port j
  · refine ⟨fun j => ?_, hs.messages.flush hnext⟩
    rw [Session.setTodo_port, Session.put_port]
    exact hs.port j

/-- **Ports and messages keep to their directions in every run.** -/
theorem directed_reachable (hC : C.Facing right) (hs : (sessionSystem C).Reachable s) :
    s.Directed right :=
  hs.invariant (P := fun s => s.Directed right) (by rintro s rfl; exact directed_start hC)
    fun _ _ _ hs h => directed_step hC hs h

end Dysco.PortProcess
