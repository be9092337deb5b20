import Dysco.LockRelease

/-! # What holds of every port and every lock message

Facts about single ports and single messages that the account of the locks rests on: lock
messages name ports that face right, a port that faces right begins one reconfiguration at
most and saves a request only while its own is pending, and messages between the ports of a
middlebox stay there (`sound_start`, `sound_step`).
-/
namespace Dysco.PortProcess

/-- A chain of subsessions: the ports face left or right, a middlebox has two ports, and no left
anchor chooses its old neighbor as its new one. -/
structure Config.Chain (C : Config) (right : Addr → Prop) : Prop extends C.Facing right where
  null : ¬ right 0
  pair_pair : ∀ i, C.pair (C.pair i) = i
  newFar_ne : ∀ i anchor, C.choose i anchor = true → C.newFar i anchor ≠ C.far i
  ask_ne : ∀ i anchor neighbor, C.ask i anchor neighbor = true → neighbor ≠ i

/-- The left anchor that a lock message names faces right, and a port asks its neighbor for
another neighbor than itself. -/
def Msg.Named (right : Addr → Prop) (src : Addr) : Msg → Prop
  | .requestLock r _ _ | .ackLock r _ _ | .nackLock r _ | .cancelLock r | .ackCancel r => right r
  | .lockTimeout r a => r = 0 ∧ a = 0 ∨ right r
  | .rightRequest _ neighbor => neighbor ≠ src
  | _ => True

/-- The session's own messages name no anchor. -/
theorem Msg.IsData.named {right : Addr → Prop} {src : Addr} {m : Msg} (h : m.IsData) :
    m.Named right src := by
  cases m <;> trivial

/-- What holds of the variables of every port. -/
structure Port.Sound (C : Config) (right : Addr → Prop) (i : Addr) (p : Port) : Prop where
  pending : p.lock.requestPendingRequestor = 0 ∨ right p.lock.requestPendingRequestor
  fresh : p.lock.reconfigured = false →
    p.lock.requestPendingRequestor = 0 ∧ p.lock.requestPendingAnchor = 0 ∧
      p.lock.requesting = false
  saved : right i → p.loc = .anchoring → p.lock.requestPendingRequestor = 0 →
    p.lock.requestPendingAnchor = 0
  reconfigured : right i → p.Anchor → p.lock.reconfigured = true
  far : p.loc = .endSynchronizing ∨ p.lock.reconfigured = false → p.farLoc = C.far i
  newFar : right i → p.Anchor → p.lock.newFarLoc ≠ C.far i

/-- A message between the ports of a middlebox. -/
def Send.Paired (C : Config) (i : Addr) : Send → Prop
  | .addr .. => True
  | .forward dst _ => dst = C.pair i

/-- What holds of the ports and messages of a session in every state. -/
structure Session.Sound (C : Config) (right : Addr → Prop) (s : Session) : Prop where
  directed : s.Directed right
  port : ∀ i, (s.port i).Sound C right i
  named : s.Messages (fun _ src m => m.Named right src) fun _ m => m.Named right 0
  paired : ∀ i, ∀ m ∈ s.todo i, m.Paired C i

section Step
variable {C : Config} {right : Addr → Prop} {i : Addr} {p q : Port} {inp : Input} {out : List Send}

/-- What a step hands over goes to the other port of the same host. -/
theorem LockMove.paired (h : LockMove C i p inp q out) : ∀ m ∈ out, m.Paired C i := by
  have hdata (hout : ∀ m ∈ out, m.Meets C i p Msg.IsData) : ∀ m ∈ out, m.Paired C i := by
    intro m hm
    cases m with
    | addr => trivial
    | forward dst m => exact (hout _ hm).1
  cases h with
  | data hinp hsame hloc hq hout => exact hdata hout
  | completed hinp hsame hloc hq hdone hout => exact hdata hout
  | synchronizing hloc hfar hlock hq hmove => cases hmove <;> simp [Send.Paired]
  | newSyn hloc hout => rcases hout with rfl | rfl <;> simp [Send.Paired]
  | _ => simp [Send.Paired]

/-- The left anchors that the messages of a step name face right: they come from the variables of
the port or from the message that it has. -/
theorem LockMove.named (hC : C.Chain right) (hp : p.Sound C right i)
    (hd : inp.Has (FitsAddr right) (FitsForward right) i)
    (hin : inp.Has (fun _ src m => m.Named right src) (fun _ m => m.Named right 0) i)
    (h : LockMove C i p inp q out) :
    ∀ m ∈ out, m.Has (fun _ src m => m.Named right src) (fun _ m => m.Named right 0) i := by
  have hdata (hout : ∀ m ∈ out, m.Meets C i p Msg.IsData) :
      ∀ m ∈ out, m.Has (fun _ src m => m.Named right src) (fun _ m => m.Named right 0) i := by
    intro m hm
    cases m with
    | addr dst m => exact (hout _ hm).2.named
    | forward dst m => exact (hout _ hm).2.named
  cases h with
  | data hinp hsame hloc hq hout => exact hdata hout
  | completed hinp hsame hloc hq hdone hout => exact hdata hout
  | synchronizing hloc hfar hlock hq hmove => cases hmove <;> simp [Send.Has, Msg.Named]
  | newSyn hloc hout => rcases hout with rfl | rfl <;> simp [Send.Has, Msg.Named]
  | choose hloc hidle hc => simp [Send.Has, Msg.Named, hC.choose _ _ hc]
  | ask hloc hidle hc => simp [Send.Has, Msg.Named, hC.ask_ne _ _ _ hc]
  | notFound _ _ _ hm =>
    rcases hm with rfl | rfl
    · simpa [Send.Has, Msg.Named, Input.Has] using hin
    · simp only [Input.Has, Msg.Named] at hin
      simp [Send.Has, Msg.Named, hin]
  | grantedNack hloc hheld huse hsome =>
    have hi : right i := not_not.mp fun hi => hd.2 hi
    have hr : right p.lock.requestPendingRequestor :=
      hp.pending.resolve_left fun h0 => hsome (hp.saved hi hloc h0)
    simp [Send.Has, Msg.Named, hr]
  | refusedPass hloc hheld hsome =>
    simp [Send.Has, Msg.Named, hp.pending.resolve_left hsome]
  | _ => simp_all [Send.Has, Msg.Named, Input.Has, FitsAddr, FitsForward, Msg.Fits]

/-- A step that leaves the locks alone keeps a port sound, as long as it makes no anchor. -/
theorem Port.Sound.of_lock (hp : p.Sound C right i) (hlock : q.lock = p.lock)
    (hfar : q.farLoc = p.farLoc) (hloc : q.loc = .anchoring → p.loc = .anchoring)
    (hanchor : q.Anchor → p.Anchor)
    (hsyn : q.loc = .endSynchronizing → p.loc = .endSynchronizing) : q.Sound C right i where
  pending := by rw [hlock]; exact hp.pending
  fresh := by rw [hlock]; exact hp.fresh
  saved hi h := by rw [hlock]; exact hp.saved hi (hloc h)
  reconfigured hi h := by rw [hlock]; exact hp.reconfigured hi (hanchor h)
  far h := by
    rw [hfar]
    exact hp.far (h.imp hsyn fun h => by rwa [hlock] at h)
  newFar hi h := by rw [hlock]; exact hp.newFar hi (hanchor h)

/-- A port that is in its normal state, or at its end. -/
theorem Port.Sound.of_idle (hq : q.Normal ∨ q.loc = .ended)
    (hpending : q.lock.requestPendingRequestor = 0 ∨ right q.lock.requestPendingRequestor)
    (hfresh : q.lock.reconfigured = false →
      q.lock.requestPendingRequestor = 0 ∧ q.lock.requestPendingAnchor = 0 ∧
        q.lock.requesting = false)
    (hfar : q.lock.reconfigured = false → q.farLoc = C.far i) : q.Sound C right i where
  pending := hpending
  fresh := hfresh
  saved _ h := by rcases hq with (hq | hq) | hq <;> simp [hq] at h
  reconfigured _ h := by rcases hq with (hq | hq) | hq <;> simp [Port.Anchor, hq] at h
  far h := hfar (h.resolve_left (by rcases hq with (hq | hq) | hq <;> simp [hq]))
  newFar _ h := by rcases hq with (hq | hq) | hq <;> simp [Port.Anchor, hq] at h

/-- After a completed reconfiguration a port is no anchor, so little but its pending request is left
to speak of. -/
theorem Port.Sound.complete {e : Bool} (hp : p.Sound C right i) :
    (p.complete e).Sound C right i := by
  refine .of_idle (p.complete_loc e) ?_ (fun h => ?_) fun h => ?_
  · rw [p.complete_lock]
    exact hp.pending
  · rw [p.complete_lock] at h
    cases h
  · rw [p.complete_lock] at h
    cases h

/-- So `CheckCompletion` keeps a port sound, whether it completes anything or not. -/
theorem Port.Sound.checkCompletion {e : Bool} (hp : p.Sound C right i) :
    (p.checkCompletion e).Sound C right i := by
  unfold Port.checkCompletion
  split
  · exact hp.complete
  · exact hp

/-- An idle port that asks for the lock is sound as a left anchor, if its new neighbor is not its
old one. -/
theorem Port.Sound.request {anchor neighbor : Addr} (hp : p.Sound C right i) (hidle : p.Idle)
    (hnew : neighbor ≠ C.far i) : (p.request i anchor neighbor).Sound C right i where
  pending := hp.pending
  fresh := nofun
  saved _ _ _ := (hp.fresh hidle.1).2.1
  reconfigured _ _ := rfl
  far := nofun
  newFar _ _ := hnew

/-- **The step lemma**, for the port that takes the step: one case for each kind of step. -/
theorem LockMove.sound_port (hC : C.Chain right) (hp : p.Sound C right i)
    (hd : inp.Has (FitsAddr right) (FitsForward right) i)
    (hin : inp.Has (fun _ src m => m.Named right src) (fun _ m => m.Named right 0) i)
    (h : LockMove C i p inp q out) : q.Sound C right i := by
  cases h with
  | data hinp hsame hloc hq hout =>
    rcases hq with hq | hq
    · refine hp.of_lock hsame.lock hsame.farLoc (hq ▸ id) (fun h => ?_) (hq ▸ id)
      unfold Port.Anchor at h
      rwa [hq] at h
    · exact .of_idle (.inr hq) (hsame.lock ▸ hp.pending) (hsame.lock ▸ hp.fresh)
        fun h => hsame.farLoc.trans (hp.far (.inr (hsame.lock ▸ h)))
  | completed hinp hsame hloc hq hdone hout =>
    exact (hp.of_lock hsame.lock hsame.farLoc (by simp [hq]) (fun _ => .inr hloc)
      (by simp [hq])).complete
  | synchronizing hloc hfar hlock hq hmove =>
    rcases hq with hq | hq
    · exact hp.of_lock hlock hfar (by simp [hq]) (by simp [Port.Anchor, hq]) fun _ => hloc
    · exact .of_idle hq (hlock ▸ hp.pending) (hlock ▸ hp.fresh)
        fun _ => hfar.trans (hp.far (.inl hloc))
  | choose hloc hidle hc => exact hp.request hidle (hC.newFar_ne _ _ hc)
  | asked hloc hidle =>
    refine hp.request hidle fun he => ?_
    rw [← hp.far (.inr hidle.1)] at he
    exact hin he
  | ask hloc hidle => exact .of_idle (.inl hloc) hp.pending (by rintro ⟨⟩) (by rintro ⟨⟩)
  | requested hloc huse =>
    exact ⟨hp.pending, hp.fresh, fun hi => absurd hi hd.2, fun hi => absurd hi hd.2,
      fun h => hp.far (h.imp_left (by rintro ⟨⟩)), fun hi => absurd hi hd.2⟩
  | requestForward hloc | ackAddr hloc | nackAddr hloc | cancelForward hloc =>
    exact .of_idle (.inl (.inr hloc)) hp.pending hp.fresh fun h => hp.far (.inr h)
  | granted hloc hheld huse hnone =>
    exact ⟨hp.pending, fun h => ⟨(hp.fresh h).1, (hp.fresh h).2.1, rfl⟩, fun _ _ _ => hnone,
      fun hi _ => hp.reconfigured hi (.inl hloc), fun h => hp.far h,
      fun hi _ => hp.newFar hi (.inl hloc)⟩
  | grantedNack hloc =>
    exact ⟨.inl rfl, fun _ => ⟨rfl, rfl, rfl⟩, fun _ _ _ => rfl,
      fun hi _ => hp.reconfigured hi (.inl hloc), fun h => hp.far h,
      fun hi _ => hp.newFar hi (.inl hloc)⟩
  | refused | giveUp =>
    exact .of_idle (.inl (Port.toOnePath_normal _ _)) hp.pending
      (fun h => ⟨(hp.fresh h).1, (hp.fresh h).2.1, rfl⟩) fun h => hp.far (.inr h)
  | refusedPass hloc =>
    exact .of_idle (.inl (Port.toOnePath_normal _ _)) (.inl rfl)
      (fun h => ⟨rfl, (hp.fresh h).2.1, rfl⟩) fun h => hp.far (.inr h)
  | canceled | cancelDone =>
    exact .of_idle (.inl (Port.toOnePath_normal _ _)) hp.pending hp.fresh
      fun h => hp.far (.inr h)
  | @save requestor _ _ hloc hreq =>
    have hi : right i := hd
    have hr : right requestor := hin
    refine ⟨.inr hr, fun h => ?_, fun _ _ h0 => ?_, fun hi _ => hp.reconfigured hi (.inl hloc),
      fun h => hp.far h, fun hi _ => hp.newFar hi (.inl hloc)⟩
    · rw [hp.reconfigured hi (.inl hloc)] at h
      cases h
    · rw [show requestor = 0 from h0] at hr
      exact absurd hr hC.null
  | setUp hloc | setUpRight hloc =>
    have hsplit : p.split.Sound C right i :=
      ⟨hp.pending, hp.fresh, (by rintro _ ⟨⟩), fun hi _ => hp.reconfigured hi (.inl hloc),
        fun h => hp.far (h.imp_left (by rintro ⟨⟩)), fun hi _ => hp.newFar hi (.inl hloc)⟩
    exact hsplit.checkCompletion
  | _ => exact hp

end Step

variable {C : Config} {right : Addr → Prop} {s t : Session}

/-- At the beginning all ports are idle, and the first SYN names no anchor. -/
theorem sound_start (hC : C.Chain right) : C.start.Sound C right where
  directed := directed_start hC.toFacing
  port :=
    have hport (i : Addr) : (C.port i).Sound C right i :=
      ⟨.inl rfl, fun _ => ⟨rfl, rfl, rfl⟩, nofun, by simp [Config.port, Port.Anchor],
        fun _ => rfl, by simp [Config.port, Port.Anchor]⟩
    Config.start_ports hport ((hport _).of_lock rfl rfl id id id)
  named := Config.start_messages trivial
  paired i m hm := by
    have h : C.start.Messages (fun _ _ _ => True) fun _ _ => False := Config.start_messages trivial
    have := h.todo i m hm
    cases m with
    | addr => trivial
    | forward => exact this.elim

/-- **One step of the session** keeps all its ports and messages sound. -/
theorem sound_step {e : Event} (hC : C.Chain right) (hs : s.Sound C right) (h : Step C s e t) :
    t.Sound C right := by
  have hd := directed_step hC.toFacing hs.directed h
  rcases h.cases with ⟨i, inp, s', q, out, -, -, hoffers, hopt, rfl⟩ | ⟨i, m, rest, -, hnext, rfl⟩
  · have hmove := lockMove hopt
    have hfits := hs.directed.messages.input hoffers
    have hin := hs.named.input hoffers
    refine ⟨hd, fun j => ?_, hs.named.act hoffers (hmove.named hC (hs.port i) hfits hin),
      fun j m hm => ?_⟩
    · by_cases hj : j = i
      · subst hj
        rw [Session.act_port_self]
        exact hmove.sound_port hC (hs.port j) hfits hin
      · rw [Session.act_port_of_ne _ hj, hoffers.port]
        exact hs.port j
    · by_cases hj : j = i
      · subst hj
        rw [Session.act_todo_self] at hm
        exact hmove.paired m hm
      · rw [Session.act_todo_of_ne _ hj, hoffers.todo] at hm
        exact hs.paired j m hm
  · refine ⟨hd, fun j => ?_, hs.named.flush hnext, fun j k hk => ?_⟩
    · rw [Session.setTodo_port, Session.put_port]
      exact hs.port j
    · by_cases hj : j = i
      · subst hj
        rw [Session.setTodo_todo_self] at hk
        exact hs.paired j k (hnext ▸ List.mem_cons_of_mem _ hk)
      · rw [Session.setTodo_todo_of_ne _ hj, Session.put_todo] at hk
        exact hs.paired j k hk

end Dysco.PortProcess
