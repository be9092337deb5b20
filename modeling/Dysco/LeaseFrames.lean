import Dysco.LeaseSteps

/-! # What a step leaves alone

Which changes of one port keep a lease, and what the other parts of the invariant need to stay
as they are.  `Leased.act` puts the parts together.
-/
namespace Dysco.PortProcess

variable {C : Config} {right : Addr → Prop} {g g' : Addr → Lease} {i : Addr} {q : Port}
variable {inp : Input} {out : List Send}

/-! ## Ports that change little -/

/-- Nothing changes that a lease depends on. -/
structure Port.SameHold (p q : Port) : Prop where
  farLoc : q.farLoc = p.farLoc
  delta : q.delta = p.delta
  locked : q.lock.locked = p.lock.locked
  lockPending : q.lock.lockPending = p.lock.lockPending
  requestor : q.lock.requestor = p.lock.requestor
  requesting : q.lock.requesting = p.lock.requesting
  otherAnchor : q.lock.otherAnchor = p.lock.otherAnchor
  newDelta : q.lock.newDelta = p.lock.newDelta

theorem Port.SameLock.sameHold {p q : Port} (h : p.SameLock q) : p.SameHold q := by
  obtain ⟨hfar, hdelta, hlock⟩ := h
  constructor <;> first | assumption | rw [hlock]

theorem Port.SameHold.refl (p : Port) : p.SameHold p := ⟨rfl, rfl, rfl, rfl, rfl, rfl, rfl, rfl⟩

/-- An anchor that comes of a port that keeps its state or ends has been one. -/
theorem Port.Anchor.of_loc {p q : Port} (hloc : q.loc = p.loc ∨ q.loc = .ended) (ha : q.Anchor) :
    p.Anchor ∧ q.loc = p.loc := by
  rcases hloc with hloc | hloc
  · refine ⟨?_, hloc⟩
    unfold Port.Anchor at ha ⊢
    rwa [← hloc]
  · rcases ha with ha | ha <;> exact absurd (hloc.symm.trans ha) nofun

section Keeps
variable {port : Addr → Port} {cause : Addr → Prop} {X : Addr} {L : Lease}

theorem OwnOk.of_same {p q : Port} (h : OwnOk C right port X L p) (hs : p.SameHold q)
    (hloc : q.loc = p.loc ∨ q.loc = .ended) : OwnOk C right port X L q := by
  have hanchor (ha : q.Anchor) : p.Anchor ∧ q.loc = p.loc := ha.of_loc hloc
  unfold OwnOk at h ⊢
  cases hL : L.phase with
  | idle =>
    rw [hL] at h
    exact fun hr ha => h hr (hanchor ha).1
  | asking =>
    rw [hL] at h
    obtain ⟨hreq, hpend, hanch, htok⟩ := h
    refine ⟨hs.requestor.trans hreq, hs.lockPending.trans hpend, fun ha => ?_, fun ht => ?_⟩
    · rw [(hanchor ha).2, hs.requesting]
      exact hanch (hanchor ha).1
    · rw [hs.otherAnchor]
      refine ⟨?_, (htok ht).2⟩
      rcases hloc with hloc | hloc
      · rw [hloc]
        exact (htok ht).1
      · exact .inr hloc
  | granted =>
    rw [hL] at h
    obtain ⟨hsyn, hreq, hpend, hanch⟩ := h
    refine ⟨?_, hs.requestor.trans hreq, hs.lockPending.trans hpend, fun ha => ?_⟩
    · rcases hloc with hloc | hloc
      · rwa [hloc]
      · rw [hloc]
        nofun
    · rw [hs.requesting, hs.otherAnchor, hs.newDelta, (hanchor ha).2, hs.delta]
      exact hanch (hanchor ha).1
  | canceling =>
    rw [hL] at h
    obtain ⟨hsyn, hreq, hpend, hanch⟩ := h
    refine ⟨?_, hs.requestor.trans hreq, hs.lockPending.trans hpend, fun ha => ?_⟩
    · rcases hloc with hloc | hloc
      · rwa [hloc]
      · rw [hloc]
        nofun
    · rw [hs.requesting]
      exact hanch (hanchor ha).1

/-- The port of an anchor is not held, and passes no message. -/
theorem KeepsPorts.of_anchor (h : LeaseOk C right port cause X L) (ha : (port i).Anchor)
    (hown : i = X → right i →
      L.phase = .asking ∨ L.phase = .granted ∧ q.Anchor → q.farLoc = (port i).farLoc) :
    KeepsPorts C right port X L i q where
  own hi := by
    by_cases hr : right i
    · exact ⟨fun _ _ => ha, hown hi hr⟩
    · have hidle : L.phase = .idle := by
        by_contra hne
        exact hr (hi ▸ h.anchor hne)
      refine ⟨fun _ _ => ha, fun hp => ?_⟩
      rw [hidle] at hp
      rcases hp with hp | ⟨hp, -⟩ <;> cases hp
  held hi := by
    have := (h.heldBy i hi).loc
    rcases ha with ha | ha <;> rcases this with (hl | hl) | hl <;> simp [ha] at hl
  through _ p _ ht := by
    have := ht.passes
    rcases ha with ha | ha <;> rcases this with hl | hl <;> simp [ha] at hl

namespace KeepsLease

theorem of_same (h : LeaseOk C right port cause X L) (hs : (port i).SameHold q)
    (hloc : q.loc = (port i).loc ∨ q.loc = .ended) : KeepsLease C right port X L i q where
  own hi := by
    subst hi
    exact ⟨fun _ ha => (ha.of_loc hloc).1, fun _ => hs.farLoc⟩
  ownOk hi := (hi ▸ h.own : OwnOk C right port X L (port i)).of_same hs hloc
  held hi := by
    obtain ⟨hnorm, hlock, hreq⟩ := h.heldBy i hi
    refine ⟨⟨?_, ?_, hs.requestor.trans hreq⟩, hs.farLoc, hs.delta⟩
    · rcases hloc with hloc | hloc
      · simpa only [Port.Normal, hloc] using hnorm
      · exact .inr hloc
    · rw [hs.locked, hs.lockPending]
      exact hlock
  through _ p _ ht := by
    refine ⟨?_, hs.farLoc, hs.delta⟩
    rcases hloc with hloc | hloc
    · simpa only [Port.Passes, hloc] using ht.passes
    · exact .inr hloc

theorem refl (h : LeaseOk C right port cause X L) : KeepsLease C right port X L i (port i) :=
  of_same h (.refl _) (.inl rfl)

/-- An anchor that faces left, or of another lease. -/
theorem of_anchor (h : LeaseOk C right port cause X L) (ha : (port i).Anchor)
    (hown : i = X → ¬ right i) : KeepsLease C right port X L i q where
  toKeepsPorts := .of_anchor h ha fun hi hr => absurd hr (hown hi)
  ownOk hi := by
    have hidle : L.phase = .idle := by
      by_contra hne
      exact hown hi (hi ▸ h.anchor hne)
    rw [OwnOk, hidle]
    exact fun hX => absurd (hi ▸ hX) (hown hi)

/-- A port that faces left, with what it passes on for the lease. -/
theorem of_left (h : LeaseOk C right port cause X L) (hi : ¬ right i)
    (hthrough : ∀ p, L.Covers X p → Through port L.anchor p i →
      q.Passes ∧ q.farLoc = (port i).farLoc ∧ q.delta = (port i).delta) :
    KeepsLease C right port X L i q := by
  have hidle (he : i = X) : L.phase = .idle := by
    by_contra hne
    exact hi (he ▸ h.anchor hne)
  refine ⟨⟨fun he => ?_, fun hmem => absurd (h.facing i hmem) hi, fun _ => hthrough⟩, fun he => ?_⟩
  · simp [hidle he]
  · rw [OwnOk, hidle he]
    exact fun hX => absurd (he ▸ hX) hi

/-- A port that faces right and has no reconfiguration of its own. -/
theorem of_right (hr : right i) (hidle : i = X → L.phase = .idle) (hq : ¬ q.Anchor)
    (hheld : i ∈ L.held → q.HeldBy X) (hfar : q.farLoc = (port i).farLoc)
    (hdelta : q.delta = (port i).delta) : KeepsLease C right port X L i q where
  own _ := ⟨fun _ ha => absurd ha hq, fun _ => hfar⟩
  ownOk hi := by
    rw [OwnOk, hidle hi]
    exact fun _ => hq
  held hi := ⟨hheld hi, hfar, hdelta⟩
  through hn := absurd hr hn

end KeepsLease

/-! ## Requests that are saved, and right anchors -/

theorem SavedOk.keep {q₀ : Addr} (hl : ∀ X, LeaseOk C right port cause X (g X))
    (hkeep : ∀ X, (g X).token = .saved q₀ → g' X = g X ∧ KeepsPorts C right port X (g X) i q)
    (hport : i = q₀ → q.loc = .anchoring → q.lock.requesting = true →
      q.lock.requestPendingRequestor ≠ 0 → (port i).loc = .anchoring ∧
        (port i).lock.requesting = true ∧
          q.lock.requestPendingRequestor = (port i).lock.requestPendingRequestor ∧
            q.lock.requestPendingAnchor = (port i).lock.requestPendingAnchor ∧
              q.lock.requestPendingDelta = (port i).lock.requestPendingDelta)
    (h : SavedOk right port g q₀) : SavedOk right (Function.update port i q) g' q₀ := by
  intro hr hloc hreq hne
  have hold (hloc' : (port q₀).loc = .anchoring) (hreq' : (port q₀).lock.requesting = true)
      (hne' : (port q₀).lock.requestPendingRequestor ≠ 0) :
      (g' (port q₀).lock.requestPendingRequestor).token = .saved q₀ ∧
        (port q₀).lock.requestPendingAnchor = (g' (port q₀).lock.requestPendingRequestor).anchor ∧
          (port q₀).lock.requestPendingDelta = rightSum (Function.update port i q)
            (g' (port q₀).lock.requestPendingRequestor).before := by
    obtain ⟨htok, hanchor, hdelta⟩ := h hr hloc' hreq' hne'
    obtain ⟨hg, hk⟩ := hkeep _ htok
    rw [hg, hk.sum_right (hl _) fun x hx => List.mem_append_left _ hx]
    exact ⟨htok, hanchor, hdelta⟩
  by_cases hi : i = q₀
  · subst hi
    rw [Function.update_self] at hloc hreq hne ⊢
    obtain ⟨hloc', hreq', he, ha, hd⟩ := hport rfl hloc hreq hne
    rw [he, ha, hd]
    exact hold hloc' hreq' (he ▸ hne)
  · rw [Function.update_of_ne (Ne.symm hi)] at hloc hreq hne ⊢
    exact hold hloc hreq hne

/-- The last port that is held leads to the same place. -/
theorem KeepsPorts.far_last (hk : KeepsPorts C right port X L i q)
    (h : LeaseOk C right port cause X L) (hL : L.phase = .asking) :
    (Function.update port i q (L.held.getLastD X)).farLoc = (port (L.held.getLastD X)).farLoc := by
  refine hk.port_far h ?_ (.inl hL)
  rcases eq_nil_or_concat_getLastD X L.held with ⟨-, he⟩ | ⟨b, hb⟩
  · exact .inr ⟨he, .inl hL⟩
  · refine .inl ?_
    rw [hb]
    simp

theorem EngagedOk.keep {L' : Lease} {R : Addr} (hl : LeaseOk C right port cause X L)
    (hk : KeepsPorts C right port X L i q) (hidle : L'.phase ≠ .idle)
    (hask : L'.phase = .asking → L.phase = .asking)
    (hcancel : L'.phase ≠ .canceling → L.phase ≠ .canceling)
    (hanchor : L'.anchor = L.anchor) (hheld : L'.held = L.held)
    (hport : i = R → q.loc = (port i).loc ∧ q.delta = (port i).delta ∧
      q.lock.newDelta = (port i).lock.newDelta)
    (h : EngagedOk port X L R) : EngagedOk (Function.update port i q) X L' R where
  phase := hidle
  anchor := hanchor.trans h.anchor
  complete hp := by
    rw [hheld, hk.far_last hl (hask hp)]
    exact h.complete (hask hp)
  sum hp := by
    have hp := hcancel hp
    rw [hheld, hk.sum_right hl fun x hx => hx]
    by_cases hi : i = R
    · subst hi
      obtain ⟨hloc, hdelta, hnew⟩ := hport rfl
      rw [Function.update_self, hloc, hdelta, hnew]
      exact h.sum hp
    · rw [Function.update_of_ne (Ne.symm hi)]
      exact h.sum hp

end Keeps

/-! ## Moves in a watched session -/

/-- Port `i` takes an option. -/
structure Watched.Acts (C : Config) (right : Addr → Prop) (w : Watched) (i : Addr) (inp : Input)
    (q : Port) (out : List Send) (w' : Watched) : Prop where
  ready : w.session.todo i = []
  option : .done q out ∈ options C i (w.session.port i) inp
  step : ∃ e, Step C w.session e w'.session
  session : ∃ s', w.session.Offers i inp s' ∧ w'.session = s'.act i q out
  canceling : ∀ X, w'.canceling X ↔ w.canceling X ∨ w'.session.SendsCancel X
  excused : ∀ X, w'.excused X ↔ w.excused X ∨ Excused C right w'.session.port X

/-- A message of port `i` enters its channel. -/
structure Watched.Flushes (C : Config) (right : Addr → Prop) (w : Watched) (i : Addr) (k : Send)
    (rest : List Send) (w' : Watched) : Prop where
  next : w.session.todo i = k :: rest
  step : ∃ e, Step C w.session e w'.session
  session : w'.session = (w.session.put i k).setTodo i rest
  canceling : ∀ X, w'.canceling X ↔ w.canceling X ∨ w'.session.SendsCancel X
  excused : ∀ X, w'.excused X ↔ w.excused X ∨ Excused C right w'.session.port X

theorem watchedSystem_cases {w w' : Watched} {e : Event}
    (h : (watchedSystem C right).step w e w') :
    (∃ i inp q out, w.Acts C right i inp q out w') ∨
      ∃ i k rest, w.Flushes C right i k rest w' := by
  obtain ⟨hstep, hcancel, hexcused⟩ := h
  rcases hstep.cases with ⟨i, inp, s', q, out, -, hready, ho, hopt, hs⟩ | ⟨i, k, rest, -, hnext, hs⟩
  · exact .inl ⟨i, inp, q, out, hready, hopt, ⟨e, hstep⟩, ⟨s', ho, hs⟩, hcancel, hexcused⟩
  · exact .inr ⟨i, k, rest, hnext, ⟨e, hstep⟩, hs, hcancel, hexcused⟩

namespace Watched.Acts
variable {w w' : Watched}

theorem port (ha : w.Acts C right i inp q out w') :
    w'.session.port = Function.update w.session.port i q := by
  obtain ⟨s', ho, hs⟩ := ha.session
  rw [hs, ← ho.port]
  rfl

theorem move (ha : w.Acts C right i inp q out w') : LockMove C i (w.session.port i) inp q out :=
  lockMove ha.option

/-- The cause of a refusal stays. -/
theorem cause (ha : w.Acts C right i inp q out w') {X : Addr} (h : w.Cause X) : w'.Cause X := by
  rcases h with h | h
  · exact .inl ((ha.excused X).mpr (.inl h))
  · right
    rw [ha.port]
    by_cases hi : X = i
    · subst hi
      have := ha.option
      rw [options_ended h] at this
      cases this
    · rwa [Function.update_of_ne hi]

end Watched.Acts

/-- **The parts together.** -/
theorem Leased.act {w w' : Watched} (hC : C.Chain right) (h : Leased C right w g)
    (ha : w.Acts C right i inp q out w') (hgrows : Grows g g')
    (hgrant : (w.session.port i).loc = .anchoring →
      ∀ dst, .addr dst (.syn false 0) ∈ out → (g' i).Opened)
    (hcanceling : ∀ X, (g' X).phase = .canceling ↔
      (g X).phase = .canceling ∨ X = i ∧ ∃ dst, .addr dst (.cancelLock i) ∈ out)
    (hlease : ∀ X, LeaseOk C right w'.session.port w'.Cause X (g' X))
    (haccount : Accounted w'.session fun X => (g' X).flight)
    (hsaved : ∀ q₀, SavedOk right w'.session.port g' q₀)
    (hengaged : ∀ R, ¬ right R → (w'.session.port R).Anchor →
      EngagedOk w'.session.port (w'.session.port R).lock.otherAnchor
        (g' (w'.session.port R).lock.otherAnchor) R)
    (hcancel : ∀ X q₀ rest, (g' X).phase = .canceling → (g' X).held = q₀ :: rest →
      CancelOk C w'.session X q₀) : Leased C right w' g' := by
  obtain ⟨s', ho, hs⟩ := ha.session
  have hport := h.sound.port i
  refine
    { sound := ha.step.elim fun _ => sound_step hC h.sound
      lease := hlease
      account := haccount
      saved := hsaved
      engaged := hengaged
      cancel := hcancel
      opened := ?_
      canceling := fun X => ?_ }
  · have hmono := h.opened.mono (fun _ _ _ hm => hgrows.openAddr hm)
      fun _ _ hm => hgrows.openForward hm
    rw [hs]
    refine hmono.act ho (ha.move.opened_out hC hport (fun ho' => ?_) (h.opened.input ho) hgrows
      hgrant fun dst hd => ?_)
    · have hown := (h.lease i).own
      rcases ho' with hp | hp
      · rw [OwnOk, hp] at hown
        exact hown.1
      · rw [OwnOk, hp] at hown
        exact hown.1
    · exact (hcanceling i).mpr (.inr ⟨rfl, dst, hd⟩)
  · rw [ha.canceling, h.canceling, hcanceling, Session.SendsCancel, hs]
    by_cases hi : X = i
    · subst hi
      simp only [Session.act_todo_self, true_and]
    · rw [Session.act_todo_of_ne _ hi, ho.todo]
      constructor
      · rintro (hX | ⟨dst, hd⟩)
        · exact .inl hX
        · exact .inl (h.opened.todo X _ hd)
      · rintro (hX | ⟨he, -⟩)
        · exact .inl hX
        · exact absurd he hi

/-! ## Tokens -/

/-- A place says which port its token follows. -/
theorem PlaceOk.unique {port : Addr → Port} {a a' p p' : Addr} {π : Place}
    (h : PlaceOk C right port a p π) (h' : PlaceOk C right port a' p' π) : p = p' := by
  cases π with
  | outAddr j dst =>
    by_cases hj : right j
    · exact (h.1 hj).1.symm.trans (h'.1 hj).1
    · exact (h.2 hj).symm.trans (h'.2 hj)
  | inbox dst src =>
    by_cases hd : right dst
    · exact (h.2 hd).symm.trans (h'.2 hd)
    · exact (h.1 hd).1.symm.trans (h'.1 hd).1
  | outForward j dst =>
    by_cases hj : right j
    · exact (h.2.2 hj).1.far.symm.trans (h'.2.2 hj).1.far
    · exact (h.2.1 hj).1.far.symm.trans (h'.2.1 hj).1.far
  | forwarded dst =>
    by_cases hd : right dst
    · exact (h.1 hd).1.far.symm.trans (h'.1 hd).1.far
    · exact (h.2 hd).1.far.symm.trans (h'.2 hd).1.far

/-- The token of an anchor, and what the port that it follows covers. -/
structure Owns (C : Config) (right : Addr → Prop) (w : Watched) (g : Addr → Lease) (X : Addr)
    (π : Place) (m : Msg) : Prop where
  phase : (g X).phase = .asking
  token : (g X).token = .flight π m
  place : PlaceOk C right w.session.port (g X).anchor ((g X).hop X) π
  msg : MsgOk C w.session.port w.Cause X (g X) π m

namespace Leased
variable {w w' : Watched} {X Y : Addr} {π : Place} {m : Msg}

theorem owns (h : Leased C right w g) (hX : (g X).flight = some (π, m)) :
    Owns C right w g X π m := by
  obtain ⟨hp, ht⟩ := (h.lease X).asking_of_flight hX
  have htok := (h.lease X).token
  rw [TokenOk, ht] at htok
  exact ⟨hp, ht, htok.1, htok.2⟩

/-- The ports that tokens follow are different. -/
theorem owner_unique (hC : C.Chain right) (h : Leased C right w g) (hX : (g X).phase = .asking)
    (hY : (g Y).phase = .asking) (hop : (g X).hop X = (g Y).hop Y) : X = Y :=
  (h.lease X).unique hC (h.lease Y) hY (Lease.hop_covers hX) (hop ▸ Lease.hop_covers hY)

/-- A token that is taken has an owner. -/
theorem owner {s' : Session} (h : Leased C right w g) (ho : w.session.Offers i inp s')
    (hp : inp.place i = some (π, m)) (hm : m.IsToken = true) : ∃ X, Owns C right w g X π m := by
  obtain ⟨X, hX⟩ := h.account.owner ho hp hm
  exact ⟨X, h.owns hX⟩

end Leased

theorem Owns.waits {w : Watched} {X : Addr} {π : Place} {m : Msg} (h : Owns C right w g X π m) :
    (g X).Waits :=
  ⟨h.phase, .inr ⟨π, m, h.token⟩⟩

theorem Owns.flight {w : Watched} {X : Addr} {π : Place} {m : Msg} (h : Owns C right w g X π m) :
    (g X).flight = some (π, m) := by
  rw [Lease.flight, h.token]

/-! ## Messages that enter their channels -/

section Flush
variable {w w' : Watched} {k : Send} {rest : List Send}

theorem Watched.Flushes.port (hf : w.Flushes C right i k rest w') :
    w'.session.port = w.session.port := by
  rw [hf.session, Session.setTodo_port, Session.put_port]

theorem Watched.Flushes.cause (hf : w.Flushes C right i k rest w') {X : Addr} (h : w.Cause X) :
    w'.Cause X := by
  rcases h with h | h
  · exact .inl ((hf.excused X).mpr (.inl h))
  · right
    rwa [hf.port]

/-- The place after the next one. -/
theorem PlaceOk.target {port : Addr → Port} {a p : Addr} (hC : C.Chain right)
    (hdirected : k.Has (FitsAddr right) (FitsForward right) i)
    (h : PlaceOk C right port a p (k.place i)) : PlaceOk C right port a p (k.target i) := by
  cases k with
  | addr dst m =>
    have hdir : right i ↔ ¬ right dst := hdirected.1
    exact ⟨fun hd => h.1 (hdir.mpr hd), fun hd => h.2 fun hi => hdir.mp hi hd⟩
  | forward dst m =>
    obtain ⟨rfl, hleft, hright⟩ := h
    refine ⟨fun hd => ?_, fun hd => ?_⟩
    · rw [hC.pair_pair]
      exact hleft ((hC.pair i).mp hd)
    · exact hright (not_not.mp fun hi => hd ((hC.pair i).mpr hi))

theorem MsgOk.mono {port : Addr → Port} {cause cause' : Addr → Prop} {X : Addr} {L : Lease}
    {π : Place} {m : Msg} (hcause : cause X → cause' X) (h : MsgOk C port cause X L π m) :
    MsgOk C port cause' X L π m := by
  cases m with
  | nackLock => exact ⟨h.1, h.2.1, h.2.2.1, hcause h.2.2.2⟩
  | _ => exact h

theorem MsgOk.target {port : Addr → Port} {cause : Addr → Prop} {X : Addr} {L : Lease}
    (hC : C.Chain right) (hp : k.Paired C i) (h : MsgOk C port cause X L (k.place i) k.msg) :
    MsgOk C port cause X L (k.target i) k.msg := by
  cases k with
  | addr dst m => cases m <;> exact h
  | forward dst m =>
    cases m with
    | ackLock r a d =>
      refine ⟨h.1, h.2.1, h.2.2.1, ?_⟩
      obtain ⟨after, hafter, hd⟩ := h.2.2.2
      refine ⟨after, ?_, hd⟩
      rw [show dst = C.pair i from hp, hC.pair_pair]
      exact hafter
    | _ => exact h

/-- Only tokens differ. -/
structure SameHeld (g g' : Addr → Lease) : Prop where
  phase : ∀ X, (g' X).phase = (g X).phase
  anchor : ∀ X, (g' X).anchor = (g X).anchor
  held : ∀ X, (g' X).held = (g X).held

theorem SameHeld.grows (h : SameHeld g g') : Grows g g' where
  opened X := by
    unfold Lease.Opened
    rw [h.phase X]
    exact id
  canceling X := by
    rw [h.phase X]
    exact id

theorem SameHeld.update {X : Addr} {L : Lease} (hp : L.phase = (g X).phase)
    (ha : L.anchor = (g X).anchor) (hh : L.held = (g X).held) :
    SameHeld g (Function.update g X L) where
  phase Y := (Function.apply_update (fun _ => Lease.phase) g X L Y).trans (by
    rw [hp]
    exact congrFun (Function.update_eq_self X fun Y => (g Y).phase) Y)
  anchor Y := (Function.apply_update (fun _ => Lease.anchor) g X L Y).trans (by
    rw [ha]
    exact congrFun (Function.update_eq_self X fun Y => (g Y).anchor) Y)
  held Y := (Function.apply_update (fun _ => Lease.held) g X L Y).trans (by
    rw [hh]
    exact congrFun (Function.update_eq_self X fun Y => (g Y).held) Y)

theorem Leased.flush_same (hC : C.Chain right) (h : Leased C right w g)
    (hf : w.Flushes C right i k rest w') (hg : SameHeld g g')
    (hlease : ∀ X, LeaseOk C right w.session.port w'.Cause X (g' X))
    (haccount : Accounted w'.session fun X => (g' X).flight)
    (hsaved : ∀ X q₀, (g X).token = .saved q₀ → g' X = g X) : Leased C right w' g' where
  sound := hf.step.elim fun _ => sound_step hC h.sound
  lease := by
    rw [hf.port]
    exact hlease
  account := haccount
  saved q₀ := by
    intro hr hloc hreq hne
    rw [hf.port] at hloc hreq hne ⊢
    obtain ⟨htok, hrest⟩ := h.saved q₀ hr hloc hreq hne
    rw [hsaved _ q₀ htok]
    exact ⟨htok, hrest⟩
  engaged R hr ha := by
    rw [hf.port] at ha ⊢
    obtain ⟨hp, hanchor, hcomplete, hsum⟩ := h.engaged R hr ha
    constructor
    · rw [hg.phase]
      exact hp
    · rw [hg.anchor]
      exact hanchor
    · rw [hg.phase, hg.held]
      exact hcomplete
    · rw [hg.phase, hg.held]
      exact hsum
  cancel X q₀ hs hp hheld := by
    rw [hg.phase] at hp
    rw [hg.held] at hheld
    rw [hf.session]
    exact (h.cancel X q₀ hs hp hheld).flush hC h.sound hf.next
  opened := by
    rw [hf.session]
    exact (h.opened.mono (fun _ _ _ hm => hg.grows.openAddr hm)
      fun _ _ hm => hg.grows.openForward hm).flush hf.next
  canceling X := by
    rw [hf.canceling, h.canceling, hg.phase, Session.SendsCancel, hf.session]
    refine ⟨fun hX => hX.elim id ?_, .inl⟩
    rintro ⟨dst, hd⟩
    refine h.opened.todo X (.addr dst (.cancelLock X)) ?_
    by_cases hi : X = i
    · subst hi
      rw [Session.setTodo_todo_self] at hd
      exact hf.next ▸ List.mem_cons_of_mem _ hd
    · rwa [Session.setTodo_todo_of_ne _ hi, Session.put_todo] at hd

theorem LeaseOk.cause_mono {port : Addr → Port} {cause cause' : Addr → Prop} {X : Addr} {L : Lease}
    (hC : C.Chain right) (h : LeaseOk C right port cause X L) (hcause : cause X → cause' X) :
    LeaseOk C right port cause' X L := by
  have := h.frame hC (i := 0) (.refl h) hcause
  rwa [Function.update_eq_self] at this

/-- The place and the token of a lease may differ. -/
theorem LeaseOk.retoken {port : Addr → Port} {cause : Addr → Prop} {X : Addr} {L : Lease}
    {b c : List Addr} {t : Token} (h : LeaseOk C right port cause X L) (ht : L.Waits)
    (hheld : b ++ c = L.held)
    (htok : TokenOk C right port cause X
      { L with before := b, after := c, token := t }) :
    LeaseOk C right port cause X { L with before := b, after := c, token := t } where
  own := by
    have hown := h.own
    rw [OwnOk, ht.phase] at hown ⊢
    exact ⟨hown.1, hown.2.1, hown.2.2.1, fun _ => hown.2.2.2 ht.token⟩
  anchor := h.anchor
  idle := by
    rw [Lease.held, hheld]
    exact h.idle
  gone hp := absurd ht.phase hp
  facing := by
    rw [Lease.held, hheld]
    exact h.facing
  heldBy := by
    rw [Lease.held, hheld]
    exact h.heldBy
  nodup := by
    rw [Lease.held, hheld]
    exact h.nodup
  chain := by
    rw [Lease.held, hheld]
    exact h.chain
  first := by
    rw [Lease.held, hheld]
    exact h.first
  firstFar := by
    rw [Lease.held, hheld]
    exact h.firstFar
  complete := by
    rw [Lease.held, hheld]
    exact h.complete
  token := htok

/-- The last port is given up. -/
theorem LeaseOk.shrink {port : Addr → Port} {cause : Addr → Prop} {X : Addr} {L : Lease}
    {b : List Addr} {token : Token} {π : Place} {m : Msg}
    (h : LeaseOk C right port cause X L) (ht : L.token = .flight π m) (hheld : L.held = b ++ [i])
    (htok : TokenOk C right port cause X { L with before := b, after := [], token := token }) :
    LeaseOk C right port cause X { L with before := b, after := [], token := token } := by
  have hp : L.phase = .asking := by
    by_contra hne
    rw [h.gone hne] at ht
    cases ht
  have hsub (x : Addr) (hx : x ∈ b ++ []) : x ∈ L.held := by
    rw [List.append_nil] at hx
    exact hheld ▸ List.mem_append_left _ hx
  have hhead (x : Addr) (hx : x ∈ (b ++ []).head?) : x ∈ L.held.head? := by
    rw [List.append_nil] at hx
    rw [hheld]
    cases b with
    | nil => cases hx
    | cons y b => exact hx
  exact
    { own := by
        have hown := h.own
        rw [OwnOk, hp] at hown ⊢
        exact ⟨hown.1, hown.2.1, hown.2.2.1, fun _ => hown.2.2.2 (.inr ⟨π, m, ht⟩)⟩
      anchor := h.anchor
      idle := fun hp' => absurd (hp.symm.trans hp') nofun
      gone := fun hp' => absurd hp hp'
      facing := fun x hx => h.facing x (hsub x hx)
      heldBy := fun x hx => h.heldBy x (hsub x hx)
      nodup := by
        have := h.nodup
        rw [hheld, ← List.cons_append] at this
        simpa only [Lease.held, List.append_nil] using (List.nodup_append.mp this).1
      chain := by
        have := h.chain
        rw [hheld] at this
        simpa only [Lease.held, List.append_nil] using this.left_of_append
      first := fun hp' x hx => h.first hp' x (hhead x hx)
      firstFar := fun hp' x hx => h.firstFar hp' x (hhead x hx)
      complete := fun hp' => absurd (hp.symm.trans hp') nofun
      token := htok }

/-- A port is added. -/
theorem LeaseOk.extend {port : Addr → Port} {cause : Addr → Prop} {X : Addr} {L : Lease}
    {token : Token} (h : LeaseOk C right port cause X L) (ht : L.Waits) (hafter : L.after = [])
    (hi : right i) (hheld : (port i).HeldBy X) (hnot : i ∉ X :: L.held)
    (hlink : Link C port L.anchor (L.hop X) i)
    (htok : TokenOk C right port cause X
      { L with before := L.before ++ [i], after := [], token := token }) :
    LeaseOk C right port cause X
      { L with before := L.before ++ [i], after := [], token := token } := by
  have hp := ht.phase
  have hold : L.held = L.before := by rw [Lease.held, hafter, List.append_nil]
  rw [hold] at hnot
  have hchain : (X :: (L.before ++ [i])).IsChain (Link C port L.anchor) := by
    have := h.link_chain hp
    rw [hold] at this
    exact isChain_concat this hlink
  have hmem (x : Addr) (hx : x ∈ L.before ++ [i] ++ []) : x ∈ L.held ∨ x = i := by
    rw [List.append_nil, List.mem_append, List.mem_singleton] at hx
    rwa [hold]
  have hfirst : ∀ x ∈ (L.before ++ [i] ++ []).head?, Link C port L.anchor X x := by
    rw [List.append_nil]
    exact (List.isChain_cons.mp hchain).1
  exact
    { own := by
        have hown := h.own
        rw [OwnOk, hp] at hown ⊢
        exact ⟨hown.1, hown.2.1, hown.2.2.1, fun _ => hown.2.2.2 ht.token⟩
      anchor := h.anchor
      idle := fun hp' => absurd (hp.symm.trans hp') (by rintro ⟨⟩)
      gone := fun hp' => absurd hp hp'
      facing := fun x hx => (hmem x hx).elim (h.facing x) fun he => he ▸ hi
      heldBy := fun x hx => (hmem x hx).elim (h.heldBy x) fun he => he ▸ hheld
      nodup := by
        have := h.nodup
        rw [hold] at this
        rw [Lease.held, List.append_nil, ← List.cons_append, List.nodup_append]
        refine ⟨this, List.nodup_cons.mpr ⟨List.not_mem_nil, List.nodup_nil⟩, fun x hx y hy he =>
          hnot ?_⟩
        rwa [← List.mem_singleton.mp hy, ← he]
      chain := by
        rw [Lease.held, List.append_nil]
        exact (List.isChain_cons.mp hchain).2
      first := fun _ x hx => (hfirst x hx).through
      firstFar := fun _ x hx => (hfirst x hx).far
      complete := fun hp' => absurd (hp.symm.trans hp') (by rintro ⟨⟩)
      token := htok }

/-- **A message that enters its channel keeps the leases.** -/
theorem Leased.flush (hC : C.Chain right) (h : Leased C right w g)
    (hf : w.Flushes C right i k rest w') : ∃ g', Leased C right w' g' := by
  have hmem : k ∈ w.session.todo i := hf.next ▸ List.mem_cons_self
  cases hk : k.msg.IsToken with
  | false =>
    refine ⟨g, h.flush_same hC hf ⟨fun _ => rfl, fun _ => rfl, fun _ => rfl⟩ (fun X => ?_) ?_
      fun _ _ _ => rfl⟩
    · exact (h.lease X).cause_mono hC hf.cause
    · rw [hf.session]
      exact h.account.flush_other hf.next hk
  | true =>
    -- the token is the one of some `X`
    obtain ⟨X, hX⟩ : ∃ X, (g X).flight = some (k.place i, k.msg) := by
      have hmem' : k.msg ∈ w.session.tokens (k.place i) := by
        refine List.mem_filter.mpr ⟨?_, hk⟩
        rw [flush_at_from hf.next]
        exact List.mem_cons_self
      obtain ⟨X, m, hX⟩ := h.account.owned (List.ne_nil_of_mem hmem')
      rw [h.account.present hX, List.mem_singleton] at hmem'
      exact ⟨X, hmem' ▸ hX⟩
    obtain ⟨hp, ht, hplace, hmsg⟩ := h.owns hX
    have htarget := hplace.target hC (h.sound.directed.messages.todo i k hmem)
    have hfree (Y : Addr) (m : Msg) : (g Y).flight ≠ some (k.target i, m) := by
      intro hY
      obtain ⟨hpY, htY, hplaceY, -⟩ := h.owns hY
      have := h.owner_unique hC hp hpY (htarget.unique hplaceY)
      subst this
      rw [ht, Token.flight.injEq] at htY
      exact absurd htY.1.symm (Send.target_ne_place i i k k)
    refine ⟨Function.update g X { g X with token := .flight (k.target i) k.msg },
      h.flush_same hC hf ?_ (fun Y => ?_) ?_ fun Y q₀ hY => ?_⟩
    · exact .update rfl rfl rfl
    · by_cases hY : Y = X
      · subst hY
        rw [Function.update_self]
        exact ((h.lease Y).cause_mono hC hf.cause).retoken ⟨hp, .inr ⟨_, _, ht⟩⟩ rfl
          ⟨htarget, (hmsg.target hC (h.sound.paired i k hmem)).mono hf.cause⟩
      · rw [Function.update_of_ne hY]
        exact (h.lease Y).cause_mono hC hf.cause
    · rw [hf.session]
      have := h.account.flush hf.next hX hfree
      convert this using 1
      funext Y
      by_cases hY : Y = X
      · subst hY
        rw [Function.update_self, Function.update_self]
        rfl
      · rw [Function.update_of_ne hY, Function.update_of_ne hY]
    · refine Function.update_of_ne ?_ ..
      rintro rfl
      rw [ht] at hY
      cases hY

end Flush

end Dysco.PortProcess
