import Dysco.LeasePhases

/-! # The leases in every run

Every move of a port keeps the leases in agreement with the session, so they agree in every
state that is reached (`leased_reachable`).
-/
namespace Dysco.PortProcess

variable {C : Config} {right : Addr → Prop} {g : Addr → Lease} {i : Addr} {q : Port}
variable {inp : Input} {out : List Send} {w w' : Watched} {π : Place} {m : Msg}

theorem Msg.IsData.not_token (h : m.IsData) : m.IsToken = false := by
  cases m <;> first | rfl | exact h.elim

theorem Msg.IsData.ne (h : m.IsData) : m ≠ .syn false 0 ∧ ∀ X, m ≠ .cancelLock X := by
  constructor
  · rintro rfl
    exact h
  · rintro X rfl
    exact h

theorem Input.IsData.place (h : inp.IsData) (hp : inp.place i = some (π, m)) : m.IsData := by
  cases inp <;> cases hp <;> exact h

theorem Send.Meets.msg {p : Port} {k : Send} (h : k.Meets C i p Msg.IsData) : k.msg.IsData := by
  cases k <;> exact h.2

/-- While a path is set up there are no lock messages. -/
theorem SetUpMove.not_token {p : Port} (h : SetUpMove C i p inp out) :
    (∀ π m, inp.place i = some (π, m) → m.IsToken = false ∧ ∀ X, m ≠ .cancelLock X) ∧
      ∀ k ∈ out, k.msg.IsToken = false ∧ ∀ X, k.msg ≠ .cancelLock X := by
  cases h <;> simp [Input.place, Send.msg, Msg.IsToken]

/-- An anchor that looks for its completion either goes on or is back in its normal state. -/
theorem Port.checkCompletion_cases (p : Port) (e : Bool) :
    p.checkCompletion e = p ∨ ¬ (p.checkCompletion e).Anchor ∧
      (p.checkCompletion e).loc ≠ .endSynchronizing ∧
        (p.checkCompletion e).lock.requestor = p.lock.requestor ∧
          (p.checkCompletion e).lock.lockPending = p.lock.lockPending := by
  unfold Port.checkCompletion
  split
  · right
    rw [Port.complete_lock]
    have hc := p.complete_loc e
    refine ⟨?_, ?_, rfl, rfl⟩
    · rcases hc with (hc | hc) | hc <;> simp [Port.Anchor, hc]
    · rcases hc with (hc | hc) | hc <;> simp [hc]
  · exact .inl rfl

namespace Leased

theorem act_completed (hC : C.Chain right) (h : Leased C right w g)
    (ha : w.Acts C right i inp q out w') (hinp : inp.IsData)
    (hloc : (w.session.port i).loc = .twoPaths) (hq : q.Normal ∨ q.loc = .ended)
    (hreq : q.lock.requestor = (w.session.port i).lock.requestor)
    (hpend : q.lock.lockPending = (w.session.port i).lock.lockPending)
    (hout : ∀ k ∈ out, k.Meets C i (w.session.port i) Msg.IsData) :
    ∃ g', Leased C right w' g' := by
  have hanchor : (w.session.port i).Anchor := .inr hloc
  have hq' : ¬ q.Anchor := by
    rcases hq with (hq | hq) | hq <;> simp [Port.Anchor, hq]
  have hsyn : q.loc ≠ .endSynchronizing := by
    rcases hq with (hq | hq) | hq <;> simp [hq]
  have hasking (hi : right i) : (g i).phase = .granted ∨ (g i).phase = .canceling := by
    have hown := (h.lease i).own
    unfold OwnOk at hown
    split at hown
    next => exact absurd hanchor (hown hi)
    next => exact absurd (hloc.symm.trans (hown.2.2.1 hanchor).1) (by rintro ⟨⟩)
    next hp => exact .inl hp
    next hp => exact .inr hp
  have hkeep (Y : Addr) : KeepsLease C right w.session.port Y (g Y) i q := by
    by_cases hY : i = Y ∧ right i
    · obtain ⟨rfl, hi⟩ := hY
      refine ⟨.of_anchor (h.lease i) hanchor fun _ _ hp => ?_, fun _ => ?_⟩
      · rcases hp with hp | ⟨-, hp⟩
        · rcases hasking hi with hp' | hp' <;> rw [hp] at hp' <;> cases hp'
        · exact absurd hp hq'
      · have hown := (h.lease i).own
        rcases hasking hi with hp | hp
        · rw [OwnOk, hp] at hown ⊢
          exact ⟨hsyn, hreq.trans hown.2.1, hpend.trans hown.2.2.1, fun hn => absurd hn hq'⟩
        · rw [OwnOk, hp] at hown ⊢
          exact ⟨hsyn, hreq.trans hown.2.1, hpend.trans hown.2.2.1, fun hn => absurd hn hq'⟩
    · exact .of_anchor (h.lease Y) hanchor fun he hi => hY ⟨he, hi⟩
  refine h.act_quiet hC ha hkeep (fun π m hm => (hinp.place hm).not_token)
    (fun k hk => (hout k hk).msg.not_token) (fun hl => absurd (hloc.symm.trans hl) (by rintro ⟨⟩))
    (fun dst hd => absurd rfl ((hout _ hd).msg.ne.2 i)) (fun _ hl => ?_)
    (fun _ hn => absurd hn hq') fun X _ he => ?_
  · rw [ha.port, Function.update_self] at hl
    exact absurd (.inl hl) hq'
  · rw [he] at hinp
    exact hinp.elim

theorem act_synchronizing (hC : C.Chain right) (h : Leased C right w g)
    (ha : w.Acts C right i inp q out w') (hloc : (w.session.port i).loc = .endSynchronizing)
    (hfar : q.farLoc = (w.session.port i).farLoc) (hlock : q.lock = (w.session.port i).lock)
    (hq : q.loc = .endSynchronizing ∨ q.Normal ∨ q.loc = .ended)
    (hmove : SetUpMove C i (w.session.port i) inp out) : ∃ g', Leased C right w' g' := by
  have hq' : ¬ q.Anchor := by
    rcases hq with hq | (hq | hq) | hq <;> simp [Port.Anchor, hq]
  have hkeep (Y : Addr) : KeepsLease C right w.session.port Y (g Y) i q := by
    refine ⟨⟨fun _ => ⟨fun _ hn => absurd hn hq', fun _ => hfar⟩, fun hmem => ?_,
      fun _ p _ ht => ?_⟩,
      fun he => ?_⟩
    · rcases ((h.lease Y).heldBy i hmem).loc with (hl | hl) | hl <;> simp [hloc] at hl
    · rcases ht.passes with hl | hl <;> simp [hloc] at hl
    · subst he
      have hown := (h.lease i).own
      unfold OwnOk at hown ⊢
      split at hown
      next => exact fun _ => hq'
      next =>
        rw [hlock]
        refine ⟨hown.1, hown.2.1, fun hn => absurd hn hq', fun ht => ?_⟩
        rcases (hown.2.2.2 ht).1 with hl | hl <;> simp [hloc] at hl
      next => exact absurd hloc hown.1
      next => exact absurd hloc hown.1
  obtain ⟨hin, hout⟩ := hmove.not_token
  refine h.act_quiet hC ha hkeep (fun π m hm => (hin π m hm).1) (fun k hk => (hout k hk).1)
    (fun hl => absurd (hloc.symm.trans hl) (by rintro ⟨⟩))
    (fun dst hd => absurd rfl ((hout _ hd).2 i)) (fun _ hl => ?_)
    (fun _ hn => absurd hn hq') fun X _ he => ?_
  · rw [ha.port, Function.update_self] at hl
    exact absurd (.inl hl) hq'
  · rw [he] at hin
    exact absurd rfl ((hin _ _ rfl).2 X)

/-- A left neighbor is asked. -/
theorem act_ask {a n : Addr} (hC : C.Chain right) (h : Leased C right w g)
    (ha : w.Acts C right i (.own (.ask a n)) q [.addr (w.session.port i).farLoc (.rightRequest a n)]
      w')
    (hi : ¬ right i) (hloc : (w.session.port i).Normal) (hq : q.loc = (w.session.port i).loc)
    (hsame : (w.session.port i).SameHold q) : ∃ g', Leased C right w' g' := by
  have hq' : ¬ q.Anchor := by
    rcases hloc with hl | hl <;> simp [Port.Anchor, hq, hl]
  exact h.act_quiet hC ha (fun Y => .of_same (h.lease Y) hsame (.inl hq)) (by rintro _ _ ⟨⟩)
    (by simp [Send.msg, Msg.IsToken]) (fun _ _ hd => by simp at hd) (fun _ hd => by simp at hd)
    (fun hr => absurd hr hi) (fun _ hn => absurd hn hq') (by rintro _ _ ⟨⟩)

/-- The left anchor splits the numbers between its two paths. -/
theorem act_setUp {seq ack : Int} {e : Bool} (hC : C.Chain right) (h : Leased C right w g)
    (ha : w.Acts C right i
      (.addr (w.session.port i).lock.newFarLoc (.synAck false seq ack))
      ((w.session.port i).split.checkCompletion e)
      [.addr (w.session.port i).lock.newFarLoc (.ack false 0)] w')
    (hloc : (w.session.port i).loc = .anchoring) : ∃ g', Leased C right w' g' := by
  have hi : right i := not_not.mp (h.fits ha).2
  have hanchor : (w.session.port i).Anchor := .inl hloc
  obtain ⟨s', ho, hs⟩ := ha.session
  have hopened : (g i).Opened := by
    have hopen : OpensFrom C g i (w.session.port i).lock.newFarLoc := h.opened.input ho
    generalize hl : (w.session.port i).lock.newFarLoc = l at hopen
    cases hopen with
    | anchor ho => exact ho
    | along _ => exact absurd hl ((h.sound.port i).newFar hi hanchor)
  have hown := (h.lease i).own
  set q := (w.session.port i).split.checkCompletion e with hqdef
  -- either both paths are there, or the old one has come to its end at once
  have hq : q = (w.session.port i).split ∨ ¬ q.Anchor ∧ q.loc ≠ .endSynchronizing ∧
      q.lock.requestor = (w.session.port i).lock.requestor ∧
        q.lock.lockPending = (w.session.port i).lock.lockPending :=
    (w.session.port i).split.checkCompletion_cases e
  have hkeep (Y : Addr) : KeepsLease C right w.session.port Y (g Y) i q := by
    by_cases hY : i = Y
    · subst hY
      refine ⟨.of_anchor (h.lease i) hanchor fun _ _ hp => ?_, fun _ => ?_⟩
      · rcases hq with hq | ⟨hq, -⟩
        · rw [hq]
          rfl
        · rcases hp with hp | ⟨-, hp⟩
          · rcases hopened with hp' | hp' <;> rw [hp] at hp' <;> cases hp'
          · exact absurd hp hq
      · rcases hopened with hp | hp
        · rw [OwnOk, hp] at hown ⊢
          obtain ⟨-, hreq, hpend, hgranted⟩ := hown
          rcases hq with hq | ⟨hq, hsyn, hreq', hpend'⟩
          · obtain ⟨hr, hother, hnew⟩ := hgranted hanchor
            rw [hq]
            refine ⟨(by rintro ⟨⟩), hreq, hpend, fun _ => ⟨hr, hother, ?_⟩⟩
            rw [if_neg (by rw [hloc]; rintro ⟨⟩), add_zero] at hnew
            rw [← hnew]
            rfl
          · exact ⟨hsyn, hreq'.trans hreq, hpend'.trans hpend, fun hn => absurd hn hq⟩
        · rw [OwnOk, hp] at hown ⊢
          obtain ⟨-, hreq, hpend, hr⟩ := hown
          rcases hq with hq | ⟨hq, hsyn, hreq', hpend'⟩
          · rw [hq]
            exact ⟨(by rintro ⟨⟩), hreq, hpend, fun _ => hr hanchor⟩
          · exact ⟨hsyn, hreq'.trans hreq, hpend'.trans hpend, fun hn => absurd hn hq⟩
    · exact .of_anchor (h.lease Y) hanchor fun he => absurd he hY
  refine h.act_quiet hC ha hkeep (by simp [Input.place, Msg.IsToken])
    (by simp [Send.msg, Msg.IsToken]) (fun _ _ hd => by simp at hd) (fun _ hd => by simp at hd)
    (fun _ hl => ?_) (fun hn => absurd hi hn) (by rintro _ _ ⟨⟩)
  rw [ha.port, Function.update_self] at hl
  rcases hq with hq | ⟨hq, -⟩
  · rw [hq] at hl
    cases hl
  · exact absurd (.inl hl) hq

/-- So does the right anchor. -/
theorem act_setUpRight {ack : Int} {e : Bool} (hC : C.Chain right) (h : Leased C right w g)
    (ha : w.Acts C right i (.addr (w.session.port i).lock.newFarLoc (.ack false ack))
      ((w.session.port i).split.checkCompletion e) [] w')
    (hloc : (w.session.port i).loc = .anchoring) : ∃ g', Leased C right w' g' := by
  have hi : ¬ right i := (h.fits ha).2 rfl
  have hanchor : (w.session.port i).Anchor := .inl hloc
  have hkeep (q : Port) (Y : Addr) : KeepsLease C right w.session.port Y (g Y) i q :=
    .of_anchor (h.lease Y) hanchor fun _ => hi
  set q := (w.session.port i).split.checkCompletion e with hqdef
  refine h.act_quiet hC ha (hkeep q) (by simp [Input.place, Msg.IsToken])
    (by rintro _ ⟨⟩) (by rintro _ _ ⟨⟩) (by rintro _ ⟨⟩)
    (fun hr => absurd hr hi) (fun _ hq => ?_) (by rintro _ _ ⟨⟩)
  have hsplit : q = (w.session.port i).split :=
    ((w.session.port i).split.checkCompletion_cases e).resolve_right fun hn => hn.1 hq
  have heng := h.engaged i hi hanchor
  rw [show q.lock.otherAnchor = (w.session.port i).lock.otherAnchor by rw [hsplit]; rfl, ha.port]
  have hports := (hkeep q (w.session.port i).lock.otherAnchor).toKeepsPorts
  refine ⟨heng.phase, heng.anchor, fun hp => ?_, fun hp => ?_⟩
  · rw [hports.far_last (h.lease _) hp]
    exact heng.complete hp
  · have hsum := heng.sum hp
    rw [hports.sum_right (h.lease _) fun x hx => hx, Function.update_self, hsplit]
    rw [if_neg (by rw [hloc]; rintro ⟨⟩), add_zero] at hsum
    rw [← hsum]
    rfl

/-- The right anchor returns. -/
theorem act_canceled {r : Addr} {src : Addr} (hC : C.Chain right) (h : Leased C right w g)
    (ha : w.Acts C right i (.addr src (.cancelLock r)) q
      [.addr (w.session.port i).farLoc (.ackCancel r)] w')
    (hloc : (w.session.port i).loc = .anchoring) (hq : q.Normal) : ∃ g', Leased C right w' g' := by
  have hi : ¬ right i := (h.fits ha).2
  have hq' : ¬ q.Anchor := not_or.mpr hq.ne
  exact h.act_quiet hC ha (fun Y => .of_anchor (h.lease Y) (.inl hloc) fun _ => hi)
    (by simp [Input.place, Msg.IsToken]) (by simp [Send.msg, Msg.IsToken])
    (fun _ _ hd => by simp at hd) (fun _ hd => by simp at hd) (fun hr => absurd hr hi)
    (fun _ hn => absurd hn hq') nofun

/-- The left anchor returns. -/
theorem act_cancelDone {src : Addr} (hC : C.Chain right) (h : Leased C right w g)
    (ha : w.Acts C right i (.addr src (.ackCancel i)) q [] w')
    (hloc : (w.session.port i).loc = .anchoring) (hq : q.Normal)
    (hfar : q.farLoc = (w.session.port i).farLoc) (hlock : q.lock = (w.session.port i).lock) :
    ∃ g', Leased C right w' g' := by
  have hi : right i := not_not.mp (h.fits ha).2
  have hq' : ¬ q.Anchor := not_or.mpr hq.ne
  obtain ⟨s', ho, hs⟩ := ha.session
  have hphase : (g i).phase = .canceling := h.opened.input ho
  have hkeep (Y : Addr) : KeepsLease C right w.session.port Y (g Y) i q := by
    by_cases hY : i = Y
    · subst hY
      refine ⟨.of_anchor (h.lease i) (.inl hloc) fun _ _ _ => hfar, fun _ => ?_⟩
      have hown := (h.lease i).own
      rw [OwnOk, hphase] at hown ⊢
      rw [hlock]
      refine ⟨?_, hown.2.1, hown.2.2.1, fun hn => absurd hn hq'⟩
      rcases hq with hl | hl <;> rw [hl] <;> rintro ⟨⟩
    · exact .of_anchor (h.lease Y) (.inl hloc) fun he => absurd he hY
  refine h.act_quiet hC ha hkeep (by simp [Input.place, Msg.IsToken])
    (by rintro _ ⟨⟩) (by rintro _ _ ⟨⟩) (by rintro _ ⟨⟩)
    (fun _ hl => ?_) (fun hn => absurd hi hn) (by rintro _ _ ⟨⟩)
  rw [ha.port, Function.update_self] at hl
  exact absurd (.inl hl) hq'

/-- **A move of a port keeps the leases.** -/
theorem act_move (hC : C.Chain right) (h : Leased C right w g)
    (ha : w.Acts C right i inp q out w') : ∃ g', Leased C right w' g' := by
  have hfits := h.fits ha
  have hin : inp.Has (OpenAddr C g) (OpenForward C g) i := by
    obtain ⟨s', ho, -⟩ := ha.session
    exact h.opened.input ho
  cases ha.move with
  | data hinp hsame hloc hq hout =>
    refine h.act_still hC ha hsame hq (fun π m hm => (hinp.place hm).not_token)
      (fun X he => ?_) fun k hk => ⟨(hout k hk).msg.not_token, (hout k hk).msg.ne.1, fun he => ?_⟩
    · rw [he] at hinp
      exact hinp
    · exact absurd he ((hout k hk).msg.ne.2 i)
  | @completed _ q _ hinp hsame hloc hq hdone hout =>
    have hlock := q.complete_lock (C.endpoint i)
    refine h.act_completed hC ha hinp hloc (q.complete_loc _) ?_ ?_ hout
    · rw [hlock, hsame.lock]
    · rw [hlock, hsame.lock]
  | synchronizing hloc hfar hlock hq hmove =>
    exact h.act_synchronizing hC ha hloc hfar hlock hq hmove
  | choose hloc hidle hc =>
    exact h.act_begin hC ha (hC.choose _ _ hc) hidle (by rintro _ _ ⟨⟩) rfl rfl rfl rfl rfl rfl rfl
  | ask hloc hidle hc =>
    exact h.act_ask hC ha (hC.ask _ _ _ hc).1 hloc rfl ⟨rfl, rfl, rfl, rfl, rfl, rfl, rfl, rfl⟩
  | asked hloc hidle =>
    exact h.act_begin hC ha (not_not.mp hfits.2.1) hidle (by simp [Input.place, Msg.IsToken])
      rfl rfl rfl rfl rfl rfl rfl
  | notAsked =>
    exact h.act_still hC ha ⟨rfl, rfl, rfl⟩ (.inl rfl) (by simp [Input.place, Msg.IsToken])
      (by rintro _ ⟨⟩)
      (by rintro _ ⟨⟩)
  | requested hloc huse => exact h.act_requested hC ha rfl rfl rfl
  | notRequested => exact h.act_notRequested hC ha
  | notFound hloc hne hend hm => exact h.act_notFound hC ha hloc hne hend hm
  | requestAddr hloc hne => exact h.act_requestAddr hC ha hloc hne
  | requestLost => exact h.act_requestLost hC ha
  | requestForward hloc hfree => exact h.act_requestForward hC ha hloc hfree rfl rfl rfl rfl rfl
  | ackAddr hloc => exact h.act_ackAddr hC ha hloc
  | ackLost hloc => exact h.act_ackLost hC ha hloc
  | ackForward => exact h.act_ackForward hC ha
  | nackAddr hloc => exact h.act_nackAddr hC ha hloc rfl rfl rfl
  | nackForward => exact h.act_nackForward hC ha
  | timeoutAddr hloc => exact h.act_timeoutAddr hC ha hloc
  | timeoutForward => exact h.act_timeoutForward hC ha
  | cancelAddr =>
    refine h.act_still hC ha ⟨rfl, rfl, rfl⟩ (.inl rfl) (by simp [Input.place, Msg.IsToken])
      (by rintro _ ⟨⟩)
      fun k hk => ?_
    rw [List.mem_singleton.mp hk]
    exact ⟨rfl, (by rintro ⟨⟩), fun he => by cases he; exact hin⟩
  | ackCancelAddr | ackCancelForward =>
    refine h.act_still hC ha ⟨rfl, rfl, rfl⟩ (.inl rfl) (by simp [Input.place, Msg.IsToken])
      (by simp)
      fun k hk => ?_
    rw [List.mem_singleton.mp hk]
    exact ⟨rfl, (by rintro ⟨⟩), (by rintro ⟨⟩)⟩
  | cancelForward hloc hheld => exact h.act_cancelForward hC ha hloc hheld.2 rfl rfl rfl
  | granted hloc => exact h.act_granted hC ha hloc ⟨hloc, rfl, rfl, rfl, rfl, rfl, rfl⟩
  | grantedNack hloc hheld huse hsome =>
    exact h.act_grantedNack hC ha hloc hsome ⟨hloc, rfl, rfl, rfl, rfl, rfl, rfl⟩
  | notGranted => exact h.act_notGranted hC ha
  | refused hloc => exact h.act_refused hC ha hloc (Port.toOnePath_normal _ _) rfl
  | refusedPass hloc hheld hsome =>
    exact h.act_refusedPass hC ha hloc hsome (Port.toOnePath_normal _ _) rfl rfl rfl rfl
  | retry hloc => exact h.act_retry hC ha hloc
  | giveUp hloc => exact h.act_giveUp hC ha hloc (Port.toOnePath_normal _ _) rfl rfl
  | requestedAgain => exact h.act_requestedAgain hC ha
  | canceled hloc => exact h.act_canceled hC ha hloc (Port.toOnePath_normal _ _)
  | cancelDone hloc => exact h.act_cancelDone hC ha hloc (Port.toOnePath_normal _ _) rfl rfl
  | save hloc hreq =>
    exact h.act_save hC ha hloc ⟨rfl, rfl, rfl, rfl, rfl, rfl, rfl, rfl⟩ rfl rfl rfl rfl
  | refuse hloc => exact h.act_refuse hC ha hloc
  | newSyn hloc hout =>
    refine h.act_still hC ha ⟨rfl, rfl, rfl⟩ (.inl rfl) (by simp [Input.place, Msg.IsToken])
      (by rintro _ ⟨⟩)
      fun k hk => ?_
    rcases hout with rfl | rfl
    · cases hk
    · rw [List.mem_singleton.mp hk]
      exact ⟨rfl, (by rintro ⟨⟩), (by rintro ⟨⟩)⟩
  | setUp hloc => exact h.act_setUp hC ha hloc
  | notSetUp =>
    exact h.act_still hC ha ⟨rfl, rfl, rfl⟩ (.inl rfl) (by simp [Input.place, Msg.IsToken])
      (by rintro _ ⟨⟩)
      (by rintro _ ⟨⟩)
  | failed hloc => exact h.act_failed hC ha hloc
  | setUpRight hloc => exact h.act_setUpRight hC ha hloc

end Leased

theorem tokens_eq_nil {s : Session}
    (h : s.Messages (fun _ _ m => m.IsToken = false) fun _ m => m.IsToken = false) (π : Place) :
    s.tokens π = [] := by
  refine List.filter_eq_nil_iff.mpr fun m hm => Bool.not_eq_true _ ▸ ?_
  have hsent {i : Addr} {π : Place} (hm : m ∈ sendsAt i (s.todo i) π) : m.IsToken = false := by
    obtain ⟨k, hk, he⟩ := List.mem_filterMap.mp hm
    have := h.todo i k hk
    simp only [Option.ite_none_right_eq_some, Option.some.injEq] at he
    rw [← he.2]
    cases k <;> exact this
  cases π with
  | outAddr i dst => exact hsent hm
  | outForward i dst => exact hsent hm
  | inbox dst src =>
    obtain ⟨x, hx, he⟩ := List.mem_filterMap.mp hm
    simp only [Option.ite_none_right_eq_some, Option.some.injEq] at he
    exact he.2 ▸ h.addr dst x hx
  | forwarded dst => exact h.forward dst m hm

/-- A session begins without leases. -/
theorem leased_start (hC : C.Chain right) (hw : (watchedSystem C right).init w) :
    Leased C right w fun _ => Lease.none := by
  obtain ⟨hs, hcancel, -⟩ := hw
  have hport (X : Addr) : ¬ (w.session.port X).Anchor := by
    rw [hs]
    exact Config.start_ports (P := fun _ p => ¬ p.Anchor)
      (fun i => by simp [Config.port, Port.Anchor])
      (by simp [Config.port, Port.Anchor, Port.sendSyn]) X
  have hlock (X : Addr) : (w.session.port X).loc ≠ .anchoring := fun hl => hport X (.inl hl)
  refine
    { sound := hs ▸ sound_start hC
      lease := fun X => Leased.leaseOk_none (hport X)
      account := ⟨(by rintro _ _ _ ⟨⟩), fun {π} hne => ?_, (by intros; contradiction)⟩
      saved := fun q₀ _ hl => absurd hl (hlock q₀)
      engaged := fun R _ ha => absurd ha (hport R)
      cancel := fun X q₀ rest hp => by cases hp
      opened := ?_
      canceling := fun X => iff_of_false (hcancel X) (by rintro ⟨⟩) }
  · refine absurd (tokens_eq_nil ?_ π) hne
    rw [hs]
    exact Config.start_messages rfl
  · rw [hs]
    exact Config.start_messages trivial

theorem leased_step {e : Event} (hC : C.Chain right) (h : Leased C right w g)
    (hstep : (watchedSystem C right).step w e w') : ∃ g', Leased C right w' g' := by
  rcases watchedSystem_cases hstep with ⟨i, inp, q, out, ha⟩ | ⟨i, k, rest, hf⟩
  · exact h.act_move hC ha
  · exact h.flush hC hf

/-- **In every state that is reached the leases agree with the session.** -/
theorem leased_reachable (hC : C.Chain right) (hw : (watchedSystem C right).Reachable w) :
    ∃ g, Leased C right w g :=
  hw.invariant (P := fun w => ∃ g, Leased C right w g) (fun _ hw => ⟨_, leased_start hC hw⟩)
    fun _ _ _ ⟨_, h⟩ hstep => leased_step hC h hstep

end Dysco.PortProcess
