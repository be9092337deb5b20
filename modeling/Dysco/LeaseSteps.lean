import Dysco.LeaseInvariant

/-! # What a step does to the leases

For each part of the invariant, what a step needs to keep it.
-/
namespace Dysco.PortProcess

variable {C : Config} {right : Addr → Prop} {g g' : Addr → Lease} {i : Addr} {p q : Port}
variable {inp : Input} {out : List Send}

/-! ## New paths and cancellations -/

/-- A way that is open stays open as leases grow. -/
theorem OpensFrom.mono {a l : Addr} (hmono : ∀ X, (g X).Opened → (g' X).Opened)
    (h : OpensFrom C g a l) : OpensFrom C g' a l := by
  induction h with
  | anchor h => exact .anchor (hmono _ h)
  | along _ ih => exact .along ih

/-- What has been opened stays opened. -/
structure Grows (g g' : Addr → Lease) : Prop where
  opened : ∀ X, (g X).Opened → (g' X).Opened
  canceling : ∀ X, (g X).phase = .canceling → (g' X).phase = .canceling

theorem Grows.refl (g : Addr → Lease) : Grows g g := ⟨fun _ => id, fun _ => id⟩

/-- A message about a path that is open still is about one. -/
theorem Grows.openAddr (h : Grows g g') {dst src : Addr} {m : Msg} (hm : OpenAddr C g dst src m) :
    OpenAddr C g' dst src m := by
  cases m with
  | syn tcp => cases tcp with
    | false => exact hm.mono h.opened
    | true => trivial
  | synAck tcp => cases tcp with
    | false => exact hm.mono h.opened
    | true => trivial
  | synTimeout => exact hm.mono h.opened
  | cancelLock r => exact h.canceling r hm
  | ackCancel r => exact h.canceling r hm
  | _ => trivial

theorem Grows.openForward (h : Grows g g') {dst : Addr} {m : Msg} (hm : OpenForward C g dst m) :
    OpenForward C g' dst m := by
  cases m with
  | syn tcp => cases tcp with
    | false => exact hm.mono h.opened
    | true => trivial
  | synAck tcp => cases tcp with
    | false => exact hm.mono h.opened
    | true => trivial
  | synTimeout => exact hm.mono h.opened
  | cancelLock r => exact h.canceling r hm
  | ackCancel r => exact h.canceling r hm
  | _ => trivial

/-- The session's own messages are about no new path. -/
theorem Msg.IsData.openAddr {dst src : Addr} {m : Msg} (h : m.IsData) : OpenAddr C g dst src m := by
  cases m <;> trivial

theorem Msg.IsData.openForward {dst : Addr} {m : Msg} (h : m.IsData) : OpenForward C g dst m := by
  cases m <;> trivial

/-- Setting a path up goes along the path. -/
theorem SetUpMove.opened_out (hfar : p.farLoc = C.far i) (hpair : C.pair (C.pair i) = i)
    (hown : ¬ (g i).Opened) (hin : inp.Has (OpenAddr C g) (OpenForward C g) i)
    (h : SetUpMove C i p inp out) : ∀ m ∈ out, m.Has (OpenAddr C g) (OpenForward C g) i := by
  -- the port has been reached, so it opens its path along
  have halong {l : Addr} (h : OpensFrom C g i l) : OpensFrom C g (C.far (C.pair i)) (C.pair i) := by
    cases h with
    | anchor h => exact absurd h hown
    | along h => exact h
  cases h with
  | fail =>
    intro m hm
    rw [List.mem_singleton.mp hm]
    exact hin
  | lost =>
    intro m hm
    rw [List.mem_singleton.mp hm]
    exact halong hin
  | @passSyn tcp =>
    intro m hm
    rw [List.mem_singleton.mp hm]
    cases tcp with
    | false =>
      simp only [Input.Has, OpenAddr, hfar] at hin
      simpa only [Send.Has, OpenForward, hpair] using hin
    | true => trivial
  | @passSynAck tcp =>
    intro m hm
    rw [List.mem_singleton.mp hm]
    cases tcp with
    | false => exact halong hin
    | true => trivial
  | passTimeout =>
    intro m hm
    rw [List.mem_singleton.mp hm]
    exact halong hin
  | @sendSyn tcp =>
    intro m hm
    rw [List.mem_singleton.mp hm]
    cases tcp with
    | false =>
      simp only [Send.Has, OpenAddr, hfar]
      exact .along hin
    | true => trivial
  | @sendSynAck tcp =>
    intro m hm
    rw [List.mem_singleton.mp hm]
    cases tcp with
    | false => simpa only [Send.Has, OpenAddr, hfar, Input.Has, OpenForward] using hin
    | true => trivial
  | sendTimeout =>
    intro m hm
    rw [List.mem_singleton.mp hm]
    simpa only [Send.Has, OpenAddr, hfar, Input.Has, OpenForward] using hin
  | _ => simp [Send.Has, OpenAddr, OpenForward]

/-- **What a step says of a new path** is about one that is open, given that what it has received
was. -/
theorem LockMove.opened_out (hC : C.Chain right) (hp : p.Sound C right i)
    (hown : (g i).Opened → p.loc ≠ .endSynchronizing)
    (hin : inp.Has (OpenAddr C g) (OpenForward C g) i) (hg : Grows g g')
    (hgrant : p.loc = .anchoring → ∀ dst, .addr dst (.syn false 0) ∈ out → (g' i).Opened)
    (hfail : ∀ dst, .addr dst (.cancelLock i) ∈ out → (g' i).phase = .canceling)
    (h : LockMove C i p inp q out) : ∀ m ∈ out, m.Has (OpenAddr C g') (OpenForward C g') i := by
  have hdata (hout : ∀ m ∈ out, m.Meets C i p Msg.IsData) :
      ∀ m ∈ out, m.Has (OpenAddr C g') (OpenForward C g') i := by
    intro m hm
    cases m with
    | addr dst m => exact (hout _ hm).2.openAddr
    | forward dst m => exact (hout _ hm).2.openForward
  cases h with
  | data hinp hsame hloc hq hout => exact hdata hout
  | completed hinp hsame hloc hq hdone hout => exact hdata hout
  | synchronizing hloc hfar hlock hq hmove =>
    have hout := hmove.opened_out (hp.far (.inl hloc)) (hC.pair_pair i) (fun h => hown h hloc) hin
    intro m hm
    have := hout m hm
    cases m with
    | addr => exact hg.openAddr this
    | forward => exact hg.openForward this
  | granted hloc =>
    have := hgrant hloc _ (List.mem_singleton_self _)
    simpa [Send.Has, OpenAddr] using OpensFrom.anchor this
  | grantedNack hloc =>
    have := hgrant hloc _ (List.mem_cons_of_mem _ (List.mem_singleton_self _))
    simpa [Send.Has, OpenAddr, OpenForward] using OpensFrom.anchor this
  | failed =>
    simpa [Send.Has, OpenAddr] using hfail _ (List.mem_singleton_self _)
  | newSyn hloc hout =>
    rcases hout with rfl | rfl
    · simp
    · simpa [Send.Has, OpenAddr] using hin.mono hg.opened
  | cancelAddr | ackCancelAddr =>
    simpa [Send.Has, OpenForward] using hg.canceling _ hin
  | cancelForward | ackCancelForward =>
    simpa [Send.Has, OpenAddr] using hg.canceling _ hin
  | canceled => simpa [Send.Has, OpenAddr] using hg.canceling _ hin
  | notFound _ _ _ hm => rcases hm with rfl | rfl <;> simp [Send.Has, OpenAddr]
  | _ => simp [Send.Has, OpenAddr, OpenForward]

/-! ## Cancellations -/

section Cancel
variable {X : Addr} {a b : List Msg} {m : Msg}

/-- The first message decides: it is the cancellation, or it is no request and the rest decides. -/
theorem firstCancel_cons : FirstCancel X (m :: a) ↔
    m = .cancelLock X ∨ ¬ m.IsRequest ∧ FirstCancel X a := by
  constructor
  · rintro ⟨pre, post, he, hpre⟩
    cases pre with
    | nil => exact .inl (List.cons.inj he).1
    | cons k pre =>
      obtain ⟨rfl, rfl⟩ := List.cons.inj he
      exact .inr ⟨hpre m List.mem_cons_self, pre, post, rfl,
        fun k hk => hpre k (List.mem_cons_of_mem _ hk)⟩
  · rintro (rfl | ⟨hm, pre, post, rfl, hpre⟩)
    · exact ⟨[], a, rfl, nofun⟩
    · refine ⟨m :: pre, post, rfl, fun k hk => ?_⟩
      rcases List.mem_cons.mp hk with rfl | hk
      · exact hm
      · exact hpre k hk

/-- Over two channels in a row, the first decides unless it has no request. -/
theorem firstCancel_append : FirstCancel X (a ++ b) ↔
    FirstCancel X a ∨ (∀ m ∈ a, ¬ m.IsRequest) ∧ FirstCancel X b := by
  induction a with
  | nil =>
    constructor
    · exact fun h => .inr ⟨nofun, h⟩
    · rintro (⟨pre, post, he, -⟩ | h)
      · simp at he
      · exact h.2
  | cons k a ih =>
    rw [List.cons_append, firstCancel_cons, ih, firstCancel_cons]
    simp only [List.mem_cons, forall_eq_or_imp]
    tauto

theorem FirstCancel.append (h : FirstCancel X a) : FirstCancel X (a ++ b) :=
  firstCancel_append.mpr (.inl h)

/-- What comes after a request does not count. -/
theorem FirstCancel.of_request (hm : m.IsRequest) (h : FirstCancel X (a ++ m :: b)) :
    FirstCancel X a := by
  rcases firstCancel_append.mp h with h | ⟨-, h⟩
  · exact h
  · rcases firstCancel_cons.mp h with rfl | ⟨hn, -⟩
    · exact hm.elim
    · exact absurd hm hn

/-- A port forwards a request only when it takes it. -/
theorem LockMove.forwards_request (h : LockMove C i p inp q out) {dst : Addr}
    (hout : .forward dst m ∈ out) (hm : m.IsRequest) : ∃ src, inp = .addr src m := by
  have hdata (hout' : ∀ m ∈ out, m.Meets C i p Msg.IsData) : ∃ src, inp = .addr src m := by
    have := (hout' _ hout).2
    cases m <;> first | exact hm.elim | exact this.elim
  cases h with
  | data hinp hsame hloc hq hout' => exact hdata hout'
  | completed hinp hsame hloc hq hdone hout' => exact hdata hout'
  | synchronizing hloc hfar hlock hq hmove =>
    cases hmove <;> simp at hout <;> rw [hout.2] at hm <;> exact hm.elim
  | newSyn hloc hout' => rcases hout' with rfl | rfl <;> simp at hout
  | requestAddr hloc hne =>
    simp only [List.mem_singleton, Send.forward.injEq] at hout
    rw [hout.2]
    exact ⟨_, rfl⟩
  | notFound _ _ _ hm' => simp at hout
  | _ => simp at hout <;> rw [hout.2] at hm <;> exact hm.elim

/-- A port that has ended does nothing any more. -/
theorem options_ended (hloc : p.loc = .ended) : options C i p inp = [] := by
  cases inp <;> simp [options, ownOptions, addrOptions, forwardOptions, hloc]

/-- A middlebox in its normal state reacts to its neighbor only. -/
theorem options_src {src : Addr} (hloc : p.loc = .endOnePath)
    (h : .done q out ∈ options C i p (.addr src m)) : src = p.farLoc := by
  simp only [options, addrOptions, hloc] at h
  split at h
  · assumption
  · cases h

/-- A port that faces left goes on passing messages, unless it becomes a right anchor. -/
theorem LockMove.passes (hC : C.Chain right) (hi : ¬ right i) (hloc : p.loc = .endOnePath)
    (hd : inp.Has (FitsAddr right) (FitsForward right) i) (h : LockMove C i p inp q out) :
    (q.Passes ∧ q.farLoc = p.farLoc ∧ q.delta = p.delta) ∨
      ∃ r d, inp = .addr p.farLoc (.requestLock r i d) := by
  cases h with
  | data hinp hsame _ hq hout =>
    refine .inl ⟨?_, hsame.farLoc, hsame.delta⟩
    rcases hq with hq | hq
    · exact .inl (hq.trans hloc)
    · exact .inr hq
  | completed _ _ hloc' => exact absurd (hloc.symm.trans hloc') nofun
  | choose _ _ hc => exact absurd (hC.choose _ _ hc) hi
  | asked => exact absurd hd.2.1 (not_not.mpr hi)
  | requested => exact .inr ⟨_, _, rfl⟩
  | synchronizing hloc' | granted hloc' | grantedNack hloc' | refused hloc' | refusedPass hloc'
  | giveUp hloc' | canceled hloc' | cancelDone hloc' | save hloc' | setUp hloc'
  | setUpRight hloc' => exact absurd (hloc.symm.trans hloc') nofun
  | _ => exact .inl ⟨.inl hloc, rfl, rfl⟩

/-- A cancellation is passed on. -/
theorem LockMove.passes_cancel {src r : Addr} (hloc : p.loc = .endOnePath)
    (h : LockMove C i p (.addr src (.cancelLock r)) q out) :
    out = [.forward (C.pair i) (.cancelLock r)] := by
  cases h with
  | data hinp => exact hinp.elim
  | completed hinp => exact hinp.elim
  | synchronizing hloc' => simp [hloc] at hloc'
  | canceled hloc' => simp [hloc] at hloc'
  | cancelAddr => rfl

end Cancel

section CancelStep
variable {s s' : Session} {X q₀ : Addr}

/-- What is sent to the other port of the middlebox comes last. -/
theorem behind_act (q : Port) (out : List Send) (hready : s.todo i = []) (ho : s.Offers i inp s')
    (hport : (s'.act i q out).port (C.pair q₀) = s.port (C.pair q₀))
    (hin : ∀ m, inp.place i ≠ some (.inbox (C.pair q₀) (s.port (C.pair q₀)).farLoc, m)) :
    ∃ ms, (s'.act i q out).behind C q₀ = s.behind C q₀ ++ ms := by
  refine ⟨sendsAt i out (.outAddr (s.port (C.pair q₀)).farLoc (C.pair q₀)), ?_⟩
  have hready' : s'.todo i = [] := by rw [ho.todo, hready]
  have hout : ∀ m, inp.place i ≠ some (.outAddr (s.port (C.pair q₀)).farLoc (C.pair q₀), m) := by
    cases inp <;> nofun
  unfold Session.behind
  rw [hport, act_at hready', act_at hready', ho.at_of_ne hin, ho.at_of_ne hout,
    sendsAt_of_not_isOut (π := .inbox ..) id, List.append_nil, List.append_assoc]

/-- What a port sends comes behind what is ahead already. -/
theorem ahead_act (q : Port) (out : List Send) (hi : i ≠ q₀) (hready : s.todo i = [])
    (ho : s.Offers i inp s') :
    (s'.act i q out).ahead C q₀ = s.ahead C q₀ ++ sendsAt i out (.outForward (C.pair q₀) q₀) := by
  have hready' : s'.todo i = [] := by rw [ho.todo, hready]
  have hin : ∀ m, inp.place i ≠ some (.forwarded q₀, m) := by
    cases inp <;> simp [Input.place, hi]
  have hout : ∀ m, inp.place i ≠ some (.outForward (C.pair q₀) q₀, m) := by
    cases inp <;> nofun
  unfold Session.ahead
  rw [act_at hready', act_at hready', ho.at_of_ne hin, ho.at_of_ne hout,
    sendsAt_of_not_isOut (π := .forwarded _) id, List.append_nil, List.append_assoc]

/-- The first port that is held takes something else than the cancellation. -/
theorem CancelOk.act_self (hpq : C.pair q₀ ≠ q₀) (hready : s.todo q₀ = [])
    (ho : s.Offers q₀ inp s') (hne : inp ≠ .forward (.cancelLock X)) (h : CancelOk C s X q₀) :
    CancelOk C (s'.act q₀ q out) X q₀ := by
  have hready' : s'.todo q₀ = [] := by rw [ho.todo, hready]
  have hport : (s'.act q₀ q out).port (C.pair q₀) = s.port (C.pair q₀) := by
    rw [Session.act_port_of_ne _ hpq, ho.port]
  obtain ⟨ms, hms⟩ := behind_act q out hready ho hport
    (by cases inp <;> simp [Input.place, hpq.symm])
  have hout : ∀ m, inp.place q₀ ≠ some (.outForward (C.pair q₀) q₀, m) := by
    cases inp <;> nofun
  -- the cancellation moves up
  have hahead (ns : List Msg) (hns : FirstCancel X (s.ahead C q₀ ++ ns)) :
      FirstCancel X ((s'.act q₀ q out).ahead C q₀ ++ ns) := by
    unfold Session.ahead at hns ⊢
    rw [act_at hready', act_at hready', sendsAt_of_not_isOut (π := .forwarded _) id,
      sendsAt_of_not_isOut (π := .outForward ..) hpq, ho.at_of_ne hout, List.append_nil,
      List.append_nil]
    by_cases hin : ∃ m, inp.place q₀ = some (.forwarded q₀, m)
    · obtain ⟨m, hm⟩ := hin
      rw [ho.at_self hm] at hns
      rcases firstCancel_cons.mp hns with rfl | ⟨-, hns⟩
      · refine absurd ?_ hne
        cases inp <;> cases hm
        rfl
      · exact hns
    · rwa [ho.at_of_ne fun m hm => hin ⟨m, hm⟩]
  rcases h with h | ⟨hpass, h⟩
  · left
    simpa only [List.append_nil] using hahead [] (by rwa [List.append_nil])
  · right
    rw [hport, hms, ← List.append_assoc]
    exact ⟨hpass, (hahead _ h).append⟩

theorem sendsAt_singleton (i : Addr) (k : Send) : sendsAt i [k] (k.place i) = [k.msg] := by
  simp [sendsAt]

theorem mem_sendsAt_outForward {dst : Addr} {m : Msg} (h : m ∈ sendsAt i out (.outForward i dst)) :
    .forward dst m ∈ out := by
  obtain ⟨k, hk, he⟩ := List.mem_filterMap.mp h
  cases k with
  | addr d n => simp [Send.place] at he
  | forward d n =>
    simp only [Send.place, Place.outForward.injEq, true_and, Send.msg,
      Option.ite_none_right_eq_some,
      Option.some.injEq] at he
    obtain ⟨rfl, rfl⟩ := he
    exact hk

/-- What follows the cancellation's place does not come before it. -/
theorem FirstCancel.insert {a b ms : List Msg} (h : FirstCancel X (a ++ b))
    (hms : ∀ m ∈ ms, ¬ m.IsRequest) : FirstCancel X (a ++ ms ++ b) := by
  rcases firstCancel_append.mp h with h | ⟨ha, h⟩
  · exact h.append.append
  · refine firstCancel_append.mpr (.inr ⟨fun m hm => ?_, h⟩)
    rcases List.mem_append.mp hm with hm | hm
    · exact ha m hm
    · exact hms m hm

/-- The other port of its middlebox takes something. -/
theorem CancelOk.act_pair (hC : C.Chain right) (hs : s.Sound C right) (hq₀ : right q₀)
    (hi : i = C.pair q₀) (hready : s.todo i = []) (ho : s.Offers i inp s')
    (hopt : .done q out ∈ options C i (s.port i) inp) (h : CancelOk C s X q₀) :
    CancelOk C (s'.act i q out) X q₀ := by
  have hmove := lockMove hopt
  have hright : ¬ right i := hi ▸ fun hr => (hC.pair q₀).mp hr hq₀
  have hiq : i ≠ q₀ := fun he => hright (he.symm ▸ hq₀)
  have hready' : s'.todo i = [] := by rw [ho.todo, hready]
  have hahead := ahead_act (C := C) q out hiq hready ho
  have hfirst (h : FirstCancel X (s.ahead C q₀)) : CancelOk C (s'.act i q out) X q₀ := by
    left
    rw [hahead]
    exact h.append
  rcases h with h | ⟨hpass, h⟩
  · exact hfirst h
  rw [← hi] at hpass
  have hloc : (s.port i).loc = .endOnePath := by
    rcases hpass with hloc | hloc
    · exact hloc
    · rw [options_ended hloc] at hopt
      cases hopt
  -- the head of what is behind is taken
  have hbehind {m : Msg} (hm : inp = .addr (s.port i).farLoc m) : s.behind C q₀ =
      m :: (s'.at (.inbox i (s.port i).farLoc) ++ s.at (.outAddr (s.port i).farLoc i)) := by
    unfold Session.behind
    rw [← hi, ho.at_self (congrArg (Input.place i) hm), List.cons_append]
  rcases hmove.passes hC hright hloc (hs.directed.messages.input ho) with
    ⟨hpass', hfar, -⟩ | ⟨r, d, hm⟩
  · have hout : ∀ m, inp.place i ≠ some (.outAddr (s.port i).farLoc i, m) := by
      cases inp <;> nofun
    have hbehind' : (s'.act i q out).behind C q₀ =
        s'.at (.inbox i (s.port i).farLoc) ++ s.at (.outAddr (s.port i).farLoc i) ++
          sendsAt i out (.outAddr (s.port i).farLoc i) := by
      unfold Session.behind
      rw [← hi, Session.act_port_self, hfar, act_at hready', act_at hready', ho.at_of_ne hout,
        sendsAt_of_not_isOut (π := .inbox ..) id, List.append_nil, List.append_assoc]
    have hlast (h : FirstCancel X (s.ahead C q₀ ++ sendsAt i out (.outForward i q₀) ++
        (s'.at (.inbox i (s.port i).farLoc) ++ s.at (.outAddr (s.port i).farLoc i)))) :
        CancelOk C (s'.act i q out) X q₀ := by
      right
      rw [← hi, Session.act_port_self, hahead, hbehind', ← hi, ← List.append_assoc]
      exact ⟨hpass', h.append⟩
    have hforward (hinp : ∀ src m, inp = .addr src m → ¬ m.IsRequest) :
        ∀ m ∈ sendsAt i out (.outForward i q₀), ¬ m.IsRequest := by
      intro m hm hreq
      obtain ⟨src, he⟩ := hmove.forwards_request (mem_sendsAt_outForward hm) hreq
      exact hinp src m he hreq
    by_cases hinp : ∃ m, inp = .addr (s.port i).farLoc m
    · obtain ⟨m, rfl⟩ := hinp
      rw [hbehind rfl] at h
      by_cases hreq : m.IsRequest
      · exact hfirst (h.of_request hreq)
      rcases firstCancel_append.mp h with h | ⟨hnone, h⟩
      · exact hfirst h
      rcases firstCancel_cons.mp h with rfl | ⟨-, h⟩
      · -- the cancellation itself moves on
        left
        rw [hahead, hmove.passes_cancel hloc, ← hi, show C.pair i = q₀ by rw [hi, hC.pair_pair]]
        refine firstCancel_append.mpr (.inr ⟨hnone, ?_⟩)
        have hsent : sendsAt i [.forward q₀ (.cancelLock X)] (.outForward i q₀) = [.cancelLock X] :=
          sendsAt_singleton i (.forward q₀ (.cancelLock X))
        rw [hsent]
        exact ⟨[], [], rfl, nofun⟩
      · exact hlast (FirstCancel.insert (firstCancel_append.mpr (.inr ⟨hnone, h⟩))
          (hforward fun src n he => by cases he; exact hreq))
    · have hin : ∀ m, inp.place i ≠ some (.inbox i (s.port i).farLoc, m) := by
        intro m hm
        cases inp <;> cases hm
        exact hinp ⟨m, rfl⟩
      have hb : s.behind C q₀ =
          s'.at (.inbox i (s.port i).farLoc) ++ s.at (.outAddr (s.port i).farLoc i) := by
        unfold Session.behind
        rw [← hi, ho.at_of_ne hin]
      rw [hb] at h
      refine hlast (h.insert (hforward fun src m he => absurd ⟨m, ?_⟩ hinp))
      rw [he] at hopt ⊢
      rw [options_src hloc hopt]
  · -- a request stands before the cancellation only if the cancellation is ahead
    rw [hbehind hm] at h
    exact hfirst (h.of_request (m := .requestLock r i d) trivial)

/-- A step of a port elsewhere does not touch the cancellation on its way. -/
theorem CancelOk.act_other (hi : i ≠ q₀) (hi' : i ≠ C.pair q₀) (hready : s.todo i = [])
    (ho : s.Offers i inp s') (h : CancelOk C s X q₀) : CancelOk C (s'.act i q out) X q₀ := by
  have hport : (s'.act i q out).port (C.pair q₀) = s.port (C.pair q₀) := by
    rw [Session.act_port_of_ne _ hi'.symm, ho.port]
  obtain ⟨ms, hms⟩ := behind_act q out hready ho hport
    (by cases inp <;> simp [Input.place, hi'])
  have hahead := ahead_act (C := C) q out hi hready ho
  rw [sendsAt_of_not_isOut (π := .outForward ..) hi'.symm, List.append_nil] at hahead
  rcases h with h | ⟨hpass, h⟩
  · left
    rwa [hahead]
  · right
    rw [hport, hahead, hms, ← List.append_assoc]
    exact ⟨hpass, h.append⟩

/-- **A step keeps the place of a cancellation**, unless the first port that is held takes it. -/
theorem CancelOk.act (hC : C.Chain right) (hs : s.Sound C right) (hq₀ : right q₀)
    (hready : s.todo i = []) (ho : s.Offers i inp s')
    (hopt : .done q out ∈ options C i (s.port i) inp)
    (hne : i = q₀ → inp ≠ .forward (.cancelLock X)) (h : CancelOk C s X q₀) :
    CancelOk C (s'.act i q out) X q₀ := by
  by_cases hi : i = q₀
  · subst hi
    exact h.act_self (fun he => (hC.pair i).mp (he.symm ▸ hq₀) hq₀) hready ho (hne rfl)
  · by_cases hi' : i = C.pair q₀
    · exact h.act_pair hC hs hq₀ hi' hready ho hopt
    · exact h.act_other hi hi' hready ho

/-- The messages before a channel and those in it keep their order. -/
theorem flush_concat {k : Send} {rest : List Send} {π π' : Place} (hnext : s.todo i = k :: rest)
    (hsame : k.target i = π' ↔ k.place i = π) (hπ : π ≠ k.target i) (hπ' : π' ≠ k.place i) :
    ((s.put i k).setTodo i rest).at π' ++ ((s.put i k).setTodo i rest).at π =
      s.at π' ++ s.at π := by
  by_cases hk : k.place i = π
  · rw [← hsame.mpr hk, ← hk, flush_at_to hnext, flush_at_from hnext, List.append_assoc]
    rfl
  · rw [flush_at_of_ne hnext hπ' fun he => hk (hsame.mp he.symm),
      flush_at_of_ne hnext (Ne.symm hk) hπ]

/-- Sending a message moves it, in order, to its channel. -/
theorem CancelOk.flush {k : Send} {rest : List Send} (hC : C.Chain right) (hs : s.Sound C right)
    (hnext : s.todo i = k :: rest) (h : CancelOk C s X q₀) :
    CancelOk C ((s.put i k).setTodo i rest) X q₀ := by
  have hpaired : k.Paired C i := hs.paired i k (hnext ▸ List.mem_cons_self)
  have hahead : ((s.put i k).setTodo i rest).ahead C q₀ = s.ahead C q₀ := by
    refine flush_concat hnext ?_ (by cases k <;> rintro ⟨⟩) (by cases k <;> rintro ⟨⟩)
    cases k with
    | addr dst m => simp [Send.target, Send.place]
    | forward dst m =>
      simp only [Send.target, Send.place, Place.forwarded.injEq, Place.outForward.injEq]
      refine ⟨fun he => ⟨?_, he⟩, And.right⟩
      rw [← he, show dst = C.pair i from hpaired, hC.pair_pair]
  have hbehind : ((s.put i k).setTodo i rest).behind C q₀ = s.behind C q₀ := by
    unfold Session.behind
    rw [Session.setTodo_port, Session.put_port]
    refine flush_concat hnext ?_ (by cases k <;> rintro ⟨⟩) (by cases k <;> rintro ⟨⟩)
    cases k with
    | addr dst m =>
      simp only [Send.target, Send.place, Place.inbox.injEq, Place.outAddr.injEq]
      exact and_comm
    | forward dst m => simp [Send.target, Send.place]
  unfold CancelOk
  rw [hahead, hbehind, Session.setTodo_port, Session.put_port]
  exact h

end CancelStep

end Dysco.PortProcess
