import Dysco.LockExclusion

/-! # Contention for locks

A left anchor whose request is refused has met another one that holds its lock, or has asked
for an anchor that is not there (`refusals_excused`).  The other one may have been granted its
lock before (`not_refusalsContested`).

A request that an anchor saves while its own is not answered is never overwritten, and is
passed on when its own is refused (`saved_forwarded`).
-/
namespace Dysco.PortProcess

/-- In this step the left anchor `X` receives `nackLock` for its request. -/
structure Refused (right : Addr → Prop) (X : Addr) (s : Session) (e : Event) : Prop where
  event : e = .fromAddr X
  right : right X
  loc : (s.port X).loc = .anchoring
  head : ∃ src r a rest, s.addr X = (src, .nackLock r a) :: rest

/-- A left anchor is refused only if there has been a cause during its request. -/
def RefusalsExcused (C : Config) (right : Addr → Prop) : Prop :=
  ∀ w e w' X, (watchedSystem C right).Reachable w → (watchedSystem C right).step w e w' →
    Refused right X w.session e → w.excused X

/-- In this step the left anchor `q` saves a request. -/
structure Saves (q requestor anchor : Addr) (delta : Int) (s : Session) (e : Event) : Prop where
  event : e = .fromForward q
  loc : (s.port q).loc = .anchoring
  requesting : (s.port q).lock.requesting = true
  head : ∃ rest, s.forward q = .requestLock requestor anchor delta :: rest

/-- A request that is saved is passed on when the anchor that has saved it is refused. -/
def SavedForwarded (C : Config) (right : Addr → Prop) : Prop :=
  ∀ w₀ e₀ w es w' e w'' q r a d, (watchedSystem C right).Reachable w₀ →
    (watchedSystem C right).step w₀ e₀ w → Saves q r a d w₀.session e₀ →
      (watchedSystem C right).Steps w es w' → (watchedSystem C right).step w' e w'' →
        Refused right q w'.session e →
          w''.session.todo q = [.addr (w'.session.port q).farLoc
            (.requestLock r a (d + (w'.session.port q).delta))]

section Steps
variable {C : Config} {right : Addr → Prop} {w w' : Watched} {g : Addr → Lease} {X i : Addr}
variable {p q : Port} {inp : Input} {out : List Send} {e : Event} {r a : Addr} {d : Int}

/-! ## What a refused anchor does -/

/-- The request that the port has saved, as it is passed on. -/
def Port.passedOn (p : Port) : List Send :=
  if p.lock.requestPendingRequestor = 0 then []
  else
    [.addr p.farLoc
      (.requestLock p.lock.requestPendingRequestor p.lock.requestPendingAnchor
        (p.lock.requestPendingDelta + p.delta))]

/-- A refusal is a step of the port that gets it, which passes on what it has saved. -/
theorem Refused.acts (h : Refused right X w.session e)
    (hstep : (watchedSystem C right).step w e w') :
    ∃ q, w.Acts C right X (.addr (w.session.port X).farLoc (.nackLock X 0)) q
      (w.session.port X).passedOn w' := by
  obtain ⟨he, -, hloc, src, r, a, rest, hhead⟩ := h
  obtain ⟨hs, hcancel, hexcused⟩ := hstep
  rcases hs.cases with ⟨i, inp, s', q, out, hi, hready, ho, hopt, ht⟩ | ⟨i, m, rest, hi, -⟩
  · rw [he] at hi
    cases ho with
    | own | forward => cases hi
    | @addr src' m rest' hhead' =>
      cases hi
      rw [hhead, List.cons.injEq, Prod.mk.injEq] at hhead'
      obtain ⟨⟨rfl, rfl⟩, -⟩ := hhead'
      have ha : w.Acts C right X (.addr src (.nackLock r a)) q out w' :=
        ⟨hready, hopt, ⟨e, hs⟩, ⟨_, .addr hhead, ht⟩, hcancel, hexcused⟩
      cases ha.move with
      | data hinp => exact hinp.elim
      | completed hinp => exact hinp.elim
      | synchronizing hsyn => simp [hloc] at hsyn
      | nackAddr hend => simp [hloc] at hend
      | refused hl hheld hnone =>
        rw [Port.passedOn, if_pos hnone]
        exact ⟨_, ha⟩
      | refusedPass hl hheld hsome =>
        rw [Port.passedOn, if_neg hsome]
        exact ⟨_, ha⟩
  · rw [he] at hi
    cases hi

/-- **One refusal**: there has been a cause for it during the request. -/
theorem Leased.excused (h : Leased C right w g) (href : Refused right X w.session e)
    (hstep : (watchedSystem C right).step w e w') : w.excused X := by
  obtain ⟨q, ha⟩ := href.acts hstep
  obtain ⟨Y, hY⟩ := h.owner_addr ha rfl
  obtain ⟨rfl, -, -, hcause⟩ := hY.msg
  refine hcause.resolve_right fun hl => ?_
  rw [href.loc] at hl
  cases hl

/-! ## What an anchor has saved -/

/-- An anchor that waits has saved one request at most. -/
theorem Leased.saves_once (hC : C.Chain right) (h : Leased C right w g)
    (ha : w.Acts C right i (.forward (.requestLock r a d)) q out w')
    (hloc : (w.session.port i).loc = .anchoring)
    (hreq : (w.session.port i).lock.requesting = true) :
    (w.session.port i).lock.requestPendingRequestor = 0 := by
  by_contra hne
  have hi : right i := h.fits ha
  obtain ⟨X, hX⟩ := h.owner_forward ha rfl
  obtain ⟨hthrough, -⟩ := hX.place.1 hi
  obtain ⟨hwaits, htok, -, hthrough', -⟩ := h.saved_request hi hloc hreq hne rfl
  generalize (w.session.port i).lock.requestPendingRequestor = Y at hwaits htok hthrough'
  -- both requests have come from the same port
  have hhop : (g X).hop X = (g Y).hop Y := hthrough.far.symm.trans hthrough'.far
  have hXY : X = Y := (h.lease X).unique hC (h.lease Y) hwaits.phase (Lease.hop_covers hX.phase)
    (hhop ▸ Lease.hop_covers hwaits.phase)
  subst hXY
  rw [hX.token] at htok
  cases htok

/-- As long as the port waits for the answer to its own request, it has saved this one. -/
def Port.HasSaved (r a : Addr) (d : Int) (p : Port) : Prop :=
  p.lock.reconfigured = true ∧
    (p.loc = .anchoring → p.lock.requesting = true →
      p.lock.requestPendingRequestor = r ∧ p.lock.requestPendingAnchor = a ∧
        p.lock.requestPendingDelta = d)

/-- A request stays saved while the port's locks stay as they are. -/
theorem Port.HasSaved.of_lock (h : p.HasSaved r a d) (hlock : q.lock = p.lock)
    (hloc : q.loc = .anchoring → p.loc = .anchoring) : q.HasSaved r a d := by
  unfold HasSaved
  rw [hlock]
  exact ⟨h.1, fun hq => h.2 (hloc hq)⟩

/-- So has a port that does not wait any more. -/
theorem Port.HasSaved.of_answered (hrec : q.lock.reconfigured = true)
    (hq : q.loc ≠ .anchoring ∨ q.lock.requesting = false) : q.HasSaved r a d := by
  refine ⟨hrec, fun hl hr => ?_⟩
  rcases hq with hq | hq
  · exact absurd hl hq
  · rw [hq] at hr
    cases hr

/-- Every kind of step keeps a saved request, but for saving another one over it. -/
theorem LockMove.hasSaved (hi : right i) (hin : inp.Has (FitsAddr right) (FitsForward right) i)
    (hp : p.HasSaved r a d) (h : LockMove C i p inp q out)
    (hsave : ∀ r a d, inp = .forward (.requestLock r a d) → p.loc = .anchoring →
      p.lock.requesting = false) : q.HasSaved r a d := by
  have hidle : ¬ p.Idle := fun hidle => by
    have := hidle.1
    rw [hp.1] at this
    cases this
  have hnormal {e : Bool} {p : Port} : (p.toOnePath e).loc ≠ .anchoring :=
    (Port.toOnePath_normal p e).ne.1
  cases h with
  | data hinp hsame hloc hq hout =>
    refine hp.of_lock hsame.lock fun hl => ?_
    rcases hq with hq | hq
    · rwa [← hq]
    · simp [hq] at hl
  | @completed _ q' _ hinp hsame hloc hq hdone hout =>
    exact .of_answered (by rw [q'.complete_lock]) (.inl (q'.complete_loc_ne _).1)
  | synchronizing hloc hfar hlock hq hmove =>
    refine .of_answered (hlock ▸ hp.1) (.inl ?_)
    rcases hq with hq | (hq | hq) | hq <;> rw [hq] <;> nofun
  | choose hloc hidle' | ask hloc hidle' | asked hloc hidle' => exact absurd hidle' hidle
  | requested => exact absurd hi hin.2
  | granted | grantedNack => exact .of_answered hp.1 (.inr rfl)
  | refused | refusedPass | giveUp | canceled | cancelDone =>
    exact .of_answered hp.1 (.inl hnormal)
  | save hloc hreq =>
    rw [hsave _ _ _ rfl hloc] at hreq
    cases hreq
  | requestForward hloc | ackAddr hloc | nackAddr hloc | cancelForward hloc =>
    refine .of_answered hp.1 (.inl ?_)
    show p.loc ≠ .anchoring
    rw [hloc]
    nofun
  | setUp hloc | setUpRight hloc =>
    unfold Port.checkCompletion
    split
    · exact .of_answered (by rw [Port.complete_lock]) (.inl (Port.complete_loc_ne _ _).1)
    · exact .of_answered hp.1 (.inl nofun)
  | _ => exact hp

/-- **One step of the session** keeps it too, whichever port takes the step. -/
theorem Leased.hasSaved_step (hC : C.Chain right) (h : Leased C right w g) (hi : right i)
    (hr : r ≠ 0) (hp : (w.session.port i).HasSaved r a d)
    (hstep : (watchedSystem C right).step w e w') : (w'.session.port i).HasSaved r a d := by
  rcases watchedSystem_cases hstep with ⟨j, inp, q, out, ha⟩ | ⟨j, k, rest, hf⟩
  · rw [ha.port]
    by_cases hj : i = j
    · subst hj
      rw [Function.update_self]
      refine ha.move.hasSaved hi (h.fits ha) hp fun r' a' d' hinp hloc => ?_
      subst hinp
      by_contra hreq
      have hreq : (w.session.port i).lock.requesting = true := by simpa using hreq
      exact hr ((hp.2 hloc hreq).1.symm.trans (h.saves_once hC ha hloc hreq))
    · rw [Function.update_of_ne hj]
      exact hp
  · rw [hf.session, Session.setTodo_port, Session.put_port]
    exact hp

/-- **What has been saved stays saved** until the anchor that has saved it is answered. -/
theorem hasSaved_steps {es : List Event} (hC : C.Chain right)
    (hw : (watchedSystem C right).Reachable w) (hi : right i) (hr : r ≠ 0)
    (hp : (w.session.port i).HasSaved r a d) (hrun : (watchedSystem C right).Steps w es w') :
    (watchedSystem C right).Reachable w' ∧ (w'.session.port i).HasSaved r a d :=
  hrun.invariant
    (P := fun w => (watchedSystem C right).Reachable w ∧ (w.session.port i).HasSaved r a d)
    (fun _ _ _ ⟨hw, hp⟩ hstep =>
      have ⟨_, h⟩ := leased_reachable hC hw
      ⟨hw.tail hstep, h.hasSaved_step hC hi hr hp hstep⟩) ⟨hw, hp⟩

/-- A port saves a request that is a real one, from the left. -/
theorem Leased.saves (hC : C.Chain right) (h : Leased C right w g)
    (hsave : Saves i r a d w.session e)
    (hstep : (watchedSystem C right).step w e w') :
    right i ∧ r ≠ 0 ∧ (w'.session.port i).HasSaved r a d := by
  obtain ⟨he, hloc, hreq, rest, hhead⟩ := hsave
  obtain ⟨hs, hcancel, hexcused⟩ := hstep
  rcases hs.cases with ⟨j, inp, s', q, out, hj, hready, ho, hopt, ht⟩ | ⟨j, m, rest, hj, -⟩
  · rw [he] at hj
    cases ho with
    | own | addr => cases hj
    | @forward m rest' hhead' =>
      cases hj
      rw [hhead, List.cons.injEq] at hhead'
      obtain ⟨rfl, -⟩ := hhead'
      have ha : w.Acts C right i (.forward (.requestLock r a d)) q out w' :=
        ⟨hready, hopt, ⟨e, hs⟩, ⟨_, .forward hhead, ht⟩, hcancel, hexcused⟩
      have hi : right i := h.fits ha
      obtain ⟨X, hX⟩ := h.owner_forward ha rfl
      have hr : r ≠ 0 := hX.msg.1 ▸ (h.lease X).ne_null hC (by rw [hX.phase]; nofun)
      refine ⟨hi, hr, ?_⟩
      rw [ha.port, Function.update_self]
      have hrec := (h.sound.port i).reconfigured hi (.inl hloc)
      cases ha.move with
      | data hinp => exact hinp.elim
      | completed hinp => exact hinp.elim
      | synchronizing hsyn => simp [hloc] at hsyn
      | requestForward hend => simp [hloc] at hend
      | save => exact ⟨hrec, fun _ _ => ⟨rfl, rfl, rfl⟩⟩
      | refuse hno =>
        rcases hno with hno | hno
        · rw [hreq] at hno
          cases hno.2
        · rw [hloc] at hno
          cases hno
  · rw [he] at hj
    cases hj

end Steps

/-- **Every refusal in every run** has its excuse. -/
theorem refusals_excused {C : Config} {right : Addr → Prop} (hC : C.Chain right) :
    RefusalsExcused C right := by
  intro w e w' X hw hstep href
  obtain ⟨g, h⟩ := leased_reachable hC hw
  exact h.excused href hstep

/-- **A saved request is forwarded** when the port that saved it is refused itself. -/
theorem saved_forwarded {C : Config} {right : Addr → Prop} (hC : C.Chain right) :
    SavedForwarded C right := by
  intro w₀ e₀ w es w' e w'' q r a d hw₀ hstep hsave hrun hstep' href
  obtain ⟨g, h⟩ := leased_reachable hC hw₀
  obtain ⟨hq, hr, hsaved⟩ := h.saves hC hsave hstep
  obtain ⟨hw', hkept⟩ := hasSaved_steps hC (hw₀.tail hstep) hq hr hsaved hrun
  obtain ⟨g', h'⟩ := leased_reachable hC hw'
  obtain ⟨p, ha⟩ := href.acts hstep'
  -- the anchor waits for the answer that it receives now
  obtain ⟨Y, hY⟩ := h'.owner_addr ha rfl
  obtain ⟨rfl, -⟩ := hY.msg
  have hreq : (w'.session.port q).lock.requesting = true :=
    (h'.waits hY.waits).2.2.2.1 (.inl href.loc)
  obtain ⟨rfl, rfl, rfl⟩ := hkept.2 href.loc hreq
  obtain ⟨s', -, ht⟩ := ha.session
  rw [ht, Session.act_todo_self, Port.passedOn, if_neg hr]

/-- **Contention refuses no request without a cause**, and no request that is saved for the
refusal of another one. -/
theorem contention_excused {C : Config} {right : Addr → Prop} (hC : C.Chain right) :
    RefusalsExcused C right ∧ SavedForwarded C right :=
  ⟨refusals_excused hC, saved_forwarded hC⟩

/-! ## A lock that has been granted before -/

/-- Port 3 locks the subsession to its right, and then port 1 asks for the whole session. -/
def replacementRefused : List (Event × Nat) :=
  [(.own 3 (.anchor 4), 0), (.flush 3, 0)] ++ receive 4 ++ receive 3 ++
    [(.own 1 (.anchor 4), 0), (.flush 1, 0)] ++ receive 2 ++ pass 3 ++ pass 2

/-- The head of the channel is a refusal. -/
def refusedNext (X : Addr) (s : Session) : Bool :=
  decide ((s.port X).loc = .anchoring) && match s.addr X with
    | (_, .nackLock ..) :: _ => true
    | _ => false

theorem refused_of_next {right : Addr → Prop} {X : Addr} {s : Session} (hX : right X)
    (h : refusedNext X s = true) : Refused right X s (.fromAddr X) := by
  unfold refusedNext at h
  obtain ⟨hloc, hhead⟩ := (Bool.and_eq_true _ _).mp h
  refine ⟨rfl, hX, of_decide_eq_true hloc, ?_⟩
  split at hhead
  next src r a rest he => exact ⟨src, r, a, rest, he⟩
  next => cases hhead

theorem contention_excused_replacement : ∃ w w' : Watched,
    (watchedSystem replacement fun i => i % 2 = 1).step w (.fromAddr 1) w' ∧
      Refused (fun i => i % 2 = 1) 1 w.session (.fromAddr 1) ∧ w.excused 1 := by
  obtain ⟨s, t, hs, hstep, hP⟩ := exists_run_step (C := replacement)
    (E := boxHandshake ++ replacementRefused) (e := .fromAddr 1) (k := 0)
    (P := fun s _ => refusedNext 1 s) (by decide +kernel)
  obtain ⟨w, hw, rfl⟩ := watched_reachable (fun i => i % 2 = 1) hs
  obtain ⟨w', hstep', -⟩ := watched_step (fun i => i % 2 = 1) w hstep
  have href : Refused (fun i => i % 2 = 1) 1 w.session (.fromAddr 1) := refused_of_next rfl hP
  exact ⟨w, w', hstep', href, (contention_excused replacement_chain).1 w _ w' 1 hw hstep' href⟩

/-- The left anchor waits for the answer to its request. -/
def Requesting (port : Addr → Port) (X : Addr) : Prop :=
  (port X).loc = .anchoring ∧ (port X).lock.requesting = true

instance {port : Addr → Port} {X : Addr} : Decidable (Requesting port X) :=
  inferInstanceAs (Decidable (_ ∧ _))

/-- In this step another left anchor receives `ackLock`, whose segment overlaps with that of
`X`. -/
def GrantedMeanwhile (C : Config) (right : Addr → Prop) (X : Addr) (s t : Session) : Prop :=
  Requesting s.port X ∧ ∃ B ps qs, B ≠ X ∧ ¬ LeftGranted right s.port B ∧
    LeftGranted right t.port B ∧ Segment C t.port X ps ∧ Segment C t.port B qs ∧
      ¬ List.Disjoint (X :: ps) (B :: qs)

/-- A session, and the left anchors that have been waiting as another one was granted a lock
on an overlapping segment, or as their right anchor was not to be found. -/
structure Contest where
  session : Session
  contested : Addr → Prop

def contestSystem (C : Config) (right : Addr → Prop) : TransitionSystem Contest Event where
  init c := c.session = C.start ∧ ∀ X, ¬ c.contested X
  step c e c' := Step C c.session e c'.session ∧
    ∀ X, c'.contested X ↔ c.contested X ∨ GrantedMeanwhile C right X c.session c'.session ∨
      Requesting c'.session.port X ∧ NotFound C c'.session.port X

/-- A left anchor is refused only if another one has been granted a lock on an overlapping
segment during its request, or its right anchor is not to be found. -/
def RefusalsContested (C : Config) (right : Addr → Prop) : Prop :=
  ∀ c e c' X, (contestSystem C right).Reachable c → (contestSystem C right).step c e c' →
    Refused right X c.session e → c.contested X

/-- No lock is granted while port 1 waits, and it asks for the right end. -/
def uncontested (s : Session) (e : Event) (t : Session) : Bool :=
  decide (Requesting s.port 1 → ¬ LeftGranted (fun i => i % 2 = 1) t.port e.port ∨
    LeftGranted (fun i => i % 2 = 1) s.port e.port) &&
    decide (Requesting t.port 1 → (t.port 1).lock.otherAnchor = 4)

theorem Step.port_of_ne {C : Config} {s t : Session} {e : Event} (h : Step C s e t) {X : Addr}
    (hX : X ≠ e.port) : t.port X = s.port X := by
  cases h with
  | own | fromAddr | fromForward => exact Session.act_port_of_ne _ hX ..
  | flush => rw [Session.setTodo_port, Session.put_port]

/-- A step that is none of the two leaves the lock uncontested. -/
theorem contested_of_uncontested {c c' : Contest} {e : Event} (hc : ¬ c.contested 1)
    (hstep : (contestSystem replacement fun i => i % 2 = 1).step c e c')
    (h : uncontested c.session e c'.session = true) : ¬ c'.contested 1 := by
  obtain ⟨hgrant, hother⟩ := (Bool.and_eq_true _ _).mp h
  intro hc'
  rcases (hstep.2 1).mp hc' with h | ⟨hreq, B, ps, qs, -, hB, hB', -⟩ | ⟨hreq, qs, -, -, hne, -⟩
  · exact hc h
  · by_cases he : B = e.port
    · subst he
      exact (of_decide_eq_true hgrant hreq).elim (fun h => h hB') hB
    · refine hB ?_
      unfold LeftGranted at hB' ⊢
      rwa [hstep.1.port_of_ne he] at hB'
  · exact hne (of_decide_eq_true hother hreq).symm

/-- In the run that replaces a middlebox, a refusal comes long after its contest. -/
theorem not_refusalsContested : ¬ RefusalsContested replacement fun i => i % 2 = 1 := by
  intro hcontested
  obtain ⟨s, hs, hP⟩ := (Option.any_eq_true
    (fun s => refusedNext 1 s && (next replacement s (.fromAddr 1) 0).isSome)
    (execAll replacement uncontested replacement.start (boxHandshake ++ replacementRefused))).mp
      (by decide +kernel)
  obtain ⟨hnext, hsome⟩ := (Bool.and_eq_true _ _).mp hP
  have hlift (c : Contest) (e : Event) (t : Session) (h : Step replacement c.session e t) :
      ∃ c', (contestSystem replacement fun i => i % 2 = 1).step c e c' ∧ c'.session = t :=
    ⟨⟨t, fun X => c.contested X ∨ GrantedMeanwhile replacement (fun i => i % 2 = 1) X c.session t ∨
      Requesting t.port X ∧ NotFound replacement t.port X⟩, ⟨h, fun _ => Iff.rfl⟩, rfl⟩
  obtain ⟨c, hc, hno, rfl⟩ := execAll_lift (f := Contest.session) (Q := fun c => ¬ c.contested 1)
    hlift (fun c e c' hc hstep h => contested_of_uncontested hc hstep h)
    (r := ⟨replacement.start, fun _ => False⟩) (.of_init ⟨rfl, fun _ => id⟩) id hs
  obtain ⟨t, ht⟩ := Option.isSome_iff_exists.mp hsome
  obtain ⟨c', hstep, -⟩ := hlift c _ t (next_step ht)
  exact hno (hcontested c _ c' 1 hc hstep (refused_of_next rfl hnext))

end Dysco.PortProcess
