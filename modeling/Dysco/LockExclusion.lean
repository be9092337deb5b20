import Dysco.LeaseRuns

/-! # The exclusion of locks

The segment of a left anchor leads from it, port by port, to its right anchor.  The lease of
a left anchor that has been granted its lock is its segment (`Leased.segment`), so until they
cancel, two of them have no port in common (`segments_disjoint`).

A cancellation releases the ports on its way, before the left anchor itself has heard of it:
while it waits for `ackCancel` another port of its segment may be granted a lock
(`not_lockExclusion`).
-/
namespace Dysco.PortProcess

/-! ## Segments -/

/-- The ports after `A` that face right, up to the subsession that leads to port `a`. -/
structure LeadsTo (C : Config) (port : Addr → Port) (a A : Addr) (ps : List Addr) : Prop where
  connected : Connected C port (A :: ps)
  last : (port (ps.getLastD A)).farLoc = a
  inner : ∀ q ∈ ps, C.pair q ≠ a

/-- The segment between the left anchor `A` and its right anchor. -/
def Segment (C : Config) (port : Addr → Port) (A : Addr) (ps : List Addr) : Prop :=
  LeadsTo C port (port A).lock.otherAnchor A ps

section Segments
variable {C : Config} {right : Addr → Prop} {port : Addr → Port} {a A : Addr} {ps qs : List Addr}

theorem LeadsTo.tail {p : Addr} (h : LeadsTo C port a A (p :: ps)) : LeadsTo C port a p ps where
  connected := (List.isChain_cons_cons.mp h.connected).2
  last := by
    rw [← h.last, List.getLastD_cons]
  inner q hq := h.inner q (List.mem_cons_of_mem _ hq)

/-- A port leads to another one in one way. -/
theorem LeadsTo.unique (hC : C.Chain right) (hps : LeadsTo C port a A ps)
    (hqs : LeadsTo C port a A qs) : ps = qs := by
  have hnil {q : Addr} {qs : List Addr} {A : Addr} (h : (port A).farLoc = a)
      (hqs : LeadsTo C port a A (q :: qs)) : False :=
    hqs.inner q (List.mem_cons_self ..) ((List.isChain_cons_cons.mp hqs.connected).1.symm.trans h)
  induction ps generalizing A qs with
  | nil =>
    cases qs with
    | nil => rfl
    | cons q qs => exact (hnil hps.last hqs).elim
  | cons p ps ih =>
    cases qs with
    | nil => exact (hnil hqs.last hps).elim
    | cons q qs =>
      have hpq : C.pair p = C.pair q :=
        (List.isChain_cons_cons.mp hps.connected).1.symm.trans
          (List.isChain_cons_cons.mp hqs.connected).1
      have he : p = q := by rw [← hC.pair_pair p, hpq, hC.pair_pair]
      subst he
      rw [ih hps.tail hqs.tail]

end Segments

/-! ## Sessions and watched sessions -/

section Watching
variable {C : Config} {right : Addr → Prop} {s : Session} {w : Watched}

theorem session_reachable (hw : (watchedSystem C right).Reachable w) :
    (sessionSystem C).Reachable w.session :=
  hw.project (U := watchedSystem C right) (f := Watched.session) (fun _ hw => hw.1)
    fun _ _ _ h => h.1

/-- A session as it begins, watched. -/
def Config.watch (C : Config) : Watched := ⟨C.start, fun _ => False, fun _ => False⟩

theorem watch_reachable (C : Config) (right : Addr → Prop) :
    (watchedSystem C right).Reachable C.watch :=
  .of_init ⟨rfl, fun _ => id, fun _ => id⟩

/-- Every step of a session can be watched. -/
theorem watched_step (right : Addr → Prop) (w : Watched) {e : Event} (h : Step C w.session e s) :
    ∃ w', (watchedSystem C right).step w e w' ∧ w'.session = s :=
  ⟨⟨s, fun X => w.canceling X ∨ s.SendsCancel X,
    fun X => w.excused X ∨ Excused C right s.port X⟩,
    ⟨h, fun _ => Iff.rfl, fun _ => Iff.rfl⟩, rfl⟩

/-- Every run of a session can be watched. -/
theorem watched_reachable (right : Addr → Prop) (hs : (sessionSystem C).Reachable s) :
    ∃ w, (watchedSystem C right).Reachable w ∧ w.session = s := by
  refine hs.lift (U := watchedSystem C right) (f := Watched.session) ?_ fun w _ _ =>
    watched_step right w
  rintro _ rfl
  exact ⟨C.watch, ⟨rfl, fun _ => id, fun _ => id⟩, rfl⟩

/-- The port does not cancel in this step. -/
def noCancel (_ : Session) (e : Event) (t : Session) : Bool :=
  (t.todo e.port).all fun m => match m.msg with
    | .cancelLock _ => false
    | _ => true

theorem Step.todo_of_ne {t : Session} {e : Event} (h : Step C s e t) {X : Addr}
    (hX : X ≠ e.port) : t.todo X = s.todo X := by
  cases h with
  | own | fromAddr | fromForward => exact Session.act_todo_of_ne _ hX ..
  | @flush i m rest =>
    rw [Session.setTodo_todo_of_ne _ (show X ≠ i from hX), Session.put_todo]

/-- A run along a list of events in which no port cancels. -/
theorem exists_uncanceled (right : Addr → Prop) {E : List (Event × Nat)} {P : Session → Bool}
    (h : (execAll C noCancel C.start E).any P = true) :
    ∃ w, (watchedSystem C right).Reachable w ∧ (∀ X, ¬ w.canceling X) ∧ P w.session = true := by
  obtain ⟨s, hs, hP⟩ := (Option.any_eq_true _ _).mp h
  have hkeep (w : Watched) (e : Event) (w' : Watched)
      (hw : ∀ X, ¬ w.canceling X ∧ ¬ w.session.SendsCancel X)
      (hstep : (watchedSystem C right).step w e w')
      (hno : noCancel w.session e w'.session = true) :
      ∀ X, ¬ w'.canceling X ∧ ¬ w'.session.SendsCancel X := by
    intro X
    have hsends : ¬ w'.session.SendsCancel X := by
      rintro ⟨dst, hmem⟩
      by_cases hX : X = e.port
      · subst hX
        have := List.all_eq_true.mp hno _ hmem
        cases this
      · rw [hstep.1.todo_of_ne hX] at hmem
        exact (hw X).2 ⟨dst, hmem⟩
    exact ⟨fun hc => ((hstep.2.1 X).mp hc).elim (hw X).1 hsends, hsends⟩
  have hstart : ∀ X, ¬ C.watch.canceling X ∧ ¬ C.watch.session.SendsCancel X := by
    intro X
    refine ⟨id, ?_⟩
    rintro ⟨dst, hmem⟩
    have hall : C.start.Messages (fun _ _ m => m = .syn true (C.isn C.leftEnd)) fun _ _ => False :=
      Config.start_messages rfl
    cases hall.todo X _ hmem
  obtain ⟨w, hw, hq, rfl⟩ := execAll_lift (f := Watched.session) (fun w _ _ => watched_step right w)
    hkeep (watch_reachable C right) hstart hs
  exact ⟨w, hw, fun X => (hq X).1, hP⟩

end Watching

/-! ## Leases and segments -/

section Leases
variable {C : Config} {right : Addr → Prop} {w : Watched} {g : Addr → Lease} {A B : Addr}

/-- The lease of an anchor that has its lock, and has not canceled. -/
theorem Leased.phase_granted (h : Leased C right w g) (hA : LeftGranted right w.session.port A)
    (hcancel : ¬ w.canceling A) : (g A).phase = .granted := by
  obtain ⟨hright, hanchor, hreq⟩ := hA
  have hown := (h.lease A).own
  unfold OwnOk at hown
  cases hp : (g A).phase with
  | idle =>
    rw [hp] at hown
    exact absurd hanchor (hown hright)
  | asking =>
    rw [hp] at hown
    rw [(hown.2.2.1 hanchor).2] at hreq
    cases hreq
  | granted => rfl
  | canceling => exact absurd ((h.canceling A).mpr hp) hcancel

/-- **The lease of an anchor that has its lock is its segment.** -/
theorem Leased.segment (h : Leased C right w g) (hA : LeftGranted right w.session.port A)
    (hcancel : ¬ w.canceling A) : Segment C w.session.port A (g A).held := by
  have hp := h.phase_granted hA hcancel
  have hown := (h.lease A).own
  rw [OwnOk, hp] at hown
  have hother : (w.session.port A).lock.otherAnchor = (g A).anchor := (hown.2.2.2 hA.2.1).2.1
  have hthrough := (h.lease A).through_chain (.inr hp)
  rw [Segment, hother]
  refine ⟨(h.lease A).far_chain (.inr ⟨hp, hA.2.1⟩), (h.lease A).complete hp (.inl hA.2.1), ?_⟩
  intro q hq
  obtain ⟨u, v, huv⟩ := List.append_of_mem hq
  rw [huv] at hthrough
  exact (isChain_rel_getLastD hthrough).ne

/-- A port is covered by the lease of one anchor that has its lock. -/
theorem Leased.granted_unique (hC : C.Chain right) (h : Leased C right w g) {p : Addr}
    (hA : (g A).phase = .granted) (hB : (g B).phase = .granted)
    (hpA : (g A).Covers A p) (hpB : (g B).Covers B p) : A = B := by
  have hne (X : Addr) (hX : (g X).phase = .granted) : X ≠ 0 :=
    (h.lease X).ne_null hC (by rw [hX]; nofun)
  rcases (h.lease A).requestor_of_covers hpA with hrA | ⟨hA', -, hrA⟩ <;>
    rcases (h.lease B).requestor_of_covers hpB with hrB | ⟨hB', -, hrB⟩
  · exact hrA.symm.trans hrB
  · exact absurd (hrA.symm.trans hrB) (hne A hA)
  · exact absurd (hrB.symm.trans hrA) (hne B hB)
  · exact hA'.symm.trans hB'

end Leases

/-! ## Exclusion -/

/-- In no state that is reached do two left anchors that have received `ackLock`, and have not
returned, share a subsession of their segments. -/
def LockExclusion (C : Config) (right : Addr → Prop) : Prop :=
  ∀ s A B ps qs, (sessionSystem C).Reachable s → A ≠ B → LeftGranted right s.port A →
    LeftGranted right s.port B → Segment C s.port A ps → Segment C s.port B qs →
      List.Disjoint (A :: ps) (B :: qs)

/-- **Locks exclude each other**, from `ackLock` to the end of the reconfiguration or the
`cancelLock` that gives it up. -/
theorem segments_disjoint {C : Config} {right : Addr → Prop} {w : Watched} {A B : Addr}
    {ps qs : List Addr} (hC : C.Chain right) (hw : (watchedSystem C right).Reachable w)
    (hne : A ≠ B) (hA : LeftGranted right w.session.port A)
    (hB : LeftGranted right w.session.port B) (hcancelA : ¬ w.canceling A)
    (hcancelB : ¬ w.canceling B) (hps : Segment C w.session.port A ps)
    (hqs : Segment C w.session.port B qs) : List.Disjoint (A :: ps) (B :: qs) := by
  obtain ⟨g, h⟩ := leased_reachable hC hw
  have heA : ps = (g A).held := hps.unique hC (h.segment hA hcancelA)
  have heB : qs = (g B).held := hqs.unique hC (h.segment hB hcancelB)
  have hgA := h.phase_granted hA hcancelA
  have hgB := h.phase_granted hB hcancelB
  intro p hpA hpB
  refine hne (h.granted_unique hC hgA hgB ?_ ?_ (p := p))
  · rw [heA] at hpA
    exact (List.mem_cons.mp hpA).symm.imp_right fun he => ⟨he, .inr hgA⟩
  · rw [heB] at hpB
    exact (List.mem_cons.mp hpB).symm.imp_right fun he => ⟨he, .inr hgB⟩

/-! ## A middlebox that is replaced -/

def replacementFar (i : Nat) : Nat := if i = 6 then 1 else if i = 7 then 4 else lineFar i

def replacementNew (i : Nat) : Nat :=
  if i = 1 then 6 else if i = 4 then 7 else if i % 2 = 1 then 8 else 9

theorem odd_replacementFar (i : Nat) : replacementFar i % 2 = 1 ↔ ¬ i % 2 = 1 := by
  unfold replacementFar
  split
  · omega
  · split
    · omega
    · exact odd_lineFar i

theorem odd_replacementNew (i : Nat) : replacementNew i % 2 = 1 ↔ ¬ i % 2 = 1 := by
  unfold replacementNew
  repeat' split
  all_goals omega

theorem replacementNew_ne {i : Nat} (h : i % 2 = 1) : replacementNew i ≠ replacementFar i := by
  unfold replacementNew replacementFar lineFar
  repeat' split
  all_goals omega

/-- The ports 1 and 4 are the endpoints and 2 and 3 the ports of a middlebox.  The one with the
ports 6 and 7 may take its place. -/
def replacement : Config where
  endpoint i := i == 1 || i == 4
  leftEnd := 1
  rightEnd := 4
  far := replacementFar
  pair := linePair
  offset _ := 10
  isn _ := 0
  choose i anchor := i % 2 == 1 && anchor % 2 == 0 && decide (i < anchor)
  ask _ _ _ := false
  newFar i _ := replacementNew i

theorem odd_of_choose {i anchor : Addr} (h : replacement.choose i anchor = true) : i % 2 = 1 := by
  simp only [replacement, Bool.and_eq_true, beq_iff_eq] at h
  exact h.1.1

theorem replacement_chain : replacement.Chain fun i => i % 2 = 1 where
  leftEnd := rfl
  far := odd_replacementFar
  pair := odd_linePair
  newFar i _ := odd_replacementNew i
  choose _ _ h := odd_of_choose h
  ask _ _ _ h := by cases h
  null := by decide
  pair_pair := linePair_linePair
  newFar_ne _ _ h := replacementNew_ne (odd_of_choose h)
  ask_ne _ _ _ h := by cases h

/-- The handshake of the endpoints 1 and 4 through the middlebox with the ports 2 and 3. -/
def boxHandshake : List (Event × Nat) :=
  (.flush 1, 0) :: receive 2 ++ pass 3 ++ receive 4 ++ receive 3 ++ pass 2 ++ receive 1 ++
    receive 2 ++ pass 3 ++ [(.fromAddr 4, 0)]

/-- The ports 1 and 3 lock the subsessions to their right. -/
def replacementLocks : List (Event × Nat) :=
  [(.own 1 (.anchor 2), 0), (.flush 1, 0)] ++ receive 2 ++ [(.fromAddr 1, 0)] ++
    [(.own 3 (.anchor 4), 0), (.flush 3, 0)] ++ receive 4 ++ [(.fromAddr 3, 0)]

/-- Port 1 locks the session, but the new middlebox fails, and port 3 is granted a lock while
port 1 waits for `ackCancel`. -/
def replacementCanceled : List (Event × Nat) :=
  [(.own 1 (.anchor 4), 0), (.flush 1, 0)] ++ receive 2 ++ pass 3 ++ receive 4 ++ receive 3 ++
    pass 2 ++ [(.fromAddr 1, 0), (.flush 1, 0), (.fromAddr 6, 1), (.flush 6, 0)] ++ receive 1 ++
    receive 2 ++ pass 3 ++ receive 4 ++ receive 3 ++
    [(.own 3 (.anchor 4), 0), (.flush 3, 0)] ++ receive 4 ++ [(.fromAddr 3, 0)]

instance {p : Port} : Decidable p.Anchor := inferInstanceAs (Decidable (_ ∨ _))

instance {C : Config} {port : Addr → Port} {qs : List Addr} : Decidable (Connected C port qs) :=
  inferInstanceAs (Decidable (List.IsChain _ _))

instance {C : Config} {port : Addr → Port} {a A : Addr} {ps : List Addr} :
    Decidable (LeadsTo C port a A ps) :=
  decidable_of_iff (Connected C port (A :: ps) ∧ (port (ps.getLastD A)).farLoc = a ∧
    ∀ q ∈ ps, C.pair q ≠ a) ⟨fun h => ⟨h.1, h.2.1, h.2.2⟩, fun h => ⟨h.1, h.2, h.3⟩⟩

instance {C : Config} {port : Addr → Port} {A : Addr} {ps : List Addr} :
    Decidable (Segment C port A ps) := inferInstanceAs (Decidable (LeadsTo ..))

instance {right : Addr → Prop} [DecidablePred right] {port : Addr → Port} {B : Addr} :
    Decidable (LeftGranted right port B) := inferInstanceAs (Decidable (_ ∧ _))

/-- Two anchors that hold locks at the same time. -/
theorem segments_disjoint_replacement : ∃ w,
    (watchedSystem replacement fun i => i % 2 = 1).Reachable w ∧
      List.Disjoint [1] [3] ∧ Segment replacement w.session.port 1 [] ∧
        Segment replacement w.session.port 3 [] := by
  obtain ⟨w, hw, hcancel, hP⟩ := exists_uncanceled (C := replacement) (fun i => i % 2 = 1)
    (E := boxHandshake ++ replacementLocks)
    (P := fun s => decide ((LeftGranted (fun i => i % 2 = 1) s.port 1 ∧
      LeftGranted (fun i => i % 2 = 1) s.port 3) ∧ Segment replacement s.port 1 [] ∧
        Segment replacement s.port 3 [])) (by decide +kernel)
  obtain ⟨⟨h1, h3⟩, hs1, hs3⟩ := of_decide_eq_true hP
  exact ⟨w, hw, segments_disjoint replacement_chain hw (by decide) h1 h3 (hcancel 1) (hcancel 3)
    hs1 hs3, hs1, hs3⟩

theorem not_lockExclusion : ¬ LockExclusion replacement fun i => i % 2 = 1 := by
  intro hexclusion
  obtain ⟨s, hs, hP⟩ := exists_run (C := replacement)
    (E := boxHandshake ++ replacementCanceled)
    (P := fun s => decide ((LeftGranted (fun i => i % 2 = 1) s.port 1 ∧
      LeftGranted (fun i => i % 2 = 1) s.port 3) ∧ Segment replacement s.port 1 [3] ∧
        Segment replacement s.port 3 [])) (by decide +kernel)
  obtain ⟨⟨h1, h3⟩, hs1, hs3⟩ := of_decide_eq_true hP
  exact hexclusion s 1 3 [3] [] hs (by decide) h1 h3 hs1 hs3 (a := 3) (by decide) (by decide)

end Dysco.PortProcess
