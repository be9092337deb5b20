import Dysco.LockDirections

/-! # Locks after a reconfiguration

A left anchor sets `lockPending` when it sends its request, and no transition of an anchor
clears it: `CheckCompletion` clears `locked` only, and the end of a cancellation clears
nothing.  So a left anchor that returns to its normal state, for any other reason than a
refusal, still has a lock pending (`returned_pending`), and the next request that crosses it
fails the assertion of the forwarding port.
-/
namespace Dysco.PortProcess

/-- The message ends a request without a lock. -/
def Msg.Refuses : Msg → Prop
  | .nackLock .. | .lockTimeout .. => True
  | _ => False

/-- A port between its request and its return. -/
def Port.Anchor (p : Port) : Prop := p.loc = .anchoring ∨ p.loc = .twoPaths

/-- In this step the left anchor `i` returns, because the reconfiguration has been completed
or canceled. -/
structure Returns (right : Addr → Prop) (i : Addr) (s : Session) (e : Event) (t : Session) :
    Prop where
  right : right i
  anchor : (s.port i).Anchor
  normal : (t.port i).Normal
  cause : ∀ src m rest, e = .fromAddr i → s.addr i = (src, m) :: rest → ¬ m.Refuses

/-- The port has a request of its own pending, or the lock it was granted. -/
def Port.Pending (i : Addr) (p : Port) : Prop :=
  p.lock.lockPending = true ∧ (p.lock.requestor = i ∨ p.lock.requestor = 0)

/-- A request of another port fails the assertion of a port that has a lock pending. -/
theorem Port.Pending.fault {C : Config} {i r anchor : Addr} {delta : Int} {p : Port}
    (h : p.Pending i) (hloc : p.loc = .endOnePath) (hr : r ≠ i) (h0 : r ≠ 0) :
    .fault .lockPending ∈ forwardOptions C i p (.requestLock r anchor delta) := by
  have hne : ¬ (p.lock.lockPending = false ∨ r = p.lock.requestor) := by
    rintro (hfree | rfl)
    · rw [h.1] at hfree
      cases hfree
    · rcases h.2 with he | he
      · exact hr he
      · exact h0 he
  rw [forwardOptions, hloc]
  simp only [endOnePathForward, asserting, if_neg hne]
  exact List.mem_singleton.mpr rfl

section Step
variable {C : Config} {right : Addr → Prop} {i : Addr} {p q : Port} {inp : Input} {out : List Send}

theorem Port.Pending.of_lock (h : p.Pending i) (hq : q.lock = p.lock) : q.Pending i := by
  unfold Pending
  rw [hq]
  exact h

theorem Port.Pending.complete {e : Bool} (h : p.Pending i) : (p.complete e).Pending i := by
  unfold Pending
  rw [p.complete_lock e]
  exact h

theorem Port.Pending.checkCompletion {e : Bool} (h : p.Pending i) :
    (p.checkCompletion e).Pending i := by
  unfold Port.checkCompletion
  split
  · exact h.complete
  · exact h

/-- **What an anchor that faces right does leaves its lock pending**, unless it is refused. -/
theorem LockMove.pending (hi : right i) (hin : inp.Has (FitsAddr right) (FitsForward right) i)
    (hp : p.Anchor → p.Pending i) (h : LockMove C i p inp q out)
    (hq : q.Anchor ∨ p.Anchor ∧ ∀ src m, inp = .addr src m → ¬ m.Refuses) : q.Pending i := by
  have hback (hn : q.Normal) : p.Anchor ∧ ∀ src m, inp = .addr src m → ¬ m.Refuses :=
    hq.resolve_left (not_or.mpr hn.ne)
  cases h with
  | data hinp hsame hloc hq' hout =>
    refine (hp ?_).of_lock hsame.lock
    rcases hq with hq | hq
    · rcases hq' with hq' | hq'
      · unfold Port.Anchor at hq
        rwa [hq'] at hq
      · simp [Port.Anchor, hq'] at hq
    · exact hq.1
  | completed hinp hsame hloc hq' hdone hout => exact ((hp (.inr hloc)).of_lock hsame.lock).complete
  | synchronizing hloc hfar hlock hq' hmove =>
    rcases hq with hq | hq
    · rcases hq' with hq' | (hq' | hq') | hq' <;> simp [Port.Anchor, hq'] at hq
    · simp [Port.Anchor, hloc] at hq
  | choose | asked => exact ⟨rfl, .inl rfl⟩
  | requested =>
    -- requests arrive at ports that face left
    exact absurd hi hin.2
  | refused | refusedPass | giveUp =>
    exact absurd trivial ((hback (Port.toOnePath_normal _ _)).2 _ _ rfl)
  | canceled hloc | cancelDone hloc => exact (hp (.inl hloc)).of_lock rfl
  | setUp hloc | setUpRight hloc =>
    have hsplit : p.split.Pending i := hp (.inl hloc)
    exact hsplit.checkCompletion
  | granted hloc | grantedNack hloc => exact ⟨(hp (.inl hloc)).1, .inr rfl⟩
  | save hloc => exact hp (.inl hloc)
  | requestForward hloc | ackAddr hloc | nackAddr hloc | cancelForward hloc =>
    exact absurd (hback (.inr hloc)).1 (by simp [Port.Anchor, hloc])
  | ask hloc => exact absurd (hback hloc).1 (not_or.mpr hloc.ne)
  | _ => exact hp (hq.elim id And.left)

end Step

variable {C : Config} {right : Addr → Prop} {s t : Session} {i : Addr}

theorem pending_step {e : Event} (hd : s.Directed right) (h : Step C s e t) (hi : right i)
    (hs : (s.port i).Anchor → (s.port i).Pending i)
    (ht : (t.port i).Anchor ∨ Returns right i s e t) : (t.port i).Pending i := by
  rcases h.cases with ⟨j, inp, s', q, out, rfl, -, hoffers, hopt, rfl⟩ | ⟨j, m, rest, -, -, rfl⟩
  · by_cases hj : i = j
    · subst hj
      rw [Session.act_port_self] at ht ⊢
      refine (lockMove hopt).pending hi (hd.messages.input hoffers) hs (ht.imp_right fun hr => ?_)
      refine ⟨hr.anchor, fun src m hinp => ?_⟩
      subst hinp
      cases hoffers with
      | addr head => exact hr.cause src m _ rfl head
    · rw [Session.act_port_of_ne _ hj, hoffers.port] at ht ⊢
      exact hs (ht.elim id fun hr => hr.anchor)
  · rw [Session.setTodo_port, Session.put_port] at ht ⊢
    exact hs (ht.elim id fun hr => hr.anchor)

/-- Left anchors have a lock pending. -/
theorem pending_reachable (hC : C.Facing right) (hs : (sessionSystem C).Reachable s)
    (hi : right i) : (s.port i).Anchor → (s.port i).Pending i := by
  have hinv : s.Directed right ∧ ((s.port i).Anchor → (s.port i).Pending i) := by
    refine hs.invariant (P := fun s => s.Directed right ∧
      ((s.port i).Anchor → (s.port i).Pending i))
      ?_ fun s _ t hs h => ⟨directed_step hC hs.1 h, fun ht => ?_⟩
    · rintro s rfl
      refine ⟨directed_start hC, fun ha => ?_⟩
      have hloc : (C.start.port i).loc = .endSynchronizing :=
        Config.start_ports (P := fun _ p => p.loc = .endSynchronizing) (fun _ => rfl) rfl i
      simp [Port.Anchor, hloc] at ha
    · exact pending_step hs.1 h hi hs.2 (.inl ht)
  exact hinv.2

/-- **A lock is pending after every reconfiguration.**  A left anchor that returns because its
reconfiguration has been completed or canceled leaves `lockPending` set, so its locks are not
released; and as a port of a middlebox it meets the request of any other port that crosses it
with a failed assertion. -/
theorem returned_pending (hC : C.Facing right) (hs : (sessionSystem C).Reachable s) {e : Event}
    (h : (sessionSystem C).step s e t) (hr : Returns right i s e t) :
    ¬ ((t.port i).lock.lockPending = false ∧ (t.port i).lock.locked = false) ∧
      ((t.port i).loc = .endOnePath → ∀ requestor anchor delta, requestor ≠ i → requestor ≠ 0 →
        .fault .lockPending ∈
          forwardOptions C i (t.port i) (.requestLock requestor anchor delta)) := by
  have hpend : (t.port i).Pending i :=
    pending_step (directed_reachable hC hs) h hr.right (pending_reachable hC hs hr.right) (.inr hr)
  refine ⟨fun hreleased => ?_, fun hloc r anchor delta hne h0 => hpend.fault hloc hne h0⟩
  rw [hpend.1] at hreleased
  cases hreleased.1

/-! ## Two middleboxes, one of which is deleted -/

/-- The ports 1 and 6 are the endpoints, 2 and 3 the ports of the left middlebox and 4 and 5
those of the right one.  Port 3 may delete the right middlebox. -/
def twoBoxes : Config where
  endpoint i := i == 1 || i == 6
  leftEnd := 1
  rightEnd := 6
  far := lineFar
  pair := linePair
  offset _ := 10
  isn _ := 0
  choose i anchor := i % 2 == 1 && anchor == 6
  ask _ _ _ := false
  newFar i _ := if i % 2 = 1 then 6 else 3

theorem twoBoxes_facing : twoBoxes.Facing fun i => i % 2 = 1 where
  leftEnd := rfl
  far := odd_lineFar
  pair := odd_linePair
  newFar i _ := by
    unfold twoBoxes
    simp only
    split <;> simp [*]
  choose i anchor h := by
    simp only [twoBoxes, Bool.and_eq_true, beq_iff_eq] at h
    exact h.1
  ask _ _ _ h := by cases h

/-- The handshake of `twoBoxes`. -/
def twoBoxesHandshake : List (Event × Nat) :=
  (.flush 1, 0) :: receive 2 ++ pass 3 ++ receive 4 ++ pass 5 ++ receive 6 ++ receive 5 ++ pass 4 ++
    receive 3 ++ pass 2 ++ receive 1 ++ receive 2 ++ pass 3 ++ receive 4 ++ pass 5 ++
    [(.fromAddr 6, 0)]

/-- Port 3 is granted its lock and sets the new path up, and port 6 sends on it. -/
def twoBoxesDeletion : List (Event × Nat) :=
  [(.own 3 (.anchor 6), 0), (.flush 3, 0)] ++ receive 4 ++ pass 5 ++ receive 6 ++ receive 5 ++
    pass 4 ++ receive 3 ++ receive 6 ++ receive 3 ++ [(.fromAddr 6, 0)] ++
    [(.own 6 .sendData, 0), (.flush 6, 0)] ++ receive 3 ++ pass 2 ++ receive 1 ++ receive 2

/-- With the acknowledgment of these data, port 3 completes the reconfiguration. -/
theorem twoBoxes_completes : ∃ s t, (sessionSystem twoBoxes).Reachable s ∧
    (sessionSystem twoBoxes).step s (.fromForward 3) t ∧
      Returns (fun i => i % 2 = 1) 3 s (.fromForward 3) t := by
  obtain ⟨s, t, hs, h, hloc⟩ := exists_run_step (C := twoBoxes)
    (E := twoBoxesHandshake ++ twoBoxesDeletion) (e := .fromForward 3) (k := 0)
    (P := fun s t => (s.port 3).loc = .twoPaths ∧ (t.port 3).loc = .endOnePath) (by decide +kernel)
  obtain ⟨hs3, ht3⟩ := of_decide_eq_true hloc
  exact ⟨s, t, hs, h, rfl, .inr hs3, .inr ht3, nofun⟩

theorem returned_pending_twoBoxes : ∃ s t, (sessionSystem twoBoxes).Reachable s ∧
    (sessionSystem twoBoxes).step s (.fromForward 3) t ∧
      ¬ ((t.port 3).lock.lockPending = false ∧ (t.port 3).lock.locked = false) := by
  obtain ⟨s, t, hs, h, hr⟩ := twoBoxes_completes
  exact ⟨s, t, hs, h, (returned_pending twoBoxes_facing hs h hr).1⟩

/-- The locks of left anchors are released when they return. -/
def LocksReleased (C : Config) (right : Addr → Prop) : Prop :=
  ∀ s e t i, (sessionSystem C).Reachable s → (sessionSystem C).step s e t →
    Returns right i s e t → (t.port i).lock.lockPending = false ∧ (t.port i).lock.locked = false

theorem not_locksReleased : ¬ LocksReleased twoBoxes fun i => i % 2 = 1 := by
  intro hreleased
  obtain ⟨s, t, hs, h, hr⟩ := twoBoxes_completes
  have hpend : (t.port 3).Pending 3 :=
    pending_step (directed_reachable twoBoxes_facing hs) h hr.right
      (pending_reachable twoBoxes_facing hs hr.right) (.inr hr)
  have hfree := (hreleased s _ t 3 hs h hr).1
  rw [hpend.1] at hfree
  cases hfree

end Dysco.PortProcess
