import Dysco.LockExclusion

/-! # The deltas of a new path

An anchor's `newDelta` is to stand for its own delta and for those of the middleboxes that
its new path leaves out.  A request adds up the deltas of the ports it leaves on its way to
the right anchor, and the answer those of the ports it leaves on its way back.  The ports
that a request leaves are the ones that what the *left* anchor sends leaves, and their sum is
what the right anchor gets: each anchor has the sum of the other direction.
-/
namespace Dysco.PortProcess

section Routes
variable (port : Addr → Port) (X : Addr) (route : List Addr)

/-- A sequence number that `X` sends, once it has left the ports of the route. -/
def seqAcross (seq : Int) : Int :=
  route.foldl (fun n q => n + (port q).delta) (seq + (port X).delta)

/-- Its acknowledgment, once it has come back through them. -/
def ackBack (ack : Int) : Int := route.foldr (fun q n => n - (port q).delta) ack - (port X).delta

/-- The new path of `X` carries the numbers that the old one would have carried, which led
along the route. -/
structure CarriesOver : Prop where
  sum : (port X).lock.newDelta = (port X).delta + (route.map fun q => (port q).delta).sum
  seq : ∀ n, n + (port X).lock.newDelta = seqAcross port X route n
  ack : ∀ n, n - (port X).lock.newDelta = ackBack port X route n

/-- A sequence number grows by the deltas along the route. -/
theorem seqAcross_eq (seq : Int) :
    seqAcross port X route seq = seq + (port X).delta +
      (route.map fun q => (port q).delta).sum := by
  unfold seqAcross
  generalize seq + (port X).delta = n
  induction route generalizing n with
  | nil => simp
  | cons q route ih => rw [List.foldl_cons, ih, List.map_cons, List.sum_cons, add_assoc]

/-- An acknowledgment on its way back shrinks by them. -/
theorem ackBack_eq (ack : Int) :
    ackBack port X route ack = ack - (route.map fun q => (port q).delta).sum - (port X).delta := by
  unfold ackBack
  congr 1
  induction route with
  | nil => simp
  | cons q route ih =>
    rw [List.foldr_cons, ih, List.map_cons, List.sum_cons]
    omega

/-- The sum is what it takes. -/
theorem carriesOver_iff : CarriesOver port X route ↔
    (port X).lock.newDelta = (port X).delta + (route.map fun q => (port q).delta).sum := by
  refine ⟨CarriesOver.sum, fun h => ⟨h, fun n => ?_, fun n => ?_⟩⟩
  · rw [seqAcross_eq, h, add_assoc]
  · rw [ackBack_eq, h]
    omega

end Routes

/-- The ports that what the right anchor sends leaves: the other ports of the middleboxes. -/
def routeLeft (C : Config) (ps : List Addr) : List Addr := (ps.map C.pair).reverse

/-- The deltas along the route to the left are those of the ports that face left. -/
theorem sum_routeLeft (C : Config) (port : Addr → Port) (ps : List Addr) :
    ((routeLeft C ps).map fun q => (port q).delta).sum = leftSum C port ps := by
  rw [routeLeft, List.map_reverse, List.sum_reverse, List.map_map]
  rfl

section Anchors
variable {C : Config} {right : Addr → Prop} {w : Watched} {g : Addr → Lease} {L R : Addr}

/-- What the anchors of a lease have added up. -/
theorem Leased.newDelta (h : Leased C right w g) (hL : (w.session.port L).loc = .twoPaths)
    (hR : (w.session.port R).loc = .twoPaths) (hright : ¬ right R)
    (hother : (w.session.port R).lock.otherAnchor = L) (hcancel : ¬ w.canceling L) :
    (w.session.port L).lock.newDelta =
        leftSum C w.session.port (g L).held + (w.session.port L).delta ∧
      (w.session.port R).lock.newDelta =
        rightSum w.session.port (g L).held + (w.session.port R).delta ∧
      LeftGranted right w.session.port L := by
  have heng := h.engaged R hright (.inr hR)
  rw [hother] at heng
  have hrightL : right L := (h.lease L).anchor heng.phase
  have hown := (h.lease L).own
  have hgranted : (g L).phase = .granted ∧ LeftGranted right w.session.port L := by
    unfold OwnOk at hown
    cases hp : (g L).phase with
    | idle => exact absurd hp heng.phase
    | asking =>
      rw [hp] at hown
      have hloc := (hown.2.2.1 (.inr hL)).1
      rw [hL] at hloc
      cases hloc
    | granted =>
      rw [hp] at hown
      exact ⟨rfl, hrightL, .inr hL, (hown.2.2.2 (.inr hL)).1⟩
    | canceling => exact absurd ((h.canceling L).mpr hp) hcancel
  obtain ⟨hp, hleft⟩ := hgranted
  rw [OwnOk, hp] at hown
  have hnewL := (hown.2.2.2 (.inr hL)).2.2
  have hnewR := heng.sum (by rw [hp]; rintro ⟨⟩)
  rw [if_pos hL] at hnewL
  rw [if_pos hR] at hnewR
  exact ⟨hnewL, hnewR, hleft⟩

/-- **The new path carries the numbers of the old one** if and only if the middleboxes that it
leaves out add the same to the numbers of both directions. -/
theorem carriesOver_iff_sums {ps : List Addr} (hC : C.Chain right)
    (hw : (watchedSystem C right).Reachable w) (hL : (w.session.port L).loc = .twoPaths)
    (hR : (w.session.port R).loc = .twoPaths) (hright : ¬ right R)
    (hother : (w.session.port R).lock.otherAnchor = L) (hcancel : ¬ w.canceling L)
    (hps : Segment C w.session.port L ps) :
    (CarriesOver w.session.port L ps ∧ CarriesOver w.session.port R (routeLeft C ps)) ↔
      rightSum w.session.port ps = leftSum C w.session.port ps := by
  obtain ⟨g, h⟩ := leased_reachable hC hw
  obtain ⟨hnewL, hnewR, hleft⟩ := h.newDelta hL hR hright hother hcancel
  have he : ps = (g L).held := hps.unique hC (h.segment hleft hcancel)
  rw [carriesOver_iff, carriesOver_iff, sum_routeLeft, hnewL, hnewR, ← he]
  change (_ = _ + rightSum _ ps ∧ _) ↔ _
  omega

end Anchors

/-! ## A middlebox that is deleted -/

def deletionNew (i : Nat) : Nat := if i % 2 = 1 then 4 else 1

theorem odd_deletionNew (i : Nat) : deletionNew i % 2 = 1 ↔ ¬ i % 2 = 1 := by
  unfold deletionNew
  split <;> omega

/-- The middlebox with the ports 2 and 3 adds `left` to the numbers that travel left and
`right` to those that travel right.  Port 1 may delete it. -/
def deletion (left right : Int) : Config where
  endpoint i := i == 1 || i == 4
  leftEnd := 1
  rightEnd := 4
  far := lineFar
  pair := linePair
  offset i := if i = 2 then left else if i = 3 then right else 0
  isn _ := 0
  choose i anchor := i == 1 && anchor == 4
  ask _ _ _ := false
  newFar i _ := deletionNew i

/-- The session from which a middlebox is deleted. -/
theorem deletion_chain (a b : Int) : (deletion a b).Chain fun i => i % 2 = 1 where
  leftEnd := rfl
  far := odd_lineFar
  pair := odd_linePair
  newFar i _ := odd_deletionNew i
  choose i _ h := by
    simp only [deletion, Bool.and_eq_true, beq_iff_eq] at h
    rw [h.1]
  ask _ _ _ h := by cases h
  null := by decide
  pair_pair := linePair_linePair
  newFar_ne i _ h := by
    simp only [deletion, Bool.and_eq_true, beq_iff_eq] at h
    rw [h.1]
    change deletionNew 1 ≠ lineFar 1
    decide
  ask_ne _ _ _ h := by cases h

/-- Port 1 deletes the middlebox: both anchors have two paths. -/
def deletionPaths : List (Event × Nat) :=
  [(.own 1 (.anchor 4), 0), (.flush 1, 0)] ++ receive 2 ++ pass 3 ++ receive 4 ++ receive 3 ++
    pass 2 ++ receive 1 ++ receive 4 ++ receive 1 ++ [(.fromAddr 4, 0)]

/-- Both anchors have two paths, and what the ports of the middlebox add. -/
def TwoPathsWith (s : Session) (a b : Int) : Prop :=
  ((s.port 1).loc = .twoPaths ∧ (s.port 4).loc = .twoPaths ∧ (s.port 4).lock.otherAnchor = 1) ∧
    (s.port 2).delta = a ∧ (s.port 3).delta = b

instance {s : Session} {a b : Int} : Decidable (TwoPathsWith s a b) :=
  inferInstanceAs (Decidable (_ ∧ _))

/-- With equal deltas in both directions the anchors carry them over. -/
theorem carriesOver_iff_sums_deletion : ∃ w,
    (watchedSystem (deletion 10 10) fun i => i % 2 = 1).Reachable w ∧
      CarriesOver w.session.port 1 [3] ∧ CarriesOver w.session.port 4 [2] := by
  obtain ⟨w, hw, hcancel, hP⟩ := exists_uncanceled (C := deletion 10 10) (fun i => i % 2 = 1)
    (E := boxHandshake ++ deletionPaths)
    (P := fun s => decide (TwoPathsWith s 10 10 ∧ Segment (deletion 10 10) s.port 1 [3]))
    (by decide +kernel)
  obtain ⟨⟨⟨h1, h4, hother⟩, h2, h3⟩, hs⟩ := of_decide_eq_true hP
  refine ⟨w, hw, (carriesOver_iff_sums (deletion_chain 10 10) hw h1 h4 (by decide) hother
    (hcancel 1) hs).mpr ?_⟩
  change (w.session.port 3).delta + 0 = (w.session.port 2).delta + 0
  rw [h2, h3]

/-- When both anchors have two paths, the new one carries the numbers of the old one. -/
def DeltasCarriedOver (C : Config) (right : Addr → Prop) : Prop :=
  ∀ w L R ps, (watchedSystem C right).Reachable w → (w.session.port L).loc = .twoPaths →
    (w.session.port R).loc = .twoPaths → ¬ right R → (w.session.port R).lock.otherAnchor = L →
      ¬ w.canceling L → Segment C w.session.port L ps →
        CarriesOver w.session.port L ps ∧ CarriesOver w.session.port R (routeLeft C ps)

/-- With different deltas they are swapped. -/
theorem not_deltasCarriedOver : ¬ DeltasCarriedOver (deletion 20 10) fun i => i % 2 = 1 := by
  intro hcarried
  obtain ⟨w, hw, hcancel, hP⟩ := exists_uncanceled (C := deletion 20 10) (fun i => i % 2 = 1)
    (E := boxHandshake ++ deletionPaths)
    (P := fun s => decide ((TwoPathsWith s 20 10 ∧ Segment (deletion 20 10) s.port 1 [3]) ∧
      (s.port 1).lock.newDelta = 20 ∧ (s.port 1).delta = 0)) (by decide +kernel)
  obtain ⟨⟨⟨⟨h1, h4, hother⟩, h2, h3⟩, hs⟩, hnew, hdelta⟩ := of_decide_eq_true hP
  have hsum := (hcarried w 1 4 [3] hw h1 h4 (by decide) hother (hcancel 1) hs).1.sum
  rw [hnew, hdelta] at hsum
  change (20 : Int) = 0 + ((w.session.port 3).delta + 0) at hsum
  rw [h3] at hsum
  exact absurd hsum (by decide)

end Dysco.PortProcess
