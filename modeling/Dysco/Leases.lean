import Mathlib.Algebra.BigOperators.Group.List.Basic
import Mathlib.Algebra.Ring.Int.Defs
import Mathlib.Data.List.Chain
import Dysco.LockFacts
import Dysco.Tokens

/-! # Leases

What a left anchor holds of the session, as its request passes, is answered and is canceled:
the ports that face right between it and the place its request has reached, in their order.
This account is not in the variables of any port.  `LeaseOk` ties it to them: the ports held
have the anchor as their `requestor`, are connected to each other, and the request or its
answer is next to them.

Two left anchors hold no port in common (`LeaseOk.unique`), and no request reaches a port that
another anchor holds (`LeaseOk.trespass`).
-/
namespace Dysco.PortProcess

/-- How far the reconfiguration of a left anchor has come. -/
inductive Phase where
  | idle
  | asking
  | granted
  /-- `cancelLock` has been sent. -/
  | canceling
deriving DecidableEq

/-- The request of a left anchor, or what has become of it. -/
inductive Token where
  | gone
  /-- Another anchor has saved it. -/
  | saved (q : Addr)
  | flight (π : Place) (m : Msg)

/-- What a left anchor holds. -/
structure Lease where
  phase : Phase
  /-- The right anchor. -/
  anchor : Addr
  /-- The ports held between the left anchor and the token. -/
  before : List Addr
  /-- The ports held beyond it. -/
  after : List Addr
  token : Token

namespace Lease

/-- All ports held. -/
def held (L : Lease) : List Addr := L.before ++ L.after

/-- The port on the left of the token. -/
def hop (X : Addr) (L : Lease) : Addr := L.before.getLastD X

/-- The token on its way. -/
def flight (L : Lease) : Option (Place × Msg) :=
  match L.token with
  | .flight π m => some (π, m)
  | _ => none

/-- The request of the left anchor has not been answered yet. -/
structure Waits (L : Lease) : Prop where
  phase : L.phase = .asking
  token : (∃ q, L.token = .saved q) ∨ ∃ π m, L.token = .flight π m

/-- The lease of a port without a reconfiguration. -/
def none : Lease := ⟨.idle, 0, [], [], .gone⟩

/-- The port is held, or is a left anchor whose lease begins with it. -/
def Covers (X : Addr) (L : Lease) (p : Addr) : Prop :=
  p ∈ L.held ∨ p = X ∧ (L.phase = .asking ∨ L.phase = .granted)

end Lease

/-- The port of a middlebox in its normal state, or at its end. -/
def Port.Passes (p : Port) : Prop := p.loc = .endOnePath ∨ p.loc = .ended

/-- The port is held for the left anchor `X`. -/
structure Port.HeldBy (X : Addr) (p : Port) : Prop where
  loc : p.Normal ∨ p.loc = .ended
  lock : p.lock.locked = true ∨ p.lock.lockPending = true
  requestor : p.lock.requestor = X

section Ports
variable (C : Config) (right : Addr → Prop) (port : Addr → Port)

/-- What comes from `p` passes port `l`, which is not the right anchor `a`. -/
structure Through (a p l : Addr) : Prop where
  passes : (port l).Passes
  ne : l ≠ a
  far : (port l).farLoc = p

/-- The subsession of `p` leads to the middlebox of `q`. -/
structure Link (a p q : Addr) : Prop where
  through : Through port a p (C.pair q)
  far : (port p).farLoc = C.pair q

/-- What the ports add to sequence numbers that travel right, and left. -/
def rightSum (qs : List Addr) : Int := (qs.map fun q => (port q).delta).sum

def leftSum (qs : List Addr) : Int := (qs.map fun q => (port (C.pair q)).delta).sum

/-- The place is between port `p` and the next port that faces right. -/
def PlaceOk (a p : Addr) : Place → Prop
  | .outAddr i dst => (right i → i = p ∧ (port p).farLoc = dst) ∧ (¬ right i → dst = p)
  | .inbox dst src => (¬ right dst → src = p ∧ (port p).farLoc = dst) ∧ (right dst → dst = p)
  | .outForward i dst =>
    dst = C.pair i ∧ (¬ right i → Through port a p i ∧ (port p).farLoc = i) ∧
      (right i → Through port a p dst ∧ (port p).farLoc = dst)
  | .forwarded dst =>
    (right dst → Through port a p (C.pair dst) ∧ (port p).farLoc = C.pair dst) ∧
      (¬ right dst → Through port a p dst ∧ (port p).farLoc = dst)

/-- What an answer on its way left has accumulated: the deltas of the ports beyond it, without
that of the port that is about to send it. -/
def AckSum (L : Lease) (delta : Int) : Place → Prop
  | .outForward i _ => ∃ rest, L.after = i :: rest ∧ delta = leftSum C port rest
  | .forwarded l => ∃ rest, L.after = C.pair l :: rest ∧ delta = leftSum C port rest
  | _ => delta = leftSum C port L.after

/-- What a token says.  A refusal has a cause. -/
def MsgOk (cause : Addr → Prop) (X : Addr) (L : Lease) (π : Place) : Msg → Prop
  | .requestLock r a delta => r = X ∧ a = L.anchor ∧ delta = rightSum port L.before
  | .ackLock r a delta =>
    r = X ∧ a = L.anchor ∧ (port (L.held.getLastD X)).farLoc = L.anchor ∧
      AckSum C port L delta π
  | .nackLock r _ =>
    r = X ∧ L.after = [] ∧ (port (L.hop X)).farLoc ≠ L.anchor ∧ cause X
  | _ => True

/-- Where the token is, and what it says. -/
def TokenOk (cause : Addr → Prop) (X : Addr) (L : Lease) : Prop :=
  match L.token with
  | .gone => True
  | .saved q =>
    right q ∧ L.after = [] ∧ Through port L.anchor (L.hop X) (C.pair q) ∧
      (port (L.hop X)).farLoc = C.pair q
  | .flight π m => PlaceOk C right port L.anchor (L.hop X) π ∧ MsgOk C port cause X L π m

/-- The left anchor's own variables. -/
def OwnOk (X : Addr) (L : Lease) (p : Port) : Prop :=
  match L.phase with
  | .idle => right X → ¬ p.Anchor
  | .asking =>
    p.lock.requestor = X ∧ p.lock.lockPending = true ∧
      (p.Anchor → p.loc = .anchoring ∧ p.lock.requesting = true) ∧
      ((∃ q, L.token = .saved q) ∨ (∃ π m, L.token = .flight π m) →
        (p.loc = .anchoring ∨ p.loc = .ended) ∧ p.lock.otherAnchor = L.anchor)
  | .granted =>
    p.loc ≠ .endSynchronizing ∧ p.lock.requestor = 0 ∧ p.lock.lockPending = true ∧
      (p.Anchor → p.lock.requesting = false ∧ p.lock.otherAnchor = L.anchor ∧
        p.lock.newDelta =
          leftSum C port L.held + if p.loc = .twoPaths then p.delta else 0)
  | .canceling =>
    p.loc ≠ .endSynchronizing ∧ p.lock.requestor = 0 ∧ p.lock.lockPending = true ∧
      (p.Anchor → p.lock.requesting = false)

/-- What the ports of a lease agree with. -/
structure LeaseShape (cause : Addr → Prop) (X : Addr) (L : Lease) : Prop where
  anchor : L.phase ≠ .idle → right X
  idle : L.phase = .idle → L.held = []
  gone : L.phase ≠ .asking → L.token = .gone
  facing : ∀ q ∈ L.held, right q
  heldBy : ∀ q ∈ L.held, (port q).HeldBy X
  nodup : (X :: L.held).Nodup
  chain : L.held.IsChain (Link C port L.anchor)
  first : L.phase = .asking ∨ L.phase = .granted →
    ∀ q ∈ L.held.head?, Through port L.anchor X (C.pair q)
  firstFar : L.phase = .asking ∨ L.phase = .granted ∧ (port X).Anchor →
    ∀ q ∈ L.held.head?, (port X).farLoc = C.pair q
  complete : L.phase = .granted → (port X).Anchor ∨ L.held ≠ [] →
    (port (L.held.getLastD X)).farLoc = L.anchor
  token : TokenOk C right port cause X L

/-- **A lease and the ports agree.** -/
structure LeaseOk (cause : Addr → Prop) (X : Addr) (L : Lease) : Prop
    extends LeaseShape C right port cause X L where
  own : OwnOk C right port X L (port X)

end Ports

/-! ## Lists that are connected -/

section Lists
variable {α : Type} {R : α → α → Prop}

/-- What stands in the middle of a chain is related to the one before it. -/
theorem isChain_rel_getLastD {x y : α} {u v : List α} (h : (x :: (u ++ y :: v)).IsChain R) :
    R (u.getLastD x) y := by
  induction u generalizing x with
  | nil => exact (List.isChain_cons_cons.mp h).1
  | cons z u ih =>
    rw [List.getLastD_cons]
    exact ih (List.isChain_cons_cons.mp h).2

/-- A chain may be lengthened at its end. -/
theorem isChain_concat {x y : α} {u : List α} (h : (x :: u).IsChain R) (hy : R (u.getLastD x) y) :
    (x :: (u ++ [y])).IsChain R := by
  induction u generalizing x with
  | nil => exact List.isChain_pair.mpr hy
  | cons z u ih =>
    rw [List.getLastD_cons] at hy
    obtain ⟨hxz, hu⟩ := List.isChain_cons_cons.mp h
    exact List.isChain_cons_cons.mpr ⟨hxz, ih hu hy⟩

theorem getLastD_append_cons (x y : α) (u v : List α) :
    (u ++ y :: v).getLastD x = v.getLastD y := by
  induction u generalizing x with
  | nil => exact List.getLastD_cons ..
  | cons z u ih => rw [List.cons_append, List.getLastD_cons, ih]

/-- A list is empty, or it has a last element. -/
theorem eq_nil_or_concat_getLastD (x : α) (u : List α) :
    u = [] ∧ u.getLastD x = x ∨ ∃ w, u = w ++ [u.getLastD x] := by
  rcases List.eq_nil_or_concat' u with rfl | ⟨w, y, rfl⟩
  · exact .inl ⟨rfl, rfl⟩
  · refine .inr ⟨w, ?_⟩
    rw [getLastD_append_cons]
    rfl

end Lists

/-! ## Who holds a port -/

section Owners
variable {C : Config} {right : Addr → Prop} {port : Addr → Port} {cause : Addr → Prop}
variable {X Y p q : Addr} {L M : Lease}

/-- While the lock is asked for, the lease covers the port where the request is. -/
theorem Lease.hop_covers (h : L.phase = .asking) : L.Covers X (L.hop X) := by
  rcases eq_nil_or_concat_getLastD X L.before with ⟨-, he⟩ | ⟨w, hw⟩
  · exact .inr ⟨he, .inl h⟩
  · refine .inl (List.mem_append_left _ ?_)
    rw [hw]
    exact List.mem_append_right _ (List.mem_singleton_self _)

namespace LeaseOk

/-- A lease whose request or answer is on its way is being asked for. -/
theorem asking_of_flight (h : LeaseOk C right port cause X L) {π : Place} {m : Msg}
    (ht : L.flight = some (π, m)) : L.phase = .asking ∧ L.token = .flight π m := by
  have htok : L.token = .flight π m := by
    unfold Lease.flight at ht
    split at ht
    · cases ht
      assumption
    · cases ht
  refine ⟨?_, htok⟩
  by_contra hne
  rw [h.gone hne] at htok
  cases htok

/-- A lease that is in use belongs to a real port. -/
theorem ne_null (hC : C.Chain right) (h : LeaseOk C right port cause X L) (hp : L.phase ≠ .idle) :
    X ≠ 0 := by
  rintro rfl
  exact hC.null (h.anchor hp)

/-- The requestor of a port that a left anchor covers. -/
theorem requestor_of_covers (h : LeaseOk C right port cause X L) (hp : L.Covers X p) :
    (port p).lock.requestor = X ∨ p = X ∧ L.phase = .granted ∧ (port p).lock.requestor = 0 := by
  rcases hp with hp | ⟨rfl, hphase | hphase⟩
  · exact .inl (h.heldBy p hp).requestor
  · have := h.own
    simp only [OwnOk, hphase] at this
    exact .inl this.1
  · have := h.own
    simp only [OwnOk, hphase] at this
    exact .inr ⟨rfl, hphase, this.2.1⟩

/-- **A port is covered by one lease only**, if one of the two anchors is asking. -/
theorem unique (hC : C.Chain right) (hX : LeaseOk C right port cause X L)
    (hY : LeaseOk C right port cause Y M) (hM : M.phase = .asking) (hp : L.Covers X p)
    (hq : M.Covers Y p) : X = Y := by
  have hYreq : (port p).lock.requestor = Y := by
    rcases hY.requestor_of_covers hq with h | ⟨-, h, -⟩
    · exact h
    · rw [hM] at h
      cases h
  rcases hX.requestor_of_covers hp with h | ⟨-, -, h⟩
  · exact h.symm.trans hYreq
  · have hne := hY.ne_null hC (by rw [hM]; nofun)
    exact absurd (hYreq.symm.trans h) hne

/-- The ports of a lease, with the left anchor, and what connects them. -/
theorem through_chain (h : LeaseOk C right port cause X L)
    (hp : L.phase = .asking ∨ L.phase = .granted) :
    (X :: L.held).IsChain fun p q => Through port L.anchor p (C.pair q) :=
  List.isChain_cons.mpr ⟨h.first hp, h.chain.imp fun _ _ hl => hl.through⟩

/-- The ports of a lease follow each other along the session. -/
theorem far_chain (h : LeaseOk C right port cause X L)
    (hp : L.phase = .asking ∨ L.phase = .granted ∧ (port X).Anchor) :
    (X :: L.held).IsChain fun p q => (port p).farLoc = C.pair q :=
  List.isChain_cons.mpr ⟨h.firstFar hp, h.chain.imp fun _ _ hl => hl.far⟩

/-- What a port that is held receives has passed a port of the lease. -/
theorem pred (h : LeaseOk C right port cause X L) (hp : L.phase = .asking ∨ L.phase = .granted)
    (hq : q ∈ L.held) :
    L.Covers X (port (C.pair q)).farLoc ∧
      Through port L.anchor (port (C.pair q)).farLoc (C.pair q) := by
  obtain ⟨u, v, huv⟩ := List.append_of_mem hq
  have hthrough := h.through_chain hp
  rw [huv] at hthrough
  have hrel := isChain_rel_getLastD hthrough
  rw [← hrel.far] at hrel
  refine ⟨?_, hrel⟩
  have hlast := (isChain_rel_getLastD hthrough).far
  rw [hlast]
  rcases eq_nil_or_concat_getLastD X u with ⟨-, he⟩ | ⟨w, hw⟩
  · exact .inr ⟨he, hp⟩
  · refine .inl ?_
    rw [huv, hw]
    simp

/-- **A request reaches no port that another left anchor holds.** -/
theorem trespass (hC : C.Chain right) (hX : LeaseOk C right port cause X L)
    (hY : LeaseOk C right port cause Y M) (hM : M.phase = .asking)
    (hL : L.phase = .asking ∨ L.phase = .granted) (hq : q ∈ L.held)
    (hp : M.Covers Y (port (C.pair q)).farLoc) : X = Y :=
  hX.unique hC hY hM (hX.pred hL hq).1 hp

/-- While the left anchor is asking, it and the ports of its lease are connected both ways. -/
theorem link_chain (h : LeaseOk C right port cause X L) (hp : L.phase = .asking) :
    (X :: L.held).IsChain (Link C port L.anchor) :=
  List.isChain_cons.mpr
    ⟨fun q hq => ⟨h.first (.inl hp) q hq, h.firstFar (.inl hp) q hq⟩, h.chain⟩

/-- The port after the token is connected to the port before it. -/
theorem link_after (h : LeaseOk C right port cause X L) (hp : L.phase = .asking)
    {rest : List Addr} (hafter : L.after = q :: rest) :
    Link C port L.anchor (L.hop X) q := by
  have hchain := h.link_chain hp
  rw [Lease.held, hafter] at hchain
  exact isChain_rel_getLastD hchain

/-- So is the last port before the token to the one before. -/
theorem link_before (h : LeaseOk C right port cause X L) (hp : L.phase = .asking) {b : List Addr}
    (hbefore : L.before = b ++ [q]) : Link C port L.anchor (b.getLastD X) q := by
  have hchain := h.link_chain hp
  rw [Lease.held, hbefore, List.append_assoc, List.singleton_append] at hchain
  exact isChain_rel_getLastD hchain

end LeaseOk

/-! ## What a step of one port leaves alone -/

/-- Port `i` may become `q` as far as the ports of a lease are concerned. -/
structure KeepsPorts (C : Config) (right : Addr → Prop) (port : Addr → Port) (X : Addr) (L : Lease)
    (i : Addr) (q : Port) : Prop where
  own : i = X → (L.phase = .granted → q.Anchor → (port i).Anchor) ∧
    (L.phase = .asking ∨ L.phase = .granted ∧ q.Anchor → q.farLoc = (port i).farLoc)
  held : i ∈ L.held → q.HeldBy X ∧ q.farLoc = (port i).farLoc ∧ q.delta = (port i).delta
  through : ¬ right i → ∀ p, L.Covers X p → Through port L.anchor p i →
    q.Passes ∧ q.farLoc = (port i).farLoc ∧ q.delta = (port i).delta

/-- Port `i` may become `q` as far as a lease is concerned. -/
structure KeepsLease (C : Config) (right : Addr → Prop) (port : Addr → Port) (X : Addr) (L : Lease)
    (i : Addr) (q : Port) : Prop extends KeepsPorts C right port X L i q where
  ownOk : i = X → OwnOk C right port X L q

variable {i : Addr} {cause' : Addr → Prop} {r : Port}

/-- What the anchor knows stays right as long as the sum of the deltas does. -/
theorem OwnOk.of_sum {port' : Addr → Port} {p : Port} (h : OwnOk C right port X L p)
    (hsum : L.phase = .granted → leftSum C port' L.held = leftSum C port L.held) :
    OwnOk C right port' X L p := by
  unfold OwnOk at h ⊢
  cases hL : L.phase with
  | granted =>
    rw [hL] at h
    simp only at h ⊢
    rwa [hsum hL]
  | _ =>
    rw [hL] at h
    exact h

namespace KeepsPorts

/-- A step elsewhere leaves the way that a message takes through the lease. -/
theorem port_through (hk : KeepsPorts C right port X L i r) (hp : L.Covers X p) {l : Addr}
    (hl : ¬ right l) (h : Through port L.anchor p l) :
    Through (Function.update port i r) L.anchor p l ∧
      (Function.update port i r l).delta = (port l).delta := by
  by_cases hli : l = i
  · subst hli
    obtain ⟨hpasses, hfar, hdelta⟩ := hk.through hl p hp h
    refine ⟨⟨?_, h.ne, ?_⟩, ?_⟩
    · rwa [Function.update_self]
    · rw [Function.update_self, hfar]
      exact h.far
    · rw [Function.update_self, hdelta]
  · refine ⟨⟨?_, h.ne, ?_⟩, ?_⟩
    · rw [Function.update_of_ne hli]
      exact h.passes
    · rw [Function.update_of_ne hli]
      exact h.far
    · rw [Function.update_of_ne hli]

/-- It leaves the locks of the lease and its deltas. -/
theorem port_held (hk : KeepsPorts C right port X L i r) (h : LeaseOk C right port cause X L)
    (hq : q ∈ L.held) :
    (Function.update port i r q).HeldBy X ∧
      (Function.update port i r q).farLoc = (port q).farLoc ∧
        (Function.update port i r q).delta = (port q).delta := by
  by_cases hqi : q = i
  · subst hqi
    rw [Function.update_self]
    exact hk.held hq
  · rw [Function.update_of_ne hqi]
    exact ⟨h.heldBy q hq, rfl, rfl⟩

/-- And where its ports send to. -/
theorem port_far (hk : KeepsPorts C right port X L i r) (h : LeaseOk C right port cause X L)
    (hp : L.Covers X p)
    (hX : L.phase = .asking ∨ L.phase = .granted ∧ (Function.update port i r X).Anchor) :
    (Function.update port i r p).farLoc = (port p).farLoc := by
  rcases hp with hp | ⟨rfl, -⟩
  · exact (hk.port_held h hp).2.1
  · by_cases hpi : i = p
    · subst hpi
      rw [Function.update_self] at hX ⊢
      exact (hk.own rfl).2 hX
    · rw [Function.update_of_ne (Ne.symm hpi)]

/-- So the sum of the deltas on the right-facing ports is the same. -/
theorem sum_right (hk : KeepsPorts C right port X L i r) (h : LeaseOk C right port cause X L)
    {qs : List Addr} (hqs : ∀ q ∈ qs, q ∈ L.held) :
    rightSum (Function.update port i r) qs = rightSum port qs := by
  unfold rightSum
  rw [List.map_congr_left fun q hq => (hk.port_held h (hqs q hq)).2.2]

/-- And on the left-facing ones. -/
theorem sum_left (hC : C.Chain right) (hk : KeepsPorts C right port X L i r)
    (h : LeaseOk C right port cause X L) (hL : L.phase = .asking ∨ L.phase = .granted)
    {qs : List Addr} (hqs : ∀ q ∈ qs, q ∈ L.held) :
    leftSum C (Function.update port i r) qs = leftSum C port qs := by
  unfold leftSum
  rw [List.map_congr_left fun q hq => ?_]
  have hheld := hqs q hq
  obtain ⟨hcovers, hthrough⟩ := h.pred hL hheld
  have hpair : ¬ right (C.pair q) := fun hr => (hC.pair q).mp hr (h.facing q hheld)
  exact (hk.port_through hcovers hpair hthrough).2

/-- A message stays at a place that is right for it. -/
theorem place (hC : C.Chain right) (hk : KeepsPorts C right port X L i r)
    (h : LeaseOk C right port cause X L) (hL : L.phase = .asking) {π : Place}
    (hπ : PlaceOk C right port L.anchor (L.hop X) π) :
    PlaceOk C right (Function.update port i r) L.anchor (L.hop X) π := by
  have hcov : L.Covers X (L.hop X) := Lease.hop_covers hL
  have hfar : (Function.update port i r (L.hop X)).farLoc = (port (L.hop X)).farLoc :=
    hk.port_far h hcov (.inl hL)
  have hthrough {l : Addr} (hl : ¬ right l) (ht : Through port L.anchor (L.hop X) l) :=
    (hk.port_through hcov hl ht).1
  cases π with
  | outAddr j dst =>
    simp only [PlaceOk, hfar]
    exact hπ
  | inbox dst src =>
    simp only [PlaceOk, hfar]
    exact hπ
  | outForward j dst =>
    obtain ⟨rfl, hleft, hright⟩ := hπ
    refine ⟨rfl, fun hj => ?_, fun hj => ?_⟩
    · rw [hfar]
      exact ⟨hthrough hj (hleft hj).1, (hleft hj).2⟩
    · rw [hfar]
      exact ⟨hthrough (fun hr => (hC.pair j).mp hr hj) (hright hj).1, (hright hj).2⟩
  | forwarded dst =>
    obtain ⟨hright, hleft⟩ := hπ
    refine ⟨fun hd => ?_, fun hd => ?_⟩
    · rw [hfar]
      exact ⟨hthrough (fun hr => (hC.pair dst).mp hr hd) (hright hd).1, (hright hd).2⟩
    · rw [hfar]
      exact ⟨hthrough hd (hleft hd).1, (hleft hd).2⟩

/-- What it says stays right. -/
theorem msg (hC : C.Chain right) (hk : KeepsPorts C right port X L i r)
    (h : LeaseOk C right port cause X L) (hL : L.phase = .asking) (hcause : cause X → cause' X)
    {π : Place} {m : Msg} (hm : MsgOk C port cause X L π m) :
    MsgOk C (Function.update port i r) cause' X L π m := by
  have hfar : (Function.update port i r (L.hop X)).farLoc = (port (L.hop X)).farLoc :=
    hk.port_far h (Lease.hop_covers hL) (.inl hL)
  cases m with
  | requestLock _ a delta =>
    obtain ⟨hX, ha, hd⟩ := hm
    refine ⟨hX, ha, ?_⟩
    rw [hk.sum_right h fun q hq => List.mem_append_left _ hq]
    exact hd
  | ackLock _ a delta =>
    obtain ⟨hX, ha, hcomplete, hsum⟩ := hm
    have hleft {qs : List Addr} (hqs : ∀ q ∈ qs, q ∈ L.after) :
        leftSum C (Function.update port i r) qs = leftSum C port qs :=
      hk.sum_left hC h (.inl hL) fun q hq => List.mem_append_right _ (hqs q hq)
    refine ⟨hX, ha, ?_, ?_⟩
    · rw [hk.port_far h ?_ (.inl hL)]
      · exact hcomplete
      · rcases eq_nil_or_concat_getLastD X L.held with ⟨-, he⟩ | ⟨w, hw⟩
        · exact .inr ⟨he, .inl hL⟩
        · refine .inl ?_
          rw [hw]
          simp
    · cases π with
      | outForward j _ =>
        obtain ⟨rest, hrest, hd⟩ := hsum
        refine ⟨rest, hrest, ?_⟩
        rw [hleft fun q hq => hrest ▸ List.mem_cons_of_mem _ hq]
        exact hd
      | forwarded l =>
        obtain ⟨rest, hrest, hd⟩ := hsum
        refine ⟨rest, hrest, ?_⟩
        rw [hleft fun q hq => hrest ▸ List.mem_cons_of_mem _ hq]
        exact hd
      | outAddr | inbox =>
        simp only [AckSum] at hsum ⊢
        rw [hleft fun q hq => hq]
        exact hsum
  | nackLock =>
    obtain ⟨hX, hafter, hne, hc⟩ := hm
    refine ⟨hX, hafter, ?_, hcause hc⟩
    rw [hfar]
    exact hne
  | _ => trivial

/-- So does the token of the lease. -/
theorem token (hC : C.Chain right) (hk : KeepsPorts C right port X L i r)
    (h : LeaseOk C right port cause X L) (hcause : cause X → cause' X) :
    TokenOk C right (Function.update port i r) cause' X L := by
  have htok := h.token
  unfold TokenOk at htok ⊢
  split
  next => trivial
  next q ht =>
    rw [ht] at htok
    obtain ⟨hq, hafter, hthrough, hfar⟩ := htok
    have hL : L.phase = .asking := by
      by_contra hne
      rw [h.gone hne] at ht
      cases ht
    refine ⟨hq, hafter, ?_, ?_⟩
    · exact (hk.port_through (Lease.hop_covers hL) (fun hr => (hC.pair q).mp hr hq) hthrough).1
    · rw [hk.port_far h (Lease.hop_covers hL) (.inl hL)]
      exact hfar
  next π m ht =>
    rw [ht] at htok
    have hL : L.phase = .asking := by
      by_contra hne
      rw [h.gone hne] at ht
      cases ht
    exact ⟨hk.place hC h hL htok.1, hk.msg hC h hL hcause htok.2⟩

end KeepsPorts

namespace LeaseOk

/-- **A step of another port** leaves the shape of a lease. -/
theorem frame_shape (hC : C.Chain right) (h : LeaseOk C right port cause X L)
    (hk : KeepsPorts C right port X L i r) (hcause : cause X → cause' X) :
    LeaseShape C right (Function.update port i r) cause' X L := by
  have hpair (q : Addr) (hq : q ∈ L.held) : ¬ right (C.pair q) :=
    fun hr => (hC.pair q).mp hr (h.facing q hq)
  have hanchor (hL : L.phase = .granted) (ha : (Function.update port i r X).Anchor) :
      (port X).Anchor := by
    by_cases hi : i = X
    · subst hi
      rw [Function.update_self] at ha
      exact (hk.own rfl).1 hL ha
    · rwa [Function.update_of_ne (Ne.symm hi)] at ha
  refine
    { anchor := h.anchor
      idle := h.idle
      gone := h.gone
      facing := h.facing
      heldBy := fun q hq => (hk.port_held h hq).1
      nodup := h.nodup
      chain := ?_
      first := fun hL q hq => ?_
      firstFar := fun hL q hq => ?_
      complete := fun hL hX => ?_
      token := ?_ }
  · refine List.IsChain.imp_of_mem_imp (fun p q hp hq hl => ?_) h.chain
    exact ⟨(hk.port_through (.inl hp) (hpair q hq) hl.through).1,
      (hk.port_held h hp).2.1.trans hl.far⟩
  · exact (hk.port_through (.inr ⟨rfl, hL⟩) (hpair q (List.mem_of_mem_head? hq))
      (h.first hL q hq)).1
  · have hold : L.phase = .asking ∨ L.phase = .granted ∧ (port X).Anchor :=
      hL.imp_right fun hL => ⟨hL.1, hanchor hL.1 hL.2⟩
    rw [hk.port_far h (.inr ⟨rfl, hold.imp_right And.left⟩) hL]
    exact h.firstFar hold q hq
  · have hold : (port X).Anchor ∨ L.held ≠ [] := hX.imp_left (hanchor hL)
    rw [← h.complete hL hold]
    rcases eq_nil_or_concat_getLastD X L.held with ⟨hnil, he⟩ | ⟨w, hw⟩
    · rw [he]
      exact hk.port_far h (.inr ⟨rfl, .inr hL⟩) (.inr ⟨hL, hX.resolve_right (not_not.mpr hnil)⟩)
    · have hmem : L.held.getLastD X ∈ L.held := by
        rw [hw]
        simp
      exact (hk.port_held h hmem).2.1
  · exact hk.token hC h hcause

/-- **A step of one port keeps the leases that it keeps its part of.** -/
theorem frame (hC : C.Chain right) (h : LeaseOk C right port cause X L)
    (hk : KeepsLease C right port X L i r) (hcause : cause X → cause' X) :
    LeaseOk C right (Function.update port i r) cause' X L where
  toLeaseShape := h.frame_shape hC hk.toKeepsPorts hcause
  own := by
    have hown : OwnOk C right port X L (Function.update port i r X) := by
      by_cases hi : i = X
      · subst hi
        rw [Function.update_self]
        exact hk.ownOk rfl
      · rw [Function.update_of_ne (Ne.symm hi)]
        exact h.own
    exact hown.of_sum fun hL => hk.sum_left hC h (.inr hL) fun q hq => hq

end LeaseOk

end Owners

end Dysco.PortProcess
