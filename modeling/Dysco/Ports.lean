import Dysco.ControlBlock
import Dysco.TransitionSystem

/-! # Ports of subsessions

A subsession gets its local port and its neighbor port in two critical sections.  Both
come out of one counter: the lower half counts local ports down from 65535 to 10001, and
each time it starts again the upper half, the neighbor port, goes down by one.

The pair is unique if no other session exhausts the lower half between the two sections
(`pairs_unique`).  Otherwise the neighbor port belongs to a later round, in which the
local port is handed out again (`pairs_clash`).
-/
namespace Dysco

/-- The local ports of one round. -/
def portRound : Nat := 55535

/-- Sessions on their way to a pair of ports. -/
structure PortState where
  host : Host
  /-- The local port of a session that has one. -/
  lport : Nat → Option U16
  /-- The upper half of the counter when the session left its first critical section. -/
  upper : Nat → Nat
  /-- The neighbor port of a session that has one. -/
  nport : Nat → Option U16

/-- The upper half of the counter. -/
def Host.upperPorts (h : Host) : Nat := (h.allocPorts >>> 16).toNat

/-- The critical sections of a session. -/
inductive PortStep where
  | takeLocal (i : Nat)
  | takeNeighbor (i : Nat)

/-- Sessions taking ports, in any order, while the upper half is at least 2000. -/
def portSystem : TransitionSystem PortState PortStep where
  init s := s.host.allocPorts = 0x2710ffff#32 ∧ (∀ i, s.lport i = none) ∧ ∀ i, s.nport i = none
  step s l t := 2000 ≤ t.host.upperPorts ∧
    match l with
    | .takeLocal i => s.lport i = none ∧
        t = { s with
              host := s.host.allocateLocalPort.2
              lport := Function.update s.lport i (some s.host.allocateLocalPort.1)
              upper := Function.update s.upper i s.host.allocateLocalPort.2.upperPorts }
    | .takeNeighbor i => s.lport i ≠ none ∧ s.nport i = none ∧
        t = { s with nport := Function.update s.nport i (some s.host.allocateNeighborPort) }

/-- A session takes its neighbor port while the upper half is what it left it at. -/
def UpperKept (s : PortState) : PortStep → Prop
  | .takeLocal _ => True
  | .takeNeighbor i => s.host.upperPorts = s.upper i

/-- Different sessions have different pairs, out of the ranges meant for them. -/
def PairsUnique (s : PortState) : Prop :=
  (∀ i p, s.lport i = some p → 10001 ≤ (ntohs p).toNat ∧ (ntohs p).toNat ≤ 65535) ∧
  (∀ i p, s.nport i = some p → 2000 ≤ (ntohs p).toNat ∧ (ntohs p).toNat ≤ 10000) ∧
  ∀ i j p n, s.lport i = some p → s.nport i = some n → s.lport j = some p → s.nport j = some n →
    i = j

/-! ## The counter -/

/-- The counter after `n` local ports have been taken. -/
structure CountsTo (h : Host) (n : Nat) : Prop where
  bound : n / portRound ≤ 8000
  value : h.allocPorts.toNat = (10000 - n / portRound) * 65536 + (65535 - n % portRound)

theorem CountsTo.upper {h : Host} {n : Nat} (hc : CountsTo h n) :
    h.upperPorts = 10000 - n / portRound := by
  have hb := hc.bound
  unfold Host.upperPorts
  rw [BitVec.toNat_ushiftRight, hc.value, Nat.shiftRight_eq_div_pow]
  omega

/-- Taking a local port: the number that is handed out, and the counter afterwards. -/
theorem CountsTo.takeLocal_value {h : Host} {n : Nat} (hc : CountsTo h n) :
    (ntohs h.allocateLocalPort.1).toNat = 65535 - n % portRound ∧
      h.allocateLocalPort.2.allocPorts.toNat =
        (10000 - (n + 1) / portRound) * 65536 + (65535 - (n + 1) % portRound) := by
  have hv := hc.value
  have hb := hc.bound
  have hmod : n % portRound < portRound := Nat.mod_lt _ (by decide)
  have hlow : ((h.allocPorts &&& 0xffff#32).setWidth 16 : U16).toNat = 65535 - n % portRound := by
    rw [BitVec.toNat_setWidth, BitVec.toNat_and]
    have hand : h.allocPorts.toNat &&& (0xffff#32).toNat = h.allocPorts.toNat % 2 ^ 16 :=
      Nat.and_two_pow_sub_one_eq_mod _ 16
    rw [hand, hv]
    unfold portRound at *
    omega
  have hsub : (h.allocPorts - 1#32).toNat = h.allocPorts.toNat - 1 := by
    rw [BitVec.toNat_sub_of_le (by rw [BitVec.le_def, hv, BitVec.toNat_ofNat]; omega)]
    rfl
  have h10001 : (10001#16).toNat = 10001 := rfl
  unfold Host.allocateLocalPort
  simp only [ntohs_htons]
  refine ⟨hlow, ?_⟩
  split
  · rename_i hlast
    -- the last port of the round: the upper half goes down
    rw [hlast, h10001] at hlow
    have hc : (10001#32).toNat = 10001 := rfl
    rw [BitVec.toNat_sub_of_le (by rw [BitVec.le_def, hsub, hv, hc]; omega), hsub, hc, hv]
    unfold portRound at *
    omega
  · rename_i hnot
    have hne : 65535 - n % portRound ≠ 10001 := by
      intro hc
      apply hnot
      apply BitVec.eq_of_toNat_eq
      rw [hlow, hc, h10001]
    rw [hsub, hv]
    unfold portRound at *
    omega

theorem CountsTo.takeLocal {h : Host} {n : Nat} (hc : CountsTo h n)
    (hb : (n + 1) / portRound ≤ 8000) : CountsTo h.allocateLocalPort.2 (n + 1) :=
  ⟨hb, hc.takeLocal_value.2⟩

/-- The upper half tells how many rounds are left. -/
theorem CountsTo.bound_takeLocal {h : Host} {n : Nat} (hc : CountsTo h n)
    (hupper : 2000 ≤ h.allocateLocalPort.2.upperPorts) : (n + 1) / portRound ≤ 8000 := by
  have hb := hc.bound
  unfold Host.upperPorts at hupper
  rw [BitVec.toNat_ushiftRight, hc.takeLocal_value.2, Nat.shiftRight_eq_div_pow] at hupper
  unfold portRound at *
  omega

/-- The neighbor port is the upper half. -/
theorem CountsTo.neighbor {h : Host} {n : Nat} (hc : CountsTo h n) :
    (ntohs h.allocateNeighborPort).toNat = h.upperPorts := by
  have hu := hc.upper
  have hb := hc.bound
  have hlt : h.upperPorts < 2 ^ 16 := by
    rw [hu]
    exact Nat.lt_of_le_of_lt (Nat.sub_le _ _) (by decide)
  unfold Host.allocateNeighborPort
  rw [ntohs_htons, BitVec.toNat_setWidth]
  exact Nat.mod_eq_of_lt hlt

/-! ## Runs that keep the upper half -/

/-- Sessions numbered by the order in which they took their local ports. -/
structure Numbered (s : PortState) (n : Nat) (num : Nat → Nat) : Prop where
  counter : CountsTo s.host n
  num_lt : ∀ i p, s.lport i = some p → num i < n
  num_inj : ∀ i j p p', s.lport i = some p → s.lport j = some p' → num i = num j → i = j
  lport : ∀ i p, s.lport i = some p → (ntohs p).toNat = 65535 - num i % portRound
  upper : ∀ i p, s.lport i = some p → s.upper i = 10000 - (num i + 1) / portRound
  nport : ∀ i p, s.nport i = some p → s.lport i ≠ none ∧ (ntohs p).toNat = s.upper i
  bound : ∀ i p, s.lport i = some p → (num i + 1) / portRound ≤ 8000

theorem Numbered.step {s t : PortState} {l : PortStep} {n : Nat} {num : Nat → Nat}
    (h : Numbered s n num) (hst : portSystem.step s l t) (hgood : UpperKept s l) :
    ∃ n' num', Numbered t n' num' := by
  obtain ⟨hupper, hst⟩ := hst
  cases l with
  | takeLocal i =>
    obtain ⟨hnone, rfl⟩ := hst
    have hport := h.counter.takeLocal_value.1
    have hb := h.counter.bound_takeLocal hupper
    have hcount := h.counter.takeLocal hb
    refine ⟨n + 1, Function.update num i n, ?_⟩
    -- session `i` gets the next number; the others keep theirs
    have hself : ∀ j p, Function.update s.lport i (some s.host.allocateLocalPort.1) j = some p →
        (j = i ∧ p = s.host.allocateLocalPort.1 ∧ Function.update num i n j = n) ∨
          (j ≠ i ∧ s.lport j = some p ∧ Function.update num i n j = num j) := by
      intro j p hj
      by_cases hji : j = i
      · subst hji
        rw [Function.update_self] at hj ⊢
        exact Or.inl ⟨rfl, (Option.some.inj hj).symm, rfl⟩
      · rw [Function.update_of_ne hji] at hj ⊢
        exact Or.inr ⟨hji, hj, rfl⟩
    constructor
    · exact hcount
    · intro j p hj
      rcases hself j p hj with ⟨-, -, hn⟩ | ⟨-, hold, hn⟩
      · omega
      · have := h.num_lt j p hold
        omega
    · intro j k p p' hj hk heq
      rcases hself j p hj with ⟨rfl, -, hn⟩ | ⟨-, hold, hn⟩ <;>
        rcases hself k p' hk with ⟨rfl, -, hn'⟩ | ⟨-, hold', hn'⟩
      · rfl
      · have := h.num_lt k p' hold'
        omega
      · have := h.num_lt j p hold
        omega
      · exact h.num_inj j k p p' hold hold' (by omega)
    · intro j p hj
      rcases hself j p hj with ⟨rfl, rfl, hn⟩ | ⟨-, hold, hn⟩
      · rw [hn, hport]
      · rw [hn, h.lport j p hold]
    · intro j p hj
      rcases hself j p hj with ⟨rfl, -, hn⟩ | ⟨hji, hold, hn⟩
      · simp only [Function.update_self]
        exact hcount.upper
      · simp only [Function.update_of_ne hji]
        exact h.upper j p hold
    · intro j p hj
      obtain ⟨hl, hp⟩ := h.nport j p hj
      have hji : j ≠ i := by
        rintro rfl
        exact hl hnone
      simp only [Function.update_of_ne hji]
      exact ⟨hl, hp⟩
    · intro j p hj
      rcases hself j p hj with ⟨-, -, hn⟩ | ⟨-, hold, hn⟩
      · rw [hn]
        exact hb
      · rw [hn]
        exact h.bound j p hold
  | takeNeighbor i =>
    obtain ⟨hl, hnone, rfl⟩ := hst
    refine ⟨n, num, h.counter, h.num_lt, h.num_inj, h.lport, h.upper, ?_, h.bound⟩
    intro j p hj
    by_cases hji : j = i
    · subst hji
      simp only [Function.update_self, Option.some.injEq] at hj
      rw [← hj, h.counter.neighbor]
      exact ⟨hl, hgood⟩
    · simp only [Function.update_of_ne hji] at hj
      exact h.nport j p hj

/-- Numbered sessions have different pairs: a pair determines the number. -/
theorem Numbered.unique {s : PortState} {n : Nat} {num : Nat → Nat} (h : Numbered s n num) :
    PairsUnique s := by
  refine ⟨?_, ?_, ?_⟩
  · intro i p hp
    have hmod : num i % portRound < portRound := Nat.mod_lt _ (by decide)
    rw [h.lport i p hp]
    unfold portRound at *
    omega
  · intro i p hp
    obtain ⟨hl, heq⟩ := h.nport i p hp
    obtain ⟨p', hp'⟩ := Option.ne_none_iff_exists'.mp hl
    have hu := h.upper i p' hp'
    have hb := h.bound i p' hp'
    rw [heq, hu]
    unfold portRound at *
    omega
  · intro i j p q hi hqi hj hqj
    apply h.num_inj i j p p hi hj
    have hmi := h.lport i p hi
    have hmj := h.lport j p hj
    have hui := h.upper i p hi
    have huj := h.upper j p hj
    have hbi := h.bound i p hi
    have hbj := h.bound j p hj
    have hni := (h.nport i q hqi).2
    have hnj := (h.nport j q hqj).2
    unfold portRound at *
    omega

/-- **Ports are unique** in every run in which each session takes its neighbor port while
the upper half of the counter is what its local port left. -/
theorem pairs_unique {s : PortState} (h : (portSystem.restrict UpperKept).Reachable s) :
    PairsUnique s := by
  have hinv : ∃ n num, Numbered s n num := by
    refine h.invariant (P := fun s => ∃ n num, Numbered s n num) ?_ ?_
    · rintro s ⟨hports, hl, hn⟩
      refine ⟨0, fun _ => 0, ⟨by decide, by rw [hports]; rfl⟩, ?_, ?_, ?_, ?_, ?_, ?_⟩
      · intro i p hp
        rw [hl i] at hp
        cases hp
      · intro i j p p' hp
        rw [hl i] at hp
        cases hp
      · intro i p hp
        rw [hl i] at hp
        cases hp
      · intro i p hp
        rw [hl i] at hp
        cases hp
      · intro i p hp
        rw [hn i] at hp
        cases hp
      · intro i p hp
        rw [hl i] at hp
        cases hp
    · rintro s l t ⟨n, num, hnum⟩ ⟨hst, hgood⟩
      exact hnum.step hst hgood
  obtain ⟨n, num, hnum⟩ := hinv
  exact hnum.unique

/-- A state before any session has taken a port. -/
def noPorts : PortState := ⟨Host.fresh, fun _ => none, fun _ => 0, fun _ => none⟩

/-- Session `i` takes its local port. -/
def PortState.takeLocal (s : PortState) (i : Nat) : PortState :=
  { s with
    host := s.host.allocateLocalPort.2
    lport := Function.update s.lport i (some s.host.allocateLocalPort.1)
    upper := Function.update s.upper i s.host.allocateLocalPort.2.upperPorts }

/-- Session `i` takes its neighbor port. -/
def PortState.takeNeighbor (s : PortState) (i : Nat) : PortState :=
  { s with nport := Function.update s.nport i (some s.host.allocateNeighborPort) }

section
variable (s : PortState) (i : Nat)

@[simp] theorem PortState.takeLocal_host : (s.takeLocal i).host = s.host.allocateLocalPort.2 := rfl

@[simp] theorem PortState.takeLocal_lport : (s.takeLocal i).lport =
    Function.update s.lport i (some s.host.allocateLocalPort.1) := rfl

@[simp] theorem PortState.takeLocal_upper : (s.takeLocal i).upper =
    Function.update s.upper i s.host.allocateLocalPort.2.upperPorts := rfl

@[simp] theorem PortState.takeLocal_nport : (s.takeLocal i).nport = s.nport := rfl

@[simp] theorem PortState.takeNeighbor_host : (s.takeNeighbor i).host = s.host := rfl

@[simp] theorem PortState.takeNeighbor_lport : (s.takeNeighbor i).lport = s.lport := rfl

@[simp] theorem PortState.takeNeighbor_upper : (s.takeNeighbor i).upper = s.upper := rfl

@[simp] theorem PortState.takeNeighbor_nport : (s.takeNeighbor i).nport =
    Function.update s.nport i (some s.host.allocateNeighborPort) := rfl

end

theorem noPorts_init : portSystem.init noPorts := ⟨rfl, fun _ => rfl, fun _ => rfl⟩

/-- The first `n` sessions have their local ports. -/
structure LocalsTaken (s : PortState) (n : Nat) : Prop where
  counter : CountsTo s.host n
  taken : ∀ i < n, ∃ p, s.lport i = some p ∧ (ntohs p).toNat = 65535 - i % portRound
  upper : ∀ i < n, s.upper i = 10000 - (i + 1) / portRound
  free : ∀ i, n ≤ i → s.lport i = none
  nport : ∀ i, s.nport i = none

/-- One session after the other takes its local port. -/
theorem reachable_locals (n : Nat) (hn : n ≤ portRound + 1) :
    ∃ s, (portSystem.restrict UpperKept).Reachable s ∧ LocalsTaken s n := by
  induction n with
  | zero =>
    exact ⟨noPorts, .of_init noPorts_init, ⟨by decide, rfl⟩,
      fun i hi => absurd hi (Nat.not_lt_zero i), fun i hi => absurd hi (Nat.not_lt_zero i),
      fun _ _ => rfl, fun _ => rfl⟩
  | succ n ih =>
    obtain ⟨s, hs, L⟩ := ih (by omega)
    have hb : (n + 1) / portRound ≤ 8000 := by
      unfold portRound at *
      omega
    have hcount := L.counter.takeLocal hb
    refine ⟨s.takeLocal n,
      hs.tail (l := .takeLocal n) ⟨⟨?_, L.free n (Nat.le_refl n), rfl⟩, trivial⟩, ?_⟩
    · refine Nat.le_trans ?_ (Nat.le_of_eq hcount.upper.symm)
      omega
    · refine ⟨hcount, ?_, ?_, ?_, L.nport⟩
      · intro i hi
        by_cases hin : i = n
        · subst hin
          exact ⟨_, Function.update_self .., L.counter.takeLocal_value.1⟩
        · obtain ⟨p, hp, hv⟩ := L.taken i (by omega)
          exact ⟨p, by rw [← hp]; exact Function.update_of_ne hin .., hv⟩
      · intro i hi
        by_cases hin : i = n
        · subst hin
          exact (Function.update_self ..).trans hcount.upper
        · rw [← L.upper i (by omega)]
          exact Function.update_of_ne hin ..
      · intro i hi
        rw [← L.free i (by omega)]
        exact Function.update_of_ne (by omega) ..

/-- Around the borrow: all sessions of the first round but one have their local ports, session 0
takes its neighbor port, the last session of the round makes the counter borrow, and the next
one gets the local port of session 0 again.  Both take their neighbor ports after that, in the
other order. -/
theorem pairs_unique_aroundBorrow : ∃ s p n n',
    (portSystem.restrict UpperKept).Reachable s ∧
    (s.lport 0 = some p ∧ s.nport 0 = some n) ∧
    (s.lport portRound = some p ∧ s.nport portRound = some n') ∧
    (s.lport (portRound - 1) ≠ none ∧ s.nport (portRound - 1) = some n') ∧ PairsUnique s := by
  obtain ⟨s, hs, L⟩ := reachable_locals (portRound - 1) (by decide)
  obtain ⟨p, hp, hpv⟩ := L.taken 0 (by decide)
  have h0 : (0 : Nat) ≠ portRound - 1 := by decide
  have h1 : (0 : Nat) ≠ portRound := by decide
  have h2 : portRound - 1 ≠ portRound := by decide
  have hup : s.host.upperPorts = 10000 := L.counter.upper
  -- the counter before and after the borrow
  have hlast : CountsTo s.host.allocateLocalPort.2 portRound := L.counter.takeLocal (by decide)
  have hnext : CountsTo s.host.allocateLocalPort.2.allocateLocalPort.2 (portRound + 1) :=
    hlast.takeLocal (by decide)
  have hpp : s.host.allocateLocalPort.2.allocateLocalPort.1 = p := by
    have heq : ntohs s.host.allocateLocalPort.2.allocateLocalPort.1 = ntohs p :=
      BitVec.eq_of_toNat_eq (by rw [hpv, hlast.takeLocal_value.1]; decide)
    rw [← htons_ntohs p, ← heq, htons_ntohs]
  have r1 : (portSystem.restrict UpperKept).Reachable (s.takeNeighbor 0) :=
    hs.tail (l := .takeNeighbor 0)
      ⟨⟨by simp [hup], by simp [hp], L.nport 0, rfl⟩, hup.trans (L.upper 0 (by decide)).symm⟩
  have r2 : (portSystem.restrict UpperKept).Reachable
      ((s.takeNeighbor 0).takeLocal (portRound - 1)) :=
    r1.tail (l := .takeLocal (portRound - 1))
      ⟨⟨le_of_le_of_eq (by decide) hlast.upper.symm, L.free _ (Nat.le_refl _), rfl⟩, trivial⟩
  have r3 : (portSystem.restrict UpperKept).Reachable
      (((s.takeNeighbor 0).takeLocal (portRound - 1)).takeLocal portRound) :=
    r2.tail (l := .takeLocal portRound)
      ⟨⟨le_of_le_of_eq (by decide) hnext.upper.symm, by simp [h2.symm, L.free], rfl⟩, trivial⟩
  generalize hst : ((s.takeNeighbor 0).takeLocal (portRound - 1)).takeLocal portRound = t at r3
  have hhost : t.host.upperPorts = 9999 := by
    rw [← hst]
    exact hnext.upper
  have hl0 : t.lport 0 = some p := by simp [← hst, h0, h1, hp]
  have hl1 : t.lport (portRound - 1) ≠ none := by simp [← hst, h2]
  have hl2 : t.lport portRound = some p := by simp [← hst, hpp]
  have hu1 : t.upper (portRound - 1) = 9999 := by
    refine Eq.trans ?_ hlast.upper
    simp [← hst, h2]
  have hu2 : t.upper portRound = 9999 := by
    refine Eq.trans ?_ hnext.upper
    simp [← hst]
  have hn0 : t.nport 0 = some s.host.allocateNeighborPort := by simp [← hst]
  have hnone : ∀ i, i ≠ 0 → t.nport i = none := by
    intro i hi
    simp [← hst, hi, L.nport]
  have hkept : 2000 ≤ t.host.upperPorts := by rw [hhost]; decide
  have r4 : (portSystem.restrict UpperKept).Reachable (t.takeNeighbor portRound) :=
    r3.tail (l := .takeNeighbor portRound)
      ⟨⟨hkept, by simp [hl2], hnone _ h1.symm, rfl⟩, hhost.trans hu2.symm⟩
  have r5 : (portSystem.restrict UpperKept).Reachable
      ((t.takeNeighbor portRound).takeNeighbor (portRound - 1)) :=
    r4.tail (l := .takeNeighbor (portRound - 1))
      ⟨⟨hkept, hl1, by simp [h2, hnone _ h0.symm], rfl⟩, hhost.trans hu1.symm⟩
  refine ⟨_, p, s.host.allocateNeighborPort, t.host.allocateNeighborPort, r5, ⟨hl0, ?_⟩,
    ⟨hl2, ?_⟩, ⟨hl1, ?_⟩, pairs_unique r5⟩
  · simp [h0, h1, hn0]
  · simp [h2.symm]
  · simp

/-- Session 0 waits between its two critical sections until the lower half of the counter has
gone round once; then it and session 55535 get the same pair. -/
theorem pairs_clash : ∃ s, portSystem.Reachable s ∧ ¬ PairsUnique s := by
  obtain ⟨s, hkept, L⟩ := reachable_locals (portRound + 1) (Nat.le_refl _)
  have hs := hkept.of_restrict
  obtain ⟨p, hp, hpv⟩ := L.taken 0 (by decide)
  obtain ⟨p', hp', hpv'⟩ := L.taken portRound (by decide)
  -- both got the same local port
  have hpp : p' = p := by
    have heq : ntohs p' = ntohs p := BitVec.eq_of_toNat_eq (by rw [hpv, hpv']; decide)
    rw [← htons_ntohs p', heq, htons_ntohs]
  have hupper : 2000 ≤ s.host.upperPorts := by
    rw [L.counter.upper]
    decide
  have h0 : portSystem.Reachable (s.takeNeighbor 0) :=
    hs.tail (l := .takeNeighbor 0) ⟨hupper, by rw [hp]; simp, L.nport 0, rfl⟩
  have h1 : portSystem.Reachable ((s.takeNeighbor 0).takeNeighbor portRound) := by
    refine h0.tail (l := .takeNeighbor portRound) ⟨hupper, ?_, ?_, rfl⟩
    · simp [PortState.takeNeighbor, hp']
    · have hne : portRound ≠ 0 := by decide
      simp only [PortState.takeNeighbor, Function.update_of_ne hne]
      exact L.nport portRound
  refine ⟨_, h1, fun hun => ?_⟩
  have hne : (0 : Nat) ≠ portRound := by decide
  apply hne
  refine hun.2.2 0 portRound p s.host.allocateNeighborPort hp ?_ ?_ ?_
  · simp [PortState.takeNeighbor, hne]
  · rw [← hpp]
    exact hp'
  · simp [PortState.takeNeighbor]

end Dysco
