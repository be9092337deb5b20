import Mathlib.Data.BitVec

/-! # Serial number arithmetic

Sequence numbers of `w` bits wrap around, so two of them are compared through
the sign of their difference.  A stream position `n`, counted from an initial
number `iss`, is sent as `pos iss n`; as long as two positions are less than
half the number space apart, comparing their serial numbers compares the
positions (`before_pos`, `after_pos`).
-/
namespace SerialNumber
variable {w : Nat}

/-- `a` comes before `b`: the signed difference `a - b` is negative. -/
def before (a b : BitVec w) : Bool := (a - b).msb

/-- `a` comes after `b`. -/
def after (a b : BitVec w) : Bool := before b a

/-- The serial number of stream position `n`. -/
def pos (iss : BitVec w) (n : Nat) : BitVec w := iss + BitVec.ofNat w n

@[simp] theorem pos_zero (iss : BitVec w) : pos iss 0 = iss := by
  simp [pos]

theorem pos_add (iss : BitVec w) (m n : Nat) :
    pos iss (m + n) = pos iss m + BitVec.ofNat w n := by
  simp only [pos, BitVec.ofNat_add, BitVec.add_assoc]

theorem pos_sub_pos (iss : BitVec w) (p q : Nat) :
    pos iss p - pos iss q = BitVec.ofNat w p - BitVec.ofNat w q := by
  unfold pos
  rw [add_sub_add_left_eq_sub]

/-- A difference that does not wrap is read off as it is. -/
theorem ofNat_sub_ofNat_of_le {p q : Nat} (h : q ≤ p) :
    BitVec.ofNat w p - BitVec.ofNat w q = BitVec.ofNat w (p - q) := by
  obtain ⟨d, rfl⟩ := Nat.exists_eq_add_of_le h
  rw [BitVec.ofNat_add, Nat.add_sub_cancel_left, BitVec.add_comm, BitVec.add_sub_cancel]

/-- A small non-negative difference has its sign bit clear. -/
theorem msb_ofNat_of_lt {d : Nat} (hd : d < 2 ^ (w - 1)) : (BitVec.ofNat w d).msb = false := by
  rw [BitVec.msb_eq_decide, decide_eq_false_iff_not, BitVec.toNat_ofNat]
  exact Nat.not_le_of_lt (Nat.lt_of_le_of_lt (Nat.mod_le _ _) hd)

/-- A small negative difference has its sign bit set. -/
theorem msb_neg_ofNat {d : Nat} (hpos : 0 < d) (hd : d ≤ 2 ^ (w - 1)) (hw : 0 < w) :
    (-BitVec.ofNat w d).msb = true := by
  have hpow : 2 ^ w = 2 * 2 ^ (w - 1) := by
    rw [← Nat.pow_succ', Nat.succ_eq_add_one, Nat.sub_add_cancel hw]
  have hlt : d < 2 ^ w := by omega
  rw [BitVec.msb_eq_decide, decide_eq_true_eq, BitVec.toNat_neg, BitVec.toNat_ofNat,
    Nat.mod_eq_of_lt hlt, Nat.mod_eq_of_lt (by omega)]
  omega

/-- **Comparing serial numbers compares positions**, as long as the positions are
less than half the number space apart. -/
theorem before_pos (hw : 0 < w) (iss : BitVec w) {p q : Nat} (hpq : p < q + 2 ^ (w - 1))
    (hqp : q < p + 2 ^ (w - 1)) : before (pos iss p) (pos iss q) = decide (p < q) := by
  unfold before
  rw [pos_sub_pos]
  rcases Nat.lt_or_ge p q with hlt | hge
  · rw [decide_eq_true hlt, ← neg_sub, ofNat_sub_ofNat_of_le (Nat.le_of_lt hlt)]
    exact msb_neg_ofNat (by omega) (by omega) hw
  · rw [decide_eq_false (Nat.not_lt_of_ge hge), ofNat_sub_ofNat_of_le hge]
    exact msb_ofNat_of_lt (by omega)

theorem after_pos (hw : 0 < w) (iss : BitVec w) {p q : Nat} (hpq : p < q + 2 ^ (w - 1))
    (hqp : q < p + 2 ^ (w - 1)) : after (pos iss p) (pos iss q) = decide (q < p) :=
  before_pos hw iss hqp hpq

/-- A number is neither before nor after itself. -/
@[simp] theorem before_self (a : BitVec w) : before a a = false := by
  unfold before
  rw [BitVec.sub_self]
  exact BitVec.msb_zero

@[simp] theorem after_self (a : BitVec w) : after a a = false := before_self a

end SerialNumber
