import Dysco.OnesComplement

/-! # The Internet checksum

The checksum of a sequence of 16-bit words is the complement of their
one's-complement sum, taken 16 bits at a time.  The checksum is `0xFFFF` for the all-zero
sequence only, so its residue determines it otherwise (`eq_internetChecksum`).
-/
namespace OnesComplement

/-- Addition of 16-bit words with the carry added back in at the bottom. -/
def addc16 (a b : BitVec 16) : BitVec 16 :=
  a + b + if a + b < b then 1#16 else 0#16

/-- The one's-complement sum of a sequence of words. -/
def onesSum (ws : List (BitVec 16)) : BitVec 16 := ws.foldl addc16 0#16

/-- The Internet checksum of a sequence of words. -/
def internetChecksum (ws : List (BitVec 16)) : BitVec 16 := ~~~onesSum ws

theorem toNat_addc16 (a b : BitVec 16) :
    (addc16 a b).toNat =
      if a.toNat + b.toNat < 65536 then a.toNat + b.toNat else a.toNat + b.toNat - 65535 := by
  have ha := a.isLt
  have hb := b.isLt
  have hsum : (a + b).toNat = (a.toNat + b.toNat) % 65536 := BitVec.toNat_add a b
  rw [addc16]
  by_cases hc : a.toNat + b.toNat < 65536
  · have hlt : ¬ a + b < b := by
      rw [BitVec.lt_def, hsum]
      omega
    rw [if_neg hlt, if_pos hc, BitVec.toNat_add, hsum, BitVec.toNat_ofNat]
    omega
  · have hlt : a + b < b := by
      rw [BitVec.lt_def, hsum]
      omega
    rw [if_pos hlt, if_neg hc, BitVec.toNat_add, hsum, BitVec.toNat_ofNat]
    omega

theorem residue_addc16 (a b : BitVec 16) : residue (addc16 a b) = residue a + residue b := by
  rw [residue, residue, residue, ← Nat.cast_add]
  apply cast_eq_of_mod
  rw [toNat_addc16]
  split <;> omega

theorem addc16_eq_zero {a b : BitVec 16} : addc16 a b = 0#16 ↔ a = 0#16 ∧ b = 0#16 := by
  simp only [← BitVec.toNat_inj, BitVec.toNat_zero, toNat_addc16]
  have ha := a.isLt
  have hb := b.isLt
  split <;> omega

theorem residue_foldl_addc16 (ws : List (BitVec 16)) (s : BitVec 16) :
    residue (ws.foldl addc16 s) = residue s + (ws.map residue).sum := by
  induction ws generalizing s with
  | nil => simp
  | cons w ws ih =>
    rw [List.foldl_cons, ih, residue_addc16, List.map_cons, List.sum_cons, add_assoc]

/-- **The residue of a sum is the sum of the residues.** -/
theorem residue_onesSum (ws : List (BitVec 16)) :
    residue (onesSum ws) = (ws.map residue).sum := by
  rw [onesSum, residue_foldl_addc16, residue_zero, zero_add]

theorem foldl_addc16_eq_zero {ws : List (BitVec 16)} {s : BitVec 16} :
    ws.foldl addc16 s = 0#16 ↔ s = 0#16 ∧ ∀ w ∈ ws, w = 0#16 := by
  induction ws generalizing s with
  | nil => simp
  | cons w ws ih =>
    rw [List.foldl_cons, ih, addc16_eq_zero, List.forall_mem_cons, and_assoc]

/-- A sum is zero only if every word is. -/
theorem onesSum_eq_zero {ws : List (BitVec 16)} : onesSum ws = 0#16 ↔ ∀ w ∈ ws, w = 0#16 := by
  rw [onesSum, foldl_addc16_eq_zero]
  exact and_iff_right rfl

theorem onesSum_ne_zero {ws : List (BitVec 16)} (h : ∃ w ∈ ws, w ≠ 0#16) :
    onesSum ws ≠ 0#16 := by
  intro hz
  obtain ⟨w, hw, hne⟩ := h
  exact hne (onesSum_eq_zero.mp hz w hw)

theorem residue_internetChecksum (ws : List (BitVec 16)) :
    residue (internetChecksum ws) = -(ws.map residue).sum := by
  rw [internetChecksum, residue_not16, residue_onesSum]

/-- **The residue picks the checksum**, since neither is `0xFFFF`. -/
theorem eq_internetChecksum {ws : List (BitVec 16)} (hws : ∃ w ∈ ws, w ≠ 0#16)
    {c : BitVec 16} (hc : c ≠ 0xffff#16) (hres : residue c = -(ws.map residue).sum) :
    c = internetChecksum ws := by
  refine eq_of_residue hc (fun h => onesSum_ne_zero hws (not_eq_ffff.mp h)) ?_
  rw [hres, residue_internetChecksum]

/-! ## Folds lose no carry -/

/-- The two steps of folding 64 bits into 32 do not overflow: the first sum is below
`2 ^ 33`, the second below `2 ^ 32`. -/
theorem fold64_steps (x : BitVec 64) :
    let y := (x &&& 0xffffffff#64) + (x >>> 32)
    let z := (y &&& 0xffffffff#64) + (y >>> 32)
    y.toNat = x.toNat % 4294967296 + x.toNat / 4294967296 ∧
    z.toNat = y.toNat % 4294967296 + y.toNat / 4294967296 ∧
    z.toNat < 4294967296 ∧ fold64 x = z.setWidth 32 := by
  intro y z
  have hx := x.isLt
  have hy : y.toNat = x.toNat % 4294967296 + x.toNat / 4294967296 := by
    rw [BitVec.toNat_add, toNat_low32, toNat_high32]
    omega
  have hz : z.toNat = y.toNat % 4294967296 + y.toNat / 4294967296 := by
    rw [BitVec.toNat_add, toNat_low32, toNat_high32]
    omega
  exact ⟨hy, hz, by omega, rfl⟩

/-- Nor do the two steps of folding 32 bits into 16. -/
theorem fold_steps (x : BitVec 32) :
    let y := (x &&& 0xffff#32) + (x >>> 16)
    let z := (y &&& 0xffff#32) + (y >>> 16)
    y.toNat = x.toNat % 65536 + x.toNat / 65536 ∧
    z.toNat = y.toNat % 65536 + y.toNat / 65536 ∧
    z.toNat < 65536 ∧ fold x = z.setWidth 16 := by
  intro y z
  have hx := x.isLt
  have hy : y.toNat = x.toNat % 65536 + x.toNat / 65536 := by
    rw [BitVec.toNat_add, toNat_low16, toNat_high16]
    omega
  have hz : z.toNat = y.toNat % 65536 + y.toNat / 65536 := by
    rw [BitVec.toNat_add, toNat_low16, toNat_high16]
    omega
  exact ⟨hy, hz, by omega, rfl⟩

end OnesComplement
