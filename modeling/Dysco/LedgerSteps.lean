import Dysco.Ledger
import Dysco.SynPayload

/-! # Who holds a block: the functions of the module

What each function that makes, connects or moves blocks does to the roles.
-/
namespace Dysco

variable {E A : Env} {h g : Host} {p q r a s old : Nat} {ρ : Nat → Option Role} {skb : SkBuff}

/-! ## Writes -/

/-- A write that has nothing to do with who holds what. -/
structure CbOut.SameHold (d d' : CbOut) : Prop where
  sc : d'.sc = d.sc
  freeSc : d'.freeSc = d.freeSc
  otherPath : d'.otherPath = d.otherPath

theorem CbOut.SameHold.trans {d d' d'' : CbOut} (h1 : d.SameHold d') (h2 : d'.SameHold d'') :
    d.SameHold d'' :=
  ⟨h2.sc.trans h1.sc, h2.freeSc.trans h1.freeSc, h2.otherPath.trans h1.otherPath⟩

theorem CbOut.sameHold_parse (skb : SkBuff) (d : CbOut) : d.SameHold (parseTcpSynOptS skb d) := by
  rw [parseTcpSynOptS_eq]
  exact ⟨rfl, rfl, rfl⟩

theorem CbOut.sameHold_synAckIn (d : CbOut) (skb : SkBuff) (i : CbIn) :
    d.SameHold (d.synAckIn skb i) := by
  rw [CbOut.synAckIn]
  generalize ntohl skb.ackSeq - 1#32 = a
  generalize ntohl skb.seq = s
  split <;> split <;> exact ⟨rfl, rfl, rfl⟩

namespace Ledger

/-- A write to a block that is not pending. -/
theorem setOut_same (hp : Ledger E h ρ) (hrole : ρ p ≠ some .pen) {d : CbOut}
    (hd : (h.outMem p).SameHold d) : Ledger E (h.setOut p d) ρ :=
  hp.setOut hd.sc hd.freeSc hd.otherPath fun hpen => absurd hpen hrole

/-- A write to any block that does not change its keys either. -/
theorem setOut_keyed (hp : Ledger E h ρ) {d : CbOut} (hd : (h.outMem p).SameHold d)
    (hsuper : d.super = (h.outMem p).super) (htag : d.dyscoTag = (h.outMem p).dyscoTag) :
    Ledger E (h.setOut p d) ρ :=
  hp.setOut hd.sc hd.freeSc hd.otherPath fun _ => ⟨by rw [hsuper], by rw [htag]⟩

/-- The roles once an output block was zeroed. -/
theorem kzallocOut (hp : Ledger E h ρ) (hoom : h.oom h.brk = false) :
    Ledger E (h.bump.setOut h.brk default) (Function.update ρ h.brk (some .bare)) := by
  have hraw := hp.alloc hoom
  have hself : Function.update ρ h.brk (some .raw) h.brk = some .raw := Function.update_self ..
  have hset := hraw.setOut_raw hself default
  have hbare := hset.swap (Or.inr rfl) (Or.inl hself)
    (by rw [Host.setOut_outMem_self]; rfl)
  rwa [Function.update_idem] at hbare

end Ledger

/-! ## Making blocks -/

/-- What a function that makes blocks leaves to its caller: the blocks that were there have the
roles that they had, and hold what they held. -/
structure Beside (h g : Host) (ρ ρ' : Nat → Option Role) : Prop where
  brk : h.brk ≤ g.brk
  role : ∀ x < h.brk, ρ' x = ρ x
  hold : ∀ x < h.brk, (h.outMem x).SameHold (g.outMem x)
  finished : Finished ρ ρ'

theorem CbOut.SameHold.rfl {d : CbOut} : d.SameHold d := ⟨Eq.refl _, Eq.refl _, Eq.refl _⟩

theorem Host.sameHold_setOut (h : Host) {d : CbOut} (hd : (h.outMem p).SameHold d) (x : Nat) :
    (h.outMem x).SameHold ((h.setOut p d).outMem x) := by
  by_cases hx : x = p
  · subst hx
    rwa [Host.setOut_outMem_self]
  · rw [Host.setOut_outMem_of_ne h hx]
    exact .rfl

theorem insertCbOutReverse_ledger (hp : Ledger E h ρ) {two : Bool} {o : Option Nat}
    (hi : insertCbOutReverse E h p two = (o, g)) :
    ∃ ρ', Ledger E g ρ' ∧ Beside h g ρ ρ' ∧
      ∀ x old, ρ' x = some (.other old) → ρ x = some (.other old) := by
  rw [insertCbOutReverse, kzallocIn_eq] at hi
  cases hoom : h.oom h.brk with
  | true =>
    rw [if_pos hoom] at hi
    cases hi
    exact ⟨ρ, hp.bump hoom, ⟨Nat.le_succ _, fun _ _ => rfl, fun _ _ => .rfl, .refl ρ⟩,
      fun _ _ => id⟩
  | false =>
    rw [if_neg (Bool.eq_false_iff.mp hoom)] at hi
    cases hi
    have hnew := ((hp.alloc hoom).setIn h.brk default).setIn h.brk
      (((h.bump.setIn h.brk default).outMem p).reverseIn p two)
    have hlink := hnew.setOut_keyed (p := p)
      (d := ((h.bump.setIn h.brk default).outMem p).withDcbIn (some h.brk)) ⟨rfl, rfl, rfl⟩ rfl rfl
    have hfiled := hlink.insertIn (Function.update_self ..)
    rw [Function.update_idem] at hfiled
    refine ⟨_, hfiled, ⟨Nat.le_succ _, fun x hx => Function.update_of_ne (Nat.ne_of_lt hx) ..,
      fun x _ => ?_, .update (.refl _) (by simp)⟩, fun x old hx => ?_⟩
    · exact h.sameHold_setOut (p := p) (d := (h.outMem p).withDcbIn (some h.brk)) ⟨rfl, rfl, rfl⟩ x
    · rw [Function.update_apply] at hx
      grind

/-- The two blocks of a session. -/
theorem insertCbOut_ledger (hp : Ledger E h ρ) (hrole : ρ p = some .bare)
    (hpath : (h.outMem p).otherPath = none) :
    ∃ ρ', Ledger E (insertCbOut E h p false) ρ' ∧ ρ' p = some .out ∧ Finished ρ ρ' := by
  have hout := hp.insertOut hrole hpath
  have hlt := hp.lt p (by rw [hrole]; rintro ⟨⟩)
  rw [insertCbOut]
  cases hi : insertCbOutReverse E (h.insertOut E p) p false with
  | mk o g =>
    obtain ⟨ρ', hg, hb, -⟩ := insertCbOutReverse_ledger hout hi
    have hrole' : ρ' p = some .out := (hb.role p hlt).trans (Function.update_self ..)
    have hfiled : Finished ρ (Function.update ρ p (some .out)) := .update (.refl _) (by simp)
    exact ⟨ρ', hg.setOut_keyed ⟨rfl, rfl, rfl⟩ rfl rfl, hrole', hfiled.trans hb.finished⟩

/-! ## The output path -/

theorem createCbOut_ledger (hp : Ledger E h ρ) {sc : Nat} {o : Option Nat}
    (hc : createCbOut E h skb sc = (o, g)) : ∃ ρ', Ledger E g ρ' ∧
      (∀ p, o = some p → ρ' p = some .bare ∧ (g.outMem p).otherPath = none) ∧
      ∀ x, Making ρ' x → o = some x ∨ Making ρ x := by
  rw [createCbOut, kzallocOut_eq] at hc
  cases hoom : h.oom h.brk with
  | true =>
    rw [if_pos hoom] at hc
    cases hc
    exact ⟨ρ, hp.bump hoom, fun _ hn => (by cases hn), fun _ => Or.inr⟩
  | false =>
    rw [if_neg (Bool.eq_false_iff.mp hoom)] at hc
    simp only at hc
    have hbare := hp.kzallocOut hoom
    have hself : Function.update ρ h.brk (some .bare) h.brk = some .bare := Function.update_self ..
    have hzero : ((h.bump.setOut h.brk default).outMem h.brk).freeSc = false := by
      rw [Host.setOut_outMem_self]
      rfl
    have hmade : ∀ ρ'', Finished (Function.update ρ h.brk (some .bare)) ρ'' →
        ¬ Making ρ'' h.brk → Finished ρ ρ'' := fun _ => Finished.made
    have hbegun : ∀ x, Making (Function.update ρ h.brk (some .bare)) x → some h.brk = some x ∨
        Making ρ x := by
      intro x hx
      by_cases hxb : x = h.brk
      · exact Or.inl (by rw [hxb])
      · exact Or.inr (by rwa [Making, Function.update_of_ne hxb] at hx)
    generalize Function.update ρ h.brk (some Role.bare) = ρ' at hbare hself hmade hbegun
    split at hc
    · cases hc
      have hset := hbare.setOut_bare (d := { (h.bump.setOut h.brk default).outMem h.brk with
        sc := some sc, super := skb.session }) hself hzero hzero
      have hraw := hset.swap (Or.inl rfl) (Or.inr hself)
        (by rw [Host.setOut_outMem_self]; exact hzero)
      refine ⟨_, hraw.free (Function.update_self ..), fun _ hn => (by cases hn),
        fun x hx => Or.inr (hmade _ ?_ ?_ x hx)⟩
      · rw [Function.update_idem]
        exact .update (.refl _) (by simp)
      · exact not_making_none (Function.update_self ..)
    · cases hc
      refine ⟨ρ', hbare.allocateLocalPort.setOut_bare hself hzero hzero, fun p hp => ?_, hbegun⟩
      cases hp
      refine ⟨hself, ?_⟩
      rw [Host.setOut_outMem_self, arp, Host.setOut_outMem_self]
      rfl

theorem outSynWith_ledger (hp : Ledger E h ρ) (hrole : ρ p = some .out) (skb : SkBuff) :
    Ledger E (outSynWith E h skb p).1 ρ := by
  have hrole : ρ p ≠ some .pen := by rw [hrole]; exact nofun
  rw [outSynWith]
  generalize hd0 : { h.outMem p with seqCutoff := ntohl skb.seq } = d0
  have hk0 : (h.outMem p).SameHold d0 := by rw [← hd0]; exact ⟨rfl, rfl, rfl⟩
  have hk1 := hk0.trans (CbOut.sameHold_parse skb d0)
  generalize parseTcpSynOptS skb d0 = d1 at hk1 ⊢
  have hp1 := hp.setOut_same hrole hk1
  simp only
  split
  · split
    · exact hp1
    · exact (hp1.setOut_same hrole (by rw [Host.setOut_outMem_self]; exact ⟨rfl, rfl, rfl⟩)).setIn
        _ _
  · refine hp1.setOut_same hrole ?_
    rw [Host.setOut_outMem_self]
    split <;> exact ⟨rfl, rfl, rfl⟩

theorem outSyn_ledger (hp : Ledger E h ρ) (skb : SkBuff) (o : Option Nat)
    (ho : ∀ p, o = some p → ρ p = some .out) :
    ∃ ρ', Ledger E (outSyn E h skb o).1 ρ' ∧ Finished ρ ρ' := by
  cases o with
  | some p => exact ⟨ρ, outSynWith_ledger hp (ho p rfl) skb, .refl ρ⟩
  | none =>
    simp only [outSyn]
    cases matchPolicy h skb with
    | none => exact ⟨ρ, hp, .refl ρ⟩
    | some sc =>
      cases hc : createCbOut E h skb sc with
      | mk o g =>
        obtain ⟨ρ1, hp1, hbare, hbegun⟩ := createCbOut_ledger hp hc
        simp only [hc]
        cases o with
        | none => exact ⟨ρ1, hp1, fun x hx => (hbegun x hx).resolve_left (by rintro ⟨⟩)⟩
        | some p =>
          obtain ⟨hrole, hpath⟩ := hbare p rfl
          obtain ⟨ρ2, hp2, hout, hfin⟩ := insertCbOut_ledger hp1 hrole hpath
          refine ⟨ρ2, outSynWith_ledger hp2 hout skb, fun x hx =>
            (hbegun x (hfin x hx)).resolve_left ?_⟩
          rintro ⟨⟩
          exact not_making hout (by simp) hx

/-- The block found by its tag keeps it. -/
theorem lookupPenTag_ledger (hp : Ledger E h ρ) {o : Option Nat}
    (hl : lookupPenTag E h skb = (o, g)) : Ledger E g ρ ∧
      ∀ p, o = some p → ρ p = some .pen ∧ (g.outMem p).super = (h.outMem p).super := by
  rw [lookupPenTag, lookupPenTagBy] at hl
  simp only at hl
  split at hl
  · split at hl
    · cases hl
      exact ⟨hp, fun _ hn => by cases hn⟩
    · rename_i p hfound
      cases hl
      obtain ⟨hheld, hkey⟩ := BucketTable.lookup_eq_some hfound
      refine ⟨hp.setOut_keyed ⟨rfl, rfl, rfl⟩ rfl hkey.symm, fun x hx => ?_⟩
      cases hx
      refine ⟨(hp.tag p).mp hheld, ?_⟩
      rw [Host.setOut_outMem_self]
  · cases hl
    exact ⟨hp, fun _ hn => by cases hn⟩

/-- A pending SYN leaves the middlebox. -/
theorem outHandleMb_ledger (hp : Ledger E h ρ) (hrole : ρ p = some .pen) (skb : SkBuff) :
    ∃ ρ', Ledger E (outHandleMb E h skb p).1 ρ' ∧ Finished ρ ρ' := by
  rw [outHandleMb]
  simp only
  generalize hd : parseTcpSynOptS skb _ = d
  have hk : (h.outMem p).SameHold d := by
    rw [← hd]
    refine .trans ?_ (CbOut.sameHold_parse skb _)
    split <;> exact ⟨rfl, rfl, rfl⟩
  have hbare := (hp.removePending hrole).allocateLocalPort
  have hself : Function.update ρ p (some .bare) p = some .bare := Function.update_self ..
  have hset := hbare.setOut_same (p := p) (d := d) (by rw [hself]; rintro ⟨⟩) hk
  obtain ⟨ρ', hmade, hout, hfin⟩ := insertCbOut_ledger hset hself (by
    rw [Host.setOut_outMem_self, hk.otherPath]
    exact hp.pen_other p hrole)
  exact ⟨ρ', hmade, hfin.made (not_making hout (by simp))⟩

/-- A SYN that a middlebox sends with another five-tuple, and that is told by its tag, falls into
the bucket where its block is pending. -/
def SameBucket (E : Env) (h : Host) (skb : SkBuff) : Prop :=
  h.lookupOut E skb.session = none → h.lookupPen E skb.session = none →
    ∀ p, (lookupPenTag E h skb).1 = some p →
      E.penHash skb.session = E.penHash (h.outMem p).super

theorem outTranslate_ledger (hp : Ledger E h ρ) (skb : SkBuff) (p : Nat) :
    Ledger E (outTranslate E h skb p).1 ρ := by
  obtain ⟨m, hm⟩ := outTranslate_marks E h skb p
  rw [hm]
  exact hp.setOut_keyed ⟨rfl, rfl, rfl⟩ rfl rfl

/-- **A TCP packet leaves the host.** -/
theorem output_ledger (hp : Ledger E h ρ) (hb : SameBucket E h skb) :
    ∃ ρ', Ledger E (output E h skb).1 ρ' ∧ Finished ρ ρ' := by
  rw [output_unfold]
  split
  · exact ⟨ρ, hp, .refl ρ⟩
  · split
    · exact ⟨ρ, hp, .refl ρ⟩
    · split
      · rename_i p hfound
        have hrole := (hp.out p).mp (h.lookupOut_eq_some hfound).1
        rw [outputWith]
        split
        · exact outSyn_ledger hp skb (some p) fun x hx => by
            cases hx
            exact hrole
        · exact ⟨ρ, outTranslate_ledger hp _ p, .refl ρ⟩
      · rename_i hout
        split
        · rename_i p hpen
          exact outHandleMb_ledger hp ((hp.pen p).mp (BucketTable.lookup_eq_some hpen).1) skb
        · rename_i hpen
          cases hl : lookupPenTag E h skb with
          | mk o g =>
            obtain ⟨hp1, hpend⟩ := lookupPenTag_ledger hp hl
            cases o with
            | none =>
              simp only
              split
              · exact outSyn_ledger hp1 skb none fun _ hn => by cases hn
              · exact ⟨ρ, hp1, .refl ρ⟩
            | some p =>
              obtain ⟨hrole, hsuper⟩ := hpend p rfl
              have hkey := hb hout hpen p (by rw [hl])
              have htuple : Ledger E (updateFiveTuple g skb p) ρ :=
                hp1.setOut rfl rfl rfl fun _ => ⟨by rw [hsuper]; exact hkey, rfl⟩
              exact outHandleMb_ledger htuple hrole skb

/-! ## The input path -/

/-- All pending blocks are in the bucket of `dysco_hash_pen` that a session belongs to. -/
def Host.PendingWith (h : Host) (E : Env) (ss : TcpSession) : Prop :=
  ∀ x, h.hashPen.Holds x → E.penHash (h.outMem x).super = E.penHash ss

theorem insertPending_ledger (hp : Ledger E h ρ) (sp : SynPacket)
    (hone : h.oom h.brk = false → h.oom (h.brk + 1) = false → h.PendingWith E sp.ss) :
    ∃ ρ', Ledger E (insertPending E h sp).2 ρ' ∧ Beside h (insertPending E h sp).2 ρ ρ' := by
  rw [insertPending, kzallocOut_eq]
  cases hoom : h.oom h.brk with
  | true => exact ⟨ρ, hp.bump hoom, ⟨Nat.le_succ _, fun _ _ => rfl, fun _ _ => .rfl, .refl ρ⟩⟩
  | false =>
    simp only [Bool.false_eq_true, if_false]
    have hbare := hp.kzallocOut hoom
    have hself : Function.update ρ h.brk (some .bare) h.brk = some .bare := Function.update_self ..
    have hrole : ∀ x < h.brk, Function.update ρ h.brk (some .bare) x = ρ x := fun x hx =>
      Function.update_of_ne (Nat.ne_of_lt hx) ..
    have hzero : ((h.bump.setOut h.brk default).outMem h.brk).freeSc = false := by
      rw [Host.setOut_outMem_self]
      rfl
    generalize hd : ({ (h.bump.setOut h.brk default).outMem h.brk with super := sp.ss } : CbOut) = d
    have hempty : d.freeSc = false ∧ d.otherPath = none := by
      rw [← hd, Host.setOut_outMem_self]
      exact ⟨rfl, rfl⟩
    have hkeys : d.super = sp.ss ∧ d.dyscoTag = 0#32 := by
      rw [← hd, Host.setOut_outMem_self]
      exact ⟨rfl, rfl⟩
    have hset := hbare.setOut_bare (d := d) hself hzero hempty.1
    have hmem := (h.bump.setOut h.brk default).setOut_outMem_self (p := h.brk) d
    have hsuper : ∀ x < h.brk, (((h.bump.setOut h.brk default).setOut h.brk d).outMem x).super =
        (h.outMem x).super := fun x hx => by
      rw [Host.setOut_outMem_of_ne _ (Nat.ne_of_lt hx),
        Host.setOut_outMem_of_ne _ (Nat.ne_of_lt hx)]
      rfl
    have hhold : ∀ x < h.brk, (h.outMem x).SameHold
        (((h.bump.setOut h.brk default).setOut h.brk d).outMem x) := fun x hx => by
      rw [Host.setOut_outMem_of_ne _ (Nat.ne_of_lt hx),
        Host.setOut_outMem_of_ne _ (Nat.ne_of_lt hx)]
      exact .rfl
    have hbrk : ((h.bump.setOut h.brk default).setOut h.brk d).brk = h.brk + 1 := rfl
    have hsame : ((h.bump.setOut h.brk default).setOut h.brk d).oom = h.oom := rfl
    have hmade : ∀ ρ'', Finished (Function.update ρ h.brk (some .bare)) ρ'' →
        ¬ Making ρ'' h.brk → Finished ρ ρ'' := fun _ => Finished.made
    generalize Function.update ρ h.brk (some Role.bare) = ρ1 at hset hself hrole hmade
    generalize (h.bump.setOut h.brk default).setOut h.brk d =
      g at hset hmem hsuper hhold hbrk hsame ⊢
    rw [kmalloc_eq]
    cases hoom' : g.oom g.brk with
    | true =>
      have hraw := (hset.bump hoom').swap (Or.inl rfl) (Or.inr hself) (by
        rw [Host.bump_outMem, hmem]
        exact hempty.1)
      have hfree := hraw.free (Function.update_self ..)
      rw [Function.update_idem] at hfree
      refine ⟨_, hfree, ⟨by exact (by omega : h.brk ≤ g.brk + 1), fun x hx => ?_, hhold,
        hmade _ (.update (.refl _) (by simp)) (not_making_none (Function.update_self ..))⟩⟩
      rw [Function.update_of_ne (Nat.ne_of_lt hx), hrole x hx]
    | false =>
      simp only [Bool.false_eq_true, if_false]
      have hne : h.brk ≠ g.brk := by omega
      have hraw := (hset.alloc hoom').setSc g.brk (sp.sc.rest (g.scMem g.brk))
      have hbareP : Function.update ρ1 g.brk (some .raw) h.brk = some .bare := by
        rw [Function.update_of_ne hne, hself]
      generalize hd' : ({ (g.bump.setSc g.brk _).outMem h.brk with
        sc := some g.brk, freeSc := true } : CbOut) = d'
      have hfilled : d'.freeSc = true ∧ d'.sc = some g.brk ∧ d'.otherPath = none := by
        rw [← hd']
        refine ⟨rfl, rfl, ?_⟩
        change (g.outMem h.brk).otherPath = none
        rw [hmem, hempty.2]
      have hown := hraw.own (d := d') hbareP (Function.update_self ..)
        (by change (g.outMem h.brk).freeSc = false; rw [hmem, hempty.1]) hfilled.1 hfilled.2.1
      have hkeys' : d'.super = sp.ss ∧ d'.dyscoTag = 0#32 := by
        rw [← hd']
        change (g.outMem h.brk).super = sp.ss ∧ (g.outMem h.brk).dyscoTag = 0#32
        rw [hmem]
        exact hkeys
      have hpend := hown.insertPending (p := h.brk) (by
        rw [Function.update_of_ne hne, hbareP]) (by
        rw [Host.setOut_outMem_self, hfilled.2.2]) (by
        rw [Host.setOut_outMem_self, hkeys'.2]) (by
        intro x hx
        have hxs : x ≠ g.brk := by
          rintro rfl
          rw [Function.update_self] at hx
          cases hx
        have hxp : x ≠ h.brk := by
          rintro rfl
          rw [Function.update_of_ne hne, hbareP] at hx
          cases hx
        rw [Function.update_of_ne hxs, Function.update_of_ne hxs] at hx
        -- it was pending before
        have hlt : x < h.brk := by
          have h1 := hset.lt x (by rw [hx]; exact Option.some_ne_none _)
          omega
        rw [hrole x hlt] at hx
        rw [Host.setOut_outMem_self, hkeys'.1, Host.setOut_outMem_of_ne _ hxp]
        change E.penHash (g.outMem x).super = _
        rw [hsuper x hlt]
        exact hone hoom (by rw [← hsame, ← hbrk]; exact hoom') x ((hp.pen x).mpr hx))
      have hfin : Finished (Function.update ρ1 g.brk (some .raw)) (Function.update (Function.update
          (Function.update ρ1 g.brk (some .raw)) g.brk (some (.chain h.brk))) h.brk (some .pen)) :=
        .update (.update (.refl _) (by simp)) (by simp)
      have hchain := hfin.made (not_making (r := .chain h.brk)
        (by rw [Function.update_of_ne hne.symm, Function.update_self]) (by simp))
      refine ⟨_, hpend, ⟨by exact (by omega : h.brk ≤ g.brk + 1), fun x hx => ?_, fun x hx => ?_,
        hmade _ hchain (not_making (Function.update_self ..) (by simp))⟩⟩
      · rw [Function.update_of_ne (Nat.ne_of_lt hx), Function.update_of_ne (by omega),
          Function.update_of_ne (by omega), hrole x hx]
      · have hx' := Host.setOut_outMem_of_ne (g.bump.setSc g.brk (sp.sc.rest (g.scMem g.brk)))
          (Nat.ne_of_lt hx) d'
        exact hx' ▸ hhold x hx

/-- An input block and an output block that are being made go into their tables. -/
theorem insertBoth_ledger (hp : Ledger E h ρ) (hq : ρ q = some .raw) (hrole : ρ p = some .bare)
    (hpath : (h.outMem p).otherPath = none) : ∃ ρ', Ledger E
      ((((h.setIn q ((h.inMem q).withDcbOut p)).setOut p
        (((h.setIn q ((h.inMem q).withDcbOut p)).outMem p).withDcbIn (some q))).insertIn E
        q).insertOut
          E p) ρ' ∧ Finished ρ ρ' ∧ ¬ Making ρ' q ∧ ¬ Making ρ' p := by
  have hne : p ≠ q := by
    rintro rfl
    rw [hq] at hrole
    cases hrole
  have hlink := (hp.setIn q ((h.inMem q).withDcbOut p)).setOut_keyed (p := p)
    (d := ((h.setIn q ((h.inMem q).withDcbOut p)).outMem p).withDcbIn (some q))
    ⟨rfl, rfl, rfl⟩ rfl rfl
  have hfin : Finished ρ (Function.update (Function.update ρ q (some .inp)) p (some .out)) :=
    .update (.update (.refl ρ) (by simp)) (by simp)
  refine ⟨_, (hlink.insertIn hq).insertOut ?_ ?_, hfin, not_making (r := .inp) ?_ (by simp),
    not_making (Function.update_self ..) (by simp)⟩
  · rw [Function.update_of_ne hne, hrole]
  · rw [Host.insertIn_outMem, Host.setOut_outMem_self]
    exact hpath
  · rw [Function.update_of_ne hne.symm, Function.update_self]

theorem insertCbInput_ledger (hp : Ledger E h ρ) (skb : SkBuff) (sp : SynPacket)
    (hone : 1 < sp.sc.hops.length → ¬ h.ChainOom sp → h.PendingWith E sp.ss) :
    ∃ ρ', Ledger E (insertCbInput E h skb sp).2 ρ' ∧ Finished ρ ρ' := by
  rw [insertCbInput, kzallocIn_eq]
  cases hoom : h.oom h.brk with
  | true => exact ⟨ρ, hp.bump hoom, .refl ρ⟩
  | false =>
    simp only [Bool.false_eq_true, if_false]
    generalize ({ (h.bump.setIn h.brk default).inMem h.brk with
      sub := skb.session, super := sp.ss, twoPaths := false, skbIif := skb.skbIif,
      seqDelta := 0#32, ackDelta := 0#32 } : CbIn) = d
    have hp1 := ((hp.alloc hoom).setIn h.brk default).setIn h.brk d
    have hq : Function.update ρ h.brk (some .raw) h.brk = some .raw := Function.update_self ..
    have hbrk : ((h.bump.setIn h.brk default).setIn h.brk d).brk = h.brk + 1 := rfl
    have hmade : ∀ ρ'', Finished (Function.update ρ h.brk (some .raw)) ρ'' →
        ¬ Making ρ'' h.brk → Finished ρ ρ'' := fun _ => Finished.made
    have hoomg : h.oom = ((h.bump.setIn h.brk default).setIn h.brk d).oom := rfl
    have hpeng : ((h.bump.setIn h.brk default).setIn h.brk d).hashPen = h.hashPen ∧
        ((h.bump.setIn h.brk default).setIn h.brk d).outMem = h.outMem := ⟨rfl, rfl⟩
    generalize Function.update ρ h.brk (some Role.raw) = ρ1 at hp1 hq hmade
    generalize (h.bump.setIn h.brk default).setIn h.brk d = g at hp1 hbrk hoomg hpeng ⊢
    rw [insertCbInReverse, kzallocOut_eq]
    cases hoom' : g.oom g.brk with
    | true => exact ⟨_, (hp1.bump hoom').free hq,
        hmade _ (.update (.refl _) (by simp)) (not_making_none (Function.update_self ..))⟩
    | false =>
      simp only [Bool.false_eq_true, if_false]
      have hbare := hp1.kzallocOut hoom'
      have hne : h.brk ≠ g.brk := by omega
      have hself : Function.update ρ1 g.brk (some .bare) g.brk = some .bare :=
        Function.update_self ..
      have hq' : Function.update ρ1 g.brk (some .bare) h.brk = some .raw := by
        rw [Function.update_of_ne hne, hq]
      have hzero : ((g.bump.setOut g.brk default).outMem g.brk).freeSc = false := by
        rw [Host.setOut_outMem_self]
        rfl
      generalize hd' : ({ (g.bump.setOut g.brk default).outMem g.brk with
        super := sp.ss.reverse, sub := skb.session.reverse, inIack := ntohl skb.seq,
        outIack := ntohl skb.seq, otherPath := none, oldPath := false, validAckCut := false,
        useNpSeq := false, useNpAck := false, ackCutoff := 0#32, ackCtr := 0#32,
        state := .onePath, nhMac := skb.hSource } : CbOut) = d'
      have hempty : d'.freeSc = false ∧ d'.otherPath = none := by
        rw [← hd']
        exact ⟨hzero, rfl⟩
      have hp2 := hbare.setOut_bare (d := d') hself hzero hempty.1
      have hmem := (g.bump.setOut g.brk default).setOut_outMem_self (p := g.brk) d'
      have hbrk' : ((g.bump.setOut g.brk default).setOut g.brk d').brk = g.brk + 1 := rfl
      have hmade' : ∀ ρ'', Finished (Function.update ρ1 g.brk (some .bare)) ρ'' →
          ¬ Making ρ'' g.brk → Finished ρ1 ρ'' := fun _ => Finished.made
      have hoomk : ((g.bump.setOut g.brk default).setOut g.brk d').oom = h.oom := hoomg.symm
      have hpens : ((g.bump.setOut g.brk default).setOut g.brk d').hashPen = h.hashPen := hpeng.1
      have hsuper : ∀ x < h.brk, (((g.bump.setOut g.brk default).setOut g.brk d').outMem x).super =
          (h.outMem x).super := fun x hx => by
        have hxg : x ≠ g.brk := by omega
        rw [Host.setOut_outMem_of_ne _ hxg, Host.setOut_outMem_of_ne _ hxg, ← hpeng.2]
        rfl
      generalize Function.update ρ1 g.brk (some Role.bare) = ρ2 at hp2 hself hq' hmade'
      generalize (g.bump.setOut g.brk default).setOut g.brk d' =
        k at hp2 hmem hbrk' hoomk hpens hsuper ⊢
      have hpend : ∀ ok k', (if 1 < sp.sc.hops.length then insertPending E k sp else (true, k)) =
          (ok, k') → ∃ ρ3, Ledger E k' ρ3 ∧ Beside k k' ρ2 ρ3 := by
        intro ok k' hk'
        split at hk'
        · rename_i hlen
          have hmade := insertPending_ledger hp2 sp fun h2 h3 x hx => by
            rw [hpens] at hx
            rw [hsuper x (hp.lt x (by rw [(hp.pen x).mp hx]; exact Option.some_ne_none _))]
            refine hone hlen ?_ x hx
            rw [hoomk, hbrk', hbrk] at h2 h3
            rw [← hoomg, hbrk] at hoom'
            rintro (hc | hc | ⟨-, hc | hc⟩)
            · rw [hoom] at hc
              cases hc
            · rw [hoom'] at hc
              cases hc
            · rw [h2] at hc
              cases hc
            · rw [h3] at hc
              cases hc
          rwa [hk'] at hmade
        · cases hk'
          exact ⟨ρ2, hp2, le_rfl, fun _ _ => rfl, fun _ _ => .rfl, .refl ρ2⟩
      cases hk' : (if 1 < sp.sc.hops.length then insertPending E k sp else (true, k)) with
      | mk ok k' =>
        obtain ⟨ρ3, hp3, hb⟩ := hpend ok k' hk'
        have hq3 : ρ3 h.brk = some .raw := (hb.role h.brk (by omega)).trans hq'
        have hrole3 : ρ3 g.brk = some .bare := (hb.role g.brk (by omega)).trans hself
        have hhold := hb.hold g.brk (by omega)
        rw [hmem] at hhold
        cases ok with
        | false =>
          simp only [Bool.false_eq_true, if_false]
          have hfree := hp3.free hq3
          have hraw := hfree.swap (p := g.brk) (Or.inl rfl)
            (Or.inr (by rw [Function.update_of_ne hne.symm, hrole3])) (hhold.freeSc.trans hempty.1)
          have hgone := hraw.free (Function.update_self ..)
          rw [Function.update_idem] at hgone
          have hfin : Finished ρ3 (Function.update (Function.update ρ3 h.brk none) g.brk none) :=
            .update (.update (.refl ρ3) (by simp)) (by simp)
          exact ⟨_, hgone, hmade _ (hmade' _ (hb.finished.trans hfin)
            (not_making_none (Function.update_self ..))) (not_making_none (by
              rw [Function.update_of_ne hne, Function.update_self]))⟩
        | true =>
          simp only [if_true]
          obtain ⟨ρ4, hp4, hfin, hq4, hrole4⟩ :=
            insertBoth_ledger hp3 hq3 hrole3 (hhold.otherPath.trans hempty.2)
          exact ⟨ρ4, hp4, hmade _ (hmade' _ (hb.finished.trans hfin) hrole4) hq4⟩

theorem insertTag_ledger (hp : Ledger E h ρ) (skb : SkBuff) : Ledger E (insertTag h skb).1 ρ :=
  { hp with }

/-- A SYN enters with a payload. -/
theorem rxInitiationNew_ledger (hp : Ledger E h ρ) (skb : SkBuff)
    (hone : 1 < skb.synPacket.sc.hops.length → ¬ h.ChainOom skb.synPacket →
      h.PendingWith E skb.synPacket.ss) :
    ∃ ρ', Ledger E (rxInitiationNew E h skb).1 ρ' ∧ Finished ρ ρ' := by
  rw [rxInitiationNew]
  split
  · obtain ⟨ρ1, hmade, hfin⟩ := insertCbInput_ledger hp skb skb.synPacket hone
    cases hi : insertCbInput E h skb skb.synPacket with
    | mk o g =>
      rw [hi] at hmade
      cases o with
      | none => exact ⟨ρ1, hmade, hfin⟩
      | some q => exact ⟨ρ1, insertTag_ledger (hmade.setIn q _) (removeSc skb), hfin⟩
  · exact ⟨ρ, hp, .refl ρ⟩

theorem setAckNumberOut_ledger (hp : Ledger E h ρ) (skb : SkBuff) (q : Nat) :
    Ledger E (setAckNumberOut E h skb q) ρ := by
  rw [setAckNumberOut]
  simp only
  split
  · exact hp.setIn q _
  · rename_i p hfound
    have hrole := (hp.out p).mp (Host.lookupOut_eq_some _ hfound).1
    exact ((hp.setIn q _).setIn q _).setOut_same (by rw [hrole]; rintro ⟨⟩)
      (CbOut.sameHold_synAckIn _ skb _)

theorem inTwoPathsAck_ledger (hp : Ledger E h ρ) (skb : SkBuff) (q : Nat) :
    Ledger E (inTwoPathsAck h skb q) ρ := by
  have hswitch : ∀ x, Ledger E (h.setOut x (h.outMem x).withUseNpSeq) ρ := fun x =>
    hp.setOut_keyed ⟨rfl, rfl, rfl⟩ rfl rfl
  rw [inTwoPathsAck]
  simp only
  split
  · exact hp
  · rename_i p _
    split
    · split
      · split
        · exact hp.setIn q _
        · exact hp
      · split
        · exact (hswitch p).setIn q _
        · exact hp
    · split
      · exact hp
      · rename_i old _
        split
        · exact hp.setIn q _
        · split
          · exact (hswitch old).setIn q _
          · exact hp

theorem inTwoPathsDataSeg_ledger (hp : Ledger E h ρ) (skb : SkBuff) (q : Nat) :
    Ledger E (inTwoPathsDataSeg h skb q).1 ρ := by
  have hlower : ∀ x seq, Ledger E (h.setOut x ((h.outMem x).lowerAckCutoff seq)) ρ := by
    intro x seq
    rw [CbOut.lowerAckCutoff]
    split
    · split <;> exact hp.setOut_keyed ⟨rfl, rfl, rfl⟩ rfl rfl
    · exact hp.setOut_keyed ⟨rfl, rfl, rfl⟩ rfl rfl
  rw [inTwoPathsDataSeg]
  split
  · exact hp
  · simp only
    split
    · exact hp
    · split
      · exact hp
      · split
        · exact hlower _ _
        · exact hp

theorem inputSegment_ledger (hp : Ledger E h ρ) (skb : SkBuff) (q : Nat) :
    Ledger E (inputSegment h skb q).1 ρ := by
  rw [inputSegment]
  have hseen : ∀ g ok, (if (h.inMem q).twoPaths then
      if 0#16 < skb.segSz then inTwoPathsDataSeg h skb q else (inTwoPathsAck h skb q, true)
      else (h, true)) = (g, ok) → Ledger E g ρ := by
    intro g ok hg
    split at hg
    · split at hg
      · have hseg := inTwoPathsDataSeg_ledger hp skb q
        rwa [hg] at hseg
      · cases hg
        exact inTwoPathsAck_ledger hp skb q
    · cases hg
      exact hp
  cases hg : (if (h.inMem q).twoPaths then
      if 0#16 < skb.segSz then inTwoPathsDataSeg h skb q else (inTwoPathsAck h skb q, true)
      else (h, true)) with
  | mk g ok =>
    simp only
    split <;> exact hseen g ok hg

/-- A SYN for which a block is made that waits for it finds all pending blocks in its own bucket of
`dysco_hash_pen`. -/
def OneBucket (E : Env) (h : Host) (skb : SkBuff) : Prop :=
  skb.hasSyn = true → h.lookupIn E skb.session = none → 1 < skb.synPacket.sc.hops.length →
    ¬ h.ChainOom skb.synPacket → h.PendingWith E skb.synPacket.ss

/-- **A TCP packet enters the host.** -/
theorem input_ledger (hp : Ledger E h ρ) (hone : OneBucket E h skb) :
    ∃ ρ', Ledger E (input E h skb).1 ρ' ∧ Finished ρ ρ' := by
  rw [input]
  split
  · exact ⟨ρ, hp, .refl ρ⟩
  · split
    · exact ⟨ρ, hp, .refl ρ⟩
    · split
      · rename_i hnew
        split
        · rename_i hsyn
          exact rxInitiationNew_ledger hp skb (hone hsyn hnew)
        · exact ⟨ρ, hp, .refl ρ⟩
      · rename_i q _
        split
        · split
          · exact ⟨ρ, setAckNumberOut_ledger (hp.setIn q _) skb q, .refl ρ⟩
          · exact ⟨ρ, insertTag_ledger hp (removeSc skb), .refl ρ⟩
        · exact ⟨ρ, inputSegment_ledger hp skb q, .refl ρ⟩

/-! ## Messages that enter a host -/

/-- A search of the output table sees keys of blocks in the table only. -/
theorem Host.lookupOut_congr (htab : g.hashOut = h.hashOut)
    (hmem : ∀ x, h.hashOut.Holds x → g.outMem x = h.outMem x) (ss : TcpSession) :
    g.lookupOut E ss = h.lookupOut E ss := by
  rw [Host.lookupOut, Host.lookupOut, htab]
  exact BucketTable.lookup_congr fun x hx => by rw [hmem x hx]

theorem computeDeltasOut_freeSc (dcb old : CbOut) (rcb : CbReconfig) :
    (computeDeltasOut dcb old rcb).freeSc = dcb.freeSc := by
  rw [computeDeltasOut]
  simp only
  split <;> split <;> rfl

/-- The right anchor: the session is known and not reconfigured yet. -/
theorem controlConfigRightA_ledger (hp : Ledger E h ρ) (hrole : ρ p = some .bare)
    (hfree : (h.outMem p).freeSc = false) (hr : ρ r = some .rcb)
    (hblank : (h.rcbMem r).newDcb = none) {m : ControlMessage}
    (hold : h.lookupOut E m.rightSS.reverse = some old) (hidle : h.Idle old) {ok : Bool}
    (hc : controlConfigRightA E h r m q p = (ok, g)) :
    ok = true ∧ Ledger E g (Function.update ρ p (some (.other old))) := by
  rw [controlConfigRightA] at hc
  simp only [hold] at hc
  generalize CbIn.withTwoPaths _ true = i at hc
  generalize hd : computeDeltasOut ((h.setIn q i).outMem p) (h.outMem old) (h.rcbMem r) = d at hc
  have hfree' : (d.withOtherPath old).freeSc = false := by
    rw [← hd]
    exact (computeDeltasOut_freeSc _ _ _).trans hfree
  have hrcb : ({ h.rcbMem r with oldDcb := some old, newDcb := some p } : CbReconfig).oldDcb =
      some old ∧
      ({ h.rcbMem r with oldDcb := some old, newDcb := some p } : CbReconfig).newDcb = some p :=
        ⟨rfl, rfl⟩
  generalize ({ h.rcbMem r with oldDcb := some old, newDcb := some p } : CbReconfig) =
    rcb at hc hrcb
  have hswap : ((h.setIn q i).setRcb r rcb).setOut p (d.withOtherPath old) =
      ((h.setIn q i).setOut p (d.withOtherPath old)).setRcb r rcb := rfl
  have holdrole := (hp.out old).mp (h.lookupOut_eq_some hold).1
  have hne : old ≠ p := by
    rintro rfl
    rw [hrole] at holdrole
    cases holdrole
  have hset := (hp.setIn q i).setOut_bare (d := d.withOtherPath old) hrole hfree hfree'
  have hidle' : ((h.setIn q i).setOut p (d.withOtherPath old)).Idle old := by
    refine ⟨?_, hidle.2⟩
    rw [Host.setOut_outMem_of_ne _ hne]
    exact hidle.1
  have hpair := hset.enlist hrole (by rw [Host.setOut_outMem_self]; exact hfree') hr hblank
    holdrole hidle' hrcb.1 hrcb.2
  rw [hswap] at hc
  split at hc <;> cases hc
  · exact ⟨rfl, hpair.setOut_keyed ⟨rfl, rfl, rfl⟩ rfl rfl⟩
  · exact ⟨rfl, hpair⟩

/-- At another host both blocks go into their tables. -/
theorem controlConfigMiddle_ledger (hp : Ledger E h ρ) (hq : ρ q = some .raw)
    (hrole : ρ p = some .bare) (hpath : (h.outMem p).otherPath = none) (r : Nat) :
    ∃ ρ', Ledger E ((controlConfigMiddle E h r q p).insertIn E q) ρ' ∧
      Finished ρ ρ' ∧ ¬ Making ρ' q ∧ ¬ Making ρ' p := by
  obtain ⟨i, hmade, -, -⟩ := controlConfigMiddle_made (E := E) h r q p
  have hne : q ≠ p := by
    rintro rfl
    rw [hq] at hrole
    cases hrole
  have hset := (hp.setIn q i).setOut_keyed (p := p)
    (d := { h.outMem p with sackOk := (h.rcbMem r).sackOk.getLsbD 0 }) ⟨rfl, rfl, rfl⟩ rfl rfl
  have hout := hset.insertOut hrole (by rw [Host.setOut_outMem_self]; exact hpath)
  have hfin : Finished ρ (Function.update (Function.update ρ p (some .out)) q (some .inp)) :=
    .update (.update (.refl ρ) (by simp)) (by simp)
  rw [hmade]
  refine ⟨_, hout.insertIn (by rw [Function.update_of_ne hne, hq]), hfin,
    not_making (Function.update_self ..) (by simp), not_making (r := .out) ?_ (by simp)⟩
  rw [Function.update_of_ne hne.symm, Function.update_self]

/-- The blocks of the new path, when memory is there and the right anchor knows the session. -/
theorem controlReconfigIn_ledger (hp : Ledger E h ρ) (pkt : ControlPacket) (hr : ρ r = some .rcb)
    (hblank : (h.rcbMem r).newDcb = none) (hoom : h.oom h.brk = false)
    (hoom' : h.oom (h.brk + 1) = false)
    (hright : pkt.daddr = pkt.msg.rightA →
      ∃ old, h.lookupOut E pkt.msg.rightSS.reverse = some old ∧ h.Idle old) :
    ∃ ρ', Ledger E (controlReconfigIn E h pkt r).2 ρ' ∧ Finished ρ ρ' := by
  rw [controlReconfigIn, kmalloc_eq]
  simp only [hoom, Bool.false_eq_true, if_false]
  generalize (h.bump.rcbMem r).newPathIn (h.bump.inMem h.brk) pkt.skbIif = i
  have hp1 := (hp.alloc hoom).setIn h.brk i
  have hq : Function.update ρ h.brk (some .raw) h.brk = some .raw := Function.update_self ..
  have hlt : ∀ x, ρ x ≠ none → Function.update ρ h.brk (some .raw) x = ρ x := fun x hx =>
    Function.update_of_ne (Nat.ne_of_lt (hp.lt x hx)) ..
  have hbrk : (h.bump.setIn h.brk i).brk = h.brk + 1 := rfl
  have hsame : (h.bump.setIn h.brk i).outMem = h.outMem ∧ (h.bump.setIn h.brk i).rcbMem = h.rcbMem ∧
      (h.bump.setIn h.brk i).hashOut = h.hashOut ∧
      (h.bump.setIn h.brk i).hashReconfig = h.hashReconfig ∧
      (h.bump.setIn h.brk i).oom = h.oom := ⟨rfl, rfl, rfl, rfl, rfl⟩
  have hmade : ∀ ρ'', Finished (Function.update ρ h.brk (some .raw)) ρ'' →
      ¬ Making ρ'' h.brk → Finished ρ ρ'' := fun _ => Finished.made
  generalize Function.update ρ h.brk (some Role.raw) = ρ1 at hp1 hq hlt hmade
  generalize h.bump.setIn h.brk i = g at hp1 hbrk hsame ⊢
  obtain ⟨hout1, hrcb1, htab1, hrtab1, hoom1⟩ := hsame
  have hoomg : g.oom g.brk = false := by rw [hoom1, hbrk, hoom']
  rw [buildCbInReverse, kzallocOut_eq]
  simp only [hoomg, Bool.false_eq_true, if_false]
  have hself : Function.update ρ1 g.brk (some .bare) g.brk = some .bare := Function.update_self ..
  have hlt2 : ∀ x, ρ1 x ≠ none → Function.update ρ1 g.brk (some .bare) x = ρ1 x := fun x hx =>
    Function.update_of_ne (Nat.ne_of_lt (hp1.lt x hx)) ..
  have hbare := hp1.kzallocOut hoomg
  have hzero : ((g.bump.setOut g.brk default).outMem g.brk).freeSc = false := by
    rw [Host.setOut_outMem_self]
    rfl
  generalize hd : CbReconfig.reverseOut _ pkt = d
  have hempty : d.freeSc = false ∧ d.otherPath = none := by
    rw [← hd]
    exact ⟨rfl, rfl⟩
  have hset := hbare.setOut_bare (d := d) hself hzero hempty.1
  have hlink := (hset.setOut_keyed (p := g.brk)
    (d := (((g.bump.setOut g.brk default).setOut g.brk d).outMem g.brk).withDcbIn (some h.brk))
    ⟨rfl, rfl, rfl⟩ rfl rfl).setIn h.brk
      (((((g.bump.setOut g.brk default).setOut g.brk d).setOut g.brk
        ((((g.bump.setOut g.brk default).setOut g.brk d).outMem g.brk).withDcbIn
        (some h.brk))).inMem
          h.brk).withDcbOut g.brk)
  generalize hk : (((g.bump.setOut g.brk default).setOut g.brk d).setOut g.brk
    ((((g.bump.setOut g.brk default).setOut g.brk d).outMem g.brk).withDcbIn (some h.brk))).setIn
    h.brk
      _ = k at hlink ⊢
  have hmem : k.outMem g.brk = d.withDcbIn (some h.brk) := by
    rw [← hk, Host.setIn_outMem, Host.setOut_outMem_self, Host.setOut_outMem_self]
  have hmne : ∀ x, x ≠ g.brk → k.outMem x = h.outMem x := fun x hx => by
    rw [← hk, Host.setIn_outMem, Host.setOut_outMem_of_ne _ hx, Host.setOut_outMem_of_ne _ hx,
      Host.setOut_outMem_of_ne _ hx, Host.bump_outMem, hout1]
  have hrcbk : k.rcbMem = h.rcbMem := by
    rw [← hk, ← hrcb1]
    rfl
  have htabk : k.hashOut = h.hashOut := by
    rw [← hk, ← htab1]
    rfl
  have hrtabk : k.hashReconfig = h.hashReconfig := by
    rw [← hk, ← hrtab1]
    rfl
  have hmade' : ∀ ρ'', Finished (Function.update ρ1 g.brk (some .bare)) ρ'' →
      ¬ Making ρ'' g.brk → Finished ρ1 ρ'' := fun _ => Finished.made
  generalize Function.update ρ1 g.brk (some Role.bare) = ρ2 at hlink hself hlt2 hmade'
  have hr2 : ρ2 r = some .rcb := by
    have hr1 : ρ1 r = some .rcb := by rw [hlt r (by rw [hr]; exact nofun), hr]
    rw [hlt2 r (by rw [hr1]; exact nofun), hr1]
  have hq2 : ρ2 h.brk = some .raw := by rw [hlt2 h.brk (by rw [hq]; exact nofun), hq]
  have hne : h.brk ≠ g.brk := by omega
  split
  · rename_i hanchor
    obtain ⟨old, hfound, hidle⟩ := hright hanchor
    have hfound' : k.lookupOut E pkt.msg.rightSS.reverse = some old := by
      rw [Host.lookupOut_congr htabk fun x hx => hmne x ?_, hfound]
      have hlt := hp.lt x (by rw [(hp.out x).mp hx]; exact nofun)
      omega
    have hneo : old ≠ g.brk := by
      have hlt := hp.lt old (by
        rw [(hp.out old).mp (h.lookupOut_eq_some hfound).1]
        exact nofun)
      omega
    have hidle' : k.Idle old := by
      refine ⟨by rw [hmne old hneo]; exact hidle.1, ?_⟩
      rw [hrtabk, hrcbk]
      exact hidle.2
    cases hc : controlConfigRightA E k r pkt.msg h.brk g.brk with
    | mk ok k' =>
      obtain ⟨rfl, hpair⟩ :=
        controlConfigRightA_ledger hlink hself (by rw [hmem]; exact hempty.1) hr2
        (by rw [hrcbk]; exact hblank) hfound' hidle' hc
      have hfin : Finished ρ2 (Function.update (Function.update ρ2 g.brk (some (.other old))) h.brk
          (some .inp)) := .update (.update (.refl ρ2) (by simp)) (by simp)
      refine ⟨_, hpair.insertIn (by rw [Function.update_of_ne hne, hq2]), hmade _ (hmade' _ hfin ?_)
        (not_making (Function.update_self ..) (by simp))⟩
      refine not_making (r := .other old) ?_ (by simp)
      rw [Function.update_of_ne hne.symm, Function.update_self]
  · obtain ⟨ρ3, hp3, hfin, hq3, hrole3⟩ :=
      controlConfigMiddle_ledger hlink hq2 hself (by rw [hmem]; exact hempty.2) r
    exact ⟨ρ3, hp3, hmade _ (hmade' _ hfin hrole3) hq3⟩

/-- A `DYSCO_SYN` that is not a retransmission gets its blocks, unless memory is out from the
beginning; at the right anchor its session is known and is reconfigured for the first time. -/
def SynMade (E : Env) (h : Host) (pkt : ControlPacket) : Prop :=
  h.lookupReconfig E pkt.msg.super = none → h.oom h.brk = false →
    h.oom (h.brk + 1) = false ∧ h.oom (h.brk + 2) = false ∧
      (pkt.daddr = pkt.msg.rightA →
        ∃ old, h.lookupOut E pkt.msg.rightSS.reverse = some old ∧ h.Idle old)

/-- A `DYSCO_SYN` that `dysco_control_input` looks at. -/
def ControlPacket.SynEnters (pkt : ControlPacket) : Prop :=
  (pkt.dest = dyscoControlPort ∨ pkt.source = dyscoControlPort) ∧
    controlMinLen ≤ (ntohs pkt.udpLen).toNat ∧ pkt.msg.mtype = .syn

theorem synIn_ledger (hp : Ledger E h ρ) {pkt : ControlPacket} (hmade : SynMade E h pkt) :
    ∃ ρ', Ledger E (synIn E h pkt).2 ρ' ∧ Finished ρ ρ' := by
  rw [synIn]
  split
  · exact ⟨ρ, hp, .refl ρ⟩
  · rename_i hnew
    rw [insertRcbControlInput, kmalloc_eq]
    cases hoom : h.oom h.brk with
    | true => exact ⟨ρ, hp.bump hoom, .refl ρ⟩
    | false =>
      simp only [Bool.false_eq_true, if_false]
      obtain ⟨hoom1, hoom2, hright⟩ := hmade hnew hoom
      have hfresh : ρ h.brk = none := by
        by_contra hc
        exact Nat.lt_irrefl _ (hp.lt _ hc)
      have hblank := hp.blank h.brk (by rw [hfresh]; exact nofun)
      have hset := (hp.alloc hoom).setRcb (r := h.brk)
          (d := (h.bump.rcbMem h.brk).ofSynIn pkt) rfl rfl
      have hrcb := hset.insertReconfig (Function.update_self ..)
      have hmem := h.bump.setRcb_rcbMem_self (p := h.brk) ((h.bump.rcbMem h.brk).ofSynIn pkt)
      rw [Function.update_idem] at hrcb
      have hfiled : Finished ρ (Function.update ρ h.brk (some .rcb)) := .update (.refl ρ) (by simp)
      have hidle : ∀ old, h.Idle old →
          ((h.bump.setRcb h.brk ((h.bump.rcbMem h.brk).ofSynIn pkt)).insertReconfig E h.brk).Idle
          old := by
        rintro old ⟨hpath, hnone⟩
        refine ⟨hpath, fun x hx => ?_⟩
        rw [Host.insertReconfig_rcbMem]
        by_cases hxb : x = h.brk
        · rw [hxb, hmem]
          change (h.rcbMem h.brk).oldDcb ≠ some old
          rw [hblank.1]
          exact nofun
        · rw [Host.setRcb_rcbMem_of_ne _ hxb]
          exact hnone x ((BucketTable.holds_insert.mp hx).resolve_left hxb)
      obtain ⟨ρ', hp', hfin⟩ := controlReconfigIn_ledger hrcb pkt (Function.update_self ..)
        (by rw [Host.insertReconfig_rcbMem, hmem]; exact hblank.2) hoom1 hoom2 fun hanchor =>
          (hright hanchor).imp fun old hold => ⟨hold.1, hidle old hold.2⟩
      exact ⟨ρ', hp', hfiled.trans hfin⟩

theorem replaceCbLeftA_ledger (hp : Ledger E h ρ) (pkt : ControlPacket) (r : Nat) :
    Ledger E (replaceCbLeftA h pkt r).1 ρ := by
  rw [replaceCbLeftA]
  simp only
  split
  · exact hp
  · refine (hp.setOut_keyed ⟨?_, ?_, ?_⟩ ?_ ?_).setRcb rfl rfl <;> split <;> rfl

theorem synAckIn_ledger (hp : Ledger E h ρ) (pkt : ControlPacket) :
    Ledger E (synAckIn E h pkt).1 ρ := by
  rw [synAckIn]
  split
  · split
    · exact hp
    · simp only
      split
      · exact hp
      · exact hp.setOut_keyed ⟨rfl, rfl, rfl⟩ rfl rfl
  · exact hp

theorem ackIn_ledger (hp : Ledger E h ρ) (pkt : ControlPacket) : Ledger E (ackIn E h pkt).1 ρ := by
  rw [ackIn]
  split
  · exact hp
  · split
    · split
      · exact hp
      · simp only
        split
        · exact hp
        · split
          · exact hp
          · split
            · exact hp
            · exact hp.setOut_keyed ⟨rfl, rfl, rfl⟩ rfl rfl
    · exact hp

theorem stateTransferredIn_ledger (hp : Ledger E h ρ) (pkt : ControlPacket) :
    Ledger E (stateTransferredIn E h pkt).1 ρ := by
  rw [stateTransferredIn]
  split
  · exact hp
  · rename_i r _
    split
    · exact replaceCbLeftA_ledger hp pkt r
    · split
      · split
        · exact hp
        · exact hp.setOut_keyed ⟨rfl, rfl, rfl⟩ rfl rfl
      · exact hp

/-- **A control message enters the host.** -/
theorem controlInput_ledger (hp : Ledger E h ρ) {pkt : ControlPacket}
    (hmade : pkt.SynEnters → SynMade E h pkt) :
    ∃ ρ', Ledger E (controlInput E h pkt).1 ρ' ∧ Finished ρ ρ' := by
  rw [controlInput]
  split
  · exact ⟨ρ, hp, .refl ρ⟩
  · rename_i hport
    split
    · exact ⟨ρ, hp, .refl ρ⟩
    · rename_i hlen
      cases ht : pkt.msg.mtype with
      | syn => exact synIn_ledger hp (hmade ⟨not_not.mp hport, not_lt.mp hlen, ht⟩)
      | synAck => exact ⟨ρ, synAckIn_ledger hp pkt, .refl ρ⟩
      | ack => exact ⟨ρ, ackIn_ledger hp pkt, .refl ρ⟩
      | stateTransferred => exact ⟨ρ, stateTransferredIn_ledger hp pkt, .refl ρ⟩
      | fin => exact ⟨ρ, hp, .refl ρ⟩
      | ackAck => exact ⟨ρ, hp, .refl ρ⟩
      | unknown code => exact ⟨ρ, hp, .refl ρ⟩

/-! ## Messages that leave a host -/

theorem insertCbControl_ledger (hp : Ledger E h ρ) (pkt : ControlPacket) :
    (h.oom h.brk = true ∧ (insertCbControl E h pkt).1 = none ∧
        Ledger E (insertCbControl E h pkt).2.1 ρ) ∨
      (h.oom h.brk = false ∧ (insertCbControl E h pkt).1 = some h.brk ∧
        Ledger E (insertCbControl E h pkt).2.1 (Function.update ρ h.brk (some .rcb)) ∧
        ((insertCbControl E h pkt).2.1.rcbMem h.brk).newDcb = none ∧
        (insertCbControl E h pkt).2.1.outMem = h.outMem ∧
        (insertCbControl E h pkt).2.1.brk = h.brk + 1 ∧ (insertCbControl E h pkt).2.1.oom =
        h.oom) := by
  rw [insertCbControl, kmalloc_eq]
  cases hoom : h.oom h.brk with
  | true => exact Or.inl ⟨rfl, rfl, hp.bump hoom⟩
  | false =>
    simp only [Bool.false_eq_true, if_false]
    have hfresh : ρ h.brk = none := by
      by_contra hc
      exact Nat.lt_irrefl _ (hp.lt _ hc)
    have hblank := hp.blank h.brk (by rw [hfresh]; exact nofun)
    have hraw := (hp.alloc hoom).allocateLocalPort
    generalize hrcb : ({ h.bump.allocateLocalPort.2.rcbMem h.brk with
      recDone := false, super := _, subOut := _, leftIseq := _, leftIack := _, leftIts := _,
      leftItsr := _, leftIws := _, leftIwsr := _, sackOk := _, nhMac := _ } : CbReconfig) = rcb
    have hptr : rcb.oldDcb = (h.rcbMem h.brk).oldDcb ∧ rcb.newDcb = (h.rcbMem h.brk).newDcb := by
      rw [← hrcb]
      exact ⟨rfl, rfl⟩
    have hset := (hraw.setRcb (r := h.brk) (d := rcb) hptr.1 hptr.2).insertReconfig
      (Function.update_self ..)
    rw [Function.update_idem] at hset
    refine Or.inr ⟨trivial, trivial, hset, ?_, rfl, rfl, rfl⟩
    rw [Host.insertReconfig_rcbMem, Host.setRcb_rcbMem_self, hptr.2]
    exact hblank.2

/-- The block of the old path gets its other path. -/
theorem markOld_ledger (hp : Ledger E h ρ) (m : ControlMessage) (hrole : ρ p = some .bare)
    (hfree : (h.outMem p).freeSc = false) (hold : ρ old = some .out)
    (hnot : ∀ n, ρ n ≠ some (.other old)) :
    Ledger E (h.markOld m old p) (Function.update ρ p (some (.other old))) := by
  have hne : p ≠ old := by
    rintro rfl
    rw [hrole] at hold
    cases hold
  rw [Host.markOld]
  have hp1 := hp.setOut_keyed (p := old) (d := (h.outMem old).withOldPath) ⟨rfl, rfl, rfl⟩ rfl rfl
  have hfree1 : ((h.setOut old (h.outMem old).withOldPath).outMem p).freeSc = false := by
    rw [Host.setOut_outMem_of_ne _ hne]
    exact hfree
  generalize h.setOut old (h.outMem old).withOldPath = h1 at hp1 hfree1 ⊢
  have hstate : ∀ g, (if m.WithState then h1.setOut old (h1.outMem old).withStateT else h1) = g →
      Ledger E g ρ ∧ (g.outMem p).freeSc = false := by
    rintro g rfl
    split
    · refine ⟨hp1.setOut_keyed ⟨rfl, rfl, rfl⟩ rfl rfl, ?_⟩
      rw [Host.setOut_outMem_of_ne _ hne]
      exact hfree1
    · exact ⟨hp1, hfree1⟩
  obtain ⟨hp2, hfree2⟩ := hstate _ rfl
  generalize (if m.WithState then h1.setOut old (h1.outMem old).withStateT else h1) =
    h2 at hp2 hfree2 ⊢
  split
  · exact hp2.adopt hrole hfree2 hold hnot rfl rfl rfl
  · exact (hp2.setIn _ _).adopt hrole hfree2 hold hnot rfl rfl rfl

/-- The left anchor starts a reconfiguration of a session. -/
theorem startLeftA_ledger (hp : Ledger E h ρ) (hr : ρ r = some .rcb)
    (hblank : (h.rcbMem r).newDcb = none) (hold : ρ old = some .out)
    (hnot : h.oom h.brk = false → ∀ n, ρ n ≠ some (.other old)) (pkt : ControlPacket) :
    ∃ ρ', Ledger E (startLeftA E h pkt r old).2 ρ' ∧ Finished ρ ρ' := by
  rw [startLeftA, kzallocOut_eq]
  cases hoom : h.oom h.brk with
  | true => exact ⟨ρ, hp.bump hoom, .refl ρ⟩
  | false =>
    simp only [Bool.false_eq_true, if_false]
    have hbare := hp.kzallocOut hoom
    have hself : Function.update ρ h.brk (some .bare) h.brk = some .bare := Function.update_self ..
    have hsame : ∀ x o, ρ x = some o → Function.update ρ h.brk (some .bare) x = some o :=
      fun x o hx => by
      rw [Function.update_of_ne (Nat.ne_of_lt (hp.lt x (by rw [hx]; exact nofun))), hx]
    have hnot' : ∀ n, Function.update ρ h.brk (some .bare) n ≠ some (.other old) := fun n => by
      rw [Function.update_apply]
      split
      · exact nofun
      · exact hnot hoom n
    have hzero : ((h.bump.setOut h.brk default).outMem h.brk).freeSc = false := by
      rw [Host.setOut_outMem_self]
      rfl
    have hmade : ∀ ρ'', Finished (Function.update ρ h.brk (some .bare)) ρ'' →
        ¬ Making ρ'' h.brk → Finished ρ ρ'' := fun _ => Finished.made
    generalize Function.update ρ h.brk (some Role.bare) = ρ1 at hbare hself hsame hnot' hmade
    have hrcb := hbare.setRcb_old (d := { h.rcbMem r with oldDcb := some old })
        (hsame r _ hr) hblank hblank
    generalize hd : (arp E pkt.tos _).withOtherPath old = d
    have hempty : d.freeSc = false := by
      rw [← hd]
      rfl
    have hset := hrcb.setOut_bare (d := d) hself hzero hempty
    have hmem := Host.setOut_outMem_self (p := h.brk)
      ((h.bump.setOut h.brk default).setRcb r { h.rcbMem r with oldDcb := some old }) d
    have hrcbMem : (h.bump.setOut h.brk default).rcbMem r = h.rcbMem r := rfl
    rw [hrcbMem]
    have hbrk :
        (((h.bump.setOut h.brk default).setRcb r { h.rcbMem r with oldDcb := some old }).setOut
      h.brk d).brk = h.brk + 1 := rfl
    generalize ((h.bump.setOut h.brk default).setRcb r
      { h.rcbMem r with oldDcb := some old }).setOut
      h.brk d = g at hset hmem hbrk ⊢
    cases hi : insertCbOutReverse E g h.brk true with
    | mk q k =>
      obtain ⟨ρ2, hp2, hb, hothers⟩ := insertCbOutReverse_ledger hset hi
      have hlink := hp2.setOut_keyed (p := h.brk) (d := (k.outMem h.brk).withDcbIn q)
          ⟨rfl, rfl, rfl⟩ rfl rfl
      have hlt : h.brk < g.brk := by omega
      have hlto : old < g.brk := by
        have hlt := hp.lt old (by rw [hold]; exact nofun)
        omega
      refine ⟨_, markOld_ledger hlink pkt.msg ((hb.role _ hlt).trans hself) ?_
        ((hb.role _ hlto).trans (hsame old _ hold)) fun n hn => hnot' n (hothers n old hn),
        hmade _ (.update hb.finished (by simp))
          (not_making (Function.update_self ..) (by simp))⟩
      rw [Host.setOut_outMem_self]
      change (k.outMem h.brk).freeSc = false
      rw [(hb.hold _ hlt).freeSc, hmem, hempty]

/-- The blocks of the new path at a host between the anchors. -/
theorem controlInsertOut_ledger (hp : Ledger E h ρ) (pkt : ControlPacket) (r : Nat) :
    ∃ ρ', Ledger E (controlInsertOut E h pkt r) ρ' ∧ Finished ρ ρ' := by
  rw [controlInsertOut, kzallocOut_eq]
  cases hoom : h.oom h.brk with
  | true => exact ⟨ρ, hp.bump hoom, .refl ρ⟩
  | false =>
    simp only [Bool.false_eq_true, if_false]
    have hbare := hp.kzallocOut hoom
    have hself : Function.update ρ h.brk (some .bare) h.brk = some .bare := Function.update_self ..
    have hzero : (h.bump.setOut h.brk default).outMem h.brk = default := Host.setOut_outMem_self ..
    have hmade : ∀ ρ'', Finished (Function.update ρ h.brk (some .bare)) ρ'' →
        ¬ Making ρ'' h.brk → Finished ρ ρ'' := fun _ => Finished.made
    generalize Function.update ρ h.brk (some Role.bare) = ρ1 at hbare hself hmade
    generalize hd : arp E pkt.tos _ = d
    have hempty : d.freeSc = false ∧ d.otherPath = none := by
      rw [← hd, hzero, arp]
      exact ⟨rfl, rfl⟩
    have hset := hbare.setOut_bare (d := d) hself (by rw [hzero]; rfl) hempty.1
    obtain ⟨ρ2, hp2, hout, hfin⟩ := insertCbOut_ledger hset hself (by
      rw [Host.setOut_outMem_self]
      exact hempty.2)
    have hdone := hmade ρ2 hfin (not_making hout (by simp))
    split
    · exact ⟨ρ2, hp2, hdone⟩
    · exact ⟨ρ2, hp2.setIn _ _, hdone⟩

/-- A session that is reconfigured from the left is not being reconfigured already. -/
def LeftMade (E : Env) (h : Host) (pkt : ControlPacket) : Prop :=
  pkt.saddr = pkt.msg.leftA → h.lookupReconfig E pkt.msg.super = none →
    ∀ old, h.lookupOut E pkt.msg.leftSS = some old → h.oom h.brk = false →
      h.oom (h.brk + 1) = false → h.Idle old

/-- A `DYSCO_SYN` that `dysco_control_output` looks at. -/
def ControlPacket.SynLeaves (E : Env) (pkt : ControlPacket) : Prop :=
  pkt.SynEnters ∧ pkt.saddr ∈ E.ifaddrs ∧ pkt.dest ≠ dyscoMgmPort

theorem controlOutputSyn_ledger (hp : Ledger E h ρ) {pkt : ControlPacket}
    (hmade : LeftMade E h pkt) :
    ∃ ρ', Ledger E (controlOutputSyn E h pkt).2.1 ρ' ∧ Finished ρ ρ' := by
  have hfiled : Finished ρ (Function.update ρ h.brk (some .rcb)) := .update (.refl ρ) (by simp)
  rw [controlOutputSyn]
  simp only
  split
  · rename_i hleft
    split
    · exact ⟨ρ, hp, .refl ρ⟩
    · rename_i hnew
      split
      · exact ⟨ρ, hp, .refl ρ⟩
      · rename_i old hfound
        have hold := (hp.out old).mp (h.lookupOut_eq_some hfound).1
        generalize pkt.announce (h.outMem old) (h.inOf (h.outMem old)) = pkt'
        have hins := insertCbControl_ledger hp pkt'
        cases hi : insertCbControl E h pkt' with
        | mk o rest =>
          obtain ⟨g, pkt''⟩ := rest
          rw [hi] at hins
          obtain ⟨-, ho, hp1⟩ | ⟨hoom, ho, hp1, hblank, -, hbrk, hoomg⟩ := hins
          · cases ho
            exact ⟨ρ, hp1, .refl ρ⟩
          · cases ho
            have hne : old ≠ h.brk := Nat.ne_of_lt (hp.lt old (by rw [hold]; exact nofun))
            have hnot : g.oom g.brk = false →
                ∀ n, Function.update ρ h.brk (some .rcb) n ≠ some (.other old) := by
              intro hoom' n
              rw [hbrk, hoomg] at hoom'
              rw [Function.update_apply]
              split
              · exact nofun
              · exact hp.idle (hmade hleft hnew old hfound hoom hoom') n
            obtain ⟨ρ', hp', hfin⟩ := startLeftA_ledger hp1 (Function.update_self ..) hblank
              ((Function.update_of_ne hne ..).trans hold) hnot pkt''
            exact ⟨ρ', hp', hfiled.trans hfin⟩
  · split
    · exact ⟨ρ, hp, .refl ρ⟩
    · have hins := insertCbControl_ledger hp pkt
      cases hi : insertCbControl E h pkt with
      | mk o rest =>
        obtain ⟨g, pkt'⟩ := rest
        rw [hi] at hins
        obtain ⟨-, ho, hp1⟩ | ⟨-, ho, hp1, -⟩ := hins
        · cases ho
          exact ⟨ρ, hp1, .refl ρ⟩
        · cases ho
          obtain ⟨ρ', hp', hfin⟩ := controlInsertOut_ledger hp1 pkt' h.brk
          exact ⟨ρ', hp', hfiled.trans hfin⟩

theorem replaceCbRightA_ledger (hp : Ledger E h ρ) (pkt : ControlPacket) :
    Ledger E (replaceCbRightA E h pkt).1 ρ := by
  rw [replaceCbRightA]
  split
  · exact hp
  · rename_i r hfound
    have hr := (hp.rcb r).mp (BucketTable.lookup_eq_some hfound).1
    split
    · rename_i old new hold hnew
      exact hp.link hr hold hnew rfl rfl rfl
    · exact hp

theorem ackOut_ledger (hp : Ledger E h ρ) (pkt : ControlPacket) :
    Ledger E (ackOut E h pkt).1 ρ := by
  rw [ackOut]
  split
  · exact hp
  · split
    · exact hp
    · split
      · split
        · exact hp
        · split
          · exact hp
          · exact replaceCbLeftA_ledger hp pkt _
      · exact hp

theorem ctlSaveRcvWindow_ledger (hp : Ledger E h ρ) (m : ControlMessage) :
    Ledger E (ctlSaveRcvWindow E h m).2 ρ := by
  rw [ctlSaveRcvWindow]
  split
  · exact hp
  · split
    · exact hp
    · split
      · exact hp
      · split
        · exact hp
        · split
          · exact hp
          · refine Ledger.setOut_keyed (Ledger.setOut_keyed hp ?_ ?_ ?_) ?_ ?_ ?_
            all_goals first | exact ⟨rfl, rfl, rfl⟩ | rfl

/-- **A control message leaves the host.** -/
theorem controlOutput_ledger (hp : Ledger E h ρ) {pkt : ControlPacket}
    (hmade : pkt.SynLeaves E → LeftMade E h pkt) :
    ∃ ρ', Ledger E (controlOutput E h pkt).1 ρ' ∧ Finished ρ ρ' := by
  rw [controlOutput]
  split
  · exact ⟨ρ, hp, .refl ρ⟩
  · rename_i hport
    split
    · exact ⟨ρ, hp, .refl ρ⟩
    · rename_i hlen
      split
      · exact ⟨ρ, hp, .refl ρ⟩
      · rename_i haddr
        split
        · exact ⟨ρ, ctlSaveRcvWindow_ledger hp pkt.msg, .refl ρ⟩
        · rename_i hmgm
          have hports : pkt.dest = dyscoControlPort ∨ pkt.source = dyscoControlPort :=
            (or_assoc.mpr (not_not.mp hport)).resolve_right hmgm
          cases ht : pkt.msg.mtype with
          | syn =>
            exact controlOutputSyn_ledger hp
              (hmade ⟨⟨hports, not_lt.mp hlen, ht⟩, not_not.mp haddr, hmgm⟩)
          | synAck =>
            simp only
            split
            · exact ⟨ρ, replaceCbRightA_ledger hp pkt, .refl ρ⟩
            · exact ⟨ρ, hp, .refl ρ⟩
          | ack => exact ⟨ρ, ackOut_ledger hp pkt, .refl ρ⟩
          | fin => exact ⟨ρ, hp, .refl ρ⟩
          | stateTransferred => exact ⟨ρ, hp, .refl ρ⟩
          | ackAck => exact ⟨ρ, hp, .refl ρ⟩
          | unknown code => exact ⟨ρ, hp, .refl ρ⟩

/-! ## Policies -/

theorem addPolicy_ledger (hp : Ledger E h ρ) (filter : SkBuff → Bool) (sc : ServiceChain)
    (made : Bool) :
    ∃ ρ', Ledger E (addPolicy h filter sc made) ρ' ∧ Finished ρ ρ' := by
  rw [addPolicy, kmalloc_eq]
  cases hoom : h.oom h.brk with
  | true => exact ⟨ρ, hp.bump hoom, .refl ρ⟩
  | false =>
    simp only [Bool.false_eq_true, if_false]
    have hset := (hp.alloc hoom).setSc h.brk { sc with pos := (h.bump.scMem h.brk).pos }
    have hself : Function.update ρ h.brk (some .raw) h.brk = some .raw := Function.update_self ..
    cases made with
    | true =>
      have hpol := hset.addPolicy hself filter
      rw [Function.update_idem] at hpol
      exact ⟨_, hpol, .update (.refl ρ) (by simp)⟩
    | false =>
      have hfree := hset.free hself
      rw [Function.update_idem] at hfree
      exact ⟨_, hfree, .update (.refl ρ) (by simp)⟩

end Dysco
