import Dysco.Input
import Dysco.TableLinks
import Dysco.TransitionSystem

/-! # The chains of the pending tables

A block that waits for its SYN to leave the middlebox is put into two tables through
one `rhash_head`, and moved to the output table through the same field when the SYN
leaves.  What counts here are the chains that the field really forms (`Host.links`).

The tables are well formed as long as every block is made while all pending blocks sit
in its own bucket of `dysco_hash_pen`, and a block that is told by its tag keeps its bucket
(`pending_wellFormed`); all pending blocks sit in one bucket of `dysco_hash_pen_tag` anyway,
since a new block's tag is zero.  A block made while another one waits in a different bucket
takes that one into its own chain (`pending_crossed`).
-/
namespace Dysco

variable (E : Env)

/-- A host that SYNs cross. -/
structure Crossing where
  host : Host
  /-- The blocks inserted and not yet emitted, newest first. -/
  pending : List Nat
  /-- The blocks emitted, latest first. -/
  emitted : List Nat

namespace Crossing
variable (s : Crossing)

/-- `dysco_insert_pending`. -/
def insertPending (sp : SynPacket) : Crossing :=
  match Dysco.insertPending E s.host sp with
  | (false, h) => { s with host := h }
  | (true, h) => { s with host := h, pending := s.host.brk :: s.pending }

/-- `dysco_lookup_pen_tag` and `dysco_update_five_tuple`: the middlebox has changed the five-tuple
of a block that is told by its tag. -/
def updateFiveTuple (skb : SkBuff) (a : Nat) : Crossing :=
  { s with
    host := Dysco.updateFiveTuple (lookupPenTagBy E (s.host.searchTag E) s.host skb).2 skb a }

/-- `dysco_out_handle_mb`. -/
def outHandleMb (skb : SkBuff) (a : Nat) : Crossing where
  host := (Dysco.outHandleMb E s.host skb a).1
  pending := s.pending.erase a
  emitted := a :: s.emitted

end Crossing

/-- A SYN comes in and is to leave again, or leaves, with the five-tuple it had or with another
one. -/
inductive PendingStep where
  | insertPending (sp : SynPacket)
  | outHandleMb (skb : SkBuff) (a : Nat)
  | updateFiveTuple (skb : SkBuff) (a : Nat)

/-- SYNs that cross a middlebox host, in any order. -/
def pendingSystem : TransitionSystem Crossing PendingStep where
  init s := s.host.hashOut.entries = [] ∧ s.host.hashPen.entries = [] ∧
    s.host.hashPenTag.entries = [] ∧ (∀ t b, s.host.links.head t b = none) ∧
    s.pending = [] ∧ s.emitted = []
  step s l t :=
    match l with
    | .insertPending sp => t = s.insertPending E sp
    | .outHandleMb skb a => a ∈ s.pending ∧ t = s.outHandleMb E skb a
    | .updateFiveTuple skb a =>
      a ∈ s.pending ∧ (lookupPenTagBy E (s.host.searchTag E) s.host skb).1 = some a ∧
        t = (s.updateFiveTuple E skb a).outHandleMb E skb a

/-- Every bucket of every table leads to exactly the blocks that belong there. -/
structure Crossing.WellFormed (s : Crossing) : Prop where
  pen : ∀ b, ∃ l, s.host.links.Leads .pen b l ∧
    ∀ a, a ∈ l ↔ a ∈ s.pending ∧ E.penHash (s.host.outMem a).super = b
  penTag : ∀ b, ∃ l, s.host.links.Leads .penTag b l ∧
    ∀ a, a ∈ l ↔ a ∈ s.pending ∧ E.tagHash (s.host.outMem a).dyscoTag = b
  out : ∀ b, ∃ l, s.host.links.Leads .out b l ∧
    ∀ a, a ∈ l ↔ a ∈ s.emitted ∧ E.sessionHash (s.host.outMem a).super = b

/-- A block is only made while all pending ones are in its bucket of `dysco_hash_pen`, and a new
five-tuple belongs to the bucket of the old one. -/
def OwnBucket (s : Crossing) : PendingStep → Prop
  | .insertPending sp =>
    s.host.oom s.host.brk = false → s.host.oom (s.host.brk + 1) = false →
      ∀ a ∈ s.pending, E.penHash (s.host.outMem a).super = E.penHash sp.ss
  | .outHandleMb _ _ => True
  | .updateFiveTuple skb a => E.penHash skb.session = E.penHash (s.host.outMem a).super

variable {E}

/-! ## What the two functions do to the blocks -/

/-- A pending block is made at the next address, with a zero tag. -/
theorem insertPending_block {h h' : Host} {sp : SynPacket} {ok : Bool}
    (hi : insertPending E h sp = (ok, h')) :
    h.brk ≤ h'.brk ∧ (∀ x < h.brk, h'.outMem x = h.outMem x) ∧
      (ok = true → h.brk < h'.brk ∧ (h'.outMem h.brk).super = sp.ss ∧
        (h'.outMem h.brk).dyscoTag = 0#32) := by
  unfold insertPending at hi
  split at hi
  · rename_i h1 hk
    cases hi
    unfold Host.kzallocOut at hk
    split at hk <;> cases hk
    exact ⟨Nat.le_succ _, fun _ _ => rfl, nofun⟩
  · rename_i p h1 hk
    obtain ⟨rfl, rfl⟩ := Host.kzallocOut_some hk
    simp only at hi
    split at hi
    · rename_i h2 hk2
      cases hi
      unfold Host.kmalloc at hk2
      split at hk2 <;> cases hk2
      refine ⟨by simp [Host.kfree]; omega, ?_, nofun⟩
      intro x hx
      simp [Host.kfree, Nat.ne_of_lt hx]
    · rename_i b h2 hk2
      obtain ⟨rfl, rfl⟩ := Host.kmalloc_some hk2
      cases hi
      refine ⟨by simp [Host.insertPen, Host.insertTag, Host.setSc]; omega, ?_, fun _ => ⟨?_, ?_⟩⟩
      · intro x hx
        simp [Host.insertPen, Host.insertTag, Host.setSc, Nat.ne_of_lt hx]
      · simp [Host.insertPen, Host.insertTag, Host.setSc]
      · simp [Host.insertPen, Host.insertTag, Host.setSc]
        rfl

/-- The options of a SYN do not change whose block it is. -/
theorem super_parseTcpSynOptS (skb : SkBuff) (d : CbOut) :
    (parseTcpSynOptS skb d).super = d.super := by
  rw [parseTcpSynOptS_eq]
  rfl

/-- Putting a block into the output table keeps all blocks but for its own reverse. -/
theorem insertCbOut_block (h : Host) (p : Nat) (twoPaths : Bool) :
    h.brk ≤ (insertCbOut E h p twoPaths).brk ∧
      (∀ x, x ≠ p → (insertCbOut E h p twoPaths).outMem x = h.outMem x) ∧
      ((insertCbOut E h p twoPaths).outMem p).super = (h.outMem p).super := by
  unfold insertCbOut insertCbOutReverse
  simp only
  cases hk : (h.insertOut E p).kzallocIn with
  | mk o h1 =>
    cases o with
    | none =>
      unfold Host.kzallocIn at hk
      split at hk <;> cases hk
      refine ⟨Nat.le_succ _, fun x hx => ?_, ?_⟩
      · simp [hx]
      · simp [CbOut.withDcbIn]
    | some q =>
      obtain ⟨rfl, rfl⟩ := Host.kzallocIn_some hk
      refine ⟨Nat.le_succ _, fun x hx => ?_, ?_⟩
      · simp [hx]
      · simp [CbOut.withDcbIn]

/-- What `dysco_out_handle_mb` files in the output table is the pending block, which keeps its
session. -/
theorem outHandleMb_files (h : Host) (skb : SkBuff) (p : Nat) :
    ∃ dcb : CbOut, dcb.super = (h.outMem p).super ∧
      (outHandleMb E h skb p).1 = insertCbOut E
        ((((h.removePen E p).removeTag E p).allocateLocalPort).2.setOut p dcb) p false := by
  refine ⟨_, ?_, rfl⟩
  rw [super_parseTcpSynOptS]
  simp only
  split <;> rfl

/-- An emitted block keeps its five-tuple, and the other blocks are left alone. -/
theorem outHandleMb_block (h : Host) (skb : SkBuff) (p : Nat) :
    h.brk ≤ (outHandleMb E h skb p).1.brk ∧
      (∀ x, x ≠ p → (outHandleMb E h skb p).1.outMem x = h.outMem x) ∧
      ((outHandleMb E h skb p).1.outMem p).super = (h.outMem p).super := by
  obtain ⟨dcb, hsuper, hfiles⟩ := outHandleMb_files (E := E) h skb p
  rw [hfiles]
  generalize hg : (((h.removePen E p).removeTag E p).allocateLocalPort).2 = g
  have hbrk : g.brk = h.brk := by rw [← hg]; rfl
  have hmem : g.outMem = h.outMem := by rw [← hg]; rfl
  obtain ⟨hle, hother, hown⟩ := insertCbOut_block (E := E) (g.setOut p dcb) p false
  refine ⟨?_, fun x hx => ?_, ?_⟩
  · rw [Host.setOut_brk, hbrk] at hle
    exact hle
  · rw [hother x hx, Host.setOut_outMem_of_ne _ hx, hmem]
  · rw [hown, Host.setOut_outMem_self, hsuper]

/-- What `dysco_insert_pending` does to the tables: it files the block it has made under the
session and under the tag zero. -/
theorem insertPending_tables {h h' : Host} {sp : SynPacket} {ok : Bool}
    (hi : insertPending E h sp = (ok, h')) :
    h'.hashOut = h.hashOut ∧
      (ok = false → h'.hashPen = h.hashPen ∧ h'.hashPenTag = h.hashPenTag ∧ h'.links = h.links) ∧
      (ok = true → h.oom h.brk = false ∧ h.oom (h.brk + 1) = false ∧
        h'.hashPen = ⟨(E.penHash sp.ss, h.brk) :: h.hashPen.entries⟩ ∧
        h'.hashPenTag = ⟨(E.tagHash 0#32, h.brk) :: h.hashPenTag.entries⟩ ∧
        h'.links = (h.links.insert .pen (E.penHash sp.ss) h.brk).insert .penTag (E.tagHash 0#32)
          h.brk) := by
  unfold insertPending Host.kzallocOut at hi
  cases h0 : h.oom h.brk with
  | true =>
    rw [h0] at hi
    cases hi
    exact ⟨rfl, fun _ => ⟨rfl, rfl, rfl⟩, fun hok => absurd hok Bool.false_ne_true⟩
  | false =>
    rw [h0] at hi
    simp only [Bool.false_eq_true, if_false] at hi
    unfold Host.kmalloc at hi
    cases h1 : h.oom (h.brk + 1) with
    | true =>
      simp only [Host.setOut_oom, Host.bump_oom, Host.setOut_brk, Host.bump_brk, h1, if_true] at hi
      cases hi
      exact ⟨rfl, fun _ => ⟨rfl, rfl, rfl⟩, fun hok => absurd hok Bool.false_ne_true⟩
    | false =>
      simp only [Host.setOut_oom, Host.bump_oom, Host.setOut_brk, Host.bump_brk, h1,
        Bool.false_eq_true, if_false] at hi
      -- the block as it is filed
      generalize hg : Host.setOut _ h.brk
        { Host.outMem _ h.brk with sc := _, freeSc := _ } = g at hi
      have hkeys : (g.outMem h.brk).super = sp.ss ∧ (g.outMem h.brk).dyscoTag = 0#32 := by
        rw [← hg]
        simp [Host.setSc]
        rfl
      have htables : g.hashOut = h.hashOut ∧ g.hashPen = h.hashPen ∧
          g.hashPenTag = h.hashPenTag ∧ g.links = h.links := by
        rw [← hg]
        exact ⟨rfl, rfl, rfl, rfl⟩
      cases hi
      rw [Host.insertTag, Host.insertPen, BucketTable.insert, BucketTable.insert, hkeys.1, hkeys.2,
        htables.1, htables.2.1, htables.2.2.1, htables.2.2.2]
      exact ⟨rfl, fun hok => absurd hok.symm Bool.false_ne_true, fun _ => ⟨rfl, rfl, rfl, rfl, rfl⟩⟩

/-- A block goes into the output table under its session. -/
theorem insertCbOut_tables (h : Host) (p : Nat) (twoPaths : Bool) :
    (insertCbOut E h p twoPaths).hashOut =
        ⟨(E.sessionHash (h.outMem p).super, p) :: h.hashOut.entries⟩ ∧
      (insertCbOut E h p twoPaths).hashPen = h.hashPen ∧
      (insertCbOut E h p twoPaths).hashPenTag = h.hashPenTag ∧
      (insertCbOut E h p twoPaths).links =
        h.links.insert .out (E.sessionHash (h.outMem p).super) p := by
  unfold insertCbOut insertCbOutReverse Host.kzallocIn
  cases h0 : (h.insertOut E p).oom (h.insertOut E p).brk with
  | true =>
    simp only [h0, if_true]
    exact ⟨rfl, rfl, rfl, rfl⟩
  | false =>
    simp only [h0, Bool.false_eq_true, if_false]
    exact ⟨rfl, rfl, rfl, rfl⟩

/-- What `dysco_out_handle_mb` does to the tables. -/
theorem outHandleMb_tables (h : Host) (skb : SkBuff) (p : Nat) :
    (outHandleMb E h skb p).1.hashOut =
        ⟨(E.sessionHash (h.outMem p).super, p) :: h.hashOut.entries⟩ ∧
      (outHandleMb E h skb p).1.hashPen =
        ⟨h.hashPen.entries.erase (E.penHash (h.outMem p).super, p)⟩ ∧
      (outHandleMb E h skb p).1.hashPenTag =
        ⟨h.hashPenTag.entries.erase (E.tagHash (h.outMem p).dyscoTag, p)⟩ ∧
      (outHandleMb E h skb p).1.links =
        ((h.links.remove .pen (E.penHash (h.outMem p).super) p h.brk).remove .penTag
          (E.tagHash (h.outMem p).dyscoTag) p h.brk).insert .out
            (E.sessionHash (h.outMem p).super) p := by
  obtain ⟨dcb, hsuper, hfiles⟩ := outHandleMb_files (E := E) h skb p
  rw [hfiles]
  obtain ⟨hout, hpen, htag, hlinks⟩ := insertCbOut_tables (E := E)
    ((((h.removePen E p).removeTag E p).allocateLocalPort).2.setOut p dcb) p false
  rw [Host.setOut_outMem_self, hsuper] at hout hlinks
  exact ⟨hout, hpen, htag, hlinks⟩

/-- A block found by its tag keeps its session, and has the tag that was searched for. -/
theorem lookupPenTagBy_some {search : U32 → Option Nat} {h h' : Host} {skb : SkBuff} {p : Nat}
    (hl : lookupPenTagBy E search h skb = (some p, h')) :
    ∃ d : CbOut, h' = h.setOut p d ∧ d.super = (h.outMem p).super ∧
      search d.dyscoTag = some p := by
  unfold lookupPenTagBy at hl
  simp only at hl
  split at hl
  · split at hl
    · cases hl
    · rename_i hfound
      cases hl
      exact ⟨_, rfl, rfl, hfound⟩
  · cases hl

/-! ## Runs that keep the pending blocks in one bucket -/

/-- The tables list what is pending and what was emitted, under the present keys, and the links
agree with them. -/
structure Crossing.Kept (E : Env) (s : Crossing) : Prop where
  threaded : Threaded s.host.hashOut s.host.hashPen s.host.hashPenTag s.host.links
  pen_nodes : s.host.hashPen.nodes = s.pending
  out_nodes : s.host.hashOut.nodes = s.emitted
  pen_key : ∀ e ∈ s.host.hashPen.entries, e.1 = E.penHash (s.host.outMem e.2).super
  out_key : ∀ e ∈ s.host.hashOut.entries, e.1 = E.sessionHash (s.host.outMem e.2).super
  tag_bucket : ∀ e ∈ s.host.hashPenTag.entries, e.1 = E.tagHash 0#32
  tag_zero : ∀ a ∈ s.pending, (s.host.outMem a).dyscoTag = 0#32
  pending_lt : ∀ a ∈ s.pending, a < s.host.brk
  emitted_lt : ∀ a ∈ s.emitted, a < s.host.brk
  pending_nodup : s.pending.Nodup
  emitted_disjoint : ∀ a ∈ s.emitted, a ∉ s.pending

namespace Crossing.Kept
variable {s : Crossing} {skb : SkBuff} {a : Nat}

theorem pen_iff (k : s.Kept E) {x : Nat} : s.host.hashPen.Holds x ↔ x ∈ s.pending := by
  rw [← BucketTable.mem_nodes, k.pen_nodes]

theorem out_iff (k : s.Kept E) {x : Nat} : s.host.hashOut.Holds x ↔ x ∈ s.emitted := by
  rw [← BucketTable.mem_nodes, k.out_nodes]

theorem tag_nodes (k : s.Kept E) : s.host.hashPenTag.nodes = s.pending :=
  k.threaded.nodes.symm.trans k.pen_nodes

theorem wellFormed (k : s.Kept E) : s.WellFormed E where
  pen b := ⟨_, k.threaded.leadsPen b, fun a => by
    rw [BucketTable.mem_bucket_iff (f := fun p => E.penHash (s.host.outMem p).super) k.pen_key,
      k.pen_nodes]⟩
  penTag b := by
    refine ⟨_, k.threaded.leadsTag b, fun a => ?_⟩
    rw [BucketTable.mem_bucket_iff (f := fun _ => E.tagHash 0#32) k.tag_bucket, k.tag_nodes]
    constructor
    · rintro ⟨ha, hb⟩
      exact ⟨ha, by rw [k.tag_zero a ha, hb]⟩
    · rintro ⟨ha, hb⟩
      exact ⟨ha, by rw [← hb, k.tag_zero a ha]⟩
  out b := ⟨_, k.threaded.leadsOut b, fun a => by
    rw [BucketTable.mem_bucket_iff (f := fun p => E.sessionHash (s.host.outMem p).super) k.out_key,
      k.out_nodes]⟩

/-- Distinct blocks below the break are no more than the break. -/
theorem length_le (k : s.Kept E) : s.host.hashPen.nodes.length ≤ s.host.brk := by
  rw [k.pen_nodes]
  have hsub : s.pending ⊆ List.range s.host.brk :=
    fun a ha => List.mem_range.mpr (k.pending_lt a ha)
  have hle := (List.subperm_of_subset k.pending_nodup hsub).length_le
  rwa [List.length_range] at hle

/-- A write to a pending block that leaves it in its buckets. -/
theorem setOut (k : s.Kept E) (ha : a ∈ s.pending) {d : CbOut}
    (hsuper : E.penHash d.super = E.penHash (s.host.outMem a).super) (htag : d.dyscoTag = 0#32) :
    ({ s with host := s.host.setOut a d } : Crossing).Kept E where
  threaded := k.threaded
  pen_nodes := k.pen_nodes
  out_nodes := k.out_nodes
  pen_key e he := by
    rw [k.pen_key e he]
    by_cases hea : e.2 = a
    · rw [hea, Host.setOut_outMem_self, hsuper]
    · rw [Host.setOut_outMem_of_ne _ hea]
  out_key e he := by
    have hea : e.2 ≠ a := fun hc =>
      k.emitted_disjoint e.2 (k.out_iff.mp ⟨e.1, he⟩) (hc ▸ ha)
    rw [Host.setOut_outMem_of_ne _ hea]
    exact k.out_key e he
  tag_bucket := k.tag_bucket
  tag_zero x hx := by
    by_cases hxa : x = a
    · rw [hxa, Host.setOut_outMem_self, htag]
    · rw [Host.setOut_outMem_of_ne _ hxa]
      exact k.tag_zero x hx
  pending_lt := k.pending_lt
  emitted_lt := k.emitted_lt
  pending_nodup := k.pending_nodup
  emitted_disjoint := k.emitted_disjoint

/-- The middlebox has changed the five-tuple, within the bucket. -/
theorem updateFiveTuple (k : s.Kept E) (ha : a ∈ s.pending)
    (hfound : (lookupPenTagBy E (s.host.searchTag E) s.host skb).1 = some a)
    (hgood : OwnBucket E s (.updateFiveTuple skb a)) : (s.updateFiveTuple E skb a).Kept E := by
  unfold Crossing.updateFiveTuple
  cases hl : lookupPenTagBy E (s.host.searchTag E) s.host skb with
  | mk o h' =>
    rw [hl] at hfound
    cases hfound
    obtain ⟨d, rfl, hsuper, htag⟩ := lookupPenTagBy_some hl
    -- the tag that was found is the block's own
    have hkey : (s.host.outMem a).dyscoTag = d.dyscoTag := by
      rw [Host.searchTag] at htag
      simpa using List.find?_some htag
    have h1 := k.setOut ha (d := d) (by rw [hsuper]) (hkey.symm.trans (k.tag_zero a ha))
    exact h1.setOut ha (by rw [Host.setOut_outMem_self, hsuper]; exact hgood)
      (h1.tag_zero a ha)

theorem insertPending (k : s.Kept E) {sp : SynPacket}
    (hgood : OwnBucket E s (.insertPending sp)) : (s.insertPending E sp).Kept E := by
  unfold Crossing.insertPending
  cases hi : Dysco.insertPending E s.host sp with
  | mk ok h' =>
    obtain ⟨hbrk, hmem, hnew⟩ := insertPending_block hi
    obtain ⟨hout, hfail, hdone⟩ := insertPending_tables hi
    have hpend : ∀ x ∈ s.pending, h'.outMem x = s.host.outMem x :=
      fun x hx => hmem x (k.pending_lt x hx)
    have hemit : ∀ x ∈ s.emitted, h'.outMem x = s.host.outMem x :=
      fun x hx => hmem x (k.emitted_lt x hx)
    have hpenKey : ∀ e ∈ s.host.hashPen.entries, e.1 = E.penHash (h'.outMem e.2).super :=
      fun e he => by rw [hpend e.2 (k.pen_iff.mp ⟨e.1, he⟩)]; exact k.pen_key e he
    have houtKey : ∀ e ∈ h'.hashOut.entries, e.1 = E.sessionHash (h'.outMem e.2).super :=
      fun e he => by
        rw [hout] at he
        rw [hemit e.2 (k.out_iff.mp ⟨e.1, he⟩)]
        exact k.out_key e he
    cases ok with
    | false =>
      obtain ⟨hpen, htag, hlinks⟩ := hfail rfl
      exact
        { threaded := by
            rw [hout, hpen, htag, hlinks]
            exact k.threaded
          pen_nodes := (congrArg BucketTable.nodes hpen).trans k.pen_nodes
          out_nodes := (congrArg BucketTable.nodes hout).trans k.out_nodes
          pen_key := fun e he => hpenKey e (hpen ▸ he)
          out_key := houtKey
          tag_bucket := fun e he => k.tag_bucket e (htag ▸ he)
          tag_zero := fun a ha => (congrArg CbOut.dyscoTag (hpend a ha)).trans (k.tag_zero a ha)
          pending_lt := fun a ha => Nat.lt_of_lt_of_le (k.pending_lt a ha) hbrk
          emitted_lt := fun a ha => Nat.lt_of_lt_of_le (k.emitted_lt a ha) hbrk
          pending_nodup := k.pending_nodup
          emitted_disjoint := k.emitted_disjoint }
    | true =>
      obtain ⟨hlt, hsuper, hzero⟩ := hnew rfl
      obtain ⟨h0, h1, hpen, htag, hlinks⟩ := hdone rfl
      have hnotPending : s.host.brk ∉ s.pending := fun hm => Nat.lt_irrefl _ (k.pending_lt _ hm)
      have hnotEmitted : s.host.brk ∉ s.emitted := fun hm => Nat.lt_irrefl _ (k.emitted_lt _ hm)
      have hbucket : ∀ e ∈ s.host.hashPen.entries, e.1 = E.penHash sp.ss := fun e he =>
        (k.pen_key e he).trans (hgood h0 h1 e.2 (k.pen_iff.mp ⟨e.1, he⟩))
      refine
        { threaded := ?_, pen_nodes := ?_, out_nodes := ?_, pen_key := ?_, out_key := houtKey
          tag_bucket := ?_, tag_zero := ?_, pending_lt := ?_
          emitted_lt := fun a ha => Nat.lt_of_lt_of_le (k.emitted_lt a ha) hbrk
          pending_nodup := List.nodup_cons.mpr ⟨hnotPending, k.pending_nodup⟩
          emitted_disjoint := ?_ }
      · rw [hout, hpen, htag, hlinks]
        exact k.threaded.insertPending (fun hc => hnotEmitted (k.out_iff.mp hc))
          (fun hc => hnotPending (k.pen_iff.mp hc)) hbucket k.tag_bucket
      · rw [hpen, BucketTable.nodes, List.map_cons]
        exact congrArg (s.host.brk :: ·) k.pen_nodes
      · exact (congrArg BucketTable.nodes hout).trans k.out_nodes
      · intro e he
        rw [hpen] at he
        rcases List.mem_cons.mp he with rfl | he
        · exact congrArg E.penHash hsuper.symm
        · exact hpenKey e he
      · intro e he
        rw [htag] at he
        rcases List.mem_cons.mp he with rfl | he
        · rfl
        · exact k.tag_bucket e he
      · intro a ha
        rcases List.mem_cons.mp ha with rfl | ha
        · exact hzero
        · exact (congrArg CbOut.dyscoTag (hpend a ha)).trans (k.tag_zero a ha)
      · intro a ha
        rcases List.mem_cons.mp ha with rfl | ha
        · exact hlt
        · exact Nat.lt_of_lt_of_le (k.pending_lt a ha) hbrk
      · intro a ha hm
        rcases List.mem_cons.mp hm with rfl | hm
        · exact hnotEmitted ha
        · exact k.emitted_disjoint a ha hm

theorem outHandleMb (k : s.Kept E) (skb : SkBuff) (ha : a ∈ s.pending) :
    (s.outHandleMb E skb a).Kept E := by
  obtain ⟨hbrk, hmem, hsuper⟩ := outHandleMb_block (E := E) s.host skb a
  obtain ⟨hout, hpen, htag, hlinks⟩ := outHandleMb_tables (E := E) s.host skb a
  have herase : ∀ x ∈ s.pending.erase a, x ≠ a ∧ x ∈ s.pending :=
    fun x hx => (k.pending_nodup.mem_erase_iff).mp hx
  have hnotEmitted : a ∉ s.emitted := fun hm => k.emitted_disjoint a hm ha
  -- the block is where its keys say
  have hentry : (E.penHash (s.host.outMem a).super, a) ∈ s.host.hashPen.entries := by
    obtain ⟨b, hb⟩ := k.pen_iff.mpr ha
    have hkey := k.pen_key _ hb
    exact hkey ▸ hb
  have htagKey : ∀ e ∈ s.host.hashPenTag.entries, e.1 = E.tagHash (s.host.outMem a).dyscoTag :=
    fun e he => by rw [k.tag_zero a ha]; exact k.tag_bucket e he
  have hthreaded := k.threaded.removePending hentry (k.pen_nodes ▸ k.pending_nodup)
    (fun x hx hc => k.emitted_disjoint x (k.out_iff.mp hc) (k.pen_iff.mp hx)) htagKey k.length_le
  have hnodes : BucketTable.nodes ⟨s.host.hashPen.entries.erase
      (E.penHash (s.host.outMem a).super, a)⟩ = s.pending.erase a := by
    rw [BucketTable.nodes_erase_of_one fun e he => k.threaded.one e he _ hentry]
    exact congrArg (List.erase · a) k.pen_nodes
  have hother : ∀ e ∈ s.host.hashOut.entries, e.2 ≠ a := fun e he hc =>
    hnotEmitted (hc ▸ k.out_iff.mp ⟨e.1, he⟩)
  unfold Crossing.outHandleMb
  generalize (Dysco.outHandleMb E s.host skb a).1 = h' at hbrk hmem hsuper hout hpen htag hlinks ⊢
  refine
    { threaded := ?_, pen_nodes := ?_, out_nodes := ?_, pen_key := ?_, out_key := ?_
      tag_bucket := ?_, tag_zero := ?_, pending_lt := ?_, emitted_lt := ?_
      pending_nodup := k.pending_nodup.erase a
      emitted_disjoint := ?_ }
  · rw [hout, hpen, htag, hlinks]
    refine hthreaded.insertOut (fun hc => hnotEmitted (k.out_iff.mp hc)) fun hc => ?_
    rw [← BucketTable.mem_nodes, hnodes] at hc
    exact (herase a hc).1 rfl
  · rw [hpen, hnodes]
  · rw [hout, BucketTable.nodes, List.map_cons]
    exact congrArg (a :: ·) k.out_nodes
  · intro e he
    rw [hpen] at he
    have hx : e.2 ∈ s.pending.erase a := by
      rw [← hnodes]
      exact BucketTable.mem_nodes.mpr ⟨e.1, he⟩
    rw [hmem e.2 (herase e.2 hx).1]
    exact k.pen_key e (List.mem_of_mem_erase he)
  · intro e he
    rw [hout] at he
    rcases List.mem_cons.mp he with rfl | he
    · exact congrArg E.sessionHash hsuper.symm
    · rw [hmem e.2 (hother e he)]
      exact k.out_key e he
  · intro e he
    rw [htag] at he
    exact k.tag_bucket e (List.mem_of_mem_erase he)
  · intro x hx
    exact (congrArg CbOut.dyscoTag (hmem x (herase x hx).1)).trans (k.tag_zero x (herase x hx).2)
  · exact fun x hx => Nat.lt_of_lt_of_le (k.pending_lt x (herase x hx).2) hbrk
  · intro x hx
    rcases List.mem_cons.mp hx with rfl | hx
    · exact Nat.lt_of_lt_of_le (k.pending_lt x ha) hbrk
    · exact Nat.lt_of_lt_of_le (k.emitted_lt x hx) hbrk
  · intro x hx hm
    rcases List.mem_cons.mp hx with rfl | hx
    · exact (herase x hm).1 rfl
    · exact k.emitted_disjoint x hx (herase x hm).2

/-- A block made while another one waits in a different bucket takes that one into its own
chain. -/
theorem crossed (k : s.Kept E) {sp : SynPacket} {h' : Host} {x : Nat}
    (hi : Dysco.insertPending E s.host sp = (true, h')) (hx : x ∈ s.pending)
    (hne : E.penHash (s.host.outMem x).super ≠ E.penHash sp.ss) :
    ¬ (s.insertPending E sp).WellFormed E := by
  intro hwf
  obtain ⟨-, hmem, hnew⟩ := insertPending_block hi
  obtain ⟨-, hsuper, -⟩ := hnew rfl
  obtain ⟨-, -, hdone⟩ := insertPending_tables hi
  obtain ⟨-, -, -, -, hlinks⟩ := hdone rfl
  have hnot : s.host.brk ∉ s.pending := fun hm => Nat.lt_irrefl _ (k.pending_lt _ hm)
  have htagAll : s.host.links.Leads .penTag (E.tagHash 0#32) s.pending := by
    have h := k.threaded.leadsTag (E.tagHash 0#32)
    rwa [BucketTable.bucket_of_one k.tag_bucket, if_pos rfl, k.tag_nodes] at h
  have hcrossed := htagAll.insert_crossed (b := E.penHash sp.ss)
      (CbTable.apart pen_ne_penTag.symm) hnot
  obtain ⟨l, hl, hiff⟩ := hwf.pen (E.penHash sp.ss)
  unfold Crossing.insertPending at hl hiff
  simp only [hi] at hl hiff
  rw [hlinks] at hl
  have hall : l = s.host.brk :: s.pending := Chain.unique hl hcrossed
  have hin := (hiff x).mp (by rw [hall]; exact List.mem_cons_of_mem _ hx)
  rw [hmem x (k.pending_lt x hx)] at hin
  exact hne hin.2

end Crossing.Kept

theorem kept_of_reachable {s : Crossing}
    (hr : ((pendingSystem E).restrict (OwnBucket E)).Reachable s) : s.Kept E := by
  refine hr.invariant (P := fun s => Crossing.Kept E s) ?_ ?_
  · rintro s ⟨hout, hpen, htag, hheads, hpend, hemit⟩
    have hnone {t : BucketTable Nat} (ht : t.entries = []) : t.nodes = [] := by
      rw [BucketTable.nodes, ht]
      rfl
    exact
      { threaded := .empty hout hpen htag hheads
        pen_nodes := (hnone hpen).trans hpend.symm
        out_nodes := (hnone hout).trans hemit.symm
        pen_key := by simp [hpen]
        out_key := by simp [hout]
        tag_bucket := by simp [htag]
        tag_zero := by simp [hpend]
        pending_lt := by simp [hpend]
        emitted_lt := by simp [hemit]
        pending_nodup := by simp [hpend]
        emitted_disjoint := by simp [hemit] }
  · rintro s l t k ⟨hst, hgood⟩
    cases l with
    | insertPending sp =>
      cases hst
      exact k.insertPending hgood
    | outHandleMb skb a =>
      obtain ⟨ha, rfl⟩ := hst
      exact k.outHandleMb skb ha
    | updateFiveTuple skb a =>
      obtain ⟨ha, hfound, rfl⟩ := hst
      exact (k.updateFiveTuple ha hfound hgood).outHandleMb skb ha

/-- **The pending tables stay well formed** in every run in which a block is only made while
all pending blocks sit in its bucket of `dysco_hash_pen`, and a block that is told by its tag
keeps its bucket. -/
theorem pending_wellFormed {s : Crossing}
    (hr : ((pendingSystem E).restrict (OwnBucket E)).Reachable s) : s.WellFormed E :=
  (kept_of_reachable hr).wellFormed

/-! ## Two SYNs that cross one middlebox -/

/-- A host that has seen nothing. -/
def Crossing.fresh : Crossing where
  host := Host.fresh
  pending := []
  emitted := []

/-- Sessions spread over the buckets of `dysco_hash_pen` by their source port. -/
def portHashed : Env := { (default : Env) with penHash := fun ss => ss.sport.toNat }

/-- A session from a source port, with two hosts to visit. -/
def twoHops (sport : U16) : SynPacket where
  ss := { sip := 10#32, dip := 20#32, sport := sport, dport := 80#16 }
  sc := { pos := 0#16, hops := [11#32, 12#32], short := by decide }

/-- A SYN with the tag zero, from a source port. -/
def taggedZero (sport : U16) : SkBuff :=
  (insertTag Host.fresh { (default : SkBuff) with doff := 5#4, source := sport, saddr := 7#32 }).2

section Runs
variable {s : Crossing}

/-- A run in which the pending blocks stay in one bucket. -/
def Crossing.Reached (E : Env) (s : Crossing) : Prop :=
  ((pendingSystem E).restrict (OwnBucket E)).Reachable s

theorem Crossing.Reached.insertPending (hr : s.Reached E) (sp : SynPacket)
    (hone : ∀ a ∈ s.pending, E.penHash (s.host.outMem a).super = E.penHash sp.ss) :
    (s.insertPending E sp).Reached E :=
  hr.tail (l := .insertPending sp) ⟨rfl, fun _ _ => hone⟩

theorem Crossing.Reached.outHandleMb (hr : s.Reached E) (skb : SkBuff) (a : Nat)
    (ha : a ∈ s.pending) : (s.outHandleMb E skb a).Reached E :=
  hr.tail (l := .outHandleMb skb a) ⟨⟨ha, rfl⟩, trivial⟩

theorem Crossing.Reached.updateFiveTuple (hr : s.Reached E) (skb : SkBuff) (a : Nat)
    (ha : a ∈ s.pending)
    (hfound : (lookupPenTagBy E (s.host.searchTag E) s.host skb).1 = some a)
    (hone : E.penHash skb.session = E.penHash (s.host.outMem a).super) :
    ((s.updateFiveTuple E skb a).outHandleMb E skb a).Reached E :=
  hr.tail (l := .updateFiveTuple skb a) ⟨⟨ha, hfound, rfl⟩, hone⟩

theorem Crossing.Reached.fresh : Crossing.fresh.Reached E :=
  .of_init ⟨rfl, rfl, rfl, fun _ _ => rfl, rfl, rfl⟩

end Runs

/-- The first SYN waits. -/
def firstWaits : Crossing := Crossing.fresh.insertPending portHashed (twoHops 1#16)

theorem reached_firstWaits : firstWaits.Reached portHashed :=
  Crossing.Reached.fresh.insertPending _ fun _ ha => absurd ha List.not_mem_nil

/-- The first SYN leaves under another address and is told by its tag. -/
def firstLeaves : Crossing :=
  (firstWaits.updateFiveTuple portHashed (taggedZero 1#16) 0).outHandleMb portHashed
    (taggedZero 1#16) 0

/-- Two more SYNs wait, and the older one leaves. -/
theorem pending_wellFormed_crossing :
    (((firstLeaves.insertPending portHashed (twoHops 2#16)).insertPending portHashed
      (twoHops 2#16)).outHandleMb portHashed default 3).WellFormed portHashed := by
  apply pending_wellFormed
  have h1 : firstLeaves.Reached portHashed :=
    reached_firstWaits.updateFiveTuple _ _ (by decide +kernel) (by decide +kernel)
      (by decide +kernel)
  have h2 := (h1.insertPending (twoHops 2#16) (by decide +kernel)).insertPending (twoHops 2#16)
    (by decide +kernel)
  exact h2.outHandleMb default 3 (by decide +kernel)

/-- Two SYNs wait in different buckets of `dysco_hash_pen`: the chain of the second one's bucket
leads to the first. -/
theorem pending_crossed : ∃ s, (pendingSystem portHashed).Reachable s ∧
    ¬ s.WellFormed portHashed := by
  refine ⟨firstWaits.insertPending portHashed (twoHops 2#16), ?_, ?_⟩
  · exact reached_firstWaits.of_restrict.tail (l := .insertPending (twoHops 2#16)) rfl
  · refine (kept_of_reachable reached_firstWaits).crossed (x := 0) (Prod.ext rfl rfl) ?_ ?_
    · decide +kernel
    · decide +kernel

end Dysco
