import Dysco.SeqCutoff
import Dysco.SynPayload
import Dysco.TagOption

/-! # The tag of a pending session

A SYN that a middlebox may change carries a tag, by which `dysco_lookup_pen_tag` is to find
the block that waits for it.  The blocks are all kept under the tag zero, whatever tag the
SYN was given, so the search finds something only if the parser reads a zero, and then it
finds the newest of them (`tagIdentifies_iff`).

Here the tables of output blocks are searched along the chains that the blocks really form.
Those of `dysco_hash_pen_tag` and of `dysco_hash_out` are right in every run, while a head of
`dysco_hash_pen` may lead anywhere into them (`TagsZero`): an unchanged SYN may then miss its
block, which stays pending.
-/
namespace Dysco
open ByteOrder

variable {E : Env}

/-! ## Pending blocks under the tag zero -/

/-- All blocks in `dysco_hash_pen_tag` have the tag zero, and none of them has been emitted.  The
heads of that table and of `dysco_hash_out` lead to exactly their blocks; those of
`dysco_hash_pen` lead to pending blocks or to emitted ones. -/
structure TagsZero (E : Env) (h : Host) : Prop where
  entry : ∀ e ∈ h.hashPenTag.entries,
    e.1 = E.tagHash 0#32 ∧ (h.outMem e.2).dyscoTag = 0#32 ∧ e.2 < h.brk
  nodup : h.hashPenTag.nodes.Nodup
  apart : ∀ p, h.hashOut.Holds p → ¬ h.hashPenTag.Holds p
  out_lt : ∀ p, h.hashOut.Holds p → p < h.brk
  out_nodup : h.hashOut.nodes.Nodup
  out_key : ∀ e ∈ h.hashOut.entries, e.1 = E.sessionHash (h.outMem e.2).super
  leadsTag : ∀ b, h.links.Leads .penTag b (h.hashPenTag.bucket b)
  leadsOut : ∀ b, h.links.Leads .out b (h.hashOut.bucket b)
  heads : ∀ b p, h.links.head .pen b = some p → h.hashPenTag.Holds p ∨ h.hashOut.Holds p

/-- From `h` to `g` nothing has happened to the blocks that are pending or emitted. -/
structure KeepsTags (h g : Host) : Prop where
  table : g.hashPenTag = h.hashPenTag
  out : g.hashOut = h.hashOut
  links : g.links = h.links
  brk : h.brk ≤ g.brk
  tag : ∀ p, h.hashPenTag.Holds p → p < h.brk → (g.outMem p).dyscoTag = (h.outMem p).dyscoTag
  super : ∀ p, h.hashOut.Holds p → p < h.brk → (g.outMem p).super = (h.outMem p).super

namespace TagsZero
variable {h g : Host}

theorem holds_lt (t : TagsZero E h) {p : Nat} (hp : h.hashPenTag.Holds p) : p < h.brk := by
  obtain ⟨b, hb⟩ := hp
  exact (t.entry _ hb).2.2

theorem holds_tag (t : TagsZero E h) {p : Nat} (hp : h.hashPenTag.Holds p) :
    (h.outMem p).dyscoTag = 0#32 := by
  obtain ⟨b, hb⟩ := hp
  exact (t.entry _ hb).2.1

theorem keeps (t : TagsZero E h) (k : KeepsTags h g) : TagsZero E g where
  entry e he := by
    rw [k.table] at he
    obtain ⟨hbucket, htag, hlt⟩ := t.entry e he
    exact ⟨hbucket, (k.tag e.2 ⟨e.1, he⟩ hlt).trans htag, Nat.lt_of_lt_of_le hlt k.brk⟩
  nodup := k.table ▸ t.nodup
  apart p hp hpend := t.apart p (k.out ▸ hp) (k.table ▸ hpend)
  out_lt p hp := Nat.lt_of_lt_of_le (t.out_lt p (k.out ▸ hp)) k.brk
  out_nodup := k.out ▸ t.out_nodup
  out_key e he := by
    rw [k.out] at he
    rw [k.super e.2 ⟨e.1, he⟩ (t.out_lt e.2 ⟨e.1, he⟩)]
    exact t.out_key e he
  leadsTag := by
    rw [k.table, k.links]
    exact t.leadsTag
  leadsOut := by
    rw [k.out, k.links]
    exact t.leadsOut
  heads := by
    rw [k.table, k.out, k.links]
    exact t.heads

/-! ### Walks -/

/-- All pending blocks hang in one chain. -/
theorem leadsAll (t : TagsZero E h) :
    h.links.Leads .penTag (E.tagHash 0#32) h.hashPenTag.nodes := by
  have hl := t.leadsTag (E.tagHash 0#32)
  rwa [BucketTable.bucket_of_one fun e he => (t.entry e he).1, if_pos rfl] at hl

/-- The fields of pending and of emitted blocks lead to such blocks only. -/
theorem next_closed (t : TagsZero E h) {p q : Nat}
    (hp : h.hashPenTag.Holds p ∨ h.hashOut.Holds p) (hq : h.links.next p = some q) :
    h.hashPenTag.Holds q ∨ h.hashOut.Holds q := by
  rcases hp with ⟨b, hb⟩ | ⟨b, hb⟩
  · exact .inl ⟨b, BucketTable.mem_bucket.mp
      (Chain.next_mem (t.leadsTag b) (BucketTable.mem_bucket.mpr hb) hq)⟩
  · exact .inr ⟨b, BucketTable.mem_bucket.mp
      (Chain.next_mem (t.leadsOut b) (BucketTable.mem_bucket.mpr hb) hq)⟩

/-- Along the chains of the output table one finds what the table lists. -/
theorem searchOut_eq (t : TagsZero E h) : h.searchOut E = h.lookupOut E := by
  refine funext fun ss => ?_
  rw [Host.searchOut, Host.walk_eq (t.leadsOut _)
    ((BucketTable.bucket_sublist _ _).nodup t.out_nodup)
    fun p hp => t.out_lt p ⟨_, BucketTable.mem_bucket.mp hp⟩, Host.lookupOut,
    BucketTable.lookup_eq_find]

/-- Along the chains of `dysco_hash_pen_tag` one finds what the table lists. -/
theorem searchTag_eq (t : TagsZero E h) : h.searchTag E = h.lookupTag E := by
  refine funext fun tag => ?_
  rw [Host.searchTag, Host.walk_eq (t.leadsTag _)
    ((BucketTable.bucket_sublist _ _).nodup t.nodup)
    fun p hp => t.holds_lt ⟨_, BucketTable.mem_bucket.mp hp⟩, Host.lookupTag,
    BucketTable.lookup_eq_find]

/-- A block found along a chain of `dysco_hash_pen` is pending, unless its session is found in the
output table. -/
theorem pending_of_searchPen (t : TagsZero E h) {ss : TcpSession} {p : Nat}
    (hout : h.searchOut E ss = none) (hp : h.searchPen E ss = some p) : h.hashPenTag.Holds p := by
  have hsuper : (h.outMem p).super = ss := by simpa using List.find?_some hp
  rcases mem_follow (t.heads _) (fun _ _ => t.next_closed) (List.mem_of_find?_eq_some hp) with
    hpend | hemit
  · exact hpend
  · obtain ⟨b, hb⟩ := hemit
    have hkey := t.out_key _ hb
    simp only [hsuper] at hkey
    subst hkey
    rw [t.searchOut_eq, Host.lookupOut, BucketTable.lookup_eq_find] at hout
    exact absurd (decide_eq_true hsuper)
      (List.find?_eq_none.mp hout p (BucketTable.mem_bucket.mpr hb))

/-! ### Insertions and removals -/

/-- A block that is in no table goes into the output table. -/
theorem insertOut (t : TagsZero E h) {p : Nat} (hlt : p < h.brk) (hp : ¬ h.hashPenTag.Holds p)
    (hnew : ¬ h.hashOut.Holds p) : TagsZero E (h.insertOut E p) where
  entry := t.entry
  nodup := t.nodup
  apart q hq := by
    rcases BucketTable.holds_insert.mp hq with rfl | hold
    · exact hp
    · exact t.apart q hold
  out_lt q hq := by
    rcases BucketTable.holds_insert.mp hq with rfl | hold
    · exact hlt
    · exact t.out_lt q hold
  out_nodup := List.nodup_cons.mpr ⟨fun hm => hnew (BucketTable.mem_nodes.mp hm), t.out_nodup⟩
  out_key e he := by
    rcases List.mem_cons.mp he with rfl | he
    · rfl
    · exact t.out_key e he
  leadsTag b := (t.leadsTag b).insert_of_ne (CbTable.apart out_ne_penTag.symm)
    fun hm => hp ⟨b, BucketTable.mem_bucket.mp hm⟩
  leadsOut b := by
    have hnot : p ∉ h.hashOut.bucket b := fun hm => hnew ⟨b, BucketTable.mem_bucket.mp hm⟩
    rw [Host.insertOut, BucketTable.insert, BucketTable.bucket_cons]
    by_cases hb : E.sessionHash (h.outMem p).super = b
    · rw [if_pos hb, ← hb]
      exact (t.leadsOut _).insert_self (hb ▸ hnot)
    · rw [if_neg hb]
      exact (t.leadsOut b).insert_of_ne (fun he => hb (Prod.mk.inj he).2.symm) hnot
  heads b q hq := by
    rw [Host.insertOut, Links.insert_head_of_ne _ (CbTable.apart out_ne_pen.symm)] at hq
    exact (t.heads b q hq).imp_right fun hold => BucketTable.holds_insert.mpr (.inr hold)

/-- **A block is made that waits.** -/
theorem insertPending (t : TagsZero E h) {sp : SynPacket} {ok : Bool} {h' : Host}
    (hi : Dysco.insertPending E h sp = (ok, h')) :
    TagsZero E h' ∧ h.brk ≤ h'.brk ∧ h'.hashOut = h.hashOut ∧
      ∀ p, h'.hashPenTag.Holds p → h.hashPenTag.Holds p ∨ h.brk ≤ p := by
  obtain ⟨hbrk, hmem, hnew⟩ := insertPending_block hi
  obtain ⟨hout, hfail, hdone⟩ := insertPending_tables hi
  cases ok with
  | false =>
    obtain ⟨-, htag, hlinks⟩ := hfail rfl
    have k : KeepsTags h h' :=
      { table := htag, out := hout, links := hlinks, brk := hbrk
        tag := fun p _ hlt => by rw [hmem p hlt]
        super := fun p _ hlt => by rw [hmem p hlt] }
    exact ⟨t.keeps k, hbrk, hout, fun p hp => .inl (htag ▸ hp)⟩
  | true =>
    obtain ⟨hlt, -, hzero⟩ := hnew rfl
    obtain ⟨-, -, -, htag, hlinks⟩ := hdone rfl
    have hholds : ∀ p, h'.hashPenTag.Holds p ↔ p = h.brk ∨ h.hashPenTag.Holds p := fun p => by
      rw [htag]
      exact BucketTable.holds_cons
    have hnot : ¬ h.hashPenTag.Holds h.brk := fun hp => Nat.lt_irrefl _ (t.holds_lt hp)
    have hnotOut : ¬ h.hashOut.Holds h.brk := fun hp => Nat.lt_irrefl _ (t.out_lt _ hp)
    refine ⟨?_, hbrk, hout, fun p hp => ((hholds p).mp hp).symm.imp_right (Nat.le_of_eq ·.symm)⟩
    constructor
    · intro e he
      rw [htag] at he
      rcases List.mem_cons.mp he with rfl | he
      · exact ⟨rfl, hzero, hlt⟩
      · obtain ⟨hbucket, hold, hlt'⟩ := t.entry e he
        rw [hmem e.2 hlt']
        exact ⟨hbucket, hold, Nat.lt_of_lt_of_le hlt' hbrk⟩
    · rw [htag]
      exact List.nodup_cons.mpr ⟨fun hm => hnot (BucketTable.mem_nodes.mp hm), t.nodup⟩
    · intro p hp hpend
      rw [hout] at hp
      rcases (hholds p).mp hpend with rfl | hold
      · exact hnotOut hp
      · exact t.apart p hp hold
    · exact fun p hp => Nat.lt_of_lt_of_le (t.out_lt p (hout ▸ hp)) hbrk
    · exact hout ▸ t.out_nodup
    · intro e he
      rw [hout] at he
      rw [hmem e.2 (t.out_lt e.2 ⟨e.1, he⟩)]
      exact t.out_key e he
    · intro b
      have hnotIn : h.brk ∉ h.hashPenTag.bucket b := fun hm =>
        hnot ⟨b, BucketTable.mem_bucket.mp hm⟩
      have hl := (t.leadsTag b).insert_of_ne (b := E.penHash sp.ss)
        (CbTable.apart pen_ne_penTag.symm) hnotIn
      rw [htag, hlinks, BucketTable.bucket_cons]
      by_cases hb : E.tagHash 0#32 = b
      · subst hb
        rw [if_pos rfl]
        exact hl.insert_self hnotIn
      · rw [if_neg hb]
        exact hl.insert_of_ne (fun he => hb (Prod.mk.inj he).2.symm) hnotIn
    · intro b
      have hnotIn : h.brk ∉ h.hashOut.bucket b := fun hm =>
        hnotOut ⟨b, BucketTable.mem_bucket.mp hm⟩
      rw [hout, hlinks]
      exact ((t.leadsOut b).insert_of_ne (CbTable.apart out_ne_pen) hnotIn).insert_of_ne
        (CbTable.apart out_ne_penTag) hnotIn
    · intro b p hp
      rw [hlinks, Links.insert_head_of_ne _ (CbTable.apart pen_ne_penTag)] at hp
      rw [hholds, hout]
      by_cases hb : b = E.penHash sp.ss
      · subst hb
        rw [Links.insert_head_self] at hp
        exact .inl (.inl (Option.some.inj hp).symm)
      · rw [Links.insert_head_of_ne _ fun he => hb (Prod.mk.inj he).2] at hp
        exact (t.heads b p hp).imp_left .inr

/-- Removal from both pending tables, wherever the bucket of `dysco_hash_pen` leads. -/
theorem removed (t : TagsZero E h) {p : Nat} (hp : h.hashPenTag.Holds p) (b : Nat) :
    let k := (h.links.remove .pen b p h.brk).remove .penTag (E.tagHash 0#32) p h.brk
    k.Leads .penTag (E.tagHash 0#32) (h.hashPenTag.nodes.erase p) ∧
      (∀ x, ¬ h.hashPenTag.Holds x → k.next x = h.links.next x) ∧
      ∀ d q, k.head .pen d = some q → h.hashPenTag.Holds q ∨ h.hashOut.Holds q := by
  have hfuel : h.hashPenTag.nodes.length ≤ h.brk := by
    have hsub : h.hashPenTag.nodes ⊆ List.range h.brk := fun x hx =>
      List.mem_range.mpr (t.holds_lt (BucketTable.mem_nodes.mp hx))
    have hlen := (List.subperm_of_subset t.nodup hsub).length_le
    rwa [List.length_range] at hlen
  -- a head of `dysco_hash_pen` leads into the one chain, or into one of the output table
  obtain ⟨hleads, hwrite, hhead⟩ :=
    Links.remove_any (t := .pen) (b := b) (a := p) t.leadsAll t.nodup
    (CbTable.apart pen_ne_penTag.symm) (fun q hq => by
      rcases t.heads b q hq with hpend | ⟨d, hd⟩
      · exact .inl (BucketTable.mem_nodes.mpr hpend)
      · obtain ⟨m, hm, hsub⟩ := Chain.from_mem (t.leadsOut d) (BucketTable.mem_bucket.mpr hd)
        exact .inr ⟨m, hm, fun hpm =>
          t.apart p ⟨d, BucketTable.mem_bucket.mp (hsub hpm)⟩ hp⟩) h.brk
  have hkeep : ∀ d, (h.links.remove .pen b p h.brk).head .pen d = h.links.head .pen d ∨
      h.links.head .pen b = some p ∧
        (h.links.remove .pen b p h.brk).head .pen d = h.links.next p := by
    intro d
    by_cases hd : d = b
    · exact hd ▸ hhead
    · exact .inl (Links.remove_head_of_ne _ (fun he => hd (Prod.mk.inj he).2) _)
  have herased : ((h.links.remove .pen b p h.brk).remove .penTag (E.tagHash 0#32) p h.brk).Leads
      .penTag (E.tagHash 0#32) (h.hashPenTag.nodes.erase p) ∧
      ∀ x, x ∉ h.hashPenTag.nodes →
        ((h.links.remove .pen b p h.brk).remove .penTag (E.tagHash 0#32) p h.brk).next x =
          (h.links.remove .pen b p h.brk).next x := by
    rcases hleads with hall | hless
    · exact hall.remove_self t.nodup hfuel
    · obtain ⟨hl, hw⟩ := hless.remove_self (a := p) (t.nodup.erase p)
        (Nat.le_trans List.length_erase_le hfuel)
      rw [List.erase_of_not_mem t.nodup.not_mem_erase] at hl
      exact ⟨hl, fun x hx => hw x fun hm => hx (List.mem_of_mem_erase hm)⟩
  refine ⟨herased.1, fun x hx => ?_, fun d q hq => ?_⟩
  · have hnot : x ∉ h.hashPenTag.nodes := fun hm => hx (BucketTable.mem_nodes.mp hm)
    exact (herased.2 x hnot).trans (hwrite x hnot)
  · rw [Links.remove_head_of_ne _ (CbTable.apart pen_ne_penTag)] at hq
    rcases hkeep d with heq | ⟨-, heq⟩
    · exact t.heads d q (heq ▸ hq)
    · exact t.next_closed (.inl hp) (heq ▸ hq)

/-- **A pending block leaves**: it goes from the pending tables to the output table. -/
theorem outHandleMb (t : TagsZero E h) {p : Nat} (hp : h.hashPenTag.Holds p) (skb : SkBuff) :
    TagsZero E (Dysco.outHandleMb E h skb p).1 := by
  obtain ⟨hbrk, hmem, hsuper⟩ := outHandleMb_block (E := E) h skb p
  obtain ⟨hout, -, htag, hlinks⟩ := outHandleMb_tables (E := E) h skb p
  rw [t.holds_tag hp] at htag hlinks
  obtain ⟨hleads, hwrite, hheads⟩ := t.removed hp (E.penHash (h.outMem p).super)
  have hone : ∀ e ∈ h.hashPenTag.entries, e.1 = E.tagHash 0#32 := fun e he => (t.entry e he).1
  have hnodes : BucketTable.nodes ⟨h.hashPenTag.entries.erase (E.tagHash 0#32, p)⟩ =
      h.hashPenTag.nodes.erase p := BucketTable.nodes_erase_of_one hone
  have hnotOut : ¬ h.hashOut.Holds p := fun hc => t.apart p hc hp
  generalize (Dysco.outHandleMb E h skb p).1 = g at hbrk hmem hsuper hout htag hlinks ⊢
  have hholds : ∀ x, g.hashPenTag.Holds x ↔ h.hashPenTag.Holds x ∧ x ≠ p := by
    intro x
    rw [← BucketTable.mem_nodes, htag, hnodes, t.nodup.mem_erase_iff, BucketTable.mem_nodes,
      and_comm]
  have houts : ∀ x, g.hashOut.Holds x ↔ x = p ∨ h.hashOut.Holds x := fun x => by
    rw [hout]
    exact BucketTable.holds_cons
  have hother : ∀ x, h.hashOut.Holds x → x ≠ p := fun x hx he => hnotOut (he ▸ hx)
  constructor
  · intro e he
    have hne := ((hholds e.2).mp ⟨e.1, he⟩).2
    rw [htag] at he
    obtain ⟨hbucket, hzero, hlt⟩ := t.entry e (List.mem_of_mem_erase he)
    rw [hmem e.2 hne]
    exact ⟨hbucket, hzero, Nat.lt_of_lt_of_le hlt hbrk⟩
  · rw [htag, hnodes]
    exact t.nodup.erase p
  · intro x hx hpend
    obtain ⟨hold, hne⟩ := (hholds x).mp hpend
    rcases (houts x).mp hx with he | hx
    · exact hne he
    · exact t.apart x hx hold
  · intro x hx
    rcases (houts x).mp hx with rfl | hx
    · exact Nat.lt_of_lt_of_le (t.holds_lt hp) hbrk
    · exact Nat.lt_of_lt_of_le (t.out_lt x hx) hbrk
  · rw [hout]
    exact List.nodup_cons.mpr ⟨fun hm => hnotOut (BucketTable.mem_nodes.mp hm), t.out_nodup⟩
  · intro e he
    rw [hout] at he
    rcases List.mem_cons.mp he with rfl | he
    · exact congrArg E.sessionHash hsuper.symm
    · rw [hmem e.2 (hother e.2 ⟨e.1, he⟩)]
      exact t.out_key e he
  · intro b
    have hnot : p ∉ h.hashPenTag.nodes.erase p := t.nodup.not_mem_erase
    rw [htag, hlinks, BucketTable.bucket_erase,
      BucketTable.bucket_of_one (t := ⟨h.hashPenTag.entries⟩) hone]
    by_cases hb : E.tagHash 0#32 = b
    · subst hb
      rw [if_pos rfl, if_pos rfl]
      exact hleads.insert_of_ne (CbTable.apart out_ne_penTag.symm) hnot
    · rw [if_neg hb, if_neg (Ne.symm hb)]
      -- the other buckets are empty
      have hl := t.leadsTag b
      rw [BucketTable.bucket_of_one hone, if_neg (Ne.symm hb), Links.Leads] at hl
      rw [Links.Leads, Links.insert_head_of_ne _ (CbTable.apart out_ne_penTag.symm),
        Links.remove_head_of_ne _ (fun he => hb (Prod.mk.inj he).2.symm),
        Links.remove_head_of_ne _ (CbTable.apart pen_ne_penTag.symm)]
      exact hl.congr fun _ hx => absurd hx List.not_mem_nil
  · intro b
    have hnot : p ∉ h.hashOut.bucket b := fun hm => hnotOut ⟨b, BucketTable.mem_bucket.mp hm⟩
    have hl : ((h.links.remove .pen (E.penHash (h.outMem p).super) p h.brk).remove .penTag
        (E.tagHash 0#32) p h.brk).Leads .out b (h.hashOut.bucket b) := by
      rw [Links.Leads, Links.remove_head_of_ne _ (CbTable.apart out_ne_penTag),
        Links.remove_head_of_ne _ (CbTable.apart out_ne_pen)]
      exact Chain.congr (t.leadsOut b) fun x hx =>
        hwrite x fun hc => t.apart x ⟨b, BucketTable.mem_bucket.mp hx⟩ hc
    rw [hout, hlinks, BucketTable.bucket_cons]
    by_cases hb : E.sessionHash (h.outMem p).super = b
    · subst hb
      rw [if_pos rfl]
      exact hl.insert_self hnot
    · rw [if_neg hb]
      exact hl.insert_of_ne (fun he => hb (Prod.mk.inj he).2.symm) hnot
  · intro b q hq
    rw [hlinks, Links.insert_head_of_ne _ (CbTable.apart out_ne_pen.symm)] at hq
    rw [hholds, houts]
    rcases hheads b q hq with hpend | hemit
    · by_cases hqp : q = p
      · exact .inr (.inl hqp)
      · exact .inl ⟨hpend, hqp⟩
    · exact .inr (.inr hemit)

end TagsZero

namespace KeepsTags
variable {h g : Host}

theorem refl (h : Host) : KeepsTags h h :=
  ⟨rfl, rfl, rfl, Nat.le_refl _, fun _ _ _ => rfl, fun _ _ _ => rfl⟩

theorem trans {f : Host} (k : KeepsTags h g) (l : KeepsTags g f) : KeepsTags h f where
  table := l.table.trans k.table
  out := l.out.trans k.out
  links := l.links.trans k.links
  brk := Nat.le_trans k.brk l.brk
  tag p hp hlt :=
    (l.tag p (k.table ▸ hp) (Nat.lt_of_lt_of_le hlt k.brk)).trans (k.tag p hp hlt)
  super p hp hlt :=
    (l.super p (k.out ▸ hp) (Nat.lt_of_lt_of_le hlt k.brk)).trans (k.super p hp hlt)

theorem bump (k : KeepsTags h g) : KeepsTags h g.bump := { k with brk := Nat.le_succ_of_le k.brk }

theorem kfree (k : KeepsTags h g) (p : Nat) : KeepsTags h (g.kfree p) := { k with }

/-- A write to a block that keeps its tag if it is pending, and its session if it was emitted. -/
theorem setOut (k : KeepsTags h g) {p : Nat} {d : CbOut}
    (htag : h.hashPenTag.Holds p → p < h.brk → d.dyscoTag = (g.outMem p).dyscoTag)
    (hsuper : h.hashOut.Holds p → p < h.brk → d.super = (g.outMem p).super) :
    KeepsTags h (g.setOut p d) where
  table := k.table
  out := k.out
  links := k.links
  brk := k.brk
  tag q hq hlt := by
    by_cases hqp : q = p
    · subst hqp
      rw [Host.setOut_outMem_self, htag hq hlt]
      exact k.tag q hq hlt
    · rw [Host.setOut_outMem_of_ne _ hqp]
      exact k.tag q hq hlt
  super q hq hlt := by
    by_cases hqp : q = p
    · subst hqp
      rw [Host.setOut_outMem_self, hsuper hq hlt]
      exact k.super q hq hlt
    · rw [Host.setOut_outMem_of_ne _ hqp]
      exact k.super q hq hlt

/-- A write that changes no key. -/
theorem setOut_keyed (k : KeepsTags h g) {p : Nat} {d : CbOut}
    (htag : d.dyscoTag = (g.outMem p).dyscoTag) (hsuper : d.super = (g.outMem p).super) :
    KeepsTags h (g.setOut p d) :=
  k.setOut (fun _ _ => htag) fun _ _ => hsuper

theorem allocateLocalPort (k : KeepsTags h g) : KeepsTags h g.allocateLocalPort.2 := { k with }

/-- A new block is written. -/
theorem setOut_new (k : KeepsTags h g) {p : Nat} (hp : h.brk ≤ p) (d : CbOut) :
    KeepsTags h (g.setOut p d) :=
  k.setOut (fun _ hlt => absurd hlt (Nat.not_lt.mpr hp)) fun _ hlt => absurd hlt (Nat.not_lt.mpr hp)

theorem setIn (k : KeepsTags h g) (q : Nat) (d : CbIn) : KeepsTags h (g.setIn q d) := { k with }

theorem insertIn (k : KeepsTags h g) (q : Nat) : KeepsTags h (g.insertIn E q) := { k with }

end KeepsTags

/-! ## What the two paths do to the pending blocks -/

section Paths
variable {h h' : Host} {skb : SkBuff} {sp : SynPacket} {p : Nat}

theorem insertCbInReverse_tags {o : Option Nat} (hi : insertCbInReverse h skb sp = (o, h')) :
    KeepsTags h h' ∧ ∀ p, o = some p → p = h.brk ∧ h.brk < h'.brk := by
  by_cases hoom : h.oom h.brk = true
  · rw [insertCbInReverse_oom hoom] at hi
    cases hi
    exact ⟨(KeepsTags.refl h).bump, nofun⟩
  · obtain ⟨d, hd⟩ := insertCbInReverse_ok skb sp hoom
    rw [hd] at hi
    cases hi
    refine ⟨((KeepsTags.refl h).bump.setOut_new (Nat.le_refl _) _).setOut_new (Nat.le_refl _) _, ?_⟩
    rintro p ⟨⟩
    exact ⟨rfl, Nat.lt_succ_self _⟩

theorem TagsZero.insertCbInput {o : Option Nat} (t : TagsZero E h)
    (hi : Dysco.insertCbInput E h skb sp = (o, h')) : TagsZero E h' := by
  unfold Dysco.insertCbInput at hi
  split at hi
  · rename_i h1 hk
    cases hi
    unfold Host.kzallocIn at hk
    split at hk <;> cases hk
    exact t.keeps (KeepsTags.refl h).bump
  · rename_i q h1 hk
    obtain ⟨rfl, rfl⟩ := Host.kzallocIn_some hk
    simp only at hi
    generalize hg : Host.setIn _ _ _ = g at hi
    have k : KeepsTags h g := hg ▸ ((KeepsTags.refl h).bump.setIn _ _).setIn _ _
    split at hi
    · rename_i h2 hr
      cases hi
      exact t.keeps ((k.trans (insertCbInReverse_tags hr).1).kfree _)
    · rename_i p h2 hr
      obtain ⟨kr, hp⟩ := insertCbInReverse_tags hr
      obtain ⟨rfl, hlt⟩ := hp p rfl
      have t2 := t.keeps (k.trans kr)
      -- the reverse block is behind the pending ones, and in front of a new one
      have hnot : ¬ h2.hashPenTag.Holds g.brk := by
        intro hp
        rw [kr.table] at hp
        exact absurd ((t.keeps k).holds_lt hp) (Nat.lt_irrefl _)
      generalize hmade : (if 1 < sp.sc.hops.length then Dysco.insertPending E h2 sp else
        (true, h2)) = x at hi
      obtain ⟨ok, h3⟩ := x
      have t3 : TagsZero E h3 ∧ h2.brk ≤ h3.brk ∧ h3.hashOut = h2.hashOut ∧
          ∀ p, h3.hashPenTag.Holds p → h2.hashPenTag.Holds p ∨ h2.brk ≤ p := by
        split at hmade
        · exact t2.insertPending hmade
        · cases hmade
          exact ⟨t2, Nat.le_refl _, rfl, fun _ => .inl⟩
      obtain ⟨t3, hle, hsame, hholds⟩ := t3
      simp only at hi
      split at hi
      · cases hi
        have k3 : KeepsTags h3 (Host.insertIn E ((h3.setIn h.brk ((h3.inMem h.brk).withDcbOut
            g.brk)).setOut g.brk (((h3.setIn h.brk ((h3.inMem h.brk).withDcbOut g.brk)).outMem
              g.brk).withDcbIn (some h.brk))) h.brk) :=
          .insertIn
            (.setOut_keyed (d := ((h3.setIn h.brk ((h3.inMem h.brk).withDcbOut g.brk)).outMem
            g.brk).withDcbIn (some h.brk)) (.setIn (.refl h3) _ _) rfl rfl) _
        refine (t3.keeps k3).insertOut (Nat.lt_of_lt_of_le hlt hle) ?_ ?_
        · intro hp
          rcases hholds _ hp with hold | hnew
          · exact hnot hold
          · exact absurd hlt (Nat.not_lt.mpr hnew)
        · intro hp
          rw [k3.out, hsame, kr.out] at hp
          exact absurd ((t.keeps k).out_lt _ hp) (Nat.lt_irrefl _)
      · cases hi
        exact t3.keeps (((KeepsTags.refl h3).kfree _).kfree _)

theorem TagsZero.countTag (t : TagsZero E h) (skb : SkBuff) :
    TagsZero E (Dysco.insertTag h skb).1 :=
  { t with }

theorem TagsZero.rxInitiationNew (t : TagsZero E h) (skb : SkBuff) :
    TagsZero E (Dysco.rxInitiationNew E h skb).1 := by
  unfold Dysco.rxInitiationNew
  split
  · split
    · rename_i h1 hi
      exact t.insertCbInput hi
    · rename_i q h1 hi
      exact ((t.insertCbInput hi).keeps ((KeepsTags.refl h1).setIn _ _)).countTag (removeSc skb)
  · exact t

theorem synAckIn_keys (d : CbOut) (skb : SkBuff) (dcbIn : CbIn) :
    (d.synAckIn skb dcbIn).dyscoTag = d.dyscoTag ∧ (d.synAckIn skb dcbIn).super = d.super := by
  rw [CbOut.synAckIn]
  simp only
  split <;> split <;> exact ⟨rfl, rfl⟩

theorem setAckNumberOut_tags (h : Host) (skb : SkBuff) (q : Nat) :
    KeepsTags h (setAckNumberOut E h skb q) := by
  unfold setAckNumberOut
  simp only
  split
  · exact (KeepsTags.refl h).setIn _ _
  · refine .setOut_keyed (.setIn (.setIn (.refl h) _ _) _ _) ?_ ?_
    · exact (synAckIn_keys _ _ _).1
    · exact (synAckIn_keys _ _ _).2

theorem TagsZero.input (t : TagsZero E h) (hsyn : skb.hasSyn = true) :
    TagsZero E (Dysco.input E h skb).1 := by
  unfold Dysco.input
  split
  · exact t
  · split
    · exact t
    · split
      · exact t.rxInitiationNew skb
      · split
        · exact t.keeps (((KeepsTags.refl h).setIn _ _).trans (setAckNumberOut_tags _ _ _))
        · exact t.countTag (removeSc skb)

/-! ## SYNs that leave -/

/-- A new block goes into the output table and gets its input block. -/
theorem TagsZero.insertCbOut (t : TagsZero E h) (hlt : p < h.brk) (hp : ¬ h.hashPenTag.Holds p)
    (hnew : ¬ h.hashOut.Holds p) (twoPaths : Bool) :
    TagsZero E (Dysco.insertCbOut E h p twoPaths) ∧
      (Dysco.insertCbOut E h p twoPaths).hashPenTag = h.hashPenTag := by
  have t1 := t.insertOut hlt hp hnew
  have k : KeepsTags (h.insertOut E p) (Dysco.insertCbOut E h p twoPaths) := by
    unfold Dysco.insertCbOut insertCbOutReverse
    simp only
    split
    · rename_i h1 hk
      unfold Host.kzallocIn at hk
      split at hk <;> cases hk
      exact .setOut_keyed (.bump (.refl _)) rfl rfl
    · rename_i q h1 hk
      obtain ⟨rfl, rfl⟩ := Host.kzallocIn_some hk
      refine .setOut_keyed (.insertIn (.setOut_keyed (.setIn (.setIn (.bump (.refl _)) _ _) _ _)
        ?_ ?_) _) ?_ ?_ <;> rfl
  exact ⟨t1.keeps k, k.table⟩

/-- Finding the next hop does not change whose block it is. -/
theorem arp_super (tos : U8) (d : CbOut) : (arp E tos d).super = d.super := rfl

/-- A SYN whose session has a block that is not pending. -/
theorem outSynWith_tags (skb : SkBuff) (hp : ¬ h.hashPenTag.Holds p) :
    KeepsTags h (outSynWith E h skb p).1 := by
  have hskip {d d' : CbOut} : h.hashPenTag.Holds p → p < h.brk → d.dyscoTag = d'.dyscoTag :=
    fun hold => absurd hold hp
  unfold outSynWith
  simp only
  have hsuper : (parseTcpSynOptS skb { h.outMem p with seqCutoff := ntohl skb.seq }).super =
      (h.outMem p).super := super_parseTcpSynOptS ..
  generalize parseTcpSynOptS skb { h.outMem p with seqCutoff := ntohl skb.seq } = d at hsuper
  have k : KeepsTags h (h.setOut p d) := .setOut (.refl h) hskip fun _ _ => hsuper
  have hself : (h.setOut p d).outMem p = d := Host.setOut_outMem_self ..
  split
  · split
    · exact k
    · exact .setIn (.setOut k hskip fun _ _ => by rw [hself]; rfl) _ _
  · refine .setOut k hskip fun _ _ => ?_
    rw [hself]
    split
    · exact arp_super ..
    · rfl

theorem createCbOut_tags {sc : Nat} {o : Option Nat} (hi : createCbOut E h skb sc = (o, h')) :
    KeepsTags h h' ∧ ∀ p, o = some p → p = h.brk ∧ h.brk < h'.brk := by
  unfold createCbOut at hi
  split at hi
  · rename_i h1 hk
    cases hi
    unfold Host.kzallocOut at hk
    split at hk <;> cases hk
    exact ⟨(KeepsTags.refl h).bump, nofun⟩
  · rename_i q h1 hk
    obtain ⟨rfl, rfl⟩ := Host.kzallocOut_some hk
    have k : KeepsTags h (h.bump.setOut h.brk default) :=
      (KeepsTags.refl h).bump.setOut_new (Nat.le_refl _) _
    simp only at hi
    split at hi
    · cases hi
      exact ⟨(k.setOut_new (Nat.le_refl _) _).kfree _, nofun⟩
    · cases hi
      refine ⟨k.allocateLocalPort.setOut_new (Nat.le_refl _) _, ?_⟩
      rintro p ⟨⟩
      exact ⟨rfl, Nat.lt_succ_self _⟩

/-- A block that is found by its tag stays as it is, as far as keys go. -/
theorem lookupPenTagBy_tags (t : TagsZero E h) {o : Option Nat}
    (hi : lookupPenTagBy E (h.searchTag E) h skb = (o, h')) :
    KeepsTags h h' ∧ ∀ p, o = some p → h.hashPenTag.Holds p := by
  cases o with
  | none =>
    have hsame : h' = h := by
      unfold lookupPenTagBy at hi
      simp only at hi
      split at hi
      · split at hi <;> cases hi
        rfl
      · cases hi
        rfl
    exact ⟨hsame ▸ .refl h, nofun⟩
  | some p =>
    obtain ⟨d, rfl, hsuper, hfound⟩ := lookupPenTagBy_some hi
    rw [t.searchTag_eq] at hfound
    obtain ⟨hold, htag⟩ := BucketTable.lookup_eq_some hfound
    refine ⟨.setOut_keyed (.refl h) htag.symm hsuper, ?_⟩
    rintro q ⟨⟩
    exact hold

theorem TagsZero.outSyn_policy (t : TagsZero E h) : TagsZero E (outSyn E h skb none).1 := by
  unfold outSyn
  simp only
  split
  · exact t
  · split
    · rename_i h1 hi
      exact t.keeps (createCbOut_tags hi).1
    · rename_i p h1 hi
      obtain ⟨k, hp⟩ := createCbOut_tags hi
      obtain ⟨rfl, hlt⟩ := hp p rfl
      have hnot : ¬ h1.hashPenTag.Holds h.brk := by
        intro hold
        rw [k.table] at hold
        exact absurd (t.holds_lt hold) (Nat.lt_irrefl _)
      have hnotOut : ¬ h1.hashOut.Holds h.brk := by
        intro hold
        rw [k.out] at hold
        exact absurd (t.out_lt _ hold) (Nat.lt_irrefl _)
      obtain ⟨t2, htable⟩ := (t.keeps k).insertCbOut hlt hnot hnotOut false
      exact t2.keeps (outSynWith_tags skb (htable ▸ hnot))

/-- `dysco_output`, its searches along the chains. -/
def outputAlong (E : Env) (h : Host) (skb : SkBuff) : Host × SkBuff × Bool :=
  outputBy E (h.searchOut E) (h.searchPen E) (h.searchTag E) h skb

theorem TagsZero.outputAlong (t : TagsZero E h) (hsyn : skb.hasSyn = true) :
    TagsZero E (Dysco.outputAlong E h skb).1 := by
  rw [Dysco.outputAlong, outputBy]
  split
  · exact t
  · split
    · exact t
    · split
      · rename_i p hp
        rw [outputWith, if_pos hsyn]
        rw [t.searchOut_eq] at hp
        exact t.keeps (outSynWith_tags skb (t.apart p (h.lookupOut_eq_some hp).1))
      · rename_i hout
        split
        · rename_i p hp
          exact t.outHandleMb (t.pending_of_searchPen hout hp) skb
        · split
          · rename_i p h1 hp
            obtain ⟨k, hold⟩ := lookupPenTagBy_tags t hp
            have hpend := hold p rfl
            have k1 : KeepsTags h (updateFiveTuple h1 skb p) :=
              k.setOut (fun _ _ => rfl) fun hout => absurd hpend (t.apart p hout)
            exact (t.keeps k1).outHandleMb (k1.table ▸ hpend) skb
          · rename_i h1 hp
            have t1 := t.keeps (lookupPenTagBy_tags t hp).1
            exact t1.outSyn_policy

end Paths

/-! ## SYNs that cross a middlebox -/

/-- A SYN comes in, or leaves. -/
inductive SynStep where
  | arrive (skb : SkBuff)
  | emit (skb : SkBuff)

/-- SYNs that cross the host in any order, from the time the module is loaded.  The tables of output
blocks are searched along the chains that the blocks really form. -/
def synSystem (E : Env) : TransitionSystem Host SynStep where
  init h := h.hashOut.entries = [] ∧ h.hashPenTag.entries = [] ∧ ∀ t b, h.links.head t b = none
  step h l h' :=
    match l with
    | .arrive skb => skb.hasSyn = true ∧ h' = (input E h skb).1
    | .emit skb => skb.hasSyn = true ∧ h' = (outputAlong E h skb).1

theorem tagsZero_reachable {h : Host} (hr : (synSystem E).Reachable h) : TagsZero E h := by
  refine hr.invariant (P := TagsZero E) ?_ fun h l h' t hstep => ?_
  · rintro h ⟨hout, htag, hheads⟩
    have hempty {p : Nat} : ¬ h.hashOut.Holds p := by
      rintro ⟨b, hb⟩
      rw [hout] at hb
      cases hb
    have hnodes {u : BucketTable Nat} (hu : u.entries = []) : u.nodes.Nodup := by
      rw [BucketTable.nodes, hu]
      exact List.nodup_nil
    have hleads {u : BucketTable Nat} (hu : u.entries = []) (t : CbTable) (b : Nat) :
        h.links.Leads t b (u.bucket b) := by
      rw [Links.Leads, hheads, BucketTable.bucket, hu]
      exact .nil
    exact
      { entry := by simp [htag]
        nodup := hnodes htag
        apart := fun p hp => absurd hp hempty
        out_lt := fun p hp => absurd hp hempty
        out_nodup := hnodes hout
        out_key := by simp [hout]
        leadsTag := hleads htag _
        leadsOut := hleads hout _
        heads := fun b p hp => by simp [hheads] at hp }
  · cases l with
    | arrive skb =>
      obtain ⟨hsyn, rfl⟩ := hstep
      exact t.input hsyn
    | emit skb =>
      obtain ⟨hsyn, rfl⟩ := hstep
      exact t.outputAlong hsyn

/-- A SYN with a chain of more than one hop that is new to the host, and the block that has been
made to wait for it. -/
structure Accepted (E : Env) (h : Host) (skb : SkBuff) (p : Nat) : Prop extends skb.IsTcp where
  syn : skb.hasSyn = true
  new : h.lookupIn E skb.session = none
  chain : 1 < skb.synPacket.sc.hops.length
  made : ¬ h.hashPenTag.Holds p ∧ (input E h skb).1.hashPenTag.Holds p

/-- The middlebox emits the SYN that it has received, with its options, under a five-tuple that
the host does not know. -/
structure HopHandoff (E : Env) (h : Host) (syn skb : SkBuff) : Prop where
  doff : skb.doff = syn.doff
  data : skb.data = syn.data
  out : h.searchOut E skb.session = none
  pen : h.searchPen E skb.session = none

/-- The lookup by tag finds the block. -/
def TagIdentifies (E : Env) (h : Host) (skb : SkBuff) (p : Nat) : Prop :=
  (lookupPenTagBy E (h.searchTag E) h skb).1 = some p

/-- The parser reads a zero for the tag. -/
def ReadsZero (skb : SkBuff) : Prop := tagRead skb.data skb.options = some 0#32

/-- The block that has been made last, of those that are pending. -/
def Newest (h : Host) (p : Nat) : Prop := h.hashPenTag.entries.head?.map Prod.snd = some p

section Lookup
variable {h h' : Host} {skb skb' : SkBuff} {p : Nat}

/-- Only the tag zero is found, and it is the newest block that has it. -/
theorem TagsZero.lookupTag (t : TagsZero E h) (tag : U32) :
    h.lookupTag E tag =
      if tag = 0#32 then h.hashPenTag.entries.head?.map Prod.snd else none := by
  have hans (e : Nat × Nat) (he : e ∈ h.hashPenTag.entries) :
      BucketTable.answers E.tagHash (fun p => (h.outMem p).dyscoTag) tag e = true ↔ tag = 0#32 := by
    obtain ⟨hbucket, htag, -⟩ := t.entry e he
    rw [BucketTable.answers_iff, hbucket, htag]
    exact ⟨fun hc => hc.2.symm, fun hc => by rw [hc]; exact ⟨rfl, rfl⟩⟩
  rw [Host.lookupTag, BucketTable.lookup]
  generalize h.hashPenTag.entries = es at hans
  cases es with
  | nil => split <;> rfl
  | cons e es =>
    split
    next h0 =>
      rw [List.find?_cons_of_pos ((hans e List.mem_cons_self).mpr h0)]
      rfl
    next h0 =>
      rw [List.find?_eq_none.mpr fun e' he' hc => h0 ((hans e' he').mp hc)]
      rfl

/-- What is looked up is what the parser reads. -/
theorem lookupPenTagBy_fst (search : U32 → Option Nat) (h : Host) (skb : SkBuff) :
    (lookupPenTagBy E search h skb).1 = (tagRead skb.data skb.options).bind search := by
  have hread := parseTcpSynOptS_tag skb
    { E.stackCb with tagOk := false, sub.sip := 0#32, sub.sport := 0#16 }
  rw [lookupPenTagBy]
  simp only
  generalize parseTcpSynOptS skb _ = d at hread ⊢
  cases hfound : tagRead skb.data skb.options with
  | none =>
    rw [hfound] at hread
    have hok : d.tagOk = false := congrArg Prod.fst hread
    rw [hok]
    rfl
  | some tag =>
    rw [hfound] at hread
    have hok : d.tagOk = true := congrArg Prod.fst hread
    have htag : d.dyscoTag = tag := congrArg Prod.snd hread
    rw [hok, htag, Option.bind_some]
    cases search tag <;> rfl

theorem insertPending_counter (h : Host) (sp : SynPacket) :
    (insertPending E h sp).2.dyscoTag = h.dyscoTag := by
  unfold insertPending Host.kzallocOut
  split
  · rename_i hk
    split at hk <;> cases hk
    rfl
  · rename_i hk
    split at hk <;> cases hk
    simp only
    unfold Host.kmalloc
    split
    · rename_i hk
      split at hk <;> cases hk
      rfl
    · rename_i hk
      split at hk <;> cases hk
      rfl

theorem insertCbInReverse_counter (h : Host) (skb : SkBuff) (sp : SynPacket) :
    (insertCbInReverse h skb sp).2.dyscoTag = h.dyscoTag := by
  unfold insertCbInReverse Host.kzallocOut
  split
  · rename_i hk
    split at hk <;> cases hk
    rfl
  · rename_i hk
    split at hk <;> cases hk
    rfl

theorem insertCbInput_counter (h : Host) (skb : SkBuff) (sp : SynPacket) :
    (insertCbInput E h skb sp).2.dyscoTag = h.dyscoTag := by
  unfold insertCbInput
  split
  · rename_i h1 hk
    unfold Host.kzallocIn at hk
    split at hk <;> cases hk
    rfl
  · rename_i q h1 hk
    have h1tag : h1.dyscoTag = h.dyscoTag := by
      unfold Host.kzallocIn at hk
      split at hk <;> cases hk
      rfl
    simp only
    generalize hg : Host.setIn _ _ _ = g
    have hgtag : g.dyscoTag = h.dyscoTag := by rw [← hg]; exact h1tag
    have hrev := insertCbInReverse_counter g skb sp
    split
    · rename_i h2 hr
      rw [hr] at hrev
      exact hrev.trans hgtag
    · rename_i p h2 hr
      rw [hr] at hrev
      have hmade : (if 1 < sp.sc.hops.length then insertPending E h2 sp else
          (true, h2)).2.dyscoTag =
          h.dyscoTag := by
        split
        · exact (insertPending_counter h2 sp).trans (hrev.trans hgtag)
        · exact hrev.trans hgtag
      generalize (if 1 < sp.sc.hops.length then insertPending E h2 sp else (true, h2)) = x at hmade
      obtain ⟨ok, h3⟩ := x
      simp only
      split <;> exact hmade

/-- Without an input block there is no pending one. -/
theorem insertCbInput_none {g : Host} {sp : SynPacket} (hi : insertCbInput E h skb sp = (none, g)) :
    g.hashPenTag = h.hashPenTag := by
  by_cases ho : h.ChainOom sp
  · obtain ⟨g', hg', hsame⟩ := insertCbInput_oom E skb ho
    rw [hi] at hg'
    cases hg'
    exact hsame.hashPenTag
  · obtain ⟨q, g', hg', -⟩ := insertCbInput_ok E skb ho
    rw [hi] at hg'
    cases hg'

theorem insertTag_snd (h : Host) {skb : SkBuff} (hw : skb.cut = 0) :
    (insertTag h skb).2.data = skb.data ++ tagBytes h.dyscoTag ∧
      (insertTag h skb).2.doff = skb.doff + 2#4 := by
  rw [insertTag_of_whole h hw]
  exact ⟨rfl, rfl⟩

theorem Host.setIn_dyscoTag (h : Host) (q : Nat) (d : CbIn) :
    (h.setIn q d).dyscoTag = h.dyscoTag := rfl

/-- The SYN as it enters the host has the tag behind its options. -/
theorem Accepted.entered (ha : Accepted E h skb p) (hw : (removeSc skb).cut = 0) :
    (input E h skb).2.1.data = (removeSc skb).data ++ tagBytes h.dyscoTag ∧
      (input E h skb).2.1.doff = (removeSc skb).doff + 2#4 := by
  have hmade := ha.made
  rw [input, if_neg (not_not_intro ha.ip), if_neg (not_not_intro ha.tcp)] at hmade ⊢
  simp only [ha.new, ha.syn, if_true] at hmade ⊢
  unfold rxInitiationNew at hmade ⊢
  have hcount := insertCbInput_counter (E := E) h skb skb.synPacket
  split
  next hmore =>
    rw [if_pos hmore] at hmade
    split
    next h1 hi =>
      simp only [hi] at hmade
      have k := insertCbInput_none hi
      rw [k] at hmade
      exact absurd hmade.2 hmade.1
    next q h1 hi =>
      rw [hi] at hcount
      obtain ⟨hdata, hdoff⟩ := insertTag_snd
        (h1.setIn q (parseTcpSynOptR skb (h1.inMem q))) hw
      rw [Host.setIn_dyscoTag, show h1.dyscoTag = h.dyscoTag from hcount] at hdata
      simp only
      generalize insertTag _ (removeSc skb) = x at hdata hdoff ⊢
      obtain ⟨h2, s2⟩ := x
      obtain ⟨hdata', -, hdoff'⟩ := inHdrRewrite_keeps s2 (h2.inMem q)
      exact ⟨hdata'.trans hdata, hdoff'.trans hdoff⟩
  next hno =>
    rw [if_neg hno] at hmade
    exact absurd hmade.2 hmade.1

/-- In an ordinary SYN the parser reads the lower half of the tag. -/
theorem Accepted.readsZero_iff (ha : Accepted E h skb p) (hs : PlainSyn (removeSc skb))
    (hroom : (removeSc skb).doff.toNat ≤ 13) (hend : (removeSc skb).optionsEnd = true) :
    ReadsZero (input E h skb).2.1 ↔ h.dyscoTag.toNat % 65536 = 0 := by
  obtain ⟨hdata, hdoff⟩ := ha.entered hs.whole
  have hread := tagRead_insertTag (h := h) hs hroom
  have hdata' : (insertTag h (removeSc skb)).2.data = (input E h skb).2.1.data :=
    (insertTag_snd h hs.whole).1.trans hdata.symm
  have hdoff' : (insertTag h (removeSc skb)).2.doff = (input E h skb).2.1.doff :=
    (insertTag_snd h hs.whole).2.trans hdoff.symm
  rw [SkBuff.options, SkBuff.optLen, hdata', hdoff', if_pos hend] at hread
  rw [ReadsZero, SkBuff.options, SkBuff.optLen, hread, Option.some.injEq, ← BitVec.toNat_inj,
    load32_tag, BitVec.toNat_ofNat]
  have := h.dyscoTag.isLt
  omega

end Lookup

/-- **The tag identifies the block of a SYN exactly when** the parser reads a zero and no other
block has been made since that is still pending.  In an ordinary SYN it reads a zero when the
lower half of the tag is zero. -/
theorem tagIdentifies_iff {h h' : Host} {skb skb' : SkBuff} {ls : List SynStep} {p : Nat}
    (hr : (synSystem E).Reachable h) (ha : Accepted E h skb p)
    (hrun : (synSystem E).Steps (input E h skb).1 ls h')
    (hre : HopHandoff E h' (input E h skb).2.1 skb') :
    (TagIdentifies E h' skb' p ↔ ReadsZero (input E h skb).2.1 ∧ Newest h' p) ∧
      (PlainSyn (removeSc skb) → (removeSc skb).doff.toNat ≤ 13 →
        (removeSc skb).optionsEnd = true →
          (ReadsZero (input E h skb).2.1 ↔ h.dyscoTag.toNat % 65536 = 0)) := by
  refine ⟨?_, ha.readsZero_iff⟩
  have hstep : (synSystem E).step h (.arrive skb) (input E h skb).1 := ⟨ha.syn, rfl⟩
  have t := tagsZero_reachable ((hr.tail hstep).steps hrun)
  have hopts : tagRead skb'.data skb'.options =
      tagRead (input E h skb).2.1.data (input E h skb).2.1.options := by
    rw [SkBuff.options, SkBuff.options, SkBuff.optLen, SkBuff.optLen, hre.data, hre.doff]
  rw [TagIdentifies, lookupPenTagBy_fst, t.searchTag_eq, hopts, ReadsZero, Newest]
  cases tagRead (input E h skb).2.1.data (input E h skb).2.1.options with
  | none => exact iff_of_false (by rintro ⟨⟩) fun hc => by cases hc.1
  | some tag =>
    rw [Option.bind_some, t.lookupTag, Option.some.injEq]
    by_cases h0 : tag = 0#32
    · rw [if_pos h0]
      exact ⟨fun hp => ⟨h0, hp⟩, And.right⟩
    · rw [if_neg h0]
      exact iff_of_false (by rintro ⟨⟩) fun hc => h0 hc.1

/-! ## Two SYNs that wait -/

theorem fresh_reachable : (synSystem E).Reachable Host.fresh :=
  .of_init ⟨rfl, rfl, fun _ _ => rfl⟩

/-- The first SYN that a host receives has the tag zero. -/
theorem accepted_chainedSyn : Accepted default Host.fresh (chainedSyn 0#32) 2 where
  ip := by decide
  tcp := by decide
  syn := by decide
  new := rfl
  chain := by decide +kernel
  made := by
    refine ⟨?_, 0, by decide +kernel⟩
    rintro ⟨b, hb⟩
    cases hb

/-- The SYN under another five-tuple. -/
def retupledSyn : SkBuff := { enteredSyn 0#32 with saddr := 7#32 }

/-- A SYN of another client. -/
def otherSyn : SkBuff := { chainedSyn 0#32 with source := 1#16 }

/-- The SYN of the other client comes after the first one, and leaves before it. -/
def otherPassed : Host :=
  let (h, skb, _) := input default (chainedHost 0#32) otherSyn
  (outputAlong default h skb).1

theorem tagIdentifies_otherPassed : TagIdentifies default otherPassed retupledSyn 2 := by
  have hin : (synSystem default).Steps (chainedHost 0#32) [.arrive otherSyn]
      (input default (chainedHost 0#32) otherSyn).1 := .single ⟨by decide, rfl⟩
  have hout : (synSystem default).step (input default (chainedHost 0#32) otherSyn).1
      (.emit (input default (chainedHost 0#32) otherSyn).2.1) otherPassed :=
    ⟨by decide +kernel, rfl⟩
  have hre : HopHandoff default otherPassed (enteredSyn 0#32) retupledSyn :=
    ⟨rfl, rfl, by decide +kernel, by decide +kernel⟩
  refine (tagIdentifies_iff fresh_reachable accepted_chainedSyn (hin.tail hout) hre).1.mpr ⟨?_, ?_⟩
  · unfold ReadsZero
    decide +kernel
  · unfold Newest
    decide +kernel

/-- While a second SYN waits, the first one is taken for it. -/
theorem not_tagIdentifies : ¬ ∀ (E : Env) (h h' : Host) (skb skb' : SkBuff) (ls : List SynStep)
    (p : Nat), (synSystem E).Reachable h → Accepted E h skb p →
      (synSystem E).Steps (input E h skb).1 ls h' → h'.hashPenTag.Holds p →
        HopHandoff E h' (input E h skb).2.1 skb' → TagIdentifies E h' skb' p := by
  intro hall
  have hrun : (synSystem default).Steps (chainedHost 0#32) [.arrive otherSyn]
      (input default (chainedHost 0#32) otherSyn).1 := .single ⟨by decide, rfl⟩
  have hfound : TagIdentifies default (input default (chainedHost 0#32) otherSyn).1 retupledSyn 2 :=
    hall _ _ _ _ _ _ _ fresh_reachable accepted_chainedSyn hrun ⟨0, by decide +kernel⟩
      ⟨rfl, rfl, by decide +kernel, by decide +kernel⟩
  revert hfound
  unfold TagIdentifies
  decide +kernel

end Dysco
