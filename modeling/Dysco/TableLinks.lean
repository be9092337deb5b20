import Dysco.ControlBlock

/-! # Tables and links

`Host` keeps a table of output blocks twice: as a list, which its searches look through, and
as what the bucket heads and the `rhash_head`s of the blocks lead to.  The three tables share
the `rhash_head`, so the two need not agree.

They agree (`Threaded`) as long as a block is put into the pending tables only while all
pending blocks sit in its bucket of `dysco_hash_pen`, and is taken out of the bucket that it was
put into.  Then a search that follows the heads finds what a search of the list finds.
-/
namespace Dysco

/-! ## Searches along the chains -/

namespace Host
variable (E : Env)

/-- The blocks met from the head of a bucket. -/
def walk (h : Host) (t : CbTable) (b : Nat) : List Nat :=
  follow h.links.next (h.links.head t b) h.brk

/-- `rhashtable_lookup_fast` on `dysco_hash_out`, along the chain. -/
def searchOut (h : Host) (ss : TcpSession) : Option Nat :=
  (h.walk .out (E.sessionHash ss)).find? fun p => decide ((h.outMem p).super = ss)

/-- `rhashtable_lookup_fast` on `dysco_hash_pen`, along the chain. -/
def searchPen (h : Host) (ss : TcpSession) : Option Nat :=
  (h.walk .pen (E.penHash ss)).find? fun p => decide ((h.outMem p).super = ss)

/-- `rhashtable_lookup_fast` on `dysco_hash_pen_tag`, along the chain. -/
def searchTag (h : Host) (tag : U32) : Option Nat :=
  (h.walk .penTag (E.tagHash tag)).find? fun p => decide ((h.outMem p).dyscoTag = tag)

end Host

/-! ## Links that agree with the tables -/

/-- Buckets of different tables. -/
theorem CbTable.apart {t t' : CbTable} (h : t' ≠ t) {b b' : Nat} : (t', b') ≠ (t, b) :=
  fun he => h (Prod.mk.inj he).1

theorem out_ne_pen : CbTable.out ≠ .pen := by decide
theorem out_ne_penTag : CbTable.out ≠ .penTag := by decide
theorem pen_ne_penTag : CbTable.pen ≠ .penTag := by decide

/-- Every bucket leads to exactly the blocks that its table lists there.  All pending blocks sit
in one bucket of `dysco_hash_pen`, in the order they have in `dysco_hash_pen_tag`. -/
structure Threaded (out pen tag : BucketTable Nat) (k : Links CbTable Nat) : Prop where
  leadsOut : ∀ b, k.Leads .out b (out.bucket b)
  leadsPen : ∀ b, k.Leads .pen b (pen.bucket b)
  leadsTag : ∀ b, k.Leads .penTag b (tag.bucket b)
  nodes : pen.nodes = tag.nodes
  one : ∀ e ∈ pen.entries, ∀ e' ∈ pen.entries, e.1 = e'.1

namespace Threaded
variable {out pen tag : BucketTable Nat} {k : Links CbTable Nat} {b c p fuel : Nat}

theorem pen_iff_tag (t : Threaded out pen tag k) : pen.Holds p ↔ tag.Holds p := by
  rw [← BucketTable.mem_nodes, t.nodes, BucketTable.mem_nodes]

/-- A host whose tables are empty. -/
theorem empty (hout : out.entries = []) (hpen : pen.entries = []) (htag : tag.entries = [])
    (hheads : ∀ t b, k.head t b = none) : Threaded out pen tag k where
  leadsOut b := by
    rw [Links.Leads, hheads, BucketTable.bucket, hout]
    exact .nil
  leadsPen b := by
    rw [Links.Leads, hheads, BucketTable.bucket, hpen]
    exact .nil
  leadsTag b := by
    rw [Links.Leads, hheads, BucketTable.bucket, htag]
    exact .nil
  nodes := by rw [BucketTable.nodes, BucketTable.nodes, hpen, htag]
  one e he := by
    rw [hpen] at he
    cases he

/-- A block that is in no table goes into the output table. -/
theorem insertOut (t : Threaded out pen tag k) (hout : ¬ out.Holds p) (hpen : ¬ pen.Holds p) :
    Threaded ⟨(b, p) :: out.entries⟩ pen tag (k.insert .out b p) where
  leadsOut c := by
    rw [BucketTable.bucket_cons]
    have hnot : p ∉ out.bucket c := fun hm => hout ⟨c, BucketTable.mem_bucket.mp hm⟩
    by_cases hb : b = c
    · subst hb
      rw [if_pos rfl]
      exact (t.leadsOut b).insert_self hnot
    · rw [if_neg hb]
      exact (t.leadsOut c).insert_of_ne (fun he => hb (Prod.mk.inj he).2.symm) hnot
  leadsPen c := (t.leadsPen c).insert_of_ne (CbTable.apart out_ne_pen.symm) fun hm =>
    hpen ⟨c, BucketTable.mem_bucket.mp hm⟩
  leadsTag c := (t.leadsTag c).insert_of_ne (CbTable.apart out_ne_penTag.symm) fun hm =>
    hpen (t.pen_iff_tag.mpr ⟨c, BucketTable.mem_bucket.mp hm⟩)
  nodes := t.nodes
  one := t.one

/-- The bucket in which all pending blocks are leads to everything that is pending. -/
theorem leads_pen (t : Threaded out pen tag k) (hone : ∀ e ∈ pen.entries, e.1 = b) :
    k.Leads .pen b pen.nodes := by
  have h := t.leadsPen b
  rwa [BucketTable.bucket_of_one hone, if_pos rfl] at h

/-- So does the bucket of the table by tags in which they all are. -/
theorem leads_penTag (t : Threaded out pen tag k) (htag : ∀ e ∈ tag.entries, e.1 = c) :
    k.Leads .penTag c pen.nodes := by
  have h := t.leadsTag c
  rwa [BucketTable.bucket_of_one htag, if_pos rfl, ← t.nodes] at h

/-- A block that is in no table goes into the buckets of the pending tables in which all pending
blocks are. -/
theorem insertPending (t : Threaded out pen tag k) (hout : ¬ out.Holds p) (hpen : ¬ pen.Holds p)
    (hone : ∀ e ∈ pen.entries, e.1 = b) (htag : ∀ e ∈ tag.entries, e.1 = c) :
    Threaded out ⟨(b, p) :: pen.entries⟩ ⟨(c, p) :: tag.entries⟩
      ((k.insert .pen b p).insert .penTag c p) := by
  have hnodes : p ∉ pen.nodes := fun hm => hpen (BucketTable.mem_nodes.mp hm)
  -- both heads lead to all that is pending
  have hheads : k.head .penTag c = k.head .pen b :=
    (Chain.head_eq (t.leads_penTag htag)).trans (Chain.head_eq (t.leads_pen hone)).symm
  have hnext : ((k.insert .pen b p).insert .penTag c p).next = (k.insert .pen b p).next := by
    have hhead : (k.insert .pen b p).head .penTag c = k.head .pen b :=
      (Links.insert_head_of_ne k (CbTable.apart pen_ne_penTag.symm)).trans hheads
    change link (link k.next (k.head .pen b) p) ((k.insert .pen b p).head .penTag c) p = _
    rw [hhead]
    exact Function.update_idem ..
  have hbucket {d : Nat} : p ∉ pen.bucket d := fun hm => hpen ⟨d, BucketTable.mem_bucket.mp hm⟩
  have htagBucket {d : Nat} : p ∉ tag.bucket d := fun hm =>
    hpen (t.pen_iff_tag.mpr ⟨d, BucketTable.mem_bucket.mp hm⟩)
  refine ⟨fun d => ?_, fun d => ?_, fun d => ?_, ?_, ?_⟩
  · have hnot : p ∉ out.bucket d := fun hm => hout ⟨d, BucketTable.mem_bucket.mp hm⟩
    exact ((t.leadsOut d).insert_of_ne (CbTable.apart out_ne_pen) hnot).insert_of_ne
      (CbTable.apart out_ne_penTag) hnot
  · rw [Links.Leads, Links.insert_head_of_ne _ (CbTable.apart pen_ne_penTag), hnext,
      BucketTable.bucket_cons]
    by_cases hd : b = d
    · subst hd
      rw [if_pos rfl]
      exact (t.leadsPen b).insert_self hbucket
    · rw [if_neg hd]
      exact (t.leadsPen d).insert_of_ne (fun he => hd (Prod.mk.inj he).2.symm) hbucket
  · rw [BucketTable.bucket_cons]
    have h := (t.leadsTag d).insert_of_ne (b := b) (CbTable.apart pen_ne_penTag.symm) htagBucket
    by_cases hd : c = d
    · subst hd
      rw [if_pos rfl]
      exact h.insert_self htagBucket
    · rw [if_neg hd]
      exact h.insert_of_ne (fun he => hd (Prod.mk.inj he).2.symm) htagBucket
  · rw [BucketTable.nodes, BucketTable.nodes, List.map_cons, List.map_cons]
    exact congrArg (p :: ·) t.nodes
  · have hall : ∀ e ∈ (b, p) :: pen.entries, e.1 = b := by
      intro e he
      rcases List.mem_cons.mp he with rfl | he
      · rfl
      · exact hone e he
    exact fun e he e' he' => (hall e he).trans (hall e' he').symm

/-- A pending block goes out of the buckets that it is in. -/
theorem removePending (t : Threaded out pen tag k) (hpen : (b, p) ∈ pen.entries)
    (hnodup : pen.nodes.Nodup) (hapart : ∀ x, pen.Holds x → ¬ out.Holds x)
    (htag : ∀ e ∈ tag.entries, e.1 = c) (hfuel : pen.nodes.length ≤ fuel) :
    Threaded out ⟨pen.entries.erase (b, p)⟩ ⟨tag.entries.erase (c, p)⟩
      ((k.remove .pen b p fuel).remove .penTag c p fuel) := by
  have hone : ∀ e ∈ pen.entries, e.1 = b := fun e he => t.one e he _ hpen
  obtain ⟨hpen', htag', hwrite⟩ := (t.leads_pen hone).remove_both (a := p) (t.leads_penTag htag)
    (CbTable.apart pen_ne_penTag.symm) hnodup hfuel
  refine ⟨fun d => ?_, fun d => ?_, fun d => ?_, ?_, ?_⟩
  · have hout : ∀ x ∈ out.bucket d, x ∉ pen.nodes := fun x hx hm =>
      hapart x (BucketTable.mem_nodes.mp hm) ⟨d, BucketTable.mem_bucket.mp hx⟩
    have h := Chain.congr (t.leadsOut d) fun x hx => hwrite x (hout x hx)
    rw [Links.Leads, Links.remove_head_of_ne _ (CbTable.apart out_ne_penTag),
      Links.remove_head_of_ne _ (CbTable.apart out_ne_pen)]
    exact h
  · rw [BucketTable.bucket_erase]
    by_cases hd : b = d
    · subst hd
      rw [if_pos rfl, BucketTable.bucket_of_one (t := ⟨pen.entries⟩) hone, if_pos rfl]
      exact hpen'
    · rw [if_neg hd]
      have h := t.leadsPen d
      rw [BucketTable.bucket_of_one hone, if_neg (Ne.symm hd), Links.Leads] at h
      rw [BucketTable.bucket_of_one (t := ⟨pen.entries⟩) hone, if_neg (Ne.symm hd), Links.Leads,
        Links.remove_head_of_ne _ (CbTable.apart pen_ne_penTag),
        Links.remove_head_of_ne _ (fun he => hd (Prod.mk.inj he).2.symm)]
      exact h.congr fun _ hx => absurd hx List.not_mem_nil
  · rw [BucketTable.bucket_erase]
    by_cases hd : c = d
    · subst hd
      rw [if_pos rfl, BucketTable.bucket_of_one (t := ⟨tag.entries⟩) htag, if_pos rfl]
      exact t.nodes ▸ htag'
    · rw [if_neg hd]
      have h := t.leadsTag d
      rw [BucketTable.bucket_of_one htag, if_neg (Ne.symm hd), Links.Leads] at h
      rw [BucketTable.bucket_of_one (t := ⟨tag.entries⟩) htag, if_neg (Ne.symm hd), Links.Leads,
        Links.remove_head_of_ne _ (fun he => hd (Prod.mk.inj he).2.symm),
        Links.remove_head_of_ne _ (CbTable.apart pen_ne_penTag.symm)]
      exact h.congr fun _ hx => absurd hx List.not_mem_nil
  · rw [BucketTable.nodes_erase_of_one hone, BucketTable.nodes_erase_of_one htag, t.nodes]
  · exact fun e he e' he' =>
      t.one e (List.mem_of_mem_erase he) e' (List.mem_of_mem_erase he')

end Threaded

/-! ## Searches that agree -/

/-- A walk meets the blocks of a bucket, if there are no more of them than blocks were made. -/
theorem Host.walk_eq {h : Host} {t : CbTable} {b : Nat} {l : List Nat}
    (hl : h.links.Leads t b l) (hn : l.Nodup) (hlt : ∀ p ∈ l, p < h.brk) : h.walk t b = l := by
  refine hl.follow_eq ?_
  have hsub : l ⊆ List.range h.brk := fun p hp => List.mem_range.mpr (hlt p hp)
  have hlen := (List.subperm_of_subset hn hsub).length_le
  rwa [List.length_range] at hlen

/-- Every bucket leads to what its table lists, and the searches along the chains find what the
searches of the lists find. -/
structure Host.Agrees (E : Env) (h : Host) : Prop where
  threaded : Threaded h.hashOut h.hashPen h.hashPenTag h.links
  out : h.searchOut E = h.lookupOut E
  pen : h.searchPen E = h.lookupPen E
  tag : h.searchTag E = h.lookupTag E

theorem Threaded.agrees {E : Env} {h : Host}
    (t : Threaded h.hashOut h.hashPen h.hashPenTag h.links) (hout : h.hashOut.nodes.Nodup)
    (hpen : h.hashPen.nodes.Nodup) (hlt : ∀ p, h.hashOut.Holds p ∨ h.hashPen.Holds p → p < h.brk) :
    h.Agrees E := by
  refine ⟨t, funext fun ss => ?_, funext fun ss => ?_, funext fun tag => ?_⟩
  · rw [Host.searchOut, Host.walk_eq (t.leadsOut _) ((BucketTable.bucket_sublist _ _).nodup hout)
      fun p hp => hlt p (.inl ⟨_, BucketTable.mem_bucket.mp hp⟩), Host.lookupOut,
      BucketTable.lookup_eq_find]
  · rw [Host.searchPen, Host.walk_eq (t.leadsPen _) ((BucketTable.bucket_sublist _ _).nodup hpen)
      fun p hp => hlt p (.inr ⟨_, BucketTable.mem_bucket.mp hp⟩), Host.lookupPen,
      BucketTable.lookup_eq_find]
  · rw [Host.searchTag, Host.walk_eq (t.leadsTag _)
      ((BucketTable.bucket_sublist _ _).nodup (t.nodes ▸ hpen))
      fun p hp => hlt p (.inr (t.pen_iff_tag.mpr ⟨_, BucketTable.mem_bucket.mp hp⟩)),
      Host.lookupTag, BucketTable.lookup_eq_find]

end Dysco
