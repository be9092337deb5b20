import Mathlib.Data.List.Basic

/-! # Bucket tables

A hash table whose entries are nodes of a memory that the table does not own.  A
node's key is read from memory (`keyOf`), and the bucket it was put into is the
hash of the key it had at that time.  Insertion puts a node at the head of its
bucket without looking for an equal key; a search walks a bucket from its head
and returns the first node whose key, as memory now has it, is the one looked
for; removal looks for the node itself, in the bucket of its present key.

So a table does not notice that a node's key has changed.  The lemmas say what a
search sees after an insertion, after a removal and after a change of memory.
-/

/-- The nodes of a table with the buckets they were put into, newest first. -/
structure BucketTable (Node : Type) where
  /-- Bucket and node of every entry. -/
  entries : List (Nat × Node)
deriving Repr, DecidableEq

namespace BucketTable
variable {Node K : Type} (hash : K → Nat) (keyOf : Node → K)

/-- The table with no entry. -/
def empty : BucketTable Node := ⟨[]⟩

/-- A node answers a search for `k` if it sits in `k`'s bucket and its key is `k`. -/
def answers [DecidableEq K] (k : K) (e : Nat × Node) : Bool :=
  decide (e.1 = hash k) && decide (keyOf e.2 = k)

/-- The newest node that answers a search for `k`. -/
def lookup [DecidableEq K] (t : BucketTable Node) (k : K) : Option Node :=
  (t.entries.find? (answers hash keyOf k)).map Prod.snd

/-- Putting a node at the head of the bucket of its key. -/
def insert (t : BucketTable Node) (n : Node) : BucketTable Node :=
  ⟨(hash (keyOf n), n) :: t.entries⟩

/-- Taking a node out of the bucket of its key, if it is there. -/
def remove [DecidableEq Node] (t : BucketTable Node) (n : Node) : BucketTable Node :=
  ⟨t.entries.erase (hash (keyOf n), n)⟩

/-- Some entry holds the node. -/
def Holds (t : BucketTable Node) (n : Node) : Prop := ∃ b, (b, n) ∈ t.entries

variable {hash keyOf} {t : BucketTable Node} {k : K} {m n : Node}

theorem answers_iff [DecidableEq K] {e : Nat × Node} :
    answers hash keyOf k e = true ↔ e.1 = hash k ∧ keyOf e.2 = k := by
  simp [answers]

@[simp] theorem lookup_empty [DecidableEq K] : lookup hash keyOf empty k = none := rfl

/-- What a search returns is in the table, under the key looked for. -/
theorem lookup_eq_some [DecidableEq K] (h : lookup hash keyOf t k = some n) :
    t.Holds n ∧ keyOf n = k := by
  obtain ⟨e, he, rfl⟩ := Option.map_eq_some_iff.mp h
  have hans := List.find?_some he
  exact ⟨⟨e.1, List.mem_of_find?_eq_some he⟩, (answers_iff.mp hans).2⟩

/-- A node just inserted is the one found under its key. -/
theorem lookup_insert_self [DecidableEq K] (h : keyOf n = k) :
    lookup hash keyOf (insert hash keyOf t n) k = some n := by
  have hans : answers hash keyOf k (hash (keyOf n), n) = true :=
    answers_iff.mpr ⟨congrArg hash h, h⟩
  simp [lookup, insert, List.find?_cons_of_pos hans]

/-- An insertion under another key does not change a search. -/
theorem lookup_insert_of_ne [DecidableEq K] (h : keyOf n ≠ k) :
    lookup hash keyOf (insert hash keyOf t n) k = lookup hash keyOf t k := by
  have hans : ¬ answers hash keyOf k (hash (keyOf n), n) = true :=
    fun hc => h (answers_iff.mp hc).2
  simp [lookup, insert, List.find?_cons_of_neg hans]

theorem lookup_insert [DecidableEq K] :
    lookup hash keyOf (insert hash keyOf t n) k =
      if keyOf n = k then some n else lookup hash keyOf t k := by
  by_cases h : keyOf n = k
  · rw [if_pos h, lookup_insert_self h]
  · rw [if_neg h, lookup_insert_of_ne h]

/-- A search of a table whose newest node has the key `k'`. -/
theorem lookup_cons [DecidableEq K] {f : Node → K} {k' : K} {es : List (Nat × Node)}
    (h : f n = k') : lookup hash f ⟨(hash k', n) :: es⟩ k =
      if k' = k then some n else lookup hash f ⟨es⟩ k := by
  rw [← h]
  exact lookup_insert (t := ⟨es⟩)

/-- A search only depends on the keys of the nodes in the table. -/
theorem lookup_congr [DecidableEq K] {keyOf' : Node → K}
    (h : ∀ m, t.Holds m → keyOf' m = keyOf m) :
    lookup hash keyOf' t k = lookup hash keyOf t k := by
  have hfind : ∀ l : List (Nat × Node), (∀ e ∈ l, keyOf' e.2 = keyOf e.2) →
      l.find? (answers hash keyOf' k) = l.find? (answers hash keyOf k) := by
    intro l hl
    induction l with
    | nil => rfl
    | cons e l ih =>
      have he : answers hash keyOf' k e = answers hash keyOf k e := by
        rw [answers, answers, hl e (List.mem_cons_self)]
      rw [List.find?_cons, List.find?_cons, he, ih fun d hd => hl d (List.mem_cons_of_mem _ hd)]
  rw [lookup, lookup, hfind t.entries fun e he => h e.2 ⟨e.1, he⟩]

theorem holds_insert : (insert hash keyOf t n).Holds m ↔ m = n ∨ t.Holds m := by
  constructor
  · rintro ⟨b, hb⟩
    rcases List.mem_cons.mp hb with heq | hmem
    · exact Or.inl (congrArg Prod.snd heq)
    · exact Or.inr ⟨b, hmem⟩
  · rintro (rfl | ⟨b, hb⟩)
    · exact ⟨_, List.mem_cons_self⟩
    · exact ⟨b, List.mem_cons_of_mem _ hb⟩

theorem holds_cons {b : Nat} {es : List (Nat × Node)} :
    Holds ⟨(b, n) :: es⟩ m ↔ m = n ∨ Holds ⟨es⟩ m :=
  @holds_insert _ Unit (fun _ => b) (fun _ => ()) ⟨es⟩ m n

/-- Removal adds no node. -/
theorem holds_of_remove [DecidableEq Node] (h : (remove hash keyOf t n).Holds m) : t.Holds m := by
  obtain ⟨b, hb⟩ := h
  exact ⟨b, List.mem_of_mem_erase hb⟩

/-! ## Buckets -/

/-- The nodes of a table. -/
def nodes (t : BucketTable Node) : List Node := t.entries.map Prod.snd

/-- The nodes of a bucket, from its head. -/
def bucket (t : BucketTable Node) (b : Nat) : List Node :=
  (t.entries.filter fun e => e.1 = b).map Prod.snd

theorem mem_nodes : n ∈ t.nodes ↔ t.Holds n := by
  rw [nodes, List.mem_map, Holds]
  constructor
  · rintro ⟨⟨b, m⟩, he, rfl⟩
    exact ⟨b, he⟩
  · rintro ⟨b, he⟩
    exact ⟨(b, n), he, rfl⟩

theorem mem_bucket {b : Nat} : n ∈ t.bucket b ↔ (b, n) ∈ t.entries := by
  rw [bucket, List.mem_map]
  constructor
  · rintro ⟨⟨c, m⟩, he, rfl⟩
    obtain ⟨hm, hb⟩ := List.mem_filter.mp he
    obtain rfl : c = b := by simpa using hb
    exact hm
  · intro hm
    exact ⟨(b, n), List.mem_filter.mpr ⟨hm, by simp⟩, rfl⟩

/-- The nodes of a bucket are those whose key belongs there. -/
theorem mem_bucket_iff {f : Node → Nat} (h : ∀ e ∈ t.entries, e.1 = f e.2) {b : Nat} :
    n ∈ t.bucket b ↔ n ∈ t.nodes ∧ f n = b := by
  rw [mem_bucket, mem_nodes]
  constructor
  · intro hm
    exact ⟨⟨b, hm⟩, (h _ hm).symm⟩
  · rintro ⟨⟨c, hc⟩, rfl⟩
    have hkey := h _ hc
    exact hkey ▸ hc

/-- A bucket has no more nodes than the table. -/
theorem bucket_sublist (t : BucketTable Node) (b : Nat) : (t.bucket b).Sublist t.nodes :=
  List.filter_sublist.map Prod.snd

/-- A search walks one bucket. -/
theorem lookup_eq_find [DecidableEq K] :
    lookup hash keyOf t k = (t.bucket (hash k)).find? fun n => decide (keyOf n = k) := by
  rw [lookup, bucket, List.find?_map, List.find?_filter]
  congr 1
  refine congrFun (congrArg List.find? (funext fun e => ?_)) _
  simp [answers]

theorem bucket_cons (b c : Nat) (es : List (Nat × Node)) :
    bucket ⟨(c, n) :: es⟩ b = if c = b then n :: bucket ⟨es⟩ b else bucket ⟨es⟩ b := by
  rw [bucket]
  by_cases hb : c = b
  · rw [if_pos hb, List.filter_cons_of_pos (by simpa using hb), List.map_cons]
    rfl
  · rw [if_neg hb, List.filter_cons_of_neg (by simpa using hb)]
    rfl

theorem bucket_erase [DecidableEq Node] (b c : Nat) (es : List (Nat × Node)) :
    bucket ⟨es.erase (c, n)⟩ b =
      if c = b then (bucket ⟨es⟩ b).erase n else bucket ⟨es⟩ b := by
  induction es with
  | nil => split <;> rfl
  | cons e es ih =>
    obtain ⟨d, m⟩ := e
    by_cases he : (d, m) = (c, n)
    · cases he
      rw [List.erase_cons_head, bucket_cons]
      by_cases hb : c = b
      · rw [if_pos hb, if_pos hb, List.erase_cons_head]
      · rw [if_neg hb, if_neg hb]
    · rw [List.erase_cons_tail (by simpa using he), bucket_cons, bucket_cons, ih]
      by_cases hd : d = b
      · rw [if_pos hd, if_pos hd]
        by_cases hb : c = b
        · have hne : m ≠ n := fun hm => he (by rw [hm, hd, hb])
          rw [if_pos hb, if_pos hb, List.erase_cons_tail (by simpa using hne)]
        · rw [if_neg hb, if_neg hb]
      · rw [if_neg hd, if_neg hd]

/-- A table all of whose nodes sit in one bucket. -/
theorem bucket_of_one {b : Nat} (h : ∀ e ∈ t.entries, e.1 = b) (c : Nat) :
    t.bucket c = if c = b then t.nodes else [] := by
  rw [bucket, nodes]
  split
  · rename_i hc
    rw [List.filter_eq_self.mpr fun e he => by simpa [hc] using h e he]
  · rename_i hc
    rw [List.filter_eq_nil_iff.mpr fun e he => by simpa [h e he] using Ne.symm hc]
    rfl

/-- Taking a node out of a table all of whose nodes sit in one bucket. -/
theorem nodes_erase_of_one [DecidableEq Node] {b : Nat} (h : ∀ e ∈ t.entries, e.1 = b) :
    nodes ⟨t.entries.erase (b, n)⟩ = t.nodes.erase n := by
  have herase : ∀ e ∈ (⟨t.entries.erase (b, n)⟩ : BucketTable Node).entries, e.1 = b :=
    fun e he => h e (List.mem_of_mem_erase he)
  have hbucket := bucket_erase (n := n) b b t.entries
  rw [if_pos rfl, bucket_of_one herase, if_pos rfl, bucket_of_one (t := ⟨t.entries⟩) h,
    if_pos rfl] at hbucket
  exact hbucket

end BucketTable
