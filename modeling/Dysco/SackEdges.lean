import Dysco.TcpOptions

/-! # Words rewritten behind the TCP header

The SACK translation and the timestamp translation replace 32-bit words at offsets
that depend only on the options.  `sackEdges` lists the offsets of the SACK edges, and
`tcpSack_eq` shows the nested loops of `dysco_tcp_sack` to be one pass over that list.
The offsets are four apart at least, so every edge is read as the packet had it and
is written once (`load32_replaceWords`).
-/
namespace Dysco
open OnesComplement ByteOrder

namespace SkBuff

/-! ## One word -/

variable (skb : SkBuff) (k : Nat) (f : U32 → U32)

/-- The word that a replacement puts in the place of the one at offset `k`. -/
def newWord : U32 := htonl (f (ntohl (load32 skb.data k)))

@[simp] theorem replaceWord_data :
    (skb.replaceWord k f).data = store32 skb.data k (skb.newWord k f) := rfl

@[simp] theorem replaceWord_optLen : (skb.replaceWord k f).optLen = skb.optLen := rfl

/-- A replacement in the value of an option leaves the options alone. -/
theorem options_replaceWord {skb : SkBuff} {o : TcpOption} (ho : o ∈ skb.options) {k : Nat}
    (hk : o.ptr ≤ k) (hend : k + 6 ≤ o.ptr + o.size) (f : U32 → U32) :
    (skb.replaceWord k f).options = skb.options :=
  options_store ho hk hend _

end SkBuff

/-! ## The edges -/

/-- The offsets of the edges of `n` SACK blocks from `lptr` on. -/
def blockEdges : Nat → Nat → List Nat
  | _, 0 => []
  | lptr, n + 1 => lptr :: (lptr + 4) :: blockEdges (lptr + 8) n

/-- The offsets of the edges in an option. -/
def TcpOption.edges (o : TcpOption) : List Nat :=
  if o.IsSack then blockEdges o.ptr ((o.size - 2) / 8) else []

/-- The offsets of the SACK edges of a packet. -/
def SkBuff.sackEdges (skb : SkBuff) : List Nat := skb.options.flatMap TcpOption.edges

/-- Replacing the words at several offsets, one after the other. -/
def SkBuff.replaceWords (skb : SkBuff) (ks : List Nat) (f : U32 → U32) : SkBuff :=
  ks.foldl (fun skb k => skb.replaceWord k f) skb

theorem replaceWords_cons (skb : SkBuff) (k : Nat) (ks : List Nat) (f : U32 → U32) :
    skb.replaceWords (k :: ks) f = (skb.replaceWord k f).replaceWords ks f :=
  List.foldl_cons

/-- The checksum does not depend on the bytes behind the header. -/
theorem dyscoInetProtoCsumReplace4_store (skb : SkBuff) (k : Nat) (x a b : U32)
    (pseudohdr : Bool) : dyscoInetProtoCsumReplace4 (skb.store k x) a b pseudohdr =
      (dyscoInetProtoCsumReplace4 skb a b pseudohdr).store k x := rfl

/-- Adjusting the checksum for both edges first makes no difference. -/
theorem sackBlock_eq (delta : U32) (add : Bool) (skb : SkBuff) (lptr : Nat) :
    sackBlock delta add skb lptr =
      (skb.replaceWord lptr (shift delta add)).replaceWord (lptr + 4) (shift delta add) := by
  have hright : ∀ x, load32 (store32 skb.data lptr x) (lptr + 4) = load32 skb.data (lptr + 4) :=
    fun x => load32_store32_of_disjoint (by omega) x
  have hdata : ∀ a b x, ((dyscoInetProtoCsumReplace4 skb a b false).store lptr x).data =
      store32 skb.data lptr x := fun _ _ _ => rfl
  unfold sackBlock SkBuff.replaceWord
  simp only
  rw [hdata, hright, dyscoInetProtoCsumReplace4_store]

/-- The blocks of one option are rewritten edge by edge. -/
theorem sackBlocks_eq (delta : U32) (add : Bool) (n : Nat) (skb : SkBuff) (lptr : Nat) :
    sackBlocks delta add n skb lptr =
      skb.replaceWords (blockEdges lptr n) (shift delta add) := by
  induction n generalizing skb lptr with
  | zero => rw [sackBlocks, blockEdges, SkBuff.replaceWords, List.foldl_nil]
  | succ n ih =>
    rw [sackBlocks, sackBlock_eq, ih, blockEdges, replaceWords_cons, replaceWords_cons]

/-- **The SACK translation is one pass over the edges.** -/
theorem tcpSack_eq (skb : SkBuff) (delta : U32) (add : Bool) :
    tcpSack skb delta add = skb.replaceWords skb.sackEdges (shift delta add) := by
  unfold tcpSack SkBuff.replaceWords SkBuff.sackEdges
  rw [List.foldl_flatMap]
  congr 1
  funext s o
  unfold TcpOption.edges
  split
  · rw [sackBlocks_eq, SkBuff.replaceWords]
  · rw [List.foldl_nil]

/-! ## Where the edges lie -/

/-- The edges lie inside their blocks. -/
theorem mem_blockEdges {lptr n k : Nat} (h : k ∈ blockEdges lptr n) :
    lptr ≤ k ∧ k + 4 ≤ lptr + 8 * n := by
  induction n generalizing lptr with
  | zero => cases h
  | succ n ih =>
    simp only [blockEdges, List.mem_cons] at h
    rcases h with rfl | rfl | h
    · omega
    · omega
    · have := ih h
      omega

/-- Offsets in increasing order, four apart at least. -/
def Apart (ks : List Nat) : Prop := ks.Pairwise fun a b => a + 4 ≤ b

/-- And do not overlap. -/
theorem apart_blockEdges (lptr n : Nat) : Apart (blockEdges lptr n) := by
  induction n generalizing lptr with
  | zero => exact List.Pairwise.nil
  | succ n ih =>
    refine List.Pairwise.cons ?_ (List.Pairwise.cons ?_ (ih _))
    · intro k hk
      rcases List.mem_cons.mp hk with rfl | hk
      · exact Nat.le_refl _
      · have := mem_blockEdges hk
        omega
    · intro k hk
      have := mem_blockEdges hk
      omega

/-- The edges of an option lie inside it. -/
theorem TcpOption.mem_edges {o : TcpOption} {k : Nat} (h : k ∈ o.edges) :
    o.ptr ≤ k ∧ k + 6 ≤ o.ptr + o.size := by
  unfold TcpOption.edges at h
  split at h
  · rename_i hsack
    have := mem_blockEdges h
    have := hsack.2.1
    omega
  · cases h

theorem TcpOption.apart_edges (o : TcpOption) : Apart o.edges := by
  unfold TcpOption.edges
  split
  · exact apart_blockEdges _ _
  · exact List.Pairwise.nil

/-- The options of a packet lie one behind the other. -/
theorem pairwise_optionsFrom (data : List U8) (fuel ptr length : Nat) :
    (optionsFrom data fuel ptr length).Pairwise fun o o' => o.ptr + o.size ≤ o'.ptr := by
  induction fuel generalizing ptr length with
  | zero => exact List.Pairwise.nil
  | succ fuel ih =>
    unfold optionsFrom
    split
    · exact List.Pairwise.nil
    simp only
    split
    · exact List.Pairwise.nil
    split
    · exact ih _ _
    split
    · exact List.Pairwise.nil
    split
    · exact List.Pairwise.nil
    refine List.Pairwise.cons ?_ (ih _ _)
    intro o ho
    have := mem_optionsFrom ho
    simp only
    omega

namespace SkBuff

/-- Every edge belongs to an option. -/
theorem exists_option_of_mem_sackEdges {skb : SkBuff} {k : Nat} (h : k ∈ skb.sackEdges) :
    ∃ o ∈ skb.options, o.ptr ≤ k ∧ k + 6 ≤ o.ptr + o.size := by
  obtain ⟨o, ho, hk⟩ := List.mem_flatMap.mp h
  exact ⟨o, ho, TcpOption.mem_edges hk⟩

/-- So all edges lie inside the option area. -/
theorem mem_sackEdges {skb : SkBuff} {k : Nat} (h : k ∈ skb.sackEdges) :
    2 ≤ k ∧ k + 4 ≤ skb.optLen := by
  obtain ⟨o, ho, hlo, hhi⟩ := exists_option_of_mem_sackEdges h
  have := mem_options ho
  omega

/-- No two edges of a packet overlap, as its options do not. -/
theorem apart_sackEdges (skb : SkBuff) : Apart skb.sackEdges := by
  refine List.pairwise_flatMap.mpr ⟨fun o _ => o.apart_edges, ?_⟩
  refine (pairwise_optionsFrom _ _ _ _).imp ?_
  intro o o' hoo' k hk k' hk'
  have := TcpOption.mem_edges hk
  have := TcpOption.mem_edges hk'
  omega

/-! ## Several words -/

/-- A replacement leaves the bytes outside its word alone. -/
theorem load32_replaceWord_of_disjoint {skb : SkBuff} {i k : Nat} (h : i + 4 ≤ k ∨ k + 4 ≤ i)
    (f : U32 → U32) : load32 (skb.replaceWord k f).data i = load32 skb.data i :=
  load32_store32_of_disjoint h _

/-- A word that is written is read back. -/
theorem load32_replaceWord_self {skb : SkBuff} {k : Nat} (h : k + 4 ≤ skb.data.length)
    (f : U32 → U32) : load32 (skb.replaceWord k f).data k = skb.newWord k f :=
  load32_store32_self h _

/-- Other words are read as before. -/
theorem load32_replaceWords_of_disjoint {skb : SkBuff} {ks : List Nat} {i : Nat}
    (h : ∀ k ∈ ks, i + 4 ≤ k ∨ k + 4 ≤ i) (f : U32 → U32) :
    load32 (skb.replaceWords ks f).data i = load32 skb.data i := by
  induction ks generalizing skb with
  | nil => rfl
  | cons k ks ih =>
    rw [replaceWords_cons, ih fun k' hk' => h k' (List.mem_cons_of_mem _ hk'),
      load32_replaceWord_of_disjoint (h k List.mem_cons_self)]

/-- **Every word is replaced once.** -/
theorem load32_replaceWords {skb : SkBuff} {ks : List Nat} (hks : Apart ks)
    (hlen : ∀ k ∈ ks, k + 4 ≤ skb.data.length) (f : U32 → U32) {k : Nat} (hk : k ∈ ks) :
    load32 (skb.replaceWords ks f).data k = skb.newWord k f := by
  induction ks generalizing skb with
  | nil => cases hk
  | cons j ks ih =>
    have hbehind : ∀ k' ∈ ks, j + 4 ≤ k' := fun _ hk' => List.rel_of_pairwise_cons hks hk'
    rw [replaceWords_cons]
    rcases List.mem_cons.mp hk with rfl | hk
    · rw [load32_replaceWords_of_disjoint (fun k' hk' => Or.inl (hbehind k' hk')),
        load32_replaceWord_self (hlen k List.mem_cons_self)]
    · have hlen' : ∀ k' ∈ ks, k' + 4 ≤ (skb.replaceWord j f).data.length := by
        intro k' hk'
        rw [replaceWord_data, length_store32]
        exact hlen k' (List.mem_cons_of_mem _ hk')
      rw [ih hks.of_cons hlen' hk, newWord, newWord,
        load32_replaceWord_of_disjoint (Or.inr (hbehind k hk))]

/-- Replacing the SACK edges leaves the options alone. -/
theorem options_replaceWords {skb : SkBuff} {ks : List Nat}
    (h : ∀ k ∈ ks, ∃ o ∈ skb.options, o.ptr ≤ k ∧ k + 6 ≤ o.ptr + o.size) (f : U32 → U32) :
    (skb.replaceWords ks f).options = skb.options := by
  induction ks generalizing skb with
  | nil => rfl
  | cons k ks ih =>
    obtain ⟨o, ho, hlo, hhi⟩ := h k List.mem_cons_self
    have hopt := options_replaceWord ho hlo hhi f
    rw [replaceWords_cons, ih, hopt]
    intro k' hk'
    rw [hopt]
    exact h k' (List.mem_cons_of_mem _ hk')

/-- Rewriting edges leaves the options where they are. -/
theorem options_tcpSack (skb : SkBuff) (delta : U32) (add : Bool) :
    (tcpSack skb delta add).options = skb.options := by
  rw [tcpSack_eq]
  exact options_replaceWords (fun _ hk => exists_option_of_mem_sackEdges hk) _

end SkBuff
end Dysco
