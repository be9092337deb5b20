import Dysco.FirstServed
import Dysco.Teardown

/-! # Network namespaces

Every network namespace has tables of its own (`struct dysco_hashes`).  They are made when the
module is loaded, as the handler that sees a new namespace must not sleep: one set for `init_net`
and up to twenty for namespaces to come.  A namespace takes a set when its first device shows up,
for good, and one that comes when there is none left stays without (`served_first`).  What happens
in one namespace does not touch the tables of another (`namespaces_apart`), and whatever could not
be made and whoever has taken what, unloading gives back what loading has taken (`unload_balanced`).
-/
namespace Dysco
open EventRuns FirstServed
open scoped List

/-- The address of a `struct net`; zero is none. -/
abbrev Net := Nat

def initNet : Net := 1

/-- The tables of a namespace. -/
inductive HashTable where
  | out
  | inp
  | pen
  | reconfig
  | penTag
deriving DecidableEq, Repr

namespace HashTable

/-- In the order in which they are made. -/
def all : List HashTable := [out, inp, pen, reconfig, penTag]

end HashTable

/-- A namespace's tables with what lies in them, its identifier and its netlink socket. -/
structure DyscoHashes where
  netNs : Net
  nlSk : Bool
  host : Host

/-- The module: its namespaces by identifier, the tables in the cache, the port counter, and a
record of what the kernel has been asked for and given back. -/
structure DyscoModule where
  dhMem : Nat → DyscoHashes
  brk : Nat
  nsHashTable : BucketTable Nat
  nsHashes : List Nat
  allocPorts : U32
  totNamespaces : U32
  inited : List (Nat × HashTable)
  destroyed : List (Nat × HashTable)
  freed : List Nat
  sockets : List Nat
  released : List Nat

/-- What the kernel answers to `dysco_create_hashes`: whether there is memory, which tables and
whether the socket can be made, and what the memory holds. -/
structure Creation where
  memory : Bool
  init : HashTable → Bool
  sock : Bool
  garbage : Host

/-- Nothing fails that makes a set of tables; without a socket it is used all the same. -/
def Creation.ok (c : Creation) : Bool := c.memory && HashTable.all.all c.init

/-! ## Loading -/

namespace DyscoModule

/-- Before the module is loaded. -/
def unloaded : DyscoModule where
  dhMem _ := ⟨0, false, Host.fresh⟩
  brk := 0
  nsHashTable := .empty
  nsHashes := []
  allocPorts := 0x2710ffff#32
  totNamespaces := 0
  inited := []
  destroyed := []
  freed := []
  sockets := []
  released := []

def rhashtableInit (k : DyscoModule) (dh : Nat) (t : HashTable) : DyscoModule :=
  { k with inited := (dh, t) :: k.inited }

def rhashtableDestroy (k : DyscoModule) (dh : Nat) (t : HashTable) : DyscoModule :=
  { k with destroyed := (dh, t) :: k.destroyed }

def kfree (k : DyscoModule) (dh : Nat) : DyscoModule := { k with freed := dh :: k.freed }

def setDh (k : DyscoModule) (dh : Nat) (d : DyscoHashes) : DyscoModule :=
  { k with dhMem := Function.update k.dhMem dh d }

@[simp] theorem setDh_self (k : DyscoModule) (dh : Nat) (d : DyscoHashes) :
    (k.setDh dh d).dhMem dh = d :=
  Function.update_self ..

theorem setDh_of_ne (k : DyscoModule) {a dh : Nat} (ha : a ≠ dh) (d : DyscoHashes) :
    (k.setDh dh d).dhMem a = k.dhMem a := Function.update_of_ne ha ..

/-- `netlink_kernel_create`. -/
def netlinkKernelCreate (k : DyscoModule) (dh : Nat) (sock : Bool) : DyscoModule :=
  let k := k.setDh dh { k.dhMem dh with nlSk := sock }
  if sock then { k with sockets := dh :: k.sockets } else k

/-! The labels at the end of `dysco_create_hashes`; each falls through to the one before. -/

def freeNhAux (k : DyscoModule) (dh : Nat) : DyscoModule := k.kfree dh
def freeHashOut (k : DyscoModule) (dh : Nat) : DyscoModule :=
  (k.rhashtableDestroy dh .out).freeNhAux dh
def freeHashIn (k : DyscoModule) (dh : Nat) : DyscoModule :=
  (k.rhashtableDestroy dh .inp).freeHashOut dh
def freeHashPen (k : DyscoModule) (dh : Nat) : DyscoModule :=
  (k.rhashtableDestroy dh .pen).freeHashIn dh
def freeHashTag (k : DyscoModule) (dh : Nat) : DyscoModule :=
  (k.rhashtableDestroy dh .reconfig).freeHashPen dh

end DyscoModule

/-- `dysco_create_hashes`.  The memory is not cleared, so the tag counter starts anywhere. -/
def createHashes (k : DyscoModule) (netNs : Net) (c : Creation) : DyscoModule × Option Nat :=
  if !c.memory then (k, none) else
  let dh := k.brk
  let k := { k with brk := k.brk + 1 }
  if !c.init .out then (k.freeNhAux dh, none) else
  let k := k.rhashtableInit dh .out
  if !c.init .inp then (k.freeHashOut dh, none) else
  let k := k.rhashtableInit dh .inp
  if !c.init .pen then (k.freeHashIn dh, none) else
  let k := k.rhashtableInit dh .pen
  if !c.init .reconfig then (k.freeHashPen dh, none) else
  let k := k.rhashtableInit dh .reconfig
  if !c.init .penTag then (k.freeHashTag dh, none) else
  let k := k.rhashtableInit dh .penTag
  let host := { c.garbage with hashOut := .empty, hashIn := .empty, hashPen := .empty,
                               hashReconfig := .empty, hashPenTag := .empty, policies := [],
                               links := { c.garbage.links with head := fun _ _ => none } }
  let k := k.setDh dh ⟨netNs, false, host⟩
  (if netNs = 0 then k else k.netlinkKernelCreate dh c.sock, some dh)

def maxNamespaces : Nat := 20

/-- The cache: more sets of tables, up to the first that cannot be made. -/
def fillCache : List Creation → DyscoModule → DyscoModule
  | [], k => k
  | c :: cs, k =>
    match createHashes k 0 c with
    | (k, some dh) => fillCache cs { k with nsHashes := dh :: k.nsHashes }
    | (k, none) => k

/-- What the kernel answers as the cache is filled. -/
def cacheCreations (cs : Nat → Creation) : List Creation := (List.range maxNamespaces).map cs

section Hash
variable (hash : Net → Nat)

/-- Every node is in the bucket of the namespace it is looked up by. -/
def DyscoModule.insertNs (k : DyscoModule) (dh : Nat) : DyscoModule :=
  { k with nsHashTable := k.nsHashTable.insert hash (fun a => (k.dhMem a).netNs) dh }

/-- `dysco_init_hashes`; without a table of namespaces (`table`) it makes nothing, and nothing ever
comes into that table. -/
def initHashes (k : DyscoModule) (table : Bool) (c : Creation) (cs : Nat → Creation) :
    DyscoModule :=
  if !table then k else
  match createHashes k initNet c with
  | (k, some dh) => fillCache (cacheCreations cs) (k.insertNs hash dh)
  | (k, none) => fillCache (cacheCreations cs) k

/-! ## Running -/

/-- `dysco_get_hashes`. -/
def getHashes (k : DyscoModule) (n : Net) : Option Nat :=
  k.nsHashTable.lookup hash (fun a => (k.dhMem a).netNs) n

/-- `dysco_dev_event`, for the event that a device of the namespace has been set up. -/
def devEvent (k : DyscoModule) (n : Net) (sock : Bool) : DyscoModule :=
  match getHashes hash k n, k.nsHashes with
  | none, dh :: rest =>
    let k := { k with nsHashes := rest }
    let k := (k.setDh dh { k.dhMem dh with netNs := n }).insertNs hash dh
    { k with totNamespaces := k.totNamespaces + 1 }.netlinkKernelCreate dh sock
  | _, _ => k

/-- The tables of a namespace have changed, and the port counter that all namespaces share. -/
def DyscoModule.setHost (k : DyscoModule) (dh : Nat) (h : Host) : DyscoModule :=
  { k.setDh dh { k.dhMem dh with host := h } with allocPorts := h.allocPorts }

/-- What happens in a namespace. -/
def hostEvent (E : Env) (k : DyscoModule) (n : Net) (ev : HostEvent) : DyscoModule :=
  match getHashes hash k n with
  | none => k
  | some dh => k.setHost dh (hostStep E { (k.dhMem dh).host with allocPorts := k.allocPorts } ev)

/-- What happens to the module between loading and unloading. -/
inductive ModuleEvent where
  | device (n : Net) (sock : Bool)
  | host (n : Net) (ev : HostEvent)

def moduleStep (E : Env) (k : DyscoModule) : ModuleEvent → DyscoModule
  | .device n sock => devEvent hash k n sock
  | .host n ev => hostEvent hash E k n ev

end Hash

/-! ## Unloading -/

/-- What has been freed in a namespace when its tables and then its policies are gone. -/
def Host.emptied (h : Host) : Host :=
  delPolicies { h with freed := (destroyHashes h).reverse ++ h.freed }

/-- `dysco_destroy_hashes`. -/
def DyscoModule.destroyHashes (k : DyscoModule) (dh : Nat) : DyscoModule :=
  let k := k.rhashtableDestroy dh .out
  let k := k.rhashtableDestroy dh .inp
  let k := k.rhashtableDestroy dh .pen
  let k := k.rhashtableDestroy dh .reconfig
  let k := k.rhashtableDestroy dh .penTag
  let k := { k with released := if (k.dhMem dh).nlSk then dh :: k.released else k.released }
  (k.setDh dh { k.dhMem dh with host := (k.dhMem dh).host.emptied }).kfree dh

/-- `dysco_destroy_namespaces`. -/
def destroyNamespaces (k : DyscoModule) : DyscoModule :=
  let k := { k.nsHashTable.nodes.foldl DyscoModule.destroyHashes k with nsHashTable := .empty }
  { k.nsHashes.foldl DyscoModule.destroyHashes k with nsHashes := [] }

/-! ## What has been taken and given back -/

/-- The sets of tables `dhs` are in use; everything else that was taken has been given back. -/
structure Account (k : DyscoModule) (dhs : List Nat) : Prop where
  memory : List.range k.brk ~ k.freed ++ dhs
  tables : k.inited ~ k.destroyed ++ dhs.flatMap fun dh => HashTable.all.map (dh, ·)
  nodup : k.inited.Nodup
  lt : ∀ x ∈ k.inited, x.1 < k.brk
  sockets : k.sockets ~ k.released ++ dhs.filter fun dh => (k.dhMem dh).nlSk
  once : k.sockets.Nodup
  gone : ∀ dh ∈ k.released, dh ∈ k.freed

section Account
variable {k : DyscoModule} {dhs xs : List Nat} {dh : Nat}

theorem Account.perm (ha : Account k dhs) (hp : dhs ~ xs) : Account k xs :=
  { ha with
    memory := ha.memory.trans (hp.append_left _)
    tables := ha.tables.trans ((hp.flatMap_right _).append_left _)
    sockets := ha.sockets.trans ((hp.filter _).append_left _) }

theorem Account.nodup_dhs (ha : Account k dhs) : (k.freed ++ dhs).Nodup :=
  ha.memory.nodup_iff.mp List.nodup_range

theorem Account.lt_brk (ha : Account k dhs) (hdh : dh ∈ dhs) : dh < k.brk :=
  List.mem_range.mp (ha.memory.mem_iff.mpr (List.mem_append_right _ hdh))

/-- Nothing is known of a record that has not been made. -/
theorem Account.brk_notMem (ha : Account k dhs) : k.brk ∉ k.sockets := by
  intro hmem
  have hlt : k.brk < k.brk := by
    obtain hrel | hin := List.mem_append.mp (ha.sockets.mem_iff.mp hmem)
    · exact List.mem_range.mp (ha.memory.mem_iff.mpr (List.mem_append_left _ (ha.gone _ hrel)))
    · exact ha.lt_brk (List.mem_filter.mp hin).1
  exact lt_irrefl _ hlt

/-- The tables that could be made before one could not are destroyed again. -/
theorem Account.failed (ha : Account k dhs) {ts us : List HashTable} (hp : ts ~ us)
    (hts : ts.Nodup) :
    Account { k with
      brk := k.brk + 1, inited := ts.map (k.brk, ·) ++ k.inited,
      destroyed := us.map (k.brk, ·) ++ k.destroyed, freed := k.brk :: k.freed } dhs where
  memory := by
    rw [List.range_succ]
    exact (List.perm_append_singleton _ _).trans (ha.memory.cons _)
  tables := by
    rw [List.append_assoc]
    exact (hp.map _).append ha.tables
  nodup := by
    rw [List.nodup_append]
    refine ⟨hts.map fun t u htu => congrArg Prod.snd htu, ha.nodup, ?_⟩
    intro x hx y hy hxy
    obtain ⟨t, -, rfl⟩ := List.mem_map.mp hx
    have hlt := ha.lt y hy
    rw [← hxy] at hlt
    exact lt_irrefl _ hlt
  lt := by
    intro x hx
    obtain hx | hx := List.mem_append.mp hx
    · obtain ⟨t, -, rfl⟩ := List.mem_map.mp hx
      exact Nat.lt_succ_self _
    · exact (ha.lt x hx).trans (Nat.lt_succ_self _)
  sockets := ha.sockets
  once := ha.once
  gone a hdh := List.mem_cons_of_mem _ (ha.gone a hdh)

/-- A record in use may be written, but for its socket. -/
theorem Account.setDh (ha : Account k dhs) (dh : Nat) {d : DyscoHashes}
    (hd : d.nlSk = (k.dhMem dh).nlSk) :
    Account (k.setDh dh d) dhs := by
  have hsame : ∀ a, ((k.setDh dh d).dhMem a).nlSk = (k.dhMem a).nlSk := by
    intro a
    by_cases heq : a = dh
    · rw [heq, DyscoModule.setDh_self, hd]
    · rw [DyscoModule.setDh_of_ne _ heq]
  refine { ha with sockets := ?_ }
  simp only [hsame]
  exact ha.sockets

/-- A new set of tables, without a socket. -/
theorem Account.made (ha : Account k dhs) {d : DyscoHashes} (hd : d.nlSk = false) :
    Account { k with
      brk := k.brk + 1, inited := HashTable.all.reverse.map (k.brk, ·) ++ k.inited,
      dhMem := Function.update k.dhMem k.brk d } (k.brk :: dhs) where
  memory := by
    rw [List.range_succ]
    exact (List.perm_append_singleton _ _).trans ((ha.memory.cons _).trans List.perm_middle.symm)
  tables := by
    have hboth := ((List.reverse_perm HashTable.all).map (k.brk, ·)).append ha.tables
    exact hboth.trans (List.perm_append_comm_assoc ..)
  nodup := (ha.failed (List.Perm.refl HashTable.all.reverse) (by decide)).nodup
  lt := (ha.failed (List.Perm.refl HashTable.all.reverse) (by decide)).lt
  sockets := by
    have hnew : ¬ (Function.update k.dhMem k.brk d k.brk).nlSk = true := by
      rw [Function.update_self, hd]
      exact Bool.false_ne_true
    have hold : ∀ a ∈ dhs, (Function.update k.dhMem k.brk d a).nlSk = (k.dhMem a).nlSk := by
      intro a hmem
      rw [Function.update_of_ne (ha.lt_brk hmem).ne]
    have hfilter : ((k.brk :: dhs).filter fun a => (Function.update k.dhMem k.brk d a).nlSk) =
        dhs.filter fun a => (k.dhMem a).nlSk := by
      rw [List.filter_cons, if_neg hnew, List.filter_congr hold]
    have hs := ha.sockets
    rw [← hfilter] at hs
    exact hs
  once := ha.once
  gone := ha.gone

/-- A socket for a record that had none. -/
theorem Account.netlinkKernelCreate (ha : Account k dhs) (hmem : dh ∈ dhs)
    (hno : (k.dhMem dh).nlSk = false)
    (sock : Bool) : Account (k.netlinkKernelCreate dh sock) dhs := by
  have hnodup : dhs.Nodup := ha.nodup_dhs.of_append_right
  have hrest : ∀ a ∈ dhs.erase dh, ((k.setDh dh { k.dhMem dh with nlSk := sock }).dhMem a).nlSk =
      (k.dhMem a).nlSk := by
    intro a ha'
    rw [DyscoModule.setDh_of_ne _ (hnodup.mem_erase_iff.mp ha').1]
  have hself : ((k.setDh dh { k.dhMem dh with nlSk := sock }).dhMem dh).nlSk = sock := by
    rw [DyscoModule.setDh_self]
  have hsplit := List.perm_cons_erase hmem
  have hbefore : k.sockets ~ k.released ++ (dhs.erase dh).filter fun a => (k.dhMem a).nlSk := by
    have := ha.sockets.trans ((hsplit.filter _).append_left _)
    rwa [List.filter_cons_of_neg (by simp [hno])] at this
  cases sock with
  | false => exact ha.setDh dh hno.symm
  | true =>
    have hafter : (dhs.filter fun a =>
        ((k.setDh dh { k.dhMem dh with nlSk := true }).dhMem a).nlSk) ~
        dh :: (dhs.erase dh).filter fun a => (k.dhMem a).nlSk := by
      refine (hsplit.filter _).trans ?_
      rw [List.filter_cons, if_pos hself, List.filter_congr hrest]
    have hnot : dh ∉ k.sockets := by
      intro hin
      obtain hrel | hkept := List.mem_append.mp (hbefore.mem_iff.mp hin)
      · exact (List.nodup_append.mp ha.nodup_dhs).2.2 dh (ha.gone dh hrel) dh hmem rfl
      · exact (hnodup.mem_erase_iff.mp (List.mem_filter.mp hkept).1).1 rfl
    exact { ha with
      sockets := (hbefore.cons dh).trans (List.perm_middle.symm.trans (hafter.symm.append_left _))
      once := List.nodup_cons.mpr ⟨hnot, ha.once⟩ }

theorem DyscoModule.destroyHashes_eq (k : DyscoModule) (dh : Nat) : k.destroyHashes dh =
    { k with
      destroyed := HashTable.all.reverse.map (dh, ·) ++ k.destroyed, freed := dh :: k.freed
      released := if (k.dhMem dh).nlSk then dh :: k.released else k.released
      dhMem := Function.update k.dhMem dh
        { k.dhMem dh with host := (k.dhMem dh).host.emptied } } := by
  rw [DyscoModule.destroyHashes]
  simp only [DyscoModule.rhashtableDestroy, DyscoModule.setDh, DyscoModule.kfree]
  rfl

/-- A set of tables that is destroyed. -/
theorem Account.destroyHashes (ha : Account k (dh :: dhs)) : Account (k.destroyHashes dh) dhs := by
  have hnotMem : dh ∉ dhs := (List.nodup_cons.mp ha.nodup_dhs.of_append_right).1
  rw [DyscoModule.destroyHashes_eq]
  have hold : ∀ a ∈ dhs, (Function.update k.dhMem dh
      { k.dhMem dh with host := (k.dhMem dh).host.emptied }
      a).nlSk = (k.dhMem a).nlSk := by
    intro a hmem
    have hne : a ≠ dh := by
      rintro rfl
      exact hnotMem hmem
    rw [Function.update_of_ne hne]
  refine ⟨ha.memory.trans List.perm_middle, ?_, ha.nodup, ha.lt, ?_, ha.once, ?_⟩
  · refine ha.tables.trans ?_
    rw [List.append_assoc]
    exact (List.perm_append_comm_assoc ..).trans
      (((List.reverse_perm HashTable.all).symm.map (dh, ·)).append_right _)
  · have hsockets := ha.sockets
    rw [List.filter_cons, ← List.filter_congr hold] at hsockets
    cases hsock : (k.dhMem dh).nlSk with
    | false =>
      rw [hsock] at hsockets
      exact hsockets
    | true =>
      rw [hsock] at hsockets
      exact hsockets.trans List.perm_middle
  · intro a hrel
    simp only at hrel
    split at hrel
    · obtain rfl | hrel := List.mem_cons.mp hrel
      · exact List.mem_cons_self
      · exact List.mem_cons_of_mem _ (ha.gone a hrel)
    · exact List.mem_cons_of_mem _ (ha.gone a hrel)

/-- Any number of sets. -/
theorem Account.foldl_destroyHashes {k : DyscoModule} (ha : Account k (dhs ++ xs)) :
    Account (dhs.foldl DyscoModule.destroyHashes k) xs := by
  induction dhs generalizing k with
  | nil => exact ha
  | cons dh dhs ih => exact ih ha.destroyHashes

end Account

/-! ## What a step does to the account -/

section Steps
variable {hash : Net → Nat} {E : Env} {k g : DyscoModule} {dhs xs : List Nat} {dh : Nat} {n m : Net}

/-- The namespaces and the cache of the module are as they were, but for records that are new. -/
structure SameNs (k g : DyscoModule) : Prop where
  nsHashTable : g.nsHashTable = k.nsHashTable
  nsHashes : g.nsHashes = k.nsHashes
  dhMem : ∀ a < k.brk, g.dhMem a = k.dhMem a

@[simp] theorem DyscoModule.netlinkKernelCreate_nsHashTable (k : DyscoModule) (dh : Nat)
    (sock : Bool) :
    (k.netlinkKernelCreate dh sock).nsHashTable = k.nsHashTable := by cases sock <;> rfl

@[simp] theorem DyscoModule.netlinkKernelCreate_nsHashes (k : DyscoModule) (dh : Nat)
    (sock : Bool) :
    (k.netlinkKernelCreate dh sock).nsHashes = k.nsHashes := by cases sock <;> rfl

theorem DyscoModule.netlinkKernelCreate_dhMem (k : DyscoModule) (dh : Nat) (sock : Bool) :
    (k.netlinkKernelCreate dh sock).dhMem =
    Function.update k.dhMem dh { k.dhMem dh with nlSk := sock } := by
  cases sock <;> rfl

/-- **Making a set of tables**, or failing to. -/
theorem createHashes_cases (ha : Account k dhs) (n : Net) (c : Creation) :
    SameNs k (createHashes k n c).1 ∧
    ((c.ok = false ∧ (createHashes k n c).2 = none ∧ Account (createHashes k n c).1 dhs) ∨
      c.ok = true ∧ (createHashes k n c).2 = some k.brk ∧
        Account (createHashes k n c).1 (k.brk :: dhs) ∧
        ((createHashes k n c).1.dhMem k.brk).netNs = n ∧
        (n = 0 → ((createHashes k n c).1.dhMem k.brk).nlSk = false)) := by
  have hfailed : ∀ ts us : List HashTable, ts ~ us → ts.Nodup → ∀ g : DyscoModule,
      g = { k with
        brk := k.brk + 1, inited := ts.map (k.brk, ·) ++ k.inited,
        destroyed := us.map (k.brk, ·) ++ k.destroyed, freed := k.brk :: k.freed } →
      SameNs k g ∧ Account g dhs := by
    rintro ts us hp hts g rfl
    exact ⟨⟨rfl, rfl, fun _ _ => rfl⟩, ha.failed hp hts⟩
  have hmade : ∀ d : DyscoHashes, d.nlSk = false → ∀ g : DyscoModule,
      g = { k with
        brk := k.brk + 1, inited := HashTable.all.reverse.map (k.brk, ·) ++ k.inited,
        dhMem := Function.update k.dhMem k.brk d } →
      SameNs k g ∧ Account g (k.brk :: dhs) ∧ g.dhMem k.brk = d := by
    rintro d hd g rfl
    exact ⟨⟨rfl, rfl, fun a hlt => Function.update_of_ne hlt.ne ..⟩, ha.made hd,
      Function.update_self ..⟩
  rw [createHashes, Creation.ok, HashTable.all]
  simp only [List.all_cons, List.all_nil]
  cases c.memory with
  | false => exact ⟨⟨rfl, rfl, fun _ _ => rfl⟩, .inl ⟨rfl, rfl, ha⟩⟩
  | true =>
  cases c.init .out with
  | false =>
    obtain ⟨hsame, hacc⟩ := hfailed [] [] .rfl (by decide) _ rfl
    exact ⟨hsame, .inl ⟨rfl, rfl, hacc⟩⟩
  | true =>
  cases c.init .inp with
  | false =>
    obtain ⟨hsame, hacc⟩ := hfailed [.out] [.out] .rfl (by decide) _ rfl
    exact ⟨hsame, .inl ⟨rfl, rfl, hacc⟩⟩
  | true =>
  cases c.init .pen with
  | false =>
    obtain ⟨hsame, hacc⟩ := hfailed [.inp, .out] [.out, .inp] (by decide) (by decide) _ rfl
    exact ⟨hsame, .inl ⟨rfl, rfl, hacc⟩⟩
  | true =>
  cases c.init .reconfig with
  | false =>
    obtain ⟨hsame, hacc⟩ :=
      hfailed [.pen, .inp, .out] [.out, .inp, .pen] (by decide) (by decide) _ rfl
    exact ⟨hsame, .inl ⟨rfl, rfl, hacc⟩⟩
  | true =>
  cases c.init .penTag with
  | false =>
    obtain ⟨hsame, hacc⟩ := hfailed [.reconfig, .pen, .inp, .out] [.out, .inp, .pen, .reconfig]
      (by decide) (by decide) _ rfl
    exact ⟨hsame, .inl ⟨rfl, rfl, hacc⟩⟩
  | true =>
    obtain ⟨hsame, hacc, hnew⟩ := hmade ⟨n, false, { c.garbage with
      hashOut := .empty, hashIn := .empty, hashPen := .empty, hashReconfig := .empty
      hashPenTag := .empty, policies := []
      links := { c.garbage.links with head := fun _ _ => none } }⟩ rfl _ rfl
    by_cases hn : n = 0
    · simp only [Bool.not_true, Bool.false_eq_true, if_false, if_pos hn]
      exact ⟨hsame, .inr ⟨rfl, trivial, hacc, congrArg DyscoHashes.netNs hnew,
        fun _ => congrArg DyscoHashes.nlSk hnew⟩⟩
    · simp only [Bool.not_true, Bool.false_eq_true, if_false, if_neg hn]
      have hsock := hacc.netlinkKernelCreate List.mem_cons_self
          (congrArg DyscoHashes.nlSk hnew) c.sock
      refine ⟨⟨?_, ?_, ?_⟩, .inr ⟨rfl, trivial, hsock, ?_, fun h0 => absurd h0 hn⟩⟩
      · exact (DyscoModule.netlinkKernelCreate_nsHashTable ..).trans hsame.nsHashTable
      · exact (DyscoModule.netlinkKernelCreate_nsHashes ..).trans hsame.nsHashes
      · intro a hlt
        rw [DyscoModule.netlinkKernelCreate_dhMem, Function.update_of_ne hlt.ne]
        exact hsame.dhMem a hlt
      · rw [DyscoModule.netlinkKernelCreate_dhMem, Function.update_self]
        exact congrArg DyscoHashes.netNs hnew

/-! ## Loading -/

/-- The module holds what is in its table and in its cache, and the cache has no sockets. -/
structure DyscoModule.Sound (k : DyscoModule) : Prop where
  account : Account k (k.nsHashTable.nodes ++ k.nsHashes)
  idle : ∀ dh ∈ k.nsHashes, (k.dhMem dh).nlSk = false

theorem sound_unloaded : DyscoModule.unloaded.Sound where
  account :=
    ⟨.refl _, .refl _, .nil, by simp [DyscoModule.unloaded], .refl _, .nil, by
    simp [DyscoModule.unloaded]⟩
  idle := by simp [DyscoModule.unloaded]

/-- A namespace's tables are in the table under its identifier. -/
theorem getHashes_eq_some (hn : getHashes hash k n = some dh) :
    k.nsHashTable.Holds dh ∧ (k.dhMem dh).netNs = n := BucketTable.lookup_eq_some hn

theorem DyscoModule.insertNs_nodes (hash : Net → Nat) (k : DyscoModule) (dh : Nat) :
    (k.insertNs hash dh).nsHashTable.nodes = dh :: k.nsHashTable.nodes := rfl

theorem DyscoModule.Sound.notMem_cache (hs : k.Sound) (hdh : dh ∈ k.nsHashes) :
    ¬ k.nsHashTable.Holds dh := by
  intro hheld
  have hnodup := hs.account.nodup_dhs.of_append_right
  exact (List.nodup_append.mp hnodup).2.2 dh (BucketTable.mem_nodes.mpr hheld) dh hdh rfl

/-- Writes to a record do not change which namespace it belongs to. -/
theorem getHashes_setDh (hash : Net → Nat) (k : DyscoModule) (dh : Nat) (d : DyscoHashes)
    (hd : d.netNs = (k.dhMem dh).netNs) (n : Net) :
    getHashes hash (k.setDh dh d) n = getHashes hash k n := by
  refine BucketTable.lookup_congr fun a _ => ?_
  by_cases ha : a = dh
  · rw [ha, DyscoModule.setDh_self, hd]
  · rw [DyscoModule.setDh_of_ne _ ha]

/-- The cache has got one more set. -/
theorem DyscoModule.Sound.cached (hs : k.Sound) (hsame : SameNs k g)
    (ha : Account g (k.brk :: (k.nsHashTable.nodes ++ k.nsHashes)))
    (hno : (g.dhMem k.brk).nlSk = false) :
    DyscoModule.Sound { g with nsHashes := k.brk :: g.nsHashes } where
  account := by
    have hp : k.brk :: (k.nsHashTable.nodes ++ k.nsHashes) ~ g.nsHashTable.nodes ++ k.brk ::
        g.nsHashes := by
      rw [hsame.nsHashTable, hsame.nsHashes]
      exact List.perm_middle.symm
    exact { ha.perm hp with }
  idle a hmem := by
    obtain rfl | hmem := List.mem_cons.mp hmem
    · exact hno
    · rw [hsame.nsHashes] at hmem
      rw [hsame.dhMem a (hs.account.lt_brk (List.mem_append_right _ hmem))]
      exact hs.idle a hmem

theorem DyscoModule.Sound.same (hs : k.Sound) (hsame : SameNs k g)
    (ha : Account g (k.nsHashTable.nodes ++ k.nsHashes)) : g.Sound where
  account := by
    rw [hsame.nsHashTable, hsame.nsHashes]
    exact ha
  idle a hmem := by
    rw [hsame.nsHashes] at hmem
    rw [hsame.dhMem a (hs.account.lt_brk (List.mem_append_right _ hmem))]
    exact hs.idle a hmem

theorem DyscoModule.Sound.getHashes_same (hs : k.Sound) (hsame : SameNs k g) (n : Net) :
    getHashes hash g n = getHashes hash k n := by
  rw [getHashes, hsame.nsHashTable]
  refine BucketTable.lookup_congr fun a ha => ?_
  rw [hsame.dhMem a (hs.account.lt_brk (List.mem_append_left _ (BucketTable.mem_nodes.mpr ha)))]

/-- **The cache is filled** with as many sets as can be made before one cannot. -/
theorem DyscoModule.Sound.fillCache (hs : k.Sound) (hash : Net → Nat) (cs : List Creation) :
    (fillCache cs k).Sound ∧
      (fillCache cs k).nsHashes.length = k.nsHashes.length + (cs.takeWhile Creation.ok).length ∧
      ∀ n, getHashes hash (fillCache cs k) n = getHashes hash k n := by
  induction cs generalizing k with
  | nil => exact ⟨hs, rfl, fun _ => rfl⟩
  | cons c cs ih =>
    obtain ⟨hsame, hcases⟩ := createHashes_cases hs.account 0 c
    rw [Dysco.fillCache]
    split
    · rename_i g dh hmade
      rw [hmade] at hsame hcases
      obtain ⟨-, hnone, -⟩ | ⟨hok, hdh, hacc, -, hno⟩ := hcases
      · cases hnone
      · obtain rfl : dh = k.brk := Option.some.inj hdh
        obtain ⟨hsound, hlen, hget⟩ := ih (hs.cached hsame hacc (hno rfl))
        refine ⟨hsound, hlen.trans ?_, fun n => (hget n).trans (hs.getHashes_same hsame n)⟩
        rw [List.length_cons, hsame.nsHashes, List.takeWhile_cons_of_pos hok, List.length_cons]
        omega
    · rename_i g hmade
      rw [hmade] at hsame hcases
      obtain ⟨hfail, -, hacc⟩ | ⟨-, hdh, -⟩ := hcases
      · refine ⟨hs.same hsame hacc, ?_, hs.getHashes_same hsame⟩
        rw [hsame.nsHashes, List.takeWhile_cons_of_neg (by simp [hfail])]
        rfl
      · cases hdh

/-- The tables of `init_net`. -/
theorem createHashes_initNet (hash : Net → Nat) (c : Creation) : ∃ k : DyscoModule,
    (∀ cs, initHashes hash .unloaded true c cs = Dysco.fillCache (cacheCreations cs) k) ∧ k.Sound ∧
      k.nsHashes = [] ∧ ∀ n, getHashes hash k n ≠ none ↔ n = initNet ∧ c.ok = true := by
  obtain ⟨hsame, hcases⟩ := createHashes_cases sound_unloaded.account initNet c
  unfold initHashes
  simp only [Bool.not_true, Bool.false_eq_true, if_false]
  cases hmade : createHashes .unloaded initNet c with
  | mk g made =>
    rw [hmade] at hsame hcases
    obtain ⟨hfail, hnone, hacc⟩ | ⟨hok, hdh, hacc, hnet, -⟩ := hcases
    · obtain rfl : made = none := hnone
      refine ⟨g, fun cs => rfl, sound_unloaded.same hsame hacc, hsame.nsHashes, fun n => ?_⟩
      rw [sound_unloaded.getHashes_same hsame n]
      exact iff_of_false (fun hne => hne rfl) fun hn => Bool.false_ne_true (hfail.symm.trans hn.2)
    · obtain rfl : made = some DyscoModule.unloaded.brk := hdh
      have hempty : (g.insertNs hash DyscoModule.unloaded.brk).nsHashes = [] := hsame.nsHashes
      have htable : g.nsHashTable = .empty := hsame.nsHashTable
      refine ⟨_, fun cs => rfl, ⟨?_, ?_⟩, hempty, fun n => ?_⟩
      · rw [DyscoModule.insertNs_nodes, hempty, htable]
        exact { hacc with }
      · rw [hempty]
        simp
      · rw [getHashes, DyscoModule.insertNs, htable, and_iff_left hok]
        by_cases hn : n = initNet
        · refine iff_of_true ?_ hn
          rw [hn, ← hnet]
          simp [BucketTable.lookup_insert_self]
        · have hne : (g.dhMem DyscoModule.unloaded.brk).netNs ≠ n :=
            fun heq => hn (heq.symm.trans hnet)
          refine iff_of_false (fun hsome => hsome ?_) hn
          exact BucketTable.lookup_insert_of_ne hne

/-- **Loading.** -/
theorem initHashes_sound (hash : Net → Nat) (table : Bool) (c : Creation) (cs : Nat → Creation) :
    (initHashes hash .unloaded table c cs).Sound ∧
      (initHashes hash .unloaded table c cs).nsHashes.length =
        (if table = true then ((cacheCreations cs).takeWhile Creation.ok).length else 0) ∧
      ∀ n, getHashes hash (initHashes hash .unloaded table c cs) n ≠ none ↔
        n = initNet ∧ table = true ∧ c.ok = true := by
  cases table with
  | false =>
    exact ⟨sound_unloaded, rfl, fun n => iff_of_false (fun hne => hne rfl) fun hn => by
      cases hn.2.1⟩
  | true =>
    obtain ⟨k, hk, hsound, hempty, hsome⟩ := createHashes_initNet hash c
    obtain ⟨hfull, hlen, hget⟩ := hsound.fillCache hash (cacheCreations cs)
    rw [hempty] at hlen
    rw [hk cs]
    refine ⟨hfull, hlen.trans (Nat.zero_add _), fun n => ?_⟩
    rw [hget n, hsome n]
    simp

/-! ### A new device -/

/-- The pool that the module is. -/
def DyscoModule.pool (hash : Net → Nat) (k : DyscoModule) : Pool Net Nat :=
  ⟨getHashes hash k, k.nsHashes⟩

/-- The first set of the cache belongs to a namespace. -/
def DyscoModule.taken (hash : Net → Nat) (k : DyscoModule) (n : Net) (dh : Nat) (rest : List Nat) :
    DyscoModule :=
  let k := { k with nsHashes := rest }
  { (k.setDh dh { k.dhMem dh with netNs := n }).insertNs hash dh with
    totNamespaces := k.totNamespaces + 1 }

theorem devEvent_taken {rest : List Nat} (hn : getHashes hash k n = none)
    (hcache : k.nsHashes = dh :: rest)
    (sock : Bool) : devEvent hash k n sock =
    (k.taken hash n dh rest).netlinkKernelCreate dh sock := by
  rw [devEvent, hn, hcache]
  rfl

theorem devEvent_of_some (hn : getHashes hash k n = some dh) (sock : Bool) :
    devEvent hash k n sock = k := by
  rw [devEvent, hn]

theorem devEvent_of_nil (hcache : k.nsHashes = []) (n : Net) (sock : Bool) :
    devEvent hash k n sock = k := by
  rw [devEvent, hcache]
  split
  · rename_i h
    cases h
  · rfl

theorem getHashes_netlinkKernelCreate (hash : Net → Nat) (k : DyscoModule) (dh : Nat) (sock : Bool)
    (n : Net) :
    getHashes hash (k.netlinkKernelCreate dh sock) n = getHashes hash k n := by
  have hset : ∀ b, getHashes hash (k.setDh dh { k.dhMem dh with nlSk := b }) n =
      getHashes hash k n :=
    fun b => getHashes_setDh hash k dh { k.dhMem dh with nlSk := b } rfl n
  cases sock
  · exact hset false
  · exact hset true

theorem getHashes_taken (hdh : ¬ k.nsHashTable.Holds dh) (n : Net) (rest : List Nat) (m : Net) :
    getHashes hash (k.taken hash n dh rest) m = if n = m then some dh else getHashes hash k m := by
  have hself : (Function.update k.dhMem dh { k.dhMem dh with netNs := n } dh).netNs = n := by
    rw [Function.update_self]
  have hold : BucketTable.lookup hash
      (fun a => (Function.update k.dhMem dh { k.dhMem dh with netNs := n } a).netNs)
      k.nsHashTable m =
        getHashes hash k m := by
    refine BucketTable.lookup_congr fun a ha => ?_
    have hne : a ≠ dh := by
      rintro rfl
      exact hdh ha
    rw [Function.update_of_ne hne]
  have hinsert : getHashes hash (k.taken hash n dh rest) m = _ := BucketTable.lookup_insert
  rw [hinsert]
  exact (congrArg₂ (fun x y => if x = m then some dh else y) hself hold)

theorem taken_sound {rest : List Nat} (hs : k.Sound) (hash : Net → Nat)
    (hcache : k.nsHashes = dh :: rest) (n : Net) :
    Account (k.taken hash n dh rest) (dh :: k.nsHashTable.nodes ++ rest) ∧
      ((k.taken hash n dh rest).dhMem dh).nlSk = false ∧
      ∀ a ∈ rest, ((k.taken hash n dh rest).dhMem a).nlSk = false := by
  have hmem : ∀ a ∈ dh :: rest, ((k.taken hash n dh rest).dhMem a).nlSk = (k.dhMem a).nlSk := by
    intro a _
    by_cases ha : a = dh
    · have hself : (k.taken hash n dh rest).dhMem dh = { k.dhMem dh with netNs := n } :=
        Function.update_self ..
      rw [ha, hself]
    · have hother : (k.taken hash n dh rest).dhMem a = k.dhMem a := Function.update_of_ne ha ..
      rw [hother]
  have hidle := hs.idle
  rw [hcache] at hidle
  refine ⟨?_, ?_, ?_⟩
  · have hacc := hs.account
    rw [hcache] at hacc
    have htaken := (hacc.perm List.perm_middle).setDh dh (d := { k.dhMem dh with netNs := n }) rfl
    exact { htaken with }
  · rw [hmem dh List.mem_cons_self]
    exact hidle dh List.mem_cons_self
  · intro a ha
    rw [hmem a (List.mem_cons_of_mem _ ha)]
    exact hidle a (List.mem_cons_of_mem _ ha)

/-- **A device takes a set for its namespace** if that has none. -/
theorem devEvent_pool (hs : k.Sound) (n : Net) (sock : Bool) :
    (devEvent hash k n sock).pool hash = request (k.pool hash) n := by
  have hfound : (k.pool hash).lookup n = getHashes hash k n := rfl
  have hfree : (k.pool hash).free = k.nsHashes := rfl
  cases hn : getHashes hash k n with
  | some dh => rw [devEvent_of_some hn, request_of_some (hfound.trans hn)]
  | none =>
    cases hcache : k.nsHashes with
    | nil => rw [devEvent_of_nil hcache, request_of_nil (hfree.trans hcache)]
    | cons dh rest =>
      have hdh : ¬ k.nsHashTable.Holds dh :=
        hs.notMem_cache (by rw [hcache]; exact List.mem_cons_self)
      rw [devEvent_taken hn hcache, request_of_none (hfound.trans hn) (hfree.trans hcache),
        DyscoModule.pool]
      congr 1
      · funext m
        rw [getHashes_netlinkKernelCreate, getHashes_taken hdh]
        by_cases hnm : n = m
        · rw [if_pos hnm, hnm, Function.update_self]
        · rw [if_neg hnm, Function.update_of_ne (Ne.symm hnm)]
          rfl
      · exact DyscoModule.netlinkKernelCreate_nsHashes ..

theorem devEvent_sound (hs : k.Sound) (n : Net) (sock : Bool) : (devEvent hash k n sock).Sound := by
  cases hn : getHashes hash k n with
  | some dh => rwa [devEvent_of_some hn]
  | none =>
    cases hcache : k.nsHashes with
    | nil => rwa [devEvent_of_nil hcache]
    | cons dh rest =>
      obtain ⟨hacc, hno, hidle⟩ := taken_sound hs hash hcache n
      have hnotMem : dh ∉ rest := by
        have hnodup := hs.account.nodup_dhs.of_append_right.of_append_right
        rw [hcache] at hnodup
        exact (List.nodup_cons.mp hnodup).1
      rw [devEvent_taken hn hcache]
      refine ⟨?_, ?_⟩
      · rw [DyscoModule.netlinkKernelCreate_nsHashTable, DyscoModule.netlinkKernelCreate_nsHashes]
        exact hacc.netlinkKernelCreate (List.mem_append_left _ List.mem_cons_self) hno sock
      · rw [DyscoModule.netlinkKernelCreate_nsHashes, DyscoModule.netlinkKernelCreate_dhMem]
        intro a ha
        have hne : a ≠ dh := by
          rintro rfl
          exact hnotMem ha
        rw [Function.update_of_ne hne]
        exact hidle a ha

/-! ### What happens in a namespace -/

theorem getHashes_setHost (hash : Net → Nat) (k : DyscoModule) (dh : Nat) (h : Host) (n : Net) :
    getHashes hash (k.setHost dh h) n = getHashes hash k n :=
  getHashes_setDh hash k dh { k.dhMem dh with host := h } rfl n

theorem hostEvent_pool (E : Env) (n : Net) (ev : HostEvent) :
    (hostEvent hash E k n ev).pool hash = k.pool hash := by
  rw [hostEvent]
  split
  · rfl
  · rw [DyscoModule.pool, DyscoModule.pool]
    congr 1
    funext m
    exact getHashes_setHost ..

theorem hostEvent_sound (hs : k.Sound) (n : Net) (ev : HostEvent) :
    (hostEvent hash E k n ev).Sound := by
  rw [hostEvent]
  split
  · exact hs
  · rename_i dh hn
    generalize hostStep E _ ev = h
    refine ⟨?_, ?_⟩
    · have hacc := hs.account.setDh dh (d := { k.dhMem dh with host := h }) rfl
      exact { hacc with }
    · intro a ha
      have hne : a ≠ dh := by
        rintro rfl
        exact hs.notMem_cache ha (getHashes_eq_some hn).1
      have hmem : (k.setHost dh h).dhMem a = k.dhMem a := Function.update_of_ne hne ..
      rw [hmem]
      exact hs.idle a ha

theorem moduleStep_sound (hs : k.Sound) (ev : ModuleEvent) : (moduleStep hash E k ev).Sound := by
  cases ev with
  | device n sock => exact devEvent_sound hs n sock
  | host n ev => exact hostEvent_sound hs n ev

/-! ## Runs -/

/-- The namespace of a device that has been set up. -/
def ModuleEvent.ofDevice : ModuleEvent → Option Net
  | .device n _ => some n
  | .host _ _ => none

theorem sound_ran (hs : k.Sound) (evs : List ModuleEvent) :
    (ran (moduleStep hash E) k evs).Sound := by
  induction evs using List.reverseRecOn with
  | nil => exact hs
  | append_singleton evs ev ih =>
    rw [ran_append_singleton]
    exact moduleStep_sound ih ev

/-- **The module serves namespaces as they come.** -/
theorem pool_ran (hs : k.Sound) (evs : List ModuleEvent) :
    (ran (moduleStep hash E) k evs).pool hash =
    ran request (k.pool hash) (evs.filterMap ModuleEvent.ofDevice) := by
  induction evs using List.reverseRecOn with
  | nil => rfl
  | append_singleton evs ev ih =>
    rw [ran_append_singleton, List.filterMap_append]
    cases ev with
    | device n sock =>
      have hone : [ModuleEvent.device n sock].filterMap ModuleEvent.ofDevice = [n] := rfl
      rw [hone, ran_append_singleton, ← ih]
      exact devEvent_pool (sound_ran hs evs) n sock
    | host n ev =>
      have hnone : [ModuleEvent.host n ev].filterMap ModuleEvent.ofDevice = [] := rfl
      rw [hnone, List.append_nil, ← ih]
      exact hostEvent_pool E n ev

end Steps

/-- What happens in a namespace. -/
def ModuleEvent.inNet (n : Net) : ModuleEvent → Option HostEvent
  | .device _ _ => none
  | .host m ev => if m = n then some ev else none

/-- A step of a host, with the port counter as other namespaces have left it. -/
def sharedStep (E : Env) (h : Host) (x : U32 × HostEvent) : Host :=
  hostStep E { h with allocPorts := x.1 } x.2

section Apart
variable {hash : Net → Nat} {E : Env} {k : DyscoModule} {dh : Nat} {n : Net}

theorem devEvent_kept (hs : k.Sound) (hn : getHashes hash k n = some dh) (m : Net) (sock : Bool) :
    getHashes hash (devEvent hash k m sock) n = some dh ∧
      ((devEvent hash k m sock).dhMem dh).host = (k.dhMem dh).host := by
  cases hm : getHashes hash k m with
  | some a =>
    rw [devEvent_of_some hm]
    exact ⟨hn, rfl⟩
  | none =>
    cases hcache : k.nsHashes with
    | nil =>
      rw [devEvent_of_nil hcache]
      exact ⟨hn, rfl⟩
    | cons a rest =>
      have ha : ¬ k.nsHashTable.Holds a :=
        hs.notMem_cache (by rw [hcache]; exact List.mem_cons_self)
      have hne : dh ≠ a := by
        rintro rfl
        exact ha (getHashes_eq_some hn).1
      have hmn : m ≠ n := by
        rintro rfl
        rw [hm] at hn
        cases hn
      have hother : (k.taken hash m a rest).dhMem dh = k.dhMem dh := Function.update_of_ne hne ..
      rw [devEvent_taken hm hcache]
      refine ⟨?_, ?_⟩
      · rw [getHashes_netlinkKernelCreate, getHashes_taken ha, if_neg hmn, hn]
      · rw [DyscoModule.netlinkKernelCreate_dhMem, Function.update_of_ne hne, hother]

theorem hostEvent_kept (hn : getHashes hash k n = some dh) (m : Net) (ev : HostEvent) :
    getHashes hash (hostEvent hash E k m ev) n = some dh ∧
      ((hostEvent hash E k m ev).dhMem dh).host =
        if m = n then sharedStep E (k.dhMem dh).host (k.allocPorts, ev) else (k.dhMem dh).host := by
  rw [hostEvent]
  split
  · rename_i hm
    have hmn : m ≠ n := by
      rintro rfl
      rw [hm] at hn
      cases hn
    rw [if_neg hmn]
    exact ⟨hn, rfl⟩
  · rename_i a hm
    rw [getHashes_setHost]
    refine ⟨hn, ?_⟩
    by_cases hmn : m = n
    · obtain rfl : a = dh := by
        rw [hmn, hn] at hm
        exact (Option.some.inj hm).symm
      have hself : ∀ h, (k.setHost a h).dhMem a = { k.dhMem a with host := h } :=
        fun h => Function.update_self ..
      rw [if_pos hmn, hself]
      rfl
    · have hne : dh ≠ a := by
        rintro rfl
        exact hmn ((getHashes_eq_some hm).2.symm.trans (getHashes_eq_some hn).2)
      have hother : ∀ h, (k.setHost a h).dhMem dh = k.dhMem dh :=
        fun h => Function.update_of_ne hne ..
      rw [if_neg hmn, hother]

/-- **One event**, seen from a namespace. -/
theorem moduleStep_kept (hs : k.Sound) (hn : getHashes hash k n = some dh) (ev : ModuleEvent) :
    getHashes hash (moduleStep hash E k ev) n = some dh ∧
      ((moduleStep hash E k ev).dhMem dh).host =
        ran (sharedStep E) (k.dhMem dh).host ((ev.inNet n).toList.map (k.allocPorts, ·)) := by
  cases ev with
  | device m sock => exact devEvent_kept hs hn m sock
  | host m ev =>
    obtain ⟨hfound, hhost⟩ := hostEvent_kept (E := E) hn m ev
    refine ⟨hfound, hhost.trans ?_⟩
    by_cases hmn : m = n
    · rw [if_pos hmn, ModuleEvent.inNet, if_pos hmn]
      rfl
    · rw [if_neg hmn, ModuleEvent.inNet, if_neg hmn]
      rfl

/-- **A run**, seen from a namespace. -/
theorem DyscoModule.Sound.apart (hs : k.Sound) (hn : getHashes hash k n = some dh)
    (evs : List ModuleEvent) :
    getHashes hash (ran (moduleStep hash E) k evs) n = some dh ∧
      ∃ xs : List (U32 × HostEvent), xs.map Prod.snd = evs.filterMap (ModuleEvent.inNet n) ∧
        ((ran (moduleStep hash E) k evs).dhMem dh).host =
        ran (sharedStep E) (k.dhMem dh).host xs := by
  induction evs using List.reverseRecOn with
  | nil => exact ⟨hn, [], rfl, rfl⟩
  | append_singleton evs ev ih =>
    obtain ⟨hfound, xs, hxs, hhost⟩ := ih
    rw [ran_append_singleton]
    have hsound : (ran (moduleStep hash E) k evs).Sound := sound_ran hs evs
    generalize ran (moduleStep hash E) k evs = g at hfound hhost hsound ⊢
    obtain ⟨hkept, hstep⟩ := moduleStep_kept (E := E) hsound hfound ev
    refine ⟨hkept, xs ++ (ev.inNet n).toList.map (g.allocPorts, ·), ?_, ?_⟩
    · rw [List.map_append, hxs, List.filterMap_append]
      congr 1
      cases hev : ev.inNet n <;> simp [hev]
    · rw [hstep, hhost, ran, ran, ran, List.foldl_append]

end Apart

/-! ## The life of the module -/

theorem foldl_destroyHashes_nsHashes (dhs : List Nat) (k : DyscoModule) :
    (dhs.foldl DyscoModule.destroyHashes k).nsHashes = k.nsHashes := by
  induction dhs generalizing k with
  | nil => rfl
  | cons dh dhs ih => exact ih _

/-- Nothing is left after unloading. -/
theorem DyscoModule.Sound.destroyNamespaces {k : DyscoModule} (hs : k.Sound) :
    Account (destroyNamespaces k) [] := by
  have htable := hs.account.foldl_destroyHashes
  have hcache := foldl_destroyHashes_nsHashes k.nsHashTable.nodes k
  rw [Dysco.destroyNamespaces]
  generalize k.nsHashTable.nodes.foldl DyscoModule.destroyHashes k = g at htable hcache ⊢
  have hempty : Account { g with nsHashTable := .empty } (g.nsHashes ++ []) := by
    rw [hcache, List.append_nil]
    exact { htable with }
  exact { hempty.foldl_destroyHashes with }

/-- **First come, first served.**  Between loading and unloading, the namespaces that have tables
are `init_net`, if its tables could be made, and the first others to show up, as many as sets could
be made for the cache before one could not; no two have the same tables. -/
theorem served_first (hash : Net → Nat) (E : Env) (table : Bool) (c : Creation)
    (cs : Nat → Creation)
    (evs : List ModuleEvent) :
    let k := initHashes hash .unloaded table c cs
    let g := ran (moduleStep hash E) k evs
    let late := newcomers (k.pool hash) (evs.filterMap ModuleEvent.ofDevice)
    (∀ n, getHashes hash k n ≠ none ↔ n = initNet ∧ table = true ∧ c.ok = true) ∧
      k.nsHashes.length =
        (if table = true then ((cacheCreations cs).takeWhile Creation.ok).length else 0) ∧
      k.nsHashes.length ≤ maxNamespaces ∧
      (∀ n, getHashes hash g n = (getHashes hash k n).or ((late.zip k.nsHashes).lookup n)) ∧
      ∀ n m dh, getHashes hash g n = some dh → getHashes hash g m = some dh → n = m := by
  intro k g late
  obtain ⟨hsound, hlen, hsome⟩ := initHashes_sound hash table c cs
  have hpool : g.pool hash = ran request (k.pool hash) (evs.filterMap ModuleEvent.ofDevice) :=
    pool_ran hsound evs
  rw [ran_request] at hpool
  have hle : k.nsHashes.length ≤ maxNamespaces := by
    have htake := (List.takeWhile_prefix Creation.ok (l := cacheCreations cs)).length_le
    have hall : (cacheCreations cs).length = maxNamespaces := by simp [cacheCreations]
    refine (le_of_eq hlen).trans ?_
    split
    · exact htake.trans hall.le
    · exact Nat.zero_le _
  refine ⟨hsome, hlen, hle, fun n => congrFun (congrArg Pool.lookup hpool) n, ?_⟩
  intro n m dh hn hm
  exact (getHashes_eq_some hn).2.symm.trans (getHashes_eq_some hm).2

/-- **What has been taken is given back.**  Whatever could not be made while loading, and whatever
happened since, unloading destroys every table that was made, frees every set and releases every
socket, each of them once. -/
theorem unload_balanced (hash : Net → Nat) (E : Env) (table : Bool) (c : Creation)
    (cs : Nat → Creation) (evs : List ModuleEvent) :
    let g := destroyNamespaces (ran (moduleStep hash E) (initHashes hash .unloaded table c cs) evs)
    g.inited.Nodup ∧ g.destroyed ~ g.inited ∧ g.freed ~ List.range g.brk ∧
      g.sockets.Nodup ∧ g.released ~ g.sockets := by
  intro g
  have hsound : (ran (moduleStep hash E) (initHashes hash .unloaded table c cs) evs).Sound :=
    sound_ran (initHashes_sound hash table c cs).1 evs
  have hgone : Account g [] := hsound.destroyNamespaces
  refine ⟨hgone.nodup, ?_, ?_, hgone.once, ?_⟩
  · simpa using hgone.tables.symm
  · simpa using hgone.memory.symm
  · simpa using hgone.sockets.symm

/-- **Namespaces do not meet.**  Once a namespace has tables it has them for good, and what is in
them comes from its own events alone, but for the port counter, which the others move. -/
theorem namespaces_apart (hash : Net → Nat) (E : Env) (table : Bool) (c : Creation)
    (cs : Nat → Creation) (xs ys : List ModuleEvent) (n : Net) (dh : Nat)
    (hn : getHashes hash (ran (moduleStep hash E) (initHashes hash .unloaded table c cs) xs) n =
      some dh) :
    let g := ran (moduleStep hash E) (initHashes hash .unloaded table c cs) xs
    let g' := ran (moduleStep hash E) (initHashes hash .unloaded table c cs) (xs ++ ys)
    getHashes hash g' n = some dh ∧
      ∃ es : List (U32 × HostEvent), es.map Prod.snd = ys.filterMap (ModuleEvent.inNet n) ∧
        (g'.dhMem dh).host = ran (sharedStep E) (g.dhMem dh).host es := by
  intro g g'
  have hsound : g.Sound := sound_ran (initHashes_sound hash table c cs).1 xs
  have hrun : g' = ran (moduleStep hash E) g ys := List.foldl_append
  rw [hrun]
  exact hsound.apart hn ys

/-- Everything can be made. -/
def allMade : Creation := ⟨true, fun _ => true, true, Host.fresh⟩

/-- A policy for all packets. -/
def policyTo (hop : U32) : HostEvent :=
  .addPolicy (fun _ => true) ⟨0#16, [hop], by simp⟩ true

/-- A second namespace comes and gets a policy; that of `init_net` is added and removed. -/
def secondNet : List ModuleEvent :=
  [.host 2 (policyTo 1#32), .host initNet (policyTo 2#32), .host initNet .delPolicies]

theorem namespaces_apart_second :
    let k := initHashes id .unloaded true allMade fun _ => allMade
    let g := ran (moduleStep id default) k [.device 2 true]
    let g' := ran (moduleStep id default) k ([.device 2 true] ++ secondNet)
    (getHashes id g' 2 = some 20 ∧ ∃ es : List (U32 × HostEvent),
        es.map Prod.snd = [policyTo 1#32] ∧
        (g'.dhMem 20).host = ran (sharedStep default) (g.dhMem 20).host es) ∧
      (getHashes id g' initNet = some 0 ∧ ∃ es : List (U32 × HostEvent),
        es.map Prod.snd = [policyTo 2#32, .delPolicies] ∧
          (g'.dhMem 0).host = ran (sharedStep default) (g.dhMem 0).host es) ∧
      (g'.dhMem 20).host.policies.length = 1 ∧ (g'.dhMem 0).host.policies.length = 0 :=
  ⟨namespaces_apart id default true allMade (fun _ => allMade) [.device 2 true] secondNet 2 20
      (by decide +kernel),
    namespaces_apart id default true allMade (fun _ => allMade) [.device 2 true] secondNet initNet 0
      (by decide +kernel), by decide +kernel, by decide +kernel⟩

end Dysco
