import Dysco.EventRuns
import Dysco.Hooks

/-! # Runs of a host

What happens to a host on which the module is loaded: packets go through the two hooks in any
order, policies come and go, and sockets move on.  What the rest of the kernel answers
differs from one packet to the next; the hash functions of the tables do not.
-/
namespace Dysco

/-- What the rest of the kernel answers at a moment, with the hash functions of the tables. -/
def Env.hashed (A E : Env) : Env :=
  { A with sessionHash := E.sessionHash, penHash := E.penHash, tagHash := E.tagHash }

/-- `dysco_add_policy`: the chain is copied into memory of its own, all but its position.  The
policy goes first in the list, unless its record or its filter could not be made. -/
def addPolicy (h : Host) (filter : SkBuff → Bool) (sc : ServiceChain) (made : Bool) : Host :=
  match h.kmalloc with
  | (none, h) => h
  | (some s, h) =>
    let h := h.setSc s { sc with pos := (h.scMem s).pos }
    if made then { h with policies := ⟨filter, s⟩ :: h.policies } else h.kfree s

/-- `dysco_del_policies`: frees the chains, first policy first. -/
def delPolicies (h : Host) : Host :=
  { h with freed := (h.policies.map Policy.sc).reverse ++ h.freed, policies := [] }

/-- What happens to a host. -/
inductive HostEvent where
  | leaves (A : Env) (pkt : Packet)
  | enters (A : Env) (pkt : Packet)
  | addPolicy (filter : SkBuff → Bool) (sc : ServiceChain) (made : Bool)
  | delPolicies
  | socket (k : Nat) (tp : TcpSock)

/-- The host after an event. -/
def hostStep (E : Env) (h : Host) : HostEvent → Host
  | .leaves A pkt => (dyscoOutput (A.hashed E) h pkt).1
  | .enters A pkt => (dyscoInput (A.hashed E) h pkt).1
  | .addPolicy filter sc made => Dysco.addPolicy h filter sc made
  | .delPolicies => Dysco.delPolicies h
  | .socket k tp => { h with sockMem := Function.update h.sockMem k tp }

/-- The module has been loaded: no table holds a block. -/
structure Host.Loaded (h : Host) : Prop where
  out : h.hashOut.entries = []
  inp : h.hashIn.entries = []
  pen : h.hashPen.entries = []
  tag : h.hashPenTag.entries = []
  reconfig : h.hashReconfig.entries = []

theorem Host.Loaded.fresh : Host.fresh.Loaded := ⟨rfl, rfl, rfl, rfl, rfl⟩

end Dysco
