import Dysco.HostRuns
import Dysco.SynVisit

/-! # The way of a SYN through a service chain

The policy at its source gives a SYN a chain of hosts.  Every host but the last hands the SYN to a
middlebox that sends it on as it is.  The SYN then goes to the hosts of the chain one after the
other and to no other (`syn_traverses`): every stack gets the five-tuple and the options of the
original, a SYN waits in a host exactly between its arrival and its departure, and what the blocks
of one host make of the session is what the blocks of the next one expect.
-/
namespace Dysco

variable {E : Env} {h g : Host} {syn pkt : SkBuff} {hops : List U32} {p : Nat}

/-! ## Stops and visits -/

/-- A host on the way, what the rest of its kernel answers, and what its middlebox makes of a
packet. -/
structure Stop where
  env : Env
  host : Host
  emit : SkBuff → SkBuff

/-- What happens at a stop: a packet arrives, the stack gets one if the input hook passes it on, and
one goes to the link if the output hook passes on what the middlebox makes of it. -/
structure Visit where
  env : Env
  arrives : SkBuff
  entered : Host
  inside : Option SkBuff
  left : Host
  leaves : Option SkBuff

/-- What a hook passes on. -/
def passedOn (r : Host × SkBuff × Bool) : Option SkBuff := if r.2.2 then some r.2.1 else none

/-- A packet arrives at a stop. -/
def Stop.visit (s : Stop) (pkt : SkBuff) : Visit :=
  let arrived := input s.env s.host pkt
  match passedOn arrived with
  | none => ⟨s.env, pkt, arrived.1, none, arrived.1, none⟩
  | some inside =>
    let gone := output s.env arrived.1 (s.emit inside)
    ⟨s.env, pkt, arrived.1, some inside, gone.1, passedOn gone⟩

/-- What leaves one stop arrives at the next.  A hook that drops the packet ends the tour. -/
def tour : List Stop → SkBuff → List Visit
  | [], _ => []
  | s :: stops, pkt =>
    let v := s.visit pkt
    match v.leaves with
    | none => [v]
    | some out => v :: tour stops out

/-- The host has memory, does not know the session or the subsession that the SYN comes with, and
its middlebox is transparent and leaves room for `n` hops. -/
structure Stop.Ready (s : Stop) (syn : SkBuff) (n : Nat) (pkt : SkBuff) : Prop where
  tidy : s.host.Tidy
  memory : ∀ i < 5, s.host.oom (s.host.brk + i) = false
  newIn : s.host.lookupIn s.env pkt.session = none
  newOut : s.host.lookupOut s.env syn.session = none
  newPen : s.host.lookupPen s.env syn.session = none
  transparent : ∀ skb, (s.emit skb).core = skb.core
  room : ∀ skb, 16 + 4 * n ≤ (s.emit skb).tailroom

/-- All hosts of the way are ready, and the subsession that leaves a host is not the one that came
in, turned around. -/
def AllReady (syn : SkBuff) : List Stop → SkBuff → Prop
  | [], _ => True
  | s :: stops, pkt =>
    s.Ready syn stops.length pkt ∧ ∀ out ∈ (s.visit pkt).leaves,
      (stops ≠ [] → out.session.reverse ≠ pkt.session) ∧ AllReady syn stops out

/-- At every stop the SYN arrives with the rest of its chain, addressed to the host, the stack gets
the original with a tag, and the session has blocks for what comes from the previous host and what
goes there. -/
structure Visit.Sound (syn : SkBuff) (hop : U32) (v : Visit) : Prop where
  carrying : ∃ rest, Carrying syn (hop :: rest) v.arrives
  addressed : v.arrives.daddr = hop
  delivered : ∃ inside tag, v.inside = some inside ∧ Delivered syn tag inside
  comes : ∃ q, Comes v.env v.entered v.arrives.session syn.session q
  goesBack : ∃ p, Goes v.env v.entered syn.session.reverse v.arrives.session.reverse p

/-- At the last stop the SYN stays. -/
def Visit.Ends (syn : SkBuff) (v : Visit) : Prop := v.entered.lookupPen v.env syn.session = none

/-- At the others it waits for the middlebox, leaves as `out`, and then there are blocks for both
directions on both sides of the host. -/
structure Visit.Passes (syn : SkBuff) (v : Visit) (out : SkBuff) : Prop where
  waits : ∃ p, v.entered.lookupPen v.env syn.session = some p
  sent : v.leaves = some out
  gone : v.left.lookupPen v.env syn.session = none
  comes : ∃ q, Comes v.env v.left v.arrives.session syn.session q
  goes : ∃ p, Goes v.env v.left syn.session out.session p
  comesBack : ∃ q, Comes v.env v.left out.session.reverse syn.session.reverse q
  goesBack : ∃ p, Goes v.env v.left syn.session.reverse v.arrives.session.reverse p

/-! ## One stop -/

/-- The SYN that has come in waits, if there is a host after this one. -/
theorem Entered.waiting {hop : U32} {rest : List U32} (he : Entered E h pkt pkt.synPacket g)
    (ht : h.Tidy) (hc : Carrying syn (hop :: rest) pkt) (hs : OpeningSyn syn) (hrest : rest ≠ [])
    (hnew : h.lookupOut E syn.session = none) (h4 : h.oom (h.brk + 4) = false) :
    Waiting E g syn (h.brk + 2) rest := by
  obtain ⟨hss, hhops⟩ := hc.synPacket hs
  have hmany : 1 < pkt.synPacket.sc.hops.length := by
    rw [hhops, List.length_cons]
    exact Nat.succ_lt_succ (List.length_pos_iff.mpr hrest)
  obtain ⟨-, hblock, hchain, hbrk⟩ := he.waits hmany
  refine ⟨?_, ?_, ?_, ?_, ?_⟩
  · rw [he.lookupOut ht, hss, if_neg hs.twoEnds]
    exact hnew
  · rw [← hss]
    exact he.lookupPen_waits hmany
  · rw [hblock]
    exact hss
  · rw [hblock, hhops] at *
    exact hchain
  · rw [he.oom, hbrk]
    exact h4

theorem Stop.visit_eq {s : Stop} {inside : SkBuff}
    (hin : input s.env s.host pkt = (g, inside, true)) :
    s.visit pkt = ⟨s.env, pkt, g, some inside, (output s.env g (s.emit inside)).1,
      passedOn (output s.env g (s.emit inside))⟩ := by
  rw [Stop.visit, hin]
  rfl

/-- **The last stop.** -/
theorem Stop.visit_last {s : Stop} {hop : U32} (hs : OpeningSyn syn) (hc : Carrying syn [hop] pkt)
    (hr : s.Ready syn 0 pkt) : (s.visit pkt).Sound syn hop ∧ (s.visit pkt).Ends syn := by
  obtain ⟨g, inside, hin, hdel, he⟩ := hc.input_eq hs (List.cons_ne_nil _ _) hr.newIn
    (fun i hi => hr.memory i (by omega))
  obtain ⟨hss, hhops⟩ := hc.synPacket hs
  have hcomes := he.comes hr.tidy
  have hback := he.goesBack hr.tidy
  rw [hss] at hcomes hback
  rw [Stop.visit_eq hin]
  refine ⟨⟨⟨[], hc⟩, (Option.some.inj hc.next).symm, ⟨inside, _, rfl, hdel⟩, ⟨_, hcomes⟩,
    ⟨_, hback⟩⟩, ?_⟩
  have hone : pkt.synPacket.sc.hops.length ≤ 1 := by rw [hhops]; exact le_rfl
  exact (he.lookupPen_last hr.tidy hone _).trans hr.newPen

/-- **A stop before the last.** -/
theorem Stop.visit_passes {s : Stop} {hop next : U32} {rest : List U32} (hs : OpeningSyn syn)
    (hc : Carrying syn (hop :: next :: rest) pkt) (hr : s.Ready syn (rest.length + 1) pkt)
    (hfresh : ∀ out ∈ (s.visit pkt).leaves, out.session.reverse ≠ pkt.session)
    (hfit : syn.len + (16 + 4 * (rest.length + 1)) < 65536) :
    (s.visit pkt).Sound syn hop ∧
      ∃ out, (s.visit pkt).Passes syn out ∧ Carrying syn (next :: rest) out := by
  obtain ⟨g, inside, hin, hdel, he⟩ := hc.input_eq hs (List.cons_ne_nil _ _) hr.newIn
    (fun i hi => hr.memory i (by omega))
  obtain ⟨hss, hhops⟩ := hc.synPacket hs
  have hmany : 1 < pkt.synPacket.sc.hops.length := by
    rw [hhops, List.length_cons, List.length_cons]
    omega
  have hw := he.waiting hr.tidy hc hs (List.cons_ne_nil _ _) hr.newOut (hr.memory 4 (by omega))
  have hcomes := he.comes hr.tidy
  have hback := he.goesBack hr.tidy
  rw [hss] at hcomes hback
  obtain ⟨d, ports, out, hout, hto, hsub, hcarry⟩ :=
    hdel.leaves hs (hr.transparent inside) hw (hr.room inside) hfit
  have hvisit := Stop.visit_eq hin
  rw [hout] at hvisit
  rw [hvisit] at hfresh ⊢
  have hnew : d.sub.reverse ≠ pkt.session := hsub ▸ hfresh out rfl
  obtain ⟨hpen, hfcomes, hfgoes, hfcomesBack, hfgoesBack⟩ := he.passed hr.tidy hmany hto
    (by rw [hss]; exact hs.twoEnds) hnew ports
  rw [hss] at hfcomes hfgoes hfcomesBack hfgoesBack
  rw [← hsub] at hfgoes hfcomesBack
  refine ⟨⟨⟨_, hc⟩, (Option.some.inj hc.next).symm, ⟨inside, _, rfl, hdel⟩, ⟨_, hcomes⟩,
    ⟨_, hback⟩⟩,
    out, ⟨⟨_, hw.found⟩, rfl, ?_, ⟨_, hfcomes⟩, ⟨_, hfgoes⟩, ⟨_, hfcomesBack⟩, ⟨_, hfgoesBack⟩⟩,
      hcarry⟩
  exact (hpen syn.session).trans hr.newPen

/-! ## The whole way -/

/-- The tour goes on from a stop that has sent a packet. -/
theorem tour_cons {s : Stop} {stops : List Stop} {out : SkBuff}
    (hout : (s.visit pkt).leaves = some out) :
    tour (s :: stops) pkt = s.visit pkt :: tour stops out := by
  rw [tour]
  simp only [hout]

theorem tour_single (s : Stop) (pkt : SkBuff) : tour [s] pkt = [s.visit pkt] := by
  rw [tour]
  simp only [tour]
  split <;> rfl

/-- **A SYN that carries a chain goes through it.** -/
theorem tour_sound {stops : List Stop} (hs : OpeningSyn syn) (hc : Carrying syn hops pkt)
    (hlen : stops.length = hops.length) (hready : AllReady syn stops pkt)
    (hfit : syn.len + (16 + 4 * hops.length) < 65536) :
    List.Forall₂ (fun hop v => v.Sound syn hop) hops (tour stops pkt) ∧
      (∀ v ∈ (tour stops pkt).dropLast, ∃ out, v.Passes syn out) ∧
      ∀ v ∈ (tour stops pkt).getLast?, v.Ends syn := by
  induction stops generalizing hops pkt with
  | nil =>
    obtain rfl : hops = [] := List.eq_nil_of_length_eq_zero hlen.symm
    exact ⟨.nil, by simp [tour], by simp [tour]⟩
  | cons s stops ih =>
    obtain ⟨hr, hrest⟩ := hready
    cases hops with
    | nil => cases hlen
    | cons hop hops =>
      have hlen' : stops.length = hops.length := Nat.succ.inj hlen
      cases hops with
      | nil =>
        obtain rfl : stops = [] := List.eq_nil_of_length_eq_zero hlen'
        obtain ⟨hsound, hends⟩ := Stop.visit_last hs hc hr
        rw [tour_single]
        exact ⟨.cons hsound .nil, by simp, by simpa using hends⟩
      | cons next rest =>
        have hne : stops ≠ [] := fun hnil => by
          rw [hnil] at hlen'
          cases hlen'
        have hn : stops.length = rest.length + 1 := hlen'
        rw [hn] at hr
        obtain ⟨hsound, out, hpasses, hcarry⟩ := Stop.visit_passes hs hc hr
          (fun out hout => (hrest out hout).1 hne) (by
            simp only [List.length_cons] at hfit
            omega)
        obtain ⟨hall, hmiddle, hlast⟩ := ih hcarry hlen' (hrest out hpasses.sent).2 (by
          simp only [List.length_cons] at hfit ⊢
          omega)
        have htour : tour stops out ≠ [] := by
          intro hnil
          have := hall.length_eq
          rw [hnil] at this
          cases this
        rw [tour_cons hpasses.sent]
        refine ⟨.cons hsound hall, ?_, ?_⟩
        · rw [List.dropLast_cons_of_ne_nil htour]
          intro v hv
          obtain rfl | hv := List.mem_cons.mp hv
          · exact ⟨out, hpasses⟩
          · exact hmiddle v hv
        · rw [List.getLast?_cons_of_ne_nil htour]
          exact hlast

/-! ## The source -/

/-- The host the session starts at: no block and no tag leads to a session yet, a policy matches
the SYN, and there is memory and room for its chain. -/
structure Source (E : Env) (h : Host) (syn : SkBuff) (hops : List U32) : Prop where
  tidy : h.Tidy
  memory : ∀ i < 2, h.oom (h.brk + i) = false
  newOut : h.lookupOut E syn.session = none
  newPen : h.lookupPen E syn.session = none
  noTag : (lookupPenTag E h syn).1 = none
  policy : ∃ s, matchPolicy h syn = some s ∧ (h.scMem s).hops = hops
  chain : hops ≠ []
  room : 16 + 4 * hops.length ≤ syn.tailroom

/-- The block that a policy makes for a session. -/
structure CbOut.StartsAt (d : CbOut) (E : Env) (syn : SkBuff) (s : Nat) (hop : U32) : Prop where
  super : d.super = syn.session
  sc : d.sc = some s
  dip : d.sub.dip = hop
  resolved : d.Resolved E syn.tos
  otherPath : d.otherPath = none
  myTp : d.myTp = none

theorem createCbOut_starts (E : Env) (syn : SkBuff) {s : Nat} {hop : U32} {rest : List U32}
    (hchain : (h.scMem s).hops = hop :: rest) (h0 : h.oom h.brk = false) :
    ∃ d ports, createCbOut E h syn s = (some h.brk,
        Host.setOut { h with brk := h.brk + 1, allocPorts := ports } h.brk d) ∧
      d.StartsAt E syn s hop := by
  rw [createCbOut, kzallocOut_eq, if_neg (by simp [h0])]
  simp only
  have hsc : (h.bump.setOut h.brk default).scMem = h.scMem := rfl
  simp only [hsc, hchain]
  generalize hd : arp E syn.tos { ({ (h.bump.setOut h.brk default).outMem h.brk with
    sc := some s, super := syn.session } : CbOut) with sub.dip := hop } = d0
  have hself : (h.bump.setOut h.brk default).outMem h.brk = default := Host.setOut_outMem_self ..
  rw [hself] at hd
  have h1 : d0.StartsAt E syn s hop := by
    refine ⟨?_, ?_, ?_, ?_, ?_, ?_⟩
    · rw [← hd]
      rfl
    · rw [← hd]
      rfl
    · rw [← hd]
      rfl
    · rw [← hd]
      exact resolved_arp _ _
    · rw [← hd]
      rfl
    · rw [← hd]
      rfl
  refine ⟨{ d0 with
    sub.sport := h.allocateLocalPort.1, sub.dport := h.allocateLocalPort.2.allocateNeighborPort },
    h.allocateLocalPort.2.allocPorts, ?_, { h1 with resolved := h1.resolved.congr rfl }⟩
  simp only [Host.setOut, Host.allocateLocalPort, Host.bump, Function.update_idem]
  rfl

/-- What the emission of a SYN leaves in its block. -/
structure CbOut.SameWay (d d' : CbOut) : Prop where
  super : d'.super = d.super
  sub : d'.sub = d.sub
  otherPath : d'.otherPath = d.otherPath
  myTp : d'.myTp = d.myTp

theorem outSynWith_host (hack : syn.hasAck = false) (hres : (h.outMem p).Resolved E syn.tos) :
    ∃ d, (outSynWith E h syn p).1 = h.setOut p d ∧ (h.outMem p).SameWay d := by
  rw [outSynWith]
  simp only [hack, Bool.false_eq_true, if_false]
  generalize hd : parseTcpSynOptS syn { h.outMem p with seqCutoff := ntohl syn.seq } = d
  have hparsed : (h.outMem p).SameWay d ∧ d.Resolved E syn.tos := by
    rw [← hd, parseTcpSynOptS_eq]
    exact ⟨⟨rfl, rfl, rfl, rfl⟩, hres.congr rfl⟩
  obtain ⟨hsame, hresolved⟩ := hparsed
  have harp : (h.outMem p).SameWay (arp E syn.tos d) := by
    have hsip : (arp E syn.tos d).sub.sip = d.sub.sip := congrArg Prod.fst hresolved
    have hsub : (arp E syn.tos d).sub = { d.sub with sip := (arp E syn.tos d).sub.sip } := rfl
    refine { hsame with sub := ?_ }
    rw [hsub, hsip]
    exact hsame.sub
  have hboth : (h.outMem p).SameWay
      (if (d.nhMac.setWidth 32 : U32) = 0#32 then arp E syn.tos d else d) := by
    split
    · exact harp
    · exact hsame
  generalize (if (d.nhMac.setWidth 32 : U32) = 0#32 then arp E syn.tos d else d) = d' at hboth ⊢
  refine ⟨d', ?_, hboth⟩
  simp only [Host.setOut, Function.update_idem]

/-- Packets go on being sent the same way. -/
theorem Goes.setOut {super sub : TcpSession} {d : CbOut} (hg : Goes E h super sub p)
    (hd : (h.outMem p).SameWay d) : Goes E (h.setOut p d) super sub p := by
  have hself : (h.setOut p d).outMem p = d := h.setOut_outMem_self d
  refine ⟨(h.lookupOut_setOut (fun _ => hd.super) super).trans hg.found, ?_, ?_, ?_, ?_⟩
  all_goals rw [hself]
  · exact hd.super.trans hg.super
  · exact hd.sub.trans hg.sub
  · exact hd.otherPath.trans hg.onePath
  · exact hd.myTp.trans hg.noSock

/-- **The SYN leaves its source with the whole chain**, and both directions have their blocks. -/
theorem Source.sends (hsrc : Source E h syn hops) (hs : OpeningSyn syn)
    (hfit : syn.len + (16 + 4 * hops.length) < 65536) :
    ∃ g pkt p q, output E h syn = (g, pkt, true) ∧ Carrying syn hops pkt ∧
      Goes E g syn.session pkt.session p ∧ Comes E g pkt.session.reverse syn.session.reverse q := by
  obtain ⟨s, hmatch, hsc⟩ := hsrc.policy
  obtain ⟨hop, rest, hcons⟩ := List.exists_cons_of_ne_nil hsrc.chain
  have h0 : h.oom h.brk = false := hsrc.memory 0 (by omega)
  obtain ⟨d, ports, hmade, hd⟩ := createCbOut_starts E syn (hsc.trans hcons) h0
  have hnotag : lookupPenTag E h syn = (none, h) := by
    have hnone := hsrc.noTag
    rw [lookupPenTag, lookupPenTagBy] at hnone ⊢
    simp only at hnone ⊢
    split
    · rename_i hok
      rw [if_pos hok] at hnone
      split
      · rfl
      · rename_i hfound
        rw [hfound] at hnone
        cases hnone
    · rfl
  generalize hk : Host.setOut { h with brk := h.brk + 1, allocPorts := ports } h.brk d = k at hmade
  have hself : k.outMem h.brk = d := by rw [← hk, Host.setOut_outMem_self]
  have hkbrk : k.brk = h.brk + 1 := by rw [← hk]; rfl
  have hkoom : k.oom k.brk = false := by
    rw [hkbrk, ← hk]
    exact hsrc.memory 1 (by omega)
  have hklt : ∀ q, k.hashIn.Holds q → q < k.brk := fun q hq => by
    rw [hkbrk]
    have hold : h.hashIn.Holds q := by
      rw [← hk] at hq
      exact hq
    exact Nat.lt_succ_of_lt (hsrc.tidy.in_lt q hold)
  have hkchain : (k.chain d).hops = hops := by
    rw [Host.chain, hd.sc, ← hk]
    exact hsc
  have hout : output E h syn = outSynWith E (k.opened E h.brk) syn h.brk := by
    rw [output_unfold, if_neg (not_not_intro hs.ip), if_neg (not_not_intro hs.tcp), hsrc.newOut]
    simp only [hsrc.newPen, hnotag, hs.flag, if_true, outSyn, hmatch, hmade,
      insertCbOut_made E h.brk hkoom]
  have hgoes := opened_goes (E := E) (p := h.brk) (by rw [hself]; exact hd.otherPath)
    (by rw [hself]; exact hd.myTp)
  have hcomes := opened_comes (E := E) hklt h.brk
  have hblock := opened_outMem_self (E := E) k h.brk
  have hchain : (k.opened E h.brk).chain (d.withDcbIn (some k.brk)) = k.chain d := rfl
  rw [hself] at hgoes hcomes hblock
  generalize hsc' : k.chain d = sc at hkchain hchain
  generalize k.opened E h.brk = f at *
  have hres : (f.outMem h.brk).Resolved E syn.tos := by
    rw [hblock]
    exact hd.resolved.congr rfl
  obtain ⟨d', hhost, hsame⟩ := outSynWith_host hs.noAck hres
  have hemits : f.emits (f.outMem h.brk) = (d.super, d.sub, d.nhMac, sc) := by
    rw [hblock, Host.emits, hchain]
    rfl
  have hfits : Fits syn (chainBytes d.super sc) := by
    rw [Fits, length_chainBytes, hkchain]
    exact hsrc.room
  obtain ⟨hsent, hwire⟩ := outSynWith_again hs.noAck hd.resolved hemits
  have hsent := hsent.mpr hfits
  have hwire := hwire hfits
  rw [hd.super] at hwire
  have hcore : (outHdrRewrite E syn d).core = { syn.core with
      saddr := d.sub.sip, daddr := d.sub.dip, source := d.sub.sport, dest := d.sub.dport } := rfl
  have hsession : (outSynWith E f syn h.brk).2.1.session = d.sub := by
    have hfield : (outSynWith E f syn h.brk).2.1.wire.session =
        ((outHdrRewrite E syn d).chained (chainBytes syn.session sc)).session :=
          congrArg SkBuff.session hwire
    have hwhole : (outHdrRewrite E syn d).cut = 0 := hs.whole
    rw [session_chained hwhole] at hfield
    exact hfield
  refine ⟨f.setOut h.brk d', (outSynWith E f syn h.brk).2.1, h.brk, k.brk, ?_, ?_, ?_, ?_⟩
  · rw [hout, ← hhost, ← hsent]
  · refine Carrying.of_chained hs.whole hwire hcore hkchain ?_ hfit
    rw [hcons]
    exact congrArg some hd.dip.symm
  · rw [hsession, ← hd.super]
    exact hgoes.setOut hsame
  · rw [hsession, ← hd.super]
    exact { hcomes with }

/-- **Service-chain traversal.**  A SYN that a policy gives a chain leaves its source and arrives at
the hosts of the chain in their order and at no other; every stack is handed the SYN of the session
with a tag; it waits in every host but the last until the middlebox sends it on and then leaves; and
every host has blocks for both directions that fit those of its neighbours. -/
theorem syn_traverses (E : Env) (h : Host) (syn : SkBuff) (hops : List U32) (stops : List Stop)
    (hs : OpeningSyn syn) (hsrc : Source E h syn hops)
    (hfit : syn.len + (16 + 4 * hops.length) < 65536) (hlen : stops.length = hops.length)
    (hready : AllReady syn stops (output E h syn).2.1) :
    (output E h syn).2.2 = true ∧
      (∃ p q, Goes E (output E h syn).1 syn.session (output E h syn).2.1.session p ∧
        Comes E (output E h syn).1 (output E h syn).2.1.session.reverse syn.session.reverse q) ∧
      List.Forall₂ (fun hop v => v.Sound syn hop) hops (tour stops (output E h syn).2.1) ∧
      (∀ v ∈ (tour stops (output E h syn).2.1).dropLast, ∃ out, v.Passes syn out) ∧
      ∀ v ∈ (tour stops (output E h syn).2.1).getLast?, v.Ends syn := by
  obtain ⟨g, pkt, p, q, hout, hcarry, hgoes, hcomes⟩ := hsrc.sends hs hfit
  rw [hout] at hready ⊢
  exact ⟨rfl, ⟨p, q, hgoes, hcomes⟩, tour_sound hs hcarry hlen hready hfit⟩

/-! ## A chain of two hosts -/

/-- A SYN from port 1. -/
def plainSyn : SkBuff :=
  { bareSyn with hProto := htons ethPIp, protocol := ipprotoTcp, source := 1#16, tailroom := 100 }

/-- A host whose policy sends everything through two hosts. -/
def chainingHost : Host :=
  addPolicy Host.fresh (fun _ => true) ⟨0#16, [0x0100000a#32, 0x0200000a#32], by decide⟩ true

/-- A new host with a transparent middlebox. -/
def newStop : Stop := ⟨default, Host.fresh, fun skb => { skb with tailroom := 100 }⟩

theorem openingSyn_plainSyn : OpeningSyn plainSyn where
  whole := rfl
  ip := by decide
  tcp := by decide
  flag := by decide
  noAck := by decide
  header := by decide
  room := by decide
  noPayload := by decide
  options := by decide
  twoEnds := by decide

theorem tidy_of_empty {h : Host} (hout : h.hashOut.entries = []) (hin : h.hashIn.entries = [])
    (hpen : h.hashPen.entries = []) : h.Tidy := by
  refine ⟨?_, ?_, ?_⟩
  · rintro p ⟨b, hb⟩
    rw [hout] at hb
    cases hb
  · rintro q ⟨b, hb⟩
    rw [hin] at hb
    cases hb
  · rintro p ⟨b, hb⟩
    rw [hpen] at hb
    cases hb

theorem ready_newStop (n : Nat) (hn : n ≤ 21) (syn pkt : SkBuff) : newStop.Ready syn n pkt where
  tidy := tidy_of_empty rfl rfl rfl
  memory _ _ := rfl
  newIn := rfl
  newOut := rfl
  newPen := rfl
  transparent _ := rfl
  room _ := by
    change 16 + 4 * n ≤ 100
    omega

theorem source_chainingHost :
    Source default chainingHost plainSyn [0x0100000a#32, 0x0200000a#32] where
  tidy := tidy_of_empty rfl rfl rfl
  memory _ _ := rfl
  newOut := rfl
  newPen := rfl
  noTag := by decide +kernel
  policy := ⟨0, rfl, rfl⟩
  chain := by simp
  room := by decide

/-- The two new hosts are ready for the SYN that comes from `chainingHost`. -/
theorem ready_newStops :
    AllReady plainSyn [newStop, newStop] (output default chainingHost plainSyn).2.1 := by
  refine ⟨ready_newStop 1 (by decide) _ _, fun out hout =>
    ⟨fun _ => ?_, ready_newStop 0 (by decide) _ _,
    fun out _ => ⟨fun hne => absurd rfl hne, trivial⟩⟩⟩
  have hturned : ∀ v ∈ (newStop.visit (output default chainingHost plainSyn).2.1).leaves.map
      (fun v => v.session.reverse), v ≠ (output default chainingHost plainSyn).2.1.session := by
    decide +kernel
  exact hturned _ (Option.mem_map_of_mem _ hout)

theorem syn_traverses_two : (output default chainingHost plainSyn).2.2 = true ∧
    (tour [newStop, newStop] (output default chainingHost plainSyn).2.1).length = 2 ∧
    (tour [newStop, newStop] (output default chainingHost plainSyn).2.1).map
      (fun v => (v.arrives.daddr, v.inside.isSome)) =
        [(0x0100000a#32, true), (0x0200000a#32, true)] := by
  have hway := syn_traverses default chainingHost plainSyn [0x0100000a#32, 0x0200000a#32]
    [newStop, newStop] openingSyn_plainSyn source_chainingHost (by decide) rfl ready_newStops
  exact ⟨hway.1, hway.2.2.1.length_eq.symm, by decide +kernel⟩

end Dysco
