import Dysco.LeaseMoves

/-! # The phases of the leases

How a reconfiguration begins, is granted, refused and canceled.
-/
namespace Dysco.PortProcess

variable {C : Config} {right : Addr → Prop} {g g' : Addr → Lease} {i : Addr} {q : Port}
variable {inp : Input} {out : List Send} {w w' : Watched} {X Y : Addr} {π : Place} {m : Msg}

namespace Leased

/-- A port that faces right begins or ends a reconfiguration of its own. -/
theorem act_own (hC : C.Chain right) (h : Leased C right w g) (ha : w.Acts C right i inp q out w')
    (hi : right i) (hports : ∀ Y, KeepsPorts C right w.session.port Y (g Y) i q)
    (hother : ∀ Y, Y ≠ i → (g' Y).phase = (g Y).phase ∧ (g' Y).anchor = (g Y).anchor ∧
      ((g' Y).held = (g Y).held ∨ Unreached right w g Y))
    (hgrows : ((g i).Opened → (g' i).Opened) ∧
      ((g i).phase = .canceling → (g' i).phase = .canceling))
    (hgrant : ∀ dst, .addr dst (.syn false 0) ∈ out → (g' i).Opened)
    (hcanceling : (g' i).phase = .canceling ↔
      (g i).phase = .canceling ∨ ∃ dst, .addr dst (.cancelLock i) ∈ out)
    (hlease : ∀ X, LeaseOk C right w'.session.port w'.Cause X (g' X))
    (haccount : Accounted w'.session fun X => (g' X).flight)
    (htokens : ∀ Y q₀, q₀ ≠ i → (g Y).token = .saved q₀ → g' Y = g Y)
    (hsaved : SavedOk right w'.session.port g' i)
    (hengaged : ∀ R, ¬ right R → (w.session.port R).Anchor →
      (w.session.port R).lock.otherAnchor = i → (g' i).phase ≠ .idle ∧
        ((g' i).phase = .asking → (g i).phase = .asking) ∧
          ((g' i).phase ≠ .canceling → (g i).phase ≠ .canceling) ∧
            (g' i).anchor = (g i).anchor ∧ (g' i).held = (g i).held)
    (hcancel : ∀ q₀ rest, (g' i).phase = .canceling → (g' i).held = q₀ :: rest →
      CancelOk C w'.session i q₀)
    (htake : ∀ X, inp ≠ .forward (.cancelLock X)) : Leased C right w' g' := by
  have hgrows' : Grows g g' := by
    constructor <;> intro Y <;> by_cases hY : Y = i
    · exact hY ▸ hgrows.1
    · unfold Lease.Opened
      rw [(hother Y hY).1]
      exact id
    · exact hY ▸ hgrows.2
    · rw [(hother Y hY).1]
      exact id
  refine h.act hC ha hgrows' (fun _ => hgrant) (fun Y => ?_) hlease haccount (fun q₀ => ?_)
    (fun R hR hR' => ?_) fun Y q₀ rest hp hheld => ?_
  · by_cases hY : Y = i
    · subst hY
      simpa only [true_and] using hcanceling
    · rw [(hother Y hY).1]
      exact ⟨.inl, fun hX => hX.elim id fun hX => absurd hX.1 hY⟩
  · by_cases hq : i = q₀
    · exact hq ▸ hsaved
    · rw [ha.port]
      exact (h.saved q₀).keep h.lease (fun Y hY => ⟨htokens Y q₀ (Ne.symm hq) hY, hports Y⟩)
        fun he => absurd he hq
  · have hiR : i ≠ R := fun he => hR (he ▸ hi)
    rw [ha.port, Function.update_of_ne hiR.symm] at hR'
    have heng := h.engaged R hR hR'
    rw [ha.port, Function.update_of_ne hiR.symm]
    by_cases hY : (w.session.port R).lock.otherAnchor = i
    · obtain ⟨hidle, hask, hcan, hanchor, hheld⟩ := hengaged R hR hR' hY
      rw [hY] at heng ⊢
      exact heng.keep (h.lease _) (hports _) hidle hask hcan hanchor hheld fun he => absurd he hiR
    · obtain ⟨hphase, hanchor, hheld⟩ := hother _ hY
      have hheld := hheld.resolve_right fun hn => hn.other R hR hR' rfl
      refine heng.keep (h.lease _) (hports _) ?_ ?_ ?_ hanchor hheld fun he => absurd he hiR
      · rw [hphase]
        exact heng.phase
      · rw [hphase]
        exact id
      · rw [hphase]
        exact id
  · by_cases hY : Y = i
    · subst hY
      exact hcancel q₀ rest hp hheld
    · obtain ⟨hphase, -, hheld'⟩ := hother Y hY
      rw [hphase] at hp
      have hheld' := hheld'.resolve_right fun hn => absurd (hp.symm.trans hn.phase) nofun
      rw [hheld'] at hheld
      obtain ⟨s', ho, hs⟩ := ha.session
      rw [hs]
      exact (h.cancel Y q₀ rest hp hheld).act hC h.sound
        ((h.lease Y).facing q₀ (hheld ▸ List.mem_cons_self)) ha.ready ho ha.option
        fun _ he => absurd he (htake Y)

/-! ## The beginning -/

/-- A port without a lock has no reconfiguration of its own, and is not held. -/
theorem idle_of_unlocked (h : Leased C right w g)
    (hpend : (w.session.port i).lock.lockPending = false) : (g i).phase = .idle := by
  have hown := (h.lease i).own
  unfold OwnOk at hown
  split at hown
  next hp => exact hp
  next => rw [hown.2.1] at hpend; cases hpend
  next => rw [hown.2.2.1] at hpend; cases hpend
  next => rw [hown.2.2.1] at hpend; cases hpend

/-- An owner keeps its token if something else is taken. -/
theorem keepsToken_of_other {t : Option (Place × Msg)} (h : Leased C right w g)
    (hin : ∀ π m, inp.place i = some (π, m) → m.IsToken = false)
    (hY : t = (g Y).flight) : KeepsToken i inp (g Y).flight t := by
  refine .inl ⟨hY, fun x hx he => ?_⟩
  have := h.isToken (h.owns hx)
  rw [hin _ _ he] at this
  cases this

/-- The lease of a left anchor that has just sent its request. -/
def opening (p : Port) (i a : Addr) : Lease where
  phase := .asking
  anchor := a
  before := []
  after := []
  token := .flight (.outAddr i p.farLoc) (.requestLock i a 0)

theorem act_begin {a : Addr} (hC : C.Chain right) (h : Leased C right w g)
    (ha : w.Acts C right i inp q [.addr (w.session.port i).farLoc (.requestLock i a 0)] w')
    (hi : right i) (hidle : (w.session.port i).Idle)
    (hin : ∀ π m, inp.place i = some (π, m) → m.IsToken = false ∧ ∀ X, m ≠ .cancelLock X)
    (hloc : q.loc = .anchoring) (hfar : q.farLoc = (w.session.port i).farLoc)
    (hpending : q.lock.requestPendingRequestor = (w.session.port i).lock.requestPendingRequestor)
    (hreq : q.lock.requestor = i) (hpend : q.lock.lockPending = true)
    (hrequesting : q.lock.requesting = true) (hother : q.lock.otherAnchor = a) :
    ∃ g', Leased C right w' g' := by
  obtain ⟨hnew, -, hunlocked, hlocked⟩ := hidle
  have hphase := h.idle_of_unlocked hunlocked
  have hgone : (g i).token = .gone := (h.lease i).gone (by rw [hphase]; rintro ⟨⟩)
  have hnot (Y : Addr) : i ∉ (g Y).held := by
    intro hmem
    have := ((h.lease Y).heldBy i hmem).lock
    rw [hunlocked, hlocked] at this
    rcases this with hf | hf <;> cases hf
  have hports (Y : Addr) : KeepsPorts C right w.session.port Y (g Y) i q := by
    refine ⟨fun he => ?_, fun hmem => absurd hmem (hnot Y), fun hr => absurd hi hr⟩
    rw [← he, hphase]
    exact ⟨(by rintro ⟨⟩), fun hp => by rcases hp with hp | ⟨hp, -⟩ <;> cases hp⟩
  have hg' (Y : Addr) (hY : Y ≠ i) :
      Function.update g i (opening (w.session.port i) i a) Y = g Y := Function.update_of_ne hY ..
  have hself : Function.update g i (opening (w.session.port i) i a) i =
      opening (w.session.port i) i a := Function.update_self ..
  obtain ⟨s', ho, hs⟩ := ha.session
  refine ⟨Function.update g i (opening (w.session.port i) i a), h.act_own hC ha hi hports
    (fun Y hY => by rw [hg' Y hY]; exact ⟨rfl, rfl, .inl rfl⟩) ?_ (fun dst hd => by simp at hd) ?_
    (fun Y => ?_) ?_ (fun Y q₀ _ hY => hg' Y ?_) ?_ (fun R hR hR' he => ?_) ?_ fun X he => ?_⟩
  · simp [Lease.Opened, hphase]
  · simp [opening, hphase]
  · rw [ha.port]
    by_cases hY : Y = i
    · subst hY
      rw [hself]
      exact
        { own := by
            rw [Function.update_self]
            exact ⟨hreq, hpend, fun _ => ⟨hloc, hrequesting⟩, fun _ => ⟨.inl hloc, hother⟩⟩
          anchor := fun _ => hi
          idle := by rintro ⟨⟩
          gone := fun hp => absurd rfl hp
          facing := by rintro _ ⟨⟩
          heldBy := by rintro _ ⟨⟩
          nodup := List.nodup_cons.mpr ⟨List.not_mem_nil, List.nodup_nil⟩
          chain := .nil
          first := by rintro _ _ ⟨⟩
          firstFar := by rintro _ _ ⟨⟩
          complete := by rintro ⟨⟩
          token := by
            refine ⟨⟨fun _ => ⟨rfl, ?_⟩, fun hr => absurd hi hr⟩, rfl, rfl, rfl⟩
            rw [show Lease.hop Y _ = Y from rfl, Function.update_self, hfar] }
    · rw [hg' Y hY]
      exact (h.lease Y).frame hC ⟨hports Y, fun he => absurd he.symm hY⟩ ha.cause
  · rw [hs]
    refine h.account.act_send ho ha.ready (tokensSent_token rfl) (Z := i) ?_ ?_ fun Y hY =>
      h.keepsToken_of_other (fun π m hm => (hin π m hm).1) (by rw [hg' Y hY])
    · rw [hself]
      rfl
    · rw [Lease.flight, hgone]
      rintro _ ⟨⟩
  · rintro rfl
    rw [hgone] at hY
    cases hY
  · intro _ _ _ hne
    rw [ha.port, Function.update_self, hpending, ((h.sound.port i).fresh hnew).1] at hne
    exact absurd rfl hne
  · exact absurd hphase (he ▸ (h.engaged R hR hR').phase)
  · rw [hself]
    rintro _ _ ⟨⟩
  · rw [he] at hin
    exact (hin _ _ rfl).2 X rfl

/-! ## The lock is granted -/

/-- A lease whose lock is granted. -/
def granted (L : Lease) : Lease := { L with phase := .granted, token := .gone }

theorem shape_granted {port : Addr → Port} {cause : Addr → Prop} {L : Lease}
    (h : LeaseShape C right port cause X L) (hL : L.phase = .asking)
    (hcomplete : (port (L.held.getLastD X)).farLoc = L.anchor) :
    LeaseShape C right port cause X (granted L) where
  anchor _ := h.anchor (by rw [hL]; nofun)
  idle := nofun
  gone _ := rfl
  facing := h.facing
  heldBy := h.heldBy
  nodup := h.nodup
  chain := h.chain
  first _ := h.first (.inl hL)
  firstFar _ := h.firstFar (.inl hL)
  complete _ _ := hcomplete
  token := trivial

/-- What an anchor is like that has just been granted its lock. -/
structure Grants (w : Watched) (i : Addr) (d : Int) (q : Port) : Prop where
  loc : q.loc = .anchoring
  farLoc : q.farLoc = (w.session.port i).farLoc
  requestor : q.lock.requestor = 0
  lockPending : q.lock.lockPending = (w.session.port i).lock.lockPending
  requesting : q.lock.requesting = false
  otherAnchor : q.lock.otherAnchor = (w.session.port i).lock.otherAnchor
  newDelta : q.lock.newDelta = d

theorem keeps_anchor (h : Leased C right w g) (hloc : (w.session.port i).Anchor)
    (hfar : q.farLoc = (w.session.port i).farLoc) (Y : Addr) :
    KeepsPorts C right w.session.port Y (g Y) i q :=
  .of_anchor (h.lease Y) hloc fun _ _ _ => hfar

theorem lease_granted {r a : Addr} {d : Int} (hC : C.Chain right) (h : Leased C right w g)
    (ha : w.Acts C right i (.addr (w.session.port i).farLoc (.ackLock r a d)) q out w')
    (hX : Owns C right w g i (.inbox i (w.session.port i).farLoc) (.ackLock r a d))
    (hbefore : (g i).before = []) (hloc : (w.session.port i).loc = .anchoring)
    (hq : Grants w i d q) : LeaseOk C right w'.session.port w'.Cause i (granted (g i)) := by
  obtain ⟨-, -, hcomplete, hsum⟩ := hX.msg
  have hports := h.keeps_anchor (.inl hloc) hq.farLoc i
  have hheld : (g i).held = (g i).after := by rw [Lease.held, hbefore, List.nil_append]
  have hshape := (h.lease i).frame_shape hC hports ha.cause
  rw [ha.port]
  refine ⟨shape_granted hshape hX.phase ?_, ?_⟩
  · rw [hports.far_last (h.lease i) hX.phase]
    exact hcomplete
  · obtain ⟨-, hpend, -, -, hother⟩ := h.waits hX.waits
    have hleft := hports.sum_left hC (h.lease i) (.inl hX.phase) fun x hx => hx
    rw [Function.update_self]
    refine ⟨?_, hq.requestor, hq.lockPending.trans hpend,
      fun _ => ⟨hq.requesting, hq.otherAnchor.trans hother, ?_⟩⟩
    · rw [hq.loc]
      rintro ⟨⟩
    · rw [show (granted (g i)).held = (g i).held from rfl, hleft, hheld, hq.newDelta, hq.loc]
      exact hsum.trans (add_zero _).symm

theorem act_granted {r a : Addr} {d : Int} (hC : C.Chain right) (h : Leased C right w g)
    (ha : w.Acts C right i (.addr (w.session.port i).farLoc (.ackLock r a d)) q
      [.addr (w.session.port i).lock.newFarLoc (.syn false 0)] w')
    (hloc : (w.session.port i).loc = .anchoring) (hq : Grants w i d q) :
    ∃ g', Leased C right w' g' := by
  obtain ⟨X, hX⟩ := h.owner_addr ha rfl
  have hi : right i := not_not.mp (h.fits ha).2
  obtain ⟨rfl, hbefore⟩ := h.own_answer hX hi hloc
  have hg' (Y : Addr) (hY : Y ≠ X) : Function.update g X (granted (g X)) Y = g Y :=
    Function.update_of_ne hY ..
  have hself : Function.update g X (granted (g X)) X = granted (g X) := Function.update_self ..
  have hports := h.keeps_anchor (q := q) (.inl hloc) hq.farLoc
  obtain ⟨s', ho, hs⟩ := ha.session
  refine ⟨Function.update g X (granted (g X)), h.act_own hC ha hi hports
    (fun Y hY => by rw [hg' Y hY]; exact ⟨rfl, rfl, .inl rfl⟩) ?_ (fun _ _ => ?_) ?_
    (fun Y => ?_) ?_
    (fun Y q₀ _ hY => hg' Y ?_) ?_ (fun R hR hR' he => ?_) ?_ (by rintro _ ⟨⟩)⟩
  · rw [hself]
    exact ⟨fun _ => .inl rfl, fun hp => absurd (hX.phase.symm.trans hp) (by rintro ⟨⟩)⟩
  · rw [hself]
    exact .inl rfl
  · rw [hself]
    simp [granted, hX.phase]
  · by_cases hY : Y = X
    · subst hY
      rw [hself]
      exact h.lease_granted hC ha hX hbefore hloc hq
    · rw [hg' Y hY, ha.port]
      exact (h.lease Y).frame hC ⟨hports Y, fun he => absurd he.symm hY⟩ ha.cause
  · rw [hs]
    refine h.account.act_drop ho ha.ready (tokensSent_other (by simp [Send.msg, Msg.IsToken]))
      fun Y => ?_
    by_cases hY : Y = X
    · subst hY
      refine .inr ⟨?_, takes hX rfl⟩
      rw [hself]
      rfl
    · exact h.keepsToken hX rfl hY (hg' Y hY)
  · rintro rfl
    rw [hX.token] at hY
    cases hY
  · intro _ _ hreq
    rw [ha.port, Function.update_self, hq.requesting] at hreq
    cases hreq
  · rw [hself]
    exact ⟨(by rintro ⟨⟩), (by rintro ⟨⟩), fun _ => by rw [hX.phase]; rintro ⟨⟩, rfl, rfl⟩
  · rw [hself]
    rintro _ _ ⟨⟩

/-! ## A request that has been saved is answered -/

/-- The request that the anchor `i` has saved. -/
theorem saved_request (h : Leased C right w g) (hi : right i)
    (hloc : (w.session.port i).loc = .anchoring)
    (hreq : (w.session.port i).lock.requesting = true)
    (hne : (w.session.port i).lock.requestPendingRequestor ≠ 0) {Y : Addr}
    (hY : (w.session.port i).lock.requestPendingRequestor = Y) :
    (g Y).Waits ∧ (g Y).token = .saved i ∧ (g Y).after = [] ∧
      Through w.session.port (g Y).anchor ((g Y).hop Y) (C.pair i) ∧
        (w.session.port ((g Y).hop Y)).farLoc = C.pair i ∧
          (w.session.port i).lock.requestPendingAnchor = (g Y).anchor ∧
            (w.session.port i).lock.requestPendingDelta =
              rightSum w.session.port (g Y).before := by
  obtain ⟨htok, hanchor, hsum⟩ := h.saved i hi hloc hreq hne
  rw [hY] at htok hanchor hsum
  have hphase : (g Y).phase = .asking := by
    by_contra hp
    rw [(h.lease Y).gone hp] at htok
    cases htok
  have hok := (h.lease Y).token
  rw [TokenOk, htok] at hok
  exact ⟨⟨hphase, .inl ⟨i, htok⟩⟩, htok, hok.2.1, hok.2.2.1, hok.2.2.2, hanchor, hsum⟩

/-- The lease whose request has been saved gets the token `t`. -/
def answered (L : Lease) (t : Token) : Lease := { L with token := t }

theorem act_grantedNack {r a : Addr} {d : Int} (hC : C.Chain right) (h : Leased C right w g)
    (ha : w.Acts C right i (.addr (w.session.port i).farLoc (.ackLock r a d)) q
      [.forward (C.pair i) (.nackLock (w.session.port i).lock.requestPendingRequestor 0),
        .addr (w.session.port i).lock.newFarLoc (.syn false 0)] w')
    (hloc : (w.session.port i).loc = .anchoring)
    (hsome : (w.session.port i).lock.requestPendingAnchor ≠ 0) (hq : Grants w i d q) :
    ∃ g', Leased C right w' g' := by
  obtain ⟨X, hX⟩ := h.owner_addr ha rfl
  have hi : right i := not_not.mp (h.fits ha).2
  obtain ⟨rfl, hbefore⟩ := h.own_answer hX hi hloc
  have hne : (w.session.port X).lock.requestPendingRequestor ≠ 0 :=
    fun h0 => hsome ((h.sound.port X).saved hi hloc h0)
  generalize hY₀ : (w.session.port X).lock.requestPendingRequestor = Z at ha hne
  obtain ⟨hwaits, htok, hafter, hthrough, hto, -, -⟩ := h.saved_request hi hloc
    ((h.waits hX.waits).2.2.2.1 (.inl hloc)) (hY₀ ▸ hne) hY₀
  have hZX : Z ≠ X := by
    rintro rfl
    rw [hX.token] at htok
    cases htok
  have hports := h.keeps_anchor (q := q) (.inl hloc) hq.farLoc
  have hframe (Y : Addr) (hY : Y ≠ X) : LeaseOk C right w'.session.port w'.Cause Y (g Y) := by
    rw [ha.port]
    exact (h.lease Y).frame hC ⟨hports Y, fun he => absurd he.symm hY⟩ ha.cause
  set L : Lease :=
    answered (g Z) (.flight (.outForward X (C.pair X)) (.nackLock Z 0)) with hL
  have hg' (Y : Addr) (hY : Y ≠ X) (hYZ : Y ≠ Z) :
      Function.update (Function.update g X (granted (g X))) Z L Y = g Y := by
    rw [Function.update_of_ne hYZ, Function.update_of_ne hY]
  have hself : Function.update (Function.update g X (granted (g X))) Z L X = granted (g X) := by
    rw [Function.update_of_ne hZX.symm, Function.update_self]
  have hother : Function.update (Function.update g X (granted (g X))) Z L Z = L :=
    Function.update_self ..
  obtain ⟨s', ho, hs⟩ := ha.session
  refine ⟨Function.update (Function.update g X (granted (g X))) Z L, h.act_own hC ha hi hports
    (fun Y hY => ?_) ?_ (fun _ _ => ?_) ?_ (fun Y => ?_) ?_
    (fun Y q₀ hq₀ hY => hg' Y ?_ ?_) ?_ (fun R hR hR' he => ?_) ?_ (by rintro _ ⟨⟩)⟩
  · by_cases hYZ : Y = Z
    · subst hYZ
      rw [hother]
      exact ⟨rfl, rfl, .inl rfl⟩
    · rw [hg' Y hY hYZ]
      exact ⟨rfl, rfl, .inl rfl⟩
  · rw [hself]
    exact ⟨fun _ => .inl rfl, fun hp => absurd (hX.phase.symm.trans hp) (by rintro ⟨⟩)⟩
  · rw [hself]
    exact .inl rfl
  · rw [hself]
    simp [granted, hX.phase]
  · by_cases hY : Y = X
    · subst hY
      rw [hself]
      exact h.lease_granted hC ha hX hbefore hloc hq
    by_cases hYZ : Y = Z
    · subst hYZ
      rw [hother]
      have hok := (hframe Y hY).token
      rw [TokenOk, htok] at hok
      refine (hframe Y hY).retoken hwaits rfl
        ⟨⟨rfl, fun hr => absurd hi hr, fun _ => hok.2.2⟩, rfl, hafter, ?_, ?_⟩
      · show (w'.session.port ((g Y).hop Y)).farLoc ≠ (g Y).anchor
        rw [hok.2.2.2]
        exact hok.2.2.1.ne
      · -- the anchor that has been granted its lock is the cause
        refine h.cause_of ha hwaits (fun he => absurd he.symm hY) (.inl ?_)
        refine h.contended hwaits hafter hto hthrough.ne (fun x => ?_) ?_ ⟨hi, ?_, ?_⟩ (Ne.symm hY)
        · rw [ha.port]
          by_cases hx : x = X
          · rw [hx, Function.update_self, hq.farLoc]
          · rw [Function.update_of_ne hx]
        · rw [ha.port, Function.update_of_ne hY]
        · rw [ha.port, Function.update_self]
          exact .inl hq.loc
        · rw [ha.port, Function.update_self]
          exact hq.requesting
    · rw [hg' Y hY hYZ]
      exact hframe Y hY
  · rw [hs]
    refine h.account.act_send ho ha.ready (k := .forward (C.pair X) (.nackLock Z 0)) (Z := Z)
      (fun π => ?_) ?_ (fun x hx => ?_) fun Y hYZ => ?_
    · rw [tokensSent_cons, tokensSent_other (by simp [Send.msg, Msg.IsToken])]
      simp [Send.msg, Msg.IsToken]
    · rw [hother]
      rfl
    · rw [Lease.flight, htok] at hx
      cases hx
    · by_cases hY : Y = X
      · subst hY
        refine .inr ⟨?_, takes hX rfl⟩
        rw [hself]
        rfl
      · exact h.keepsToken hX rfl hY (hg' Y hY hYZ)
  · rintro rfl
    rw [hX.token] at hY
    cases hY
  · rintro rfl
    rw [htok] at hY
    cases hY
    exact hq₀ rfl
  · intro _ _ hreq
    rw [ha.port, Function.update_self, hq.requesting] at hreq
    cases hreq
  · rw [hself]
    exact ⟨(by rintro ⟨⟩), (by rintro ⟨⟩), fun _ => by rw [hX.phase]; rintro ⟨⟩, rfl, rfl⟩
  · rw [hself]
    rintro _ _ ⟨⟩

/-! ## The lock is refused -/

theorem leaseOk_none {port : Addr → Port} {cause : Addr → Prop} (h : ¬ (port X).Anchor) :
    LeaseOk C right port cause X Lease.none where
  own := fun _ => h
  anchor hp := absurd rfl hp
  idle _ := rfl
  gone _ := rfl
  facing := nofun
  heldBy := nofun
  nodup := List.nodup_cons.mpr ⟨List.not_mem_nil, List.nodup_nil⟩
  chain := .nil
  first := nofun
  firstFar := nofun
  complete := nofun
  token := trivial

/-- A refused anchor has nothing left, and no right anchor waits for it. -/
theorem unreached_of_nack {r : Addr} (h : Leased C right w g)
    (hX : Owns C right w g X π (.nackLock r 0)) : Unreached right w g X :=
  h.unreached hX.phase hX.msg.2.1 hX.msg.2.2.1

theorem act_refused (hC : C.Chain right) (h : Leased C right w g)
    (ha : w.Acts C right i (.addr (w.session.port i).farLoc (.nackLock i 0)) q [] w')
    (hloc : (w.session.port i).loc = .anchoring) (hq : q.Normal)
    (hfar : q.farLoc = (w.session.port i).farLoc) : ∃ g', Leased C right w' g' := by
  obtain ⟨X, hX⟩ := h.owner_addr ha rfl
  have hi : right i := not_not.mp (h.fits ha).2
  obtain ⟨rfl, hbefore⟩ := h.own_answer hX hi hloc
  have hanchor : ¬ q.Anchor := not_or.mpr hq.ne
  have hg' (Y : Addr) (hY : Y ≠ X) : Function.update g X Lease.none Y = g Y :=
    Function.update_of_ne hY ..
  have hself : Function.update g X Lease.none X = Lease.none := Function.update_self ..
  have hports := h.keeps_anchor (q := q) (.inl hloc) hfar
  obtain ⟨s', ho, hs⟩ := ha.session
  refine ⟨Function.update g X Lease.none, h.act_own hC ha hi hports
    (fun Y hY => by rw [hg' Y hY]; exact ⟨rfl, rfl, .inl rfl⟩) ?_ (fun _ hd => by cases hd) ?_
    (fun Y => ?_) ?_ (fun Y q₀ _ hY => hg' Y ?_) ?_
    (fun R hR hR' he => absurd he ((h.unreached_of_nack hX).other R hR hR')) ?_ nofun⟩
  · simp [Lease.Opened, hX.phase]
  · simp [Lease.none, hX.phase]
  · by_cases hY : Y = X
    · subst hY
      rw [hself]
      refine leaseOk_none ?_
      rwa [ha.port, Function.update_self]
    · rw [hg' Y hY, ha.port]
      exact (h.lease Y).frame hC ⟨hports Y, fun he => absurd he.symm hY⟩ ha.cause
  · rw [hs]
    refine h.account.act_drop ho ha.ready (tokensSent_other nofun) fun Y => ?_
    by_cases hY : Y = X
    · subst hY
      refine .inr ⟨?_, takes hX rfl⟩
      rw [hself]
      rfl
    · exact h.keepsToken hX rfl hY (hg' Y hY)
  · rintro rfl
    rw [hX.token] at hY
    cases hY
  · intro _ hl
    rw [ha.port, Function.update_self] at hl
    exact absurd (.inl hl) hanchor
  · rw [hself]
    nofun

/-- The anchor passes the request on that it has saved. -/
theorem act_refusedPass (hC : C.Chain right) (h : Leased C right w g)
    (ha : w.Acts C right i (.addr (w.session.port i).farLoc (.nackLock i 0)) q
      [.addr (w.session.port i).farLoc
        (.requestLock (w.session.port i).lock.requestPendingRequestor
          (w.session.port i).lock.requestPendingAnchor
          ((w.session.port i).lock.requestPendingDelta + (w.session.port i).delta))] w')
    (hloc : (w.session.port i).loc = .anchoring)
    (hsome : (w.session.port i).lock.requestPendingRequestor ≠ 0) (hq : q.Normal)
    (hfar : q.farLoc = (w.session.port i).farLoc) (hdelta : q.delta = (w.session.port i).delta)
    (hpend : q.lock.lockPending = (w.session.port i).lock.lockPending)
    (hreq : q.lock.requestor = (w.session.port i).lock.requestPendingRequestor) :
    ∃ g', Leased C right w' g' := by
  obtain ⟨X, hX⟩ := h.owner_addr ha rfl
  have hi : right i := not_not.mp (h.fits ha).2
  obtain ⟨rfl, hbefore⟩ := h.own_answer hX hi hloc
  have hanchor : ¬ q.Anchor := not_or.mpr hq.ne
  generalize hY₀ : (w.session.port X).lock.requestPendingRequestor = Z at ha hsome hreq
  obtain ⟨-, hlock, -, hwait, -⟩ := h.waits hX.waits
  obtain ⟨hwaits, htok, hafter, hthrough, hto, hpa, hpd⟩ := h.saved_request hi hloc
    (hwait (.inl hloc)) (hY₀ ▸ hsome) hY₀
  have hZX : Z ≠ X := by
    rintro rfl
    rw [hX.token] at htok
    cases htok
  have hports := h.keeps_anchor (q := q) (.inl hloc) hfar
  have hframe (Y : Addr) (hY : Y ≠ X) : LeaseOk C right w'.session.port w'.Cause Y (g Y) := by
    rw [ha.port]
    exact (h.lease Y).frame hC ⟨hports Y, fun he => absurd he.symm hY⟩ ha.cause
  have hself' : w'.session.port X = q := by rw [ha.port, Function.update_self]
  have hnot (Y : Addr) : X ∉ (g Y).held := by
    intro hmem
    rcases ((h.lease Y).heldBy X hmem).loc with (hl | hl) | hl <;> simp [hloc] at hl
  set L : Lease :=
    { g Z with
      before := (g Z).before ++ [X]
      after := []
      token := .flight (.outAddr X (w.session.port X).farLoc)
        (.requestLock Z (w.session.port X).lock.requestPendingAnchor
          ((w.session.port X).lock.requestPendingDelta + (w.session.port X).delta)) } with hL
  have hlease : LeaseOk C right w'.session.port w'.Cause Z L := by
    have hok := (hframe Z hZX).token
    rw [TokenOk, htok] at hok
    have hlast : ((g Z).before ++ [X]).getLastD Z = X := by rw [getLastD_append_cons]; rfl
    have hheld : (w'.session.port X).HeldBy Z := by
      rw [hself']
      exact ⟨.inl hq, .inr (hpend.trans hlock), hreq⟩
    refine (hframe Z hZX).extend hwaits hafter hi hheld ?_ ⟨hok.2.2.1, hok.2.2.2⟩
      ⟨⟨fun _ => ⟨hlast.symm, ?_⟩, fun hr => absurd hi hr⟩, rfl, hpa, ?_⟩
    · exact fun hmem => (List.mem_cons.mp hmem).elim (fun he => hZX he.symm) (hnot Z)
    · rw [show Lease.hop Z _ = ((g Z).before ++ [X]).getLastD Z from rfl, hlast, hself', hfar]
    · have hsum : rightSum w'.session.port (g Z).before = rightSum w.session.port (g Z).before := by
        rw [ha.port]
        exact (hports Z).sum_right (h.lease Z) fun x hx => List.mem_append_left _ hx
      have happend : rightSum w'.session.port ((g Z).before ++ [X]) =
          rightSum w'.session.port (g Z).before + q.delta := by
        simp [rightSum, hself']
      rw [happend, hsum, ← hpd, hdelta]
  have hg' (Y : Addr) (hY : Y ≠ X) (hYZ : Y ≠ Z) :
      Function.update (Function.update g X Lease.none) Z L Y = g Y := by
    rw [Function.update_of_ne hYZ, Function.update_of_ne hY]
  have hself : Function.update (Function.update g X Lease.none) Z L X = Lease.none := by
    rw [Function.update_of_ne hZX.symm, Function.update_self]
  have hother : Function.update (Function.update g X Lease.none) Z L Z = L :=
    Function.update_self ..
  obtain ⟨s', ho, hs⟩ := ha.session
  refine ⟨Function.update (Function.update g X Lease.none) Z L, h.act_own hC ha hi hports
    (fun Y hY => ?_) ?_ (fun _ hd => by simp at hd) ?_ (fun Y => ?_) ?_
    (fun Y q₀ hq₀ hY => hg' Y ?_ ?_) ?_
    (fun R hR hR' he => absurd he ((h.unreached_of_nack hX).other R hR hR')) ?_ (by rintro _ ⟨⟩)⟩
  · by_cases hYZ : Y = Z
    · subst hYZ
      rw [hother]
      refine ⟨rfl, rfl, .inr (h.unreached hwaits.phase hafter ?_)⟩
      rw [hto]
      exact hthrough.ne
    · rw [hg' Y hY hYZ]
      exact ⟨rfl, rfl, .inl rfl⟩
  · rw [hself]
    simp [Lease.Opened, hX.phase]
  · rw [hself]
    simp [Lease.none, hX.phase]
  · by_cases hY : Y = X
    · subst hY
      rw [hself]
      exact leaseOk_none (by rwa [hself'])
    by_cases hYZ : Y = Z
    · subst hYZ
      rw [hother]
      exact hlease
    · rw [hg' Y hY hYZ]
      exact hframe Y hY
  · rw [hs]
    refine h.account.act_send ho ha.ready (tokensSent_token rfl) (Z := Z) ?_ (fun x hx => ?_)
      fun Y hYZ => ?_
    · rw [hother]
      rfl
    · rw [Lease.flight, htok] at hx
      cases hx
    · by_cases hY : Y = X
      · subst hY
        refine .inr ⟨?_, takes hX rfl⟩
        rw [hself]
        rfl
      · exact h.keepsToken hX rfl hY (hg' Y hY hYZ)
  · rintro rfl
    rw [hX.token] at hY
    cases hY
  · rintro rfl
    rw [htok] at hY
    cases hY
    exact hq₀ rfl
  · intro _ hl
    rw [hself'] at hl
    exact absurd (.inl hl) hanchor
  · rw [hself]
    rintro _ _ ⟨⟩

/-! ## Moves that change no lease -/

theorem act_quiet (hC : C.Chain right) (h : Leased C right w g)
    (ha : w.Acts C right i inp q out w')
    (hkeep : ∀ Y, KeepsLease C right w.session.port Y (g Y) i q)
    (hin : ∀ π m, inp.place i = some (π, m) → m.IsToken = false)
    (hout : ∀ k ∈ out, k.msg.IsToken = false)
    (hgrant : (w.session.port i).loc = .anchoring → ∀ dst, .addr dst (.syn false 0) ∉ out)
    (hcancel : ∀ dst, .addr dst (.cancelLock i) ∈ out → (g i).phase = .canceling)
    (hsaved : SavedOk right w'.session.port g i)
    (hengaged : ¬ right i → q.Anchor →
      EngagedOk w'.session.port q.lock.otherAnchor (g q.lock.otherAnchor) i)
    (htake : ∀ X, (g X).phase = .canceling → inp = .forward (.cancelLock X) → i ∉ (g X).held) :
    ∃ g', Leased C right w' g' := by
  obtain ⟨s', ho, hs⟩ := ha.session
  refine ⟨g, h.act_same hC ha (fun _ => rfl) (fun _ => rfl)
    (fun Y => .inl ⟨(hkeep Y).toKeepsPorts, rfl⟩) hgrant hcancel (fun Y => ?_) ?_ (fun _ _ _ => rfl)
    hsaved hengaged htake⟩
  · rw [ha.port]
    exact (h.lease Y).frame hC (hkeep Y) ha.cause
  · rw [hs]
    exact h.account.act_drop ho ha.ready (tokensSent_other hout) fun Y =>
      h.keepsToken_of_other hin rfl

/-- The variables for locking stay. -/
theorem act_still (hC : C.Chain right) (h : Leased C right w g)
    (ha : w.Acts C right i inp q out w') (hsame : (w.session.port i).SameLock q)
    (hloc : q.loc = (w.session.port i).loc ∨ q.loc = .ended)
    (hin : ∀ π m, inp.place i = some (π, m) → m.IsToken = false)
    (htake : ∀ X, inp ≠ .forward (.cancelLock X))
    (hout : ∀ k ∈ out, k.msg.IsToken = false ∧ k.msg ≠ .syn false 0 ∧
      (k.msg = .cancelLock i → (g i).phase = .canceling)) : ∃ g', Leased C right w' g' := by
  have hkeep (Y : Addr) : KeepsLease C right w.session.port Y (g Y) i q :=
    .of_same (h.lease Y) hsame.sameHold hloc
  have hports (Y : Addr) := (hkeep Y).toKeepsPorts
  refine h.act_quiet hC ha hkeep hin (fun k hk => (hout k hk).1)
    (fun _ dst hd => (hout _ hd).2.1 rfl) (fun dst hd => (hout _ hd).2.2 rfl) ?_ ?_
    fun X _ he => absurd he (htake X)
  · refine h.saved_self ha hports (fun _ _ _ => rfl) hsame.lock fun hl => ?_
    rcases hloc with hloc | hloc
    · exact hloc ▸ hl
    · exact absurd (hloc.symm.trans hl) nofun
  · exact h.engaged_self ha ⟨fun _ => rfl, fun _ => rfl, fun _ => rfl⟩ hports hsame hloc

/-! ## Cancellations -/

/-- No request is on its way between a port that no anchor asks for any more, and the next
one. -/
theorem no_request {q₀ p : Addr} (hC : C.Chain right) (h : Leased C right w g) (hq₀ : right q₀)
    (hfar : (w.session.port (C.pair q₀)).farLoc = p)
    (hno : ∀ Y, (g Y).phase = .asking → (g Y).hop Y ≠ p)
    (hπ : π = .forwarded q₀ ∨ π = .outForward (C.pair q₀) q₀ ∨ π = .inbox (C.pair q₀) p ∨
      π = .outAddr p (C.pair q₀)) (hm : m ∈ w.session.at π) : ¬ m.IsRequest := by
  intro hreq
  have htoken : m.IsToken = true := by cases m <;> first | rfl | exact hreq.elim
  have hpair : ¬ right (C.pair q₀) := fun hr => (hC.pair q₀).mp hr hq₀
  have hp : right p := hfar ▸ (h.sound.directed.port (C.pair q₀)).far.mpr hpair
  obtain ⟨Y, m', hY⟩ := h.account.owned (List.ne_nil_of_mem (List.mem_filter.mpr ⟨hm, htoken⟩))
  obtain ⟨hphase, -, hplace, -⟩ := h.owns hY
  refine hno Y hphase ?_
  rcases hπ with rfl | rfl | rfl | rfl
  · exact (hplace.1 hq₀).1.far.symm.trans hfar
  · exact (hplace.2.1 hpair).1.far.symm.trans hfar
  · exact (hplace.1 hpair).1.symm
  · exact (hplace.1 hp).1.symm

theorem at_sub {s s' : Session} (ho : s.Offers i inp s') (hm : m ∈ s'.at π) : m ∈ s.at π := by
  by_cases hp : ∃ n, inp.place i = some (π, n)
  · obtain ⟨n, hn⟩ := hp
    rw [ho.at_self hn]
    exact List.mem_cons_of_mem _ hm
  · rwa [ho.at_of_ne fun n hn => hp ⟨n, hn⟩] at hm

/-- A cancellation that has just been sent comes before any request. -/
theorem cancel_sent {q₀ : Addr} (hC : C.Chain right) (h : Leased C right w g)
    (ha : w.Acts C right i inp q [.addr (w.session.port i).farLoc (.cancelLock X)] w')
    (hi : right i) (hq₀ : right q₀) (hto : (w.session.port i).farLoc = C.pair q₀)
    (hfar : (w.session.port (C.pair q₀)).farLoc = i)
    (hpass : (w.session.port (C.pair q₀)).Passes)
    (hno : ∀ Y, (g Y).phase = .asking → (g Y).hop Y ≠ i) : CancelOk C w'.session X q₀ := by
  obtain ⟨s', ho, hs⟩ := ha.session
  have hpair : ¬ right (C.pair q₀) := fun hr => (hC.pair q₀).mp hr hq₀
  have hne : C.pair q₀ ≠ i := fun he => hpair (he ▸ hi)
  have hready : s'.todo i = [] := by rw [ho.todo, ha.ready]
  have hport : (s'.act i q [.addr (w.session.port i).farLoc (.cancelLock X)]).port (C.pair q₀) =
      w.session.port (C.pair q₀) := by rw [Session.act_port_of_ne _ hne, ho.port]
  have hsent : sendsAt i [.addr (C.pair q₀) (.cancelLock X)] (.outAddr i (C.pair q₀)) =
      [.cancelLock X] := sendsAt_singleton i (.addr (C.pair q₀) (.cancelLock X))
  have hnot {π : Place} (hπ : π = .forwarded q₀ ∨ π = .outForward (C.pair q₀) q₀ ∨
      π = .inbox (C.pair q₀) i ∨ π = .outAddr i (C.pair q₀)) {m : Msg} (hm : m ∈ s'.at π) :
      ¬ m.IsRequest := h.no_request hC hq₀ hfar hno hπ (at_sub ho hm)
  right
  rw [hs]
  unfold Session.ahead Session.behind
  rw [hport, hfar, act_at hready, act_at hready, act_at hready, act_at hready, hto, hsent,
    sendsAt_of_not_isOut (π := .forwarded _) id, sendsAt_of_not_isOut (π := .inbox ..) id,
    sendsAt_of_not_isOut (π := .outForward ..) hne, List.append_nil, List.append_nil,
    List.append_nil, ← List.append_assoc, ← List.append_assoc]
  refine ⟨hpass, firstCancel_append.mpr (.inr ⟨fun m hm => ?_, [], [], rfl, nofun⟩)⟩
  rcases List.mem_append.mp hm with hm | hm
  · rcases List.mem_append.mp hm with hm | hm
    · rcases List.mem_append.mp hm with hm | hm
      · exact hnot (.inl rfl) hm
      · exact hnot (.inr (.inl rfl)) hm
    · exact hnot (.inr (.inr (.inl rfl))) hm
  · exact hnot (.inr (.inr (.inr rfl))) hm

/-- A lease that is canceled. -/
def canceled (L : Lease) : Lease := { L with phase := .canceling }

theorem leaseOk_canceled {port : Addr → Port} {cause : Addr → Prop} {L : Lease}
    (h : LeaseOk C right port cause X L) (hL : L.phase = .granted) :
    LeaseOk C right port cause X (canceled L) where
  own := by
    have hown := h.own
    rw [OwnOk, hL] at hown
    exact ⟨hown.1, hown.2.1, hown.2.2.1, fun ha => (hown.2.2.2 ha).1⟩
  anchor _ := h.anchor (by rw [hL]; nofun)
  idle := nofun
  gone _ := h.gone (by rw [hL]; nofun)
  facing := h.facing
  heldBy := h.heldBy
  nodup := h.nodup
  chain := h.chain
  first := nofun
  firstFar := nofun
  complete := nofun
  token := h.token

/-- The new path is not set up. -/
theorem act_failed (hC : C.Chain right) (h : Leased C right w g)
    (ha : w.Acts C right i (.addr (w.session.port i).lock.newFarLoc .synTimeout)
      (w.session.port i) [.addr (w.session.port i).farLoc (.cancelLock i)] w')
    (hloc : (w.session.port i).loc = .anchoring) : ∃ g', Leased C right w' g' := by
  have hi : right i := not_not.mp (h.fits ha).2
  obtain ⟨s', ho, hs⟩ := ha.session
  -- the timeout comes from the other end of the new path, so the lock has been granted
  have hopened : (g i).Opened := by
    have hopen : OpensFrom C g i (w.session.port i).lock.newFarLoc := h.opened.input ho
    generalize hl : (w.session.port i).lock.newFarLoc = l at hopen
    cases hopen with
    | anchor ho => exact ho
    | along _ => exact absurd hl ((h.sound.port i).newFar hi (.inl hloc))
  rcases hopened with hphase | hphase
  · have hold := h.lease i
    have hown := hold.own
    rw [OwnOk, hphase] at hown
    have hgone : (g i).token = .gone := hold.gone (by rw [hphase]; rintro ⟨⟩)
    have hnot (Y : Addr) (hY : (g Y).phase = .asking) : (g Y).hop Y ≠ i := by
      intro hop
      have hcov : (g Y).Covers Y ((g Y).hop Y) := Lease.hop_covers hY
      have hY0 : Y ≠ 0 := (h.lease Y).ne_null hC (by rw [hY]; rintro ⟨⟩)
      rcases (h.lease Y).requestor_of_covers hcov with hr | ⟨-, hg, -⟩
      · rw [hop, hown.2.1] at hr
        exact hY0 hr.symm
      · exact absurd (hY.symm.trans hg) (by rintro ⟨⟩)
    have hport : w'.session.port = w.session.port := by rw [ha.port, Function.update_eq_self]
    have hkeep (Y : Addr) := KeepsLease.refl (i := i) (h.lease Y)
    have hg' (Y : Addr) (hY : Y ≠ i) : Function.update g i (canceled (g i)) Y = g Y :=
      Function.update_of_ne hY ..
    have hself : Function.update g i (canceled (g i)) i = canceled (g i) :=
      Function.update_self ..
    refine ⟨Function.update g i (canceled (g i)), h.act_own hC ha hi
      (fun Y => (hkeep Y).toKeepsPorts) (fun Y hY => by rw [hg' Y hY]; exact ⟨rfl, rfl, .inl rfl⟩)
      ?_ (fun _ hd => by simp at hd) ?_ (fun Y => ?_) ?_ (fun Y q₀ _ hY => hg' Y ?_) ?_
      (fun R hR hR' he => ?_) (fun q₀ rest _ hheld => ?_) (by rintro _ ⟨⟩)⟩
    · rw [hself]
      exact ⟨fun _ => .inr rfl, fun _ => rfl⟩
    · rw [hself]
      simp [canceled]
    · rw [hport]
      by_cases hY : Y = i
      · subst hY
        rw [hself]
        exact leaseOk_canceled (hold.cause_mono hC ha.cause) hphase
      · rw [hg' Y hY]
        exact (h.lease Y).cause_mono hC ha.cause
    · rw [hs]
      refine h.account.act_drop ho ha.ready (tokensSent_other (by simp [Send.msg, Msg.IsToken]))
        fun Y => ?_
      by_cases hY : Y = i
      · subst hY
        rw [hself]
        exact h.keepsToken_of_other (by simp [Input.place, Msg.IsToken]) rfl
      · exact h.keepsToken_of_other (by simp [Input.place, Msg.IsToken]) (by rw [hg' Y hY])
    · rintro rfl
      rw [hgone] at hY
      cases hY
    · exact h.saved_self ha (fun Y => (hkeep Y).toKeepsPorts)
        (fun Y q₀ hY => hg' Y (by rintro rfl; rw [hgone] at hY; cases hY)) rfl id
    · rw [hself]
      exact ⟨(by rintro ⟨⟩), (by rintro ⟨⟩), fun hn => absurd rfl hn, rfl, rfl⟩
    · rw [hself] at hheld
      have hmem : q₀ ∈ (g i).held.head? := by
        rw [show (g i).held = q₀ :: rest from hheld]
        rfl
      have hthrough := hold.first (.inr hphase) q₀ hmem
      exact h.cancel_sent hC ha hi (hold.facing q₀ (List.mem_of_mem_head? hmem))
        (hold.firstFar (.inr ⟨hphase, .inl hloc⟩) q₀ hmem) hthrough.far hthrough.passes hnot
  · exact h.act_still hC ha ⟨rfl, rfl, rfl⟩ (.inl rfl) (by simp [Input.place, Msg.IsToken])
      (by rintro _ ⟨⟩)
      (by simp [Send.msg, Msg.IsToken, hphase])

/-- A lease that is canceled up to a port. -/
def cutOff (L : Lease) (v : List Addr) : Lease := { L with before := v, after := [] }

theorem held_cutOff (L : Lease) (v : List Addr) : (cutOff L v).held = v := List.append_nil v

theorem leaseOk_cutOff {port : Addr → Port} {cause : Addr → Prop} {L : Lease} {u v : List Addr}
    (h : LeaseOk C right port cause X L) (hL : L.phase = .canceling)
    (hheld : L.held = u ++ i :: v) : LeaseOk C right port cause X (cutOff L v) := by
  have hsub (x : Addr) (hx : x ∈ (cutOff L v).held) : x ∈ L.held := by
    rw [held_cutOff] at hx
    rw [hheld]
    exact List.mem_append_right _ (List.mem_cons_of_mem _ hx)
  have hphase : (cutOff L v).phase = .canceling := hL
  refine
    { anchor := fun _ => h.anchor (by rw [hL]; nofun)
      idle := fun hp => absurd (hphase.symm.trans hp) nofun
      gone := fun _ => h.gone (by rw [hL]; nofun)
      facing := fun x hx => h.facing x (hsub x hx)
      heldBy := fun x hx => h.heldBy x (hsub x hx)
      nodup := ?_
      chain := ?_
      first := fun hp => by rw [hphase] at hp; rcases hp with hp | hp <;> cases hp
      firstFar := fun hp => by rw [hphase] at hp; rcases hp with hp | ⟨hp, -⟩ <;> cases hp
      complete := fun hp => absurd (hphase.symm.trans hp) nofun
      token := ?_
      own := ?_ }
  · rw [held_cutOff]
    have := h.nodup
    rw [hheld] at this
    exact this.sublist
      (.cons_cons _ ((List.sublist_cons_self i v).trans (List.sublist_append_right u _)))
  · rw [held_cutOff]
    have := h.chain
    rw [hheld] at this
    exact (List.isChain_cons.mp this.right_of_append).2
  · rw [TokenOk, show (cutOff L v).token = .gone from h.gone (by rw [hL]; nofun)]
    trivial
  · have hown := h.own
    rw [OwnOk, hL] at hown
    rw [OwnOk, hphase]
    exact hown

theorem act_cancelForward {r : Addr} (hC : C.Chain right) (h : Leased C right w g)
    (ha : w.Acts C right i (.forward (.cancelLock r)) q
      [.addr (w.session.port i).farLoc (.cancelLock r)] w')
    (hloc : (w.session.port i).loc = .endOnePath)
    (hheld : r = (w.session.port i).lock.requestor) (hq : q.loc = (w.session.port i).loc)
    (hfar : q.farLoc = (w.session.port i).farLoc) (hdelta : q.delta = (w.session.port i).delta) :
    ∃ g', Leased C right w' g' := by
  have hi : right i := h.fits ha
  obtain ⟨s', ho, hs⟩ := ha.session
  have hphase : (g r).phase = .canceling := h.opened.input ho
  have hr0 : r ≠ 0 := (h.lease r).ne_null hC (by rw [hphase]; rintro ⟨⟩)
  have hanchor : ¬ q.Anchor := by simp [Port.Anchor, hq, hloc]
  have hidle : (g i).phase = .idle := by
    have hown := (h.lease i).own
    unfold OwnOk at hown
    split at hown
    next hp => exact hp
    next hp =>
      rw [hheld, hown.1] at hphase
      exact absurd (hp.symm.trans hphase) (by rintro ⟨⟩)
    next => exact absurd (hheld.trans hown.2.1) hr0
    next => exact absurd (hheld.trans hown.2.1) hr0
  have hholder (Y : Addr) (hY : i ∈ (g Y).held) : Y = r :=
    (hheld.trans ((h.lease Y).heldBy i hY).requestor).symm
  have hkeep (Y : Addr) (M : Lease) (hM : i = Y → M.phase = .idle) (hnot : i ∉ M.held) :
      KeepsLease C right w.session.port Y M i q :=
    .of_right hi hM hanchor (fun hmem => absurd hmem hnot) hfar hdelta
  have hir : i ≠ r := by
    rintro rfl
    exact absurd (hidle.symm.trans hphase) (by rintro ⟨⟩)
  have hsaved (g' : Addr → Lease) : SavedOk right w'.session.port g' i := by
    intro _ hl
    rw [ha.port, Function.update_self] at hl
    exact absurd (.inl hl) hanchor
  by_cases hmem : i ∈ (g r).held
  · obtain ⟨u, v, huv⟩ := List.append_of_mem hmem
    have hcut := leaseOk_cutOff (h.lease r) hphase huv
    have hnot : i ∉ (cutOff (g r) v).held := by
      rw [held_cutOff]
      have := (List.nodup_cons.mp (h.lease r).nodup).2
      rw [huv] at this
      exact (List.nodup_cons.mp (List.nodup_append.mp this).2.1).1
    have hg' (Y : Addr) (hY : Y ≠ r) : Function.update g r (cutOff (g r) v) Y = g Y :=
      Function.update_of_ne hY ..
    have hself : Function.update g r (cutOff (g r) v) r = cutOff (g r) v :=
      Function.update_self ..
    have hp' (Y : Addr) : (Function.update g r (cutOff (g r) v) Y).phase = (g Y).phase := by
      by_cases hY : Y = r
      · rw [hY, hself]
        rfl
      · rw [hg' Y hY]
    have hother (Y : Addr) (hY : Y ≠ r) : KeepsLease C right w.session.port Y (g Y) i q :=
      hkeep Y (g Y) (fun he => he ▸ hidle) fun hmem' => hY (hholder Y hmem')
    refine ⟨Function.update g r (cutOff (g r) v), h.act hC ha ?_ (fun _ _ hd => by simp at hd)
      (fun Y => ?_) (fun Y => ?_) ?_ (fun q₀ => ?_) (fun R hR hR' => ?_)
      fun Y q₀ rest hpY hheldY => ?_⟩
    · constructor <;> intro Y
      · unfold Lease.Opened
        rw [hp' Y]
        exact id
      · rw [hp' Y]
        exact id
    · rw [hp' Y]
      refine ⟨.inl, fun hY => hY.elim id ?_⟩
      rintro ⟨rfl, dst, hd⟩
      simp only [List.mem_singleton, Send.addr.injEq, Msg.cancelLock.injEq] at hd
      exact absurd hd.2 hir
    · rw [ha.port]
      by_cases hY : Y = r
      · subst hY
        rw [hself]
        exact hcut.frame hC (hkeep Y _ (fun he => absurd he hir) hnot) ha.cause
      · rw [hg' Y hY]
        exact (h.lease Y).frame hC (hother Y hY) ha.cause
    · rw [hs]
      refine h.account.act_drop ho ha.ready (tokensSent_other (by simp [Send.msg, Msg.IsToken]))
        fun Y => h.keepsToken_of_other (by simp [Input.place, Msg.IsToken]) ?_
      by_cases hY : Y = r
      · rw [hY, hself]
        rfl
      · rw [hg' Y hY]
    · by_cases hq₀ : i = q₀
      · exact hq₀ ▸ hsaved _
      · rw [ha.port]
        refine (h.saved q₀).keep h.lease (fun Y hY => ?_) fun he => absurd he hq₀
        have hYr : Y ≠ r := by
          rintro rfl
          rw [(h.lease Y).gone (by rw [hphase]; rintro ⟨⟩)] at hY
          cases hY
        exact ⟨hg' Y hYr, (hother Y hYr).toKeepsPorts⟩
    · have hiR : i ≠ R := fun he => hR (he ▸ hi)
      rw [ha.port, Function.update_of_ne hiR.symm] at hR'
      have heng := h.engaged R hR hR'
      rw [ha.port, Function.update_of_ne hiR.symm]
      by_cases hY : (w.session.port R).lock.otherAnchor = r
      · rw [hY] at heng ⊢
        rw [hself]
        exact ⟨heng.phase, heng.anchor, fun hp => absurd (hphase.symm.trans hp) (by rintro ⟨⟩),
          fun hp => absurd hphase hp⟩
      · rw [hg' _ hY]
        exact heng.keep (h.lease _) (hother _ hY).toKeepsPorts heng.phase id id rfl rfl
          fun he => absurd he hiR
    · rw [hp' Y] at hpY
      by_cases hY : Y = r
      · -- the cancellation goes on to the next port that is held
        subst hY
        rw [hself, held_cutOff] at hheldY
        subst hheldY
        have hlink := (h.lease Y).chain
        rw [huv] at hlink
        have hlink := (List.isChain_cons_cons.mp hlink.right_of_append).1
        have hq₀ : right q₀ := (h.lease Y).facing q₀ (by rw [huv]; simp)
        refine h.cancel_sent hC ha hi hq₀ hlink.far hlink.through.far hlink.through.passes
          fun Z hZ hop => ?_
        have hcov : (g Z).Covers Z ((g Z).hop Z) := Lease.hop_covers hZ
        rcases (h.lease Z).requestor_of_covers hcov with hreq | ⟨-, hg, -⟩
        · rw [hop, ← hheld] at hreq
          rw [hreq] at hphase
          exact absurd (hphase.symm.trans hZ) (by rintro ⟨⟩)
        · exact absurd (hZ.symm.trans hg) (by rintro ⟨⟩)
      · rw [hg' Y hY] at hheldY
        rw [hs]
        refine (h.cancel Y q₀ rest hpY hheldY).act hC h.sound
          ((h.lease Y).facing q₀ (hheldY ▸ List.mem_cons_self)) ha.ready ho ha.option
          fun _ he => hY ?_
        cases he
        rfl
  · refine h.act_quiet hC ha (fun Y => hkeep Y (g Y) (fun he => he ▸ hidle) fun hmem' => ?_)
      (by simp [Input.place, Msg.IsToken]) (by simp [Send.msg, Msg.IsToken])
      (fun _ _ hd => by simp at hd) (fun dst hd => ?_) (hsaved g) (fun hn => absurd hi hn)
      fun Y _ he => ?_
    · exact hmem (hholder Y hmem' ▸ hmem')
    · simp only [List.mem_singleton, Send.addr.injEq, Msg.cancelLock.injEq] at hd
      exact absurd hd.2 hir
    · cases he
      exact hmem

end Leased

end Dysco.PortProcess
