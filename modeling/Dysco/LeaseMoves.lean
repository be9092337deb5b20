import Dysco.LeaseFrames

/-! # The moves of the leases

Most moves of a port either leave all leases alone, or move the token of one of them.
-/
namespace Dysco.PortProcess

variable {C : Config} {right : Addr → Prop} {g g' : Addr → Lease} {i : Addr} {q : Port}
variable {inp : Input} {out : List Send} {w w' : Watched} {X Y : Addr} {π : Place} {m : Msg}

namespace Leased

/-- The request of `X` has not reached its right anchor. -/
structure Unreached (right : Addr → Prop) (w : Watched) (g : Addr → Lease) (X : Addr) : Prop where
  phase : (g X).phase = .asking
  other : ∀ R, ¬ right R → (w.session.port R).Anchor → (w.session.port R).lock.otherAnchor ≠ X

/-- If the last port that is held is not connected to the right anchor, that one has not been
reached. -/
theorem unreached (h : Leased C right w g) (hp : (g X).phase = .asking)
    (hafter : (g X).after = []) (hne : (w.session.port ((g X).hop X)).farLoc ≠ (g X).anchor) :
    Unreached right w g X := by
  refine ⟨hp, fun R hR ha he => ?_⟩
  have heng := h.engaged R hR ha
  rw [he] at heng
  have := heng.complete hp
  rw [Lease.held, hafter, List.append_nil] at this
  exact hne (this.trans heng.anchor.symm)

/-- A move that changes no phase, and what is held only for anchors whose requests are on their
way. -/
theorem act_same (hC : C.Chain right) (h : Leased C right w g) (ha : w.Acts C right i inp q out w')
    (hphase : ∀ X, (g' X).phase = (g X).phase) (hanchor : ∀ X, (g' X).anchor = (g X).anchor)
    (hsame : ∀ X, (KeepsPorts C right w.session.port X (g X) i q ∧ (g' X).held = (g X).held) ∨
      Unreached right w g X ∧ ∀ q₀, (g X).token ≠ .saved q₀)
    (hgrant : (w.session.port i).loc = .anchoring → ∀ dst, .addr dst (.syn false 0) ∉ out)
    (hcancel : ∀ dst, .addr dst (.cancelLock i) ∈ out → (g i).phase = .canceling)
    (hlease : ∀ X, LeaseOk C right w'.session.port w'.Cause X (g' X))
    (haccount : Accounted w'.session fun X => (g' X).flight)
    (htokens : ∀ X q₀, (g X).token = .saved q₀ → g' X = g X)
    (hsaved : SavedOk right w'.session.port g' i)
    (hengaged : ¬ right i → q.Anchor →
      EngagedOk w'.session.port q.lock.otherAnchor (g' q.lock.otherAnchor) i)
    (htake : ∀ X, (g X).phase = .canceling → inp = .forward (.cancelLock X) → i ∉ (g X).held) :
    Leased C right w' g' := by
  have hgrows : Grows g g' := by
    constructor <;> intro X
    · unfold Lease.Opened
      rw [hphase X]
      exact id
    · rw [hphase X]
      exact id
  refine h.act hC ha hgrows (fun hl dst hd => absurd hd (hgrant hl dst))
    (fun X => ?_) hlease haccount
    (fun q₀ => ?_) (fun R hR hR' => ?_) fun X q₀ rest hp hheld => ?_
  · rw [hphase]
    refine ⟨.inl, fun hX => hX.elim id ?_⟩
    rintro ⟨rfl, dst, hd⟩
    exact hcancel dst hd
  · by_cases hi : i = q₀
    · exact hi ▸ hsaved
    · rw [ha.port]
      refine (h.saved q₀).keep h.lease (fun X hX => ⟨htokens X q₀ hX, ?_⟩) fun he => absurd he hi
      rcases hsame X with ⟨hk, -⟩ | ⟨-, hne⟩
      · exact hk
      · exact absurd hX (hne q₀)
  · rw [ha.port] at hR' ⊢
    by_cases hi : i = R
    · subst hi
      rw [Function.update_self] at hR' ⊢
      exact ha.port ▸ hengaged hR hR'
    · rw [Function.update_of_ne (Ne.symm hi)] at hR' ⊢
      rcases hsame (w.session.port R).lock.otherAnchor with ⟨hk, hheld⟩ | ⟨hn, -⟩
      · have heng := h.engaged R hR hR'
        refine heng.keep (h.lease _) hk ?_ ?_ ?_ (hanchor _) hheld fun he => absurd he hi
        · rw [hphase]
          exact heng.phase
        · rw [hphase]
          exact id
        · rw [hphase]
          exact id
      · exact absurd rfl (hn.other R hR hR')
  · rw [hphase] at hp
    rcases hsame X with ⟨-, hheld'⟩ | ⟨⟨hp', -⟩, -⟩
    · rw [hheld'] at hheld
      have hmem : q₀ ∈ (g X).held := hheld ▸ List.mem_cons_self
      obtain ⟨s', ho, hs⟩ := ha.session
      rw [hs]
      refine (h.cancel X q₀ rest hp hheld).act hC h.sound ((h.lease X).facing q₀ hmem) ha.ready ho
        ha.option fun hi he => ?_
      exact htake X hp he (hi ▸ hmem)
    · rw [hp] at hp'
      cases hp'

/-- A port whose variables for locking stay has the same saved request. -/
theorem saved_self (h : Leased C right w g) (ha : w.Acts C right i inp q out w')
    (hkeep : ∀ X, KeepsPorts C right w.session.port X (g X) i q)
    (htokens : ∀ X q₀, (g X).token = .saved q₀ → g' X = g X)
    (hlock : q.lock = (w.session.port i).lock)
    (hloc : q.loc = .anchoring → (w.session.port i).loc = .anchoring) :
    SavedOk right w'.session.port g' i := by
  rw [ha.port]
  refine (h.saved i).keep h.lease (fun X hX => ⟨htokens X i hX, hkeep X⟩) fun _ hq hreq hne => ?_
  rw [hlock] at hreq ⊢
  exact ⟨hloc hq, hreq, rfl, rfl, rfl⟩

theorem engaged_self (h : Leased C right w g) (ha : w.Acts C right i inp q out w')
    (hg : SameHeld g g') (hkeep : ∀ X, KeepsPorts C right w.session.port X (g X) i q)
    (hsame : (w.session.port i).SameLock q)
    (hloc : q.loc = (w.session.port i).loc ∨ q.loc = .ended) (hi : ¬ right i) (hq : q.Anchor) :
    EngagedOk w'.session.port q.lock.otherAnchor (g' q.lock.otherAnchor) i := by
  obtain ⟨hanchor, hloc'⟩ := hq.of_loc hloc
  rw [ha.port, hsame.lock]
  have heng := h.engaged i hi hanchor
  refine heng.keep (h.lease _) (hkeep _) ?_ ?_ ?_ (hg.anchor _) (hg.held _)
    fun _ => ⟨hloc', hsame.delta, ?_⟩
  · rw [hg.phase]
    exact heng.phase
  · rw [hg.phase]
    exact id
  · rw [hg.phase]
    exact id
  · rw [hsame.lock]

/-- The token of `X` is taken; the others keep theirs. -/
theorem keepsToken (h : Leased C right w g) (hX : Owns C right w g X π m)
    (hin : inp.place i = some (π, m)) (hY : Y ≠ X) (hg : g' Y = g Y) :
    KeepsToken i inp (g Y).flight (g' Y).flight := by
  refine .inl ⟨by rw [hg], fun x hx he => hY ?_⟩
  rw [hin, Option.some.injEq] at he
  subst he
  exact h.account.unique hx hX.flight

theorem takes (hX : Owns C right w g X π m) (hin : inp.place i = some (π, m)) (x : Place × Msg)
    (hx : (g X).flight = some x) : inp.place i = some x := by
  rw [hin, ← hX.flight, hx]

theorem isToken (h : Leased C right w g) (hX : Owns C right w g X π m) : m.IsToken = true := by
  have hmem : m ∈ w.session.tokens π := h.account.present hX.flight ▸ List.mem_singleton_self m
  exact (List.mem_filter.mp hmem).2

/-- A token becomes another one. -/
theorem act_token {b c : List Addr} {t : Token} (hC : C.Chain right)
    (h : Leased C right w g) (ha : w.Acts C right i inp q out w') (hX : Owns C right w g X π m)
    (hin : inp.place i = some (π, m)) (hheld : b ++ c = (g X).held)
    (hports : KeepsPorts C right w.session.port X (g X) i q)
    (hkeep : ∀ Y, Y ≠ X → KeepsLease C right w.session.port Y (g Y) i q)
    (hlease : LeaseOk C right w'.session.port w'.Cause X
      { g X with before := b, after := c, token := t })
    (hsent : (∃ k, out = [k] ∧ k.msg.IsToken = true ∧ t = .flight (k.place i) k.msg) ∨
      (∀ k ∈ out, k.msg.IsToken = false ∧ k.msg ≠ .syn false 0 ∧ k.msg ≠ .cancelLock i) ∧
        ∀ π m, t ≠ .flight π m)
    (hsaved : ∀ g', SameHeld g g' → (∀ Y q₀, (g Y).token = .saved q₀ → g' Y = g Y) →
      g' X = { g X with before := b, after := c, token := t } →
        SavedOk right w'.session.port g' i)
    (hengaged : ∀ g', SameHeld g g' → ¬ right i → q.Anchor →
      EngagedOk w'.session.port q.lock.otherAnchor (g' q.lock.otherAnchor) i) :
    ∃ g', Leased C right w' g' := by
  obtain ⟨s', ho, hs⟩ := ha.session
  set L : Lease := { g X with before := b, after := c, token := t } with hL
  have hg : SameHeld g (Function.update g X L) := .update rfl rfl hheld
  have htokens (Y q₀ : Addr) (hY : (g Y).token = .saved q₀) : Function.update g X L Y = g Y := by
    refine Function.update_of_ne ?_ ..
    rintro rfl
    rw [hX.token] at hY
    cases hY
  have hports' (Y : Addr) : KeepsPorts C right w.session.port Y (g Y) i q := by
    by_cases hY : Y = X
    · exact hY ▸ hports
    · exact (hkeep Y hY).toKeepsPorts
  refine ⟨Function.update g X L, h.act_same hC ha hg.phase hg.anchor
    (fun Y => .inl ⟨hports' Y, hg.held Y⟩) (fun _ dst hd => ?_) (fun dst hd => ?_) (fun Y => ?_) ?_
    htokens
    (hsaved _ hg htokens (Function.update_self ..)) (hengaged _ hg) fun Y _ he => ?_⟩
  · rcases hsent with ⟨k, rfl, hk, -⟩ | ⟨hnone, -⟩
    · rw [← List.mem_singleton.mp hd] at hk
      cases hk
    · exact (hnone _ hd).2.1 rfl
  · rcases hsent with ⟨k, rfl, hk, -⟩ | ⟨hnone, -⟩
    · rw [← List.mem_singleton.mp hd] at hk
      cases hk
    · exact absurd rfl (hnone _ hd).2.2
  · by_cases hY : Y = X
    · subst hY
      rw [Function.update_self]
      exact hlease
    · rw [Function.update_of_ne hY, ha.port]
      exact (h.lease Y).frame hC (hkeep Y hY) ha.cause
  · rw [hs]
    have hother (Y : Addr) (hY : Y ≠ X) :
        KeepsToken i inp (g Y).flight (Function.update g X L Y).flight :=
      h.keepsToken hX hin hY (Function.update_of_ne hY ..)
    rcases hsent with ⟨k, rfl, hk, rfl⟩ | ⟨hnone, ht⟩
    · refine h.account.act_send ho ha.ready (tokensSent_token hk) (Z := X) ?_ (takes hX hin) hother
      rw [Function.update_self, Lease.flight, hL]
    · refine h.account.act_drop ho ha.ready
        (tokensSent_other fun k hk => (hnone k hk).1) fun Y => ?_
      by_cases hY : Y = X
      · subst hY
        refine .inr ⟨?_, takes hX hin⟩
        rw [Function.update_self, Lease.flight]
        split
        next ht' => exact absurd ht' (ht _ _)
        next => rfl
      · exact hother Y hY
  · have := h.isToken hX
    rw [he] at hin
    cases hin
    cases this

/-- The variables stay, and the token goes on. -/
theorem act_pass {b c : List Addr} {k : Send} (hC : C.Chain right)
    (h : Leased C right w g) (ha : w.Acts C right i inp (w.session.port i) [k] w')
    (hX : Owns C right w g X π m) (hin : inp.place i = some (π, m))
    (hheld : b ++ c = (g X).held) (hk : k.msg.IsToken = true)
    (hplace : PlaceOk C right w.session.port (g X).anchor (b.getLastD X) (k.place i))
    (hmsg : MsgOk C w.session.port w'.Cause X { g X with before := b, after := c }
      (k.place i) k.msg) : ∃ g', Leased C right w' g' := by
  have hport : w'.session.port = w.session.port := by rw [ha.port, Function.update_eq_self]
  have hkeep (Y : Addr) := KeepsLease.refl (i := i) (h.lease Y)
  have hports (Y : Addr) := (hkeep Y).toKeepsPorts
  refine h.act_token hC ha hX hin hheld (t := .flight (k.place i) k.msg) (hports X)
    (fun Y _ => hkeep Y) ?_ (.inl ⟨k, rfl, hk, rfl⟩) (fun g' _ htokens _ => ?_) fun g' hg => ?_
  · rw [hport]
    refine ((h.lease X).cause_mono hC ha.cause).retoken hX.waits hheld ⟨hplace, ?_⟩
    cases hm : k.msg <;> rw [hm] at hmsg <;> exact hmsg
  · exact h.saved_self ha hports htokens rfl id
  · exact h.engaged_self ha hg hports ⟨rfl, rfl, rfl⟩ (.inl rfl)

/-- The variables stay, and the token is lost. -/
theorem act_lose (hC : C.Chain right) (h : Leased C right w g)
    (ha : w.Acts C right i inp (w.session.port i) out w')
    (hX : Owns C right w g X π m) (hin : inp.place i = some (π, m))
    (hout : ∀ k ∈ out, k.msg.IsToken = false ∧ k.msg ≠ .syn false 0 ∧ k.msg ≠ .cancelLock i) :
    ∃ g', Leased C right w' g' := by
  have hport : w'.session.port = w.session.port := by rw [ha.port, Function.update_eq_self]
  have hkeep (Y : Addr) := KeepsLease.refl (i := i) (h.lease Y)
  have hports (Y : Addr) := (hkeep Y).toKeepsPorts
  refine h.act_token hC ha hX hin rfl (t := .gone) (hports X) (fun Y _ => hkeep Y) ?_
    (.inr ⟨hout, nofun⟩) (fun g' _ htokens _ => h.saved_self ha hports htokens rfl id)
    fun g' hg => h.engaged_self ha hg hports ⟨rfl, rfl, rfl⟩ (.inl rfl)
  rw [hport]
  exact ((h.lease X).cause_mono hC ha.cause).retoken hX.waits rfl trivial

/-! ## Requests on their way -/

section Moves
variable {r a src : Addr} {d : Int}

theorem fits (h : Leased C right w g) (ha : w.Acts C right i inp q out w') :
    inp.Has (FitsAddr right) (FitsForward right) i := by
  obtain ⟨s', ho, -⟩ := ha.session
  exact h.sound.directed.messages.input ho

/-- The owner of a token that comes from a far end. -/
theorem owner_addr (h : Leased C right w g) (ha : w.Acts C right i (.addr src m) q out w')
    (hm : m.IsToken = true) : ∃ X, Owns C right w g X (.inbox i src) m := by
  obtain ⟨s', ho, -⟩ := ha.session
  exact h.owner ho rfl hm

theorem owner_forward (h : Leased C right w g) (ha : w.Acts C right i (.forward m) q out w')
    (hm : m.IsToken = true) : ∃ X, Owns C right w g X (.forwarded i) m := by
  obtain ⟨s', ho, -⟩ := ha.session
  exact h.owner ho rfl hm

theorem act_requestAddr (hC : C.Chain right) (h : Leased C right w g)
    (ha : w.Acts C right i (.addr (w.session.port i).farLoc (.requestLock r a d))
      (w.session.port i) [.forward (C.pair i) (.requestLock r a d)] w')
    (hloc : (w.session.port i).loc = .endOnePath) (hne : a ≠ i) : ∃ g', Leased C right w' g' := by
  obtain ⟨X, hX⟩ := h.owner_addr ha rfl
  have hi : ¬ right i := (h.fits ha).2
  obtain ⟨hfar, hto⟩ := hX.place.1 hi
  obtain ⟨rfl, rfl, hsum⟩ := hX.msg
  refine h.act_pass hC ha hX rfl rfl rfl ⟨rfl, fun _ => ⟨⟨.inl hloc, hne.symm, hfar⟩, hto⟩,
    fun hr => absurd hr hi⟩ ⟨rfl, rfl, hsum⟩

theorem act_requestLost (hC : C.Chain right) (h : Leased C right w g)
    (ha : w.Acts C right i (.addr (w.session.port i).farLoc (.requestLock r a d))
      (w.session.port i) [.addr (w.session.port i).farLoc (.lockTimeout 0 0)] w') :
    ∃ g', Leased C right w' g' := by
  obtain ⟨X, hX⟩ := h.owner_addr ha rfl
  have hi : ¬ right i := (h.fits ha).2
  exact h.act_pass hC ha hX rfl rfl rfl ⟨fun hr => absurd hr hi, fun _ => (hX.place.1 hi).1⟩ trivial

/-! ## Answers on their way -/

theorem act_ackForward (hC : C.Chain right) (h : Leased C right w g)
    (ha : w.Acts C right i (.forward (.ackLock r a d)) (w.session.port i)
      [.addr (w.session.port i).farLoc (.ackLock r a (d + (w.session.port i).delta))] w') :
    ∃ g', Leased C right w' g' := by
  obtain ⟨X, hX⟩ := h.owner_forward ha rfl
  have hi : ¬ right i := h.fits ha
  obtain ⟨hthrough, -⟩ := hX.place.2 hi
  obtain ⟨rfl, rfl, hcomplete, rest, hrest, hsum⟩ := hX.msg
  refine h.act_pass hC ha hX rfl rfl rfl ⟨fun hr => absurd hr hi, fun _ => hthrough.far⟩
    ⟨rfl, rfl, hcomplete, ?_⟩
  show d + (w.session.port i).delta = leftSum C w.session.port (g r).after
  rw [hrest, leftSum, List.map_cons, List.sum_cons, hC.pair_pair, hsum, add_comm]
  rfl

theorem act_nackForward (hC : C.Chain right) (h : Leased C right w g)
    (ha : w.Acts C right i (.forward (.nackLock r 0)) (w.session.port i)
      [.addr (w.session.port i).farLoc (.nackLock r 0)] w') : ∃ g', Leased C right w' g' := by
  obtain ⟨X, hX⟩ := h.owner_forward ha rfl
  have hi : ¬ right i := h.fits ha
  obtain ⟨hthrough, -⟩ := hX.place.2 hi
  obtain ⟨rfl, hafter, hne, hcause⟩ := hX.msg
  exact h.act_pass hC ha hX rfl rfl rfl ⟨fun hr => absurd hr hi, fun _ => hthrough.far⟩
    ⟨rfl, hafter, hne, ha.cause hcause⟩

theorem act_timeoutForward (hC : C.Chain right) (h : Leased C right w g)
    (ha : w.Acts C right i (.forward (.lockTimeout 0 0)) (w.session.port i)
      [.addr (w.session.port i).farLoc (.lockTimeout 0 0)] w') : ∃ g', Leased C right w' g' := by
  obtain ⟨X, hX⟩ := h.owner_forward ha rfl
  have hi : ¬ right i := h.fits ha
  obtain ⟨hthrough, -⟩ := hX.place.2 hi
  exact h.act_pass hC ha hX rfl rfl rfl ⟨fun hr => absurd hr hi, fun _ => hthrough.far⟩ trivial

/-- A left anchor whose request is on its way waits for it. -/
theorem waits (h : Leased C right w g) (hX : (g X).Waits) :
    (w.session.port X).lock.requestor = X ∧ (w.session.port X).lock.lockPending = true ∧
      ((w.session.port X).loc = .anchoring ∨ (w.session.port X).loc = .ended) ∧
        ((w.session.port X).Anchor → (w.session.port X).lock.requesting = true) ∧
          (w.session.port X).lock.otherAnchor = (g X).anchor := by
  have hown := (h.lease X).own
  rw [OwnOk, hX.phase] at hown
  obtain ⟨hreq, hpend, hanchor, htok⟩ := hown
  obtain ⟨hloc, hother⟩ := htok hX.token
  exact ⟨hreq, hpend, hloc, fun ha => (hanchor ha).2, hother⟩

/-- An answer that reaches a port in its normal state has just passed the last port that is
held. -/
theorem last_before (h : Leased C right w g) (hX : Owns C right w g X (.inbox i src) m)
    (hi : right i) (hloc : (w.session.port i).loc = .endOnePath) :
    ∃ b, (g X).before = b ++ [i] := by
  have hop : i = (g X).hop X := hX.place.2 hi
  rcases eq_nil_or_concat_getLastD X (g X).before with ⟨-, he⟩ | ⟨b, hb⟩
  · have hiX : i = X := hop.trans he
    subst hiX
    rcases (h.waits hX.waits).2.2.1 with hl | hl <;> simp [hloc] at hl
  · refine ⟨b, hb.trans ?_⟩
    rw [hop]
    rfl

/-- A port that is held for another anchor has no reconfiguration of its own. -/
theorem idle_of_held (hC : C.Chain right) (h : Leased C right w g) (hi : i ∈ (g X).held) :
    (g i).phase = .idle := by
  have hreq := ((h.lease X).heldBy i hi).requestor
  have hne : i ≠ X := by
    rintro rfl
    exact (List.nodup_cons.mp (h.lease i).nodup).1 hi
  have hX : X ≠ 0 := by
    refine (h.lease X).ne_null hC fun hp => ?_
    rw [(h.lease X).idle hp] at hi
    cases hi
  have hown := (h.lease i).own
  unfold OwnOk at hown
  split at hown
  next hp => exact hp
  next hp => exact absurd (hown.1.symm.trans hreq) hne
  next hp => exact absurd (hreq.symm.trans hown.2.1) hX
  next hp => exact absurd (hreq.symm.trans hown.2.1) hX

/-- The place of an answer that a port hands over. -/
theorem place_back (h : Leased C right w g) (hX : (g X).phase = .asking)
    (hi : right i) {b : List Addr} (hb : (g X).before = b ++ [i]) :
    PlaceOk C right w.session.port (g X).anchor (b.getLastD X) (.outForward i (C.pair i)) := by
  have hlink := (h.lease X).link_before hX hb
  exact ⟨rfl, fun hr => absurd hi hr, fun _ => ⟨hlink.through, hlink.far⟩⟩

theorem act_ackLost (hC : C.Chain right) (h : Leased C right w g)
    (ha : w.Acts C right i (.addr (w.session.port i).farLoc (.ackLock r a d))
      (w.session.port i) [.forward (C.pair i) (.lockTimeout 0 0)] w')
    (hloc : (w.session.port i).loc = .endOnePath) : ∃ g', Leased C right w' g' := by
  obtain ⟨X, hX⟩ := h.owner_addr ha rfl
  have hi : right i := not_not.mp (h.fits ha).2
  obtain ⟨b, hb⟩ := h.last_before hX hi hloc
  refine h.act_pass hC ha hX rfl (b := b) (c := i :: (g X).after) ?_ rfl
    (h.place_back hX.phase hi hb) trivial
  rw [Lease.held, hb, List.append_assoc]
  rfl

theorem act_timeoutAddr (hC : C.Chain right) (h : Leased C right w g)
    (ha : w.Acts C right i (.addr (w.session.port i).farLoc (.lockTimeout 0 0))
      (w.session.port i) [.forward (C.pair i) (.lockTimeout 0 0)] w')
    (hloc : (w.session.port i).loc = .endOnePath) : ∃ g', Leased C right w' g' := by
  obtain ⟨X, hX⟩ := h.owner_addr ha rfl
  have hi : right i := not_not.mp (h.fits ha).2
  obtain ⟨b, hb⟩ := h.last_before hX hi hloc
  refine h.act_pass hC ha hX rfl (b := b) (c := i :: (g X).after) ?_ rfl
    (h.place_back hX.phase hi hb) trivial
  rw [Lease.held, hb, List.append_assoc]
  rfl

theorem act_ackAddr (hC : C.Chain right) (h : Leased C right w g)
    (ha : w.Acts C right i (.addr (w.session.port i).farLoc (.ackLock r a d))
      { w.session.port i with
        lock := { (w.session.port i).lock with lockPending := false, locked := true } }
      [.forward (C.pair i) (.ackLock r a d)] w')
    (hloc : (w.session.port i).loc = .endOnePath) : ∃ g', Leased C right w' g' := by
  obtain ⟨X, hX⟩ := h.owner_addr ha rfl
  have hi : right i := not_not.mp (h.fits ha).2
  obtain ⟨b, hb⟩ := h.last_before hX hi hloc
  have hheld : b ++ i :: (g X).after = (g X).held := by
    rw [Lease.held, hb, List.append_assoc]
    rfl
  have hidle := h.idle_of_held hC (hheld ▸ by simp : i ∈ (g X).held)
  have hkeep {Y : Addr} {L : Lease} (hY : LeaseOk C right w.session.port w.Cause Y L)
      (hL : i = Y → L.phase = .idle) : KeepsLease C right w.session.port Y L i
        { w.session.port i with
          lock := { (w.session.port i).lock with lockPending := false, locked := true } } := by
    refine .of_right hi hL ?_ (fun hmem => ?_) rfl rfl
    · simp [Port.Anchor, hloc]
    · exact ⟨.inl (.inr hloc), .inl rfl, (hY.heldBy i hmem).requestor⟩
  obtain ⟨rfl, rfl, hcomplete, hsum⟩ := hX.msg
  have hold := (h.lease r).retoken hX.waits hheld
    (t := .flight (.outForward i (C.pair i)) (.ackLock r (g r).anchor d))
    ⟨h.place_back hX.phase hi hb, rfl, rfl, by rwa [Lease.held, hheld], (g r).after, rfl, hsum⟩
  have hne : i = r → (g r).phase = .idle := fun he => he ▸ hidle
  refine h.act_token hC ha hX rfl hheld (hkeep (h.lease r) hne).toKeepsPorts
    (fun Y _ => hkeep (h.lease Y) fun he => he ▸ hidle) ?_ (.inl ⟨_, rfl, rfl, rfl⟩)
    (fun g' _ htokens _ => ?_) fun g' _ hi' => absurd hi hi'
  · rw [ha.port]
    exact hold.frame hC (hkeep hold hne) ha.cause
  · intro _ hl
    rw [ha.port, Function.update_self] at hl
    exact absurd (hloc.symm.trans hl) (by rintro ⟨⟩)

/-! ## Ports that are added and given up -/

/-- The lease of an anchor whose request is on its way becomes another one. -/
theorem act_roam {k : Send} {L : Lease} (hC : C.Chain right) (h : Leased C right w g)
    (ha : w.Acts C right i inp q [k] w') (hX : Owns C right w g X π m)
    (hin : inp.place i = some (π, m)) (hunreached : Unreached right w g X)
    (hL : LeaseOk C right w'.session.port w'.Cause X L) (hphase : L.phase = .asking)
    (hanchor : L.anchor = (g X).anchor)
    (hk : k.msg.IsToken = true) (ht : L.token = .flight (k.place i) k.msg)
    (hkeep : ∀ Y, Y ≠ X → KeepsLease C right w.session.port Y (g Y) i q) (hi : right i)
    (hq : ¬ q.Anchor) : ∃ g', Leased C right w' g' := by
  obtain ⟨s', ho, hs⟩ := ha.session
  refine ⟨Function.update g X L, h.act_same hC ha (fun Y => ?_) (fun Y => ?_) (fun Y => ?_)
    (fun _ dst hd => ?_) (fun dst hd => ?_) (fun Y => ?_) ?_ (fun Y q₀ hY => ?_) ?_
    (fun hi' => absurd hi hi')
    fun Y _ he => ?_⟩
  · by_cases hY : Y = X
    · rw [hY, Function.update_self, hphase, hX.phase]
    · rw [Function.update_of_ne hY]
  · by_cases hY : Y = X
    · rw [hY, Function.update_self, hanchor]
    · rw [Function.update_of_ne hY]
  · by_cases hY : Y = X
    · refine .inr ⟨hY ▸ hunreached, fun q₀ hq₀ => ?_⟩
      rw [hY, hX.token] at hq₀
      cases hq₀
    · exact .inl ⟨(hkeep Y hY).toKeepsPorts, by rw [Function.update_of_ne hY]⟩
  · rw [← List.mem_singleton.mp hd] at hk
    cases hk
  · rw [← List.mem_singleton.mp hd] at hk
    cases hk
  · by_cases hY : Y = X
    · rw [hY, Function.update_self]
      exact hL
    · rw [Function.update_of_ne hY, ha.port]
      exact (h.lease Y).frame hC (hkeep Y hY) ha.cause
  · rw [hs]
    refine h.account.act_send ho ha.ready (tokensSent_token hk) (Z := X) ?_ (takes hX hin)
      fun Y hY => h.keepsToken hX hin hY (Function.update_of_ne hY ..)
    rw [Function.update_self, Lease.flight, ht]
  · refine Function.update_of_ne ?_ ..
    rintro rfl
    rw [hX.token] at hY
    cases hY
  · intro _ hloc
    rw [ha.port, Function.update_self] at hloc
    exact absurd (.inl hloc) hq
  · have := h.isToken hX
    rw [he] at hin
    cases hin
    cases this

theorem act_nackAddr (hC : C.Chain right) (h : Leased C right w g)
    (ha : w.Acts C right i (.addr (w.session.port i).farLoc (.nackLock r 0)) q
      [.forward (C.pair i) (.nackLock r 0)] w')
    (hloc : (w.session.port i).loc = .endOnePath) (hq : q.loc = (w.session.port i).loc)
    (hfar : q.farLoc = (w.session.port i).farLoc) (hdelta : q.delta = (w.session.port i).delta) :
    ∃ g', Leased C right w' g' := by
  obtain ⟨X, hX⟩ := h.owner_addr ha rfl
  have hi : right i := not_not.mp (h.fits ha).2
  obtain ⟨b, hb⟩ := h.last_before hX hi hloc
  obtain ⟨rfl, hafter, hne, hcause⟩ := hX.msg
  have hheld : (g r).held = b ++ [i] := by rw [Lease.held, hb, hafter, List.append_nil]
  have hmem : i ∈ (g r).held := by rw [hheld]; simp
  have hidle := h.idle_of_held hC hmem
  have hlink := (h.lease r).link_before hX.phase hb
  set L : Lease :=
    { g r with
      before := b
      after := []
      token := .flight (.outForward i (C.pair i)) (.nackLock r 0) }
  have hold : LeaseOk C right w.session.port w.Cause r L := by
    refine (h.lease r).shrink hX.token hheld ⟨h.place_back hX.phase hi hb, rfl, rfl, ?_, hcause⟩
    rw [show Lease.hop r _ = b.getLastD r from rfl, hlink.far]
    exact hlink.through.ne
  have hanchor : ¬ q.Anchor := by simp [Port.Anchor, hq, hloc]
  have hkeep (Y : Addr) (M : Lease) (hM : i = Y → M.phase = .idle) (hnot : i ∉ M.held) :
      KeepsLease C right w.session.port Y M i q :=
    .of_right hi hM hanchor (fun hmem => absurd hmem hnot) hfar hdelta
  refine h.act_roam hC ha hX rfl (h.unreached hX.phase hafter hne) (L := L) ?_ hX.phase rfl rfl rfl
    (fun Y hY => hkeep Y (g Y) (fun he => he ▸ hidle) fun hmem' => hY ?_) hi hanchor
  · rw [ha.port]
    refine hold.frame hC (hkeep r L (fun he => ?_) ?_) ha.cause
    · show (g r).phase = .idle
      exact he ▸ hidle
    · have := (h.lease r).nodup
      rw [hheld, ← List.cons_append] at this
      simp only [L, Lease.held, List.append_nil]
      exact fun hb' => (List.nodup_append.mp this).2.2 i (List.mem_cons_of_mem _ hb') i
        (List.mem_singleton_self i) rfl
  · exact ((h.lease Y).heldBy i hmem').requestor.symm.trans ((h.lease r).heldBy i hmem).requestor

/-- **A request that is about to be taken reaches no port of another anchor.** -/
theorem free_of_request (hC : C.Chain right) (h : Leased C right w g)
    (ha : w.Acts C right i (.forward (.requestLock r a d)) q out w')
    (hX : Owns C right w g X (.forwarded i) (.requestLock r a d)) (hi : right i)
    (hY : i ∈ (g Y).held) : Y = X := by
  have hhop : (w.session.port (C.pair i)).farLoc = (g X).hop X := (hX.place.1 hi).1.far
  have hcov : (g X).Covers X ((g X).hop X) := Lease.hop_covers hX.phase
  cases hp : (g Y).phase with
  | idle =>
    rw [(h.lease Y).idle hp] at hY
    cases hY
  | asking => exact (h.lease Y).trespass hC (h.lease X) hX.phase (.inl hp) hY (hhop ▸ hcov)
  | granted => exact (h.lease Y).trespass hC (h.lease X) hX.phase (.inr hp) hY (hhop ▸ hcov)
  | canceling =>
    obtain ⟨u, v, huv⟩ := List.append_of_mem hY
    cases u with
    | nil =>
      -- the cancellation would come first
      obtain ⟨s', ho, -⟩ := ha.session
      have hhead : w.session.ahead C i = .requestLock r a d ::
          (s'.at (.forwarded i) ++ w.session.at (.outForward (C.pair i) i)) := by
        unfold Session.ahead
        rw [ho.at_self rfl, List.cons_append]
      have hfirst (ms : List Msg) : ¬ FirstCancel Y (.requestLock r a d :: ms) := by
        intro hf
        rcases firstCancel_cons.mp hf with he | ⟨hn, -⟩
        · cases he
        · exact hn trivial
      rcases h.cancel Y i v hp huv with hf | ⟨-, hf⟩
      · rw [hhead] at hf
        exact absurd hf (hfirst _)
      · rw [hhead, List.cons_append] at hf
        exact absurd hf (hfirst _)
    | cons x u =>
      have hchain := (h.lease Y).chain
      rw [huv, List.cons_append] at hchain
      have hlink := isChain_rel_getLastD hchain
      have hmem : u.getLastD x ∈ (g Y).held := by
        rw [huv]
        exact List.mem_append_left _ (List.getLastD_mem_cons ..)
      rw [← hlink.through.far, hhop] at hmem
      have hreq := ((h.lease Y).heldBy _ hmem).requestor
      rcases (h.lease X).requestor_of_covers hcov with hreq' | ⟨-, hp', -⟩
      · exact hreq.symm.trans hreq'
      · rw [hX.phase] at hp'
        cases hp'

/-- A port that takes a request has no reconfiguration of its own. -/
theorem idle_of_free (hC : C.Chain right) (h : Leased C right w g) (hX : Owns C right w g X π m)
    (hloc : (w.session.port i).loc = .endOnePath)
    (hfree : (w.session.port i).lock.lockPending = false ∨
      X = (w.session.port i).lock.requestor) : (g i).phase = .idle := by
  have hpend (hp : (w.session.port i).lock.lockPending = true) :
      X = (w.session.port i).lock.requestor :=
    hfree.resolve_left fun hf => by simp [hp] at hf
  have hX0 : X ≠ 0 := (h.lease X).ne_null hC (by rw [hX.phase]; nofun)
  have hown := (h.lease i).own
  unfold OwnOk at hown
  split at hown
  next hp => exact hp
  next hp =>
    obtain ⟨hreq, hp', -⟩ := hown
    have he : X = i := (hpend hp').trans hreq
    subst he
    rcases (h.waits hX.waits).2.2.1 with hl | hl <;> simp [hloc] at hl
  next hp => exact absurd ((hpend hown.2.2.1).trans hown.2.1) hX0
  next hp => exact absurd ((hpend hown.2.2.1).trans hown.2.1) hX0

/-- The port that a request reaches is not among those that it has passed. -/
theorem not_passed (h : Leased C right w g) (hX : Owns C right w g X (.forwarded i) m)
    (hi : right i) (hloc : (w.session.port i).loc = .endOnePath) (hafter : (g X).after = []) :
    i ∉ X :: (g X).held := by
  intro hmem
  rcases List.mem_cons.mp hmem with rfl | hmem
  · rcases (h.waits hX.waits).2.2.1 with hl | hl <;> simp [hloc] at hl
  obtain ⟨u, v, huv⟩ := List.append_of_mem hmem
  have hbefore : (g X).before = u ++ i :: v := by rw [← huv, Lease.held, hafter, List.append_nil]
  have hthrough := (h.lease X).through_chain (.inl hX.phase)
  rw [huv] at hthrough
  -- the port before it in the list, and the one before the request
  have he : u.getLastD X = v.getLastD i := by
    rw [← (isChain_rel_getLastD hthrough).far, (hX.place.1 hi).1.far, Lease.hop, hbefore,
      getLastD_append_cons]
  have hnodup := (h.lease X).nodup
  rw [huv, ← List.cons_append] at hnodup
  exact (List.nodup_append.mp hnodup).2.2 _ (List.getLastD_mem_cons ..) _
    (List.getLastD_mem_cons ..) he

theorem act_requestForward (hC : C.Chain right) (h : Leased C right w g)
    (ha : w.Acts C right i (.forward (.requestLock r a d)) q
      [.addr (w.session.port i).farLoc (.requestLock r a (d + (w.session.port i).delta))] w')
    (hloc : (w.session.port i).loc = .endOnePath)
    (hfree : (w.session.port i).lock.lockPending = false ∨ r = (w.session.port i).lock.requestor)
    (hq : q.loc = (w.session.port i).loc) (hfar : q.farLoc = (w.session.port i).farLoc)
    (hdelta : q.delta = (w.session.port i).delta) (hpend : q.lock.lockPending = true)
    (hreq : q.lock.requestor = r) : ∃ g', Leased C right w' g' := by
  obtain ⟨X, hX⟩ := h.owner_forward ha rfl
  have hi : right i := h.fits ha
  obtain ⟨hthrough, hto⟩ := hX.place.1 hi
  obtain ⟨rfl, rfl, hsum⟩ := hX.msg
  have hidle := h.idle_of_free hC hX hloc hfree
  have hanchor : ¬ q.Anchor := by simp [Port.Anchor, hq, hloc]
  have hheld : q.HeldBy r := ⟨.inl (.inr (hq.trans hloc)), .inr hpend, hreq⟩
  have hkeep (Y : Addr) : KeepsLease C right w.session.port Y (g Y) i q :=
    .of_right hi (fun he => he ▸ hidle) hanchor
      (fun hmem => (h.free_of_request hC ha hX hi hmem).symm ▸ hheld) hfar hdelta
  have htok (after : List Addr) : TokenOk C right w'.session.port w'.Cause r
      { g r with
        before := (g r).before ++ [i]
        after := after
        token := .flight (.outAddr i (w.session.port i).farLoc)
          (.requestLock r (g r).anchor (d + (w.session.port i).delta)) } := by
    rw [ha.port]
    have hlast : ((g r).before ++ [i]).getLastD r = i := by rw [getLastD_append_cons]; rfl
    refine ⟨⟨fun _ => ⟨hlast.symm, ?_⟩, fun hr => absurd hi hr⟩, rfl, rfl, ?_⟩
    · rw [show Lease.hop r _ = ((g r).before ++ [i]).getLastD r from rfl, hlast,
        Function.update_self, hfar]
    · have hheld : ∀ x ∈ (g r).before, x ∈ (g r).held := fun x hx => List.mem_append_left _ hx
      have hbefore := (hkeep r).sum_right (h.lease r) hheld
      have happend : rightSum (Function.update w.session.port i q) ((g r).before ++ [i]) =
          rightSum (Function.update w.session.port i q) (g r).before + q.delta := by
        simp [rightSum]
      rw [happend, hbefore, ← hsum, hdelta]
  have hframe : LeaseOk C right w'.session.port w'.Cause r (g r) := by
    rw [ha.port]
    exact (h.lease r).frame hC (hkeep r) ha.cause
  cases hafter : (g r).after with
  | nil =>
    have hpair : ¬ right (C.pair i) := fun hr => (hC.pair i).mp hr hi
    have hcov : (g r).Covers r ((g r).hop r) := Lease.hop_covers hX.phase
    refine h.act_roam hC ha hX rfl (h.unreached hX.phase hafter ?_)
      (hframe.extend hX.waits hafter hi ?_
        (h.not_passed hX hi hloc hafter) ?_ (htok [])) hX.phase rfl rfl rfl (fun Y _ => hkeep Y) hi
      hanchor
    · rw [hto]
      exact hthrough.ne
    · rw [ha.port, Function.update_self]
      exact hheld
    · rw [ha.port]
      exact ⟨((hkeep r).port_through hcov hpair hthrough).1,
        ((hkeep r).port_far (h.lease r) hcov (.inl hX.phase)).trans hto⟩
  | cons x rest =>
    have hlink := (h.lease r).link_after hX.phase hafter
    have hx : x = i := by
      rw [← hC.pair_pair x, ← hlink.far, hto, hC.pair_pair]
    subst hx
    have hheld' : (g r).before ++ [x] ++ rest = (g r).held := by
      rw [Lease.held, hafter, List.append_assoc]
      rfl
    refine h.act_token hC ha hX rfl hheld' (hkeep r).toKeepsPorts (fun Y _ => hkeep Y)
      (hframe.retoken hX.waits hheld' (htok rest)) (.inl ⟨_, rfl, rfl, rfl⟩) (fun g' _ _ _ => ?_)
      fun g' _ hi' => absurd hi hi'
    · intro _ hl
      rw [ha.port, Function.update_self] at hl
      exact absurd (.inl hl) hanchor

/-! ## The ends of a request -/

/-- A new cause to refuse a request. -/
theorem cause_of (h : Leased C right w g) (ha : w.Acts C right i inp q out w')
    (hX : (g X).Waits) (hport : i = X → q = w.session.port X)
    (hc : Contended C right w'.session.port X ∨ NotFound C w'.session.port X) : w'.Cause X := by
  have hXport : w'.session.port X = w.session.port X := by
    rw [ha.port]
    by_cases hi : i = X
    · subst hi
      rw [Function.update_self, hport rfl]
    · rw [Function.update_of_ne (Ne.symm hi)]
  obtain ⟨-, -, hloc, hreq, -⟩ := h.waits hX
  rcases hloc with hloc | hloc
  · refine .inl ((ha.excused X).mpr (.inr ⟨?_, ?_, hc⟩))
    · rw [hXport, hloc]
    · rw [hXport, hreq (.inl hloc)]
  · right
    rw [hXport, hloc]

/-- Beyond a port that passes nothing on nothing is held. -/
theorem after_nil (h : Leased C right w g) (hX : (g X).phase = .asking)
    (hto : (w.session.port ((g X).hop X)).farLoc = i)
    (hi : ¬ (w.session.port i).Passes ∨ i = (g X).anchor) : (g X).after = [] := by
  cases hafter : (g X).after with
  | nil => rfl
  | cons x rest =>
    obtain ⟨hthrough, hfar⟩ := (h.lease X).link_after hX hafter
    rw [hto] at hfar
    rw [← hfar] at hthrough
    rcases hi with hi | hi
    · exact absurd hthrough.passes hi
    · exact absurd hi hthrough.ne

/-- The ports that a request has passed are connected. -/
theorem connected (h : Leased C right w g) (hX : (g X).phase = .asking)
    (hafter : (g X).after = []) : Connected C w.session.port (X :: (g X).before) ∧
      ∀ x ∈ (g X).before, C.pair x ≠ (g X).anchor := by
  have hheld : (g X).held = (g X).before := by rw [Lease.held, hafter, List.append_nil]
  refine ⟨hheld ▸ (h.lease X).far_chain (.inl hX), fun x hx => ?_⟩
  obtain ⟨u, v, huv⟩ := List.append_of_mem hx
  have hthrough := (h.lease X).through_chain (.inl hX)
  rw [hheld, huv] at hthrough
  exact (isChain_rel_getLastD hthrough).ne

theorem act_notFound {k : Msg} (hC : C.Chain right) (h : Leased C right w g)
    (ha : w.Acts C right i (.addr (w.session.port i).farLoc (.requestLock r a d))
      (w.session.port i) [.addr (w.session.port i).farLoc k] w')
    (hloc : (w.session.port i).loc = .onePath) (hne : a ≠ i) (hend : i = C.rightEnd)
    (hk : k = .nackLock r a ∨ k = .lockTimeout r a) : ∃ g', Leased C right w' g' := by
  obtain ⟨X, hX⟩ := h.owner_addr ha rfl
  have hi : ¬ right i := (h.fits ha).2
  obtain ⟨hfar, hto⟩ := hX.place.1 hi
  obtain ⟨rfl, rfl, hsum⟩ := hX.msg
  have hr : r ≠ 0 := (h.lease r).ne_null hC (by rw [hX.phase]; nofun)
  have hlost (ht : k.IsToken = false) : ∃ g', Leased C right w' g' := by
    refine h.act_lose hC ha hX rfl fun k' hk' => ?_
    rw [List.mem_singleton.mp hk']
    refine ⟨ht, ?_⟩
    rcases hk with rfl | rfl <;> exact ⟨nofun, nofun⟩
  rcases hk with rfl | rfl
  · by_cases ha0 : (g r).anchor = 0
    · -- the refusal goes back
      rw [ha0] at ha hne
      have hafter : (g r).after = [] :=
        h.after_nil hX.phase hto (.inl (by simp [Port.Passes, hloc]))
      obtain ⟨hconn, hpair⟩ := h.connected hX.phase hafter
      have hother : (w.session.port r).lock.otherAnchor = (g r).anchor := (h.waits hX.waits).2.2.2.2
      refine h.act_pass hC ha hX (ha0 ▸ rfl) rfl rfl
        ⟨fun hr => absurd hr hi, fun _ => hfar⟩ ⟨rfl, hafter, ?_, ?_⟩
      · rw [show Lease.hop r _ = (g r).hop r from rfl, hto, ha0]
        exact hne.symm
      · refine h.cause_of ha hX.waits (fun he => by rw [he]) (.inr ⟨(g r).before, ?_⟩)
        have hport : w'.session.port = w.session.port := by rw [ha.port, Function.update_eq_self]
        rw [hport, hother, ha0, ← hend]
        exact ⟨hconn, hto, hne.symm, ha0 ▸ hpair⟩
    · exact hlost (by cases hz : (g r).anchor <;> [exact absurd hz ha0; rfl])
  · exact hlost (by cases hz : r <;> [exact absurd hz hr; rfl])

theorem act_notRequested (hC : C.Chain right) (h : Leased C right w g)
    (ha : w.Acts C right i (.addr (w.session.port i).farLoc (.requestLock r i d))
      (w.session.port i) [] w') : ∃ g', Leased C right w' g' := by
  obtain ⟨X, hX⟩ := h.owner_addr ha rfl
  exact h.act_lose hC ha hX rfl nofun

theorem act_requestedAgain (hC : C.Chain right) (h : Leased C right w g)
    (ha : w.Acts C right i (.addr (w.session.port i).farLoc (.requestLock r i d))
      (w.session.port i) [.addr (w.session.port i).farLoc (.ackLock r i 0)] w') :
    ∃ g', Leased C right w' g' := by
  obtain ⟨X, hX⟩ := h.owner_addr ha rfl
  have hi : ¬ right i := (h.fits ha).2
  obtain ⟨hfar, hto⟩ := hX.place.1 hi
  obtain ⟨rfl, hanchor, hsum⟩ := hX.msg
  have hafter := h.after_nil hX.phase hto (.inr hanchor)
  refine h.act_pass hC ha hX rfl rfl rfl ⟨fun hr => absurd hr hi, fun _ => hfar⟩
    ⟨rfl, hanchor, ?_, ?_⟩
  · rw [← hanchor, Lease.held, hafter, List.append_nil]
    exact hto
  · show (0 : Int) = leftSum C w.session.port (g r).after
    rw [hafter]
    rfl

/-- The right anchor is reached. -/
theorem act_requested (hC : C.Chain right) (h : Leased C right w g)
    (ha : w.Acts C right i (.addr (w.session.port i).farLoc (.requestLock r i d)) q
      [.addr (w.session.port i).farLoc (.ackLock r i 0)] w')
    (hq : q.loc = .anchoring) (hother : q.lock.otherAnchor = r) (hnew : q.lock.newDelta = d) :
    ∃ g', Leased C right w' g' := by
  obtain ⟨X, hX⟩ := h.owner_addr ha rfl
  have hi : ¬ right i := (h.fits ha).2
  obtain ⟨hfar, hto⟩ := hX.place.1 hi
  obtain ⟨rfl, hanchor, hsum⟩ := hX.msg
  have hafter := h.after_nil hX.phase hto (.inr hanchor)
  have hheld : (g r).held = (g r).before := by rw [Lease.held, hafter, List.append_nil]
  have hcov : (g r).Covers r ((g r).hop r) := Lease.hop_covers hX.phase
  have hkeep (Y : Addr) : KeepsLease C right w.session.port Y (g Y) i q := by
    refine .of_left (h.lease Y) hi fun p hp ht => ?_
    -- no other lease leads here, and that of the anchor ends here
    have hpr : p = (g r).hop r := ht.far.symm.trans hfar
    have hY : Y = r := (h.lease Y).unique hC (h.lease r) hX.phase hp (hpr ▸ hcov)
    subst hY
    exact absurd hanchor ht.ne
  have hframe : LeaseOk C right w'.session.port w'.Cause r (g r) := by
    rw [ha.port]
    exact (h.lease r).frame hC (hkeep r) ha.cause
  have hto' : (w'.session.port ((g r).hop r)).farLoc = i := by
    rw [ha.port]
    exact ((hkeep r).port_far (h.lease r) hcov (.inl hX.phase)).trans hto
  refine h.act_token hC ha hX rfl rfl (hkeep r).toKeepsPorts (fun Y _ => hkeep Y)
    (t := .flight (.outAddr i (w.session.port i).farLoc) (.ackLock r i 0))
    (hframe.retoken hX.waits rfl ⟨⟨fun hr => absurd hr hi, fun _ => hfar⟩, rfl, hanchor, ?_, ?_⟩)
    (.inl ⟨_, rfl, rfl, rfl⟩) (fun g' _ _ _ hr => absurd hr hi) fun g' hg _ _ => ?_
  · show (w'.session.port ((g r).held.getLastD r)).farLoc = (g r).anchor
    rw [hheld, ← hanchor]
    exact hto'
  · show (0 : Int) = leftSum C w'.session.port (g r).after
    rw [hafter]
    rfl
  · rw [hother]
    constructor
    · rw [hg.phase, hX.phase]
      rintro ⟨⟩
    · rw [hg.anchor, hanchor]
    · intro _
      rw [hg.held, hheld]
      exact hto'
    · intro _
      have hright : rightSum w'.session.port (g r).before =
          rightSum w.session.port (g r).before := by
        rw [ha.port]
        exact (hkeep r).sum_right (h.lease r) fun x hx => List.mem_append_left _ hx
      rw [hg.held, hheld, hright, ← hsum, ha.port, Function.update_self, hnew, hq]
      exact (add_zero d).symm

/-- An answer that reaches an anchor is the answer to its own request. -/
theorem own_answer (h : Leased C right w g) (hX : Owns C right w g X (.inbox i src) m)
    (hi : right i) (hloc : (w.session.port i).loc = .anchoring) : X = i ∧ (g i).before = [] := by
  have hop : i = (g X).hop X := hX.place.2 hi
  rcases eq_nil_or_concat_getLastD X (g X).before with ⟨hnil, he⟩ | ⟨b, hb⟩
  · have hiX : i = X := hop.trans he
    exact ⟨hiX.symm, hiX ▸ hnil⟩
  · have hmem : i ∈ (g X).held := by
      refine List.mem_append_left _ ?_
      rw [hb, hop]
      simp [Lease.hop]
    rcases ((h.lease X).heldBy i hmem).loc with (hl | hl) | hl <;> simp [hloc] at hl

theorem act_retry (hC : C.Chain right) (h : Leased C right w g)
    (ha : w.Acts C right i (.addr (w.session.port i).farLoc (.lockTimeout 0 0))
      (w.session.port i) [.addr (w.session.port i).farLoc
        (.requestLock i (w.session.port i).lock.otherAnchor 0)] w')
    (hloc : (w.session.port i).loc = .anchoring) : ∃ g', Leased C right w' g' := by
  obtain ⟨X, hX⟩ := h.owner_addr ha rfl
  have hi : right i := not_not.mp (h.fits ha).2
  obtain ⟨rfl, hbefore⟩ := h.own_answer hX hi hloc
  refine h.act_pass hC ha hX rfl (b := []) (c := (g X).held) rfl rfl
    ⟨fun _ => ⟨rfl, rfl⟩, fun hr => absurd hi hr⟩ ⟨rfl, (h.waits hX.waits).2.2.2.2, rfl⟩

theorem act_notGranted (hC : C.Chain right) (h : Leased C right w g)
    (ha : w.Acts C right i (.addr (w.session.port i).farLoc (.ackLock r a d))
      (w.session.port i) [] w') : ∃ g', Leased C right w' g' := by
  obtain ⟨X, hX⟩ := h.owner_addr ha rfl
  exact h.act_lose hC ha hX rfl nofun

/-- The left anchor does not try again. -/
theorem act_giveUp (hC : C.Chain right) (h : Leased C right w g)
    (ha : w.Acts C right i (.addr (w.session.port i).farLoc (.lockTimeout 0 0)) q [] w')
    (hloc : (w.session.port i).loc = .anchoring) (hq : q.Normal)
    (hfar : q.farLoc = (w.session.port i).farLoc)
    (hlock : q.lock = { (w.session.port i).lock with requesting := false }) :
    ∃ g', Leased C right w' g' := by
  obtain ⟨X, hX⟩ := h.owner_addr ha rfl
  have hi : right i := not_not.mp (h.fits ha).2
  obtain ⟨rfl, hbefore⟩ := h.own_answer hX hi hloc
  have hanchor : ¬ q.Anchor := not_or.mpr hq.ne
  have hports {L : Lease} (hL : LeaseOk C right w.session.port w.Cause X L) :
      KeepsPorts C right w.session.port X L X q :=
    .of_anchor hL (.inl hloc) fun _ _ _ => hfar
  have hold := (h.lease X).retoken hX.waits rfl (t := .gone) trivial
  refine h.act_token hC ha hX rfl rfl (t := .gone) (hports (h.lease X)) (fun Y hY => ?_) ?_
    (.inr ⟨nofun, nofun⟩) (fun g' _ _ _ _ hl => ?_) fun g' _ hi' => absurd hi hi'
  · exact .of_anchor (h.lease Y) (.inl hloc) fun he => absurd he.symm hY
  · rw [ha.port]
    refine hold.frame hC ⟨hports hold, fun _ => ?_⟩ ha.cause
    obtain ⟨hreq, hpend, -⟩ := h.waits hX.waits
    rw [OwnOk, show Lease.phase _ = (g X).phase from rfl, hX.phase, hlock]
    refine ⟨hreq, hpend, fun hn => absurd hn hanchor, ?_⟩
    rintro (⟨q, hq⟩ | ⟨π, m, hq⟩) <;> cases hq
  · rw [ha.port, Function.update_self] at hl
    exact absurd (.inl hl) hanchor

/-! ## Requests that reach another anchor -/

theorem after_nil_of_anchor (hC : C.Chain right) (h : Leased C right w g)
    (hX : Owns C right w g X (.forwarded i) m) (hi : right i) (hloc : (w.session.port i).Anchor) :
    (g X).after = [] := by
  cases hafter : (g X).after with
  | nil => rfl
  | cons x rest =>
    have hlink := (h.lease X).link_after hX.phase hafter
    have hx : x = i := by
      rw [← hC.pair_pair x, ← hlink.far, (hX.place.1 hi).2, hC.pair_pair]
    have hmem : i ∈ (g X).held := by
      rw [Lease.held, hafter, hx]
      simp
    have := ((h.lease X).heldBy i hmem).loc
    rcases hloc with hloc | hloc <;> rcases this with (hl | hl) | hl <;> simp [hloc] at hl

theorem act_save (hC : C.Chain right) (h : Leased C right w g)
    (ha : w.Acts C right i (.forward (.requestLock r a d)) q [] w')
    (hloc : (w.session.port i).loc = .anchoring) (hsame : (w.session.port i).SameHold q)
    (hq : q.loc = (w.session.port i).loc) (hr : q.lock.requestPendingRequestor = r)
    (ha' : q.lock.requestPendingAnchor = a) (hd : q.lock.requestPendingDelta = d) :
    ∃ g', Leased C right w' g' := by
  obtain ⟨X, hX⟩ := h.owner_forward ha rfl
  have hi : right i := h.fits ha
  obtain ⟨hthrough, hto⟩ := hX.place.1 hi
  obtain ⟨hrX, haX, hsum⟩ := hX.msg
  have hkeep (Y : Addr) : KeepsLease C right w.session.port Y (g Y) i q :=
    .of_same (h.lease Y) hsame (.inl hq)
  have hpair : ¬ right (C.pair i) := fun hr => (hC.pair i).mp hr hi
  have hcov : (g X).Covers X ((g X).hop X) := Lease.hop_covers hX.phase
  have hframe : LeaseOk C right w'.session.port w'.Cause X (g X) := by
    rw [ha.port]
    exact (h.lease X).frame hC (hkeep X) ha.cause
  refine h.act_token hC ha hX rfl rfl (hkeep X).toKeepsPorts (fun Y _ => hkeep Y) (t := .saved i)
    (hframe.retoken hX.waits rfl ⟨hi, h.after_nil_of_anchor hC hX hi (.inl hloc), ?_, ?_⟩)
    (.inr ⟨nofun, nofun⟩) (fun g' _ _ hg' => ?_) fun g' _ hi' => absurd hi hi'
  · rw [ha.port]
    exact ((hkeep X).port_through hcov hpair hthrough).1
  · rw [ha.port]
    exact ((hkeep X).port_far (h.lease X) hcov (.inl hX.phase)).trans hto
  · rw [ha.port]
    intro _ _ _ _
    rw [Function.update_self, hr, ha', hd, hrX, hg']
    refine ⟨rfl, haX, hsum.trans ?_⟩
    exact ((hkeep X).sum_right (h.lease X) fun x hx => List.mem_append_left _ hx).symm

/-- A left anchor that does not wait for its lock has been granted it. -/
theorem leftGranted (h : Leased C right w g) (hi : right i)
    (hloc : (w.session.port i).loc = .anchoring ∧ (w.session.port i).lock.requesting = false ∨
      (w.session.port i).loc = .twoPaths) : LeftGranted right w.session.port i := by
  have hanchor : (w.session.port i).Anchor := hloc.imp And.left id
  refine ⟨hi, hanchor, ?_⟩
  rcases hloc with ⟨-, hreq⟩ | hloc
  · exact hreq
  · have hown := (h.lease i).own
    unfold OwnOk at hown
    split at hown
    next => exact absurd hanchor (hown hi)
    next => exact absurd (hloc.symm.trans (hown.2.2.1 hanchor).1) nofun
    next => exact (hown.2.2.2 hanchor).1
    next => exact hown.2.2.2 hanchor

/-- A request that reaches an anchor that has been granted its lock is refused with a cause. -/
theorem contended {port : Addr → Port} (h : Leased C right w g) (hX : (g X).Waits)
    (hafter : (g X).after = []) (hto : (w.session.port ((g X).hop X)).farLoc = C.pair i)
    (hne : C.pair i ≠ (g X).anchor) (hfar : ∀ x, (port x).farLoc = (w.session.port x).farLoc)
    (hother : (port X).lock.otherAnchor = (w.session.port X).lock.otherAnchor)
    (hgranted : LeftGranted right port i) (hiX : i ≠ X) : Contended C right port X := by
  obtain ⟨hconn, hpair⟩ := h.connected hX.phase hafter
  refine ⟨i, (g X).before, hiX, hgranted, ?_, fun x hx => ?_⟩
  · unfold Connected
    simp only [hfar]
    exact isChain_concat hconn hto
  · rw [hother, (h.waits hX).2.2.2.2]
    rcases List.mem_append.mp hx with hx | hx
    · exact hpair x hx
    · rw [List.mem_singleton.mp hx]
      exact hne

theorem act_refuse (hC : C.Chain right) (h : Leased C right w g)
    (ha : w.Acts C right i (.forward (.requestLock r a d)) (w.session.port i)
      [.forward (C.pair i) (.nackLock r 0)] w')
    (hloc : (w.session.port i).loc = .anchoring ∧ (w.session.port i).lock.requesting = false ∨
      (w.session.port i).loc = .twoPaths) : ∃ g', Leased C right w' g' := by
  obtain ⟨X, hX⟩ := h.owner_forward ha rfl
  have hi : right i := h.fits ha
  have hanchor : (w.session.port i).Anchor := hloc.imp And.left id
  obtain ⟨hthrough, hto⟩ := hX.place.1 hi
  obtain ⟨rfl, rfl, hsum⟩ := hX.msg
  have hport : w'.session.port = w.session.port := by rw [ha.port, Function.update_eq_self]
  refine h.act_pass hC ha hX rfl rfl rfl
    ⟨rfl, fun hr => absurd hi hr, fun _ => ⟨hthrough, hto⟩⟩
    ⟨rfl, h.after_nil_of_anchor hC hX hi hanchor, ?_, ?_⟩
  · rw [show Lease.hop r _ = (g r).hop r from rfl, hto]
    exact hthrough.ne
  · refine h.cause_of ha hX.waits (fun he => by rw [he]) (.inl ?_)
    rw [hport]
    have hgranted := h.leftGranted hi hloc
    refine h.contended hX.waits (h.after_nil_of_anchor hC hX hi hanchor) hto hthrough.ne
      (fun _ => rfl) rfl hgranted ?_
    rintro rfl
    have hreq := hgranted.2.2
    rw [(h.waits hX.waits).2.2.2.1 hanchor] at hreq
    cases hreq

end Moves

end Leased

end Dysco.PortProcess
