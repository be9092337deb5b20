import Dysco.SessionRuns

/-! # Where the messages are

A message is at one place at a time: about to be sent, or in a channel.  What a step does to
the places is said once (`Session.Offers.at_self`, `act_at`, `flush_at_from`, `flush_at_to`).

The tokens are the messages by which a lock is requested and answered.  `Accounted` says who
owns which token: every token there is belongs to one owner, and an owner has one at most.
Both kinds of step keep the account, given that the owners keep it (`Accounted.act`,
`Accounted.flush`).
-/
namespace Dysco.PortProcess

/-- A place for messages. -/
inductive Place where
  /-- Port `i` is about to send to a far end. -/
  | outAddr (i dst : Addr)
  /-- Port `i` is about to send to the other port of its middlebox. -/
  | outForward (i dst : Addr)
  /-- Sent from one far end to the other. -/
  | inbox (dst src : Addr)
  /-- Forwarded by the other port of the middlebox. -/
  | forwarded (dst : Addr)
deriving DecidableEq

/-- The place is before a channel. -/
def Place.IsOut (i : Addr) : Place → Prop
  | .outAddr j _ | .outForward j _ => j = i
  | _ => False

/-- Where a message that `i` is about to send is, and where it goes. -/
def Send.place (i : Addr) : Send → Place
  | .addr dst _ => .outAddr i dst
  | .forward dst _ => .outForward i dst

def Send.target (i : Addr) : Send → Place
  | .addr dst _ => .inbox dst i
  | .forward dst _ => .forwarded dst

def Send.msg : Send → Msg
  | .addr _ m | .forward _ m => m

/-- Where an input comes from. -/
def Input.place (i : Addr) : Input → Option (Place × Msg)
  | .own _ => none
  | .addr src m => some (.inbox i src, m)
  | .forward m => some (.forwarded i, m)

/-- The messages of a list that are at a place. -/
def sendsAt (i : Addr) (out : List Send) (π : Place) : List Msg :=
  out.filterMap fun k => if k.place i = π then some k.msg else none

/-- The messages at a place, oldest first. -/
def Session.at (s : Session) : Place → List Msg
  | .outAddr i dst => sendsAt i (s.todo i) (.outAddr i dst)
  | .outForward i dst => sendsAt i (s.todo i) (.outForward i dst)
  | .inbox dst src => (s.addr dst).filterMap fun x => if x.1 = src then some x.2 else none
  | .forwarded dst => s.forward dst

section Places
variable {s s' : Session} {i : Addr} {inp : Input} {π : Place} {m : Msg}

/-- The message that is offered leaves the place where it was. -/
theorem Session.Offers.at_self (h : s.Offers i inp s') (hp : inp.place i = some (π, m)) :
    s.at π = m :: s'.at π := by
  cases h with
  | own => cases hp
  | addr head =>
    cases hp
    simp [Session.at, head]
  | forward head =>
    cases hp
    simp [Session.at, head]

/-- All other places are as they were. -/
theorem Session.Offers.at_of_ne (h : s.Offers i inp s') (hp : ∀ m, inp.place i ≠ some (π, m)) :
    s'.at π = s.at π := by
  cases h with
  | own => rfl
  | @addr src m rest head =>
    cases π with
    | inbox dst src' =>
      by_cases hd : dst = i
      · subst hd
        have hsrc : src ≠ src' := fun he => hp m (he ▸ rfl)
        simp [Session.at, head, hsrc]
      · simp [Session.at, hd]
    | _ => rfl
  | @forward m rest head =>
    cases π with
    | forwarded dst =>
      have hd : dst ≠ i := fun he => hp m (he ▸ rfl)
      simp [Session.at, hd]
    | _ => rfl

theorem sendsAt_of_not_isOut {out : List Send} (h : ¬ π.IsOut i) : sendsAt i out π = [] := by
  refine List.filterMap_eq_nil_iff.mpr fun k _ => if_neg fun he => h ?_
  rw [← he]
  cases k <;> rfl

/-- What a port sends comes to its places, behind what is there. -/
theorem act_at (hready : s.todo i = []) (q : Port) (out : List Send) (π : Place) :
    (s.act i q out).at π = s.at π ++ sendsAt i out π := by
  cases π with
  | outAddr j dst =>
    by_cases hj : j = i
    · subst hj
      simp [Session.at, hready, sendsAt]
    · rw [sendsAt_of_not_isOut (show ¬ (Place.outAddr j dst).IsOut i from hj)]
      simp [Session.at, hj]
  | outForward j dst =>
    by_cases hj : j = i
    · subst hj
      simp [Session.at, hready, sendsAt]
    · rw [sendsAt_of_not_isOut (show ¬ (Place.outForward j dst).IsOut i from hj)]
      simp [Session.at, hj]
  | inbox dst src =>
    rw [sendsAt_of_not_isOut id, List.append_nil]
    rfl
  | forwarded dst =>
    rw [sendsAt_of_not_isOut id, List.append_nil]
    rfl

variable {k : Send} {rest : List Send}

/-- Sending takes the message from the port's list. -/
theorem flush_at_from (hnext : s.todo i = k :: rest) :
    s.at (k.place i) = k.msg :: ((s.put i k).setTodo i rest).at (k.place i) := by
  cases k <;> simp [Session.at, sendsAt, hnext, Send.place, Send.msg]

/-- And puts it last in its channel. -/
theorem flush_at_to (hnext : s.todo i = k :: rest) :
    ((s.put i k).setTodo i rest).at (k.target i) = s.at (k.target i) ++ [k.msg] := by
  cases k <;> simp [Session.at, Send.target, Send.msg]

/-- No other place is touched. -/
theorem flush_at_of_ne (hnext : s.todo i = k :: rest) (hfrom : π ≠ k.place i)
    (hto : π ≠ k.target i) : ((s.put i k).setTodo i rest).at π = s.at π := by
  cases π with
  | outAddr j dst | outForward j dst =>
    by_cases hj : j = i
    · subst hj
      simp [Session.at, sendsAt, hnext, hfrom.symm]
    · simp [Session.at, hj]
  | inbox dst src =>
    cases k with
    | addr d m =>
      by_cases hd : dst = d
      · subst hd
        have hsrc : i ≠ src := fun he => hto (he ▸ rfl)
        simp [Session.at, hsrc]
      · simp [Session.at, hd]
    | forward => rfl
  | forwarded dst =>
    cases k with
    | addr => rfl
    | forward d m =>
      have hd : dst ≠ d := fun he => hto (he ▸ rfl)
      simp [Session.at, hd]

/-- The list of a port is no channel. -/
theorem Send.target_ne_place (i j : Addr) (k k' : Send) : k.target i ≠ k'.place j := by
  cases k <;> cases k' <;> nofun

theorem Send.isOut_place (i : Addr) (k : Send) : (k.place i).IsOut i := by
  cases k <;> rfl

end Places

/-! ## Tokens -/

/-- The messages by which a lock is requested and answered. -/
def Msg.IsToken : Msg → Bool
  | .requestLock .. | .ackLock .. | .nackLock _ 0 | .lockTimeout 0 0 => true
  | _ => false

/-- The tokens at a place. -/
def Session.tokens (s : Session) (π : Place) : List Msg := (s.at π).filter Msg.IsToken

/-- The tokens among the messages that `i` sends at a place. -/
def tokensSent (i : Addr) (out : List Send) (π : Place) : List Msg :=
  (sendsAt i out π).filter Msg.IsToken

/-- The tokens of a list of messages, one by one. -/
theorem tokensSent_cons (i : Addr) (k : Send) (out : List Send) (π : Place) :
    tokensSent i (k :: out) π =
      (if k.place i = π ∧ k.msg.IsToken = true then [k.msg] else []) ++ tokensSent i out π := by
  unfold tokensSent sendsAt
  rw [List.filterMap_cons]
  by_cases hk : k.place i = π
  · cases ht : k.msg.IsToken <;> simp [hk, ht]
  · simp [hk]

theorem tokensSent_token {i : Addr} {k : Send} (hk : k.msg.IsToken = true) (π : Place) :
    tokensSent i [k] π = if k.place i = π then [k.msg] else [] := by
  rw [tokensSent_cons]
  simp [hk, tokensSent, sendsAt]

/-- Messages that are no tokens leave none. -/
theorem tokensSent_other {i : Addr} {out : List Send} (h : ∀ k ∈ out, k.msg.IsToken = false)
    (π : Place) : tokensSent i out π = [] := by
  induction out with
  | nil => rfl
  | cons k out ih =>
    rw [tokensSent_cons, ih fun k hk => h k (List.mem_cons_of_mem _ hk)]
    simp [h k List.mem_cons_self]

/-- The tokens in a session are those of their owners, with one for each owner at most. -/
structure Accounted (s : Session) (T : Addr → Option (Place × Msg)) : Prop where
  present : ∀ {X π m}, T X = some (π, m) → s.tokens π = [m]
  owned : ∀ {π}, s.tokens π ≠ [] → ∃ X m, T X = some (π, m)
  unique : ∀ {X Y π m m'}, T X = some (π, m) → T Y = some (π, m') → X = Y

/-- An owner keeps its token, or it has been the one that is taken. -/
def KeepsToken (i : Addr) (inp : Input) (t t' : Option (Place × Msg)) : Prop :=
  t' = t ∧ (∀ x, t = some x → inp.place i ≠ some x) ∨
    t' = none ∧ ∀ x, t = some x → inp.place i = some x

/-- A token that is kept is where it was, unless it was offered. -/
theorem KeepsToken.iff {i : Addr} {inp : Input} {t t' : Option (Place × Msg)} {x : Place × Msg}
    (h : KeepsToken i inp t t') : t' = some x ↔ t = some x ∧ inp.place i ≠ some x := by
  rcases h with ⟨rfl, hne⟩ | ⟨rfl, he⟩
  · exact ⟨fun h => ⟨h, hne x h⟩, And.left⟩
  · exact ⟨nofun, fun h => absurd (he x h.1) h.2⟩

namespace Accounted
variable {s s' : Session} {T T' : Addr → Option (Place × Msg)} {i : Addr}

/-- Where no lease has a token there is none. -/
theorem tokens_eq_nil {π : Place} (h : Accounted s T) (hT : ∀ X m, T X ≠ some (π, m)) :
    s.tokens π = [] := by
  by_contra hne
  obtain ⟨X, m, hX⟩ := h.owned hne
  exact hT X m hX

/-- A token at the head of a channel has an owner. -/
theorem owner {inp : Input} {π : Place} {m : Msg} (h : Accounted s T) (ho : s.Offers i inp s')
    (hp : inp.place i = some (π, m)) (hm : m.IsToken = true) : ∃ X, T X = some (π, m) := by
  have htok : s.tokens π = m :: s'.tokens π := by
    rw [Session.tokens, ho.at_self hp, List.filter_cons_of_pos hm]
    rfl
  obtain ⟨X, m', hX⟩ := h.owned (by rw [htok]; exact List.cons_ne_nil _ _)
  have hpres := h.present hX
  rw [htok, List.cons.injEq] at hpres
  exact ⟨X, hpres.1 ▸ hX⟩

/-- **Moves keep the account.**  The owners lose the token that is taken, and one of them has
what is sent. -/
theorem act {inp : Input} {q : Port} {out : List Send} (h : Accounted s T)
    (ho : s.Offers i inp s') (hready : s.todo i = [])
    (hkeep : ∀ Y π m, ¬ π.IsOut i →
      (T' Y = some (π, m) ↔ T Y = some (π, m) ∧ inp.place i ≠ some (π, m)))
    (hnew : ∀ π, π.IsOut i →
      (tokensSent i out π = [] ∧ ∀ Y m, T' Y ≠ some (π, m)) ∨
        ∃ Z m, tokensSent i out π = [m] ∧ T' Z = some (π, m) ∧
          ∀ Y m', T' Y = some (π, m') → Y = Z) :
    Accounted (s'.act i q out) T' := by
  have hready' : s'.todo i = [] := by rw [ho.todo, hready]
  -- what is before a channel has been sent just now
  have hout (π : Place) (hπ : π.IsOut i) :
      (s'.act i q out).tokens π = tokensSent i out π := by
    have hs : s'.at π = [] := by
      cases π with
      | outAddr j d | outForward j d =>
        cases hπ
        simp [Session.at, sendsAt, hready']
      | _ => exact hπ.elim
    rw [Session.tokens, act_at hready', hs]
    rfl
  have hin (π : Place) (hπ : ¬ π.IsOut i) : (s'.act i q out).tokens π = s'.tokens π := by
    rw [Session.tokens, act_at hready', sendsAt_of_not_isOut hπ, List.append_nil]
    rfl
  refine ⟨fun {X π m} hX => ?_, fun {π} hne => ?_, fun {X Y π m m'} hX hY => ?_⟩
  · by_cases hπ : π.IsOut i
    · rw [hout π hπ]
      rcases hnew π hπ with ⟨-, hnone⟩ | ⟨Z, n, hsent, hZ, huniq⟩
      · exact absurd hX (hnone X m)
      · have he := huniq X m hX
        rw [he, hZ] at hX
        rw [hsent]
        cases hX
        rfl
    · obtain ⟨hT, hne⟩ := (hkeep X π m hπ).mp hX
      rw [hin π hπ]
      by_cases hp : ∃ n, inp.place i = some (π, n)
      · -- the place holds the token of `X` only, which is not the one that is taken
        obtain ⟨n, hp⟩ := hp
        have htok : s.tokens π = [m] := h.present hT
        rw [Session.tokens, ho.at_self hp] at htok
        by_cases hn : n.IsToken = true
        · rw [List.filter_cons_of_pos hn] at htok
          obtain ⟨rfl, -⟩ := List.cons.inj htok
          exact absurd hp hne
        · rwa [List.filter_cons_of_neg hn] at htok
      · rw [Session.tokens, ho.at_of_ne fun n hn => hp ⟨n, hn⟩]
        exact h.present hT
  · by_cases hπ : π.IsOut i
    · rw [hout π hπ] at hne
      rcases hnew π hπ with ⟨hsent, -⟩ | ⟨Z, m, -, hZ, -⟩
      · exact absurd hsent hne
      · exact ⟨Z, m, hZ⟩
    · rw [hin π hπ] at hne
      by_cases hp : ∃ n, inp.place i = some (π, n)
      · obtain ⟨n, hp⟩ := hp
        have hs : s.tokens π ≠ [] := by
          rw [Session.tokens, ho.at_self hp]
          by_cases hn : n.IsToken = true
          · rw [List.filter_cons_of_pos hn]
            exact List.cons_ne_nil _ _
          · rwa [List.filter_cons_of_neg hn]
        obtain ⟨X, m, hX⟩ := h.owned hs
        refine ⟨X, m, (hkeep X π m hπ).mpr ⟨hX, fun he => ?_⟩⟩
        -- else the token that is taken were the only one there
        have htok := h.present hX
        have hnm : n = m := by
          rw [hp] at he
          cases he
          rfl
        subst hnm
        have hm : n.IsToken = true :=
          (List.mem_filter.mp (htok ▸ List.mem_singleton_self n : n ∈ s.tokens π)).2
        rw [Session.tokens, ho.at_self hp, List.filter_cons_of_pos hm] at htok
        exact hne (List.cons.inj htok).2
      · have hn := fun n hn => hp ⟨n, hn⟩
        rw [Session.tokens, ho.at_of_ne hn] at hne
        obtain ⟨X, m, hX⟩ := h.owned hne
        exact ⟨X, m, (hkeep X π m hπ).mpr ⟨hX, hn m⟩⟩
  · by_cases hπ : π.IsOut i
    · rcases hnew π hπ with ⟨-, hnone⟩ | ⟨Z, n, -, -, huniq⟩
      · exact absurd hX (hnone X m)
      · exact (huniq X m hX).trans (huniq Y m' hY).symm
    · exact h.unique ((hkeep X π m hπ).mp hX).1 ((hkeep Y π m' hπ).mp hY).1

/-- A port that is ready has sent all its tokens. -/
theorem not_isOut {X : Addr} {π : Place} {m : Msg} (h : Accounted s T) (hready : s.todo i = [])
    (hX : T X = some (π, m)) : ¬ π.IsOut i := by
  intro hπ
  have hs : s.at π = [] := by
    cases π with
    | outAddr j d | outForward j d =>
      cases hπ
      simp [Session.at, sendsAt, hready]
    | _ => exact hπ.elim
  have := h.present hX
  rw [Session.tokens, hs] at this
  cases this

/-- No token is sent. -/
theorem act_drop {inp : Input} {q : Port} {out : List Send} (h : Accounted s T)
    (ho : s.Offers i inp s') (hready : s.todo i = []) (hsent : ∀ π, tokensSent i out π = [])
    (hT : ∀ Y, KeepsToken i inp (T Y) (T' Y)) : Accounted (s'.act i q out) T' := by
  refine h.act ho hready (fun Y π m _ => (hT Y).iff) fun π hπ => .inl ⟨hsent π, fun Y m hY => ?_⟩
  exact h.not_isOut hready ((hT Y).iff.mp hY).1 hπ

/-- One token is sent, and owned by `Z`. -/
theorem act_send {inp : Input} {q : Port} {out : List Send} {k : Send} {Z : Addr}
    (h : Accounted s T) (ho : s.Offers i inp s') (hready : s.todo i = [])
    (hsent : ∀ π, tokensSent i out π = if k.place i = π then [k.msg] else [])
    (hZ : T' Z = some (k.place i, k.msg)) (hZ' : ∀ x, T Z = some x → inp.place i = some x)
    (hT : ∀ Y, Y ≠ Z → KeepsToken i inp (T Y) (T' Y)) : Accounted (s'.act i q out) T' := by
  have hout (Y : Addr) (hY : Y ≠ Z) (π : Place) (hπ : π.IsOut i) (m : Msg) :
      T' Y ≠ some (π, m) :=
    fun he => h.not_isOut hready ((hT Y hY).iff.mp he).1 hπ
  refine h.act ho hready (fun Y π m hπ => ?_) fun π hπ => ?_
  · by_cases hY : Y = Z
    · subst hY
      rw [hZ]
      constructor
      · rintro he
        cases he
        exact absurd (Send.isOut_place i k) hπ
      · rintro ⟨he, hne⟩
        exact absurd (hZ' _ he) hne
    · exact (hT Y hY).iff
  · by_cases hk : k.place i = π
    · subst hk
      refine .inr ⟨Z, k.msg, by rw [hsent, if_pos rfl], hZ, fun Y m' hY => ?_⟩
      by_contra hne
      exact hout Y hne _ hπ m' hY
    · refine .inl ⟨by rw [hsent, if_neg hk], fun Y m hY => ?_⟩
      by_cases hYZ : Y = Z
      · rw [hYZ, hZ] at hY
        cases hY
        exact hk rfl
      · exact hout Y hYZ π hπ m hY

/-- Messages that are no tokens do not matter. -/
theorem flush_other {k : Send} {rest : List Send} (h : Accounted s T) (hnext : s.todo i = k :: rest)
    (hk : k.msg.IsToken = false) : Accounted ((s.put i k).setTodo i rest) T := by
  have htok (π : Place) : ((s.put i k).setTodo i rest).tokens π = s.tokens π := by
    by_cases hfrom : π = k.place i
    · subst hfrom
      rw [Session.tokens, Session.tokens, flush_at_from hnext,
        List.filter_cons_of_neg (by simp [hk])]
    · by_cases hto : π = k.target i
      · subst hto
        rw [Session.tokens, Session.tokens, flush_at_to hnext, List.filter_append]
        simp [hk]
      · rw [Session.tokens, Session.tokens, flush_at_of_ne hnext hfrom hto]
  exact ⟨fun hX => (htok _).trans (h.present hX), fun hne => h.owned (htok _ ▸ hne), h.unique⟩

/-- **A token that enters its channel stays with its owner**, if nobody has one there. -/
theorem flush {k : Send} {rest : List Send} {X : Addr} (h : Accounted s T)
    (hnext : s.todo i = k :: rest) (hX : T X = some (k.place i, k.msg))
    (hfree : ∀ Y m, T Y ≠ some (k.target i, m)) :
    Accounted ((s.put i k).setTodo i rest) (Function.update T X (some (k.target i, k.msg))) := by
  have htoken : k.msg.IsToken = true :=
    (List.mem_filter.mp (h.present hX ▸ List.mem_singleton_self k.msg :
      k.msg ∈ s.tokens (k.place i))).2
  have hne := Send.target_ne_place i i k k
  have hfrom : ((s.put i k).setTodo i rest).tokens (k.place i) = [] := by
    have := h.present hX
    rw [Session.tokens, flush_at_from hnext, List.filter_cons_of_pos htoken] at this
    exact (List.cons.inj this).2
  have hto : ((s.put i k).setTodo i rest).tokens (k.target i) = [k.msg] := by
    rw [Session.tokens, flush_at_to hnext, List.filter_append]
    rw [show (s.at (k.target i)).filter Msg.IsToken = [] from h.tokens_eq_nil hfree]
    simp [htoken]
  have hother (π : Place) (h1 : π ≠ k.place i) (h2 : π ≠ k.target i) :
      ((s.put i k).setTodo i rest).tokens π = s.tokens π := by
    rw [Session.tokens, Session.tokens, flush_at_of_ne hnext h1 h2]
  -- the owners of the other places are the same
  have hT {Y : Addr} {π : Place} {m : Msg}
      (hY : Function.update T X (some (k.target i, k.msg)) Y = some (π, m)) :
      Y = X ∧ π = k.target i ∧ m = k.msg ∨ Y ≠ X ∧ T Y = some (π, m) := by
    by_cases hYX : Y = X
    · subst hYX
      rw [Function.update_self] at hY
      cases hY
      exact .inl ⟨rfl, rfl, rfl⟩
    · rw [Function.update_of_ne hYX] at hY
      exact .inr ⟨hYX, hY⟩
  refine ⟨fun {Y π m} hY => ?_, fun {π} hne' => ?_, fun {Y Z π m m'} hY hZ => ?_⟩
  · rcases hT hY with ⟨-, rfl, rfl⟩ | ⟨hYX, hY⟩
    · exact hto
    · rw [hother π (fun he => hYX (h.unique (he ▸ hY) hX)) fun he => hfree Y m (he ▸ hY)]
      exact h.present hY
  · by_cases h1 : π = k.place i
    · subst h1
      exact absurd hfrom hne'
    · by_cases h2 : π = k.target i
      · exact ⟨X, k.msg, by rw [h2, Function.update_self]⟩
      · rw [hother π h1 h2] at hne'
        obtain ⟨Y, m, hY⟩ := h.owned hne'
        refine ⟨Y, m, ?_⟩
        rw [Function.update_of_ne]
        · exact hY
        · rintro rfl
          rw [hX] at hY
          cases hY
          exact h1 rfl
  · rcases hT hY with ⟨rfl, rfl, -⟩ | ⟨-, hY'⟩ <;> rcases hT hZ with ⟨rfl, hπ, -⟩ | ⟨-, hZ'⟩
    · rfl
    · exact absurd hZ' (hfree _ _)
    · exact absurd (hπ ▸ hY') (hfree _ _)
    · exact h.unique hY' hZ'

end Accounted

end Dysco.PortProcess
