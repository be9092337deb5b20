import Dysco.LockMoves

/-! # Runs of a session

A step of a session is a move of one port, for an input that its channels offer, or one
message that enters its channel (`Step.cases`).  A property of the messages is kept by the
second kind (`Messages.flush`), so an invariant needs a look at the first kind only.
`exec` runs a session along a list of events and choices.
-/
namespace Dysco.PortProcess

namespace Session
variable (s : Session)

/-! ## What a step changes -/

/-- The port that acts has its new variables and its messages to send; every other is as it was. -/
@[simp] theorem act_port_self (i : Addr) (p : Port) (out : List Send) :
    (s.act i p out).port i = p :=
  Function.update_self ..

@[simp] theorem act_port_of_ne {i j : Addr} (h : j ≠ i) (p : Port) (out : List Send) :
    (s.act i p out).port j = s.port j := Function.update_of_ne h ..

@[simp] theorem act_todo_self (i : Addr) (p : Port) (out : List Send) :
    (s.act i p out).todo i = out := Function.update_self ..

@[simp] theorem act_todo_of_ne {i j : Addr} (h : j ≠ i) (p : Port) (out : List Send) :
    (s.act i p out).todo j = s.todo j := Function.update_of_ne h ..

@[simp] theorem act_addr (i : Addr) (p : Port) (out : List Send) :
    (s.act i p out).addr = s.addr := rfl

@[simp] theorem act_forward (i : Addr) (p : Port) (out : List Send) :
    (s.act i p out).forward = s.forward := rfl

@[simp] theorem popAddr_port (i : Addr) : (s.popAddr i).port = s.port := rfl
@[simp] theorem popAddr_todo (i : Addr) : (s.popAddr i).todo = s.todo := rfl
@[simp] theorem popAddr_forward (i : Addr) : (s.popAddr i).forward = s.forward := rfl

/-- A port that takes a message from the path leaves the rest of that channel, and all others. -/
@[simp] theorem popAddr_addr_self (i : Addr) : (s.popAddr i).addr i = (s.addr i).tail :=
  Function.update_self ..

@[simp] theorem popAddr_addr_of_ne {i j : Addr} (h : j ≠ i) : (s.popAddr i).addr j = s.addr j :=
  Function.update_of_ne h ..

@[simp] theorem popForward_port (i : Addr) : (s.popForward i).port = s.port := rfl
@[simp] theorem popForward_todo (i : Addr) : (s.popForward i).todo = s.todo := rfl
@[simp] theorem popForward_addr (i : Addr) : (s.popForward i).addr = s.addr := rfl

/-- Likewise for the channel between the two ports of a host. -/
@[simp] theorem popForward_forward_self (i : Addr) :
    (s.popForward i).forward i = (s.forward i).tail := Function.update_self ..

@[simp] theorem popForward_forward_of_ne {i j : Addr} (h : j ≠ i) :
    (s.popForward i).forward j = s.forward j := Function.update_of_ne h ..

@[simp] theorem put_port (i : Addr) (m : Send) : (s.put i m).port = s.port := by cases m <;> rfl
@[simp] theorem put_todo (i : Addr) (m : Send) : (s.put i m).todo = s.todo := by cases m <;> rfl

/-- A message that is sent comes last in its channel. -/
@[simp] theorem put_addr_self (i dst : Addr) (m : Msg) :
    (s.put i (.addr dst m)).addr dst = s.addr dst ++ [(i, m)] := Function.update_self ..

@[simp] theorem put_addr_of_ne {dst dst' : Addr} (h : dst' ≠ dst) (i : Addr) (m : Msg) :
    (s.put i (.addr dst m)).addr dst' = s.addr dst' := Function.update_of_ne h ..

@[simp] theorem put_addr_forward (i dst : Addr) (m : Msg) :
    (s.put i (.addr dst m)).forward = s.forward := rfl

/-- So does a message that is handed over. -/
@[simp] theorem put_forward_self (i dst : Addr) (m : Msg) :
    (s.put i (.forward dst m)).forward dst = s.forward dst ++ [m] := Function.update_self ..

@[simp] theorem put_forward_of_ne {dst dst' : Addr} (h : dst' ≠ dst) (i : Addr) (m : Msg) :
    (s.put i (.forward dst m)).forward dst' = s.forward dst' := Function.update_of_ne h ..

@[simp] theorem put_forward_addr (i dst : Addr) (m : Msg) :
    (s.put i (.forward dst m)).addr = s.addr := rfl

@[simp] theorem setTodo_port (i : Addr) (out : List Send) : (s.setTodo i out).port = s.port := rfl
@[simp] theorem setTodo_addr (i : Addr) (out : List Send) : (s.setTodo i out).addr = s.addr := rfl

@[simp] theorem setTodo_forward (i : Addr) (out : List Send) :
    (s.setTodo i out).forward = s.forward := rfl

@[simp] theorem setTodo_todo_self (i : Addr) (out : List Send) : (s.setTodo i out).todo i = out :=
  Function.update_self ..

@[simp] theorem setTodo_todo_of_ne {i j : Addr} (h : j ≠ i) (out : List Send) :
    (s.setTodo i out).todo j = s.todo j := Function.update_of_ne h ..

end Session

/-- What the channels of port `i` offer it, and the session once it is taken. -/
inductive Session.Offers (s : Session) (i : Addr) : Input → Session → Prop
  | own (a : Own) : s.Offers i (.own a) s
  | addr {src : Addr} {m : Msg} {rest : List (Addr × Msg)} (head : s.addr i = (src, m) :: rest) :
      s.Offers i (.addr src m) (s.popAddr i)
  | forward {m : Msg} {rest : List Msg} (head : s.forward i = m :: rest) :
      s.Offers i (.forward m) (s.popForward i)

/-- Offering an input to a port changes channels only. -/
theorem Session.Offers.port {s s' : Session} {i : Addr} {inp : Input} (h : s.Offers i inp s') :
    s'.port = s.port := by
  cases h <;> rfl

/-- It does not send anything either. -/
theorem Session.Offers.todo {s s' : Session} {i : Addr} {inp : Input} (h : s.Offers i inp s') :
    s'.todo = s.todo := by
  cases h <;> rfl

/-- The event in which port `i` takes the input. -/
def Input.event (i : Addr) : Input → Event
  | .own a => .own i a
  | .addr .. => .fromAddr i
  | .forward _ => .fromForward i

/-- **A step is a move of a port, or a message that enters its channel.** -/
theorem Step.cases {C : Config} {s t : Session} {e : Event} (h : Step C s e t) :
    (∃ i inp s' q out, e = inp.event i ∧ s.todo i = [] ∧ s.Offers i inp s' ∧
        .done q out ∈ options C i (s.port i) inp ∧ t = s'.act i q out) ∨
      ∃ i m rest, e = .flush i ∧ s.todo i = m :: rest ∧ t = (s.put i m).setTodo i rest := by
  cases h with
  | own ready option => exact .inl ⟨_, .own _, _, _, _, rfl, ready, .own _, option, rfl⟩
  | fromAddr ready head option =>
    exact .inl ⟨_, .addr _ _, _, _, _, rfl, ready, .addr head, option, rfl⟩
  | fromForward ready head option =>
    exact .inl ⟨_, .forward _, _, _, _, rfl, ready, .forward head, option, rfl⟩
  | flush next => exact .inr ⟨_, _, _, rfl, next, rfl⟩

/-! ## Properties of the messages -/

/-- A message that `i` is about to send has the property of its channel. -/
def Send.Has (A : Addr → Addr → Msg → Prop) (F : Addr → Msg → Prop) (i : Addr) : Send → Prop
  | .addr dst m => A dst i m
  | .forward dst m => F dst m

/-- Every message to `dst` from `src` meets `A dst src`, and every message that is forwarded
to `dst` meets `F dst`. -/
structure Session.Messages (A : Addr → Addr → Msg → Prop) (F : Addr → Msg → Prop) (s : Session) :
    Prop where
  addr : ∀ dst, ∀ x ∈ s.addr dst, A dst x.1 x.2
  forward : ∀ dst, ∀ m ∈ s.forward dst, F dst m
  todo : ∀ i, ∀ m ∈ s.todo i, m.Has A F i

/-- The property holds of the message that is taken. -/
def Input.Has (A : Addr → Addr → Msg → Prop) (F : Addr → Msg → Prop) (i : Addr) : Input → Prop
  | .own _ => True
  | .addr src m => A i src m
  | .forward m => F i m

namespace Session.Messages
variable {A : Addr → Addr → Msg → Prop} {F : Addr → Msg → Prop} {s s' : Session} {i : Addr}

/-- What a port is offered has been in a channel, so it has the property that all messages have. -/
theorem input {inp : Input} (h : s.Messages A F) (ho : s.Offers i inp s') : inp.Has A F i := by
  cases ho with
  | own => trivial
  | addr head => exact h.addr i _ (head ▸ List.mem_cons_self ..)
  | forward head => exact h.forward i _ (head ▸ List.mem_cons_self ..)

/-- **The step lemma for a port that acts**: if all it sends has the property, all messages still
do. -/
theorem act {inp : Input} {q : Port} {out : List Send} (h : s.Messages A F)
    (ho : s.Offers i inp s') (hout : ∀ m ∈ out, m.Has A F i) :
    (s'.act i q out).Messages A F where
  addr dst x hx := by
    cases ho with
    | own => exact h.addr dst x hx
    | addr head =>
      by_cases hd : dst = i
      · subst hd
        rw [act_addr, popAddr_addr_self] at hx
        exact h.addr dst x (List.mem_of_mem_tail hx)
      · rw [act_addr, popAddr_addr_of_ne s hd] at hx
        exact h.addr dst x hx
    | forward => exact h.addr dst x hx
  forward dst m hm := by
    cases ho with
    | own => exact h.forward dst m hm
    | addr head => exact h.forward dst m hm
    | forward head =>
      by_cases hd : dst = i
      · subst hd
        rw [act_forward, popForward_forward_self] at hm
        exact h.forward dst m (List.mem_of_mem_tail hm)
      · rw [act_forward, popForward_forward_of_ne s hd] at hm
        exact h.forward dst m hm
  todo j m hm := by
    by_cases hj : j = i
    · subst hj
      rw [act_todo_self] at hm
      exact hout m hm
    · rw [act_todo_of_ne s' hj, ho.todo] at hm
      exact h.todo j m hm

/-- **The step lemma for a port that sends**: the message moves from its list to a channel. -/
theorem flush {m : Send} {rest : List Send} (h : s.Messages A F) (hnext : s.todo i = m :: rest) :
    ((s.put i m).setTodo i rest).Messages A F where
  addr dst x hx := by
    have hm : m.Has A F i := h.todo i m (hnext ▸ List.mem_cons_self ..)
    cases m with
    | addr dst' m =>
      by_cases hd : dst = dst'
      · subst hd
        rw [setTodo_addr, put_addr_self] at hx
        rcases List.mem_append.mp hx with hx | hx
        · exact h.addr dst x hx
        · rw [List.mem_singleton.mp hx]
          exact hm
      · rw [setTodo_addr, put_addr_of_ne s hd] at hx
        exact h.addr dst x hx
    | forward => exact h.addr dst x hx
  forward dst k hk := by
    have hm : m.Has A F i := h.todo i m (hnext ▸ List.mem_cons_self ..)
    cases m with
    | addr => exact h.forward dst k hk
    | forward dst' m =>
      by_cases hd : dst = dst'
      · subst hd
        rw [setTodo_forward, put_forward_self] at hk
        rcases List.mem_append.mp hk with hk | hk
        · exact h.forward dst k hk
        · rw [List.mem_singleton.mp hk]
          exact hm
      · rw [setTodo_forward, put_forward_of_ne s hd] at hk
        exact h.forward dst k hk
  todo j k hk := by
    by_cases hj : j = i
    · subst hj
      rw [setTodo_todo_self] at hk
      exact h.todo j k (hnext ▸ List.mem_cons_of_mem _ hk)
    · rw [setTodo_todo_of_ne _ hj, put_todo] at hk
      exact h.todo j k hk

/-- A property of the messages may change with the ports. -/
theorem mono {A' : Addr → Addr → Msg → Prop} {F' : Addr → Msg → Prop} (h : s.Messages A F)
    (hA : ∀ dst src m, A dst src m → A' dst src m) (hF : ∀ dst m, F dst m → F' dst m) :
    s.Messages A' F' where
  addr dst x hx := hA _ _ _ (h.addr dst x hx)
  forward dst m hm := hF _ _ (h.forward dst m hm)
  todo i m hm := by
    have := h.todo i m hm
    cases m with
    | addr => exact hA _ _ _ this
    | forward => exact hF _ _ this

end Session.Messages

/-! ## The beginning -/

/-- What holds of all ports before the handshake, also of the one that has begun it, holds of
the ports as a session begins. -/
theorem Config.start_ports {C : Config} {P : Addr → Port → Prop} (h : ∀ i, P i (C.port i))
    (hleft : P C.leftEnd ((C.port C.leftEnd).sendSyn true 0)) (i : Addr) :
    P i (C.start.port i) := by
  by_cases hi : i = C.leftEnd
  · subst hi
    simpa only [start, Function.update_self] using hleft
  · simpa only [start, Function.update_of_ne hi] using h i

/-- The first message is the `syn` of the left endpoint. -/
theorem Config.start_messages {C : Config} {A : Addr → Addr → Msg → Prop} {F : Addr → Msg → Prop}
    (h : A (C.far C.leftEnd) C.leftEnd (.syn true (C.isn C.leftEnd))) : C.start.Messages A F where
  addr _ _ hx := absurd hx List.not_mem_nil
  forward _ _ hm := absurd hm List.not_mem_nil
  todo i m hm := by
    by_cases hi : i = C.leftEnd
    · subst hi
      simp only [start, Function.update_self] at hm
      rw [List.mem_singleton.mp hm]
      exact h
    · simp only [start, Function.update_of_ne hi] at hm
      cases hm

/-! ## Running a session -/

/-- One step: an event, and which of the options it is. -/
def next (C : Config) (s : Session) (e : Event) (k : Nat) : Option Session :=
  match e with
  | .own i a =>
    if s.todo i = [] then
      match (ownOptions C i (s.port i) a)[k]? with
      | some (.done p out) => some (s.act i p out)
      | _ => none
    else none
  | .fromAddr i =>
    if s.todo i = [] then
      match s.addr i with
      | (src, m) :: _ =>
        match (addrOptions C i (s.port i) src m)[k]? with
        | some (.done p out) => some ((s.popAddr i).act i p out)
        | _ => none
      | [] => none
    else none
  | .fromForward i =>
    if s.todo i = [] then
      match s.forward i with
      | m :: _ =>
        match (forwardOptions C i (s.port i) m)[k]? with
        | some (.done p out) => some ((s.popForward i).act i p out)
        | _ => none
      | [] => none
    else none
  | .flush i =>
    match s.todo i with
    | m :: rest => some ((s.put i m).setTodo i rest)
    | [] => none

/-- A run along a list of events. -/
def exec (C : Config) (s : Session) : List (Event × Nat) → Option Session
  | [] => some s
  | (e, k) :: es => (next C s e k).bind fun t => exec C t es

/-- Whatever `next` computes is a step of the session. -/
theorem next_step {C : Config} {s t : Session} {e : Event} {k : Nat} (h : next C s e k = some t) :
    Step C s e t := by
  cases e with
  | own i a =>
    simp only [next] at h
    split at h
    next hr =>
      split at h
      next p out ho =>
        cases h
        exact .own hr (List.mem_of_getElem? ho)
      next => cases h
    next => cases h
  | fromAddr i =>
    simp only [next] at h
    split at h
    next hr =>
      split at h
      next src m rest hhead =>
        split at h
        next p out ho =>
          cases h
          exact .fromAddr hr hhead (List.mem_of_getElem? ho)
        next => cases h
      next => cases h
    next => cases h
  | fromForward i =>
    simp only [next] at h
    split at h
    next hr =>
      split at h
      next m rest hhead =>
        split at h
        next p out ho =>
          cases h
          exact .fromForward hr hhead (List.mem_of_getElem? ho)
        next => cases h
      next => cases h
    next => cases h
  | flush i =>
    simp only [next] at h
    split at h
    next m rest hnext =>
      cases h
      exact .flush hnext
    next => cases h

/-- What `exec` reaches is reachable. -/
theorem exec_reachable {C : Config} {s t : Session} {es : List (Event × Nat)}
    (hs : (sessionSystem C).Reachable s) (h : exec C s es = some t) :
    (sessionSystem C).Reachable t := by
  induction es generalizing s with
  | nil =>
    cases h
    exact hs
  | cons x es ih =>
    obtain ⟨e, k⟩ := x
    simp only [exec] at h
    obtain ⟨u, hu, ht⟩ := Option.bind_eq_some_iff.mp h
    exact ih (hs.tail (next_step hu)) ht

/-- A run that is executed is a run: it reaches what it is seen to reach. -/
theorem exists_run {C : Config} {E : List (Event × Nat)} {P : Session → Bool}
    (h : (exec C C.start E).any P = true) : ∃ s, (sessionSystem C).Reachable s ∧ P s = true := by
  obtain ⟨s, hs, hP⟩ := (Option.any_eq_true _ _).mp h
  exact ⟨s, exec_reachable (.of_init rfl) hs, hP⟩

/-- The same for a step after an executed run. -/
theorem exists_run_step {C : Config} {E : List (Event × Nat)} {e : Event} {k : Nat}
    {P : Session → Session → Bool}
    (h : ((exec C C.start E).any fun s => (next C s e k).any (P s)) = true) :
    ∃ s t, (sessionSystem C).Reachable s ∧ (sessionSystem C).step s e t ∧ P s t = true := by
  obtain ⟨s, hs, h⟩ := exists_run h
  obtain ⟨t, ht, hP⟩ := (Option.any_eq_true _ _).mp h
  exact ⟨s, t, hs, next_step ht, hP⟩

/-- The port that takes the step. -/
def Event.port : Event → Addr
  | .own i _ | .fromAddr i | .fromForward i | .flush i => i

/-- A run all of whose steps are as they should be. -/
def execAll (C : Config) (P : Session → Event → Session → Bool) (s : Session) :
    List (Event × Nat) → Option Session
  | [] => some s
  | (e, k) :: es =>
    (next C s e k).bind fun t => if P s e t = true then execAll C P t es else none

/-- A run with more variables, in which something about them is kept by the steps that are as
they should be. -/
theorem execAll_lift {C : Config} {R : Type} {U : TransitionSystem R Event} {f : R → Session}
    {P : Session → Event → Session → Bool} {Q : R → Prop}
    (hlift : ∀ r e t, Step C (f r) e t → ∃ r', U.step r e r' ∧ f r' = t)
    (hkeep : ∀ r e r', Q r → U.step r e r' → P (f r) e (f r') = true → Q r') {r : R}
    {t : Session} {es : List (Event × Nat)} (hr : U.Reachable r) (hq : Q r)
    (h : execAll C P (f r) es = some t) : ∃ r', U.Reachable r' ∧ Q r' ∧ f r' = t := by
  induction es generalizing r with
  | nil =>
    cases h
    exact ⟨r, hr, hq, rfl⟩
  | cons x es ih =>
    obtain ⟨e, k⟩ := x
    simp only [execAll] at h
    obtain ⟨u, hu, ht⟩ := Option.bind_eq_some_iff.mp h
    obtain ⟨r', hstep, rfl⟩ := hlift r e u (next_step hu)
    split at ht
    next hP => exact ih (hr.tail hstep) (hkeep r e r' hq hstep hP) ht
    next => cases ht

/-- A port takes a message of its far end, and sends one. -/
def receive (i : Addr) : List (Event × Nat) := [(.fromAddr i, 0), (.flush i, 0)]

/-- A port takes a message of the other port of its middlebox, and sends one. -/
def pass (i : Addr) : List (Event × Nat) := [(.fromForward i, 0), (.flush i, 0)]

/-! Ports that are numbered along the session from 1 on: the odd ones face right. -/

def lineFar (i : Nat) : Nat := if i % 2 = 1 then i + 1 else if i = 0 then 1 else i - 1

def linePair (i : Nat) : Nat := if i % 2 = 1 then i - 1 else i + 1

/-- Along a line the two ends of a path face each other: ports with odd numbers look right. -/
theorem odd_lineFar (i : Nat) : lineFar i % 2 = 1 ↔ ¬ i % 2 = 1 := by
  unfold lineFar
  split
  · omega
  · split <;> omega

/-- Numbers of this kind pair up the two ports of a host. -/
theorem linePair_linePair (i : Nat) : linePair (linePair i) = i := by
  unfold linePair
  split <;> split <;> omega

/-- One of them looks left and the other right. -/
theorem odd_linePair (i : Nat) : linePair i % 2 = 1 ↔ ¬ i % 2 = 1 := by
  unfold linePair
  split <;> omega

end Dysco.PortProcess
