import NumberedBasic.Machine.Run

/-!
# Contracts of actions

What an action promises about the state it ends in, whether it comes to its
end or stops half-way.  A contract of a sequence of actions is put together
from those of its parts; an invariant is the contract that asks for nothing
but what it gives back.
-/

namespace NumberedBasic

namespace Exec

variable {α β : Type}

/-- From every state in which `before` holds, the action comes to its end with
`after` or stops with `stopped`. -/
def Meets (before : State → Prop) (action : Exec α)
    (after : α → State → Prop) (stopped : Halt → State → Prop) : Prop :=
  ∀ state, before state →
    match action state with
    | .ok value final => after value final
    | .error halt final => stopped halt final

/-- The action keeps the invariant, also where it stops, and its result, if
there is one, has the given property. -/
def Keeps (invariant : State → Prop) (action : Exec α)
    (result : α → Prop) : Prop :=
  Meets invariant action (fun value state => invariant state ∧ result value)
    (fun _ state => invariant state)

/-- The result of an action of which nothing but the invariant matters. -/
def anything (_ : α) : Prop := True

theorem Meets.bind {before : State → Prop} {action : Exec α}
    {between : α → State → Prop} {stopped : Halt → State → Prop}
    {next : α → Exec β} {after : β → State → Prop}
    (haction : Meets before action between stopped)
    (hnext : ∀ value, Meets (between value) (next value) after stopped) :
    Meets before (action >>= next) after stopped := by
  intro state hbefore
  have hmet := haction state hbefore
  change match EStateM.bind action next state with
    | .ok value final => after value final
    | .error halt final => stopped halt final
  rw [EStateM.bind]
  cases hresult : action state with
  | ok value final =>
      rw [hresult] at hmet
      exact hnext value final hmet
  | error halt final =>
      rw [hresult] at hmet
      exact hmet

theorem Meets.weaken {before strongBefore : State → Prop} {action : Exec α}
    {after weakAfter : α → State → Prop} {stopped weakStopped : Halt → State → Prop}
    (haction : Meets before action after stopped)
    (hbefore : ∀ state, strongBefore state → before state)
    (hafter : ∀ value state, after value state → weakAfter value state)
    (hstopped : ∀ halt state, stopped halt state → weakStopped halt state) :
    Meets strongBefore action weakAfter weakStopped := by
  intro state hstate
  have hmet := haction state (hbefore state hstate)
  cases hresult : action state with
  | ok value final =>
      rw [hresult] at hmet
      exact hafter value final hmet
  | error halt final =>
      rw [hresult] at hmet
      exact hstopped halt final hmet

/-- What comes after a look at the state may rely on that very state. -/
theorem Meets.get_bind {before : State → Prop} {next : State → Exec α}
    {after : α → State → Prop} {stopped : Halt → State → Prop}
    (hnext : ∀ state, before state → Meets (· = state) (next state) after stopped) :
    Meets before (get >>= next) after stopped :=
  fun state hstate => hnext state hstate state rfl

theorem Meets.modify {before : State → Prop} {change : State → State}
    {after : Unit → State → Prop} {stopped : Halt → State → Prop}
    (hchange : ∀ state, before state → after () (change state)) :
    Meets before (modify change) after stopped :=
  fun state hstate => hchange state hstate

theorem compute_bind_apply (outcome : Memory → Except Halt α)
    (next : α → Exec β) (state : State) :
    (compute outcome >>= next) state =
      match outcome state.toMemory with
      | .ok value => next value state
      | .error halt => .error halt state := by
  have hcompute : compute outcome state =
      ofExcept (outcome state.toMemory) state := rfl
  change EStateM.bind (compute outcome) next state = _
  rw [EStateM.bind, hcompute]
  cases outcome state.toMemory <;> rfl

section Keeps

variable {invariant : State → Prop}

theorem Keeps.bind {action : Exec α} {next : α → Exec β}
    {middle : α → Prop} {result : β → Prop}
    (haction : Keeps invariant action middle)
    (hnext : ∀ value, middle value → Keeps invariant (next value) result) :
    Keeps invariant (action >>= next) result := by
  apply Meets.bind haction
  intro value state hstate
  exact hnext value hstate.2 state hstate.1

theorem Keeps.weaken {action : Exec α} {strong weak : α → Prop}
    (haction : Keeps invariant action strong)
    (hweaker : ∀ value, strong value → weak value) :
    Keeps invariant action weak :=
  Meets.weaken haction (fun _ hstate => hstate)
    (fun value _ hkept => ⟨hkept.1, hweaker value hkept.2⟩)
    (fun _ _ hkept => hkept)

theorem Keeps.pure {result : α → Prop} {value : α} (hvalue : result value) :
    Keeps invariant (Pure.pure value) result :=
  fun _ hstate => ⟨hstate, hvalue⟩

theorem Keeps.throw {result : α → Prop} (halt : Halt) :
    Keeps invariant (throw halt) result :=
  fun _ hstate => hstate

theorem Keeps.fail {result : α → Prop} (error : RunError) :
    Keeps invariant (fail error : Exec α) result :=
  Keeps.throw _

theorem Keeps.get : Keeps invariant (get : Exec State) invariant :=
  fun _ hstate => ⟨hstate, hstate⟩

theorem Keeps.modify {change : State → State}
    (hchange : ∀ state, invariant state → invariant (change state)) :
    Keeps invariant (modify change) anything :=
  Meets.modify fun state hstate => ⟨hchange state hstate, trivial⟩

theorem Keeps.ofExcept (outcome : Except Halt α) :
    Keeps invariant (ofExcept outcome) (fun value => outcome = .ok value) := by
  cases outcome with
  | ok value => exact Keeps.pure rfl
  | error halt => exact Keeps.throw halt

theorem Keeps.ofRun (outcome : Except RunError α) :
    Keeps invariant (ofRun outcome) (fun value => outcome = .ok value) := by
  cases outcome with
  | ok value => exact Keeps.pure rfl
  | error error => exact Keeps.fail error

/-- A computation on the variables changes nothing. -/
theorem Keeps.compute (outcome : Memory → Except Halt α) :
    Keeps invariant (compute outcome) fun value =>
      ∃ state, invariant state ∧ outcome state.toMemory = .ok value := by
  apply Keeps.bind Keeps.get
  intro state hstate
  exact (Keeps.ofExcept _).weaken fun value hvalue => ⟨state, hstate, hvalue⟩

theorem Keeps.ite {condition : Bool} {first second : Exec α}
    {result : α → Prop} (hfirst : Keeps invariant first result)
    (hsecond : Keeps invariant second result) :
    Keeps invariant (if condition then first else second) result := by
  cases condition
  · exact hsecond
  · exact hfirst

theorem Keeps.forM {items : List β} {action : β → Exec Unit}
    (haction : ∀ item ∈ items, Keeps invariant (action item) anything) :
    Keeps invariant (items.forM action) anything := by
  induction items with
  | nil => exact Keeps.pure trivial
  | cons item items ih =>
      apply Keeps.bind (haction item List.mem_cons_self)
      intro _ _
      exact ih fun other hother =>
        haction other (List.mem_cons_of_mem _ hother)

end Keeps

end Exec

end NumberedBasic
