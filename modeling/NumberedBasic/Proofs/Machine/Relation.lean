import NumberedBasic.Machine.Run

/-!
# Two actions side by side

Two actions are related when, from related states, both come to their end or
both stop, with related results and states.  Relations between sequences of
actions are put together from those of their parts.
-/

namespace NumberedBasic

/-- Two outcomes of one kind, with related values or related causes. -/
def outcomesRelated {α β ε : Type} (values : α → β → Prop)
    (causes : ε → ε → Prop) : Except ε α → Except ε β → Prop
  | .ok value, .ok value' => values value value'
  | .error cause, .error cause' => causes cause cause'
  | _, _ => False

/-- Two actions that both came to their end with `after`, or both stopped with
`stopped`. -/
def resultsRelated {α β : Type} (after : α → β → State → State → Prop)
    (stopped : Halt → Halt → State → State → Prop) :
    EStateM.Result Halt State α → EStateM.Result Halt State β → Prop
  | .ok value final, .ok value' final' => after value value' final final'
  | .error halt final, .error halt' final' => stopped halt halt' final final'
  | _, _ => False

namespace Exec

variable {α β α' β' : Type}

/-- From every two states related by `before`, the two actions have related
results. -/
def Related (before : State → State → Prop) (first : Exec α)
    (second : Exec β) (after : α → β → State → State → Prop)
    (stopped : Halt → Halt → State → State → Prop) : Prop :=
  ∀ state state', before state state' →
    resultsRelated after stopped (first state) (second state')

variable {before : State → State → Prop}
variable {stopped : Halt → Halt → State → State → Prop}

theorem Related.bind {first : Exec α} {second : Exec β}
    {between : α → β → State → State → Prop} {next : α → Exec α'}
    {next' : β → Exec β'} {after : α' → β' → State → State → Prop}
    (hfirst : Related before first second between stopped)
    (hnext : ∀ value value', Related (between value value') (next value)
      (next' value') after stopped) :
    Related before (first >>= next) (second >>= next') after stopped := by
  intro state state' hbefore
  have hrelated := hfirst state state' hbefore
  change resultsRelated after stopped (EStateM.bind first next state)
    (EStateM.bind second next' state')
  unfold EStateM.bind
  cases hresult : first state with
  | ok value final =>
      cases hresult' : second state' with
      | ok value' final' =>
          rw [hresult, hresult'] at hrelated
          exact hnext value value' final final' hrelated
      | error halt' final' =>
          rw [hresult, hresult'] at hrelated
          exact hrelated.elim
  | error halt final =>
      cases hresult' : second state' with
      | ok value' final' =>
          rw [hresult, hresult'] at hrelated
          exact hrelated.elim
      | error halt' final' =>
          rw [hresult, hresult'] at hrelated
          exact hrelated

theorem Related.weaken {first : Exec α} {second : Exec β}
    {after weakAfter : α → β → State → State → Prop}
    {weakStopped : Halt → Halt → State → State → Prop}
    (hrelated : Related before first second after stopped)
    (hafter : ∀ value value' final final',
      after value value' final final' → weakAfter value value' final final')
    (hstopped : ∀ halt halt' final final',
      stopped halt halt' final final' → weakStopped halt halt' final final') :
    Related before first second weakAfter weakStopped := by
  intro state state' hbefore
  have hboth := hrelated state state' hbefore
  cases hresult : first state <;> cases hresult' : second state' <;>
    rw [hresult, hresult'] at hboth
  · exact hafter _ _ _ _ hboth
  · exact hboth
  · exact hboth
  · exact hstopped _ _ _ _ hboth

theorem Related.ite {condition : Bool} {first second : Exec α}
    {first' second' : Exec β} {after : α → β → State → State → Prop}
    (hfirst : condition = true → Related before first first' after stopped)
    (hsecond : condition = false → Related before second second' after stopped) :
    Related before (if condition then first else second)
      (if condition then first' else second') after stopped := by
  cases condition
  · exact hsecond rfl
  · exact hfirst rfl

theorem Related.modify {change change' : State → State}
    {after : Unit → Unit → State → State → Prop}
    (hchange : ∀ state state', before state state' →
      after () () (change state) (change' state')) :
    Related before (modify change) (modify change') after stopped :=
  fun state state' hbefore => hchange state state' hbefore

theorem Related.ofExcept {outcome : Except Halt α} {outcome' : Except Halt β}
    {values : α → β → Prop} {causes : Halt → Halt → Prop}
    (houtcome : outcomesRelated values causes outcome outcome') :
    Related before (ofExcept outcome) (ofExcept outcome')
      (fun value value' final final' =>
        before final final' ∧ values value value')
      (fun halt halt' final final' =>
        before final final' ∧ causes halt halt') := by
  intro state state' hbefore
  cases outcome <;> cases outcome'
  · exact ⟨hbefore, houtcome⟩
  · exact houtcome.elim
  · exact houtcome.elim
  · exact ⟨hbefore, houtcome⟩

end Exec

end NumberedBasic
