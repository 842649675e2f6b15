import NumberedBasic.Proofs.Machine.Failure

/-!
# What a statement may change

A statement changes the variables that it assigns or dimensions and, by its
kind, some other parts of the state.  Whatever shows none of these is the same
after the statement as before it, also where the statement stops half-way.  An
IF does what the statement does that it comes to.
-/

namespace NumberedBasic

/-- The variables that a statement assigns or dimensions, in whichever branch.
Those of the loops that a NEXT moves on are not among them. -/
def Statement.targets : Statement → List Variable
  | .assign target _ => [target.root]
  | .ifThen _ branch => branch.targets
  | .ifElse _ branch otherwise => branch.targets ++ otherwise.targets
  | .forLoop name _ _ _ => [.scalar name]
  | .read targets => targets.map Place.root
  | .dim arrays => arrays.map fun array => .array array.name
  | _ => []

/-- The parts that a statement changes; an IF changes nothing by itself. -/
def Statement.parts : Statement → List Part
  | .print _ _ _ => [.output]
  | .goto _ => [.next]
  | .forLoop _ _ _ _ => [.loops]
  | .next _ => [.counters, .loops, .next]
  | .read _ => [.dataPosition]
  | .restore _ => [.dataPosition]
  | .stop => [.running]
  | _ => []

/-! ## Through the branches of an IF -/

/-- The condition is computed, and one of two actions is carried out. -/
theorem Exec.branches_apply (condition : Expr) (first second : Exec Unit)
    (state : State) :
    (do if (← eval condition).isTrue then first else second) state =
      match condition.eval state.toMemory with
      | .ok value => if value.isTrue then first state else second state
      | .error halt => .error halt state := by
  change (compute condition.eval >>= _) state = _
  rw [compute_bind_apply]
  cases condition.eval state.toMemory with
  | error halt => rfl
  | ok value =>
      dsimp only
      split <;> rfl

/-- An IF does what the statement does that is reached through it. -/
theorem Statement.exec_reached [Host] (table : Table) (statement : Statement)
    (state : State) :
    (statement.reached state.toMemory).exec table state =
      statement.exec table state := by
  induction statement with
  | ifThen condition branch ih =>
      rw [reached]
      cases hvalue : condition.eval state.toMemory with
      | error halt => rfl
      | ok value =>
          dsimp only
          split
          next htrue =>
            rw [ih, exec, Exec.branches_apply, hvalue]
            exact (if_pos htrue).symm
          next => rfl
  | ifElse condition branch otherwise ihBranch ihOtherwise =>
      rw [reached, exec, Exec.branches_apply]
      cases hvalue : condition.eval state.toMemory with
      | error halt =>
          change (Statement.ifElse _ _ _).exec table state = _
          rw [exec, Exec.branches_apply, hvalue]
      | ok value =>
          dsimp only
          split
          · exact ihBranch
          · exact ihOtherwise
  | _ => rfl

/-- What is inherited by the branches of an IF holds of what is reached. -/
theorem Statement.property_reached {property : Statement → Prop}
    (hthen : ∀ {condition branch}, property (.ifThen condition branch) →
      property branch)
    (helse : ∀ {condition branch otherwise},
      property (.ifElse condition branch otherwise) →
        property branch ∧ property otherwise)
    (memory : Memory) {statement : Statement} (hproperty : property statement) :
    property (statement.reached memory) := by
  induction statement with
  | ifThen condition branch ih =>
      rw [reached]
      split
      · split
        · exact ih (hthen hproperty)
        · exact hproperty
      · exact hproperty
  | ifElse condition branch otherwise ihBranch ihOtherwise =>
      rw [reached]
      split
      · split
        · exact ihBranch (helse hproperty).1
        · exact ihOtherwise (helse hproperty).2
      · exact hproperty
  | _ => exact hproperty

/-- The state in which an action ends or stops. -/
def resultState {α : Type} : EStateM.Result Halt State α → State
  | .ok _ final => final
  | .error _ final => final

theorem Exec.Spares.view_eq {γ : Type} {view : State → γ} {action : Exec Unit}
    (haction : Spares view action) (state : State) :
    view (resultState (action state)) = view state := by
  have hmet := haction (view state) state rfl
  cases hresult : action state with
  | ok _ final =>
      rw [hresult] at hmet
      exact hmet
  | error halt final =>
      rw [hresult] at hmet
      exact hmet.1

/-- A view that shows neither what a statement assigns nor what it changes
besides is the same after it. -/
theorem Statement.view_exec [Host] {γ : Type} {view : State → γ}
    (hnotes : NotesHiddenFrom view) (table : Table) {statement : Statement}
    {state : State}
    (htargets : ∀ target ∈ statement.targets, target.HiddenFrom view)
    (hparts : ∀ part ∈ (statement.reached state.toMemory).parts,
      part.HiddenFrom view) :
    view (resultState (statement.exec table state)) = view state := by
  induction statement with
  | ifThen condition branch ih =>
      rw [exec, Exec.branches_apply]
      rw [reached] at hparts
      cases hvalue : condition.eval state.toMemory with
      | error halt => rfl
      | ok value =>
          rw [hvalue] at hparts
          dsimp only at hparts ⊢
          split
          next htrue =>
            rw [if_pos htrue] at hparts
            exact ih htargets hparts
          next => rfl
  | ifElse condition branch otherwise ihBranch ihOtherwise =>
      rw [targets, List.forall_mem_append] at htargets
      rw [exec, Exec.branches_apply]
      rw [reached] at hparts
      cases hvalue : condition.eval state.toMemory with
      | error halt => rfl
      | ok value =>
          rw [hvalue] at hparts
          dsimp only at hparts ⊢
          split
          next htrue =>
            rw [if_pos htrue] at hparts
            exact ihBranch htargets.1 hparts
          next hfalse =>
            rw [if_neg hfalse] at hparts
            exact ihOtherwise htargets.2 hparts
  | print items separators ending =>
      refine Exec.Spares.view_eq ?_ state
      apply (Exec.spares_compute _).bind
      have houtput := hparts .output List.mem_cons_self
      exact fun _ => .modify fun state => houtput state _
  | assign target value =>
      refine Exec.Spares.view_eq ?_ state
      apply (Exec.spares_compute _).bind
      have hroot := htargets target.root List.mem_cons_self
      exact fun value =>
        Exec.preserves_assign Exec.admits_any hnotes hroot value
  | goto target =>
      refine Exec.Spares.view_eq ?_ state
      refine Exec.Preserves.bind (.ofRun fun _ _ => trivial) ?_
      have hnext := hparts .next List.mem_cons_self
      exact fun index => Exec.preserves_jump hnotes hnext index
  | forLoop name start limit step =>
      refine Exec.Spares.view_eq ?_ state
      have hloops := hparts .loops List.mem_cons_self
      have hscalar := htargets (.scalar name) List.mem_cons_self
      exact Exec.preserves_openFor Exec.admits_any hnotes hloops hscalar start
        limit step
  | next names =>
      refine Exec.Spares.view_eq ?_ state
      change ∀ part ∈ [Part.counters, .loops, .next], _ at hparts
      simp only [List.forall_mem_cons] at hparts
      obtain ⟨hcounters, hloops, hnext, -⟩ := hparts
      exact Exec.spares_nextLoops hnotes hcounters hloops hnext _
  | data values => rfl
  | read places =>
      refine Exec.Spares.view_eq ?_ state
      have hposition := hparts .dataPosition List.mem_cons_self
      rw [targets, List.forall_mem_map] at htargets
      exact .forM fun place hplace => Exec.preserves_readInto Exec.admits_any
        hnotes table hposition (htargets place hplace)
  | restore target =>
      have hposition := hparts .dataPosition List.mem_cons_self
      cases target with
      | none => exact hposition state 0
      | some target => exact hposition state _
  | dim arrays =>
      refine Exec.Spares.view_eq ?_ state
      rw [targets, List.forall_mem_map] at htargets
      exact .forM fun array harray =>
        Exec.preserves_declare Exec.admits_any hnotes (htargets array harray)
  | stop => exact hparts .running List.mem_cons_self state false
  | remark comment => rfl
  | unknown kind => rfl

/-- A part of the state that no variable and no other part is shown with is
the same after a statement that does not change it. -/
theorem Statement.view_exec_of_part [Host] {γ : Type} {view : State → γ}
    {shown : Part} (hnotes : NotesHiddenFrom view)
    (hvariables : ∀ root : Variable, root.HiddenFrom view)
    (hothers : ∀ part ≠ shown, part.HiddenFrom view) (table : Table)
    {statement : Statement} {state : State}
    (hpart : shown ∉ (statement.reached state.toMemory).parts) :
    view (resultState (statement.exec table state)) = view state := by
  apply statement.view_exec hnotes
  · exact fun target _ => hvariables target
  · intro part hmem
    apply hothers part
    rintro rfl
    exact hpart hmem

section Part

variable [Host] (table : Table) {statement : Statement} {state : State}

theorem Statement.dataPosition_exec
    (hpart : .dataPosition ∉ (statement.reached state.toMemory).parts) :
    (resultState (statement.exec table state)).dataPosition =
      state.dataPosition := by
  apply statement.view_exec_of_part (fun _ _ => rfl) _ _ table hpart
  · rintro (_ | _) <;> exact fun _ _ => rfl
  · intro part hother
    cases part with
    | dataPosition => exact absurd rfl hother
    | _ => exact fun _ _ => rfl

theorem Statement.next_exec
    (hpart : .next ∉ (statement.reached state.toMemory).parts) :
    (resultState (statement.exec table state)).next = state.next := by
  apply statement.view_exec_of_part (fun _ _ => rfl) _ _ table hpart
  · rintro (_ | _) <;> exact fun _ _ => rfl
  · intro part hother
    cases part with
    | next => exact absurd rfl hother
    | _ => exact fun _ _ => rfl

theorem Statement.running_exec
    (hpart : .running ∉ (statement.reached state.toMemory).parts) :
    (resultState (statement.exec table state)).running = state.running := by
  apply statement.view_exec_of_part (fun _ _ => rfl) _ _ table hpart
  · rintro (_ | _) <;> exact fun _ _ => rfl
  · intro part hother
    cases part with
    | running => exact absurd rfl hother
    | _ => exact fun _ _ => rfl

end Part

end NumberedBasic
