import NumberedBasic.Proofs.Machine.Output
import NumberedBasic.Proofs.Machine.Reachable

/-!
# What an error leaves behind

A statement that handles one thing at a time computes everything it needs
before it changes anything.  Where an error stops it, the state is as it was,
and so is what was put out before; all that comes after is the diagnostic.
-/

namespace NumberedBasic

/-- The variables, the data pointer, the open loops and the statement to go on
with are the same.  What is noted for debugging may differ. -/
structure State.Unchanged (before after : State) : Prop where
  scalars : after.scalars = before.scalars
  arrays : after.arrays = before.arrays
  dataPosition : after.dataPosition = before.dataPosition
  loops : after.loops = before.loops
  next : after.next = before.next

theorem State.Unchanged.refl (state : State) : state.Unchanged state :=
  ⟨rfl, rfl, rfl, rfl, rfl⟩

namespace Exec

variable {α β : Type}

/-- The action changes nothing, whether it comes to its end or stops. -/
def Observes (action : Exec α) : Prop :=
  ∀ before : State, Keeps before.Unchanged action anything

/-- Where an error stops the action, it has changed nothing. -/
def Atomic (action : Exec α) : Prop :=
  ∀ before : State, Meets before.Unchanged action (fun _ _ => True)
    (fun halt after => ∀ error, halt = .error error → before.Unchanged after)

/-- No error stops the action. -/
def Unfailing (action : Exec α) : Prop :=
  Meets (fun _ => True) action (fun _ _ => True)
    (fun halt _ => ∀ error, halt ≠ .error error)

theorem Observes.get : Observes (get : Exec State) :=
  fun _ _ hstate => ⟨hstate, trivial⟩

theorem Observes.ofRun (outcome : Except RunError α) : Observes (ofRun outcome) :=
  fun _ => (Keeps.ofRun outcome).weaken fun _ _ => trivial

theorem Observes.compute (outcome : Memory → Except Halt α) :
    Observes (compute outcome) :=
  fun _ => (Keeps.compute outcome).weaken fun _ _ => trivial

theorem observes_note (added : Note) : Observes (note added) :=
  fun _ => Keeps.modify fun _ hstate => { hstate with }

theorem Observes.bind {action : Exec α} {next : α → Exec β}
    (haction : Observes action) (hnext : ∀ value, Observes (next value)) :
    Observes (action >>= next) :=
  fun before => Keeps.bind (haction before) fun value _ => hnext value before

theorem Observes.atomic {action : Exec α} (haction : Observes action) :
    Atomic action := by
  intro before
  apply Meets.weaken (haction before)
  · exact fun _ hstate => hstate
  · exact fun _ _ _ => trivial
  · exact fun _ _ hstopped _ _ => hstopped

theorem Observes.bind_atomic {action : Exec α} {next : α → Exec β}
    (haction : Observes action) (hnext : ∀ value, Atomic (next value)) :
    Atomic (action >>= next) := by
  intro before
  have hobserves : Meets before.Unchanged action (fun _ => before.Unchanged)
      (fun halt after => ∀ error, halt = .error error →
        before.Unchanged after) := by
    apply Meets.weaken (haction before)
    · exact fun _ hstate => hstate
    · exact fun _ _ hkept => hkept.1
    · exact fun _ _ hstopped _ _ => hstopped
  exact Meets.bind hobserves fun value => hnext value before

theorem Unfailing.atomic {action : Exec α} (haction : Unfailing action) :
    Atomic action := by
  intro before
  apply Meets.weaken haction
  · exact fun _ _ => trivial
  · exact fun _ _ _ => trivial
  · exact fun _ _ hstopped error herror => absurd herror (hstopped error)

theorem Unfailing.bind {action : Exec α} {next : α → Exec β}
    (haction : Unfailing action) (hnext : ∀ value, Unfailing (next value)) :
    Unfailing (action >>= next) := by
  apply Meets.bind haction
  exact fun value state _ => hnext value state trivial

theorem Unfailing.pure (value : α) : Unfailing (Pure.pure value) :=
  fun _ _ => trivial

theorem Unfailing.get : Unfailing (get : Exec State) :=
  fun _ _ => trivial

theorem Unfailing.modify (change : State → State) : Unfailing (modify change) :=
  fun _ _ => trivial

theorem Unfailing.ite {condition : Bool} {first second : Exec α}
    (hfirst : Unfailing first) (hsecond : Unfailing second) :
    Unfailing (if condition then first else second) := by
  cases condition
  · exact hsecond
  · exact hfirst

theorem Atomic.ite {condition : Bool} {first second : Exec α}
    (hfirst : Atomic first) (hsecond : Atomic second) :
    Atomic (if condition then first else second) := by
  cases condition
  · exact hsecond
  · exact hfirst

/-! ## The parts of statements -/

theorem unfailing_jump (index : Int) : Unfailing (jump index) := by
  apply Unfailing.get.bind
  intro _
  exact Unfailing.bind (Unfailing.modify _) fun _ => Unfailing.modify _

theorem atomic_setElement (name : String) (index : List Int) (value : Value) :
    Atomic (setElement name index value) := by
  apply (Observes.compute _).bind_atomic
  intro block
  apply Atomic.ite (observes_note _).atomic
  apply (Observes.compute _).bind_atomic
  exact fun _ => (Unfailing.modify _).atomic

theorem atomic_assign (place : Place) (value : Value) :
    Atomic (assign place value) := by
  rw [assign]
  cases place.indices with
  | nil => exact (Unfailing.modify _).atomic
  | cons first others =>
      apply (Observes.compute _).bind_atomic
      intro _
      apply (Observes.compute _).bind_atomic
      exact fun _ => atomic_setElement _ _ _

theorem atomic_declare [Host] (declaration : Declaration) :
    Atomic (declare declaration) := by
  have hallocate (bounds : List Int) : Atomic (do
      let arrays ← ofRun ((← get).arrays.declare declaration.name bounds)
      modify fun state => { state with arrays := arrays }) := by
    apply Observes.get.bind_atomic
    intro state
    apply (Observes.ofRun _).bind_atomic
    exact fun _ => (Unfailing.modify _).atomic
  apply (Observes.compute _).bind_atomic
  intro bounds
  apply Atomic.ite (Observes.ofRun (.error .negativeDimension)).atomic
  apply Observes.get.bind_atomic
  intro _
  apply Atomic.ite
  · exact (observes_note _).bind_atomic fun _ => hallocate bounds
  · exact hallocate bounds

theorem atomic_openFor (name : String) (start stop : Expr)
    (step : Option Expr) : Atomic (openFor name start stop step) := by
  have hopen (startValue stopValue stepValue : Float) : Unfailing (do
      openLoop ⟨name, startValue, stopValue, stepValue, (← get).pc⟩
      setScalar name (.number startValue)) := by
    apply Unfailing.get.bind
    intro state
    refine Unfailing.bind ?_ fun _ => Unfailing.modify _
    exact Unfailing.bind (Unfailing.modify _) fun _ => Unfailing.modify _
  apply (Observes.compute _).bind_atomic
  intro startValue
  apply (Observes.compute _).bind_atomic
  intro stopValue
  cases step with
  | none => exact (hopen startValue stopValue 1).atomic
  | some step =>
      apply (Observes.compute _).bind_atomic
      exact fun stepValue => (hopen startValue stopValue stepValue).atomic

theorem unfailing_closeLoop (loop : Loop) : Unfailing (closeLoop loop) := by
  apply Unfailing.get.bind
  intro state
  refine Unfailing.bind ?_ fun _ =>
    Unfailing.bind (Unfailing.modify _) fun _ => Unfailing.modify _
  unfold Loops.closed
  split
  · exact Unfailing.pure _
  · exact fun _ _ => nofun

/-- Once its loop is found no error can stop a NEXT. -/
theorem atomic_nextLoop (name : Option String) : Atomic (nextLoop name) := by
  have hfind : Observes (findLoop name) :=
    Observes.get.bind fun _ => Observes.ofRun _
  apply hfind.bind_atomic
  intro loop
  apply Unfailing.atomic
  have hiterate : Unfailing (iterate loop) :=
    Unfailing.bind (Unfailing.modify _) fun _ => Unfailing.pure _
  apply hiterate.bind
  intro moved
  apply (Unfailing.modify _).bind
  intro _
  apply Unfailing.ite
  · exact (unfailing_jump _).bind fun _ => Unfailing.pure _
  · exact (unfailing_closeLoop _).bind fun _ => Unfailing.pure _

/-- One action in turn, or none. -/
theorem Atomic.inTurn {actions : List (Exec Bool)} (hlength : actions.length ≤ 1)
    (hactions : ∀ action ∈ actions, Atomic action) : Atomic (inTurn actions) := by
  cases actions with
  | nil => exact (Unfailing.pure _).atomic
  | cons action others =>
      obtain rfl := List.eq_nil_of_length_eq_zero
        (Nat.le_zero.mp (Nat.le_of_succ_le_succ hlength))
      intro before
      apply Meets.bind (hactions action List.mem_cons_self before)
      intro jumped state _
      cases jumped <;> trivial

theorem Atomic.straight {action : Exec Unit} (haction : Atomic action) :
    Atomic (straight action) := by
  intro before
  exact Meets.bind (haction before) fun _ _ _ => trivial

theorem atomic_nextLoops {names : List (Option String)}
    (hlength : names.length ≤ 1) : Atomic (nextLoops names) := by
  rw [nextLoops_eq_inTurn]
  apply Atomic.inTurn (by rwa [List.length_map])
  rw [List.forall_mem_map]
  exact fun name _ => atomic_nextLoop name

theorem atomic_declarations [Host] {arrays : List Declaration}
    (hlength : arrays.length ≤ 1) : Atomic (arrays.forM declare) := by
  rw [forM_eq_inTurn]
  apply Atomic.inTurn (by rwa [List.length_map])
  rw [List.forall_mem_map]
  exact fun array _ => (atomic_declare array).straight

end Exec

/-! ## Statements -/

/-- The statement changes the state for one item after another. -/
def Statement.handlesSeveral : Statement → Bool
  | .read _ => true
  | .next names => 1 < names.length
  | .dim arrays => 1 < arrays.length
  | _ => false

/-- The statement that is reached through the branches of an IF that are
taken; an IF whose condition fails, or which has no branch to take, is itself
that statement. -/
def Statement.reached (memory : Memory) : Statement → Statement
  | .ifThen condition branch =>
      match condition.eval memory with
      | .ok value =>
          if value.isTrue then branch.reached memory
          else .ifThen condition branch
      | .error _ => .ifThen condition branch
  | .ifElse condition branch otherwise =>
      match condition.eval memory with
      | .ok value =>
          if value.isTrue then branch.reached memory
          else otherwise.reached memory
      | .error _ => .ifElse condition branch otherwise
  | statement => statement

theorem Exec.Atomic.unchanged {action : Exec Unit} (haction : Atomic action)
    {state failed : State} {error : RunError}
    (hfailed : action state = .error (.error error) failed) :
    state.Unchanged failed := by
  have hmet := haction state state (.refl state)
  rw [hfailed] at hmet
  exact hmet error rfl

/-- Where an IF fails, its condition does or the branch that is taken. -/
theorem Exec.failed_of_branches {condition : Expr} {first second : Exec Unit}
    {state failed : State} {halt : Halt}
    (hfailed : (do if (← eval condition).isTrue then first else second) state =
      .error halt failed) :
    condition.eval state.toMemory = .error halt ∧ failed = state ∨
      ∃ value, condition.eval state.toMemory = .ok value ∧
        (if value.isTrue then first else second) state = .error halt failed := by
  change (compute condition.eval >>= _) state = _ at hfailed
  rw [compute_bind_apply] at hfailed
  cases hvalue : condition.eval state.toMemory with
  | error halt =>
      rw [hvalue] at hfailed
      cases hfailed
      exact Or.inl ⟨rfl, rfl⟩
  | ok value =>
      rw [hvalue] at hfailed
      exact Or.inr ⟨value, rfl, hfailed⟩

/-- The statement that is reached has changed nothing if an error stops it,
unless it handles several items. -/
theorem Statement.unchanged_of_error [Host] (table : Table) {statement : Statement}
    {state failed : State} {error : RunError}
    (hone : (statement.reached state.toMemory).handlesSeveral = false)
    (hfailed : statement.exec table state = .error (.error error) failed) :
    state.Unchanged failed := by
  induction statement with
  | print items separators ending =>
      refine Exec.Atomic.unchanged ?_ hfailed
      apply (Exec.Observes.compute _).bind_atomic
      exact fun _ => (Exec.Unfailing.modify _).atomic
  | assign target value =>
      refine Exec.Atomic.unchanged ?_ hfailed
      apply (Exec.Observes.compute _).bind_atomic
      exact fun value => Exec.atomic_assign target value
  | goto target =>
      refine Exec.Atomic.unchanged ?_ hfailed
      apply (Exec.Observes.ofRun _).bind_atomic
      exact fun index => (Exec.unfailing_jump index).atomic
  | ifThen condition branch ih =>
      rcases Exec.failed_of_branches hfailed with
        ⟨-, rfl⟩ | ⟨value, hvalue, hbranch⟩
      · exact .refl _
      · rw [Statement.reached, hvalue] at hone
        dsimp only at hone
        split at hbranch
        next htrue =>
          rw [if_pos htrue] at hone
          exact ih hone hbranch
        next => cases hbranch
  | ifElse condition branch otherwise ihBranch ihOtherwise =>
      rcases Exec.failed_of_branches hfailed with
        ⟨-, rfl⟩ | ⟨value, hvalue, hbranch⟩
      · exact .refl _
      · rw [Statement.reached, hvalue] at hone
        dsimp only at hone
        split at hbranch
        next htrue =>
          rw [if_pos htrue] at hone
          exact ihBranch hone hbranch
        next hfalse =>
          rw [if_neg hfalse] at hone
          exact ihOtherwise hone hbranch
  | forLoop name start limit step =>
      exact (Exec.atomic_openFor name start limit step).unchanged hfailed
  | next names =>
      have hlength : (nextTargets names).length ≤ 1 := by
        have hnames : ¬1 < names.length := of_decide_eq_false hone
        cases names with
        | nil => exact Nat.le_refl 1
        | cons name others => simpa [nextTargets] using hnames
      exact (Exec.atomic_nextLoops hlength).unchanged hfailed
  | data values => cases hfailed
  | read targets => cases hone
  | restore target => cases target <;> cases hfailed
  | dim arrays =>
      have hlength : ¬1 < arrays.length := of_decide_eq_false hone
      exact (Exec.atomic_declarations (Nat.not_lt.mp hlength)).unchanged hfailed
  | stop => cases hfailed
  | remark comment => cases hfailed
  | unknown kind =>
      cases hfailed
      exact .refl _

/-! ## Runs -/

/-- An error that stops a run leaves what was put out before, one entry at
most for every dispatch that was completed, and adds one diagnostic.  It shows
the number of the line at hand, if that has one.  Unless the statement that
failed handles several items, it has changed nothing. -/
theorem Progress.after_error [Host] (program : Program) {count : Nat}
    {state failed : State} {line : Line} {error : RunError}
    (hrunning : after (Table.ofProgram program) count = .running state line)
    (hfailed : state.dispatch (Table.ofProgram program) line =
      .error (.error error) failed) :
    let table := Table.ofProgram program
    let final := failed.stopWith line error
    after table (count + 1) = .ended final ∧
    final.pc = state.pc ∧ table.line? state.pc = some line ∧
    final.output.toList = (List.range count).flatMap (written table) ++
      [Diagnostic.text ⟨error.message, line.number⟩] ∧
    (∀ earlier < count, ∃ before lineBefore completed,
      after table earlier = .running before lineBefore ∧
      before.dispatch table lineBefore = .ok () completed ∧
      completed.output.toList = before.output.toList ++ written table earlier ∧
      (written table earlier).length ≤ 1) ∧
    ((line.statement.reached state.toMemory).handlesSeveral = false →
      failed.scalars = state.scalars ∧ failed.arrays = state.arrays ∧
      failed.dataPosition = state.dataPosition ∧ failed.loops = state.loops ∧
      failed.next = state.pc + 1) := by
  intro table final
  have hsound : (after table count).Sound table := sound_after program count
  have hline := hsound.at_hand state line hrunning
  have hstate : state.Sound table := by
    have hreached := hsound.state
    rwa [hrunning] at hreached
  have hpc := hstate.dispatch hline
  rw [hfailed] at hpc
  refine ⟨?_, hpc.2, hline, ?_, ?_, ?_⟩
  · rw [after_succ, hrunning, advance, hfailed]
    rfl
  · have houtput : failed.output = state.output :=
      State.output_of_stopped hfailed
    rw [← output_of_running hrunning, ← houtput]
    exact Array.toList_push
  · intro earlier hearlier
    obtain ⟨before, lineBefore, completed, hbefore, hdispatch⟩ :=
      completed_before hrunning hearlier
    obtain ⟨hlength, houtput, -⟩ := written_of_completed hbefore hdispatch
    exact ⟨before, lineBefore, completed, hbefore, hdispatch, houtput, hlength⟩
  · intro hone
    -- the statement is carried out once the next place is noted
    let entered : State := { state with next := state.pc + 1 }
    have hunchanged : entered.Unchanged failed :=
      Statement.unchanged_of_error table (show
        (line.statement.reached entered.toMemory).handlesSeveral = false
        from hone) hfailed
    exact ⟨hunchanged.scalars, hunchanged.arrays, hunchanged.dataPosition,
      hunchanged.loops, hunchanged.next⟩

/-- A text is printed; the branch of an IF then looks for a missing line. -/
def missingTarget : Program :=
  [⟨some 10, .print [.text "A"] [] (some .semicolon)⟩,
    ⟨some 20, .ifThen (.text "B") (.goto (some 30))⟩]

theorem Progress.after_error_of_missingTarget :
    ∃ final, after (Table.ofProgram missingTarget) 2 = .ended final ∧
      final.output.toList =
        ["A", "Runtime Error: Undefined line number: 30 in 20\n"] ∧
      final.loops = [] ∧ final.next = 2 := by
  let state : State :=
    { State.fresh with
      pc := 1
      next := 1
      running := true
      output := #["A"]
      notes := #[.organised 2 0] }
  let line : Line := ⟨some 20, .ifThen (.text "B") (.goto (some 30))⟩
  have hrunning : after (Table.ofProgram missingTarget) 1 =
      .running state line := by rfl
  have hfailed : state.dispatch (Table.ofProgram missingTarget) line =
      .error (.error (.undefinedLine (some 30)))
        { state with next := state.pc + 1 } := by rfl
  obtain ⟨hended, -, -, houtput, -, hunchanged⟩ :=
    after_error missingTarget hrunning hfailed
  obtain ⟨-, -, -, hloops, hnext⟩ := hunchanged rfl
  exact ⟨_, hended, houtput.trans rfl, hloops, hnext⟩

end NumberedBasic
