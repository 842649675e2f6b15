import Mathlib.Data.List.Forall2
import NumberedBasic.Proofs.Machine.Alignment
import NumberedBasic.Proofs.Machine.Invariant
import NumberedBasic.Proofs.Machine.Items

/-!
# Statements keep states aligned

An action tracks another if, from aligned states, the two do the same and end
in aligned states.  Every action of a statement tracks itself, and so every
statement tracks its renumbered form.
-/

namespace NumberedBasic

namespace Exec

variable {α β α' β' : Type} {alignment : Alignment}
variable {Course : Int × Bool → Int × Bool → Prop} {pc pc' : Int}

/-- From aligned states the two actions end in aligned states of the same kind
of course, with related results, or stop for answering causes. -/
def Tracks (alignment : Alignment) (Course : Int × Bool → Int × Bool → Prop)
    (pc pc' : Int) (first : Exec α) (second : Exec β)
    (result : α → β → Prop) : Prop :=
  Related (alignment.States Course pc pc') first second
    (fun value value' state state' =>
      alignment.States Course pc pc' state state' ∧ result value value')
    (alignment.Stops pc pc')

/-- The results of two actions of which nothing matters. -/
def anyResults (_ : α) (_ : β) : Prop := True

/-- What comes after tracking actions need not be tracking itself. -/
theorem Tracks.bind {first : Exec α} {second : Exec β}
    {middle : α → β → Prop} {next : α → Exec α'} {next' : β → Exec β'}
    {after : α' → β' → State → State → Prop}
    (hfirst : Tracks alignment Course pc pc' first second middle)
    (hnext : ∀ value value', middle value value' →
      Related (alignment.States Course pc pc') (next value) (next' value')
        after (alignment.Stops pc pc')) :
    Related (alignment.States Course pc pc') (first >>= next)
      (second >>= next') after (alignment.Stops pc pc') := by
  apply Related.bind hfirst
  intro value value' state state' hbetween
  exact hnext value value' hbetween.2 state state' hbetween.1

theorem Tracks.pure {result : α → β → Prop} {value : α} {value' : β}
    (hvalues : result value value') :
    Tracks alignment Course pc pc' (Pure.pure value) (Pure.pure value')
      result :=
  fun _ _ hstates => ⟨hstates, hvalues⟩

theorem Tracks.get :
    Tracks alignment Course pc pc' get get
      (alignment.States Course pc pc') :=
  fun _ _ hstates => ⟨hstates, hstates⟩

theorem Tracks.bind_eq {first second : Exec α} {next : α → Exec α'}
    {next' : α → Exec β'} {after : α' → β' → State → State → Prop}
    (hfirst : Tracks alignment Course pc pc' first second (· = ·))
    (hnext : ∀ value, Related (alignment.States Course pc pc') (next value)
      (next' value) after (alignment.Stops pc pc')) :
    Related (alignment.States Course pc pc') (first >>= next)
      (second >>= next') after (alignment.Stops pc pc') := by
  apply Tracks.bind hfirst
  intro value value' hvalues
  subst hvalues
  exact hnext value

theorem Tracks.andThen {first : Exec α} {second : Exec β} {next : Exec α'}
    {next' : Exec β'} {after : α' → β' → State → State → Prop}
    (hfirst : Tracks alignment Course pc pc' first second anyResults)
    (hnext : Related (alignment.States Course pc pc') next next' after
      (alignment.Stops pc pc')) :
    Related (alignment.States Course pc pc') (do let _ ← first; next)
      (do let _ ← second; next') after (alignment.Stops pc pc') :=
  Tracks.bind hfirst fun _ _ _ => hnext

theorem Tracks.modify {change change' : State → State}
    (hchange : ∀ state state', alignment.States Course pc pc' state state' →
      alignment.States Course pc pc' (change state) (change' state')) :
    Tracks alignment Course pc pc' (modify change) (modify change')
      anyResults :=
  Related.modify fun state state' hstates =>
    ⟨hchange state state' hstates, trivial⟩

theorem Tracks.fail {error error' : RunError} {result : α → β → Prop}
    (herror : error' = error.renumber alignment.number) :
    Tracks alignment Course pc pc' (fail error) (fail error') result :=
  fun _ _ hstates =>
    ⟨congrArg Halt.error herror, hstates.weaken fun _ _ _ => trivial⟩

theorem Tracks.ofExcept {outcome : Except Halt α} {outcome' : Except Halt β}
    {values : α → β → Prop}
    (houtcome : outcomesRelated values
      (fun halt halt' => halt' = halt.renumber alignment.number)
      outcome outcome') :
    Tracks alignment Course pc pc' (ofExcept outcome) (ofExcept outcome')
      values := by
  apply Related.weaken (Related.ofExcept houtcome)
  · exact fun _ _ _ _ hboth => hboth
  · exact fun _ _ _ _ hboth =>
      ⟨hboth.2, hboth.1.weaken fun _ _ _ => trivial⟩

theorem Tracks.ofRun {outcome : Except RunError α}
    {outcome' : Except RunError β} {values : α → β → Prop}
    (houtcome : outcomesRelated values
      (fun error error' => error' = error.renumber alignment.number)
      outcome outcome') :
    Tracks alignment Course pc pc' (ofRun outcome) (ofRun outcome') values := by
  cases outcome <;> cases outcome'
  · exact Tracks.fail houtcome
  · exact houtcome.elim
  · exact houtcome.elim
  · exact Tracks.pure houtcome

/-- Aligned states have the same variables, so that the same is computed. -/
theorem Tracks.compute {outcome : Memory → Except Halt α}
    (houtcome : ∀ memory, failsInEvaluation (outcome memory)) :
    Tracks alignment Course pc pc' (compute outcome) (compute outcome)
      (· = ·) := by
  apply Tracks.bind Tracks.get
  intro state state' hstates
  rw [hstates.memory]
  apply Tracks.ofExcept
  cases hresult : outcome state.toMemory with
  | ok value => rfl
  | error halt =>
      exact (Halt.renumber_of_ofEvaluation _ (houtcome _ _ hresult)).symm

/-! ## Actions that keep the course -/

theorem tracks_note (added added' : Note) :
    Tracks alignment Course pc pc' (note added) (note added') anyResults :=
  Tracks.modify fun _ _ hstates => { hstates with }

theorem tracks_write (entry : String) :
    Tracks alignment Course pc pc' (write entry) (write entry) anyResults :=
  Tracks.modify fun _ _ hstates =>
    { hstates with output := congrArg (·.push entry) hstates.output }

theorem tracks_setScalar (name : String) (value : Value) :
    Tracks alignment Course pc pc' (setScalar name value)
      (setScalar name value) anyResults :=
  Tracks.modify fun _ _ hstates =>
    { hstates with
      memory := congrArg
        (fun memory => { memory with scalars := memory.scalars.set name value })
        hstates.memory }

theorem tracks_setArrays (arrays : Arrays) :
    Tracks alignment Course pc pc'
      (modify fun state => { state with arrays := arrays })
      (modify fun state => { state with arrays := arrays }) anyResults :=
  Tracks.modify fun _ _ hstates =>
    { hstates with
      memory := congrArg (fun memory => { memory with arrays := arrays })
        hstates.memory }

theorem tracks_setDataPosition (position : Nat) :
    Tracks alignment Course pc pc'
      (modify fun state => { state with dataPosition := position })
      (modify fun state => { state with dataPosition := position })
      anyResults :=
  Tracks.modify fun _ _ hstates => { hstates with dataPosition := rfl }

/-- The loop of the other run, with a way back into the table. -/
def answeringLoops (alignment : Alignment) (loop loop' : Loop) : Prop :=
  loop' = loop.moved alignment.index ∧
    alignment.Place (loop.forIndex + 1) (alignment.index loop.forIndex + 1)

theorem tracks_findLoop (name : Option String) :
    Tracks alignment Course pc pc' (findLoop name) (findLoop name)
      (answeringLoops alignment) := by
  apply Tracks.bind Tracks.get
  intro state state' hstates
  apply Tracks.ofRun
  rw [hstates.loops, Loops.find_moved]
  cases hfound : state.loops.find name with
  | ok loop => exact ⟨rfl, hstates.loops_lead loop (Loops.mem_of_find hfound)⟩
  | error error =>
      cases Loops.error_of_find hfound
      rfl

theorem tracks_iterate {loop loop' : Loop}
    (hloops : answeringLoops alignment loop loop') :
    Tracks alignment Course pc pc' (iterate loop) (iterate loop')
      fun moved moved' => moved = (loop.advance, loop.advance.continues) ∧
        moved' = (loop.advance.moved alignment.index, moved.2) := by
  obtain ⟨rfl, hlead⟩ := hloops
  apply Tracks.andThen
  · apply Tracks.modify
    intro state state' hstates
    refine { hstates with loops := ?_, loops_lead := ?_ }
    · change state'.loops.changed (loop.advance.moved alignment.index) = _
      rw [hstates.loops, Loops.changed_moved]
    · intro other hother
      obtain ⟨old, hold, rfl⟩ := List.mem_map.mp hother
      split
      · exact hlead
      · exact hstates.loops_lead old hold
  · exact Tracks.pure ⟨rfl, rfl⟩

theorem tracks_closeLoop (loop : Loop) :
    Tracks alignment Course pc pc' (closeLoop loop)
      (closeLoop (loop.moved alignment.index)) anyResults := by
  apply Tracks.bind Tracks.get
  intro state state' hstates
  refine Tracks.bind (?_ : Tracks _ _ _ _ _ _ fun remaining remaining' =>
    remaining' = remaining.map (Loop.moved alignment.index) ∧
      ∀ other ∈ remaining, other ∈ state.loops) ?_
  · apply Tracks.ofExcept
    rw [hstates.loops, Loops.closed_moved]
    unfold Loops.closed
    split
    · exact ⟨rfl, fun other hother => List.mem_of_mem_filter hother⟩
    · rfl
  · rintro remaining remaining' ⟨rfl, hremaining⟩
    apply Tracks.andThen _ (tracks_note _ _)
    exact Tracks.modify fun _ _ hcurrent =>
      { hcurrent with
        loops := rfl
        loops_lead := fun other hother =>
          hstates.loops_lead other (hremaining other hother) }

theorem tracks_readData {table table' : Table}
    (hdata : table'.data = table.data) :
    Tracks alignment Course pc pc' (readData table) (readData table')
      (· = ·) := by
  apply Tracks.bind Tracks.get
  intro state state' hstates
  rw [hdata, hstates.dataPosition]
  dsimp only
  split
  · exact Tracks.andThen (tracks_setDataPosition _) (Tracks.pure rfl)
  · exact Tracks.fail rfl

theorem tracks_setElement (name : String) (at_ : List Int) (value : Value) :
    Tracks alignment Course pc pc' (setElement name at_ value)
      (setElement name at_ value) anyResults := by
  apply Tracks.bind_eq (Tracks.compute fun memory =>
    memory.arrays.failsInEvaluation_block name)
  intro block
  apply Related.ite
  · exact fun _ => tracks_note _ _
  · intro _
    apply Tracks.bind_eq (Tracks.compute fun memory =>
      memory.arrays.failsInEvaluation_set name at_ value)
    intro arrays
    exact tracks_setArrays arrays

theorem tracks_assign (place : Place) (value : Value) :
    Tracks alignment Course pc pc' (assign place value) (assign place value)
      anyResults := by
  rw [assign]
  cases place.indices with
  | nil => exact tracks_setScalar _ _
  | cons first others =>
      apply Tracks.bind (Tracks.compute fun memory =>
        memory.arrays.failsInEvaluation_block place.name)
      intro _ _ _
      apply Tracks.bind_eq (Tracks.compute fun memory =>
        failsInEvaluation_evalIndices memory .arrayIndex (first :: others))
      intro index
      exact tracks_setElement _ _ _

theorem tracks_readInto {table table' : Table}
    (hdata : table'.data = table.data) (target : Place) :
    Tracks alignment Course pc pc' (readInto table target)
      (readInto table' target) anyResults := by
  apply Tracks.bind_eq (tracks_readData hdata)
  intro value
  exact tracks_assign target value

theorem tracks_declare [Host] (declaration : Declaration) :
    Tracks alignment Course pc pc' (declare declaration)
      (declare declaration) anyResults := by
  have hallocate (bounds : List Int) : Tracks alignment Course pc pc'
      (do
        let arrays ← ofRun ((← get).arrays.declare declaration.name bounds)
        modify fun state => { state with arrays := arrays })
      (do
        let arrays ← ofRun ((← get).arrays.declare declaration.name bounds)
        modify fun state => { state with arrays := arrays })
      anyResults := by
    apply Tracks.bind Tracks.get
    intro state state' hstates
    rw [hstates.memory]
    apply Tracks.bind_eq
    · apply Tracks.ofRun
      cases hdeclare : state.arrays.declare declaration.name bounds with
      | ok arrays => rfl
      | error error =>
          rcases Arrays.error_of_declare hdeclare with rfl | rfl <;> rfl
    · exact tracks_setArrays
  apply Tracks.bind_eq (Tracks.compute fun memory =>
    failsInEvaluation_evalIndices memory .arrayDimension declaration.bounds)
  intro bounds
  apply Related.ite
  · exact fun _ => Tracks.fail rfl
  · intro _
    apply Tracks.bind Tracks.get
    intro state state' hstates
    rw [hstates.memory]
    apply Related.ite
    · intro _
      exact Tracks.andThen (tracks_note _ _) (hallocate bounds)
    · exact fun _ => hallocate bounds

/-! ## Actions that may change the course -/

/-- Courses that do not tell different things about going on at all. -/
def AgreeOnEnd (Course : Int × Bool → Int × Bool → Prop) : Prop :=
  ∀ course course', Course course course' → course'.2 = course.2

theorem agreeOnEnd_course (alignment : Alignment) :
    AgreeOnEnd alignment.Course :=
  fun _ _ hcourse => hcourse.2

theorem related_jump (hend : AgreeOnEnd Course) {index index' : Int}
    (hplace : alignment.Place index index') :
    Related (alignment.States Course pc pc') (jump index) (jump index')
      (fun _ _ => alignment.States alignment.Course pc pc')
      (alignment.Stops pc pc') := by
  apply Tracks.bind Tracks.get
  intro _ _ _
  apply Tracks.andThen (tracks_note _ _)
  apply Related.modify
  intro state state' hstates
  have hrunning : state'.running = state.running := hend _ _ hstates.course
  exact { hstates with course := ⟨hplace, hrunning⟩ }

theorem tracks_jump {index index' : Int}
    (hplace : alignment.Place index index') :
    Tracks alignment alignment.Course pc pc' (jump index) (jump index')
      anyResults := by
  apply Related.weaken (related_jump (agreeOnEnd_course alignment) hplace)
  · exact fun _ _ _ _ hstates => ⟨hstates, trivial⟩
  · exact fun _ _ _ _ hstops => hstops

/-- The two items do the same, and either both jump, to places that answer to
each other, or neither changes the course. -/
def TracksItem (alignment : Alignment)
    (Course : Int × Bool → Int × Bool → Prop) (pc pc' : Int)
    (first second : Exec Bool) : Prop :=
  Related (alignment.States Course pc pc') first second
    (fun jumped jumped' state state' => jumped' = jumped ∧
      if jumped then alignment.States alignment.Course pc pc' state state'
      else alignment.States Course pc pc' state state')
    (alignment.Stops pc pc')

theorem Tracks.straight {first second : Exec Unit}
    (htracks : Tracks alignment Course pc pc' first second anyResults) :
    TracksItem alignment Course pc pc' (straight first) (straight second) := by
  apply Tracks.andThen htracks
  exact fun _ _ hstates => ⟨rfl, hstates⟩

theorem tracksItem_nextLoop (hend : AgreeOnEnd Course)
    (name : Option String) :
    TracksItem alignment Course pc pc' (nextLoop name) (nextLoop name) := by
  apply Tracks.bind (tracks_findLoop name)
  intro loop loop' hloops
  apply Tracks.bind (tracks_iterate hloops)
  rintro moved moved' ⟨rfl, rfl⟩
  obtain ⟨rfl, hlead⟩ := hloops
  apply Tracks.andThen (tracks_setScalar _ _)
  apply Related.ite
  · intro _
    apply Related.bind (related_jump hend hlead)
    exact fun _ _ _ _ hstates => ⟨rfl, hstates⟩
  · intro _
    apply Tracks.andThen (tracks_closeLoop _)
    exact fun _ _ hstates => ⟨rfl, hstates⟩

/-- Items that track each other one by one do so in turn, from courses that
answer to each other. -/
theorem Tracks.inTurn {items items' : List (Exec Bool)}
    (hitems : List.Forall₂
      (TracksItem alignment alignment.Course pc pc') items items') :
    Tracks alignment alignment.Course pc pc' (inTurn items) (inTurn items')
      anyResults := by
  induction hitems with
  | nil => exact Tracks.pure trivial
  | cons hitem _ ih =>
      apply Related.bind hitem
      rintro _ jumped state state' ⟨rfl, hstates⟩
      cases jumped with
      | false => exact ih state state' hstates
      | true => exact ⟨hstates, trivial⟩

/-- Items of one kind that track each other do so in turn. -/
theorem Tracks.inTurn_map {γ : Type} {action action' : γ → Exec Bool}
    (hitem : ∀ item, TracksItem alignment alignment.Course pc pc'
      (action item) (action' item)) (items : List γ) :
    Tracks alignment alignment.Course pc pc'
      (Exec.inTurn (items.map action)) (Exec.inTurn (items.map action'))
      anyResults := by
  apply Tracks.inTurn
  rw [List.forall₂_map_left_iff, List.forall₂_map_right_iff, List.forall₂_same]
  exact fun item _ => hitem item

theorem Tracks.forM {γ : Type} {action action' : γ → Exec Unit}
    (hitem : ∀ item, Tracks alignment alignment.Course pc pc'
      (action item) (action' item) anyResults) (items : List γ) :
    Tracks alignment alignment.Course pc pc' (items.forM action)
      (items.forM action') anyResults := by
  rw [forM_eq_inTurn, forM_eq_inTurn]
  exact Tracks.inTurn_map (fun item => (hitem item).straight) items

theorem tracks_openLoop (loop : Loop)
    (hplace : alignment.Place (loop.forIndex + 1)
      (alignment.index loop.forIndex + 1)) :
    Tracks alignment Course pc pc' (openLoop loop)
      (openLoop (loop.moved alignment.index)) anyResults := by
  apply Tracks.andThen _ (tracks_note _ _)
  apply Tracks.modify
  intro state state' hstates
  refine { hstates with loops := ?_, loops_lead := ?_ }
  · rw [hstates.loops]
    exact Loops.opened_moved alignment.index state.loops loop
  · intro other hother
    rw [Loops.opened, List.mem_append, List.mem_singleton] at hother
    rcases hother with hold | hnew
    · exact hstates.loops_lead other (List.mem_of_mem_filter hold)
    · rw [hnew]
      exact hplace

theorem tracks_openFor (name : String) (start stop : Expr)
    (step : Option Expr) (hindex : alignment.index pc = pc')
    (hplace : alignment.Place (pc + 1) (pc' + 1)) :
    Tracks alignment Course pc pc' (openFor name start stop step)
      (openFor name start stop step) anyResults := by
  have hbound (bound : Expr) (memory : Memory) :=
    bound.failsInEvaluation_evalNumber memory .loopBound
  have hopen (startValue stopValue stepValue : Float) :
      Tracks alignment Course pc pc'
        (do
          openLoop ⟨name, startValue, stopValue, stepValue, (← get).pc⟩
          setScalar name (.number startValue))
        (do
          openLoop ⟨name, startValue, stopValue, stepValue, (← get).pc⟩
          setScalar name (.number startValue)) anyResults := by
    apply Tracks.bind Tracks.get
    intro state state' hat
    rw [hat.pc, hat.pc', ← hindex]
    apply Tracks.andThen _ (tracks_setScalar _ _)
    apply tracks_openLoop ⟨name, startValue, stopValue, stepValue, pc⟩
    rw [hindex]
    exact hplace
  apply Tracks.bind_eq (Tracks.compute (hbound start))
  intro startValue
  apply Tracks.bind_eq (Tracks.compute (hbound stop))
  intro stopValue
  cases step with
  | none => exact hopen startValue stopValue 1
  | some step =>
      apply Tracks.bind_eq (Tracks.compute (hbound step))
      intro stepValue
      exact hopen startValue stopValue stepValue

end Exec

/-! ## Statements -/

/-- A statement tracks its renumbered form in a corresponding table.  Only one
that opens loops needs to stand at places that answer to each other. -/
theorem Statement.tracks_exec [Host] {alignment : Alignment}
    {jumps : Set (Option Int)} {numbers : Set Int} {table table' : Table}
    (htables : alignment.Tables jumps numbers table table')
    {pc pc' : Int} (statement : Statement)
    (hjumps : ∀ target ∈ statement.jumps, target ∈ jumps)
    (hnumbers : ∀ number ∈ statement.numbers, number ∈ numbers)
    (hopens : ∀ name, statement.opens name = true →
      alignment.index pc = pc' ∧ alignment.Place (pc + 1) (pc' + 1)) :
    Exec.Tracks alignment alignment.Course pc pc' (statement.exec table)
      ((statement.renumber alignment.number).exec table')
      Exec.anyResults := by
  induction statement with
  | print items separators ending =>
      apply Exec.Tracks.bind_eq (Exec.Tracks.compute fun memory =>
        failsInEvaluation_printedItems memory separators items)
      intro texts
      exact Exec.tracks_write _
  | assign target value =>
      apply Exec.Tracks.bind_eq (Exec.Tracks.compute fun memory =>
        value.failsInEvaluation_eval memory)
      intro value
      exact Exec.tracks_assign target value
  | goto target =>
      have htarget := htables.findLine target
        (hjumps target (List.mem_singleton_self target))
      apply Exec.Tracks.bind (Exec.Tracks.ofRun htarget)
      intro index index' hplace
      exact Exec.tracks_jump hplace
  | ifThen condition branch ih =>
      apply Exec.Tracks.bind_eq (Exec.Tracks.compute fun memory =>
        condition.failsInEvaluation_eval memory)
      intro value
      apply Exec.Related.ite
      · exact fun _ => ih hjumps hnumbers hopens
      · exact fun _ => Exec.Tracks.pure trivial
  | ifElse condition branch otherwise ihBranch ihOtherwise =>
      apply Exec.Tracks.bind_eq (Exec.Tracks.compute fun memory =>
        condition.failsInEvaluation_eval memory)
      intro value
      apply Exec.Related.ite
      · intro _
        apply ihBranch
        · exact fun target htarget =>
            hjumps target (List.mem_append_left _ htarget)
        · exact fun number hnumber =>
            hnumbers number (List.mem_append_left _ hnumber)
        · exact fun name hname => hopens name (by simp [opens, hname])
      · intro _
        apply ihOtherwise
        · exact fun target htarget =>
            hjumps target (List.mem_append_right _ htarget)
        · exact fun number hnumber =>
            hnumbers number (List.mem_append_right _ hnumber)
        · exact fun name hname => hopens name (by simp [opens, hname])
  | forLoop name start limit step =>
      obtain ⟨hindex, hplace⟩ := hopens name (by simp [opens])
      exact Exec.tracks_openFor name start limit step hindex hplace
  | next names =>
      change Exec.Tracks _ _ _ _ (Exec.nextLoops (nextTargets names))
        (Exec.nextLoops (nextTargets names)) _
      rw [Exec.nextLoops_eq_inTurn]
      exact Exec.Tracks.inTurn_map
        (Exec.tracksItem_nextLoop (Exec.agreeOnEnd_course alignment)) _
  | data values => exact Exec.Tracks.pure trivial
  | read targets =>
      exact Exec.Tracks.forM (Exec.tracks_readInto htables.data) targets
  | restore target =>
      cases target with
      | none => exact Exec.tracks_setDataPosition 0
      | some target =>
          have hposition := htables.dataPosition target
            (hnumbers target (by simp [Statement.numbers]))
          change Exec.Tracks _ _ _ _
            (modify fun state => { state with
              dataPosition := table.dataPosition target })
            (modify fun state => { state with
              dataPosition := table'.dataPosition (alignment.number target) }) _
          rw [hposition]
          exact Exec.tracks_setDataPosition _
  | dim arrays => exact Exec.Tracks.forM Exec.tracks_declare arrays
  | stop =>
      exact Exec.Tracks.modify fun _ _ hstates =>
        { hstates with course := ⟨hstates.course.1, rfl⟩ }
  | remark comment => exact Exec.Tracks.pure trivial
  | unknown kind => exact Exec.Tracks.fail rfl

/-- Dispatching answering lines at answering statements keeps states aligned. -/
theorem Alignment.States.dispatch [Host] {alignment : Alignment}
    {jumps : Set (Option Int)} {numbers : Set Int} {table table' : Table}
    (htables : alignment.Tables jumps numbers table table')
    {pc pc' : Int} {state state' : State} {line line' : Line}
    (hstates : alignment.States alignment.Course pc pc' state state')
    (hplace : alignment.Place (pc + 1) (pc' + 1))
    (hindex : alignment.index pc = pc')
    (hline : line'.statement = line.statement.renumber alignment.number)
    (hjumps : ∀ target ∈ line.statement.jumps, target ∈ jumps)
    (hnumbers : ∀ number ∈ line.statement.numbers, number ∈ numbers) :
    resultsRelated (fun _ _ => alignment.States alignment.Course pc pc')
      (alignment.Stops pc pc') (state.dispatch table line)
      (state'.dispatch table' line') := by
  have hready : alignment.States alignment.Course pc pc'
      { state with next := state.pc + 1 }
      { state' with next := state'.pc + 1 } := by
    refine { hstates with course := ⟨?_, hstates.course.2⟩ }
    rw [State.course, State.course, hstates.pc, hstates.pc']
    exact hplace
  have hopens (name : String) (_ : line.statement.opens name = true) :
      alignment.index pc = pc' ∧ alignment.Place (pc + 1) (pc' + 1) :=
    ⟨hindex, hplace⟩
  have htracks := Exec.Related.weaken
    (line.statement.tracks_exec htables hjumps hnumbers hopens)
    (fun _ _ _ _ hboth => hboth.1) (fun _ _ _ _ hstops => hstops)
  unfold State.dispatch
  rw [hline]
  exact htracks _ _ hready

end NumberedBasic
