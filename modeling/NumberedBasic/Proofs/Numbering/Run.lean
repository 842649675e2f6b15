import NumberedBasic.Proofs.Machine.Outcome
import NumberedBasic.Proofs.Machine.Tracking
import NumberedBasic.Proofs.Numbering.Table

/-!
# Runs of renumbered programs

A program whose numbers are replaced by others in the same order goes through
the same states.  Only what a final diagnostic shows of them is different.
-/

namespace NumberedBasic

/-- Two states of a run and of its renumbered run. -/
abbrev State.Renumbered (f : Int → Int)
    (Course : Int × Bool → Int × Bool → Prop) (state state' : State) : Prop :=
  (renumbering f).States Course state.pc state.pc state state'

/-- Where a run and its renumbered run have got to, unless an error stopped
them. -/
inductive Progress.Renumbered (f : Int → Int) (program : Program) :
    Progress → Progress → Prop where
  | running {state state' : State} {line : Line} (hline : line ∈ program)
      (hstates : state.Renumbered f (renumbering f).Course state') :
      Renumbered f program (.running state line)
        (.running state' (line.renumber f))
  | ended {state state' : State} (hstates : state.Renumbered f anyCourse state') :
      Renumbered f program (.ended state) (.ended state')
  | broken {state state' : State} (defect : Defect)
      (hstates : state.Renumbered f anyCourse state') :
      Renumbered f program (.broken defect state) (.broken defect state')

/-- The same, with the errors that have stopped the two runs. -/
inductive Progress.RenumberedAfter (f : Int → Int) (program : Program) :
    Option (Line × RunError) → Option (Line × RunError) →
      Progress → Progress → Prop where
  | alike {progress progress' : Progress}
      (hprogress : Progress.Renumbered f program progress progress') :
      RenumberedAfter f program none none progress progress'
  | failed {state state' : State} (line : Line) (error : RunError)
      (hstates : state.Renumbered f anyCourse state') :
      RenumberedAfter f program (some (line, error))
        (some (line.renumber f, error.renumber f))
        (.ended (state.stopWith line error))
        (.ended (state'.stopWith (line.renumber f) (error.renumber f)))

/-- Two runs are at the same place with the same variables. -/
structure Progress.Agrees (progress progress' : Progress) : Prop where
  ending : progress'.ending? = progress.ending?
  pc : progress'.state.pc = progress.state.pc
  scalars : progress'.state.scalars = progress.state.scalars
  arrays : progress'.state.arrays = progress.state.arrays
  dataPosition : progress'.state.dataPosition = progress.state.dataPosition
  loops : progress'.state.loops = progress.state.loops

section Run

variable {f : Int → Int} {program : Program}

theorem State.renumbered {Course : Int × Bool → Int × Bool → Prop} {pc : Int}
    {state state' : State}
    (hstates : (renumbering f).States Course pc pc state state') :
    state.Renumbered f Course state' := by
  rw [State.Renumbered, hstates.pc]
  exact hstates

theorem State.Renumbered.loops_eq {Course : Int × Bool → Int × Bool → Prop}
    {state state' : State} (hstates : state.Renumbered f Course state') :
    state'.loops = state.loops := by
  rw [hstates.loops]
  exact List.map_id _

variable (hf : StrictMonoOn f {number | number ∈ program.numbers})

include hf

theorem State.Renumbered.settle {state state' : State}
    (hstates : state.Renumbered f (renumbering f).Course state') :
    Progress.Renumbered f program
      (State.settle (Table.ofProgram program) { state with pc := state.next })
      (State.settle (Table.ofProgram (program.renumber f))
        { state' with pc := state'.next }) := by
  obtain ⟨memory', pc', next', position', running', loops', output', notes'⟩ :=
    state'
  obtain ⟨hnext, hrunning⟩ := hstates.course
  change state.next = next' at hnext
  change running' = state.running at hrunning
  subst hnext hrunning
  have hfound : (if state.running then
      (Table.ofProgram (program.renumber f)).line? state.next else none) =
        (if state.running then
          (Table.ofProgram program).line? state.next else none).map
            (Line.renumber f) := by
    rw [Table.line?_renumber hf]
    split <;> rfl
  unfold State.settle
  dsimp only
  rw [hfound]
  cases hline : if state.running then
      (Table.ofProgram program).line? state.next else none with
  | none => exact .ended { hstates with pc := rfl, pc' := rfl, course := trivial }
  | some line =>
      split at hline
      · apply Progress.Renumbered.running
        · exact Program.mem_arrange.mp (Table.mem_of_line? hline)
        · exact { hstates with pc := rfl, pc' := rfl }
      · cases hline

/-- A dispatch in both runs fails for answering causes, or leads on. -/
theorem Progress.Renumbered.advance [Host] {progress progress' : Progress}
    (hprogress : Renumbered f program progress progress') :
    RenumberedAfter f program (progress.failure? (Table.ofProgram program))
      (progress'.failure? (Table.ofProgram (program.renumber f)))
      (progress.advance (Table.ofProgram program))
      (progress'.advance (Table.ofProgram (program.renumber f))) := by
  cases hprogress with
  | ended hstates => exact .alike (.ended hstates)
  | broken defect hstates => exact .alike (.broken defect hstates)
  | @running state state' line hline hstates =>
      have hnumbers : ∀ number ∈ line.statement.numbers,
          number ∈ program.numbers := fun _ hnumber =>
        Program.mem_numbers_of_statement hline hnumber
      have hboth := hstates.dispatch (Table.tables_renumbering hf) rfl rfl
        (line.statement_renumber f)
        (fun _ htarget _ hnumber =>
          hnumbers _ (Statement.mem_numbers_of_mem_jumps htarget hnumber))
        hnumbers
      unfold Progress.failure? Progress.advance
      dsimp only
      cases hresult : state.dispatch (Table.ofProgram program) line <;>
        cases hresult' : state'.dispatch (Table.ofProgram (program.renumber f))
          (line.renumber f) <;>
        rw [hresult, hresult'] at hboth
      case ok.ok value final value' final' =>
        exact .alike (State.Renumbered.settle hf (State.renumbered hboth))
      case ok.error => exact hboth.elim
      case error.ok => exact hboth.elim
      case error.error halt final halt' final' =>
        obtain ⟨rfl, hfinal⟩ := hboth
        cases halt with
        | error error => exact .failed line error (State.renumbered hfinal)
        | defect defect =>
            have hstopped := State.renumbered hfinal
            exact .alike (.broken defect { hstopped with course := trivial })

theorem Progress.Renumbered.advanceMany [Host] (count : Nat)
    {progress progress' : Progress}
    (hprogress : Renumbered f program progress progress') :
    RenumberedAfter f program
      (failureWithin (Table.ofProgram program) count progress)
      (failureWithin (Table.ofProgram (program.renumber f)) count progress')
      (progress.advanceMany (Table.ofProgram program) count)
      (progress'.advanceMany (Table.ofProgram (program.renumber f)) count) := by
  induction count generalizing progress progress' with
  | zero => exact .alike hprogress
  | succ count ih =>
      rw [advanceMany_succ, advanceMany_succ, failureWithin, failureWithin]
      have hadvance := hprogress.advance hf
      generalize progress.advance (Table.ofProgram program) = later at hadvance ⊢
      generalize progress'.advance (Table.ofProgram (program.renumber f)) = later'
        at hadvance ⊢
      generalize progress.failure? (Table.ofProgram program) = failure?
        at hadvance ⊢
      generalize progress'.failure? (Table.ofProgram (program.renumber f)) =
        failure?' at hadvance ⊢
      cases hadvance with
      | alike hlater => exact ih hlater
      | failed line error hstates =>
          rw [advanceMany_of_ending _ _ rfl, advanceMany_of_ending _ _ rfl]
          exact .failed line error hstates

theorem Progress.renumbered_start :
    Renumbered f program (start (Table.ofProgram program))
      (start (Table.ofProgram (program.renumber f))) := by
  have hfresh : State.Renumbered f (renumbering f).Course
      { State.fresh with
        running := true
        notes := #[.organised (Table.ofProgram program).size
          (Table.ofProgram program).data.length] }
      { State.fresh with
        running := true
        notes := #[.organised (Table.ofProgram (program.renumber f)).size
          (Table.ofProgram (program.renumber f)).data.length] } :=
    { memory := rfl, pc := rfl, pc' := rfl, course := ⟨rfl, rfl⟩
      dataPosition := rfl, loops := rfl, loops_lead := fun _ _ => rfl
      output := rfl }
  exact hfresh.settle hf

end Run

theorem State.Renumbered.agrees {f : Int → Int}
    {Course : Int × Bool → Int × Bool → Prop} {progress progress' : Progress}
    (hending : progress'.ending? = progress.ending?)
    (hstates : progress.state.Renumbered f Course progress'.state) :
    progress.Agrees progress' where
  ending := hending
  pc := hstates.pc'
  scalars := congrArg Memory.scalars hstates.memory
  arrays := congrArg Memory.arrays hstates.memory
  dataPosition := hstates.dataPosition
  loops := hstates.loops_eq

/-- After any number of dispatches, a program and its renumbered form are at
the same place with the same variables and the same output.  If an error has
stopped the one, the answering error has stopped the other at the same
dispatch, and the output is the same up to the last entry, which reports the
error in each for its own number. -/
theorem Progress.after_renumber [Host] (program : Program) (f : Int → Int)
    (hf : StrictMonoOn f {number | number ∈ program.numbers}) (count : Nat) :
    let table := Table.ofProgram program
    let table' := Table.ofProgram (program.renumber f)
    let progress := after table count
    let progress' := after table' count
    progress.Agrees progress' ∧
    failureWithin table' count (start table') =
      (failureWithin table count (start table)).map
        (Prod.map (Line.renumber f) (RunError.renumber f)) ∧
    match failureWithin table count (start table) with
    | none => progress'.output = progress.output
    | some (line, error) =>
        (error.renumber f).code = error.code ∧
        (error.renumber f = error ∨
          ∃ target, error = .undefinedLine (some target) ∧
            error.renumber f = .undefinedLine (some (f target))) ∧
        ∃ entries : Array String,
          progress.output =
            entries.push (Diagnostic.text ⟨error.message, line.number⟩) ∧
          progress'.output =
            entries.push (Diagnostic.text
              ⟨(error.renumber f).message, line.number.map f⟩) := by
  intro table table' progress progress'
  have hafter := Progress.Renumbered.advanceMany hf count
    (Progress.renumbered_start hf)
  change RenumberedAfter f program (failureWithin table count (start table))
    (failureWithin table' count (start table')) progress progress' at hafter
  generalize failureWithin table count (start table) = failure? at hafter ⊢
  generalize failureWithin table' count (start table') = failure?' at hafter ⊢
  generalize progress = progress at hafter ⊢
  generalize progress' = progress' at hafter ⊢
  cases hafter with
  | @failed state state' line error hstates =>
      have hagrees : Progress.Agrees (.ended state) (.ended state') :=
        State.Renumbered.agrees rfl hstates
      refine ⟨{ hagrees with }, rfl, error.code_renumber f,
        error.renumber_cases f, state.output, rfl, ?_⟩
      rw [← hstates.output]
      rfl
  | alike hprogress =>
      cases hprogress with
      | running hline hstates =>
          exact ⟨State.Renumbered.agrees rfl hstates, rfl, hstates.output⟩
      | ended hstates =>
          exact ⟨State.Renumbered.agrees rfl hstates, rfl, hstates.output⟩
      | broken defect hstates =>
          exact ⟨State.Renumbered.agrees rfl hstates, rfl, hstates.output⟩

/-- A jump to a line that is missing fails after renumbering for the number
that the target would have. -/
theorem Progress.after_renumber_of_missing_target :
    let program : Program :=
      [⟨some 20, .goto (some 99)⟩, ⟨some 10, .print [] [] none⟩]
    let table' := Table.ofProgram (program.renumber (10 * ·))
    StrictMonoOn (10 * ·) {number | number ∈ program.numbers} ∧
    failureWithin table' 2 (start table') =
      some (⟨some 200, .goto (some 990)⟩, .undefinedLine (some 990)) := by
  intro program table'
  have hf : StrictMonoOn (10 * ·) {number | number ∈ program.numbers} := by
    intro first _ second _ hlt
    change 10 * first < 10 * second
    omega
  exact ⟨hf, (after_renumber program (10 * ·) hf 2).2.1⟩

end NumberedBasic
