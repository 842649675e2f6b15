import NumberedBasic.Proofs.Machine.Following
import NumberedBasic.Proofs.Splitting.Table

/-!
# Runs of split programs

The run of a program is followed in the run of the program with one of its
lines split.  Elsewhere the two dispatch the same lines; for one dispatch of
the line the other run dispatches its parts, up to the first that jumps or
fails.
-/

namespace NumberedBasic

/-- Where a run and the run of the split program have got to between
statements of the first. -/
inductive Progress.Split (front : List Line) (line : Line)
    (table table' : Table) : Progress → Progress → Prop where
  | running {state state' : State} {current current' : Line}
      (hrunning : state.running = true)
      (hstates : (line.splitting front.length).States
        (line.splitting front.length).Course state.pc
        (splitIndex front.length line.split.length state.pc) state state')
      (hcurrent : table.line? state.pc = some current)
      (hcurrent' : table'.line? state'.pc = some current') :
      Split front line table table' (.running state current)
        (.running state' current')
  | ended {state state' : State} (houtput : state'.output = state.output) :
      Split front line table table' (.ended state) (.ended state')
  | broken {state state' : State} (defect : Defect)
      (houtput : state'.output = state.output) :
      Split front line table table' (.broken defect state)
        (.broken defect state')

/-- Both runs go on behind the statement at hand, the first behind the line
and the second behind the part that it is at. -/
def onwards (place offset : Nat) (course course' : Int × Bool) : Prop :=
  course = ((place : Int) + 1, true) ∧
    course' = ((place : Int) + offset + 1, true)

/-- Behind the last part the second run comes to where the first is. -/
theorem course_of_onwards {place offset count : Nat}
    (hlast : offset + 1 = count) {course course' : Int × Bool}
    (honwards : onwards place offset course course') :
    (splitting place count).Course course course' := by
  obtain ⟨rfl, rfl⟩ := honwards
  refine ⟨?_, rfl⟩
  change _ = splitIndex _ _ _
  rw [splitIndex_of_lt (by omega)]
  omega

theorem agreeOnEnd_onwards (place offset : Nat) :
    Exec.AgreeOnEnd (onwards place offset) := by
  rintro course course' ⟨rfl, rfl⟩
  rfl

namespace Table.SplitAt

variable {front : List Line} {line : Line} {table table' : Table}
variable (hsplit : SplitAt front line table table')

include hsplit

theorem isSome_line? (index : Int) :
    (table'.line? (splitIndex front.length line.split.length index)).isSome =
      (table.line? index).isSome := by
  by_cases hindex : index = front.length
  · have hfirst := hsplit.line?_part (List.length_pos_iff.mpr hsplit.parts)
    rw [Int.natCast_zero, Int.add_zero] at hfirst
    rw [hindex, splitIndex_of_le (Int.le_refl _), hfirst, hsplit.line?_front]
    simpa [List.length_pos_iff] using hsplit.parts
  · rw [hsplit.line?_splitIndex hindex]

theorem settle {pc pc' : Int} {state state' : State}
    (hstates : (line.splitting front.length).States
      (line.splitting front.length).Course pc pc' state state') :
    Progress.Split front line table table'
      (State.settle table { state with pc := state.next })
      (State.settle table' { state' with pc := state'.next }) := by
  obtain ⟨hnext, hrunning⟩ := hstates.course
  change state'.next = splitIndex _ _ state.next at hnext
  change state'.running = state.running at hrunning
  have hsome := hsplit.isSome_line? state.next
  unfold State.settle
  dsimp only
  rw [hrunning, hnext]
  by_cases hrun : state.running = true
  · rw [if_pos hrun, if_pos hrun]
    cases hcurrent : table.line? state.next with
    | none =>
        rw [hcurrent, Option.isSome_none, Option.isSome_eq_false_iff,
          Option.isNone_iff_eq_none] at hsome
        rw [hsome]
        exact .ended hstates.output
    | some current =>
        rw [hcurrent, Option.isSome_some, Option.isSome_iff_exists] at hsome
        obtain ⟨current', hcurrent'⟩ := hsome
        rw [hcurrent']
        exact .running hrun
          { hstates with pc := rfl, pc' := rfl, course := ⟨rfl, rfl⟩ }
          hcurrent hcurrent'
  · rw [if_neg hrun, if_neg hrun]
    exact .ended hstates.output

/-- Results that answer to each other lead the two runs on alike. -/
theorem resume {pc pc' : Int} {current current' : Line}
    {result result' : EStateM.Result Halt State Unit}
    (hnumber : current'.number = current.number)
    (hresults : resultsRelated
      (fun _ _ => (line.splitting front.length).States
        (line.splitting front.length).Course pc pc')
      ((line.splitting front.length).Stops pc pc')
      result result') :
    Progress.Split front line table table' (State.resume table current result)
      (State.resume table' current' result') := by
  cases result <;> cases result'
  case ok.ok => exact hsplit.settle hresults
  case ok.error => exact hresults.elim
  case error.ok => exact hresults.elim
  case error.error halt final halt' final' =>
    obtain ⟨rfl, hfinal⟩ := hresults
    cases halt with
    | error error =>
        apply Progress.Split.ended
        change final'.output.push
          (Diagnostic.text ⟨(error.renumber id).message, current'.number⟩) = _
        rw [hfinal.output, hnumber, error.renumber_id]
        rfl
    | defect defect => exact .broken defect hfinal.output

/-- An item either settles what becomes of both the line and its part, or
leaves both runs to go onwards, with nothing put out. -/
theorem item [Host] {offset : Nat} (part : Line) (others : List (Exec Bool))
    {state state' : State}
    (hstates : (line.splitting front.length).States
      (onwards front.length offset) front.length (front.length + offset)
      state state') :
    resultsRelated
      (fun _ _ => (line.splitting front.length).States
        (line.splitting front.length).Course front.length
        (front.length + offset))
      ((line.splitting front.length).Stops front.length
        (front.length + offset))
      (Exec.inTurn (part.statement.item table :: others) state)
      (Exec.inTurn [part.statement.item table'] state') ∨
    ∃ final final',
      Exec.inTurn (part.statement.item table :: others) state =
        Exec.inTurn others final ∧
      Exec.inTurn [part.statement.item table'] state' = .ok () final' ∧
      (line.splitting front.length).States
        (onwards front.length offset) front.length (front.length + offset)
        final final' ∧
      final.output = state.output := by
  have hitems := part.statement.tracksItem_item hsplit.data
    (agreeOnEnd_onwards front.length offset) state state' hstates
  have hsilent := part.statement.silent_item table state.output state rfl
  rw [Exec.inTurn_cons_apply, Exec.inTurn_cons_apply]
  cases hresult : part.statement.item table state <;>
    cases hresult' : part.statement.item table' state' <;>
    rw [hresult, hresult'] at hitems
  case ok.error => exact hitems.elim
  case error.ok => exact hitems.elim
  case error.error => exact Or.inl hitems
  case ok.ok jumped final jumped' final' =>
    obtain ⟨rfl, hfinal⟩ := hitems
    rw [hresult] at hsilent
    cases jumped' with
    | true => exact Or.inl hfinal
    | false => exact Or.inr ⟨final, final', rfl, rfl, hfinal, hsilent⟩

/-- Behind a part that is not the last the second run settles on the next. -/
theorem next_part {finished later : List Line} {part following : Line}
    (hparts : line.split = finished ++ part :: following :: later)
    {state state' : State}
    (hstates : (line.splitting front.length).States
      (onwards front.length finished.length) front.length
      (front.length + finished.length) state state') :
    State.settle table' { state' with pc := state'.next } =
      .running { state' with pc := state'.next } following ∧
    (line.splitting front.length).States
      (onwards front.length (finished ++ [part]).length) front.length
      (front.length + (finished ++ [part]).length) state
      { state' with pc := state'.next, next := state'.next + 1 } := by
  obtain ⟨hcourse, hcourse'⟩ := hstates.course
  obtain ⟨hnext, hrunning⟩ := Prod.mk.inj hcourse'
  rw [List.length_append, List.length_singleton]
  constructor
  · have hlength : finished.length + 1 < line.split.length := by
      rw [hparts, List.length_append, List.length_cons, List.length_cons]
      omega
    have hfollowing : table'.line? state'.next = some following := by
      rw [hnext, Int.add_assoc, ← Int.natCast_succ, hsplit.line?_part hlength,
        hparts]
      simp
    exact Progress.settle_of_line?
      { state' with pc := state'.next } hrunning hfollowing
  · refine { hstates with pc' := ?_, course := ⟨hcourse, ?_⟩ }
    · rw [hnext, Int.natCast_succ, Int.add_assoc]
    · change (state'.next + 1, state'.running) = _
      rw [hrunning, hnext, Int.natCast_succ, Int.add_assoc (front.length : Int)]

/-- What is left of the line is made up for by the parts that are left. -/
theorem items [Host] (finished : List Line) {later : List Line} {part : Line}
    (hparts : line.split = finished ++ part :: later) (state : State)
    {state' : State}
    (hstates : (line.splitting front.length).States
      (onwards front.length finished.length) front.length
      (front.length + finished.length) state
      { state' with next := state'.pc + 1 }) :
    Progress.LeadsTo table' state.output
      (Progress.Split front line table table' (State.resume table line
        (Exec.inTurn ((part :: later).map fun part =>
          part.statement.item table) state)))
      (.running state' part) := by
  induction later generalizing finished part state state' with
  | nil =>
      have hmem : part ∈ line.split :=
        hparts ▸ List.mem_append_right _ List.mem_cons_self
      refine Progress.LeadsTo.last hstates.output ?_
      rw [Progress.advance_of_mem_split table' state' hmem]
      apply hsplit.resume (Line.number_of_mem_split hmem)
      rcases hsplit.item part [] hstates with
        hdone | ⟨final, final', hresult, hresult', hfinal, -⟩
      · exact hdone
      · rw [List.map_cons, List.map_nil, hresult, hresult']
        apply hfinal.weaken
        intro _ _ honwards
        exact course_of_onwards (by rw [hparts, List.length_append]; rfl)
          honwards
  | cons following later ih =>
      have hmem : part ∈ line.split :=
        hparts ▸ List.mem_append_right _ List.mem_cons_self
      have hadvance := Progress.advance_of_mem_split table' state' hmem
      rcases hsplit.item part
        ((following :: later).map fun part => part.statement.item table)
        hstates with hdone | ⟨final, final', hresult, hresult', hfinal, hsame⟩
      · refine Progress.LeadsTo.last hstates.output ?_
        rw [hadvance]
        exact hsplit.resume (Line.number_of_mem_split hmem) hdone
      · refine Progress.LeadsTo.more hstates.output ?_
        obtain ⟨hsettle, hnext⟩ := hsplit.next_part hparts hfinal
        rw [hadvance, hresult', List.map_cons, hresult, ← hsame, State.resume,
          hsettle]
        exact ih (finished ++ [part]) (by simp [hparts]) final hnext

/-- One dispatch of the first run is made up for by one or more of the
second. -/
theorem advance [Host] {progress progress' : Progress}
    (hprogress : Progress.Split front line table table' progress progress') :
    Progress.LeadsTo table' progress.output
      (Progress.Split front line table table' (progress.advance table))
      progress' := by
  cases hprogress with
  | ended houtput => exact .last houtput (.ended houtput)
  | broken defect houtput => exact .last houtput (.broken defect houtput)
  | @running state state' current current' hrunning hstates hcurrent hcurrent' =>
      rw [hstates.pc'] at hcurrent'
      by_cases hpc : state.pc = front.length
      · rw [hpc, hsplit.line?_front, Option.some.injEq] at hcurrent
        subst hcurrent
        obtain ⟨first, others, hparts⟩ :=
          List.exists_cons_of_ne_nil hsplit.parts
        have hfirst := hsplit.line?_part (List.length_pos_iff.mpr hsplit.parts)
        rw [Int.natCast_zero, Int.add_zero, hparts] at hfirst
        rw [hpc, splitIndex_of_le (Int.le_refl _), hfirst] at hcurrent'
        cases hcurrent'
        rw [Progress.advance, State.dispatch_eq_inTurn table state hsplit.parts,
          hparts]
        have hpc' : state'.pc = front.length := by
          rw [hstates.pc', hpc, splitIndex_of_le (Int.le_refl _)]
        have hrunning' : state'.running = true :=
          hstates.course.2.trans hrunning
        apply hsplit.items [] hparts { state with next := state.pc + 1 }
        refine { hstates with
          pc := hpc, pc' := by simpa using hpc', course := ⟨?_, ?_⟩ }
        · exact Prod.ext (congrArg (· + 1) hpc) hrunning
        · rw [List.length_nil, Int.natCast_zero, Int.add_zero]
          exact Prod.ext (congrArg (· + 1) hpc') hrunning'
      · have hline : current' = current := by
          rw [hsplit.line?_splitIndex hpc, hcurrent] at hcurrent'
          exact (Option.some.inj hcurrent').symm
        subst hline
        refine Progress.LeadsTo.last hstates.output ?_
        exact hsplit.resume rfl
          (hstates.dispatch hsplit.tables (splitIndex_succ hpc).symm
            rfl (current'.statement.renumber_id).symm
            (fun _ _ => trivial) fun _ _ => trivial)

theorem follows [Host] : Table.Follows table table'
    (Progress.Split front line table table') where
  start := by
    have hfresh : (line.splitting front.length).States
        (line.splitting front.length).Course 0 0
        { State.fresh with
          running := true
          notes := #[.organised table.size table.data.length] }
        { State.fresh with
          running := true
          notes := #[.organised table'.size table'.data.length] } :=
      { memory := rfl, pc := rfl, pc' := rfl
        course := ⟨(splitIndex_of_le (Int.natCast_nonneg _)).symm, rfl⟩
        dataPosition := rfl, loops := rfl
        loops_lead := fun _ hloop => absurd hloop List.not_mem_nil
        output := rfl }
    exact hsplit.settle hfresh
  output hprogress := by
    cases hprogress with
    | running hrunning hstates _ _ => exact hstates.output
    | ended houtput => exact houtput
    | broken defect houtput => exact houtput
  ending hprogress := ⟨0, by cases hprogress <;> rfl⟩
  advance := hsplit.advance

end Table.SplitAt

/-- A program puts out the same as the program that has, in the place of one
of its lines, a line of the same number for each item of the statement. -/
theorem Table.split_sameOutput [Host] (front back : Program) (line : Line)
    (hparts : line.split ≠ []) :
    SameOutput (ofProgram (front ++ line :: back))
      (ofProgram (front ++ line.split ++ back)) := by
  obtain ⟨before, hsplit⟩ := splitAt_ofProgram front back hparts
  exact hsplit.follows.sameOutput

/-- Two loops that share a NEXT may as well have one each. -/
theorem Table.split_sameOutput_of_next :
    let front : Program :=
      [⟨some 10, .forLoop "I" (.number 1) (.number 2) none⟩,
       ⟨some 20, .forLoop "J" (.number 1) (.number 3) none⟩]
    let line : Line := ⟨some 30, .next ["J", "I"]⟩
    line.split ≠ [] ∧
    SameOutput (ofProgram (front ++ [line]))
      (ofProgram (front ++
        [⟨some 30, .next ["J"]⟩, ⟨some 30, .next ["I"]⟩])) := by
  intro front line
  have hparts : line.split ≠ [] := List.cons_ne_nil _ _
  exact ⟨hparts, split_sameOutput front [] line hparts⟩

end NumberedBasic
