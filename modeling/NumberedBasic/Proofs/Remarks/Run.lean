import NumberedBasic.Proofs.Grammar.Program
import NumberedBasic.Proofs.Machine.Output
import NumberedBasic.Proofs.Machine.Tracking
import NumberedBasic.Proofs.Remarks.Table

/-!
# Runs of programs with one more remark

The run of a program is followed in the run of the program with one more
remark.  The two dispatch the same lines.  Where the second comes to the
remark it makes one dispatch more, which only moves it on to where the first
is, be that a line or the end of the table.
-/

namespace NumberedBasic

/-- Where a run and the run with the remark have got to, the remark apart. -/
inductive Progress.Remarked (front : List Line) (table : Table) :
    Progress → Progress → Prop where
  | running {state state' : State} {current : Line}
      (hrunning : state.running = true)
      (hstates : (remarking front.length).States
        (remarking front.length).Course state.pc
        (remarkedIndex front.length state.pc) state state')
      (hcurrent : table.line? state.pc = some current) :
      Remarked front table (.running state current) (.running state' current)
  | ended {state state' : State} (houtput : state'.output = state.output) :
      Remarked front table (.ended state) (.ended state')
  | broken {state state' : State} (defect : Defect)
      (houtput : state'.output = state.output) :
      Remarked front table (.broken defect state) (.broken defect state')

/-- The second run is where the first is, or will be after a dispatch with
nothing new to be seen. -/
inductive Progress.RemarkedSoon [Host] (front : List Line) (table table' : Table)
    (progress progress' : Progress) : Prop where
  | now (hremarked : Remarked front table progress progress')
  | soon (houtput : progress'.output = progress.output)
      (hremarked : Remarked front table progress (progress'.advance table'))

section Remarked

variable {front : List Line} {table : Table} {progress progress' : Progress}
  (hremarked : Progress.Remarked front table progress progress')

include hremarked

theorem Progress.Remarked.output : progress'.output = progress.output := by
  cases hremarked with
  | running hrunning hstates hcurrent => exact hstates.output
  | ended houtput => exact houtput
  | broken defect houtput => exact houtput

theorem Progress.Remarked.ending : progress'.ending? = progress.ending? := by
  cases hremarked <;> rfl

end Remarked

namespace Table.RemarkedAt

variable {front : List Line} {remark : Line} {table table' : Table}
variable (hremarked : RemarkedAt front remark table table')

include hremarked

theorem settle_aligned {state state' : State}
    (hrunning : state'.running = state.running)
    (hstates : (remarking front.length).States
      (remarking front.length).Course state.pc
      (remarkedIndex front.length state.pc) state state') :
    Progress.Remarked front table (state.settle table)
      (state'.settle table') := by
  unfold State.settle
  rw [hrunning, hstates.pc', hremarked.line?_remarkedIndex]
  by_cases hrun : state.running = true
  · rw [if_pos hrun]
    cases hcurrent : table.line? state.pc with
    | none => exact .ended hstates.output
    | some current => exact .running hrun hstates hcurrent
  · rw [if_neg hrun]
    exact .ended hstates.output

/-- The remark only leads on to the next place. -/
theorem advance_remark [Host] (state' : State) :
    (Progress.running state' remark).advance table' =
      State.settle table'
        { state' with pc := state'.pc + 1, next := state'.pc + 1 } := by
  obtain ⟨comment, hidle⟩ := hremarked.idle
  rw [Progress.advance, State.dispatch, hidle]
  rfl

theorem settle [Host] {pc pc' : Int} {state state' : State}
    (hstates : (remarking front.length).States
      (remarking front.length).Course pc pc' state state') :
    Progress.RemarkedSoon front table table'
      (State.settle table { state with pc := state.next })
      (State.settle table' { state' with pc := state'.next }) := by
  obtain ⟨hplace, hrunning⟩ := hstates.course
  change state'.running = state.running at hrunning
  rcases hplace with hnext | ⟨hnext, hnext'⟩
  · change state'.next = remarkedIndex _ state.next at hnext
    refine .now (hremarked.settle_aligned hrunning ?_)
    exact { hstates with pc := rfl, pc' := hnext }
  · change state.next = _ at hnext
    change state'.next = _ at hnext'
    by_cases hrun : state.running = true
    · have hsettle' : State.settle table' { state' with pc := state'.next } =
          .running { state' with pc := state'.next } remark := by
        have hfound : table'.line? state'.next = some remark := by
          rw [hnext', hremarked.line?_remark]
        exact Progress.settle_of_line?
          { state' with pc := state'.next } (hrunning.trans hrun) hfound
      have hindex : (front.length : Int) + 1 =
          remarkedIndex front.length front.length :=
        (remarkedIndex_of_ge (Int.le_refl _)).symm
      rw [hsettle']
      refine .soon ?_ ?_
      · rw [State.output_settle]
        exact hstates.output
      · rw [hremarked.advance_remark]
        refine hremarked.settle_aligned hrunning
          { hstates with pc := rfl, pc' := ?_, course := ⟨?_, hrunning⟩ }
        · change state'.next + 1 = remarkedIndex _ state.next
          rw [hnext, hnext', hindex]
        · refine Or.inl ?_
          change state'.next + 1 = remarkedIndex _ state.next
          rw [hnext, hnext', hindex]
    · refine .now ?_
      rw [State.settle, State.settle, if_neg hrun,
        if_neg (hrunning ▸ hrun : ¬state'.running = true)]
      exact .ended hstates.output

/-- Results that answer to each other lead the two runs on alike. -/
theorem resume [Host] {pc pc' : Int} {current : Line}
    {result result' : EStateM.Result Halt State Unit}
    (hresults : resultsRelated
      (fun _ _ => (remarking front.length).States
        (remarking front.length).Course pc pc')
      ((remarking front.length).Stops pc pc') result result') :
    Progress.RemarkedSoon front table table'
      (State.resume table current result)
      (State.resume table' current result') := by
  cases result <;> cases result'
  case ok.ok => exact hremarked.settle hresults
  case ok.error => exact hresults.elim
  case error.ok => exact hresults.elim
  case error.error halt final halt' final' =>
    obtain ⟨rfl, hfinal⟩ := hresults
    refine .now ?_
    cases halt with
    | error error =>
        apply Progress.Remarked.ended
        change final'.output.push
          (Diagnostic.text ⟨(error.renumber id).message, current.number⟩) = _
        rw [hfinal.output, error.renumber_id]
        rfl
    | defect defect => exact .broken defect hfinal.output

section Advance

variable (hunnamed : ∀ line ∈ table.lines,
  remark.number ∉ line.statement.jumps)

include hunnamed

/-- One dispatch in each of the two runs. -/
theorem advance [Host] {progress progress' : Progress}
    (hprogress : Progress.Remarked front table progress progress') :
    Progress.RemarkedSoon front table table' (progress.advance table)
      (progress'.advance table') := by
  cases hprogress with
  | ended houtput => exact .now (.ended houtput)
  | broken defect houtput => exact .now (.broken defect houtput)
  | @running state state' current hrunning hstates hcurrent =>
      have hjumps : ∀ target ∈ current.statement.jumps,
          target ∈ {target | remark.number ≠ target} := by
        rintro target htarget rfl
        exact hunnamed current (mem_of_line? hcurrent) htarget
      exact hremarked.resume (hstates.dispatch hremarked.tables
        (place_remarkedIndex_succ _ _) rfl
        (current.statement.renumber_id).symm hjumps fun _ _ => trivial)

theorem follows [Host] : Table.Follows table table'
    (Progress.RemarkedSoon front table table') where
  start := by
    have hfresh : (remarking front.length).States
        (remarking front.length).Course 0 0
        { State.fresh with
          running := true
          notes := #[.organised table.size table.data.length] }
        { State.fresh with
          running := true
          notes := #[.organised table'.size table'.data.length] } :=
      { memory := rfl, pc := rfl, pc' := rfl
        course := ⟨place_zero front.length, rfl⟩
        dataPosition := rfl, loops := rfl
        loops_lead := fun _ hloop => absurd hloop List.not_mem_nil
        output := rfl }
    exact hremarked.settle hfresh
  output hprogress := by
    cases hprogress with
    | now hnow => exact hnow.output
    | soon houtput _ => exact houtput
  ending hprogress := by
    cases hprogress with
    | now hnow => exact ⟨0, hnow.ending⟩
    | soon _ hsoon =>
        refine ⟨1, ?_⟩
        rw [Progress.advanceMany_succ]
        exact hsoon.ending
  advance hprogress := by
    cases hprogress with
    | now hnow => exact .last hnow.output (hremarked.advance hunnamed hnow)
    | soon houtput hsoon =>
        exact .more houtput
          (.last hsoon.output (hremarked.advance hunnamed hsoon))

end Advance

theorem sameOutput [Host] {program : Program} (hprogram : table = ofProgram program)
    (hunnamed : remark.number ∉ program.jumps) : SameOutput table table' := by
  subst hprogram
  refine (hremarked.follows ?_).sameOutput
  intro line hline hnamed
  exact hunnamed (List.mem_flatMap.mpr
    ⟨line, Program.mem_arrange.mp hline, hnamed⟩)

end Table.RemarkedAt

/-- A remark can be put anywhere in a program, with any number to which no
GOTO leads, and the program puts out the same as before. -/
theorem Table.remark_sameOutput [Host] (front back : Program) (number : Option Int)
    (comment : String)
    (hunnamed : number ∉ Program.jumps (front ++ back)) :
    SameOutput (ofProgram (front ++ back))
      (ofProgram (front ++ ⟨number, .remark comment⟩ :: back)) := by
  obtain ⟨before, hremarked⟩ :=
    remarkedAt_ofProgram front back number comment
  exact hremarked.sameOutput rfl hunnamed

/-- A remark right behind a FOR, in a program without an end. -/
theorem Table.remark_sameOutput_of_loop :
    let front : Program :=
      [⟨some 10, .forLoop "I" (.number 1) (.number 2) none⟩]
    let back : Program :=
      [⟨some 20, .print [.reference "I" []] [] none⟩, ⟨some 30, .next []⟩,
       ⟨some 40, .ifThen (.number 1) (.goto (some 10))⟩]
    some 15 ∉ Program.jumps (front ++ back) ∧
    SameOutput (ofProgram (front ++ back))
      (ofProgram (front ++ ⟨some 15, .remark "again"⟩ :: back)) := by
  intro front back
  have hunnamed : some 15 ∉ Program.jumps (front ++ back) := by decide
  exact ⟨hunnamed, remark_sameOutput front back (some 15) "again" hunnamed⟩

/-! ## Programs that are read from a text -/

theorem Assigns.jumps {depth : Nat} {tokens : List Token} {statement : Statement}
    (hassigns : Assigns depth tokens statement) : statement.jumps = [] := by
  cases hassigns
  rfl

theorem Phrase.Derives.none_notMem_jumps {phrase : Phrase} {depth : Nat}
    {tokens : List Token} {statement : Statement}
    (hderives : phrase.Derives depth tokens statement) : none ∉ statement.jumps := by
  induction hderives with
  | headed hfirst hbody =>
      cases hbody with
      | assign hassigns => simp [hassigns.jumps]
      | _ => simp [Statement.jumps]
  | assign hassigns => simp [hassigns.jumps]
  | ifThen _ _ _ _ ih => exact ih
  | ifElse _ _ _ _ _ _ _ ihAccepted ihOtherwise =>
      intro hnone
      exact (List.mem_append.mp hnone).elim ihAccepted ihOtherwise
  | jump hnumber => simp [Statement.jumps]
  | nested _ ih => exact ih

theorem Line.Derives.none_notMem_jumps {depth : Nat} {tokens : List Token}
    {line : Line} (hderives : Line.Derives depth tokens line) :
    none ∉ line.statement.jumps := by
  cases hderives with
  | numbered hnumber hbody => exact hbody.none_notMem_jumps
  | unnumbered hbody => exact hbody.none_notMem_jumps

theorem Program.Derives.none_notMem_jumps {depth : Nat} {tokens : List Token}
    {program : Program} (hderives : Program.Derives depth tokens program) :
    none ∉ program.jumps := by
  induction hderives with
  | finish hfinal => exact List.not_mem_nil
  | lastLine hline hfinal =>
      rw [Program.jumps, List.flatMap_singleton]
      exact hline.none_notMem_jumps
  | blank hnewline hothers ih => exact ih
  | line hline hnewline hothers ih =>
      rw [Program.jumps, List.flatMap_cons]
      intro hnone
      exact (List.mem_append.mp hnone).elim hline.none_notMem_jumps ih

/-- Every GOTO of a program text has a target. -/
theorem Program.none_notMem_jumps [Host] {source : String} {program : Program}
    (hparse : Program.parse source = .ok program) : none ∉ program.jumps := by
  obtain ⟨tokens, -, hderives⟩ := Program.exists_derives hparse
  exact hderives.none_notMem_jumps

/-- A remark without a number can be put anywhere in a program that is read
from a text. -/
theorem Table.unnumbered_remark_sameOutput [Host] {source : String}
    {front back : Program} (hparse : Program.parse source = .ok (front ++ back)) (comment : String) :
    SameOutput (ofProgram (front ++ back))
      (ofProgram (front ++ ⟨none, .remark comment⟩ :: back)) := by
  obtain ⟨before, hremarked⟩ := remarkedAt_ofProgram front back none comment
  exact hremarked.sameOutput rfl (Program.none_notMem_jumps hparse)

end NumberedBasic
