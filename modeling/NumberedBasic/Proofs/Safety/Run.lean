import NumberedBasic.Proofs.Machine.Reachable
import NumberedBasic.Proofs.Safety.Evaluation
import NumberedBasic.Proofs.Table.Order

/-!
# Programs from source text cannot go wrong

Every action of a statement of known parts keeps the arrays as they should be
and stops with errors of the program only.  So does every statement, hence
every dispatch of a run.
-/

namespace NumberedBasic

namespace Exec

section Safe

variable {α β : Type}

/-- The arrays stay as they should be, and where the action stops the fault
lies with the program.  Its result has the given property. -/
def Safe (action : Exec α) (result : α → Prop) : Prop :=
  Meets (fun state => state.arrays.Sound) action
    (fun value state => state.arrays.Sound ∧ result value)
    (fun halt _ => halt.ofProgram = true)

theorem Safe.bind {action : Exec α} {next : α → Exec β} {middle : α → Prop}
    {result : β → Prop} (haction : Safe action middle)
    (hnext : ∀ value, middle value → Safe (next value) result) :
    Safe (action >>= next) result := by
  apply Meets.bind haction
  intro value state hstate
  exact hnext value hstate.2 state hstate.1

theorem Safe.pure {result : α → Prop} {value : α} (hvalue : result value) :
    Safe (Pure.pure value) result :=
  fun _ hstate => ⟨hstate, hvalue⟩

theorem Safe.fail {result : α → Prop} {error : RunError}
    (herror : (Halt.error error).ofProgram = true) :
    Safe (fail error : Exec α) result :=
  fun _ _ => herror

theorem Safe.get : Safe get fun state => state.arrays.Sound :=
  fun _ hstate => ⟨hstate, hstate⟩

/-- A change that leaves the arrays alone. -/
theorem Safe.modify {change : State → State}
    (hchange : ∀ state, (change state).arrays = state.arrays) :
    Safe (modify change) anything := by
  apply Meets.modify
  intro state hstate
  rw [hchange state]
  exact ⟨hstate, trivial⟩

theorem safe_setArrays {arrays : Arrays} (harrays : arrays.Sound) :
    Safe (modify fun state => { state with arrays := arrays }) anything :=
  Meets.modify fun _ _ => ⟨harrays, trivial⟩

theorem Safe.ofRun {outcome : Except RunError α}
    (houtcome : ∀ error, outcome = .error error →
      (Halt.error error).ofProgram = true) :
    Safe (ofRun outcome) fun value => outcome = .ok value := by
  cases outcome with
  | ok value => exact Safe.pure rfl
  | error error => exact Safe.fail (houtcome error rfl)

theorem Safe.ofExcept {outcome : Except Halt α}
    (houtcome : FailsByProgram outcome) :
    Safe (ofExcept outcome) fun value => outcome = .ok value := by
  cases outcome with
  | ok value => exact Safe.pure rfl
  | error halt => exact fun _ _ => houtcome halt rfl

theorem Safe.compute {outcome : Memory → Except Halt α}
    (houtcome : ∀ memory : Memory, memory.arrays.Sound →
      FailsByProgram (outcome memory)) :
    Safe (compute outcome) fun value =>
      ∃ memory : Memory, memory.arrays.Sound ∧ outcome memory = .ok value := by
  apply Safe.get.bind
  intro state hstate
  apply Meets.weaken (Safe.ofExcept (houtcome state.toMemory hstate))
  · exact fun _ hsound => hsound
  · exact fun value _ hvalue => ⟨hvalue.1, state.toMemory, hstate, hvalue.2⟩
  · exact fun _ _ hstopped => hstopped

theorem Safe.ite {condition : Bool} {first second : Exec α}
    {result : α → Prop} (hfirst : Safe first result)
    (hsecond : Safe second result) :
    Safe (if condition then first else second) result := by
  cases condition
  · exact hsecond
  · exact hfirst

theorem Safe.forM {items : List β} {action : β → Exec Unit}
    (haction : ∀ item ∈ items, Safe (action item) anything) :
    Safe (items.forM action) anything := by
  induction items with
  | nil => exact Safe.pure trivial
  | cons item items ih =>
      rw [List.forall_mem_cons] at haction
      apply haction.1.bind
      exact fun _ _ => ih haction.2

end Safe

/-! ## Actions -/

theorem safe_note (added : Note) : Safe (note added) anything :=
  Safe.modify fun _ => rfl

theorem safe_jump (target : Int) : Safe (jump target) anything := by
  apply Safe.get.bind
  intro _ _
  apply (safe_note _).bind
  exact fun _ _ => Safe.modify fun _ => rfl

theorem safe_setScalar (name : String) (value : Value) :
    Safe (setScalar name value) anything :=
  Safe.modify fun _ => rfl

theorem safe_readData (table : Table) : Safe (readData table) anything := by
  apply Safe.get.bind
  intro before _
  dsimp only
  split
  · refine Safe.bind (Safe.modify fun _ => rfl) ?_
    exact fun _ _ => Safe.pure trivial
  · exact Safe.fail rfl

theorem safe_setElement (name : String) (index : List Int) (value : Value) :
    Safe (setElement name index value) anything := by
  apply (Safe.compute fun memory _ =>
    memory.arrays.failsByProgram_block name).bind
  intro block _
  apply Safe.ite (safe_note _)
  apply (Safe.compute fun memory hmemory =>
    hmemory.failsByProgram_set name index value).bind
  rintro arrays ⟨memory, hmemory, harrays⟩
  exact safe_setArrays (hmemory.set harrays)

theorem safe_assign {place : Place} (hplace : place.Known) (value : Value) :
    Safe (assign place value) anything := by
  obtain ⟨name, indices⟩ := place
  cases indices with
  | nil => exact safe_setScalar _ _
  | cons first others =>
      apply (Safe.compute fun memory _ =>
        memory.arrays.failsByProgram_block name).bind
      intro _ _
      apply (Safe.compute fun memory hmemory =>
        failsByProgram_known_indices hmemory .arrayIndex hplace).bind
      exact fun index _ => safe_setElement name index value

theorem safe_declare [Host] {declaration : Declaration}
    (hbounds : ∀ bound ∈ declaration.bounds, bound.Known) :
    Safe (declare declaration) anything := by
  apply (Safe.compute fun memory hmemory =>
    failsByProgram_known_indices hmemory .arrayDimension hbounds).bind
  intro bounds _
  apply Safe.ite (Safe.fail rfl)
  have hallocate : Safe
      (do
        let arrays ← ofRun ((← get).arrays.declare declaration.name bounds)
        modify fun state => { state with arrays := arrays }) anything := by
    apply Safe.get.bind
    intro state hstate
    refine Safe.bind (Safe.ofRun ?_) ?_
    · intro error herror
      rcases Arrays.error_of_declare herror with rfl | rfl <;> rfl
    · exact fun arrays harrays => safe_setArrays (hstate.declare harrays)
  apply Safe.get.bind
  intro _ _
  apply Safe.ite
  · exact (safe_note _).bind fun _ _ => hallocate
  · exact hallocate

theorem safe_readInto (table : Table) {target : Place} (htarget : target.Known) :
    Safe (readInto table target) anything := by
  apply (safe_readData table).bind
  exact fun value _ => safe_assign htarget value

theorem safe_openFor (name : String) {start limit : Expr} {step : Option Expr}
    (hstart : start.Known) (hlimit : limit.Known)
    (hstep : ∀ expr, step = some expr → expr.Known) :
    Safe (openFor name start limit step) anything := by
  have hbound {expr : Expr} (hexpr : expr.Known) :
      Safe (evalLoopBound expr) anything := by
    apply Meets.weaken (Safe.compute fun memory hmemory =>
      hexpr.failsByProgram_evalNumber hmemory .loopBound)
    · exact fun _ hsound => hsound
    · exact fun _ _ hvalue => ⟨hvalue.1, trivial⟩
    · exact fun _ _ hstopped => hstopped
  have hopen (startValue stopValue stepValue : Float) :
      Safe (do
        openLoop ⟨name, startValue, stopValue, stepValue, (← get).pc⟩
        setScalar name (.number startValue)) anything := by
    apply Safe.get.bind
    intro state _
    refine Safe.bind (Safe.bind (Safe.modify fun _ => rfl)
      fun _ _ => safe_note _) ?_
    exact fun _ _ => safe_setScalar name _
  apply (hbound hstart).bind
  intro startValue _
  apply (hbound hlimit).bind
  intro stopValue _
  cases step with
  | none => exact hopen startValue stopValue 1
  | some step =>
      apply (hbound (hstep step rfl)).bind
      exact fun stepValue _ => hopen startValue stopValue stepValue

/-! ## Loops -/

/-- A loop on the variable is open, so that it can be closed. -/
def HasLoop (name : String) (state : State) : Prop :=
  state.arrays.Sound ∧ state.loops.any (·.name = name) = true

theorem meets_findLoop (name : Option String) :
    Meets (fun state => state.arrays.Sound) (findLoop name)
      (fun loop => HasLoop loop.name) (fun halt _ => halt.ofProgram = true) := by
  apply Meets.get_bind
  intro state hstate _ hsame
  obtain rfl := hsame
  cases hfind : Loops.find _ name with
  | ok loop =>
      refine ⟨hstate, List.any_eq_true.mpr ⟨loop, ?_, by simp⟩⟩
      exact Loops.mem_of_find hfind
  | error error =>
      rw [Loops.error_of_find hfind]
      rfl

theorem meets_iterate (loop : Loop) :
    Meets (HasLoop loop.name) (iterate loop)
      (fun moved => HasLoop moved.1.name) (fun halt _ => halt.ofProgram = true) := by
  intro state hstate
  refine ⟨hstate.1, ?_⟩
  obtain ⟨other, hother, hname⟩ := List.any_eq_true.mp hstate.2
  have hmoved : loop.name ∈ (state.loops.changed loop.advance).map Loop.name := by
    rw [Loops.map_name_changed]
    exact List.mem_map.mpr ⟨other, hother, of_decide_eq_true hname⟩
  obtain ⟨moved, hmem, hsame⟩ := List.mem_map.mp hmoved
  exact List.any_eq_true.mpr ⟨moved, hmem, decide_eq_true hsame⟩

theorem meets_closeLoop (loop : Loop) :
    Meets (HasLoop loop.name) (closeLoop loop)
      (fun _ state => state.arrays.Sound)
      (fun halt _ => halt.ofProgram = true) := by
  apply Meets.get_bind
  intro before hbefore
  have hclosed : before.loops.closed loop =
      .ok (before.loops.filter (·.name ≠ loop.name)) := if_pos hbefore.2
  rw [hclosed]
  rintro _ rfl
  exact hbefore.1

theorem safe_nextLoops (names : List (Option String)) :
    Safe (nextLoops names) anything := by
  induction names with
  | nil => exact Safe.pure trivial
  | cons name others ih =>
      apply Meets.bind (meets_findLoop name)
      intro loop
      apply Meets.bind (meets_iterate loop)
      rintro ⟨moved, more⟩
      have hset : Meets (HasLoop moved.name)
          (setScalar moved.name (.number moved.current))
          (fun _ => HasLoop moved.name) (fun halt _ => halt.ofProgram = true) :=
        Meets.modify fun _ hstate => hstate
      apply Meets.bind hset
      intro _
      cases more with
      | true => exact fun state hstate => safe_jump _ state hstate.1
      | false =>
          apply Meets.bind (meets_closeLoop moved)
          exact fun _ => ih

end Exec

/-! ## Statements -/

theorem Statement.Known.safe_exec [Host] (table : Table) {statement : Statement}
    (hstatement : statement.Known) :
    Exec.Safe (statement.exec table) Exec.anything := by
  have heval {expr : Expr} (hexpr : expr.Known) :=
    Exec.Safe.compute fun memory hmemory => hexpr.failsByProgram_eval hmemory
  induction hstatement with
  | print hitems hseparators =>
      apply (Exec.Safe.compute fun memory hmemory =>
        failsByProgram_printedItems hmemory hitems hseparators).bind
      exact fun _ _ => Exec.Safe.modify fun _ => rfl
  | assign htarget hvalue =>
      apply (heval hvalue).bind
      exact fun value _ => Exec.safe_assign htarget value
  | goto target =>
      refine Exec.Safe.bind (Exec.Safe.ofRun ?_)
        fun index _ => Exec.safe_jump index
      intro error herror
      unfold Table.findLine at herror
      split at herror <;> cases herror
      rfl
  | ifThen hcondition _ ih =>
      apply (heval hcondition).bind
      exact fun _ _ => Exec.Safe.ite ih (Exec.Safe.pure trivial)
  | ifElse hcondition _ _ ihBranch ihOtherwise =>
      apply (heval hcondition).bind
      exact fun _ _ => Exec.Safe.ite ihBranch ihOtherwise
  | forLoop name hstart hlimit hstep =>
      exact Exec.safe_openFor name hstart hlimit hstep
  | next names => exact Exec.safe_nextLoops _
  | data values => exact Exec.Safe.pure trivial
  | read htargets =>
      exact Exec.Safe.forM fun target htarget =>
        Exec.safe_readInto table (htargets target htarget)
  | restore target =>
      cases target <;> exact Exec.Safe.modify fun _ => rfl
  | dim harrays =>
      exact Exec.Safe.forM fun array harray =>
        Exec.safe_declare (harrays array harray)
  | stop => exact Exec.Safe.modify fun _ => rfl
  | remark comment => exact Exec.Safe.pure trivial

/-! ## Runs -/

/-- The run is not over by a fault of the interpreter. -/
def Progress.Unbroken (progress : Progress) : Prop :=
  ∀ defect state, progress ≠ .broken defect state

structure Progress.Faultless (table : Table) (progress : Progress) : Prop where
  sound : progress.Sound table
  unbroken : progress.Unbroken

theorem State.unbroken_settle (table : Table) (state : State) :
    (state.settle table).Unbroken := by
  intro defect other hbroken
  rw [State.settle] at hbroken
  split at hbroken <;> cases hbroken

section Run

variable {program : Program}
  (hknown : ∀ line ∈ program, line.statement.Known)

include hknown

/-- Where a dispatch of a run stops, the fault lies with the program. -/
theorem State.Sound.ofProgram_of_dispatch [Host] {state final : State} {line : Line}
    {halt : Halt} (hstate : state.Sound (Table.ofProgram program))
    (hline : (Table.ofProgram program).line? state.pc = some line)
    (hstopped : state.dispatch (Table.ofProgram program) line =
      .error halt final) : halt.ofProgram = true := by
  have hstatement := hknown line
    (Program.mem_arrange.mp (Table.mem_of_line? hline))
  have hsafe := hstatement.safe_exec (Table.ofProgram program)
    { state with next := state.pc + 1 } hstate.arrays
  rw [State.dispatch] at hstopped
  rw [hstopped] at hsafe
  exact hsafe

theorem Progress.Faultless.advance [Host] {progress : Progress}
    (hprogress : progress.Faultless (Table.ofProgram program)) :
    (progress.advance (Table.ofProgram program)).Faultless
      (Table.ofProgram program) := by
  refine ⟨hprogress.sound.advance, ?_⟩
  cases progress with
  | running state line =>
      rw [Progress.advance]
      cases hresult : state.dispatch (Table.ofProgram program) line with
      | ok value final => exact State.unbroken_settle _ _
      | error halt final =>
          have hhalt := State.Sound.ofProgram_of_dispatch hknown
            hprogress.sound.state (hprogress.sound.at_hand state line rfl) hresult
          cases halt with
          | error error =>
              intro defect other hbroken
              cases hbroken
          | defect defect => cases hhalt
  | ended state => exact hprogress.unbroken
  | broken defect state => exact absurd rfl (hprogress.unbroken defect state)

end Run

/-- However long the program of a source text runs, no dispatched statement
stops but by an error that a program can be at fault for; nothing is ever
looked up in vain. -/
theorem Program.run_cannot_go_wrong [Host] {source : String} {program : Program}
    (hparse : Program.parse source = .ok program) (count : Nat) :
    let table := Table.ofProgram program
    let progress := Progress.after table count
    (∀ defect state, progress ≠ .broken defect state) ∧
    ∀ state line, progress = .running state line →
      ∀ halt final, state.dispatch table line = .error halt final →
        ∃ error, halt = .error error ∧ error.code ∈ ErrorCode.ofPrograms := by
  intro table progress
  have hknown := Program.known_of_parse hparse
  have hfaultless : progress.Faultless table := by
    apply Progress.after_induction
    · exact ⟨Progress.sound_start _, State.unbroken_settle _ _⟩
    · exact fun _ hprogress => hprogress.advance hknown
  refine ⟨hfaultless.unbroken, ?_⟩
  intro state line hrunning halt final hstopped
  have hline := hfaultless.sound.at_hand state line hrunning
  have hstate := hfaultless.sound.state
  rw [hrunning] at hstate
  have hhalt := hstate.ofProgram_of_dispatch hknown hline hstopped
  cases halt with
  | error error => exact ⟨error, rfl, List.contains_iff_mem.mp hhalt⟩
  | defect defect => cases hhalt

/-- A text is printed, and then there is no loop to go on with. -/
def unopened : Program :=
  [⟨none, .print [.text "A"] [] none⟩, ⟨none, .next ["I"]⟩]

theorem Program.run_cannot_go_wrong_of_unopened :
    let table := Table.ofProgram unopened
    Program.parse "PRINT \"A\"\nNEXT I" = .ok unopened ∧
      (∀ count defect state,
        Progress.after table count ≠ .broken defect state) ∧
      ∃ state line final, Progress.after table 1 = .running state line ∧
        state.dispatch table line =
          .error (.error (.nextWithoutFor (some "I"))) final := by
  intro table
  have htokens : tokenise "PRINT \"A\"\nNEXT I" =
      .ok [⟨.keyword .printWord, "PRINT", ⟨1, 1⟩⟩, ⟨.string, "A", ⟨1, 7⟩⟩,
        ⟨.newline, "\n", ⟨1, 10⟩⟩, ⟨.keyword .nextWord, "NEXT", ⟨2, 1⟩⟩,
        ⟨.identifier, "I", ⟨2, 6⟩⟩, ⟨.endOfInput, "", ⟨2, 7⟩⟩] := by rfl
  have hparse : Program.parse "PRINT \"A\"\nNEXT I" = .ok unopened := by
    rw [Program.parse]
    rw [htokens]
    rfl
  exact ⟨hparse, fun count => (Program.run_cannot_go_wrong hparse count).1,
    _, _, _, rfl, rfl⟩

end NumberedBasic
