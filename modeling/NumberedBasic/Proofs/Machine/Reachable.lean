import NumberedBasic.Proofs.Machine.Invariant

/-!
# The invariant of a run

Every action of a statement keeps the state sound, with the program counter
at the statement.  A statement that opens loops needs to stand where the table
says that it does; this holds of the statement at hand and of its branches.
-/

namespace NumberedBasic

/-- A sound state with the statement at the index at hand. -/
def State.SoundAt (table : Table) (index : Int) (state : State) : Prop :=
  state.Sound table ∧ state.pc = index

namespace Exec

variable {table : Table} {index : Int}

theorem keeps_note (added : Note) :
    Keeps (State.SoundAt table index) (note added) anything :=
  Keeps.modify fun _ hstate => ⟨{ hstate.1 with }, hstate.2⟩

theorem keeps_write (entry : String) :
    Keeps (State.SoundAt table index) (write entry) anything :=
  Keeps.modify fun _ hstate => ⟨{ hstate.1 with }, hstate.2⟩

theorem keeps_jump {target : Int} (htarget : table.IsPlace target) :
    Keeps (State.SoundAt table index) (jump target) anything := by
  apply Keeps.bind Keeps.get
  intro _ _
  apply Keeps.bind (keeps_note _)
  intro _ _
  exact Keeps.modify fun _ hstate =>
    ⟨{ hstate.1 with next_place := htarget }, hstate.2⟩

theorem keeps_setScalar (name : String) (value : Value) :
    Keeps (State.SoundAt table index) (setScalar name value) anything :=
  Keeps.modify fun _ hstate =>
    ⟨{ hstate.1 with loops := hstate.1.loops.set name value }, hstate.2⟩

theorem keeps_setArrays {arrays : Arrays} (harrays : arrays.Sound) :
    Keeps (State.SoundAt table index)
      (modify fun state => { state with arrays := arrays }) anything :=
  Keeps.modify fun _ hstate =>
    ⟨{ hstate.1 with arrays := harrays }, hstate.2⟩

theorem keeps_findLoop (name : Option String) :
    Keeps (State.SoundAt table index) (findLoop name)
      fun loop => table.OpensAt loop.name loop.forIndex := by
  apply Keeps.bind Keeps.get
  intro state hstate
  exact (Keeps.ofRun _).weaken fun loop hloop =>
    hstate.1.loops.opened loop (Loops.mem_of_find hloop)

theorem keeps_iterate {loop : Loop}
    (hloop : table.OpensAt loop.name loop.forIndex) :
    Keeps (State.SoundAt table index) (iterate loop)
      fun moved => moved.1 = loop.advance := by
  apply Keeps.bind
  · exact Keeps.modify fun state hstate =>
      ⟨{ hstate.1 with loops := hstate.1.loops.changed hloop }, hstate.2⟩
  · intro _ _
    exact Keeps.pure rfl

theorem keeps_closeLoop (loop : Loop) :
    Keeps (State.SoundAt table index) (closeLoop loop) anything := by
  apply Meets.get_bind
  intro state hstate
  refine Meets.bind (?_ : Meets _ _ (fun remaining same =>
    same = state ∧ state.loops.closed loop = .ok remaining) _) ?_
  · apply Meets.weaken (Keeps.ofExcept _)
    · exact fun _ hsame => hsame
    · exact fun _ _ hkept => hkept
    · rintro _ _ rfl
      exact hstate
  · intro remaining
    refine Meets.bind
      (?_ : Meets _ _ (fun _ => State.SoundAt table index) _) ?_
    · apply Meets.modify
      rintro _ ⟨rfl, hclosed⟩
      exact ⟨{ hstate.1 with loops := hstate.1.loops.closed hclosed },
        hstate.2⟩
    · exact fun _ => keeps_note _

theorem keeps_readData (table : Table) :
    Keeps (State.SoundAt table index) (readData table) anything := by
  apply Keeps.bind Keeps.get
  intro before _
  dsimp only
  split
  next value hvalue =>
    obtain ⟨hrange, -⟩ := List.getElem?_eq_some_iff.mp hvalue
    apply Keeps.bind
    · exact Keeps.modify fun _ hstate =>
        ⟨{ hstate.1 with data_range := hrange }, hstate.2⟩
    · exact fun _ _ => Keeps.pure trivial
  next => exact Keeps.fail _

theorem keeps_setElement (name : String) (at_ : List Int) (value : Value) :
    Keeps (State.SoundAt table index) (setElement name at_ value) anything := by
  apply Keeps.bind (Keeps.compute _)
  intro block _
  apply Keeps.ite (keeps_note _)
  apply Keeps.bind (Keeps.compute _)
  rintro arrays ⟨state, hstate, harrays⟩
  exact keeps_setArrays (hstate.1.arrays.set harrays)

theorem keeps_assign (place : Place) (value : Value) :
    Keeps (State.SoundAt table index) (assign place value) anything := by
  rw [assign]
  cases place.indices with
  | nil => exact keeps_setScalar _ _
  | cons first others =>
      apply Keeps.bind (Keeps.compute _)
      intro _ _
      apply Keeps.bind (Keeps.compute _)
      intro _ _
      exact keeps_setElement _ _ _

theorem keeps_declare [Host] (declaration : Declaration) :
    Keeps (State.SoundAt table index) (declare declaration) anything := by
  apply Keeps.bind (Keeps.compute _)
  intro bounds _
  apply Keeps.ite (Keeps.fail _)
  have hallocate : Keeps (State.SoundAt table index)
      (do
        let arrays ← ofRun ((← get).arrays.declare declaration.name bounds)
        modify fun state => { state with arrays := arrays }) anything := by
    apply Keeps.bind Keeps.get
    intro state hstate
    apply Keeps.bind (Keeps.ofRun _)
    intro arrays harrays
    exact keeps_setArrays (hstate.1.arrays.declare harrays)
  apply Keeps.bind Keeps.get
  intro _ _
  apply Keeps.ite
  · exact Keeps.bind (keeps_note _) fun _ _ => hallocate
  · exact hallocate

theorem keeps_readInto (target : Place) :
    Keeps (State.SoundAt table index) (readInto table target) anything := by
  apply Keeps.bind (keeps_readData table)
  intro value _
  exact keeps_assign target value

theorem keeps_nextLoops (names : List (Option String)) :
    Keeps (State.SoundAt table index) (nextLoops names) anything := by
  induction names with
  | nil => exact Keeps.pure trivial
  | cons name others ih =>
      apply Keeps.bind (keeps_findLoop name)
      intro loop hloop
      apply Keeps.bind (keeps_iterate hloop)
      rintro ⟨moved, more⟩ rfl
      apply Keeps.bind (keeps_setScalar _ _)
      intro _ _
      apply Keeps.ite
      · exact keeps_jump hloop.isPlace_succ
      · apply Keeps.bind (keeps_closeLoop _)
        exact fun _ _ => ih

/-- Between opening a loop and assigning its variable the state is not
sound; nothing can stop the statement there. -/
theorem keeps_openLoop_setScalar (loop : Loop)
    (hloop : table.OpensAt loop.name loop.forIndex) (value : Value) :
    Keeps (State.SoundAt table index)
      (do
        openLoop loop
        setScalar loop.name value) anything :=
  fun _ hstate =>
    ⟨⟨{ hstate.1 with loops := hstate.1.loops.opened_set hloop value },
      hstate.2⟩, trivial⟩

theorem keeps_openFor {name : String} (hopens : table.OpensAt name index)
    (start stop : Expr) (step : Option Expr) :
    Keeps (State.SoundAt table index) (openFor name start stop step)
      anything := by
  have hopen (startValue stopValue stepValue : Float) :
      Keeps (State.SoundAt table index)
        (do
          openLoop ⟨name, startValue, stopValue, stepValue, (← get).pc⟩
          setScalar name (.number startValue)) anything := by
    apply Keeps.bind Keeps.get
    rintro state ⟨-, rfl⟩
    exact keeps_openLoop_setScalar
      ⟨name, startValue, stopValue, stepValue, state.pc⟩ hopens _
  apply Keeps.bind (Keeps.compute _)
  intro startValue _
  apply Keeps.bind (Keeps.compute _)
  intro stopValue _
  cases step with
  | none => exact hopen startValue stopValue 1
  | some step =>
      apply Keeps.bind (Keeps.compute _)
      exact fun stepValue _ => hopen startValue stopValue stepValue

end Exec

/-- A statement keeps the state sound, whether it is completed or stops, if it
stands in the table where it says that its loops begin. -/
theorem Statement.keeps_exec [Host] (program : Program) {index : Int}
    (statement : Statement)
    (hopens : ∀ name, statement.opens name = true →
      (Table.ofProgram program).OpensAt name index) :
    Exec.Keeps (State.SoundAt (Table.ofProgram program) index)
      (statement.exec (Table.ofProgram program)) Exec.anything := by
  induction statement with
  | print items separators ending =>
      apply Exec.Keeps.bind (Exec.Keeps.compute _)
      exact fun _ _ => Exec.keeps_write _
  | assign target value =>
      apply Exec.Keeps.bind (Exec.Keeps.compute _)
      exact fun value _ => Exec.keeps_assign target value
  | goto target =>
      apply Exec.Keeps.bind (Exec.Keeps.ofRun _)
      exact fun _ hfound => Exec.keeps_jump (Table.isPlace_of_findLine hfound)
  | ifThen condition branch ih =>
      apply Exec.Keeps.bind (Exec.Keeps.compute _)
      intro value _
      exact Exec.Keeps.ite (ih hopens) (Exec.Keeps.pure trivial)
  | ifElse condition branch otherwise ihBranch ihOtherwise =>
      apply Exec.Keeps.bind (Exec.Keeps.compute _)
      intro value _
      apply Exec.Keeps.ite
      · exact ihBranch fun name hname => hopens name (by simp [opens, hname])
      · exact ihOtherwise fun name hname => hopens name (by simp [opens, hname])
  | forLoop name start limit step =>
      exact Exec.keeps_openFor (hopens name (by simp [opens])) start limit step
  | next names => exact Exec.keeps_nextLoops _
  | data values => exact Exec.Keeps.pure trivial
  | read targets => exact Exec.Keeps.forM fun _ _ => Exec.keeps_readInto _
  | restore target =>
      cases target with
      | none =>
          exact Exec.Keeps.modify fun _ hstate =>
            ⟨{ hstate.1 with data_range := Nat.zero_le _ }, hstate.2⟩
      | some target =>
          have hrange := Table.dataPosition_le program target
          exact Exec.Keeps.modify fun _ hstate =>
            ⟨{ hstate.1 with data_range := hrange }, hstate.2⟩
  | dim arrays => exact Exec.Keeps.forM fun _ _ => Exec.keeps_declare _
  | stop =>
      exact Exec.Keeps.modify fun _ hstate => ⟨{ hstate.1 with }, hstate.2⟩
  | remark comment => exact Exec.Keeps.pure trivial
  | unknown kind => exact Exec.Keeps.fail _

/-! ## Runs -/

/-- A property that holds at the beginning of a run and survives a dispatch
holds after any number of dispatches. -/
theorem Progress.after_induction [Host] {table : Table} {property : Progress → Prop}
    (hstart : property (.start table))
    (hadvance : ∀ progress, property progress →
      property (progress.advance table)) (count : Nat) :
    property (.after table count) := by
  have hmany : ∀ progress, property progress →
      property (progress.advanceMany table count) := by
    induction count with
    | zero => exact fun _ hprogress => hprogress
    | succ count ih =>
        intro progress hprogress
        rw [Progress.advanceMany_succ]
        exact ih _ (hadvance progress hprogress)
  exact hmany _ hstart

/-- The state is sound, and a line about to be dispatched is the one at the
program counter. -/
structure Progress.Sound (table : Table) (progress : Progress) : Prop where
  state : progress.state.Sound table
  at_hand : ∀ state line, progress = .running state line →
    table.line? state.pc = some line

theorem State.Sound.settle {table : Table} {state : State}
    (hstate : state.Sound table) : (state.settle table).Sound table := by
  rw [State.settle]
  split
  next line hline =>
    refine ⟨hstate, ?_⟩
    rintro _ _ ⟨⟩
    split at hline
    · exact hline
    · cases hline
  next => exact ⟨{ hstate with }, fun _ _ hrunning => by cases hrunning⟩

/-- Dispatching the line at the program counter ends in a sound state, also
if the statement stops half-way. -/
theorem State.Sound.dispatch [Host] {program : Program} {state : State} {line : Line}
    (hstate : state.Sound (Table.ofProgram program))
    (hline : (Table.ofProgram program).line? state.pc = some line) :
    match state.dispatch (Table.ofProgram program) line with
    | .ok _ final => final.SoundAt (Table.ofProgram program) state.pc
    | .error _ final => final.SoundAt (Table.ofProgram program) state.pc := by
  have hready : State.SoundAt (Table.ofProgram program) state.pc
      { state with next := state.pc + 1 } :=
    ⟨{ hstate with next_place := Table.isPlace_succ hline }, rfl⟩
  have hkept := Statement.keeps_exec program line.statement
    (fun name hname => ⟨line, hline, hname⟩) _ hready
  rw [State.dispatch]
  split
  next value final hresult =>
    rw [hresult] at hkept
    exact hkept.1
  next halt final hresult =>
    rw [hresult] at hkept
    exact hkept

theorem Progress.Sound.advance [Host] {program : Program} {progress : Progress}
    (hprogress : progress.Sound (Table.ofProgram program)) :
    (progress.advance (Table.ofProgram program)).Sound
      (Table.ofProgram program) := by
  cases progress with
  | running state line =>
      have hstate : state.Sound (Table.ofProgram program) := hprogress.state
      have hfinal := hstate.dispatch (hprogress.at_hand state line rfl)
      rw [Progress.advance]
      cases hresult : state.dispatch (Table.ofProgram program) line with
      | ok value final =>
          rw [hresult] at hfinal
          exact State.Sound.settle
            { hfinal.1 with pc_place := hfinal.1.next_place }
      | error halt final =>
          rw [hresult] at hfinal
          cases halt <;>
            exact ⟨{ hfinal.1 with }, fun _ _ hrunning => by cases hrunning⟩
  | ended state => exact hprogress
  | broken defect state => exact hprogress

theorem Progress.sound_start (table : Table) : (start table).Sound table := by
  have hbeginning : table.IsPlace 0 := ⟨Int.le_refl _, Int.natCast_nonneg _⟩
  apply State.Sound.settle
  exact
    { pc_place := hbeginning
      next_place := hbeginning
      data_range := Nat.zero_le _
      loops := ⟨List.nodup_nil, by simp [State.fresh], by simp [State.fresh]⟩
      arrays := Arrays.sound_empty }

theorem Progress.sound_after [Host] (program : Program) (count : Nat) :
    (after (Table.ofProgram program) count).Sound (Table.ofProgram program) :=
  after_induction (sound_start _) (fun _ => Sound.advance) count

/-- In every state of a run, between dispatches and right after a statement
was completed or stopped half-way, the counters, the open loops and the arrays
are as they should be; a loop is what its variable is looked up to and leads
back into the table; and a dispatched line lies within the table. -/
theorem Progress.reachable_sound [Host] (program : Program) (count : Nat) :
    let table := Table.ofProgram program
    let progress := after table count
    progress.state.Sound table ∧
    (∀ loop ∈ progress.state.loops,
      progress.state.loops.find (some loop.name) = .ok loop ∧
      table.IsPlace (loop.forIndex + 1)) ∧
    ∀ state line, progress = .running state line →
      0 ≤ state.pc ∧ state.pc < table.size ∧
      table.line? state.pc = some line ∧
      match state.dispatch table line with
      | .ok _ final => final.Sound table ∧ final.pc = state.pc
      | .error _ final => final.Sound table ∧ final.pc = state.pc := by
  intro table progress
  have hsound : progress.Sound table := sound_after program count
  refine ⟨hsound.state, ?_, ?_⟩
  · intro loop hloop
    have hloops := hsound.state.loops
    exact ⟨Loops.find_of_mem hloops.distinct hloop,
      (hloops.opened loop hloop).isPlace_succ⟩
  · intro state line hrunning
    have hline := hsound.at_hand state line hrunning
    have hstate : state.Sound table := by
      have := hsound.state
      rwa [hrunning] at this
    obtain ⟨hnonneg, hlength⟩ := Table.line?_range hline
    exact ⟨hnonneg, hlength, hline, hstate.dispatch hline⟩

end NumberedBasic
