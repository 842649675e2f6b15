import NumberedBasic.Proofs.Effects.Agreement
import NumberedBasic.Proofs.Loops.Continuation

/-!
# Statements read and write what they name

Two states that a statement cannot tell apart by what it names remain so
through it: it comes to its end in both of them or fails in both of them for
the same cause, and puts out the same.  In each of them it leaves alone what
it does not assign to.
-/

namespace NumberedBasic

/-! ## States alike -/

/-- The states are at the same place, with the same position in the data and
the same open loops, and agree on some variables. -/
structure State.Alike (shared : List Variable) (state state' : State) :
    Prop where
  memory : Memory.AgreeOn shared state.toMemory state'.toMemory
  pc : state'.pc = state.pc
  next : state'.next = state.next
  dataPosition : state'.dataPosition = state.dataPosition
  loops : state'.loops = state.loops

/-- Two states that have come alike from two others: the same has been put out
since, and both go on or neither does. -/
structure State.InStep (shared : List Variable)
    (start start' state state' : State) : Prop
    extends Alike shared state state' where
  written : ∃ entries : List String,
    state.output = start.output ++ entries.toArray ∧
      state'.output = start'.output ++ entries.toArray
  going : ∃ going : Bool, state.running = (start.running && going) ∧
    state'.running = (start'.running && going)

theorem State.Alike.inStep {shared : List Variable} {state state' : State}
    (halike : state.Alike shared state') :
    InStep shared state state' state state' :=
  { halike with
    written := ⟨[], by simp, by simp⟩
    going := ⟨true, by simp, by simp⟩ }

namespace Exec

variable {α β : Type} {shared : List Variable} {start start' : State}

/-- Two actions have both come to their end with the same result, or have both
stopped for the same cause, and in states in step. -/
def EndInStep (shared : List Variable) (start start' : State) :
    EStateM.Result Halt State α → EStateM.Result Halt State α → Prop :=
  resultsRelated
    (fun value value' state state' =>
      State.InStep shared start start' state state' ∧ value' = value)
    (fun halt halt' state state' =>
      State.InStep shared start start' state state' ∧ halt' = halt)

/-- From states in step, the actions end in step. -/
def Parallel (shared : List Variable) (start start' : State)
    (first second : Exec α) : Prop :=
  ∀ state state', State.InStep shared start start' state state' →
    EndInStep shared start start' (first state) (second state')

theorem Parallel.bind {first second : Exec α} {next next' : α → Exec β}
    (hfirst : Parallel shared start start' first second)
    (hnext : ∀ value, Parallel shared start start' (next value) (next' value)) :
    Parallel shared start start' (first >>= next) (second >>= next') := by
  apply Related.bind hfirst
  rintro value value' state state' ⟨hstates, hvalue⟩
  rw [hvalue]
  exact hnext value state state' hstates

theorem Parallel.pure (value : α) :
    Parallel shared start start' (Pure.pure value) (Pure.pure value) :=
  fun _ _ hstates => ⟨hstates, rfl⟩

theorem Parallel.throw (halt : Halt) :
    Parallel shared start start' (throw halt : Exec α) (throw halt) :=
  fun _ _ hstates => ⟨hstates, rfl⟩

theorem Parallel.modify {change change' : State → State}
    (hchange : ∀ {state state'}, State.InStep shared start start' state state' →
      State.InStep shared start start' (change state) (change' state')) :
    Parallel shared start start' (modify change) (modify change') :=
  Related.modify fun _ _ hstates => ⟨hchange hstates, rfl⟩

/-- What comes after a look at both states may rely on them. -/
theorem Parallel.get_bind {next next' : State → Exec α}
    (hnext : ∀ {state state'}, State.InStep shared start start' state state' →
      Parallel shared start start' (next state) (next' state')) :
    Parallel shared start start' (get >>= next) (get >>= next') :=
  fun state state' hstates => hnext hstates state state' hstates

theorem Parallel.ite {condition : Bool} {first first' second second' : Exec α}
    (hfirst : Parallel shared start start' first first')
    (hsecond : Parallel shared start start' second second') :
    Parallel shared start start' (if condition then first else second)
      (if condition then first' else second') :=
  Related.ite (fun _ => hfirst) fun _ => hsecond

theorem Parallel.ofExcept (outcome : Except Halt α) :
    Parallel shared start start' (ofExcept outcome) (ofExcept outcome) := by
  cases outcome with
  | ok value => exact .pure value
  | error halt => exact .throw halt

theorem Parallel.ofRun (outcome : Except RunError α) :
    Parallel shared start start' (ofRun outcome) (ofRun outcome) := by
  cases outcome with
  | ok value => exact .pure value
  | error error => exact .throw _

theorem Parallel.compute {outcome : Memory → Except Halt α}
    (houtcome : ∀ {memory memory'}, Memory.AgreeOn shared memory memory' →
      outcome memory' = outcome memory) :
    Parallel shared start start' (compute outcome) (compute outcome) := by
  apply Parallel.get_bind
  intro state state' hstates
  rw [houtcome hstates.memory]
  exact .ofExcept _

theorem Parallel.forM {items : List β} {action action' : β → Exec Unit}
    (haction : ∀ item ∈ items,
      Parallel shared start start' (action item) (action' item)) :
    Parallel shared start start' (items.forM action) (items.forM action') := by
  induction items with
  | nil => exact .pure _
  | cons item items ih =>
      rw [List.forall_mem_cons] at haction
      exact haction.1.bind fun _ => ih haction.2

/-! ## The actions of a statement -/

theorem parallel_note (added added' : Note) :
    Parallel shared start start' (note added) (note added') :=
  .modify fun hstates => { hstates with }

theorem parallel_write (entry : String) :
    Parallel shared start start' (write entry) (write entry) := by
  apply Parallel.modify
  intro state state' hstates
  obtain ⟨entries, hwritten, hwritten'⟩ := hstates.written
  refine { hstates with written := ⟨entries ++ [entry], ?_, ?_⟩ }
  · simp [hwritten]
  · simp [hwritten']

theorem parallel_setScalar (name : String) (value : Value) :
    Parallel shared start start' (setScalar name value)
      (setScalar name value) :=
  .modify fun hstates =>
    { hstates with memory := hstates.memory.setScalar name value }

theorem parallel_setArrays {name : String}
    {outcome : Memory → Except Halt Arrays}
    (houtcome : ∀ {memory memory'}, Memory.AgreeOn shared memory memory' →
      outcomesRelated (Arrays.ChangedAlike name memory.arrays memory'.arrays)
        (fun halt halt' => halt' = halt) (outcome memory) (outcome memory')) :
    Parallel shared start start'
      (do
        let arrays ← Exec.compute outcome
        modify fun state => { state with arrays := arrays })
      (do
        let arrays ← Exec.compute outcome
        modify fun state => { state with arrays := arrays }) := by
  intro state state' hstates
  have hboth := houtcome hstates.memory
  rw [compute_bind_apply, compute_bind_apply]
  cases houtcome : outcome state.toMemory with
  | error halt =>
      cases houtcome' : outcome state'.toMemory with
      | error halt' =>
          rw [houtcome, houtcome'] at hboth
          exact ⟨hstates, hboth⟩
      | ok changed' =>
          rw [houtcome, houtcome'] at hboth
          exact hboth.elim
  | ok changed =>
      cases houtcome' : outcome state'.toMemory with
      | error halt' =>
          rw [houtcome, houtcome'] at hboth
          exact hboth.elim
      | ok changed' =>
          rw [houtcome, houtcome'] at hboth
          exact ⟨{ hstates with memory := hstates.memory.setArrays hboth }, rfl⟩

theorem parallel_setElement {name : String} (hname : .array name ∈ shared)
    (index : List Int) (value : Value) :
    Parallel shared start start' (setElement name index value)
      (setElement name index value) := by
  apply Parallel.bind
  · exact .compute fun hagree => Arrays.block_congr (hagree _ hname)
  · intro block
    apply Parallel.ite (parallel_note _ _)
    exact parallel_setArrays fun hagree =>
      Arrays.set_congr (hagree _ hname) index value

theorem parallel_assign {place : Place}
    (hplace : ∀ named ∈ place.mentions, named ∈ shared) (value : Value) :
    Parallel shared start start' (assign place value) (assign place value) := by
  obtain ⟨name, indices⟩ := place
  obtain ⟨hroot, hindices⟩ := List.forall_mem_cons.mp hplace
  rw [assign]
  cases indices with
  | nil => exact parallel_setScalar name value
  | cons first others =>
      apply Parallel.bind
      · exact .compute fun hagree => Arrays.block_congr (hagree _ hroot)
      · intro _
        apply Parallel.bind
        · exact .compute fun hagree =>
            evalIndices_congr _ _ (hagree.subset hindices)
        · exact fun index => parallel_setElement hroot index value

theorem parallel_declare [Host] {declaration : Declaration}
    (hdeclaration : ∀ named ∈ declaration.mentions, named ∈ shared) :
    Parallel shared start start' (declare declaration) (declare declaration) := by
  obtain ⟨hname, hbounds⟩ := List.forall_mem_cons.mp hdeclaration
  have hallocate (bounds : List Int) : Parallel shared start start'
      (do
        let arrays ← ofRun ((← get).arrays.declare declaration.name bounds)
        modify fun state => { state with arrays := arrays })
      (do
        let arrays ← ofRun ((← get).arrays.declare declaration.name bounds)
        modify fun state => { state with arrays := arrays }) := by
    rw [compute_declare]
    exact parallel_setArrays fun _ => Arrays.declare_congr _ _ _ _
  apply Parallel.bind
  · exact .compute fun hagree =>
      evalIndices_congr _ _ (hagree.subset hbounds)
  · intro bounds
    apply Parallel.ite (.throw _)
    apply Parallel.get_bind
    intro state state' hstates
    have hcontains : state'.arrays.contains declaration.name =
        state.arrays.contains declaration.name :=
      congrArg Option.isSome (hstates.memory _ hname)
    rw [hcontains]
    apply Parallel.ite
    · exact (parallel_note _ _).bind fun _ => hallocate bounds
    · exact hallocate bounds

theorem parallel_readInto (table : Table) {target : Place}
    (htarget : ∀ named ∈ target.mentions, named ∈ shared) :
    Parallel shared start start' (readInto table target)
      (readInto table target) := by
  have hread : Parallel shared start start' (readData table)
      (readData table) := by
    apply Parallel.get_bind
    intro state state' hstates
    dsimp only
    rw [hstates.dataPosition]
    split
    · apply Parallel.bind _ fun _ => .pure _
      exact .modify fun hstates => { hstates with dataPosition := rfl }
    · exact .throw _
  exact hread.bind fun value => parallel_assign htarget value

theorem parallel_jump (index : Int) :
    Parallel shared start start' (jump index) (jump index) := by
  apply Parallel.get_bind
  intro _ _ _
  apply (parallel_note _ _).bind
  exact fun _ => .modify fun hstates => { hstates with next := rfl }

theorem parallel_openFor (name : String) {first limit : Expr}
    {step : Option Expr}
    (hbounds : ∀ named ∈ mentionedIn (first :: limit :: step.toList),
      named ∈ shared) :
    Parallel shared start start' (openFor name first limit step)
      (openFor name first limit step) := by
  have hbound {expr : Expr} (hexpr : ∀ named ∈ expr.mentions, named ∈ shared) :
      Parallel shared start start' (evalLoopBound expr) (evalLoopBound expr) :=
    .compute fun hagree => Expr.evalNumber_congr _ (hagree.subset hexpr)
  have hopen (firstValue limitValue stepValue : Float) :
      Parallel shared start start'
        (do
          openLoop ⟨name, firstValue, limitValue, stepValue, (← get).pc⟩
          setScalar name (.number firstValue))
        (do
          openLoop ⟨name, firstValue, limitValue, stepValue, (← get).pc⟩
          setScalar name (.number firstValue)) := by
    apply Parallel.get_bind
    intro state state' hstates
    rw [hstates.pc]
    refine Parallel.bind ?_ fun _ => parallel_setScalar _ _
    refine Parallel.bind ?_ fun _ => parallel_note _ _
    exact .modify fun hstates =>
      { hstates with loops := congrArg (Loops.opened · _) hstates.loops }
  obtain ⟨hfirst, hothers⟩ := List.forall_mem_append.mp hbounds
  obtain ⟨hlimit, hstep⟩ := List.forall_mem_append.mp hothers
  apply (hbound hfirst).bind
  intro firstValue
  apply (hbound hlimit).bind
  intro limitValue
  cases step with
  | none => exact hopen firstValue limitValue 1
  | some step =>
      apply (hbound (List.forall_mem_append.mp hstep).1).bind
      exact fun stepValue => hopen firstValue limitValue stepValue

end Exec

/-! ## NEXT -/

section Next

variable {shared : List Variable} {start start' state state' : State}
  (hstates : State.InStep shared start start' state state') (loop : Loop)

include hstates

theorem State.InStep.goneBack :
    InStep shared start start' (state.goneBack loop) (state'.goneBack loop) :=
  { hstates with
    memory := hstates.memory.setScalar _ _
    next := rfl
    loops := congrArg (Loops.changed · _) hstates.loops }

theorem State.InStep.leftLoop :
    InStep shared start start' (state.leftLoop loop) (state'.leftLoop loop) :=
  { hstates with
    memory := hstates.memory.setScalar _ _
    loops := congrArg (List.filter _) hstates.loops }

end Next

theorem Exec.parallel_nextLoops {shared : List Variable} {start start' : State}
    (names : List (Option String)) :
    Parallel shared start start' (nextLoops names) (nextLoops names) := by
  induction names with
  | nil => exact .pure _
  | cons name others ih =>
      intro state state' hstates
      cases hfind : state.loops.find name with
      | error error =>
          have hfind' := hstates.loops ▸ hfind
          rw [nextLoops_cons_of_error others hfind,
            nextLoops_cons_of_error others hfind']
          exact ⟨hstates, rfl⟩
      | ok loop =>
          have hfind' := hstates.loops ▸ hfind
          rw [nextLoops_cons_of_ok others hfind,
            nextLoops_cons_of_ok others hfind']
          split
          · exact ⟨hstates.goneBack loop, rfl⟩
          · exact ih _ _ (hstates.leftLoop loop)

/-! ## Statements -/

/-- A statement does the same in states that it cannot tell apart. -/
theorem Statement.parallel_exec [Host] (table : Table) {statement : Statement}
    {shared : List Variable} (hshared : ∀ named ∈ statement.mentions, named ∈ shared)
    (start start' : State) :
    Exec.Parallel shared start start' (statement.exec table)
      (statement.exec table) := by
  induction statement with
  | print items separators ending =>
      apply Exec.Parallel.bind
      · exact .compute fun hagree =>
          printedItems_congr (hagree.subset hshared) separators
      · exact fun _ => Exec.parallel_write _
  | assign target value =>
      obtain ⟨htarget, hvalue⟩ := List.forall_mem_append.mp hshared
      apply Exec.Parallel.bind
      · exact .compute fun hagree => value.eval_congr (hagree.subset hvalue)
      · exact fun value => Exec.parallel_assign htarget value
  | goto target =>
      apply (Exec.Parallel.ofRun _).bind
      exact fun index => Exec.parallel_jump index
  | ifThen condition branch ih =>
      obtain ⟨hcondition, hbranch⟩ := List.forall_mem_append.mp hshared
      apply Exec.Parallel.bind
      · exact .compute fun hagree =>
          condition.eval_congr (hagree.subset hcondition)
      · exact fun _ => .ite (ih hbranch) (.pure _)
  | ifElse condition branch otherwise ihBranch ihOtherwise =>
      obtain ⟨hcondition, hbranches⟩ := List.forall_mem_append.mp hshared
      obtain ⟨hbranch, hotherwise⟩ := List.forall_mem_append.mp hbranches
      apply Exec.Parallel.bind
      · exact .compute fun hagree =>
          condition.eval_congr (hagree.subset hcondition)
      · exact fun _ => .ite (ihBranch hbranch) (ihOtherwise hotherwise)
  | forLoop name first limit step =>
      exact Exec.parallel_openFor name (List.forall_mem_cons.mp hshared).2
  | next names => exact Exec.parallel_nextLoops _
  | data values => exact .pure _
  | read targets =>
      rw [mentions, List.forall_mem_flatMap] at hshared
      exact .forM fun target htarget =>
        Exec.parallel_readInto table (hshared target htarget)
  | restore target =>
      cases target <;>
        exact .modify fun hstates => { hstates with dataPosition := rfl }
  | dim arrays =>
      rw [mentions, List.forall_mem_flatMap] at hshared
      exact .forM fun array harray =>
        Exec.parallel_declare (hshared array harray)
  | stop =>
      exact .modify fun hstates =>
        { hstates with going := ⟨false, by simp, by simp⟩ }
  | remark comment => exact .pure _
  | unknown kind => exact .throw _

/-! ## What is left alone -/

/-- The variables of the loops that a NEXT moves on; it does not get further
than to a loop that goes back, or that is not open. -/
def Loops.movedOn : List (Option String) → Loops → List String
  | [], _ => []
  | name :: others, loops =>
      match loops.find name with
      | .error _ => []
      | .ok loop =>
          if loop.advance.continues then [loop.name]
          else
            loop.name :: movedOn others (loops.filter (·.name ≠ loop.name))

/-- The variables of the loops that the statement moves on. -/
def Statement.movedOn (statement : Statement) (state : State) : List String :=
  match statement.reached state.toMemory with
  | .next names => Loops.movedOn (nextTargets names) state.loops
  | _ => []

/-- The value that was assigned to a scalar, if one was. -/
def State.scalar? (name : String) (state : State) : Option Value :=
  state.scalars.assigned.get? name

/-- The bounds and elements of an array, if it was dimensioned. -/
def State.array? (name : String) (state : State) : Option Block :=
  state.arrays.blocks.get? name

/-- Scalars that the statement neither assigns nor has as the variable of a
loop that it moves on are as before, and so are arrays that it neither assigns
an element of nor dimensions. -/
structure Statement.LeavesOthers [Host] (table : Table) (statement : Statement)
    (state : State) : Prop where
  scalars : ∀ name, .scalar name ∉ statement.targets →
    name ∉ statement.movedOn state →
      (resultState (statement.exec table state)).scalar? name =
        state.scalar? name
  arrays : ∀ name, .array name ∉ statement.targets →
    (resultState (statement.exec table state)).array? name = state.array? name

theorem Exec.scalar?_nextLoops {name : String} (names : List (Option String))
    {state : State} (hname : name ∉ Loops.movedOn names state.loops) :
    (resultState (nextLoops names state)).scalar? name = state.scalar? name := by
  induction names generalizing state with
  | nil => rfl
  | cons target others ih =>
      rw [Loops.movedOn] at hname
      cases hfind : state.loops.find target with
      | error error => rw [nextLoops_cons_of_error others hfind, resultState]
      | ok loop =>
          have hset (hother : name ≠ loop.name) :
              (state.movedOn loop).scalar? name = state.scalar? name :=
            (OrderedMap.get?_insert _ _ _ _).trans (if_neg hother.symm)
          rw [hfind] at hname
          rw [nextLoops_cons_of_ok others hfind]
          dsimp only at hname
          split
          next hback =>
            rw [if_pos hback, List.mem_singleton] at hname
            exact hset hname
          next hleave =>
            rw [if_neg hleave, List.mem_cons, not_or] at hname
            exact (ih hname.2).trans (hset hname.1)

theorem Variable.hiddenFrom_scalar? {name : String} {named : Variable}
    (hother : named ≠ .scalar name) : named.HiddenFrom (State.scalar? name) := by
  cases named with
  | scalar other =>
      have hname : other ≠ name := fun hname => hother (congrArg _ hname)
      exact fun _ _ => (OrderedMap.get?_insert _ _ _ _).trans (if_neg hname)
  | array other => exact fun _ _ => rfl

theorem Variable.hiddenFrom_array? {name : String} {named : Variable}
    (hother : named ≠ .array name) : named.HiddenFrom (State.array? name) := by
  cases named with
  | scalar other => exact fun _ _ => rfl
  | array other =>
      have hname : other ≠ name := fun hname => hother (congrArg _ hname)
      exact fun _ _ => (OrderedMap.get?_insert _ _ _ _).trans (if_neg hname)

theorem Statement.leavesOthers_exec [Host] (table : Table) (statement : Statement)
    (state : State) : statement.LeavesOthers table state where
  scalars name htargets hmoved := by
    have hkept (hparts :
        .counters ∉ (statement.reached state.toMemory).parts) :
        (resultState (statement.exec table state)).scalar? name =
          state.scalar? name := by
      apply statement.view_exec (fun _ _ => rfl)
      · intro target htarget
        apply Variable.hiddenFrom_scalar?
        rintro rfl
        exact htargets htarget
      · intro part hpart
        cases part with
        | counters => exact absurd hpart hparts
        | _ => exact fun _ _ => rfl
    rw [movedOn] at hmoved
    cases hreached : statement.reached state.toMemory with
    | next names =>
        rw [hreached] at hmoved
        rw [← statement.exec_reached, hreached]
        exact Exec.scalar?_nextLoops (nextTargets names) hmoved
    | _ => exact hkept (by simp [hreached, parts])
  arrays name htargets := by
    apply statement.view_exec (fun _ _ => rfl)
    · intro target htarget
      apply Variable.hiddenFrom_array?
      rintro rfl
      exact htargets htarget
    · intro part _
      cases part <;> exact fun _ _ => rfl

/-- A statement depends on nothing but where the run is, the open loops with
their variables, and the scalars and arrays that it names.  In states that are
alike in these it comes to its end or fails for the same cause, puts out the
same, at most one entry, and leaves them alike; a run goes on after it in both
if it did so before, or in neither.  What it does not assign to, it leaves
alone in each of them. -/
theorem Statement.exec_local [Host] (table : Table) (statement : Statement)
    {state state' : State}
    (halike : state.Alike (statement.mentions ++ state.loops.map (.scalar ·.name))
      state') :
    Exec.EndInStep (statement.mentions ++ state.loops.map (.scalar ·.name))
      state state' (statement.exec table state) (statement.exec table state') ∧
    (resultState (statement.exec table state)).output.size ≤
      state.output.size + 1 ∧
    statement.LeavesOthers table state ∧ statement.LeavesOthers table state' := by
  have hmentions : ∀ named ∈ statement.mentions,
      named ∈ statement.mentions ++ state.loops.map (.scalar ·.name) :=
    fun named hnamed => List.mem_append_left _ hnamed
  have hwritten := statement.writesOnce_exec table state.output state rfl
  refine ⟨statement.parallel_exec table hmentions state state' state state'
    halike.inStep, ?_, statement.leavesOthers_exec table state,
    statement.leavesOthers_exec table state'⟩
  cases hresult : statement.exec table state with
  | ok _ final =>
      rw [hresult] at hwritten
      obtain ⟨entries, hlength, houtput⟩ := hwritten
      rw [resultState, houtput, Array.size_append]
      exact Nat.add_le_add_left hlength _
  | error halt failed =>
      rw [hresult] at hwritten
      rw [resultState, hwritten]
      exact Nat.le_succ _

/-- In a branch, a variable takes the value of another one. -/
def copying : Statement :=
  .ifThen (.text "A") (.assign ⟨"A$", []⟩ (.reference "E$" []))

theorem Statement.exec_local_of_copying :
    let table := Table.ofProgram []
    let state : State := { State.fresh with
      scalars := Scalars.empty.set "B$" (.text "C")
      loops := [⟨"I", 1, 2, 1, 0⟩] }
    let state' : State := { State.fresh with
      loops := [⟨"I", 1, 2, 1, 0⟩]
      output := #["D"] }
    state.Alike (copying.mentions ++ state.loops.map (.scalar ·.name)) state' ∧
      (∃ final', copying.exec table state' = .ok () final' ∧
        final'.loops = state.loops) ∧
      (resultState (copying.exec table state)).scalar? "B$" =
        some (.text "C") := by
  intro table state state'
  have halike : state.Alike
      (copying.mentions ++ state.loops.map (.scalar ·.name)) state' := by
    refine ⟨?_, rfl, rfl, rfl, rfl⟩
    change ∀ named ∈ [Variable.scalar "A$", .scalar "E$", .scalar "I"], _
    simp only [List.forall_mem_cons]
    exact ⟨rfl, rfl, rfl, nofun⟩
  obtain ⟨hends, -, hleaves, -⟩ := copying.exec_local table halike
  refine ⟨halike, ?_, hleaves.scalars "B$" (by decide) (by decide)⟩
  cases hresult : copying.exec table state with
  | error halt failed => cases hresult
  | ok _ final =>
      cases hresult' : copying.exec table state' with
      | error halt' failed' =>
          rw [hresult, hresult'] at hends
          exact hends.elim
      | ok _ final' =>
          rw [hresult, hresult'] at hends
          have hloops : final.loops = state.loops := by
            cases hresult
            rfl
          exact ⟨final', rfl, hends.1.loops.trans hloops⟩

end NumberedBasic
