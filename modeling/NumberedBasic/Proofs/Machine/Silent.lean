import NumberedBasic.Proofs.Machine.Evaluation
import NumberedBasic.Proofs.Machine.Invariant
import NumberedBasic.Proofs.Machine.Items

/-!
# Actions that leave something as it was

Every action of a statement touches the variables that it is for, the notes
and a few other parts of the state, and nothing else, also where it stops
half-way.  So nothing else has to be looked at to know that it leaves it
alone.  Only PRINT writes entries; every item of a READ, a NEXT or a DIM is
silent.
-/

namespace NumberedBasic

/-! ## Views of the state -/

/-- A scalar or an array, which may have the same name. -/
inductive Variable where
  | scalar (name : String)
  | array (name : String)
  deriving DecidableEq

/-- The variable that a place is, or is an element of. -/
def Place.root (place : Place) : Variable :=
  match place.indices with
  | [] => .scalar place.name
  | _ => .array place.name

/-- What else than variables that it names a statement may change. -/
inductive Part where
  /-- The scalars of the open loops. -/
  | counters
  | loops
  | dataPosition
  | next
  | running
  | output
  deriving DecidableEq

section Hidden

variable {γ : Type} (view : State → γ)

/-- The view does not show the variable. -/
def Variable.HiddenFrom : Variable → Prop
  | .scalar name => ∀ (state : State) (value : Value),
      view { state with scalars := state.scalars.set name value } = view state
  | .array name => ∀ (state : State) (block : Block),
      view { state with arrays := ⟨state.arrays.blocks.insert name block⟩ } =
        view state

def Part.HiddenFrom : Part → Prop
  | .counters => ∀ (state : State) (scalars : Scalars),
      view { state with scalars := scalars } = view state
  | .loops => ∀ (state : State) (loops : Loops),
      view { state with loops := loops } = view state
  | .dataPosition => ∀ (state : State) (position : Nat),
      view { state with dataPosition := position } = view state
  | .next => ∀ (state : State) (index : Int),
      view { state with next := index } = view state
  | .running => ∀ (state : State) (running : Bool),
      view { state with running := running } = view state
  | .output => ∀ (state : State) (entries : Array String),
      view { state with output := entries } = view state

def NotesHiddenFrom : Prop :=
  ∀ (state : State) (notes : Array Note),
    view { state with notes := notes } = view state

end Hidden

/-! ## Actions and views -/

namespace Exec

variable {α β γ : Type}

/-- What the view shows of the state is the same after the action as before
it, whether the action comes to its end or stops, which it only does for one
of the given causes. -/
def Preserves (view : State → γ) (causes : Halt → Prop) (action : Exec α) :
    Prop :=
  ∀ shown, Meets (fun state => view state = shown) action
    (fun _ state => view state = shown)
    (fun halt state => view state = shown ∧ causes halt)

/-- The view shows the same after the action as before it, whatever may stop
it. -/
abbrev Spares (view : State → γ) (action : Exec α) : Prop :=
  Preserves view (fun _ => True) action

/-- What can be wrong with values, with the data and with dimensions is among
the causes. -/
structure Admits (causes : Halt → Prop) : Prop where
  evaluation : ∀ halt, halt.ofEvaluation = true → causes halt
  outOfData : causes (.error .outOfData)
  negativeDimension : causes (.error .negativeDimension)
  outOfMemory : ∀ name, causes (.error (.outOfMemory name))

theorem admits_any : Admits fun _ => True :=
  ⟨fun _ _ => trivial, trivial, trivial, fun _ => trivial⟩

/-- The view shows nothing of the variables, of the position in the data or of
the notes, and what can be wrong with values is among the causes. -/
structure Aside (view : State → γ) (causes : Halt → Prop) : Prop where
  memory : ∀ (state : State) (memory : Memory),
    view { state with toMemory := memory } = view state
  dataPosition : ∀ (state : State) (position : Nat),
    view { state with dataPosition := position } = view state
  notes : ∀ (state : State) (notes : Array Note),
    view { state with notes := notes } = view state
  evaluation : ∀ halt, halt.ofEvaluation = true → causes halt
  outOfData : causes (.error .outOfData)
  negativeDimension : causes (.error .negativeDimension)
  outOfMemory : ∀ name, causes (.error (.outOfMemory name))

section Preserves

variable {view : State → γ} {causes : Halt → Prop}

theorem Preserves.bind {action : Exec α} {next : α → Exec β}
    (haction : Preserves view causes action)
    (hnext : ∀ value, Preserves view causes (next value)) :
    Preserves view causes (action >>= next) :=
  fun shown => Meets.bind (haction shown) fun value => hnext value shown

theorem Preserves.pure (value : α) :
    Preserves view causes (Pure.pure value) :=
  fun _ _ hstate => hstate

theorem Preserves.throw {halt : Halt} (hhalt : causes halt) :
    Preserves view causes (throw halt : Exec α) :=
  fun _ _ hstate => ⟨hstate, hhalt⟩

theorem Preserves.get : Preserves view causes (get : Exec State) :=
  fun _ _ hstate => hstate

theorem Preserves.modify {change : State → State}
    (hchange : ∀ state, view (change state) = view state) :
    Preserves view causes (modify change) :=
  fun _ => Meets.modify fun state hstate => (hchange state).trans hstate

theorem Preserves.ofExcept {outcome : Except Halt α}
    (houtcome : ∀ halt, outcome = .error halt → causes halt) :
    Preserves view causes (ofExcept outcome) := by
  cases outcome with
  | ok value => exact .pure value
  | error halt => exact .throw (houtcome halt rfl)

theorem Preserves.ofRun {outcome : Except RunError α}
    (houtcome : ∀ error, outcome = .error error → causes (.error error)) :
    Preserves view causes (ofRun outcome) := by
  cases outcome with
  | ok value => exact .pure value
  | error error => exact .throw (houtcome error rfl)

theorem Preserves.compute {outcome : Memory → Except Halt α}
    (houtcome : ∀ memory halt, outcome memory = .error halt → causes halt) :
    Preserves view causes (compute outcome) :=
  Preserves.get.bind fun state => .ofExcept (houtcome state.toMemory)

theorem Preserves.ite {condition : Bool} {first second : Exec α}
    (hfirst : Preserves view causes first)
    (hsecond : Preserves view causes second) :
    Preserves view causes (if condition then first else second) := by
  cases condition
  · exact hsecond
  · exact hfirst

theorem Preserves.straight {action : Exec Unit}
    (haction : Preserves view causes action) :
    Preserves view causes (straight action) :=
  haction.bind fun _ => .pure _

theorem Preserves.inTurn {actions : List (Exec Bool)}
    (hactions : ∀ action ∈ actions, Preserves view causes action) :
    Preserves view causes (inTurn actions) := by
  induction actions with
  | nil => exact .pure _
  | cons action others ih =>
      rw [List.forall_mem_cons] at hactions
      apply hactions.1.bind
      exact fun _ => .ite (.pure _) (ih hactions.2)

theorem Preserves.forM {items : List α} {action : α → Exec Unit}
    (haction : ∀ item ∈ items, Preserves view causes (action item)) :
    Preserves view causes (items.forM action) := by
  rw [forM_eq_inTurn]
  apply Preserves.inTurn
  rw [List.forall_mem_map]
  exact fun item hitem => (haction item hitem).straight

end Preserves

/-! ## The actions of a statement -/

/-- Allocating an array is a computation on the variables. -/
theorem compute_declare [Host] (name : String) (bounds : List Int)
    (next : Arrays → Exec Unit) :
    (do
      let arrays ← ofRun ((← get).arrays.declare name bounds)
      next arrays) =
      (do
        let arrays ← compute fun memory =>
          Halt.ofRun (memory.arrays.declare name bounds)
        next arrays) := by
  funext state
  rw [compute_bind_apply]
  change EStateM.bind (ofRun (state.arrays.declare name bounds)) next state = _
  rw [EStateM.bind]
  cases state.arrays.declare name bounds <;> rfl

section Parts

variable {view : State → γ} {causes : Halt → Prop} {name : String}

theorem preserves_setScalar (hscalar : (Variable.scalar name).HiddenFrom view)
    (value : Value) : Preserves view causes (setScalar name value) :=
  .modify fun state => hscalar state value

/-- Arrays that differ from those at hand in one that is not shown. -/
theorem preserves_setArrays (harray : (Variable.array name).HiddenFrom view)
    {outcome : Memory → Except Halt Arrays}
    (hchanged : ∀ memory arrays, outcome memory = .ok arrays →
      arrays = memory.arrays ∨
        ∃ block, arrays = ⟨memory.arrays.blocks.insert name block⟩)
    (hfailed : ∀ memory halt, outcome memory = .error halt → causes halt) :
    Preserves view causes (do
      let arrays ← compute outcome
      modify fun state => { state with arrays := arrays }) := by
  rintro shown state rfl
  rw [compute_bind_apply]
  cases hresult : outcome state.toMemory with
  | error halt => exact ⟨rfl, hfailed _ _ hresult⟩
  | ok arrays =>
      rcases hchanged _ _ hresult with rfl | ⟨block, rfl⟩
      · rfl
      · exact harray state block

theorem preserves_note (hnotes : NotesHiddenFrom view) (added : Note) :
    Preserves view causes (note added) :=
  .modify fun state => hnotes state _

theorem preserves_jump (hnotes : NotesHiddenFrom view)
    (hnext : Part.next.HiddenFrom view) (index : Int) :
    Preserves view causes (jump index) := by
  apply Preserves.get.bind
  intro _
  apply (preserves_note hnotes _).bind
  exact fun _ => .modify fun state => hnext state index

variable (hcauses : Admits causes)

include hcauses

theorem Admits.preserves_compute {outcome : Memory → Except Halt α}
    (houtcome : ∀ memory, failsInEvaluation (outcome memory)) :
    Preserves view causes (compute outcome) :=
  .compute fun memory halt hhalt =>
    hcauses.evaluation halt (houtcome memory halt hhalt)

variable (hnotes : NotesHiddenFrom view)

include hnotes

theorem preserves_setElement (harray : (Variable.array name).HiddenFrom view)
    (at_ : List Int) (value : Value) :
    Preserves view causes (setElement name at_ value) := by
  apply (hcauses.preserves_compute fun memory =>
    memory.arrays.failsInEvaluation_block name).bind
  intro block
  apply Preserves.ite (preserves_note hnotes _)
  apply preserves_setArrays harray fun _ _ => Arrays.set_cases
  intro memory halt hhalt
  exact hcauses.evaluation halt
    (memory.arrays.failsInEvaluation_set name at_ value halt hhalt)

theorem preserves_assign {place : Place} (hroot : place.root.HiddenFrom view)
    (value : Value) : Preserves view causes (assign place value) := by
  obtain ⟨name, indices⟩ := place
  rw [assign]
  cases indices with
  | nil => exact preserves_setScalar hroot value
  | cons first others =>
      apply (hcauses.preserves_compute fun memory =>
        memory.arrays.failsInEvaluation_block name).bind
      intro _
      apply (hcauses.preserves_compute fun memory =>
        failsInEvaluation_evalIndices memory .arrayIndex (first :: others)).bind
      exact fun index => preserves_setElement hcauses hnotes hroot index value

theorem preserves_readInto (table : Table) {target : Place}
    (hposition : Part.dataPosition.HiddenFrom view)
    (hroot : target.root.HiddenFrom view) :
    Preserves view causes (readInto table target) := by
  have hread : Preserves view causes (readData table) := by
    apply Preserves.get.bind
    intro state
    dsimp only
    split
    · exact Preserves.bind (.modify fun state => hposition state _)
        fun _ => .pure _
    · exact .throw hcauses.outOfData
  exact hread.bind fun value => preserves_assign hcauses hnotes hroot value

theorem preserves_declare [Host] {declaration : Declaration}
    (harray : (Variable.array declaration.name).HiddenFrom view) :
    Preserves view causes (declare declaration) := by
  have hallocate (bounds : List Int) : Preserves view causes (do
      let arrays ← ofRun ((← get).arrays.declare declaration.name bounds)
      modify fun state => { state with arrays := arrays }) := by
    rw [compute_declare]
    apply preserves_setArrays harray
    · intro memory arrays harrays
      cases hdeclare : memory.arrays.declare declaration.name bounds with
      | error error =>
          rw [hdeclare] at harrays
          cases harrays
      | ok changed =>
          rw [hdeclare] at harrays
          cases harrays
          exact Or.inr (Arrays.declare_cases hdeclare)
    · intro memory halt hhalt
      cases hdeclare : memory.arrays.declare declaration.name bounds with
      | error error =>
          rw [hdeclare] at hhalt
          cases hhalt
          rcases Arrays.error_of_declare hdeclare with rfl | rfl
          · exact hcauses.negativeDimension
          · exact hcauses.outOfMemory _
      | ok changed =>
          rw [hdeclare] at hhalt
          cases hhalt
  apply (hcauses.preserves_compute fun memory =>
    failsInEvaluation_evalIndices memory .arrayDimension
      declaration.bounds).bind
  intro bounds
  apply Preserves.ite (.throw hcauses.negativeDimension)
  apply Preserves.get.bind
  intro _
  apply Preserves.ite
  · exact (preserves_note hnotes _).bind fun _ => hallocate bounds
  · exact hallocate bounds

theorem preserves_openFor (hloops : Part.loops.HiddenFrom view)
    (hscalar : (Variable.scalar name).HiddenFrom view) (start stop : Expr)
    (step : Option Expr) :
    Preserves view causes (openFor name start stop step) := by
  have hbound (bound : Expr) : Preserves view causes (evalLoopBound bound) :=
    hcauses.preserves_compute fun memory =>
      bound.failsInEvaluation_evalNumber memory .loopBound
  have hopen (startValue stopValue stepValue : Float) :
      Preserves view causes (do
        openLoop ⟨name, startValue, stopValue, stepValue, (← get).pc⟩
        setScalar name (.number startValue)) := by
    apply Preserves.get.bind
    intro _
    refine Preserves.bind ?_ fun _ => preserves_setScalar hscalar _
    exact Preserves.bind (.modify fun state => hloops state _)
      fun _ => preserves_note hnotes _
  apply (hbound start).bind
  intro startValue
  apply (hbound stop).bind
  intro stopValue
  cases step with
  | none => exact hopen startValue stopValue 1
  | some step =>
      apply (hbound step).bind
      exact fun stepValue => hopen startValue stopValue stepValue

end Parts

theorem spares_compute {view : State → γ} (outcome : Memory → Except Halt α) :
    Spares view (compute outcome) :=
  .compute fun _ _ _ => trivial

section Next

variable {view : State → γ} (hnotes : NotesHiddenFrom view)
  (hcounters : Part.counters.HiddenFrom view)
  (hloops : Part.loops.HiddenFrom view) (hnext : Part.next.HiddenFrom view)

include hnotes hcounters hloops hnext

theorem spares_nextLoop (name : Option String) :
    Spares view (nextLoop name) := by
  have hclose (loop : Loop) : Spares view (closeLoop loop) := by
    apply Preserves.get.bind
    intro state
    refine Preserves.bind (.ofExcept fun _ _ => trivial) fun remaining => ?_
    exact Preserves.bind (.modify fun state => hloops state _)
      fun _ => preserves_note hnotes _
  have hfind : Spares view (findLoop name) :=
    Preserves.get.bind fun state => .ofRun fun _ _ => trivial
  apply hfind.bind
  intro loop
  apply Preserves.bind
  · exact Preserves.bind (.modify fun state => hloops state _) fun _ => .pure _
  · intro moved
    refine Preserves.bind (.modify fun state => hcounters state _) fun _ => ?_
    apply Preserves.ite
    · exact (preserves_jump hnotes hnext _).bind fun _ => .pure _
    · exact (hclose _).bind fun _ => .pure _

theorem spares_nextLoops (names : List (Option String)) :
    Spares view (nextLoops names) := by
  rw [nextLoops_eq_inTurn]
  apply Preserves.inTurn
  rw [List.forall_mem_map]
  exact fun name _ => spares_nextLoop hnotes hcounters hloops hnext name

end Next

namespace Aside

variable {view : State → γ} {causes : Halt → Prop} (haside : Aside view causes)

include haside

theorem admits : Admits causes :=
  ⟨haside.evaluation, haside.outOfData, haside.negativeDimension,
    haside.outOfMemory⟩

theorem hidden (named : Variable) : named.HiddenFrom view := by
  cases named <;> exact fun state _ => haside.memory state _

end Aside

/-! ## The output -/

/-- The action puts nothing out, whatever may stop it. -/
abbrev Silent (action : Exec α) : Prop :=
  Preserves State.output (fun _ => True) action

theorem aside_output : Aside State.output (fun _ => True) where
  memory _ _ := rfl
  dataPosition _ _ := rfl
  notes _ _ := rfl
  evaluation _ _ := trivial
  outOfData := trivial
  negativeDimension := trivial
  outOfMemory _ := trivial

end Exec

end NumberedBasic
