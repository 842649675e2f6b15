import NumberedBasic.Proofs.Loops.Continuation
import NumberedBasic.Proofs.Machine.Silent
import NumberedBasic.Proofs.Nesting.Blocks

/-!
# Statements and open loops

A plain statement leaves the open loops alone and leads to the statement
behind it.  A FOR on a variable without an open loop opens one more, which is
then the innermost.  A NEXT that finds the innermost loop goes back behind its
FOR, or closes it and leads on.
-/

namespace NumberedBasic

/-- The variable of the loop and the index of its FOR. -/
def Loop.block (loop : Loop) : OpenBlock := (loop.name, loop.forIndex)

/-! ## The innermost loop -/

namespace Loops

variable {outer : Loops} {loop : Loop}

theorem find_none_innermost (outer : Loops) (loop : Loop) :
    find (outer ++ [loop]) none = .ok loop := by
  simp [find]

theorem opened_of_fresh {loops : Loops}
    (hfresh : loop.name ∉ loops.map Loop.name) :
    loops.opened loop = loops ++ [loop] := by
  rw [opened, List.filter_eq_self.mpr]
  intro other hother
  apply decide_eq_true
  intro hname
  exact hfresh (hname ▸ List.mem_map_of_mem hother)

theorem name_ne_innermost
    (hdistinct : ((outer ++ [loop]).map Loop.name).Nodup) :
    ∀ other ∈ outer, other.name ≠ loop.name := by
  rw [List.map_append, List.nodup_append] at hdistinct
  intro other hother
  exact hdistinct.2.2 _ (List.mem_map_of_mem hother) _
    (List.mem_singleton_self _)

section Innermost

variable (hfresh : ∀ other ∈ outer, other.name ≠ loop.name) {moved : Loop}
  (hname : moved.name = loop.name)

include hfresh

theorem find_innermost : find (outer ++ [loop]) (some loop.name) = .ok loop := by
  have houter : outer.find? (·.name = loop.name) = none := by
    rw [List.find?_eq_none]
    intro other hother
    simpa using hfresh other hother
  rw [find, List.find?_append, houter]
  simp

include hname

theorem changed_innermost :
    changed (outer ++ [loop]) moved = outer ++ [moved] := by
  have houter : changed outer moved = outer := by
    refine (List.map_congr_left fun other hother => ?_).trans (List.map_id _)
    exact if_neg (hname ▸ hfresh other hother)
  rw [changed, List.map_append]
  change changed outer moved ++ [if loop.name = moved.name then moved else loop] = _
  rw [houter, if_pos hname.symm]

theorem filter_innermost :
    (outer ++ [moved]).filter (·.name ≠ moved.name) = outer := by
  have houter : outer.filter (·.name ≠ moved.name) = outer := by
    rw [List.filter_eq_self]
    intro other hother
    exact decide_eq_true (hname ▸ hfresh other hother)
  rw [List.filter_append, houter]
  simp

end Innermost

end Loops

namespace State

variable {state : State} {outer : Loops} {loop : Loop}
  (hfresh : ∀ other ∈ outer, other.name ≠ loop.name)
  (hloops : state.loops = outer ++ [loop])

include hfresh hloops

theorem loops_goneBack_innermost :
    (state.goneBack loop).loops = outer ++ [loop.advance] := by
  change state.loops.changed loop.advance = _
  rw [hloops]
  exact Loops.changed_innermost hfresh rfl

theorem loops_leftLoop_innermost : (state.leftLoop loop).loops = outer := by
  change state.loops.filter (·.name ≠ loop.name) = _
  rw [hloops]
  exact Loops.filter_innermost hfresh rfl

end State

/-! ## Plain statements -/

/-- The open loops, the statement at hand and the one to go on with. -/
def State.route (state : State) : Loops × Int × Int :=
  (state.loops, state.pc, state.next)

/-- Any cause but that no loop is open. -/
def Halt.sparesLoops (halt : Halt) : Prop :=
  ∀ name, halt ≠ .error (.nextWithoutFor name)

theorem Halt.sparesLoops_of_ofEvaluation {halt : Halt}
    (hhalt : halt.ofEvaluation = true) : halt.sparesLoops := by
  rintro name rfl
  cases hhalt

namespace Exec

theorem aside_route : Aside State.route Halt.sparesLoops where
  memory _ _ := rfl
  dataPosition _ _ := rfl
  notes _ _ := rfl
  evaluation _ hhalt := Halt.sparesLoops_of_ofEvaluation hhalt
  outOfData := nofun
  negativeDimension := nofun
  outOfMemory _ := nofun

end Exec

/-- There is an END in the statement, or in one of its branches. -/
def Statement.stops : Statement → Bool
  | .ifThen _ branch => branch.stops
  | .ifElse _ branch otherwise => branch.stops || otherwise.stops
  | .stop => true
  | _ => false

/-- A plain statement works on the variables, the position in the data, the
notes and the output; only an END is the end of the run. -/
theorem Statement.preserves_of_isPlain [Host] {γ : Type} {view : State → γ}
    {causes : Halt → Prop} (haside : Exec.Aside view causes)
    (houtput : ∀ (state : State) (entries : Array String),
      view { state with output := entries } = view state)
    (table : Table) {statement : Statement} (hplain : statement.isPlain = true)
    (hrunning : statement.stops = false ∨ ∀ (state : State) (running : Bool),
      view { state with running := running } = view state) :
    Exec.Preserves view causes (statement.exec table) := by
  induction statement with
  | print items separators ending =>
      apply (haside.admits.preserves_compute fun memory =>
        failsInEvaluation_printedItems memory separators items).bind
      exact fun _ => .modify fun state => houtput state _
  | assign target value =>
      apply (haside.admits.preserves_compute fun memory =>
        value.failsInEvaluation_eval memory).bind
      exact fun value => Exec.preserves_assign haside.admits haside.notes
        (haside.hidden _) value
  | goto target => cases hplain
  | ifThen condition branch ih =>
      apply (haside.admits.preserves_compute fun memory =>
        condition.failsInEvaluation_eval memory).bind
      exact fun _ => .ite (ih hplain hrunning) (.pure _)
  | ifElse condition branch otherwise ihBranch ihOtherwise =>
      obtain ⟨hbranch, hotherwise⟩ := Bool.and_eq_true_iff.mp hplain
      rw [stops, Bool.or_eq_false_iff] at hrunning
      apply (haside.admits.preserves_compute fun memory =>
        condition.failsInEvaluation_eval memory).bind
      exact fun _ => .ite (ihBranch hbranch (hrunning.imp_left And.left))
        (ihOtherwise hotherwise (hrunning.imp_left And.right))
  | forLoop name start limit step => cases hplain
  | next names => cases hplain
  | data values => exact .pure _
  | read targets =>
      exact .forM fun target _ => Exec.preserves_readInto haside.admits
        haside.notes table haside.dataPosition (haside.hidden _)
  | restore target =>
      cases target <;> exact .modify fun state => haside.dataPosition state _
  | dim arrays =>
      exact .forM fun array _ =>
        Exec.preserves_declare haside.admits haside.notes (haside.hidden _)
  | stop =>
      rcases hrunning with hstops | hrunning
      · cases hstops
      · exact .modify fun state => hrunning state false
  | remark comment => exact .pure _
  | unknown kind => exact .throw (haside.evaluation _ rfl)

theorem Statement.preserves_route [Host] (table : Table) {statement : Statement}
    (hplain : statement.isPlain = true) :
    Exec.Preserves State.route Halt.sparesLoops (statement.exec table) :=
  statement.preserves_of_isPlain Exec.aside_route (fun _ _ => rfl) table hplain
    (Or.inr fun _ _ => rfl)

/-! ## FOR and NEXT -/

namespace Exec

/-- A FOR opens a loop that leads back to it. -/
theorem meets_openFor (name : String) (start stop : Expr) (step : Option Expr)
    (route : Loops × Int × Int) :
    Meets (fun state => state.route = route) (openFor name start stop step)
      (fun _ state => ∃ loop : Loop, loop.block = (name, route.2.1) ∧
        state.route = (route.1.opened loop, route.2))
      (fun halt _ => halt.sparesLoops) := by
  have hbound (expr : Expr) : Meets (fun state => state.route = route)
      (evalLoopBound expr) (fun _ state => state.route = route)
      (fun halt _ => halt.sparesLoops) := by
    apply Meets.weaken (aside_route.admits.preserves_compute (fun memory =>
      expr.failsInEvaluation_evalNumber memory .loopBound) route)
    · exact fun _ hstate => hstate
    · exact fun _ _ hstate => hstate
    · exact fun _ _ hstopped => hstopped.2
  have hopen (startValue stopValue stepValue : Float) :
      Meets (fun state => state.route = route)
        (do
          openLoop ⟨name, startValue, stopValue, stepValue, (← get).pc⟩
          setScalar name (.number startValue))
        (fun _ state => ∃ loop : Loop, loop.block = (name, route.2.1) ∧
          state.route = (route.1.opened loop, route.2))
        (fun halt _ => halt.sparesLoops) := by
    rintro state rfl
    exact ⟨⟨name, startValue, stopValue, stepValue, state.pc⟩, rfl, rfl⟩
  apply (hbound start).bind
  intro startValue
  apply (hbound stop).bind
  intro stopValue
  cases step with
  | none => exact hopen startValue stopValue 1
  | some step =>
      apply (hbound step).bind
      exact fun stepValue => hopen startValue stopValue stepValue

/-- A NEXT that finds the innermost loop does not fail. -/
theorem meets_nextLoops_innermost {outer : Loops} {loop : Loop}
    (hdistinct : ((outer ++ [loop]).map Loop.name).Nodup) (pc next : Int)
    {target : Option String}
    (hfind : Loops.find (outer ++ [loop]) target = .ok loop) :
    Meets (fun state => state.route = (outer ++ [loop], pc, next))
      (nextLoops [target])
      (fun _ state =>
        state.route = (outer ++ [loop.advance], pc, loop.forIndex + 1) ∨
          state.route = (outer, pc, next))
      (fun _ _ => False) := by
  intro state hroute
  have hloops : state.loops = outer ++ [loop] := congrArg Prod.fst hroute
  have hcourse : (state.pc, state.next) = (pc, next) := congrArg Prod.snd hroute
  have hpc : state.pc = pc := congrArg Prod.fst hcourse
  have hfresh := Loops.name_ne_innermost hdistinct
  rw [nextLoops_cons_of_ok [] (hloops ▸ hfind)]
  cases loop.advance.continues with
  | true =>
      have hback : (state.goneBack loop).pc = pc := hpc
      exact Or.inl (Prod.ext (State.loops_goneBack_innermost hfresh hloops)
        (congrArg (·, loop.forIndex + 1) hback))
  | false =>
      exact Or.inr (Prod.ext (State.loops_leftLoop_innermost hfresh hloops)
        hcourse)

end Exec

end NumberedBasic
