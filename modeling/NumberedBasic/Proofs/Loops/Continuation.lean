import NumberedBasic.Proofs.Machine.Invariant
import NumberedBasic.Proofs.Value.Order

/-!
# When a NEXT goes back

A NEXT moves its loop on by one step and either goes back behind the FOR or
leaves the loop.  Which of the two depends on the sign of the step and on the
new value only, for doubles of every kind; a step of zero counts as a step
down.
-/

namespace NumberedBasic

/-! ## The value after another step -/

namespace Loop

variable (loop : Loop)

def nextValue : Float := loop.current + loop.step

/-- The loop is upward or downward and a value has not passed its end. -/
def Within (value : Float) : Prop :=
  0 < loop.step ∧ value ≤ loop.stop ∨ loop.step < 0 ∧ loop.stop ≤ value

/-- There is room for another step. -/
def HasRoom : Prop := loop.Within loop.nextValue

/-- There is room for another step, if a step of zero is one down. -/
def GoesBack : Prop :=
  0 < loop.step ∧ loop.nextValue ≤ loop.stop ∨
    loop.step ≤ 0 ∧ loop.stop ≤ loop.nextValue

/-- An undefined step goes back with no value, since the next value is
undefined as well. -/
theorem continues_iff : loop.advance.continues = true ↔ loop.GoesBack := by
  rw [advance, continues, GoesBack, nextValue]
  by_cases hup : 0 < loop.step
  · rw [if_pos hup, decide_eq_true_iff]
    constructor
    · exact fun hbelow => Or.inl ⟨hup, hbelow⟩
    · rintro (⟨-, hbelow⟩ | ⟨hdown, -⟩)
      · exact hbelow
      · exact absurd hup (Double.not_lt_of_le hdown)
  · rw [if_neg hup, decide_eq_true_iff]
    constructor
    · intro habove
      have hstep : loop.step.isNaN = false := by
        rw [← Bool.not_eq_true]
        intro hundefined
        have hsum := (Double.isNaN_of_le habove).2
        rw [Double.isNaN_add loop.current hundefined] at hsum
        cases hsum
      have hzero : Float.isNaN 0 = false := by decide
      rcases Double.lt_or_le hzero hstep with hlt | hle
      · exact absurd hlt hup
      · exact Or.inr ⟨hle, habove⟩
    · rintro (⟨hlt, -⟩ | ⟨-, habove⟩)
      · exact absurd hlt hup
      · exact habove

/-- Only a step of zero can go back where there is no room. -/
theorem goesBack_iff_hasRoom (hstep : 0 < loop.step ∨ loop.step < 0) :
    loop.GoesBack ↔ loop.HasRoom := by
  rw [GoesBack, HasRoom, Within]
  rcases hstep with hup | hdown
  · have hnot : ¬loop.step ≤ 0 := fun hle => Double.not_lt_of_le hle hup
    have hnot' : ¬loop.step < 0 := Double.not_lt_of_lt hup
    simp only [hnot, hnot', false_and, or_false]
  · have hle : loop.step ≤ 0 := Double.le_of_lt hdown
    simp only [hle, hdown, true_and]

end Loop

/-! ## The loops of a state -/

namespace Loops

variable {loops : Loops} {loop moved : Loop}

theorem filter_changed (loops : Loops) (loop : Loop) :
    (loops.changed loop).filter (·.name ≠ loop.name) =
      loops.filter (·.name ≠ loop.name) := by
  induction loops with
  | nil => rfl
  | cons first others ih =>
      rw [changed, List.map_cons]
      by_cases hname : first.name = loop.name
      · rw [if_pos hname, List.filter_cons_of_neg (by simp),
          List.filter_cons_of_neg (by simpa using hname)]
        exact ih
      · rw [if_neg hname, List.filter_cons_of_pos (by simpa using hname),
          List.filter_cons_of_pos (by simpa using hname)]
        exact congrArg _ ih

theorem closed_changed (hloop : loop ∈ loops) (hname : moved.name = loop.name) :
    (loops.changed moved).closed moved =
      .ok (loops.filter (·.name ≠ loop.name)) := by
  have hmem : moved.name ∈ (loops.changed moved).map Loop.name := by
    rw [map_name_changed, hname]
    exact List.mem_map_of_mem hloop
  obtain ⟨other, hother, hsame⟩ := List.mem_map.mp hmem
  rw [closed, if_pos (List.any_eq_true.mpr ⟨other, hother,
    decide_eq_true hsame⟩), filter_changed, hname]

end Loops

/-! ## The rule -/

namespace State

variable (state : State) (loop : Loop)

/-- The loop moved on by one step, and its variable with it. -/
def movedOn : State :=
  { state with
    loops := state.loops.changed loop.advance
    scalars := state.scalars.set loop.name (.number loop.nextValue) }

/-- Moved on, and back to the statement behind the FOR. -/
def goneBack : State :=
  { state.movedOn loop with
    next := loop.forIndex + 1
    notes := state.notes.push (.jumped state.pc (loop.forIndex + 1)) }

/-- Moved on, and without the loop. -/
def leftLoop : State :=
  { state.movedOn loop with
    loops := state.loops.filter (·.name ≠ loop.name)
    notes := state.notes.push (.closed loop.advance) }

end State

/-- What becomes of a state by a NEXT for some loops, one after another, if
those for which `goesBack` holds go back. -/
inductive NextRule (goesBack : Loop → Prop) :
    List (Option String) → State → EStateM.Result Halt State Unit → Prop
  | done (state : State) : NextRule goesBack [] state (.ok () state)
  | back {state : State} {name : Option String} {loop : Loop}
      (others : List (Option String))
      (hfind : state.loops.find name = .ok loop) (hback : goesBack loop) :
      NextRule goesBack (name :: others) state (.ok () (state.goneBack loop))
  | leave {state : State} {name : Option String} {loop : Loop}
      {others : List (Option String)}
      {result : EStateM.Result Halt State Unit}
      (hfind : state.loops.find name = .ok loop) (hleave : ¬goesBack loop)
      (hothers : NextRule goesBack others (state.leftLoop loop) result) :
      NextRule goesBack (name :: others) state result
  | missing {state : State} {name : Option String}
      (others : List (Option String))
      (hfind : state.loops.find name = .error (.nextWithoutFor name)) :
      NextRule goesBack (name :: others) state
        (.error (.error (.nextWithoutFor name)) state)

namespace Exec

variable {state : State} {name : Option String} {loop : Loop}
  (others : List (Option String))

theorem nextLoops_cons_of_ok (hfind : state.loops.find name = .ok loop) :
    nextLoops (name :: others) state =
      if loop.advance.continues then .ok () (state.goneBack loop)
      else nextLoops others (state.leftLoop loop) := by
  have hfound : findLoop name state = .ok loop state := by
    change ofRun (state.loops.find name) state = _
    rw [hfind]
    rfl
  rw [nextLoops]
  change EStateM.bind (findLoop name) _ state = _
  rw [EStateM.bind, hfound]
  change (if loop.advance.continues then jump (loop.forIndex + 1)
    else closeLoop loop.advance >>= fun _ => nextLoops others)
      (state.movedOn loop) = _
  split
  · rfl
  · have hclosed : (state.movedOn loop).loops.closed loop.advance = .ok _ :=
      Loops.closed_changed (Loops.mem_of_find hfind) rfl
    have hclose : closeLoop loop.advance (state.movedOn loop) =
        .ok () (state.leftLoop loop) := by
      change (ofExcept ((state.movedOn loop).loops.closed loop.advance) >>=
        fun remaining => _) (state.movedOn loop) = _
      rw [hclosed]
      rfl
    change EStateM.bind (closeLoop loop.advance) _ (state.movedOn loop) = _
    rw [EStateM.bind, hclose]

theorem nextLoops_cons_of_error {error : RunError}
    (hfind : state.loops.find name = .error error) :
    nextLoops (name :: others) state = .error (.error error) state := by
  have hfound : findLoop name state = .error (.error error) state := by
    change ofRun (state.loops.find name) state = _
    rw [hfind]
    rfl
  rw [nextLoops]
  change EStateM.bind (findLoop name) _ state = _
  rw [EStateM.bind, hfound]

theorem nextRule_nextLoops (names : List (Option String)) (state : State) :
    NextRule Loop.GoesBack names state (nextLoops names state) := by
  induction names generalizing state with
  | nil => exact .done state
  | cons name others ih =>
      cases hfind : state.loops.find name with
      | ok loop =>
          rw [nextLoops_cons_of_ok others hfind]
          by_cases hback : loop.GoesBack
          · rw [if_pos (loop.continues_iff.mpr hback)]
            exact .back others hfind hback
          · rw [if_neg fun hcontinues => hback (loop.continues_iff.mp hcontinues)]
            exact .leave hfind hback (ih _)
      | error error =>
          rw [nextLoops_cons_of_error others hfind]
          obtain rfl := Loops.error_of_find hfind
          exact .missing others hfind

end Exec

/-- A NEXT takes its loops one after another.  Each is moved on by its step,
and so is its variable; if the loop goes back, control goes to the statement
behind its FOR and the NEXT is done, and otherwise the loop is removed.  A
step of zero goes back as one down does, an undefined step never. -/
theorem Statement.nextRule_exec [Host] (table : Table) (names : List String)
    (state : State) :
    NextRule Loop.GoesBack (nextTargets names) state
      ((Statement.next names).exec table state) :=
  Exec.nextRule_nextLoops _ state

/-- A loop that gets nowhere. -/
def standstill : Program :=
  [⟨none, .forLoop "I" (.number 1) (.number 1) (some (.number 0))⟩,
   ⟨none, .print [.text "A"] [] none⟩,
   ⟨none, .next ["I"]⟩]

/-- Without room for another step, but with a step of zero, the NEXT goes back
and the body is run once more. -/
theorem Statement.not_nextRule_hasRoom :
    let table := Table.ofProgram standstill
    (∃ state, Progress.after table 2 = .running state ⟨none, .next ["I"]⟩ ∧
      ¬NextRule Loop.HasRoom (nextTargets ["I"]) state
        ((Statement.next ["I"]).exec table state)) ∧
      (Progress.after table 4).output = #["A\n", "A\n"] := by
  intro table
  refine ⟨⟨_, rfl, ?_⟩, by decide +kernel⟩
  generalize hstate : State.mk _ _ _ _ _ _ _ _ = state
  let standing : Loop := ⟨"I", 1, 1, 0, 0⟩
  have hloops : state.loops = [standing] := by rw [← hstate]; rfl
  have hfind : state.loops.find (some "I") = .ok standing := by rw [hloops]; rfl
  have hexec : (Statement.next ["I"]).exec table state =
      .ok () (state.goneBack standing) := by
    change Exec.nextLoops [some "I"] state = _
    rw [Exec.nextLoops_cons_of_ok [] hfind, if_pos (by decide +kernel)]
  rw [hexec]
  intro hrule
  generalize hresult : EStateM.Result.ok () (state.goneBack standing) =
    result at hrule
  cases hrule with
  | back others hfound hroom =>
      obtain rfl := Except.ok.inj (hfind.symm.trans hfound)
      have hnone : ¬standing.HasRoom := by
        unfold Loop.HasRoom Loop.Within
        decide +kernel
      exact hnone hroom
  | leave hfound _ hothers =>
      obtain rfl := Except.ok.inj (hfind.symm.trans hfound)
      cases hothers
      have hloops' := congrArg State.loops (EStateM.Result.ok.inj hresult).2
      change state.loops.changed _ = state.loops.filter _ at hloops'
      rw [hloops] at hloops'
      cases hloops'
  | missing others hfound => cases hresult

end NumberedBasic
