import Mathlib.Order.Bounds.Defs
import NumberedBasic.Proofs.Loops.Continuation
import NumberedBasic.Proofs.Machine.Failure
import NumberedBasic.Proofs.Nesting.Step

/-!
# How often a loop is gone through

The passes through a loop are counted by its start value, its end and its step
alone.  Its body is gone through in order in every pass, and the variable has
the value of the pass at the beginning of it, whatever the body assigns.
-/

namespace NumberedBasic

namespace Loop

/-- The value in a pass, counted from zero: the step is added once for every
pass before. -/
def valueAt (loop : Loop) : ℕ → Float
  | 0 => loop.current
  | pass + 1 => loop.valueAt pass + loop.step

variable (loop : Loop)

/-- The loop as it is during a pass. -/
def inPass (pass : ℕ) : Loop := { loop with current := loop.valueAt pass }

end Loop

/-- A table holds a FOR at the first index and a NEXT on its variable at the
last, and in between statements without GOTO, FOR, NEXT and END. -/
structure Table.LoopAt (table : Table) (name : String) (start limit : Expr)
    (step : Option Expr) (first last : Int) : Prop where
  order : first < last
  opening : ∃ line, table.line? first = some line ∧
    line.statement = .forLoop name start limit step
  body : ∀ index, first < index → index < last →
    ∃ line, table.line? index = some line ∧
      line.statement.isPlain = true ∧ line.statement.stops = false
  closing : ∃ line, table.line? last = some line ∧
    line.statement = .next [name]

/-! ## One statement -/

/-- The open loops, the statements at hand and to go on with, and whether the
run goes on. -/
def State.control (state : State) : Loops × Int × Int × Bool :=
  (state.loops, state.pc, state.next, state.running)

theorem Exec.aside_control : Aside State.control (fun _ => True) where
  memory _ _ := rfl
  dataPosition _ _ := rfl
  notes _ _ := rfl
  evaluation _ _ := trivial
  outOfData := trivial
  negativeDimension := trivial
  outOfMemory _ := trivial

theorem State.control_of_completed [Host] {table : Table} {state completed : State}
    {line : Line} (hplain : line.statement.isPlain = true)
    (hstops : line.statement.stops = false)
    (hdispatch : state.dispatch table line = .ok () completed) :
    completed.control =
      (state.loops, state.pc, state.pc + 1, state.running) := by
  have hkept := line.statement.preserves_of_isPlain Exec.aside_control
    (fun _ _ => rfl) table hplain (Or.inl hstops) _
    { state with next := state.pc + 1 } rfl
  rw [State.dispatch] at hdispatch
  rw [hdispatch] at hkept
  exact hkept

/-- The number that a step comes to; without one it is one. -/
def stepValue (memory : Memory) : Option Expr → Except Halt Value
  | none => .ok (.number 1)
  | some step => step.eval memory

/-- A loop opened, and its variable set to its value. -/
def State.withLoop (state : State) (loop : Loop) : State :=
  { state with
    loops := state.loops.opened loop
    scalars := state.scalars.set loop.name (.number loop.current)
    notes := state.notes.push (.opened loop) }

theorem Exec.openFor_apply {name : String} {start limit : Expr}
    {step : Option Expr} {state : State} {a b s : Float}
    (hstart : start.eval state.toMemory = .ok (.number a))
    (hlimit : limit.eval state.toMemory = .ok (.number b))
    (hstep : stepValue state.toMemory step = .ok (.number s)) :
    openFor name start limit step state =
      .ok () (state.withLoop ⟨name, a, b, s, state.pc⟩) := by
  have hnumber {expr : Expr} {x : Float}
      (hexpr : expr.eval state.toMemory = .ok (.number x)) :
      expr.evalNumber state.toMemory .loopBound = .ok x := by
    rw [Expr.evalNumber, hexpr]
    rfl
  rw [openFor, evalLoopBound, compute_bind_apply, hnumber hstart]
  dsimp only
  rw [evalLoopBound, compute_bind_apply, hnumber hlimit]
  cases step with
  | none =>
      obtain rfl : 1 = s := by cases hstep; rfl
      rfl
  | some step =>
      dsimp only
      rw [evalLoopBound, compute_bind_apply, hnumber hstep]
      rfl

/-! ## One pass -/

theorem Progress.advanceMany_succ_eq [Host] (table : Table) (count : ℕ)
    (progress : Progress) :
    progress.advanceMany table (count + 1) =
      (progress.advanceMany table count).advance table := by
  rw [advanceMany_add, advanceMany_succ, advanceMany]

/-- The statement at an index is about to be dispatched in a pass of the loop,
with the loops of `outer` around it.  At the beginning of the pass the
variable has the value of the pass. -/
def Progress.InPass (table : Table) (loop : Loop) (outer : Loops) (pass : ℕ)
    (index : Int) (progress : Progress) : Prop :=
  ∃ state line, progress = .running state line ∧
    table.line? index = some line ∧ state.pc = index ∧
    state.running = true ∧ state.loops = outer ++ [loop.inPass pass] ∧
    (index = loop.forIndex + 1 →
      state.scalars.get loop.name = .number (loop.valueAt pass))

/-- Control comes to an index after a number of passes: the loop is closed,
and its variable has the value that would belong to the next pass. -/
def Progress.LeftLoop (table : Table) (loop : Loop) (outer : Loops)
    (passes : ℕ) (index : Int) (progress : Progress) : Prop :=
  ∃ state : State, progress = state.settle table ∧ state.pc = index ∧
    state.running = true ∧ state.loops = outer ∧
    state.scalars.get loop.name = .number (loop.valueAt passes)

/-- If a statement between the indices is about to be dispatched, it does not
fail. -/
def Progress.BodyCompletes [Host] (table : Table) (first last : Int)
    (progress : Progress) : Prop :=
  ∀ state line, progress = .running state line → first < state.pc →
    state.pc < last →
      ∃ completed, state.dispatch table line = .ok () completed

section Pass

variable {table : Table} {start limit : Expr} {step : Option Expr}
  {first last : Int} {loop : Loop} {outer : Loops} {pass : ℕ} {index : Int}
  {progress : Progress}
  (hloop : table.LoopAt loop.name start limit step loop.forIndex last)

include hloop

theorem Table.LoopAt.exists_line (hfirst : loop.forIndex < index)
    (hlast : index ≤ last) : ∃ line, table.line? index = some line := by
  rcases Int.lt_or_eq_of_le hlast with hlt | rfl
  · obtain ⟨line, hline, -⟩ := hloop.body index hfirst hlt
    exact ⟨line, hline⟩
  · obtain ⟨line, hline, -⟩ := hloop.closing
    exact ⟨line, hline⟩

theorem Table.LoopAt.inPass_settle (state : State)
    (hfirst : loop.forIndex < state.pc) (hlast : state.pc ≤ last)
    (hrunning : state.running = true)
    (hloops : state.loops = outer ++ [loop.inPass pass])
    (hvalue : state.pc = loop.forIndex + 1 →
      state.scalars.get loop.name = .number (loop.valueAt pass)) :
    (state.settle table).InPass table loop outer pass state.pc := by
  obtain ⟨line, hline⟩ := hloop.exists_line hfirst hlast
  exact ⟨state, line, Progress.settle_of_line? state hrunning hline, hline,
    rfl, hrunning, hloops, hvalue⟩

/-- A statement of the body leads to the one behind it. -/
theorem Table.LoopAt.inPass_advance [Host] (hfirst : loop.forIndex < index)
    (hlast : index < last)
    (hprogress : progress.InPass table loop outer pass index)
    (hcompletes : progress.BodyCompletes table loop.forIndex last) :
    (progress.advance table).InPass table loop outer pass (index + 1) := by
  obtain ⟨state, line, rfl, hline, rfl, hrunning, hloops, -⟩ := hprogress
  obtain ⟨line', hline', hplain, hstops⟩ := hloop.body state.pc hfirst hlast
  obtain rfl : line = line' := Option.some.inj (hline.symm.trans hline')
  obtain ⟨completed, hdispatch⟩ := hcompletes state line rfl hfirst hlast
  obtain ⟨hloops', -, hnext, hrunning'⟩ : completed.loops = state.loops ∧
      completed.pc = state.pc ∧ completed.next = state.pc + 1 ∧
      completed.running = state.running := by
    simpa [State.control] using
      State.control_of_completed hplain hstops hdispatch
  rw [Progress.advance, hdispatch, State.resume, ← hnext]
  apply hloop.inPass_settle { completed with pc := completed.next }
  · change loop.forIndex < completed.next
    omega
  · change completed.next ≤ last
    omega
  · exact hrunning'.trans hrunning
  · exact hloops'.trans hloops
  · intro hpc
    change completed.next = loop.forIndex + 1 at hpc
    omega

/-- The NEXT at the end of a pass begins another one, or leaves the loop. -/
theorem Table.LoopAt.advance_closing [Host]
    (hsign : 0 < loop.step ∨ loop.step < 0)
    (hfresh : ∀ other ∈ outer, other.name ≠ loop.name)
    (hprogress : progress.InPass table loop outer pass last) :
    (loop.Within (loop.valueAt (pass + 1)) →
      (progress.advance table).InPass table loop outer (pass + 1)
        (loop.forIndex + 1)) ∧
    (¬loop.Within (loop.valueAt (pass + 1)) →
      (progress.advance table).LeftLoop table loop outer (pass + 1)
        (last + 1)) := by
  obtain ⟨state, line, rfl, hline, rfl, hrunning, hloops, -⟩ := hprogress
  obtain ⟨line', hline', hstatement⟩ := hloop.closing
  obtain rfl : line = line' := Option.some.inj (hline.symm.trans hline')
  have hinner : ∀ other ∈ outer, other.name ≠ (loop.inPass pass).name := hfresh
  have hfind : state.loops.find (some loop.name) = .ok (loop.inPass pass) := by
    rw [hloops]
    exact Loops.find_innermost hinner
  have hcontinues : (loop.inPass pass).advance.continues = true ↔
      loop.Within (loop.valueAt (pass + 1)) :=
    (Loop.continues_iff _).trans (Loop.goesBack_iff_hasRoom _ hsign)
  have hdispatch : state.dispatch table line =
      if (loop.inPass pass).advance.continues then
        .ok () ({ state with next := state.pc + 1 }.goneBack
          (loop.inPass pass))
      else
        .ok () ({ state with next := state.pc + 1 }.leftLoop
          (loop.inPass pass)) := by
    rw [State.dispatch, hstatement]
    exact Exec.nextLoops_cons_of_ok [] hfind
  have hset (scalars : Scalars) : (scalars.set loop.name
      (.number (loop.valueAt (pass + 1)))).get loop.name =
        .number (loop.valueAt (pass + 1)) := by
    rw [Scalars.get_set, if_pos rfl]
  constructor
  · intro hwithin
    rw [if_pos (hcontinues.mpr hwithin)] at hdispatch
    rw [Progress.advance, hdispatch, State.resume]
    have horder := hloop.order
    apply hloop.inPass_settle { State.goneBack _ _ with pc := _ }
    · exact Int.lt_succ loop.forIndex
    · exact horder
    · exact hrunning
    · exact State.loops_goneBack_innermost hinner hloops
    · exact fun _ => hset _
  · intro hpassed
    rw [if_neg fun hwithin => hpassed (hcontinues.mp hwithin)] at hdispatch
    rw [Progress.advance, hdispatch, State.resume]
    refine ⟨_, rfl, rfl, hrunning, ?_, hset _⟩
    exact State.loops_leftLoop_innermost hinner hloops

/-! ## All passes -/

variable [Host] {width count : ℕ} (hwidth : last = loop.forIndex + width)

include hwidth

/-- In a pass that nothing interrupts the statements are dispatched in order,
up to the NEXT. -/
theorem Table.LoopAt.inPass_of_begun
    (hbegun : (progress.advanceMany table count).InPass table loop outer pass
      (loop.forIndex + 1)) {offset : ℕ} (hoffset : offset < width)
    (hcompletes : ∀ earlier < offset,
      (progress.advanceMany table (count + earlier)).BodyCompletes table
        loop.forIndex last) :
    (progress.advanceMany table (count + offset)).InPass table loop outer pass
      (loop.forIndex + 1 + offset) := by
  induction offset with
  | zero => simpa using hbegun
  | succ offset ih =>
      have hbefore := ih (by omega) fun earlier hearlier =>
        hcompletes earlier (by omega)
      have hnext := hloop.inPass_advance (by omega) (by omega) hbefore
        (hcompletes offset (Nat.lt_succ_self offset))
      rw [← Nat.add_assoc, Progress.advanceMany_succ_eq, Int.natCast_succ,
        ← Int.add_assoc]
      exact hnext

/-- A pass that nothing interrupts is followed by another one, or by what is
behind the loop. -/
theorem Table.LoopAt.advanceMany_width
    (hsign : 0 < loop.step ∨ loop.step < 0)
    (hfresh : ∀ other ∈ outer, other.name ≠ loop.name)
    (hbegun : (progress.advanceMany table count).InPass table loop outer pass
      (loop.forIndex + 1))
    (hcompletes : ∀ earlier < width,
      (progress.advanceMany table (count + earlier)).BodyCompletes table
        loop.forIndex last) :
    (loop.Within (loop.valueAt (pass + 1)) →
      (progress.advanceMany table (count + width)).InPass table loop outer
        (pass + 1) (loop.forIndex + 1)) ∧
    (¬loop.Within (loop.valueAt (pass + 1)) →
      (progress.advanceMany table (count + width)).LeftLoop table loop outer
        (pass + 1) (last + 1)) := by
  have horder := hloop.order
  obtain ⟨offset, rfl⟩ : ∃ offset, width = offset + 1 :=
    ⟨width - 1, by omega⟩
  have hlast := hloop.inPass_of_begun hwidth hbegun
    (Nat.lt_succ_self offset) fun earlier hearlier =>
      hcompletes earlier (by omega)
  rw [show loop.forIndex + 1 + (offset : Int) = last by omega] at hlast
  rw [← Nat.add_assoc, Progress.advanceMany_succ_eq]
  exact hloop.advance_closing hsign hfresh hlast

section Begun

variable (hsign : 0 < loop.step ∨ loop.step < 0)
  (hfresh : ∀ other ∈ outer, other.name ≠ loop.name)
  (hbegun : (progress.advanceMany table count).InPass table loop outer 0
    (loop.forIndex + 1))
  (hwithin : ∀ value, 1 ≤ value → value ≤ pass →
    loop.Within (loop.valueAt value))
  {offset : ℕ}
  (hcompletes : ∀ earlier < pass * width + offset,
    (progress.advanceMany table (count + earlier)).BodyCompletes table
      loop.forIndex last)

include hsign hfresh hbegun hwithin hcompletes

/-- A pass begins if the values of all passes up to it are within the end. -/
theorem Table.LoopAt.begins_pass :
    (progress.advanceMany table (count + pass * width)).InPass table loop outer
      pass (loop.forIndex + 1) := by
  induction pass with
  | zero => simpa using hbegun
  | succ pass ih =>
      rw [Nat.succ_mul] at hcompletes
      have hbefore := ih (fun value hvalue hle => hwithin value hvalue (by omega))
        fun earlier hearlier => hcompletes earlier (by omega)
      rw [Nat.succ_mul, ← Nat.add_assoc]
      refine (hloop.advanceMany_width hwidth hsign hfresh hbefore ?_).1
        (hwithin (pass + 1) (by omega) (Nat.le_refl _))
      intro earlier hearlier
      rw [Nat.add_assoc]
      exact hcompletes _ (by omega)

theorem Table.LoopAt.inPass (hoffset : offset < width) :
    (progress.advanceMany table (count + pass * width + offset)).InPass table
      loop outer pass (loop.forIndex + 1 + offset) := by
  apply hloop.inPass_of_begun hwidth _ hoffset
  · intro earlier hearlier
    rw [Nat.add_assoc]
    exact hcompletes _ (by omega)
  · exact hloop.begins_pass hwidth hsign hfresh hbegun hwithin hcompletes

theorem Table.LoopAt.leftLoop (hoffset : offset = width)
    (hpassed : ¬loop.Within (loop.valueAt (pass + 1))) :
    (progress.advanceMany table (count + (pass + 1) * width)).LeftLoop table
      loop outer (pass + 1) (last + 1) := by
  rw [Nat.succ_mul, ← Nat.add_assoc]
  refine (hloop.advanceMany_width hwidth hsign hfresh
    (hloop.begins_pass hwidth hsign hfresh hbegun hwithin hcompletes) ?_).2
    hpassed
  intro earlier hearlier
  rw [Nat.add_assoc]
  exact hcompletes _ (by omega)

end Begun

end Pass

/-- The FOR begins the first pass. -/
theorem Table.LoopAt.advance_opening [Host] {table : Table} {name : String}
    {start limit : Expr} {step : Option Expr} {first last : Int}
    (hloop : table.LoopAt name start limit step first last) {state : State}
    {line : Line} (hline : table.line? first = some line)
    (hpc : state.pc = first) (hrunning : state.running = true) {a b s : Float}
    (hstart : start.eval state.toMemory = .ok (.number a))
    (hlimit : limit.eval state.toMemory = .ok (.number b))
    (hstep : stepValue state.toMemory step = .ok (.number s)) :
    ((Progress.running state line).advance table).InPass table
      ⟨name, a, b, s, first⟩ (state.loops.filter (·.name ≠ name)) 0
      (first + 1) := by
  subst hpc
  obtain ⟨line', hline', hstatement⟩ := hloop.opening
  obtain rfl : line = line' := Option.some.inj (hline.symm.trans hline')
  let loop : Loop := ⟨name, a, b, s, state.pc⟩
  have hloop : table.LoopAt loop.name start limit step loop.forIndex last :=
    hloop
  have hdispatch : state.dispatch table line =
      .ok () ({ state with next := state.pc + 1 }.withLoop loop) := by
    rw [State.dispatch, hstatement]
    exact Exec.openFor_apply hstart hlimit hstep
  have horder := hloop.order
  rw [Progress.advance, hdispatch, State.resume]
  apply hloop.inPass_settle { State.withLoop _ _ with pc := _ }
  · exact Int.lt_succ state.pc
  · exact horder
  · exact hrunning
  · rfl
  · exact fun _ => (Scalars.get_set _ _ _ _).trans (if_pos rfl)

/-- From a FOR whose bounds and step come to numbers, with a step up or down,
the body is gone through in order once for every value up to the first, after
the start value, that has passed the end, or for ever if there is none.  Each
pass begins with its value in the variable.  Behind the loop the variable has
the value that has passed the end, and the open loops are those of before, but
for one on the variable.  That is, if nothing in the body fails. -/
theorem Progress.passes_of_for [Host] {table : Table} {name : String}
    {start limit : Expr} {step : Option Expr} {first last : Int}
    (hloop : table.LoopAt name start limit step first last) {state : State}
    {line : Line} (hline : table.line? first = some line)
    (hpc : state.pc = first) (hrunning : state.running = true) {a b s : Float}
    (hstart : start.eval state.toMemory = .ok (.number a))
    (hlimit : limit.eval state.toMemory = .ok (.number b))
    (hstep : stepValue state.toMemory step = .ok (.number s))
    (hsign : 0 < s ∨ s < 0) :
    let loop : Loop := ⟨name, a, b, s, first⟩
    let others := state.loops.filter (·.name ≠ name)
    let width := (last - first).toNat
    let run := (running state line).advanceMany table
    (∀ trips, IsLeast {count | 1 ≤ count ∧ ¬loop.Within (loop.valueAt count)}
        trips →
      (∀ count < 1 + trips * width,
        (run count).BodyCompletes table first last) →
      (∀ pass < trips, ∀ offset < width,
        (run (1 + pass * width + offset)).InPass table loop others pass
          (first + 1 + offset)) ∧
      (run (1 + trips * width)).LeftLoop table loop others trips (last + 1)) ∧
    ((∀ count, 1 ≤ count → loop.Within (loop.valueAt count)) →
      (∀ count, (run count).BodyCompletes table first last) →
      ∀ pass, ∀ offset < width,
        (run (1 + pass * width + offset)).InPass table loop others pass
          (first + 1 + offset)) := by
  intro loop others width run
  have hwidth : last = loop.forIndex + width := by
    have horder := hloop.order
    change last = first + width
    omega
  have hfresh : ∀ other ∈ others, other.name ≠ loop.name := by
    intro other hother
    simpa using (List.mem_filter.mp hother).2
  have hbegun : (run 1).InPass table loop others 0 (loop.forIndex + 1) :=
    hloop.advance_opening hline hpc hrunning hstart hlimit hstep
  constructor
  · rintro trips ⟨⟨hpositive, hpassed⟩, hleast⟩ hcompletes
    have hwithin (count : ℕ) (hcount : 1 ≤ count) (hlt : count < trips) :
        loop.Within (loop.valueAt count) := by
      by_contra hnot
      exact absurd (hleast ⟨hcount, hnot⟩) (by omega)
    have hearly {pass : ℕ} (hlt : pass < trips) :
        pass * width + width ≤ trips * width := by
      rw [← Nat.succ_mul]
      exact Nat.mul_le_mul_right width hlt
    constructor
    · intro pass hlt offset hoffset
      have hbound := hearly hlt
      apply Table.LoopAt.inPass hloop hwidth hsign hfresh hbegun _ _ hoffset
      · exact fun count hcount hle => hwithin count hcount (by omega)
      · exact fun earlier hearlier => hcompletes _ (by omega)
    · obtain ⟨pass, rfl⟩ : ∃ pass, trips = pass + 1 := ⟨trips - 1, by omega⟩
      have hbound := hearly (Nat.lt_succ_self pass)
      apply Table.LoopAt.leftLoop hloop hwidth hsign hfresh hbegun _ _ rfl
        hpassed
      · exact fun count hcount hle => hwithin count hcount (by omega)
      · exact fun earlier hearlier => hcompletes _ (by omega)
  · intro hwithin hcompletes pass offset hoffset
    exact Table.LoopAt.inPass hloop hwidth hsign hfresh hbegun
      (fun count hcount _ => hwithin count hcount)
      (fun earlier _ => hcompletes _) hoffset

/-- A loop whose body assigns the variable of the loop. -/
def countingToTwo : Program :=
  [⟨none, .forLoop "I" (.number 1) (.number 2) (some (.number 1))⟩,
   ⟨none, .assign ⟨"I", []⟩ (.number 9)⟩,
   ⟨none, .next ["I"]⟩]

theorem Progress.passes_of_for_to_two :
    let table := Table.ofProgram countingToTwo
    let loop : Loop := ⟨"I", 1, 2, 1, 0⟩
    table.LoopAt "I" (.number 1) (.number 2) (some (.number 1)) 0 2 ∧
      IsLeast {count | 1 ≤ count ∧ ¬loop.Within (loop.valueAt count)} 2 ∧
      (∀ pass < 2, ∀ offset < 2,
        (after table (1 + pass * 2 + offset)).InPass table loop [] pass
          (0 + 1 + offset)) ∧
      (after table 5).LeftLoop table loop [] 2 3 := by
  intro table loop
  have hbody (index : Int) (hfirst : 0 < index) (hlast : index < 2) :
      ∃ line, table.line? index = some line ∧
        line.statement.isPlain = true ∧ line.statement.stops = false := by
    obtain rfl : index = 1 := by omega
    exact ⟨_, rfl, rfl, rfl⟩
  have hloop : table.LoopAt "I" (.number 1) (.number 2) (some (.number 1))
      0 2 :=
    ⟨by decide, ⟨_, rfl, rfl⟩, hbody, ⟨_, rfl, rfl⟩⟩
  have hleast : IsLeast
      {count | 1 ≤ count ∧ ¬loop.Within (loop.valueAt count)} 2 := by
    constructor
    · refine ⟨by decide, ?_⟩
      unfold Loop.Within
      decide +kernel
    · rintro count ⟨hcount, hpassed⟩
      by_contra hlt
      obtain rfl : count = 1 := by omega
      apply hpassed
      unfold Loop.Within
      decide +kernel
  have hcompletes (count : ℕ) :
      (after table count).BodyCompletes table 0 2 := by
    intro state line hrunning hfirst hlast
    have hline := (sound_after countingToTwo count).at_hand state line hrunning
    rw [show state.pc = 1 by omega] at hline
    obtain rfl := Option.some.inj hline
    exact ⟨_, rfl⟩
  have hpc : (start table).state.pc = 0 := rfl
  have hpasses := passes_of_for hloop rfl hpc rfl (a := 1) (b := 2) (s := 1)
    rfl rfl rfl (Or.inl (by decide))
  exact ⟨hloop, hleast, hpasses.1 2 hleast fun count _ => hcompletes count⟩

end NumberedBasic
