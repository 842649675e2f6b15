import Mathlib.Order.Nat
import Mathlib.Tactic.IntervalCases
import NumberedBasic.Proofs.Effects.Parts
import NumberedBasic.Proofs.Nesting.Step
import NumberedBasic.Proofs.Safety.Run

/-!
# Programs that only go forward

Without NEXT, and with no GOTO to a line that is not further down, every
dispatch is further down the table than the one before.  So there are no more
dispatches than statements.
-/

namespace NumberedBasic

/-- There is a NEXT in the statement, or in one of its branches. -/
def Statement.hasNext : Statement → Bool
  | .ifThen _ branch => branch.hasNext
  | .ifElse _ branch otherwise => branch.hasNext || otherwise.hasNext
  | .next _ => true
  | _ => false

/-- There is no NEXT in the table, and every GOTO whose line exists leads
further down than the statement that it is in. -/
structure Table.Forward (table : Table) : Prop where
  no_next : ∀ line ∈ table.lines, line.statement.hasNext = false
  jumps : ∀ index line, table.line? index = some line →
    ∀ target ∈ line.statement.jumps, ∀ place,
      table.findLine target = .ok place → index < place

/-- The statement is without GOTO and END, in its branches as well. -/
structure Statement.Straight (statement : Statement) : Prop where
  jumps : statement.jumps = []
  stops : statement.stops = false

/-! ## One statement -/

namespace Statement

variable {statement : Statement} {state final : State} {table : Table}

theorem of_next_mem_parts (hpart : .next ∈ statement.parts) :
    (∃ target, statement = .goto target) ∨ ∃ names, statement = .next names := by
  cases statement with
  | goto target => exact Or.inl ⟨target, rfl⟩
  | next names => exact Or.inr ⟨names, rfl⟩
  | _ => simp [parts] at hpart

theorem of_running_mem_parts (hpart : .running ∈ statement.parts) :
    statement = .stop := by
  cases statement with
  | stop => rfl
  | _ => simp [parts] at hpart

theorem hasNext_reached (memory : Memory) (hnext : statement.hasNext = false) :
    (statement.reached memory).hasNext = false := by
  apply @property_reached (·.hasNext = false) _ _ memory _ hnext
  · exact id
  · exact Bool.or_eq_false_iff.mp

theorem jumps_reached (memory : Memory) {allowed : Option Int → Prop}
    (hjumps : ∀ target ∈ statement.jumps, allowed target) :
    ∀ target ∈ (statement.reached memory).jumps, allowed target := by
  apply @property_reached (∀ target ∈ ·.jumps, allowed target) _ _ memory _ hjumps
  · exact id
  · exact List.forall_mem_append.mp

theorem Straight.reached (memory : Memory) (hstraight : statement.Straight) :
    (statement.reached memory).Straight := by
  apply property_reached _ _ memory hstraight
  · exact fun hbranch => ⟨hbranch.jumps, hbranch.stops⟩
  · intro _ _ _ hboth
    obtain ⟨hjumps, hjumps'⟩ := List.append_eq_nil_iff.mp hboth.jumps
    obtain ⟨hstops, hstops'⟩ := Bool.or_eq_false_iff.mp hboth.stops
    exact ⟨⟨hjumps, hstops⟩, ⟨hjumps', hstops'⟩⟩

/-- What is gone on with is the line of a GOTO, or the statement behind. -/
theorem lt_next_of_completed [Host] {index : Int}
    (hnext : statement.hasNext = false)
    (hjumps : ∀ target ∈ statement.jumps, ∀ place,
      table.findLine target = .ok place → index < place)
    (hbehind : index < state.next)
    (hcompleted : statement.exec table state = .ok () final) :
    index < final.next := by
  have hnotNext := hasNext_reached state.toMemory hnext
  have hallowed := jumps_reached state.toMemory hjumps
  by_cases hpart : .next ∈ (statement.reached state.toMemory).parts
  · rcases of_next_mem_parts hpart with ⟨target, htarget⟩ | ⟨names, hnames⟩
    · rw [← exec_reached, htarget] at hcompleted
      rw [htarget] at hallowed
      cases hfind : table.findLine target with
      | error error =>
          rw [exec, hfind] at hcompleted
          cases hcompleted
      | ok place =>
          rw [exec, hfind] at hcompleted
          cases hcompleted
          exact hallowed target (List.mem_singleton_self target) place hfind
    · rw [hnames] at hnotNext
      cases hnotNext
  · have hkept := next_exec table hpart
    rw [hcompleted] at hkept
    exact hbehind.trans_eq hkept.symm

theorem Straight.course_of_completed [Host] (hstraight : statement.Straight)
    (hnext : statement.hasNext = false)
    (hcompleted : statement.exec table state = .ok () final) :
    final.next = state.next ∧ final.running = state.running := by
  have hnotNext := hasNext_reached state.toMemory hnext
  have hreached := hstraight.reached state.toMemory
  have hkept := @next_exec _ table statement state
  have hkept' := @running_exec _ table statement state
  rw [hcompleted] at hkept hkept'
  constructor
  · apply hkept
    intro hpart
    rcases of_next_mem_parts hpart with ⟨target, htarget⟩ | ⟨names, hnames⟩
    · rw [htarget] at hreached
      exact List.cons_ne_nil _ _ hreached.jumps
    · rw [hnames] at hnotNext
      cases hnotNext
  · apply hkept'
    intro hpart
    rw [of_running_mem_parts hpart] at hreached
    cases hreached.stops

end Statement

/-! ## One dispatch after another -/

namespace Progress

variable [Host] {table : Table} {state later : State} {line other : Line}

section Forward

variable {program : Program} (hforward : (Table.ofProgram program).Forward)

include hforward

theorem pc_lt_of_advance {count : Nat}
    (hbefore : after (Table.ofProgram program) count = running state line)
    (hafter : after (Table.ofProgram program) (count + 1) = running later other) :
    state.pc < later.pc := by
  have hline := (sound_after program count).at_hand state line hbefore
  rw [after_succ, hbefore] at hafter
  obtain ⟨completed, hcompleted, rfl, -⟩ := of_advance_running hafter
  exact Statement.lt_next_of_completed
    (hforward.no_next line (Table.mem_of_line? hline))
    (hforward.jumps state.pc line hline) (Int.lt_succ state.pc) hcompleted

/-- Every dispatch is further down the table than those before. -/
theorem pc_lt_of_forward {earlier count : Nat} (hearlier : earlier < count)
    (hbefore : after (Table.ofProgram program) earlier = running state line)
    (hafter : after (Table.ofProgram program) count = running later other) :
    state.pc < later.pc := by
  induction count generalizing later other with
  | zero => cases hearlier
  | succ count ih =>
      obtain ⟨between, lineBetween, completed, hbetween, -⟩ :=
        completed_before hafter (Nat.lt_succ_self count)
      have hlast := pc_lt_of_advance hforward hbetween hafter
      rcases Nat.lt_succ_iff_lt_or_eq.mp hearlier with hlt | rfl
      · exact (ih hlt hbetween).trans hlast
      · rw [hbefore] at hbetween
        obtain ⟨rfl, -⟩ := running.inj hbetween
        exact hlast

theorem le_pc_of_forward {count : Nat}
    (hafter : after (Table.ofProgram program) count = running state line) :
    count ≤ state.pc := by
  induction count generalizing state line with
  | zero =>
      have hline := (sound_after program 0).at_hand state line hafter
      exact (Table.line?_range hline).1
  | succ count ih =>
      obtain ⟨before, lineBefore, completed, hbefore, -⟩ :=
        completed_before hafter (Nat.lt_succ_self count)
      have hle := ih hbefore
      have hlt := pc_lt_of_advance hforward hbefore hafter
      omega

theorem over_of_forward :
    (after (Table.ofProgram program)
      (Table.ofProgram program).size).ending?.isSome = true := by
  cases hafter : after (Table.ofProgram program) (Table.ofProgram program).size with
  | running state line =>
      have hline := (sound_after program _).at_hand state line hafter
      have hle := le_pc_of_forward hforward hafter
      exact absurd (Table.line?_range hline).2 (Int.not_lt.mpr hle)
  | ended state => rfl
  | broken defect state => rfl

end Forward

/-! ## Straight programs -/

/-- What stops the statement at hand, if anything does. -/
def halt? (table : Table) : Progress → Option Halt
  | running state line =>
      match state.dispatch table line with
      | .ok _ _ => none
      | .error halt _ => some halt
  | _ => none

theorem halt?_eq_none_of_advance
    (hadvance : (running state line).advance table = running later other) :
    (running state line).halt? table = none := by
  obtain ⟨completed, hcompleted, -, -⟩ := of_advance_running hadvance
  rw [halt?, hcompleted]

theorem running_of_after {count : Nat}
    (hafter : after table count = running state line) :
    state.running = true := by
  cases count with
  | zero =>
      obtain ⟨rfl, hrunning, -⟩ := eq_of_settle hafter
      exact hrunning
  | succ count =>
      obtain ⟨before, lineBefore, _, hbefore, -⟩ :=
        completed_before hafter (Nat.lt_succ_self count)
      rw [after_succ, hbefore] at hafter
      obtain ⟨_, -, -, hrunning⟩ := of_advance_running hafter
      exact hrunning

/-- A run that is over was so for the first time after some dispatch. -/
theorem exists_first_ending {size : Nat}
    (hover : (after table size).ending?.isSome = true) :
    ∃ count ≤ size, (after table count).ending?.isSome = true ∧
      ∀ index < count, ∃ state line, after table index = running state line := by
  have hexists : ∃ count, (after table count).ending?.isSome = true :=
    ⟨size, hover⟩
  refine ⟨Nat.find hexists, Nat.find_min' hexists hover,
    Nat.find_spec hexists, ?_⟩
  exact fun index hindex => exists_running (Nat.find_min hexists hindex)

/-- Only the last dispatch of a run is stopped. -/
theorem succ_eq_of_halt? {count index : Nat} {halt : Halt}
    (hover : (after table count).ending?.isSome = true)
    (hfirst : ∀ index < count, ∃ state line,
      after table index = running state line)
    (hhalt : (after table index).halt? table = some halt) :
    index + 1 = count := by
  rcases Nat.lt_trichotomy (index + 1) count with hbefore | hlast | hbehind
  · obtain ⟨state, line, hafter⟩ := hfirst index (Nat.lt_of_succ_lt hbefore)
    obtain ⟨later, other, hnext⟩ := hfirst (index + 1) hbefore
    rw [after_succ, hafter] at hnext
    rw [hafter, halt?_eq_none_of_advance hnext] at hhalt
    cases hhalt
  · exact hlast
  · rw [after_of_ending table (Nat.le_of_lt_succ hbehind) hover] at hhalt
    cases hafter : after table count <;> rw [hafter] at hover hhalt
    · cases hover
    · cases hhalt
    · cases hhalt

section Straight

variable {program : Program} (hforward : (Table.ofProgram program).Forward)
  (hstraight : ∀ line ∈ program, line.statement.Straight)
  {state : State} {line : Line}

include hforward hstraight

theorem course_of_straight {count : Nat} {completed : State}
    (hafter : after (Table.ofProgram program) count = running state line)
    (hcompleted : state.dispatch (Table.ofProgram program) line =
      .ok () completed) :
    completed.next = state.pc + 1 ∧ completed.running = true := by
  have hline := (sound_after program count).at_hand state line hafter
  have hmem := Table.mem_of_line? hline
  have hkept := hstraight line (Program.mem_arrange.mp hmem)
  obtain ⟨hnext, hrunning⟩ :=
    hkept.course_of_completed (hforward.no_next line hmem) hcompleted
  have hstate : state.running = true := running_of_after hafter
  exact ⟨hnext, hrunning.trans hstate⟩

theorem pc_of_straight {count : Nat}
    (hafter : after (Table.ofProgram program) count = running state line) :
    state.pc = count := by
  induction count generalizing state line with
  | zero =>
      obtain ⟨rfl, -, -⟩ := eq_of_settle hafter
      rfl
  | succ count ih =>
      obtain ⟨before, lineBefore, completed, hbefore, hcompleted⟩ :=
        completed_before hafter (Nat.lt_succ_self count)
      have hnext := (course_of_straight hforward hstraight hbefore hcompleted).1
      rw [after_succ, hbefore] at hafter
      obtain ⟨_, hdispatch, rfl, -⟩ := of_advance_running hafter
      rw [hcompleted] at hdispatch
      cases hdispatch
      rw [ih hbefore] at hnext
      exact hnext

/-- Behind a statement that was completed comes the next, if there is one. -/
theorem halt?_of_straight {count : Nat}
    (hsize : count + 1 < (Table.ofProgram program).size)
    (hafter : after (Table.ofProgram program) count = running state line)
    (hover : (after (Table.ofProgram program) (count + 1)).ending?.isSome = true) :
    ((running state line).halt? (Table.ofProgram program)).isSome = true := by
  rw [halt?]
  cases hdispatch : state.dispatch (Table.ofProgram program) line with
  | error halt failed => rfl
  | ok _ completed =>
      obtain ⟨hnext, hrunning⟩ :=
        course_of_straight hforward hstraight hafter hdispatch
      rw [pc_of_straight hforward hstraight hafter] at hnext
      obtain ⟨other, hother⟩ := Table.exists_line? hsize
      rw [Int.natCast_succ, ← hnext] at hother
      rw [after_succ, hafter, advance, hdispatch, State.resume,
        settle_of_line? { completed with pc := completed.next } hrunning
          hother] at hover
      cases hover

/-- If the run is over in front of a statement, the one before has failed. -/
theorem exists_halt_of_straight {count : Nat}
    (hover : (after (Table.ofProgram program) count).ending?.isSome = true)
    (hfirst : ∀ index < count, ∃ state line,
      after (Table.ofProgram program) index = running state line)
    (hsize : count < (Table.ofProgram program).size) :
    ∃ last, last + 1 = count ∧
      ((after (Table.ofProgram program) last).halt?
        (Table.ofProgram program)).isSome = true := by
  cases count with
  | zero =>
      obtain ⟨line, hline⟩ := Table.exists_line? hsize
      change (State.settle _ _).ending?.isSome = true at hover
      rw [settle_of_line? _ rfl hline] at hover
      cases hover
  | succ last =>
      obtain ⟨state, line, hafter⟩ := hfirst last (Nat.lt_succ_self last)
      refine ⟨last, rfl, ?_⟩
      rw [hafter]
      exact halt?_of_straight hforward hstraight hsize hafter hover

end Straight

/-- Where a program of known parts fails it does so with an error. -/
theorem error_of_halt? {program : Program} {count : Nat} {halt : Halt}
    (hhalt : (after (Table.ofProgram program) count).halt?
      (Table.ofProgram program) = some halt)
    (hknown : ∀ line ∈ program, line.statement.Known) :
    ∃ error, halt = .error error := by
  have hsound := sound_after program count
  cases hafter : after (Table.ofProgram program) count with
  | ended state =>
      rw [hafter] at hhalt
      cases hhalt
  | broken defect state =>
      rw [hafter] at hhalt
      cases hhalt
  | running state line =>
      rw [hafter] at hsound hhalt
      have hline := hsound.at_hand state line rfl
      have hstate : state.Sound (Table.ofProgram program) := hsound.state
      rw [halt?] at hhalt
      cases hdispatch : state.dispatch (Table.ofProgram program) line with
      | ok _ completed =>
          rw [hdispatch] at hhalt
          cases hhalt
      | error cause failed =>
          rw [hdispatch] at hhalt
          cases hhalt
          have hfault := hstate.ofProgram_of_dispatch hknown hline hdispatch
          cases halt with
          | error error => exact ⟨error, rfl⟩
          | defect defect => cases hfault

/-- A run of a program without NEXT whose GOTOs lead forward goes down its
table and is over after as many dispatches as there are statements at the
most.  Without GOTO and END the statements are dispatched in order, each of
them once, up to the last or to the first that fails.  A program of known
parts fails with an error only. -/
theorem after_of_forward (program : Program)
    (hforward : (Table.ofProgram program).Forward) :
    let table := Table.ofProgram program
    (∀ {earlier count : Nat} {state later : State} {line other : Line},
      earlier < count → after table earlier = running state line →
        after table count = running later other → state.pc < later.pc) ∧
    (after table table.size).ending?.isSome = true ∧
    ((∀ line ∈ program, line.statement.Straight) →
      ∃ count ≤ table.size,
        (∀ index < count, ∃ state line,
          after table index = running state line ∧ state.pc = index ∧
          table.line? index = some line) ∧
        (after table count).ending?.isSome = true ∧
        (count < table.size → ∃ last, last + 1 = count ∧
          ((after table last).halt? table).isSome = true) ∧
        ∀ index halt, (after table index).halt? table = some halt →
          index + 1 = count ∧
          ((∀ line ∈ program, line.statement.Known) →
            ∃ error, halt = .error error)) := by
  intro table
  refine ⟨pc_lt_of_forward hforward, over_of_forward hforward, ?_⟩
  intro hstraight
  obtain ⟨count, hcount, hover, hfirst⟩ :=
    exists_first_ending (over_of_forward hforward)
  refine ⟨count, hcount, ?_, hover,
    exists_halt_of_straight hforward hstraight hover hfirst, ?_⟩
  · intro index hindex
    obtain ⟨state, line, hafter⟩ := hfirst index hindex
    have hpc := pc_of_straight hforward hstraight hafter
    have hline := (sound_after program index).at_hand state line hafter
    exact ⟨state, line, hafter, hpc, hpc ▸ hline⟩
  · intro index halt hhalt
    exact ⟨succ_eq_of_halt? hover hfirst hhalt, error_of_halt? hhalt⟩

end Progress

/-- The END is left out. -/
def detour : Program :=
  [⟨some 10, .ifThen (.text "A") (.ifThen (.text "B") (.goto (some 30)))⟩,
    ⟨some 20, .stop⟩, ⟨some 30, .print [.text "C"] [] none⟩]

/-- There is nothing to read. -/
def exhausted : Program :=
  [⟨some 10, .print [.text "A"] [] none⟩, ⟨some 20, .read [⟨"A", []⟩]⟩,
    ⟨some 30, .remark "B"⟩]

theorem Progress.after_of_forward_of_detour :
    (Table.ofProgram detour).Forward ∧ (Table.ofProgram exhausted).Forward ∧
      (∀ line ∈ exhausted, line.statement.Straight) ∧
      (after (Table.ofProgram detour) 3).ending?.isSome = true ∧
      ∃ count, count = 2 ∧
        (after (Table.ofProgram exhausted) count).ending?.isSome = true ∧
        ∀ index < count, ∃ state line,
          after (Table.ofProgram exhausted) index = running state line ∧
          state.pc = index := by
  have hdetour : (Table.ofProgram detour).Forward := by
    refine ⟨by decide, ?_⟩
    intro index line hline target htarget place hplace
    obtain ⟨hlower, hupper⟩ := Table.line?_range hline
    change index < 3 at hupper
    interval_cases index
    · cases hline
      obtain rfl := List.mem_singleton.mp htarget
      cases hplace
      decide
    · cases hline
      cases htarget
    · cases hline
      cases htarget
  have hexhausted : (Table.ofProgram exhausted).Forward := by
    refine ⟨by decide, ?_⟩
    intro index line hline target htarget
    have hmem := Program.mem_arrange.mp (Table.mem_of_line? hline)
    simp [exhausted] at hmem
    rcases hmem with rfl | rfl | rfl <;> cases htarget
  have hstraight : ∀ line ∈ exhausted, line.statement.Straight := by
    simp only [exhausted, List.forall_mem_cons]
    exact ⟨⟨rfl, rfl⟩, ⟨rfl, rfl⟩, ⟨rfl, rfl⟩, nofun⟩
  refine ⟨hdetour, hexhausted, hstraight, (after_of_forward detour hdetour).2.1, ?_⟩
  obtain ⟨count, -, hrunning, hover, -, hhalt⟩ :=
    (after_of_forward exhausted hexhausted).2.2 hstraight
  have hcount := (hhalt 1 (.error .outOfData) rfl).1
  refine ⟨count, hcount.symm, hover, ?_⟩
  intro index hindex
  obtain ⟨state, line, hafter, hpc, -⟩ := hrunning index hindex
  exact ⟨state, line, hafter, hpc⟩

end NumberedBasic
