import NumberedBasic.Proofs.Nesting.Discipline

/-!
# Loops that are ended with or without a name

In a structured program a NEXT acts on the loop of the block that it ends,
which is the innermost.  It therefore does not matter whether it names the
variable of that block.
-/

namespace NumberedBasic

/-! ## Naming the variables of blocks -/

/-- The same line, or a NEXT with a name for one without. -/
inductive Line.Named : Line → Line → Prop
  | same (line : Line) : Named line line
  | named (number : Option Int) (name : String) :
      Named ⟨number, .next []⟩ ⟨number, .next [name]⟩

/-- Wherever a NEXT is given a name, it is that of the block it ends. -/
def Table.NamesBlocks (table table' : Table) : Prop :=
  ∀ index number name, table.line? index = some ⟨number, .next []⟩ →
    table'.line? index = some ⟨number, .next [name]⟩ →
    ∃ first, table.BlockAt name first index

namespace Line.Named

variable {line line' : Line} (hnamed : line.Named line')

include hnamed

theorem number : line'.number = line.number := by
  cases hnamed <;> rfl

theorem data : line'.data = line.data := by
  cases hnamed <;> rfl

theorem isDataFrom (target : Int) :
    Table.isDataFrom target line' = Table.isDataFrom target line := by
  cases hnamed <;> rfl

end Line.Named

section Lines

variable {lines lines' : List Line}
  (hnamed : List.Forall₂ Line.Named lines lines')

include hnamed

theorem flatMap_data_of_named :
    lines'.flatMap Line.data = lines.flatMap Line.data := by
  induction hnamed with
  | nil => rfl
  | cons hline _ ih =>
      rw [List.flatMap_cons, List.flatMap_cons, hline.data, ih]

theorem map_number_of_named :
    lines'.map Line.number = lines.map Line.number := by
  induction hnamed with
  | nil => rfl
  | cons hline _ ih => rw [List.map_cons, List.map_cons, hline.number, ih]

theorem takeWhile_of_named (target : Int) :
    List.Forall₂ Line.Named
      (lines.takeWhile (!Table.isDataFrom target ·))
      (lines'.takeWhile (!Table.isDataFrom target ·)) := by
  induction hnamed with
  | nil => exact .nil
  | cons hline _ ih =>
      rw [List.takeWhile_cons, List.takeWhile_cons, hline.isDataFrom]
      split
      · exact .cons hline ih
      · exact .nil

end Lines

/-! ## What statements see of the table -/

/-- The second table has names where the first may have none. -/
structure Table.Named (table table' : Table) : Prop where
  lines : List.Forall₂ Line.Named table.lines table'.lines
  data : table'.data = table.data
  blocks : table.NamesBlocks table'

theorem Table.named_ofProgram {program program' : Program}
    (hnamed : List.Forall₂ Line.Named program program')
    (hblocks : (ofProgram program).NamesBlocks (ofProgram program')) :
    (ofProgram program).Named (ofProgram program') := by
  have hlines := Program.forall₂_arrange (fun _ _ => Line.Named.number) hnamed
  exact ⟨hlines, flatMap_data_of_named hlines, hblocks⟩

namespace Table.Named

variable {table table' : Table} (hnamed : table.Named table')

include hnamed

theorem line? (index : Int) :
    Option.Rel Line.Named (table.line? index) (table'.line? index) := by
  obtain ⟨hlength, hlines⟩ := List.forall₂_iff_get.mp hnamed.lines
  unfold Table.line?
  split
  · by_cases hindex : index.toNat < table.lines.length
    · have hindex' : index.toNat < table'.lines.length := hlength ▸ hindex
      rw [List.getElem?_eq_getElem hindex, List.getElem?_eq_getElem hindex']
      exact .some (hlines _ hindex hindex')
    · rw [List.getElem?_eq_none (Nat.not_lt.mp hindex),
        List.getElem?_eq_none (hlength ▸ Nat.not_lt.mp hindex)]
      exact .none
  · exact .none

theorem size : table'.size = table.size :=
  hnamed.lines.length_eq.symm

theorem findLine (target : Option Int) :
    table'.findLine target = table.findLine target := by
  have hfound (lines : List Line) :
      lines.findIdx? (·.number = target) =
        (lines.map Line.number).findIdx? (· = target) := by
    rw [List.findIdx?_map]
    rfl
  unfold Table.findLine
  rw [hfound, hfound, map_number_of_named hnamed.lines]

theorem dataPosition (target : Int) :
    table'.dataPosition target = table.dataPosition target := by
  unfold Table.dataPosition
  rw [flatMap_data_of_named (takeWhile_of_named hnamed.lines target)]

theorem exec [Host] (statement : Statement) :
    statement.exec table' = statement.exec table := by
  induction statement with
  | goto target => rw [Statement.exec, Statement.exec, hnamed.findLine]
  | ifThen condition branch ih => rw [Statement.exec, Statement.exec, ih]
  | ifElse condition branch otherwise ihBranch ihOtherwise =>
      rw [Statement.exec, Statement.exec, ihBranch, ihOtherwise]
  | read targets =>
      have hread : Exec.readInto table' = Exec.readInto table := by
        funext target
        rw [Exec.readInto, Exec.readInto, Exec.readData, Exec.readData,
          hnamed.data]
      rw [Statement.exec, Statement.exec, hread]
  | restore target =>
      cases target with
      | none => rfl
      | some target =>
          rw [Statement.exec, Statement.exec, hnamed.dataPosition]
  | _ => rfl

end Table.Named

/-! ## One dispatch -/

/-- A NEXT depends on its name no further than on the loop that it finds. -/
theorem Exec.nextLoops_of_find {state : State} {target target' : Option String}
    (hfind : state.loops.find target' = state.loops.find target)
    (others : List (Option String)) :
    nextLoops (target' :: others) state = nextLoops (target :: others) state := by
  have hfound (target : Option String) :
      findLoop target state = ofRun (state.loops.find target) state := rfl
  change EStateM.bind (findLoop target') _ state =
    EStateM.bind (findLoop target) _ state
  rw [EStateM.bind, EStateM.bind, hfound, hfound, hfind]

/-- The same state, with lines at hand of which one has a name where the other
may have none. -/
inductive Progress.Named : Progress → Progress → Prop
  | running (state : State) {line line' : Line} (hline : line.Named line') :
      Named (.running state line) (.running state line')
  | ended (state : State) : Named (.ended state) (.ended state)
  | broken (defect : Defect) (state : State) :
      Named (.broken defect state) (.broken defect state)

section Progress

variable {progress progress' : Progress} (hnamed : progress.Named progress')

include hnamed

theorem Progress.Named.state_eq : progress'.state = progress.state := by
  cases hnamed <;> rfl

theorem Progress.Named.ending_eq : progress'.ending? = progress.ending? := by
  cases hnamed <;> rfl

end Progress

namespace Table.Named

variable {table table' : Table} (hnamed : table.Named table')

include hnamed

theorem settle (state : State) :
    (state.settle table).Named (state.settle table') := by
  unfold State.settle
  by_cases hrun : state.running = true
  · rw [if_pos hrun, if_pos hrun]
    have hline := hnamed.line? state.pc
    generalize table.line? state.pc = found at hline ⊢
    generalize table'.line? state.pc = found' at hline ⊢
    cases hline with
    | some hline => exact .running state hline
    | none => exact .ended _
  · rw [if_neg hrun, if_neg hrun]
    exact .ended _

theorem resume {line line' : Line} (hline : line.Named line')
    (result : EStateM.Result Halt State Unit) :
    (State.resume table line result).Named
      (State.resume table' line' result) := by
  cases result with
  | ok value final => exact hnamed.settle _
  | error halt final =>
      cases halt with
      | error error =>
          rw [State.resume, State.resume, State.stopWith, State.stopWith,
            hline.number]
          exact .ended _
      | defect defect => exact .broken defect _

theorem dispatch [Host] {state : State} {line line' : Line}
    (hfound : table.line? state.pc = some line)
    (hfound' : table'.line? state.pc = some line') (hline : line.Named line')
    (hdistinct : (state.loops.map Loop.name).Nodup)
    (hopened : table.Opened state.pc state.loops) :
    state.dispatch table' line' = state.dispatch table line := by
  rw [State.dispatch, State.dispatch, hnamed.exec]
  cases hline with
  | same => rfl
  | named number name =>
      obtain ⟨first, hblock⟩ := hnamed.blocks _ _ _ hfound hfound'
      obtain ⟨outer, loop, hloops, rfl, -⟩ := hopened.exists_innermost hblock
      apply Exec.nextLoops_of_find
      change state.loops.find (some loop.name) = state.loops.find none
      rw [hloops] at hdistinct ⊢
      rw [Loops.find_none_innermost, Loops.find_of_mem hdistinct (by simp)]

end Table.Named

/-! ## Runs -/

section Run

variable {program program' : Program}
  (hnested : Nested [] (Table.ofProgram program).lines)
  (hnamed : (Table.ofProgram program).Named (Table.ofProgram program'))

include hnested hnamed

/-- The two runs go through the same states. -/
theorem Progress.named_after [Host] (count : Nat) :
    (after (Table.ofProgram program) count).Named
      (after (Table.ofProgram program') count) := by
  induction count with
  | zero =>
      have hstart := hnamed.settle
        { State.fresh with
          running := true
          notes := #[.organised (Table.ofProgram program).size
            (Table.ofProgram program).data.length] }
      rw [after, after, advanceMany, advanceMany, start, start, hnamed.size,
        hnamed.data]
      exact hstart
  | succ count ih =>
      have hsound := sound_after program count
      have hsound' := sound_after program' count
      have hstructured := structured_after hnested count
      rw [after_succ, after_succ]
      generalize after (Table.ofProgram program) count = progress at *
      generalize after (Table.ofProgram program') count = progress' at *
      cases ih with
      | running state hline =>
          rw [advance, advance, hnamed.dispatch
            (hsound.at_hand _ _ rfl) (hsound'.at_hand _ _ rfl) hline
            hsound.state.loops.distinct (hstructured _ _ rfl)]
          exact hnamed.resume hline _
      | ended state => exact .ended state
      | broken defect state => exact .broken defect state

end Run

/-- Whenever a statement of a structured program is dispatched, the open loops
are those of the blocks around it, and a NEXT without a name finds that of the
block that it ends.  So no NEXT is without its FOR, and it changes nothing to
give such NEXTs the names of their blocks. -/
theorem Progress.after_nested [Host] {program : Program}
    (hnested : Nested [] (Table.ofProgram program).lines) (count : Nat) :
    let table := Table.ofProgram program
    (∀ state line, after table count = .running state line →
      table.Surrounds state.pc state.loops ∧
      (line.statement = .next [] → ∃ loop, state.loops.find none = .ok loop ∧
        table.BlockAt loop.name loop.forIndex state.pc)) ∧
    (∀ line name,
      (after table count).failure? table ≠ some (line, .nextWithoutFor name)) ∧
    ∀ program', List.Forall₂ Line.Named program program' →
      table.NamesBlocks (Table.ofProgram program') →
      (after (Table.ofProgram program') count).state =
        (after table count).state ∧
      (after (Table.ofProgram program') count).ending? =
        (after table count).ending? := by
  intro table
  refine ⟨?_, failure?_ne_nextWithoutFor hnested count, ?_⟩
  · intro state line hrunning
    have hline := (sound_after program count).at_hand state line hrunning
    have hopened := structured_after hnested count state line hrunning
    refine ⟨hopened.surrounds hnested, ?_⟩
    intro hnext
    obtain ⟨name, first, hblock⟩ :=
      Table.exists_blockAt_of_next hnested hline hnext
    obtain ⟨outer, loop, hloops, rfl, rfl⟩ := hopened.exists_innermost hblock
    exact ⟨loop, hloops ▸ Loops.find_none_innermost outer loop, hblock⟩
  · intro program' hprogram hblocks
    have hnamed := named_after hnested (Table.named_ofProgram hprogram hblocks)
      count
    exact ⟨hnamed.state_eq, hnamed.ending_eq⟩

/-- Two loops, of which the inner one is ended without a name. -/
def pairs : Program :=
  [⟨some 10, .forLoop "I" (.number 1) (.number 2) none⟩,
   ⟨some 20, .forLoop "J" (.number 1) (.number 2) none⟩,
   ⟨some 30, .print [.text "A"] [] none⟩,
   ⟨some 40, .next []⟩,
   ⟨some 50, .next ["I"]⟩]

theorem nested_pairs : Nested [] (Table.ofProgram pairs).lines := by
  let opening : Line := ⟨some 20, .forLoop "J" (.number 1) (.number 2) none⟩
  let line : Line := ⟨some 30, .print [.text "A"] [] none⟩
  let closing : Line := ⟨some 40, .next []⟩
  have hinner : Nested ["I"] [opening, line, closing] :=
    @Nested.block ["I"] "J" opening closing [line] [] ⟨_, _, _, rfl⟩ (by decide)
      (.plain rfl .nil) (.inl rfl) .nil
  exact @Nested.block [] "I" _ _ _ [] ⟨_, _, _, rfl⟩ (by decide) hinner
    (.inr rfl) .nil

theorem running_pairs [Host] : ∃ state, Progress.after (Table.ofProgram pairs) 3 =
    .running state ⟨some 40, .next []⟩ ∧ state.pc = 3 :=
  ⟨_, rfl, rfl⟩

/-- At the NEXT of the inner loop, which can be given a name. -/
theorem Progress.after_nested_of_pairs :
    let table := Table.ofProgram pairs
    let program' := pairs.set 3 ⟨some 40, .next ["J"]⟩
    Nested [] table.lines ∧
    (∃ state line loop, after table 3 = .running state line ∧
      table.Surrounds 3 state.loops ∧ state.loops.find none = .ok loop ∧
      table.BlockAt loop.name loop.forIndex 3) ∧
    ∀ count, (after (Table.ofProgram program') count).state =
      (after table count).state := by
  intro table program'
  refine ⟨nested_pairs, ?_, ?_⟩
  · obtain ⟨state, hrunning, hpc⟩ := running_pairs
    obtain ⟨hsurrounds, hfound⟩ :=
      (after_nested nested_pairs 3).1 state _ hrunning
    obtain ⟨loop, hloop, hblock⟩ := hfound rfl
    rw [hpc] at hsurrounds hblock
    exact ⟨state, _, loop, hrunning, hsurrounds, hloop, hblock⟩
  · have hnamed : List.Forall₂ Line.Named pairs program' :=
      .cons (.same _) (.cons (.same _) (.cons (.same _)
        (.cons (.named _ _) (.cons (.same _) .nil))))
    have hblocks : table.NamesBlocks (Table.ofProgram program') := by
      intro index number name hbare hname
      obtain ⟨hnonneg, hlast⟩ := Table.line?_range hbare
      have hsize : table.size = 5 := rfl
      obtain rfl | rfl | rfl | rfl | rfl : index = 0 ∨ index = 1 ∨ index = 2 ∨
          index = 3 ∨ index = 4 := by omega
      · cases hbare
      · cases hbare
      · cases hbare
      · cases hname
        exact ⟨1, [_], _, [_], _, _, rfl,
          ⟨⟨_, _, _, rfl⟩, .plain rfl .nil, .inl rfl⟩, rfl, rfl⟩
      · cases hbare
    exact fun count => ((after_nested nested_pairs count).2.2 program' hnamed
      hblocks).1

end NumberedBasic
