import NumberedBasic.Proofs.Machine.Following
import NumberedBasic.Proofs.Machine.Reachable
import NumberedBasic.Proofs.Nesting.Step

/-!
# Open loops follow the blocks

The open loops of a structured program are those of the blocks around the
statement at hand, whichever way the loops are gone through and however often.
A dispatch keeps this: at a FOR one block more is entered, and at a NEXT the
innermost block is left or entered again.
-/

namespace NumberedBasic

/-! ## The invariant -/

/-- The open loops are those of the blocks around an index. -/
def Table.Opened (table : Table) (index : Int) (loops : Loops) : Prop :=
  ∃ before after, table.lines = before ++ after ∧ index = before.length ∧
    loops.map Loop.block = openBlocks 0 [] before

theorem Table.exists_lines_of_line? {table : Table} {index : Int} {line : Line}
    (hline : table.line? index = some line) :
    ∃ before after, table.lines = before ++ line :: after ∧
      index = before.length := by
  rw [line?] at hline
  split at hline
  case isTrue hnonneg =>
    obtain ⟨hlength, rfl⟩ := List.getElem?_eq_some_iff.mp hline
    refine ⟨table.lines.take index.toNat, table.lines.drop (index.toNat + 1),
      ?_, ?_⟩
    · rw [← List.drop_eq_getElem_cons hlength, List.take_append_drop]
    · rw [List.length_take]
      omega
  case isFalse => cases hline

theorem Loops.map_name_of_block {loops : Loops} {blocks : List OpenBlock}
    (hblocks : loops.map Loop.block = blocks) :
    loops.map Loop.name = blocks.map Prod.fst := by
  rw [← hblocks, List.map_map]
  rfl

theorem Loops.exists_innermost {loops : Loops} {outer : List OpenBlock}
    {block : OpenBlock} (hblocks : loops.map Loop.block = outer ++ [block]) :
    ∃ others loop, loops = others ++ [loop] ∧
      others.map Loop.block = outer ∧ loop.block = block := by
  obtain ⟨others, rest, rfl, houter, hrest⟩ := List.map_eq_append_iff.mp hblocks
  obtain ⟨loop, rfl, hblock⟩ := List.map_eq_singleton_iff.mp hrest
  exact ⟨others, loop, rfl, houter, hblock⟩

/-- At the end of a block its NEXT finds the innermost loop, be it named or
not. -/
theorem Statement.Ends.exists_target [Host] {name : String} {statement : Statement}
    (hends : statement.Ends name) (table : Table) :
    ∃ target, statement.exec table = Exec.nextLoops [target] ∧
      ∀ (outer : Loops) (loop : Loop), loop.name = name →
        ((outer ++ [loop]).map Loop.name).Nodup →
        Loops.find (outer ++ [loop]) target = .ok loop := by
  rcases hends with rfl | rfl
  · exact ⟨none, rfl, fun outer loop _ _ =>
      Loops.find_none_innermost outer loop⟩
  · refine ⟨some name, rfl, ?_⟩
    rintro outer loop rfl hdistinct
    exact Loops.find_of_mem hdistinct (by simp)

/-- The open loops are those of the blocks that an index lies in, behind the
FOR of each and up to its NEXT; an outer one comes before an inner one. -/
structure Table.Surrounds (table : Table) (index : Int) (loops : Loops) :
    Prop where
  outermost_first : (loops.map Loop.forIndex).Pairwise (· < ·)
  mem_iff : ∀ name first,
    (∃ loop ∈ loops, loop.name = name ∧ loop.forIndex = first) ↔
      ∃ last, table.BlockAt name first last ∧ first < index ∧ index ≤ last

section Opened

variable {table : Table} {index : Int} {loops : Loops}
  (hopened : table.Opened index loops)

include hopened

theorem Table.Opened.surrounds (hnested : Nested [] table.lines) :
    table.Surrounds index loops := by
  obtain ⟨before, after, hlines, rfl, hblocks⟩ := hopened
  obtain ⟨blocks, haround⟩ := hnested.exists_around 0 hlines
  have hopen : openBlocks 0 [] before = blocks := haround.openBlocks_eq []
  constructor
  · have hindices : loops.map Loop.forIndex = blocks.map Prod.snd := by
      rw [← hopen, ← hblocks, List.map_map]
      rfl
    rw [hindices]
    exact haround.pairwise.1
  · intro name first
    rw [← mem_openBlocks_iff hlines hnested, ← hblocks, List.mem_map]
    simp only [Loop.block, Prod.mk.injEq]

/-- At the end of a block its loop is the innermost. -/
theorem Table.Opened.exists_innermost {name : String} {first : Int}
    (hblock : table.BlockAt name first index) :
    ∃ outer loop, loops = outer ++ [loop] ∧ loop.name = name ∧
      loop.forIndex = first := by
  obtain ⟨before, after, hlines, rfl, hblocks⟩ := hopened
  obtain ⟨outer, hopen⟩ := openBlocks_of_blockAt hlines hblock
  obtain ⟨others, loop, hloops, -, hloop⟩ :=
    Loops.exists_innermost (hblocks.trans hopen)
  exact ⟨others, loop, hloops, congrArg Prod.fst hloop,
    congrArg Prod.snd hloop⟩

end Opened

/-- Every NEXT of a structured table ends a block. -/
theorem Table.exists_blockAt_of_next {table : Table}
    (hnested : Nested [] table.lines) {index : Int} {line : Line}
    (hline : table.line? index = some line) {names : List String}
    (hnext : line.statement = .next names) :
    ∃ name first, table.BlockAt name first index := by
  obtain ⟨before, after, hlines, rfl⟩ := exists_lines_of_line? hline
  obtain ⟨blocks, haround⟩ := hnested.exists_around 0 hlines
  cases haround.situation with
  | plain hplain =>
      rw [hnext] at hplain
      cases hplain
  | begins hbegins _ =>
      obtain ⟨start, limit, step, hfor⟩ := hbegins
      cases hnext.symm.trans hfor
  | @ends name front body opening hbefore hblock =>
      refine ⟨name, front.length, front, opening, body, line, after, ?_, hblock,
        rfl, ?_⟩
      · rw [hlines, hbefore, List.append_assoc, List.cons_append]
      · rw [hbefore, List.length_append, List.length_cons]
        omega

/-! ## One dispatch -/

/-- With the loops open at an index, the action leads to where the open loops
are those of the blocks, and does not stop for want of a loop. -/
def Exec.KeepsOpened (table : Table) (index : Int) (loops : Loops)
    (action : Exec Unit) : Prop :=
  Meets (fun state => state.route = (loops, index, index + 1)) action
    (fun _ state => table.Opened state.next state.loops)
    (fun halt _ => halt.sparesLoops)

section Dispatch

variable {table : Table} {before rest : List Line} {line : Line}
  (hlines : table.lines = before ++ line :: rest) {loops : Loops}
  (hblocks : loops.map Loop.block = openBlocks 0 [] before)

include hlines hblocks

/-- The loops that are open behind a statement if the run goes on there. -/
theorem Table.opened_behind {loops' : Loops}
    (hblocks' : loops'.map Loop.block =
      line.statement.openAfter before.length (loops.map Loop.block)) :
    table.Opened (before.length + 1) loops' := by
  refine ⟨before ++ [line], rest, by simpa using hlines, by simp, ?_⟩
  rw [hblocks', hblocks, openBlocks_append, openBlocks, openBlocks, Int.zero_add]

theorem Table.keepsOpened_plain [Host] (hplain : line.statement.isPlain = true) :
    Exec.KeepsOpened table before.length loops (line.statement.exec table) := by
  apply Exec.Meets.weaken (line.statement.preserves_route table hplain _)
  · exact fun _ hroute => hroute
  · intro _ state hroute
    change table.Opened state.route.2.2 state.route.1
    rw [hroute]
    apply opened_behind hlines hblocks
    rw [Statement.openAfter_of_isPlain _ _ hplain]
  · exact fun _ _ hstopped => hstopped.2

theorem Table.keepsOpened_begins [Host] {name : String}
    (hbegins : line.statement.Begins name)
    (hfresh : name ∉ loops.map Loop.name) :
    Exec.KeepsOpened table before.length loops (line.statement.exec table) := by
  have hafter := Statement.openAfter_of_begins before.length
    (loops.map Loop.block) hbegins
  obtain ⟨start, limit, step, hfor⟩ := hbegins
  rw [hfor]
  apply Exec.Meets.weaken (Exec.meets_openFor name start limit step _)
  · exact fun _ hroute => hroute
  · rintro _ state ⟨loop, hloop, hroute⟩
    have hname : loop.name = name := congrArg Prod.fst hloop
    change table.Opened state.route.2.2 state.route.1
    rw [hroute, Loops.opened_of_fresh (hname ▸ hfresh)]
    apply opened_behind hlines hblocks
    rw [hafter, List.map_append, List.map_singleton, hloop]
  · exact fun _ _ hstopped => hstopped

/-- The NEXT of a block goes back behind its FOR, where the block is open as
it is at the NEXT, or leaves the block. -/
theorem Table.keepsOpened_ends [Host] (hdistinct : (loops.map Loop.name).Nodup)
    {name : String} {front body : List Line} {opening : Line}
    (hbefore : before = front ++ opening :: body)
    (hblock : IsBlock name opening body line) :
    Exec.KeepsOpened table before.length loops (line.statement.exec table) := by
  have hinnermost := hblocks
  rw [hbefore, hblock.openBlocks_body] at hinnermost
  obtain ⟨outer, loop, rfl, houter, hloop⟩ := Loops.exists_innermost hinnermost
  have hname : loop.name = name := congrArg Prod.fst hloop
  have hfirst : loop.forIndex = front.length := congrArg Prod.snd hloop
  obtain ⟨target, hnext, hfind⟩ := hblock.ends.exists_target table
  rw [hnext]
  apply Exec.Meets.weaken (Exec.meets_nextLoops_innermost hdistinct _ _
    (hfind outer loop hname hdistinct))
  · exact fun _ hroute => hroute
  · rintro _ state (hroute | hroute)
    -- the loop goes on behind its FOR, or it is closed
    · change table.Opened state.route.2.2 state.route.1
      rw [hroute, hfirst]
      refine ⟨front ++ [opening], body ++ line :: rest, ?_, by simp, ?_⟩
      · simpa [hbefore] using hlines
      · rw [hblock.openBlocks_opening, ← hbefore, ← hblocks, List.map_append,
          List.map_append]
        rfl
    · change table.Opened state.route.2.2 state.route.1
      rw [hroute]
      apply opened_behind hlines hblocks
      rw [Statement.openAfter_of_ends _ _ hblock.ends, List.map_append,
        List.map_singleton, List.dropLast_concat]
  · exact fun _ _ hstopped => hstopped.elim

end Dispatch

/-- A dispatch in a structured table leads to a place where the open loops are
those of the blocks around it, and does not stop for want of a loop. -/
theorem Table.Opened.dispatch [Host] {table : Table}
    (hnested : Nested [] table.lines) {state : State} {line : Line}
    (hline : table.line? state.pc = some line)
    (hdistinct : (state.loops.map Loop.name).Nodup)
    (hopened : table.Opened state.pc state.loops) :
    match state.dispatch table line with
    | .ok _ final => table.Opened final.next final.loops
    | .error halt _ => halt.sparesLoops := by
  obtain ⟨before, rest, hlines, hpc⟩ := exists_lines_of_line? hline
  obtain ⟨before', after, hlines', hpc', hblocks⟩ := hopened
  obtain ⟨rfl, rfl⟩ := List.append_inj (hlines.symm.trans hlines') (by omega)
  have hroute : State.route { state with next := state.pc + 1 } =
      (state.loops, (before.length : Int), (before.length : Int) + 1) := by
    rw [← hpc]
    rfl
  obtain ⟨blocks, haround⟩ := hnested.exists_around 0 hlines
  have hopen : openBlocks 0 [] before = blocks := haround.openBlocks_eq []
  have hkeeps : Exec.KeepsOpened table before.length state.loops
      (line.statement.exec table) := by
    cases haround.situation with
    | plain hplain => exact keepsOpened_plain hlines hblocks hplain
    | begins hbegins hfresh =>
        rw [List.nil_append, ← hopen,
          ← Loops.map_name_of_block hblocks] at hfresh
        exact keepsOpened_begins hlines hblocks hbegins hfresh
    | ends hbefore hblock =>
        exact keepsOpened_ends hlines hblocks hdistinct hbefore hblock
  have hmet := hkeeps _ hroute
  rw [State.dispatch]
  split at hmet
  next hresult => rwa [hresult]
  next hresult => rwa [hresult]

/-! ## Runs -/

/-- Whatever is about to be dispatched, the open loops are those of the blocks
around it. -/
def Progress.Structured (table : Table) (progress : Progress) : Prop :=
  ∀ state line, progress = .running state line →
    table.Opened state.pc state.loops

theorem Table.Opened.settle {table : Table} {state : State}
    (hopened : table.Opened state.pc state.loops) :
    (state.settle table).Structured table := by
  intro other line hrunning
  obtain ⟨rfl, -, -⟩ := Progress.eq_of_settle hrunning
  exact hopened

section Run

variable [Host] {program : Program}
  (hnested : Nested [] (Table.ofProgram program).lines)

include hnested

theorem Progress.Structured.advance {progress : Progress}
    (hsound : progress.Sound (Table.ofProgram program))
    (hstructured : progress.Structured (Table.ofProgram program)) :
    (progress.advance (Table.ofProgram program)).Structured
      (Table.ofProgram program) := by
  cases progress with
  | running state line =>
      have hdispatch := (hstructured state line rfl).dispatch hnested
        (hsound.at_hand state line rfl) hsound.state.loops.distinct
      rw [Progress.advance]
      cases hresult : state.dispatch (Table.ofProgram program) line with
      | ok value final =>
          rw [hresult] at hdispatch
          exact hdispatch.settle
      | error halt final =>
          intro other current hrunning
          cases halt <;> cases hrunning
  | ended state => exact hstructured
  | broken defect state => exact hstructured

theorem Progress.structured_after (count : Nat) :
    (after (Table.ofProgram program) count).Structured
      (Table.ofProgram program) := by
  induction count with
  | zero => exact Table.Opened.settle ⟨[], _, rfl, rfl, rfl⟩
  | succ count ih =>
      rw [after_succ]
      exact ih.advance hnested (sound_after program count)

/-- No NEXT is without its FOR. -/
theorem Progress.failure?_ne_nextWithoutFor (count : Nat) (line : Line)
    (name : Option String) :
    (after (Table.ofProgram program) count).failure? (Table.ofProgram program) ≠
      some (line, .nextWithoutFor name) := by
  have hsound := sound_after program count
  have hstructured := structured_after hnested count
  intro hfailure
  cases hafter : after (Table.ofProgram program) count with
  | running state current =>
      rw [hafter] at hsound hfailure
      have hdispatch := (hstructured state current hafter).dispatch hnested
        (hsound.at_hand _ _ rfl) hsound.state.loops.distinct
      rw [failure?] at hfailure
      split at hfailure
      next error _ hstopped =>
        obtain ⟨-, rfl⟩ := Prod.mk.inj (Option.some.inj hfailure)
        rw [hstopped] at hdispatch
        exact hdispatch name rfl
      next => cases hfailure
  | ended state =>
      rw [hafter] at hfailure
      cases hfailure
  | broken defect state =>
      rw [hafter] at hfailure
      cases hfailure

end Run

end NumberedBasic
