import NumberedBasic.Proofs.Editor.Line

/-!
# The transcript of an editor session

Line after line, the editor prompts for the stored program that the lines
before have made, and says what the line says.  It ends with the first line
that leaves it, or at the end of input, and says goodbye.
-/

namespace NumberedBasic

namespace Editor

/-- The lines up to the first that ends the editor, and that one. -/
def handled (lines : List String) : List String :=
  lines.take (lines.findIdx leaves + 1)

/-- The lines, each with the program that is stored when it comes. -/
def exchanges (listing : Listing) (lines : List String) :
    List (Listing × String) :=
  (lines.scanl edited listing).zip lines

/-- The prompts, and after each what its line puts out. -/
def spoken [Host] (dispatches : ℕ) (listing : Listing) (lines : List String) :
    List String :=
  (exchanges listing lines).flatMap fun (program, line) =>
    promptFor program :: said dispatches program line

/-- The programs that are stored when a line is asked for; at the end of input
there is no line for the last of them. -/
def asked (listing : Listing) (lines : List String) : List Listing :=
  (exchanges listing lines).map (·.1) ++
    if lines.any leaves then [] else [lines.foldl edited listing]

/-- What is put out at the end of input, if no line has ended the editor. -/
def closing (listing : Listing) (lines : List String) : List String :=
  if lines.any leaves then []
  else [promptFor (lines.foldl edited listing), "\n"]

theorem handled_cons (line : String) (rest : List String) :
    handled (line :: rest) =
      line :: if leaves line then [] else handled rest := by
  rw [handled, List.findIdx_cons]
  cases leaves line <;> rfl

theorem exchanges_cons (listing : Listing) (line : String)
    (rest : List String) :
    exchanges listing (line :: rest) =
      (listing, line) :: exchanges (edited listing line) rest := by
  rw [exchanges, List.scanl_cons]
  rfl

/-- What a session with the editor has changed, given the lines that it has
handled. -/
structure Transcript [Host] (journal : Journal) (dispatches : ℕ) (listing : Listing)
    (lines : List String) (before later : World) : Prop where
  written : later.written =
    (spoken dispatches listing lines ++ closing listing lines).reverse ++
      before.written
  complaints : journal.Quiet → later.complaints =
    ((exchanges listing lines).flatMap fun (program, line) =>
      complained program line).reverse ++ before.complaints
  prompts : later.prompts.map Prompt.program =
    ((asked listing lines).map Listing.list).reverse ++
      before.prompts.map Prompt.program
  input : later.input = before.input.drop lines.length
  writesLeft : later.writesLeft = before.writesLeft

variable {journal : Journal} {dispatches : ℕ}

/-- What a prompt and the line after it have changed. -/
structure Exchanged (journal : Journal) (program writes complaints : List String)
    (before later : World) : Prop where
  written : later.written = writes.reverse ++ before.written
  complaints : journal.Quiet →
    later.complaints = complaints.reverse ++ before.complaints
  prompts : later.prompts.map Prompt.program =
    program :: before.prompts.map Prompt.program
  input : later.input = before.input.drop 1
  writesLeft : later.writesLeft = before.writesLeft
  interruption : later.interruption = before.interruption

namespace Exchanged

variable {listing : Listing} {line : String} {rest : List String}
  {before between later : World}

theorem transcript [Host] (hexchanged : Exchanged journal listing.list
      (promptFor listing :: said dispatches listing line)
      (complained listing line) before later) (hleaves : leaves line = true) :
    Transcript journal dispatches listing [line] before later := by
  have hany : [line].any leaves = true := by simp [hleaves]
  refine ⟨?_, ?_, ?_, hexchanged.input, hexchanged.writesLeft⟩
  · rw [spoken, exchanges_cons, closing, if_pos hany, hexchanged.written]
    simp [exchanges]
  · intro hquiet
    rw [exchanges_cons, hexchanged.complaints hquiet]
    simp [exchanges]
  · rw [asked, exchanges_cons, if_pos hany, hexchanged.prompts]
    simp [exchanges]

theorem transcript_cons [Host] (hexchanged : Exchanged journal listing.list
      (promptFor listing :: said dispatches listing line)
      (complained listing line) before between) (hleaves : leaves line = false)
    (hrest : Transcript journal dispatches (edited listing line) rest between
      later) :
    Transcript journal dispatches listing (line :: rest) before later := by
  have hany : (line :: rest).any leaves = rest.any leaves := by simp [hleaves]
  refine ⟨?_, ?_, ?_, ?_, hrest.writesLeft.trans hexchanged.writesLeft⟩
  · rw [hrest.written, hexchanged.written, spoken, spoken, exchanges_cons,
      closing, closing, hany]
    simp
  · intro hquiet
    rw [hrest.complaints hquiet, hexchanged.complaints hquiet, exchanges_cons]
    simp
  · rw [hrest.prompts, hexchanged.prompts, asked, asked, exchanges_cons, hany]
    simp
  · rw [hrest.input, hexchanged.input, List.drop_drop, List.length_cons,
      Nat.add_comm]

end Exchanged

/-! ## Lines that can be read -/

/-- Lines without overlong numerals keep the stored program without them. -/
theorem not_overlong_edited {listing : Listing} {line : String}
    (hline : ¬Text.Overlong line.toList)
    (hstored : ∀ stored ∈ listing.list, ¬Text.Overlong stored.toList) :
    ∀ stored ∈ (edited listing line).list, ¬Text.Overlong stored.toList := by
  rw [edited]
  split
  · cases hnumbered : Listing.numbered line with
    | error failure =>
        rw [Listing.store, hnumbered]
        exact hstored
    | ok entry =>
        rw [Listing.store, hnumbered]
        intro stored hmem
        obtain ⟨other, hother, rfl⟩ := List.mem_map.mp hmem
        rcases Listing.mem_put hother with rfl | hold
        · exact fun hlong => hline (Listing.overlong_of_lineText hnumbered hlong)
        · exact hstored _ (List.mem_map_of_mem hold)
  · split
    · exact fun _ hmem => absurd hmem List.not_mem_nil
    · exact hstored

theorem not_overlong_withoutLineEnd {line : String}
    (hline : ¬Text.Overlong line.toList) :
    ¬Text.Overlong (withoutLineEnd line).toList := by
  rw [withoutLineEnd, String.toList_ofList]
  exact fun hoverlong =>
    hline (hoverlong.mono (Text.isPrefix_reverse_dropWhile _).isInfix)

/-! ## The turns -/

/-- The editor prompts before it asks for a line. -/
theorem perform_prompt {α : Type} (journal : Journal) {world : World}
    (hworld : world.writesLeft = none) (prompt : String) (next : Act α) :
    ∃ ready, world.Heard journal [prompt] [] ready ∧
      world.perform (do
        Act.write prompt
        Act.flush
        next) = ready.perform next := by
  have hwrite : (Act.write prompt).Says journal () [prompt] [] := .write prompt
  obtain ⟨middle, hmiddle, hheard⟩ := hwrite.perform world hworld
  have hflush : Act.flush.Says journal () [] [] := .flush
  obtain ⟨ready, hready, hheard'⟩ :=
    hflush.perform middle (hheard.writesLeft.trans hworld)
  refine ⟨ready, hheard.trans hheard', ?_⟩
  rw [Act.bind_eq, World.perform_bind, hmiddle]
  dsimp only
  rw [Act.bind_eq, World.perform_bind, hready]

/-- At the end of input there is nothing but the prompt and a line end. -/
theorem perform_turns_end [Host] (lines : ℕ) (session : Session) (world : World)
    (hworld : world.writesLeft = none) (hend : world.interruption = none)
    (hinput : world.input = []) :
    ∃ later, world.perform (turns journal dispatches (lines + 1) session) =
        (.ok (session, none), later) ∧
      Transcript journal dispatches session.listing [] world later := by
  obtain ⟨ready, hheard, hready⟩ := perform_prompt journal hworld
    (promptFor session.listing) _
  have hfeed : (Act.write "\n").Says journal () ["\n"] [] := .write "\n"
  obtain ⟨later, hlater, hheard'⟩ :=
    hfeed.perform (ready.prompted session.listing.list)
      (hheard.writesLeft.trans hworld)
  refine ⟨later, ?_, ?_, ?_, ?_, ?_, ?_⟩
  · rw [turns, hready, Act.bind_eq, World.perform_bind,
      World.perform_readLine_of_nil _ (hheard.input.trans hinput)
        (hheard.interruption.trans hend)]
    dsimp only
    rw [Act.bind_eq, World.perform_bind, hlater]
    rfl
  · rw [hheard'.written, World.prompted, hheard.written]
    rfl
  · intro hquiet
    rw [hheard'.complaints hquiet, World.prompted, hheard.complaints hquiet]
    rfl
  · rw [hheard'.prompts, World.prompted, hheard.prompts]
    rfl
  · exact hheard'.input.trans hheard.input
  · exact hheard'.writesLeft.trans hheard.writesLeft

/-- What the editor does after a line, for another number of lines at most. -/
def afterTurn [Host] (journal : Journal) (dispatches lines : ℕ) (session : Session) :
    Turn → Act (Session × Option Crash)
  | .error crash => .done (session, some crash)
  | .ok (later, true) => turns journal dispatches lines later
  | .ok (later, false) => .done (later, none)

/-- A line is handled after its prompt. -/
theorem perform_turns_line [Host] (lines : ℕ) {session : Session} {world : World}
    (hworld : world.writesLeft = none) {line : String} {rest : List String}
    (hinput : world.input = line :: rest) {turn : Turn}
    {writes complaints : List String}
    (hturn : (handle journal dispatches session (withoutLineEnd line)).Says
      journal turn writes complaints) :
    ∃ between,
      Exchanged journal session.listing.list
        (promptFor session.listing :: writes) complaints world between ∧
      world.perform (turns journal dispatches (lines + 1) session) =
        between.perform (afterTurn journal dispatches lines session turn) := by
  obtain ⟨ready, hheard, hready⟩ := perform_prompt journal hworld
    (promptFor session.listing) _
  obtain ⟨between, hbetween, hheard'⟩ := hturn.perform
    { ready.prompted session.listing.list with input := rest }
    (hheard.writesLeft.trans hworld)
  refine ⟨between, ⟨?_, ?_, ?_, ?_, ?_, ?_⟩, ?_⟩
  · rw [hheard'.written, World.prompted, hheard.written]
    simp
  · intro hquiet
    rw [hheard'.complaints hquiet, World.prompted, hheard.complaints hquiet]
    rfl
  · rw [hheard'.prompts, World.prompted, hheard.prompts]
    rfl
  · rw [hheard'.input, hinput]
    rfl
  · exact hheard'.writesLeft.trans hheard.writesLeft
  · exact hheard'.interruption.trans hheard.interruption
  · rw [turns, hready, Act.bind_eq, World.perform_bind,
      World.perform_readLine_of_cons _ (hheard.input.trans hinput)]
    dsimp only
    rw [Act.bind_eq, World.perform_bind, hbetween]
    rcases turn with crash | ⟨next, _ | _⟩ <;> rfl

/-- The editor handles its lines one after the other, and none of them makes it
fail. -/
theorem perform_turns [Host] (lines : ℕ) (session : Session) (world : World)
    (hechoes : session.echoes = [consoleEcho])
    (hworld : world.writesLeft = none) (hend : world.interruption = none)
    (hlines : world.input.length < lines)
    (hinput : ∀ line ∈ world.input, ¬Text.Overlong line.toList)
    (hstored : ∀ stored ∈ session.listing.list,
      ¬Text.Overlong stored.toList) :
    let typed := handled (world.input.map withoutLineEnd)
    ∃ final later, world.perform (turns journal dispatches lines session) =
        (.ok (final, none), later) ∧
      final.echoes = session.echoes ∧
      final.listing = typed.foldl edited session.listing ∧
      Transcript journal dispatches session.listing typed world later := by
  -- what carries over from line to line: the echo, an open console without an
  -- interruption ahead, and no overlong numeral in the stored program
  induction lines generalizing session world with
  | zero => omega
  | succ lines ih =>
      cases htyped : world.input with
      | nil =>
          obtain ⟨later, hperform, htranscript⟩ :=
            perform_turns_end lines session world hworld hend htyped
          exact ⟨session, later, hperform, rfl, rfl, htranscript⟩
      | cons line rest =>
          rw [htyped] at hlines hinput
          have hline := not_overlong_withoutLineEnd
            (hinput line List.mem_cons_self)
          obtain ⟨next, hhandles⟩ :
              ∃ next, Handles journal dispatches session (withoutLineEnd line)
                (handle journal dispatches session (withoutLineEnd line))
                next := says_handle hechoes hline hstored
          obtain ⟨between, hexchanged, hperform⟩ :=
            perform_turns_line lines hworld htyped hhandles.spoken
          rw [List.map_cons, handled_cons]
          cases hleaves : leaves (withoutLineEnd line) with
          | true =>
            rw [hleaves] at hperform
            refine ⟨next, between, hperform, hhandles.echoes, ?_,
              hexchanged.transcript hleaves⟩
            rw [if_pos rfl, List.foldl_cons, List.foldl_nil]
            exact hhandles.listing
          | false =>
            rw [hleaves] at hperform
            rw [if_neg Bool.false_ne_true]
            have hbetween : between.input = rest := by
              rw [hexchanged.input, htyped, List.drop_one, List.tail_cons]
            have hprogram := not_overlong_edited hline hstored
            rw [← hhandles.listing] at hprogram
            obtain ⟨final, later, hlater, hkept, hlisting, htranscript⟩ :=
              ih next between (hhandles.echoes.trans hechoes)
                (hexchanged.writesLeft.trans hworld)
                (hexchanged.interruption.trans hend)
                (by rw [hbetween]; exact Nat.lt_of_succ_lt_succ hlines)
                (by
                  rw [hbetween]
                  exact fun other hother =>
                    hinput other (List.mem_cons_of_mem _ hother))
                hprogram
            rw [hhandles.listing, hbetween] at hlisting htranscript
            refine ⟨final, later, hperform.trans hlater,
              hkept.trans hhandles.echoes, ?_,
              hexchanged.transcript_cons hleaves htranscript⟩
            rw [List.foldl_cons]
            exact hlisting

/-- A session with the editor, from the first prompt to the farewell.  The
lines are handled up to the first that leaves the editor.  The stored program
is changed by numbered lines and by NEW only, and what a line says depends on
that program and the line alone.  Nothing fails, as long as neither the input
nor the program stored before holds an overlong numeral. -/
theorem interact_transcript [Host] (journal : Journal) (dispatches lines : ℕ)
    (session : Session) (world : World) (hechoes : session.echoes = [])
    (hworld : world.writesLeft = none) (hend : world.interruption = none)
    (hlines : world.input.length < lines)
    (hinput : ∀ line ∈ world.input, ¬Text.Overlong line.toList)
    (hstored : ∀ stored ∈ session.listing.list,
      ¬Text.Overlong stored.toList) :
    let typed := handled (world.input.map withoutLineEnd)
    let listing := session.listing
    ∃ final later,
      world.perform (interact journal dispatches lines session) =
        (.ok (final, none), later) ∧
      final.echoes = [] ∧
      final.listing = typed.foldl edited listing ∧
      later.written.reverse = world.written.reverse ++
        spoken dispatches listing typed ++ closing listing typed ++
          [farewell] ∧
      (journal.Quiet → later.complaints.reverse = world.complaints.reverse ++
        (exchanges listing typed).flatMap fun (program, line) =>
          complained program line) ∧
      (later.prompts.map Prompt.program).reverse =
        (world.prompts.map Prompt.program).reverse ++
          (asked listing typed).map Listing.list ∧
      later.input = world.input.drop typed.length := by
  intro typed listing
  have hattached : (session.addEcho consoleEcho).echoes = [consoleEcho] := by
    rw [Session.addEcho, hechoes]
    rfl
  obtain ⟨last, middle, hturns, hkept, hlisting, htranscript⟩ :
      ∃ last middle, world.perform
          (turns journal dispatches lines (session.addEcho consoleEcho)) =
            (.ok (last, none), middle) ∧
        last.echoes = [consoleEcho] ∧
        last.listing = typed.foldl edited listing ∧
        Transcript journal dispatches listing typed world middle :=
    hattached ▸ perform_turns lines (session.addEcho consoleEcho) world
      hattached hworld hend hlines hinput hstored
  have hdetached : last.removeEcho? consoleEcho =
      some { last with echoes := [] } := by
    rw [Session.removeEcho?, hkept]
    rfl
  have hfarewell : ((Act.write farewell).bind fun _ => Act.flush.bind fun _ =>
      .done (({ last with echoes := [] } : Session), (none : Option Crash))).Says
        journal ({ last with echoes := [] }, none) [farewell] [] :=
    (Act.Says.write farewell).silent_after (Act.Says.flush.bind (.done _))
  obtain ⟨later, hlater, hheard⟩ :=
    hfarewell.perform middle (htranscript.writesLeft.trans hworld)
  refine ⟨{ last with echoes := [] }, later, ?_, rfl, hlisting, ?_, ?_, ?_, ?_⟩
  · rw [interact, Act.bind_eq, World.perform_bind, hturns]
    dsimp only
    rw [hdetached]
    exact hlater
  · rw [hheard.written, htranscript.written]
    simp
  · intro hquiet
    rw [hheard.complaints hquiet, htranscript.complaints hquiet]
    simp
  · rw [hheard.prompts, htranscript.prompts]
    simp
  · exact hheard.input.trans htranscript.input

theorem interact_transcript_of_run :
    let world : World :=
      { World.blank with
        input :=
          ["10 PRINT \"A\"\n", "PRINT )\n", "run\n", "Quit\n", "LIST\n"] }
    ∃ final later,
      world.perform (interact ⟨false, false⟩ 10 6 (.withEchoes [])) =
        (.ok (final, none), later) ∧
      final.echoes = [] ∧
      final.listing.list = ["10 PRINT \"A\""] ∧
      later.written.reverse =
        ["READY> ", "BASIC> ", "BASIC> ", "A\n", "BASIC> ", "Goodbye!\n"] ∧
      later.complaints =
        ["SyntaxError: Unexpected token: )\n  at line 1, column 7\n"] ∧
      later.prompts.map Prompt.program =
        [["10 PRINT \"A\""], ["10 PRINT \"A\""], ["10 PRINT \"A\""], []] ∧
      later.input = ["LIST\n"] := by
  intro world
  have hinput : ∀ line ∈ world.input, ¬Text.Overlong line.toList := by
    intro line hline
    apply Text.not_overlong_of_length
    revert line
    decide +kernel
  obtain ⟨final, later, hperform, hechoes, hlisting, hwritten, hcomplaints,
      hprompts, hlater⟩ :=
    interact_transcript ⟨false, false⟩ 10 6 (.withEchoes []) world rfl rfl rfl
      (by decide) hinput nofun
  have hcomplaints := hcomplaints nofun
  refine ⟨final, later, hperform, hechoes, ?_, ?_, ?_, ?_, ?_⟩
  · rw [hlisting]
    decide +kernel
  · rw [hwritten]
    decide +kernel
  · rw [← List.reverse_inj, hcomplaints]
    decide +kernel
  · rw [← List.reverse_inj, hprompts]
    decide +kernel
  · rw [hlater]
    decide +kernel

/-! ## Programs that cannot be read -/

/-- RUN fails if the stored program has a numeral that cannot be read. -/
theorem says_run_unreadable [Host] {session : Session}
    (hlines : session.listing.lines.isEmpty = false)
    (hparse : Program.parse session.listing.source =
      .error .unreadableNumeral) :
    (perform journal dispatches session .run).Says journal
      (.error .unreadableNumeral) [] [] := by
  rw [perform, hlines]
  refine (journal.says_debug _).bind_silent ?_
  rw [execute, Session.execute, Session.start, hparse]
  exact .done _

/-- Such a failure ends the editor, with no farewell. -/
theorem interact_unreadable [Host] (journal : Journal) (dispatches lines : ℕ)
    (session : Session) (world : World) (hechoes : session.echoes = [])
    (hworld : world.writesLeft = none) {rest : List String}
    (hinput : world.input = "RUN\n" :: rest)
    (hlines : session.listing.lines.isEmpty = false)
    (hparse : Program.parse session.listing.source =
      .error .unreadableNumeral) :
    ∃ later,
      world.perform (interact journal dispatches (lines + 1) session) =
        (.ok (session, some .unreadableNumeral), later) ∧
      later.written = promptFor session.listing :: world.written := by
  have hfails : (handle journal dispatches (session.addEcho consoleEcho)
      (withoutLineEnd "RUN\n")).Says journal (.error .unreadableNumeral) [] [] :=
    says_run_unreadable hlines hparse
  obtain ⟨later, hexchanged, hperform⟩ :=
    perform_turns_line lines hworld hinput hfails
  refine ⟨later, ?_, hexchanged.written⟩
  have hdetached : (session.addEcho consoleEcho).removeEcho? consoleEcho =
      some session := by
    obtain ⟨echoes, listing, started⟩ := session
    cases hechoes
    rfl
  rw [interact, Act.bind_eq, World.perform_bind, hperform, afterTurn]
  dsimp only [World.perform_done]
  rw [hdetached]
  rfl

/-- A jump to a line number of 4301 digits may be stored, and then RUN is such
a failure. -/
theorem interact_overlong_stored :
    let jump := (10, String.ofList ("GOTO ".toList ++ List.replicate 4301 '1'))
    let session : Session := ⟨[], ⟨[jump], some 10⟩, false⟩
    let world : World := { World.blank with input := ["RUN\n"] }
    ∃ later, world.perform (interact ⟨false, false⟩ 1 2 session) =
        (.ok (session, some .unreadableNumeral), later) ∧
      later.written = ["BASIC> "] := by
  intro jump session world
  have hsource : session.listing.source =
      String.ofList ("10 GOTO ".toList ++ ones Text.longestNumeral) := by
    change "\n".intercalate [Listing.lineText jump] = _
    rw [String.intercalate_singleton, Listing.lineText, ← String.toList_inj]
    simp only [jump, String.toList_append, String.toList_ofList]
    rfl
  have hparse : Program.parse session.listing.source =
      .error .unreadableNumeral := by
    rw [hsource]
    exact parse_numbered_goto_ones le_rfl
  exact interact_unreadable ⟨false, false⟩ 1 1 session world rfl rfl rfl rfl
    hparse

end Editor

end NumberedBasic
