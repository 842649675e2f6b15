import NumberedBasic.Proofs.Console.Saying
import NumberedBasic.Proofs.Machine.Output
import NumberedBasic.Proofs.Numbering.Run
import NumberedBasic.Proofs.Safety.Run

/-!
# What a followed run says

A run is followed with its notes taken away as soon as they are told.  As no
statement looks at the notes, what is passed on to the console all the same is
the output of the run itself, entry by entry.
-/

namespace NumberedBasic

/-! ## Output only grows -/

namespace Progress

theorem output_advance [Host] (table : Table) (progress : Progress) :
    progress.output.toList <+: (progress.advance table).output.toList := by
  cases progress with
  | ended state => exact List.prefix_refl _
  | broken defect state => exact List.prefix_refl _
  | running state line =>
      rw [advance]
      cases hdispatch : state.dispatch table line with
      | ok _ completed =>
          obtain ⟨written, -, houtput⟩ := State.output_of_completed hdispatch
          rw [State.resume, State.output_settle]
          change state.output.toList <+: completed.output.toList
          rw [houtput, Array.toList_append]
          exact List.prefix_append _ _
      | error halt stopped =>
          change state.output.toList <+: _
          rw [← State.output_of_stopped hdispatch]
          cases halt with
          | error error =>
              change _ <+: (stopped.output.push _).toList
              rw [Array.toList_push]
              exact List.prefix_append _ _
          | defect defect => exact List.prefix_refl _

theorem output_advanceMany [Host] (table : Table) (count : ℕ) (progress : Progress) :
    progress.output.toList <+:
      (progress.advanceMany table count).output.toList := by
  induction count generalizing progress with
  | zero => exact List.prefix_refl _
  | succ count ih =>
      rw [advanceMany_succ]
      exact (progress.output_advance table).trans (ih _)

end Progress

/-! ## Runs without their notes -/

theorem Line.renumber_id (line : Line) : line.renumber id = line := by
  rw [renumber, Option.map_id, Statement.renumber_id]
  rfl

theorem Program.renumber_id (program : Program) :
    program.renumber id = program := by
  rw [renumber, funext Line.renumber_id]
  exact List.map_id program

namespace Progress

variable {program : Program} {progress followed : Progress}

/-- A run, and the same run with other notes. -/
inductive Mirrors (program : Program) : Progress → Progress → Prop where
  | alike {progress followed : Progress}
      (halike : Renumbered id program progress followed) :
      Mirrors program progress followed
  | stopped {state followed : State} (houtput : followed.output = state.output) :
      Mirrors program (.ended state) (.ended followed)

theorem mirrors_start (program : Program) :
    Mirrors program (start (Table.ofProgram program))
      (start (Table.ofProgram program)) := by
  have hstart := renumbered_start (strictMono_id.strictMonoOn
    {number | number ∈ program.numbers})
  rw [program.renumber_id] at hstart
  exact .alike hstart

theorem Mirrors.withoutNotes (hmirrors : Mirrors program progress followed) :
    Mirrors program progress followed.withoutNotes := by
  cases hmirrors with
  | stopped houtput => exact .stopped houtput
  | alike halike =>
      cases halike with
      | running hline hstates => exact .alike (.running hline { hstates with })
      | ended hstates => exact .alike (.ended { hstates with })
      | broken defect hstates => exact .alike (.broken defect { hstates with })

theorem Mirrors.output_eq (hmirrors : Mirrors program progress followed) :
    followed.output = progress.output := by
  cases hmirrors with
  | stopped houtput => exact houtput
  | alike halike =>
      cases halike with
      | running hline hstates => exact hstates.output
      | ended hstates => exact hstates.output
      | broken defect hstates => exact hstates.output

theorem Mirrors.advance [Host] (hmirrors : Mirrors program progress followed) :
    Mirrors program (progress.advance (Table.ofProgram program))
      (followed.advance (Table.ofProgram program)) := by
  cases hmirrors with
  | stopped houtput => exact .stopped houtput
  | alike halike =>
      have hadvance := halike.advance (strictMono_id.strictMonoOn
        {number | number ∈ program.numbers})
      rw [program.renumber_id] at hadvance
      generalize progress.failure? _ = failure? at hadvance
      generalize followed.failure? _ = failure?' at hadvance
      generalize progress.advance _ = later at hadvance ⊢
      generalize followed.advance _ = later' at hadvance ⊢
      cases hadvance with
      | alike halike => exact .alike halike
      | failed line error hstates =>
          refine .stopped ?_
          rw [line.renumber_id, error.renumber_id]
          exact congrArg (fun output : Array String => output.push
            (Diagnostic.text ⟨error.message, line.number⟩)) hstates.output

end Progress

/-! ## Following -/

theorem Echoes.says_deliver {journal : Journal} (entries : List String) :
    (entries.forM (Echoes.deliver [consoleEcho])).Says journal () entries
      [] := by
  have hdeliver (entry : String) : (Echoes.deliver [consoleEcho] entry).Says
      journal () [entry] [] := (Act.Says.write entry).bind (.done ())
  have hall := Act.Says.forM fun entry (_ : entry ∈ entries) => hdeliver entry
  rwa [List.flatMap_singleton'] at hall

/-- What an output has after an earlier one, by way of one in between. -/
theorem drop_of_growing {first second third : Array String}
    (hfirst : first.toList <+: second.toList)
    (hsecond : second.toList <+: third.toList) :
    third.toList.drop first.size = (second.extract first.size).toList ++
      third.toList.drop second.size := by
  obtain ⟨written, hwritten⟩ := hfirst
  obtain ⟨more, hmore⟩ := hsecond
  have hextract : (second.extract first.size).toList = written := by
    rw [Array.toList_extract, ← hwritten]
    simp [← Array.length_toList, ← hwritten]
  have hlast : third.toList.drop second.size = more := by
    rw [← hmore, Array.size_eq_length_toList, List.drop_left]
  rw [hextract, hlast, ← hmore, ← hwritten, List.append_assoc,
    Array.size_eq_length_toList, List.drop_left]

/-- A followed run says what the run itself puts out from there on. -/
theorem Progress.says_follow [Host] {program : Program}
    (hknown : ∀ line ∈ program, line.statement.Known) (journal : Journal)
    (dispatches : ℕ) {progress followed : Progress}
    (hfaultless : progress.Faultless (Table.ofProgram program))
    (hmirrors : Mirrors program progress followed) :
    (followed.follow journal [consoleEcho] (Table.ofProgram program) dispatches
      progress.output.size).Says journal none
      ((progress.advanceMany (Table.ofProgram program)
        dispatches).output.toList.drop progress.output.size) [] := by
  induction dispatches generalizing progress followed with
  | zero =>
      rw [advanceMany, Array.size_eq_length_toList, List.drop_length]
      cases hmirrors with
      | stopped => exact .done none
      | alike halike =>
          cases halike with
          | broken => exact absurd rfl (hfaultless.unbroken _ _)
          | _ => exact .done none
  | succ dispatches ih =>
      have hnext := hfaultless.advance hknown
      have hlater := hmirrors.advance
      cases hmirrors with
      | stopped =>
          rw [advanceMany_of_ending _ _ rfl, Array.size_eq_length_toList,
            List.drop_length]
          exact .done none
      | alike halike =>
          cases halike with
          | broken => exact absurd rfl (hfaultless.unbroken _ _)
          | ended =>
              rw [advanceMany_of_ending _ _ rfl, Array.size_eq_length_toList,
                List.drop_length]
              exact .done none
          | @running state state' line hline hstates =>
              rw [line.renumber_id] at hlater ⊢
              rw [follow, advanceMany_succ]
              rw [hlater.output_eq]
              split
              next hsilent =>
                rw [← hsilent.1]
                exact ih hnext hlater
              next =>
                refine .bind_silent (journal.says_tell _) ?_
                rw [drop_of_growing (output_advance _ _)
                  (output_advanceMany _ dispatches _)]
                exact (Echoes.says_deliver _).bind (ih hnext hlater.withoutNotes)

/-- What a source text puts out when it is run, for a number of dispatches at
most. -/
def runOutput [Host] (dispatches : ℕ) (source : String) : List String :=
  match Program.parse source with
  | .ok program => (program.run dispatches).output.toList
  | .error _ => []

/-- The complaint about a source text that is not well formed. -/
def refusal [Host] (source : String) : List String :=
  match Program.parse source with
  | .error (.refused error) => [error.text ++ "\n"]
  | _ => []

theorem Program.says_perform [Host] {source : String} {program : Program}
    (hparse : Program.parse source = .ok program) (journal : Journal)
    (dispatches : ℕ) :
    (program.perform journal [consoleEcho] dispatches).Says journal .finished
      (runOutput dispatches source) [] := by
  have hfaultless : (Progress.start (Table.ofProgram program)).Faultless
      (Table.ofProgram program) :=
    ⟨Progress.sound_start _, State.unbroken_settle _ _⟩
  have hfollow := Progress.says_follow (Program.known_of_parse hparse) journal
    dispatches hfaultless (Progress.mirrors_start program).withoutNotes
  have hstart : (Progress.start (Table.ofProgram program)).output = #[] :=
    State.output_settle _ _
  rw [hstart] at hfollow
  rw [runOutput, hparse]
  exact .bind_silent (journal.says_tell _) (hfollow.silent_after (.done _))

/-- A source text is run, or complained about, or too hard to read. -/
theorem Session.says_execute [Host] {session : Session}
    (hechoes : session.echoes = [consoleEcho]) (journal : Journal)
    (dispatches : ℕ) (source : String) :
    (session.execute journal dispatches source).Says journal
      (match Program.parse source with
        | .ok _ => .finished
        | .error (.refused error) => .refused error
        | .error .unreadableNumeral => .crashed .unreadableNumeral)
      (runOutput dispatches source) [] := by
  rw [execute, hechoes]
  cases hparse : Program.parse source with
  | ok program => exact Program.says_perform hparse journal dispatches
  | error failure =>
      rw [runOutput, hparse]
      cases failure <;> exact .done _

end NumberedBasic
