import NumberedBasic.Launch
import NumberedBasic.Proofs.Console.Pipe

/-!
# A launch whose output is no longer read

Everything between the command line and the exit status gives way to a broken
pipe, the editor and the flush after each source text included, and nothing
around it goes on writing.  So a pipe that is closed cuts the output to its
beginning.
-/

namespace NumberedBasic

open Act.GivesWay

/-! ## The editor -/

namespace Editor

variable (journal : Journal) (dispatches : Nat)

theorem givesWay_execute [Host] (session : Session) (source : String) :
    (execute journal dispatches session source).GivesWay := by
  refine (Session.givesWay_execute ..).bind fun execution => ?_
  cases execution with
  | finished => exact done _
  | crashed crash => exact done _
  | refused error =>
      exact (journal.givesWay_say _ _).bind fun _ =>
        (complain _).bind fun _ => done _

theorem givesWay_store (session : Session) (line : String) :
    (store journal session line).GivesWay := by
  rw [store]
  split
  · exact done _
  · dsimp only [Act.bind_eq]
    split
    · exact (journal.givesWay_say _ _).bind fun _ => done _
    · exact done _

theorem givesWay_perform [Host] (session : Session) (command : Command) :
    (perform journal dispatches session command).GivesWay := by
  cases command with
  | run =>
      rw [perform]
      split
      · exact (write _).bind fun _ => done _
      · exact (journal.givesWay_say _ _).bind fun _ => givesWay_execute ..
  | list =>
      rw [perform]
      have hlist := forM session.listing.list fun line => write (line ++ "\n")
      split
      · exact (write _).bind fun _ => hlist.bind fun _ => done _
      · exact hlist.bind fun _ => done _
  | new => exact (write _).bind fun _ => done _
  | help => exact (write _).bind fun _ => done _
  | exit => exact done _

theorem givesWay_handle [Host] (session : Session) (line : String) :
    (handle journal dispatches session line).GivesWay := by
  rw [handle]
  split
  · exact done _
  · split
    · exact givesWay_store ..
    · split
      · exact givesWay_perform ..
      · exact givesWay_execute ..

theorem givesWay_turns [Host] (lines : Nat) (session : Session) :
    (turns journal dispatches lines session).GivesWay := by
  induction lines generalizing session with
  | zero => exact done _
  | succ lines ih =>
      refine (write _).bind fun _ => flush.bind fun _ =>
        (readLine _).bind fun line => ?_
      cases line with
      | none => exact (write _).bind fun _ => done _
      | some line =>
          refine (givesWay_handle ..).bind fun turn => ?_
          rcases turn with crash | ⟨session, _ | _⟩
          · exact done _
          · exact done _
          · exact ih session

theorem givesWay_interact [Host] (lines : Nat) (session : Session) :
    (interact journal dispatches lines session).GivesWay := by
  refine (givesWay_turns ..).bind fun (session, crash) => ?_
  cases crash with
  | some crash => exact done _
  | none => exact (write _).bind fun _ => flush.bind fun _ => done _

end Editor

/-! ## The choices -/

namespace Choices

theorem givesWay_readSections (path : String) :
    (readSections path).GivesWay := by
  rw [readSections]
  split
  · exact done _
  · refine (readFile path).bind fun file => ?_
    cases file with
    | error error => exact done _
    | ok bytes =>
        dsimp only
        split <;> exact done _

theorem givesWay_readIfExists (path : String) :
    (readIfExists path).GivesWay := by
  refine (fileExists path).bind fun found => ?_
  split
  · exact givesWay_readSections path
  · exact done _

theorem givesWay_readOwn (named : String) : (readOwn named).GivesWay := by
  rw [readOwn]
  split
  · exact givesWay_readIfExists _
  · exact givesWay_readSections _

theorem givesWay_openJournal (choices : Choices) :
    (openJournal choices).GivesWay := by
  rw [openJournal]
  split
  · exact done _
  · split
    · exact done _
    · refine (openLog _).bind fun started => ?_
      cases started with
      | ok => exact done _
      | error error => exact (complain _).bind fun _ => done _

theorem givesWay_gather (systemFile : String) (words : List String) :
    (gather systemFile words).GivesWay := by
  refine (givesWay_readIfExists _).bind fun system => ?_
  rcases system with crash | ⟨system, systemWarnings⟩
  · exact done _
  refine (givesWay_readOwn _).bind fun own => ?_
  rcases own with crash | ⟨own, ownWarnings⟩
  · exact done _
  dsimp only
  split
  · exact done _
  refine (givesWay_openJournal _).bind fun journal => ?_
  cases journal with
  | error crash => exact done _
  | ok journal =>
      exact (forM _ journal.givesWay_warnFirst).bind fun _ => done _

end Choices

/-! ## The launch -/

namespace Launch

variable (journal : Journal) (limits : Limits)

theorem givesWay_readProgram (path : String) :
    (readProgram journal path).GivesWay := by
  rw [readProgram]
  split
  · exact done _
  · refine (readFile path).bind fun file => ?_
    cases file with
    | ok bytes => exact done _
    | error error => exact (journal.givesWay_say _ _).bind fun _ => done _

theorem givesWay_runSource [Host] (session : Session) (source : String) :
    (runSource journal limits session source).GivesWay := by
  refine lastly_flush ((Session.givesWay_execute ..).bind fun execution => ?_)
  cases execution with
  | finished => exact done _
  | crashed crash => exact done _
  | refused error => exact (complain _).bind fun _ => done _

theorem givesWay_runSources [Host] (session : Session) (sources : List String) :
    (runSources journal limits session sources).GivesWay := by
  induction sources generalizing session with
  | nil => exact done _
  | cons source rest ih =>
      refine (givesWay_runSource ..).bind fun (session, wellFormed) => ?_
      rcases wellFormed with crash | _ | _
      · exact done _
      · exact done _
      · exact ih session

theorem givesWay_sources (plan : Plan) : (sources journal plan).GivesWay := by
  rw [sources]
  split
  · exact done _
  · refine (givesWay_readProgram ..).bind fun program => ?_
    rcases program with crash | _ | source <;> exact done _

theorem givesWay_edit [Host] (plan : Plan) (session : Session) :
    (edit journal limits plan session).GivesWay := by
  have hrest (next : Session × Option Crash → Act (Except Crash Nat))
      (hnext : ∀ result, (next result).GivesWay) :=
    (Editor.givesWay_interact journal limits.dispatches limits.lines
      session).bind hnext
  rw [edit]
  split
  · refine (write _).bind fun _ => hrest _ fun (_, crash) => ?_
    cases crash <;> exact done _
  · refine hrest _ fun (_, crash) => ?_
    cases crash <;> exact done _

theorem givesWay_perform [Host] (plan : Plan) :
    (perform journal limits plan).GivesWay := by
  refine (givesWay_sources ..).bind fun sources => ?_
  rcases sources with crash | _ | sources
  · exact done _
  · exact done _
  refine (givesWay_runSources ..).bind fun (session, wellFormed) => ?_
  rcases wellFormed with crash | _ | _
  · exact done _
  · exact done _
  · dsimp only
    split
    · exact givesWay_edit ..
    · exact done _

theorem givesWay_start [Host] (systemFile : String) (words : List String) :
    (start limits systemFile words).GivesWay := by
  refine (Choices.givesWay_gather ..).bind fun choices => ?_
  rcases choices with crash | ⟨choices, journal⟩
  · exact done _
  dsimp only
  split
  · exact (write _).bind fun _ => done _
  · split
    · exact (write _).bind fun _ => done _
    · exact givesWay_perform ..

/-- What a guarded program comes to. -/
def guardedOutcome {α : Type} :
    Except Interruption (Except Crash α) → Except Crash (Option α)
  | .ok (.ok result) => .ok (some result)
  | .ok (.error crash) => .error crash
  | .error _ => .ok none

theorem perform_guarded {α : Type} (world : World)
    (program : Act (Except Crash α)) :
    world.perform (guarded program) =
      (.ok (guardedOutcome (world.perform program).1),
        (world.perform program).2) := by
  have hflush (world : World) (result : Except Crash (Option α)) :
      world.perform (Act.flush.outcome.bind fun _ => Act.done result) =
        (.ok result, world) := by
    rw [World.perform_bind, World.perform_outcome, World.perform_flush]
    rfl
  rw [guarded, Act.bind_eq, World.perform_bind, World.perform_outcome]
  rcases (world.perform program).1 with cause | crash | result
  · exact hflush _ _
  · rfl
  · exact hflush _ _

theorem run_guarded {α : Type} (program : Act (Except Crash α))
    (world : World) :
    World.run (guarded program) world =
      (.ok (guardedOutcome (world.perform program).1),
        (world.perform program).2.log "") := by
  rw [World.run, perform_guarded]

/-- A reader that goes away after some writes has read just these, of those
that would have been made, and the program ends as it would have, or without a
status.  In either case nothing escapes that has to do with the reader. -/
theorem run_limited [Host] (systemFile : String) (words : List String)
    (world : World) (count : Nat) :
    let program := guarded (start limits systemFile words)
    let whole := { world with writesLeft := none }.run program
    let part := { world with writesLeft := some count }.run program
    ∃ (writes : List String) (outcome : Except Crash (Option Nat)),
      whole.1 = .ok outcome ∧
      whole.2.written = writes.reverse ++ world.written ∧
      part.2.written = (writes.take count).reverse ++ world.written ∧
      (part.1 = .ok outcome ∨ part.1 = .ok (.ok none)) ∧
      (writes.length < count → part.1 = .ok outcome) := by
  intro program whole part
  obtain ⟨writes, -, hwritten, hcut⟩ :=
    (givesWay_start limits systemFile words).perform
      { world with writesLeft := none } count rfl
  have hlogged (world : World) : (world.log "").written = world.written :=
    (World.leavesOutput_log "").written world
  have hwhole : whole = _ := run_guarded _ _
  have hpart : part = _ := run_guarded _ _
  change CutShort _ count writes _ (World.perform
    { world with writesLeft := some count } _) at hcut
  refine ⟨writes, _, congrArg Prod.fst hwhole, ?_, ?_⟩
  · rw [hwhole]
    exact (hlogged _).trans hwritten
  rw [hpart, hlogged]
  generalize World.perform { world with writesLeft := some count } _ = cutting
    at hcut ⊢
  cases hcut with
  | same hroom =>
      refine ⟨?_, .inl rfl, fun _ => rfl⟩
      rw [List.take_of_length_le hroom]
      exact hwritten
  | cut final hfull hclosed hwritten' =>
      refine ⟨hwritten', .inr rfl, fun hroom => ?_⟩
      omega

end Launch

end NumberedBasic
