import NumberedBasic.Launch
import NumberedBasic.Proofs.Editor.Transcript

/-!
# A batch of source texts

The program file and the commands are run one after the other, each from a
fresh state, up to the first that is not well formed.  That one is complained
about, and then the program is over; otherwise the editor may follow.  A session
passes something on to standard output only while one of them runs.
-/

namespace NumberedBasic

/-! ## Complaints stay -/

namespace World

theorem complaints_log (world : World) (text : String) :
    (world.log text).complaints = world.complaints := by
  rw [log]
  cases world.logPath with
  | none => rfl
  | some name =>
      dsimp only [store]
      split <;> rfl

theorem complaints_openLog (world : World) (path : String) :
    (world.openLog path).2.complaints = world.complaints := by
  rw [openLog]
  split <;> first | rfl | (dsimp only [store]; split <;> rfl)

theorem complaints_answer (world : World) (request : Request) :
    world.complaints <:+ (world.answer request).2.complaints := by
  cases request with
  | write text =>
      rw [answer]
      split <;> exact List.suffix_refl _
  | flush => exact List.suffix_refl _
  | complain text => exact List.suffix_cons _ _
  | readLine program =>
      rw [answer]
      dsimp only
      split <;> exact List.suffix_refl _
  | fileExists path => exact List.suffix_refl _
  | readFile path => exact List.suffix_refl _
  | openLog path => exact (world.complaints_openLog path) ▸ List.suffix_refl _
  | log text => exact (world.complaints_log text) ▸ List.suffix_refl _
  | logLater text => exact List.suffix_refl _

/-- What was complained of is not taken back. -/
theorem complaints_perform {α : Type} (world : World) (act : Act α) :
    world.complaints <:+ (world.perform act).2.complaints := by
  induction act generalizing world with
  | done result => exact List.suffix_refl _
  | interrupted cause => exact List.suffix_refl _
  | ask request resume ih =>
      exact (world.complaints_answer request).trans (ih _ _)

/-- A console after a write to standard error. -/
def complained (world : World) (text : String) : World :=
  { world with complaints := text :: world.complaints }

end World

theorem Act.Says.lastly_flush {α : Type} {journal : Journal} {act : Act α}
    {result : α} {writes complaints : List String}
    (hact : act.Says journal result writes complaints) :
    (act.lastly Act.flush).Says journal result writes complaints := by
  constructor
  intro world hworld
  obtain ⟨later, hlater, hheard⟩ := hact.perform world hworld
  have hopen : later.isOpen = true := by
    simp [World.isOpen, hheard.writesLeft.trans hworld]
  refine ⟨later, ?_, hheard⟩
  rw [World.perform_lastly_flush, hlater, if_pos hopen]

namespace Launch

variable {journal : Journal} {limits : Limits}

/-! ## One source text -/

def WellFormed [Host] (source : String) : Prop :=
  ∃ program, Program.parse source = .ok program

theorem wellFormed_or_refused [Host] {source : String}
    (hsource : ¬ Text.Overlong source.toList) :
    WellFormed source ∨
      ∃ error, Program.parse source = .error (.refused error) := by
  cases hparse : Program.parse source with
  | ok program => exact .inl ⟨program, hparse⟩
  | error failure =>
      cases failure with
      | refused error => exact .inr ⟨error, rfl⟩
      | unreadableNumeral => exact absurd (Program.overlong_of_parse hparse) hsource

/-- While a source text runs, the session passes entries on to standard output
alone, and then it is the session that it was before. -/
theorem removeEcho?_addEcho {session : Session} (hechoes : session.echoes = []) :
    (session.addEcho consoleEcho).echoes = [consoleEcho] ∧
      (session.addEcho consoleEcho).removeEcho? consoleEcho = some session := by
  obtain ⟨echoes, listing, started⟩ := session
  obtain rfl : echoes = [] := hechoes
  exact ⟨rfl, rfl⟩

theorem says_runSource [Host] {session : Session} (hechoes : session.echoes = [])
    {source : String} (hsource : WellFormed source) :
    (runSource journal limits session source).Says journal (session, .ok true)
      (runOutput limits.dispatches source) [] := by
  obtain ⟨program, hparse⟩ := hsource
  obtain ⟨hattached, hdetached⟩ := removeEcho?_addEcho hechoes
  have hexecute := Session.says_execute hattached journal limits.dispatches source
  rw [hparse] at hexecute
  refine Act.Says.lastly_flush (hexecute.silent_after ?_)
  rw [hdetached]
  exact .done _

/-- A source text that is not well formed is complained about, and nothing else
is different afterwards. -/
theorem perform_runSource_refused [Host] {session : Session}
    (hechoes : session.echoes = []) {source : String} {error : SyntaxError}
    (hparse : Program.parse source = .error (.refused error)) {world : World}
    (hworld : world.writesLeft = none) :
    world.perform (runSource journal limits session source) =
      (.ok (session, .ok false), world.complained (error.text ++ "\n")) := by
  obtain ⟨-, hdetached⟩ := removeEcho?_addEcho hechoes
  have hreport : world.perform (runSource.report journal limits source
      (session.addEcho consoleEcho)) =
        (.ok (session, .ok false), world.complained (error.text ++ "\n")) := by
    rw [runSource.report, hdetached, Session.execute, hparse]
    rfl
  have hopen : (world.complained (error.text ++ "\n")).isOpen = true := by
    simp [World.isOpen, World.complained, hworld]
  rw [runSource, World.perform_lastly_flush, hreport, if_pos hopen]

/-! ## Several source texts -/

theorem says_runSources [Host] {session : Session} (hechoes : session.echoes = [])
    {sources : List String} (hsources : ∀ source ∈ sources, WellFormed source) :
    (runSources journal limits session sources).Says journal (session, .ok true)
      (sources.flatMap (runOutput limits.dispatches)) [] := by
  induction sources with
  | nil => exact .done _
  | cons source rest ih =>
      rw [List.flatMap_cons]
      exact (says_runSource hechoes (hsources source List.mem_cons_self)).bind
        (ih fun other hother => hsources other (List.mem_cons_of_mem _ hother))

/-- The source texts before one that is not well formed are run, and those after
it are not. -/
theorem perform_runSources_refused [Host] {session : Session}
    (hechoes : session.echoes = []) {before : List String}
    (hbefore : ∀ source ∈ before, WellFormed source)
    {source : String} {error : SyntaxError}
    (hparse : Program.parse source = .error (.refused error)) (after : List String)
    {world : World} (hworld : world.writesLeft = none) :
    ∃ middle,
      world.Heard journal (before.flatMap (runOutput limits.dispatches)) [] middle ∧
      world.complaints <:+ middle.complaints ∧
      world.perform
        (runSources journal limits session (before ++ source :: after)) =
        (.ok (session, .ok false), middle.complained (error.text ++ "\n")) := by
  -- messages for debugging may be among the complaints, so all that is kept of
  -- these from source to source is that none is taken back
  induction before generalizing world with
  | nil =>
      refine ⟨world, ⟨rfl, fun _ => rfl, rfl, rfl, rfl, rfl⟩,
        List.suffix_refl _, ?_⟩
      rw [List.nil_append, runSources, Act.bind_eq, World.perform_bind,
        perform_runSource_refused hechoes hparse hworld]
      rfl
  | cons first rest ih =>
      have hsays : (runSource journal limits session first).Says journal
          (session, .ok true) (runOutput limits.dispatches first) [] :=
        says_runSource hechoes (hbefore first List.mem_cons_self)
      obtain ⟨next, hnext, hheard⟩ := hsays.perform world hworld
      obtain ⟨middle, hheard', hcomplaints, hrest⟩ :=
        ih (fun other hother => hbefore other (List.mem_cons_of_mem _ hother))
          (hheard.writesLeft.trans hworld)
      have hfirst : world.complaints <:+ next.complaints := by
        have hperform := world.complaints_perform
          (runSource journal limits session first)
        rwa [hnext] at hperform
      refine ⟨middle, ?_, hfirst.trans hcomplaints, ?_⟩
      · rw [List.flatMap_cons]
        exact hheard.trans hheard'
      · rw [List.cons_append, runSources, Act.bind_eq, World.perform_bind, hnext]
        exact hrest

/-- Either all source texts are well formed, or there is a first that is not. -/
theorem all_wellFormed_or_refused [Host] {sources : List String}
    (hsources : ∀ source ∈ sources, ¬ Text.Overlong source.toList) :
    (∀ source ∈ sources, WellFormed source) ∨
      ∃ before source after error, sources = before ++ source :: after ∧
        (∀ other ∈ before, WellFormed other) ∧
        Program.parse source = .error (.refused error) := by
  induction sources with
  | nil => exact .inl (List.forall_mem_nil _)
  | cons first rest ih =>
      obtain hfirst | ⟨error, herror⟩ :=
        wellFormed_or_refused (hsources first List.mem_cons_self)
      · obtain hrest | ⟨before, source, after, error, rfl, hbefore, herror⟩ :=
          ih fun other hother => hsources other (List.mem_cons_of_mem _ hother)
        · exact .inl (List.forall_mem_cons.mpr ⟨hfirst, hrest⟩)
        · exact .inr ⟨first :: before, source, after, error, rfl,
            List.forall_mem_cons.mpr ⟨hfirst, hbefore⟩, herror⟩
      · exact .inr ⟨[], first, rest, error, rfl, List.forall_mem_nil _, herror⟩

/-- Whether or not all of them are well formed, source texts that are not too
hard to read leave the session as it was. -/
theorem exists_perform_runSources [Host] {session : Session}
    (hechoes : session.echoes = []) {sources : List String}
    (hsources : ∀ source ∈ sources, ¬ Text.Overlong source.toList) {world : World}
    (hworld : world.writesLeft = none) :
    ∃ wellFormed later, world.perform (runSources journal limits session sources) =
      (.ok (session, .ok wellFormed), later) := by
  obtain hall | ⟨before, source, after, error, rfl, hbefore, herror⟩ :=
    all_wellFormed_or_refused hsources
  · have hsays : (runSources journal limits session sources).Says journal
        (session, .ok true) (sources.flatMap (runOutput limits.dispatches)) [] :=
      says_runSources hechoes hall
    obtain ⟨later, hlater, -⟩ := hsays.perform world hworld
    exact ⟨true, later, hlater⟩
  · obtain ⟨middle, -, -, hlater⟩ :=
      perform_runSources_refused hechoes hbefore herror after hworld
    exact ⟨false, _, hlater⟩

/-! ## The program file -/

/-- The source texts of a plan, the program file before the commands. -/
def texts (world : World) (plan : Plan) : Except FileError (List String) :=
  if plan.program.isEmpty then .ok plan.commands
  else (world.read plan.program).map fun bytes =>
    String.ofList (Text.unifyLineEnds (Text.decodeUtf8 bytes)) :: plan.commands

/-- The message about a program file that cannot be read. -/
def unreadable (path : String) (error : FileError) : String :=
  "Could not read program file `" ++ path ++ "`: " ++ error.reason

theorem perform_readProgram (journal : Journal) {path : String}
    (hpath : Path.isPossible path = true) (world : World) :
    world.perform (readProgram journal path) =
      match world.read path with
      | .ok bytes => (.ok (.ok (some
          (String.ofList (Text.unifyLineEnds (Text.decodeUtf8 bytes))))), world)
      | .error error =>
          world.perform ((journal.say .error (unreadable path error)).bind fun _ =>
            .done (.ok none)) := by
  have hfile : world.perform (Act.readFile path) =
      (.ok (world.read path), world) := rfl
  rw [readProgram, hpath, Bool.not_true, if_neg Bool.false_ne_true, Act.bind_eq,
    World.perform_bind, hfile]
  cases world.read path <;> rfl

theorem perform_sources (journal : Journal) {plan : Plan}
    (hpath : Path.isPossible plan.program = true) (world : World) :
    world.perform (Launch.sources journal plan) =
      match texts world plan with
      | .ok sources => (.ok (.ok (some sources)), world)
      | .error error =>
          world.perform ((journal.say .error (unreadable plan.program error)).bind
            fun _ => .done (.ok none)) := by
  rw [Launch.sources, texts]
  split
  · rfl
  · rw [Act.bind_eq, World.perform_bind, perform_readProgram journal hpath]
    cases world.read plan.program with
    | ok bytes => rfl
    | error error =>
        simp only [Except.map, World.perform_bind]
        rcases world.perform (journal.say .error (unreadable plan.program error))
          with ⟨cause | _, later⟩ <;> rfl

theorem says_error (journal : Journal) (message : String) :
    (journal.say .error message).Says journal ()
      [] (if journal.toFile then [] else [Severity.error.line message]) := by
  rw [Journal.say, if_neg (by simp), Journal.put]
  split
  · exact .log _
  · exact .complain _

theorem perform_of_impossible [Host] {plan : Plan}
    (hpath : Path.isPossible plan.program = false) (world : World) :
    world.perform (perform journal limits plan) =
      (.ok (.error .impossiblePath), world) := by
  have hempty : ¬ plan.program.isEmpty = true := by
    intro hempty
    rw [String.isEmpty_iff.mp hempty] at hpath
    revert hpath
    decide
  have hsources : world.perform (Launch.sources journal plan) =
      (.ok (.error .impossiblePath), world) := by
    rw [Launch.sources, if_neg hempty, readProgram, hpath]
    rfl
  rw [perform, Act.bind_eq, World.perform_bind, hsources]
  rfl

/-! ## The editor -/

/-- The console is read to its end, and nothing that is typed is too hard to
read. -/
structure Typable (limits : Limits) (world : World) : Prop where
  interruption : world.interruption = none
  lines : world.input.length < limits.lines
  input : ∀ line ∈ world.input, ¬ Text.Overlong line.toList

theorem Typable.heard {world later : World} {writes complaints : List String}
    (htypable : Typable limits world)
    (hheard : world.Heard journal writes complaints later) :
    Typable limits later where
  interruption := hheard.interruption.trans htypable.interruption
  lines := hheard.input ▸ htypable.lines
  input := hheard.input ▸ htypable.input

theorem exists_perform_interact [Host] (journal : Journal) {session : Session}
    (hechoes : session.echoes = []) (hlisting : session.listing.list = [])
    {world : World} (hworld : world.writesLeft = none)
    (htypable : Typable limits world) :
    ∃ final later, world.perform
      (Editor.interact journal limits.dispatches limits.lines session) =
        (.ok (final, none), later) := by
  obtain ⟨hattached, -⟩ := removeEcho?_addEcho hechoes
  obtain ⟨last, middle, hturns, hmiddle⟩ : ∃ last middle,
      world.perform (Editor.turns journal limits.dispatches limits.lines
        (session.addEcho consoleEcho)) = (.ok (last, none), middle) ∧
      middle.writesLeft = none := by
    obtain ⟨last, middle, hturns, -, -, htranscript⟩ :=
      Editor.perform_turns limits.lines (session.addEcho consoleEcho) world
        hattached hworld htypable.interruption htypable.lines htypable.input
        (hlisting ▸ List.forall_mem_nil _)
    exact ⟨last, middle, hturns, htranscript.writesLeft.trans hworld⟩
  have hfarewell (final : Session) : ((Act.write Editor.farewell).bind fun _ =>
      Act.flush.bind fun _ => .done (final, (none : Option Crash))).Says journal
        (final, none) [Editor.farewell] [] :=
    (Act.Says.write _).silent_after (Act.Says.flush.bind (.done _))
  obtain ⟨later, hlater, -⟩ :=
    (hfarewell ((last.removeEcho? consoleEcho).getD last)).perform middle hmiddle
  refine ⟨(last.removeEcho? consoleEcho).getD last, later, ?_⟩
  rw [Editor.interact, Act.bind_eq, World.perform_bind, hturns]
  exact hlater

/-- Nothing that is typed makes the editor fail, if it can be read. -/
theorem exists_perform_edit [Host] (journal : Journal) (plan : Plan)
    {session : Session} (hechoes : session.echoes = [])
    (hlisting : session.listing.list = [])
    {world : World} (hworld : world.writesLeft = none)
    (htypable : Typable limits world) :
    ∃ later, world.perform (edit journal limits plan session) =
      (.ok (.ok success), later) := by
  rw [edit]
  split
  · have hgreets :
        (Act.write (Editor.greeting programName versionNumber)).Says journal
          () [Editor.greeting programName versionNumber] [] := .write _
    obtain ⟨ready, hready, hheard⟩ := hgreets.perform world hworld
    obtain ⟨final, later, hlater⟩ :=
      exists_perform_interact journal hechoes hlisting
        (hheard.writesLeft.trans hworld) (htypable.heard hheard)
    refine ⟨later, ?_⟩
    rw [Act.bind_eq, World.perform_bind, hready]
    dsimp only
    rw [Act.bind_eq, World.perform_bind, hlater]
    rfl
  · obtain ⟨final, later, hlater⟩ :=
      exists_perform_interact journal hechoes hlisting hworld htypable
    refine ⟨later, ?_⟩
    rw [Act.bind_eq, World.perform_bind, hlater]
    rfl

/-! ## The whole batch -/

/-- The session that the source texts run in; it has no echoes. -/
def opened : Session := (Session.withEchoes []).start.1

theorem echoes_opened : opened.echoes = [] := rfl

/-- A source text that is not well formed ends the launch.  Those before it are
run and put out what each of them does by itself; then there is one complaint,
and nothing more happens. -/
def Stopped [Host] (journal : Journal) (limits : Limits) (plan : Plan)
    (sources : List String) (world : World) : Prop :=
  ∃ before source after error middle, sources = before ++ source :: after ∧
    (∀ other ∈ before, WellFormed other) ∧
    Program.parse source = .error (.refused error) ∧
    world.Heard journal (before.flatMap (runOutput limits.dispatches)) [] middle ∧
    world.complaints <:+ middle.complaints ∧
    world.perform (perform journal limits plan) =
      (.ok (.ok failure), middle.complained (error.text ++ "\n"))

/-- All source texts are run and put out what each of them does by itself, and
then all is well, or the editor is started in the same session; it is well in
the end if all that is typed can be read. -/
def Finished [Host] (journal : Journal) (limits : Limits) (plan : Plan)
    (sources : List String) (world : World) : Prop :=
  (∀ source ∈ sources, WellFormed source) ∧
    ∃ middle,
      world.Heard journal (sources.flatMap (runOutput limits.dispatches)) []
        middle ∧
      (plan.interact = false →
        world.perform (perform journal limits plan) = (.ok (.ok success), middle)) ∧
      (plan.interact = true →
        world.perform (perform journal limits plan) =
          middle.perform (edit journal limits plan opened) ∧
        (Typable limits world → ∃ later,
          world.perform (perform journal limits plan) = (.ok (.ok success), later)))

/-- What follows the source texts. -/
def afterSources [Host] (journal : Journal) (limits : Limits) (plan : Plan) :
    Session × Except Crash Bool → Act (Except Crash ℕ)
  | (_, .error crash) => .done (.error crash)
  | (_, .ok false) => .done (.ok failure)
  | (session, .ok true) =>
      if plan.interact then edit journal limits plan session
      else .done (.ok success)

theorem perform_of_runSources [Host] {plan : Plan} {sources : List String}
    {world later : World} (hpath : Path.isPossible plan.program = true)
    (htexts : texts world plan = .ok sources)
    {outcome : Session × Except Crash Bool}
    (hrun : world.perform (runSources journal limits opened sources) =
      (.ok outcome, later)) :
    world.perform (perform journal limits plan) =
      later.perform (afterSources journal limits plan outcome) := by
  rw [perform, Act.bind_eq, World.perform_bind, perform_sources journal hpath, htexts]
  dsimp only
  rw [← opened, Act.bind_eq, World.perform_bind, hrun]
  rcases outcome with ⟨session, crash | _ | _⟩ <;> rfl

/-- A plan whose program file can be read. -/
theorem stopped_or_finished [Host] {plan : Plan} {sources : List String}
    {world : World} (hworld : world.writesLeft = none)
    (hpath : Path.isPossible plan.program = true)
    (htexts : texts world plan = .ok sources)
    (hsources : ∀ source ∈ sources, ¬ Text.Overlong source.toList) :
    Stopped journal limits plan sources world ∨
      Finished journal limits plan sources world := by
  obtain hall | ⟨before, source, after, error, rfl, hbefore, herror⟩ :=
    all_wellFormed_or_refused hsources
  · have hsays : (runSources journal limits opened sources).Says journal
        (opened, .ok true) (sources.flatMap (runOutput limits.dispatches)) [] :=
      says_runSources echoes_opened hall
    obtain ⟨middle, hrun, hheard⟩ := hsays.perform world hworld
    have hperform := perform_of_runSources hpath htexts hrun
    refine .inr ⟨hall, middle, hheard, fun hinteract => ?_, fun hinteract => ?_⟩
    · rw [hperform, afterSources, hinteract]
      rfl
    · rw [afterSources, hinteract, if_pos rfl] at hperform
      refine ⟨hperform, fun htypable => ?_⟩
      rw [hperform]
      exact exists_perform_edit journal plan echoes_opened rfl
        (hheard.writesLeft.trans hworld) (htypable.heard hheard)
  · obtain ⟨middle, hheard, hcomplaints, hrun⟩ :=
      perform_runSources_refused echoes_opened hbefore herror after hworld
    exact .inl ⟨before, source, after, error, middle, rfl, hbefore, herror, hheard,
      hcomplaints, perform_of_runSources hpath htexts hrun⟩

/-- A batch, from the program file to the exit status, as long as nothing in it
is too hard to read.  If the program file cannot be read, that is all there is
to say; otherwise the source texts are run in order, and the first that is not
well formed ends it.  After any of them, well formed or not, the session is the
one it was at first, with no echo left.  Only a path that cannot be one has no
exit status. -/
theorem perform_batch [Host] (journal : Journal) (limits : Limits) (plan : Plan)
    (world : World) (hworld : world.writesLeft = none) :
    (Path.isPossible plan.program = false →
      world.perform (perform journal limits plan) =
        (.ok (.error .impossiblePath), world)) ∧
    (∀ error, Path.isPossible plan.program = true →
      texts world plan = .error error →
      ∃ later, world.Heard journal [] (if journal.toFile then [] else
          [Severity.error.line (unreadable plan.program error)]) later ∧
        world.perform (journal.say .error (unreadable plan.program error)) =
          (.ok (), later) ∧
        world.perform (perform journal limits plan) = (.ok (.ok failure), later)) ∧
    ∀ sources, Path.isPossible plan.program = true →
      texts world plan = .ok sources →
      (∀ source ∈ sources, ¬ Text.Overlong source.toList) →
      (Stopped journal limits plan sources world ∨
        Finished journal limits plan sources world) ∧
      ∀ count, ∃ wellFormed later,
        world.perform (runSources journal limits opened (sources.take count)) =
          (.ok (opened, .ok wellFormed), later) := by
  refine ⟨fun hpath => ?_, fun error hpath htexts => ?_,
    fun sources hpath htexts hsources => ⟨?_, fun count => ?_⟩⟩
  · exact perform_of_impossible hpath world
  · obtain ⟨later, hsay, hheard⟩ :=
      (says_error journal (unreadable plan.program error)).perform world hworld
    refine ⟨later, hheard, hsay, ?_⟩
    rw [perform, Act.bind_eq, World.perform_bind, perform_sources journal hpath,
      htexts]
    dsimp only
    rw [World.perform_bind, hsay]
    rfl
  · exact stopped_or_finished hworld hpath htexts hsources
  · exact exists_perform_runSources echoes_opened
      (fun source hsource => hsources source (List.mem_of_mem_take hsource)) hworld

/-- A program with a run-time error, and a command that is not well formed
between two others; and the same where there is no program file. -/
theorem perform_batch_of_refused :
    let limits : Limits := ⟨10, 10⟩
    let plan : Plan := ⟨"P", ["PRINT 2", "PRINT )", "PRINT 3"], true, false⟩
    let file : List UInt8 := [49, 48, 32, 71, 79, 84, 79, 32, 57, 13, 10]
    let world : World := { World.blank with files := ⟨[("P", file)]⟩ }
    let sources := ["10 GOTO 9\n", "PRINT 2", "PRINT )", "PRINT 3"]
    world.writesLeft = none ∧ Path.isPossible plan.program = true ∧
      texts world plan = .ok sources ∧
      (∀ source ∈ sources, ¬ Text.Overlong source.toList) ∧
      Stopped ⟨false, false⟩ limits plan sources world ∧
      sources.map (runOutput limits.dispatches) =
        [["Runtime Error: Undefined line number: 9 in 10\n"], ["2\n"], [],
          ["3\n"]] ∧
      (∃ wellFormed later, world.perform
        (runSources ⟨false, false⟩ limits opened (sources.take 3)) =
          (.ok (opened, .ok wellFormed), later)) ∧
      texts World.blank plan = .error .notFound ∧
      ∃ later, World.blank.perform (perform ⟨false, false⟩ limits plan) =
        (.ok (.ok failure), later) := by
  intro limits plan file world sources
  have hnames : Path.names "P" = ["P"] := by cbv
  have hread : world.read "P" = .ok file := by
    rw [World.read, World.find, hnames]
    rfl
  have hmissing : World.blank.read "P" = .error .notFound := by
    rw [World.read, World.find, hnames]
    rfl
  have htext : String.ofList (Text.unifyLineEnds (Text.decodeUtf8 file)) =
      "10 GOTO 9\n" := by decide +kernel
  have htexts : texts world plan = .ok sources := by
    rw [texts, hread, Except.map, htext]
    rfl
  have hnone : texts World.blank plan = .error .notFound := by
    rw [texts, hmissing]
    rfl
  have hsources : ∀ source ∈ sources, ¬ Text.Overlong source.toList := by
    intro source hsource
    apply Text.not_overlong_of_length
    revert source
    decide +kernel
  obtain ⟨-, -, hbatch⟩ := perform_batch ⟨false, false⟩ limits plan world rfl
  obtain ⟨-, hunreadable, -⟩ :=
    perform_batch ⟨false, false⟩ limits plan World.blank rfl
  obtain ⟨later, -, -, hfailure⟩ := hunreadable .notFound (by decide) hnone
  obtain ⟨hstopped | hfinished, hsession⟩ :=
    hbatch sources (by decide) htexts hsources
  · exact ⟨rfl, by decide, htexts, hsources, hstopped, by decide +kernel,
      hsession 3, hnone, later, hfailure⟩
  · obtain ⟨program, hparse⟩ := hfinished.1 "PRINT )" (by decide)
    have hrefused : (Program.parse "PRINT )").toOption = none := by decide +kernel
    rw [hparse] at hrefused
    cases hrefused

/-- A path that cannot be one ends the launch without an exit status. -/
theorem perform_impossiblePath :
    let plan : Plan := ⟨"A\x00B", [], false, false⟩
    World.blank.perform (perform ⟨false, false⟩ ⟨10, 10⟩ plan) =
        (.ok (.error .impossiblePath), World.blank) ∧
      (World.blank.perform (perform ⟨false, false⟩ ⟨10, 10⟩ plan)).1 ≠
        .ok (.ok failure) := by
  intro plan
  have hpath : Path.isPossible plan.program = false := by decide
  rw [perform_of_impossible hpath]
  exact ⟨rfl, nofun⟩

end Launch

end NumberedBasic
