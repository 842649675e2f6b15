import NumberedBasic.Proofs.Console.Performance
import NumberedBasic.Proofs.Setting.Layers
import NumberedBasic.Setting.Gather

/-!
# No configuration is in the way

Whatever the command line and the configuration files hold, and whether or not
the files can be read, choices are gathered from them, and all that is heard of
what is wrong is a warning.  There are exceptions: a line that goes on with a
value which is not there, and a section that is to name presets and gives no
text for them.
-/

namespace NumberedBasic

/-! ## Actions whose requests are answered -/

/-- A reply to each request. -/
abbrev Replies : Type := (request : Request) → request.Reply

/-- The replies that a console has ready. -/
def World.replies (world : World) : Replies := fun request =>
  (world.answer request).1

/-- The console gives these replies to requests that are made in turn. -/
def World.Agrees (replies : Replies) : World → List Request → Prop
  | _, [] => True
  | world, request :: asked =>
      (world.answer request).1 = replies request ∧
        Agrees replies (world.answer request).2 asked

namespace Act

variable {α β : Type} {replies : Replies}

/-- Given the replies, the action makes these requests and comes to its
result. -/
inductive Yields (replies : Replies) : Act α → List Request → α → Prop
  | done (result : α) : Yields replies (.done result) [] result
  | ask {request : Request} {resume : request.Reply → Act α}
      {asked : List Request} {result : α}
      (hresume : Yields replies (resume (replies request)) asked result) :
      Yields replies (.ask request resume) (request :: asked) result

theorem Yields.request (replies : Replies) (request : Request) :
    (Act.request request).Yields replies [request] (replies request) :=
  .ask (.done _)

theorem Yields.bind {act : Act α} {next : α → Act β} {between : α} {result : β}
    {asked asked' : List Request} (hact : act.Yields replies asked between)
    (hnext : (next between).Yields replies asked' result) :
    (act.bind next).Yields replies (asked ++ asked') result := by
  induction hact with
  | done between => exact hnext
  | ask _ ih => exact .ask (ih hnext)

theorem Yields.forM {items : List α} {act : α → Act Unit}
    {asked : α → List Request}
    (hact : ∀ item ∈ items, (act item).Yields replies (asked item) ()) :
    (items.forM act).Yields replies (items.flatMap asked) () := by
  induction items with
  | nil => exact .done ()
  | cons item items ih =>
      rw [List.flatMap_cons]
      exact (hact item List.mem_cons_self).bind
        (ih fun other hother => hact other (List.mem_cons_of_mem _ hother))

/-- A console that gives the replies brings the action to its result. -/
theorem Yields.perform {act : Act α} {asked : List Request} {result : α}
    (hact : act.Yields replies asked result) {world : World}
    (hworld : world.Agrees replies asked) :
    ∃ later, world.perform act = (.ok result, later) := by
  induction hact generalizing world with
  | done result => exact ⟨world, rfl⟩
  | ask _ ih =>
      obtain ⟨hreply, hworld⟩ := hworld
      rw [World.perform, hreply]
      exact ih hworld

end Act

namespace Choices

/-! ## What is asked -/

/-- A request that looks at a file. -/
inductive Looks : Request → Prop
  | fileExists (path : String) : Looks (.fileExists path)
  | readFile (path : String) : Looks (.readFile path)

/-- A log that cannot be opened is complained of with this. -/
def logComplaint (path : String) (error : FileError) : String :=
  "Could not open log file `" ++ path ++ "`: [Errno " ++
    toString error.number ++ "] " ++ error.reason ++ ": " ++
    Text.quoted path ++ "\n"

/-- A request that tells of something that is ignored. -/
inductive Warns : Request → Prop
  | complain (path : String) (error : FileError) :
      Warns (.complain (logComplaint path error))
  | warn (message : String) :
      Warns (.complain (Severity.warning.line message))
  | warnLater (message : String) :
      Warns (.logLater (Severity.warning.line message))

/-- Files are looked at, a log is opened if it is wanted, and then there is
nothing but warnings. -/
structure Gathers (looks logs warnings : List Request) : Prop where
  looks : ∀ request ∈ looks, Looks request
  logs : logs = [] ∨ ∃ path, logs = [.openLog path]
  warnings : ∀ request ∈ warnings, Warns request

theorem agrees_of_looks {world : World} {looks rest : List Request}
    (hlooks : ∀ request ∈ looks, Looks request)
    (hrest : world.Agrees world.replies rest) :
    world.Agrees world.replies (looks ++ rest) := by
  induction looks with
  | nil => exact hrest
  | cons request looks ih =>
      obtain ⟨hrequest, hmore⟩ := List.forall_mem_cons.mp hlooks
      refine ⟨rfl, ?_⟩
      -- looking at files leaves the console as it is
      cases hrequest with
      | fileExists path => exact ih hmore
      | readFile path => exact ih hmore

theorem agrees_of_warns (replies : Replies) {warnings : List Request}
    (hwarnings : ∀ request ∈ warnings, Warns request) (world : World) :
    world.Agrees replies warnings := by
  induction warnings generalizing world with
  | nil => exact trivial
  | cons request warnings ih =>
      obtain ⟨hrequest, hwarnings⟩ := List.forall_mem_cons.mp hwarnings
      refine ⟨?_, ih hwarnings _⟩
      cases hrequest <;> rfl

theorem Gathers.agrees {looks logs warnings : List Request}
    (hgathers : Gathers looks logs warnings) (world : World) :
    world.Agrees world.replies (looks ++ (logs ++ warnings)) := by
  refine agrees_of_looks hgathers.looks ?_
  obtain hnone | ⟨path, hpath⟩ := hgathers.logs
  · rw [hnone]
    exact agrees_of_warns _ hgathers.warnings world
  · rw [hpath]
    exact ⟨rfl, agrees_of_warns _ hgathers.warnings _⟩

/-- Given the replies, choices are gathered up to the result, and so they are
on every console that has these replies ready. -/
def Gathered {α : Type} (replies : Replies) (act : Act α) (result : α) : Prop :=
  (∃ looks logs warnings, Gathers looks logs warnings ∧
    act.Yields replies (looks ++ (logs ++ warnings)) result) ∧
  ∀ world : World, world.replies = replies →
    ∃ later, world.perform act = (.ok result, later)

theorem Gathered.of_yields {α : Type} {replies : Replies} {act : Act α}
    {result : α} {looks logs warnings : List Request}
    (hgathers : Gathers looks logs warnings)
    (hact : act.Yields replies (looks ++ (logs ++ warnings)) result) :
    Gathered replies act result := by
  refine ⟨⟨looks, logs, warnings, hgathers, hact⟩, ?_⟩
  rintro world rfl
  exact hact.perform (hgathers.agrees world)

/-! ## The files -/

section

variable (replies : Replies)

/-- The sections of a file; there are none if the file cannot be read or is
malformed. -/
def sectionsIn (path : String) : Sections :=
  match replies (.readFile path) with
  | .error _ => .empty
  | .ok bytes =>
      match Sections.ofBytes bytes with
      | .ok sections => sections
      | .error _ => .empty

def sectionsIfExists (path : String) : Sections :=
  if replies (.fileExists path) then sectionsIn replies path else .empty

/-- The sections of the file named on the command line, or else of the one in
the current folder. -/
def ownSections (named : String) : Sections :=
  if named.isEmpty then sectionsIfExists replies localFile
  else sectionsIn replies named

theorem distinctWithin_sectionsIn (path : String) :
    (sectionsIn replies path).DistinctWithin := by
  rw [sectionsIn]
  split
  · exact OrderedMap.distinctWithin_empty
  · split
    next hsections => exact Sections.distinctWithin_of_ofBytes hsections
    next => exact OrderedMap.distinctWithin_empty

theorem distinctWithin_sectionsIfExists (path : String) :
    (sectionsIfExists replies path).DistinctWithin := by
  rw [sectionsIfExists]
  split
  · exact distinctWithin_sectionsIn replies path
  · exact OrderedMap.distinctWithin_empty

theorem distinctWithin_ownSections (named : String) :
    (ownSections replies named).DistinctWithin := by
  rw [ownSections]
  split
  · exact distinctWithin_sectionsIfExists replies localFile
  · exact distinctWithin_sectionsIn replies named

/-- The configuration file named on the command line; empty if there is
none. -/
def ownName (words : List String) : String :=
  givenText (CommandLine.read words).given .config

/-- What the choices are gathered from. -/
def sources (systemFile : String) (words : List String) : Sources where
  words := words
  system := sectionsIfExists replies systemFile
  own := ownSections replies (ownName words)
  system_distinct := distinctWithin_sectionsIfExists replies systemFile
  own_distinct := distinctWithin_ownSections replies (ownName words)

/-- The file, if it can be read, has no line that goes on with a value which
is not there. -/
def Parses (path : String) : Prop :=
  ∀ bytes, replies (.readFile path) = .ok bytes →
    Sections.ofBytes bytes ≠ .error .missingValue

/-- What is taken for granted of the two configuration files: their paths hold
no character that paths cannot hold, and either text is parsed or found to be
malformed. -/
structure Regular (systemFile : String) (words : List String) : Prop where
  system : Path.isPossible systemFile = true
  own : Path.isPossible (ownName words) = true
  system_parses : Parses replies systemFile
  own_parses : Parses replies
    (if (ownName words).isEmpty then localFile else ownName words)

end

/-! ## Files on a console -/

theorem names_eq_splitOn (path : String) :
    Path.names path =
      ((path.toList.splitOn '/').map String.ofList).filter fun name =>
        name ≠ "" :=
  congrArg (List.filter fun name => decide (name ≠ ""))
    (Text.splitOn_ofList_singleton path '/')

theorem regular_replies {world : World} {systemFile : String}
    {words : List String} (hsystem : Path.isPossible systemFile = true)
    (hown : Path.isPossible (ownName words) = true)
    (hfiles : ∀ entry ∈ world.files.entries,
      Sections.ofBytes entry.2 ≠ .error .missingValue) :
    Regular world.replies systemFile words := by
  have hparses (path : String) : Parses world.replies path := by
    intro bytes hread
    obtain ⟨name, rfl⟩ : ∃ name, bytes = world.content name := by
      change world.read path = .ok bytes at hread
      rw [World.read] at hread
      split at hread
      next name _ =>
        split at hread <;> cases hread
        exact ⟨name, rfl⟩
      all_goals cases hread
    rw [World.content]
    cases hget : world.files.get? name with
    | none => exact fun hempty => by cases hempty
    | some bytes =>
        obtain ⟨entry, hentry, rfl⟩ := Option.map_eq_some_iff.mp hget
        exact hfiles entry (List.mem_of_find?_eq_some hentry)
  exact ⟨hsystem, hown, hparses _, hparses _⟩

/-- What is found in a configuration file. -/
theorem sectionsIfExists_of_find {world : World} {name : String}
    (hfind : world.find name = .file name)
    (hfolder : Path.namesFolder name = false) :
    sectionsIfExists world.replies name =
      match Sections.ofBytes (world.content name) with
      | .ok sections => sections
      | .error _ => .empty := by
  have hexists : world.replies (.fileExists name) = true := by
    change world.exists? name = true
    rw [World.exists?, hfind, hfolder]
    rfl
  have hread : world.replies (.readFile name) = .ok (world.content name) := by
    change world.read name = .ok (world.content name)
    rw [World.read, hfind, hfolder]
    rfl
  rw [sectionsIfExists, hexists, if_pos rfl, sectionsIn, hread]

/-- What is found in the current folder where no file is named. -/
theorem ownSections_localFile {world : World} {words : List String}
    (hnamed : ownName words = "")
    (hfollow : world.follow [] [localFile] = .file localFile)
    {sections : Sections}
    (hsections : Sections.ofBytes (world.content localFile) = .ok sections) :
    ownSections world.replies (ownName words) = sections := by
  have hnames : Path.names localFile = [localFile] := by
    rw [names_eq_splitOn]
    decide +kernel
  have hfind : world.find localFile = .file localFile := by
    rw [World.find, hnames]
    exact hfollow
  rw [hnamed, ownSections, if_pos (by decide),
    sectionsIfExists_of_find hfind (by decide), hsections]

/-! ## Reading the files -/

section

variable {replies : Replies}

/-- Looking at files, the action comes to its result. -/
def Finds {α : Type} (replies : Replies) (act : Act α) (result : α) : Prop :=
  ∃ looks, (∀ request ∈ looks, Looks request) ∧
    act.Yields replies looks result

theorem Finds.bind {α β : Type} {act : Act α} {next : α → Act β} {between : α}
    {result : β} (hact : Finds replies act between)
    (hnext : Finds replies (next between) result) :
    Finds replies (act.bind next) result := by
  obtain ⟨looks, hlooks, hact⟩ := hact
  obtain ⟨more, hmore, hnext⟩ := hnext
  refine ⟨looks ++ more, ?_, hact.bind hnext⟩
  exact List.forall_mem_append.mpr ⟨hlooks, hmore⟩

theorem Finds.done {α : Type} (result : α) :
    Finds replies (.done result) result :=
  ⟨[], List.forall_mem_nil _, .done result⟩

theorem Finds.request {request : Request} (hrequest : Looks request) :
    Finds replies (Act.request request) (replies request) :=
  ⟨[request], List.forall_mem_singleton.mpr hrequest, .request replies request⟩

theorem finds_readSections {path : String}
    (hpath : Path.isPossible path = true) (hparses : Parses replies path) :
    ∃ warnings, Finds replies (readSections path)
      (.ok (sectionsIn replies path, warnings)) := by
  have hasked : Finds replies (Act.readFile path) (replies (.readFile path)) :=
    .request (.readFile path)
  rw [readSections, if_neg (by simp [hpath]), sectionsIn]
  cases hread : replies (.readFile path) with
  | error error =>
      rw [hread] at hasked
      exact ⟨[configWarning path], hasked.bind (.done _)⟩
  | ok bytes =>
      rw [hread] at hasked
      cases hsections : Sections.ofBytes bytes with
      | ok sections =>
          refine ⟨[], hasked.bind ?_⟩
          dsimp only
          rw [hsections]
          exact .done _
      | error failure =>
          cases failure with
          | malformed =>
              refine ⟨[configWarning path], hasked.bind ?_⟩
              dsimp only
              rw [hsections]
              exact .done _
          | missingValue => exact absurd hsections (hparses bytes hread)

theorem finds_readIfExists {path : String}
    (hpath : Path.isPossible path = true) (hparses : Parses replies path) :
    ∃ warnings, Finds replies (readIfExists path)
      (.ok (sectionsIfExists replies path, warnings)) := by
  have hasked : Finds replies (Act.fileExists path)
      (replies (.fileExists path)) := .request (.fileExists path)
  rw [sectionsIfExists]
  cases hexists : replies (.fileExists path) with
  | false =>
      rw [hexists] at hasked
      exact ⟨[], hasked.bind (.done _)⟩
  | true =>
      rw [hexists] at hasked
      obtain ⟨warnings, hread⟩ := finds_readSections hpath hparses
      exact ⟨warnings, hasked.bind hread⟩

theorem finds_readOwn {named : String} (hnamed : Path.isPossible named = true)
    (hparses : Parses replies (if named.isEmpty then localFile else named)) :
    ∃ warnings, Finds replies (readOwn named)
      (.ok (ownSections replies named, warnings)) := by
  rw [readOwn, ownSections]
  split
  next hempty =>
    rw [if_pos hempty] at hparses
    exact finds_readIfExists (by decide) hparses
  next hempty =>
    rw [if_neg hempty] at hparses
    exact finds_readSections hnamed hparses

/-! ## The log -/

theorem yields_openJournal (replies : Replies) {choices : Choices}
    (hpath : Path.isPossible (choices.text .logfile) = true) :
    ∃ journal logs warnings, Gathers [] logs warnings ∧
      (openJournal choices).Yields replies (logs ++ warnings)
        (.ok journal) := by
  have hasked := Act.Yields.request replies (.openLog (choices.text .logfile))
  have hlogs : [Request.openLog (choices.text .logfile)] = [] ∨
      ∃ path, [Request.openLog (choices.text .logfile)] = [.openLog path] :=
    .inr ⟨_, rfl⟩
  rw [openJournal]
  split
  · exact ⟨_, [], [], ⟨List.forall_mem_nil _, .inl rfl, List.forall_mem_nil _⟩,
      .done _⟩
  · rw [if_neg (by simp [hpath])]
    cases hopen : replies (.openLog (choices.text .logfile)) with
    | ok opened =>
        rw [hopen] at hasked
        exact ⟨_, _, [], ⟨List.forall_mem_nil _, hlogs, List.forall_mem_nil _⟩,
          hasked.bind (.done _)⟩
    | error error =>
        rw [hopen] at hasked
        have hcomplaint := Act.Yields.request replies
          (.complain (logComplaint (choices.text .logfile) error))
        exact ⟨_, _, _, ⟨List.forall_mem_nil _, hlogs,
          List.forall_mem_singleton.mpr (.complain _ error)⟩,
          hasked.bind (hcomplaint.bind (.done _))⟩

theorem yields_warnFirst (replies : Replies) (journal : Journal)
    (message : String) :
    ∃ request, Warns request ∧
      (journal.warnFirst message).Yields replies [request] () := by
  rw [Journal.warnFirst]
  split
  · exact ⟨_, .warnLater message, .request replies _⟩
  · exact ⟨_, .warn message, .request replies _⟩

theorem yields_forM_warnFirst (replies : Replies) (journal : Journal)
    (messages : List String) :
    ∃ warnings, (∀ request ∈ warnings, Warns request) ∧
      (messages.forM journal.warnFirst).Yields replies warnings () := by
  choose request hwarns hyields using yields_warnFirst replies journal
  refine ⟨messages.flatMap fun message => [request message], ?_,
    .forM fun message _ => hyields message⟩
  intro other hother
  obtain ⟨message, -, hmessage⟩ := List.mem_flatMap.mp hother
  exact List.mem_singleton.mp hmessage ▸ hwarns message

/-! ## Gathering -/

section

variable {systemFile : String} {words : List String} {system own : Sections}
  {systemWarnings ownWarnings : List String}

theorem gathered_of_error
    (hsystem : Finds replies (readIfExists systemFile)
      (.ok (system, systemWarnings)))
    (hown : Finds replies (readOwn (ownName words)) (.ok (own, ownWarnings)))
    {failure : Sections.Failure}
    (hcombine : combine (CommandLine.read words).given system own =
      .error failure) :
    Gathered replies (gather systemFile words) (.error .missingValue) := by
  have hfinds : Finds replies (gather systemFile words)
      (.error .missingValue) := by
    refine hsystem.bind (hown.bind ?_)
    dsimp only
    rw [hcombine]
    exact .done _
  obtain ⟨looks, hlooks, hyields⟩ := hfinds
  refine .of_yields ⟨hlooks, .inl rfl, List.forall_mem_nil _⟩ ?_
  rwa [List.append_nil, List.append_nil]

theorem gathered_of_ok
    (hsystem : Finds replies (readIfExists systemFile)
      (.ok (system, systemWarnings)))
    (hown : Finds replies (readOwn (ownName words)) (.ok (own, ownWarnings)))
    {choices : Choices} {warnings : List String}
    (hcombine : combine (CommandLine.read words).given system own =
      .ok (choices, warnings))
    (hlogfile : Path.isPossible (choices.text .logfile) = true) :
    ∃ journal, Gathered replies (gather systemFile words)
      (.ok (choices, journal)) := by
  obtain ⟨looks, hlooks, hsystem⟩ := hsystem
  obtain ⟨others, hothers, hown⟩ := hown
  obtain ⟨journal, logs, complaints, hgathers, hjournal⟩ :=
    yields_openJournal replies hlogfile
  obtain ⟨warned, hwarned, hwarnings⟩ := yields_forM_warnFirst replies journal
    ((CommandLine.read words).warnings ++ systemWarnings ++ ownWarnings ++
      warnings)
  have hyields : (gather systemFile words).Yields replies
      (looks ++ (others ++ (logs ++ complaints ++ (warned ++ []))))
      (.ok (choices, journal)) := by
    refine hsystem.bind (hown.bind ?_)
    dsimp only
    rw [hcombine]
    exact hjournal.bind (hwarnings.bind (.done _))
  have hasked : looks ++ (others ++ (logs ++ complaints ++ (warned ++ []))) =
      looks ++ others ++ (logs ++ (complaints ++ warned)) := by
    simp only [List.append_assoc, List.append_nil]
  rw [hasked] at hyields
  exact ⟨journal, .of_yields
    ⟨List.forall_mem_append.mpr ⟨hlooks, hothers⟩, hgathers.logs,
      List.forall_mem_append.mpr ⟨hgathers.warnings, hwarned⟩⟩ hyields⟩

end

variable {systemFile : String} {words : List String}

theorem gathered_of_lacksPresets (hregular : Regular replies systemFile words)
    (hpresets : (sources replies systemFile words).LacksPresets) :
    Gathered replies (gather systemFile words) (.error .missingValue) := by
  obtain ⟨_, hsystem⟩ := finds_readIfExists hregular.system hregular.system_parses
  obtain ⟨_, hown⟩ := finds_readOwn hregular.own hregular.own_parses
  have hcombine := (sources replies systemFile words).combine_of_lacksPresets
    hpresets
  exact gathered_of_error hsystem hown hcombine

end

/-- Whatever the files hold that are parsed or found to be malformed, choices are
gathered and settled, and nothing else comes of it than warnings, but for a
section that is to name presets and gives no text for them, which makes the
program fail. -/
theorem gather_returns (replies : Replies) (systemFile : String)
    (words : List String) (hregular : Regular replies systemFile words) :
    ((sources replies systemFile words).LacksPresets →
      Gathered replies (gather systemFile words) (.error .missingValue)) ∧
    (¬ (sources replies systemFile words).LacksPresets →
      ∃ choices : Choices, choices.Settled (sources replies systemFile words) ∧
        (Path.isPossible (choices.text .logfile) = true →
          ∃ journal, Gathered replies (gather systemFile words)
            (.ok (choices, journal)))) := by
  refine ⟨gathered_of_lacksPresets hregular, fun hpresets => ?_⟩
  obtain ⟨_, hsystem⟩ := finds_readIfExists hregular.system hregular.system_parses
  obtain ⟨_, hown⟩ := finds_readOwn hregular.own hregular.own_parses
  let sources := sources replies systemFile words
  obtain ⟨warnings, hcombine⟩ := sources.exists_combine hpresets
  exact ⟨sources.choices, sources.settled_choices,
    gathered_of_ok hsystem hown hcombine⟩

/-- Two presets are asked for.  There is but the first, which turns debugging on
by a word that stands for no flag, names a log without a text for it, and holds
an option that is not known. -/
def faulty : Sources where
  words := ["--surplus", "--greeting=no"]
  system := .empty
  own := ⟨[("linebasic", ⟨[("preset", some "loud,none")]⟩),
    ("loud", ⟨[("debug", some "maybe"), ("logfile", none), ("x", none)]⟩)]⟩
  system_distinct := OrderedMap.distinctWithin_empty
  own_distinct := .of_entries (by decide) (by decide)

/-- One file is malformed, the other is at fault otherwise. -/
theorem gather_returns_of_faults :
    let user : List UInt8 := [103, 114, 101, 101, 116, 105, 110, 103, 10]
    let file : List UInt8 := [91, 108, 105, 110, 101, 98, 97, 115, 105, 99, 93,
      10, 112, 114, 101, 115, 101, 116, 61, 108, 111, 117, 100, 44, 110, 111,
      110, 101, 10, 91, 108, 111, 117, 100, 93, 10, 100, 101, 98, 117, 103, 61,
      109, 97, 121, 98, 101, 10, 108, 111, 103, 102, 105, 108, 101, 10, 120,
      10]
    let world : World :=
      { World.blank with files := ⟨[("USER.INI", user), (localFile, file)]⟩ }
    Sections.ofBytes user = .error .malformed ∧
      Regular world.replies "USER.INI" faulty.words ∧
      sources world.replies "USER.INI" faulty.words = faulty ∧
      ¬ faulty.LacksPresets ∧
      ∃ choices journal, choices.Settled faulty ∧
        choices.value .debug = .flag true ∧
        choices.value .greeting = .flag false ∧
        choices.value .logfile = .text "" ∧
        Gathered world.replies (gather "USER.INI" faulty.words)
          (.ok (choices, journal)) := by
  intro user file world
  have huser : Sections.ofBytes user = .error .malformed := by rfl
  have hfile : Sections.ofBytes file = .ok faulty.own := by rfl
  have hregular : Regular world.replies "USER.INI" faulty.words := by
    refine regular_replies (by decide) (by decide +kernel) ?_
    simp [world, huser, hfile]
  have hsystem : sectionsIfExists world.replies "USER.INI" = .empty := by
    have hnames : Path.names "USER.INI" = ["USER.INI"] := by
      rw [names_eq_splitOn]
      decide +kernel
    have hfind : world.find "USER.INI" = .file "USER.INI" := by
      rw [World.find, hnames]
      rfl
    have hcontent : world.content "USER.INI" = user := by rfl
    rw [sectionsIfExists_of_find hfind (by decide), hcontent, huser]
  have hown : ownSections world.replies (ownName faulty.words) = faulty.own :=
    ownSections_localFile (by decide +kernel) (by rfl) hfile
  have hsources : sources world.replies "USER.INI" faulty.words = faulty :=
    Sources.ext rfl hsystem hown
  have hpresets : ¬ faulty.LacksPresets := by
    rintro ⟨-, hpreset⟩
    revert hpreset
    decide +kernel
  obtain ⟨-, hreturns⟩ :=
    gather_returns world.replies "USER.INI" faulty.words hregular
  rw [hsources] at hreturns
  obtain ⟨choices, hsettled, hgathered⟩ := hreturns hpresets
  have hvalue (setting : Setting) :
      choices.value setting = faulty.choices.value setting := by
    rw [value, chosen, hsettled.get?_settings,
      ← faulty.settled_choices.get?_settings]
    rfl
  have hlogfile : choices.value .logfile = .text "" := by
    rw [hvalue]
    decide +kernel
  obtain ⟨journal, hjournal⟩ := hgathered (by
    rw [text, hlogfile]
    rfl)
  refine ⟨huser, hregular, hsources, hpresets, choices, journal, hsettled, ?_,
    ?_, hlogfile, hjournal⟩
  · rw [hvalue]
    decide +kernel
  · rw [hvalue]
    decide +kernel

/-- Where the file in the current folder holds nothing but `preset` in the
section `linebasic`, the program fails. -/
theorem gather_fails_of_preset :
    let file : List UInt8 := [91, 108, 105, 110, 101, 98, 97, 115, 105, 99, 93,
      10, 112, 114, 101, 115, 101, 116, 10]
    let world : World := { World.blank with files := ⟨[(localFile, file)]⟩ }
    Sections.ofBytes file = .ok ⟨[("linebasic", ⟨[("preset", none)]⟩)]⟩ ∧
      Regular world.replies "USER.INI" [] ∧
      (∃ later, world.perform (gather "USER.INI" []) =
        (.ok (.error .missingValue), later)) ∧
      ∀ choices journal later, world.perform (gather "USER.INI" []) ≠
        (.ok (.ok (choices, journal)), later) := by
  intro file world
  have hfile : Sections.ofBytes file =
      .ok ⟨[("linebasic", ⟨[("preset", none)]⟩)]⟩ := by rfl
  have hregular : Regular world.replies "USER.INI" [] := by
    refine regular_replies (by decide) (by decide +kernel) ?_
    simp [world, hfile]
  have hown : (sources world.replies "USER.INI" []).own =
      ⟨[("linebasic", ⟨[("preset", none)]⟩)]⟩ :=
    ownSections_localFile (by decide +kernel) (by rfl) hfile
  have hpresets : (sources world.replies "USER.INI" []).LacksPresets := by
    refine ⟨by decide +kernel, ?_⟩
    rw [Sources.option?, Sources.section?, hown]
    rfl
  obtain ⟨later, hlater⟩ :=
    (gathered_of_lacksPresets hregular hpresets).2 world rfl
  refine ⟨hfile, hregular, ⟨later, hlater⟩, fun choices journal other hother => ?_⟩
  rw [hlater] at hother
  cases hother

end Choices

end NumberedBasic
