import NumberedBasic.Console.Echo
import NumberedBasic.Proofs.Console.Performance

/-!
# What actions say

An action that writes and complains, and does not read, is described by what
it writes and what it complains of.  For two actions in turn that is what the
one says and then what the other says.
-/

namespace NumberedBasic

variable {α β : Type}

/-- Messages for debugging stay away from standard error. -/
def Journal.Quiet (journal : Journal) : Prop :=
  journal.debug = true → journal.toFile = true

/-- The console after some writes and complaints, with nothing read.  What the
journal adds to the complaints is left out if it is not quiet. -/
structure World.Heard (journal : Journal) (before : World)
    (writes complaints : List String) (later : World) : Prop where
  written : later.written = writes.reverse ++ before.written
  complaints : journal.Quiet →
    later.complaints = complaints.reverse ++ before.complaints
  writesLeft : later.writesLeft = before.writesLeft
  input : later.input = before.input
  interruption : later.interruption = before.interruption
  prompts : later.prompts = before.prompts

theorem World.Heard.trans {journal : Journal} {first second third : World}
    {writes writes' complaints complaints' : List String}
    (hfirst : first.Heard journal writes complaints second)
    (hsecond : second.Heard journal writes' complaints' third) :
    first.Heard journal (writes ++ writes') (complaints ++ complaints')
      third where
  written := by
    rw [hsecond.written, hfirst.written, List.reverse_append, List.append_assoc]
  complaints hquiet := by
    rw [hsecond.complaints hquiet, hfirst.complaints hquiet,
      List.reverse_append, List.append_assoc]
  writesLeft := hsecond.writesLeft.trans hfirst.writesLeft
  input := hsecond.input.trans hfirst.input
  interruption := hsecond.interruption.trans hfirst.interruption
  prompts := hsecond.prompts.trans hfirst.prompts

/-- As long as everything that is written is read, the action comes to its
result and says what it is said to. -/
structure Act.Says (journal : Journal) (act : Act α) (result : α)
    (writes complaints : List String) : Prop where
  perform (world : World) (hworld : world.writesLeft = none) :
    ∃ later, world.perform act = (.ok result, later) ∧
      world.Heard journal writes complaints later

namespace Act.Says

variable {journal : Journal}

theorem done (result : α) : (Act.done result).Says journal result [] [] where
  perform world _ := ⟨world, rfl, rfl, fun _ => rfl, rfl, rfl, rfl, rfl⟩

theorem bind {act : Act α} {next : α → Act β} {between : α} {result : β}
    {writes writes' complaints complaints' : List String}
    (hact : act.Says journal between writes complaints)
    (hnext : (next between).Says journal result writes' complaints') :
    (act.bind next).Says journal result (writes ++ writes')
      (complaints ++ complaints') := by
  constructor
  intro world hworld
  obtain ⟨middle, hmiddle, hheard⟩ := hact.perform world hworld
  obtain ⟨later, hlater, hheard'⟩ :=
    hnext.perform middle (hheard.writesLeft.trans hworld)
  refine ⟨later, ?_, hheard.trans hheard'⟩
  rw [World.perform_bind, hmiddle]
  exact hlater

/-- What comes after an action that says nothing is all that is said. -/
theorem bind_silent {act : Act α} {next : α → Act β} {between : α}
    {result : β} {writes complaints : List String}
    (hact : act.Says journal between [] [])
    (hnext : (next between).Says journal result writes complaints) :
    (act.bind next).Says journal result writes complaints :=
  hact.bind hnext

/-- Nothing is said after all that is said. -/
theorem silent_after {act : Act α} {next : α → Act β} {between : α}
    {result : β} {writes complaints : List String}
    (hact : act.Says journal between writes complaints)
    (hnext : (next between).Says journal result [] []) :
    (act.bind next).Says journal result writes complaints := by
  have hboth := hact.bind hnext
  rwa [List.append_nil, List.append_nil] at hboth

theorem forM {items : List α} {act : α → Act Unit}
    {writes : α → List String}
    (hact : ∀ item ∈ items, (act item).Says journal () (writes item) []) :
    (items.forM act).Says journal () (items.flatMap writes) [] := by
  induction items with
  | nil => exact done ()
  | cons item items ih =>
      rw [List.flatMap_cons]
      exact (hact item List.mem_cons_self).bind
        (ih fun other hother => hact other (List.mem_cons_of_mem _ hother))

theorem write (text : String) : (Act.write text).Says journal () [text] [] := by
  constructor
  intro world hworld
  have hopen : world.isOpen = true := by simp [World.isOpen, hworld]
  refine ⟨world.wrote text, ?_, rfl, fun _ => rfl, ?_, rfl, rfl, rfl⟩
  · rw [World.perform_write, if_pos hopen]
  · simp [World.wrote, hworld]

theorem flush : Act.flush.Says journal () [] [] := by
  constructor
  intro world hworld
  have hopen : world.isOpen = true := by simp [World.isOpen, hworld]
  refine ⟨world, ?_, rfl, fun _ => rfl, rfl, rfl, rfl, rfl⟩
  rw [World.perform_flush, if_pos hopen]

theorem complain (text : String) :
    (Act.complain text).Says journal () [] [text] where
  perform world _ := ⟨{ world with complaints := text :: world.complaints },
    rfl, rfl, fun _ => rfl, rfl, rfl, rfl, rfl⟩

theorem log (text : String) : (Act.log text).Says journal () [] [] := by
  constructor
  intro world _
  refine ⟨world.log text, rfl, ?_⟩
  rw [World.log]
  cases world.logPath with
  | none => exact ⟨rfl, fun _ => rfl, rfl, rfl, rfl, rfl⟩
  | some name =>
      dsimp only [World.store]
      split <;> exact ⟨rfl, fun _ => rfl, rfl, rfl, rfl, rfl⟩

end Act.Says

/-- A message for debugging says nothing, at least if the journal is quiet. -/
theorem Journal.says_debug (journal : Journal) (message : String) :
    (journal.say .debug message).Says journal () [] [] := by
  rw [say]
  split
  · exact .done ()
  next hdebug =>
    rw [put]
    split
    · exact .log _
    next hfile =>
      constructor
      intro world _
      have hloud : ¬journal.Quiet := by
        intro hquiet
        exact hfile (hquiet (by simpa using hdebug))
      exact ⟨_, rfl, rfl, fun hquiet => absurd hquiet hloud, rfl, rfl, rfl, rfl⟩

theorem Journal.says_tell (journal : Journal) (notes : Array Note) :
    (journal.tell notes).Says journal () [] [] := by
  have htell : (journal.tell notes).Says journal ()
      (notes.toList.flatMap fun _ => []) [] :=
    Act.Says.forM fun (note : Note) _ => journal.says_debug note.text
  rwa [List.flatMap_eq_nil_iff.mpr fun _ _ => rfl] at htell

end NumberedBasic
