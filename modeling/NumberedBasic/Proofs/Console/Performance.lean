import NumberedBasic.Console.World

/-!
# Carrying actions out

What becomes of an action that is made of others follows from what becomes of
those.
-/

namespace NumberedBasic

variable {α β : Type}

namespace Act

@[simp] theorem bind_eq (act : Act α) (next : α → Act β) :
    act >>= next = act.bind next := rfl

end Act

namespace World

@[simp] theorem perform_done (world : World) (result : α) :
    world.perform (.done result) = (.ok result, world) := rfl

theorem perform_bind (world : World) (act : Act α) (next : α → Act β) :
    world.perform (act.bind next) =
      match world.perform act with
      | (.ok result, world) => world.perform (next result)
      | (.error cause, world) => (.error cause, world) := by
  induction act generalizing world with
  | done result => rfl
  | interrupted cause => rfl
  | ask request resume ih => exact ih _ _

theorem perform_outcome (world : World) (act : Act α) :
    world.perform act.outcome =
      (.ok (world.perform act).1, (world.perform act).2) := by
  induction act generalizing world with
  | done result => rfl
  | interrupted cause => rfl
  | ask request resume ih => exact ih _ _

@[simp] theorem perform_ofOutcome (world : World)
    (outcome : Except Interruption α) :
    world.perform (Act.ofOutcome outcome) = (outcome, world) := by
  cases outcome <;> rfl

/-! ## Standard output -/

/-- A console after a write to standard output. -/
def wrote (world : World) (text : String) : World :=
  { world with
    writesLeft := world.writesLeft.map (· - 1)
    written := text :: world.written }

theorem perform_write (world : World) (text : String) :
    world.perform (Act.write text) =
      if world.isOpen then (.ok (), world.wrote text)
      else (.error .brokenPipe, world) := by
  change (world.answer (.write text)).2.perform
    (Act.ofOutcome (world.answer (.write text)).1) = _
  rw [perform_ofOutcome, answer]
  split <;> rfl

theorem perform_flush (world : World) :
    world.perform Act.flush =
      (if world.isOpen then .ok () else .error .brokenPipe, world) :=
  perform_ofOutcome _ _

/-- With standard output flushed at the end, no result escapes a broken
pipe. -/
theorem perform_lastly_flush (world : World) (act : Act α) :
    world.perform (act.lastly Act.flush) =
      (if (world.perform act).2.isOpen then (world.perform act).1
        else .error .brokenPipe, (world.perform act).2) := by
  rw [Act.lastly, perform_bind, perform_outcome]
  dsimp only
  rw [perform_bind, perform_flush]
  cases (world.perform act).2.isOpen <;> simp

/-! ## Standard input -/

theorem perform_readLine (world : World) (program : List String) :
    world.perform (Act.readLine program) = world.answer (.readLine program) :=
  perform_ofOutcome _ _

/-- A console that has seen a line asked for. -/
def prompted (world : World) (program : List String) : World :=
  { world with
    prompts := ⟨world.output, world.errorOutput, program⟩ :: world.prompts }

theorem perform_readLine_of_cons {world : World} (program : List String)
    {line : String} {rest : List String} (hinput : world.input = line :: rest) :
    world.perform (Act.readLine program) =
      (.ok (some line), { world.prompted program with input := rest }) := by
  rw [perform_readLine, answer]
  simp only [hinput]
  rfl

theorem perform_readLine_of_nil {world : World} (program : List String)
    (hinput : world.input = []) (hend : world.interruption = none) :
    world.perform (Act.readLine program) =
      (.ok none, world.prompted program) := by
  rw [perform_readLine, answer]
  simp only [hinput, hend]
  rw [prompted, hinput, hend]

end World

end NumberedBasic
