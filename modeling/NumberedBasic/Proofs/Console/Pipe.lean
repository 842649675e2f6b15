import NumberedBasic.Proofs.Console.Performance
import NumberedBasic.Console.Echo

/-!
# Output that is no longer read

The reader of standard output may go away.  An action gives way to that if it
does the same as ever up to the first write or flush that fails, and is then
interrupted without having written more.  That is a matter of how
interruptions are passed on, so it carries over from the parts of a program to
the whole.
-/

namespace NumberedBasic

variable {α β : Type}

/-- The same console, with a reader that goes away after a number of
writes. -/
def World.limited (world : World) (count : Nat) : World :=
  { world with writesLeft := some count }

namespace World

/-- A change of the console that has nothing to do with standard output. -/
structure LeavesOutput (change : World → World) : Prop where
  written (world : World) : (change world).written = world.written
  writesLeft (world : World) : (change world).writesLeft = world.writesLeft
  limited (world : World) (count : Nat) :
    change (world.limited count) = (change world).limited count

theorem leavesOutput_store (name : String) (bytes : List UInt8) :
    LeavesOutput (·.store name bytes) := by
  by_cases hnull : name = nullDevice
  · simp only [store, if_pos hnull]
    exact ⟨fun _ => rfl, fun _ => rfl, fun _ _ => rfl⟩
  · simp only [store, if_neg hnull]
    exact ⟨fun _ => rfl, fun _ => rfl, fun _ _ => rfl⟩

theorem leavesOutput_log (text : String) : LeavesOutput (·.log text) := by
  have hnone {world : World} (hpath : world.logPath = none) :
      world.log text = world := by
    simp only [log, hpath]
  have hsome {world : World} {name : String}
      (hpath : world.logPath = some name) :
      world.log text = { world.store name (world.content name ++
        (world.waiting ++ text).toUTF8.toList) with waiting := "" } := by
    simp only [log, hpath]
  constructor
  · intro world
    cases hpath : world.logPath with
    | none => rw [hnone hpath]
    | some name =>
        rw [hsome hpath]
        exact (leavesOutput_store name _).written world
  · intro world
    cases hpath : world.logPath with
    | none => rw [hnone hpath]
    | some name =>
        rw [hsome hpath]
        exact (leavesOutput_store name _).writesLeft world
  · intro world count
    have hkept : (world.limited count).logPath = world.logPath := rfl
    cases hpath : world.logPath with
    | none => rw [hnone (hkept.trans hpath), hnone hpath]
    | some name =>
        rw [hsome (hkept.trans hpath), hsome hpath]
        exact congrArg (fun world : World => { world with waiting := "" })
          ((leavesOutput_store name _).limited world count)

variable (world : World) (count : Nat)

theorem follow_limited (place names : List String) :
    (world.limited count).follow place names = world.follow place names := by
  induction names generalizing place with
  | nil => rfl
  | cons name rest ih =>
      simp only [follow, ih]
      rfl

theorem find_limited (path : String) :
    (world.limited count).find path = world.find path := by
  simp only [find, follow_limited]

theorem openLog_limited (path : String) :
    (world.limited count).openLog path =
      ((world.openLog path).1, (world.openLog path).2.limited count) := by
  have hstarted (name : String) :
      { (world.limited count).store name [] with logPath := some name } =
        { world.store name [] with logPath := some name }.limited count :=
    congrArg (fun world : World => { world with logPath := some name })
      ((leavesOutput_store name []).limited world count)
  simp only [openLog, find_limited]
  split
  · rfl
  · rfl
  · rfl
  · rfl
  · exact congrArg _ (hstarted _)
  · exact congrArg _ (hstarted _)

theorem leavesOutput_openLog (path : String) :
    LeavesOutput fun world => (world.openLog path).2 where
  written world := by
    simp only [openLog]
    split <;> first | rfl | exact (leavesOutput_store _ []).written world
  writesLeft world := by
    simp only [openLog]
    split <;> first | rfl | exact (leavesOutput_store _ []).writesLeft world
  limited world count := congrArg Prod.snd (world.openLog_limited count path)

end World

/-- What comes of an action if the reader goes away after `count` writes,
given what comes of it and what it writes otherwise. -/
inductive CutShort (before : World) (count : Nat) (writes : List String)
    (whole : Except Interruption α × World) :
    Except Interruption α × World → Prop where
  | same (hroom : writes.length ≤ count) :
      CutShort before count writes whole
        (whole.1, whole.2.limited (count - writes.length))
  | cut (final : World) (hfull : count ≤ writes.length)
      (hclosed : final.writesLeft = some 0)
      (hwritten :
        final.written = (writes.take count).reverse ++ before.written) :
      CutShort before count writes whole (.error .brokenPipe, final)

/-- When nobody reads standard output any longer, that ends the action. -/
structure Act.GivesWay (act : Act α) : Prop where
  perform (world : World) (count : Nat) (hworld : world.writesLeft = none) :
    ∃ writes, (world.perform act).2.writesLeft = none ∧
      (world.perform act).2.written = writes.reverse ++ world.written ∧
      CutShort world count writes (world.perform act)
        ((world.limited count).perform act)

section CutShort

variable {before between : World} {count : Nat} {writes more : List String}
  {whole part : Except Interruption α × World}

/-- Nothing was cut off before some more was written. -/
theorem CutShort.after
    (hwritten : between.written = writes.reverse ++ before.written)
    (hroom : writes.length ≤ count)
    (hmore : CutShort between (count - writes.length) more whole part) :
    CutShort before count (writes ++ more) whole part := by
  cases hmore with
  | same hroom' =>
      rw [Nat.sub_sub, ← List.length_append]
      refine .same ?_
      rw [List.length_append]
      omega
  | cut final hfull hclosed hwritten' =>
      refine .cut final ?_ hclosed ?_
      · rw [List.length_append]
        omega
      · rw [hwritten', hwritten, List.take_append,
          List.take_of_length_le hroom, List.reverse_append, List.append_assoc]

end CutShort

namespace Act.GivesWay

theorem ofOutcome (outcome : Except Interruption α) :
    (Act.ofOutcome outcome).GivesWay := by
  constructor
  intro world count hworld
  rw [World.perform_ofOutcome, World.perform_ofOutcome]
  exact ⟨[], hworld, rfl, .same (Nat.zero_le count)⟩

theorem done (result : α) : (Act.done result).GivesWay :=
  ofOutcome (.ok result)

theorem bind {act : Act α} {next : α → Act β} (hact : act.GivesWay)
    (hnext : ∀ result, (next result).GivesWay) : (act.bind next).GivesWay := by
  constructor
  intro world count hworld
  obtain ⟨writes, hopen, hwritten, hcut⟩ := hact.perform world count hworld
  rw [World.perform_bind, World.perform_bind]
  generalize world.perform act = whole at hopen hwritten hcut ⊢
  generalize (world.limited count).perform act = part at hcut ⊢
  obtain ⟨cause | result, between⟩ := whole
  · refine ⟨writes, hopen, hwritten, ?_⟩
    cases hcut with
    | same hroom => exact .same hroom
    | cut final hfull hclosed hwritten => exact .cut final hfull hclosed hwritten
  · obtain ⟨more, hopen', hwritten', hcut'⟩ :=
      (hnext result).perform between (count - writes.length) hopen
    refine ⟨writes ++ more, hopen', ?_, ?_⟩
    · dsimp only
      rw [hwritten', hwritten, List.reverse_append, List.append_assoc]
    · cases hcut with
      | same hroom => exact hcut'.after hwritten hroom
      | cut final hfull hclosed hwritten =>
          refine .cut final ?_ hclosed ?_
          · rw [List.length_append]
            omega
          · rw [hwritten, List.take_append_of_le_length hfull]

theorem write (text : String) : (Act.write text).GivesWay := by
  constructor
  intro world count hworld
  have hopen : world.isOpen = true := by simp [World.isOpen, hworld]
  rw [World.perform_write, if_pos hopen, World.perform_write]
  refine ⟨[text], by simp [World.wrote, hworld], rfl, ?_⟩
  cases count with
  | zero => exact .cut (world.limited 0) (Nat.zero_le _) rfl rfl
  | succ count => exact .same (Nat.le_add_left 1 count)

/-- Whatever came before it, a flush at the end fails if nobody reads. -/
theorem lastly_flush {act : Act α} (hact : act.GivesWay) :
    (act.lastly Act.flush).GivesWay := by
  constructor
  intro world count hworld
  obtain ⟨writes, hopen, hwritten, hcut⟩ := hact.perform world count hworld
  rw [World.perform_lastly_flush, World.perform_lastly_flush]
  generalize world.perform act = whole at hopen hwritten hcut ⊢
  generalize (world.limited count).perform act = part at hcut ⊢
  refine ⟨writes, hopen, hwritten, ?_⟩
  rw [if_pos (by simp [World.isOpen, hopen])]
  cases hcut with
  | same hroom =>
      split
      · exact .same hroom
      · next hclosed =>
        have hnone : count - writes.length = 0 := by
          simpa [World.isOpen, World.limited] using hclosed
        refine .cut _ (by omega) ?_ ?_
        · exact congrArg some hnone
        · rw [List.take_of_length_le (by omega)]
          exact hwritten
  | cut final hfull hclosed hwritten =>
      rw [if_neg (by simp [World.isOpen, hclosed])]
      exact .cut final hfull hclosed hwritten

theorem flush : Act.flush.GivesWay := by
  have hflush : Act.flush = (Act.done ()).lastly Act.flush :=
    (Act.bind_done _).symm
  rw [hflush]
  exact lastly_flush (done ())

theorem forM (items : List α) {act : α → Act Unit}
    (hact : ∀ item, (act item).GivesWay) : (items.forM act).GivesWay := by
  induction items with
  | nil => exact done ()
  | cons item items ih => exact (hact item).bind fun _ => ih

/-- A request that neither writes nor depends on whether there is a
reader. -/
theorem request {request : Request}
    (hreply : ∀ (world : World) count,
      ((world.limited count).answer request).1 = (world.answer request).1)
    (hchange : World.LeavesOutput fun world => (world.answer request).2) :
    (Act.request request).GivesWay := by
  constructor
  intro world count hworld
  refine ⟨[], (hchange.writesLeft world).trans hworld, hchange.written world, ?_⟩
  change CutShort _ _ _ _ (Except.ok ((world.limited count).answer request).1,
    ((world.limited count).answer request).2)
  rw [hreply, hchange.limited]
  exact .same (Nat.zero_le count)

theorem complain (text : String) : (Act.complain text).GivesWay :=
  request (fun _ _ => rfl) ⟨fun _ => rfl, fun _ => rfl, fun _ _ => rfl⟩

theorem readLine (program : List String) :
    (Act.readLine program).GivesWay := by
  refine bind (request ?_ ⟨?_, ?_, ?_⟩) ofOutcome
  all_goals
    intro world
    simp only [World.answer, World.limited]
    split <;> intros <;> rfl

theorem fileExists (path : String) : (Act.fileExists path).GivesWay := by
  refine request (fun world count => ?_)
    ⟨fun _ => rfl, fun _ => rfl, fun _ _ => rfl⟩
  rw [World.answer, World.exists?, World.find_limited]
  rfl

theorem readFile (path : String) : (Act.readFile path).GivesWay := by
  refine request (fun world count => ?_)
    ⟨fun _ => rfl, fun _ => rfl, fun _ _ => rfl⟩
  rw [World.answer, World.read, World.find_limited]
  rfl

theorem openLog (path : String) : (Act.openLog path).GivesWay := by
  refine request (fun world count => ?_) (World.leavesOutput_openLog path)
  rw [World.answer, World.answer, World.openLog_limited]

theorem log (text : String) : (Act.log text).GivesWay :=
  request (fun _ _ => rfl) (World.leavesOutput_log text)

theorem logLater (text : String) : (Act.logLater text).GivesWay :=
  request (fun _ _ => rfl) ⟨fun _ => rfl, fun _ => rfl, fun _ _ => rfl⟩

end Act.GivesWay

open Act.GivesWay

theorem Journal.givesWay_put (journal : Journal) (text : String) :
    (journal.put text).GivesWay := by
  rw [put]
  split
  · exact log text
  · exact complain text

theorem Journal.givesWay_say (journal : Journal) (severity : Severity)
    (message : String) : (journal.say severity message).GivesWay := by
  rw [say]
  split
  · exact done ()
  · exact journal.givesWay_put _

theorem Journal.givesWay_warnFirst (journal : Journal) (message : String) :
    (journal.warnFirst message).GivesWay := by
  rw [warnFirst]
  split
  · exact logLater _
  · exact complain _

theorem Journal.givesWay_tell (journal : Journal) (notes : Array Note) :
    (journal.tell notes).GivesWay :=
  forM _ fun note => journal.givesWay_say .debug note.text

/-! ## Running programs -/

theorem Echoes.givesWay_deliver (echoes : Echoes) (entry : String) :
    (echoes.deliver entry).GivesWay := by
  refine forM echoes fun name => ?_
  split
  · exact write entry
  · exact done ()

theorem Progress.givesWay_follow [Host] (journal : Journal) (echoes : Echoes)
    (table : Table) (dispatches shown : Nat) (progress : Progress) :
    (progress.follow journal echoes table dispatches shown).GivesWay := by
  induction dispatches generalizing shown progress with
  | zero => cases progress <;> exact done _
  | succ dispatches ih =>
      cases progress with
      | ended state => exact done _
      | broken defect state => exact done _
      | running state line =>
          rw [follow]
          split
          · exact ih _ _
          · exact (journal.givesWay_tell _).bind fun _ =>
              (forM _ echoes.givesWay_deliver).bind fun _ => ih _ _

theorem Program.givesWay_perform [Host] (program : Program) (journal : Journal)
    (echoes : Echoes) (dispatches : Nat) :
    (program.perform journal echoes dispatches).GivesWay := by
  refine (journal.givesWay_tell _).bind fun _ =>
    (Progress.givesWay_follow ..).bind fun crash => ?_
  cases crash <;> exact done _

theorem Session.givesWay_execute [Host] (session : Session) (journal : Journal)
    (dispatches : Nat) (source : String) :
    (session.execute journal dispatches source).GivesWay := by
  rw [execute]
  split
  · exact done _
  · exact done _
  · exact Program.givesWay_perform ..

end NumberedBasic
