import NumberedBasic.Editor
import NumberedBasic.Proofs.Console.Following
import NumberedBasic.Proofs.Listing.Overlong

/-!
# A line in the editor

What a line does to the stored program, what it says, and whether it is the
last one, by the line and the stored program alone.  Nothing that was run
before comes into it.
-/

namespace NumberedBasic

/-! ## Letter case -/

namespace Text

/-- The digits are not among the letters that have an upper-case form. -/
theorem toNat_of_isDigit {c : Char} (hdigit : isDigit c = true) :
    (c.toNat < 58 ∨ 0x660 ≤ c.toNat) ∧
      (c.toNat < 0xfb00 ∨ 0xfb06 < c.toNat) := by
  rw [isDigit, digitValue?, Option.isSome_map, List.find?_isSome] at hdigit
  obtain ⟨start, hstart, hrange⟩ := hdigit
  rw [Bool.and_eq_true, decide_eq_true_eq, decide_eq_true_eq] at hrange
  have hzeros : ∀ start ∈ zeroDigits, (start + 10 ≤ 58 ∨ 0x660 ≤ start) ∧
      (start + 10 ≤ 0xfb00 ∨ 0xfb06 < start) := by
    decide
  have hzero := hzeros start hstart
  omega

theorem upperChar_of_isDigit {c : Char} (hdigit : isDigit c = true) :
    upperChar c = [c] := by
  have hrange := toNat_of_isDigit hdigit
  have hupper : c.toUpper = c := by
    rw [Char.toUpper, dif_neg]
    rintro ⟨hlow, hhigh⟩
    rw [UInt32.le_iff_toNat_le] at hlow hhigh
    change 97 ≤ c.toNat at hlow
    change c.toNat ≤ 122 at hhigh
    omega
  rw [upperChar, hupper]
  iterate 10 rw [if_neg (by omega)]

theorem trim_of_allBlank {text : List Char} (hblank : allBlank text = true) :
    trim text = [] := by
  rw [trim, trimLeft,
    List.dropWhile_eq_nil_iff.mpr (List.all_eq_true.mp hblank)]
  rfl

end Text

namespace Editor

/-! ## What a line is for -/

/-- The line ends the editor. -/
def leaves (line : String) : Bool :=
  ["EXIT", "QUIT"].contains (Text.upperCase (Text.stripped line))

/-- The stored program after a line.  Lines that start with a number are
stored, and NEW erases the program. -/
def edited (listing : Listing) (line : String) : Listing :=
  if Listing.startsWithNumber line then
    (listing.store line).toOption.getD listing
  else if Command.ofLine? line = some .new then .empty
  else listing

/-- The source text that a line has run, which is the line itself if nothing
else is to be done with it. -/
def sourceToRun? (listing : Listing) (line : String) : Option String :=
  if Text.allBlank line.toList ∨ Listing.startsWithNumber line then none
  else
    match Command.ofLine? line with
    | none => some line
    | some .run =>
        if listing.lines.isEmpty then none else some listing.source
    | some _ => none

/-- What a command answers by itself. -/
def answer (listing : Listing) (line : String) : List String :=
  if Text.allBlank line.toList ∨ Listing.startsWithNumber line then []
  else
    match Command.ofLine? line with
    | some .run =>
        if listing.lines.isEmpty then ["No program to run.\n"] else []
    | some .list =>
        if listing.lines.isEmpty then ["No program loaded.\n"]
        else listing.list.map (· ++ "\n")
    | some .new => ["Program cleared.\n"]
    | some .help => [helpText]
    | _ => []

/-- What a line puts out. -/
def said [Host] (dispatches : ℕ) (listing : Listing) (line : String) : List String :=
  answer listing line ++
    ((sourceToRun? listing line).map (runOutput dispatches)).getD []

/-- The complaint about a line, if there is one. -/
def complained [Host] (listing : Listing) (line : String) : List String :=
  ((sourceToRun? listing line).map refusal).getD []

theorem leaves_iff (line : String) :
    leaves line = true ↔ Command.ofLine? line = some .exit := by
  rw [leaves, Command.ofLine?]
  generalize Text.upperCase (Text.stripped line) = word
  split <;> simp_all

theorem leaves_of_allBlank {line : String}
    (hblank : Text.allBlank line.toList = true) : leaves line = false := by
  rw [leaves, Text.stripped, Text.trim_of_allBlank hblank]
  rfl

theorem leaves_of_startsWithNumber {line : String}
    (hnumber : Listing.startsWithNumber line = true) : leaves line = false := by
  rw [Listing.startsWithNumber, Listing.splitNumber, Bool.not_eq_true']
    at hnumber
  dsimp only at hnumber
  obtain ⟨digit, rest, htext, hdigit⟩ : ∃ digit rest,
      Text.trimLeft line.toList = digit :: rest ∧
        Text.isDigit digit = true := by
    cases htext : Text.trimLeft line.toList with
    | nil =>
        rw [htext] at hnumber
        cases hnumber
    | cons digit rest =>
        refine ⟨digit, rest, rfl, ?_⟩
        by_contra hother
        rw [htext, List.takeWhile_cons_of_neg hother] at hnumber
        cases hnumber
  rw [← Bool.not_eq_true, leaves, List.contains_iff_mem, Text.upperCase,
    Text.stripped, String.toList_ofList, Text.trim, htext]
  intro hword
  have hbegins : Text.trimRight (digit :: rest) <+: digit :: rest :=
    Text.isPrefix_reverse_dropWhile _
  generalize Text.trimRight (digit :: rest) = trimmed at hword hbegins
  rcases List.prefix_cons_iff.mp hbegins with rfl | ⟨others, rfl, -⟩
  · revert hword
    decide
  · rw [List.flatMap_cons, Text.upperChar_of_isDigit hdigit] at hword
    have hletter {letter : Char} {letters : List Char}
        (hsame : String.ofList ([digit] ++ others.flatMap Text.upperChar) =
          String.ofList (letter :: letters)) : Text.isDigit letter = true := by
      rw [← (List.cons.inj (String.ofList_injective hsame)).1]
      exact hdigit
    rcases List.mem_pair.mp hword with hexit | hquit
    · exact absurd (hletter hexit) (by decide)
    · exact absurd (hletter hquit) (by decide)

/-! ## Handling a line -/

variable [Host] {journal : Journal} {dispatches : ℕ} {session : Session}

/-- A source text without overlong numerals is run or complained about. -/
theorem says_execute (hechoes : session.echoes = [consoleEcho])
    {source : String} (hsource : ¬Text.Overlong source.toList) :
    (execute journal dispatches session source).Says journal
      (.ok (session.start.1, true)) (runOutput dispatches source)
      (refusal source) := by
  have hstarted : session.start.1.echoes = [consoleEcho] := hechoes
  have hrun := Session.says_execute hstarted journal dispatches source
  rw [refusal]
  cases hparse : Program.parse source with
  | ok program =>
      rw [hparse] at hrun
      exact hrun.silent_after (.done _)
  | error failure =>
      have hsilent : runOutput dispatches source = [] := by
        rw [runOutput, hparse]
      rw [hparse, hsilent] at hrun
      rw [hsilent]
      cases failure with
      | refused error =>
          exact hrun.bind_silent ((journal.says_debug _).bind_silent
            ((Act.Says.complain _).silent_after (.done _)))
      | unreadableNumeral =>
          exact absurd (Program.overlong_of_parse hparse) hsource

/-- What handling a line comes to. -/
structure Handles (journal : Journal) (dispatches : ℕ) (session : Session)
    (line : String) (act : Act Turn) (later : Session) : Prop where
  echoes : later.echoes = session.echoes
  listing : later.listing = edited session.listing line
  spoken : act.Says journal (.ok (later, !leaves line))
    (said dispatches session.listing line) (complained session.listing line)

theorem handles_blank {line : String}
    (hblank : Text.allBlank line.toList = true) :
    Handles journal dispatches session line (.done (.ok (session, true)))
      session := by
  have hstripped : Text.stripped line = "" := by
    rw [Text.stripped, Text.trim_of_allBlank hblank]
  have hnumber : Listing.startsWithNumber line = false := by
    rw [Listing.startsWithNumber, Listing.splitNumber, Text.trimLeft,
      List.dropWhile_eq_nil_iff.mpr (List.all_eq_true.mp hblank)]
    rfl
  refine ⟨rfl, ?_, ?_⟩
  · rw [edited, hnumber, Command.ofLine?, hstripped]
    rfl
  · rw [leaves_of_allBlank hblank, said, complained, answer, sourceToRun?,
      if_pos (.inl hblank), if_pos (.inl hblank)]
    exact .done _

theorem handles_store {line : String}
    (hnumber : Listing.startsWithNumber line = true)
    (hline : ¬Text.Overlong line.toList) :
    ∃ later, Handles journal dispatches session line
      (store journal session line) later := by
  cases hnumbered : Listing.numbered line with
  | error failure =>
      rw [Listing.startsWithNumber, Bool.not_eq_true', ← Bool.not_eq_true,
        List.isEmpty_iff] at hnumber
      rcases Listing.numbered_cases line with ⟨hnone, -⟩ | ⟨-, hcase⟩
      · exact absurd hnone hnumber
      · split at hcase
        · rw [hcase] at hnumbered
          cases hnumbered
        · exact absurd (Listing.overlong_of_numbered hcase) hline
  | ok stored =>
      refine ⟨{ session with listing := session.listing.put stored.1 stored.2 },
        rfl, ?_, ?_⟩
      · rw [edited, if_pos hnumber, Listing.store, hnumbered]
        rfl
      · rw [leaves_of_startsWithNumber hnumber, said, complained, answer,
          sourceToRun?, if_pos (.inr hnumber), if_pos (.inr hnumber), store,
          hnumbered]
        dsimp only [Act.bind_eq]
        split
        · exact (journal.says_debug _).bind_silent (.done _)
        · exact .done _

theorem handles_command {line : String} {command : Command}
    (hechoes : session.echoes = [consoleEcho])
    (hblank : ¬Text.allBlank line.toList = true)
    (hnumber : ¬Listing.startsWithNumber line = true)
    (hcommand : Command.ofLine? line = some command)
    (hstored : ∀ stored ∈ session.listing.list, ¬Text.Overlong stored.toList) :
    ∃ later, Handles journal dispatches session line
      (perform journal dispatches session command) later := by
  have hneither : ¬(Text.allBlank line.toList = true ∨
      Listing.startsWithNumber line = true) := not_or.mpr ⟨hblank, hnumber⟩
  have hedited : edited session.listing line =
      if command = .new then .empty else session.listing := by
    simp [edited, hnumber, hcommand]
  have hleaves : leaves line = decide (command = .exit) := by
    rw [Bool.eq_iff_iff, leaves_iff, hcommand, Option.some.injEq,
      decide_eq_true_iff]
  have hsource : sourceToRun? session.listing line =
      if command = .run ∧ session.listing.lines.isEmpty = false then
        some session.listing.source
      else none := by
    rw [sourceToRun?, if_neg hneither, hcommand]
    cases command <;> simp
  cases command with
  | run =>
      have hlisting : ¬Text.Overlong session.listing.source.toList := by
        intro hoverlong
        obtain ⟨stored, hmem, hlong⟩ := Listing.overlong_of_source hoverlong
        exact hstored stored hmem hlong
      cases hlines : session.listing.lines.isEmpty with
      | true =>
          refine ⟨session, rfl, hedited.symm, ?_⟩
          rw [hleaves, said, complained, hsource, answer, if_neg hneither,
            hcommand, perform, hlines]
          exact (Act.Says.write _).silent_after (.done _)
      | false =>
          refine ⟨session.start.1, rfl, hedited.symm, ?_⟩
          rw [hleaves, said, complained, hsource, answer, if_neg hneither,
            hcommand, perform, hlines]
          exact (journal.says_debug _).bind_silent
            (says_execute hechoes hlisting)
  | list =>
      have hlist : (session.listing.list.forM fun line =>
          Act.write (line ++ "\n")).Says journal ()
          (session.listing.list.map (· ++ "\n")) [] := by
        rw [List.map_eq_flatMap]
        exact Act.Says.forM fun line _ => Act.Says.write (line ++ "\n")
      refine ⟨session, rfl, hedited.symm, ?_⟩
      rw [hleaves, said, complained, hsource, answer, if_neg hneither, hcommand,
        perform]
      cases hlines : session.listing.lines.isEmpty with
      | true =>
          have hnone : session.listing.list = [] := by
            rw [Listing.list, List.isEmpty_iff.mp hlines]
            rfl
          rw [hnone] at hlist ⊢
          exact (Act.Says.write _).silent_after (hlist.silent_after (.done _))
      | false =>
          change Act.Says journal _ _
            (session.listing.list.map (· ++ "\n") ++ []) []
          rw [List.append_nil]
          exact hlist.silent_after (.done _)
  | new =>
      refine ⟨session.new, rfl, hedited.symm, ?_⟩
      rw [hleaves, said, complained, hsource, answer, if_neg hneither, hcommand]
      exact (Act.Says.write _).silent_after (.done _)
  | help =>
      refine ⟨session, rfl, hedited.symm, ?_⟩
      rw [hleaves, said, complained, hsource, answer, if_neg hneither, hcommand]
      exact (Act.Says.write _).silent_after (.done _)
  | exit =>
      refine ⟨session, rfl, hedited.symm, ?_⟩
      rw [hleaves, said, complained, hsource, answer, if_neg hneither, hcommand]
      exact .done _

theorem says_handle (hechoes : session.echoes = [consoleEcho]) {line : String}
    (hline : ¬Text.Overlong line.toList)
    (hstored : ∀ stored ∈ session.listing.list, ¬Text.Overlong stored.toList) :
    ∃ later, Handles journal dispatches session line
      (handle journal dispatches session line) later := by
  rw [handle]
  split
  next hblank => exact ⟨session, handles_blank hblank⟩
  next hblank =>
    split
    next hnumber => exact handles_store hnumber hline
    next hnumber =>
      split
      next command hcommand =>
        exact handles_command hechoes hblank hnumber hcommand hstored
      next hcommand =>
        have hleaves : leaves line = false := by
          rw [← Bool.not_eq_true, leaves_iff, hcommand]
          exact nofun
        refine ⟨session.start.1, rfl, ?_, ?_⟩
        · rw [edited, if_neg hnumber, hcommand, if_neg nofun]
          rfl
        · rw [hleaves, said, complained, answer, sourceToRun?,
            if_neg (not_or.mpr ⟨hblank, hnumber⟩),
            if_neg (not_or.mpr ⟨hblank, hnumber⟩), hcommand]
          exact says_execute hechoes hline

end Editor

end NumberedBasic
