import NumberedBasic.Proofs.CommandLine.Rounds

/-!
# What becomes of a word

Each word is read as a positional word or as the value of the option before it,
and no positional word gives up its place to a later one.  There is one gap: an
option with a last letter that is not known, or with no letters at all, takes a
word that it has no use for and does not put it back.
-/

namespace NumberedBasic

namespace CommandLine

/-! ## Positional words -/

/-- The positional words found so far, each at its place. -/
structure Holds (line : CommandLine) (found : List String) : Prop where
  positions : line.positions = found.length
  given : ∀ index, line.given.get? (.position index) = found[index]?

theorem holds_empty : Holds empty [] := ⟨rfl, fun _ => rfl⟩

theorem Holds.addPositional {line : CommandLine} {found : List String}
    (hholds : Holds line found) (word : String) :
    Holds (line.addPositional word) (found ++ [word]) where
  positions := by
    rw [List.length_append, ← hholds.positions]
    rfl
  given index := by
    rw [CommandLine.addPositional, OrderedMap.get?_insert, hholds.given,
      hholds.positions]
    by_cases hindex : found.length = index
    · rw [if_pos (by rw [hindex]), ← hindex, List.getElem?_concat_length]
    · rw [if_neg (by simpa using hindex), List.getElem?_append]
      split
      · rfl
      · rw [List.getElem?_eq_none (by omega),
          List.getElem?_eq_none (by simp; omega)]

theorem Holds.assign {line : CommandLine} {found : List String}
    (hholds : Holds line found) (name value : String) :
    Holds (line.assign name value) found where
  positions := hholds.positions
  given index := by
    rw [CommandLine.assign, OrderedMap.get?_insert, if_neg (by simp), hholds.given]

theorem Holds.assignLetters {found : List String} (value : String)
    (group : List Char) {line : CommandLine} (hholds : Holds line found)
    (chosen : String) :
    Holds (CommandLine.assignLetters value group line chosen).1 found := by
  induction group generalizing line chosen with
  | nil => exact hholds
  | cons letter rest ih =>
      simp only [CommandLine.assignLetters]
      split
      · have hwarn (warning : String) : Holds (line.warn warning) found :=
          ⟨hholds.positions, hholds.given⟩
        exact ih (hwarn _) _
      · exact ih (hholds.assign _ _) _

theorem Holds.readOption {line : CommandLine} {found : List String}
    (hholds : Holds line found) (rest : List String) (word : Word) :
    Holds (line.readOption rest word).1 found := by
  cases word with
  | positional text => exact hholds
  | endOfOptions => exact hholds
  | long name value =>
      simp only [CommandLine.readOption]
      split
      · exact hholds
      · split
        · exact hholds.assign _ _
        · exact hholds.assign _ _
  | letters group value => exact hholds.assignLetters _ group _

/-- A round gives out the next place or none. -/
theorem exists_holds_of_round {reading next : Reading} (hround : Round reading next)
    {found : List String} (hholds : Holds reading.line found) :
    ∃ more, Holds next.line (found ++ more) := by
  cases hround with
  | ended => exact ⟨_, hholds.addPositional _⟩
  | positional => exact ⟨_, hholds.addPositional _⟩
  | endOfOptions => exact ⟨[], by simpa using hholds⟩
  | option => exact ⟨[], by simpa using hholds.readOption _ _⟩

theorem exists_holds_of_reaches {reading later : Reading}
    (hreaches : Reaches reading later) {found : List String}
    (hholds : Holds reading.line found) :
    ∃ more, Holds later.line (found ++ more) := by
  induction hreaches with
  | refl => exact ⟨[], by simpa using hholds⟩
  | tail _ hround ih =>
      obtain ⟨more, hholds⟩ := ih
      obtain ⟨others, hholds⟩ := exists_holds_of_round hround hholds
      exact ⟨more ++ others, by rwa [← List.append_assoc]⟩

theorem reaches_read (words : List String) :
    ∃ ended, Reaches (.start words) ⟨read words, [], ended⟩ :=
  reaches_finish (.start words)

theorem exists_holds_read (words : List String) :
    ∃ found, Holds (read words) found := by
  obtain ⟨_, hreaches⟩ := reaches_read words
  exact exists_holds_of_reaches hreaches holds_empty

/-! ## The words before a word -/

theorem finish_nil (line : CommandLine) (ended : Bool) :
    Reading.finish ⟨line, [], ended⟩ = line := by
  cases ended with
  | true => rfl
  | false =>
      simp only [Reading.finish, Bool.false_eq_true, if_false]
      rw [readFrom]

theorem eq_read_of_reaches {words : List String} {line : CommandLine} {ended : Bool}
    (hreaches : Reaches (.start words) ⟨line, [], ended⟩) : line = read words :=
  (finish_nil line ended).symm.trans (finish_eq_of_reaches hreaches)

theorem leavesAlone_of_endsOptions {word : String} (hends : EndsOptions word)
    (after : List String) : LeavesAlone word after := by
  obtain rfl | ⟨value, ⟨group, setting, hword, hvalue, -⟩, -⟩ :=
    (endsOptions_iff word).mp hends
  · exact fun line => rfl
  · exact leavesAlone_of_value (by simpa [hword, Word.value] using hvalue) after

theorem ending_start_iff (words : List String) :
    (Reading.start words).Ending ↔ ∃ word ∈ words, EndsOptions word :=
  or_iff_right Bool.false_ne_true

/-- Where the words before have been read by themselves, the options have ended
if any of these words ends them. -/
theorem ended_iff_of_reaches {words : List String} {line : CommandLine}
    {ended : Bool} (hreaches : Reaches (.start words) ⟨line, [], ended⟩) :
    ended = true ↔ ∃ word ∈ words, EndsOptions word := by
  rw [← ending_start_iff, ← ending_iff_of_reaches hreaches]
  simp [Reading.Ending]

/-! ## Fates -/

/-- The words before are read, and then the word, as a positional word; it
stays at the place that follows those of the positional words before. -/
structure ReadAsPositional (before : List String) (word : String)
    (after : List String) : Prop where
  round : ∃ ended,
    Reaches (.start (before ++ word :: after)) ⟨read before, word :: after, ended⟩ ∧
    Round ⟨read before, word :: after, ended⟩
      ⟨(read before).addPositional word, after, ended⟩
  holds : ∃ earlier later, Holds (read before) earlier ∧
    Holds (read (before ++ word :: after)) (earlier ++ word :: later)

/-- The words before are read up to an option that the last of them is, or that
it puts back; this option is the next to be read. -/
structure ComesTo (before after : List String) (line : CommandLine)
    (option : String) : Prop where
  last : ∃ last ∈ before.getLast?, Unwraps last option
  reached : Reaches (.start (before ++ after)) ⟨line, option :: after, false⟩

/-- The option before takes the word as the value of a setting, which has no
value where the words end with that option. -/
def ReadAsValue (before : List String) (word : String) (after : List String) :
    Prop :=
  ∃ (line : CommandLine) (option name : String) (earlier : CommandLine),
    ComesTo before (word :: after) line option ∧ TakesNext option name ∧
    read before = earlier.assign name "" ∧
    Round ⟨line, option :: word :: after, false⟩
      ⟨earlier.assign name word, after, false⟩

/-- The option before takes the word, and then all is as if the words had ended
with that option. -/
def IsLost (before : List String) (word : String) (after : List String) : Prop :=
  ∃ line option, ComesTo before (word :: after) line option ∧ LosesNext option ∧
    Round ⟨line, option :: word :: after, false⟩ ⟨read before, after, false⟩

theorem readAsPositional {before after : List String} {word : String} {ended : Bool}
    (hreaches : Reaches (.start (before ++ word :: after))
      ⟨read before, word :: after, ended⟩)
    (hword : ended = true ∨ startsWithDash word = false) :
    ReadAsPositional before word after := by
  have hround : Round ⟨read before, word :: after, ended⟩
      ⟨(read before).addPositional word, after, ended⟩ := by
    cases ended with
    | true => exact .ended
    | false =>
        have hdash := hword.resolve_left Bool.false_ne_true
        exact .positional (ofText_of_not_dash hdash)
  refine ⟨⟨ended, hreaches, hround⟩, ?_⟩
  obtain ⟨earlier, hearlier⟩ := exists_holds_read before
  obtain ⟨_, hrest⟩ :=
    reaches_finish ⟨(read before).addPositional word, after, ended⟩
  rw [finish_eq_of_round hround, finish_eq_of_reaches hreaches] at hrest
  obtain ⟨later, hlater⟩ :=
    exists_holds_of_reaches hrest (hearlier.addPositional word)
  refine ⟨earlier, later, hearlier, ?_⟩
  rwa [List.append_assoc] at hlater

theorem not_ending_of_stopsAt {words after : List String}
    (hstops : StopsAt (.start words) after) :
    ¬ ∃ word ∈ words, EndsOptions word := by
  obtain ⟨line, option, halone, -, hreaches, -⟩ := hstops
  rw [← ending_start_iff, ← ending_iff_of_reaches hreaches]
  rintro (hended | ⟨word, hword, hends⟩)
  · exact Bool.false_ne_true hended
  · obtain rfl := List.mem_singleton.mp hword
    exact halone (leavesAlone_of_endsOptions hends after)

theorem TakesNext.isOption {word name : String} (htakes : TakesNext word name) :
    (Word.ofText word).IsOption := by
  cases htakes with
  | long hword => rw [hword]; exact trivial
  | letters hword => rw [hword]; exact trivial

theorem LosesNext.isOption {word : String} (hloses : LosesNext word) :
    (Word.ofText word).IsOption := by
  obtain ⟨group, hword, -⟩ := hloses
  rw [hword]
  exact trivial

/-- An option that does not leave the word alone takes it. -/
theorem readAsValue_or_isLost {before after : List String} {word : String}
    (hstops : StopsAt (.start before) (word :: after)) (hword : word ≠ "") :
    ReadAsValue before word after ∨ IsLost before word after := by
  obtain ⟨line, option, halone, hlast, hbefore, hreached⟩ := hstops
  have hcomes : ComesTo before (word :: after) line option := ⟨hlast, hreached⟩
  obtain ⟨hdash, htaken⟩ := (leavesAlone_or option hword after).resolve_left halone
  obtain ⟨name, htakes⟩ | hloses := htaken
  · obtain ⟨earlier, hnone, hnext⟩ := htakes.readOption line
    have hend := hbefore.tail (.option htakes.isOption)
    have hround : Round ⟨line, option :: word :: after, false⟩ _ :=
      .option htakes.isOption
    rw [hnone] at hend
    rw [hnext word after hdash] at hround
    exact .inl ⟨line, option, name, earlier, hcomes, htakes,
      (eq_read_of_reaches hend).symm, hround⟩
  · obtain ⟨hnone, hnext⟩ := hloses.readOption line
    have hend := hbefore.tail (.option hloses.isOption)
    have hround : Round ⟨line, option :: word :: after, false⟩ _ :=
      .option hloses.isOption
    rw [hnone] at hend
    rw [hnext word after hdash, eq_read_of_reaches hend] at hround
    exact .inr ⟨line, option, hcomes, hloses, hround⟩

/-- Reading ends, with the positional words at their places, numbered from
zero in the order in which they were read.  Each word after the end of options
is positional, and a word that does not start with a dash is positional or the
value of the option before it, but for words that are lost to an option which
does not end in a letter that is known. -/
theorem read_accounts (words : List String) :
    WellFounded (flip Round) ∧
      (∃ ended, Reaches (.start words) ⟨read words, [], ended⟩) ∧
      (∃ found, Holds (read words) found) ∧
      ∀ before word after, words = before ++ word :: after →
        ((∃ other ∈ before, EndsOptions other) →
          ReadAsPositional before word after) ∧
        (word ≠ "" → startsWithDash word = false →
          ReadAsPositional before word after ∨ ReadAsValue before word after ∨
            IsLost before word after) := by
  refine ⟨wellFounded_round, reaches_read words, exists_holds_read words, ?_⟩
  rintro before word after rfl
  obtain ⟨line, ended, hbefore, hreached⟩ | hstops :=
    readsApart_or_stopsAt (.start before) (word :: after)
  · obtain rfl := eq_read_of_reaches hbefore
    refine ⟨fun hends => ?_, fun _ hdash => ?_⟩
    · have hended := (ended_iff_of_reaches hbefore).mpr hends
      exact readAsPositional hreached (.inl hended)
    · exact .inl (readAsPositional hreached (.inr hdash))
  · refine ⟨fun hends => ?_, fun hword _ => ?_⟩
    · exact absurd hends (not_ending_of_stopsAt hstops)
    · exact .inr (readAsValue_or_isLost hstops hword)

/-- Values after a letter and after a flag, and a double dash that a flag puts
back. -/
theorem read_accounts_of_put_back :
    let words := ["-e", "END", "-d", "A.BAS", "-d=--", "-x"]
    words = ["-e"] ++ "END" :: ["-d", "A.BAS", "-d=--", "-x"] ∧
      "END" ≠ "" ∧ startsWithDash "END" = false ∧
      (ReadAsPositional ["-e"] "END" ["-d", "A.BAS", "-d=--", "-x"] ∨
        ReadAsValue ["-e"] "END" ["-d", "A.BAS", "-d=--", "-x"] ∨
        IsLost ["-e"] "END" ["-d", "A.BAS", "-d=--", "-x"]) ∧
      words = ["-e", "END", "-d", "A.BAS", "-d=--"] ++ "-x" :: [] ∧
      (∃ other ∈ ["-e", "END", "-d", "A.BAS", "-d=--"], EndsOptions other) ∧
      ReadAsPositional ["-e", "END", "-d", "A.BAS", "-d=--"] "-x" [] ∧
      (read words).given.get? (.position 0) = some "A.BAS" ∧
      (read words).given.get? (.position 1) = some "-x" := by
  intro words
  obtain ⟨-, -, -, hwords⟩ := read_accounts words
  have hends : ∃ other ∈ ["-e", "END", "-d", "A.BAS", "-d=--"], EndsOptions other :=
    ⟨"-d=--", by decide, .single ⟨['d'], .debug, by decide, by decide, rfl, rfl⟩⟩
  exact ⟨rfl, by decide, by decide,
    (hwords ["-e"] "END" _ rfl).2 (by decide) (by decide), rfl, hends,
    (hwords ["-e", "END", "-d", "A.BAS", "-d=--"] "-x" [] rfl).1 hends,
    by decide +kernel, by decide +kernel⟩

/-- The word after a letter that is not known is neither positional nor a value:
nothing of it is left. -/
theorem read_loses_word :
    (read ["-x", "P.BAS"]).given = .empty ∧
      ¬ ReadAsPositional ["-x"] "P.BAS" [] ∧ ¬ ReadAsValue ["-x"] "P.BAS" [] := by
  have hread : (read ["-x", "P.BAS"]).given = .empty := by decide +kernel
  have hword : Word.ofText "-x" = .letters ['x'] "" := by decide
  refine ⟨hread, ?_, ?_⟩
  · rintro ⟨-, earlier, later, -, hholds⟩
    have hgiven := hholds.given earlier.length
    rw [List.singleton_append, hread] at hgiven
    simp at hgiven
  · rintro ⟨_, option, name, _, ⟨⟨last, hlast, hunwraps⟩, -⟩, htakes, -⟩
    obtain rfl : "-x" = last := Option.some.inj hlast
    obtain rfl : "-x" = option := by
      obtain heq | ⟨value, ⟨_, _, hback, hvalue, -⟩, -⟩ :=
        Relation.ReflTransGen.cases_head hunwraps
      · exact heq
      · cases hword.symm.trans hback
        exact absurd rfl hvalue
    cases htakes with
    | long hlong => cases hword.symm.trans hlong
    | @letters group hletters =>
        have hgroup : ['x'] = group ++ ['e'] :=
          (Word.letters.inj (hword.symm.trans hletters)).1
        simpa using congrArg List.getLast? hgroup

end CommandLine

end NumberedBasic
