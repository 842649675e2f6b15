import NumberedBasic.Proofs.CommandLine.Keeping
import NumberedBasic.Setting.Gather

/-!
# Letters in a group and by themselves

A group of known letters reads like its letters one by one, each in a word of
its own: none but the last of these finds a word after it that is no option, and
so none but the last looks for a value.
-/

namespace NumberedBasic

namespace CommandLine

def knownLetters : List Char := ['d', 'h', 'i', 'v', 'e']

/-- A word for some letters, with a value or without. -/
def grouped (letters : List Char) (value : Option String) : String :=
  String.ofList ('-' :: (letters ++ value.elim [] fun text => '=' :: text.toList))

/-- A word for each letter, the value kept on the last. -/
def separated (letters : List Char) (last : Char) (value : Option String) :
    List String :=
  letters.map (fun letter => grouped [letter] none) ++ [grouped [last] value]

/-! ## Words for letters -/

theorem splitValue_append {letters : List Char} (hletters : '=' ∉ letters)
    (value : Option String) :
    splitValue (letters ++ value.elim [] fun text => '=' :: text.toList) =
      (letters, value.getD "") := by
  have hall : ∀ letter ∈ letters, decide (letter ≠ '=') = true :=
    fun letter hletter => decide_eq_true fun heq => hletters (heq ▸ hletter)
  rw [splitValue, List.takeWhile_append_of_pos hall,
    List.dropWhile_append_of_pos hall]
  cases value with
  | none => simp
  | some text => simp

theorem ofText_grouped {first : Char} {rest : List Char} (hfirst : first ≠ '-')
    (hletters : '=' ∉ first :: rest) (value : Option String) :
    Word.ofText (grouped (first :: rest) value) =
      .letters (first :: rest) (value.getD "") := by
  have hsplit := splitValue_append hletters value
  rw [List.cons_append] at hsplit
  simp only [Word.ofText, grouped, String.toList_ofList, List.cons_append]
  split
  · simp_all
  · simp_all
  · simp_all
  · rename_i text _ _ _ htext
    obtain rfl := (List.cons.inj htext).2
    rw [hsplit]
  · simp_all

theorem startsWithDash_grouped (letters : List Char) (value : Option String) :
    startsWithDash (grouped letters value) = true := by
  simp [startsWithDash, grouped]

theorem exists_ofLetter? {letter : Char} (hletter : letter ∈ knownLetters) :
    ∃ setting, Setting.ofLetter? letter = some setting := by
  simp only [knownLetters, List.mem_cons, List.not_mem_nil, or_false] at hletter
  obtain rfl | rfl | rfl | rfl | rfl := hletter <;> exact ⟨_, rfl⟩

theorem ofText_grouped_of_known {first : Char} {rest : List Char}
    (hknown : ∀ letter ∈ first :: rest, letter ∈ knownLetters)
    (value : Option String) :
    Word.ofText (grouped (first :: rest) value) =
      .letters (first :: rest) (value.getD "") := by
  refine ofText_grouped ?_ ?_ value
  · rintro rfl
    exact absurd (hknown '-' List.mem_cons_self) (by decide)
  · exact fun hmem => absurd (hknown '=' hmem) (by decide)

/-! ## One letter after the other -/

theorem finish_grouped {line : CommandLine} {first : Char} {rest : List Char}
    (hknown : ∀ letter ∈ first :: rest, letter ∈ knownLetters)
    (value : Option String) (after : List String) :
    Reading.finish ⟨line, grouped (first :: rest) value :: after, false⟩ =
      let next := line.readOption after (.letters (first :: rest) (value.getD ""))
      Reading.finish ⟨next.1, next.2, false⟩ := by
  have hword := ofText_grouped_of_known hknown value
  have hround : Round ⟨line, grouped (first :: rest) value :: after, false⟩ _ :=
    .option (by rw [hword]; exact trivial)
  rw [hword] at hround
  exact (finish_eq_of_round hround).symm

/-- The first of several known letters has nothing to do with the value. -/
theorem readOption_letters_cons {first second : Char} {rest : List Char}
    {setting other : Setting} (hfirst : Setting.ofLetter? first = some setting)
    (hsecond : Setting.ofLetter? second = some other) (line : CommandLine)
    (value : String) (after : List String) :
    line.readOption after (.letters (first :: second :: rest) value) =
      (line.assign setting.name (implied setting)).readOption after
        (.letters (second :: rest) value) := by
  simp only [readOption, assignLetters, hfirst, hsecond, List.isEmpty_cons,
    Bool.false_and, Bool.false_eq_true, if_false]

/-- A letter by itself finds no value in front of another option. -/
theorem readOption_letter {letter : Char} {setting : Setting}
    (hletter : Setting.ofLetter? letter = some setting) (line : CommandLine)
    {after : List String}
    (hafter : ∀ next ∈ after.head?, startsWithDash next = true) :
    line.readOption after (.letters [letter] "") =
      (line.assign setting.name (implied setting), after) := by
  have hvalue : valueWithin "" after = ("", after) := by
    cases after with
    | nil => rfl
    | cons next more => simp [valueWithin, takeValue, hafter next rfl]
  have hown : (if implied setting = "" then "" else implied setting) =
      implied setting := by
    split
    · rename_i hempty
      exact hempty.symm
    · rfl
  simp [readOption, hvalue, assignLetters, hletter, hown, putBack]

theorem finish_grouped_cons {first : Char} {rest : List Char} {setting : Setting}
    (hfirst : Setting.ofLetter? first = some setting) (hrest : rest ≠ [])
    (hknown : ∀ letter ∈ first :: rest, letter ∈ knownLetters) (line : CommandLine)
    (value : Option String) (after : List String) :
    Reading.finish ⟨line, grouped (first :: rest) value :: after, false⟩ =
      Reading.finish ⟨line.assign setting.name (implied setting),
        grouped rest value :: after, false⟩ := by
  obtain ⟨second, more, rfl⟩ := List.exists_cons_of_ne_nil hrest
  have hmore : ∀ letter ∈ second :: more, letter ∈ knownLetters :=
    fun letter hletter => hknown letter (List.mem_cons_of_mem _ hletter)
  obtain ⟨other, hsecond⟩ := exists_ofLetter? (hmore second List.mem_cons_self)
  rw [finish_grouped hknown, finish_grouped hmore,
    readOption_letters_cons hfirst hsecond]

theorem finish_separated (letters : List Char) {last : Char}
    (hknown : ∀ letter ∈ letters ++ [last], letter ∈ knownLetters)
    (line : CommandLine) (value : Option String) (after : List String) :
    Reading.finish ⟨line, grouped (letters ++ [last]) value :: after, false⟩ =
      Reading.finish ⟨line, separated letters last value ++ after, false⟩ := by
  -- the first letter is split off, and what it sets is in the line for the rest
  induction letters generalizing line with
  | nil => rfl
  | cons letter rest ih =>
      have hrest : ∀ other ∈ rest ++ [last], other ∈ knownLetters :=
        fun other hother => hknown other (List.mem_cons_of_mem _ hother)
      have hletter : ∀ other ∈ [letter], other ∈ knownLetters := fun other hother =>
        hknown other (List.mem_singleton.mp hother ▸ List.mem_cons_self)
      obtain ⟨setting, hsetting⟩ := exists_ofLetter? (hletter _ List.mem_cons_self)
      have hdash : ∀ next ∈ (separated rest last value ++ after).head?,
          startsWithDash next = true := by
        cases rest <;> rintro _ ⟨⟩ <;> exact startsWithDash_grouped _ _
      calc Reading.finish
            ⟨line, grouped (letter :: (rest ++ [last])) value :: after, false⟩
          = Reading.finish ⟨line.assign setting.name (implied setting),
              grouped (rest ++ [last]) value :: after, false⟩ :=
            finish_grouped_cons hsetting (by simp) hknown line value after
        _ = Reading.finish ⟨line.assign setting.name (implied setting),
              separated rest last value ++ after, false⟩ := ih hrest _
        _ = Reading.finish ⟨line, grouped [letter] none ::
              (separated rest last value ++ after), false⟩ := by
            rw [finish_grouped hletter, Option.getD_none,
              readOption_letter hsetting line hdash]

/-! ## Anywhere among the words -/

/-- Words that begin with an option are read after the words before them, unless
these have ended the options. -/
theorem read_append {before after : List String}
    (hbefore : ∀ other ∈ before, ¬ EndsOptions other)
    (hafter : ∀ next ∈ after.head?, startsWithDash next = true) :
    read (before ++ after) = Reading.finish ⟨read before, after, false⟩ := by
  obtain ⟨line, ended, halone, hreached⟩ | ⟨_, option, halone, -⟩ :=
    readsApart_or_stopsAt (.start before) after
  · obtain rfl := eq_read_of_reaches halone
    have hended : ended = false := by
      rw [← Bool.not_eq_true, ended_iff_of_reaches halone]
      rintro ⟨other, hother, hends⟩
      exact hbefore other hother hends
    rw [hended] at hreached
    exact (finish_eq_of_reaches hreached).symm
  · exact absurd (leavesAlone_of_dash option hafter) halone

/-- A group of letters where options have not ended yet, neither by a double
dash nor by a value that is put back, gives the same as its letters in words of
their own, the value kept on the last; so the same is chosen. -/
theorem read_separated (before after : List String) (letters : List Char)
    (last : Char) (value : Option String)
    (hknown : ∀ letter ∈ letters ++ [last], letter ∈ knownLetters)
    (hbefore : ∀ other ∈ before, ¬ EndsOptions other) :
    let words := before ++ grouped (letters ++ [last]) value :: after
    let others := before ++ separated letters last value ++ after
    read words = read others ∧
      ∀ systemFile, Choices.gather systemFile words =
        Choices.gather systemFile others := by
  intro words others
  have hread : read words = read others := by
    have hwords : ∀ next ∈ (grouped (letters ++ [last]) value :: after).head?,
        startsWithDash next = true := by
      rintro _ ⟨⟩
      exact startsWithDash_grouped _ _
    have hothers : ∀ next ∈ (separated letters last value ++ after).head?,
        startsWithDash next = true := by
      cases letters <;> rintro _ ⟨⟩ <;> exact startsWithDash_grouped _ _
    calc read words
        = Reading.finish ⟨read before,
            grouped (letters ++ [last]) value :: after, false⟩ :=
          read_append hbefore hwords
      _ = Reading.finish
            ⟨read before, separated letters last value ++ after, false⟩ :=
          finish_separated letters hknown (read before) value after
      _ = read (before ++ (separated letters last value ++ after)) :=
          (read_append hbefore hothers).symm
      _ = read others := congrArg read (List.append_assoc ..).symm
  exact ⟨hread, fun systemFile => by rw [Choices.gather, Choices.gather, hread]⟩

/-- A group that puts back an option, which then takes the next word, after
another statement and another option that was put back. -/
theorem read_separated_of_put_back :
    let before := ["-e", "END", "-d=-i"]
    (∀ letter ∈ ['d', 'e'] ++ ['i'], letter ∈ knownLetters) ∧
      (∀ other ∈ before, ¬ EndsOptions other) ∧
      grouped (['d', 'e'] ++ ['i']) (some "-e") = "-dei=-e" ∧
      separated ['d', 'e'] 'i' (some "-e") = ["-d", "-e", "-i=-e"] ∧
      (read ["-e", "END", "-d=-i", "-dei=-e", "PRINT 1"]).given.get?
        (.named "exec") = some "END\nPRINT 1" ∧
      read ["-e", "END", "-d=-i", "-dei=-e", "PRINT 1"] =
        read ["-e", "END", "-d=-i", "-d", "-e", "-i=-e", "PRINT 1"] := by
  intro before
  have hknown : ∀ letter ∈ ['d', 'e'] ++ ['i'], letter ∈ knownLetters := by
    simp [knownLetters]
  have hnone {word : String} {group : List Char}
      (hword : Word.ofText word = .letters group "") : ¬ EndsOptions word := by
    refine not_endsOptions_of_not_putsBack ?_ ?_
    · rintro value ⟨_, _, hback, hvalue, -⟩
      cases hword.symm.trans hback
      exact hvalue rfl
    · rintro rfl
      cases hword
  have hexec : Word.ofText "-e" = .letters ['e'] "" := by decide
  have hinteract : Word.ofText "-i" = .letters ['i'] "" := by decide
  have hend : Word.ofText "END" = .positional "END" := by decide
  have hback : ¬ EndsOptions "-d=-i" := by
    rw [endsOptions_iff]
    rintro (hdashes | ⟨value, ⟨_, _, hback, -⟩, hends⟩)
    · exact absurd hdashes (by decide)
    · have hword : Word.ofText "-d=-i" = .letters ['d'] "-i" := by decide
      cases hword.symm.trans hback
      exact hnone hinteract hends
  have hbefore : ∀ other ∈ before, ¬ EndsOptions other := by
    simp only [before, List.forall_mem_cons, List.not_mem_nil, false_imp_iff,
      implies_true, and_true]
    exact ⟨hnone hexec, not_endsOptions_of_positional hend, hback⟩
  have hgrouped : grouped (['d', 'e'] ++ ['i']) (some "-e") = "-dei=-e" := by decide
  have hseparated :
      separated ['d', 'e'] 'i' (some "-e") = ["-d", "-e", "-i=-e"] := by decide
  have hread :=
    (read_separated before ["PRINT 1"] ['d', 'e'] 'i' (some "-e") hknown hbefore).1
  rw [hgrouped, hseparated] at hread
  exact ⟨hknown, hbefore, hgrouped, hseparated, by decide +kernel, hread⟩

end CommandLine

end NumberedBasic
