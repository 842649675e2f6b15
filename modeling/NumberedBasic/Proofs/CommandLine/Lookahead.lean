import Mathlib.Data.List.Induction
import Mathlib.Logic.Relation
import NumberedBasic.Setting.CommandLine

/-!
# What an option does with the words after it

Most options leave them alone.  One that wants a value and has none takes the
next word, unless that starts with a dash; a group of letters takes it in any
case, and whether it then uses it, puts it back or drops it is told by its
last letter and by its last known one.
-/

namespace NumberedBasic

namespace CommandLine

/-! ## Letters -/

/-- The setting of the last letter that is known. -/
def lastKnown? (group : List Char) : Option Setting :=
  (group.filterMap Setting.ofLetter?).getLast?

/-- The letter that stands for the only setting that takes a text. -/
theorem eq_of_isFlag_eq_false {letter : Char} {setting : Setting}
    (hletter : Setting.ofLetter? letter = some setting)
    (hflag : setting.isFlag = false) : letter = 'e' := by
  simp only [Setting.ofLetter?] at hletter
  split at hletter <;> cases hletter <;> first | rfl | cases hflag

theorem implied_eq_empty_iff (setting : Setting) :
    implied setting = "" ↔ setting.isFlag = false := by
  cases setting <;> decide

theorem assignLetters_chosen (value : String) (group : List Char)
    (line : CommandLine) (chosen : String) :
    (assignLetters value group line chosen).2 =
      ((lastKnown? group).map implied).getD chosen := by
  induction group generalizing line chosen with
  | nil => rfl
  | cons letter rest ih =>
      simp only [assignLetters]
      cases hletter : Setting.ofLetter? letter with
      | none =>
          simp only [ih, lastKnown?, List.filterMap_cons, hletter]
      | some setting =>
          simp only [ih, lastKnown?, List.filterMap_cons, hletter,
            List.getLast?_cons]
          cases (rest.filterMap Setting.ofLetter?).getLast? <;> rfl

/-- Only the last letter can have the value. -/
theorem assignLetters_concat (value : String) (group : List Char) (last : Char)
    (line : CommandLine) (chosen : String) :
    assignLetters value (group ++ [last]) line chosen =
      assignLetters value [last] (assignLetters "" group line chosen).1
        (assignLetters "" group line chosen).2 := by
  induction group generalizing line chosen with
  | nil => rfl
  | cons letter rest ih =>
      simp only [List.cons_append, assignLetters]
      cases hletter : Setting.ofLetter? letter with
      | none => exact ih _ _
      | some setting =>
          have hown : (if rest.isEmpty && (implied setting).isEmpty then ""
              else implied setting) = implied setting := by
            split
            · rename_i hempty
              simp only [Bool.and_eq_true, String.isEmpty_iff] at hempty
              exact hempty.2.symm
            · rfl
          have hmore : (rest ++ [last]).isEmpty = false := by
            cases rest <;> rfl
          simp only [hmore, hown, Bool.false_and, Bool.false_eq_true, if_false]
          exact ih _ _

/-- A last letter that takes no text has no use for the value. -/
theorem assignLetters_unused {group : List Char} (value : String)
    (hlast : group.getLast? ≠ some 'e') (line : CommandLine) (chosen : String) :
    assignLetters value group line chosen =
      assignLetters "" group line chosen := by
  induction group using List.reverseRecOn with
  | nil => rfl
  | append_singleton group last =>
      rw [assignLetters_concat, assignLetters_concat]
      simp only [assignLetters]
      cases hletter : Setting.ofLetter? last with
      | none => rfl
      | some setting =>
          have hflag : setting.isFlag = true := by
            by_contra hflag
            have hlast' := eq_of_isFlag_eq_false hletter (by simpa using hflag)
            exact hlast (by rw [hlast', List.getLast?_concat])
          have hchosen : (implied setting).isEmpty = false := by
            simpa [String.isEmpty_iff, implied_eq_empty_iff] using hflag
          simp only [hchosen, Bool.and_false, Bool.false_eq_true, if_false]

/-! ## Values put back -/

/-- The word is a group of letters that has no use for the value within it. -/
def PutsBack (word value : String) : Prop :=
  ∃ group setting, Word.ofText word = .letters group value ∧ value ≠ "" ∧
    lastKnown? group = some setting ∧ setting.isFlag = true

theorem PutsBack.unique {word value other : String} (hvalue : PutsBack word value)
    (hother : PutsBack word other) : value = other := by
  obtain ⟨_, _, hvalue, -⟩ := hvalue
  obtain ⟨_, _, hother, -⟩ := hother
  cases hvalue.symm.trans hother
  rfl

theorem putBack_eq (value chosen : String) (rest : List String) :
    putBack chosen value rest =
      if chosen ≠ "" ∧ value ≠ "" then value :: rest else rest := by
  simp only [putBack, Bool.and_eq_true, Bool.not_eq_true',
    String.isEmpty_eq_false_iff]

theorem takeValue_cases (rest : List String) :
    takeValue rest = ("", rest) ∨ ∃ value left, rest = value :: left ∧
      startsWithDash value = false ∧ takeValue rest = (value, left) := by
  cases rest with
  | nil => exact .inl rfl
  | cons value left =>
      cases hdash : startsWithDash value with
      | true => exact .inl (by simp [takeValue, hdash])
      | false => exact .inr ⟨value, left, rfl, hdash, by simp [takeValue, hdash]⟩

/-- The words left are the words after an option, but for one that is no option
itself. -/
def Kept (rest left : List String) : Prop :=
  left = rest ∨ ∃ value, startsWithDash value = false ∧ rest = value :: left

theorem kept_takeValue (rest : List String) : Kept rest (takeValue rest).2 := by
  obtain htake | ⟨value, left, hrest, hdash, htake⟩ := takeValue_cases rest
  · exact .inl (by rw [htake])
  · rw [htake]
    exact .inr ⟨value, hdash, hrest⟩

theorem kept_valueWithin (value : String) (rest : List String) :
    Kept rest (valueWithin value rest).2 := by
  rw [valueWithin]
  split
  · exact kept_takeValue rest
  · exact .inl rfl

/-- A value that was taken from the next word is put back there. -/
theorem kept_putBack_takeValue (chosen : String) (rest : List String) :
    Kept rest (putBack chosen (takeValue rest).1 (takeValue rest).2) := by
  rw [putBack_eq]
  split
  · rename_i hused
    obtain htake | ⟨value, left, hrest, -, htake⟩ := takeValue_cases rest
    · rw [htake] at hused
      exact absurd rfl hused.2
    · exact .inl (by rw [htake, hrest])
  · exact kept_takeValue rest

/-- What an option leaves: its own value in front of the words after it if it
puts that back, or else only those words. -/
theorem readOption_left (line : CommandLine) (word : String)
    (rest : List String) :
    (∃ value, PutsBack word value ∧
      (line.readOption rest (Word.ofText word)).2 = value :: rest) ∨
    (∀ value, ¬ PutsBack word value) ∧
      Kept rest (line.readOption rest (Word.ofText word)).2 := by
  cases hword : Word.ofText word with
  | positional text => exact .inr ⟨by simp [PutsBack, hword], .inl rfl⟩
  | endOfOptions => exact .inr ⟨by simp [PutsBack, hword], .inl rfl⟩
  | long name value =>
      refine .inr ⟨by simp [PutsBack, hword], ?_⟩
      simp only [readOption]
      split
      · exact .inl rfl
      · split
        · exact kept_valueWithin value rest
        · exact .inl rfl
  | letters group value =>
      simp only [readOption]
      by_cases hvalue : value = ""
      · subst hvalue
        exact .inr ⟨by simp [PutsBack, hword], kept_putBack_takeValue _ rest⟩
      · have hwithin : valueWithin value rest = (value, rest) := by
          simp [valueWithin, hvalue]
        rw [hwithin, assignLetters_chosen, putBack_eq]
        cases hlast : lastKnown? group with
        | none => exact .inr ⟨by simp [PutsBack, hword, hlast], .inl rfl⟩
        | some setting =>
            cases hflag : setting.isFlag with
            | true =>
                have hchosen := (implied_eq_empty_iff setting).not.mpr
                  (by simp [hflag])
                have hback : PutsBack word value :=
                  ⟨group, setting, hword, hvalue, hlast, hflag⟩
                exact .inl ⟨value, hback, if_pos ⟨hchosen, hvalue⟩⟩
            | false =>
                have hchosen := (implied_eq_empty_iff setting).mpr hflag
                refine .inr ⟨by simp [PutsBack, hword, hlast, hflag], .inl ?_⟩
                exact if_neg fun hused => hused.1 hchosen

/-! ## Words left alone -/

/-- The value within a word. -/
def Word.value : Word → String
  | long _ value => value
  | letters _ value => value
  | _ => ""

theorem putBack_append (chosen value : String) (rest after : List String) :
    putBack chosen value (rest ++ after) = putBack chosen value rest ++ after := by
  simp only [putBack_eq]
  split <;> rfl

theorem valueWithin_append {rest : List String} (hrest : rest ≠ []) (value : String)
    (after : List String) :
    valueWithin value (rest ++ after) =
      ((valueWithin value rest).1, (valueWithin value rest).2 ++ after) := by
  obtain ⟨word, rest, rfl⟩ := List.exists_cons_of_ne_nil hrest
  simp only [valueWithin, List.cons_append, takeValue]
  split
  · split <;> rfl
  · rfl

/-- An option that finds its value where it found it before leaves the words
after the others as they are. -/
theorem readOption_append {word : Word} {rest after : List String}
    (hvalue : valueWithin word.value (rest ++ after) =
      ((valueWithin word.value rest).1, (valueWithin word.value rest).2 ++ after))
    (line : CommandLine) :
    line.readOption (rest ++ after) word =
      ((line.readOption rest word).1, (line.readOption rest word).2 ++ after) := by
  cases word with
  | positional text => rfl
  | endOfOptions => rfl
  | long name value =>
      simp only [Word.value] at hvalue
      simp only [readOption, hvalue]
      split
      · rfl
      · split <;> rfl
  | letters group value =>
      simp only [Word.value] at hvalue
      simp only [readOption, hvalue, putBack_append]

/-- The option does what it does at the end of the command line. -/
def LeavesAlone (word : String) (after : List String) : Prop :=
  ∀ line : CommandLine, line.readOption after (Word.ofText word) =
    ((line.readOption [] (Word.ofText word)).1,
      (line.readOption [] (Word.ofText word)).2 ++ after)

theorem leavesAlone_of_valueWithin {word : String} {after : List String}
    (hvalue : valueWithin (Word.ofText word).value ([] ++ after) =
      ((valueWithin (Word.ofText word).value []).1,
        (valueWithin (Word.ofText word).value []).2 ++ after)) :
    LeavesAlone word after :=
  readOption_append hvalue

theorem leavesAlone_of_value {word : String}
    (hvalue : (Word.ofText word).value ≠ "") (after : List String) :
    LeavesAlone word after :=
  leavesAlone_of_valueWithin (by simp [valueWithin, hvalue])

/-- No option takes another option as its value. -/
theorem leavesAlone_of_dash (word : String) {after : List String}
    (hafter : ∀ next ∈ after.head?, startsWithDash next = true) :
    LeavesAlone word after := by
  apply leavesAlone_of_valueWithin
  cases after with
  | nil => simp
  | cons next more =>
      simp only [valueWithin, takeValue, hafter next rfl, if_true, List.nil_append]
      split <;> rfl

/-! ## Words taken -/

theorem valueWithin_empty_nil : valueWithin "" [] = ("", []) := rfl

theorem valueWithin_empty_cons {next : String} (hdash : startsWithDash next = false)
    (more : List String) : valueWithin "" (next :: more) = (next, more) := by
  simp [valueWithin, takeValue, hdash]

/-- The option has no value and takes the next word as the value of a setting. -/
inductive TakesNext (word : String) : (name : String) → Prop
  | long {name : String} (hword : Word.ofText word = .long name "")
      (htext : takesText name = true) : TakesNext word name
  | letters {group : List Char}
      (hword : Word.ofText word = .letters (group ++ ['e']) "") :
      TakesNext word Setting.exec.name

/-- The option takes the next word, but its last letter stands for no setting
that takes a text, and the last letter that stands for any does not stand for
a flag. -/
def LosesNext (word : String) : Prop :=
  ∃ group, Word.ofText word = .letters group "" ∧ group.getLast? ≠ some 'e' ∧
    ∀ setting ∈ lastKnown? group, setting.isFlag = false

theorem leavesAlone_of_flag {word : String} {group : List Char} {setting : Setting}
    (hword : Word.ofText word = .letters group "")
    (hlast : group.getLast? ≠ some 'e') (hknown : lastKnown? group = some setting)
    (hflag : setting.isFlag = true) {next : String} (hnext : next ≠ "")
    (hdash : startsWithDash next = false) (more : List String) :
    LeavesAlone word (next :: more) := by
  intro line
  have hchosen := (implied_eq_empty_iff setting).not.mpr (by simp [hflag])
  have hchosen' (value : String) : (assignLetters value group line "").2 ≠ "" := by
    rw [assignLetters_chosen, hknown]
    exact hchosen
  simp only [hword, readOption, valueWithin_empty_cons hdash, valueWithin_empty_nil,
    putBack_eq]
  rw [if_pos ⟨hchosen' next, hnext⟩, if_neg (fun hused => hused.2 rfl),
    assignLetters_unused next hlast]
  rfl

/-- A word that is not left alone is no option, and the option before it takes
it, either as a value or to no end. -/
theorem leavesAlone_or (word : String) {next : String} (hnext : next ≠ "")
    (more : List String) :
    LeavesAlone word (next :: more) ∨ startsWithDash next = false ∧
      ((∃ name, TakesNext word name) ∨ LosesNext word) := by
  cases hdash : startsWithDash next with
  | true =>
      refine .inl (leavesAlone_of_dash word ?_)
      rintro _ ⟨⟩
      exact hdash
  | false =>
      by_cases hvalue : (Word.ofText word).value = ""
      · cases hword : Word.ofText word with
        | positional text => exact .inl fun line => by simp only [hword]; rfl
        | endOfOptions => exact .inl fun line => by simp only [hword]; rfl
        | long name value =>
            obtain rfl : value = "" := by simpa [hword, Word.value] using hvalue
            cases htext : takesText name with
            | true => exact .inr ⟨rfl, .inl ⟨name, .long hword htext⟩⟩
            | false =>
                refine .inl fun line => ?_
                simp only [hword, readOption, htext, Bool.false_eq_true, if_false]
                split <;> rfl
        | letters group value =>
            obtain rfl : value = "" := by simpa [hword, Word.value] using hvalue
            by_cases hlast : group.getLast? = some 'e'
            · obtain ⟨group, rfl⟩ := List.getLast?_eq_some_iff.mp hlast
              exact .inr ⟨rfl, .inl ⟨_, .letters hword⟩⟩
            · by_cases hknown : ∀ setting ∈ lastKnown? group, setting.isFlag = false
              · exact .inr ⟨rfl, .inr ⟨group, hword, hlast, hknown⟩⟩
              · push Not at hknown
                obtain ⟨setting, hknown, hflag⟩ := hknown
                exact .inl (leavesAlone_of_flag hword hlast hknown
                  (by simpa using hflag) hnext hdash more)
      · exact .inl (leavesAlone_of_value hvalue _)

/-- The word taken is the value of the setting, after all that the option does
by itself. -/
theorem TakesNext.readOption {word name : String} (htakes : TakesNext word name)
    (line : CommandLine) :
    ∃ earlier : CommandLine,
      line.readOption [] (Word.ofText word) = (earlier.assign name "", []) ∧
      ∀ (next : String) (more : List String), startsWithDash next = false →
        line.readOption (next :: more) (Word.ofText word) =
          (earlier.assign name next, more) := by
  cases htakes with
  | long hword htext =>
      have hname : name.isEmpty = false := by
        cases hempty : name.isEmpty with
        | false => rfl
        | true =>
            rw [String.isEmpty_iff.mp hempty] at htext
            cases htext
      refine ⟨line, ?_, fun next more hdash => ?_⟩
      · simp only [hword, CommandLine.readOption, hname, htext, if_true,
          Bool.false_eq_true, if_false]
        rfl
      · simp only [hword, CommandLine.readOption, hname, htext,
          valueWithin_empty_cons hdash, if_true, Bool.false_eq_true, if_false]
  | @letters group hword =>
      have hassign (value : String) :
          assignLetters value (group ++ ['e']) line "" =
            ((assignLetters "" group line "").1.assign Setting.exec.name value,
              "") :=
        assignLetters_concat value group 'e' line ""
      refine ⟨(assignLetters "" group line "").1, ?_, fun next more hdash => ?_⟩
      · simp only [hword, CommandLine.readOption, valueWithin_empty_nil, hassign]
        rfl
      · simp only [hword, CommandLine.readOption, valueWithin_empty_cons hdash,
          hassign]
        rfl

/-- The word taken is gone. -/
theorem LosesNext.readOption {word : String} (hloses : LosesNext word)
    (line : CommandLine) :
    (line.readOption [] (Word.ofText word)).2 = [] ∧
      ∀ (next : String) (more : List String), startsWithDash next = false →
        line.readOption (next :: more) (Word.ofText word) =
          ((line.readOption [] (Word.ofText word)).1, more) := by
  obtain ⟨group, hword, hlast, hknown⟩ := hloses
  have hchosen (value : String) : (assignLetters value group line "").2 = "" := by
    rw [assignLetters_chosen]
    cases hlast : lastKnown? group with
    | none => rfl
    | some setting =>
        exact (implied_eq_empty_iff setting).mpr (hknown setting hlast)
  refine ⟨?_, fun next more hdash => ?_⟩
  · simp only [hword, CommandLine.readOption, putBack_eq, hchosen]
    rfl
  · simp only [hword, CommandLine.readOption, valueWithin_empty_cons hdash,
      valueWithin_empty_nil, putBack_eq, hchosen, assignLetters_unused next hlast]
    rfl

end CommandLine

end NumberedBasic
