import NumberedBasic.OrderedMap
import NumberedBasic.Setting

/-!
# The words of a command line

A word that starts with a dash is an option, every other word is positional,
and after a double dash all words are.  An option takes its value from after
an equals sign or from the next word.  Single-letter options can be grouped;
the value then belongs to the last letter, and where that letter takes none,
the value is read again as a word of its own.
-/

namespace NumberedBasic

/-- What a value on the command line is given for. -/
inductive Key where
  | position (index : Nat)
  | named (name : String)
  deriving DecidableEq, Repr

def Key.setting? : Key → Option Setting
  | position _ => none
  | named name => Setting.ofName? name

structure CommandLine where
  given : OrderedMap Key String
  /-- The number of positional words. -/
  positions : Nat
  /-- Warnings in order. -/
  warnings : List String
  deriving DecidableEq, Repr

namespace CommandLine

def empty : CommandLine := ⟨.empty, 0, []⟩

/-- A word taken apart. -/
inductive Word where
  | positional (text : String)
  | endOfOptions
  | long (name value : String)
  | letters (group : List Char) (value : String)
  deriving DecidableEq, Repr

/-- The text before the first equals sign and the text after it. -/
def splitValue (text : List Char) : List Char × String :=
  (text.takeWhile (· ≠ '='),
    String.ofList ((text.dropWhile (· ≠ '=')).drop 1))

def startsWithDash (word : String) : Bool := word.toList.head? = some '-'

def Word.ofText (word : String) : Word :=
  match word.toList with
  | ['-'] => .positional word
  | ['-', '-'] => .endOfOptions
  | '-' :: '-' :: text =>
      let (name, value) := splitValue text
      .long (String.ofList name) value
  | '-' :: text =>
      let (group, value) := splitValue text
      .letters group value
  | _ => .positional word

/-! ## Assignments -/

def warn (line : CommandLine) (warning : String) : CommandLine :=
  { line with warnings := line.warnings ++ [warning] }

/-- A value together with the one given for the same name before. -/
def joined (name : String) (old : Option String) (value : String) : String :=
  match (Setting.ofName? name).bind Setting.separator?, old with
  | some separator, some old =>
      if old.isEmpty then value
      else if value.isEmpty then old
      else old ++ separator ++ value
  | _, _ => value

def assign (line : CommandLine) (name value : String) : CommandLine :=
  { line with
    given := line.given.insert (.named name)
      (joined name (line.given.get? (.named name)) value) }

def addPositional (line : CommandLine) (word : String) : CommandLine :=
  { line with
    given := line.given.insert (.position line.positions) word
    positions := line.positions + 1 }

/-! ## Options -/

/-- The next word as a value, unless it looks like an option, and the words
after it. -/
def takeValue : List String → String × List String
  | [] => ("", [])
  | word :: rest =>
      if startsWithDash word then ("", word :: rest) else (word, rest)

/-- A name that takes a text as its value. -/
def takesText (name : String) : Bool :=
  (Setting.ofName? name).any fun setting => !setting.isFlag

/-- What a letter chooses by itself. -/
def implied (setting : Setting) : String :=
  if setting.isFlag then "True" else ""

/-- Assigns the settings of a group of letters, the value going to the last
one; also tells what the last known letter chooses by itself. -/
def assignLetters (value : String) :
    List Char → CommandLine → (chosen : String) → CommandLine × String
  | [], line, chosen => (line, chosen)
  | letter :: rest, line, chosen =>
      match Setting.ofLetter? letter with
      | none =>
          assignLetters value rest
            (line.warn ("Ignored unrecognised option `-" ++
              String.ofList [letter] ++ "`")) chosen
      | some setting =>
          let chosen := implied setting
          let own := if rest.isEmpty && chosen.isEmpty then value else chosen
          assignLetters value rest (line.assign setting.name own) chosen

/-- The value of an option, from within its word or else from the next one, and
the words left. -/
def valueWithin (value : String) (rest : List String) :
    String × List String :=
  if value.isEmpty then takeValue rest else (value, rest)

/-- Puts a value back for which a group of letters has no use. -/
def putBack (chosen value : String) (rest : List String) : List String :=
  if !chosen.isEmpty && !value.isEmpty then value :: rest else rest

/-- Reads an option, given the words after it, and tells which words are left.
A positional word or the end of options changes nothing. -/
def readOption (line : CommandLine) (rest : List String) :
    Word → CommandLine × List String
  | .positional _ => (line, rest)
  | .endOfOptions => (line, rest)
  | .long name value =>
      if name.isEmpty then (line, rest)
      else if takesText name then
        let own := valueWithin value rest
        (line.assign name own.1, own.2)
      else (line.assign name value, rest)
  | .letters group value =>
      let own := valueWithin value rest
      let result := assignLetters own.1 group line ""
      (result.1, putBack result.2 own.1 own.2)

/-! ## The whole command line -/

/-- The length of a command line in characters, the ends of words
included. -/
def weight : (words : List String) → Nat
  | [] => 0
  | word :: rest => word.length + 1 + weight rest

theorem weight_cons (word : String) (rest : List String) :
    weight (word :: rest) = word.length + 1 + weight rest := rfl

/-- A value and the words left are no longer together than they were. -/
theorem weight_valueWithin (value : String) (rest : List String) :
    weight ((valueWithin value rest).1 :: (valueWithin value rest).2) ≤
      value.length + 1 + weight rest := by
  simp only [valueWithin]
  split
  · cases rest with
    | nil => simp [takeValue, weight_cons]
    | cons word rest =>
        simp only [takeValue]
        split
        · simp [weight_cons]
        · simp only []
          omega
  · exact Nat.le_of_eq (weight_cons value rest)

theorem weight_putBack (chosen value : String) (rest : List String) :
    weight (putBack chosen value rest) ≤ weight (value :: rest) := by
  simp only [putBack]
  split
  · exact Nat.le_refl _
  · rw [weight_cons]
    omega

theorem length_splitValue (text : List Char) :
    (splitValue text).2.length ≤ text.length := by
  simp only [splitValue, String.length_ofList, List.length_drop]
  have := (List.dropWhile_sublist (fun c => decide (c ≠ '='))
    (l := text)).length_le
  omega

/-- An option is longer than the value within it. -/
theorem length_value_of_long {word name value : String}
    (h : Word.ofText word = .long name value) :
    value.length < word.length := by
  rw [← String.length_toList (s := word)]
  simp only [Word.ofText] at h
  split at h <;> cases h
  rename_i text _ hword
  have := length_splitValue text
  simp only [hword, List.length_cons]
  omega

theorem length_value_of_letters {word value : String} {group : List Char}
    (h : Word.ofText word = .letters group value) :
    value.length < word.length := by
  rw [← String.length_toList (s := word)]
  simp only [Word.ofText] at h
  split at h <;> cases h
  rename_i text _ _ _ hword
  have := length_splitValue text
  simp only [hword, List.length_cons]
  omega

/-- Whatever an option does, fewer characters are left. -/
theorem weight_readOption (line : CommandLine) (word : String)
    (rest : List String) :
    weight (line.readOption rest (Word.ofText word)).2 <
      weight (word :: rest) := by
  rw [weight_cons]
  cases hword : Word.ofText word with
  | positional text => simp only [readOption]; omega
  | endOfOptions => simp only [readOption]; omega
  | long name value =>
      have hvalue := length_value_of_long hword
      have hwithin := weight_valueWithin value rest
      rw [weight_cons] at hwithin
      simp only [readOption]
      split
      · simp only []; omega
      · split <;> simp only [] <;> omega
  | letters group value =>
      have hvalue := length_value_of_letters hword
      have hwithin := weight_valueWithin value rest
      have hback := weight_putBack
        (assignLetters (valueWithin value rest).1 group line "").2
        (valueWithin value rest).1 (valueWithin value rest).2
      simp only [readOption]
      omega

/-- Reads words until the options end, and the rest as positional words. -/
def readFrom (line : CommandLine) : List String → CommandLine
  | [] => line
  | word :: rest =>
      match Word.ofText word with
      | .positional text => readFrom (line.addPositional text) rest
      | .endOfOptions => rest.foldl addPositional line
      | _ =>
          let next := line.readOption rest (Word.ofText word)
          readFrom next.1 next.2
  termination_by words => weight words
  decreasing_by
    · rw [weight_cons]; omega
    · exact weight_readOption line word rest

def read (words : List String) : CommandLine := empty.readFrom words

end CommandLine

end NumberedBasic
