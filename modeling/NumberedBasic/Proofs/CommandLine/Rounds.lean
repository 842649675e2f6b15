import Mathlib.Data.List.Basic
import Mathlib.Logic.Relation
import NumberedBasic.Proofs.CommandLine.Lookahead

/-!
# Rounds of reading a command line

Reading goes on in rounds, each of which begins with the first word that is
left.  An option may take the word after it as well, or put its own value back
in front of the others, so that the words left can be as many as before; but
each round leaves fewer characters, and so reading ends.
-/

namespace NumberedBasic

namespace CommandLine

/-- A command line partly read. -/
structure Reading where
  line : CommandLine
  left : List String
  /-- Whether all words left are positional. -/
  ended : Bool

namespace Reading

def start (words : List String) : Reading := ⟨empty, words, false⟩

/-- What is read in the end. -/
def finish (reading : Reading) : CommandLine :=
  if reading.ended then reading.left.foldl addPositional reading.line
  else reading.line.readFrom reading.left

/-- The same with more words at the end. -/
def append (reading : Reading) (after : List String) : Reading :=
  { reading with left := reading.left ++ after }

end Reading

def Word.IsOption : Word → Prop
  | long _ _ => True
  | letters _ _ => True
  | _ => False

/-- One round, by what the first word is. -/
inductive Round : Reading → Reading → Prop
  | ended {line : CommandLine} {word : String} {rest : List String} :
      Round ⟨line, word :: rest, true⟩ ⟨line.addPositional word, rest, true⟩
  | positional {line : CommandLine} {word text : String} {rest : List String}
      (hword : Word.ofText word = .positional text) :
      Round ⟨line, word :: rest, false⟩ ⟨line.addPositional text, rest, false⟩
  | endOfOptions {line : CommandLine} {word : String} {rest : List String}
      (hword : Word.ofText word = .endOfOptions) :
      Round ⟨line, word :: rest, false⟩ ⟨line, rest, true⟩
  | option {line : CommandLine} {word : String} {rest : List String}
      (hword : (Word.ofText word).IsOption) :
      Round ⟨line, word :: rest, false⟩
        ⟨(line.readOption rest (Word.ofText word)).1,
          (line.readOption rest (Word.ofText word)).2, false⟩

/-- The second reading comes from the first in some number of rounds. -/
def Reaches : Reading → Reading → Prop := Relation.ReflTransGen Round

/-! ## Reading ends -/

theorem exists_round (line : CommandLine) (word : String) (rest : List String)
    (ended : Bool) : ∃ next, Round ⟨line, word :: rest, ended⟩ next := by
  cases ended with
  | true => exact ⟨_, .ended⟩
  | false =>
      cases hword : Word.ofText word with
      | positional text => exact ⟨_, .positional hword⟩
      | endOfOptions => exact ⟨_, .endOfOptions hword⟩
      | long name value =>
          exact ⟨_, .option (by rw [hword]; exact trivial)⟩
      | letters group value =>
          exact ⟨_, .option (by rw [hword]; exact trivial)⟩

theorem weight_lt_of_round {reading next : Reading} (hround : Round reading next) :
    weight next.left < weight reading.left := by
  cases hround with
  | option hword => exact weight_readOption _ _ _
  | ended => exact Nat.lt_add_of_pos_left (Nat.succ_pos _)
  | positional => exact Nat.lt_add_of_pos_left (Nat.succ_pos _)
  | endOfOptions => exact Nat.lt_add_of_pos_left (Nat.succ_pos _)

/-- No round changes what is read in the end. -/
theorem finish_eq_of_round {reading next : Reading} (hround : Round reading next) :
    next.finish = reading.finish := by
  cases hround with
  | ended => rfl
  | positional hword =>
      simp only [Reading.finish, Bool.false_eq_true, if_false]
      rw [readFrom]
      simp only [hword]
  | endOfOptions hword =>
      simp only [Reading.finish, Bool.false_eq_true, if_false, if_true]
      rw [readFrom]
      simp only [hword]
  | @option line word rest hword =>
      simp only [Reading.finish, Bool.false_eq_true, if_false]
      rw [readFrom]
      cases hkind : Word.ofText word with
      | positional text => simp [hkind, Word.IsOption] at hword
      | endOfOptions => simp [hkind, Word.IsOption] at hword
      | long name value => rfl
      | letters group value => rfl

theorem finish_eq_of_reaches {reading later : Reading}
    (hreaches : Reaches reading later) : later.finish = reading.finish := by
  induction hreaches with
  | refl => rfl
  | tail _ hround ih => exact (finish_eq_of_round hround).trans ih

/-- However it goes on, reading ends: no rounds follow each other for ever. -/
theorem wellFounded_round : WellFounded (flip Round) :=
  Subrelation.wf (fun hround => weight_lt_of_round hround)
    (measure fun reading : Reading => weight reading.left).wf

theorem reaches_finish (reading : Reading) :
    ∃ ended, Reaches reading ⟨reading.finish, [], ended⟩ := by
  induction reading using wellFounded_round.induction with
  | _ reading ih =>
      obtain ⟨line, left, ended⟩ := reading
      cases left with
      | nil =>
          refine ⟨ended, ?_⟩
          cases ended with
          | true => exact .refl
          | false =>
              rw [Reading.finish, readFrom]
              exact .refl
      | cons word rest =>
          obtain ⟨next, hround⟩ := exists_round line word rest ended
          obtain ⟨final, hreaches⟩ := ih next hround
          rw [finish_eq_of_round hround] at hreaches
          exact ⟨final, .head hround hreaches⟩

/-! ## Where options end -/

/-- What the word is in the end, where a value that is put back is read again. -/
def Unwraps : (word inner : String) → Prop := Relation.ReflTransGen PutsBack

/-- The word is a double dash or puts one back. -/
def EndsOptions (word : String) : Prop := Unwraps word "--"

theorem ofText_eq_endOfOptions_iff (word : String) :
    Word.ofText word = .endOfOptions ↔ word = "--" := by
  constructor
  · intro hword
    simp only [Word.ofText] at hword
    split at hword <;> cases hword
    rename_i htext
    exact String.toList_inj.mp htext
  · rintro rfl
    rfl

theorem endsOptions_iff (word : String) :
    EndsOptions word ↔
      word = "--" ∨ ∃ value, PutsBack word value ∧ EndsOptions value :=
  Relation.ReflTransGen.cases_head_iff

theorem not_endsOptions_of_not_putsBack {word : String}
    (hnone : ∀ value, ¬ PutsBack word value) (hword : word ≠ "--") :
    ¬ EndsOptions word := by
  rw [endsOptions_iff]
  rintro (hdashes | ⟨value, hvalue, -⟩)
  · exact hword hdashes
  · exact hnone value hvalue

theorem not_endsOptions_of_positional {word text : String}
    (hword : Word.ofText word = .positional text) : ¬ EndsOptions word := by
  refine not_endsOptions_of_not_putsBack ?_ ?_
  · rintro value ⟨group, setting, hgroup, -⟩
    cases hword.symm.trans hgroup
  · rintro rfl
    cases hword

theorem ofText_of_not_dash {word : String} (hdash : startsWithDash word = false) :
    Word.ofText word = .positional word := by
  simp only [startsWithDash, decide_eq_false_iff_not] at hdash
  simp only [Word.ofText]
  split <;> simp_all

/-- The options have ended, or a word that is left ends them. -/
def Reading.Ending (reading : Reading) : Prop :=
  reading.ended = true ∨ ∃ word ∈ reading.left, EndsOptions word

/-- No round passes over the end of options. -/
theorem ending_iff_of_round {reading next : Reading} (hround : Round reading next) :
    next.Ending ↔ reading.Ending := by
  cases hround with
  | ended => exact ⟨fun _ => .inl rfl, fun _ => .inl rfl⟩
  | positional hword =>
      simp [Reading.Ending, not_endsOptions_of_positional hword]
  | endOfOptions hword =>
      obtain rfl := (ofText_eq_endOfOptions_iff _).mp hword
      exact ⟨fun _ => .inr ⟨_, List.mem_cons_self, .refl⟩, fun _ => .inl rfl⟩
  | @option line word rest hword =>
      have hdashes : word ≠ "--" := by
        rintro rfl
        exact hword
      have hleft := readOption_left line word rest
      simp only [Reading.Ending, Bool.false_eq_true, false_or,
        List.exists_mem_cons_iff]
      generalize (line.readOption rest (Word.ofText word)).2 = left at hleft ⊢
      obtain ⟨value, hback, rfl⟩ | ⟨hnone, hleft⟩ := hleft
      · have hends : EndsOptions word ↔ EndsOptions value := by
          rw [endsOptions_iff, or_iff_right hdashes]
          refine ⟨?_, fun hvalue => ⟨value, hback, hvalue⟩⟩
          rintro ⟨other, hother, hends⟩
          rwa [hback.unique hother]
        rw [List.exists_mem_cons_iff, hends]
      · have hnot := not_endsOptions_of_not_putsBack hnone hdashes
        rw [or_iff_right hnot]
        -- a word taken as a value does not start with a dash
        obtain rfl | ⟨value, hdash, rfl⟩ := hleft
        · rfl
        · have hvalue := not_endsOptions_of_positional (ofText_of_not_dash hdash)
          rw [List.exists_mem_cons_iff, or_iff_right hvalue]

theorem ending_iff_of_reaches {reading later : Reading}
    (hreaches : Reaches reading later) : later.Ending ↔ reading.Ending := by
  induction hreaches with
  | refl => rfl
  | tail _ hround ih => exact (ending_iff_of_round hround).trans ih

/-! ## Words after others -/

/-- Reading has come to an option that does not leave the words after it alone,
and the last word left was that option or put it back. -/
def StopsAt (reading : Reading) (after : List String) : Prop :=
  ∃ line option, ¬ LeavesAlone option after ∧
    (∃ last ∈ reading.left.getLast?, Unwraps last option) ∧
    Reaches reading ⟨line, [option], false⟩ ∧
    Reaches (reading.append after) ⟨line, option :: after, false⟩

/-- The words left are read without those after them. -/
def ReadsApart (reading : Reading) (after : List String) : Prop :=
  ∃ line ended, Reaches reading ⟨line, [], ended⟩ ∧
    Reaches (reading.append after) ⟨line, after, ended⟩

theorem round_append {reading next : Reading} {after : List String}
    (hround : Round reading next)
    (halone : ∀ word, reading.left = [word] → reading.ended = false →
      LeavesAlone word after) :
    Round (reading.append after) (next.append after) := by
  cases hround with
  | ended => exact .ended
  | positional hword => exact .positional hword
  | endOfOptions hword => exact .endOfOptions hword
  | @option line word rest hword =>
      have hoption : line.readOption (rest ++ after) (Word.ofText word) =
          ((line.readOption rest (Word.ofText word)).1,
            (line.readOption rest (Word.ofText word)).2 ++ after) := by
        cases rest with
        | nil => exact halone word rfl rfl line
        | cons next more =>
            have hvalue := valueWithin_append (List.cons_ne_nil next more)
              (Word.ofText word).value after
            exact readOption_append hvalue line
      have hround : Round ⟨line, word :: (rest ++ after), false⟩ _ := .option hword
      rwa [hoption] at hround

theorem mem_getLast?_cons {word last : String} {rest : List String}
    (hlast : last ∈ rest.getLast?) : last ∈ (word :: rest).getLast? := by
  rw [List.getLast?_cons, Option.mem_def.mp hlast]
  rfl

/-- The last word left is the one that was, or the value that one put back. -/
theorem exists_unwraps_of_round {reading next : Reading}
    (hround : Round reading next) {last : String}
    (hlast : last ∈ next.left.getLast?) :
    ∃ word ∈ reading.left.getLast?, Unwraps word last := by
  cases hround with
  | ended => exact ⟨last, mem_getLast?_cons hlast, .refl⟩
  | positional => exact ⟨last, mem_getLast?_cons hlast, .refl⟩
  | endOfOptions => exact ⟨last, mem_getLast?_cons hlast, .refl⟩
  | @option line word rest hword =>
      have hleft := readOption_left line word rest
      generalize (line.readOption rest (Word.ofText word)).2 = left at hleft hlast
      obtain ⟨value, hback, rfl⟩ | ⟨-, rfl | ⟨value, -, rfl⟩⟩ := hleft
      · cases rest with
        | nil =>
            cases hlast
            exact ⟨word, rfl, .single hback⟩
        | cons next more =>
            rw [List.getLast?_cons_cons] at hlast
            exact ⟨last, mem_getLast?_cons hlast, .refl⟩
      · exact ⟨last, mem_getLast?_cons hlast, .refl⟩
      · exact ⟨last, mem_getLast?_cons (mem_getLast?_cons hlast), .refl⟩

theorem readsApart_or_stopsAt (reading : Reading) (after : List String) :
    ReadsApart reading after ∨ StopsAt reading after := by
  -- only the round that reads the last word looks at the words after it, and
  -- the value put back in that round is then the last word itself
  induction reading using wellFounded_round.induction with
  | _ reading ih =>
      obtain ⟨line, left, ended⟩ := reading
      cases left with
      | nil => exact .inl ⟨line, ended, .refl, .refl⟩
      | cons word rest =>
          by_cases hstops : rest = [] ∧ ended = false ∧ ¬ LeavesAlone word after
          · obtain ⟨rfl, rfl, halone⟩ := hstops
            exact .inr ⟨line, word, halone, ⟨word, rfl, .refl⟩, .refl, .refl⟩
          · obtain ⟨next, hround⟩ := exists_round line word rest ended
            have hafter : Round _ (next.append after) :=
              round_append hround fun other hleft hended => by
                obtain ⟨rfl, rfl⟩ := List.cons.inj hleft
                exact of_not_not fun halone => hstops ⟨rfl, hended, halone⟩
            obtain happart | hstops := ih next hround
            · obtain ⟨final, last, hfinal, hrest⟩ := happart
              exact .inl ⟨final, last, .head hround hfinal, .head hafter hrest⟩
            · obtain ⟨final, option, halone, hoption, hfinal, hrest⟩ := hstops
              obtain ⟨last, hlast, hunwraps⟩ := hoption
              obtain ⟨first, hfirst, hlast⟩ := exists_unwraps_of_round hround hlast
              exact .inr ⟨final, option, halone,
                ⟨first, hfirst, hlast.trans hunwraps⟩, .head hround hfinal, .head hafter hrest⟩

end CommandLine

end NumberedBasic
