import NumberedBasic.Listing
import NumberedBasic.Proofs.Grammar.Program
import NumberedBasic.Proofs.Table.Order
import NumberedBasic.Proofs.Text.Numeral
import NumberedBasic.Proofs.Text.Trim
import NumberedBasic.Proofs.Token.Rereading

/-!
# The program of a listing

A listing holds its lines in ascending order, and none of them has a line feed
in it.  So the source text of a listing spells the statements of its lines, one
for each line and in the same order, and that is the order in which they are
executed.
-/

namespace NumberedBasic

/-! ## Lines in ascending order -/

namespace Listing

/-- What can be stored, text by text, from nothing on, where no text has a line
feed in it.  A text that is not stored leaves the listing as it is. -/
inductive Stored : Listing → Prop where
  | empty : Stored .empty
  | store {listing listing' : Listing} {text : String}
      (hlisting : Stored listing) (hline : '\n' ∉ text.toList)
      (hstore : listing.store text = .ok listing') : Stored listing'

/-- The numbers ascend and each line is one line. -/
structure Tidy (lines : List (Nat × String)) : Prop where
  ascending : lines.Pairwise (·.1 < ·.1)
  single : ∀ line ∈ lines, '\n' ∉ line.2.toList

theorem mem_insertLine {number : Nat} {code : String} {line : Nat × String}
    {lines : List (Nat × String)} (hline : line ∈ insertLine number code lines) :
    line = (number, code) ∨ line ∈ lines := by
  induction lines with
  | nil => exact Or.inl (List.mem_singleton.mp hline)
  | cons other rest ih =>
      rw [insertLine] at hline
      split at hline
      · exact List.mem_cons.mp hline
      · split at hline
        · exact (List.mem_cons.mp hline).imp_right (List.mem_cons_of_mem _)
        · rcases List.mem_cons.mp hline with rfl | hrest
          · exact Or.inr List.mem_cons_self
          · exact (ih hrest).imp_right (List.mem_cons_of_mem _)

theorem ascending_insertLine {number : Nat} {code : String}
    {lines : List (Nat × String)} (hlines : lines.Pairwise (·.1 < ·.1)) :
    (insertLine number code lines).Pairwise (·.1 < ·.1) := by
  induction lines with
  | nil => exact List.pairwise_singleton _ _
  | cons other rest ih =>
      obtain ⟨hother, hrest⟩ := List.pairwise_cons.mp hlines
      rw [insertLine]
      split
      next hbefore =>
        refine List.pairwise_cons.mpr ⟨?_, hlines⟩
        intro line hline
        rcases List.mem_cons.mp hline with rfl | hbehind
        · exact hbefore
        · exact Nat.lt_trans hbefore (hother line hbehind)
      next hnotBefore =>
        split
        next hsame =>
          exact List.pairwise_cons.mpr ⟨hsame ▸ hother, hrest⟩
        next hdifferent =>
          refine List.pairwise_cons.mpr ⟨?_, ih hrest⟩
          intro line hline
          rcases mem_insertLine hline with rfl | hbehind
          · exact Nat.lt_of_le_of_ne (Nat.le_of_not_lt hnotBefore)
              (Ne.symm hdifferent)
          · exact hother line hbehind

theorem Tidy.put {listing : Listing} (htidy : Tidy listing.lines) (number : Nat)
    {code : String} (hcode : '\n' ∉ code.toList) :
    Tidy (listing.put number code).lines := by
  unfold Listing.put
  dsimp only
  split
  · exact ⟨htidy.ascending.filter _, fun line hline =>
      htidy.single line (List.mem_of_mem_filter hline)⟩
  · refine ⟨ascending_insertLine htidy.ascending, ?_⟩
    intro line hline
    rcases mem_insertLine hline with rfl | hold
    · exact hcode
    · exact htidy.single line hold

/-- The code of a numbered text is part of it. -/
theorem mem_of_numbered {text code : String} {number : Nat} {c : Char}
    (hnumbered : numbered text = .ok (number, code)) (hc : c ∈ code.toList) :
    c ∈ text.toList := by
  unfold numbered at hnumbered
  dsimp only at hnumbered
  split at hnumbered
  · cases hnumbered
  · split at hnumbered
    · cases hnumbered
      rw [String.toList_ofList] at hc
      have hrest := (List.dropWhile_suffix _).subset ((Text.infix_trim _).subset hc)
      exact (List.dropWhile_suffix _).subset hrest
    · cases hnumbered

theorem Stored.tidy {listing : Listing} (hstored : listing.Stored) :
    Tidy listing.lines := by
  induction hstored with
  | empty => exact ⟨List.Pairwise.nil, List.forall_mem_nil _⟩
  | @store listing _ text _ hline hstore ih =>
      rw [Listing.store] at hstore
      cases hnumbered : numbered text with
      | error failure =>
          rw [hnumbered] at hstore
          cases hstore
      | ok stored =>
          rw [hnumbered] at hstore
          cases hstore
          exact ih.put stored.1 fun hfeed => hline (mem_of_numbered hnumbered hfeed)

end Listing

/-! ## The tokens of a line -/

namespace Lexer

/-- Only a line feed is read as the end of a line. -/
theorem eq_newline_of_scan {first : Char} {after : List Char} {lexeme : Lexeme}
    (hscan : scan first after = .ok lexeme) (hkind : lexeme.kind = .newline) :
    first = '\n' := by
  cases scanned_of_scan hscan with
  | newline hfirst => exact hfirst
  | number =>
      rw [kind_scanNumber] at hkind
      cases hkind
  | string _ hstring =>
      rw [kind_scanString hstring] at hkind
      cases hkind
  | word =>
      rcases kind_scanWord first after with hword | ⟨keyword, hword⟩
      all_goals
        rw [hword] at hkind
        cases hkind
  | sign => cases hkind

/-- A text without line feed has no token that ends a line. -/
theorem Source.Reads.single {source : Source} {found : List Token}
    (hreads : source.Reads found) (hline : '\n' ∉ source.text) :
    ∀ token ∈ found, token.kind ≠ .newline := by
  induction hreads with
  | done => exact List.forall_mem_nil _
  | @more source rest read found hnext _ ih =>
      obtain ⟨gap, hgap, -⟩ := source.reaches_skipGap
      obtain ⟨taken, htaken, -⟩ := (next_reaches hnext).1
      have hrest : '\n' ∉ rest.text := by
        intro hfeed
        apply hline
        rw [hgap, htaken]
        exact List.mem_append_right _ (List.mem_append_right _ hfeed)
      intro token htoken hkind
      rcases List.mem_append.mp htoken with hread | hfound
      · obtain hstring | ⟨first, after, lexeme, htext, hscan, rfl⟩ :=
          exists_scan_of_mem hnext hread
        · rw [hstring] at hkind
          cases hkind
        · apply hline
          rw [hgap, htext, eq_newline_of_scan hscan hkind]
          exact List.mem_append_right _ List.mem_cons_self
      · exact ih hrest token hfound hkind

/-- The first token of a text that starts with digits, and a space after
them. -/
theorem next_numeral (position : Position) (code : List Char) {digits : List Char}
    (hnonempty : digits ≠ []) (hdigits : ∀ c ∈ digits, c.isDigit = true) :
    ∃ rest, next (Source.skipGap ⟨position, digits ++ ' ' :: code⟩) =
      .ok (some ([⟨.number, String.ofList digits, position⟩], rest)) := by
  cases digits with
  | nil => exact absurd rfl hnonempty
  | cons first digits =>
      have hfirst := hdigits first List.mem_cons_self
      have hgap : isGap first = false := by
        rw [← Bool.not_eq_true]
        intro hgap
        simp only [isGap, Bool.or_eq_true, decide_eq_true_eq] at hgap
        rcases hgap with (rfl | rfl) | rfl <;> cases hfirst
      have hskip : Source.skipGap ⟨position, first :: digits ++ ' ' :: code⟩ =
          ⟨position, first :: (digits ++ ' ' :: code)⟩ := by
        simp [Source.skipGap, hgap, Position.after]
      have hscan : scan first (digits ++ ' ' :: code) =
          .ok ⟨.number, String.ofList (first :: digits), first :: digits,
            ' ' :: code⟩ := by
        rw [scan_of_isDigit hfirst, scanNumber_apart first
          (fun c hc => hdigits c (List.mem_cons_of_mem _ hc))
          (fun c hc => by cases hc; rfl)]
      refine ⟨⟨position.after (first :: digits), ' ' :: code⟩, ?_⟩
      rw [hskip]
      exact next_of_scan rfl hscan

theorem Source.Reads.exists_numeral {position : Position} {digits code : List Char}
    {found : List Token} (hnonempty : digits ≠ [])
    (hdigits : ∀ c ∈ digits, c.isDigit = true)
    (hreads : Source.Reads ⟨position, digits ++ ' ' :: code⟩ found) :
    ∃ others, found = ⟨.number, String.ofList digits, position⟩ :: others := by
  obtain ⟨rest, hnext⟩ := next_numeral position code hnonempty hdigits
  cases hreads with
  | done hnone =>
      rw [hnext] at hnone
      cases hnone
  | more hsome =>
      rw [hnext] at hsome
      cases hsome
      exact ⟨_, rfl⟩

end Lexer

/-! ## The statement of a line -/

/-- What is read from the tokens of a single line that starts with a number. -/
theorem Program.Derives.eq_singleton {depth : Nat} {numeral final : Token}
    {others : List Token} {program : Program} (hnumeral : numeral.kind = .number)
    (hsingle : ∀ token ∈ numeral :: others, token.kind ≠ .newline)
    (hfinal : final.kind = .endOfInput)
    (hderives : Program.Derives depth ((numeral :: others) ++ [final]) program) :
    ∃ line, program = [line] ∧
      line.number = some (Text.numeralValue numeral.text.toList : Int) := by
  generalize htokens : (numeral :: others) ++ [final] = tokens at hderives
  have hnewline (newline : Token) (hkind : newline.kind = .newline) :
      newline ∉ tokens := by
    rw [← htokens]
    intro hmem
    rcases List.mem_append.mp hmem with hinside | hend
    · exact hsingle newline hinside hkind
    · rw [List.mem_singleton.mp hend, hfinal] at hkind
      cases hkind
  cases hderives with
  | finish => simp at htokens
  | blank hkind => exact absurd List.mem_cons_self (hnewline _ hkind)
  | line _ hkind =>
      exact absurd (List.mem_append_right _ List.mem_cons_self) (hnewline _ hkind)
  | @lastLine tokens other line hline _ =>
      obtain ⟨rfl, -⟩ := List.append_inj' htokens rfl
      refine ⟨line, rfl, ?_⟩
      cases hline with
      | numbered hnumber _ => exact congrArg some hnumber.value
      | unnumbered hbody =>
          have hstart := (Parser.starts_of_statement hbody ⟨[], final⟩).1
          exact absurd hnumeral hstart

namespace Listing

theorem toList_lineText (line : Nat × String) :
    (lineText line).toList = Decimal.digitsOf line.1 ++ ' ' :: line.2.toList := by
  simp [lineText, Nat.toList_repr, Decimal.digitsOf]

/-- A stored line that can be read has one statement, with the number under
which it is stored. -/
theorem exists_line [Host] {stored : Nat × String} (hsingle : '\n' ∉ stored.2.toList)
    {program : Program} (hparse : Program.parse (lineText stored) = .ok program) :
    ∃ line, program = [line] ∧ line.number = some (stored.1 : Int) := by
  have hdigits : ∀ c ∈ Decimal.digitsOf stored.1, c.isDigit = true :=
    fun _ => Decimal.isDigit_of_mem_digitsOf
  have hline : '\n' ∉ (lineText stored).toList := by
    rw [toList_lineText, List.mem_append, List.mem_cons, not_or, not_or]
    refine ⟨fun hfeed => ?_, by decide, hsingle⟩
    cases hdigits _ hfeed
  obtain ⟨tokens, htokens, hderives⟩ := Program.exists_derives hparse
  obtain ⟨found, hreads⟩ := Lexer.Source.exists_reads htokens
  obtain rfl := Except.ok.inj (hreads.tokens.symm.trans htokens)
  have hfound := hreads.single hline
  rw [Lexer.Source.ofString, toList_lineText] at hreads
  obtain ⟨others, rfl⟩ :=
    hreads.exists_numeral (Decimal.digitsOf_ne_nil _) hdigits
  obtain ⟨line, rfl, hnumber⟩ := hderives.eq_singleton rfl hfound rfl
  refine ⟨line, rfl, ?_⟩
  rw [hnumber, String.toList_ofList, Decimal.numeralValue_digitsOf]

/-- The line is what is read from a stored line alone, and carries its
number. -/
structure Reads [Host] (stored : Nat × String) (line : Line) : Prop where
  alone : Program.parse (lineText stored) = .ok [line]
  number : line.number = some (stored.1 : Int)

theorem exists_program [Host] {lines : List (Nat × String)} (htidy : Tidy lines)
    (hlines : ∀ stored ∈ lines, ∃ program,
      Program.parse (lineText stored) = .ok program) :
    ∃ program, Program.parse ("\n".intercalate (lines.map lineText)) =
        .ok program ∧ List.Forall₂ Reads lines program := by
  induction lines with
  | nil => exact ⟨[], rfl, .nil⟩
  | cons stored rest ih =>
      obtain ⟨accepted, haccepted⟩ := hlines stored List.mem_cons_self
      obtain ⟨line, rfl, hnumber⟩ :=
        exists_line (htidy.single stored List.mem_cons_self) haccepted
      have hreads : Reads stored line := ⟨haccepted, hnumber⟩
      obtain ⟨program, hprogram, hrest⟩ := ih
        ⟨(List.pairwise_cons.mp htidy.ascending).2, fun other hother =>
          htidy.single other (List.mem_cons_of_mem _ hother)⟩
        fun other hother => hlines other (List.mem_cons_of_mem _ hother)
      cases rest with
      | nil =>
          cases hrest
          refine ⟨[line], ?_, .cons hreads .nil⟩
          simpa using haccepted
      | cons next rest =>
          refine ⟨line :: program, ?_, .cons hreads hrest⟩
          rw [List.map_cons, List.map_cons, String.intercalate_cons_cons,
            ← List.map_cons, Program.parse_below haccepted, hprogram]
          rfl

/-- Lines in ascending order stay where they are. -/
theorem arrange_of_reads [Host] {lines : List (Nat × String)} {program : Program}
    (hascending : lines.Pairwise (·.1 < ·.1))
    (hreads : List.Forall₂ Reads lines program) : program.arrange = program := by
  induction hreads with
  | nil => rfl
  | @cons stored line rest program hline hrest ih =>
      obtain ⟨hfirst, hbehind⟩ := List.pairwise_cons.mp hascending
      rw [Program.arrange, List.foldr_cons]
      change line.insertInto (Program.arrange program) = _
      rw [ih hbehind]
      apply Line.insertInto_of_head
      intro other hother
      cases hrest with
      | nil => cases hother
      | @cons next head _ _ hnext _ =>
          cases hother
          have hless := hfirst next List.mem_cons_self
          rw [Line.precedes, hline.number, hnext.number]
          simpa using Nat.le_of_lt hless

/-- The source text of a listing whose lines can each be read spells their
statements, one for each line, in the order in which they are listed and
executed. -/
theorem parse_source [Host] {listing : Listing} (hstored : listing.Stored)
    (hlines : ∀ text ∈ listing.list, ∃ program, Program.parse text = .ok program) :
    ∃ program, Program.parse listing.source = .ok program ∧
      List.Forall₂ (fun stored line =>
        Program.parse (lineText stored) = .ok [line] ∧
          line.number = some (stored.1 : Int)) listing.lines program ∧
      (Table.ofProgram program).lines = program := by
  obtain ⟨program, hprogram, hreads⟩ := exists_program hstored.tidy
    fun stored hmem => hlines _ (List.mem_map_of_mem hmem)
  refine ⟨program, hprogram, ?_, ?_⟩
  · exact hreads.imp fun _ _ hline => ⟨hline.alone, hline.number⟩
  · exact arrange_of_reads hstored.tidy.ascending hreads

/-- Line 20, stored again after line 10 and with leading zeros. -/
def restored : Listing :=
  ⟨[(10, "GOTO 20"), (20, "REM \"")], some 20⟩

theorem parse_source_of_restored :
    restored.Stored ∧ restored.list = ["10 GOTO 20", "20 REM \""] ∧
      ∃ program, Program.parse restored.source = .ok program ∧
        List.Forall₂ (fun stored line =>
          Program.parse (lineText stored) = .ok [line] ∧
            line.number = some (stored.1 : Int)) restored.lines program ∧
        (Table.ofProgram program).lines = program := by
  have hfirst : Listing.Stored ⟨[(20, "END")], some 20⟩ :=
    .store .empty (show '\n' ∉ "20 END".toList by decide) (by rfl)
  have hsecond : Listing.Stored ⟨[(10, "GOTO 20"), (20, "END")], some 10⟩ :=
    .store hfirst (show '\n' ∉ " 10GOTO 20 ".toList by decide) (by rfl)
  have hstored : restored.Stored :=
    .store hsecond (show '\n' ∉ "020 REM \"".toList by decide) (by rfl)
  have hlist : restored.list = ["10 GOTO 20", "20 REM \""] := by rfl
  have htokens : tokenise "10 GOTO 20" = .ok [⟨.number, "10", ⟨1, 1⟩⟩,
      ⟨.keyword .gotoWord, "GOTO", ⟨1, 4⟩⟩, ⟨.number, "20", ⟨1, 9⟩⟩,
      ⟨.endOfInput, "", ⟨1, 11⟩⟩] := by rfl
  have htokens' : tokenise "20 REM \"" = .ok [⟨.number, "20", ⟨1, 1⟩⟩,
      ⟨.keyword .remWord, "REM", ⟨1, 4⟩⟩, ⟨.string, "\"", ⟨1, 8⟩⟩,
      ⟨.endOfInput, "", ⟨1, 9⟩⟩] := by rfl
  have hjump : Program.parse "10 GOTO 20" = .ok [⟨some 10, .goto (some 20)⟩] := by
    rw [Program.parse]
    rw [htokens]
    rfl
  have hremark : Program.parse "20 REM \"" = .ok [⟨some 20, .remark "\""⟩] := by
    rw [Program.parse]
    rw [htokens']
    rfl
  refine ⟨hstored, hlist, parse_source hstored ?_⟩
  rw [hlist]
  intro text htext
  rcases List.mem_pair.mp htext with rfl | rfl
  · exact ⟨_, hjump⟩
  · exact ⟨_, hremark⟩

end Listing

end NumberedBasic
