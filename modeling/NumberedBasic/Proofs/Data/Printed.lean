import NumberedBasic.Proofs.Decimal.Fewest
import NumberedBasic.Proofs.Decimal.ReadBack
import NumberedBasic.Proofs.Grammar.Program
import NumberedBasic.Proofs.Token.Numeral
import NumberedBasic.Proofs.Token.Rereading

/-!
# Printed numbers as data

The text of a printed number denotes exactly the decimal that was chosen for
it, is read as the number that was printed, and where it has no exponent is an
item of a DATA too.
-/

namespace NumberedBasic

/-! ## A DATA with one item -/

theorem Program.parse_of_dataItem [Host] {source : String} {first : Token}
    {tokens : List Token} {value : Value}
    (hreads : (Lexer.Source.ofString source).Reads (first :: tokens))
    (hfirst : first.kind = .keyword .dataWord)
    (hitem : DataItem tokens value) :
    Program.parse source = .ok [⟨none, .data [value]⟩] := by
  rw [Program.parse_of_tokens rfl hreads.kinds hreads.tokens]
  have hderives : Program.Derives 3 (first :: tokens ++
      [⟨.endOfInput, "", (Lexer.Source.ofString source).final⟩])
      [⟨none, .data [value]⟩] :=
    .lastLine (.unnumbered (.headed hfirst (.data (.last hitem)))) rfl
  exact (Parser.program_of_derives rfl hderives).resolve_right
    fun hdeep => Nat.not_lt.mpr Host.three_le_nesting hdeep.1

/-! ## Numerals as items -/

namespace Lexer

theorem isGap_of_isDigit {c : Char} (hdigit : c.isDigit = true) :
    isGap c = false := by
  have hne {d : Char} (hd : d.isDigit = false) : c ≠ d := by
    rintro rfl
    exact Bool.noConfusion (hd.symm.trans hdigit)
  simp [isGap, hne (d := ' ') rfl, hne (d := '\t') rfl, hne (d := '\r') rfl]

/-- A numeral at the end of a text is read as a whole. -/
theorem scan_numeral {text : List Char} (hnumeral : IsNumeral text) :
    ∃ first rest, text = first :: rest ∧ isGap first = false ∧
      scan first rest = .ok ⟨.number, String.ofList text, text, []⟩ := by
  have happart : Apart [] := nofun
  cases hnumeral with
  | @whole first digits hdigits =>
      obtain ⟨hfirst, hdigits⟩ := List.forall_mem_cons.mp hdigits
      have hscan := scanNumber_apart first hdigits happart
      rw [List.append_nil] at hscan
      rw [← hscan]
      exact ⟨first, digits, rfl, isGap_of_isDigit hfirst, scan_of_isDigit hfirst _⟩
  | @fraction first digit digits decimals hdigits hdecimals =>
      obtain ⟨hfirst, hdigits⟩ := List.forall_mem_cons.mp hdigits
      obtain ⟨hdigit, hdecimals⟩ := List.forall_mem_cons.mp hdecimals
      have hscan := scanNumber_fraction_apart first hdigits hdigit hdecimals happart
      rw [List.append_nil] at hscan
      rw [← hscan]
      exact ⟨first, _, rfl, isGap_of_isDigit hfirst, scan_of_isDigit hfirst _⟩

theorem reads_numeral {gap text : List Char} (hgap : ∀ c ∈ gap, isGap c = true)
    (hnumeral : IsNumeral text) (position : Position) :
    Source.Reads ⟨position, gap ++ text⟩
      [⟨.number, String.ofList text, position.after gap⟩] := by
  obtain ⟨first, rest, rfl, hfirst, hscan⟩ := scan_numeral hnumeral
  exact .lexeme hgap hfirst hscan nofun (.done rfl)

/-- The tokens of a numeral after a gap and maybe a minus sign are an item of a
DATA. -/
theorem exists_item {gap body : List Char} {literal : Decimal.Literal}
    (hgap : ∀ c ∈ gap, isGap c = true) (hnumeral : IsNumeral body)
    (hspells : literal.Spells body) (negative : Bool) (position : Position) :
    ∃ tokens, Source.Reads
        ⟨position, gap ++ ((if negative then ['-'] else []) ++ body)⟩ tokens ∧
      DataItem tokens (.number
        (if negative then -literal.toFloat else literal.toFloat)) := by
  have hread := Decimal.entireNumber?_numeral hnumeral hspells
  rw [← String.toList_ofList (l := body)] at hread
  cases negative with
  | false => exact ⟨_, reads_numeral hgap hnumeral position, .unsigned rfl hread⟩
  | true =>
      have hscan : scan '-' body = .ok ⟨.sign .minus, "-", ['-'], body⟩ := by
        cases body <;> rfl
      exact ⟨_, .lexeme hgap (by decide) hscan nofun
        (reads_numeral (List.forall_mem_nil _) hnumeral _), .minus rfl rfl hread⟩

/-- The word DATA in front of a space. -/
theorem scan_dataWord (rest : List Char) :
    scan 'D' (['A', 'T', 'A'] ++ ' ' :: rest) =
      .ok ⟨.keyword .dataWord, "DATA", "DATA".toList, ' ' :: rest⟩ := by
  have hnames : ∀ c ∈ ['A', 'T', 'A'], isNameChar c = true :=
    List.all_eq_true.mp rfl
  have happart : Apart (' ' :: rest) := by
    rintro _ ⟨⟩
    rfl
  rw [scan_of_isNameStart rfl, scanWord_apart hnames 'D' happart]
  rfl

end Lexer

/-- A line with a numeral of a DATA. -/
theorem Program.parse_data [Host] {body : List Char} {literal : Decimal.Literal}
    (hnumeral : IsNumeral body) (hspells : literal.Spells body)
    {negative : Bool} {text : String} {x : Float}
    (htext : text.toList = (if negative then ['-'] else []) ++ body)
    (hx : (if negative then -literal.toFloat else literal.toFloat) = x) :
    Program.parse ("DATA " ++ text) = .ok [⟨none, .data [.number x]⟩] := by
  have hgap : ∀ c ∈ [' '], Lexer.isGap c = true :=
    List.forall_mem_singleton.mpr rfl
  obtain ⟨tokens, hreads, hitem⟩ := Lexer.exists_item hgap hnumeral hspells
    negative (Position.start.after "DATA".toList)
  have hsource : Lexer.Source.ofString ("DATA " ++ text) =
      ⟨.start, [] ++ 'D' :: (['A', 'T', 'A'] ++ ' ' :: text.toList)⟩ := by
    rw [Lexer.Source.ofString, String.toList_append]
    rfl
  rw [← htext] at hreads
  rw [hx] at hitem
  have hword : TokenKind.keyword .dataWord ≠ .keyword .remWord := by decide
  have hwhole := Lexer.Source.Reads.lexeme (List.forall_mem_nil _) rfl
    (Lexer.scan_dataWord text.toList) hword hreads
  rw [List.nil_append] at hwhole
  exact Program.parse_of_dataItem (hsource ▸ hwhole) rfl hitem

/-! ## Printed numbers -/

namespace Decimal

/-- A number printed without an exponent is a numeral of the source. -/
theorem Plain.isNumeral {body : List Char} (h : Plain body) : IsNumeral body := by
  cases h with
  | whole hdigits =>
      obtain ⟨first, rest, rfl⟩ := List.exists_cons_of_ne_nil hdigits.nonempty
      exact .whole hdigits.ascii
  | pointed hwhole hfraction =>
      obtain ⟨digit, decimals, rfl⟩ :=
        List.exists_cons_of_ne_nil hfraction.nonempty
      have hdecimals := hfraction.ascii
      rcases hwhole with hwhole | rfl
      · obtain ⟨first, rest, rfl⟩ := List.exists_cons_of_ne_nil hwhole.nonempty
        exact .fraction hwhole.ascii hdecimals
      · exact .fraction (List.forall_mem_singleton.mpr rfl) hdecimals

theorem Plain.not_mem {body : List Char} (h : Plain body) : 'e' ∉ body := by
  intro hmem
  rcases h.isNumeral.isDigit_or_point hmem with hdigit | hpoint
  · cases hdigit
  · cases hpoint

theorem Scientific.mem {body : List Char} (h : Scientific body) : 'e' ∈ body := by
  cases h <;> simp

/-- What is known of the text that is printed for a finite number other than
zero, whose magnitude is written with the given digits. -/
structure Rendered (x : Float) (number : Expansion) (text : String) : Prop where
  /-- Neither the first nor the last digit is a zero. -/
  reduced : number.Reduced
  rounds : RoundsTo number.value x.abs
  fewest : ∀ other : Expansion, RoundsTo other.value x.abs →
    number.digits.length ≤ other.digits.length
  /-- The literal at the start of the text is the whole of it. -/
  denotes : ∃ literal, LongestLead text.toList literal text.toList ∧
    literal.Spells text.toList ∧
    literal.value? = some (if x < 0 then -number.value else number.value)
  exponent : 'e' ∈ text.toList ↔ 21 < number.point ∨ number.point ≤ -6
  large : 21 < number.point ↔ 1e21 ≤ x.abs
  small : number.point ≤ -6 ↔ x.abs < 1e-6
  canonical : ∃ body, text.toList = (if x < 0 then ['-'] else []) ++ body ∧
    if 'e' ∈ text.toList then Scientific body else Plain body
  readBack : leadingNumber text.toList = x
  data [Host] : 'e' ∉ text.toList →
    Program.parse ("DATA " ++ text) = .ok [⟨none, .data [.number x]⟩]

section Finite

open Float.Model Double

variable {x : Float} {sign : UnpackedFloat.Sign} {mantissa : ℕ}
variable {power : ℤ} {hpos : 0 < mantissa}

/-- The text has an exponent if and only if the point is far from the
digits. -/
theorem mem_text_iff (hx : x.toModel.unpack = .finite sign mantissa power hpos) :
    ('e' ∈ (text printed x).toList ↔
        21 < (shortest x).point ∨ (shortest x).point ≤ -6) ∧
      if 'e' ∈ (text printed x).toList then
        Scientific ((shortest x).text printed)
      else Plain ((shortest x).text printed) := by
  obtain ⟨-, -, -, hform⟩ := (shortest_spec hx).1.exists_text
  have hsign : 'e' ∉ if x < 0 then ['-'] else [] := by
    split_ifs <;> decide
  have hmem : 'e' ∈ (text printed x).toList ↔
      'e' ∈ (shortest x).text printed := by
    rw [text_of_finite hx, List.mem_append, or_iff_right hsign]
  simp only [hmem]
  split_ifs at hform with hfar
  · have he := hform.mem
    rw [if_pos he]
    exact ⟨iff_of_true he hfar, hform⟩
  · have he := hform.not_mem
    rw [if_neg he]
    exact ⟨iff_of_false he hfar, hform⟩

theorem rendered_of_finite
    (hx : x.toModel.unpack = .finite sign mantissa power hpos) :
    Rendered x (shortest x) (text printed x) := by
  obtain ⟨magnitude, hspells, hvalue, hread⟩ := exists_literal_text hx
  obtain ⟨hexponent, hform⟩ := mem_text_iff hx
  have htext := text_of_finite hx
  have hsign : SpellsSign (decide (x < 0)) (if x < 0 then ['-'] else []) := by
    split_ifs with hnegative
    · rw [decide_eq_true hnegative]
      exact .minus
    · rw [decide_eq_false hnegative]
      exact .absent
  have hliteral : Literal.Spells ⟨decide (x < 0), magnitude⟩
      (text printed x).toList := by
    rw [htext]
    exact .intro hsign hspells
  have hsigned : Literal.toFloat ⟨decide (x < 0), magnitude⟩ = x := by
    rw [Literal.toFloat, hread]
    simp only [decide_eq_true_eq]
    exact (eq_signed_abs hx).symm
  constructor
  case reduced => exact (shortest_spec hx).1
  case rounds => exact roundsTo_abs hx
  case fewest =>
    intro other hother
    rw [RoundsTo, unpack_abs hx] at hother
    exact length_shortest_le hx hother
  case denotes =>
    refine ⟨_, hliteral.longestLead, hliteral, ?_⟩
    rw [Literal.value?, hvalue]
    simp
  case exponent => exact hexponent
  case large => exact (sextillion_le_abs_iff hx).symm
  case small => exact (abs_lt_millionth_iff hx).symm
  case canonical => exact ⟨_, htext, hform⟩
  case readBack => rw [leadingNumber_of_spells hliteral, hsigned]
  case data =>
    intro _ hplain
    rw [if_neg hplain] at hform
    have hbody := Literal.Spells.intro .absent hspells
    rw [List.nil_append] at hbody
    have hwhole : (text printed x).toList =
        (if decide (x < 0) then ['-'] else []) ++ (shortest x).text printed := by
      simpa using htext
    exact Program.parse_data hform.isNumeral hbody hwhole hsigned

end Finite

/-- Whatever number is printed, unless it is zero or undefined, is read back from
its text.  The text of a finite one denotes exactly the shortest decimal that
rounds to the number and is a canonical literal, which a DATA can hold if it has
no exponent. -/
theorem rendered_text {x : Float} (hnan : x.isNaN = false)
    (hne : (x == 0) = false) :
    leadingNumber (text printed x).toList = x ∧
      (x.isInf = false → Rendered x (shortest x) (text printed x)) := by
  by_cases hinf : x.isInf = true
  · exact ⟨leadingNumber_infinite hinf, fun h => by rw [hinf] at h; cases h⟩
  · rw [Bool.not_eq_true] at hinf
    obtain ⟨_, _, _, _, hx⟩ := exists_unpack hnan hinf hne
    have hrendered := rendered_of_finite hx
    exact ⟨hrendered.readBack, fun _ => hrendered⟩

theorem rendered_text_tenth :
    Rendered (-0.1) ⟨['1'], 0⟩ "-0.1" ∧
      leadingNumber "-Infinity".toList = -infinite := by
  have htext : text printed (-0.1) = "-0.1" := by decide +kernel
  have hshortest : shortest (-0.1) = ⟨['1'], 0⟩ := by decide +kernel
  have hinfinite : text printed (-infinite) = "-Infinity" := by decide +kernel
  have hfinite := (rendered_text (x := -0.1) rfl rfl).2 rfl
  have hread := (rendered_text (x := -infinite) rfl rfl).1
  rw [htext, hshortest] at hfinite
  rw [hinfinite] at hread
  exact ⟨hfinite, hread⟩

end Decimal

end NumberedBasic
