import Mathlib.Data.List.TakeWhile
import NumberedBasic.Decimal.Literal
import NumberedBasic.Proofs.Text.Trim

/-!
# How decimal literals are spelled

The grammar of literals, said without a way of reading them: an optional sign,
and the word for infinity or digits with an optional point and an optional
exponent.  A scan from the left takes what the grammar allows and never stops
short of a longer literal.
-/

namespace NumberedBasic.Decimal

open Text

def Digits (text : List Char) : Prop := ∀ c ∈ text, isDigit c = true

theorem digits_of_ascii {digits : List Char}
    (h : ∀ c ∈ digits, c.isDigit = true) : Digits digits :=
  fun c hc => isDigit_ascii (h c hc)

/-- A sign that may be missing. -/
inductive SpellsSign : (negative : Bool) → List Char → Prop
  | absent : SpellsSign false []
  | plus : SpellsSign false ['+']
  | minus : SpellsSign true ['-']

/-- Digits with an optional point and optional further digits, or a point and
digits. -/
inductive SpellsMantissa : (whole fraction : List Char) → List Char → Prop
  | whole {whole : List Char} (hne : whole ≠ []) (hwhole : Digits whole) :
      SpellsMantissa whole [] whole
  | pointed {whole fraction : List Char} (hne : whole ≠ [])
      (hwhole : Digits whole) (hfraction : Digits fraction) :
      SpellsMantissa whole fraction (whole ++ '.' :: fraction)
  | fraction {fraction : List Char} (hne : fraction ≠ [])
      (hfraction : Digits fraction) :
      SpellsMantissa [] fraction ('.' :: fraction)

/-- The value of digits after a sign. -/
def signedValue (negative : Bool) (digits : List Char) : Int :=
  if negative then -(numeralValue digits : Int) else numeralValue digits

/-- An exponent that may be missing. -/
inductive SpellsExponent : (exponent : Int) → List Char → Prop
  | absent : SpellsExponent 0 []
  | marked {mark : Char} {negative : Bool} {sign digits : List Char}
      (hmark : mark = 'e' ∨ mark = 'E') (hsign : SpellsSign negative sign)
      (hne : digits ≠ []) (hdigits : Digits digits) :
      SpellsExponent (signedValue negative digits) (mark :: (sign ++ digits))

inductive SpellsMagnitude : Magnitude → List Char → Prop
  | infinity : SpellsMagnitude .infinity infinityWord
  | decimal {whole fraction mantissa text : List Char} {exponent : Int}
      (hmantissa : SpellsMantissa whole fraction mantissa)
      (hexponent : SpellsExponent exponent text) :
      SpellsMagnitude (.decimal whole fraction exponent) (mantissa ++ text)

/-- The text of a literal. -/
inductive Literal.Spells : Literal → List Char → Prop
  | intro {negative : Bool} {magnitude : Magnitude} {sign text : List Char}
      (hsign : SpellsSign negative sign)
      (hmagnitude : SpellsMagnitude magnitude text) :
      Literal.Spells ⟨negative, magnitude⟩ (sign ++ text)

/-! ## What a scan takes is spelled -/

theorem digits_takeWhile (text : List Char) :
    Digits (text.takeWhile isDigit) :=
  List.all_eq_true.mp List.all_takeWhile

theorem exists_sign (text : List Char) :
    ∃ sign, text = sign ++ (scanSign text).2 ∧
      SpellsSign (scanSign text).1 sign := by
  fun_cases scanSign text with
  | case1 rest => exact ⟨['-'], rfl, .minus⟩
  | case2 rest => exact ⟨['+'], rfl, .plus⟩
  | case3 => exact ⟨[], rfl, .absent⟩

theorem scanExponent_of_mark {mark : Char} (hmark : mark = 'e' ∨ mark = 'E')
    (after : List Char) :
    scanExponent (mark :: after) =
      if ((scanSign after).2.takeWhile isDigit).isEmpty then (0, mark :: after)
      else (signedValue (scanSign after).1
          ((scanSign after).2.takeWhile isDigit),
        (scanSign after).2.dropWhile isDigit) := by
  rw [scanExponent]
  dsimp only
  rw [if_pos hmark]
  rfl

theorem scanExponent_of_not_mark {text : List Char}
    (h : ∀ c ∈ text.head?, ¬(c = 'e' ∨ c = 'E')) :
    scanExponent text = (0, text) := by
  cases text with
  | nil => rfl
  | cons c text =>
      rw [scanExponent]
      exact if_neg (h c rfl)

theorem exists_exponent (text : List Char) :
    ∃ front, text = front ++ (scanExponent text).2 ∧
      SpellsExponent (scanExponent text).1 front := by
  by_cases hmark : ∃ mark after, text = mark :: after ∧ (mark = 'e' ∨ mark = 'E')
  · obtain ⟨mark, after, rfl, hmark⟩ := hmark
    rw [scanExponent_of_mark hmark]
    split_ifs with hnone
    · exact ⟨[], rfl, .absent⟩
    · obtain ⟨sign, hsign, hspells⟩ := exists_sign after
      rw [List.isEmpty_iff] at hnone
      refine ⟨_, ?_, .marked hmark hspells hnone (digits_takeWhile _)⟩
      rw [List.cons_append, List.append_assoc,
        List.takeWhile_append_dropWhile, ← hsign]
  · rw [scanExponent_of_not_mark]
    · exact ⟨[], rfl, .absent⟩
    · intro c hc hmark'
      obtain ⟨after, rfl⟩ := List.head?_eq_some_iff.mp hc
      exact hmark ⟨c, after, rfl, hmark'⟩

theorem scanMantissa?_of_point {text rest : List Char}
    (h : text.dropWhile isDigit = '.' :: rest) :
    scanMantissa? text =
      if text.takeWhile isDigit = [] ∧ rest.takeWhile isDigit = [] then none
      else some (text.takeWhile isDigit, rest.takeWhile isDigit,
        rest.dropWhile isDigit) := by
  rw [scanMantissa?, h]
  cases text.takeWhile isDigit with
  | nil => simp
  | cons c whole => rfl

theorem scanMantissa?_of_no_point {text : List Char}
    (h : ¬∃ rest, text.dropWhile isDigit = '.' :: rest) :
    scanMantissa? text =
      if text.takeWhile isDigit = [] then none
      else some (text.takeWhile isDigit, [], text.dropWhile isDigit) := by
  rw [scanMantissa?]
  cases hafter : text.dropWhile isDigit with
  | nil => cases text.takeWhile isDigit <;> rfl
  | cons c after =>
      have hc : c ≠ '.' := by
        rintro rfl
        exact h ⟨after, hafter⟩
      cases text.takeWhile isDigit <;> simp [hc]

theorem exists_mantissa {text whole fraction rest : List Char}
    (h : scanMantissa? text = some (whole, fraction, rest)) :
    ∃ front, text = front ++ rest ∧ SpellsMantissa whole fraction front := by
  have htext := List.takeWhile_append_dropWhile (p := isDigit) (l := text)
  have hdigits := digits_takeWhile text
  by_cases hpoint : ∃ rest, text.dropWhile isDigit = '.' :: rest
  · obtain ⟨rest, hrest⟩ := hpoint
    rw [scanMantissa?_of_point hrest] at h
    rw [hrest] at htext
    split_ifs at h with hnone
    cases h
    have hrest := List.takeWhile_append_dropWhile (p := isDigit) (l := rest)
    by_cases hwhole : text.takeWhile isDigit = []
    · rw [hwhole] at htext ⊢
      refine ⟨_, ?_, .fraction (fun hfraction => hnone ⟨hwhole, hfraction⟩)
        (digits_takeWhile rest)⟩
      rw [List.cons_append, hrest]
      exact htext.symm
    · refine ⟨_, ?_, .pointed hwhole hdigits (digits_takeWhile rest)⟩
      rw [List.append_assoc, List.cons_append, hrest]
      exact htext.symm
  · rw [scanMantissa?_of_no_point hpoint] at h
    split_ifs at h with hwhole
    cases h
    exact ⟨_, htext.symm, .whole hwhole hdigits⟩

theorem exists_magnitude {text rest : List Char} {magnitude : Magnitude}
    (h : scanMagnitude? text = some (magnitude, rest)) :
    ∃ front, text = front ++ rest ∧ SpellsMagnitude magnitude front := by
  rw [scanMagnitude?] at h
  split_ifs at h with hinfinity
  · cases h
    rw [List.isPrefixOf_iff_prefix] at hinfinity
    obtain ⟨rest, rfl⟩ := hinfinity
    exact ⟨infinityWord, by rw [List.drop_left], .infinity⟩
  · rw [Option.map_eq_some_iff] at h
    obtain ⟨⟨whole, fraction, tail⟩, hscan, h⟩ := h
    cases h
    obtain ⟨mantissa, rfl, hmantissa⟩ := exists_mantissa hscan
    obtain ⟨exponent, htail, hexponent⟩ := exists_exponent tail
    refine ⟨_, ?_, .decimal hmantissa hexponent⟩
    rw [List.append_assoc]
    exact congrArg (mantissa ++ ·) htail

/-- A scan takes a literal off the text. -/
theorem exists_literal {text rest : List Char} {literal : Literal}
    (h : Literal.scan? text = some (literal, rest)) :
    ∃ front, text = front ++ rest ∧ literal.Spells front := by
  rw [Literal.scan?, Option.map_eq_some_iff] at h
  obtain ⟨⟨magnitude, rest⟩, hmagnitude, h⟩ := h
  cases h
  obtain ⟨sign, htext, hsign⟩ := exists_sign text
  obtain ⟨front, hfront, hmagnitude⟩ := exists_magnitude hmagnitude
  refine ⟨_, ?_, .intro hsign hmagnitude⟩
  rw [List.append_assoc, ← hfront, ← htext]

/-! ## Nothing longer is spelled -/

/-- The text goes on with nothing that a literal could take. -/
def Stops (rest : List Char) : Prop :=
  ∀ c ∈ rest.head?, isDigit c = false ∧ c ≠ '.' ∧ c ≠ 'e' ∧ c ≠ 'E'

theorem scanSign_append {negative : Bool} {sign rest : List Char}
    (hsign : SpellsSign negative sign)
    (hrest : ∀ c ∈ rest.head?, c ≠ '+' ∧ c ≠ '-') :
    scanSign (sign ++ rest) = (negative, rest) := by
  cases hsign with
  | plus => rfl
  | minus => rfl
  | absent =>
      rw [List.nil_append]
      fun_cases scanSign rest with
      | case1 after => exact absurd rfl (hrest '-' rfl).2
      | case2 after => exact absurd rfl (hrest '+' rfl).1
      | case3 => rfl

theorem takeWhile_append {front : List Char} (hfront : Digits front)
    (back : List Char) :
    (front ++ back).takeWhile isDigit = front ++ back.takeWhile isDigit ∧
      (front ++ back).dropWhile isDigit = back.dropWhile isDigit :=
  ⟨List.takeWhile_append_of_pos hfront, List.dropWhile_append_of_pos hfront⟩

theorem head_of_digits {digits : List Char} (hdigits : Digits digits)
    (hne : digits ≠ []) (rest : List Char) :
    ∀ c ∈ (digits ++ rest).head?, isDigit c = true := by
  obtain ⟨c, digits, rfl⟩ := List.exists_cons_of_ne_nil hne
  rintro _ ⟨⟩
  exact hdigits c List.mem_cons_self

/-- An exponent is taken with all the digits that follow it. -/
theorem scanExponent_append {exponent : Int} {text : List Char}
    (htext : SpellsExponent exponent text) (rest : List Char) :
    (scanExponent (text ++ rest)).2.length ≤ rest.length ∧
      (Stops rest → scanExponent (text ++ rest) = (exponent, rest)) := by
  cases htext with
  | absent =>
      obtain ⟨front, hfront, -⟩ := exists_exponent rest
      refine ⟨?_, fun hstops => scanExponent_of_not_mark ?_⟩
      · have hlength := congrArg List.length hfront
        rw [List.length_append] at hlength
        rw [List.nil_append]
        omega
      · exact fun c hc => not_or.mpr (hstops c hc).2.2
  | @marked mark negative sign digits hmark hsign hne hdigits =>
      have hhead : ∀ c ∈ (digits ++ rest).head?, c ≠ '+' ∧ c ≠ '-' := by
        intro c hc
        have hdigit := head_of_digits hdigits hne rest c hc
        constructor <;> rintro rfl <;> exact absurd hdigit (by decide)
      obtain ⟨htake, hdrop⟩ := takeWhile_append hdigits rest
      have hsome : ¬(digits ++ rest.takeWhile isDigit).isEmpty = true := by
        simp [hne]
      rw [List.cons_append, List.append_assoc, scanExponent_of_mark hmark,
        scanSign_append hsign hhead]
      dsimp only
      rw [htake, hdrop, if_neg hsome]
      refine ⟨List.length_dropWhile_le _ _, fun hstops => ?_⟩
      obtain ⟨htake, hdrop⟩ := span_of_head fun c hc => (hstops c hc).1
      rw [htake, hdrop, List.append_nil]

/-- A mantissa is taken with all the digits that follow it, and a point that
may follow them. -/
theorem scanMantissa?_append {whole fraction mantissa : List Char}
    (hmantissa : SpellsMantissa whole fraction mantissa) (rest : List Char) :
    ∃ whole' fraction' rest',
      scanMantissa? (mantissa ++ rest) = some (whole', fraction', rest') ∧
        rest'.length ≤ rest.length ∧
        ((∀ c ∈ rest.head?, isDigit c = false ∧ c ≠ '.') →
          whole' = whole ∧ fraction' = fraction ∧ rest' = rest) := by
  have hpoint : isDigit '.' = false := by decide
  have hshort := List.length_dropWhile_le isDigit rest
  have hspan (hstops : ∀ c ∈ rest.head?, isDigit c = false ∧ c ≠ '.') :
      rest.takeWhile isDigit = [] ∧ rest.dropWhile isDigit = rest :=
    span_of_head fun c hc => (hstops c hc).1
  cases hmantissa with
  | whole hne hwhole =>
      obtain ⟨htake, hdrop⟩ := takeWhile_append hwhole rest
      by_cases hafter : ∃ after, rest.dropWhile isDigit = '.' :: after
      · obtain ⟨after, hafter⟩ := hafter
        rw [scanMantissa?_of_point (hdrop.trans hafter), htake,
          if_neg (by simp [hne])]
        refine ⟨_, _, _, rfl, ?_, fun hstops => ?_⟩
        · have hshort' := List.length_dropWhile_le isDigit after
          rw [hafter, List.length_cons] at hshort
          omega
        · rw [(hspan hstops).2] at hafter
          rw [hafter] at hstops
          exact absurd rfl (hstops '.' rfl).2
      · rw [scanMantissa?_of_no_point (by rwa [hdrop]), htake, hdrop,
          if_neg (by simp [hne])]
        refine ⟨_, _, _, rfl, hshort, fun hstops => ?_⟩
        rw [(hspan hstops).1, (hspan hstops).2, List.append_nil]
        exact ⟨rfl, rfl, rfl⟩
  | pointed hne hwhole hfraction =>
      obtain ⟨htake, hdrop⟩ := takeWhile_append hwhole ('.' :: (fraction ++ rest))
      rw [List.takeWhile_cons_of_neg (by simp [hpoint]), List.append_nil] at htake
      rw [List.dropWhile_cons_of_neg (by simp [hpoint])] at hdrop
      obtain ⟨htake', hdrop'⟩ := takeWhile_append hfraction rest
      rw [List.append_assoc, List.cons_append, scanMantissa?_of_point hdrop,
        htake, if_neg (by simp [hne]), htake', hdrop']
      refine ⟨_, _, _, rfl, hshort, fun hstops => ?_⟩
      rw [(hspan hstops).1, (hspan hstops).2, List.append_nil]
      exact ⟨rfl, rfl, rfl⟩
  | fraction hne hfraction =>
      obtain ⟨htake, hdrop⟩ := takeWhile_append hfraction rest
      have hstart : ('.' :: (fraction ++ rest)).dropWhile isDigit =
          '.' :: (fraction ++ rest) :=
        List.dropWhile_cons_of_neg (by simp [hpoint])
      rw [List.cons_append, scanMantissa?_of_point hstart,
        List.takeWhile_cons_of_neg (by simp [hpoint]), htake, hdrop,
        if_neg (by simp [hne])]
      refine ⟨_, _, _, rfl, hshort, fun hstops => ?_⟩
      rw [(hspan hstops).1, (hspan hstops).2, List.append_nil]
      exact ⟨rfl, rfl, rfl⟩

theorem head_of_mantissa {whole fraction mantissa : List Char}
    (h : SpellsMantissa whole fraction mantissa) :
    ∃ c rest, mantissa = c :: rest ∧ (isDigit c = true ∨ c = '.') := by
  cases h with
  | whole hne hwhole =>
      obtain ⟨c, rest, rfl⟩ := List.exists_cons_of_ne_nil hne
      exact ⟨c, rest, rfl, .inl (hwhole c List.mem_cons_self)⟩
  | pointed hne hwhole =>
      obtain ⟨c, rest, rfl⟩ := List.exists_cons_of_ne_nil hne
      exact ⟨c, _, rfl, .inl (hwhole c List.mem_cons_self)⟩
  | fraction => exact ⟨_, _, rfl, .inr rfl⟩

theorem head_of_magnitude {magnitude : Magnitude} {text : List Char}
    (h : SpellsMagnitude magnitude text) :
    ∃ c rest, text = c :: rest ∧ (isDigit c = true ∨ c = '.' ∨ c = 'I') := by
  cases h with
  | infinity => exact ⟨'I', "nfinity".toList, rfl, .inr (.inr rfl)⟩
  | decimal hmantissa =>
      obtain ⟨c, rest, rfl, hc⟩ := head_of_mantissa hmantissa
      exact ⟨c, _, rfl, hc.imp_right .inl⟩

theorem scanMagnitude?_append {magnitude : Magnitude} {text : List Char}
    (h : SpellsMagnitude magnitude text) (rest : List Char) :
    ∃ magnitude' rest',
      scanMagnitude? (text ++ rest) = some (magnitude', rest') ∧
        rest'.length ≤ rest.length ∧
        (Stops rest → magnitude' = magnitude ∧ rest' = rest) := by
  cases h with
  | infinity =>
      have hprefix : infinityWord.isPrefixOf (infinityWord ++ rest) = true :=
        List.isPrefixOf_iff_prefix.mpr (List.prefix_append _ _)
      rw [scanMagnitude?, if_pos hprefix, List.drop_left]
      exact ⟨_, _, rfl, le_rfl, fun _ => ⟨rfl, rfl⟩⟩
  | @decimal whole fraction mantissa text exponent hmantissa hexponent =>
      have hword : ¬infinityWord.isPrefixOf (mantissa ++ text ++ rest) = true := by
        obtain ⟨c, after, rfl, hc⟩ := head_of_mantissa hmantissa
        rw [List.isPrefixOf_iff_prefix]
        rintro ⟨more, hmore⟩
        obtain rfl : 'I' = c := (List.cons.inj hmore).1
        revert hc
        decide
      rw [scanMagnitude?, if_neg hword, List.append_assoc]
      obtain ⟨whole', fraction', tail, hscan, htail, hstops⟩ :=
        scanMantissa?_append hmantissa (text ++ rest)
      rw [hscan]
      dsimp only [Option.map_some]
      have hexponents := scanExponent_append hexponent rest
      refine ⟨_, _, rfl, ?_⟩
      rcases hexponent with _ | ⟨hmark, hsign, hne, hdigits⟩
      · -- all that follows the digits is left to be scanned for an exponent
        obtain ⟨front, hfront, -⟩ := exists_exponent tail
        have hlength := congrArg List.length hfront
        rw [List.length_append] at hlength
        rw [List.nil_append] at htail hstops hexponents
        refine ⟨by omega, fun hrest => ?_⟩
        obtain ⟨rfl, rfl, rfl⟩ := hstops fun c hc =>
          ⟨(hrest c hc).1, (hrest c hc).2.1⟩
        rw [hexponents.2 hrest]
        exact ⟨rfl, rfl⟩
      · -- the mark of the exponent ends the mantissa
        rename_i mark negative sign digits
        obtain ⟨rfl, rfl, rfl⟩ := hstops (by
          rintro c ⟨⟩
          rcases hmark with rfl | rfl <;> decide)
        refine ⟨hexponents.1, fun hrest => ?_⟩
        rw [hexponents.2 hrest]
        exact ⟨rfl, rfl⟩

/-- A spelled literal is found, and what is left is no longer than what
follows it. -/
theorem scan?_append {literal : Literal} {text : List Char}
    (h : literal.Spells text) (rest : List Char) :
    ∃ literal' rest',
      Literal.scan? (text ++ rest) = some (literal', rest') ∧
        rest'.length ≤ rest.length ∧
        (Stops rest → literal' = literal ∧ rest' = rest) := by
  obtain ⟨hsign, hmagnitude⟩ := h
  rename_i negative magnitude sign text
  have hhead : ∀ c ∈ (text ++ rest).head?, c ≠ '+' ∧ c ≠ '-' := by
    obtain ⟨c, after, rfl, hc⟩ := head_of_magnitude hmagnitude
    rintro _ ⟨⟩
    constructor <;> rintro rfl <;> revert hc <;> decide
  obtain ⟨magnitude', rest', hscan, hlength, hstops⟩ :=
    scanMagnitude?_append hmagnitude rest
  rw [List.append_assoc, Literal.scan?, scanSign_append hsign hhead]
  dsimp only
  rw [hscan]
  refine ⟨_, _, rfl, hlength, fun hrest => ?_⟩
  obtain ⟨rfl, rfl⟩ := hstops hrest
  exact ⟨rfl, rfl⟩

/-- The whole of a spelled literal is scanned. -/
theorem scan?_of_spells {literal : Literal} {text : List Char}
    (h : literal.Spells text) : Literal.scan? text = some (literal, []) := by
  obtain ⟨literal', rest', hscan, -, hstops⟩ := scan?_append h []
  obtain ⟨rfl, rfl⟩ := hstops (by rintro _ ⟨⟩)
  rwa [List.append_nil] at hscan

/-- A text spells one literal at most. -/
theorem Literal.Spells.unique {literal literal' : Literal} {text : List Char}
    (h : literal.Spells text) (h' : literal'.Spells text) :
    literal = literal' := by
  have hscan := scan?_of_spells h
  rw [scan?_of_spells h'] at hscan
  cases hscan
  rfl

end NumberedBasic.Decimal
