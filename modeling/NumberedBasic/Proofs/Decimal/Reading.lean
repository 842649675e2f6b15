import NumberedBasic.Proofs.Decimal.Nearest
import NumberedBasic.Proofs.Decimal.Spelling

/-!
# The number that a text starts with

The number read from a text is that of the longest front of the text that
consists of blanks and a literal: the double that the literal rounds to.  A
text without such a front counts as zero, and so does a literal that is too
small for a double; nothing else does.
-/

namespace NumberedBasic.Decimal

open Double Text

/-- What a magnitude denotes, unless it is infinite. -/
def Magnitude.value? : Magnitude → Option ℚ
  | .infinity => none
  | .decimal whole fraction exponent =>
      some (numeralValue (whole ++ fraction) *
        10 ^ (exponent - fraction.length))

/-- `x` is the double nearest to the number that the literal denotes, and has
the sign of the literal. -/
def Literal.ReadAs (literal : Literal) (x : Float) : Prop :=
  ∃ y, x = (if literal.negative then -y else y) ∧
    match literal.magnitude.value? with
    | some v => RoundsTo v y
    | none => y = infinite

/-- The number that the literal denotes is too small for a double. -/
def Literal.Vanishes (literal : Literal) : Prop :=
  ∃ v, literal.magnitude.value? = some v ∧ v ≤ underflow

/-- A literal is read as the double that it rounds to. -/
theorem Literal.readAs_toFloat (literal : Literal) :
    literal.ReadAs literal.toFloat := by
  refine ⟨literal.magnitude.toFloat, rfl, ?_⟩
  cases literal.magnitude with
  | infinity => rfl
  | decimal whole fraction exponent => exact roundsTo_nearest _ _

theorem beq_neg_zero (x : Float) : (-x == 0) = (x == 0) := by
  change Float.Model.UnpackedFloat.beq (-x).toModel.unpack _ =
    Float.Model.UnpackedFloat.beq x.toModel.unpack _
  rw [unpack_neg]
  rcases x.toModel.unpack with (_ | _) | _ | (_ | _) | ⟨_ | _, _, _, _⟩ <;> rfl

theorem Literal.ReadAs.beq_zero_iff {literal : Literal} {x : Float}
    (h : literal.ReadAs x) : (x == 0) = true ↔ literal.Vanishes := by
  obtain ⟨y, hx, hy⟩ := h
  have hbeq : (x == 0) = (y == 0) := by
    rw [hx]
    split
    · exact beq_neg_zero y
    · rfl
  rw [hbeq, Literal.Vanishes]
  cases hvalue : literal.magnitude.value? with
  | none =>
      rw [hvalue] at hy
      rw [hy]
      exact iff_of_false (by decide) (by rintro ⟨_, ⟨⟩, _⟩)
  | some v =>
      rw [hvalue] at hy
      rw [RoundsTo.beq_zero_iff hy]
      constructor
      · exact fun hv => ⟨v, rfl, hv⟩
      · rintro ⟨_, ⟨⟩, hv⟩
        exact hv

/-! ## Blanks and a literal -/

/-- Blanks, and then a literal. -/
def Leads (literal : Literal) (front : List Char) : Prop :=
  ∃ blanks spelling, front = blanks ++ spelling ∧
    (∀ c ∈ blanks, isBlank c = true) ∧ literal.Spells spelling

/-- `front` is the longest front of a text that consists of blanks and a
literal. -/
structure LongestLead (text : List Char) (literal : Literal)
    (front : List Char) : Prop where
  starts : front <+: text
  leads : Leads literal front
  longest : ∀ literal' front', front' <+: text → Leads literal' front' →
    front'.length ≤ front.length

theorem head_of_spells {literal : Literal} {text : List Char}
    (h : literal.Spells text) (rest : List Char) :
    ∀ c ∈ (text ++ rest).head?, isBlank c = false := by
  obtain ⟨hsign, hmagnitude⟩ := h
  rcases hsign with _ | _ | _
  · obtain ⟨c, after, rfl, hc⟩ := head_of_magnitude hmagnitude
    rintro _ ⟨⟩
    rcases hc with hdigit | rfl | rfl
    · exact isBlank_eq_false_of_isDigit hdigit
    · decide
    · decide
  · rintro _ ⟨⟩
    decide
  · rintro _ ⟨⟩
    decide

/-- After a text is trimmed it starts with the literal that follows the
blanks. -/
theorem Leads.exists_trimLeft {literal : Literal} {front text : List Char}
    (h : Leads literal front) (hstarts : front <+: text) :
    ∃ blanks spelling rest, front = blanks ++ spelling ∧
      text = blanks ++ (spelling ++ rest) ∧ literal.Spells spelling ∧
      trimLeft text = spelling ++ rest := by
  obtain ⟨blanks, spelling, rfl, hblanks, hspells⟩ := h
  obtain ⟨rest, rfl⟩ := hstarts
  refine ⟨blanks, spelling, rest, rfl, List.append_assoc _ _ _, hspells, ?_⟩
  rw [List.append_assoc]
  exact trimLeft_of_stop hblanks (head_of_spells hspells rest)

theorem Leads.unique {literal literal' : Literal} {front : List Char}
    (h : Leads literal front) (h' : Leads literal' front) :
    literal = literal' := by
  obtain ⟨blanks, spelling, rest, hfront, htext, hspells, htrim⟩ :=
    h.exists_trimLeft List.prefix_rfl
  obtain ⟨blanks', spelling', rest', hfront', htext', hspells', htrim'⟩ :=
    h'.exists_trimLeft List.prefix_rfl
  have hnone : rest = [] := by
    have hlength := congrArg List.length (hfront.symm.trans htext)
    simpa using hlength
  have hnone' : rest' = [] := by
    have hlength := congrArg List.length (hfront'.symm.trans htext')
    simpa using hlength
  rw [htrim, hnone, hnone', List.append_nil, List.append_nil] at htrim'
  rw [htrim'] at hspells
  exact hspells.unique hspells'

theorem LongestLead.unique {text front front' : List Char}
    {literal literal' : Literal} (h : LongestLead text literal front)
    (h' : LongestLead text literal' front') :
    front = front' ∧ literal = literal' := by
  have hlength : front.length = front'.length :=
    Nat.le_antisymm (h'.longest _ _ h.starts h.leads)
      (h.longest _ _ h'.starts h'.leads)
  have hfront : front = front' := by
    rw [List.prefix_iff_eq_take.mp h.starts,
      List.prefix_iff_eq_take.mp h'.starts, hlength]
  subst hfront
  exact ⟨rfl, h.leads.unique h'.leads⟩

/-- What a scan finds is the longest lead. -/
theorem longestLead_of_scan {text rest : List Char} {literal : Literal}
    (h : Literal.scan? (trimLeft text) = some (literal, rest)) :
    ∃ front, LongestLead text literal front := by
  obtain ⟨spelling, htrim, hspells⟩ := exists_literal h
  have htext := trimLeft_append_dropped text
  rw [htrim] at htext
  refine ⟨text.takeWhile isBlank ++ spelling, ⟨rest, ?_⟩,
    ⟨_, _, rfl, List.all_eq_true.mp List.all_takeWhile, hspells⟩, ?_⟩
  · rw [List.append_assoc, htext]
  · intro literal' front' hstarts hleads
    obtain ⟨blanks, spelling', rest', rfl, htext', hspells', htrim'⟩ :=
      hleads.exists_trimLeft hstarts
    obtain ⟨found, left, hscan, hlength, -⟩ := scan?_append hspells' rest'
    rw [← htrim', h] at hscan
    cases hscan
    have htotal := congrArg List.length (htext.trans htext')
    simp only [List.length_append] at htotal ⊢
    omega

theorem not_leads_of_scan {text front : List Char} {literal : Literal}
    (h : Literal.scan? (trimLeft text) = none) (hstarts : front <+: text) :
    ¬Leads literal front := by
  intro hleads
  obtain ⟨blanks, spelling, rest, -, -, hspells, htrim⟩ :=
    hleads.exists_trimLeft hstarts
  obtain ⟨found, left, hscan, -⟩ := scan?_append hspells rest
  rw [← htrim, h] at hscan
  cases hscan

/-- The number that a text starts with is what the longest front of blanks and
a literal is read as, and zero if there is none.  It is zero in no other case
than this and that of a literal which is too small for a double. -/
theorem leadingNumber_longest (text : List Char) :
    ((∃ literal front, LongestLead text literal front ∧
          leadingNumber text = literal.toFloat ∧
          literal.ReadAs (leadingNumber text)) ∨
        (¬∃ literal front, front <+: text ∧ Leads literal front) ∧
          leadingNumber text = 0) ∧
      ((leadingNumber text == 0) = true ↔
        (¬∃ literal front, front <+: text ∧ Leads literal front) ∨
          ∃ literal front, LongestLead text literal front ∧
            literal.Vanishes) := by
  rw [leadingNumber]
  cases hscan : Literal.scan? (trimLeft text) with
  | none =>
      have hnone : ¬∃ literal front, front <+: text ∧ Leads literal front :=
        fun ⟨_, _, hstarts, hleads⟩ => not_leads_of_scan hscan hstarts hleads
      exact ⟨.inr ⟨hnone, rfl⟩, iff_of_true (by decide) (.inl hnone)⟩
  | some found =>
      obtain ⟨literal, rest⟩ := found
      obtain ⟨front, hlongest⟩ := longestLead_of_scan hscan
      have hread := literal.readAs_toFloat
      refine ⟨.inl ⟨literal, front, hlongest, rfl, hread⟩, ?_⟩
      dsimp only
      rw [hread.beq_zero_iff]
      constructor
      · exact fun hvanishes => .inr ⟨literal, front, hlongest, hvanishes⟩
      · rintro (hnone | ⟨literal', front', hlongest', hvanishes⟩)
        · exact absurd ⟨literal, front, hlongest.starts, hlongest.leads⟩ hnone
        · obtain ⟨-, rfl⟩ := hlongest.unique hlongest'
          exact hvanishes

end NumberedBasic.Decimal
