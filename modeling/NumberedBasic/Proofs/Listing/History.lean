import Mathlib.Data.List.Induction
import NumberedBasic.Proofs.History
import NumberedBasic.Proofs.Listing.Overlong

/-!
# What a listing holds after its edits

After any sequence of texts stored and programs erased, the listing holds for
each number the code that was stored under it last, in ascending order of the
numbers.  A number that was last stored without code has no line.  Texts that
are not stored leave no trace.
-/

namespace NumberedBasic

namespace Listing

/-! ## Numbered texts -/

/-- The text is a number and its code: blanks, the digits of the number, then
the code with any blanks around it. -/
inductive Numbers : String → ℕ → String → Prop where
  | intro {text code : String} {margin digits rest : List Char}
      (htext : text.toList = margin ++ digits ++ rest)
      (hmargin : ∀ c ∈ margin, Text.isBlank c = true)
      (hdigits : ∀ c ∈ digits, Text.isDigit c = true) (hnonempty : digits ≠ [])
      (hshort : digits.length ≤ Text.longestNumeral)
      (hrest : ∀ c ∈ rest.head?, Text.isDigit c = false)
      (hcode : Text.Trimmed rest code.toList) :
      Numbers text (Text.numeralValue digits) code

/-- The digits after the blanks are what the text is split at. -/
theorem splitNumber_eq {text : String} {margin digits rest : List Char}
    (htext : text.toList = margin ++ digits ++ rest)
    (hmargin : ∀ c ∈ margin, Text.isBlank c = true)
    (hdigits : ∀ c ∈ digits, Text.isDigit c = true) (hnonempty : digits ≠ [])
    (hrest : ∀ c ∈ rest.head?, Text.isDigit c = false) :
    splitNumber text = (digits, rest) := by
  have hstop : ∀ c ∈ (digits ++ rest).head?, Text.isBlank c = false := by
    intro c hc
    rw [List.head?_append_of_ne_nil _ hnonempty] at hc
    exact Text.isBlank_eq_false_of_isDigit
      (hdigits c (List.mem_of_mem_head? hc))
  obtain ⟨htaken, hdropped⟩ := Text.span_of_stop hdigits hrest
  rw [splitNumber, htext, List.append_assoc, Text.trimLeft_of_stop hmargin hstop,
    htaken, hdropped]

/-- A text is taken for a numbered one exactly if it is written as one. -/
theorem numbered_eq_ok_iff {text code : String} {number : ℕ} :
    numbered text = .ok (number, code) ↔ Numbers text number code := by
  constructor
  · intro hnumbered
    rcases numbered_cases text with ⟨-, hcase⟩ | ⟨hnonempty, hcase⟩
    · rw [hcase] at hnumbered
      cases hnumbered
    · split at hcase
      next hshort =>
        obtain ⟨rfl, rfl⟩ := Prod.mk.inj
          (Except.ok.inj (hcase.symm.trans hnumbered))
        have htext : text.toList = text.toList.takeWhile Text.isBlank ++
            (splitNumber text).1 ++ (splitNumber text).2 := by
          rw [List.append_assoc, splitNumber, List.takeWhile_append_dropWhile,
            Text.trimLeft_append_dropped]
        refine .intro htext (List.all_eq_true.mp List.all_takeWhile)
          (List.all_eq_true.mp List.all_takeWhile) hnonempty hshort
          (Text.head_dropWhile _ _) ?_
        rw [String.toList_ofList]
        exact Text.trim_eq_iff.mp rfl
      next =>
        rw [hcase] at hnumbered
        cases hnumbered
  · rintro ⟨htext, hmargin, hdigits, hnonempty, hshort, hrest, hcode⟩
    have hsplit := splitNumber_eq htext hmargin hdigits hnonempty hrest
    have hcase := (numbered_cases text).resolve_left
      fun hempty => hnonempty ((congrArg Prod.fst hsplit).symm.trans hempty.1)
    rw [hsplit, if_pos hshort, Text.trim_eq_iff.mpr hcode,
      String.ofList_toList] at hcase
    exact hcase.2

/-! ## Edits -/

/-- What can be done to the stored program. -/
inductive Edit where
  | store (text : String)
  | erase

/-- The listing after an edit; a text that is not stored leaves it as it
was. -/
def edit (listing : Listing) : Edit → Listing
  | .store text =>
      match listing.store text with
      | .ok changed => changed
      | .error _ => listing
  | .erase => .empty

/-- The listing after a sequence of edits, nothing having been stored
before. -/
def after (edits : List Edit) : Listing := edits.foldl edit .empty

theorem after_concat (edits : List Edit) (latest : Edit) :
    after (edits ++ [latest]) = (after edits).edit latest := by
  rw [after, after, List.foldl_append, List.foldl_cons, List.foldl_nil]

/-- The edit stores code under the number, be it none. -/
def Edit.Stores (number : ℕ) (code : String) : Edit → Prop
  | .store text => Numbers text number code
  | .erase => False

/-- The edit settles what is held under the number. -/
def Edit.Overrides (number : ℕ) (edit : Edit) : Prop :=
  edit = .erase ∨ ∃ code, edit.Stores number code

/-- The edit settles which number was stored last. -/
def Edit.Renews (edit : Edit) : Prop :=
  edit = .erase ∨ ∃ number code, edit.Stores number code

/-- The code was the last to be stored under the number since the program was
last erased. -/
def LastCode (edits : List Edit) (number : ℕ) (code : String) : Prop :=
  ∃ edit, edit.Stores number code ∧ LastEvent edits edit (·.Overrides number)

/-- The number was the last to be stored under since the program was last
erased. -/
def LastNumber (edits : List Edit) (number : ℕ) : Prop :=
  ∃ edit code, edit.Stores number code ∧ LastEvent edits edit (·.Renews)

section Histories

variable {edits : List Edit} {number : ℕ} {code : String}

theorem lastCode_concat_iff (latest : Edit) :
    LastCode (edits ++ [latest]) number code ↔
      latest.Stores number code ∨
        ¬latest.Overrides number ∧ LastCode edits number code := by
  simp only [LastCode, lastEvent_concat_iff, and_or_left, exists_or,
    exists_eq_right', and_left_comm (b := ¬_), exists_and_left]

theorem lastNumber_concat_iff (latest : Edit) :
    LastNumber (edits ++ [latest]) number ↔
      (∃ code, latest.Stores number code) ∨
        ¬latest.Renews ∧ LastNumber edits number := by
  simp only [LastNumber, lastEvent_concat_iff, and_or_left, exists_or,
    and_left_comm (b := ¬_), exists_and_left]
  rw [exists_comm]
  simp only [exists_eq_right']

end Histories

/-! ## One edit -/

theorem mem_insertLine_iff {number : ℕ} {code : String} {line : ℕ × String}
    {lines : List (ℕ × String)} (hlines : lines.Pairwise (·.1 < ·.1)) :
    line ∈ insertLine number code lines ↔
      line = (number, code) ∨ line.1 ≠ number ∧ line ∈ lines := by
  induction lines with
  | nil => simp [insertLine]
  | cons other rest ih =>
      obtain ⟨hother, hrest⟩ := List.pairwise_cons.mp hlines
      rw [insertLine]
      split
      next hbefore =>
        have hapart : ∀ line ∈ other :: rest, line.1 ≠ number := by
          intro line hline
          rcases List.mem_cons.mp hline with rfl | hbehind
          · exact Nat.ne_of_gt hbefore
          · exact Nat.ne_of_gt (Nat.lt_trans hbefore (hother line hbehind))
        rw [List.mem_cons]
        exact or_congr_right ⟨fun hline => ⟨hapart line hline, hline⟩, And.right⟩
      next hnotBefore =>
        split
        next hsame =>
          have hapart : ∀ line ∈ rest, line.1 ≠ number := fun line hline =>
            hsame ▸ Nat.ne_of_gt (hother line hline)
          rw [List.mem_cons, List.mem_cons]
          refine or_congr_right ⟨fun hline => ⟨hapart line hline, .inr hline⟩, ?_⟩
          rintro ⟨hnumber, rfl | hline⟩
          · exact absurd hsame.symm hnumber
          · exact hline
        next hdifferent =>
          have hother : line = other → line.1 ≠ number := by
            rintro rfl
            exact Ne.symm hdifferent
          rw [List.mem_cons, ih hrest, List.mem_cons, and_or_left,
            and_iff_right_of_imp hother, or_left_comm]

/-- Storing under a number changes what is held under it and nothing else. -/
theorem mem_put_iff {listing : Listing}
    (hascending : listing.lines.Pairwise (·.1 < ·.1)) {number other : ℕ}
    {code code' : String} :
    (other, code') ∈ (listing.put number code).lines ↔
      other = number ∧ code' = code ∧ code' ≠ "" ∨
        other ≠ number ∧ (other, code') ∈ listing.lines := by
  unfold put
  dsimp only
  split
  next hempty =>
    obtain rfl : code = "" := String.isEmpty_iff.mp hempty
    simp [and_comm]
  next hcode =>
    have hnonempty : code ≠ "" := fun hempty => hcode (String.isEmpty_iff.mpr hempty)
    rw [mem_insertLine_iff hascending, Prod.mk.injEq]
    refine or_congr_left ⟨?_, fun hsame => ⟨hsame.1, hsame.2.1⟩⟩
    rintro ⟨rfl, rfl⟩
    exact ⟨rfl, rfl, hnonempty⟩

theorem ascending_put {listing : Listing}
    (hascending : listing.lines.Pairwise (·.1 < ·.1)) (number : ℕ)
    (code : String) :
    (listing.put number code).lines.Pairwise (·.1 < ·.1) := by
  unfold put
  dsimp only
  split
  · exact hascending.filter _
  · exact ascending_insertLine hascending

/-! ## The listing tells what the edits say -/

/-- The listing holds what its history says. -/
structure Reflects (edits : List Edit) (listing : Listing) : Prop where
  ascending : listing.lines.Pairwise (·.1 < ·.1)
  lines : ∀ number code, (number, code) ∈ listing.lines ↔
    code ≠ "" ∧ LastCode edits number code
  lastStored : ∀ number,
    listing.lastStored = some number ↔ LastNumber edits number

theorem reflects_nil : Reflects [] .empty where
  ascending := List.Pairwise.nil
  lines number code := by
    refine iff_of_false List.not_mem_nil ?_
    rintro ⟨-, edit, -, hlast⟩
    exact not_lastEvent_nil hlast
  lastStored number := by
    refine iff_of_false nofun ?_
    rintro ⟨edit, code, -, hlast⟩
    exact not_lastEvent_nil hlast

theorem reflects_erase (edits : List Edit) : Reflects (edits ++ [.erase]) .empty where
  ascending := List.Pairwise.nil
  lines number code := by
    refine iff_of_false List.not_mem_nil ?_
    rw [lastCode_concat_iff]
    rintro ⟨-, hstores | ⟨hkept, -⟩⟩
    · exact hstores
    · exact hkept (Or.inl rfl)
  lastStored number := by
    refine iff_of_false nofun ?_
    rw [lastNumber_concat_iff]
    rintro (⟨code, hstores⟩ | ⟨hkept, -⟩)
    · exact hstores
    · exact hkept (Or.inl rfl)

section Steps

variable {edits : List Edit} {listing : Listing} {text code : String} {number : ℕ}

theorem Numbers.unique {other : ℕ} {code' : String}
    (hnumbers : Numbers text number code) (hother : Numbers text other code') :
    other = number ∧ code' = code := by
  rw [← numbered_eq_ok_iff] at hnumbers hother
  exact Prod.mk.inj (Except.ok.inj (hother.symm.trans hnumbers))

theorem overrides_store_iff {other : ℕ} (hnumbers : Numbers text number code) :
    (Edit.store text).Overrides other ↔ other = number := by
  constructor
  · rintro (herase | ⟨code', hstores⟩)
    · cases herase
    · exact (hnumbers.unique hstores).1
  · rintro rfl
    exact Or.inr ⟨code, hnumbers⟩

theorem Reflects.store (hreflects : Reflects edits listing)
    (hnumbers : Numbers text number code) :
    Reflects (edits ++ [.store text]) (listing.put number code) where
  ascending := ascending_put hreflects.ascending number code
  lines other code' := by
    have hstores : (Edit.store text).Stores other code' ↔
        other = number ∧ code' = code := by
      refine ⟨fun hstores => hnumbers.unique hstores, ?_⟩
      rintro ⟨rfl, rfl⟩
      exact hnumbers
    rw [mem_put_iff hreflects.ascending, hreflects.lines, lastCode_concat_iff,
      hstores, overrides_store_iff hnumbers, and_or_left]
    refine or_congr ?_ and_left_comm
    rw [← and_assoc, and_comm]
  lastStored other := by
    rw [lastNumber_concat_iff]
    change some number = some other ↔ _
    rw [Option.some.injEq, or_iff_left]
    · refine ⟨?_, fun ⟨code', hstores⟩ => (hnumbers.unique hstores).1.symm⟩
      rintro rfl
      exact ⟨code, hnumbers⟩
    · rintro ⟨hkept, -⟩
      exact hkept (Or.inr ⟨number, code, hnumbers⟩)

/-- A text that names no number changes nothing. -/
theorem Reflects.unnumbered (hreflects : Reflects edits listing)
    (hnumbers : ¬∃ number code, Numbers text number code) :
    Reflects (edits ++ [.store text]) listing where
  ascending := hreflects.ascending
  lines number code := by
    have hstores : ¬(Edit.store text).Stores number code :=
      fun hstores => hnumbers ⟨number, code, hstores⟩
    have hoverrides : ¬(Edit.store text).Overrides number := by
      rintro (herase | ⟨code', hstores⟩)
      · cases herase
      · exact hnumbers ⟨number, code', hstores⟩
    rw [hreflects.lines, lastCode_concat_iff, or_iff_right hstores,
      and_iff_right hoverrides]
  lastStored number := by
    have hstores : ¬∃ code, (Edit.store text).Stores number code :=
      fun ⟨code, hstores⟩ => hnumbers ⟨number, code, hstores⟩
    have hrenews : ¬(Edit.store text).Renews := by
      rintro (herase | hstores)
      · cases herase
      · exact hnumbers hstores
    rw [hreflects.lastStored, lastNumber_concat_iff, or_iff_right hstores,
      and_iff_right hrenews]

end Steps

/-- A text is stored exactly if it is a number with its code. -/
theorem store_eq_ok_iff {listing changed : Listing} {text : String} :
    listing.store text = .ok changed ↔
      ∃ number code, Numbers text number code ∧
        listing.put number code = changed := by
  rw [store]
  cases hnumbered : numbered text with
  | ok line =>
      obtain ⟨number, code⟩ := line
      have hnumbers := numbered_eq_ok_iff.mp hnumbered
      constructor
      · intro hstored
        exact ⟨number, code, hnumbers, Except.ok.inj hstored⟩
      · rintro ⟨other, code', hother, rfl⟩
        obtain ⟨rfl, rfl⟩ := hnumbers.unique hother
        rfl
  | error failure =>
      constructor
      · intro hstored
        cases hstored
      · rintro ⟨number, code, hnumbers, -⟩
        rw [numbered_eq_ok_iff.mpr hnumbers] at hnumbered
        cases hnumbered

theorem reflects_after (edits : List Edit) : Reflects edits (after edits) := by
  induction edits using List.reverseRecOn with
  | nil => exact reflects_nil
  | append_singleton edits latest ih =>
      rw [after_concat]
      cases latest with
      | erase => exact reflects_erase edits
      | store text =>
          rw [edit]
          cases hstore : (after edits).store text with
          | ok changed =>
              obtain ⟨number, code, hnumbers, rfl⟩ := store_eq_ok_iff.mp hstore
              exact ih.store hnumbers
          | error failure =>
              apply ih.unnumbered
              rintro ⟨number, code, hnumbers⟩
              rw [store_eq_ok_iff.mpr ⟨number, code, hnumbers, rfl⟩] at hstore
              cases hstore

/-- After any edits the listing has, in strictly ascending order of the
numbers, one line for each number whose last code since the program was last
erased is not empty.  A part of the listing is the lines with the numbers asked
for, and a text that is not stored, which is one that is no number with code,
changes nothing. -/
theorem list_after (edits : List Edit) :
    ∃ lines : List (ℕ × String), lines.Pairwise (·.1 < ·.1) ∧
      (∀ number code, (number, code) ∈ lines ↔
        code ≠ "" ∧ LastCode edits number code) ∧
      (after edits).list =
        lines.map (fun line => toString line.1 ++ " " ++ line.2) ∧
      (∀ low high : Option ℤ, (after edits).between low high =
        (lines.filter fun line => (∀ bound ∈ low, bound ≤ line.1) ∧
          ∀ bound ∈ high, (line.1 : ℤ) ≤ bound).map
            (fun line => toString line.1 ++ " " ++ line.2)) ∧
      (∀ number, (after edits).lastStored = some number ↔
        LastNumber edits number) ∧
      ∀ text, (∃ number code, Numbers text number code) ∧
          (∃ changed, (after edits).store text = .ok changed) ∨
        (¬∃ number code, Numbers text number code) ∧
          (∃ failure, (after edits).store text = .error failure) ∧
          after (edits ++ [.store text]) = after edits := by
  obtain ⟨hascending, hlines, hlastStored⟩ := reflects_after edits
  refine ⟨(after edits).lines, hascending, hlines, rfl, ?_, hlastStored, ?_⟩
  · intro low high
    refine congrArg (List.map lineText) ?_
    congr 1
    funext line
    cases low <;> cases high <;> simp
  · intro text
    cases hstore : (after edits).store text with
    | ok changed =>
        obtain ⟨number, code, hnumbers, -⟩ := store_eq_ok_iff.mp hstore
        exact .inl ⟨⟨number, code, hnumbers⟩, changed, rfl⟩
    | error failure =>
        refine .inr ⟨?_, ⟨failure, rfl⟩, ?_⟩
        · rintro ⟨number, code, hnumbers⟩
          rw [store_eq_ok_iff.mpr ⟨number, code, hnumbers, rfl⟩] at hstore
          cases hstore
        · rw [after_concat, edit, hstore]

end Listing

end NumberedBasic
