import Mathlib.Data.String.Basic

/-!
# Texts taken apart at a character

Where a text is searched for the places at which to take it apart, it is walked
through byte by byte.  Where these places are those of a single character, the
parts are the same as those of the list of its characters.
-/

namespace NumberedBasic

namespace Text

open String

/-! ## Steps of the search -/

variable {separator c : Char} {before piece rest : List Char}

theorem splitOnAux_nil (found : List String) :
    splitOnAux (ofList (before ++ piece)) (ofList [separator])
        ⟨utf8Len before⟩ ⟨utf8Len (before ++ piece)⟩ 0 found =
      (ofList piece :: found).reverse := by
  have hend := (atEnd_of_valid (before ++ piece) []).mpr rfl
  have hpiece := extract_of_valid before piece []
  rw [List.append_nil] at hend hpiece
  rw [← utf8Len_append] at hpiece
  rw [splitOnAux, if_pos hend, hpiece]

theorem splitOnAux_separator (found : List String) :
    splitOnAux (ofList (before ++ piece ++ separator :: rest))
        (ofList [separator]) ⟨utf8Len before⟩ ⟨utf8Len (before ++ piece)⟩ 0
        found =
      splitOnAux (ofList (before ++ piece ++ separator :: rest))
        (ofList [separator]) ⟨utf8Len (before ++ piece ++ [separator])⟩
        ⟨utf8Len (before ++ piece ++ [separator])⟩ 0 (ofList piece :: found) := by
  have hend := mt (atEnd_of_valid (before ++ piece) (separator :: rest)).mp
    (List.cons_ne_nil separator rest)
  have hget := get_of_valid (before ++ piece) (separator :: rest)
  have hnext := next_of_valid (before ++ piece) separator rest
  have hpiece := extract_of_valid before piece (separator :: rest)
  have hfirst : Pos.Raw.get (ofList [separator]) 0 = separator :=
    get_of_valid [] [separator]
  have hover : Pos.Raw.next (ofList [separator]) 0 = ⟨separator.utf8Size⟩ := by
    simpa using next_of_valid [] separator []
  have hdone : Pos.Raw.atEnd (ofList [separator]) ⟨separator.utf8Size⟩ = true :=
    by simpa using (atEnd_of_valid [separator] []).mpr rfl
  have hback : Pos.Raw.unoffsetBy
      ⟨utf8Len (before ++ piece) + separator.utf8Size⟩ ⟨separator.utf8Size⟩ =
      ⟨utf8Len (before ++ piece)⟩ := by
    simp [Pos.Raw.unoffsetBy]
  rw [← utf8Len_append] at hpiece
  rw [splitOnAux, if_neg hend, hget, hfirst, List.headD_cons,
    if_pos (beq_self_eq_true separator)]
  simp only [hnext, hover, hdone, if_true, hback, hpiece]
  rw [utf8Len_append (before ++ piece) [separator], utf8Len_cons, utf8Len_nil, Nat.zero_add]

theorem splitOnAux_other (hother : c ≠ separator) (found : List String) :
    splitOnAux (ofList (before ++ piece ++ c :: rest)) (ofList [separator])
        ⟨utf8Len before⟩ ⟨utf8Len (before ++ piece)⟩ 0 found =
      splitOnAux (ofList (before ++ piece ++ c :: rest)) (ofList [separator])
        ⟨utf8Len before⟩ ⟨utf8Len (before ++ piece ++ [c])⟩ 0 found := by
  have hend := mt (atEnd_of_valid (before ++ piece) (c :: rest)).mp
    (List.cons_ne_nil c rest)
  have hget := get_of_valid (before ++ piece) (c :: rest)
  have hnext := next_of_valid (before ++ piece) c rest
  have hfirst : Pos.Raw.get (ofList [separator]) 0 = separator :=
    get_of_valid [] [separator]
  have hback : Pos.Raw.unoffsetBy ⟨utf8Len (before ++ piece)⟩ 0 =
      ⟨utf8Len (before ++ piece)⟩ := by
    simp [Pos.Raw.unoffsetBy]
  rw [splitOnAux, if_neg hend, hget, hfirst, List.headD_cons,
    if_neg (by simpa using hother), hback, hnext]
  rw [utf8Len_append (before ++ piece) [c], utf8Len_cons, utf8Len_nil, Nat.zero_add]

/-! ## The whole search -/

theorem splitOnAux_eq (separator : Char) (before piece rest : List Char)
    (found : List String) :
    splitOnAux (ofList (before ++ piece ++ rest)) (ofList [separator])
        ⟨utf8Len before⟩ ⟨utf8Len (before ++ piece)⟩ 0 found =
      found.reverse ++
        (List.splitOnPPrepend (· == separator) rest piece.reverse).map
          ofList := by
  induction rest generalizing before piece found with
  | nil =>
      rw [List.append_nil, splitOnAux_nil, List.splitOnPPrepend_nil]
      simp
  | cons c rest ih =>
      rw [List.splitOnPPrepend_cons_eq_if]
      by_cases hseparator : c = separator
      · subst hseparator
        have hnext := ih (before ++ piece ++ [c]) [] (ofList piece :: found)
        rw [List.append_nil, List.append_assoc _ [c], List.singleton_append] at hnext
        rw [splitOnAux_separator, hnext, if_pos (beq_self_eq_true c)]
        simp
      · have hnext := ih before (piece ++ [c]) found
        rw [← List.append_assoc, List.append_assoc _ [c], List.singleton_append] at hnext
        rw [splitOnAux_other hseparator, hnext, if_neg (by simpa using hseparator)]
        simp

/-- The parts of a text between single characters. -/
theorem splitOn_ofList_singleton (text : String) (separator : Char) :
    text.splitOn (ofList [separator]) =
      (text.toList.splitOn separator).map ofList := by
  have hsearch := splitOnAux_eq separator [] [] text.toList []
  rw [List.nil_append, List.nil_append, ofList_toList] at hsearch
  rw [splitOn, if_neg (by simp), List.splitOn_eq_splitOnP]
  exact hsearch

end Text

end NumberedBasic
