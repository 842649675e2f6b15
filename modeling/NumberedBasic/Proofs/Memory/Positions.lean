import Mathlib.Data.Set.Function
import NumberedBasic.Proofs.Memory.Elements

/-!
# Positions of the elements of an array

A position is a numeral of mixed radix: the indices of an element are its
digits, the first one the least, and the extents of the dimensions are its
radices.  Dividing a position by the extents finds the element that lies there,
so the elements take up the whole block, each a position of its own.
-/

namespace NumberedBasic

/-! ## The element at a position -/

/-- The indices of the element that lies at a position. -/
def indexAt : (bounds : List Int) → (position : Int) → List Int
  | [], _ => []
  | bound :: bounds, position =>
      position % (bound + 1) :: indexAt bounds (position / (bound + 1))

/-- There is an element at every position of the block. -/
theorem flatIndex_indexAt {bounds : List Int} {position : Int}
    (hbounds : ∀ bound ∈ bounds, 0 ≤ bound) (hlow : 0 ≤ position)
    (hhigh : position < cellCount bounds) :
    flatIndex (indexAt bounds position) bounds = some position := by
  induction bounds generalizing position with
  | nil =>
      rw [cellCount] at hhigh
      have hzero : position = 0 := by omega
      subst hzero
      rfl
  | cons bound bounds ih =>
      rw [List.forall_mem_cons] at hbounds
      have hextent : 0 < bound + 1 := Int.lt_add_one_of_le hbounds.1
      have hfirst : 0 ≤ position % (bound + 1) ∧
          position % (bound + 1) ≤ bound :=
        ⟨Int.emod_nonneg position hextent.ne',
          Int.lt_add_one_iff.mp (Int.emod_lt_of_pos position hextent)⟩
      have hothers : flatIndex (indexAt bounds (position / (bound + 1))) bounds =
          some (position / (bound + 1)) := by
        apply ih hbounds.2 (Int.ediv_nonneg hlow hextent.le)
        rw [cellCount, Int.mul_comm] at hhigh
        exact Int.ediv_lt_of_lt_mul hextent hhigh
      rw [indexAt, flatIndex, if_pos hfirst, hothers, Option.map_some,
        Int.emod_add_mul_ediv]

/-! ## Neighbours -/

/-- Raising an index by one passes over as many elements as there are within
the bounds before it. -/
theorem flatIndex_raise (before : List Int) {after bounds : List Int}
    {i position : Int}
    (hposition : flatIndex (before ++ i :: after) bounds = some position)
    (hwithin : Within (before ++ (i + 1) :: after) bounds) :
    flatIndex (before ++ (i + 1) :: after) bounds =
      some (position + cellCount (bounds.take before.length)) := by
  induction before generalizing bounds position with
  | nil =>
      cases hwithin with
      | @cons _ bound _ bounds hraised _ =>
      cases within_of_position hposition with
      | cons hi _ =>
      simp only [List.nil_append] at hposition ⊢
      rw [flatIndex, if_pos hi] at hposition
      obtain ⟨inner, hinner, rfl⟩ := Option.map_eq_some_iff.mp hposition
      rw [flatIndex, if_pos hraised, hinner, Option.map_some, List.length_nil,
        List.take_zero, cellCount, Int.add_right_comm]
  | cons first before ih =>
      cases hwithin with
      | @cons _ bound _ bounds hfirst hothers =>
      simp only [List.cons_append] at hposition ⊢
      rw [flatIndex, if_pos hfirst] at hposition
      obtain ⟨inner, hinner, rfl⟩ := Option.map_eq_some_iff.mp hposition
      rw [flatIndex, if_pos hfirst, ih hinner hothers, Option.map_some,
        List.length_cons, List.take_succ_cons, cellCount, Int.mul_add,
        Int.add_assoc]

/-! ## Elements and positions -/

/-- The elements within the bounds of an array are one for one the positions
of its block, and no position is given outside the bounds.  Elements that
differ by one in the first index alone lie next to each other. -/
theorem bijOn_flatIndex {bounds : List Int}
    (hbounds : ∀ bound ∈ bounds, 0 ≤ bound) :
    Set.BijOn (flatIndex · bounds) {index | Within index bounds}
      (some '' {position | 0 ≤ position ∧ position < cellCount bounds}) ∧
    (∀ index, ¬Within index bounds → flatIndex index bounds = none) ∧
    ∀ i others, Within (i :: others) bounds →
      Within ((i + 1) :: others) bounds →
      ∃ position, flatIndex (i :: others) bounds = some position ∧
        flatIndex ((i + 1) :: others) bounds = some (position + 1) := by
  refine ⟨Set.BijOn.mk ?maps ?injective ?surjective, ?outside, ?neighbours⟩
  case maps =>
    intro index hwithin
    obtain ⟨position, hposition⟩ := Within.exists_position hwithin
    exact ⟨position, flatIndex_range hbounds hposition, hposition.symm⟩
  case injective =>
    intro index hwithin index' _ hsame
    obtain ⟨position, hposition⟩ := Within.exists_position hwithin
    exact flatIndex_injective hposition (hsame.symm.trans hposition)
  case surjective =>
    rintro _ ⟨position, ⟨hlow, hhigh⟩, rfl⟩
    have hposition := flatIndex_indexAt hbounds hlow hhigh
    exact ⟨indexAt bounds position, within_of_position hposition, hposition⟩
  case outside =>
    exact fun index => (flatIndex_eq_none_iff index bounds).mpr
  case neighbours =>
    intro i others hwithin hraised
    obtain ⟨position, hposition⟩ := hwithin.exists_position
    have hnext := flatIndex_raise [] hposition hraised
    exact ⟨position, hposition, hnext⟩

/-- Three dimensions, of which the second has room for a single index. -/
theorem bijOn_flatIndex_of_zero_bound :
    let bounds : List Int := [2, 0, 3]
    (∀ bound ∈ bounds, 0 ≤ bound) ∧
      Set.BijOn (flatIndex · bounds) {index | Within index bounds}
        (some '' {position | 0 ≤ position ∧ position < 12}) ∧
      flatIndex [0, 1, 0] bounds = none ∧ flatIndex [0, 0] bounds = none ∧
      Within [1, 0, 3] bounds ∧ Within [2, 0, 3] bounds ∧
      ∃ position, flatIndex [1, 0, 3] bounds = some position ∧
        flatIndex [2, 0, 3] bounds = some (position + 1) := by
  intro bounds
  have hbounds : ∀ bound ∈ bounds, 0 ≤ bound := by decide
  have hwithin : Within [1, 0, 3] bounds := (isSome_flatIndex_iff _ _).mp rfl
  have hraised : Within [2, 0, 3] bounds := (isSome_flatIndex_iff _ _).mp rfl
  have houtside : ¬Within [0, 1, 0] bounds :=
    (flatIndex_eq_none_iff _ _).mp rfl
  have hshort : ¬Within [0, 0] bounds := (flatIndex_eq_none_iff _ _).mp rfl
  obtain ⟨hbijective, hnone, hneighbours⟩ := bijOn_flatIndex hbounds
  exact ⟨hbounds, hbijective, hnone _ houtside, hnone _ hshort, hwithin,
    hraised, hneighbours 1 [0, 3] hwithin hraised⟩

end NumberedBasic
