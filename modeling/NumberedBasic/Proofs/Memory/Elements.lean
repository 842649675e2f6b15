import NumberedBasic.Proofs.Safety.Evaluation

/-!
# Elements of arrays

The elements of an array have places of their own in its block, so that
assigning one of them changes that element and nothing else.  The equations
below say what reading an element gives after each change of the arrays.
-/

namespace NumberedBasic

/-! ## Positions -/

/-- There is one index for each bound, and every index lies within its
bound. -/
def Within (index bounds : List Int) : Prop :=
  List.Forall₂ (fun i bound => 0 ≤ i ∧ i ≤ bound) index bounds

theorem isSome_flatIndex_iff (index bounds : List Int) :
    (flatIndex index bounds).isSome = true ↔ Within index bounds := by
  induction index generalizing bounds with
  | nil => cases bounds <;> simp [flatIndex, Within]
  | cons i index ih =>
      cases bounds with
      | nil => simp [flatIndex, Within]
      | cons bound bounds =>
          rw [flatIndex, Within, List.forall₂_cons]
          split
          next hrange =>
            rw [Option.isSome_map, ih, and_iff_right hrange]
            exact Iff.rfl
          next hrange =>
            exact iff_of_false Bool.false_ne_true fun hboth => hrange hboth.1

theorem Within.exists_position {index bounds : List Int}
    (hwithin : Within index bounds) :
    ∃ position, flatIndex index bounds = some position :=
  Option.isSome_iff_exists.mp ((isSome_flatIndex_iff index bounds).mpr hwithin)

theorem within_of_position {index bounds : List Int} {position : Int}
    (hposition : flatIndex index bounds = some position) :
    Within index bounds :=
  (isSome_flatIndex_iff index bounds).mp (Option.isSome_of_eq_some hposition)

theorem flatIndex_eq_none_iff (index bounds : List Int) :
    flatIndex index bounds = none ↔ ¬Within index bounds := by
  rw [← isSome_flatIndex_iff, Option.not_isSome_iff_eq_none]

/-- No two elements share a position. -/
theorem flatIndex_injective {index index' bounds : List Int} {position : Int}
    (hposition : flatIndex index bounds = some position)
    (hposition' : flatIndex index' bounds = some position) :
    index = index' := by
  induction bounds generalizing index index' position with
  | nil =>
      cases within_of_position hposition
      cases within_of_position hposition'
      rfl
  | cons bound bounds ih =>
      cases within_of_position hposition with
      | @cons i _ index _ hi _ =>
      cases within_of_position hposition' with
      | @cons i' _ index' _ hi' _ =>
      rw [flatIndex, if_pos hi] at hposition
      rw [flatIndex, if_pos hi'] at hposition'
      obtain ⟨inner, hinner, rfl⟩ := Option.map_eq_some_iff.mp hposition
      obtain ⟨inner', hinner', hsame⟩ := Option.map_eq_some_iff.mp hposition'
      -- the first index is the remainder by the extent of its dimension
      have hfirst : i' = i := by
        have hremainder := congrArg (· % (bound + 1)) hsame
        simp only [Int.add_mul_emod_self_left] at hremainder
        rwa [Int.emod_eq_of_lt hi'.1 (by omega),
          Int.emod_eq_of_lt hi.1 (by omega)] at hremainder
      subst hfirst
      have hothers : inner' = inner :=
        Int.eq_of_mul_eq_mul_left (by omega) (Int.add_left_cancel hsame)
      subst hothers
      rw [ih hinner hinner']

namespace Arrays

/-! ## Reading -/

/-- The bounds of an array, if there is one of that name. -/
def bounds? (arrays : Arrays) (name : String) : Option (List Int) :=
  (arrays.blocks.get? name).map Block.bounds

theorem block_eq (arrays : Arrays) (name : String) :
    arrays.block name =
      match arrays.blocks.get? name with
      | some block => .ok block
      | none => .error (.error (.undefinedArray name)) := rfl

section Reading

variable {arrays : Arrays} {name : String} {index bounds : List Int}

end Reading

/-! ## Dimensioning -/

section Dimensioning

variable [Host] {arrays changed : Arrays} {name : String} {bounds : List Int}

theorem declare_eq_ok_iff :
    arrays.declare name bounds = .ok changed ↔
      ((∀ bound ∈ bounds, 0 ≤ bound) ∧ Host.hasRoom (cellCount bounds) = true) ∧
        changed = ⟨arrays.blocks.insert name
          ⟨bounds, Array.replicate (cellCount bounds).toNat .zero⟩⟩ := by
  have hbounds : bounds.any (· < 0) = false ↔ ∀ bound ∈ bounds, 0 ≤ bound := by
    simp
  rw [declare, ← hbounds]
  cases bounds.any (· < 0) <;> cases Host.hasRoom (cellCount bounds) <;>
    simp [eq_comm]

section Declared

variable (hdeclare : arrays.declare name bounds = .ok changed)

include hdeclare

/-- A new array holds zeros, and the other arrays are as they were. -/
theorem get_declare (other : String) (index : List Int) :
    changed.get other index =
      if other = name then .ok .zero else arrays.get other index := by
  obtain ⟨⟨hbounds, -⟩, rfl⟩ := declare_eq_ok_iff.mp hdeclare
  rw [get, block_eq, OrderedMap.get?_insert]
  by_cases hname : other = name
  · subst hname
    rw [if_pos rfl, if_pos rfl]
    cases hposition : flatIndex index bounds with
    | none => simp only [bind, Except.bind, hposition]; rfl
    | some position =>
        have hrange := flatIndex_range hbounds hposition
        have hlt : position.toNat < (cellCount bounds).toNat := by omega
        simp only [bind, Except.bind, hposition, Array.getElem?_replicate,
          if_pos hlt]
        rfl
  · rw [if_neg (Ne.symm hname), if_neg hname]
    rfl

theorem bounds?_declare (other : String) :
    changed.bounds? other =
      if other = name then some bounds else arrays.bounds? other := by
  obtain ⟨-, rfl⟩ := declare_eq_ok_iff.mp hdeclare
  rw [bounds?, OrderedMap.get?_insert]
  by_cases hname : other = name
  · rw [if_pos hname.symm, if_pos hname]
    rfl
  · rw [if_neg (Ne.symm hname), if_neg hname]
    rfl

end Declared

end Dimensioning

/-! ## Assigning -/

section Assigning

variable {arrays : Arrays} {name : String} {index bounds : List Int}

theorem set_of_bounds?_eq_none (hbounds : arrays.bounds? name = none)
    (index : List Int) (value : Value) :
    arrays.set name index value = .error (.error (.undefinedArray name)) := by
  have hblock : arrays.blocks.get? name = none := by
    simpa [bounds?] using hbounds
  rw [set, block_eq, hblock]
  rfl

theorem set_of_not_within (hbounds : arrays.bounds? name = some bounds)
    (hwithin : ¬Within index bounds) (value : Value) :
    arrays.set name index value = .ok arrays := by
  obtain ⟨block, hblock, rfl⟩ := Option.map_eq_some_iff.mp hbounds
  rw [← flatIndex_eq_none_iff] at hwithin
  rw [set, block_eq, hblock]
  simp only [bind, Except.bind, hwithin]
  rfl

/-- Within the bounds exactly one element changes. -/
theorem set_of_within (harrays : arrays.Sound)
    (hbounds : arrays.bounds? name = some bounds)
    (hwithin : Within index bounds) (value : Value) :
    ∃ changed, arrays.set name index value = .ok changed ∧
      (∀ other, changed.bounds? other = arrays.bounds? other) ∧
      ∀ other at_, changed.get other at_ =
        if other = name ∧ at_ = index then .ok value
        else arrays.get other at_ := by
  obtain ⟨block, hblock, rfl⟩ := Option.map_eq_some_iff.mp hbounds
  obtain ⟨position, hposition⟩ := hwithin.exists_position
  have hsound := harrays name block hblock
  have hlt := hsound.position_lt hposition
  refine ⟨⟨arrays.blocks.insert name ⟨block.bounds,
    block.cells.setIfInBounds position.toNat value⟩⟩, ?_, ?_, ?_⟩
  · rw [set, block_eq, hblock]
    simp only [bind, Except.bind, hposition, if_pos hlt]
    rfl
  · intro other
    rw [bounds?, bounds?, OrderedMap.get?_insert]
    by_cases hname : name = other
    · subst hname
      rw [if_pos rfl, hblock]
      rfl
    · rw [if_neg hname]
  · intro other at_
    rw [get, block_eq, OrderedMap.get?_insert]
    by_cases hname : name = other
    · subst hname
      rw [if_pos rfl, get, block_eq, hblock]
      simp only [bind, Except.bind, true_and]
      cases hat : flatIndex at_ block.bounds with
      | none =>
          have hne : at_ ≠ index := by
            rintro rfl
            rw [hposition] at hat
            cases hat
          rw [if_neg hne]
      | some place =>
          by_cases hsame : at_ = index
          · subst hsame
            rw [hposition] at hat
            cases hat
            simp only [Array.getElem?_setIfInBounds_self_of_lt hlt]
            rfl
          · have hne : position.toNat ≠ place.toNat := by
              intro heq
              have hrange := flatIndex_range hsound.bounds_nonneg hposition
              have hrange' := flatIndex_range hsound.bounds_nonneg hat
              have hplace : place = position := by omega
              exact hsame (flatIndex_injective (hplace ▸ hat) hposition)
            simp only [Array.getElem?_setIfInBounds_ne hne, if_neg hsame]
    · rw [if_neg hname, if_neg fun hboth => hname hboth.1.symm]
      rfl

end Assigning

end Arrays

end NumberedBasic
