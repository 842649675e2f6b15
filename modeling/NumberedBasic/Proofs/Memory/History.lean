import Mathlib.Data.List.Induction
import NumberedBasic.Proofs.History
import NumberedBasic.Proofs.Memory.Elements

/-!
# Arrays as maps from names and indices to values

The arrays after any sequence of calls hold, at each name and index, the value
that was assigned there last since the array was dimensioned, and zero where
none was or where the index lies outside the bounds.  What a call did to the
block of an array does not show otherwise.
-/

namespace NumberedBasic

namespace Arrays

/-! ## Calls -/

/-- What can be asked of the arrays. -/
inductive Call where
  | dim (name : String) (bounds : List Int)
  | set (name : String) (index : List Int) (value : Value)
  | get (name : String) (index : List Int)
  | clear

/-- The arrays that a call leads to, if it is completed. -/
def answer [Host] (arrays : Arrays) : Call → Except Halt Arrays
  | .dim name bounds => Halt.ofRun (arrays.declare name bounds)
  | .set name index value => arrays.set name index value
  | .get name index => (arrays.get name index).map fun _ => arrays
  | .clear => .ok .empty

/-- The arrays after a call; one that fails leaves them as they were. -/
def perform [Host] (arrays : Arrays) (call : Call) : Arrays :=
  match arrays.answer call with
  | .ok changed => changed
  | .error _ => arrays

/-- A call that was made, and whether it was completed. -/
structure Event where
  call : Call
  completed : Bool

/-- What happens in a sequence of calls.  Every call finds a host of its own,
since what there is room for may be another at each time. -/
def events (arrays : Arrays) : (calls : List (Host × Call)) → List Event
  | [] => []
  | (host, call) :: calls =>
      ⟨call, (@answer host arrays call).isOk⟩ ::
        events (@perform host arrays call) calls

def performAll (arrays : Arrays) (calls : List (Host × Call)) : Arrays :=
  calls.foldl (fun arrays (host, call) => @perform host arrays call) arrays

section Latest

variable (arrays : Arrays) (calls : List (Host × Call)) (host : Host) (call : Call)

theorem performAll_concat :
    arrays.performAll (calls ++ [(host, call)]) =
      @perform host (arrays.performAll calls) call :=
  List.foldl_concat ..

theorem events_concat :
    events arrays (calls ++ [(host, call)]) =
      events arrays calls ++
        [⟨call, (@answer host (arrays.performAll calls) call).isOk⟩] := by
  induction calls generalizing arrays with
  | nil => rfl
  | cons earlier calls ih => exact congrArg (_ :: ·) (ih _)

end Latest

/-- What happened in a sequence of calls, no arrays having been there before. -/
def history (calls : List (Host × Call)) : List Event := events .empty calls

/-- The arrays after these calls. -/
def after (calls : List (Host × Call)) : Arrays := performAll .empty calls

/-! ## What the calls say of an element -/

/-- The array, if there is one, is gone after the call or is a new one. -/
def Event.Replaces (name : String) : Event → Prop
  | ⟨.dim other _, completed⟩ => other = name ∧ completed = true
  | ⟨.clear, _⟩ => True
  | _ => False

/-- The call assigns the element. -/
def Event.Assigns (name : String) (index : List Int) : Event → Prop
  | ⟨.set other at_ _, _⟩ => other = name ∧ at_ = index
  | _ => False

/-- The array was dimensioned with these bounds and has not been replaced or
cleared since. -/
def Dimensioned (events : List Event) (name : String) (bounds : List Int) :
    Prop :=
  LastEvent events ⟨.dim name bounds, true⟩ (·.Replaces name)

/-- The value was the last that the element was assigned since the array was
dimensioned. -/
def Assigned (events : List Event) (name : String) (index : List Int)
    (value : Value) : Prop :=
  LastEvent events ⟨.set name index value, true⟩
    fun event => event.Replaces name ∨ event.Assigns name index

/-! ## The arrays tell what the calls say -/

/-- The arrays hold what their history says. -/
structure Reflects (events : List Event) (arrays : Arrays) : Prop where
  sound : arrays.Sound
  bounds : ∀ name bounds,
    arrays.bounds? name = some bounds ↔ Dimensioned events name bounds
  assigned : ∀ {name index bounds value}, arrays.bounds? name = some bounds →
    Within index bounds → Assigned events name index value →
    arrays.get name index = .ok value
  unassigned : ∀ {name index bounds}, arrays.bounds? name = some bounds →
    Within index bounds → (∀ value, ¬Assigned events name index value) →
    arrays.get name index = .ok .zero

theorem reflects_nil : Reflects [] empty where
  sound := sound_empty
  bounds name bounds := iff_of_false nofun not_lastEvent_nil
  assigned hbounds := by cases hbounds
  unassigned hbounds := by cases hbounds

section Steps

variable {events : List Event} {arrays : Arrays}

theorem reflects_clear (completed : Bool) :
    Reflects (events ++ [⟨.clear, completed⟩]) empty where
  sound := sound_empty
  bounds name bounds := by
    refine iff_of_false nofun ?_
    rw [Dimensioned, lastEvent_concat_iff]
    rintro (hclear | ⟨hreplaces, -⟩)
    · cases hclear
    · exact hreplaces trivial
  assigned hbounds := by cases hbounds
  unassigned hbounds := by cases hbounds

variable (hreflects : Reflects events arrays)

include hreflects

/-- A call that shows in no array, and assigns no element of one. -/
theorem Reflects.unchanged {latest : Event}
    (hreplaces : ∀ name, ¬latest.Replaces name)
    (hassigns : ∀ name index bounds, arrays.bounds? name = some bounds →
      Within index bounds → ¬latest.Assigns name index) :
    Reflects (events ++ [latest]) arrays := by
  have hassigned {name : String} {index bounds : List Int} {value : Value}
      (hfound : arrays.bounds? name = some bounds)
      (hwithin : Within index bounds) :
      Assigned (events ++ [latest]) name index value ↔
        Assigned events name index value := by
    have hnot := hassigns name index bounds hfound hwithin
    rw [Assigned, lastEvent_concat_iff,
      and_iff_right (not_or_intro (hreplaces name) hnot)]
    refine or_iff_right ?_
    rintro rfl
    exact hnot ⟨rfl, rfl⟩
  constructor
  case sound => exact hreflects.sound
  case bounds =>
    intro name bounds
    rw [hreflects.bounds, Dimensioned, Dimensioned, lastEvent_concat_iff,
      and_iff_right (hreplaces name)]
    refine (or_iff_right ?_).symm
    rintro rfl
    exact hreplaces name ⟨rfl, rfl⟩
  case assigned =>
    intro name index bounds value hfound hwithin hvalue
    exact hreflects.assigned hfound hwithin ((hassigned hfound hwithin).mp hvalue)
  case unassigned =>
    intro name index bounds hfound hwithin hnone
    exact hreflects.unassigned hfound hwithin fun value hvalue =>
      hnone value ((hassigned hfound hwithin).mpr hvalue)

variable [Host]

theorem Reflects.dim {name : String} {bounds : List Int} {changed : Arrays}
    (hdeclare : arrays.declare name bounds = .ok changed) :
    Reflects (events ++ [⟨.dim name bounds, true⟩]) changed := by
  have hbounds := bounds?_declare hdeclare
  have hget := get_declare hdeclare
  have hreplaces {other : String} :
      Event.Replaces other ⟨.dim name bounds, true⟩ ↔ name = other :=
    and_iff_left rfl
  constructor
  case sound => exact hreflects.sound.declare hdeclare
  case bounds =>
    intro other bounds'
    rw [hbounds, Dimensioned, lastEvent_concat_iff, hreplaces]
    by_cases hname : other = name
    · subst hname
      rw [if_pos rfl, Option.some.injEq]
      constructor
      · rintro rfl
        exact Or.inl rfl
      · rintro (hsame | ⟨hother, -⟩)
        · cases hsame
          rfl
        · exact absurd rfl hother
    · rw [if_neg hname, hreflects.bounds, Dimensioned]
      simp [Ne.symm hname]
  case assigned =>
    intro other index bounds' value hfound hwithin hvalue
    rw [Assigned, lastEvent_concat_iff, hreplaces] at hvalue
    obtain ⟨hnot, hvalue⟩ := hvalue.resolve_left nofun
    have hname : other ≠ name := fun hsame => hnot (Or.inl hsame.symm)
    rw [hbounds, if_neg hname] at hfound
    rw [hget, if_neg hname]
    exact hreflects.assigned hfound hwithin hvalue
  case unassigned =>
    intro other index bounds' hfound hwithin hnone
    rw [hget]
    by_cases hname : other = name
    · rw [if_pos hname]
    · rw [hbounds, if_neg hname] at hfound
      rw [if_neg hname]
      apply hreflects.unassigned hfound hwithin
      intro value hvalue
      apply hnone value
      rw [Assigned, lastEvent_concat_iff, hreplaces]
      exact Or.inr ⟨not_or_intro (Ne.symm hname) id, hvalue⟩

theorem Reflects.set {name : String} {index bounds : List Int}
    (hfound : arrays.bounds? name = some bounds)
    (hwithin : Within index bounds) (value : Value) :
    Reflects (events ++ [⟨.set name index value,
        (arrays.answer (.set name index value)).isOk⟩])
      (arrays.perform (.set name index value)) := by
  obtain ⟨changed, hset, hbounds, hget⟩ :=
    set_of_within hreflects.sound hfound hwithin value
  rw [perform, answer, hset]
  constructor
  case sound => exact hreflects.sound.set hset
  case bounds =>
    intro other bounds'
    rw [hbounds, hreflects.bounds, Dimensioned, Dimensioned, lastEvent_concat_iff]
    simp [Event.Replaces]
  case assigned =>
    intro other index' bounds' value' hfound' hwithin' hvalue
    rw [hbounds] at hfound'
    rw [Assigned, lastEvent_concat_iff] at hvalue
    rw [hget]
    rcases hvalue with hlatest | ⟨hnot, hvalue⟩
    · cases hlatest
      rw [if_pos ⟨rfl, rfl⟩]
    · rw [if_neg fun hsame => hnot (Or.inr ⟨hsame.1.symm, hsame.2.symm⟩)]
      exact hreflects.assigned hfound' hwithin' hvalue
  case unassigned =>
    intro other index' bounds' hfound' hwithin' hnone
    rw [hbounds] at hfound'
    have hother : ¬(other = name ∧ index' = index) := by
      rintro ⟨rfl, rfl⟩
      exact hnone value ((lastEvent_concat_iff _).mpr (Or.inl rfl))
    rw [hget, if_neg hother]
    apply hreflects.unassigned hfound' hwithin'
    intro value' hvalue
    apply hnone value'
    rw [Assigned, lastEvent_concat_iff]
    refine Or.inr ⟨not_or_intro id ?_, hvalue⟩
    exact fun hsame => hother ⟨hsame.1.symm, hsame.2.symm⟩

theorem Reflects.perform (latest : Call) :
    Reflects (events ++ [⟨latest, (arrays.answer latest).isOk⟩])
      (arrays.perform latest) := by
  cases latest with
  | dim name bounds =>
      rw [Arrays.perform, answer]
      cases hdeclare : arrays.declare name bounds with
      | ok changed => exact hreflects.dim hdeclare
      | error error =>
          exact hreflects.unchanged (fun _ hreplaces => nomatch hreplaces.2)
            fun _ _ _ _ _ => id
  | set name index value =>
      cases hfound : arrays.bounds? name with
      | none =>
          rw [Arrays.perform, answer, set_of_bounds?_eq_none hfound]
          apply hreflects.unchanged fun _ => id
          rintro _ _ bounds hother - ⟨rfl, rfl⟩
          rw [hfound] at hother
          cases hother
      | some bounds =>
          by_cases hwithin : Within index bounds
          · exact hreflects.set hfound hwithin value
          · rw [Arrays.perform, answer, set_of_not_within hfound hwithin]
            apply hreflects.unchanged fun _ => id
            rintro _ _ bounds' hother hwithin' ⟨rfl, rfl⟩
            rw [hfound] at hother
            cases hother
            exact hwithin hwithin'
  | get name index =>
      have hsame : arrays.perform (.get name index) = arrays := by
        rw [Arrays.perform, answer]
        cases arrays.get name index <;> rfl
      rw [hsame]
      exact hreflects.unchanged (fun _ => id) fun _ _ _ _ _ => id
  | clear => exact reflects_clear _

end Steps

theorem reflects_after (calls : List (Host × Call)) :
    Reflects (history calls) (after calls) := by
  induction calls using List.reverseRecOn with
  | nil => exact reflects_nil
  | append_singleton calls latest ih =>
      obtain ⟨host, call⟩ := latest
      rw [history, events_concat, after, performAll_concat]
      exact ih.perform call

section After

variable {events : List Event} {arrays : Arrays}
variable (hreflects : Reflects events arrays)

include hreflects

end After

/-- An array that is dimensioned again in another shape has lost its elements,
and the place of the old element is that of another one. -/
example :
    let calls : List Call :=
      [.dim "A" [1, 2], .set "A" [1, 0] (.text "old"), .dim "A" [2, 1],
        .set "A" [0, 1] (.text "new"), .dim "A" [-1]]
    let arrays := after (calls.map fun call => (inferInstance, call))
    arrays.get "A" [1, 0] = .ok .zero ∧
      arrays.get "A" [0, 1] = .ok (.text "new") := by
  decide

end Arrays

end NumberedBasic
