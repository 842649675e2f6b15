import Mathlib.Data.List.Basic

/-!
# The last event that counts

A history lists events, the oldest first.  What holds after it is often told
by the last event of some kind, unless a later one overrides it.
-/

namespace NumberedBasic

section Histories

variable {Event : Type*} {history : List Event} {event : Event}
variable {overrides : Event → Prop}

/-- The event took place, and none of those after it overrides it. -/
def LastEvent (history : List Event) (event : Event)
    (overrides : Event → Prop) : Prop :=
  ∃ earlier later, history = earlier ++ event :: later ∧
    ∀ other ∈ later, ¬overrides other

theorem not_lastEvent_nil : ¬LastEvent [] event overrides := by
  rintro ⟨earlier, later, hhistory, -⟩
  simp at hhistory

/-- The last event that counts is the latest, or it is one before which the
latest does not override. -/
theorem lastEvent_concat_iff (latest : Event) :
    LastEvent (history ++ [latest]) event overrides ↔
      latest = event ∨
        ¬overrides latest ∧ LastEvent history event overrides := by
  constructor
  · rintro ⟨earlier, later, hhistory, hlater⟩
    rcases List.eq_nil_or_concat' later with rfl | ⟨between, last, rfl⟩
    · exact Or.inl (List.append_singleton_inj.mp hhistory).2
    · rw [← List.cons_append, ← List.append_assoc] at hhistory
      obtain ⟨rfl, rfl⟩ := List.append_singleton_inj.mp hhistory
      refine Or.inr ⟨hlater latest (by simp), earlier, between, rfl, ?_⟩
      exact fun other hother => hlater other (List.mem_append_left _ hother)
  · rintro (rfl | ⟨hlatest, earlier, later, rfl, hlater⟩)
    · exact ⟨history, [], rfl, List.forall_mem_nil _⟩
    · refine ⟨earlier, later ++ [latest], by simp, ?_⟩
      intro other hother
      rcases List.mem_append.mp hother with hold | hnew
      · exact hlater other hold
      · rwa [List.mem_singleton.mp hnew]

end Histories

end NumberedBasic
