import NumberedBasic.Machine.Exec

/-!
# Statements with several items

READ, DIM and NEXT handle their items one after another.  Each item is an
action of its own, which answers whether it has jumped; a jump leaves the
items after it undone.
-/

namespace NumberedBasic

namespace Exec

/-- Carries out actions one after another, up to the first that has jumped. -/
def inTurn : List (Exec Bool) → Exec Unit
  | [] => pure ()
  | action :: others => do
      if ← action then pure () else inTurn others

theorem inTurn_cons_apply (action : Exec Bool) (others : List (Exec Bool))
    (state : State) :
    inTurn (action :: others) state =
      match action state with
      | .ok true final => .ok () final
      | .ok false final => inTurn others final
      | .error halt final => .error halt final := by
  change EStateM.bind action _ state = _
  rw [EStateM.bind]
  cases action state with
  | ok jumped final => cases jumped <;> rfl
  | error halt final => rfl

/-- An action that does not jump. -/
def straight (action : Exec Unit) : Exec Bool := do
  action
  return false

/-- Moves one loop on; if it continues, the run goes on after its FOR. -/
def nextLoop (name : Option String) : Exec Bool := do
  let (loop, more) ← iterate (← findLoop name)
  setScalar loop.name (.number loop.current)
  if more then
    jump (loop.forIndex + 1)
    return true
  else
    closeLoop loop
    return false

theorem forM_eq_inTurn {α : Type} (items : List α) (action : α → Exec Unit) :
    items.forM action =
      inTurn (items.map fun item => straight (action item)) := by
  induction items with
  | nil => rfl
  | cons item items ih =>
      change (action item >>= fun _ => items.forM action) = _
      rw [ih, List.map_cons, inTurn, straight]
      simp only [bind_assoc, pure_bind, Bool.false_eq_true, if_false]

theorem nextLoops_eq_inTurn (names : List (Option String)) :
    nextLoops names = inTurn (names.map nextLoop) := by
  induction names with
  | nil => rfl
  | cons name names ih =>
      rw [nextLoops, ih, List.map_cons, inTurn, nextLoop]
      simp only [bind_assoc]
      congr 1
      funext loop
      congr 1
      funext moved
      congr 1
      funext _
      cases moved.2 <;> simp

end Exec

end NumberedBasic
