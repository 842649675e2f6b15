import NumberedBasic.Memory.Arrays

/-!
# Open loops

The loops that FOR statements have opened, in order of opening, at most one
for each variable.
-/

namespace NumberedBasic

structure Loop where
  name : String
  current : Float
  stop : Float
  step : Float
  /-- The table index of the FOR. -/
  forIndex : Int
  deriving DecidableEq

namespace Loop

/-- The loop after another step. -/
def advance (loop : Loop) : Loop :=
  { loop with current := loop.current + loop.step }

/-- The value of the loop has not passed its end.  Only a positive step counts
upward. -/
def continues (loop : Loop) : Bool :=
  if loop.step > 0 then loop.current ≤ loop.stop
  else loop.stop ≤ loop.current

def debugText (loop : Loop) : String :=
  let shown := Decimal.text Decimal.debugging
  "ForLoop(" ++ Text.quoted loop.name ++ ", current=" ++ shown loop.current ++
    ", stop=" ++ shown loop.stop ++ ", step=" ++ shown loop.step ++
    ", for_index=" ++ toString loop.forIndex ++ ")"

end Loop

/-- The open loops, the most recently opened last. -/
abbrev Loops := List Loop

namespace Loops

/-- Opens a loop; it takes the place of an open loop on its variable and
counts as the most recent. -/
def opened (loops : Loops) (loop : Loop) : Loops :=
  loops.filter (·.name ≠ loop.name) ++ [loop]

/-- The loop on a variable, or the most recent one. -/
def find (loops : Loops) : Option String → Except RunError Loop
  | none =>
      match loops.getLast? with
      | some loop => .ok loop
      | none => .error (.nextWithoutFor none)
  | some name =>
      match loops.find? (·.name = name) with
      | some loop => .ok loop
      | none => .error (.nextWithoutFor (some name))

/-- Changes the loop on a variable in its place. -/
def changed (loops : Loops) (loop : Loop) : Loops :=
  loops.map fun other => if other.name = loop.name then loop else other

def closed (loops : Loops) (loop : Loop) : Except Halt Loops :=
  if loops.any (·.name = loop.name) then
    .ok (loops.filter (·.name ≠ loop.name))
  else .error (.defect (.missingLoop loop.name))

end Loops

end NumberedBasic
