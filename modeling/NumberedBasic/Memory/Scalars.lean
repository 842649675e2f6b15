import NumberedBasic.OrderedMap
import NumberedBasic.Value

/-!
# Scalar variables

Any value can be kept under any name; a variable that was never assigned
holds the initial value for its name.
-/

namespace NumberedBasic

structure Scalars where
  assigned : OrderedMap String Value
  deriving DecidableEq

namespace Scalars

def empty : Scalars := ⟨.empty⟩

def get (scalars : Scalars) (name : String) : Value :=
  (scalars.assigned.get? name).getD (.initial name)

def set (scalars : Scalars) (name : String) (value : Value) : Scalars :=
  ⟨scalars.assigned.insert name value⟩

def contains (scalars : Scalars) (name : String) : Bool :=
  scalars.assigned.contains name

/-- The assigned names in order of first assignment. -/
def names (scalars : Scalars) : List String := scalars.assigned.keys

def debugText (scalars : Scalars) : String :=
  "\n".intercalate <| scalars.assigned.entries.map fun (name, value) =>
    name ++ ": " ++ value.debugText

theorem get_set (scalars : Scalars) (name wanted : String) (value : Value) :
    (scalars.set name value).get wanted =
      if name = wanted then value else scalars.get wanted := by
  simp only [get, set, OrderedMap.get?_insert]
  split <;> rfl

end Scalars

end NumberedBasic
