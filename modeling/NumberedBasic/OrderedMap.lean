/-!
# Maps that remember the order of their keys

A finite map kept as a list of entries in the order in which the keys first
came in.  Assigning to a key that is there keeps its place.
-/

namespace NumberedBasic

structure OrderedMap (κ α : Type) where
  entries : List (κ × α)
  deriving DecidableEq, Repr

namespace OrderedMap

variable {κ α : Type} [DecidableEq κ]

def empty : OrderedMap κ α := ⟨[]⟩

def keys (map : OrderedMap κ α) : List κ := map.entries.map (·.1)

def get? (map : OrderedMap κ α) (key : κ) : Option α :=
  (map.entries.find? fun entry => entry.1 = key).map (·.2)

def contains (map : OrderedMap κ α) (key : κ) : Bool :=
  (map.get? key).isSome

def insertEntry (key : κ) (value : α) : List (κ × α) → List (κ × α)
  | [] => [(key, value)]
  | (other, old) :: rest =>
      if other = key then (key, value) :: rest
      else (other, old) :: insertEntry key value rest

def insert (map : OrderedMap κ α) (key : κ) (value : α) : OrderedMap κ α :=
  ⟨insertEntry key value map.entries⟩

def erase (map : OrderedMap κ α) (key : κ) : OrderedMap κ α :=
  ⟨map.entries.filter fun entry => entry.1 ≠ key⟩

/-- All entries of the second map assigned in the first. -/
def update (map other : OrderedMap κ α) : OrderedMap κ α :=
  other.entries.foldl (fun map entry => map.insert entry.1 entry.2) map

omit [DecidableEq κ] in
@[simp]
theorem entries_empty : (empty : OrderedMap κ α).entries = [] := rfl

@[simp]
theorem get?_empty (key : κ) : (empty : OrderedMap κ α).get? key = none := rfl

theorem find?_insertEntry (key wanted : κ) (value : α)
    (entries : List (κ × α)) :
    ((insertEntry key value entries).find? fun entry => entry.1 = wanted) =
      if key = wanted then some (key, value)
      else entries.find? fun entry => entry.1 = wanted := by
  induction entries with
  | nil => by_cases h : key = wanted <;> simp [insertEntry, h]
  | cons entry rest ih =>
      obtain ⟨other, old⟩ := entry
      by_cases hkey : other = key
      · by_cases h : key = wanted <;> simp [insertEntry, hkey, h]
      · by_cases hother : other = wanted
        · subst hother
          simp [insertEntry, hkey, Ne.symm hkey]
        · simp [insertEntry, hkey, hother, ih]

/-- What a map holds after an assignment. -/
theorem get?_insert (map : OrderedMap κ α) (key wanted : κ) (value : α) :
    (map.insert key value).get? wanted =
      if key = wanted then some value else map.get? wanted := by
  simp only [get?, insert, find?_insertEntry]
  split <;> rfl

theorem get?_erase (map : OrderedMap κ α) (key wanted : κ) :
    (map.erase key).get? wanted =
      if key = wanted then none else map.get? wanted := by
  simp only [get?, erase, List.find?_filter]
  by_cases h : key = wanted
  · subst h
    simp
  · simp only [h, if_false]
    congr 2
    funext entry
    by_cases hentry : entry.1 = wanted
    · simp [hentry, Ne.symm h]
    · simp [hentry]

end OrderedMap

end NumberedBasic
