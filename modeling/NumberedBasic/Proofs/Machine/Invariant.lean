import Mathlib.Data.List.Flatten
import Mathlib.Data.List.Nodup
import NumberedBasic.Proofs.Machine.Contract

/-!
# What holds in every state of a run

Whatever a program does, its counters stay within the table and the data, the
open loops belong to FOR statements of the table and to assigned variables,
and every array has the elements that its bounds call for.  Each action keeps
this, also where it stops half-way; hence so does every statement, and every
number of dispatches.
-/

namespace NumberedBasic

/-! ## The invariant -/

/-- A FOR on the variable, or an IF with one somewhere in its branches. -/
def Statement.opens (name : String) : Statement → Bool
  | .forLoop counter _ _ _ => counter = name
  | .ifThen _ branch => branch.opens name
  | .ifElse _ branch otherwise => branch.opens name || otherwise.opens name
  | _ => false

/-- The statement at the index may open a loop on the variable. -/
def Table.OpensAt (table : Table) (name : String) (index : Int) : Prop :=
  ∃ line, table.line? index = some line ∧ line.statement.opens name = true

/-- The index of a statement, or the end of the table. -/
def Table.IsPlace (table : Table) (index : Int) : Prop :=
  0 ≤ index ∧ index ≤ table.size

/-- No bound is negative, and there is an element for every index. -/
structure Block.Sound (block : Block) : Prop where
  bounds_nonneg : ∀ bound ∈ block.bounds, 0 ≤ bound
  size_cells : (block.cells.size : Int) = cellCount block.bounds

def Arrays.Sound (arrays : Arrays) : Prop :=
  ∀ name block, arrays.blocks.get? name = some block → block.Sound

/-- No two loops share a variable, and each belongs to a FOR of the table and
to an assigned variable. -/
structure Loops.Sound (table : Table) (scalars : Scalars) (loops : Loops) :
    Prop where
  distinct : (loops.map Loop.name).Nodup
  opened : ∀ loop ∈ loops, table.OpensAt loop.name loop.forIndex
  assigned : ∀ loop ∈ loops, scalars.contains loop.name = true

structure State.Sound (table : Table) (state : State) : Prop where
  pc_place : table.IsPlace state.pc
  next_place : table.IsPlace state.next
  data_range : state.dataPosition ≤ table.data.length
  loops : state.loops.Sound table state.scalars
  arrays : state.arrays.Sound

/-! ## Places in the table -/

theorem Table.line?_range {table : Table} {index : Int} {line : Line}
    (hline : table.line? index = some line) :
    0 ≤ index ∧ index < table.size := by
  rw [Table.line?] at hline
  split at hline
  case isTrue hnonneg =>
    obtain ⟨hlength, -⟩ := List.getElem?_eq_some_iff.mp hline
    have : index.toNat < table.size := hlength
    omega
  case isFalse => cases hline

theorem Table.exists_line? {table : Table} {index : Nat}
    (hindex : index < table.size) : ∃ line, table.line? index = some line := by
  rw [line?, if_pos (Int.natCast_nonneg index), Int.toNat_natCast]
  exact ⟨_, List.getElem?_eq_getElem hindex⟩

theorem Table.isPlace_succ {table : Table} {index : Int} {line : Line}
    (hline : table.line? index = some line) : table.IsPlace (index + 1) := by
  have hrange := Table.line?_range hline
  exact ⟨by omega, by omega⟩

theorem Table.OpensAt.isPlace_succ {table : Table} {name : String}
    {index : Int} (hopens : table.OpensAt name index) :
    table.IsPlace (index + 1) := by
  obtain ⟨line, hline, -⟩ := hopens
  exact Table.isPlace_succ hline

theorem Table.isPlace_of_findLine {table : Table} {target : Option Int}
    {index : Int} (hfound : table.findLine target = .ok index) :
    table.IsPlace index := by
  rw [Table.findLine] at hfound
  split at hfound
  case h_1 position hposition =>
    cases hfound
    obtain ⟨hlength, -⟩ := List.findIdx?_eq_some_iff_findIdx_eq.mp hposition
    have : position < table.size := hlength
    exact ⟨by omega, by omega⟩
  case h_2 => cases hfound

theorem Table.dataPosition_le (program : Program) (target : Int) :
    (Table.ofProgram program).dataPosition target ≤
      (Table.ofProgram program).data.length := by
  simp only [Table.dataPosition, Table.ofProgram]
  exact ((List.takeWhile_sublist _).flatMap Line.data).length_le

/-! ## Arrays -/

theorem cellCount_pos {bounds : List Int}
    (hbounds : ∀ bound ∈ bounds, 0 ≤ bound) : 0 < cellCount bounds := by
  induction bounds with
  | nil => exact Int.one_pos
  | cons bound bounds ih =>
      have hbound := hbounds bound List.mem_cons_self
      have hothers := ih fun other hother =>
        hbounds other (List.mem_cons_of_mem _ hother)
      exact Int.mul_pos (by omega) hothers

theorem Arrays.sound_empty : Arrays.empty.Sound := by
  intro name block hblock
  cases hblock

theorem Arrays.Sound.insert {arrays : Arrays} (harrays : arrays.Sound)
    (name : String) {block : Block} (hblock : block.Sound) :
    Arrays.Sound ⟨arrays.blocks.insert name block⟩ := by
  intro other found hfound
  rw [OrderedMap.get?_insert] at hfound
  split at hfound
  · cases hfound
    exact hblock
  · exact harrays other found hfound

theorem Arrays.Sound.declare [Host] {arrays changed : Arrays} {name : String}
    {bounds : List Int} (harrays : arrays.Sound)
    (hdeclare : arrays.declare name bounds = .ok changed) : changed.Sound := by
  rw [Arrays.declare] at hdeclare
  split at hdeclare
  · cases hdeclare
  case isFalse hnegative =>
    split at hdeclare
    · cases hdeclare
      have hbounds : ∀ bound ∈ bounds, 0 ≤ bound := by simpa using hnegative
      have hpositive := cellCount_pos hbounds
      exact harrays.insert name ⟨hbounds, by simp; omega⟩
    · cases hdeclare

theorem Arrays.error_of_declare [Host] {arrays : Arrays} {name : String}
    {bounds : List Int} {error : RunError}
    (hdeclare : arrays.declare name bounds = .error error) :
    error = .negativeDimension ∨ error = .outOfMemory name := by
  rw [Arrays.declare] at hdeclare
  split at hdeclare
  · cases hdeclare
    exact Or.inl rfl
  · split at hdeclare
    · cases hdeclare
    · cases hdeclare
      exact Or.inr rfl

theorem Arrays.block_eq_ok {arrays : Arrays} {name : String} {block : Block}
    (hblock : arrays.block name = .ok block) :
    arrays.blocks.get? name = some block := by
  rw [Arrays.block] at hblock
  split at hblock
  · next found hfound =>
      cases hblock
      exact hfound
  · cases hblock

theorem Arrays.Sound.set {arrays changed : Arrays} {name : String}
    {index : List Int} {value : Value} (harrays : arrays.Sound)
    (hset : arrays.set name index value = .ok changed) : changed.Sound := by
  rw [Arrays.set] at hset
  cases hblock : arrays.block name with
  | error halt =>
      rw [hblock] at hset
      cases hset
  | ok block =>
      have hsound := harrays name block (Arrays.block_eq_ok hblock)
      simp only [hblock, bind, Except.bind] at hset
      split at hset
      · cases hset
        exact harrays
      · split at hset
        · cases hset
          apply harrays.insert name
          exact ⟨hsound.bounds_nonneg, by simpa using hsound.size_cells⟩
        · cases hset

/-- Arrays change only where an element is assigned. -/
theorem Arrays.set_cases {arrays changed : Arrays} {name : String}
    {index : List Int} {value : Value}
    (hset : arrays.set name index value = .ok changed) :
    changed = arrays ∨
      ∃ block, changed = ⟨arrays.blocks.insert name block⟩ := by
  rw [Arrays.set] at hset
  cases hblock : arrays.block name with
  | error halt =>
      rw [hblock] at hset
      cases hset
  | ok block =>
      simp only [hblock, bind, Except.bind] at hset
      split at hset
      · cases hset
        exact Or.inl rfl
      · split at hset
        · cases hset
          exact Or.inr ⟨_, rfl⟩
        · cases hset

theorem Arrays.declare_cases [Host] {arrays changed : Arrays} {name : String}
    {bounds : List Int} (hdeclare : arrays.declare name bounds = .ok changed) :
    ∃ block, changed = ⟨arrays.blocks.insert name block⟩ := by
  rw [Arrays.declare] at hdeclare
  split at hdeclare
  · cases hdeclare
  · split at hdeclare
    · cases hdeclare
      exact ⟨_, rfl⟩
    · cases hdeclare

/-! ## Open loops -/

theorem Scalars.contains_set {scalars : Scalars} {name wanted : String}
    {value : Value} :
    (scalars.set name value).contains wanted =
      (name = wanted || scalars.contains wanted) := by
  simp only [Scalars.contains, Scalars.set, OrderedMap.contains,
    OrderedMap.get?_insert]
  split <;> simp [*]

theorem Loops.find_of_mem {loops : Loops}
    (hdistinct : (loops.map Loop.name).Nodup) {loop : Loop}
    (hloop : loop ∈ loops) : loops.find (some loop.name) = .ok loop := by
  induction loops with
  | nil => cases hloop
  | cons first others ih =>
      rw [List.map_cons, List.nodup_cons] at hdistinct
      cases hloop with
      | head => simp [Loops.find]
      | tail _ hothers =>
          have hne : first.name ≠ loop.name := by
            intro heq
            exact hdistinct.1 (heq ▸ List.mem_map_of_mem hothers)
          simpa [Loops.find, hne] using ih hdistinct.2 hothers

theorem Loops.mem_of_find {loops : Loops} {name : Option String} {loop : Loop}
    (hfind : loops.find name = .ok loop) : loop ∈ loops := by
  unfold Loops.find at hfind
  cases name with
  | none =>
      cases hlast : loops.getLast? with
      | none => simp [hlast] at hfind
      | some last =>
          simp only [hlast, Except.ok.injEq] at hfind
          exact hfind ▸ List.mem_of_getLast? hlast
  | some name =>
      cases hfound : loops.find? (·.name = name) with
      | none => simp [hfound] at hfind
      | some found =>
          simp only [hfound, Except.ok.injEq] at hfind
          exact hfind ▸ List.mem_of_find?_eq_some hfound

theorem Loops.error_of_find {loops : Loops} {name : Option String}
    {error : RunError} (hfind : loops.find name = .error error) :
    error = .nextWithoutFor name := by
  unfold Loops.find at hfind
  cases name with
  | none =>
      cases hlast : loops.getLast? with
      | none =>
          simp only [hlast, Except.error.injEq] at hfind
          exact hfind.symm
      | some last => simp [hlast] at hfind
  | some name =>
      cases hfound : loops.find? (·.name = name) with
      | none =>
          simp only [hfound, Except.error.injEq] at hfind
          exact hfind.symm
      | some found => simp [hfound] at hfind

theorem Loops.map_name_changed (loops : Loops) (loop : Loop) :
    (loops.changed loop).map Loop.name = loops.map Loop.name := by
  rw [Loops.changed, List.map_map]
  apply List.map_congr_left
  intro other _
  by_cases hname : other.name = loop.name <;> simp [hname]

namespace Loops.Sound

variable {table : Table} {scalars : Scalars} {loops : Loops}

theorem set (hloops : loops.Sound table scalars) (name : String)
    (value : Value) : loops.Sound table (scalars.set name value) where
  distinct := hloops.distinct
  opened := hloops.opened
  assigned loop hloop := by
    rw [Scalars.contains_set, hloops.assigned loop hloop, Bool.or_true]

/-- Opening a loop and assigning its variable. -/
theorem opened_set (hloops : loops.Sound table scalars) {loop : Loop}
    (hloop : table.OpensAt loop.name loop.forIndex) (value : Value) :
    (loops.opened loop).Sound table (scalars.set loop.name value) where
  distinct := by
    rw [Loops.opened, List.map_append]
    apply List.Nodup.append
    · exact hloops.distinct.sublist (List.filter_sublist.map _)
    · exact List.nodup_singleton _
    · simp
  opened other hother := by
    rw [Loops.opened, List.mem_append, List.mem_singleton] at hother
    rcases hother with hold | rfl
    · exact hloops.opened other (List.mem_of_mem_filter hold)
    · exact hloop
  assigned other hother := by
    rw [Loops.opened, List.mem_append, List.mem_singleton] at hother
    rw [Scalars.contains_set]
    rcases hother with hold | rfl
    · rw [hloops.assigned other (List.mem_of_mem_filter hold), Bool.or_true]
    · simp

theorem changed (hloops : loops.Sound table scalars) {loop : Loop}
    (hloop : table.OpensAt loop.name loop.forIndex) :
    (loops.changed loop).Sound table scalars where
  distinct := by
    rw [Loops.map_name_changed]
    exact hloops.distinct
  opened other hother := by
    obtain ⟨old, hold, rfl⟩ := List.mem_map.mp hother
    split
    · exact hloop
    · exact hloops.opened old hold
  assigned other hother := by
    obtain ⟨old, hold, rfl⟩ := List.mem_map.mp hother
    have hassigned := hloops.assigned old hold
    split
    next hname => rwa [← hname]
    next => exact hassigned

theorem closed (hloops : loops.Sound table scalars) {loop : Loop}
    {remaining : Loops} (hclosed : loops.closed loop = .ok remaining) :
    remaining.Sound table scalars := by
  rw [Loops.closed] at hclosed
  split at hclosed
  · cases hclosed
    exact
      { distinct := hloops.distinct.sublist (List.filter_sublist.map _)
        opened := fun other hother =>
          hloops.opened other (List.mem_of_mem_filter hother)
        assigned := fun other hother =>
          hloops.assigned other (List.mem_of_mem_filter hother) }
  · cases hclosed

end Loops.Sound

end NumberedBasic
