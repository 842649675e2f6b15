import NumberedBasic.Proofs.Machine.Invariant
import NumberedBasic.Proofs.Safety.Known

/-!
# Evaluation of known expressions

As long as every array has the elements that its bounds call for, evaluating
an expression of known parts fails with errors of a program only: it never
looks for an element outside an array, or for an operator without a meaning.
-/

namespace NumberedBasic

/-- The errors that a program can be at fault for. -/
def ErrorCode.ofPrograms : List ErrorCode :=
  [nextWithoutFor, outOfData, illegalFunctionCall, outOfMemory,
   undefinedLineNumber, divisionByZero, typeMismatch, undefinedArray]

/-- The fault lies with the program. -/
def Halt.ofProgram : Halt → Bool
  | .error cause => ErrorCode.ofPrograms.contains cause.code
  | .defect _ => false

/-- If the outcome is a failure, the fault lies with the program. -/
def FailsByProgram {α : Type} (outcome : Except Halt α) : Prop :=
  ∀ halt, outcome = .error halt → halt.ofProgram = true

section Outcomes

variable {α β : Type}

theorem failsByProgram_ok (value : α) : FailsByProgram (.ok value) := by
  intro halt herror
  cases herror

theorem failsByProgram_error {halt : Halt} (hhalt : halt.ofProgram = true) :
    FailsByProgram (.error halt : Except Halt α) := by
  intro other herror
  cases herror
  exact hhalt

theorem FailsByProgram.bind {outcome : Except Halt α}
    {next : α → Except Halt β} (houtcome : FailsByProgram outcome)
    (hnext : ∀ value, outcome = .ok value → FailsByProgram (next value)) :
    FailsByProgram (outcome >>= next) := by
  cases outcome with
  | ok value => exact hnext value rfl
  | error halt => exact failsByProgram_error (houtcome halt rfl)

end Outcomes

/-! ## Elements -/

/-- The position of an element is one of the block. -/
theorem flatIndex_range {index bounds : List Int} {position : Int}
    (hbounds : ∀ bound ∈ bounds, 0 ≤ bound)
    (hposition : flatIndex index bounds = some position) :
    0 ≤ position ∧ position < cellCount bounds := by
  induction index generalizing bounds position with
  | nil =>
      cases bounds with
      | nil =>
          cases hposition
          decide
      | cons bound bounds => cases hposition
  | cons i index ih =>
      cases bounds with
      | nil => cases hposition
      | cons bound bounds =>
          rw [flatIndex] at hposition
          split at hposition
          next hrange =>
            obtain ⟨inner, hinner, rfl⟩ := Option.map_eq_some_iff.mp hposition
            rw [List.forall_mem_cons] at hbounds
            obtain ⟨hnonneg, hlength⟩ := ih hbounds.2 hinner
            have hlow : 0 ≤ (bound + 1) * inner :=
              Int.mul_nonneg (by omega) hnonneg
            have hhigh : (bound + 1) * (inner + 1) ≤
                (bound + 1) * cellCount bounds :=
              Int.mul_le_mul_of_nonneg_left hlength (by omega)
            rw [Int.mul_add] at hhigh
            rw [cellCount]
            omega
          next => cases hposition

theorem Block.Sound.position_lt {block : Block} (hblock : block.Sound)
    {index : List Int} {position : Int}
    (hposition : flatIndex index block.bounds = some position) :
    position.toNat < block.cells.size := by
  have hrange := flatIndex_range hblock.bounds_nonneg hposition
  have hsize := hblock.size_cells
  omega

namespace Arrays

theorem failsByProgram_block (arrays : Arrays) (name : String) :
    FailsByProgram (arrays.block name) := by
  unfold block
  split
  · exact failsByProgram_ok _
  · exact failsByProgram_error rfl

variable {arrays : Arrays} (harrays : arrays.Sound) (name : String)
  (index : List Int)

include harrays

theorem Sound.failsByProgram_get : FailsByProgram (arrays.get name index) := by
  apply (arrays.failsByProgram_block name).bind
  intro block hblock
  have hsound := harrays name block (block_eq_ok hblock)
  split
  next => exact failsByProgram_ok _
  next position hposition =>
    rw [Array.getElem?_eq_getElem (hsound.position_lt hposition)]
    exact failsByProgram_ok _

theorem Sound.failsByProgram_set (value : Value) :
    FailsByProgram (arrays.set name index value) := by
  apply (arrays.failsByProgram_block name).bind
  intro block hblock
  have hsound := harrays name block (block_eq_ok hblock)
  split
  next => exact failsByProgram_ok _
  next position hposition =>
    rw [if_pos (hsound.position_lt hposition)]
    exact failsByProgram_ok _

end Arrays

/-! ## Operators and conversions -/

theorem BinaryOp.failsByProgram_apply (op : BinaryOp) (left right : Value) :
    FailsByProgram (Halt.ofRun (op.apply left right)) := by
  cases op
  case divide =>
    simp only [BinaryOp.apply, Value.quotient]
    split
    · exact failsByProgram_error rfl
    · exact failsByProgram_ok _
  all_goals exact failsByProgram_ok _

theorem Value.failsByProgram_expectNumber (use : Option NumericUse)
    (value : Value) : FailsByProgram (Halt.ofRun (value.expectNumber use)) := by
  cases value with
  | number x => exact failsByProgram_ok _
  | text s => exact failsByProgram_error rfl

theorem Value.failsByProgram_toIndex (use : NumericUse) (value : Value) :
    FailsByProgram (Halt.ofRun (value.toIndex use)) := by
  cases value with
  | number x => exact failsByProgram_ok _
  | text s => exact failsByProgram_error rfl

/-! ## Expressions -/

section Expressions

variable {memory : Memory}

theorem failsByProgram_evalIndices (use : NumericUse) {exprs : List Expr}
    (hexprs : ∀ expr ∈ exprs, FailsByProgram (expr.eval memory)) :
    FailsByProgram (evalIndices memory use exprs) := by
  induction exprs with
  | nil => exact failsByProgram_ok _
  | cons first others ih =>
      rw [List.forall_mem_cons] at hexprs
      rw [evalIndices]
      apply hexprs.1.bind
      intro value _
      apply (value.failsByProgram_toIndex use).bind
      intro index _
      apply (ih hexprs.2).bind
      exact fun rest _ => failsByProgram_ok _

variable (harrays : memory.arrays.Sound)

include harrays

theorem Expr.Known.failsByProgram_eval {expr : Expr} (hexpr : expr.Known) :
    FailsByProgram (expr.eval memory) := by
  induction hexpr with
  | number x => exact failsByProgram_ok _
  | text s => exact failsByProgram_ok _
  | @reference name indices _ ih =>
      cases indices with
      | nil => exact failsByProgram_ok _
      | cons first others =>
          rw [Expr.eval]
          apply (memory.arrays.failsByProgram_block name).bind
          intro block _
          apply (failsByProgram_evalIndices .arrayIndex ih).bind
          exact fun index _ => harrays.failsByProgram_get name index
  | unary op _ ih =>
      rw [Expr.eval]
      exact ih.bind fun value _ => failsByProgram_ok _
  | binary op _ _ ihLeft ihRight =>
      rw [Expr.eval]
      apply ihLeft.bind
      intro leftValue _
      apply ihRight.bind
      exact fun rightValue _ => op.failsByProgram_apply leftValue rightValue

theorem failsByProgram_known_indices (use : NumericUse) {exprs : List Expr}
    (hexprs : ∀ expr ∈ exprs, expr.Known) :
    FailsByProgram (evalIndices memory use exprs) :=
  failsByProgram_evalIndices use fun expr hexpr =>
    (hexprs expr hexpr).failsByProgram_eval harrays

theorem Expr.Known.failsByProgram_evalNumber (use : NumericUse) {expr : Expr}
    (hexpr : expr.Known) : FailsByProgram (expr.evalNumber memory use) := by
  apply (hexpr.failsByProgram_eval harrays).bind
  exact fun value _ => value.failsByProgram_expectNumber (some use)

theorem failsByProgram_printedRest {items : List Expr}
    {separators : List Separator} (hitems : ∀ item ∈ items, item.Known)
    (hseparators : items.length ≤ separators.length) :
    FailsByProgram (printedRest memory items separators) := by
  induction items generalizing separators with
  | nil => exact failsByProgram_ok _
  | cons item items ih =>
      rw [List.forall_mem_cons] at hitems
      cases separators with
      | nil => exact absurd hseparators (Nat.not_succ_le_zero _)
      | cons separator separators =>
          apply (hitems.1.failsByProgram_eval harrays).bind
          intro value _
          apply (ih hitems.2 (Nat.le_of_succ_le_succ hseparators)).bind
          exact fun rest _ => failsByProgram_ok _

theorem failsByProgram_printedItems {items : List Expr}
    {separators : List Separator} (hitems : ∀ item ∈ items, item.Known)
    (hseparators : items.length ≤ separators.length + 1) :
    FailsByProgram (printedItems memory separators items) := by
  cases items with
  | nil => exact failsByProgram_ok _
  | cons first others =>
      rw [List.forall_mem_cons] at hitems
      apply (hitems.1.failsByProgram_eval harrays).bind
      intro value _
      apply (failsByProgram_printedRest harrays hitems.2
        (Nat.le_of_succ_le_succ hseparators)).bind
      exact fun rest _ => failsByProgram_ok _

end Expressions

end NumberedBasic
