import NumberedBasic.Machine.Exec
import NumberedBasic.Proofs.Numbering.Renumber

/-!
# What evaluation can fail with

The errors of expressions are about their operands and the arrays that they
name, never about lines, loops or the data.
-/

namespace NumberedBasic

/-- What the evaluation of an expression can fail with. -/
def Halt.ofEvaluation : Halt → Bool
  | .error .divisionByZero => true
  | .error (.notANumber _) => true
  | .error (.undefinedArray _) => true
  | .error (.unknownKind _) => true
  | .error _ => false
  | .defect _ => true

theorem Halt.renumber_of_ofEvaluation (f : Int → Int) {halt : Halt}
    (hhalt : halt.ofEvaluation = true) : halt.renumber f = halt := by
  cases halt with
  | error cause =>
      cases cause with
      | undefinedLine target => cases hhalt
      | _ => rfl
  | defect cause => rfl

/-- If the outcome is a failure, it is one that evaluation can have. -/
def failsInEvaluation {α : Type} (outcome : Except Halt α) : Prop :=
  ∀ halt, outcome = .error halt → halt.ofEvaluation = true

section Outcomes

variable {α β : Type}

theorem failsInEvaluation_ok (value : α) :
    failsInEvaluation (.ok value) := by
  intro halt herror
  cases herror

theorem failsInEvaluation_error {halt : Halt}
    (hhalt : halt.ofEvaluation = true) :
    failsInEvaluation (.error halt : Except Halt α) := by
  intro other herror
  cases herror
  exact hhalt

theorem failsInEvaluation_bind {outcome : Except Halt α}
    {next : α → Except Halt β} (houtcome : failsInEvaluation outcome)
    (hnext : ∀ value, failsInEvaluation (next value)) :
    failsInEvaluation (outcome >>= next) := by
  cases outcome with
  | ok value => exact hnext value
  | error halt => exact failsInEvaluation_error (houtcome halt rfl)

end Outcomes

/-! ## Operators, conversions and elements -/

theorem BinaryOp.failsInEvaluation_apply (op : BinaryOp) (left right : Value) :
    failsInEvaluation (Halt.ofRun (op.apply left right)) := by
  cases op
  case divide =>
    simp only [BinaryOp.apply, Value.quotient]
    split
    · exact failsInEvaluation_error rfl
    · exact failsInEvaluation_ok _
  all_goals exact failsInEvaluation_ok _

theorem Value.failsInEvaluation_expectNumber (use : Option NumericUse)
    (value : Value) :
    failsInEvaluation (Halt.ofRun (value.expectNumber use)) := by
  cases value with
  | number x => exact failsInEvaluation_ok _
  | text s => exact failsInEvaluation_error rfl

theorem Value.failsInEvaluation_toIndex (use : NumericUse) (value : Value) :
    failsInEvaluation (Halt.ofRun (value.toIndex use)) := by
  cases value with
  | number x => exact failsInEvaluation_ok _
  | text s => exact failsInEvaluation_error rfl

theorem Arrays.failsInEvaluation_block (arrays : Arrays) (name : String) :
    failsInEvaluation (arrays.block name) := by
  unfold Arrays.block
  split
  · exact failsInEvaluation_ok _
  · exact failsInEvaluation_error rfl

theorem Arrays.failsInEvaluation_get (arrays : Arrays) (name : String)
    (index : List Int) : failsInEvaluation (arrays.get name index) := by
  apply failsInEvaluation_bind (arrays.failsInEvaluation_block name)
  intro block
  split
  · exact failsInEvaluation_ok _
  · split
    · exact failsInEvaluation_ok _
    · exact failsInEvaluation_error rfl

theorem Arrays.failsInEvaluation_set (arrays : Arrays) (name : String)
    (index : List Int) (value : Value) :
    failsInEvaluation (arrays.set name index value) := by
  apply failsInEvaluation_bind (arrays.failsInEvaluation_block name)
  intro block
  split
  · exact failsInEvaluation_ok _
  · split
    · exact failsInEvaluation_ok _
    · exact failsInEvaluation_error rfl

/-! ## Expressions -/

mutual

theorem Expr.failsInEvaluation_eval (memory : Memory) :
    (expr : Expr) → failsInEvaluation (expr.eval memory)
  | .number x => failsInEvaluation_ok _
  | .text s => failsInEvaluation_ok _
  | .reference name [] => failsInEvaluation_ok _
  | .reference name (first :: others) => by
      rw [Expr.eval]
      apply failsInEvaluation_bind (memory.arrays.failsInEvaluation_block name)
      intro block
      apply failsInEvaluation_bind
        (failsInEvaluation_evalIndices memory .arrayIndex (first :: others))
      intro index
      exact memory.arrays.failsInEvaluation_get name index
  | .unary op operand => by
      rw [Expr.eval]
      apply failsInEvaluation_bind (Expr.failsInEvaluation_eval memory operand)
      exact fun value => failsInEvaluation_ok _
  | .binary op left right => by
      rw [Expr.eval]
      apply failsInEvaluation_bind (Expr.failsInEvaluation_eval memory left)
      intro leftValue
      apply failsInEvaluation_bind (Expr.failsInEvaluation_eval memory right)
      exact fun rightValue => op.failsInEvaluation_apply leftValue rightValue
  | .unaryOther symbol operand => by
      rw [Expr.eval]
      apply failsInEvaluation_bind (Expr.failsInEvaluation_eval memory operand)
      exact fun value => failsInEvaluation_error rfl
  | .binaryOther symbol left right => by
      rw [Expr.eval]
      apply failsInEvaluation_bind (Expr.failsInEvaluation_eval memory left)
      intro leftValue
      apply failsInEvaluation_bind (Expr.failsInEvaluation_eval memory right)
      exact fun rightValue => failsInEvaluation_error rfl
  | .unknown kind => failsInEvaluation_error rfl

theorem failsInEvaluation_evalIndices (memory : Memory) (use : NumericUse) :
    (exprs : List Expr) → failsInEvaluation (evalIndices memory use exprs)
  | [] => failsInEvaluation_ok _
  | first :: others => by
      rw [evalIndices]
      apply failsInEvaluation_bind (Expr.failsInEvaluation_eval memory first)
      intro value
      apply failsInEvaluation_bind (value.failsInEvaluation_toIndex use)
      intro index
      apply failsInEvaluation_bind
        (failsInEvaluation_evalIndices memory use others)
      exact fun rest => failsInEvaluation_ok _

end

theorem Expr.failsInEvaluation_evalNumber (memory : Memory) (use : NumericUse)
    (expr : Expr) : failsInEvaluation (expr.evalNumber memory use) := by
  apply failsInEvaluation_bind (Expr.failsInEvaluation_eval memory expr)
  exact fun value => value.failsInEvaluation_expectNumber (some use)

theorem failsInEvaluation_printedRest (memory : Memory) (items : List Expr)
    (separators : List Separator) :
    failsInEvaluation (printedRest memory items separators) := by
  induction items generalizing separators with
  | nil => exact failsInEvaluation_ok _
  | cons item items ih =>
      cases separators with
      | nil => exact failsInEvaluation_error rfl
      | cons separator separators =>
          apply failsInEvaluation_bind (item.failsInEvaluation_eval memory)
          intro value
          apply failsInEvaluation_bind (ih separators)
          exact fun rest => failsInEvaluation_ok _

theorem failsInEvaluation_printedItems (memory : Memory)
    (separators : List Separator) (items : List Expr) :
    failsInEvaluation (printedItems memory separators items) := by
  cases items with
  | nil => exact failsInEvaluation_ok _
  | cons first others =>
      apply failsInEvaluation_bind (first.failsInEvaluation_eval memory)
      intro value
      apply failsInEvaluation_bind
        (failsInEvaluation_printedRest memory others separators)
      exact fun rest => failsInEvaluation_ok _

end NumberedBasic
