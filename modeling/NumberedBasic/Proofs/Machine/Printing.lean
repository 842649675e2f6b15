import NumberedBasic.Machine.Exec

/-!
# Printing

A PRINT writes the text that its items come to when they are added up from the
left, beginning with an empty text and with a text for each separator in
between.  It fails where that sum fails, and then nothing is written.
-/

namespace NumberedBasic

/-! ## Sums -/

/-- The text that a separator puts between two items. -/
def Separator.gap (separator : Separator) : String :=
  if separator = .comma then "\t" else ""

namespace Expr

/-- A sum with an item more. -/
def joined (sum : Expr) (separator : Separator) (item : Expr) : Expr :=
  .binary .add (.binary .add sum (.text separator.gap)) item

/-- The sum of an empty text and all items, with the texts of the separators
between them. -/
def concatenation : List Expr → List Separator → Expr
  | [], _ => .text ""
  | first :: others, separators =>
      (separators.zip others).foldl
        (fun sum (separator, item) => sum.joined separator item)
        (.binary .add (.text "") first)

variable {memory : Memory}

theorem eval_add_of_text {left : Expr} {s : String}
    (hleft : left.eval memory = .ok (.text s)) (right : Expr) :
    (binary .add left right).eval memory =
      (right.eval memory).map fun value => .text (s ++ value.render) := by
  rw [eval, hleft]
  cases right.eval memory <;> rfl

theorem eval_add_of_error {left : Expr} {halt : Halt}
    (hleft : left.eval memory = .error halt) (right : Expr) :
    (binary .add left right).eval memory = .error halt := by
  rw [eval, hleft]
  rfl

theorem eval_joined_of_error {sum : Expr} {halt : Halt}
    (hsum : sum.eval memory = .error halt) (separator : Separator)
    (item : Expr) : (sum.joined separator item).eval memory = .error halt :=
  eval_add_of_error (eval_add_of_error hsum _) item

theorem eval_joined_of_text {sum : Expr} {s : String}
    (hsum : sum.eval memory = .ok (.text s)) (separator : Separator)
    (item : Expr) :
    (sum.joined separator item).eval memory =
      (item.eval memory).map fun value =>
        .text (s ++ separator.gap ++ value.render) := by
  apply eval_add_of_text
  rw [eval_add_of_text hsum, eval]
  rfl

/-- A sum that has failed does not recover. -/
theorem eval_foldl_joined_of_error {sum : Expr} {halt : Halt}
    (hsum : sum.eval memory = .error halt) (rest : List (Separator × Expr)) :
    (rest.foldl (fun sum (separator, item) => sum.joined separator item)
      sum).eval memory = .error halt := by
  induction rest generalizing sum with
  | nil => exact hsum
  | cons next rest ih => exact ih (eval_joined_of_error hsum next.1 next.2)

/-- A sum that has come to a text goes on with the texts that are printed
after it. -/
theorem eval_foldl_joined {sum : Expr} {s : String}
    (hsum : sum.eval memory = .ok (.text s)) {items : List Expr}
    {separators : List Separator} (hlength : items.length = separators.length) :
    ((separators.zip items).foldl
      (fun sum (separator, item) => sum.joined separator item)
      sum).eval memory =
      (printedRest memory items separators).map fun texts =>
        .text (s ++ String.join texts) := by
  induction items generalizing sum s separators with
  | nil =>
      rw [List.zip_nil_right, List.foldl_nil, hsum, printedRest, Except.map,
        String.join_nil, String.append_empty]
  | cons item items ih =>
      cases separators with
      | nil => cases hlength
      | cons separator separators =>
          have hjoined := eval_joined_of_text hsum separator item
          rw [List.zip_cons_cons, List.foldl_cons, printedRest]
          cases hitem : item.eval memory with
          | error halt =>
              rw [hitem] at hjoined
              exact eval_foldl_joined_of_error hjoined _
          | ok value =>
              rw [hitem] at hjoined
              rw [ih hjoined (Nat.succ.inj hlength)]
              cases printedRest memory items separators with
              | error halt => rfl
              | ok texts =>
                  change Except.ok (Value.text _) = Except.ok (Value.text
                    (s ++ String.join (separator.gap :: value.render :: texts)))
                  rw [String.join_cons, String.join_cons, String.append_assoc,
                    String.append_assoc]

/-- The sum of all items is the text that they are printed as. -/
theorem eval_concatenation {items : List Expr} {separators : List Separator}
    (hlength : items.length = separators.length + 1) :
    (concatenation items separators).eval memory =
      (printedItems memory separators items).map fun texts =>
        .text (String.join texts) := by
  cases items with
  | nil => cases hlength
  | cons first others =>
      have hfirst : (binary .add (.text "") first).eval memory =
          (first.eval memory).map fun value => .text ("" ++ value.render) :=
        eval_add_of_text rfl first
      rw [concatenation, printedItems]
      cases hvalue : first.eval memory with
      | error halt =>
          rw [hvalue] at hfirst
          exact eval_foldl_joined_of_error hfirst _
      | ok value =>
          rw [hvalue] at hfirst
          rw [eval_foldl_joined hfirst (Nat.succ.inj hlength)]
          cases printedRest memory others separators with
          | error halt => rfl
          | ok texts =>
              change Except.ok (Value.text _) =
                Except.ok (Value.text (String.join (value.render :: texts)))
              rw [String.join_cons, String.empty_append]

end Expr

/-! ## Statements -/

theorem Statement.exec_print [Host] (items : List Expr) (separators : List Separator)
    (ending : Option Separator) (table : Table) (state : State) :
    (Statement.print items separators ending).exec table state =
      match printedItems state.toMemory separators items with
      | .ok texts => .ok () { state with
          output := state.output.push (String.join texts ++ lineEnd ending) }
      | .error halt => .error halt state := by
  change (Exec.ofExcept (printedItems state.toMemory separators items) >>=
    fun texts => Exec.write (String.join texts ++ lineEnd ending)) state = _
  cases printedItems state.toMemory separators items <;> rfl

/-- A PRINT fails exactly where the sum of its items does, with the same
failure and nothing changed; otherwise the sum is a text, and that is what it
writes, with a line feed unless a semicolon follows. -/
theorem Statement.exec_print_concatenation [Host] {items : List Expr}
    {separators : List Separator}
    (hlength : items.length = separators.length + 1)
    (ending : Option Separator) (table : Table) (state : State) :
    (∀ halt later,
      (Statement.print items separators ending).exec table state =
          .error halt later ↔
        (Expr.concatenation items separators).eval state.toMemory =
          .error halt ∧ later = state) ∧
    ∀ later,
      (Statement.print items separators ending).exec table state =
          .ok () later ↔
        ∃ text, (Expr.concatenation items separators).eval state.toMemory =
            .ok (.text text) ∧
          later = { state with
            output := state.output.push
              (text ++ if ending = some .semicolon then "" else "\n") } := by
  rw [Statement.exec_print, Expr.eval_concatenation hlength]
  cases printedItems state.toMemory separators items with
  | error halt => simp [Except.map, eq_comm]
  | ok texts => simp [Except.map, lineEnd, eq_comm]

/-- A number and a text are printed, and then there is a division by zero. -/
theorem Statement.exec_print_concatenation_of_mixed :
    let table : Table := ⟨[], []⟩
    let items : List Expr := [.number 1, .text "A", .number 2]
    let separators : List Separator := [.comma, .semicolon]
    let quotient : Expr := .binary .divide (.text "B") (.number 0)
    items.length = separators.length + 1 ∧
      (items ++ [quotient]).length = (.comma :: separators).length + 1 ∧
      (Statement.print items separators (some .comma)).exec table .fresh =
        .ok () { State.fresh with output := #["1\tA2\n"] } ∧
      (Statement.print (items ++ [quotient]) (.comma :: separators) none).exec
          table .fresh =
        .error (.error .divisionByZero) .fresh := by
  intro table items separators quotient
  have hprinted := @exec_print_concatenation _ items separators rfl (some .comma)
    table .fresh
  have hfailed := @exec_print_concatenation _ (items ++ [quotient])
    (.comma :: separators) rfl none table .fresh
  refine ⟨rfl, rfl, (hprinted.2 _).mpr ⟨"1\tA2", ?_, ?_⟩,
    (hfailed.1 _ _).mpr ⟨?_, rfl⟩⟩
  · rfl
  · rfl
  · rfl

end NumberedBasic
