import NumberedBasic.Token.Cursor

/-!
# What the basic parsers do with a cursor

Each looks at the next token and either reads it or leaves it.
-/

namespace NumberedBasic

namespace Parser

variable {α β : Type} (cursor : Cursor)

theorem bind_apply (first : Parser α) (next : α → Parser β) :
    (first >>= next) cursor =
      (first cursor).bind fun result => next result.1 result.2 := rfl

theorem remaining_bind_apply (next : Nat → Parser α) :
    (remaining >>= next) cursor = next cursor.rest.length cursor := rfl

theorem peek_bind_apply (next : Token → Parser α) :
    (peek >>= next) cursor = next cursor.peek cursor := rfl

theorem skip_bind_apply (next : Unit → Parser α) :
    ((modify Cursor.skip : Parser Unit) >>= next) cursor =
      next () cursor.skip := rfl

theorem refuse_apply (cause : SyntaxCause) :
    (refuse cause : Parser α) cursor =
      .error (.refused (cursor.errorHere cause)) := rfl

theorem unexpected_apply :
    (unexpected : Parser α) cursor = .error (.refused cursor.unexpected) := rfl

theorem accept_apply (meaning? : TokenKind → Option α) :
    accept meaning? cursor =
      match meaning? cursor.peek.kind with
      | some meaning => .ok (some meaning, cursor.skip)
      | none => .ok (none, cursor) := by
  change (match meaning? cursor.peek.kind with
    | some meaning => (do modify Cursor.skip; return some meaning : Parser _)
    | none => return none) cursor = _
  cases meaning? cursor.peek.kind <;> rfl

theorem acceptKind_apply (kind : TokenKind) :
    acceptKind kind cursor =
      if cursor.peek.kind = kind then .ok (true, cursor.skip)
      else .ok (false, cursor) := by
  change (if cursor.peek.kind = kind then
    (do modify Cursor.skip; return true : Parser _) else return false) cursor = _
  split <;> rfl

theorem acceptAny_apply (kinds : List TokenKind) :
    acceptAny kinds cursor =
      if kinds.contains cursor.peek.kind then
        .ok (some cursor.peek, cursor.skip)
      else .ok (none, cursor) := by
  change (if kinds.contains cursor.peek.kind then
    (do modify Cursor.skip; return some cursor.peek : Parser _)
    else return none) cursor = _
  split <;> rfl

theorem demand_apply (kinds : List TokenKind) (what : Expected) :
    demand kinds what cursor =
      if kinds.contains cursor.peek.kind then .ok (cursor.peek, cursor.skip)
      else .error (.refused (cursor.errorHere (.expected what))) := by
  change (if kinds.contains cursor.peek.kind then
    (do modify Cursor.skip; return cursor.peek : Parser _)
    else refuse (.expected what)) cursor = _
  split <;> rfl

/-! ## What was read -/

section Read

variable {cursor later : Cursor}

theorem later_of_accept {meaning? : TokenKind → Option α} {meaning : α}
    (haccept : accept meaning? cursor = .ok (some meaning, later)) :
    meaning? cursor.peek.kind = some meaning ∧ later = cursor.skip := by
  rw [accept_apply] at haccept
  split at haccept
  next hmeaning =>
    cases haccept
    exact ⟨hmeaning, rfl⟩
  next => cases haccept

theorem later_of_acceptKind {kind : TokenKind}
    (haccept : acceptKind kind cursor = .ok (true, later)) :
    cursor.peek.kind = kind ∧ later = cursor.skip := by
  rw [acceptKind_apply] at haccept
  split at haccept
  next hkind =>
    cases haccept
    exact ⟨hkind, rfl⟩
  next => cases haccept

theorem later_of_acceptAny {kinds : List TokenKind} {token : Token}
    (haccept : acceptAny kinds cursor = .ok (some token, later)) :
    kinds.contains cursor.peek.kind = true ∧ later = cursor.skip := by
  rw [acceptAny_apply] at haccept
  split at haccept
  next hcontains =>
    cases haccept
    exact ⟨hcontains, rfl⟩
  next => cases haccept

end Read

end Parser

end NumberedBasic
