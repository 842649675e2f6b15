import NumberedBasic.Proofs.Grammar.Expression
import NumberedBasic.Proofs.Parsing.Primitives

/-!
# What a parser has read

The tokens that a parser has read are those by which the cursor before it
exceeds the cursor after it.  A parser is sound if they always spell its
result; it is complete if it reads tokens that spell a result, with the one
exception that rules may nest too deeply.
-/

namespace NumberedBasic

namespace Cursor

/-- The cursor in front of some more tokens. -/
def before (later : Cursor) (tokens : List Token) : Cursor :=
  ⟨tokens ++ later.rest, later.final⟩

@[simp]
theorem before_nil (later : Cursor) : later.before [] = later := rfl

@[simp]
theorem before_before (later : Cursor) (front back : List Token) :
    (later.before back).before front = later.before (front ++ back) := by
  rw [before, before, before, List.append_assoc]

theorem peek_before (later : Cursor) (token : Token) (tokens : List Token) :
    (later.before (token :: tokens)).peek = token := rfl

theorem skip_before (later : Cursor) (token : Token) (tokens : List Token) :
    (later.before (token :: tokens)).skip = later.before tokens := rfl

theorem eq_before (cursor : Cursor) (hmore : cursor.peek.kind ≠ .endOfInput)
    (hfinal : cursor.final.kind = .endOfInput) :
    cursor = cursor.skip.before [cursor.peek] := by
  obtain ⟨rest, final⟩ := cursor
  cases rest with
  | nil => exact absurd hfinal hmore
  | cons token rest => rfl

/-- Cursors that differ in what has been read have the end of the input in
common. -/
theorem ends_of_eq_before {cursor later : Cursor} {front : List Token}
    (hcursor : cursor = later.before front)
    (hfinal : cursor.final.kind = .endOfInput) :
    later.final.kind = .endOfInput := by
  rw [hcursor] at hfinal
  exact hfinal

theorem before_injective {later : Cursor} {front back : List Token}
    (hbefore : later.before front = later.before back) : front = back :=
  List.append_cancel_right (congrArg rest hbefore)

/-! ### Cursors on lists of tokens -/

theorem final_of_ofTokens? {tokens : List Token} {cursor : Cursor}
    (hcursor : ofTokens? tokens = some cursor) :
    cursor.final.kind = .endOfInput := by
  unfold ofTokens? at hcursor
  split at hcursor
  · obtain ⟨final, hfinal, rfl⟩ := Option.map_eq_some_iff.mp hcursor
    simpa using List.find?_some hfinal
  · cases hcursor

theorem peek_of_ofTokens? {token : Token} {tokens : List Token} {cursor : Cursor}
    (hcursor : ofTokens? (token :: tokens) = some cursor) :
    cursor.peek = token := by
  unfold ofTokens? at hcursor
  split at hcursor
  · obtain ⟨final, hfinal, rfl⟩ := Option.map_eq_some_iff.mp hcursor
    by_cases hend : token.kind = .endOfInput
    · rw [List.find?_cons_of_pos (by simpa using hend)] at hfinal
      cases hfinal
      simp [peek, hend]
    · simp [peek, hend]
  · cases hcursor

/-- Tokens in front that do not end the input are in front of the cursor. -/
theorem ofTokens?_append_cons {front : List Token}
    (hfront : ∀ token ∈ front, token.kind ≠ .endOfInput) (token : Token)
    (tokens : List Token) :
    ofTokens? (front ++ token :: tokens) =
      (ofTokens? (token :: tokens)).map fun cursor => cursor.before front := by
  have hlast : (front ++ token :: tokens).getLast? =
      (token :: tokens).getLast? := by
    rw [List.getLast?_append, List.getLast?_cons]
    rfl
  have hfind : (front ++ token :: tokens).find? (·.kind = .endOfInput) =
      (token :: tokens).find? (·.kind = .endOfInput) := by
    rw [List.find?_append, List.find?_eq_none.mpr (by simpa using hfront)]
    rfl
  have htaken : (front ++ token :: tokens).takeWhile (·.kind ≠ .endOfInput) =
      front ++ (token :: tokens).takeWhile (·.kind ≠ .endOfInput) :=
    List.takeWhile_append_of_pos (by simpa using hfront)
  rw [ofTokens?, ofTokens?, hlast, hfind, htaken]
  split
  · rw [Option.map_map]
    rfl
  · rfl

end Cursor

namespace Parser

variable {α β : Type}

theorem exists_of_bind {first : Parser α} {next : α → Parser β} {value : β}
    {cursor later : Cursor} (hparse : (first >>= next) cursor = .ok (value, later)) :
    ∃ middle between, first cursor = .ok (middle, between) ∧
      next middle between = .ok (value, later) := by
  rw [bind_apply] at hparse
  cases hfirst : first cursor with
  | error failure =>
      rw [hfirst] at hparse
      cases hparse
  | ok result =>
      rw [hfirst] at hparse
      exact ⟨result.1, result.2, rfl, hparse⟩

/-! ## Soundness -/

/-- Whenever the parser answers, the tokens that it has read spell its
result. -/
def Sound (parser : Parser α) (spells : List Token → α → Prop) : Prop :=
  ∀ ⦃cursor later : Cursor⦄ ⦃value : α⦄,
    parser cursor = .ok (value, later) → cursor.final.kind = .endOfInput →
    ∃ tokens, cursor = later.before tokens ∧ spells tokens value

theorem sound_refuse (cause : SyntaxCause) (spells : List Token → α → Prop) :
    Sound (refuse cause) spells := by
  intro cursor later value hparse
  cases hparse

section Read

variable {cursor later : Cursor}

theorem read_of_contains {kinds : List TokenKind}
    (hkinds : kinds.contains .endOfInput = false)
    (hcontains : kinds.contains cursor.peek.kind = true)
    (hfinal : cursor.final.kind = .endOfInput) :
    cursor = cursor.skip.before [cursor.peek] := by
  apply cursor.eq_before _ hfinal
  intro hend
  rw [hend, hkinds] at hcontains
  cases hcontains

theorem read_of_acceptAny {kinds : List TokenKind} {token : Token}
    (haccept : acceptAny kinds cursor = .ok (some token, later))
    (hkinds : kinds.contains .endOfInput = false)
    (hfinal : cursor.final.kind = .endOfInput) :
    kinds.contains token.kind = true ∧ cursor = later.before [token] := by
  rw [acceptAny_apply] at haccept
  split at haccept
  next hcontains =>
    cases haccept
    exact ⟨hcontains, read_of_contains hkinds hcontains hfinal⟩
  next => cases haccept

theorem read_of_demand {kinds : List TokenKind} {what : Expected} {token : Token}
    (hdemand : demand kinds what cursor = .ok (token, later))
    (hkinds : kinds.contains .endOfInput = false)
    (hfinal : cursor.final.kind = .endOfInput) :
    kinds.contains token.kind = true ∧ cursor = later.before [token] := by
  rw [demand_apply] at hdemand
  split at hdemand
  next hcontains =>
    cases hdemand
    exact ⟨hcontains, read_of_contains hkinds hcontains hfinal⟩
  next => cases hdemand

theorem read_of_demandOne {kind : TokenKind} {what : Expected} {token : Token}
    (hdemand : demand [kind] what cursor = .ok (token, later))
    (hkind : kind ≠ .endOfInput) (hfinal : cursor.final.kind = .endOfInput) :
    token.kind = kind ∧ cursor = later.before [token] := by
  obtain ⟨hcontains, hcursor⟩ :=
    read_of_demand hdemand (by simpa using hkind.symm) hfinal
  exact ⟨by simpa using hcontains, hcursor⟩

theorem read_of_accept {meaning? : TokenKind → Option α} {meaning : α}
    (haccept : accept meaning? cursor = .ok (some meaning, later))
    (hend : meaning? .endOfInput = none)
    (hfinal : cursor.final.kind = .endOfInput) :
    ∃ token, meaning? token.kind = some meaning ∧
      cursor = later.before [token] := by
  obtain ⟨hmeaning, rfl⟩ := later_of_accept haccept
  refine ⟨cursor.peek, hmeaning, cursor.eq_before ?_ hfinal⟩
  intro hkind
  rw [hkind, hend] at hmeaning
  cases hmeaning

theorem read_of_acceptKind {kind : TokenKind}
    (haccept : acceptKind kind cursor = .ok (true, later))
    (hkind : kind ≠ .endOfInput) (hfinal : cursor.final.kind = .endOfInput) :
    ∃ token : Token, token.kind = kind ∧ cursor = later.before [token] := by
  obtain ⟨hpeek, rfl⟩ := later_of_acceptKind haccept
  exact ⟨cursor.peek, hpeek, cursor.eq_before (hpeek ▸ hkind) hfinal⟩

end Read

section Left

variable {cursor later : Cursor}

theorem left_of_acceptAny {kinds : List TokenKind}
    (haccept : acceptAny kinds cursor = .ok (none, later)) : later = cursor := by
  rw [acceptAny_apply] at haccept
  split at haccept <;> cases haccept
  rfl

theorem left_of_accept {meaning? : TokenKind → Option α}
    (haccept : accept meaning? cursor = .ok (none, later)) : later = cursor := by
  rw [accept_apply] at haccept
  split at haccept <;> cases haccept
  rfl

theorem left_of_acceptKind {kind : TokenKind}
    (haccept : acceptKind kind cursor = .ok (false, later)) :
    later = cursor ∧ cursor.peek.kind ≠ kind := by
  rw [acceptKind_apply] at haccept
  split at haccept <;> cases haccept
  exact ⟨rfl, ‹_›⟩

end Left

/-! ## Sound parsers in sequence -/

section Sequence

variable {spells : List Token → α → Prop} {spells' : List Token → β → Prop}

theorem Sound.imp {parser : Parser α} (hparser : Sound parser spells)
    {weaker : List Token → α → Prop}
    (hweaker : ∀ tokens value, spells tokens value → weaker tokens value) :
    Sound parser weaker := by
  intro cursor later value hparse hfinal
  obtain ⟨tokens, hcursor, hvalue⟩ := hparser hparse hfinal
  exact ⟨tokens, hcursor, hweaker tokens value hvalue⟩

theorem Sound.bind {first : Parser α} {next : α → Parser β}
    (hfirst : Sound first spells)
    (hnext : ∀ front middle, spells front middle →
      Sound (next middle) fun back value => spells' (front ++ back) value) :
    Sound (first >>= next) spells' := by
  intro cursor later value hparse hfinal
  obtain ⟨middle, between, hmiddle, hlast⟩ := exists_of_bind hparse
  obtain ⟨front, rfl, hfront⟩ := hfirst hmiddle hfinal
  obtain ⟨back, rfl, hback⟩ := hnext front middle hfront hlast hfinal
  exact ⟨front ++ back, Cursor.before_before _ _ _, hback⟩

theorem sound_pure {value : α} (hvalue : spells [] value) :
    Sound (pure value) spells := by
  intro cursor later result hparse _
  cases hparse
  exact ⟨[], rfl, hvalue⟩

theorem Sound.map {parser : Parser α} (hparser : Sound parser spells)
    (form : α → β) (hform : ∀ tokens value, spells tokens value →
      spells' tokens (form value)) :
    Sound (do return form (← parser)) spells' := by
  apply hparser.bind
  intro tokens value hvalue
  apply sound_pure
  rw [List.append_nil]
  exact hform tokens value hvalue

theorem sound_peek_bind {next : Token → Parser α}
    (hnext : ∀ token, Sound (next token) spells) : Sound (peek >>= next) spells := by
  intro cursor later value hparse hfinal
  exact hnext cursor.peek hparse hfinal

theorem sound_remaining_bind {next : Nat → Parser α}
    (hnext : ∀ count, Sound (next count) spells) :
    Sound (remaining >>= next) spells := by
  intro cursor later value hparse hfinal
  exact hnext cursor.rest.length hparse hfinal

theorem sound_demand {kinds : List TokenKind} (what : Expected)
    (hkinds : kinds.contains .endOfInput = false) :
    Sound (demand kinds what) fun tokens token =>
      tokens = [token] ∧ kinds.contains token.kind = true := by
  intro cursor later token hparse hfinal
  obtain ⟨hkind, rfl⟩ := read_of_demand hparse hkinds hfinal
  exact ⟨[token], rfl, rfl, hkind⟩

theorem sound_demandOne {kind : TokenKind} (what : Expected)
    (hkind : kind ≠ .endOfInput) :
    Sound (demand [kind] what) fun tokens token =>
      tokens = [token] ∧ token.kind = kind := by
  intro cursor later token hparse hfinal
  obtain ⟨hread, rfl⟩ := read_of_demandOne hparse hkind hfinal
  exact ⟨[token], rfl, rfl, hread⟩

theorem sound_accept {meaning? : TokenKind → Option α}
    (hend : meaning? .endOfInput = none) :
    Sound (accept meaning?) fun tokens result =>
      match result with
      | some meaning =>
          ∃ token : Token, tokens = [token] ∧ meaning? token.kind = some meaning
      | none => tokens = [] := by
  intro cursor later result hparse hfinal
  cases result with
  | none =>
      obtain rfl := left_of_accept hparse
      exact ⟨[], rfl, rfl⟩
  | some meaning =>
      obtain ⟨token, hmeaning, rfl⟩ := read_of_accept hparse hend hfinal
      exact ⟨[token], rfl, token, rfl, hmeaning⟩

theorem sound_acceptAny {kinds : List TokenKind}
    (hkinds : kinds.contains .endOfInput = false) :
    Sound (acceptAny kinds) fun tokens result =>
      match result with
      | some token => tokens = [token] ∧ kinds.contains token.kind = true
      | none => tokens = [] := by
  intro cursor later result hparse hfinal
  cases result with
  | none =>
      obtain rfl := left_of_acceptAny hparse
      exact ⟨[], rfl, rfl⟩
  | some token =>
      obtain ⟨hkind, rfl⟩ := read_of_acceptAny hparse hkinds hfinal
      exact ⟨[token], rfl, rfl, hkind⟩

theorem sound_acceptNumeral :
    Sound acceptNumeral fun tokens result =>
      match result with
      | some token => tokens = [token] ∧ token.kind = .number
      | none => tokens = [] := by
  apply (sound_acceptAny rfl).imp
  intro tokens result hread
  cases result with
  | none => exact hread
  | some token => exact ⟨hread.1, by simpa using hread.2⟩

theorem sound_acceptKind {kind : TokenKind} (hkind : kind ≠ .endOfInput) :
    Sound (acceptKind kind) fun tokens read =>
      if read then ∃ token : Token, tokens = [token] ∧ token.kind = kind
      else tokens = [] := by
  intro cursor later read hparse hfinal
  cases read with
  | false =>
      obtain ⟨rfl, -⟩ := left_of_acceptKind hparse
      exact ⟨[], rfl, rfl⟩
  | true =>
      obtain ⟨token, htoken, rfl⟩ := read_of_acceptKind hparse hkind hfinal
      exact ⟨[token], rfl, token, rfl, htoken⟩

end Sequence

/-! ## Lists of what is spelled -/

section Lists

variable {spells : List Token → α → Prop}

/-- Further items, each after a comma, or nothing at all. -/
inductive FurtherItems (spells : List Token → α → Prop) :
    List Token → List α → Prop where
  | none : FurtherItems spells [] []
  | some {comma : Token} {tokens : List Token} {items : List α}
      (hcomma : comma.kind = .sign .comma)
      (hitems : Separated spells tokens items) :
      FurtherItems spells (comma :: tokens) items

theorem FurtherItems.separated {front back : List Token} {item : α}
    {others : List α} (hitem : spells front item)
    (hothers : FurtherItems spells back others) :
    Separated spells (front ++ back) (item :: others) := by
  cases hothers with
  | none => exact (List.append_nil front).symm ▸ .last hitem
  | some hcomma hitems => exact .further hitem hcomma hitems

theorem sound_commaRest {item : Parser α} (hitem : Sound item spells)
    (rounds : Nat) : Sound (commaRest item rounds) (FurtherItems spells) := by
  induction rounds with
  | zero => exact sound_pure .none
  | succ rounds ih =>
      refine Sound.bind (sound_acceptKind nofun) ?_
      intro read more hread
      cases more with
      | false =>
          obtain rfl := hread
          exact sound_pure .none
      | true =>
          obtain ⟨comma, rfl, hcomma⟩ := hread
          apply hitem.bind
          intro front head hhead
          apply ih.map
          intro back others hothers
          have hitems := hothers.separated hhead
          exact .some hcomma hitems

theorem sound_commaList {first next : Parser α} (hfirst : Sound first spells)
    (hnext : Sound next spells) :
    Sound (commaList first next) (Separated spells) := by
  apply hfirst.bind
  intro front head hhead
  apply sound_remaining_bind
  intro count
  apply (sound_commaRest hnext count).map
  intro back others hothers
  exact hothers.separated hhead

end Lists

/-! ## Completeness -/

/-- The rules were nested too deeply. -/
def TooDeep (outcome : Except ParseFailure α) : Prop :=
  ∃ position, outcome = .error (.refused ⟨.nestedTooDeep, position⟩)

/-- The outcome is the one expected, unless the condition holds and the rules
were nested too deeply. -/
def AgreesUnless (deep : Prop) (outcome expected : Except ParseFailure α) :
    Prop :=
  outcome = expected ∨ deep ∧ TooDeep outcome

theorem AgreesUnless.refl (deep : Prop) (outcome : Except ParseFailure α) :
    AgreesUnless deep outcome outcome := Or.inl rfl

theorem AgreesUnless.weaken {deep deeper : Prop}
    {outcome expected : Except ParseFailure α}
    (hagrees : AgreesUnless deep outcome expected) (hdeeper : deep → deeper) :
    AgreesUnless deeper outcome expected :=
  hagrees.imp_right fun h => ⟨hdeeper h.1, h.2⟩

theorem AgreesUnless.trans {deep : Prop}
    {outcome between expected : Except ParseFailure α}
    (hfirst : AgreesUnless deep outcome between)
    (hsecond : AgreesUnless deep between expected) :
    AgreesUnless deep outcome expected := by
  rcases hfirst with rfl | hdeep
  · exact hsecond
  · exact Or.inr hdeep

theorem agreesUnless_refuse {deep : Prop} (hdeep : deep) (cursor : Cursor)
    (expected : Except ParseFailure (α × Cursor)) :
    AgreesUnless deep (refuse .nestedTooDeep cursor) expected :=
  Or.inr ⟨hdeep, cursor.peek.position, rfl⟩

theorem AgreesUnless.bind {deep : Prop} {first : Parser α}
    {next : α → Parser β} {cursor between : Cursor} {middle : α}
    {expected : Except ParseFailure (β × Cursor)}
    (hfirst : AgreesUnless deep (first cursor) (.ok (middle, between)))
    (hnext : AgreesUnless deep (next middle between) expected) :
    AgreesUnless deep ((first >>= next) cursor) expected := by
  rw [bind_apply]
  rcases hfirst with hok | ⟨hdeep, position, herror⟩
  · rw [hok]
    exact hnext
  · rw [herror]
    exact Or.inr ⟨hdeep, position, rfl⟩

/-- What a parser answers with, in some form. -/
theorem AgreesUnless.map {deep : Prop} {parser : Parser α} {cursor later : Cursor}
    {value : α} (hparser : AgreesUnless deep (parser cursor) (.ok (value, later)))
    (form : α → β) :
    AgreesUnless deep ((do return form (← parser)) cursor)
      (.ok (form value, later)) :=
  hparser.bind (.refl deep _)

theorem AgreesUnless.except_map {deep : Prop} {outcome : Except ParseFailure α}
    {value : α} (houtcome : AgreesUnless deep outcome (.ok value))
    (form : α → β) : AgreesUnless deep (outcome.map form) (.ok (form value)) := by
  rcases houtcome with rfl | ⟨hdeep, position, rfl⟩
  · exact .refl deep _
  · exact Or.inr ⟨hdeep, position, rfl⟩

theorem TooDeep.ne_ok {outcome : Except ParseFailure α} (hdeep : TooDeep outcome)
    (value : α) : outcome ≠ .ok value := by
  obtain ⟨position, rfl⟩ := hdeep
  exact nofun

section Next

variable (later : Cursor) (token : Token) (tokens : List Token)

theorem acceptAny_read {kinds : List TokenKind}
    (hkind : kinds.contains token.kind = true) :
    acceptAny kinds (later.before (token :: tokens)) =
      .ok (some token, later.before tokens) := by
  rw [acceptAny_apply]
  exact if_pos hkind

theorem demand_read {kinds : List TokenKind} (what : Expected)
    (hkind : kinds.contains token.kind = true) :
    demand kinds what (later.before (token :: tokens)) =
      .ok (token, later.before tokens) := by
  rw [demand_apply]
  exact if_pos hkind

theorem demandOne_read {kind : TokenKind} (what : Expected)
    (hkind : token.kind = kind) :
    demand [kind] what (later.before (token :: tokens)) =
      .ok (token, later.before tokens) :=
  demand_read later token tokens what (by simp [hkind])

theorem demand_bind_read {kinds : List TokenKind} {what : Expected}
    {next : Token → Parser α} (hkind : kinds.contains token.kind = true) :
    (demand kinds what >>= next) (later.before (token :: tokens)) =
      next token (later.before tokens) := by
  rw [bind_apply, demand_read _ _ _ _ hkind]
  rfl

theorem demandOne_bind_read {kind : TokenKind} {what : Expected}
    {next : Token → Parser α} (hkind : token.kind = kind) :
    (demand [kind] what >>= next) (later.before (token :: tokens)) =
      next token (later.before tokens) :=
  demand_bind_read later token tokens (by simp [hkind])

theorem accept_read {meaning? : TokenKind → Option α} {meaning : α}
    (hmeaning : meaning? token.kind = some meaning) :
    accept meaning? (later.before (token :: tokens)) =
      .ok (some meaning, later.before tokens) := by
  rw [accept_apply]
  change (match meaning? token.kind with
    | some meaning => _
    | none => _) = _
  rw [hmeaning]
  rfl

theorem acceptKind_read {kind : TokenKind} (hkind : token.kind = kind) :
    acceptKind kind (later.before (token :: tokens)) =
      .ok (true, later.before tokens) := by
  rw [acceptKind_apply]
  exact if_pos hkind

end Next

section Leave

variable (cursor : Cursor)

theorem acceptAny_leave {kinds : List TokenKind}
    (hkind : kinds.contains cursor.peek.kind = false) :
    acceptAny kinds cursor = .ok (none, cursor) := by
  rw [acceptAny_apply, hkind]
  rfl

theorem accept_leave {meaning? : TokenKind → Option α}
    (hmeaning : meaning? cursor.peek.kind = none) :
    accept meaning? cursor = .ok (none, cursor) := by
  rw [accept_apply, hmeaning]

theorem acceptKind_leave {kind : TokenKind} (hkind : cursor.peek.kind ≠ kind) :
    acceptKind kind cursor = .ok (false, cursor) := by
  rw [acceptKind_apply]
  exact if_neg hkind

end Leave

/-! ## Lists that are read -/

section Lists

variable {deep : Prop} {spells : List Token → α → Prop}

/-- The parser reads what the tokens spell where a token follows that its
rule stops at. -/
def Complete (deep : Prop) (parser : Parser α) (spells : List Token → α → Prop)
    (follows : TokenKind → Prop) : Prop :=
  ∀ ⦃tokens : List Token⦄ ⦃value : α⦄ (later : Cursor), spells tokens value →
    follows later.peek.kind →
    AgreesUnless deep (parser (later.before tokens)) (.ok (value, later))

theorem commaRest_leave (item : Parser α) (rounds : Nat) {cursor : Cursor}
    (hkind : cursor.peek.kind ≠ .sign .comma) :
    commaRest item rounds cursor = .ok ([], cursor) := by
  cases rounds with
  | zero => rfl
  | succ rounds =>
      rw [commaRest, bind_apply, acceptKind_leave cursor hkind]
      rfl

variable {follows : TokenKind → Prop} (hcommas : follows (.sign .comma))

include hcommas

theorem agreesUnless_commaRest {item : Parser α}
    (hitem : Complete deep item spells follows) {comma : Token}
    {tokens : List Token} {items : List α} {later : Cursor} {rounds : Nat}
    (hcomma : comma.kind = .sign .comma)
    (hitems : Separated spells tokens items)
    (hfollows : follows later.peek.kind)
    (hlast : later.peek.kind ≠ .sign .comma)
    (hrounds : tokens.length < rounds) :
    AgreesUnless deep (commaRest item rounds (later.before (comma :: tokens)))
      (.ok (items, later)) := by
  induction hitems generalizing comma rounds with
  | last hspells =>
      obtain ⟨rounds, rfl⟩ :=
        Nat.exists_eq_add_one.mpr (Nat.zero_lt_of_lt hrounds)
      rw [commaRest, bind_apply, acceptKind_read _ _ _ hcomma]
      apply AgreesUnless.bind (hitem later hspells hfollows)
      apply AgreesUnless.map
      rw [commaRest_leave item rounds hlast]
      exact .refl deep _
  | @further front back comma' head others hspells hcomma' _ ih =>
      obtain ⟨rounds, rfl⟩ :=
        Nat.exists_eq_add_one.mpr (Nat.zero_lt_of_lt hrounds)
      rw [List.length_append, List.length_cons] at hrounds
      rw [commaRest, bind_apply, acceptKind_read _ _ _ hcomma]
      have hhead := hitem (later.before (comma' :: back)) hspells
        (hcomma' ▸ hcommas)
      rw [Cursor.before_before] at hhead
      apply AgreesUnless.bind hhead
      exact AgreesUnless.map (ih hcomma' (by omega)) _

theorem complete_commaList {first next : Parser α}
    (hfirst : Complete deep first spells follows)
    (hnext : Complete deep next spells follows) :
    Complete deep (commaList first next) (Separated spells)
      fun kind => follows kind ∧ kind ≠ .sign .comma := by
  intro tokens items later hitems hfollows
  cases hitems with
  | last hspells =>
      apply AgreesUnless.bind (hfirst later hspells hfollows.1)
      rw [remaining_bind_apply]
      apply AgreesUnless.map
      rw [commaRest_leave next _ hfollows.2]
      exact .refl deep _
  | @further front back comma head others hspells hcomma hothers =>
      have hhead := hfirst (later.before (comma :: back)) hspells
        (hcomma ▸ hcommas)
      rw [Cursor.before_before] at hhead
      apply AgreesUnless.bind hhead
      rw [remaining_bind_apply]
      apply AgreesUnless.map
      apply agreesUnless_commaRest hcommas hnext hcomma hothers hfollows.1
        hfollows.2
      rw [Cursor.before, List.length_append, List.length_cons]
      omega

omit hcommas in
/-- Items that end where an expression does. -/
theorem commaList_read {item : Parser α}
    (hitem : Complete deep item spells (TokenKind.Stops 0)) {tokens : List Token}
    {values : List α} {later : Cursor} (hvalues : Separated spells tokens values)
    (hstops : later.peek.kind.Stops 0 ∧ later.peek.kind ≠ .sign .comma) :
    AgreesUnless deep (commaList item item (later.before tokens))
      (.ok (values, later)) := by
  have hcomma : TokenKind.Stops 0 (.sign .comma) :=
    TokenKind.stops_of_not_isBinary rfl rfl
  exact complete_commaList hcomma hitem hitem later hvalues hstops

end Lists

end Parser

end NumberedBasic
