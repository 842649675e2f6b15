import NumberedBasic.Proofs.Grammar.Reading
import NumberedBasic.Proofs.Parsing.Lines

/-!
# The token to blame

Every rule decides by the next token alone, so a parser that fails does so at
the first token with which nothing that it could read goes on: what it has
read till then can be completed, and with that token after it the parser fails
again, whatever else follows.  Complaints point to that token, except that
about the decimal point of a line number, which points to the one after it.
-/

namespace NumberedBasic

/-- A token of the kind, as it may be written. -/
def TokenKind.sample (kind : TokenKind) : Token :=
  ⟨kind, text kind, Position.start⟩
where
  text : TokenKind → String
    | number => "0"
    | string => ""
    | identifier => "A"
    | keyword word => word.spelling
    | sign s => s.spelling
    | newline => "\n"
    | endOfInput => ""

/-- The numeral has no value, be it as a number or as a line number. -/
def Token.Unreadable (numeral : Token) : Prop :=
  Decimal.entireNumber? numeral.text.toList = none ∨
    numeral.text.toList.all Text.isDigitSign = true ∧
      (numeral.text.toList.all Text.isDigit = true →
        Text.longestNumeral < numeral.text.toList.length)

/-- The cursor has the same token next as the other one. -/
structure Cursor.Resembles (cursor later : Cursor) : Prop where
  final : cursor.final.kind = .endOfInput
  peek : cursor.peek = later.peek

namespace Cursor

variable {cursor later : Cursor}

theorem resembles_self (hfinal : cursor.final.kind = .endOfInput) :
    cursor.Resembles cursor := ⟨hfinal, rfl⟩

theorem Resembles.before (hresembles : cursor.Resembles later)
    (front : List Token) : (cursor.before front).Resembles (later.before front) := by
  refine ⟨hresembles.final, ?_⟩
  cases front with
  | nil => exact hresembles.peek
  | cons token front => rfl

/-- The token that the cursors have in common can be read from both. -/
theorem Resembles.eq_before (hresembles : cursor.Resembles later)
    (hkind : later.peek.kind ≠ .endOfInput) :
    cursor = cursor.skip.before [later.peek] := by
  have hread := cursor.eq_before (hresembles.peek ▸ hkind) hresembles.final
  rw [hresembles.peek] at hread
  exact hread

end Cursor

namespace ParseFailure

/-- The cause that is reported, if any. -/
def cause? : ParseFailure → Option SyntaxCause
  | refused error => some error.cause
  | unreadableNumeral => none

/-- The failure is due to the next token.  For a numeral that is unreadable,
what would complete the tokens that were read starts with another one. -/
inductive Blames : ParseFailure → Cursor → (closing : List TokenKind) → Prop where
  | here {later : Cursor} {closing : List TokenKind} (cause : SyntaxCause)
      (hcause : ∀ numeral, cause ≠ .lineNumberNotWhole numeral) :
      Blames (.refused (later.errorHere cause)) later closing
  | notWhole {later : Cursor} {closing : List TokenKind}
      (hkind : later.peek.kind = .number) :
      Blames (.refused (later.skip.errorHere
        (.lineNumberNotWhole later.peek.text))) later closing
  | unreadable {later : Cursor} {closing : List TokenKind}
      (hkind : later.peek.kind = .number) (hnumeral : later.peek.Unreadable)
      (hplace : closing.head? = some .number) :
      Blames .unreadableNumeral later closing

theorem Blames.append {failure : ParseFailure} {later : Cursor}
    {closing : List TokenKind} (hblames : failure.Blames later closing)
    (more : List TokenKind) : failure.Blames later (closing ++ more) := by
  cases hblames with
  | here cause hcause => exact .here cause hcause
  | notWhole hkind => exact .notWhole hkind
  | unreadable hkind hnumeral hplace =>
      refine .unreadable hkind hnumeral ?_
      rw [List.head?_append, hplace]
      rfl

end ParseFailure

namespace Parser

variable {α β : Type}

/-! ## Completing what was read -/

/-- Tokens of these kinds spell something. -/
structure Completes (closing : List TokenKind) (spells : List Token → α → Prop) :
    Prop where
  inner : ∀ kind ∈ closing, kind ≠ .endOfInput
  spelled : ∃ value, spells (closing.map TokenKind.sample) value

section Completes

variable {spells : List Token → α → Prop} {spells' : List Token → β → Prop}
  {closing : List TokenKind}

/-- Where nothing is missing, nothing completes what was read. -/
theorem completes_nothing {front : List Token} {value : α}
    (hvalue : spells front value) :
    ∃ closing, Completes closing fun back => spells (front ++ back) := by
  refine ⟨[], fun _ hkind => absurd hkind List.not_mem_nil, value, ?_⟩
  rw [List.map_nil, List.append_nil]
  exact hvalue

theorem completes_spelling (closing : List TokenKind) {value : α}
    (hvalue : spells (closing.map TokenKind.sample) value)
    (hinner : ∀ kind ∈ closing, kind ≠ .endOfInput) : Completes closing spells :=
  ⟨hinner, value, hvalue⟩

theorem Completes.imp (hcompletes : Completes closing spells)
    (himp : ∀ value, spells (closing.map TokenKind.sample) value →
      ∃ value', spells' (closing.map TokenKind.sample) value') :
    Completes closing spells' := by
  obtain ⟨value, hvalue⟩ := hcompletes.spelled
  exact ⟨hcompletes.inner, himp value hvalue⟩

theorem Completes.append (hclosing : Completes closing spells)
    (hmore : ∀ value, spells (closing.map TokenKind.sample) value →
      ∃ more, Completes more fun back =>
        spells' (closing.map TokenKind.sample ++ back)) :
    ∃ more, Completes (closing ++ more) spells' := by
  obtain ⟨value, hvalue⟩ := hclosing.spelled
  obtain ⟨more, hinner, result, hresult⟩ := hmore value hvalue
  refine ⟨more, ?_, result, ?_⟩
  · intro kind hkind
    exact (List.mem_append.mp hkind).elim (hclosing.inner kind) (hinner kind)
  · rw [List.map_append]
    exact hresult

end Completes

/-! ## Parsers that pinpoint their failures -/

/-- From the cursor on, the parser answers by what it has read and the next
token, or fails by them, after tokens that can be completed. -/
inductive PinpointsAt (parser : Parser α) (spells : List Token → α → Prop)
    (cursor : Cursor) : Prop where
  | answers {front : List Token} {later : Cursor} (value : α)
      (hcursor : cursor = later.before front)
      (hagain : ∀ other : Cursor, other.Resembles later →
        parser (other.before front) = .ok (value, other))
  | fails {front : List Token} {closing : List TokenKind} {later : Cursor}
      {failure : ParseFailure}
      (hcursor : cursor = later.before front)
      (hfailure : parser cursor = .error failure)
      (hblames : failure.Blames later closing)
      (hcompletes : Completes closing fun back => spells (front ++ back))
      (hagain : ∀ other : Cursor, other.Resembles later →
        ∃ failure', parser (other.before front) = .error failure' ∧
          failure'.cause? = failure.cause?)

def Pinpoints (parser : Parser α) (spells : List Token → α → Prop) : Prop :=
  ∀ cursor : Cursor, cursor.final.kind = .endOfInput →
    PinpointsAt parser spells cursor

section Sequence

variable {spells : List Token → α → Prop} {spells' : List Token → β → Prop}
  {cursor : Cursor} {parser : Parser α}

theorem PinpointsAt.imp {weaker : List Token → α → Prop}
    (hparser : PinpointsAt parser spells cursor)
    (hweaker : ∀ tokens value, spells tokens value → weaker tokens value) :
    PinpointsAt parser weaker cursor := by
  cases hparser with
  | answers value hcursor hagain => exact .answers value hcursor hagain
  | fails hcursor hfailure hblames hcompletes hagain =>
      refine .fails hcursor hfailure hblames (hcompletes.imp ?_) hagain
      exact fun value hvalue => ⟨value, hweaker _ _ hvalue⟩

theorem Pinpoints.imp {weaker : List Token → α → Prop}
    (hparser : Pinpoints parser spells)
    (hweaker : ∀ tokens value, spells tokens value → weaker tokens value) :
    Pinpoints parser weaker :=
  fun cursor hfinal => (hparser cursor hfinal).imp hweaker

/-- Parsers that agree wherever the next token is the same. -/
theorem PinpointsAt.congr {parser' : Parser α}
    (hparser : PinpointsAt parser spells cursor)
    (hfinal : cursor.final.kind = .endOfInput)
    (hsame : ∀ other : Cursor, other.Resembles cursor →
      parser' other = parser other) : PinpointsAt parser' spells cursor := by
  cases hparser with
  | answers value hcursor hagain =>
      refine .answers value hcursor fun other hother => ?_
      rw [hsame _ (hcursor ▸ hother.before _), hagain other hother]
  | fails hcursor hfailure hblames hcompletes hagain =>
      refine .fails hcursor ?_ hblames hcompletes fun other hother => ?_
      · rw [hsame cursor (Cursor.resembles_self hfinal), hfailure]
      · rw [hsame _ (hcursor ▸ hother.before _)]
        exact hagain other hother

theorem pinpoints_pure (value : α) : Pinpoints (pure value) spells :=
  fun cursor _ => .answers value cursor.before_nil.symm fun _ _ => rfl

/-- A complaint about the next token. -/
theorem pinpointsAt_here {cause : SyntaxCause} {closing : List TokenKind}
    (hfinal : cursor.final.kind = .endOfInput)
    (hcause : ∀ numeral, cause ≠ .lineNumberNotWhole numeral)
    (hcompletes : Completes closing spells)
    (hparser : ∀ other : Cursor, other.Resembles cursor →
      parser other = .error (.refused (other.errorHere cause))) :
    PinpointsAt parser spells cursor := by
  refine .fails cursor.before_nil.symm
    (hparser cursor (Cursor.resembles_self hfinal)) (.here cause hcause)
    hcompletes fun other hother => ?_
  exact ⟨_, hparser other hother, rfl⟩

theorem pinpoints_refuse {cause : SyntaxCause} {closing : List TokenKind}
    (hcause : ∀ numeral, cause ≠ .lineNumberNotWhole numeral)
    (hcompletes : Completes closing spells) :
    Pinpoints (refuse cause) spells :=
  fun _ hfinal => pinpointsAt_here hfinal hcause hcompletes fun _ _ => rfl

theorem pinpoints_unexpected {closing : List TokenKind}
    (hcompletes : Completes closing spells) : Pinpoints unexpected spells := by
  intro cursor hfinal
  apply pinpointsAt_here hfinal _ hcompletes
  · intro other hother
    rw [unexpected_apply, Cursor.unexpected, hother.peek]
  · exact fun _ => SyntaxCause.noConfusion

/-- One parser after another.  What the first has read can be completed for
both. -/
theorem PinpointsAt.bind {first : Parser α} {next : α → Parser β}
    (hfirst : PinpointsAt first spells cursor) (hsound : Sound first spells)
    (hfinal : cursor.final.kind = .endOfInput)
    (hcompletes : ∀ front middle, spells front middle →
      ∃ closing, Completes closing fun back => spells' (front ++ back))
    (hnext : ∀ front later middle, first cursor = .ok (middle, later) →
      cursor = later.before front → spells front middle →
      PinpointsAt (next middle) (fun back => spells' (front ++ back)) later) :
    PinpointsAt (first >>= next) spells' cursor := by
  cases hfirst with
  | @answers front later middle hcursor hagain =>
      have hlater := Cursor.ends_of_eq_before hcursor hfinal
      have hmiddle : first cursor = .ok (middle, later) := by
        rw [hcursor]
        exact hagain later (Cursor.resembles_self hlater)
      obtain ⟨tokens, hbefore, hspells⟩ := hsound hmiddle hfinal
      obtain rfl := Cursor.before_injective (hcursor.symm.trans hbefore)
      have hstarts {other last : Cursor} {back : List Token}
          (hlast : later = last.before back) (hother : other.Resembles last) :
          (first >>= next) (other.before (front ++ back)) =
            next middle (other.before back) := by
        rw [← Cursor.before_before, bind_apply,
          hagain _ (hlast ▸ hother.before back)]
        rfl
      cases hnext front later middle hmiddle hcursor hspells with
      | @answers back last value hlast hvalue =>
          have hwhole : cursor = last.before (front ++ back) := by
            rw [hcursor, hlast, Cursor.before_before]
          refine .answers value hwhole fun other hother => ?_
          rw [hstarts hlast hother, hvalue other hother]
      | @fails back closing last failure hlast hfailure hblames hcloses herror =>
          have hwhole : cursor = last.before (front ++ back) := by
            rw [hcursor, hlast, Cursor.before_before]
          refine .fails hwhole ?_ hblames ?_ fun other hother => ?_
          · rw [bind_apply, hmiddle]
            exact hfailure
          · apply hcloses.imp
            intro value hvalue
            exact ⟨value, by rwa [List.append_assoc]⟩
          · rw [hstarts hlast hother]
            exact herror other hother
  | @fails front closing later failure hcursor hfailure hblames hcloses hagain =>
      let tokens := closing.map TokenKind.sample
      have hmore : ∀ value, spells (front ++ tokens) value →
          ∃ more, Completes more fun back =>
            spells' (front ++ (tokens ++ back)) := by
        intro value hvalue
        obtain ⟨more, hmore⟩ := hcompletes _ value hvalue
        refine ⟨more, hmore.imp fun result hresult => ⟨result, ?_⟩⟩
        rwa [← List.append_assoc]
      obtain ⟨more, hwhole⟩ : ∃ more, Completes (closing ++ more) fun back =>
          spells' (front ++ back) := hcloses.append hmore
      refine .fails hcursor ?_ (hblames.append more) hwhole fun other hother => ?_
      · rw [bind_apply, hfailure]
        rfl
      · obtain ⟨failure', hfailure', hcause⟩ := hagain other hother
        refine ⟨failure', ?_, hcause⟩
        rw [bind_apply, hfailure']
        rfl

theorem Pinpoints.bind {first : Parser α} {next : α → Parser β}
    (hfirst : Pinpoints first spells) (hsound : Sound first spells)
    (hcompletes : ∀ front middle, spells front middle →
      ∃ closing, Completes closing fun back => spells' (front ++ back))
    (hnext : ∀ front middle, spells front middle →
      Pinpoints (next middle) fun back => spells' (front ++ back)) :
    Pinpoints (first >>= next) spells' := by
  intro cursor hfinal
  apply (hfirst cursor hfinal).bind hsound hfinal hcompletes
  rintro front later middle _ rfl hspells
  exact hnext front middle hspells later hfinal

/-- What a parser answers with, in some form. -/
theorem PinpointsAt.map (hparser : PinpointsAt parser spells cursor)
    (form : α → β)
    (hform : ∀ tokens value, spells tokens value → spells' tokens (form value)) :
    PinpointsAt (do return form (← parser)) spells' cursor := by
  cases hparser with
  | answers value hcursor hagain =>
      refine .answers (form value) hcursor fun other hother => ?_
      rw [bind_apply, hagain other hother]
      rfl
  | fails hcursor hfailure hblames hcompletes hagain =>
      refine .fails hcursor ?_ hblames (hcompletes.imp ?_) fun other hother => ?_
      · rw [bind_apply, hfailure]
        rfl
      · exact fun value hvalue => ⟨form value, hform _ _ hvalue⟩
      · obtain ⟨failure', hfailure', hcause⟩ := hagain other hother
        refine ⟨failure', ?_, hcause⟩
        rw [bind_apply, hfailure']
        rfl

theorem Pinpoints.map (hparser : Pinpoints parser spells) (form : α → β)
    (hform : ∀ tokens value, spells tokens value → spells' tokens (form value)) :
    Pinpoints (do return form (← parser)) spells' :=
  fun cursor hfinal => (hparser cursor hfinal).map form hform

end Sequence

/-! ## Reading the next token -/

section Read

variable {spells : List Token → α → Prop} {cursor : Cursor} {parser : Parser α}

/-- A parser that reads the next token goes on after it. -/
theorem PinpointsAt.read {next : Parser α}
    (hnext : PinpointsAt next (fun back => spells (cursor.peek :: back))
      cursor.skip)
    (hfinal : cursor.final.kind = .endOfInput)
    (hkind : cursor.peek.kind ≠ .endOfInput)
    (hparser : ∀ other : Cursor, other.final.kind = .endOfInput →
      parser (other.before [cursor.peek]) = next other) :
    PinpointsAt parser spells cursor := by
  have hcursor := cursor.eq_before hkind hfinal
  have hread {other later : Cursor} (hother : other.Resembles later)
      (front : List Token) :
      parser (other.before (cursor.peek :: front)) = next (other.before front) :=
    hparser (other.before front) hother.final
  cases hnext with
  | @answers front later value hskip hagain =>
      have hwhole : cursor = later.before (cursor.peek :: front) := by
        rw [hskip, Cursor.before_before] at hcursor
        exact hcursor
      refine .answers value hwhole fun other hother => ?_
      rw [hread hother, hagain other hother]
  | @fails front closing later failure hskip hfailure hblames hcompletes hagain =>
      have hwhole : cursor = later.before (cursor.peek :: front) := by
        rw [hskip, Cursor.before_before] at hcursor
        exact hcursor
      refine .fails hwhole ?_ hblames hcompletes fun other hother => ?_
      · rw [hcursor, hparser cursor.skip hfinal]
        exact hfailure
      · rw [hread hother]
        exact hagain other hother

theorem pinpoints_peek_bind {next : Token → Parser α}
    (hnext : ∀ token, Pinpoints (next token) spells) :
    Pinpoints (peek >>= next) spells := by
  intro cursor hfinal
  apply (hnext cursor.peek cursor hfinal).congr hfinal
  intro other hother
  rw [peek_bind_apply, hother.peek]

theorem pinpoints_accept_bind {meaning? : TokenKind → Option β}
    {next : Option β → Parser α} (hend : meaning? .endOfInput = none)
    (hsome : ∀ token meaning, meaning? token.kind = some meaning →
      Pinpoints (next (some meaning)) fun back => spells (token :: back))
    (hnone : Pinpoints (next none) spells) :
    Pinpoints (accept meaning? >>= next) spells := by
  intro cursor hfinal
  cases hmeaning : meaning? cursor.peek.kind with
  | none =>
      apply (hnone cursor hfinal).congr hfinal
      intro other hother
      rw [bind_apply, accept_leave other (hother.peek ▸ hmeaning)]
      rfl
  | some meaning =>
      have hkind : cursor.peek.kind ≠ .endOfInput := by
        intro hkind
        rw [hkind, hend] at hmeaning
        cases hmeaning
      apply (hsome cursor.peek meaning hmeaning cursor.skip hfinal).read hfinal hkind
      intro other _
      rw [bind_apply, accept_read other cursor.peek [] hmeaning]
      rfl

section Kinds

variable {kinds : List TokenKind} (hkinds : kinds.contains .endOfInput = false)

include hkinds

theorem ne_endOfInput_of_contains {kind : TokenKind}
    (hkind : kinds.contains kind = true) : kind ≠ .endOfInput := by
  rintro rfl
  exact Bool.noConfusion (hkinds.symm.trans hkind)

theorem pinpointsAt_acceptAny_bind {next : Option Token → Parser α}
    (hfinal : cursor.final.kind = .endOfInput)
    (hsome : kinds.contains cursor.peek.kind = true →
      PinpointsAt (next (some cursor.peek))
        (fun back => spells (cursor.peek :: back)) cursor.skip)
    (hnone : PinpointsAt (next none) spells cursor) :
    PinpointsAt (acceptAny kinds >>= next) spells cursor := by
  by_cases hcontains : kinds.contains cursor.peek.kind = true
  · apply (hsome hcontains).read hfinal (ne_endOfInput_of_contains hkinds hcontains)
    intro other _
    rw [bind_apply, acceptAny_read other cursor.peek [] hcontains]
    rfl
  · apply hnone.congr hfinal
    intro other hother
    rw [bind_apply, acceptAny_leave other
      (hother.peek ▸ Bool.not_eq_true _ ▸ hcontains)]
    rfl

theorem pinpoints_acceptAny_bind {next : Option Token → Parser α}
    (hsome : ∀ token, kinds.contains token.kind = true →
      Pinpoints (next (some token)) fun back => spells (token :: back))
    (hnone : Pinpoints (next none) spells) :
    Pinpoints (acceptAny kinds >>= next) spells :=
  fun cursor hfinal => pinpointsAt_acceptAny_bind hkinds hfinal
    (fun hcontains => hsome cursor.peek hcontains cursor.skip hfinal)
    (hnone cursor hfinal)

theorem pinpoints_demand_bind {what : Expected} {next : Token → Parser α}
    {closing : List TokenKind} (hcompletes : Completes closing spells)
    (hnext : ∀ token, kinds.contains token.kind = true →
      Pinpoints (next token) fun back => spells (token :: back)) :
    Pinpoints (demand kinds what >>= next) spells := by
  intro cursor hfinal
  by_cases hcontains : kinds.contains cursor.peek.kind = true
  · apply (hnext cursor.peek hcontains cursor.skip hfinal).read hfinal
      (ne_endOfInput_of_contains hkinds hcontains)
    intro other _
    exact demand_bind_read other cursor.peek [] hcontains
  · apply pinpointsAt_here hfinal _ hcompletes
    · intro other hother
      rw [bind_apply, demand_apply, hother.peek, if_neg hcontains]
      rfl
    · exact nofun

end Kinds

theorem pinpoints_demandOne_bind {kind : TokenKind} {what : Expected}
    {next : Token → Parser α} {closing : List TokenKind}
    (hcompletes : Completes closing spells)
    (hnext : ∀ token : Token, token.kind = kind →
      Pinpoints (next token) fun back => spells (token :: back))
    (hkind : kind ≠ .endOfInput) :
    Pinpoints (demand [kind] what >>= next) spells := by
  apply pinpoints_demand_bind (by simpa using hkind.symm) hcompletes
  exact fun token hcontains => hnext token (by simpa using hcontains)

theorem pinpointsAt_acceptKind_bind {kind : TokenKind} {next : Bool → Parser α}
    (hfinal : cursor.final.kind = .endOfInput)
    (htrue : cursor.peek.kind = kind →
      PinpointsAt (next true) (fun back => spells (cursor.peek :: back))
        cursor.skip)
    (hfalse : PinpointsAt (next false) spells cursor)
    (hkind : kind ≠ .endOfInput) :
    PinpointsAt (acceptKind kind >>= next) spells cursor := by
  by_cases hpeek : cursor.peek.kind = kind
  · apply (htrue hpeek).read hfinal (hpeek ▸ hkind)
    intro other _
    rw [bind_apply, acceptKind_read other cursor.peek [] hpeek]
    rfl
  · apply hfalse.congr hfinal
    intro other hother
    rw [bind_apply, acceptKind_leave other (hother.peek ▸ hpeek)]
    rfl

theorem pinpoints_acceptKind_bind {kind : TokenKind} {next : Bool → Parser α}
    (htrue : ∀ token : Token, token.kind = kind →
      Pinpoints (next true) fun back => spells (token :: back))
    (hfalse : Pinpoints (next false) spells) (hkind : kind ≠ .endOfInput) :
    Pinpoints (acceptKind kind >>= next) spells :=
  fun cursor hfinal => pinpointsAt_acceptKind_bind hfinal
    (fun hpeek => htrue cursor.peek hpeek cursor.skip hfinal)
    (hfalse cursor hfinal) hkind

/-- The value of a numeral that has been read is found without reading on. -/
inductive Converts (numeral : Token) (convert : Parser β) : Prop where
  | value (value : β) (hconvert : convert = pure value)
  | unreadable (hnumeral : numeral.Unreadable)
      (hconvert : convert = throw .unreadableNumeral)
  | notWhole (hconvert : convert = refuse (.lineNumberNotWhole numeral.text))

/-- A numeral that has no value is to blame, although it has been read. -/
theorem PinpointsAt.numeral {convert : Parser β} (form : β → α)
    (hconverts : Converts cursor.peek convert)
    (hfinal : cursor.final.kind = .endOfInput)
    (hkind : cursor.peek.kind = .number)
    (hcompletes : Completes [.number] spells)
    (hparser : ∀ other : Cursor, parser (other.before [cursor.peek]) =
      (do return form (← convert)) other) :
    PinpointsAt parser spells cursor := by
  have hmore : cursor.peek.kind ≠ .endOfInput := hkind ▸ nofun
  have hread {other : Cursor} (hother : other.Resembles cursor) :
      parser other = (do return form (← convert)) other.skip := by
    rw [← hparser, ← hother.eq_before hmore]
  have hfailure := hread (Cursor.resembles_self hfinal)
  cases hconverts with
  | value value hconvert =>
      have hpure : PinpointsAt (pure (form value))
          (fun back => spells (cursor.peek :: back)) cursor.skip :=
        pinpoints_pure (form value) cursor.skip hfinal
      apply hpure.read hfinal hmore
      intro other _
      rw [hparser, hconvert]
      rfl
  | unreadable hnumeral hconvert =>
      rw [hconvert] at hfailure
      refine .fails cursor.before_nil.symm hfailure
        (.unreadable hkind hnumeral rfl) hcompletes fun other hother => ?_
      rw [Cursor.before_nil, hread hother, hconvert]
      exact ⟨_, rfl, rfl⟩
  | notWhole hconvert =>
      rw [hconvert] at hfailure
      refine .fails cursor.before_nil.symm hfailure (.notWhole hkind) hcompletes
        fun other hother => ?_
      rw [Cursor.before_nil, hread hother, hconvert]
      exact ⟨_, rfl, rfl⟩

end Read

end Parser

/-! ## Loops -/

theorem Cursor.down_zero (cursor : Cursor) : cursor.down 0 = cursor := by
  obtain ⟨rest, final⟩ := cursor
  exact congrArg (Cursor.mk · final) (List.map_id rest)

theorem ParseFailure.down_zero (failure : ParseFailure) :
    failure.down 0 = failure := by
  cases failure <;> rfl

theorem Cursor.paired_self {cursor : Cursor}
    (hfinal : cursor.final.kind = .endOfInput) :
    (movedDown 0).Paired cursor cursor := ⟨hfinal, cursor.down_zero.symm⟩

/-- What reads alike from a cursor that is not moved is the same. -/
theorem Pairing.Outcomes.eq {α : Type} {read : Nat} {cursor : Cursor}
    {outcome outcome' : Except ParseFailure (α × Cursor)}
    (houtcomes : (movedDown 0).Outcomes read cursor (· = ·) outcome outcome') :
    outcome = outcome' := by
  cases houtcomes with
  | @parsed value value' later later' _ hvalues hpaired =>
      rw [hvalues, hpaired.2, Cursor.down_zero]
  | failed failure =>
      change _ = Except.error (failure.down 0)
      rw [failure.down_zero]
  | goesOn hmore => exact hmore.elim

namespace Parser

section Rounds

variable {α β : Type} {spells : List Token → α → Prop} {first : Parser α}
  (loop : Nat → α → Parser β)
  (hrounds : ∀ value (cursor : Cursor) rounds, cursor.final.kind = .endOfInput →
    cursor.rest.length ≤ rounds →
    loop rounds value cursor = loop cursor.rest.length value cursor)

include hrounds

/-- It does not matter whether the rounds of a loop are counted before or
after the parser in front of it. -/
theorem bind_remaining (hsound : Sound first spells) {cursor : Cursor}
    (hfinal : cursor.final.kind = .endOfInput) :
    (first >>= loop cursor.rest.length) cursor =
      (do
        let value ← first
        loop (← remaining) value) cursor := by
  rw [bind_apply, bind_apply]
  cases hfirst : first cursor with
  | error failure => rfl
  | ok result =>
      obtain ⟨value, later⟩ := result
      obtain ⟨tokens, rfl, -⟩ := hsound hfirst hfinal
      change loop _ value later = loop later.rest.length value later
      apply hrounds value later _ hfinal
      rw [Cursor.before, List.length_append]
      exact Nat.le_add_left _ _

/-- A round of a loop reads the next token and an item, and goes on with the
rounds that are left then. -/
theorem PinpointsAt.round {spells' : List Token → β → Prop} {parser : Parser β}
    {cursor : Cursor} (hfirst : Pinpoints first spells)
    (hsound : Sound first spells) (hfinal : cursor.final.kind = .endOfInput)
    (hkind : cursor.peek.kind ≠ .endOfInput)
    (hparser : ∀ other : Cursor,
      parser (other.before [cursor.peek]) =
        (first >>= loop other.rest.length) other)
    (hcompletes : ∀ front value, spells front value →
      ∃ result, spells' (cursor.peek :: front) result)
    (hloop : ∀ front value, spells front value → ∀ later : Cursor,
      later.final.kind = .endOfInput →
      later.rest.length < cursor.rest.length →
      PinpointsAt (do loop (← remaining) value)
        (fun back => spells' (cursor.peek :: (front ++ back))) later) :
    PinpointsAt parser spells' cursor := by
  have hcursor := cursor.eq_before hkind hfinal
  have hnext : PinpointsAt
      (do
        let value ← first
        loop (← remaining) value)
      (fun back => spells' (cursor.peek :: back)) cursor.skip := by
    apply (hfirst cursor.skip hfinal).bind hsound hfinal
    · intro front value hvalue
      obtain ⟨result, hresult⟩ := hcompletes front value hvalue
      rw [← List.singleton_append] at hresult
      exact completes_nothing hresult
    · intro front later value _ hskip hvalue
      rw [hskip, Cursor.before_before] at hcursor
      apply hloop front value hvalue later (Cursor.ends_of_eq_before hcursor hfinal)
      rw [hcursor, Cursor.before, List.length_append, List.length_append]
      exact Nat.lt_add_of_pos_left (Nat.add_pos_left Nat.one_pos _)
  apply hnext.read hfinal hkind
  intro other hother
  rw [hparser other, bind_remaining loop hrounds hsound hother]

end Rounds

end Parser

end NumberedBasic
