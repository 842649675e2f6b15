import NumberedBasic.Proofs.Grammar.StatementComplete
import NumberedBasic.Proofs.Parsing.Statement
import NumberedBasic.Proofs.Refusal.Expression

/-!
# The token to blame in a statement

Every rule for statements pinpoints its failures.  Where a statement is
missing, an END would do.
-/

namespace NumberedBasic

namespace Parser

/-! ## Numerals -/

theorem converts_lineNumber (token : Token) :
    Converts token (lineNumber token) := by
  unfold lineNumber
  dsimp only
  split
  next => exact .notWhole rfl
  next hsigns =>
    rw [Bool.or_eq_true, not_or, Bool.not_eq_true', Bool.not_eq_false] at hsigns
    split
    next hdigits =>
      refine .unreadable (Or.inr ⟨hsigns.2, fun hall => ?_⟩) rfl
      rw [hall] at hdigits
      cases hdigits
    next =>
      unfold Text.wholeNumber?
      by_cases hlength : token.text.toList.length ≤ Text.longestNumeral
      · rw [if_pos hlength]
        exact .value _ rfl
      · rw [if_neg hlength]
        exact .unreadable (Or.inr ⟨hsigns.2, fun _ => Nat.lt_of_not_le hlength⟩) rfl

theorem converts_number (token : Token) :
    Converts token (dataItem.number token) := by
  unfold dataItem.number
  split
  next x _ => exact .value x rfl
  next hx => exact .unreadable (Or.inl hx) rfl

theorem isLineNumber_sample : TokenKind.number.sample.IsLineNumber 0 :=
  ⟨rfl, by decide, List.forall_mem_singleton.mpr rfl, by decide, rfl⟩

section Numerals

variable {α β : Type} {spells : List Token → α → Prop}
  {convert : Token → Parser β} (form : β → α)
  (hconverts : ∀ token, Converts token (convert token))
  (hcompletes : Completes [.number] spells)

include hconverts hcompletes

theorem pinpoints_demandNumeral (what : Expected) :
    Pinpoints
      (do
        let token ← demand [.number] what
        return form (← convert token)) spells := by
  intro cursor hfinal
  by_cases hkind : cursor.peek.kind = .number
  · apply PinpointsAt.numeral form (hconverts cursor.peek) hfinal hkind hcompletes
    exact fun other => demandOne_bind_read other cursor.peek [] hkind
  · apply pinpointsAt_here hfinal _ hcompletes
    · intro other hother
      rw [bind_apply, demand_apply, hother.peek, if_neg (by simpa using hkind)]
      rfl
    · exact nofun

theorem pinpoints_acceptNumeral_bind {next : Option Token → Parser α}
    (hsome : ∀ token, next (some token) = do return form (← convert token))
    (hnone : Pinpoints (next none) spells) :
    Pinpoints (acceptNumeral >>= next) spells := by
  intro cursor hfinal
  by_cases hkind : cursor.peek.kind = .number
  · apply PinpointsAt.numeral form (hconverts cursor.peek) hfinal hkind hcompletes
    intro other
    rw [bind_apply, acceptNumeral_read hkind, ← hsome]
    rfl
  · apply (hnone cursor hfinal).congr hfinal
    intro other hother
    rw [bind_apply, acceptNumeral_leave (hother.peek ▸ hkind)]
    rfl

end Numerals

/-! ## Parts of statements -/

/-- The item that follows a separator of a PRINT, unless nothing does. -/
def itemIfAny (item : Parser Expr) : Parser (Option Expr) := do
  if (← peek).kind.endsBranch then return none
  else return some (← item)

/-- The rest of a PRINT after a separator and what follows it. -/
def furtherItems (item : Parser Expr) (separator : Separator) (rounds : Nat) :
    Option Expr → Parser (List Separator × List Expr × Option Separator)
  | none => return ([], [], some separator)
  | some head => do
      let rest ← printRest item rounds
      return (separator :: rest.1, head :: rest.2.1, rest.2.2)

def IsItemIfAny (depth : Nat) (tokens : List Token) : Option Expr → Prop
  | none => tokens = []
  | some expr => Rule.expression.Derives depth tokens expr

section Items

variable {depth : Nat} {item : Parser Expr}

theorem sound_itemIfAny (hsound : Sound item (Rule.expression.Derives depth)) :
    Sound (itemIfAny item) (IsItemIfAny depth) := by
  apply sound_peek_bind
  intro following
  split
  · exact sound_pure rfl
  · exact hsound.map some fun _ _ hexpr => hexpr

theorem pinpoints_itemIfAny
    (hitem : Pinpoints item (Rule.expression.Derives depth)) :
    Pinpoints (itemIfAny item) (IsItemIfAny depth) := by
  apply pinpoints_peek_bind
  intro following
  split
  · exact pinpoints_pure none
  · exact hitem.map some fun _ _ hexpr => hexpr

theorem printRest_succ (item : Parser Expr) (rounds : Nat) {separator : Separator}
    {mark : Token} (hmark : printRest.separator? mark.kind = some separator)
    (cursor : Cursor) :
    printRest item (rounds + 1) (cursor.before [mark]) =
      (itemIfAny item >>= furtherItems item separator rounds) cursor := by
  rw [printRest, bind_apply, accept_read cursor mark [] hmark]
  change (if cursor.peek.kind.endsBranch then _ else _ : Parser _) cursor =
    ((if cursor.peek.kind.endsBranch then _ else _ : Parser _) cursor).bind _
  split
  · rfl
  · rw [bind_apply, bind_apply]
    cases item cursor <;> rfl

theorem printRest_rounds (halike : (movedDown 0).ReadsAlike 0 item)
    (cursor : Cursor) {rounds : Nat} (hfinal : cursor.final.kind = .endOfInput)
    (hrounds : cursor.rest.length ≤ rounds) :
    printRest item rounds cursor = printRest item cursor.rest.length cursor :=
  (Pairing.outcomes_printRest halike (Cursor.paired_self hfinal) hrounds
    (Nat.le_refl _)).eq

theorem pinpoints_printRest
    (hitem : Pinpoints item (Rule.expression.Derives depth))
    (hsound : Sound item (Rule.expression.Derives depth))
    (halike : (movedDown 0).ReadsAlike 0 item) :
    Pinpoints (do printRest item (← remaining)) fun tokens rest =>
      PrintRest depth tokens rest.1 rest.2.1 rest.2.2 := by
  intro cursor hfinal
  induction hlength : cursor.rest.length using Nat.strongRecOn
    generalizing cursor with
  | ind length ih =>
      cases hseparator : printRest.separator? cursor.peek.kind with
      | none =>
          apply (pinpoints_pure ([], [], none) cursor hfinal).congr hfinal
          intro other hother
          exact printRest_leave item _ (hother.peek ▸ hseparator)
      | some separator =>
          have hmark := separates_of_separator? hseparator
          have hkind : cursor.peek.kind ≠ .endOfInput := by
            intro hend
            rw [hend] at hseparator
            cases hseparator
          apply PinpointsAt.round (furtherItems item separator) _
            (pinpoints_itemIfAny hitem) (sound_itemIfAny hsound) hfinal hkind
          · exact fun other => printRest_succ item _ hseparator other
          · intro front head? hhead
            cases head? with
            | none =>
                obtain rfl := hhead
                exact ⟨([], [], some separator), .ending hmark⟩
            | some head =>
                refine ⟨([separator], [head], none), ?_⟩
                simpa using PrintRest.further hmark hhead .nothing
          · intro front head? hhead later hlater hshorter
            cases head? with
            | none => exact pinpoints_pure _ later hlater
            | some head =>
                have hloop := ih _ (hlength ▸ hshorter) later hlater rfl
                apply hloop.map fun rest =>
                  (separator :: rest.1, head :: rest.2.1, rest.2.2)
                intro back rest hrest
                exact .further hmark hhead hrest
          · intro head? later rounds hlater hrounds
            cases head? with
            | none => rfl
            | some head =>
                rw [furtherItems, furtherItems, bind_apply, bind_apply,
                  printRest_rounds halike later hlater hrounds]

end Items

section Heads

variable (depth : Nat)

theorem pinpoints_printStatement :
    Pinpoints (printStatement depth) (Keyword.Heads (depth + 12) .printWord) := by
  have hitem := (rulesPinpoint depth).expression
  have hsound := sound_deeper .expression (rulesSound depth).expression
  apply pinpoints_peek_bind
  intro following
  split
  · exact pinpoints_pure _
  · apply hitem.bind hsound
    · intro front expr hexpr
      apply completes_nothing
      simpa using Keyword.Heads.print hexpr .nothing
    · intro front expr hexpr
      have hrest := pinpoints_printRest hitem hsound
        ((movedDown 0).rulesReadAlike depth).expression
      apply hrest.map fun rest => Statement.print (expr :: rest.2.1) rest.1 rest.2.2
      exact fun back rest hrest => .print hexpr hrest

theorem pinpoints_assignment :
    Pinpoints (assignment depth) (Assigns (depth + 12)) := by
  have hcloses {front : List Token} {target : Place}
      (htarget : Rule.place.Derives (depth + 1 + 12) front target) :
      Completes [.sign .equal, .string] fun back =>
        Assigns (depth + 12) (front ++ back) :=
    ⟨by decide, _, .intro htarget rfl derives_sample⟩
  have hsound := sound_deeper .place (rulesSound (depth + 1)).place
  apply (rulesPinpoint (depth + 1)).place.bind hsound
  · exact fun _ _ htarget => ⟨_, hcloses htarget⟩
  · intro front target htarget
    apply pinpoints_demandOne_bind (hcloses htarget)
    · intro equal hequal
      apply (rulesPinpoint depth).expression.map
      exact fun _ _ hvalue => .intro htarget hequal hvalue
    · exact nofun

theorem pinpoints_jump : Pinpoints jump (Keyword.Heads (depth + 12) .gotoWord) := by
  apply pinpoints_demandNumeral (fun number => Statement.goto (some number))
    converts_lineNumber
  exact ⟨by decide, _, .goto isLineNumber_sample⟩

theorem pinpoints_loop :
    Pinpoints (loop depth) (Keyword.Heads (depth + 12) .forWord) := by
  have hexpression := (rulesPinpoint depth).expression
  have hsound := sound_deeper .expression (rulesSound depth).expression
  apply pinpoints_demandOne_bind
  · exact completes_spelling
      [.identifier, .sign .equal, .string, .keyword .toWord, .string]
      (.forLoop rfl rfl derives_sample rfl derives_sample) (by decide)
  · intro name hname
    apply pinpoints_demandOne_bind
    · exact completes_spelling [.sign .equal, .string, .keyword .toWord, .string]
        (.forLoop hname rfl derives_sample rfl derives_sample) (by decide)
    · intro equal hequal
      have hcloses {front : List Token} {start : Expr}
          (hstart : Rule.expression.Derives (depth + 12) front start) :
          Completes [.keyword .toWord, .string] fun back =>
            Keyword.Heads (depth + 12) .forWord (name :: equal :: (front ++ back)) :=
        completes_spelling _ (.forLoop hname hequal hstart rfl derives_sample)
          (by decide)
      apply hexpression.bind hsound
      · exact fun _ _ hstart => ⟨_, hcloses hstart⟩
      · intro front start hstart
        apply pinpoints_demandOne_bind (hcloses hstart)
        · intro toToken hto
          apply hexpression.bind hsound
          · intro middle limit hlimit
            have hlimit :
                Rule.expression.Derives (depth + 12) (middle ++ []) limit := by
              rwa [List.append_nil]
            exact ⟨[], completes_spelling []
              (.forLoop hname hequal hstart hto hlimit) nofun⟩
          · intro middle limit hlimit
            apply pinpoints_acceptKind_bind
            · intro stepToken hby
              apply hexpression.map
              exact fun _ _ hstep =>
                .forStep hname hequal hstart hto hlimit hby hstep
            · exact pinpoints_pure _
            · exact nofun
        · exact nofun
    · exact nofun
  · exact nofun

theorem pinpoints_name (what : Expected) :
    Pinpoints (loopEnd.name what) IsName := by
  apply pinpoints_demandOne_bind
  · exact completes_spelling [.identifier] (.intro rfl) (by decide)
  · exact fun _ _ => pinpoints_pure _
  · exact nofun

theorem pinpoints_loopEnd :
    Pinpoints loopEnd (Keyword.Heads (depth + 12) .nextWord) := by
  apply pinpoints_peek_bind
  intro following
  split
  · apply (pinpoints_commaList (pinpoints_name _) (sound_name _)
      (pinpoints_name _) (sound_name _) (Pairing.readsAlike_name _)).map
    exact fun _ _ hnames => .next hnames
  · exact pinpoints_pure _

theorem pinpoints_dataItem : Pinpoints dataItem DataItem := by
  obtain ⟨x, hx⟩ := exists_entireNumber_sample
  have hunsigned : Completes [.number] DataItem :=
    completes_spelling _ (.unsigned rfl hx) (by decide)
  apply pinpoints_accept_bind rfl
  · intro sign negative hsign
    apply pinpoints_demandNumeral
      (fun x => Value.number (if negative then -x else x)) converts_number
    have hsigned : ∃ value, DataItem [sign, TokenKind.number.sample] value := by
      unfold dataItem.sign? at hsign
      split at hsign <;> cases hsign
      · exact ⟨_, .minus ‹_› rfl hx⟩
      · exact ⟨_, .plus ‹_› rfl hx⟩
    exact hunsigned.imp fun _ _ => hsigned
  · intro cursor hfinal
    by_cases hnumber : cursor.peek.kind = .number
    · apply PinpointsAt.numeral .number (converts_number cursor.peek) hfinal hnumber
        hunsigned
      intro other
      change (demand [.number, .string] .dataItem >>= _) _ = _
      rw [demand_bind_read other cursor.peek [] (by simp [hnumber]),
        if_neg (by simp [hnumber])]
      rfl
    · by_cases hstring : cursor.peek.kind = .string
      · have hpure : Pinpoints (pure (.text cursor.peek.text))
            fun back => DataItem (cursor.peek :: back) := pinpoints_pure _
        apply (hpure cursor.skip hfinal).read hfinal (hstring ▸ nofun)
        intro other _
        change (demand [.number, .string] .dataItem >>= _) _ = _
        rw [demand_bind_read other cursor.peek [] (by simp [hstring]),
          if_pos hstring]
        rfl
      · apply pinpointsAt_here hfinal _ hunsigned
        · intro other hother
          change (demand [.number, .string] .dataItem >>= _) _ = _
          rw [bind_apply, demand_apply, hother.peek,
            if_neg (by simp [hnumber, hstring])]
          rfl
        · exact nofun

theorem pinpoints_restoration :
    Pinpoints restoration (Keyword.Heads (depth + 12) .restoreWord) := by
  apply pinpoints_acceptNumeral_bind (fun number => Statement.restore (some number))
    converts_lineNumber
  · exact completes_spelling _ (.restore isLineNumber_sample) (by decide)
  · exact fun _ => rfl
  · exact pinpoints_pure _

theorem pinpoints_declaration :
    Pinpoints (declaration depth) (Declares (depth + 12)) := by
  have hlisted : Rule.listed.Derives (depth + 12 + 1) [TokenKind.string.sample]
      [.text ""] := .last derives_sample
  have hdeclares : Completes
      [.identifier, .sign .leftParen, .string, .sign .rightParen]
      (Declares (depth + 12)) :=
    ⟨by decide, _, .intro rfl rfl hlisted rfl⟩
  apply pinpoints_demandOne_bind hdeclares
  · intro name hname
    have hopens : Completes [.sign .leftParen, .string, .sign .rightParen]
        fun back => Declares (depth + 12) (name :: back) :=
      ⟨by decide, _, .intro hname rfl hlisted rfl⟩
    apply pinpoints_demand_bind rfl hopens
    intro opening hopening
    have hcloses {tokens : List Token} {bounds : List Expr}
        (hbounds : Rule.listed.Derives (depth + 1 + 12) tokens bounds) :
        Completes [.sign .rightParen] fun back =>
          Declares (depth + 12) (name :: opening :: (tokens ++ back)) :=
      completes_spelling _
        (.intro hname (contains_opensBracket.mp hopening) hbounds rfl) (by decide)
    have hsound := sound_deeper .listed (rulesSound (depth + 1)).expressionList
    apply (rulesPinpoint (depth + 1)).expressionList.bind hsound
    · exact fun _ _ hbounds => ⟨_, hcloses hbounds⟩
    · intro tokens bounds hbounds
      apply pinpoints_demand_bind rfl (hcloses hbounds)
      exact fun _ _ => pinpoints_pure _
  · exact nofun

theorem pinpoints_remark :
    Pinpoints remark (Keyword.Heads (depth + 12) .remWord) := by
  intro cursor hfinal
  by_cases hstring : cursor.peek.kind = .string
  · have hpure : Pinpoints (pure (.remark cursor.peek.text))
        fun back => Keyword.Heads (depth + 12) .remWord (cursor.peek :: back) :=
      pinpoints_pure _
    apply (hpure cursor.skip hfinal).read hfinal (hstring ▸ nofun)
    intro other _
    rw [remark, peek_bind_apply, Cursor.peek_before, if_pos hstring]
    rfl
  · apply (pinpoints_pure (.remark "") cursor hfinal).congr hfinal
    intro other hother
    rw [remark, peek_bind_apply, hother.peek, if_neg hstring]

theorem pinpoints_simpleStatement {word : Keyword}
    (hword : startsSimple word = true) :
    Pinpoints (simpleStatement depth word) (word.Heads (depth + 12)) := by
  have hplace := (rulesPinpoint (depth + 1)).place
  have hplaceSound := sound_deeper .place (rulesSound (depth + 1)).place
  have hplaceAlike := ((movedDown 0).rulesReadAlike (depth + 1)).place.weaken
    (Nat.zero_le 1)
  have hdeclaration := pinpoints_declaration depth
  have hdeclarationSound := (sound_declaration depth).imp fun _ _ harray =>
    harray.mono (Nat.le_add_right depth 12)
  cases word with
  | printWord => exact pinpoints_printStatement depth
  | letWord =>
      exact (pinpoints_assignment depth).imp fun _ _ hassigns => .assign hassigns
  | gotoWord => exact pinpoints_jump depth
  | forWord => exact pinpoints_loop depth
  | nextWord => exact pinpoints_loopEnd depth
  | dataWord =>
      apply (pinpoints_commaList pinpoints_dataItem sound_dataItem
        pinpoints_dataItem sound_dataItem Pairing.readsAlike_dataItem).map
      exact fun _ _ hvalues => .data hvalues
  | readWord =>
      apply (pinpoints_commaList hplace hplaceSound hplace hplaceSound
        hplaceAlike).map
      exact fun _ _ htargets => .read htargets
  | restoreWord => exact pinpoints_restoration depth
  | dimWord =>
      apply (pinpoints_commaList hdeclaration hdeclarationSound hdeclaration
        hdeclarationSound (Pairing.readsAlike_declaration depth)).map
      exact fun _ _ harrays => .dim harrays
  | endWord => exact pinpoints_pure _
  | remWord => exact pinpoints_remark depth
  | _ => cases hword

end Heads

/-! ## Statements -/

theorem derives_end {depth : Nat} :
    Phrase.statement.Derives (depth + 3) [(TokenKind.keyword .endWord).sample] .stop :=
  .headed rfl .stop

theorem completes_end {depth : Nat} :
    Completes [.keyword .endWord] (Phrase.statement.Derives (depth + 3)) :=
  ⟨by decide, _, derives_end⟩

theorem SoundPhrase.sound_deeper {parser : Parser Statement} {phrase : Phrase}
    {depth : Nat} (hparser : SoundPhrase parser phrase depth) :
    Sound parser (phrase.Derives (depth + 12)) := by
  intro cursor later body hparse hfinal
  obtain ⟨⟨tokens, hcursor, hbody⟩, -⟩ := hparser hparse hfinal
  exact ⟨tokens, hcursor, hbody.mono (Nat.le_add_right depth 12)⟩

theorem pinpoints_branch {inner : Parser Statement} {depth : Nat}
    (hinner : Pinpoints inner (Phrase.statement.Derives (depth + 12))) :
    Pinpoints (branch inner) (Phrase.branch.Derives (depth + 12)) := by
  apply pinpoints_acceptNumeral_bind (fun number => Statement.goto (some number))
    converts_lineNumber
  · exact completes_spelling _ (.jump isLineNumber_sample) (by decide)
  · exact fun _ => rfl
  · apply pinpoints_peek_bind
    intro following
    split
    · have hend : Completes [.keyword .endWord]
          (Phrase.branch.Derives (depth + 12)) :=
        completes_end.imp fun _ hend => ⟨_, .nested hend⟩
      exact pinpoints_refuse nofun hend
    · exact hinner.imp fun _ _ hbody => .nested hbody

section Branches

variable {depth : Nat} {first : Token}
  (hfirst : first.kind = .keyword .ifWord)
  (hbranch : Pinpoints (branch (statement depth))
    (Phrase.branch.Derives (depth + 12)))

include hfirst hbranch

theorem pinpoints_branches {front : List Token} {condition : Expr}
    (hcondition : Rule.expression.Derives (depth + 12) front condition)
    {thenToken : Token} (hthen : thenToken.kind = .keyword .thenWord) :
    Pinpoints (branches depth condition) fun back =>
      Phrase.statement.Derives (depth + 3 + 12)
        (first :: (front ++ thenToken :: back)) := by
  have hphrase := soundPhrase_branch (soundPhrase_statement depth)
  intro cursor hfinal
  apply (hbranch cursor hfinal).bind hphrase.sound_deeper hfinal
  · intro middle accepted haccepted
    have haccepted : Phrase.branch.Derives (depth + 12) (middle ++ []) accepted := by
      rwa [List.append_nil]
    have hbody := Phrase.Derives.ifThen hfirst hcondition hthen haccepted
    exact ⟨[], completes_spelling [] hbody nofun⟩
  · intro middle later accepted hparse hcursor haccepted
    have hlater := Cursor.ends_of_eq_before hcursor hfinal
    apply pinpointsAt_acceptKind_bind hlater
    · intro helse
      have hclosed : accepted.awaitsElse = false := by
        rw [← Bool.not_eq_true]
        exact fun hawaits => (hphrase hparse hfinal).2 hawaits helse
      apply (hbranch later.skip hlater).map
      intro back otherwise hotherwise
      exact .ifElse hfirst hcondition hthen haccepted hclosed helse hotherwise
    · exact pinpoints_pure _ later hlater
    · exact nofun

theorem pinpoints_conditional :
    Pinpoints (conditional depth) fun tokens =>
      Phrase.statement.Derives (depth + 3 + 12) (first :: tokens) := by
  have hcloses {front : List Token} {condition : Expr}
      (hcondition : Rule.expression.Derives (depth + 12) front condition) :
      Completes [.keyword .thenWord, .keyword .endWord] fun back =>
        Phrase.statement.Derives (depth + 3 + 12) (first :: (front ++ back)) :=
    completes_spelling _ (.ifThen hfirst hcondition rfl (.nested derives_end))
      (by decide)
  have hsound := Parser.sound_deeper .expression (rulesSound depth).expression
  apply (rulesPinpoint depth).expression.bind hsound
  · exact fun _ _ hcondition => ⟨_, hcloses hcondition⟩
  · intro front condition hcondition
    apply pinpoints_demandOne_bind (hcloses hcondition)
    · exact fun _ hthen => pinpoints_branches hfirst hbranch hcondition hthen
    · exact nofun

end Branches

theorem pinpoints_statement (depth : Nat) :
    Pinpoints (statement depth) (Phrase.statement.Derives (depth + 12)) := by
  match depth with
  | 0 | 1 | 2 => exact pinpoints_refuse nofun completes_end
  | depth + 3 =>
      intro cursor hfinal
      have hunexpected
          (hsame : ∀ other : Cursor, other.Resembles cursor →
            statement (depth + 3) other = unexpected other) :
          PinpointsAt (statement (depth + 3))
            (Phrase.statement.Derives (depth + 3 + 12)) cursor :=
        (pinpoints_unexpected completes_end cursor hfinal).congr hfinal hsame
      cases hkind : cursor.peek.kind with
      | identifier =>
          have hassignment : Pinpoints (assignment depth)
              (Phrase.statement.Derives (depth + 3 + 12)) :=
            (pinpoints_assignment depth).imp fun _ _ hassigns => .assign hassigns
          apply (hassignment cursor hfinal).congr hfinal
          exact fun other hother => statement_assignment (hother.peek ▸ hkind)
      | keyword word =>
          by_cases hword : word = .ifWord
          · rw [hword] at hkind
            have hbranch := pinpoints_branch (pinpoints_statement depth)
            have hconditional := pinpoints_conditional hkind hbranch
            apply (hconditional cursor.skip hfinal).read hfinal (hkind ▸ nofun)
            exact fun other _ => statement_conditional hkind
          · by_cases hstarts : startsSimple word = true
            · have hsimple : Pinpoints (simpleStatement depth word) fun tokens =>
                  Phrase.statement.Derives (depth + 3 + 12)
                    (cursor.peek :: tokens) :=
                (pinpoints_simpleStatement depth hstarts).imp
                  fun _ _ hbody => .headed hkind hbody
              apply (hsimple cursor.skip hfinal).read hfinal (hkind ▸ nofun)
              intro other _
              have hpeek : (other.before [cursor.peek]).peek.kind = .keyword word :=
                hkind
              exact (statement_headed hpeek hword).trans (if_pos hstarts)
            · apply hunexpected
              intro other hother
              exact (statement_headed (hother.peek ▸ hkind) hword).trans
                (if_neg hstarts)
      | _ =>
          apply hunexpected
          intro other hother
          exact statement_other (by simp [hother.peek, hkind])
            (by simp [hother.peek, hkind])

end Parser

end NumberedBasic
