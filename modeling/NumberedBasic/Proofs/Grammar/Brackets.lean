import NumberedBasic.Proofs.Grammar.Program

/-!
# Brackets

The brackets of a program that is read are nested well, and each is closed by
one of its own kind.  Only the outermost brackets of a DIM may differ: there
any opening bracket goes with any closing one.
-/

namespace NumberedBasic

namespace TokenKind

def isBracket (kind : TokenKind) : Bool :=
  kind.opensBracket || kind.closesBracket

/-- Whether the outermost brackets after the token are those of a DIM. -/
def declares (kind : TokenKind) (before : Bool) : Bool :=
  kind = keyword .dimWord || before && !kind.endsBranch

/-- Neither a bracket nor the beginning or the end of a DIM. -/
def isPlain (kind : TokenKind) : Bool :=
  !kind.isBracket && !kind.endsBranch && kind ≠ keyword .dimWord

theorem declares_of_isPlain {kind : TokenKind} (hplain : kind.isPlain = true)
    (before : Bool) : kind.declares before = before := by
  simp only [isPlain, Bool.and_eq_true, Bool.not_eq_true', decide_eq_true_eq]
    at hplain
  simp [declares, hplain]

theorem isBracket_of_isPlain {kind : TokenKind} (hplain : kind.isPlain = true) :
    kind.isBracket = false := by
  simp only [isPlain, Bool.and_eq_true, Bool.not_eq_true'] at hplain
  exact hplain.1.1

theorem isPlain_of_rank? {kind : TokenKind} {rank : Nat}
    (hrank : kind.rank? = some rank) : kind.isPlain = true := by
  unfold rank? at hrank
  split at hrank <;> first | rfl | cases hrank

theorem isPlain_of_isUnary {kind : TokenKind} (hunary : kind.isUnary = true) :
    kind.isPlain = true := by
  unfold isUnary at hunary
  split at hunary <;> first | rfl | cases hunary

theorem Brackets.closesBracket {opening closing : TokenKind}
    (hbrackets : Brackets opening closing) : closing.closesBracket = true := by
  cases hbrackets <;> rfl

end TokenKind

/-! ## Sequences of brackets -/

/-- Brackets that open and close one another in pairs, which are nested. -/
inductive WellNested (pairs : TokenKind → TokenKind → Prop) :
    List TokenKind → Prop where
  | nil : WellNested pairs []
  | pair {opening closing : TokenKind} {inner after : List TokenKind}
      (hpair : pairs opening closing) (hinner : WellNested pairs inner)
      (hafter : WellNested pairs after) :
      WellNested pairs (opening :: (inner ++ closing :: after))

/-- The brackets among the tokens, in order. -/
def brackets (tokens : List Token) : List TokenKind :=
  (tokens.map Token.kind).filter TokenKind.isBracket

theorem brackets_cons (token : Token) (tokens : List Token) :
    brackets (token :: tokens) =
      if token.kind.isBracket then token.kind :: brackets tokens
      else brackets tokens := by
  rw [brackets, List.map_cons, List.filter_cons]
  rfl

theorem brackets_append (front back : List Token) :
    brackets (front ++ back) = brackets front ++ brackets back := by
  rw [brackets, List.map_append, List.filter_append]
  rfl

/-- The brackets of the tokens are nested well, and match in kind unless they
are the outermost of a DIM. -/
inductive Bracketed : (declaring : Bool) → List Token → Prop where
  | nil {declaring : Bool} : Bracketed declaring []
  | other {declaring : Bool} {token : Token} {tokens : List Token}
      (hother : token.kind.isBracket = false)
      (htokens : Bracketed (token.kind.declares declaring) tokens) :
      Bracketed declaring (token :: tokens)
  | pair {declaring : Bool} {opening closing : Token} {inner after : List Token}
      (hopening : opening.kind.opensBracket = true)
      (hclosing : closing.kind.closesBracket = true)
      (hmatching : declaring = false →
        TokenKind.Brackets opening.kind closing.kind)
      (hinner : Bracketed false inner) (hafter : Bracketed declaring after) :
      Bracketed declaring (opening :: (inner ++ closing :: after))

/-- Brackets are nested well in pairs that hold of all that match, and of any
two if there is a DIM. -/
theorem Bracketed.wellNested {pairs : TokenKind → TokenKind → Prop}
    {declaring : Bool} {tokens : List Token}
    (hbracketed : Bracketed declaring tokens)
    (hmatching : ∀ opening closing, TokenKind.Brackets opening closing →
      pairs opening closing)
    (hdim : declaring = true ∨
        (∃ token ∈ tokens, token.kind = .keyword .dimWord) →
      ∀ opening closing : TokenKind, opening.opensBracket = true →
        closing.closesBracket = true → pairs opening closing) :
    WellNested pairs (brackets tokens) := by
  induction hbracketed with
  | nil => exact .nil
  | @other declaring token tokens hother _ ih =>
      rw [brackets_cons, if_neg (Bool.eq_false_iff.mp hother)]
      apply ih
      rintro (hdeclares | ⟨other, hmem, hkind⟩)
      · rw [TokenKind.declares, Bool.or_eq_true, Bool.and_eq_true] at hdeclares
        rcases hdeclares with hkind | ⟨hbefore, -⟩
        · exact hdim (Or.inr ⟨token, List.mem_cons_self, of_decide_eq_true hkind⟩)
        · exact hdim (Or.inl hbefore)
      · exact hdim (Or.inr ⟨other, List.mem_cons_of_mem _ hmem, hkind⟩)
  | @pair declaring opening closing inner after hopening hclosing hpair _ _
      ihInner ihAfter =>
      have hbrackets : brackets (opening :: (inner ++ closing :: after)) =
          opening.kind :: (brackets inner ++ closing.kind :: brackets after) := by
        simp [brackets_cons, brackets_append, TokenKind.isBracket, hopening,
          hclosing]
      rw [hbrackets]
      apply WellNested.pair
      · cases declaring with
        | true => exact hdim (Or.inl rfl) _ _ hopening hclosing
        | false => exact hmatching _ _ (hpair rfl)
      · apply ihInner
        rintro (hfalse | ⟨other, hmem, hkind⟩)
        · cases hfalse
        · exact hdim (Or.inr ⟨other,
            List.mem_cons_of_mem _ (List.mem_append_left _ hmem), hkind⟩)
      · apply ihAfter
        rintro (hdeclares | ⟨other, hmem, hkind⟩)
        · exact hdim (Or.inl hdeclares)
        · exact hdim (Or.inr ⟨other, List.mem_cons_of_mem _
            (List.mem_append_right _ (List.mem_cons_of_mem _ hmem)), hkind⟩)

/-! ## Expressions -/

/-- In front of tokens that are bracketed, these are bracketed too. -/
def Transparent (tokens : List Token) : Prop :=
  ∀ declaring back, Bracketed declaring back →
    Bracketed declaring (tokens ++ back)

theorem transparent_nil : Transparent [] := fun _ _ hback => hback

namespace Transparent

variable {front back tokens : List Token} {token : Token}

theorem append (hfront : Transparent front) (hback : Transparent back) :
    Transparent (front ++ back) := by
  intro declaring after hafter
  rw [List.append_assoc]
  exact hfront _ _ (hback _ _ hafter)

theorem cons (hplain : token.kind.isPlain = true) (htokens : Transparent tokens) :
    Transparent (token :: tokens) := by
  intro declaring after hafter
  apply Bracketed.other (TokenKind.isBracket_of_isPlain hplain)
  rw [TokenKind.declares_of_isPlain hplain]
  exact htokens _ _ hafter

theorem cons_of_kind {kind : TokenKind} (hkind : token.kind = kind)
    (htokens : Transparent tokens) (hplain : kind.isPlain = true) :
    Transparent (token :: tokens) := by
  apply cons _ htokens
  rw [hkind]
  exact hplain

theorem enclosed {opening closing : Token} (htokens : Transparent tokens)
    (hbrackets : TokenKind.Brackets opening.kind closing.kind) :
    Transparent (opening :: (tokens ++ [closing])) := by
  intro declaring after hafter
  have hinner := htokens false [] .nil
  rw [List.append_nil] at hinner
  have hpair := Bracketed.pair hbrackets.opensBracket hbrackets.closesBracket
    (fun _ => hbrackets) hinner hafter
  simpa using hpair

end Transparent

theorem Rule.Derives.transparent {rule : Rule} {depth : Nat} {tokens : List Token}
    {result : rule.Result} (hderives : rule.Derives depth tokens result) :
    Transparent tokens := by
  induction hderives with
  | entered _ ih | higher _ _ ih | operand _ ih | unsigned _ ih | unraised _ ih
  | reference _ ih | last _ ih => exact ih
  | infixed _ hoperator _ ihLeft ihRight =>
      exact ihLeft.append (ihRight.cons (TokenKind.isPlain_of_rank? hoperator))
  | signed hoperator _ ih => exact ih.cons (TokenKind.isPlain_of_isUnary hoperator)
  | raised _ hcaret _ ihBase ihExponent =>
      exact ihBase.append (ihExponent.cons_of_kind hcaret rfl)
  | further _ hcomma _ ihExpr ihOthers =>
      exact ihExpr.append (ihOthers.cons_of_kind hcomma rfl)
  | number hkind | text hkind | scalar hkind =>
      exact transparent_nil.cons_of_kind hkind rfl
  | grouped hopening _ hclosing ih =>
      exact ih.enclosed (hopening ▸ hclosing ▸ .round)
  | element hname _ hbrackets ih =>
      exact (ih.enclosed hbrackets).cons_of_kind hname rfl

theorem Separated.transparent {α : Type} {spells : List Token → α → Prop}
    {tokens : List Token} {items : List α}
    (hitem : ∀ part item, spells part item → Transparent part)
    (hseparated : Separated spells tokens items) : Transparent tokens := by
  induction hseparated with
  | last hspells => exact hitem _ _ hspells
  | further hspells hcomma _ ih =>
      exact (hitem _ _ hspells).append (ih.cons_of_kind hcomma rfl)

/-! ## Statements -/

section Statements

variable {depth : Nat}

theorem PrintRest.transparent {tokens : List Token} {separators : List Separator}
    {exprs : List Expr} {ending? : Option Separator}
    (hrest : PrintRest depth tokens separators exprs ending?) :
    Transparent tokens := by
  have hplain {mark : Token} {separator : Separator}
      (hmark : mark.kind.Separates separator) : mark.kind.isPlain = true := by
    generalize mark.kind = kind at hmark
    cases hmark <;> rfl
  induction hrest with
  | nothing => exact transparent_nil
  | ending hmark => exact transparent_nil.cons (hplain hmark)
  | further hmark hexpr _ ih =>
      exact (hexpr.transparent.append ih).cons (hplain hmark)

theorem IsName.transparent {tokens : List Token} {name : String}
    (hname : IsName tokens name) : Transparent tokens := by
  cases hname with
  | intro hkind => exact transparent_nil.cons_of_kind hkind rfl

theorem DataItem.transparent {tokens : List Token} {value : Value}
    (hitem : DataItem tokens value) : Transparent tokens := by
  cases hitem with
  | text hkind | unsigned hkind _ => exact transparent_nil.cons_of_kind hkind rfl
  | plus hsign hkind _ | minus hsign hkind _ =>
      exact (transparent_nil.cons_of_kind hkind rfl).cons_of_kind hsign rfl

theorem Assigns.transparent {tokens : List Token} {body : Statement}
    (hassigns : Assigns depth tokens body) : Transparent tokens := by
  cases hassigns with
  | intro htarget hequal hvalue =>
      exact htarget.transparent.append (hvalue.transparent.cons_of_kind hequal rfl)

/-- The brackets of an array of a DIM are taken for such after the word only. -/
theorem Declares.bracketed {tokens back : List Token} {array : Declaration}
    (harray : Declares depth tokens array) (hback : Bracketed true back) :
    Bracketed true (tokens ++ back) := by
  cases harray with
  | @intro name opening closing tokens _ hname hopening hbounds hclosing =>
      have hinner := hbounds.transparent false [] .nil
      rw [List.append_nil] at hinner
      have hpair : Bracketed true (opening :: (tokens ++ closing :: back)) :=
        .pair hopening hclosing nofun hinner hback
      have hdeclared := (transparent_nil.cons_of_kind hname rfl) _ _ hpair
      simpa using hdeclared

theorem Separated.bracketed_declarations {tokens back : List Token}
    {arrays : List Declaration} (harrays : Separated (Declares depth) tokens arrays)
    (hback : Bracketed true back) : Bracketed true (tokens ++ back) := by
  induction harrays with
  | last harray => exact harray.bracketed hback
  | further harray hcomma _ ih =>
      rw [List.append_assoc]
      exact harray.bracketed ((transparent_nil.cons_of_kind hcomma rfl) _ _ ih)

/-- In front of tokens that are bracketed, whether there is a DIM before them
or not, these are bracketed too. -/
def EndsBracketed (tokens : List Token) : Prop :=
  ∀ declaring back, (∀ before, Bracketed before back) →
    Bracketed declaring (tokens ++ back)

theorem Transparent.endsBracketed {tokens : List Token}
    (htokens : Transparent tokens) : EndsBracketed tokens :=
  fun declaring back hback => htokens declaring back (hback declaring)

theorem EndsBracketed.behind {front tokens : List Token}
    (htokens : EndsBracketed tokens) (hfront : Transparent front) :
    EndsBracketed (front ++ tokens) := by
  intro declaring back hback
  rw [List.append_assoc]
  exact hfront _ _ (htokens _ _ hback)

/-- A token that ends a DIM. -/
theorem bracketed_ending {token : Token} {back : List Token}
    (hends : token.kind.endsBranch = true) (hback : ∀ before, Bracketed before back)
    (before : Bool) : Bracketed before (token :: back) := by
  have hbracket : token.kind.isBracket = false := by
    generalize token.kind = kind at hends
    rcases kind with _ | _ | _ | word | sign | _ | _
    case sign => cases sign <;> cases hends
    all_goals rfl
  exact .other hbracket (hback _)

theorem Keyword.Heads.endsBracketed {word : Keyword} {first : Token}
    {tokens : List Token} {body : Statement} (hfirst : first.kind = .keyword word)
    (hbody : word.Heads depth tokens body) : EndsBracketed (first :: tokens) := by
  have hplain {tokens : List Token} (htokens : Transparent tokens)
      (hword : (TokenKind.keyword word).isPlain = true) :
      EndsBracketed (first :: tokens) :=
    (htokens.cons_of_kind hfirst hword).endsBracketed
  cases hbody with
  | printNothing | nextLatest | restoreAll | stop | remarkNothing =>
      exact hplain transparent_nil rfl
  | print hexpr hrest =>
      exact hplain (hexpr.transparent.append hrest.transparent) rfl
  | assign hassigns => exact hplain hassigns.transparent rfl
  | goto hnumber | restore hnumber =>
      exact hplain (transparent_nil.cons_of_kind hnumber.kind rfl) rfl
  | forLoop hname hequal hstart hto hlimit =>
      exact hplain (((hstart.transparent.append (hlimit.transparent.cons_of_kind
        hto rfl)).cons_of_kind hequal rfl).cons_of_kind hname rfl) rfl
  | forStep hname hequal hstart hto hlimit hby hstep =>
      have hrest := hlimit.transparent.append (hstep.transparent.cons_of_kind hby rfl)
      exact hplain (((hstart.transparent.append (hrest.cons_of_kind
        hto rfl)).cons_of_kind hequal rfl).cons_of_kind hname rfl) rfl
  | next hnames =>
      exact hplain (hnames.transparent fun _ _ hname => hname.transparent) rfl
  | data hvalues =>
      exact hplain (hvalues.transparent fun _ _ hitem => hitem.transparent) rfl
  | read htargets =>
      exact hplain (htargets.transparent fun _ _ htarget => htarget.transparent) rfl
  | remark hcomment => exact hplain (transparent_nil.cons_of_kind hcomment rfl) rfl
  | dim harrays =>
      intro declaring back hback
      apply Bracketed.other
      · rw [hfirst]
        rfl
      · rw [hfirst]
        exact harrays.bracketed_declarations (hback true)

theorem Phrase.Derives.endsBracketed {phrase : Phrase} {tokens : List Token}
    {body : Statement} (hderives : phrase.Derives depth tokens body) :
    EndsBracketed tokens := by
  induction hderives with
  | headed hfirst hbody => exact hbody.endsBracketed hfirst
  | assign hassigns => exact hassigns.transparent.endsBracketed
  | ifThen hfirst hcondition hthen _ ih =>
      have hfront := (hcondition.transparent.append
        (transparent_nil.cons_of_kind hthen rfl)).cons_of_kind hfirst rfl
      simpa using ih.behind hfront
  | ifElse hfirst hcondition hthen _ _ helse _ ihAccepted ihOtherwise =>
      have hfront := (hcondition.transparent.append
        (transparent_nil.cons_of_kind hthen rfl)).cons_of_kind hfirst rfl
      intro declaring back hback
      have hotherwise := bracketed_ending (by rw [helse]; rfl)
        fun before => ihOtherwise before back hback
      simpa using ihAccepted.behind hfront declaring _ hotherwise
  | jump hnumber => exact (transparent_nil.cons_of_kind hnumber.kind rfl).endsBracketed
  | nested _ ih => exact ih

end Statements

/-! ## Programs -/

theorem Line.Derives.endsBracketed {depth : Nat} {tokens : List Token} {line : Line}
    (hline : Line.Derives depth tokens line) : EndsBracketed tokens := by
  cases hline with
  | numbered hnumber hbody =>
      exact hbody.endsBracketed.behind (transparent_nil.cons_of_kind hnumber.kind rfl)
  | unnumbered hbody => exact hbody.endsBracketed

theorem Program.Derives.bracketed {depth : Nat} {tokens : List Token}
    {program : Program} (hderives : Program.Derives depth tokens program)
    (declaring : Bool) :
    Bracketed declaring tokens := by
  induction hderives generalizing declaring with
  | finish hfinal => exact bracketed_ending (hfinal ▸ rfl) (fun _ => .nil) _
  | lastLine hline hfinal =>
      exact hline.endsBracketed _ _
        (bracketed_ending (hfinal ▸ rfl) fun _ => .nil)
  | blank hnewline _ ih => exact bracketed_ending (hnewline ▸ rfl) ih _
  | line hline hnewline _ ih =>
      exact hline.endsBracketed _ _ (bracketed_ending (hnewline ▸ rfl) ih)

/-- The brackets of a program that is read are nested well.  They match in
kind, apart from the outermost of a DIM, and so all of them do where there is
no DIM. -/
theorem Program.bracketed_of_parse [Host] {source : String} {program : Program}
    (hparse : Program.parse source = .ok program) :
    ∃ tokens, tokenise source = .ok tokens ∧ Bracketed false tokens ∧
      WellNested (fun opening closing => opening.opensBracket = true ∧
        closing.closesBracket = true) (brackets tokens) ∧
      ((∀ token ∈ tokens, token.kind ≠ .keyword .dimWord) →
        WellNested TokenKind.Brackets (brackets tokens)) := by
  obtain ⟨tokens, htokens, hderives⟩ := Program.exists_derives hparse
  have hbracketed := hderives.bracketed false
  refine ⟨tokens, htokens, hbracketed, ?_, fun hnone => ?_⟩
  · apply hbracketed.wellNested
    · exact fun _ _ hpair => ⟨hpair.opensBracket, hpair.closesBracket⟩
    · exact fun _ _ _ hopening hclosing => ⟨hopening, hclosing⟩
  · apply hbracketed.wellNested
    · exact fun _ _ hpair => hpair
    · rintro (hfalse | ⟨token, htoken, hkind⟩)
      · cases hfalse
      · exact absurd hkind (hnone token htoken)

/-- IF A[(B)] THEN DIM C(D[E]] ELSE PRINT F. -/
def bracketedBranches : List Token :=
  [(.keyword .ifWord, "IF", 1), (.identifier, "A", 4),
    (.sign .leftBracket, "[", 5), (.sign .leftParen, "(", 6),
    (.identifier, "B", 7), (.sign .rightParen, ")", 8),
    (.sign .rightBracket, "]", 9), (.keyword .thenWord, "THEN", 11),
    (.keyword .dimWord, "DIM", 16), (.identifier, "C", 20),
    (.sign .leftParen, "(", 21), (.identifier, "D", 22),
    (.sign .leftBracket, "[", 23), (.identifier, "E", 24),
    (.sign .rightBracket, "]", 25), (.sign .rightBracket, "]", 26),
    (.keyword .elseWord, "ELSE", 28), (.keyword .printWord, "PRINT", 33),
    (.identifier, "F", 39), (.endOfInput, "", 40)].map
      fun (kind, text, column) => ⟨kind, text, ⟨1, column⟩⟩

theorem Program.bracketed_of_parse_in_branches :
    Program.parse "IF A[(B)] THEN DIM C(D[E]] ELSE PRINT F" = .ok
        [⟨none, .ifElse (.reference "A" [.reference "B" []])
          (.dim [⟨"C", [.reference "D" [.reference "E" []]]⟩])
          (.print [.reference "F" []] [] none)⟩] ∧
      Bracketed false bracketedBranches := by
  have htokens : tokenise "IF A[(B)] THEN DIM C(D[E]] ELSE PRINT F" =
      .ok bracketedBranches := by rfl
  have hparse : Program.parse "IF A[(B)] THEN DIM C(D[E]] ELSE PRINT F" = .ok
      [⟨none, .ifElse (.reference "A" [.reference "B" []])
        (.dim [⟨"C", [.reference "D" [.reference "E" []]]⟩])
        (.print [.reference "F" []] [] none)⟩] := by
    rw [Program.parse]
    rw [htokens]
    rfl
  obtain ⟨tokens, hfound, hbracketed, -⟩ := Program.bracketed_of_parse hparse
  rw [htokens] at hfound
  obtain rfl := Except.ok.inj hfound
  exact ⟨hparse, hbracketed⟩

/-- DIM A(B]. -/
def mixedDeclaration : List Token :=
  [(.keyword .dimWord, "DIM", 1), (.identifier, "A", 5),
    (.sign .leftParen, "(", 6), (.identifier, "B", 7),
    (.sign .rightBracket, "]", 8), (.endOfInput, "", 9)].map
      fun (kind, text, column) => ⟨kind, text, ⟨1, column⟩⟩

/-- A DIM is read although its brackets differ in kind. -/
theorem Program.brackets_differ_in_dim :
    tokenise "DIM A(B]" = .ok mixedDeclaration ∧
      Program.parse "DIM A(B]" =
        .ok [⟨none, .dim [⟨"A", [.reference "B" []]⟩]⟩] ∧
      ¬WellNested TokenKind.Brackets (brackets mixedDeclaration) := by
  have htokens : tokenise "DIM A(B]" = .ok mixedDeclaration := by rfl
  refine ⟨htokens, ?_, ?_⟩
  · rw [Program.parse]
    rw [htokens]
    rfl
  · change ¬WellNested _ [.sign .leftParen, .sign .rightBracket]
    generalize hkinds : [TokenKind.sign .leftParen, .sign .rightBracket] = kinds
    rintro (_ | @⟨opening, closing, inner, after, hpair, -, -⟩)
    · cases hkinds
    · obtain ⟨rfl, hrest⟩ := List.cons.inj hkinds
      cases inner with
      | nil =>
          obtain ⟨rfl, -⟩ := List.cons.inj hrest
          cases hpair
      | cons other inner => simp at hrest

end NumberedBasic
