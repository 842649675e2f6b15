import NumberedBasic.Proofs.Grammar.Program
import NumberedBasic.Proofs.Token.Spelling

/-!
# Programs of known parts

A program that a source text spells is made of statements and expressions
that have a meaning: every operator is spelled as the one that its token is
for, and a PRINT has a separator for every item but the first.
-/

namespace NumberedBasic

/-- Every part of the expression has a meaning. -/
inductive Expr.Known : Expr → Prop where
  | number (x : Float) : Known (.number x)
  | text (s : String) : Known (.text s)
  | reference (name : String) {indices : List Expr}
      (hindices : ∀ index ∈ indices, Known index) :
      Known (.reference name indices)
  | unary (op : UnaryOp) {operand : Expr} (hoperand : Known operand) :
      Known (.unary op operand)
  | binary (op : BinaryOp) {left right : Expr} (hleft : Known left)
      (hright : Known right) : Known (.binary op left right)

def Place.Known (place : Place) : Prop := ∀ index ∈ place.indices, index.Known

/-- Every part of the statement has a meaning. -/
inductive Statement.Known : Statement → Prop where
  | print {items : List Expr} {separators : List Separator}
      {ending : Option Separator} (hitems : ∀ item ∈ items, item.Known)
      (hseparators : items.length ≤ separators.length + 1) :
      Known (.print items separators ending)
  | assign {target : Place} {value : Expr} (htarget : target.Known)
      (hvalue : value.Known) : Known (.assign target value)
  | goto (target : Option Int) : Known (.goto target)
  | ifThen {condition : Expr} {branch : Statement}
      (hcondition : condition.Known) (hbranch : Known branch) :
      Known (.ifThen condition branch)
  | ifElse {condition : Expr} {branch otherwise : Statement}
      (hcondition : condition.Known) (hbranch : Known branch)
      (hotherwise : Known otherwise) :
      Known (.ifElse condition branch otherwise)
  | forLoop (name : String) {start limit : Expr} {step : Option Expr}
      (hstart : start.Known) (hlimit : limit.Known)
      (hstep : ∀ expr, step = some expr → expr.Known) :
      Known (.forLoop name start limit step)
  | next (names : List String) : Known (.next names)
  | data (values : List Value) : Known (.data values)
  | read {targets : List Place} (htargets : ∀ target ∈ targets, target.Known) :
      Known (.read targets)
  | restore (target : Option Int) : Known (.restore target)
  | dim {arrays : List Declaration}
      (harrays : ∀ array ∈ arrays, ∀ bound ∈ array.bounds, bound.Known) :
      Known (.dim arrays)
  | stop : Known .stop
  | remark (comment : String) : Known (.remark comment)

/-! ## Expressions -/

/-- The text of an infix operator is looked up with success. -/
theorem TokenKind.isSome_binaryOp {kind : TokenKind} {text : String}
    (hspells : kind.Spells text) (hbinary : kind.isBinary = true) :
    (BinaryOp.ofSymbol? text).isSome = true := by
  rcases kind with _ | _ | _ | word | sign | _ | _
  case keyword =>
    obtain rfl := hspells word.spelling rfl
    revert hbinary
    cases word <;> decide
  case sign =>
    obtain rfl := hspells sign.spelling rfl
    revert hbinary
    cases sign <;> decide
  all_goals cases hbinary

/-- The text of a prefix operator is looked up with success. -/
theorem TokenKind.isSome_unaryOp {kind : TokenKind} {text : String}
    (hspells : kind.Spells text) (hunary : kind.isUnary = true) :
    (UnaryOp.ofSymbol? text).isSome = true := by
  rcases kind with _ | _ | _ | word | sign | _ | _
  case keyword =>
    obtain rfl := hspells word.spelling rfl
    revert hunary
    cases word <;> decide
  case sign =>
    obtain rfl := hspells sign.spelling rfl
    revert hunary
    cases sign <;> decide
  all_goals cases hunary

theorem Token.Canonical.known_binaryOf {operator : Token}
    (hcanonical : operator.Canonical) (hbinary : operator.kind.isBinary = true)
    {left right : Expr} (hleft : left.Known) (hright : right.Known) :
    (Expr.binaryOf operator.text left right).Known := by
  obtain ⟨op, hop⟩ := Option.isSome_iff_exists.mp
    (TokenKind.isSome_binaryOp hcanonical hbinary)
  rw [Expr.binaryOf, hop]
  exact .binary op hleft hright

theorem Token.Canonical.known_unaryOf {operator : Token}
    (hcanonical : operator.Canonical) (hunary : operator.kind.isUnary = true)
    {operand : Expr} (hoperand : operand.Known) :
    (Expr.unaryOf operator.text operand).Known := by
  obtain ⟨op, hop⟩ := Option.isSome_iff_exists.mp
    (TokenKind.isSome_unaryOp hcanonical hunary)
  rw [Expr.unaryOf, hop]
  exact .unary op hoperand

/-- What a rule derives has a meaning. -/
def Rule.Known : (rule : Rule) → rule.Result → Prop
  | .expression, expr | .chain _, expr | .prefixed, expr | .power, expr
  | .primary, expr =>
      expr.Known
  | .place, target => target.Known
  | .listed, exprs => ∀ expr ∈ exprs, expr.Known

theorem TokenKind.isBinary_of_rank? {kind : TokenKind} {rank : Nat}
    (hrank : kind.rank? = some rank) : kind.isBinary = true := by
  rw [isBinary, hrank]
  rfl

theorem Rule.Derives.known {rule : Rule} {depth : Nat} {tokens : List Token}
    {result : rule.Result} (hderives : rule.Derives depth tokens result)
    (hcanonical : ∀ token ∈ tokens, token.Canonical) : rule.Known result := by
  induction hderives with
  | entered _ ih | higher _ _ ih | operand _ ih | unsigned _ ih | unraised _ ih =>
      exact ih hcanonical
  | infixed _ hoperator _ ihLeft ihRight =>
      rw [List.forall_mem_append, List.forall_mem_cons] at hcanonical
      exact hcanonical.2.1.known_binaryOf (TokenKind.isBinary_of_rank? hoperator)
        (ihLeft hcanonical.1) (ihRight hcanonical.2.2)
  | signed hoperator _ ih =>
      rw [List.forall_mem_cons] at hcanonical
      exact hcanonical.1.known_unaryOf hoperator (ih hcanonical.2)
  | raised _ hcaret _ ihBase ihExponent =>
      rw [List.forall_mem_append, List.forall_mem_cons] at hcanonical
      exact hcanonical.2.1.known_binaryOf (by rw [hcaret]; rfl)
        (ihBase hcanonical.1) (ihExponent hcanonical.2.2)
  | number _ _ => exact .number _
  | text _ => exact .text _
  | reference _ ih => exact .reference _ (ih hcanonical)
  | grouped _ _ _ ih =>
      rw [List.forall_mem_cons, List.forall_mem_append] at hcanonical
      exact ih hcanonical.2.1
  | scalar _ => exact List.forall_mem_nil _
  | element _ _ _ ih =>
      rw [List.forall_mem_cons, List.forall_mem_cons,
        List.forall_mem_append] at hcanonical
      exact ih hcanonical.2.2.1
  | last _ ih => exact List.forall_mem_singleton.mpr (ih hcanonical)
  | further _ _ _ ihExpr ihOthers =>
      rw [List.forall_mem_append, List.forall_mem_cons] at hcanonical
      exact List.forall_mem_cons.mpr
        ⟨ihExpr hcanonical.1, ihOthers hcanonical.2.2⟩

/-! ## Statements -/

theorem Separated.forall_mem {α : Type} {spells : List Token → α → Prop}
    {known : α → Prop}
    (hitem : ∀ part item, spells part item →
      (∀ token ∈ part, token.Canonical) → known item)
    {tokens : List Token} {items : List α}
    (hseparated : Separated spells tokens items)
    (hcanonical : ∀ token ∈ tokens, token.Canonical) :
    ∀ item ∈ items, known item := by
  induction hseparated with
  | last hspells => exact List.forall_mem_singleton.mpr (hitem _ _ hspells hcanonical)
  | further hspells _ _ ih =>
      rw [List.forall_mem_append, List.forall_mem_cons] at hcanonical
      exact List.forall_mem_cons.mpr
        ⟨hitem _ _ hspells hcanonical.1, ih hcanonical.2.2⟩

section Statements

variable {depth : Nat}

theorem PrintRest.known {tokens : List Token} {separators : List Separator}
    {exprs : List Expr} {ending? : Option Separator}
    (hrest : PrintRest depth tokens separators exprs ending?)
    (hcanonical : ∀ token ∈ tokens, token.Canonical) :
    ∀ expr ∈ exprs, expr.Known := by
  induction hrest with
  | nothing | ending => exact List.forall_mem_nil _
  | further _ hexpr _ ih =>
      rw [List.forall_mem_cons, List.forall_mem_append] at hcanonical
      exact List.forall_mem_cons.mpr
        ⟨hexpr.known hcanonical.2.1, ih hcanonical.2.2⟩

theorem Assigns.known {tokens : List Token} {body : Statement}
    (hassigns : Assigns depth tokens body)
    (hcanonical : ∀ token ∈ tokens, token.Canonical) : body.Known := by
  cases hassigns with
  | intro htarget _ hvalue =>
      rw [List.forall_mem_append, List.forall_mem_cons] at hcanonical
      exact .assign (htarget.known hcanonical.1) (hvalue.known hcanonical.2.2)

theorem Declares.known {tokens : List Token} {array : Declaration}
    (hdeclares : Declares depth tokens array)
    (hcanonical : ∀ token ∈ tokens, token.Canonical) :
    ∀ bound ∈ array.bounds, bound.Known := by
  cases hdeclares with
  | intro _ _ hbounds _ =>
      rw [List.forall_mem_cons, List.forall_mem_cons,
        List.forall_mem_append] at hcanonical
      exact hbounds.known hcanonical.2.2.1

theorem Keyword.Heads.known {word : Keyword} {tokens : List Token}
    {body : Statement} (hbody : word.Heads depth tokens body)
    (hcanonical : ∀ token ∈ tokens, token.Canonical) : body.Known := by
  cases hbody with
  | printNothing => exact .print (List.forall_mem_nil _) (Nat.zero_le _)
  | print hexpr hrest =>
      rw [List.forall_mem_append] at hcanonical
      refine .print (List.forall_mem_cons.mpr
        ⟨hexpr.known hcanonical.1, hrest.known hcanonical.2⟩) ?_
      exact Nat.le_of_eq (by rw [List.length_cons, hrest.length])
  | assign hassigns => exact hassigns.known hcanonical
  | goto _ => exact .goto _
  | forLoop _ _ hstart _ hlimit =>
      simp only [List.forall_mem_cons, List.forall_mem_append] at hcanonical
      obtain ⟨-, -, hfront, -, hback⟩ := hcanonical
      exact .forLoop _ (hstart.known hfront) (hlimit.known hback) nofun
  | forStep _ _ hstart _ hlimit _ hstep =>
      simp only [List.forall_mem_cons, List.forall_mem_append] at hcanonical
      obtain ⟨-, -, hfront, -, hmiddle, -, hback⟩ := hcanonical
      refine .forLoop _ (hstart.known hfront) (hlimit.known hmiddle) ?_
      rintro _ ⟨⟩
      exact hstep.known hback
  | nextLatest | next _ => exact .next _
  | data _ => exact .data _
  | read htargets =>
      exact .read (htargets.forall_mem (fun _ _ htarget => htarget.known) hcanonical)
  | restoreAll | restore _ => exact .restore _
  | dim harrays =>
      exact .dim (harrays.forall_mem (fun _ _ harray => harray.known) hcanonical)
  | stop => exact .stop
  | remarkNothing | remark _ => exact .remark _

theorem Phrase.Derives.known {kind : Phrase} {tokens : List Token}
    {body : Statement} (hderives : kind.Derives depth tokens body)
    (hcanonical : ∀ token ∈ tokens, token.Canonical) : body.Known := by
  induction hderives with
  | headed _ hbody =>
      rw [List.forall_mem_cons] at hcanonical
      exact hbody.known hcanonical.2
  | assign hassigns => exact hassigns.known hcanonical
  | ifThen _ hcondition _ _ ih =>
      simp only [List.forall_mem_cons, List.forall_mem_append] at hcanonical
      obtain ⟨-, hfront, -, hback⟩ := hcanonical
      exact .ifThen (hcondition.known hfront) (ih hback)
  | ifElse _ hcondition _ _ _ _ _ ihAccepted ihOtherwise =>
      simp only [List.forall_mem_cons, List.forall_mem_append] at hcanonical
      obtain ⟨-, hfront, -, hmiddle, -, hback⟩ := hcanonical
      exact .ifElse (hcondition.known hfront) (ihAccepted hmiddle)
        (ihOtherwise hback)
  | jump _ => exact .goto _
  | nested _ ih => exact ih hcanonical

end Statements

/-! ## Programs -/

theorem Line.Derives.known {depth : Nat} {tokens : List Token} {line : Line}
    (hderives : Line.Derives depth tokens line)
    (hcanonical : ∀ token ∈ tokens, token.Canonical) : line.statement.Known := by
  cases hderives with
  | numbered _ hbody =>
      rw [List.forall_mem_cons] at hcanonical
      exact hbody.known hcanonical.2
  | unnumbered hbody => exact hbody.known hcanonical

theorem Program.Derives.known {depth : Nat} {tokens : List Token}
    {program : Program} (hderives : Program.Derives depth tokens program)
    (hcanonical : ∀ token ∈ tokens, token.Canonical) :
    ∀ line ∈ program, line.statement.Known := by
  induction hderives with
  | finish _ => exact List.forall_mem_nil _
  | lastLine hline _ =>
      rw [List.forall_mem_append] at hcanonical
      exact List.forall_mem_singleton.mpr (hline.known hcanonical.1)
  | blank _ _ ih =>
      rw [List.forall_mem_cons] at hcanonical
      exact ih hcanonical.2
  | line hline _ _ ih =>
      rw [List.forall_mem_append, List.forall_mem_cons] at hcanonical
      exact List.forall_mem_cons.mpr
        ⟨hline.known hcanonical.1, ih hcanonical.2.2⟩

/-- The program of a source text has a meaning in every part. -/
theorem Program.known_of_parse [Host] {source : String} {program : Program}
    (hparse : Program.parse source = .ok program) :
    ∀ line ∈ program, line.statement.Known := by
  obtain ⟨tokens, htokens, hderives⟩ := Program.exists_derives hparse
  exact hderives.known (canonical_of_tokenise htokens)

end NumberedBasic
