import NumberedBasic.Proofs.Token.Lexing

/-!
# How tokens are spelled

Whatever a reserved word or a sign was written like, its token carries the one
canonical spelling.  Operators are looked up by it.
-/

namespace NumberedBasic

/-- The canonical spelling of a reserved word or a sign. -/
def TokenKind.spelling? : TokenKind → Option String
  | .keyword word => some word.spelling
  | .sign s => some s.spelling
  | _ => none

/-- The text is the canonical spelling, if the kind has one. -/
def TokenKind.Spells (kind : TokenKind) (text : String) : Prop :=
  ∀ spelling, kind.spelling? = some spelling → text = spelling

def Token.Canonical (token : Token) : Prop := token.kind.Spells token.text

namespace Lexer

theorem spells_wordKind (word : String) : (wordKind word).Spells word := by
  intro spelling hspelling
  unfold wordKind at hspelling
  split at hspelling
  next keyword hkeyword =>
    cases hspelling
    have hfound := List.find?_some hkeyword
    exact (of_decide_eq_true hfound).symm
  next => cases hspelling

theorem spells_scan {first : Char} {after : List Char} {lexeme : Lexeme}
    (hscan : scan first after = .ok lexeme) :
    lexeme.kind.Spells lexeme.text := by
  have hplain {kind : TokenKind} {text : String} (hkind : kind.spelling? = none) :
      kind.Spells text := by
    intro spelling hspelling
    rw [hkind] at hspelling
    cases hspelling
  cases scanned_of_scan hscan with
  | newline => exact hplain rfl
  | number => exact hplain (by rw [kind_scanNumber]; rfl)
  | string _ hstring => exact hplain (by rw [kind_scanString hstring]; rfl)
  | word => exact spells_wordKind _
  | sign =>
      rintro _ ⟨⟩
      rfl

/-- What is read in one go is canonical. -/
theorem canonical_of_next {source rest : Source} {tokens : List Token}
    (hnext : next source = .ok (some (tokens, rest))) :
    ∀ token ∈ tokens, token.Canonical := by
  intro token htoken
  obtain hstring | ⟨_, _, _, _, hscan, rfl⟩ := exists_scan_of_mem hnext htoken
  · intro spelling hspelling
    rw [hstring] at hspelling
    cases hspelling
  · exact spells_scan hscan

theorem Source.Reads.canonical {source : Source} {found : List Token}
    (hreads : source.Reads found) : ∀ token ∈ found, token.Canonical := by
  induction hreads with
  | done => exact List.forall_mem_nil _
  | more hnext _ ih =>
      intro token htoken
      rcases List.mem_append.mp htoken with hread | hfound
      · exact canonical_of_next hnext token hread
      · exact ih token hfound

end Lexer

/-- Every token of a source text is spelled canonically. -/
theorem canonical_of_tokenise {source : String} {tokens : List Token}
    (htokens : tokenise source = .ok tokens) :
    ∀ token ∈ tokens, token.Canonical := by
  obtain ⟨found, hreads⟩ := Lexer.Source.exists_reads htokens
  obtain rfl := Except.ok.inj (hreads.tokens.symm.trans htokens)
  intro token htoken
  rcases List.mem_append.mp htoken with hfound | hfinal
  · exact hreads.canonical token hfound
  · rw [List.mem_singleton.mp hfinal]
    intro spelling hspelling
    cases hspelling

end NumberedBasic
