import NumberedBasic.Proofs.Text.Trim
import NumberedBasic.Proofs.Token.Scan

/-!
# All tokens of a text

Reading tokens goes through the text from the front to the end and keeps track
of the position.  Every round shortens the text, so that the number of rounds
does not matter.
-/

namespace NumberedBasic

namespace Lexer

/-! ## What has been read -/

/-- The second source is what is left of the first after some text of it. -/
def Source.Reaches (source rest : Source) : Prop :=
  ∃ taken, source.text = taken ++ rest.text ∧
    rest.position = source.position.after taken

theorem Source.Reaches.trans {first second third : Source}
    (hfirst : first.Reaches second) (hsecond : second.Reaches third) :
    first.Reaches third := by
  obtain ⟨front, htext, hposition⟩ := hfirst
  obtain ⟨back, htext', hposition'⟩ := hsecond
  refine ⟨front ++ back, ?_, ?_⟩
  · rw [htext, htext', List.append_assoc]
  · rw [hposition', hposition, Position.after_append]

/-- Reading on leads to the same end. -/
theorem Source.Reaches.final_eq {source rest : Source}
    (hreaches : source.Reaches rest) :
    rest.position.after rest.text = source.position.after source.text := by
  obtain ⟨taken, htext, hposition⟩ := hreaches
  rw [htext, hposition, Position.after_append]

theorem Source.Reaches.length_le {source rest : Source}
    (hreaches : source.Reaches rest) :
    rest.text.length ≤ source.text.length := by
  obtain ⟨taken, htext, -⟩ := hreaches
  rw [htext, List.length_append]
  exact Nat.le_add_left _ _

theorem Source.reaches_dropWhile (source : Source) (passes : Char → Bool) :
    source.Reaches
      ⟨source.position.after (source.text.takeWhile passes),
        source.text.dropWhile passes⟩ :=
  ⟨source.text.takeWhile passes, List.takeWhile_append_dropWhile.symm, rfl⟩

theorem Source.reaches_skipGap (source : Source) :
    source.Reaches source.skipGap :=
  source.reaches_dropWhile isGap

theorem reaches_comment (source : Source) :
    source.Reaches (comment source).2 := by
  have hline := source.reaches_skipGap.trans
    (source.skipGap.reaches_dropWhile (· ≠ '\n'))
  unfold comment
  dsimp only
  split <;> exact hline

theorem kind_of_mem_comment {source : Source} {token : Token}
    (htoken : token ∈ (comment source).1) : token.kind = .string := by
  unfold comment at htoken
  dsimp only at htoken
  split at htoken
  · exact absurd htoken List.not_mem_nil
  · rw [List.mem_singleton.mp htoken]

/-- The tokens that are read with a lexeme at a position, and what is left. -/
def Lexeme.read (position : Position) (lexeme : Lexeme) : List Token × Source :=
  let token : Token := ⟨lexeme.kind, lexeme.text, position⟩
  let rest : Source := ⟨position.after lexeme.written, lexeme.rest⟩
  if lexeme.kind = .keyword .remWord then
    (token :: (comment rest).1, (comment rest).2)
  else ([token], rest)

theorem next_of_scan {source : Source} {first : Char} {after : List Char}
    {lexeme : Lexeme} (htext : source.text = first :: after)
    (hscan : scan first after = .ok lexeme) :
    next source = .ok (some (lexeme.read source.position)) := by
  rw [next, htext]
  dsimp only
  rw [hscan, Lexeme.read]
  dsimp only
  split <;> rfl

/-- Whatever is read begins with a lexeme. -/
theorem exists_scan_of_next {source : Source} {read : List Token × Source}
    (hnext : next source = .ok (some read)) :
    ∃ first after lexeme, source.text = first :: after ∧
      scan first after = .ok lexeme ∧ lexeme.read source.position = read := by
  cases htext : source.text with
  | nil =>
      rw [next, htext] at hnext
      cases hnext
  | cons first after =>
      cases hscan : scan first after with
      | error cause =>
          rw [next, htext] at hnext
          dsimp only at hnext
          rw [hscan] at hnext
          cases hnext
      | ok lexeme =>
          rw [next_of_scan htext hscan] at hnext
          exact ⟨first, after, lexeme, rfl, hscan,
            Option.some.inj (Except.ok.inj hnext)⟩

/-- Of what is read in one go, only the first token can be other than the
string of a remark. -/
theorem exists_scan_of_mem {source rest : Source} {tokens : List Token}
    {token : Token} (hnext : next source = .ok (some (tokens, rest)))
    (htoken : token ∈ tokens) :
    token.kind = .string ∨ ∃ first after lexeme,
      source.text = first :: after ∧ scan first after = .ok lexeme ∧
        token = ⟨lexeme.kind, lexeme.text, source.position⟩ := by
  obtain ⟨first, after, lexeme, htext, hscan, hread⟩ := exists_scan_of_next hnext
  rw [Lexeme.read] at hread
  split at hread
  · cases hread
    rcases List.mem_cons.mp htoken with hlexeme | hremark
    · exact Or.inr ⟨first, after, lexeme, htext, hscan, hlexeme⟩
    · exact Or.inl (kind_of_mem_comment hremark)
  · cases hread
    exact Or.inr
      ⟨first, after, lexeme, htext, hscan, List.mem_singleton.mp htoken⟩

/-- Reading tokens shortens the text and keeps track of the position; none of
them is an end mark. -/
theorem next_reaches {source rest : Source} {tokens : List Token}
    (hnext : next source = .ok (some (tokens, rest))) :
    source.Reaches rest ∧ rest.text.length < source.text.length ∧
      ∀ token ∈ tokens, token.kind ≠ .endOfInput := by
  obtain ⟨first, after, lexeme, hsource, hscan, hread⟩ :=
    exists_scan_of_next hnext
  obtain ⟨htext, hnonempty, -⟩ := startsText_scan hscan
  have hlexeme : source.Reaches
      ⟨source.position.after lexeme.written, lexeme.rest⟩ :=
    ⟨lexeme.written, hsource.trans htext.symm, rfl⟩
  have hshorter : lexeme.rest.length < source.text.length := by
    have hpos := List.length_pos_iff.mpr hnonempty
    rw [hsource, ← htext, List.length_append]
    omega
  have hreaches : source.Reaches rest ∧ rest.text.length < source.text.length := by
    rw [Lexeme.read] at hread
    split at hread
    · cases hread
      have hcomment := reaches_comment
        ⟨source.position.after lexeme.written, lexeme.rest⟩
      exact ⟨hlexeme.trans hcomment,
        Nat.lt_of_le_of_lt hcomment.length_le hshorter⟩
    · cases hread
      exact ⟨hlexeme, hshorter⟩
  refine ⟨hreaches.1, hreaches.2, fun token htoken => ?_⟩
  obtain hstring | ⟨_, _, _, _, hscan, rfl⟩ := exists_scan_of_mem hnext htoken
  · rw [hstring]
    exact nofun
  · exact (startsText_scan hscan).kind

/-! ## All tokens -/

/-- The tokens of a source up to the end mark. -/
def tokens (source : Source) : Except SyntaxError (List Token) :=
  readAll (source.text.length + 1) source []

theorem readAll_found (rounds : Nat) (source : Source) (found : List Token) :
    readAll rounds source found =
      (readAll rounds source []).map (found.reverse ++ ·) := by
  induction rounds generalizing source found with
  | zero => simp [readAll, Except.map]
  | succ rounds ih =>
      unfold readAll
      dsimp only
      cases next source.skipGap with
      | error error => rfl
      | ok found? =>
          cases found? with
          | none => simp [Except.map]
          | some read =>
              obtain ⟨tokens, rest⟩ := read
              dsimp only
              rw [ih rest (tokens.reverse ++ found), ih rest (tokens.reverse ++ [])]
              cases readAll rounds rest [] <;> simp [Except.map]

/-- More rounds than there is text do not matter. -/
theorem readAll_rounds {rounds rounds' : Nat} {source : Source}
    {found : List Token} (hrounds : source.text.length < rounds)
    (hrounds' : source.text.length < rounds') :
    readAll rounds source found = readAll rounds' source found := by
  induction rounds generalizing rounds' source found with
  | zero => exact absurd hrounds (Nat.not_lt_zero _)
  | succ rounds ih =>
      obtain ⟨rounds', rfl⟩ := Nat.exists_eq_succ_of_ne_zero
        (Nat.ne_of_gt (Nat.lt_of_le_of_lt (Nat.zero_le _) hrounds'))
      unfold readAll
      dsimp only
      cases hnext : next source.skipGap with
      | error error => rfl
      | ok found? =>
          cases found? with
          | none => rfl
          | some read =>
              obtain ⟨tokens, rest⟩ := read
              have hshorter := Nat.lt_of_lt_of_le (next_reaches hnext).2.1
                source.reaches_skipGap.length_le
              exact ih (by omega) (by omega)

theorem tokens_eq (source : Source) :
    tokens source =
      match next source.skipGap with
      | .error error => .error error
      | .ok none => .ok [⟨.endOfInput, "", source.skipGap.position⟩]
      | .ok (some (read, rest)) => (tokens rest).map (read ++ ·) := by
  rw [tokens, readAll]
  cases hnext : next source.skipGap with
  | error error => rfl
  | ok found? =>
      cases found? with
      | none => rfl
      | some read =>
          obtain ⟨read, rest⟩ := read
          have hshorter := Nat.lt_of_lt_of_le (next_reaches hnext).2.1
            source.reaches_skipGap.length_le
          dsimp only
          rw [readAll_found, readAll_rounds hshorter (Nat.lt_succ_self _),
            List.append_nil, List.reverse_reverse]
          rfl

theorem text_of_next_none {source : Source} (hnext : next source = .ok none) :
    source.text = [] := by
  obtain ⟨position, text⟩ := source
  cases text with
  | nil => rfl
  | cons first after =>
      rw [next] at hnext
      dsimp only at hnext
      split at hnext
      · cases hnext
      · split at hnext <;> cases hnext

/-- Where the text ends. -/
def Source.final (source : Source) : Position :=
  source.position.after source.text

/-- The tokens that are read from the source up to its end. -/
inductive Source.Reads : Source → List Token → Prop
  | done {source : Source} (hnext : next source.skipGap = .ok none) :
      Reads source []
  | more {source rest : Source} {read found : List Token}
      (hnext : next source.skipGap = .ok (some (read, rest)))
      (hrest : Reads rest found) : Reads source (read ++ found)

theorem Source.Reads.kinds {source : Source} {found : List Token}
    (hreads : source.Reads found) :
    ∀ token ∈ found, token.kind ≠ .endOfInput := by
  induction hreads with
  | done => exact fun _ htoken => absurd htoken List.not_mem_nil
  | more hnext hrest ih =>
      intro token htoken
      rcases List.mem_append.mp htoken with hread | hfound
      · exact (next_reaches hnext).2.2 token hread
      · exact ih token hfound

/-- A token that is no REM, and what is read after it. -/
theorem Source.Reads.lexeme {position : Position} {gap after : List Char}
    {first : Char} {lexeme : Lexeme} {found : List Token}
    (hgap : ∀ c ∈ gap, isGap c = true) (hfirst : isGap first = false)
    (hscan : scan first after = .ok lexeme)
    (hkind : lexeme.kind ≠ .keyword .remWord)
    (hrest : Source.Reads
      ⟨(position.after gap).after lexeme.written, lexeme.rest⟩ found) :
    Source.Reads ⟨position, gap ++ first :: after⟩
      (⟨lexeme.kind, lexeme.text, position.after gap⟩ :: found) := by
  have hhead : ∀ c ∈ (first :: after).head?, isGap c = false := by
    rintro _ ⟨⟩
    exact hfirst
  obtain ⟨htake, hdrop⟩ := Text.span_of_stop hgap hhead
  have hskip : Source.skipGap ⟨position, gap ++ first :: after⟩ =
      ⟨position.after gap, first :: after⟩ := by
    rw [Source.skipGap, htake, hdrop]
  have hnext : next (Source.skipGap ⟨position, gap ++ first :: after⟩) =
      .ok (some ([⟨lexeme.kind, lexeme.text, position.after gap⟩],
        ⟨(position.after gap).after lexeme.written, lexeme.rest⟩)) := by
    rw [hskip, next_of_scan rfl hscan, Lexeme.read, if_neg hkind]
  exact .more hnext hrest

theorem Source.Reads.tokens {source : Source} {found : List Token}
    (hreads : source.Reads found) :
    tokens source = .ok (found ++ [⟨.endOfInput, "", source.final⟩]) := by
  induction hreads with
  | @done source hnext =>
      have hfinal := source.reaches_skipGap.final_eq
      rw [text_of_next_none hnext] at hfinal
      rw [tokens_eq, hnext, final, ← hfinal]
      rfl
  | @more source rest read found hnext hrest ih =>
      have hfinal : rest.final = source.final :=
        (source.reaches_skipGap.trans (next_reaches hnext).1).final_eq
      rw [tokens_eq, hnext]
      dsimp only
      rw [ih, hfinal, List.append_assoc]
      rfl

/-- Every text that is accepted is read token by token to its end. -/
theorem Source.exists_reads {source : Source} {all : List Token}
    (htokens : tokens source = .ok all) : ∃ found, source.Reads found := by
  induction hlength : source.text.length using Nat.strongRecOn
    generalizing source all with
  | ind length ih =>
      rw [tokens_eq] at htokens
      cases hnext : next source.skipGap with
      | error error =>
          rw [hnext] at htokens
          cases htokens
      | ok read? =>
          rw [hnext] at htokens
          cases read? with
          | none => exact ⟨[], .done hnext⟩
          | some read =>
              obtain ⟨read, rest⟩ := read
              cases hothers : tokens rest with
              | error error =>
                  dsimp only at htokens
                  rw [hothers] at htokens
                  cases htokens
              | ok others =>
                  have hshorter := Nat.lt_of_lt_of_le (next_reaches hnext).2.1
                    source.reaches_skipGap.length_le
                  obtain ⟨found, hfound⟩ := ih _ (hlength ▸ hshorter) hothers rfl
                  exact ⟨read ++ found, .more hnext hfound⟩

end Lexer

end NumberedBasic
