import NumberedBasic.Proofs.Text.Trim
import NumberedBasic.Proofs.Token.Rendering

/-!
# Texts cut off between tokens

What is read from the front of a text depends on the text up to there only.  A
text that is cut off where a token ends has the tokens in front of the cut, and
so has one that is cut off where no token can be read.
-/

namespace NumberedBasic

namespace Lexer

section Cuts

variable {back : List Char}

/-- A search that stops in front of the cut, or right there, finds the same
without what follows on the cut. -/
theorem span_cut {passes : Char → Bool} {front : List Char} (stop : List Char)
    (hdropped : (front ++ back).dropWhile passes = stop ++ back) :
    front.takeWhile passes = (front ++ back).takeWhile passes ∧
      front.dropWhile passes = stop := by
  have hfront : front = (front ++ back).takeWhile passes ++ stop := by
    refine List.append_cancel_right (?_ : front ++ back = _ ++ stop ++ back)
    rw [List.append_assoc, ← hdropped, List.takeWhile_append_dropWhile]
  have hpasses : ∀ c ∈ (front ++ back).takeWhile passes, passes c = true :=
    List.all_eq_true.mp List.all_takeWhile
  have hstop : ∀ c ∈ stop.head?, passes c = false := by
    intro c hc
    apply Text.head_dropWhile passes (front ++ back) c
    rw [hdropped, List.head?_append, Option.mem_def.mp hc]
    rfl
  have hspan := Text.span_of_stop hpasses hstop
  rwa [← hfront] at hspan

/-! ## One token -/

/-- A point and a digit follow on the digits. -/
def HasFraction (after : List Char) : Prop :=
  ∃ digit more, after.dropWhile Char.isDigit = '.' :: digit :: more ∧
    digit.isDigit = true

theorem scanNumber_of_fraction (first : Char) {digit : Char}
    {after more : List Char}
    (hafter : after.dropWhile Char.isDigit = '.' :: digit :: more)
    (hdigit : digit.isDigit = true) :
    scanNumber first after =
      let written := first :: after.takeWhile Char.isDigit ++
        '.' :: digit :: more.takeWhile Char.isDigit
      ⟨.number, String.ofList written, written, more.dropWhile Char.isDigit⟩ := by
  unfold scanNumber
  rw [hafter]
  exact if_pos hdigit

theorem scanNumber_of_not_fraction (first : Char) {after : List Char}
    (hafter : ¬HasFraction after) :
    scanNumber first after =
      let written := first :: after.takeWhile Char.isDigit
      ⟨.number, String.ofList written, written,
        after.dropWhile Char.isDigit⟩ := by
  unfold scanNumber
  dsimp only
  split
  next digit more hleft =>
    rw [if_neg fun hdigit => hafter ⟨digit, more, hleft, hdigit⟩, hleft]
  next => rfl

theorem scanNumber_cut {first : Char} {after stop : List Char}
    (hrest : (scanNumber first (after ++ back)).rest = stop ++ back) :
    scanNumber first after =
      { scanNumber first (after ++ back) with rest := stop } := by
  by_cases hfraction : HasFraction (after ++ back)
  · obtain ⟨digit, more, hleft, hdigit⟩ := hfraction
    rw [scanNumber_of_fraction first hleft hdigit] at hrest ⊢
    dsimp only at hrest ⊢
    have hmore : more = (more.takeWhile Char.isDigit ++ stop) ++ back := by
      rw [List.append_assoc, ← hrest, List.takeWhile_append_dropWhile]
    rw [hmore] at hleft
    obtain ⟨htaken, hdropped⟩ := span_cut ('.' :: digit :: _) hleft
    obtain ⟨htaken', hdropped'⟩ := span_cut stop (hmore ▸ hrest)
    rw [scanNumber_of_fraction first hdropped hdigit, htaken, htaken', hdropped',
      ← hmore]
  · rw [scanNumber_of_not_fraction first hfraction] at hrest ⊢
    dsimp only at hrest ⊢
    obtain ⟨htaken, hdropped⟩ := span_cut stop hrest
    have hnone : ¬HasFraction after := by
      rintro ⟨digit, more, hleft, hdigit⟩
      refine hfraction ⟨digit, more ++ back, ?_, hdigit⟩
      rw [hrest, ← hdropped, hleft]
      rfl
    rw [scanNumber_of_not_fraction first hnone, htaken, hdropped]

theorem scanString_cut {after stop : List Char} {lexeme : Lexeme}
    (hscan : scanString (after ++ back) = .ok lexeme)
    (hrest : lexeme.rest = stop ++ back) :
    scanString after = .ok { lexeme with rest := stop } := by
  unfold scanString at hscan ⊢
  dsimp only at hscan ⊢
  split at hscan
  next => cases hscan
  next quote rest hdrop =>
    cases hscan
    obtain rfl : rest = stop ++ back := hrest
    obtain ⟨htaken, hdropped⟩ := span_cut (quote :: stop) hdrop
    rw [htaken, hdropped]

theorem scanWord_of_dollar (first : Char) {after rest : List Char}
    (hafter : after.dropWhile isNameChar = '$' :: rest) :
    scanWord first after =
      let written := first :: after.takeWhile isNameChar ++ ['$']
      ⟨wordKind (upperWord written), upperWord written, written, rest⟩ := by
  unfold scanWord
  rw [hafter]
  rfl

theorem scanWord_of_not_dollar (first : Char) {after : List Char}
    (hafter : ∀ rest, after.dropWhile isNameChar ≠ '$' :: rest) :
    scanWord first after =
      let written := first :: after.takeWhile isNameChar
      ⟨wordKind (upperWord written), upperWord written, written,
        after.dropWhile isNameChar⟩ := by
  unfold scanWord
  dsimp only
  split
  next rest hdollar => exact absurd hdollar (hafter rest)
  next => rfl

theorem scanWord_cut {first : Char} {after stop : List Char}
    (hrest : (scanWord first (after ++ back)).rest = stop ++ back) :
    scanWord first after =
      { scanWord first (after ++ back) with rest := stop } := by
  by_cases hdollar : ∃ rest, (after ++ back).dropWhile isNameChar = '$' :: rest
  · obtain ⟨rest, hdollar⟩ := hdollar
    rw [scanWord_of_dollar first hdollar] at hrest ⊢
    obtain rfl : rest = stop ++ back := hrest
    obtain ⟨htaken, hdropped⟩ := span_cut ('$' :: stop) hdollar
    rw [scanWord_of_dollar first hdropped, htaken]
  · rw [not_exists] at hdollar
    rw [scanWord_of_not_dollar first hdollar] at hrest ⊢
    obtain ⟨htaken, hdropped⟩ := span_cut stop hrest
    have hnone : ∀ rest, after.dropWhile isNameChar ≠ '$' :: rest := by
      intro rest hrest'
      apply hdollar (rest ++ back)
      rw [← List.cons_append, ← hrest', hdropped]
      exact hrest
    rw [scanWord_of_not_dollar first hnone, htaken, hdropped]

theorem scanSingle_cut {first : Char} {after stop : List Char} {lexeme : Lexeme}
    (hscan : scanSingle first (after ++ back) = .ok lexeme)
    (hrest : lexeme.rest = stop ++ back) :
    scanSingle first after = .ok { lexeme with rest := stop } := by
  rw [scanSingle] at hscan ⊢
  split at hscan <;> cases hscan
  rw [List.append_cancel_right hrest]

theorem scanSign_cut {first : Char} {after stop : List Char} {lexeme : Lexeme}
    (hscan : scanSign first (after ++ back) = .ok lexeme)
    (hrest : lexeme.rest = stop ++ back) :
    scanSign first after = .ok { lexeme with rest := stop } := by
  cases after with
  | nil =>
      rw [scanSign]
      refine scanSingle_cut (?_ : scanSingle first ([] ++ back) = .ok lexeme) hrest
      cases back with
      | nil => exact hscan
      | cons second back =>
          rw [List.nil_append] at hscan ⊢
          unfold scanSign at hscan
          dsimp only at hscan
          split at hscan
          · cases hscan
            have hlength := congrArg List.length hrest
            simp at hlength
            omega
          · exact hscan
  | cons second after =>
      rw [List.cons_append] at hscan
      unfold scanSign at hscan ⊢
      dsimp only at hscan ⊢
      split at hscan
      next sign hsign =>
        cases hscan
        rw [List.append_cancel_right hrest]
      next hnone =>
        exact scanSingle_cut hscan hrest

/-- The token at the front of a text does not depend on what follows on a cut
behind it. -/
theorem scan_cut {first : Char} {after stop : List Char} {lexeme : Lexeme}
    (hscan : scan first (after ++ back) = .ok lexeme)
    (hrest : lexeme.rest = stop ++ back) :
    scan first after = .ok { lexeme with rest := stop } := by
  rw [scan] at hscan ⊢
  split at hscan
  next hnewline =>
    rw [if_pos hnewline]
    cases hscan
    rw [List.append_cancel_right hrest]
  next hnewline =>
    rw [if_neg hnewline]
    split at hscan
    next hdigit =>
      rw [if_pos hdigit]
      cases hscan
      rw [scanNumber_cut hrest]
    next hdigit =>
      rw [if_neg hdigit]
      split at hscan
      next hquote =>
        rw [if_pos hquote]
        exact scanString_cut hscan hrest
      next hquote =>
        rw [if_neg hquote]
        split at hscan
        next hname =>
          rw [if_pos hname]
          cases hscan
          rw [scanWord_cut hrest]
        next hname =>
          rw [if_neg hname]
          exact scanSign_cut hscan hrest

end Cuts

/-! ## All tokens up to the cut -/

/-- The source with more text behind it. -/
def Source.append (source : Source) (back : List Char) : Source :=
  { source with text := source.text ++ back }

section Sources

variable {back : List Char}

theorem Source.skipGap_cut {source stop : Source}
    (hstop : (source.append back).skipGap = stop.append back) :
    source.skipGap = stop := by
  have htext : (source.text ++ back).dropWhile isGap = stop.text ++ back :=
    congrArg Source.text hstop
  obtain ⟨htaken, hdropped⟩ := span_cut _ htext
  have hposition : source.position.after ((source.text ++ back).takeWhile isGap) =
      stop.position := congrArg Source.position hstop
  rw [skipGap, htaken, hdropped, hposition]

theorem comment_cut {source rest : Source}
    (hrest : (comment (source.append back)).2 = rest.append back) :
    comment source = ((comment (source.append back)).1, rest) := by
  rw [comment_eq] at hrest ⊢
  have hdropped : (source.append back).skipGap.text.dropWhile (· ≠ '\n') =
      rest.text ++ back := congrArg Source.text hrest
  let line := (source.append back).skipGap.text.takeWhile (· ≠ '\n')
  have htext : (source.append back).skipGap.text = (line ++ rest.text) ++ back := by
    rw [List.append_assoc, ← hdropped, List.takeWhile_append_dropWhile]
  have hskip : source.skipGap =
      ⟨(source.append back).skipGap.position, line ++ rest.text⟩ := by
    have hcut : (source.append back).skipGap = Source.append
        ⟨(source.append back).skipGap.position, line ++ rest.text⟩ back :=
      congrArg (Source.mk (source.append back).skipGap.position) htext
    exact Source.skipGap_cut hcut
  rw [htext] at hdropped
  obtain ⟨htaken', hdropped'⟩ := span_cut _ hdropped
  rw [← htext] at htaken'
  have hposition : (source.append back).skipGap.position.after line =
      rest.position := congrArg Source.position hrest
  rw [comment_eq, hskip]
  dsimp only
  rw [htaken', hdropped', hposition]

theorem Lexeme.read_cut {lexeme : Lexeme} {position : Position} {rest : Source}
    {read : List Token}
    (hread : lexeme.read position = (read, rest.append back)) :
    ∃ stop, lexeme.rest = stop ++ back ∧
      Lexeme.read position { lexeme with rest := stop } = (read, rest) := by
  unfold Lexeme.read at hread ⊢
  dsimp only at hread ⊢
  split at hread
  next hkind =>
    obtain ⟨hread, hrest⟩ := Prod.mk.inj hread
    obtain ⟨taken, htaken, -⟩ := reaches_comment
      ⟨position.after lexeme.written, lexeme.rest⟩
    have hstop : lexeme.rest = (taken ++ rest.text) ++ back := by
      rw [hrest] at htaken
      rw [List.append_assoc]
      exact htaken
    refine ⟨taken ++ rest.text, hstop, ?_⟩
    rw [hstop] at hread hrest
    have hcomment : comment ⟨position.after lexeme.written, taken ++ rest.text⟩ =
        _ := comment_cut hrest
    rw [if_pos hkind, hcomment, ← hread]
    rfl
  next hkind =>
    obtain ⟨hread, hrest⟩ := Prod.mk.inj hread
    refine ⟨rest.text, congrArg Source.text hrest, ?_⟩
    have hposition : position.after lexeme.written = rest.position :=
      congrArg Source.position hrest
    rw [if_neg hkind, hread, hposition]

theorem next_cut {source rest : Source} {read : List Token}
    (hnext : next (source.append back) = .ok (some (read, rest.append back))) :
    next source = .ok (some (read, rest)) := by
  have hshorter := (next_reaches hnext).2.1
  obtain ⟨first, after, lexeme, htext, hscan, hread⟩ := exists_scan_of_next hnext
  obtain ⟨stop, hstop, hread'⟩ := lexeme.read_cut hread
  cases hsource : source.text with
  | nil =>
      simp [Source.append, hsource] at hshorter
  | cons c text =>
      have hcons : c :: (text ++ back) = first :: after := by
        rw [← htext, Source.append, hsource]
        rfl
      obtain ⟨rfl, rfl⟩ := List.cons.inj hcons
      rw [next_of_scan hsource (scan_cut hscan hstop)]
      exact congrArg (fun read => Except.ok (some read)) hread'

/-- The tokens are read from the source until the rest is left. -/
inductive Source.ReadsUntil : Source → List Token → Source → Prop
  | here (source : Source) : ReadsUntil source [] source
  | more {source middle rest : Source} {read found : List Token}
      (hnext : next source.skipGap = .ok (some (read, middle)))
      (hmiddle : ReadsUntil middle found rest) :
      ReadsUntil source (read ++ found) rest

theorem Source.ReadsUntil.reaches {source rest : Source} {found : List Token}
    (hreads : source.ReadsUntil found rest) : source.Reaches rest := by
  induction hreads with
  | here source => exact ⟨[], rfl, rfl⟩
  | more hnext _ ih =>
      exact (reaches_skipGap _).trans ((next_reaches hnext).1.trans ih)

/-- What was read until something else follows is all that is read from the
text in front of it. -/
theorem Source.ReadsUntil.reads_cut {source rest : Source} {found : List Token}
    (hreads : source.ReadsUntil found rest) {kept : List Char}
    (htext : source.text = kept ++ rest.skipGap.text) :
    Reads ⟨source.position, kept⟩ found := by
  induction hreads generalizing kept with
  | here source =>
      have hdropped : (kept ++ source.skipGap.text).dropWhile isGap =
          [] ++ source.skipGap.text := by
        rw [← htext]
        rfl
      apply Reads.done
      rw [next, Source.skipGap, (span_cut _ hdropped).2]
  | @more source middle rest read found hnext hmiddle ih =>
      obtain ⟨behind, hbehind, -⟩ :=
        hmiddle.reaches.trans rest.reaches_skipGap
      obtain ⟨taken, htaken, -⟩ := (next_reaches hnext).1
      rw [hbehind, ← List.append_assoc] at htaken
      have hskip : Source.skipGap ⟨source.position, kept⟩ =
          ⟨source.skipGap.position, taken ++ behind⟩ := by
        have hsource : Source.append ⟨source.position, kept⟩ rest.skipGap.text =
            source := congrArg (Source.mk source.position) htext.symm
        have hcut : (Source.append ⟨source.position, kept⟩
            rest.skipGap.text).skipGap = Source.append
              ⟨source.skipGap.position, taken ++ behind⟩ rest.skipGap.text := by
          rw [hsource]
          exact congrArg (Source.mk source.skipGap.position) htaken
        exact Source.skipGap_cut hcut
      refine .more ?_ (ih hbehind)
      rw [hskip]
      have hsource : Source.append ⟨source.skipGap.position, taken ++ behind⟩
          rest.skipGap.text = source.skipGap :=
        congrArg (Source.mk source.skipGap.position) htaken.symm
      have hmiddle : Source.append ⟨middle.position, behind⟩
          rest.skipGap.text = middle :=
        congrArg (Source.mk middle.position) hbehind.symm
      rw [← hsource, ← hmiddle] at hnext
      exact next_cut hnext

/-- A text that is not accepted is read until a token cannot be read. -/
theorem Source.exists_readsUntil {source : Source} {error : SyntaxError}
    (htokens : tokens source = .error error) :
    ∃ found rest, source.ReadsUntil found rest ∧
      next rest.skipGap = .error error := by
  induction hlength : source.text.length using Nat.strongRecOn
    generalizing source with
  | ind length ih =>
      rw [tokens_eq] at htokens
      cases hnext : next source.skipGap with
      | error error' =>
          rw [hnext] at htokens
          cases htokens
          exact ⟨[], source, .here source, hnext⟩
      | ok read? =>
          rw [hnext] at htokens
          cases read? with
          | none => cases htokens
          | some read =>
              obtain ⟨read, middle⟩ := read
              have hshorter := Nat.lt_of_lt_of_le (next_reaches hnext).2.1
                source.reaches_skipGap.length_le
              cases hmiddle : tokens middle with
              | ok others =>
                  dsimp only at htokens
                  rw [hmiddle] at htokens
                  cases htokens
              | error error' =>
                  dsimp only at htokens
                  rw [hmiddle] at htokens
                  cases htokens
                  obtain ⟨found, rest, hreads, herror⟩ :=
                    ih _ (hlength ▸ hshorter) hmiddle rfl
                  exact ⟨read ++ found, rest, .more hnext hreads, herror⟩

end Sources

end Lexer

end NumberedBasic
