import NumberedBasic.Proofs.Listing.History
import NumberedBasic.Proofs.Token.Layout

/-!
# Storing a listing again

A listed line is stored as it is listed, whatever was typed at first: its
number has no leading zeros, one space follows it, and its code has no blanks
around it.  So the lines of a listing can be stored again, and as each of them
goes to its own number, they can be stored in any order.
-/

namespace NumberedBasic

namespace Listing

/-! ## Listed lines -/

/-- Whatever a line was stored from, it is stored the same from how it is
listed. -/
theorem Numbers.listed {text code : String} {number : ℕ}
    (hnumbers : Numbers text number code) :
    Numbers (lineText (number, code)) number code := by
  obtain ⟨-, -, -, hnonempty, hshort, -, -, hfirst, hlast⟩ := hnumbers
  rename_i digits rest
  have hlisted : Numbers (lineText (Text.numeralValue digits, code))
      (Text.numeralValue (Decimal.digitsOf (Text.numeralValue digits))) code := by
    have htext : (lineText (Text.numeralValue digits, code)).toList =
        [] ++ Decimal.digitsOf (Text.numeralValue digits) ++
          ' ' :: code.toList := by
      rw [toList_lineText, List.nil_append]
    refine .intro htext (List.forall_mem_nil _) ?_ (Decimal.digitsOf_ne_nil _)
      ?_ ?_ ?_
    · exact fun c hc => Text.isDigit_ascii (Decimal.isDigit_of_mem_digitsOf hc)
    · exact (Decimal.length_digitsOf_numeralValue_le hnonempty).trans hshort
    · rintro _ ⟨⟩
      decide
    · have hspace : ∀ c ∈ [' '], Text.isBlank c = true :=
        List.forall_mem_singleton.mpr (by decide)
      exact ⟨⟨[' '], [], by simp, hspace, List.forall_mem_nil _⟩, hfirst, hlast⟩
  rwa [Decimal.numeralValue_digitsOf] at hlisted

theorem Numbers.startsWithNumber {text code : String} {number : ℕ}
    (hnumbers : Numbers text number code) :
    Listing.startsWithNumber text = true := by
  obtain ⟨htext, hmargin, hdigits, hnonempty, -, hrest, -⟩ := hnumbers
  rw [Listing.startsWithNumber,
    splitNumber_eq htext hmargin hdigits hnonempty hrest]
  simpa using hnonempty

/-- The line has code and is stored from how it is listed. -/
structure Listed (line : ℕ × String) : Prop where
  nonempty : line.2 ≠ ""
  numbers : Numbers (lineText line) line.1 line.2

theorem listed_of_mem {edits : List Edit} {line : ℕ × String}
    (hline : line ∈ (after edits).lines) : Listed line := by
  obtain ⟨hnonempty, edit, hstores, -⟩ :=
    ((reflects_after edits).lines line.1 line.2).mp hline
  cases edit with
  | erase => exact hstores.elim
  | store text => exact ⟨hnonempty, Numbers.listed hstores⟩

theorem Listed.store {line : ℕ × String} (hline : Listed line)
    (listing : Listing) :
    listing.store (lineText line) = .ok (listing.put line.1 line.2) :=
  store_eq_ok_iff.mpr ⟨_, _, hline.numbers, rfl⟩

/-! ## Stored in any order -/

/-- Lines in ascending order are told by what lines they are. -/
theorem eq_of_mem_iff {lines others : List (ℕ × String)}
    (hlines : lines.Pairwise (·.1 < ·.1)) (hothers : others.Pairwise (·.1 < ·.1))
    (hmem : ∀ line, line ∈ lines ↔ line ∈ others) : lines = others := by
  have : Std.Irrefl fun line other : ℕ × String => line.1 < other.1 :=
    ⟨fun line => Nat.lt_irrefl line.1⟩
  have : Std.Antisymm fun line other : ℕ × String => line.1 < other.1 :=
    ⟨fun _ _ hless hgreater => absurd hgreater (Nat.lt_asymm hless)⟩
  exact hlines.eq_of_mem_iff hothers hmem

/-- Each number has one line at most. -/
theorem eq_of_number_eq {lines : List (ℕ × String)}
    (hlines : lines.Pairwise (·.1 < ·.1)) {line other : ℕ × String}
    (hline : line ∈ lines) (hother : other ∈ lines) (hnumber : line.1 = other.1) :
    line = other := by
  have hnumbers : (lines.map (·.1)).Nodup :=
    List.pairwise_map.mpr (hlines.imp Nat.ne_of_lt)
  exact List.inj_on_of_nodup_map hnumbers hline hother hnumber

/-- Storing a line that is there changes none. -/
theorem lines_put_of_mem {listing : Listing}
    (hascending : listing.lines.Pairwise (·.1 < ·.1)) {line : ℕ × String}
    (hmem : line ∈ listing.lines) (hline : Listed line) :
    (listing.put line.1 line.2).lines = listing.lines := by
  refine eq_of_mem_iff (ascending_put hascending _ _) hascending fun other => ?_
  obtain ⟨number, code⟩ := other
  rw [mem_put_iff hascending]
  constructor
  · rintro (⟨rfl, rfl, -⟩ | ⟨-, hother⟩)
    · exact hmem
    · exact hother
  · intro hother
    by_cases hnumber : number = line.1
    · obtain rfl := eq_of_number_eq hascending hother hmem hnumber
      exact .inl ⟨rfl, rfl, hline.nonempty⟩
    · exact .inr ⟨hnumber, hother⟩

/-- The listing after some lines have been put into it one by one. -/
def putAll (listing : Listing) (lines : List (ℕ × String)) : Listing :=
  lines.foldl (fun listing line => listing.put line.1 line.2) listing

theorem foldlM_store {lines : List (ℕ × String)}
    (hlines : ∀ line ∈ lines, Listed line) (listing : Listing) :
    (lines.map lineText).foldlM store listing = .ok (listing.putAll lines) := by
  induction lines generalizing listing with
  | nil => rfl
  | cons line rest ih =>
      rw [List.map_cons, List.foldlM_cons,
        (hlines line List.mem_cons_self).store listing]
      exact ih (fun other hother => hlines other (List.mem_cons_of_mem _ hother)) _

theorem putAll_concat (listing : Listing) (lines : List (ℕ × String))
    (last : ℕ × String) :
    listing.putAll (lines ++ [last]) =
      (listing.putAll lines).put last.1 last.2 :=
  List.foldl_concat ..

theorem ascending_putAll (lines : List (ℕ × String)) :
    (empty.putAll lines).lines.Pairwise (·.1 < ·.1) := by
  induction lines using List.reverseRecOn with
  | nil => exact List.Pairwise.nil
  | append_singleton lines last ih =>
      rw [putAll_concat]
      exact ascending_put ih _ _

/-- Lines with different numbers do not get into each other's way. -/
theorem mem_putAll_iff {lines : List (ℕ × String)}
    (hlines : ∀ line ∈ lines, Listed line) (hapart : (lines.map (·.1)).Nodup)
    (line : ℕ × String) :
    line ∈ (empty.putAll lines).lines ↔ line ∈ lines := by
  induction lines using List.reverseRecOn with
  | nil => rfl
  | append_singleton lines last ih =>
      rw [List.map_append, List.nodup_append] at hapart
      obtain ⟨hapart, -, hothers⟩ := hapart
      have hlast : last.2 ≠ "" := (hlines last (by simp)).nonempty
      have hmem : line ∈ (empty.putAll lines).lines ↔ line ∈ lines :=
        ih (fun other hother => hlines other (List.mem_append_left _ hother)) hapart
      have hnumber : line ∈ lines → line.1 ≠ last.1 := fun hline =>
        hothers line.1 (List.mem_map_of_mem hline) last.1 (by simp)
      obtain ⟨number, code⟩ := line
      rw [putAll_concat, mem_put_iff (ascending_putAll lines), hmem,
        and_iff_right_of_imp hnumber, List.mem_append, List.mem_singleton, or_comm]
      refine or_congr_right ⟨?_, ?_⟩
      · rintro ⟨rfl, rfl, -⟩
        rfl
      · rintro rfl
        exact ⟨rfl, rfl, hlast⟩

/-- Lines with different numbers give the same listing in any order. -/
theorem lines_putAll_of_perm {lines others : List (ℕ × String)}
    (hascending : lines.Pairwise (·.1 < ·.1))
    (hlines : ∀ line ∈ lines, Listed line) (hperm : others.Perm lines) :
    (empty.putAll others).lines = lines := by
  have hothers : ∀ line ∈ others, Listed line :=
    fun line hline => hlines line (hperm.mem_iff.mp hline)
  have hnumbers : (lines.map (·.1)).Nodup :=
    List.pairwise_map.mpr (hascending.imp Nat.ne_of_lt)
  have hapart : (others.map (·.1)).Nodup :=
    (hperm.map _).nodup_iff.mpr hnumbers
  refine eq_of_mem_iff (ascending_putAll others) hascending fun line => ?_
  rw [mem_putAll_iff hothers hapart, hperm.mem_iff]

theorem exists_perm_of_map {lines : List (ℕ × String)} {entries : List String}
    (hentries : entries.Perm (lines.map lineText)) :
    ∃ others : List (ℕ × String), others.Perm lines ∧
      entries = others.map lineText := by
  have hall : List.Forall₂ (fun entry line => entry = lineText line)
      (lines.map lineText) lines :=
    List.forall₂_map_left_iff.mpr (List.forall₂_same.mpr fun _ _ => rfl)
  obtain ⟨others, hothers, hperm⟩ := List.perm_comp_forall₂ hentries hall
  refine ⟨others, hperm, ?_⟩
  rwa [← List.forall₂_eq_eq_eq, List.forall₂_map_right_iff]

/-! ## The numeral in front -/

/-- The first token is a numeral for the number. -/
def BeginsWith (number : ℕ) (tokens : List Token) : Prop :=
  ∃ token others, tokens = token :: others ∧ token.kind = .number ∧
    Text.wholeNumber? token.text.toList = some number

/-- The tokens begin with a numeral for the number; if the text is refused, those
up to where it is refused do. -/
def NumeralFirst (number : ℕ) (text : String) : Prop :=
  match tokenise text with
  | .ok tokens => BeginsWith number tokens
  | .error error => ∃ offset tokens,
      error.position = placeOf text.toList offset ∧
      tokenise (String.ofList (text.toList.take offset)) = .ok tokens ∧
      BeginsWith number tokens

theorem tokenise_ofList {text : List Char} {found : List Token}
    (hreads : Lexer.Source.Reads ⟨.start, text⟩ found) :
    ∃ final, tokenise (String.ofList text) = .ok (found ++ [final]) := by
  rw [tokenise, Lexer.Source.ofString, String.toList_ofList]
  exact ⟨_, hreads.tokens⟩

/-- The number of a line is short enough to be read again. -/
theorem Listed.wholeNumber? {line : ℕ × String} (hline : Listed line) :
    Text.wholeNumber? (Decimal.digitsOf line.1) = some line.1 := by
  have hshort :
      (Decimal.digitsOf line.1).length ≤ Text.longestNumeral := by
    obtain ⟨number, code⟩ := line
    cases hline.numbers with
    | intro _ _ _ hnonempty hshort =>
        exact (Decimal.length_digitsOf_numeralValue_le hnonempty).trans hshort
  rw [Text.wholeNumber?, if_pos hshort, Decimal.numeralValue_digitsOf]

theorem Listed.numeralFirst {line : ℕ × String} (hline : Listed line) :
    NumeralFirst line.1 (lineText line) := by
  have hsource : Lexer.Source.ofString (lineText line) =
      ⟨.start, Decimal.digitsOf line.1 ++ ' ' :: line.2.toList⟩ := by
    rw [Lexer.Source.ofString, toList_lineText]
  obtain ⟨middle, hfirst⟩ := Lexer.next_numeral .start line.2.toList
    (Decimal.digitsOf_ne_nil line.1)
    fun _ => Decimal.isDigit_of_mem_digitsOf
  rw [← hsource] at hfirst
  have hbegins (others : List Token) : BeginsWith line.1
      (⟨.number, String.ofList (Decimal.digitsOf line.1), .start⟩ :: others) := by
    refine ⟨_, others, rfl, rfl, ?_⟩
    rw [String.toList_ofList, hline.wholeNumber?]
  rw [NumeralFirst]
  cases htokens : tokenise (lineText line) with
  | ok tokens =>
      obtain ⟨found, hreads⟩ := Lexer.Source.exists_reads htokens
      obtain rfl := Except.ok.inj (hreads.tokens.symm.trans htokens)
      cases hreads with
      | done hnone =>
          rw [hfirst] at hnone
          cases hnone
      | more hsome =>
          rw [hfirst] at hsome
          cases hsome
          exact hbegins _
  | error error =>
      obtain ⟨found, rest, hreads, hnext⟩ := Lexer.Source.exists_readsUntil htokens
      obtain ⟨taken, htaken, hposition⟩ :=
        hreads.reaches.trans rest.reaches_skipGap
      obtain ⟨-, -, -, -, herror⟩ := Lexer.exists_scan_of_refused hnext
      have hcut := hreads.reads_cut htaken
      change (lineText line).toList = _ at htaken
      obtain ⟨others, rfl⟩ : ∃ others, found =
          ⟨.number, String.ofList (Decimal.digitsOf line.1), .start⟩ :: others := by
        cases hreads with
        | here =>
            rw [hfirst] at hnext
            cases hnext
        | more hsome =>
            rw [hfirst] at hsome
            cases hsome
            exact ⟨_, rfl⟩
      obtain ⟨final, haccepted⟩ := tokenise_ofList hcut
      refine ⟨taken.length, _, ?_, ?_, hbegins (others ++ [final])⟩
      · rw [← herror, hposition, htaken, placeOf_append]
        rfl
      · rw [htaken, List.take_left]
        exact haccepted

/-! ## Stored again -/

/-- The lines of a listing, however they came there, are stored again in any
order, and then the listing is the same.  Each of them starts with its number,
for the listing as well as for the lexer, and is stored under it just as it is
listed, so that storing it into its own listing changes no line. -/
theorem stored_again (edits : List Edit) :
    (∀ entries : List String, entries.Perm (after edits).list →
      ∃ again, entries.foldlM store empty = .ok again ∧
        again.list = (after edits).list) ∧
    ∀ entry ∈ (after edits).list, startsWithNumber entry = true ∧
      ∃ number code, (number, code) ∈ (after edits).lines ∧
        entry = toString number ++ " " ++ code ∧
        (∀ listing : Listing, listing.store entry = .ok (listing.put number code)) ∧
        ((after edits).put number code).lines = (after edits).lines ∧
        NumeralFirst number entry := by
  have hascending := (reflects_after edits).ascending
  have hlines : ∀ line ∈ (after edits).lines, Listed line :=
    fun _ => listed_of_mem
  constructor
  · intro entries hentries
    obtain ⟨others, hperm, rfl⟩ := exists_perm_of_map hentries
    refine ⟨empty.putAll others, foldlM_store ?_ empty, ?_⟩
    · exact fun line hline => hlines line (hperm.mem_iff.mp hline)
    · exact congrArg (List.map lineText)
        (lines_putAll_of_perm hascending hlines hperm)
  · intro entry hentry
    obtain ⟨line, hmem, rfl⟩ := List.mem_map.mp hentry
    have hline := hlines line hmem
    exact ⟨hline.numbers.startsWithNumber, line.1, line.2, hmem, rfl, hline.store,
      lines_put_of_mem hascending hmem hline, hline.numeralFirst⟩

/-- A program with a number in other digits and a line that no lexer accepts,
stored again from its last line on. -/
theorem stored_again_of_reversed :
    let edits : List Edit :=
      [.store "5 END", .erase, .store " ٠٢٠REM\t", .store "10 'x", .store "PRINT"]
    (after edits).list = ["10 'x", "20 REM"] ∧
      (∃ again, ["20 REM", "10 'x"].foldlM store empty = .ok again ∧
        again.list = (after edits).list) ∧
      "10 'x" ∈ (after edits).list ∧ startsWithNumber "10 'x" = true ∧
      ∃ number code, (number, code) ∈ (after edits).lines ∧
        "10 'x" = toString number ++ " " ++ code ∧
        (∀ listing : Listing,
          listing.store "10 'x" = .ok (listing.put number code)) ∧
        ((after edits).put number code).lines = (after edits).lines ∧
        NumeralFirst number "10 'x" := by
  intro edits
  have hlist : (after edits).list = ["10 'x", "20 REM"] := by decide +kernel
  have hentry : "10 'x" ∈ (after edits).list := by
    rw [hlist]
    exact List.mem_cons_self
  have hentries : ["20 REM", "10 'x"].Perm (after edits).list := by
    rw [hlist]
    exact List.Perm.swap _ _ _
  obtain ⟨hagain, hall⟩ := stored_again edits
  exact ⟨hlist, hagain _ hentries, hentry, hall _ hentry⟩

end Listing

end NumberedBasic
