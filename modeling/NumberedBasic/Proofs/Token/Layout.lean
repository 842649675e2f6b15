import NumberedBasic.Proofs.Token.Lines
import NumberedBasic.Proofs.Token.Writing

/-!
# Where tokens are

The tokens of a text lie in it one after the other, each at the line and column
that it carries, and nothing is between them but gaps and the blanks at the end
of a remark.  A text that is refused is refused where no token can be read.
-/

namespace NumberedBasic

/-! ## Places in a text -/

/-- The line and the column of an offset: one more than the line feeds before
it, and one more than the characters since the last of them. -/
def placeOf (text : List Char) (offset : ℕ) : Position where
  line := 1 + (text.take offset).count '\n'
  column := 1 + ((text.take offset).reverse.takeWhile (· ≠ '\n')).length

theorem Position.after_start (text : List Char) :
    Position.start.after text = placeOf text text.length := by
  rw [placeOf, List.take_length]
  induction text using List.reverseRecOn with
  | nil => rfl
  | append_singleton text c ih =>
      rw [Position.after_append, ih]
      change Position.step _ c = _
      rw [Position.step]
      by_cases hc : c = '\n'
      · simp [hc, Nat.add_assoc]
      · simp [hc, Nat.add_assoc]

theorem placeOf_append (taken rest : List Char) :
    placeOf (taken ++ rest) taken.length = Position.start.after taken := by
  rw [Position.after_start, placeOf, placeOf, List.take_left, List.take_length]

/-! ## Layouts -/

/-- What is between two offsets of a text. -/
def between (text : List Char) (start stop : ℕ) : List Char :=
  (text.take stop).drop start

theorem between_append (front middle back : List Char) :
    between (front ++ middle ++ back) front.length (front ++ middle).length =
      middle := by
  rw [between, List.take_left, List.drop_left]

/-- A token in a text: where it starts and what it is written with.  A string
may be the comment of a REM. -/
structure Placement where
  token : Token
  offset : ℕ
  written : List Char
  isComment : Bool

namespace Placement

def stop (placement : Placement) : ℕ :=
  placement.offset + placement.written.length

/-- The token is written as tokens of its kind are. -/
def Spelled (placement : Placement) : Prop :=
  if placement.isComment then
    placement.token.kind = .string ∧ placement.written ≠ [] ∧
      placement.token.text = String.ofList placement.written ∧
      Lexer.IsRemark placement.written
  else
    placement.token.kind.Written placement.token.text placement.written

/-- The token is where it is said to be. -/
structure Fits (text : List Char) (placement : Placement) : Prop where
  position : placement.token.position = placeOf text placement.offset
  starts : placement.written <+: text.drop placement.offset
  spelled : placement.Spelled

/-- A REM or its comment, behind which the blanks at the end of the line are
left out. -/
def IsRemark (placement : Placement) : Prop :=
  placement.token.kind = .keyword .remWord ∨ placement.isComment = true

/-- Nothing is lost between two tokens. -/
structure Follows (text : List Char) (placement next : Placement) : Prop where
  before : placement.offset < next.offset
  behind : placement.stop ≤ next.offset
  between :
    (∀ c ∈ between text placement.stop next.offset, Lexer.isGap c = true) ∨
      placement.IsRemark ∧ next.token.kind.endsStatement = true ∧
        ∀ c ∈ between text placement.stop next.offset,
          Text.isBlank c = true ∧ c ≠ '\n'
  comment : next.isComment = true → placement.token.kind = .keyword .remWord

end Placement

/-- Tokens one after the other, from the start of a text to its end. -/
structure Layout (text : List Char) (placements : List Placement) : Prop where
  ascending : placements.Pairwise (·.offset < ·.offset)
  fits : ∀ placement ∈ placements, placement.Fits text
  first : ∀ placement ∈ placements.head?, placement.isComment = false ∧
    ∀ c ∈ text.take placement.offset, Lexer.isGap c = true
  follows : placements.IsChain (Placement.Follows text)
  last : ∃ placement, placements.getLast? = some placement ∧
    placement.token.kind = .endOfInput ∧ placement.offset = text.length

/-! ## Laying out what is read -/

/-- The end of the gap at an offset. -/
def gapEnd (text : List Char) (start : ℕ) : ℕ :=
  start + ((text.drop start).takeWhile Lexer.isGap).length

theorem between_gapEnd (text : List Char) (start : ℕ) :
    between text start (gapEnd text start) =
      (text.drop start).takeWhile Lexer.isGap := by
  rw [between, List.drop_take, gapEnd, Nat.add_sub_cancel_left]
  exact (List.prefix_iff_eq_take.mp (List.takeWhile_prefix _)).symm

/-- The tokens lie one after the other up to the end of the text. -/
structure Chained (text : List Char) (placements : List Placement) : Prop where
  fits : ∀ placement ∈ placements, placement.Fits text
  follows : placements.IsChain (Placement.Follows text)
  last : ∃ placement, placements.getLast? = some placement ∧
    placement.token.kind = .endOfInput ∧ placement.offset = text.length

/-- The tokens of the text from an offset on. -/
structure LaidFrom (text : List Char) (start : ℕ) (placements : List Placement) :
    Prop extends Chained text placements where
  first : ∀ placement ∈ placements.head?,
    placement.isComment = false ∧ placement.offset = gapEnd text start

section Steps

variable {text : List Char} {start : ℕ} {placement : Placement}
variable {placements : List Placement}

theorem Chained.cons (hchained : Chained text placements)
    (hfits : placement.Fits text)
    (hnext : ∀ next ∈ placements.head?, placement.Follows text next) :
    Chained text (placement :: placements) where
  fits := List.forall_mem_cons.mpr ⟨hfits, hchained.fits⟩
  follows := hchained.follows.cons hnext
  last := by
    obtain ⟨last, hlast, hend⟩ := hchained.last
    refine ⟨last, ?_, hend⟩
    rw [List.getLast?_cons, hlast]
    rfl

/-- A token follows right behind another, or after a gap. -/
theorem LaidFrom.follows_of_stop (hlaid : LaidFrom text placement.stop placements)
    (hnonempty : placement.written ≠ []) :
    ∀ next ∈ placements.head?, placement.Follows text next := by
  intro next hnext
  obtain ⟨hcomment, hoffset⟩ := hlaid.first next hnext
  have hstop : placement.stop ≤ next.offset := by
    rw [hoffset]
    exact Nat.le_add_right _ _
  constructor
  case before =>
    exact Nat.lt_of_lt_of_le
      (Nat.lt_add_of_pos_right (List.length_pos_iff.mpr hnonempty)) hstop
  case behind => exact hstop
  case between =>
    rw [hoffset, between_gapEnd]
    exact Or.inl (List.all_eq_true.mp List.all_takeWhile)
  case comment => simp [hcomment]

/-- At the end of a line nothing but that is written. -/
theorem endsStatement_of_written {kind : TokenKind} {word : String}
    {written ending : List Char} (hwritten : kind.Written word written)
    (hstarts : written <+: ending) (hending : Lexer.LineEnd ending) :
    kind.endsStatement = true := by
  have hfirst {first : Char} {rest : List Char} (hfirst : written = first :: rest) :
      first = '\n' := by
    obtain ⟨behind, hbehind⟩ := hstarts
    apply hending
    rw [← hbehind, hfirst]
    rfl
  cases hwritten with
  | newline => rfl
  | endOfInput => rfl
  | number hnumeral =>
      obtain ⟨first, rest, hwritten, hdigit⟩ := hnumeral.head
      rw [hfirst hwritten] at hdigit
      cases hdigit
  | string => exact absurd (hfirst rfl) (by decide)
  | word hword =>
      obtain ⟨first, names, mark, hwritten, hname, -, -⟩ := hword.spelled
      rw [hfirst hwritten] at hname
      cases hname
  | @sign sign _ hsign =>
      cases hsign with
      | canonical => cases sign <;> exact absurd (hfirst rfl) (by decide)
      | stars => exact absurd (hfirst rfl) (by decide)
      | exclaimed => exact absurd (hfirst rfl) (by decide)

/-- Behind a remark the line ends. -/
theorem LaidFrom.follows_of_lineEnd (hlaid : LaidFrom text start placements)
    (hremark : placement.IsRemark) (hnonempty : placement.written ≠ [])
    (hstart : placement.stop ≤ start)
    (hblank : ∀ c ∈ between text placement.stop start,
      Text.isBlank c = true ∧ c ≠ '\n')
    (hending : Lexer.LineEnd (text.drop start)) :
    ∀ next ∈ placements.head?, placement.Follows text next := by
  intro next hnext
  obtain ⟨hcomment, hoffset⟩ := hlaid.first next hnext
  have hgap : (text.drop start).takeWhile Lexer.isGap = [] := by
    cases hdrop : text.drop start with
    | nil => rfl
    | cons c rest =>
        obtain rfl : c = '\n' := hending c (by rw [hdrop]; rfl)
        rfl
  obtain rfl : next.offset = start := by
    rw [hoffset, gapEnd, hgap]
    rfl
  have hfits := hlaid.fits next (List.mem_of_mem_head? hnext)
  have hspelled := hfits.spelled
  rw [Placement.Spelled, hcomment] at hspelled
  constructor
  case before =>
    exact Nat.lt_of_lt_of_le
      (Nat.lt_add_of_pos_right (List.length_pos_iff.mpr hnonempty)) hstart
  case behind => exact hstart
  case between =>
    exact Or.inr ⟨hremark,
      endsStatement_of_written hspelled hfits.starts hending, hblank⟩
  case comment => simp [hcomment]

theorem LaidFrom.layout (hlaid : LaidFrom text 0 placements) :
    Layout text placements where
  ascending := by
    have hchain := (List.isChain_map (·.offset)).mpr
      (hlaid.follows.imp fun _ _ hfollows => hfollows.before)
    exact List.pairwise_map.mp (List.isChain_iff_pairwise.mp hchain)
  fits := hlaid.fits
  first := by
    intro first hfirst
    obtain ⟨hcomment, hoffset⟩ := hlaid.first first hfirst
    have hgap := between_gapEnd text 0
    rw [between, List.drop_zero, ← hoffset] at hgap
    rw [hgap]
    exact ⟨hcomment, List.all_eq_true.mp List.all_takeWhile⟩
  follows := hlaid.follows
  last := hlaid.last

end Steps

/-! ## Reading on -/

namespace Lexer

theorem isBlank_of_isGap {c : Char} (hgap : isGap c = true) :
    Text.isBlank c = true ∧ c ≠ '\n' := by
  simp only [isGap, Bool.or_eq_true, decide_eq_true_eq] at hgap
  rcases hgap with (rfl | rfl) | rfl <;> decide

/-- The text behind a REM up to the end of its line: a gap, the comment and
the blanks behind it. -/
structure CommentText (source : Source) (gap remark pad : List Char)
    (rest : Source) : Prop where
  text : source.text = gap ++ remark ++ pad ++ rest.text
  position : rest.position = source.position.after (gap ++ remark ++ pad)
  tokens : comment source =
    (remarkTokens remark (source.position.after gap), rest)
  gap : ∀ c ∈ gap, isGap c = true
  remark : IsRemark remark
  pad : ∀ c ∈ pad, Text.isBlank c = true ∧ c ≠ '\n'
  ending : LineEnd rest.text

theorem exists_commentText (source : Source) :
    ∃ gap remark pad rest, CommentText source gap remark pad rest := by
  let line := source.skipGap.text.takeWhile (· ≠ '\n')
  obtain ⟨pad, hline, hpad⟩ := Text.exists_trimRight line
  have htext : source.text = source.text.takeWhile isGap ++ line ++
      source.skipGap.text.dropWhile (· ≠ '\n') := by
    rw [List.append_assoc, List.takeWhile_append_dropWhile]
    exact List.takeWhile_append_dropWhile.symm
  refine ⟨source.text.takeWhile isGap, Text.trimRight line, pad,
    (comment source).2, ?_⟩
  constructor
  case text => rw [List.append_assoc _ _ pad, ← hline, comment_eq, ← htext]
  case position =>
    rw [List.append_assoc, ← hline, comment_eq, Position.after_append]
    rfl
  case tokens => rw [comment_eq]; rfl
  case gap => exact List.all_eq_true.mp List.all_takeWhile
  case remark => exact isRemark_trimRight source
  case pad =>
    intro c hc
    refine ⟨hpad c hc, ?_⟩
    have hmem : c ∈ line := hline ▸ List.mem_append_right _ hc
    exact of_decide_eq_true (List.all_eq_true.mp List.all_takeWhile c hmem)
  case ending =>
    rw [comment_eq]
    exact lineEnd_dropWhile _

/-- What is written at an offset fits there. -/
theorem fits_of_text {text front written back : List Char} {token : Token}
    {isComment : Bool} (htext : text = front ++ written ++ back)
    (hposition : token.position = Position.start.after front)
    (hspelled : Placement.Spelled ⟨token, front.length, written, isComment⟩) :
    Placement.Fits text ⟨token, front.length, written, isComment⟩ where
  position := by rw [hposition, htext, List.append_assoc, placeOf_append]
  starts := by
    rw [htext, List.append_assoc, List.drop_left]
    exact List.prefix_append _ _
  spelled := hspelled

theorem gapEnd_append (taken rest : List Char) :
    gapEnd (taken ++ rest) taken.length =
      (taken ++ rest.takeWhile isGap).length := by
  rw [gapEnd, List.drop_left, List.length_append]

section Remarks

variable {text front gap remark pad ending : List Char} {placement : Placement}
variable {placements : List Placement}

/-- Behind the last token of a remark only blanks are left out before the end of
the line. -/
theorem follows_remark (htext : text = front ++ (gap ++ pad) ++ ending)
    (hgap : ∀ c ∈ gap, isGap c = true)
    (hpad : ∀ c ∈ pad, Text.isBlank c = true ∧ c ≠ '\n')
    (hending : LineEnd ending) (hstop : placement.stop = front.length)
    (hnonempty : placement.written ≠ []) (hremark : placement.IsRemark)
    (hlaid : LaidFrom text (front ++ (gap ++ pad)).length placements) :
    ∀ next ∈ placements.head?, placement.Follows text next := by
  refine hlaid.follows_of_lineEnd hremark hnonempty ?_ ?_ ?_
  · rw [hstop]
    exact (List.prefix_append front _).length_le
  · rw [htext, hstop, between_append]
    intro c hc
    exact (List.mem_append.mp hc).elim (fun hc => isBlank_of_isGap (hgap c hc))
      (hpad c)
  · rw [htext, List.drop_left]
    exact hending

/-- The comment of a REM, after a gap. -/
def commentAt (front remark : List Char) : Placement :=
  ⟨⟨.string, String.ofList remark, Position.start.after front⟩, front.length,
    remark, true⟩

theorem follows_commentAt
    (htext : text = front ++ gap ++ (remark ++ pad ++ ending))
    (hgap : ∀ c ∈ gap, isGap c = true) (hstop : placement.stop = front.length)
    (hnonempty : placement.written ≠ [])
    (hkind : placement.token.kind = .keyword .remWord) :
    placement.Follows text (commentAt (front ++ gap) remark) := by
  have hle : placement.stop ≤ (front ++ gap).length := by
    rw [hstop]
    exact (List.prefix_append front gap).length_le
  constructor
  case before =>
    exact Nat.lt_of_lt_of_le
      (Nat.lt_add_of_pos_right (List.length_pos_iff.mpr hnonempty)) hle
  case behind => exact hle
  case between =>
    have hbetween := between_append front gap (remark ++ pad ++ ending)
    rw [← htext, ← hstop] at hbetween
    change (∀ c ∈ between text placement.stop (front ++ gap).length, _) ∨ _
    rw [hbetween]
    exact Or.inl hgap
  case comment => exact fun _ => hkind

/-- A REM and its comment, if it has one, in front of the end of the line. -/
theorem chained_remark
    (htext : text = front ++ (gap ++ remark ++ pad) ++ ending)
    (hgap : ∀ c ∈ gap, isGap c = true) (hremark : IsRemark remark)
    (hpad : ∀ c ∈ pad, Text.isBlank c = true ∧ c ≠ '\n')
    (hending : LineEnd ending) (hfits : placement.Fits text)
    (hstop : placement.stop = front.length) (hnonempty : placement.written ≠ [])
    (hkind : placement.token.kind = .keyword .remWord)
    (hlaid : LaidFrom text (front ++ (gap ++ remark ++ pad)).length placements) :
    ∃ others : List Placement, others.map (·.token) =
        remarkTokens remark (Position.start.after (front ++ gap)) ++
          placements.map (·.token) ∧
      Chained text (placement :: others) := by
  cases remark with
  | nil =>
      rw [List.append_nil] at htext hlaid
      exact ⟨placements, rfl, hlaid.cons hfits (follows_remark htext hgap hpad
        hending hstop hnonempty (.inl hkind) hlaid)⟩
  | cons first rest =>
      have hbehind : front ++ (gap ++ (first :: rest) ++ pad) =
          front ++ gap ++ (first :: rest) ++ ([] ++ pad) := by
        simp
      rw [hbehind] at htext hlaid
      have hcomment : (commentAt (front ++ gap) (first :: rest)).Fits text :=
        fits_of_text (htext.trans (List.append_assoc _ _ _)) rfl
          ⟨rfl, List.cons_ne_nil _ _, rfl, hremark⟩
      have hlast : ∀ next ∈ placements.head?,
          (commentAt (front ++ gap) (first :: rest)).Follows text next :=
        follows_remark htext (List.forall_mem_nil _) hpad hending
          List.length_append.symm (List.cons_ne_nil _ _) (.inr rfl) hlaid
      have hafter : text = front ++ gap ++ (first :: rest ++ pad ++ ending) := by
        rw [htext]
        simp
      refine ⟨commentAt (front ++ gap) (first :: rest) :: placements, rfl,
        (hlaid.cons hcomment hlast).cons hfits ?_⟩
      rintro _ ⟨⟩
      exact follows_commentAt hafter hgap hstop hnonempty hkind

end Remarks

/-- The end mark behind the last gap. -/
theorem laidFrom_end {text taken gap : List Char} (htext : text = taken ++ gap)
    (hgap : gap.takeWhile isGap = gap) :
    LaidFrom text taken.length
      [⟨⟨.endOfInput, "", Position.start.after text⟩, text.length, [], false⟩] := by
  have hnothing : text = text ++ [] ++ [] := by simp
  have hfits : Placement.Fits text
      ⟨⟨.endOfInput, "", Position.start.after text⟩, text.length, [], false⟩ :=
    fits_of_text hnothing rfl .endOfInput
  refine ⟨⟨List.forall_mem_singleton.mpr hfits, List.isChain_singleton _,
    ⟨_, rfl, rfl, rfl⟩⟩, ?_⟩
  rintro _ ⟨⟩
  refine ⟨rfl, ?_⟩
  rw [htext, gapEnd_append, hgap]

/-- The tokens that are read from a source lie one after the other in the text
from where the source starts. -/
theorem Source.Reads.exists_laidFrom {source : Source} {found : List Token}
    (hreads : source.Reads found) {text taken : List Char}
    (htext : text = taken ++ source.text)
    (hposition : source.position = Position.start.after taken) :
    ∃ placements : List Placement,
      placements.map (·.token) = found ++ [⟨.endOfInput, "", source.final⟩] ∧
        LaidFrom text taken.length placements := by
  induction hreads generalizing taken with
  | @done source hnext =>
      have hgap : source.text.takeWhile isGap = source.text := by
        have hsource := List.takeWhile_append_dropWhile (p := isGap) (l := source.text)
        rwa [show source.text.dropWhile isGap = [] from text_of_next_none hnext,
          List.append_nil] at hsource
      have hfinal : source.final = Position.start.after text := by
        rw [final, hposition, htext, Position.after_append]
      rw [hfinal]
      exact ⟨_, rfl, laidFrom_end htext hgap⟩
  | @more source rest read found hnext hrest ih =>
      have hfinal : rest.final = source.final :=
        (source.reaches_skipGap.trans (next_reaches hnext).1).final_eq
      rw [hfinal] at ih
      obtain ⟨first, after, lexeme, hfirst, hscan, hread⟩ :=
        exists_scan_of_next hnext
      obtain ⟨hlexeme, hnonempty, -⟩ := startsText_scan hscan
      let front := taken ++ source.text.takeWhile isGap
      have htext' : text = front ++ lexeme.written ++ lexeme.rest := by
        rw [htext, List.append_assoc, hlexeme, ← hfirst, List.append_assoc]
        exact congrArg (taken ++ ·) List.takeWhile_append_dropWhile.symm
      have hposition' : source.skipGap.position = Position.start.after front := by
        rw [Position.after_append, ← hposition]
        rfl
      let placement : Placement :=
        ⟨⟨lexeme.kind, lexeme.text, source.skipGap.position⟩, front.length,
          lexeme.written, false⟩
      have hfits : placement.Fits text :=
        fits_of_text htext' hposition' (written_of_scan hscan)
      have hoffset : placement.offset = gapEnd text taken.length := by
        rw [htext, gapEnd_append]
      have hstop : placement.stop = (front ++ lexeme.written).length :=
        List.length_append.symm
      have hbegins (others : List Placement)
          (hchained : Chained text (placement :: others)) :
          LaidFrom text taken.length (placement :: others) :=
        ⟨hchained, by rintro _ ⟨⟩; exact ⟨rfl, hoffset⟩⟩
      rw [Lexeme.read] at hread
      split at hread
      next hkind =>
        obtain ⟨gap, remark, pad, rest', hcomment⟩ := exists_commentText
          ⟨source.skipGap.position.after lexeme.written, lexeme.rest⟩
        rw [hcomment.tokens] at hread
        cases hread
        have hbehind : lexeme.rest = gap ++ remark ++ pad ++ rest'.text :=
          hcomment.text
        rw [hbehind, ← List.append_assoc] at htext'
        obtain ⟨placements, htokens, hlaid⟩ := ih htext' (by
          rw [Position.after_append _ (front ++ lexeme.written),
            Position.after_append _ front, ← hposition']
          exact hcomment.position)
        obtain ⟨others, hothers, hchained⟩ := chained_remark htext' hcomment.gap
          hcomment.remark hcomment.pad hcomment.ending hfits hstop hnonempty hkind
          hlaid
        refine ⟨placement :: others, ?_, hbegins others hchained⟩
        rw [List.map_cons, hothers, htokens, Position.after_append,
          Position.after_append, ← hposition', List.append_assoc]
        rfl
      next hkind =>
        cases hread
        obtain ⟨placements, htokens, hlaid⟩ := ih htext' (by
          rw [Position.after_append, ← hposition'])
        rw [← hstop] at hlaid
        refine ⟨placement :: placements, ?_, hbegins placements
          (hlaid.cons hfits (hlaid.follows_of_stop hnonempty))⟩
        rw [List.map_cons, htokens]
        rfl

/-- Where no token can be read there is a text, and it begins with none. -/
theorem exists_scan_of_refused {source : Source} {error : SyntaxError}
    (hnext : next source = .error error) :
    ∃ first after, source.text = first :: after ∧
      scan first after = .error error.cause ∧ source.position = error.position := by
  cases htext : source.text with
  | nil =>
      rw [next, htext] at hnext
      cases hnext
  | cons first after =>
      rw [next, htext] at hnext
      dsimp only at hnext
      split at hnext
      next cause hscan =>
        cases hnext
        exact ⟨first, after, rfl, hscan, rfl⟩
      next => split at hnext <;> cases hnext

end Lexer

/-- The text is refused at an offset: in front of it the text is accepted, and
there is either a quote that is never closed or a character with which no token
starts. -/
structure RefusedAt (text : List Char) (error : SyntaxError) (offset : ℕ) :
    Prop where
  position : error.position = placeOf text offset
  accepted : ∃ tokens, tokenise (String.ofList (text.take offset)) = .ok tokens
  refused : ∃ first after, text.drop offset = first :: after ∧
    Lexer.isGap first = false ∧ Lexer.NoToken (first :: after) ∧
      (error.cause = .unterminatedString ∧ first = '"' ∧ '"' ∉ after ∨
        error.cause = .unexpectedCharacter first ∧ first ≠ '"')

/-- The tokens of a text lie in it one after the other, each where it says, and
nothing of the text is lost between them.  A text without tokens is refused at
the first place where none can be read. -/
theorem tokenise_laid_out (source : String) :
    match tokenise source with
    | .ok tokens => ∃ placements : List Placement,
        placements.map (·.token) = tokens ∧ Layout source.toList placements
    | .error error => ∃ offset, RefusedAt source.toList error offset := by
  cases htokens : tokenise source with
  | ok tokens =>
      obtain ⟨found, hreads⟩ := Lexer.Source.exists_reads htokens
      obtain rfl := Except.ok.inj (hreads.tokens.symm.trans htokens)
      obtain ⟨placements, hplacements, hlaid⟩ :=
        hreads.exists_laidFrom (List.nil_append _).symm rfl
      exact ⟨placements, hplacements, hlaid.layout⟩
  | error error =>
      obtain ⟨found, rest, hreads, hnext⟩ := Lexer.Source.exists_readsUntil htokens
      obtain ⟨taken, htaken, hposition⟩ :=
        hreads.reaches.trans rest.reaches_skipGap
      obtain ⟨first, after, htext, hscan, herror⟩ :=
        Lexer.exists_scan_of_refused hnext
      change source.toList = _ at htaken
      refine ⟨taken.length, ?_, ?_, first, after, ?_, ?_,
        Lexer.noToken_of_scan hscan, Lexer.cause_of_scan hscan⟩
      · rw [← herror, hposition, htaken, placeOf_append]
        rfl
      · have hcut := (hreads.reads_cut htaken).tokens
        rw [htaken, List.take_left, tokenise, Lexer.Source.ofString,
          String.toList_ofList]
        exact ⟨_, hcut⟩
      · rw [htaken, List.drop_left, htext]
      · apply Text.head_dropWhile Lexer.isGap rest.text first
        change first ∈ rest.skipGap.text.head?
        rw [htext]
        rfl

end NumberedBasic
