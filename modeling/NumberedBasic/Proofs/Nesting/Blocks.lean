import NumberedBasic.Proofs.Table.Order

/-!
# Blocks of loops

A program is structured if its table is a sequence of blocks, each from a FOR
to its NEXT, with blocks inside, and of statements without jumps.  At every
place of such a table it is settled which blocks are around it.
-/

namespace NumberedBasic

/-! ## Structured tables -/

/-- There is no GOTO, FOR or NEXT in the statement, in its branches neither. -/
def Statement.isPlain : Statement → Bool
  | .goto _ => false
  | .ifThen _ branch => branch.isPlain
  | .ifElse _ branch otherwise => branch.isPlain && otherwise.isPlain
  | .forLoop _ _ _ _ => false
  | .next _ => false
  | _ => true

/-- A FOR on the variable. -/
def Statement.Begins (name : String) (statement : Statement) : Prop :=
  ∃ start limit step, statement = .forLoop name start limit step

/-- A NEXT that ends a block on the variable, with or without naming it. -/
def Statement.Ends (name : String) (statement : Statement) : Prop :=
  statement = .next [] ∨ statement = .next [name]

/-- Lines that are a sequence of blocks and of plain statements, in which no
block uses the variable of a block around it. -/
inductive Nested : (around : List String) → List Line → Prop
  | nil {around : List String} : Nested around []
  | plain {around : List String} {line : Line} {rest : List Line}
      (hplain : line.statement.isPlain = true) (hrest : Nested around rest) :
      Nested around (line :: rest)
  | block {around : List String} {name : String} {opening closing : Line}
      {body rest : List Line} (hbegins : opening.statement.Begins name)
      (hfresh : name ∉ around) (hbody : Nested (name :: around) body)
      (hends : closing.statement.Ends name) (hrest : Nested around rest) :
      Nested around (opening :: (body ++ closing :: rest))

theorem Nested.mono {around fewer : List String} {lines : List Line}
    (hnested : Nested around lines) (hfewer : fewer ⊆ around) :
    Nested fewer lines := by
  induction hnested generalizing fewer with
  | nil => exact .nil
  | plain hplain _ ih => exact .plain hplain (ih hfewer)
  | block hbegins hfresh _ hends _ ihBody ihRest =>
      exact .block hbegins (fun hname => hfresh (hfewer hname))
        (ihBody (List.cons_subset_cons _ hfewer)) hends (ihRest hfewer)

theorem Nested.append {around : List String} {front back : List Line}
    (hfront : Nested around front) (hback : Nested around back) :
    Nested around (front ++ back) := by
  induction hfront with
  | nil => exact hback
  | plain hplain _ ih => exact .plain hplain (ih hback)
  | @block _ _ _ _ body rest hbegins hfresh hbody hends _ _ ih =>
      rw [List.cons_append, List.append_assoc, List.cons_append]
      exact .block hbegins hfresh hbody hends (ih hback)

/-- The lines of a block on the variable, from its FOR to its NEXT. -/
structure IsBlock (name : String) (opening : Line) (body : List Line)
    (closing : Line) : Prop where
  begins : opening.statement.Begins name
  body : Nested [name] body
  ends : closing.statement.Ends name

/-- The lines from the first index to the last are a block on the variable. -/
def Table.BlockAt (table : Table) (name : String) (first last : Int) : Prop :=
  ∃ front opening body closing back,
    table.lines = front ++ opening :: (body ++ closing :: back) ∧
    IsBlock name opening body closing ∧
    first = front.length ∧ last = front.length + 1 + body.length

/-! ## Open blocks -/

/-- The variable of a block and the index of its FOR. -/
abbrev OpenBlock := String × Int

/-- The open blocks behind a statement at an index, the outermost first. -/
def Statement.openAfter (index : Int) (around : List OpenBlock) :
    Statement → List OpenBlock
  | .forLoop name _ _ _ => around ++ [(name, index)]
  | .next _ => around.dropLast
  | _ => around

/-- The open blocks behind lines of which the first is at an index. -/
def openBlocks : (index : Int) → (around : List OpenBlock) → List Line →
    List OpenBlock
  | _, around, [] => around
  | index, around, line :: rest =>
      openBlocks (index + 1) (line.statement.openAfter index around) rest

section OpenAfter

variable {name : String} {statement : Statement} (index : Int)
  (around : List OpenBlock)

theorem Statement.openAfter_of_isPlain (hplain : statement.isPlain = true) :
    statement.openAfter index around = around := by
  cases statement with
  | forLoop => cases hplain
  | next => cases hplain
  | _ => rfl

theorem Statement.openAfter_of_begins (hbegins : statement.Begins name) :
    statement.openAfter index around = around ++ [(name, index)] := by
  obtain ⟨start, limit, step, rfl⟩ := hbegins
  rfl

theorem Statement.openAfter_of_ends (hends : statement.Ends name) :
    statement.openAfter index around = around.dropLast := by
  rcases hends with rfl | rfl <;> rfl

end OpenAfter

theorem openBlocks_append (index : Int) (around : List OpenBlock)
    (front back : List Line) :
    openBlocks index around (front ++ back) =
      openBlocks (index + front.length) (openBlocks index around front) back := by
  induction front generalizing index around with
  | nil => simp [openBlocks]
  | cons line front ih =>
      rw [List.cons_append, openBlocks, ih, openBlocks, List.length_cons,
        Int.natCast_succ, Int.add_assoc, Int.add_comm 1]

/-- Every block of nested lines is closed behind them. -/
theorem Nested.openBlocks_eq {names : List String} {lines : List Line}
    (hnested : Nested names lines) (index : Int) (around : List OpenBlock) :
    openBlocks index around lines = around := by
  induction hnested generalizing index around with
  | nil => rfl
  | plain hplain _ ih =>
      rw [openBlocks, Statement.openAfter_of_isPlain _ _ hplain, ih]
  | block hbegins _ _ hends _ ihBody ihRest =>
      rw [openBlocks, openBlocks_append,
        Statement.openAfter_of_begins _ _ hbegins, ihBody, openBlocks,
        Statement.openAfter_of_ends _ _ hends, List.dropLast_concat, ihRest]

/-! ## A place in nested lines -/

/-- The blocks around the place between the two lists of lines, the outermost
first, in which the first line is at an index. -/
inductive Around : (names : List String) → (index : Int) →
    (before after : List Line) → List OpenBlock → Prop
  | outside {names : List String} {index : Int} {before after : List Line}
      (hbefore : Nested names before) (hafter : Nested names after) :
      Around names index before after []
  | inside {names : List String} {index : Int} {name : String}
      {front before after back : List Line} {opening closing : Line}
      {blocks : List OpenBlock} (hfront : Nested names front)
      (hbegins : opening.statement.Begins name) (hfresh : name ∉ names)
      (hinner : Around (name :: names) (index + front.length + 1) before after
        blocks)
      (hends : closing.statement.Ends name) (hback : Nested names back) :
      Around names index (front ++ opening :: before)
        (after ++ closing :: back) ((name, index + front.length) :: blocks)

/-- Nested lines in front do not matter for what is around a place. -/
theorem Around.prepend {names : List String} {front before after : List Line}
    {blocks : List OpenBlock} (hfront : Nested names front) {index : Int}
    (haround : Around names (index + front.length) before after blocks) :
    Around names index (front ++ before) after blocks := by
  cases haround with
  | outside hbefore hafter => exact .outside (hfront.append hbefore) hafter
  | @inside _ _ name front' _ _ _ _ _ _ hfront' hbegins hfresh hinner hends hback =>
      have hindex : index + front.length + front'.length =
          index + (front ++ front').length := by
        rw [List.length_append, Int.natCast_add, Int.add_assoc]
      rw [hindex] at hinner ⊢
      rw [← List.append_assoc]
      exact .inside (hfront.append hfront') hbegins hfresh hinner hends hback

/-- At every place of nested lines it is settled which blocks are around it. -/
theorem Nested.exists_around {names : List String} {lines : List Line}
    (hnested : Nested names lines) (index : Int) {before after : List Line}
    (hlines : lines = before ++ after) :
    ∃ blocks, Around names index before after blocks := by
  induction hnested generalizing index before after with
  | nil =>
      obtain ⟨rfl, rfl⟩ := List.append_eq_nil_iff.mp hlines.symm
      exact ⟨[], .outside .nil .nil⟩
  | @plain _ line rest hplain hrest ih =>
      cases before with
      | nil =>
          rw [List.nil_append] at hlines
          exact ⟨[], .outside .nil (hlines ▸ .plain hplain hrest)⟩
      | cons head before =>
          obtain ⟨rfl, htail⟩ := List.cons.inj hlines
          obtain ⟨blocks, haround⟩ := ih (index + 1) htail
          exact ⟨blocks, .prepend (.plain hplain .nil) haround⟩
  | @block names _ opening closing body rest hbegins hfresh hbody hends hrest
      ihBody ihRest =>
      cases before with
      | nil =>
          rw [List.nil_append] at hlines
          exact ⟨[], .outside .nil
            (hlines ▸ .block hbegins hfresh hbody hends hrest)⟩
      | cons head before =>
          obtain ⟨rfl, htail⟩ := List.cons.inj hlines
          have hinside {before after : List Line} (hbody : body = before ++ after) :
              ∃ blocks, Around names index (opening :: before)
                (after ++ closing :: rest) blocks := by
            obtain ⟨blocks, haround⟩ := ihBody (index + 0 + 1) hbody
            exact ⟨_, .inside .nil hbegins hfresh haround hends hrest⟩
          -- the place is behind the body or within it; the end of the body is
          -- still inside the block
          rcases List.append_eq_append_iff.mp htail with
            ⟨middle, rfl, hafter⟩ | ⟨middle, hmiddle, rfl⟩
          · cases middle with
            | nil =>
                rw [List.nil_append] at hafter
                rw [List.append_nil, ← hafter]
                exact hinside (List.append_nil body).symm
            | cons last middle =>
                obtain ⟨rfl, hrest'⟩ := List.cons.inj hafter
                obtain ⟨blocks, haround⟩ := ihRest
                  (index + (opening :: (body ++ [closing])).length) hrest'
                refine ⟨blocks, ?_⟩
                have hblock := Around.prepend
                  (.block hbegins hfresh hbody hends .nil) haround
                simpa using hblock
          · exact hinside hmiddle

section Around

variable {names : List String} {index : Int} {before after : List Line}
  {blocks : List OpenBlock}

theorem Around.openBlocks_eq
    (haround : Around names index before after blocks)
    (outer : List OpenBlock) :
    openBlocks index outer before = outer ++ blocks := by
  induction haround generalizing outer with
  | outside hbefore _ => rw [hbefore.openBlocks_eq, List.append_nil]
  | inside hfront hbegins _ _ _ _ ih =>
      rw [openBlocks_append, hfront.openBlocks_eq, openBlocks,
        Statement.openAfter_of_begins _ _ hbegins, ih, List.append_assoc]
      rfl

theorem Around.nested (haround : Around names index before after blocks) :
    Nested names (before ++ after) := by
  induction haround with
  | outside hbefore hafter => exact hbefore.append hafter
  | inside hfront hbegins hfresh _ hends hback ih =>
      rw [List.append_assoc, List.cons_append, ← List.append_assoc]
      exact hfront.append (.block hbegins hfresh ih hends hback)

/-- An inner block begins behind an outer one. -/
theorem Around.pairwise (haround : Around names index before after blocks) :
    (blocks.map Prod.snd).Pairwise (· < ·) ∧
      ∀ block ∈ blocks, index ≤ block.2 := by
  induction haround with
  | outside => exact ⟨List.Pairwise.nil, nofun⟩
  | inside _ _ _ _ _ _ ih =>
      obtain ⟨hpairwise, hindex⟩ := ih
      rw [List.map_cons, List.pairwise_cons, List.forall_mem_map,
        List.forall_mem_cons]
      refine ⟨⟨?_, hpairwise⟩, by omega, ?_⟩
      · intro block hblock
        have := hindex block hblock
        omega
      · intro block hblock
        have := hindex block hblock
        omega

/-- Each block around a place begins before it and ends behind it. -/
theorem Around.isBlock_of_mem
    (haround : Around names index before after blocks) {name : String}
    {first : Int} (hblock : (name, first) ∈ blocks) :
    ∃ front opening body closing back,
      before ++ after = front ++ opening :: (body ++ closing :: back) ∧
      IsBlock name opening body closing ∧ first = index + front.length ∧
      front.length < before.length ∧
      before.length ≤ front.length + 1 + body.length := by
  induction haround with
  | outside => cases hblock
  | @inside _ index _ front before after back opening closing _ _ hbegins _
      hinner hends _ ih =>
      rcases List.mem_cons.mp hblock with heq | hmem
      · cases heq
        refine ⟨front, opening, before ++ after, closing, back, by simp,
          ⟨hbegins, ?_, hends⟩, rfl, ?_, ?_⟩
        · exact hinner.nested.mono (by simp)
        · rw [List.length_append, List.length_cons]
          omega
        · rw [List.length_append, List.length_cons, List.length_append]
          omega
      · obtain ⟨front', opening', body, closing', back', hlines, hisBlock,
          hfirst, hlt, hle⟩ := ih hmem
        refine ⟨front ++ opening :: front', opening', body, closing',
          back' ++ closing :: back, ?_, hisBlock, ?_, ?_, ?_⟩
        · simp only [List.append_assoc, List.cons_append] at hlines ⊢
          rw [← List.append_assoc before, hlines]
          simp
        · rw [hfirst, List.length_append, List.length_cons]
          omega
        · rw [List.length_append, List.length_append, List.length_cons,
            List.length_cons]
          omega
        · rw [List.length_append, List.length_append, List.length_cons,
            List.length_cons]
          omega

/-- What the line behind a place can be, seen from the blocks around the
place. -/
inductive Situation (names : List String) (before : List Line) (line : Line)
    (blocks : List OpenBlock) : Prop
  | plain (hplain : line.statement.isPlain = true)
  | begins {name : String} (hbegins : line.statement.Begins name)
      (hfresh : name ∉ names ++ blocks.map Prod.fst)
  | ends {name : String} {front body : List Line} {opening : Line}
      (hbefore : before = front ++ opening :: body)
      (hblock : IsBlock name opening body line)

theorem Around.situation {line : Line}
    (haround : Around names index before (line :: after) blocks) :
    Situation names before line blocks := by
  generalize hlines : line :: after = lines at haround
  induction haround generalizing line after with
  | outside hbefore hafter =>
      cases hafter with
      | nil => cases hlines
      | plain hplain _ =>
          cases hlines
          exact .plain hplain
      | block hbegins hfresh _ _ _ =>
          cases hlines
          exact .begins hbegins (by simpa using hfresh)
  | @inside names index name front before inner back opening closing blocks
      hfront hbegins hfresh hinner hends hback ih =>
      cases inner with
      | nil =>
          -- nothing of the body is left, so that the line is its NEXT
          cases hlines
          generalize hinner' : ([] : List Line) = inner at hinner
          cases hinner with
          | outside hbefore _ =>
              exact .ends rfl ⟨hbegins, hbefore.mono (by simp), hends⟩
          | inside => simp at hinner'
      | cons head inner =>
          cases hlines
          cases ih rfl with
          | plain hplain => exact .plain hplain
          | begins hbegins' hfresh' =>
              refine .begins hbegins' ?_
              simpa [and_left_comm] using hfresh'
          | @ends _ front' body opening' hbefore hblock =>
              have hbefore' : front ++ opening :: before =
                  (front ++ opening :: front') ++ opening' :: body := by
                rw [hbefore, List.append_assoc, List.cons_append]
              exact .ends hbefore' hblock

end Around

/-! ## Blocks of a table -/

namespace IsBlock

variable {name : String} {opening closing : Line} {body : List Line}
  (hblock : IsBlock name opening body closing) (front : List Line)

include hblock

/-- Within a block it is open, behind those that are open before it. -/
theorem openBlocks_within {inner rest : List Line} (hbody : body = inner ++ rest) :
    ∃ blocks, openBlocks 0 [] (front ++ opening :: inner) =
      openBlocks 0 [] front ++ (name, (front.length : Int)) :: blocks := by
  obtain ⟨blocks, haround⟩ :=
    hblock.body.exists_around (0 + front.length + 1) hbody
  refine ⟨blocks, ?_⟩
  rw [openBlocks_append, openBlocks,
    Statement.openAfter_of_begins _ _ hblock.begins, haround.openBlocks_eq,
    List.append_assoc, Int.zero_add]
  rfl

/-- At its end the block is the innermost. -/
theorem openBlocks_body :
    openBlocks 0 [] (front ++ opening :: body) =
      openBlocks 0 [] front ++ [(name, (front.length : Int))] := by
  rw [openBlocks_append, openBlocks,
    Statement.openAfter_of_begins _ _ hblock.begins,
    hblock.body.openBlocks_eq, Int.zero_add]

/-- Going back behind its FOR leads to where it has just been opened. -/
theorem openBlocks_opening :
    openBlocks 0 [] (front ++ [opening]) =
      openBlocks 0 [] (front ++ opening :: body) := by
  rw [hblock.openBlocks_body, openBlocks_append, openBlocks,
    Statement.openAfter_of_begins _ _ hblock.begins, openBlocks, Int.zero_add]

end IsBlock

/-- A place within a block divides its body. -/
theorem exists_divided {front body back before after : List Line}
    {opening closing : Line}
    (hlines : before ++ after = front ++ opening :: (body ++ closing :: back))
    (hfirst : front.length < before.length)
    (hlast : before.length ≤ front.length + 1 + body.length) :
    ∃ inner rest, body = inner ++ rest ∧ before = front ++ opening :: inner := by
  rcases List.append_eq_append_iff.mp hlines with
    ⟨middle, rfl, -⟩ | ⟨middle, rfl, hmiddle⟩
  · rw [List.length_append] at hfirst
    omega
  · cases middle with
    | nil => simp at hfirst
    | cons head inner =>
        obtain ⟨rfl, hinner⟩ := List.cons.inj hmiddle
        rcases List.append_eq_append_iff.mp hinner with
          ⟨more, rfl, -⟩ | ⟨rest, rfl, -⟩
        · rw [List.length_append, List.length_cons, List.length_append] at hlast
          obtain rfl : more = [] := List.eq_nil_of_length_eq_zero (by omega)
          exact ⟨body, [], (List.append_nil body).symm, by simp⟩
        · exact ⟨inner, rest, rfl, rfl⟩

namespace Table

variable {table : Table} {before after : List Line}
  (hlines : table.lines = before ++ after)

include hlines

/-- The blocks around a place are those that the place lies in. -/
theorem mem_openBlocks_iff (hnested : Nested [] table.lines) {name : String}
    {first : Int} :
    (name, first) ∈ openBlocks 0 [] before ↔
      ∃ last, table.BlockAt name first last ∧ first < before.length ∧
        before.length ≤ last := by
  constructor
  · intro hmem
    obtain ⟨blocks, haround⟩ := hnested.exists_around 0 hlines
    rw [haround.openBlocks_eq, List.nil_append] at hmem
    obtain ⟨front, opening, body, closing, back, hwhole, hblock, hfirst, hlt,
      hle⟩ := haround.isBlock_of_mem hmem
    rw [Int.zero_add] at hfirst
    exact ⟨_, ⟨front, opening, body, closing, back, hlines.trans hwhole, hblock,
      hfirst, rfl⟩, by omega, by omega⟩
  · rintro ⟨last, ⟨front, opening, body, closing, back, hwhole, hblock, rfl,
      rfl⟩, hlt, hle⟩
    obtain ⟨inner, rest, hbody, rfl⟩ := exists_divided
      (hlines.symm.trans hwhole) (by omega) (by omega)
    obtain ⟨blocks, hopen⟩ := hblock.openBlocks_within front hbody
    rw [hopen]
    exact List.mem_append_right _ List.mem_cons_self

/-- A block that ends at a place is the innermost there. -/
theorem openBlocks_of_blockAt {name : String} {first : Int}
    (hblock : table.BlockAt name first before.length) :
    ∃ outer, openBlocks 0 [] before = outer ++ [(name, first)] := by
  obtain ⟨front, opening, body, closing, back, hwhole, hblock, rfl, hlast⟩ :=
    hblock
  obtain ⟨inner, rest, rfl, rfl⟩ := exists_divided
    (hlines.symm.trans hwhole) (by omega) (by omega)
  have hrest : rest = [] := by
    rw [List.length_append, List.length_cons, List.length_append] at hlast
    exact List.eq_nil_of_length_eq_zero (by omega)
  subst hrest
  rw [List.append_nil] at hblock
  exact ⟨_, hblock.openBlocks_body front⟩

end Table

end NumberedBasic
