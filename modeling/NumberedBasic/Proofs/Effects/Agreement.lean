import NumberedBasic.Proofs.Effects.Parts
import NumberedBasic.Proofs.Machine.Relation

/-!
# What a computation depends on

The value of an expression depends on nothing but the scalars and the arrays
that it names, and so does the way in which it fails.  An array is read as a
whole where it is named, since its indices are not known beforehand.
-/

namespace NumberedBasic

/-! ## Names -/

mutual

/-- The scalars and arrays that an expression names. -/
def Expr.mentions : Expr → List Variable
  | .number _ => []
  | .text _ => []
  | .reference name [] => [.scalar name]
  | .reference name (first :: others) =>
      .array name :: mentionedIn (first :: others)
  | .unary _ operand => operand.mentions
  | .binary _ left right => left.mentions ++ right.mentions
  | .unaryOther _ operand => operand.mentions
  | .binaryOther _ left right => left.mentions ++ right.mentions
  | .unknown _ => []

/-- The scalars and arrays that some expressions name. -/
def mentionedIn : List Expr → List Variable
  | [] => []
  | first :: others => first.mentions ++ mentionedIn others

end

def Place.mentions (place : Place) : List Variable :=
  place.root :: mentionedIn place.indices

def Declaration.mentions (declaration : Declaration) : List Variable :=
  .array declaration.name :: mentionedIn declaration.bounds

/-- The scalars and arrays that a statement names, in whichever branch. -/
def Statement.mentions : Statement → List Variable
  | .print items _ _ => mentionedIn items
  | .assign target value => target.mentions ++ value.mentions
  | .goto _ => []
  | .ifThen condition branch => condition.mentions ++ branch.mentions
  | .ifElse condition branch otherwise =>
      condition.mentions ++ (branch.mentions ++ otherwise.mentions)
  | .forLoop name start limit step =>
      .scalar name :: mentionedIn (start :: limit :: step.toList)
  | .next names => names.map .scalar
  | .data _ => []
  | .read targets => targets.flatMap Place.mentions
  | .restore _ => []
  | .dim arrays => arrays.flatMap Declaration.mentions
  | .stop => []
  | .remark _ => []
  | .unknown _ => []

/-! ## Agreement -/

/-- The scalar has the same value in both memories, or the array the same
bounds and elements. -/
def Variable.SameIn (memory memory' : Memory) : Variable → Prop
  | .scalar name => memory'.scalars.get name = memory.scalars.get name
  | .array name =>
      memory'.arrays.blocks.get? name = memory.arrays.blocks.get? name

/-- The memories agree on the variables. -/
def Memory.AgreeOn (shared : List Variable) (memory memory' : Memory) : Prop :=
  ∀ named ∈ shared, named.SameIn memory memory'

theorem Memory.AgreeOn.subset {shared fewer : List Variable}
    {memory memory' : Memory} (hagree : AgreeOn shared memory memory')
    (hfewer : ∀ named ∈ fewer, named ∈ shared) : AgreeOn fewer memory memory' :=
  fun named hnamed => hagree named (hfewer named hnamed)

section Computations

variable {memory memory' : Memory} {name : String}

theorem Arrays.block_congr (hname : (Variable.array name).SameIn memory memory') :
    memory'.arrays.block name = memory.arrays.block name := by
  rw [Arrays.block, Arrays.block, hname]

theorem Arrays.get_congr (hname : (Variable.array name).SameIn memory memory')
    (index : List Int) :
    memory'.arrays.get name index = memory.arrays.get name index := by
  rw [Arrays.get, Arrays.get, Arrays.block_congr hname]

mutual

theorem Expr.eval_congr : (expr : Expr) →
    Memory.AgreeOn expr.mentions memory memory' →
      expr.eval memory' = expr.eval memory
  | .number _, _ => rfl
  | .text _, _ => rfl
  | .reference name [], hagree => by
      have hname := hagree (.scalar name) List.mem_cons_self
      rw [Expr.eval, Expr.eval, hname]
  | .reference name (first :: others), hagree => by
      obtain ⟨hname, hindices⟩ := List.forall_mem_cons.mp hagree
      rw [Expr.eval, Expr.eval, Arrays.block_congr hname,
        evalIndices_congr .arrayIndex (first :: others) hindices]
      simp only [Arrays.get_congr hname]
  | .unary op operand, hagree => by
      rw [Expr.eval, Expr.eval, Expr.eval_congr operand hagree]
  | .binary op left right, hagree => by
      obtain ⟨hleft, hright⟩ := List.forall_mem_append.mp hagree
      rw [Expr.eval, Expr.eval, Expr.eval_congr left hleft,
        Expr.eval_congr right hright]
  | .unaryOther symbol operand, hagree => by
      rw [Expr.eval, Expr.eval, Expr.eval_congr operand hagree]
  | .binaryOther symbol left right, hagree => by
      obtain ⟨hleft, hright⟩ := List.forall_mem_append.mp hagree
      rw [Expr.eval, Expr.eval, Expr.eval_congr left hleft,
        Expr.eval_congr right hright]
  | .unknown kind, _ => rfl

theorem evalIndices_congr (use : NumericUse) : (exprs : List Expr) →
    Memory.AgreeOn (mentionedIn exprs) memory memory' →
      evalIndices memory' use exprs = evalIndices memory use exprs
  | [], _ => rfl
  | first :: others, hagree => by
      obtain ⟨hfirst, hothers⟩ := List.forall_mem_append.mp hagree
      rw [evalIndices, evalIndices, Expr.eval_congr first hfirst,
        evalIndices_congr use others hothers]

end

theorem Expr.evalNumber_congr (use : NumericUse) {expr : Expr}
    (hagree : Memory.AgreeOn expr.mentions memory memory') :
    expr.evalNumber memory' use = expr.evalNumber memory use := by
  rw [Expr.evalNumber, Expr.evalNumber, expr.eval_congr hagree]

theorem printedRest_congr {items : List Expr}
    (hagree : Memory.AgreeOn (mentionedIn items) memory memory')
    (separators : List Separator) :
    printedRest memory' items separators =
      printedRest memory items separators := by
  induction items generalizing separators with
  | nil => rfl
  | cons item items ih =>
      obtain ⟨hitem, hitems⟩ := List.forall_mem_append.mp hagree
      cases separators with
      | nil => rfl
      | cons separator separators =>
          rw [printedRest, printedRest, item.eval_congr hitem, ih hitems]

theorem printedItems_congr {items : List Expr}
    (hagree : Memory.AgreeOn (mentionedIn items) memory memory')
    (separators : List Separator) :
    printedItems memory' separators items =
      printedItems memory separators items := by
  cases items with
  | nil => rfl
  | cons first others =>
      obtain ⟨hfirst, hothers⟩ := List.forall_mem_append.mp hagree
      rw [printedItems, printedItems, first.eval_congr hfirst,
        printedRest_congr hothers]

/-! ## Arrays that change alike -/

/-- Neither of the arrays has changed, or the named one has become the same in
both. -/
def Arrays.ChangedAlike (name : String) (arrays arrays' changed changed' : Arrays) :
    Prop :=
  changed = arrays ∧ changed' = arrays' ∨
    ∃ block, changed = ⟨arrays.blocks.insert name block⟩ ∧
      changed' = ⟨arrays'.blocks.insert name block⟩

theorem Arrays.set_congr (hname : (Variable.array name).SameIn memory memory')
    (index : List Int) (value : Value) :
    outcomesRelated (ChangedAlike name memory.arrays memory'.arrays)
      (fun halt halt' => halt' = halt)
      (memory.arrays.set name index value)
      (memory'.arrays.set name index value) := by
  rw [Arrays.set, Arrays.set, block_congr hname]
  cases memory.arrays.block name with
  | error halt => rfl
  | ok block =>
      simp only [bind, Except.bind]
      cases flatIndex index block.bounds with
      | none => exact Or.inl ⟨rfl, rfl⟩
      | some position =>
          dsimp only
          split
          · exact Or.inr ⟨_, rfl, rfl⟩
          · rfl

theorem Arrays.declare_congr [Host] (arrays arrays' : Arrays) (name : String)
    (bounds : List Int) :
    outcomesRelated (ChangedAlike name arrays arrays')
      (fun halt halt' => halt' = halt)
      (Halt.ofRun (arrays.declare name bounds))
      (Halt.ofRun (arrays'.declare name bounds)) := by
  rw [Arrays.declare, Arrays.declare]
  split
  · rfl
  · split
    · exact Or.inr ⟨_, rfl, rfl⟩
    · rfl

end Computations

/-! ## Changes that keep agreement -/

section Changes

variable {shared : List Variable} {memory memory' : Memory}
  (hagree : Memory.AgreeOn shared memory memory')

include hagree

theorem Memory.AgreeOn.setScalar (name : String) (value : Value) :
    AgreeOn shared { memory with scalars := memory.scalars.set name value }
      { memory' with scalars := memory'.scalars.set name value } := by
  intro named hnamed
  have hsame := hagree named hnamed
  cases named with
  | scalar other =>
      change (memory'.scalars.set name value).get other =
        (memory.scalars.set name value).get other
      rw [Scalars.get_set, Scalars.get_set, hsame]
  | array other => exact hsame

theorem Memory.AgreeOn.setArrays {name : String} {changed changed' : Arrays}
    (hchanged : Arrays.ChangedAlike name memory.arrays memory'.arrays
      changed changed') :
    AgreeOn shared { memory with arrays := changed }
      { memory' with arrays := changed' } := by
  rcases hchanged with ⟨rfl, rfl⟩ | ⟨block, rfl, rfl⟩
  · exact hagree
  · intro named hnamed
    have hsame := hagree named hnamed
    cases named with
    | scalar other => exact hsame
    | array other =>
        change (memory'.arrays.blocks.insert name block).get? other =
          (memory.arrays.blocks.insert name block).get? other
        rw [OrderedMap.get?_insert, OrderedMap.get?_insert, hsame]

end Changes

end NumberedBasic
