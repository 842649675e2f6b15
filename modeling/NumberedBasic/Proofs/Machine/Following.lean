import NumberedBasic.Proofs.Machine.Outcome

/-!
# One run followed in another

A run follows another if it can make up for every dispatch of the other by one
or more of its own, with nothing new to be seen in between.  Runs of programs
without an end are followed in this way as well as those that come to one.
-/

namespace NumberedBasic

variable [Host]

namespace Progress

variable (table : Table)

theorem advanceMany_add (first second : Nat) (progress : Progress) :
    progress.advanceMany table (first + second) =
      (progress.advanceMany table first).advanceMany table second := by
  induction first generalizing progress with
  | zero => rw [Nat.zero_add, advanceMany]
  | succ first ih =>
      rw [Nat.succ_add, advanceMany_succ, advanceMany_succ, ih]

theorem after_add (first second : Nat) :
    after table (first + second) =
      (after table first).advanceMany table second :=
  advanceMany_add table first second (start table)

theorem after_succ (count : Nat) :
    after table (count + 1) = (after table count).advance table := by
  rw [after_add, advanceMany_succ, advanceMany]

/-- A run that is over stays as it is. -/
theorem after_of_ending {count later : Nat} (hlater : count ≤ later)
    (hover : (after table count).ending?.isSome = true) :
    after table later = after table count := by
  obtain ⟨further, rfl⟩ := Nat.exists_eq_add_of_le hlater
  rw [after_add, advanceMany_of_ending table further hover]

/-- One or more dispatches lead to what is wanted; up to the last of them the
output is as given. -/
inductive LeadsTo (output : Array String) (Wanted : Progress → Prop) :
    Progress → Prop where
  | last {progress : Progress} (houtput : progress.output = output)
      (hwanted : Wanted (progress.advance table)) :
      LeadsTo output Wanted progress
  | more {progress : Progress} (houtput : progress.output = output)
      (hleads : LeadsTo output Wanted (progress.advance table)) :
      LeadsTo output Wanted progress

theorem LeadsTo.advanceMany {table : Table} {output : Array String}
    {Wanted : Progress → Prop} {progress : Progress}
    (hleads : LeadsTo table output Wanted progress) :
    ∃ between, Wanted (progress.advanceMany table (between + 1)) ∧
      ∀ early ≤ between, (progress.advanceMany table early).output = output := by
  induction hleads with
  | last houtput hwanted =>
      refine ⟨0, by rwa [advanceMany_succ], ?_⟩
      intro early hearly
      rwa [Nat.le_zero.mp hearly]
  | more houtput _ ih =>
      obtain ⟨between, hwanted, hbetween⟩ := ih
      refine ⟨between + 1, by rwa [advanceMany_succ], ?_⟩
      intro early hearly
      cases early with
      | zero => exact houtput
      | succ early =>
          rw [advanceMany_succ]
          exact hbetween early (Nat.le_of_succ_le_succ hearly)

end Progress

open Progress

/-- Two runs put out the same: what the output of one is at some time, that of
the other is as well, one comes to its end if the other does, and then in the
same way with the same output. -/
structure Table.SameOutput (table table' : Table) : Prop where
  reached : ∀ count, ∃ count',
    (after table' count').output = (after table count).output
  reached' : ∀ count', ∃ count,
    (after table' count').output = (after table count).output
  ends : (∃ count, (after table count).ending?.isSome = true) ↔
    ∃ count', (after table' count').ending?.isSome = true
  ending : ∀ count count', (after table count).ending?.isSome = true →
    (after table' count').ending?.isSome = true →
      (after table' count').ending? = (after table count).ending? ∧
      (after table' count').output = (after table count).output

/-- Under the relation, the second run makes up for a dispatch of the first by
one or more of its own.  If one of them is over, the other is so in the same
way once the second has made some more dispatches. -/
structure Table.Follows (table table' : Table)
    (Answers : Progress → Progress → Prop) : Prop where
  start : Answers (start table) (start table')
  output : ∀ {progress progress'}, Answers progress progress' →
    progress'.output = progress.output
  ending : ∀ {progress progress'}, Answers progress progress' →
    ∃ further, (progress'.advanceMany table' further).ending? = progress.ending?
  advance : ∀ {progress progress'}, Answers progress progress' →
    LeadsTo table' progress.output (Answers (progress.advance table)) progress'

namespace Table.Follows

variable {table table' : Table} {Answers : Progress → Progress → Prop}
variable (hfollows : Follows table table' Answers)

include hfollows

/-- By the time the first run has made a number of dispatches, the second has
made as many or more and has shown nothing else. -/
theorem after (count : Nat) :
    ∃ count' ≥ count,
      Answers (Progress.after table count) (Progress.after table' count') ∧
      ∀ early ≤ count', ∃ earlier,
        (Progress.after table' early).output =
          (Progress.after table earlier).output := by
  induction count with
  | zero =>
      refine ⟨0, Nat.le_refl 0, hfollows.start, ?_⟩
      intro early hearly
      rw [Nat.le_zero.mp hearly]
      exact ⟨0, hfollows.output hfollows.start⟩
  | succ count ih =>
      obtain ⟨count', hcount, hanswers, hseen⟩ := ih
      obtain ⟨between, hadvanced, hbetween⟩ :=
        (hfollows.advance hanswers).advanceMany
      rw [← after_succ, ← after_add] at hadvanced
      refine ⟨count' + (between + 1), by omega, hadvanced, ?_⟩
      intro early hearly
      rcases Nat.lt_or_ge early count' with hold | hnew
      · exact hseen early (Nat.le_of_lt hold)
      · obtain ⟨further, rfl⟩ := Nat.exists_eq_add_of_le hnew
        rcases Nat.lt_or_ge between further with hlast | hwithin
        · have hfurther : further = between + 1 := by omega
          rw [hfurther]
          exact ⟨count + 1, hfollows.output hadvanced⟩
        · rw [after_add]
          exact ⟨count, hbetween further hwithin⟩

theorem ending_of_over {progress progress' : Progress}
    (hanswers : Answers progress progress')
    (hover : progress'.ending?.isSome = true) :
    progress'.ending? = progress.ending? := by
  obtain ⟨further, hending⟩ := hfollows.ending hanswers
  rwa [advanceMany_of_ending table' further hover] at hending

theorem sameOutput : SameOutput table table' where
  reached count := by
    obtain ⟨count', -, hanswers, -⟩ := hfollows.after count
    exact ⟨count', hfollows.output hanswers⟩
  reached' count' := by
    obtain ⟨later, hlater, -, hseen⟩ := hfollows.after count'
    exact hseen count' hlater
  ends := by
    constructor
    · rintro ⟨count, hover⟩
      obtain ⟨count', -, hanswers, -⟩ := hfollows.after count
      obtain ⟨further, hending⟩ := hfollows.ending hanswers
      rw [← after_add] at hending
      exact ⟨count' + further, by rwa [hending]⟩
    · rintro ⟨count', hover⟩
      obtain ⟨later, hlater, hanswers, -⟩ := hfollows.after count'
      refine ⟨count', ?_⟩
      rw [after_of_ending table' hlater hover] at hanswers
      rwa [← hfollows.ending_of_over hanswers hover]
  ending count count' hover hover' := by
    obtain ⟨later', hlater', hanswers, -⟩ := hfollows.after (max count count')
    have hfirst := after_of_ending table (Nat.le_max_left count count') hover
    have hsecond := after_of_ending table'
      (Nat.le_trans (Nat.le_max_right count count') hlater') hover'
    rw [hfirst, hsecond] at hanswers
    exact ⟨hfollows.ending_of_over hanswers hover', hfollows.output hanswers⟩

end Table.Follows

end NumberedBasic
