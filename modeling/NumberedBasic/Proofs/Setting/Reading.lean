import NumberedBasic.Proofs.CommandLine.Rounds
import NumberedBasic.Proofs.Setting.Dictionary
import NumberedBasic.Setting.Sections

/-!
# Dictionaries that are read

What a command line gives, and what a configuration file holds, is put into
dictionaries one entry after another, and so no key comes twice: no setting, no
section of a file and no option of a section.
-/

namespace NumberedBasic

/-! ## Command lines -/

namespace CommandLine

theorem distinct_assignLetters (value : String) (group : List Char)
    {line : CommandLine} (hline : line.given.Distinct) (chosen : String) :
    (assignLetters value group line chosen).1.given.Distinct := by
  induction group generalizing line chosen with
  | nil => exact hline
  | cons letter rest ih =>
      simp only [assignLetters]
      split
      · have hwarn (warning : String) : (line.warn warning).given.Distinct :=
          hline
        exact ih (hwarn _) _
      · have hassign (name value : String) :
            (line.assign name value).given.Distinct := hline.insert _ _
        exact ih (hassign _ _) _

theorem distinct_readOption {line : CommandLine} (hline : line.given.Distinct)
    (rest : List String) (word : Word) :
    (line.readOption rest word).1.given.Distinct := by
  cases word with
  | positional text => exact hline
  | endOfOptions => exact hline
  | long name value =>
      simp only [readOption]
      split
      · exact hline
      · split
        · exact hline.insert _ _
        · exact hline.insert _ _
  | letters group value => exact distinct_assignLetters _ group hline _

theorem distinct_of_round {reading next : Reading}
    (hround : Round reading next) (hline : reading.line.given.Distinct) :
    next.line.given.Distinct := by
  cases hround with
  | ended => exact hline.insert _ _
  | positional => exact hline.insert _ _
  | endOfOptions => exact hline
  | option => exact distinct_readOption hline _ _

theorem distinct_of_reaches {reading later : Reading}
    (hreaches : Reaches reading later)
    (hline : reading.line.given.Distinct) : later.line.given.Distinct := by
  induction hreaches with
  | refl => exact hline
  | tail _ hround ih => exact distinct_of_round hround ih

theorem distinct_read (words : List String) : (read words).given.Distinct := by
  obtain ⟨_, hreaches⟩ := reaches_finish (.start words)
  exact distinct_of_reaches hreaches OrderedMap.distinct_empty

end CommandLine

/-! ## Configuration files -/

namespace Sections

namespace Reading

theorem distinctWithin_assign {reading : Reading}
    (hreading : reading.drafts.DistinctWithin) (header option : String)
    (value : Option (List String)) :
    (reading.assign header option value).drafts.DistinctWithin :=
  hreading.insert header ((hreading.getD header).insert option value)

theorem distinctWithin_of_addLine {reading next : Reading} {text : String}
    (hnext : reading.addLine text = .ok next)
    (hreading : reading.drafts.DistinctWithin) :
    next.drafts.DistinctWithin := by
  rw [addLine] at hnext
  split at hnext
  · cases hnext
    exact distinctWithin_assign hreading _ _ _
  · cases hnext

theorem distinctWithin_of_beginSection {reading next : Reading} {name : String}
    (hnext : reading.beginSection name = .ok next)
    (hreading : reading.drafts.DistinctWithin) :
    next.drafts.DistinctWithin := by
  rw [beginSection] at hnext
  split at hnext
  · split at hnext <;> cases hnext
    exact hreading
  · cases hnext
    exact hreading.insert name OrderedMap.distinct_empty

theorem distinctWithin_of_beginOption {reading next : Reading}
    {text : List Char} (hnext : reading.beginOption text = .ok next)
    (hreading : reading.drafts.DistinctWithin) :
    next.drafts.DistinctWithin := by
  rw [beginOption] at hnext
  split at hnext
  · cases hnext
  · simp only [] at hnext
    split at hnext <;> cases hnext
    exact distinctWithin_assign hreading _ _ _

theorem distinctWithin_of_line {reading next : Reading} {text : List Char}
    (hnext : reading.line text = .ok next)
    (hreading : reading.drafts.DistinctWithin) :
    next.drafts.DistinctWithin := by
  simp only [line] at hnext
  split at hnext
  · cases hnext
    exact hreading
  · split at hnext
    · split at hnext
      · exact distinctWithin_of_addLine hnext hreading
      · cases hnext
        exact hreading
    · split at hnext
      · exact distinctWithin_of_addLine hnext hreading
      · split at hnext
        · exact distinctWithin_of_beginSection hnext hreading
        · exact distinctWithin_of_beginOption hnext hreading

theorem distinctWithin_of_lines {reading final : Reading}
    {lines : List (List Char)} (hfinal : lines.foldlM line reading = .ok final)
    (hreading : reading.drafts.DistinctWithin) :
    final.drafts.DistinctWithin := by
  induction lines generalizing reading with
  | nil =>
      cases hfinal
      exact hreading
  | cons text rest ih =>
      rw [List.foldlM_cons] at hfinal
      cases hnext : reading.line text with
      | error failure =>
          rw [hnext] at hfinal
          cases hfinal
      | ok next =>
          rw [hnext] at hfinal
          exact ih hfinal (distinctWithin_of_line hnext hreading)

theorem distinct_finishDraft {draft : Draft} (hdraft : draft.Distinct) :
    (finishDraft draft).Distinct :=
  hdraft.mapValues fun _ value => value.map finishValue

/-- The options of a section come on top of the common ones. -/
theorem distinctWithin_of_finish {reading : Reading} {sections : Sections}
    (hfinish : reading.finish = .ok sections)
    (hreading : reading.drafts.DistinctWithin) : sections.DistinctWithin := by
  rw [finish] at hfinish
  split at hfinish <;> cases hfinish
  have hcommon := distinct_finishDraft (hreading.getD commonName)
  let named := reading.drafts.erase commonName
  let complete (name : String) (draft : Draft) : Section :=
    (finishDraft (reading.draft commonName)).update (finishDraft draft)
  have hnamed : named.Distinct := hreading.distinct.erase commonName
  refine ⟨hnamed.mapValues complete, fun name options hget => ?_⟩
  have hget : (named.get? name).map (complete name) = some options :=
    (OrderedMap.get?_mapValues complete named.entries name).symm.trans hget
  obtain ⟨draft, -, rfl⟩ := Option.map_eq_some_iff.mp hget
  exact hcommon.update _

end Reading

theorem distinctWithin_of_ofBytes {bytes : List UInt8} {sections : Sections}
    (hsections : ofBytes bytes = .ok sections) : sections.DistinctWithin := by
  rw [ofBytes, ofLines] at hsections
  cases hread : List.foldlM Reading.line Reading.start (Text.linesOf
      (Text.unifyLineEnds (Text.decodeUtf8 (Text.dropMark bytes)))) with
  | error failure =>
      rw [hread] at hsections
      cases hsections
  | ok reading =>
      rw [hread] at hsections
      exact Reading.distinctWithin_of_finish hsections
        (Reading.distinctWithin_of_lines hread OrderedMap.distinctWithin_empty)

end Sections

end NumberedBasic
