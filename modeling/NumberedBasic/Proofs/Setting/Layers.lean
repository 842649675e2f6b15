import NumberedBasic.Proofs.Setting.Reading
import NumberedBasic.Proofs.Text.Separator
import NumberedBasic.Setting.Choices

/-!
# Layers of choices

The command line, the presets and the section that always holds are put on top
of each other, and what a setting gets comes from the uppermost of them that
says something about it.  A section of the second configuration file hides all
of the section of that name in the first.
-/

namespace NumberedBasic

/-! ## Texts and flags -/

namespace Setting

/-- What a setting takes from what is said about it.  A flag is off only if a
word says so. -/
inductive Takes (setting : Setting) : Option String → Choice → Prop
  | unset : Takes setting none .unset
  | text (hflag : setting.isFlag = false) (text : String) :
      Takes setting (some text) (.text text)
  | off (hflag : setting.isFlag = true) {word : String}
      (hword : Text.upperCase word ∈ falseWords) :
      Takes setting (some word) (.flag false)
  | on (hflag : setting.isFlag = true) {word : String}
      (hword : Text.upperCase word ∉ falseWords) :
      Takes setting (some word) (.flag true)

theorem not_mem_falseWords_of_mem_trueWords {word : String}
    (hword : word ∈ trueWords) : word ∉ falseWords := by
  have hdisjoint : ∀ word ∈ trueWords, word ∉ falseWords := by decide
  exact hdisjoint word hword

theorem flagOfWord?_getD (word : String) :
    (flagOfWord? word).getD true =
      decide (Text.upperCase word ∉ falseWords) := by
  rw [flagOfWord?]
  split
  next hempty =>
    obtain rfl : word = "" := by simpa using hempty
    decide
  next =>
    split
    next htrue =>
      have hword := not_mem_falseWords_of_mem_trueWords
        (List.contains_iff_mem.mp htrue)
      simp [hword]
    next =>
      split
      next hfalse => simp [List.contains_iff_mem.mp hfalse]
      next hfalse =>
        have hword := mt List.contains_iff_mem.mpr hfalse
        simp [hword]

theorem takes_iff {setting : Setting} {said : Option String}
    {choice : Choice} :
    setting.Takes said choice ↔ choice = setting.choose said := by
  cases said with
  | none =>
      constructor
      · rintro ⟨⟩
        rfl
      · rintro rfl
        exact .unset
  | some text =>
      rw [choose, flagOfWord?_getD]
      constructor
      · intro htakes
        cases htakes with
        | text hflag => simp [hflag]
        | off hflag hword => simp [hflag, hword]
        | on hflag hword => simp [hflag, hword]
      · rintro rfl
        split
        next hflag =>
          by_cases hword : Text.upperCase text ∈ falseWords
          · simpa [hword] using Takes.off hflag hword
          · simpa [hword] using Takes.on hflag hword
        next hflag => exact .text (by simpa using hflag) text

end Setting

namespace Choices

/-! ## Layers -/

/-- The words of a command line and two configuration files.  Sections have
their names to themselves, and so have the options of each section. -/
@[ext]
structure Sources where
  words : List String
  system : Sections
  own : Sections
  system_distinct : system.DistinctWithin
  own_distinct : own.DistinctWithin

namespace Sources

def given (sources : Sources) : OrderedMap Key String :=
  (CommandLine.read sources.words).given

/-- A section of the configuration; the first file counts only if the second
does not have it. -/
def section? (sources : Sources) (name : String) : Option Section :=
  (sources.own.get? name).or (sources.system.get? name)

/-- An option in a section, and its value if it has one. -/
def option? (sources : Sources) (header name : String) :
    Option (Option String) :=
  (sources.section? header).bind (·.get? name)

/-- The names between the commas of a text. -/
def namesIn (text : String) : List String :=
  ((text.toList.splitOn ',').map String.ofList).filter fun name =>
    !name.isEmpty

/-- The presets that are asked for, on the command line or else in the section
that always holds. -/
def presets (sources : Sources) : List String :=
  let named := givenText sources.given .preset
  namesIn
    (if named.isEmpty then
      (sources.option? baseSection Setting.preset.name).join.getD ""
    else named)

/-- What the configuration says about a setting: the last preset that says
something counts, and if there is none, the section that always holds. -/
def configured (sources : Sources) (setting : Setting) :
    Option (Option String) :=
  (sources.presets.reverse.findSome? fun preset =>
    sources.option? preset setting.name).or
    (sources.option? baseSection setting.name)

/-- What is said about a setting, if anything is.  Presets are not passed on,
and a configuration file named on the command line is not either. -/
def said (sources : Sources) : Setting → Option (Option String)
  | .preset => none
  | .config => sources.configured .config
  | setting =>
      ((sources.given.get? (.named setting.name)).map some).or
        (sources.configured setting)

/-- The presets are to be named in the configuration, but are not. -/
def LacksPresets (sources : Sources) : Prop :=
  (givenText sources.given .preset).isEmpty = true ∧
    sources.option? baseSection Setting.preset.name = some none

end Sources

/-- The choices are those that the uppermost layers make. -/
structure Settled (sources : Sources) (choices : Choices) : Prop where
  first : choices.first = sources.given.get? (.position 0)
  distinct : choices.settings.Distinct
  settings : ∀ setting, Option.Rel setting.Takes (sources.said setting)
    (choices.settings.get? setting)

theorem Settled.get?_settings {sources : Sources} {choices : Choices}
    (hsettled : choices.Settled sources) (setting : Setting) :
    choices.settings.get? setting =
      (sources.said setting).map setting.choose := by
  have hsetting := hsettled.settings setting
  generalize sources.said setting = said, choices.settings.get? setting = held
    at hsetting
  cases hsetting with
  | none => rfl
  | some htakes => rw [Setting.takes_iff.mp htakes, Option.map_some]

/-! ## Configuration files -/

namespace Sources

variable (sources : Sources)

theorem distinct_given : sources.given.Distinct :=
  CommandLine.distinct_read sources.words

def merged : Sections := mergeSections sources.system sources.own

theorem distinctWithin_merged : sources.merged.DistinctWithin :=
  sources.system_distinct.update sources.own_distinct

theorem get?_merged (name : String) :
    sources.merged.get? name = sources.section? name :=
  OrderedMap.get?_update sources.system sources.own_distinct.distinct name

/-- The options of the section that always holds. -/
def base : Section := (sources.merged.get? baseSection).getD .empty

theorem get?_base (name : String) :
    sources.base.get? name = sources.option? baseSection name := by
  rw [base, get?_merged, option?]
  cases sources.section? baseSection <;> rfl

theorem filter_splitOn (text : String) :
    ((text.splitOn ",").filter fun name => !name.isEmpty) = namesIn text :=
  congrArg (List.filter fun name => !name.isEmpty)
    (Text.splitOn_ofList_singleton text ',')

theorem presetNames_base (hpresets : ¬ sources.LacksPresets) :
    presetNames sources.given sources.base = .ok sources.presets := by
  simp only [presetNames, filter_splitOn, presets, get?_base]
  rw [LacksPresets] at hpresets
  cases hnamed : (givenText sources.given .preset).isEmpty with
  | false => rfl
  | true =>
      cases hoption : sources.option? baseSection Setting.preset.name with
      | none => rfl
      | some value =>
          cases value with
          | none => exact absurd ⟨hnamed, hoption⟩ hpresets
          | some text => rfl

theorem presetNames_base_of_lacksPresets (hpresets : sources.LacksPresets) :
    presetNames sources.given sources.base = .error .missingValue := by
  obtain ⟨hnamed, hoption⟩ := hpresets
  rw [presetNames, get?_base, hoption, hnamed]
  rfl

end Sources

theorem applyPresets_append (sections : Sections) (names : List String)
    (last : String) (options : Section) :
    (applyPresets sections (names ++ [last]) options).1 =
      (sections.get? last).elim (applyPresets sections names options).1
        (applyPresets sections names options).1.update := by
  rw [applyPresets, List.foldl_append, List.foldl_cons, List.foldl_nil]
  cases sections.get? last <;> rfl

/-- Presets cover what is under them, the last being on top. -/
theorem get?_applyPresets {sections : Sections}
    (hsections : sections.DistinctWithin) (names : List String)
    (options : Section) (name : String) :
    (applyPresets sections names options).1.get? name =
      (names.reverse.findSome? fun preset =>
        (sections.get? preset).bind (·.get? name)).or
        (options.get? name) := by
  induction names using List.reverseRecOn with
  | nil => rfl
  | append_singleton names last ih =>
      rw [applyPresets_append, List.reverse_append, List.reverse_singleton,
        List.singleton_append, List.findSome?_cons]
      cases hlast : sections.get? last with
      | none => exact ih
      | some preset =>
          have hpreset := hsections.held last preset hlast
          simp only [Option.bind_some, Option.elim_some]
          rw [OrderedMap.get?_update _ hpreset, ih]
          cases preset.get? name <;> rfl

theorem distinct_applyPresets (sections : Sections) (names : List String)
    {options : Section} (hoptions : options.Distinct) :
    (applyPresets sections names options).1.Distinct := by
  induction names using List.reverseRecOn with
  | nil => exact hoptions
  | append_singleton names last ih =>
      rw [applyPresets_append]
      cases sections.get? last with
      | none => exact ih
      | some preset => exact ih.update preset

theorem ofSection_eq_putAll (options : Section) :
    (ofSection options).1 =
      OrderedMap.putAll Setting.ofName? id .empty options.entries := by
  refine List.foldl_ext _ _ _ fun settings entry _ => ?_
  obtain ⟨name, value⟩ := entry
  cases hname : Setting.ofName? name <;> simp only [hname, id]

/-- Each setting gets the option of its name. -/
theorem get?_ofSection {options : Section} (hoptions : options.Distinct)
    (setting : Setting) :
    (ofSection options).1.get? setting = options.get? setting.name := by
  have horigin (name : String) (setting : Setting) :
      Setting.ofName? name = some setting ↔ some setting.name = some name := by
    constructor
    · exact fun hname => congrArg some (Setting.name_of_ofName? hname)
    · intro hname
      rw [← Option.some.inj hname, Setting.ofName?_name]
  rw [ofSection_eq_putAll, OrderedMap.get?_putAll horigin id _ hoptions]
  simp

theorem distinct_ofSection (options : Section) :
    (ofSection options).1.Distinct := by
  rw [ofSection_eq_putAll]
  exact OrderedMap.distinct_empty.putAll _ _ _

/-! ## The command line -/

theorem ofCommandLine_eq_putAll (given : OrderedMap Key String) :
    (ofCommandLine given).1 =
      OrderedMap.putAll (fun key => key.setting?.filter isDirect) some .empty
        given.entries := by
  refine List.foldl_ext _ _ _ fun settings entry _ => ?_
  obtain ⟨key, value⟩ := entry
  cases hkey : key.setting? with
  | none => simp only [hkey, Option.filter_none]
  | some setting =>
      cases hdirect : isDirect setting <;>
        simp [hkey, hdirect, Option.filter_some]

theorem distinct_ofCommandLine (given : OrderedMap Key String) :
    (ofCommandLine given).1.Distinct := by
  rw [ofCommandLine_eq_putAll]
  exact OrderedMap.distinct_empty.putAll _ _ _

theorem get?_ofCommandLine {given : OrderedMap Key String}
    (hgiven : given.Distinct) (setting : Setting) :
    (ofCommandLine given).1.get? setting =
      if isDirect setting then
        (given.get? (.named setting.name)).map some
      else none := by
  have horigin (key : Key) (setting : Setting) :
      key.setting?.filter isDirect = some setting ↔
        (if isDirect setting then some (Key.named setting.name) else none) =
          some key := by
    rw [Option.filter_eq_some_iff]
    cases key with
    | position index => simp [Key.setting?]
    | named name =>
        rw [Key.setting?]
        constructor
        · rintro ⟨hname, hdirect⟩
          rw [if_pos hdirect, Setting.name_of_ofName? hname]
        · intro horigin
          split at horigin
          next hdirect =>
            obtain rfl : setting.name = name := by simpa using horigin
            exact ⟨Setting.ofName?_name setting, hdirect⟩
          next => cases horigin
  rw [ofCommandLine_eq_putAll, OrderedMap.get?_putAll horigin some _ hgiven]
  split <;> simp

/-! ## All layers -/

namespace Sources

variable (sources : Sources)

/-- The options of all sections in force, one on top of the other. -/
def options : Section :=
  (applyPresets sources.merged sources.presets sources.base).1

theorem distinct_options : sources.options.Distinct :=
  distinct_applyPresets _ _ (sources.distinctWithin_merged.getD baseSection)

theorem get?_options (setting : Setting) :
    sources.options.get? setting.name = sources.configured setting := by
  rw [options, get?_applyPresets sources.distinctWithin_merged, get?_base,
    configured]
  simp only [get?_merged, option?]

/-- What is said about each setting, as the layers are put together. -/
def texts : OrderedMap Setting (Option String) :=
  (ofSection (sources.options.erase Setting.preset.name)).1.update
    (ofCommandLine sources.given).1

theorem distinct_texts : sources.texts.Distinct :=
  (distinct_ofSection _).update _

theorem get?_texts (setting : Setting) :
    sources.texts.get? setting = sources.said setting := by
  have hnames : Setting.preset.name = setting.name ↔ .preset = setting := by
    constructor
    · intro hname
      have hsetting := Setting.ofName?_name setting
      rw [← hname, Setting.ofName?_name] at hsetting
      exact Option.some.inj hsetting
    · rintro rfl
      rfl
  rw [texts, OrderedMap.get?_update _ (distinct_ofCommandLine _),
    get?_ofCommandLine sources.distinct_given,
    get?_ofSection (sources.distinct_options.erase _), OrderedMap.get?_erase,
    get?_options]
  cases setting <;> simp [hnames, said, isDirect]

/-- The choices that the layers make together. -/
def choices : Choices :=
  ⟨sources.given.get? (.position 0),
    ⟨sources.texts.entries.map fun (setting, text) =>
      (setting, setting.choose text)⟩⟩

theorem settled_choices : sources.choices.Settled sources where
  first := rfl
  distinct := sources.distinct_texts.mapValues Setting.choose
  settings setting := by
    have hget : sources.choices.settings.get? setting =
        (sources.said setting).map setting.choose :=
      (OrderedMap.get?_mapValues Setting.choose _ setting).trans
        (congrArg _ (sources.get?_texts setting))
    rw [hget]
    cases sources.said setting with
    | none => exact .none
    | some said => exact .some (Setting.takes_iff.mpr rfl)

theorem exists_ofSections (hpresets : ¬ sources.LacksPresets) :
    ∃ ignored, ofSections sources.given sources.merged =
      .ok ((ofSection (sources.options.erase Setting.preset.name)).1,
        ignored) := by
  have hnames := sources.presetNames_base hpresets
  rw [base] at hnames
  simp only [ofSections, hnames, bind, Except.bind, pure, Except.pure]
  exact ⟨_, rfl⟩

/-- Only a file that is to name presets and does not is in the way. -/
theorem exists_combine (hpresets : ¬ sources.LacksPresets) :
    ∃ warnings, combine sources.given sources.system sources.own =
      .ok (sources.choices, warnings) := by
  obtain ⟨ignored, hignored⟩ := sources.exists_ofSections hpresets
  rw [merged] at hignored
  simp only [combine, hignored, bind, Except.bind, pure, Except.pure]
  exact ⟨_, rfl⟩

theorem combine_of_lacksPresets (hpresets : sources.LacksPresets) :
    combine sources.given sources.system sources.own =
      .error .missingValue := by
  have hnames := sources.presetNames_base_of_lacksPresets hpresets
  rw [base, merged] at hnames
  simp only [combine, ofSections, hnames]
  rfl

/-! ## What has no effect -/

/-- The presets that are asked for and that there are. -/
def defined : List String :=
  sources.presets.filter fun preset => (sources.section? preset).isSome

theorem configured_eq_defined (setting : Setting) :
    sources.configured setting =
      (sources.defined.reverse.findSome? fun preset =>
        sources.option? preset setting.name).or
        (sources.option? baseSection setting.name) := by
  rw [configured, defined, ← List.filter_reverse]
  refine congrArg₂ Option.or ?_ rfl
  induction sources.presets.reverse with
  | nil => rfl
  | cons preset rest ih =>
      rw [List.findSome?_cons, List.filter_cons, ih]
      cases hpreset : sources.section? preset with
      | none => simp [option?, hpreset]
      | some options => simp [List.findSome?_cons]

/-- The first sources differ from the others in nothing but words that are not
taken up, presets that there are not and options that are not settings. -/
structure Resembles (other sources : Sources) : Prop where
  first : other.given.get? (.position 0) = sources.given.get? (.position 0)
  direct : ∀ setting, isDirect setting = true →
    other.given.get? (.named setting.name) =
      sources.given.get? (.named setting.name)
  defined : other.defined = sources.defined
  options : ∀ header ∈ baseSection :: sources.defined,
    ∀ setting : Setting, setting ≠ .preset →
      other.option? header setting.name = sources.option? header setting.name

variable {sources}

theorem Resembles.configured {other : Sources}
    (hother : other.Resembles sources) {setting : Setting}
    (hsetting : setting ≠ .preset) :
    other.configured setting = sources.configured setting := by
  have hlayer (preset : String) (hpreset : preset ∈ sources.defined.reverse) :
      other.option? preset setting.name =
        sources.option? preset setting.name :=
    hother.options preset
      (List.mem_cons_of_mem _ (List.mem_reverse.mp hpreset)) setting hsetting
  rw [configured_eq_defined, configured_eq_defined, hother.defined,
    hother.options baseSection List.mem_cons_self setting hsetting]
  refine congrArg₂ Option.or ?_ rfl
  generalize sources.defined.reverse = presets at hlayer
  induction presets with
  | nil => rfl
  | cons preset rest ih =>
      obtain ⟨hpreset, hrest⟩ := List.forall_mem_cons.mp hlayer
      rw [List.findSome?_cons, List.findSome?_cons, hpreset, ih hrest]

theorem Resembles.said {other : Sources} (hother : other.Resembles sources)
    (setting : Setting) : other.said setting = sources.said setting := by
  have hdirect (hsetting : isDirect setting = true) :
      ((other.given.get? (.named setting.name)).map some).or
          (other.configured setting) =
        ((sources.given.get? (.named setting.name)).map some).or
          (sources.configured setting) := by
    have hpreset : setting ≠ .preset := by
      rintro rfl
      cases hsetting
    rw [hother.direct setting hsetting, hother.configured hpreset]
  cases setting with
  | preset => rfl
  | config => exact hother.configured (by decide)
  | _ => exact hdirect rfl

theorem eq_choices_of_combine {choices : Choices} {warnings : List String}
    (hcombine : combine sources.given sources.system sources.own =
      .ok (choices, warnings)) : choices = sources.choices := by
  by_cases hpresets : sources.LacksPresets
  · rw [combine_of_lacksPresets sources hpresets] at hcombine
    cases hcombine
  · obtain ⟨others, hothers⟩ := exists_combine sources hpresets
    rw [hothers] at hcombine
    cases hcombine
    rfl

end Sources

/-! ## The choices -/

/-- Whatever the command line and the files hold, the choices are those of the
uppermost layers, unless the section that always holds is to name presets and
does not.  Words, presets and options that mean nothing change nothing. -/
theorem combine_layered (sources : Sources)
    (hpresets : ¬ sources.LacksPresets) :
    ∃ choices warnings,
      combine sources.given sources.system sources.own =
        .ok (choices, warnings) ∧
      choices.Settled sources ∧
      ∀ (other : Sources) (others : Choices) (otherWarnings : List String),
        other.Resembles sources →
        combine other.given other.system other.own =
          .ok (others, otherWarnings) →
        others.first = choices.first ∧
          ∀ setting, others.settings.get? setting =
            choices.settings.get? setting := by
  obtain ⟨warnings, hcombine⟩ := sources.exists_combine hpresets
  have hsettled := sources.settled_choices
  refine ⟨sources.choices, warnings, hcombine, hsettled, ?_⟩
  intro other others otherWarnings hother hothers
  obtain rfl := Sources.eq_choices_of_combine hothers
  refine ⟨hother.first, fun setting => ?_⟩
  rw [other.settled_choices.get?_settings, hsettled.get?_settings,
    hother.said]

/-- The second file asks for presets, one of which is not there and another of
which asks for presets itself; it hides a section of the first. -/
def layered : Sources where
  words := ["--debug=maybe", "-x", "--config=OTHER.INI", "A.BAS", "B.BAS",
    "--exec=PRINT 1", "-e", "PRINT 2"]
  system := ⟨[("linebasic", ⟨[("interact", some "yes")]⟩),
    ("loud", ⟨[("greeting", some "Off"), ("preset", none)]⟩)]⟩
  own := ⟨[("linebasic", ⟨[("preset", some "quiet,none,,loud"),
      ("exec", some "PRINT 3"), ("greeting", none), ("unknown", none)]⟩),
    ("quiet", ⟨[("greeting", some "on"), ("logfile", none),
      ("preset", some "loud"), ("config", some "THIRD.INI")]⟩)]⟩
  system_distinct := .of_entries (by decide) (by decide)
  own_distinct := .of_entries (by decide) (by decide)

theorem combine_layered_of_presets :
    ¬ layered.LacksPresets ∧
      ∃ choices warnings,
        combine layered.given layered.system layered.own =
          .ok (choices, warnings) ∧
        choices.Settled layered ∧
        choices.first = some "A.BAS" ∧
        choices.settings.get? .exec = some (.text "PRINT 1\nPRINT 2") ∧
        choices.settings.get? .debug = some (.flag true) ∧
        choices.settings.get? .greeting = some (.flag false) ∧
        choices.settings.get? .logfile = some .unset ∧
        choices.settings.get? .config = some (.text "THIRD.INI") ∧
        choices.settings.get? .interact = none ∧
        choices.settings.get? .preset = none := by
  have hpresets : ¬ layered.LacksPresets := by
    rintro ⟨-, hpreset⟩
    revert hpreset
    decide +kernel
  obtain ⟨choices, warnings, hcombine, hsettled, -⟩ :=
    combine_layered layered hpresets
  refine ⟨hpresets, choices, warnings, hcombine, hsettled, ?_⟩
  rw [hsettled.first]
  simp only [hsettled.get?_settings]
  decide +kernel

end Choices

end NumberedBasic
