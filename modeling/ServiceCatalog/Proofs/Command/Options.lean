import ServiceCatalog.Command.Arguments
import ServiceCatalog.Proofs.Chain
import ServiceCatalog.Proofs.Name.Written

/-!
# Which options are accepted

An option of a command line is for some plugin, and only those for this one count.  Both marks that an option is cut
at may occur again: a colon in its name and in its value, an equals sign in its plugin and in its value.  It is read in
one way all the same, since the plugin holds no colon and the name no equals sign (`PluginArgument.parse?_eq_some_iff`).

Options are taken one by one, and what was given so far is one directory at most.  So whether an option is an offence
depends on those in front of it in a single respect: whether a directory is among them, or was given by itself.

* `PluginArgument.SpelledBy`: the form of an option.
* `Configuration.directory?`, `Configuration.given`: the directories that options give.
* `Configuration.Offends`: the options that are refused, each with its error.
* `Command.configuration_exact`: what the options of a command come to.
-/

namespace ServiceCatalog

namespace PluginArgument

/-- Whether a text is an option: it is `plugin:<id>:<name>=<value>`, with an id free of colons and a name free of equals
signs, neither of them empty. -/
structure SpelledBy (a : PluginArgument) (s : String) : Prop where
  text : s = "plugin:" ++ a.plugin ++ ":" ++ a.name ++ "=" ++ a.value
  plugin_ne : a.plugin ≠ ""
  colon_notMem : ':' ∉ a.plugin.toList
  name_ne : a.name ≠ ""
  equals_notMem : '=' ∉ a.name.toList

theorem parse?_eq_some_iff {s : String} {a : PluginArgument} : parse? s = some a ↔ a.SpelledBy s := by
  simp only [parse?, bind, Option.bind_eq_some_iff, Text.dropStart?_eq_some_iff, Prod.exists, Text.cutFirst_eq_some_iff]
  constructor
  · rintro ⟨_, rfl, plugin, option, ⟨hplugin, rfl⟩, name, value, ⟨hname, rfl⟩, hsome⟩
    split at hsome
    · exact absurd hsome nofun
    · next hne =>
      obtain ⟨hplugin_ne, hname_ne⟩ := not_or.mp hne
      obtain rfl := Option.some.inj hsome
      exact ⟨by simp [← String.toList_inj], hplugin_ne, hplugin, hname_ne, hname⟩
  · intro h
    refine ⟨a.plugin ++ ":" ++ (a.name ++ "=" ++ a.value), ?_, a.plugin, _, ⟨h.colon_notMem, rfl⟩, a.name, a.value,
      ⟨h.equals_notMem, rfl⟩, if_neg (not_or.mpr ⟨h.plugin_ne, h.name_ne⟩)⟩
    rw [h.text]
    simp [← String.toList_inj]

/-- An option is spelled in one way only. -/
theorem SpelledBy.eq {s : String} {a b : PluginArgument} (ha : a.SpelledBy s) (hb : b.SpelledBy s) : a = b :=
  Option.some.inj ((parse?_eq_some_iff.mpr ha).symm.trans (parse?_eq_some_iff.mpr hb))

end PluginArgument

namespace Configuration

/-- How an option with the output directory begins. -/
def directoryStart : String := "plugin:" ++ pluginId ++ ":" ++ outputOption.name ++ "="

/-- The directory that an option gives: all that stands behind the name of the option and an equals sign. -/
def directory? (s : String) : Option FilePath := (Text.dropStart? directoryStart s).map FilePath.mk

/-- The directories that are given in all: one by itself, and one by each option that names one. -/
def given (output : Option FilePath) (options : List String) : List FilePath :=
  output.toList ++ options.filterMap directory?

/-- Whether a text is an option that is known, or one for another plugin. -/
def IsKnown (s : String) : Prop :=
  ∃ a : PluginArgument, a.SpelledBy s ∧ (a.plugin = pluginId → a.name = outputOption.name)

/-- Whether a text is an option for another plugin. -/
def IsForeign (s : String) : Prop := ∃ a : PluginArgument, a.SpelledBy s ∧ a.plugin ≠ pluginId

/-- Whether a text is refused where some directories have been given in front of it, and with which error. -/
inductive Offends (before : List FilePath) (s : String) : OptionError → Prop
  | malformed (h : ∀ a : PluginArgument, ¬a.SpelledBy s) : Offends before s (.malformed s)
  | unknown {a : PluginArgument} (h : a.SpelledBy s) (hplugin : a.plugin = pluginId) (hname : a.name ≠ outputOption.name) :
      Offends before s (.unknown a.name)
  | repeated {value : String} (h : PluginArgument.SpelledBy ⟨pluginId, outputOption.name, value⟩ s) (hbefore : before ≠ []) :
      Offends before s (.repeated outputOption.name)

/-! ## One option -/

theorem directory?_eq_some_iff {s : String} {p : FilePath} :
    directory? s = some p ↔ PluginArgument.SpelledBy ⟨pluginId, outputOption.name, p.text⟩ s := by
  have hplugin : pluginId ≠ "" ∧ ':' ∉ pluginId.toList := by decide
  have hname : outputOption.name ≠ "" ∧ '=' ∉ outputOption.name.toList := by decide
  simp only [directory?, Option.map_eq_some_iff, Text.dropStart?_eq_some_iff]
  constructor
  · rintro ⟨value, rfl, rfl⟩
    exact ⟨rfl, hplugin.1, hplugin.2, hname.1, hname.2⟩
  · intro h
    exact ⟨p.text, h.text, rfl⟩

/-- An option gives a directory exactly if it is known and for this plugin. -/
theorem directory?_of_spelledBy {s : String} {a : PluginArgument} (h : a.SpelledBy s) :
    directory? s = if a.plugin = pluginId ∧ a.name = outputOption.name then some ⟨a.value⟩ else none := by
  obtain ⟨plugin, name, value⟩ := a
  split
  · next hown =>
    obtain ⟨rfl, rfl⟩ := hown
    exact directory?_eq_some_iff.mpr h
  · next hother =>
    refine Option.eq_none_iff_forall_ne_some.mpr fun p hp => hother ?_
    cases h.eq (directory?_eq_some_iff.mp hp)
    exact ⟨rfl, rfl⟩

theorem addArgument_of_spelledBy (c : Configuration) {s : String} {a : PluginArgument} (h : a.SpelledBy s) :
    c.addArgument s = if a.plugin = pluginId then c.set a.name a.value else .ok c := by
  rw [addArgument, PluginArgument.parse?_eq_some_iff.mpr h]

theorem addArgument_of_not_spelledBy (c : Configuration) {s : String} (h : ∀ a : PluginArgument, ¬a.SpelledBy s) :
    c.addArgument s = .error (.malformed s) := by
  have hnone : PluginArgument.parse? s = none :=
    Option.eq_none_iff_forall_ne_some.mpr fun a ha => h a (PluginArgument.parse?_eq_some_iff.mp ha)
  rw [addArgument, hnone]

theorem addArgument_of_isForeign (c : Configuration) {s : String} (h : IsForeign s) : c.addArgument s = .ok c := by
  obtain ⟨a, ha, hplugin⟩ := h
  rw [addArgument_of_spelledBy c ha, if_neg hplugin]

/-- An option is accepted exactly if it is known and does not give a second directory. -/
theorem addArgument_eq_ok_iff {c c' : Configuration} {s : String} :
    c.addArgument s = .ok c' ↔ IsKnown s ∧ (given c.output [s]).length ≤ 1 ∧ c'.output = (given c.output [s]).head? := by
  obtain ⟨output⟩ := c
  obtain ⟨output'⟩ := c'
  by_cases hspelled : ∃ a : PluginArgument, a.SpelledBy s
  · obtain ⟨a, ha⟩ := hspelled
    have hknown : IsKnown s ↔ (a.plugin = pluginId → a.name = outputOption.name) :=
      ⟨fun ⟨b, hb, h⟩ => ha.eq hb ▸ h, fun h => ⟨a, ha, h⟩⟩
    rw [addArgument_of_spelledBy _ ha, hknown]
    by_cases hplugin : a.plugin = pluginId
    · by_cases hname : a.name = outputOption.name
      · cases output <;> simp [given, directory?_of_spelledBy ha, set, hplugin, hname, eq_comm]
      · simp [set, hplugin, hname]
    · cases output <;> simp [given, directory?_of_spelledBy ha, hplugin, eq_comm]
  · have hunknown : ¬IsKnown s := fun ⟨a, ha, _⟩ => hspelled ⟨a, ha⟩
    simp [addArgument_of_not_spelledBy _ (not_exists.mp hspelled), hunknown]

/-- An option is refused exactly if it offends. -/
theorem addArgument_eq_error_iff {c : Configuration} {s : String} {e : OptionError} :
    c.addArgument s = .error e ↔ Offends c.output.toList s e := by
  constructor
  · intro h
    by_cases hspelled : ∃ a : PluginArgument, a.SpelledBy s
    · obtain ⟨a, ha⟩ := hspelled
      rw [addArgument_of_spelledBy c ha, set] at h
      split at h
      next hplugin =>
        split at h
        · next hname =>
          cases h
          exact .unknown ha hplugin hname
        next hname =>
          split at h
          · next houtput =>
            cases h
            obtain ⟨plugin, name, value⟩ := a
            obtain rfl : plugin = pluginId := hplugin
            obtain rfl : name = outputOption.name := not_not.mp hname
            exact .repeated ha (by simpa [Option.isSome_iff_ne_none] using houtput)
          · contradiction
      · contradiction
    · rw [addArgument_of_not_spelledBy c (not_exists.mp hspelled)] at h
      cases h
      exact .malformed (not_exists.mp hspelled)
  · rintro (h | ⟨ha, hplugin, hname⟩ | ⟨ha, hbefore⟩)
    · exact addArgument_of_not_spelledBy c h
    · rw [addArgument_of_spelledBy c ha, if_pos hplugin, set, if_pos hname]
    · have houtput : c.output.isSome = true := by simpa [Option.isSome_iff_ne_none] using hbefore
      rw [addArgument_of_spelledBy c ha, if_pos rfl, set, if_neg (not_not.mpr rfl), if_pos houtput]

/-! ## All options -/

theorem ofArguments_eq (output : Option FilePath) (options : List String) :
    ofArguments output options = options.foldlM addArgument ⟨output⟩ := by
  cases output <;> rfl

/-- Directories that are given one behind the other. -/
theorem given_cons (output : Option FilePath) (s : String) (options : List String) :
    given output (s :: options) = given output [s] ++ options.filterMap directory? := by
  rw [given, given, List.append_assoc, ← List.filterMap_append]
  rfl

/-- Options are accepted exactly if all of them are known and they give one directory at most, and then it is the one
that they give. -/
theorem foldlM_addArgument_eq_ok_iff {options : List String} {c c' : Configuration} :
    options.foldlM addArgument c = .ok c' ↔
      (∀ s ∈ options, IsKnown s) ∧ (given c.output options).length ≤ 1 ∧ c'.output = (given c.output options).head? := by
  induction options generalizing c with
  | nil =>
    obtain ⟨output⟩ := c
    obtain ⟨output'⟩ := c'
    cases output <;> simp [given, pure, Except.pure, eq_comm]
  | cons s options ih =>
    rw [List.foldlM_cons, bind_eq_ok_iff, List.forall_mem_cons, given_cons]
    simp only [addArgument_eq_ok_iff, ih]
    have hone : ∀ {output : Option FilePath}, (given c.output [s]).length ≤ 1 → output = (given c.output [s]).head? →
        given output options = given c.output [s] ++ options.filterMap directory? := by
      rintro _ hlength rfl
      rw [given, ← List.take_one, List.take_of_length_le hlength]
    constructor
    · rintro ⟨c₁, ⟨hknown, hlength, houtput⟩, hothers, hmore, hlast⟩
      rw [hone hlength houtput] at hmore hlast
      exact ⟨⟨hknown, hothers⟩, hmore, hlast⟩
    · rintro ⟨⟨hknown, hothers⟩, hmore, hlast⟩
      have hlength : (given c.output [s]).length ≤ 1 := by
        rw [List.length_append] at hmore
        omega
      refine ⟨⟨(given c.output [s]).head?⟩, ⟨hknown, hlength, rfl⟩, hothers, ?_⟩
      rw [hone hlength rfl]
      exact ⟨hmore, hlast⟩

/-- What is offended against behind options that are accepted are the directories that they give. -/
theorem given_of_foldlM_addArgument {options : List String} {c c' : Configuration}
    (h : options.foldlM addArgument c = .ok c') : c'.output.toList = given c.output options := by
  obtain ⟨-, hlength, houtput⟩ := foldlM_addArgument_eq_ok_iff.mp h
  rw [houtput, ← List.take_one, List.take_of_length_le hlength]

/-- Options are accepted exactly if none of them offends where it stands. -/
theorem exists_foldlM_addArgument_iff {options : List String} {c : Configuration} :
    (∃ c', options.foldlM addArgument c = .ok c') ↔
      ∀ front s behind, options = front ++ s :: behind → ∀ e, ¬Offends (given c.output front) s e := by
  constructor
  · rintro ⟨c', hok⟩ front s behind rfl e hoffends
    rw [List.foldlM_append, bind_eq_ok_iff] at hok
    obtain ⟨c₁, hfront, hok⟩ := hok
    rw [List.foldlM_cons, bind_eq_ok_iff] at hok
    obtain ⟨c₂, hs, -⟩ := hok
    rw [← given_of_foldlM_addArgument hfront, ← addArgument_eq_error_iff, hs] at hoffends
    contradiction
  · intro h
    cases hall : options.foldlM addArgument c with
    | ok c' => exact ⟨c', rfl⟩
    | error e =>
      obtain ⟨front, s, behind, hsplit, c', hfront, hs⟩ := foldlM_eq_error_iff.mp hall
      rw [addArgument_eq_error_iff, given_of_foldlM_addArgument hfront] at hs
      exact absurd hs (h front s behind hsplit e)

/-- Options are refused with the error of the first one that offends. -/
theorem foldlM_addArgument_eq_error_iff {options : List String} {c : Configuration} {e : OptionError} :
    options.foldlM addArgument c = .error e ↔
      ∃ front s behind, options = front ++ s :: behind ∧ Offends (given c.output front) s e ∧
        ∀ before t between, front = before ++ t :: between → ∀ e', ¬Offends (given c.output before) t e' := by
  rw [foldlM_eq_error_iff]
  constructor
  · rintro ⟨front, s, behind, hsplit, c', hfront, hs⟩
    rw [addArgument_eq_error_iff, given_of_foldlM_addArgument hfront] at hs
    exact ⟨front, s, behind, hsplit, hs, exists_foldlM_addArgument_iff.mp ⟨c', hfront⟩⟩
  · rintro ⟨front, s, behind, hsplit, hs, hnone⟩
    obtain ⟨c', hfront⟩ := exists_foldlM_addArgument_iff.mpr hnone
    rw [← given_of_foldlM_addArgument hfront, ← addArgument_eq_error_iff] at hs
    exact ⟨front, s, behind, hsplit, c', hfront, hs⟩

/-- Options for other plugins change nothing, wherever they stand. -/
theorem foldlM_addArgument_of_isForeign {front behind : List String} {s : String} (hs : IsForeign s) (c : Configuration) :
    (front ++ s :: behind).foldlM addArgument c = (front ++ behind).foldlM addArgument c := by
  rw [List.foldlM_append, List.foldlM_append]
  refine congrArg _ (funext fun c' => ?_)
  rw [List.foldlM_cons, addArgument_of_isForeign c' hs]
  rfl

end Configuration

namespace Command

open ServiceCatalog.Configuration

/-- **What the options of a command come to.**  They are accepted exactly if each of them has the form of an option, each
one for this plugin is known, and they give one directory at most; then it is the one that is kept.  Otherwise the error
is that of the first option that offends.  An option for another plugin changes nothing, wherever it stands. -/
theorem configuration_exact (c : Command) :
    (∀ found, c.configuration = .ok found ↔
      (∀ s ∈ c.pluginOptions, ∃ a : PluginArgument, a.SpelledBy s ∧ (a.plugin = pluginId → a.name = outputOption.name)) ∧
        (given c.output c.pluginOptions).length ≤ 1 ∧ found.output = (given c.output c.pluginOptions).head?) ∧
      (∀ e, c.configuration = .error e ↔
        ∃ front s behind, c.pluginOptions = front ++ s :: behind ∧ Offends (given c.output front) s e ∧
          ∀ before t between, front = before ++ t :: between → ∀ e', ¬Offends (given c.output before) t e') ∧
      ∀ front s behind, c.pluginOptions = front ++ s :: behind → IsForeign s →
        c.configuration = { c with pluginOptions := front ++ behind }.configuration := by
  simp only [configuration, ofArguments_eq]
  refine ⟨fun found => foldlM_addArgument_eq_ok_iff, fun e => foldlM_addArgument_eq_error_iff, ?_⟩
  intro front s behind hsplit hs
  rw [hsplit, foldlM_addArgument_of_isForeign hs]

end Command

namespace MarksInValue

/-- An option for another plugin. -/
def foreign : String := "plugin:other.plugin:flag=1"

/-- An option whose value holds both marks that options are cut at. -/
def own : String := "plugin:dev.zacsweers.autoservice:src-gen-dir=c:/out=1"

/-- A command with both options. -/
def command : Command := ⟨.source, false, none, [foreign, own], [], [⟨"src"⟩]⟩

theorem configuration_command :
    Configuration.IsForeign foreign ∧ command.configuration = { command with pluginOptions := [own] }.configuration ∧
      command.configuration = .ok ⟨some ⟨"c:/out=1"⟩⟩ := by
  have hforeign : PluginArgument.SpelledBy ⟨"other.plugin", "flag", "1"⟩ foreign :=
    PluginArgument.parse?_eq_some_iff.mp (by decide)
  have hown : PluginArgument.SpelledBy ⟨pluginId, outputOption.name, "c:/out=1"⟩ own :=
    PluginArgument.parse?_eq_some_iff.mp (by decide)
  have hother : Configuration.IsForeign foreign := ⟨_, hforeign, by decide⟩
  refine ⟨hother, (Command.configuration_exact command).2.2 [] foreign [own] rfl hother, ?_⟩
  refine ((Command.configuration_exact command).1 _).mpr ⟨?_, by decide, by decide⟩
  exact List.forall_mem_cons.mpr ⟨⟨_, hforeign, by decide⟩, List.forall_mem_singleton.mpr ⟨_, hown, fun _ => rfl⟩⟩

end MarksInValue

end ServiceCatalog
