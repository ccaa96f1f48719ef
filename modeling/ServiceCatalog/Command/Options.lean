import ServiceCatalog.Files.Path

/-!
# Options

The directory that manifests are written to is an option of a compiler plugin: it arrives as a name with a
value, among options for other plugins.  It has to be given once, neither never nor twice, and no other
option is known.

* `PluginArgument.parse?`: the form `plugin:<id>:<name>=<value>` of an option on a command line.
* `Configuration.set`, `Configuration.outputDirectory`: collecting option values, and what they come to.
-/

namespace ServiceCatalog

/-- What is wrong with options. -/
inductive OptionError where
  | unknown (name : String)
  | missing (name : String)
  | repeated (name : String)
  /-- An option that does not have the form of one. -/
  | malformed (text : String)
  deriving DecidableEq, Repr

/-- The name of the plugin. -/
def pluginId : String := "dev.zacsweers.autoservice"

/-- The message of the error. -/
def OptionError.message : OptionError → String
  | unknown name => "unknown option '" ++ name ++ "' for plugin " ++ pluginId
  | missing name => "required option '" ++ name ++ "' is missing"
  | repeated name => "option '" ++ name ++ "' may only be given once"
  | malformed text =>
    "malformed plugin option '" ++ text ++ "', expected plugin:<id>:<name>=<value>"

/-- What a user is told about an option. -/
structure OptionDescription where
  name : String
  valueDescription : String
  description : String
  isRequired : Bool
  allowsRepetition : Bool
  deriving DecidableEq, Repr

/-- The option with the directory that manifests are written to. -/
def outputOption : OptionDescription :=
  ⟨"src-gen-dir", "<file-path>", "Path to directory service files should be generated into", true, false⟩

/-! ## Collecting values -/

/-- The option values so far. -/
structure Configuration where
  output : Option FilePath
  deriving DecidableEq, Repr

namespace Configuration

/-- The configuration without values. -/
def empty : Configuration := ⟨none⟩

/-- The configuration with one more option value. -/
def set (c : Configuration) (name value : String) : Except OptionError Configuration :=
  if name ≠ outputOption.name then .error (.unknown name)
  else if c.output.isSome then .error (.repeated name)
  else .ok ⟨some ⟨value⟩⟩

/-- The directory that manifests are written to. -/
def outputDirectory (c : Configuration) : Except OptionError FilePath :=
  match c.output with
  | some p => .ok p
  | none => .error (.missing outputOption.name)

end Configuration

/-- The directory below a build directory that build tools use for a compilation. -/
def defaultOutput (build : FilePath) (compilation : String) : FilePath :=
  ((build.join "generated").join "autoService").join ("src-gen-" ++ compilation)

/-! ## Options on a command line -/

/-- An option for some plugin. -/
structure PluginArgument where
  plugin : String
  name : String
  value : String
  deriving DecidableEq, Repr

namespace PluginArgument

/-- The option that a text of the form `plugin:<id>:<name>=<value>` stands for.  The value is everything
behind the first equals sign after the plugin, and neither the plugin nor the name may be empty. -/
def parse? (s : String) : Option PluginArgument := do
  let (plugin, option) ← Text.cutFirst ':' (← Text.dropStart? "plugin:" s)
  let (name, value) ← Text.cutFirst '=' option
  if plugin = "" ∨ name = "" then none else some ⟨plugin, name, value⟩

end PluginArgument

namespace Configuration

/-- The configuration with an option that may be for another plugin. -/
def addArgument (c : Configuration) (text : String) : Except OptionError Configuration :=
  match PluginArgument.parse? text with
  | none => .error (.malformed text)
  | some a => if a.plugin = pluginId then c.set a.name a.value else .ok c

/-- The configuration of an output directory that was given by itself and of options for plugins. -/
def ofArguments (output : Option FilePath) (options : List String) : Except OptionError Configuration := do
  let c ← match output with
    | some p => empty.set outputOption.name p.text
    | none => pure empty
  options.foldlM addArgument c

end Configuration

end ServiceCatalog
