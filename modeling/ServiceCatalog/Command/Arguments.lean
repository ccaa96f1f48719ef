import ServiceCatalog.Command.Options

/-!
# Command lines

What a command line asks for.  Reading one has two steps: `Setting.readAll?` reads the arguments one by one
as settings, and `Command.ofSettings?` collects these, refusing a second value for what can have one only.

Flags with a value take it from behind an equals sign or from the next argument, which must not look like a
flag; the short ones also from the rest of their own argument, with or without an equals sign.  Short flags
without a value can be run together.  Behind `--` every argument is an input.
-/

namespace ServiceCatalog

/-- What the inputs of a run are. -/
inductive Mode where
  | source
  | binary
  deriving DecidableEq, Repr

/-- The mode as command lines name it. -/
def Mode.text : Mode → String
  | source => "source"
  | binary => "binary"

/-- The mode with a given name. -/
def Mode.ofText? (s : String) : Option Mode := [source, binary].find? fun m => m.text = s

/-- One thing that a command line says. -/
inductive Setting where
  | output (p : FilePath)
  | pluginOption (text : String)
  | classPath (p : FilePath)
  | mode (m : Mode)
  | verbose
  | input (p : FilePath)
  deriving DecidableEq, Repr

/-- A flag that takes a value. -/
inductive ValueFlag where
  | output
  | pluginOption
  | classPath
  | mode
  deriving DecidableEq, Repr

/-- A path that an argument gives; the empty text is none. -/
def pathArgument? (s : String) : Option FilePath := if s = "" then none else some ⟨s⟩

/-- The setting of an argument that is an input. -/
def Setting.input? (s : String) : Option Setting := (pathArgument? s).map .input

namespace ValueFlag

/-- The flag with a given long name. -/
def ofName? (s : String) : Option ValueFlag :=
  [("src-gen-dir", output), ("plugin-option", pluginOption), ("classpath", classPath),
    ("mode", mode)].lookup s

/-- The setting that a flag and its value make. -/
def setting? (flag : ValueFlag) (value : String) : Option Setting :=
  match flag with
  | output => (pathArgument? value).map .output
  | pluginOption => some (.pluginOption value)
  | classPath => (pathArgument? value).map .classPath
  | mode => (Mode.ofText? value).map .mode

end ValueFlag

/-! ## Single arguments -/

/-- What an argument is by its form. -/
inductive ArgumentForm where
  /-- The mark behind which all arguments are inputs. -/
  | separator
  /-- An argument that is not a flag. -/
  | plain
  /-- Flags, of which the last may still want its value. -/
  | flags (found : List Setting) (open? : Option ValueFlag)
  /-- An argument that no command line can have. -/
  | refused
  deriving DecidableEq, Repr

namespace ArgumentForm

/-- The form of a long flag, given behind its dashes. -/
def ofLong (s : String) : ArgumentForm :=
  match Text.cutFirst '=' s with
  | none =>
    if s = "verbose" then flags [.verbose] none
    else match ValueFlag.ofName? s with
      | some flag => flags [] (some flag)
      | none => refused
  | some (name, value) =>
    match (ValueFlag.ofName? name).bind (·.setting? value) with
    | some setting => flags [setting] none
    | none => refused

/-- The form of short flags, given behind their dash. -/
def ofShort : List Char → ArgumentForm
  | [] => flags [] none
  | 'v' :: cs =>
    match ofShort cs with
    | flags found open? => flags (.verbose :: found) open?
    | form => form
  | ['P'] => flags [] (some .pluginOption)
  | 'P' :: '=' :: cs => flags [.pluginOption (String.ofList cs)] none
  | 'P' :: cs => flags [.pluginOption (String.ofList cs)] none
  | _ => refused

/-- The form of an argument.  A single dash is no flag. -/
def of (s : String) : ArgumentForm :=
  match s.toList with
  | ['-', '-'] => separator
  | '-' :: '-' :: cs => ofLong (String.ofList cs)
  | ['-'] => plain
  | '-' :: cs => ofShort cs
  | _ => plain

end ArgumentForm

/-! ## All arguments -/

namespace Setting

/-- The settings of arguments, the first of which may be the value of a flag in front of them. -/
def readFrom? : Option ValueFlag → List String → Option (List Setting)
  | none, [] => some []
  | some _, [] => none
  | none, s :: rest =>
    match ArgumentForm.of s with
    | .separator => rest.mapM input?
    | .plain => do return (← input? s) :: (← readFrom? none rest)
    | .flags found open? => do return found ++ (← readFrom? open? rest)
    | .refused => none
  | some flag, s :: rest =>
    match ArgumentForm.of s with
    | .plain => do return (← flag.setting? s) :: (← readFrom? none rest)
    | _ => none

/-- The settings of the arguments of a command line. -/
def readAll? (arguments : List String) : Option (List Setting) := readFrom? none arguments

end Setting

/-- What a command line asks for. -/
structure Command where
  mode : Mode
  verbose : Bool
  output : Option FilePath
  pluginOptions : List String
  classPath : List FilePath
  inputs : List FilePath
  deriving DecidableEq, Repr

namespace Command

/-- The only element of a list, or none; two are refused. -/
def atMostOne? {α : Type} : List α → Option (Option α)
  | [] => some none
  | [a] => some (some a)
  | _ => none

/-- The command that settings make.  There must be an input. -/
def ofSettings? (settings : List Setting) : Option Command := do
  let modes := settings.filterMap fun | .mode m => some m | _ => none
  let outputs := settings.filterMap fun | .output p => some p | _ => none
  let verbose := settings.filter (· = .verbose)
  let pluginOptions := settings.filterMap fun | .pluginOption s => some s | _ => none
  let classPath := settings.filterMap fun | .classPath p => some p | _ => none
  let inputs := settings.filterMap fun | .input p => some p | _ => none
  let mode ← atMostOne? modes
  let output ← atMostOne? outputs
  let verbose ← atMostOne? verbose
  if inputs.isEmpty then none
  else some ⟨mode.getD .source, verbose.isSome, output, pluginOptions, classPath, inputs⟩

/-- The command of the arguments of a command line, if it can be understood. -/
def parse? (arguments : List String) : Option Command :=
  (Setting.readAll? arguments).bind ofSettings?

/-- The option values that a command gives. -/
def configuration (c : Command) : Except OptionError Configuration :=
  Configuration.ofArguments c.output c.pluginOptions

/-- The directory that a command writes manifests to. -/
def outputDirectory (c : Command) : Except OptionError FilePath := do
  (← c.configuration).outputDirectory

end Command

end ServiceCatalog
