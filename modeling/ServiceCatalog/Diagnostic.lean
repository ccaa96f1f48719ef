import ServiceCatalog.Parse.Error

/-!
# Diagnostics

What the phases before the analysis reported, in order.  A run looks at one thing only, whether any entry
is an error: then an earlier phase has failed already, and no manifest is written.
-/

namespace ServiceCatalog

/-- How serious a diagnostic is. -/
inductive Severity where
  | info
  | warning
  | error
  deriving DecidableEq, Repr, Inhabited

/-- The severity as messages name it. -/
def Severity.text : Severity → String
  | info => "info"
  | warning => "warning"
  | error => "error"

/-- A message, with the file and the place it is about where they are known. -/
structure Diagnostic where
  severity : Severity
  message : String
  file : Option String := none
  span : Option Span := none
  deriving DecidableEq, Repr

namespace Diagnostic

/-- The parts of the place that are known. -/
def place : Option String → Option Span → String
  | some file, some span => file ++ ":" ++ span.text ++ ": "
  | some file, none => file ++ ": "
  | none, some span => span.text ++ ": "
  | none, none => ""

/-- The diagnostic on one line. -/
def text (d : Diagnostic) : String := place d.file d.span ++ d.severity.text ++ ": " ++ d.message

/-- The diagnostic for a parse error of a file. -/
def ofParseError (file : String) (e : ParseError) : Diagnostic :=
  ⟨.error, e.fault.text ++ ": " ++ e.message, some file, some e.span⟩

end Diagnostic

/-- Diagnostics in the order of their reports. -/
structure Diagnostics where
  entries : List Diagnostic
  deriving DecidableEq, Repr

namespace Diagnostics

/-- No diagnostics. -/
def empty : Diagnostics := ⟨[]⟩

instance : Inhabited Diagnostics := ⟨empty⟩

/-- One more diagnostic. -/
def push (ds : Diagnostics) (d : Diagnostic) : Diagnostics := ⟨ds.entries ++ [d]⟩

/-- A diagnostic for every parse error of a file. -/
def pushParseErrors (ds : Diagnostics) (file : String) (errors : List ParseError) : Diagnostics :=
  ⟨ds.entries ++ errors.map (Diagnostic.ofParseError file)⟩

/-- The number of diagnostics. -/
def size (ds : Diagnostics) : Nat := ds.entries.length

/-- The number of errors among them. -/
def errorCount (ds : Diagnostics) : Nat := ds.entries.countP (·.severity = .error)

/-- Whether an error is among them. -/
def hasErrors (ds : Diagnostics) : Bool := ds.entries.any (·.severity = .error)

/-- The diagnostics one a line. -/
def text (ds : Diagnostics) : String := Text.joined '\n' (ds.entries.map Diagnostic.text)

/-- There are errors exactly when their number is not zero. -/
theorem hasErrors_iff (ds : Diagnostics) : ds.hasErrors = true ↔ 0 < ds.errorCount := by
  simp [hasErrors, errorCount, List.countP_pos_iff]

end Diagnostics

end ServiceCatalog
