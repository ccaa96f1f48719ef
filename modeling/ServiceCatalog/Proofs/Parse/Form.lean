import Mathlib.Data.List.Forall2
import ServiceCatalog.Parse.Member
import ServiceCatalog.Parse.Type
import ServiceCatalog.Proofs.Token.Spelling

/-!
# Declarations in their written form

A form is what a programmer writes down: a declaration with its annotations, modifiers and supertypes, or a whole
file.  It is a tree of names and nothing else, so that each form can be written: a name is a word that is no
keyword, also one that is a keyword in some places only, and a modifier is one of the words that do not change what
is declared.

    package a.b
    @AutoService(Service::class) private enum class data : Base<in Some, List<*>>, Service {
    companion object {
    }
    }

* `ValueArgumentForm`: an argument of an annotation with a name, a star or a collection of values.
* `FileForm.text`: the text of a file, one declaration a line, each with a body in braces.
* `FileForm.Matches`: whether a file that was read is the one that was written, up to places in the text.
-/

namespace ServiceCatalog

/-! ## Names -/

/-- A name that is written as it is: a word that is no keyword. -/
structure PlainName where
  text : String
  isWord : isWord text.toList = true
  isIdentifier : TokenKind.ofWord text = .identifier

namespace PlainName

/-- The name as a token. -/
def spelling (n : PlainName) : Spelling :=
  ⟨.identifier, n.text.toList, by simp [spells, n.isWord, n.isIdentifier]⟩

@[simp] theorem kind_spelling (n : PlainName) : n.spelling.kind = .identifier := rfl

@[simp] theorem text_spelling (n : PlainName) : n.spelling.text = n.text := String.ofList_toList

end PlainName

/-- Names with dots between them. -/
structure DottedForm where
  first : PlainName
  others : List PlainName

namespace DottedForm

/-- The names. -/
def names (d : DottedForm) : List String := d.first.text :: d.others.map PlainName.text

/-- Names with a dot before each. -/
def spellOthers (names : List PlainName) : List Spelling := names.flatMap fun n => [.mark .dot, n.spelling]

/-- The tokens of the names. -/
def spell (d : DottedForm) : List Spelling := d.first.spelling :: spellOthers d.others

end DottedForm

/-! ## Types -/

mutual

/-- A segment of a type with its own type arguments. -/
structure SegmentForm where
  name : PlainName
  arguments : List TypeArgumentForm

/-- A type argument: anything, or a type, with `in` or `out` before it or neither. -/
inductive TypeArgumentForm where
  | star
  | type (t : TypeForm)
  | inType (t : TypeForm)
  | outType (t : TypeForm)

/-- A named type, outermost segment first. -/
structure NamedForm where
  first : SegmentForm
  others : List SegmentForm

/-- A type: a named type with a number of question marks behind it. -/
structure TypeForm where
  name : NamedForm
  marks : Nat

end

/-- Items in brackets with commas between them; nothing, if there are none. -/
def bracketed (opening closing : Spelling) : List (List Spelling) → List Spelling
  | [] => []
  | item :: items => opening :: (item ++ items.flatMap (Spelling.mark .comma :: ·) ++ [closing])

mutual

/-- The tokens of a segment. -/
def SegmentForm.spell : SegmentForm → List Spelling
  | ⟨name, arguments⟩ => name.spelling :: bracketed (.mark .less) (.mark .greater) (arguments.map fun a => a.spell)

/-- The tokens of a type argument. -/
def TypeArgumentForm.spell : TypeArgumentForm → List Spelling
  | .star => [.mark .star]
  | .type t => t.spell
  | .inType t => .word "in" :: t.spell
  | .outType t => .word "out" :: t.spell

/-- The tokens of a named type. -/
def NamedForm.spell : NamedForm → List Spelling
  | ⟨first, others⟩ => first.spell ++ others.flatMap fun s => .mark .dot :: s.spell

/-- The tokens of a type. -/
def TypeForm.spell : TypeForm → List Spelling
  | ⟨name, marks⟩ => name.spell ++ List.replicate marks (.mark .question)

end

/-- The tokens of a list of type arguments. -/
def TypeArgumentForm.spellAll (arguments : List TypeArgumentForm) : List Spelling :=
  bracketed (.mark .less) (.mark .greater) (arguments.map TypeArgumentForm.spell)

mutual

/-- Whether a segment that was read is the one that was written. -/
inductive SegmentForm.Matches : SegmentForm → TypeSegment → Prop
  | mk {name : PlainName} {arguments : List TypeArgumentForm} {s : TypeSegment} (hname : s.name.name = name.text)
      (harguments : List.Forall₂ TypeArgumentForm.Matches arguments s.arguments) :
      SegmentForm.Matches ⟨name, arguments⟩ s

/-- Whether a type argument that was read is the one that was written, whose variance is not kept. -/
inductive TypeArgumentForm.Matches : TypeArgumentForm → TypeArgument → Prop
  | star {span : Span} : TypeArgumentForm.Matches .star (.star span)
  | type {form : TypeForm} {t : TypeRef} (h : TypeForm.Matches form t) :
      TypeArgumentForm.Matches (.type form) (.type t)
  | inType {form : TypeForm} {t : TypeRef} (h : TypeForm.Matches form t) :
      TypeArgumentForm.Matches (.inType form) (.type t)
  | outType {form : TypeForm} {t : TypeRef} (h : TypeForm.Matches form t) :
      TypeArgumentForm.Matches (.outType form) (.type t)

/-- Whether a named type that was read is the one that was written. -/
inductive NamedForm.Matches : NamedForm → UserType → Prop
  | mk {first : SegmentForm} {others : List SegmentForm} {u : UserType}
      (hsegments : List.Forall₂ SegmentForm.Matches (first :: others) u.segments) :
      NamedForm.Matches ⟨first, others⟩ u

/-- Whether a type that was read is the one that was written: it has no annotations. -/
inductive TypeForm.Matches : TypeForm → TypeRef → Prop
  | mk {name : NamedForm} {marks : Nat} {u : UserType} {text : String} {span : Span}
      (hname : NamedForm.Matches name u) :
      TypeForm.Matches ⟨name, marks⟩ ⟨TokenParser.nullable marks (.user u), [], text, span⟩

end

/-! ## Annotations -/

/-- A class literal; the last segment of its name may have type arguments. -/
structure ClassLiteralForm where
  name : DottedForm
  arguments : List TypeArgumentForm

/-- The tokens of a class literal. -/
def ClassLiteralForm.spell (l : ClassLiteralForm) : List Spelling :=
  l.name.spell ++ TypeArgumentForm.spellAll l.arguments ++ [.mark .colonColon, .word "class"]

/-- Whether the receiver of a class literal that was read is the one that was written: a name, several names with
dots between them, or a type. -/
inductive ClassLiteralForm.IsReceiver : ClassLiteralForm → Expr → Prop
  | name {first : PlainName} {i : Ident} (h : i.name = first.text) : IsReceiver ⟨⟨first, []⟩, []⟩ (.name i)
  | path {first second : PlainName} {others : List PlainName} {p : Path}
      (h : p.names = DottedForm.names ⟨first, second :: others⟩) : IsReceiver ⟨⟨first, second :: others⟩, []⟩ (.path p)
  | type {name : DottedForm} {argument : TypeArgumentForm} {arguments : List TypeArgumentForm} {u : UserType}
      {text : String} {span : Span} (hnames : u.names = name.names) (hqualifier : ∀ s ∈ u.qualifier, s.arguments = [])
      (harguments : List.Forall₂ TypeArgumentForm.Matches (argument :: arguments) u.last.arguments) :
      IsReceiver ⟨name, argument :: arguments⟩ (.type ⟨.user u, [], text, span⟩)

/-- Whether an argument that was read is the class literal that was written. -/
inductive ClassLiteralForm.Matches : ClassLiteralForm → Argument → Prop
  | mk {l : ClassLiteralForm} {receiver : Expr} {span span' : Span} (h : l.IsReceiver receiver) :
      Matches l ⟨none, false, .classLiteral receiver span, span'⟩

/-- An annotation: its name, and class literals as its arguments. -/
structure AnnotationForm where
  name : NamedForm
  arguments : List ClassLiteralForm

/-- The tokens of an annotation behind its mark. -/
def AnnotationForm.spellBody (a : AnnotationForm) : List Spelling :=
  a.name.spell ++ bracketed (.mark .leftParen) (.mark .rightParen) (a.arguments.map ClassLiteralForm.spell)

/-- The tokens of an annotation. -/
def AnnotationForm.spell (a : AnnotationForm) : List Spelling := .mark .at :: a.spellBody

/-- Whether an annotation that was read is the one that was written. -/
inductive AnnotationForm.Matches : AnnotationForm → AnnotationUse → Prop
  | mk {name : NamedForm} {literals : List ClassLiteralForm} {u : UserType} {arguments : List Argument} {text : String}
      {span span' : Span} (hname : name.Matches u)
      (harguments : List.Forall₂ ClassLiteralForm.Matches literals arguments) :
      Matches ⟨name, literals⟩ ⟨none, ⟨.user u, [], text, span⟩, arguments, span'⟩

/-! ## Arguments of any kind -/

/-- Items with commas between them. -/
def commaSeparated : List (List Spelling) → List Spelling
  | [] => []
  | item :: items => item ++ items.flatMap (Spelling.mark .comma :: ·)

/-- The value of an argument: a class literal, or a collection of values. -/
inductive ValueForm where
  | literal (l : ClassLiteralForm)
  | collection (elements : List ValueForm)

/-- The tokens of a value. -/
def ValueForm.spell : ValueForm → List Spelling
  | .literal l => l.spell
  | .collection elements =>
    .mark .leftBracket :: (commaSeparated (elements.map fun v => v.spell) ++ [.mark .rightBracket])

/-- An argument of an annotation, with a name or without, and spread or not. -/
structure ValueArgumentForm where
  name : Option PlainName
  isSpread : Bool
  value : ValueForm

namespace ValueArgumentForm

/-- The tokens of the name. -/
def spellName : Option PlainName → List Spelling
  | none => []
  | some n => [n.spelling, .mark .equal]

/-- The tokens of an argument. -/
def spell (a : ValueArgumentForm) : List Spelling :=
  spellName a.name ++ (if a.isSpread then [.mark .star] else []) ++ a.value.spell

/-- The tokens of a list of arguments. -/
def spellAll (as : List ValueArgumentForm) : List Spelling :=
  .mark .leftParen :: (commaSeparated (as.map spell) ++ [.mark .rightParen])

end ValueArgumentForm

/-! ## Declarations -/

theorem isWord_of_mem_modifiers : ∀ w ∈ modifiers, isWord w.toList = true ∧ TokenKind.ofWord w = .identifier := by
  decide +kernel

/-- A modifier. -/
structure ModifierForm where
  text : String
  mem : text ∈ modifiers

/-- A modifier as a token. -/
def ModifierForm.spelling (m : ModifierForm) : Spelling := .word m.text (isWord_of_mem_modifiers m.text m.mem).1

@[simp] theorem ModifierForm.kind_spelling (m : ModifierForm) : m.spelling.kind = .identifier :=
  (isWord_of_mem_modifiers m.text m.mem).2

@[simp] theorem ModifierForm.text_spelling (m : ModifierForm) : m.spelling.text = m.text := Spelling.text_word ..

/-- The modifiers that go with a keyword and say what kind of class it declares. -/
def kindModifiers : List String := ["enum", "annotation", "companion"]

/-- A modifier that does not change what is declared. -/
structure PlainModifier extends ModifierForm where
  not_mem : text ∉ kindModifiers

/-- What is declared: a class of some kind and its name, or a companion object without one. -/
inductive HeadingForm where
  | named (kind : ClassKind) (name : PlainName)
  | companion

/-- The modifiers that go with the keyword of a kind. -/
def ClassKind.ownModifiers : ClassKind → List ModifierForm
  | enumClass => [⟨"enum", by decide⟩]
  | annotationClass => [⟨"annotation", by decide⟩]
  | companionObject => [⟨"companion", by decide⟩]
  | «class» | interface | object => []

/-- The keyword of a kind, as a token. -/
def ClassKind.spellKeyword : ClassKind → Spelling
  | «class» | enumClass | annotationClass => .word "class"
  | interface => .word "interface"
  | object | companionObject => .word "object"

namespace HeadingForm

/-- The kind of what is declared. -/
def kind : HeadingForm → ClassKind
  | named kind _ => kind
  | companion => .companionObject

/-- The name by which it is known. -/
def knownAs : HeadingForm → String
  | named _ name => name.text
  | companion => "Companion"

/-- The tokens of the name. -/
def spellName : HeadingForm → List Spelling
  | named _ name => [name.spelling]
  | companion => []

end HeadingForm

/-- A declaration with the declarations in its body.  The modifiers that go with its keyword are not among those
before and behind them. -/
structure DeclForm where
  annotations : List AnnotationForm
  before : List PlainModifier
  behind : List PlainModifier
  heading : HeadingForm
  supertypes : List TypeForm
  inner : List DeclForm

/-- The tokens of a list of supertypes. -/
def TypeForm.spellSupertypes : List TypeForm → List Spelling
  | [] => []
  | t :: ts => .mark .colon :: (t.spell ++ ts.flatMap fun t => .mark .comma :: t.spell)

namespace DeclForm

/-- All modifiers in front of the keyword. -/
def allModifiers (before behind : List PlainModifier) (heading : HeadingForm) : List ModifierForm :=
  before.map PlainModifier.toModifierForm ++ heading.kind.ownModifiers ++ behind.map PlainModifier.toModifierForm

/-- The tokens of a declaration from its modifiers to the brace that opens its body. -/
def spellHead (modifiers : List ModifierForm) (heading : HeadingForm) (supertypes : List TypeForm) :
    List Spelling :=
  modifiers.map ModifierForm.spelling ++ heading.kind.spellKeyword ::
    (heading.spellName ++ (TypeForm.spellSupertypes supertypes ++ [.mark .leftBrace]))

/-- The lines of a declaration.  The annotations stand on lines of their own or all on the line of the head. -/
def lines (ownLines : Bool) : DeclForm → List (List Spelling)
  | ⟨annotations, before, behind, heading, supertypes, inner⟩ =>
    let head := spellHead (allModifiers before behind heading) heading supertypes
    (if ownLines then annotations.map AnnotationForm.spell ++ [head]
      else [annotations.flatMap AnnotationForm.spell ++ head]) ++
    inner.flatMap (fun d => d.lines ownLines) ++ [[.mark .rightBrace]]

/-- Whether a class that was read is the declaration that was written. -/
inductive Matches : DeclForm → ClassDecl → Prop
  | mk {annotations : List AnnotationForm} {before behind : List PlainModifier} {heading : HeadingForm}
      {supertypes : List TypeForm} {inner : List DeclForm} {name : Ident} {uses : List AnnotationUse}
      {types : List TypeRef} {classes : List ClassDecl} {span : Span} (hname : name.name = heading.knownAs)
      (hannotations : List.Forall₂ AnnotationForm.Matches annotations uses)
      (hsupertypes : List.Forall₂ TypeForm.Matches supertypes types)
      (hinner : List.Forall₂ Matches inner classes) :
      Matches ⟨annotations, before, behind, heading, supertypes, inner⟩
        ⟨heading.kind, name, uses, types, classes, span⟩

end DeclForm

/-! ## Files -/

/-- An import: of one name, possibly under an alias, or of everything in a package. -/
inductive ImportForm where
  | name (path : DottedForm)
  | renamed (path : DottedForm) (newName : PlainName)
  | all (package : DottedForm)

namespace ImportForm

/-- The dotted name that is imported, or the package. -/
def path : ImportForm → DottedForm
  | name path | renamed path _ | all path => path

/-- The tokens behind the dotted name. -/
def spellEnd : ImportForm → List Spelling
  | name _ => []
  | renamed _ newName => [.word "as", newName.spelling]
  | all _ => [.mark .dot, .mark .star]

/-- The tokens of an import. -/
def spell (i : ImportForm) : List Spelling := .word "import" :: (i.path.spell ++ i.spellEnd)

/-- Whether an import that was read is the one that was written. -/
inductive Matches : ImportForm → Import → Prop
  | name {form : DottedForm} {path : Path} {span : Span} (h : path.names = form.names) :
      Matches (.name form) ⟨path, false, none, span⟩
  | renamed {form : DottedForm} {newName : PlainName} {path : Path} {i : Ident} {span : Span}
      (h : path.names = form.names) (hname : i.name = newName.text) :
      Matches (.renamed form newName) ⟨path, false, some i, span⟩
  | all {form : DottedForm} {path : Path} {span : Span} (h : path.names = form.names) :
      Matches (.all form) ⟨path, true, none, span⟩

end ImportForm

/-- A file: its package, its imports and its declarations. -/
structure FileForm where
  package : Option DottedForm
  imports : List ImportForm
  declarations : List DeclForm

/-- The tokens of a line, of which the first begins it. -/
def onLine : List Spelling → List (Bool × Spelling)
  | [] => []
  | s :: ss => (true, s) :: ss.map (false, ·)

namespace FileForm

/-- The lines of a file. -/
def lines (ownLines : Bool) (f : FileForm) : List (List Spelling) :=
  f.package.toList.map (fun p => .word "package" :: p.spell) ++ f.imports.map ImportForm.spell ++
    f.declarations.flatMap (DeclForm.lines ownLines)

/-- The text of a file. -/
def text (ownLines : Bool) (f : FileForm) : String := String.ofList (written ((f.lines ownLines).flatMap onLine))

/-- Whether a file that was read is the one that was written, with nothing else in it. -/
structure Matches (form : FileForm) (f : SourceFile) : Prop where
  package : f.package.map Path.names = form.package.map DottedForm.names
  imports : List.Forall₂ ImportForm.Matches form.imports f.imports
  declarations : List.Forall₂ DeclForm.Matches form.declarations f.declarations
  fileAnnotations : f.fileAnnotations = []
  typeAliases : f.typeAliases = []

end FileForm

end ServiceCatalog
