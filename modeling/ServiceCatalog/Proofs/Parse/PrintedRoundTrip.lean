import ServiceCatalog.Parse.Declaration
import ServiceCatalog.Proofs.Parse.PrintedForm
import ServiceCatalog.Proofs.Parse.WrittenTypes

/-!
# Printed types and arguments are read back

A type, or the arguments of an annotation, printed as a text of its own: all of the text is read, what is read has
the structure that was printed, and the text that is kept of it is the printed form again.

* `reads_printed`: a parser that reads the tokens of a form reads all of its printed form.
* `type_value_roundTrip`: types and arguments.
-/

namespace ServiceCatalog

/-- At the beginning of a printed text, its tokens are to come, and there are no errors. -/
theorem Prints.ofSource {ss : List Spelling} {text : String} {l : Option TokenKind} (h : Prints none ss text l) :
    (Parser.ofSource text).cursor.At ss ∧ (Parser.ofSource text).errors = [] := by
  obtain ⟨ts, e, hlexemes, hread, heof⟩ := h.lexemes_eq
  have hsource : Parser.ofSource text = ⟨⟨none, ts, e⟩, []⟩ := by
    rw [Parser.ofSource, hlexemes]
    simp [Cursor.ofLexemes, List.filterMap_append, List.filterMap_map, Function.comp_def, Lexeme.token?, Lexeme.error?]
  have hstands : List.Forall₂ Spelling.Stands ss ts :=
    hread.imp fun s t ⟨hkind, hlexeme, hline⟩ => ⟨hkind, hlexeme, fun _ => hline⟩
  rw [hsource]
  exact ⟨⟨hstands, heof⟩, rfl⟩

namespace TokenParser

/-- A parser that reads the tokens of a text reads all of the text. -/
theorem reads_printed {α : Type} {P : α → Prop} {parser : TokenParser α} {ss : List Spelling} {text : String}
    {l : Option TokenKind} (hprints : Prints none ss text l) (hreads : Reads parser (ss ++ []) [] P) :
    (Parser.ofSource text).errors = [] ∧
      ∃ a c, parser (Parser.ofSource text).cursor = .ok a c ∧ c.rest = [] ∧ P a := by
  obtain ⟨hat, herrors⟩ := hprints.ofSource
  rw [List.append_nil] at hreads
  obtain ⟨a, c, hok, hc, ha⟩ := hreads _ hat
  exact ⟨herrors, a, c, hok, List.forall₂_nil_left_iff.mp hc.rest, ha⟩

/-- **Round trip.**  Of a type that was printed, all is read, and what is read is the type, with the printed form as
its text.  Of arguments that were printed, all is read, and what is read is the arguments, and each has its printed
form as its text, unless a class literal with `in` or `out` in front of a type argument is part of it: that word is
not kept. -/
theorem type_value_roundTrip :
    (∀ t : TypeForm, (Parser.ofSource t.print).errors = [] ∧
      ∃ r c, type (Parser.ofSource t.print).cursor = .ok r c ∧ c.rest = [] ∧ t.Matches r ∧ r.text = t.print) ∧
    ∀ as : List ValueArgumentForm, (Parser.ofSource (ValueArgumentForm.printAll as)).errors = [] ∧
      ∃ xs c, valueArguments (Parser.ofSource (ValueArgumentForm.printAll as)).cursor = .ok xs c ∧ c.rest = [] ∧
        List.Forall₂ (fun a x => a.Matches x ∧ (a.value.Invariant → x.value.text = a.value.print)) as xs := by
  constructor
  · intro t
    obtain ⟨l, hprints, -⟩ := t.prints (k := none) rfl
    rw [show gapBetween none .identifier = "" from rfl, String.empty_append] at hprints
    have hends : headKind [] ∈ [TokenKind.comma, .greater, .leftBrace, .eof] := by decide
    obtain ⟨herrors, r, c, hok, hc, ht⟩ := reads_printed hprints (reads_type t hends)
    exact ⟨herrors, r, c, hok, hc, ht.isMatch, ht.text_eq⟩
  · intro as
    obtain ⟨herrors, xs, c, hok, hc, hxs⟩ := reads_printed (ValueArgumentForm.prints_all as) (reads_valueArguments as)
    refine ⟨herrors, xs, c, hok, hc, hxs.imp fun a x h => ⟨h, fun hinvariant => ?_⟩⟩
    rw [h.value.text_eq, hinvariant.keptText_eq_print]

end TokenParser

end ServiceCatalog
