import ServiceCatalog.Proofs.Parse.Members
import ServiceCatalog.Proofs.Token.Lossless

/-!
# The parser ends on every source

The text of a file is cut into lexemes first, which is a loop of its own (`TextReader.loop_lexemes`).  The parser of
the tokens has loops and two recursions: types and values contain each other, and members contain members.  Nothing
else in it repeats.  So it ends where these do, and they do at every place of every file, be the file well formed or
not: `TokenParser.EndsAt` and `Parser.EndsAt` list them.

* A loop ends with what the parser answers for it, and each of its turns passes a token, stops or fails (`Loop`).
* A recursion is as deep as there are tokens to come at most: what would be read deeper inside does not matter.
* A construct that is given up is left no earlier than where it began, and so a turn that goes back inside it has
  still passed its token.
-/

namespace ServiceCatalog

namespace TextReader

/-- One turn of the reading of all lexemes of a text. -/
def lexemesTurn : TextReader × List Lexeme → (TextReader × List Lexeme) ⊕ List Lexeme
  | (r, found) =>
    if r.next.1.asToken.kind = .eof then .inr (found ++ [r.next.1]) else .inl (r.next.2, found ++ [r.next.1])

theorem length_rest_passHeader_le (r : TextReader) : r.passHeader.rest.length ≤ r.rest.length := by
  unfold passHeader
  split
  · exact (List.drop_sublist ..).length_le
  · exact Nat.le_refl _

theorem loop_lexemes (r : TextReader) (found : List Lexeme) :
    Loop (fun s => s.1.rest.length) lexemesTurn (r, found)
      (found ++ lexemesFrom r.passHeader.place r.passHeader.rest) := by
  induction hn : r.rest.length using Nat.strongRecOn generalizing r found with
  | _ n ih =>
    rcases r.passHeader.lexemesFrom_take with ⟨hlast, hend⟩ | ⟨hothers, hmore, hoffset, hshorter⟩
    · exact .stop (by rw [lexemesTurn, next, if_pos hend, hlast])
    · have hless : r.next.2.rest.length < r.rest.length := Nat.lt_of_lt_of_le hshorter r.length_rest_passHeader_le
      have hbehind : r.next.2.passHeader = r.next.2 := passHeader_of_offset_pos (Nat.lt_of_le_of_lt (Nat.zero_le _) hoffset)
      refine .again (t := (r.next.2, found ++ [r.next.1])) (by rw [lexemesTurn, next, if_neg hmore]) hless ?_
      have hrest := ih _ (hn ▸ hless) r.next.2 (found ++ [r.next.1]) rfl
      rw [hbehind, List.append_assoc] at hrest
      rw [hothers]
      exact hrest

end TextReader

namespace TokenParser

open Cursor

/-- Whether the loops of token parsers, and the recursion of types and values, end where they begin at a cursor. -/
structure EndsAt (c : Cursor) : Prop where
  types : ∀ deeper n, c.size < n → (knot deeper n).1 c = type c
  values : ∀ deeper n, c.size < n → (knot deeper n).2 c = value c
  groups : ∀ due, Loop (fun s => s.2.size) groupTurn (due, c) (closeGroups due c)
  angles : ∀ opening depth,
    Loop (fun s => s.2.size) (anglesTurn opening) (depth, c) (closeAngles opening depth c)
  clauses : ∀ ends : Cursor → Bool, ManyEnds (fun c => !c.isAtEnd && !ends c) skipOne c
  passedMembers : ∀ first, Loop (fun s => s.1.2.size) skipMemberTurn ((first, c), []) (skipMemberFrom first c)
  segments : ∀ start, ManyEnds isAtDotIdentifier (do let _ ← next; typeSegment type start) c
  typeArguments : ManyEnds (·.isAt .comma) (do let _ ← next; typeArgument type) c
  questionMarks : ManyEnds (·.isAt .question) next c
  typeAnnotations : ManyEnds (·.isAt .at) (annotationWith type value) c
  annotations : ManyEnds (·.isAt .at) (annotationGroup type value) c
  bracketed : ∀ mark, ManyEnds (fun c => !c.isAt .rightBracket) (annotationBody type value mark none) c
  arguments : ManyEnds (fun c => c.isAt .comma && c.secondKind != .rightParen) (do let _ ← next; argument value) c
  elements : ManyEnds (fun c => c.isAt .comma && c.secondKind != .rightBracket) (do let _ ← next; value) c
  names : ManyEnds isAtDotIdentifier dotIdentifier c
  importedNames : ManyEnds (fun c => c.isAt .dot && c.secondKind != .star) dotIdentifier c
  preambles : ManyEnds (fun c => c.isAt .at || isAtModifier c) preambleItem c
  constructorModifiers : ManyEnds isAtConstructorModifier skipConstructorModifier c
  supertypes : ManyEnds (·.isAt .comma) (do let _ ← next; supertype) c
  typeGoesOn : c.Precedes (stop (type c))
  valueGoesOn : c.Precedes (stop (value c))
  constructorGoesOn : c.Precedes (stop (skipConstructor c))

/-- A loop that reads an item behind each mark ends. -/
theorem manyEnds_behind_mark {α : Type} {t : Cursor → Bool} {k : TokenKind} {item : TokenParser α} {c : Cursor}
    (hc : c.Sound) (hk : k ≠ .eof) (ht : ∀ c, t c = true → c.isAt k = true) (hitem : ∀ n, Forward n item) :
    ManyEnds t (do let _ ← next; item) c :=
  loop_manyWhile (fun n => .bind .next fun _ => hitem n) (consumes_behind_mark hk ht hitem) hc

theorem endsAt {c : Cursor} (hc : c.Sound) : EndsAt c where
  types deeper n hless := ((knot_alike deeper n).1 c hc hless).1
  values deeper n hless := ((knot_alike deeper n).2 c hc hless).1
  groups := loop_closeGroups hc
  angles := loop_closeAngles hc
  clauses ends := by
    refine loop_manyWhile forward_skipOne (fun c hc h a c' hok => size_skipOne_lt hc (fun hkind => ?_) hok) hc
    simp [isAtEnd, isAt, hkind] at h
  passedMembers first := loop_skipMemberFrom hc first []
  segments start := manyEnds_behind_mark (k := .dot) hc nofun (fun _ => kind_of_isAtDotIdentifier) fun n =>
    (strict_typeSegment (forward_type n) start).fewer
  typeArguments := manyEnds_behind_mark (k := .comma) hc nofun (fun _ h => h) fun n => alike_typeArgument (forward_type n)
  questionMarks := loop_manyWhile (fun _ => .next) (.next fun c h => ne_eof_of_isAt (k := .question) h nofun) hc
  typeAnnotations :=
    have hstrict := fun n => strict_annotationWith (forward_type n) (forward_value n)
    loop_manyWhile (fun n => (hstrict n).fewer) (.of_strict hstrict) hc
  annotations := loop_manyWhile forward_annotationGroup consumes_annotationGroup hc
  bracketed mark :=
    have hstrict := fun n => strict_annotationBody (forward_type n) (forward_value n) mark none
    loop_manyWhile (fun n => (hstrict n).fewer) (.of_strict hstrict) hc
  arguments := manyEnds_behind_mark (k := .comma) hc nofun (fun _ h => (Bool.and_eq_true _ _ ▸ h).1) fun n =>
    alike_argument (forward_value n)
  elements :=
    manyEnds_behind_mark (k := .comma) hc nofun (fun _ h => (Bool.and_eq_true _ _ ▸ h).1) forward_value
  names := manyEnds_behind_mark (k := .dot) hc nofun (fun _ => kind_of_isAtDotIdentifier) fun _ => .identifier
  importedNames :=
    manyEnds_behind_mark (k := .dot) hc nofun (fun _ h => (Bool.and_eq_true _ _ ▸ h).1) fun _ => .identifier
  preambles := loop_manyWhile forward_preambleItem consumes_preambleItem hc
  constructorModifiers := loop_manyWhile forward_skipConstructorModifier consumes_skipConstructorModifier hc
  supertypes := manyEnds_behind_mark (k := .comma) hc nofun (fun _ h => h) forward_supertype
  typeGoesOn := precedes_stop forward_type hc
  valueGoesOn := precedes_stop forward_value hc
  constructorGoesOn := precedes_stop forward_skipConstructor hc

end TokenParser

namespace Parser

open TokenParser (annotationUse importHeader)

/-- Whether all loops and recursions of the parser end where they begin at a place, with the errors recorded so
far. -/
structure EndsAt (p : Parser) : Prop where
  tokens : TokenParser.EndsAt p.cursor
  fileAnnotations : Loop (fun s => s.1.cursor.size) (headersTurn isAtFileAnnotation annotationUse) (p, [])
    (headers isAtFileAnnotation annotationUse p)
  imports : Loop (fun s => s.1.cursor.size) (headersTurn (·.isAt .import) importHeader) (p, [])
    (headers (·.isAt .import) importHeader p)
  members : ∀ inBody, Loop (fun s => s.1.cursor.size) (membersTurn inBody) (p, []) (members inBody p)
  bodies : ∀ deeper n inBody, p.cursor.size < n → membersAt deeper n inBody p = Parser.members inBody p

/-- An annotation of the file begins with its mark. -/
theorem passed_fileAnnotation (c : Cursor) (hc : c.Sound) (h : isAtFileAnnotation c = true) :
    (TokenParser.stop (annotationUse c)).size < c.size := by
  simp only [ isAtFileAnnotation, Bool.and_eq_true] at h
  exact TokenParser.size_stop_annotationUse_lt hc (Cursor.isAt_iff.mp h.1.1)

/-- An import begins with its keyword. -/
theorem passed_import (c : Cursor) (hc : c.Sound) (h : c.isAt .import = true) :
    (TokenParser.stop (importHeader c)).size < c.size :=
  TokenParser.size_stop_importHeader_lt hc (Cursor.isAt_iff.mp h)

theorem endsAt {p : Parser} (hp : p.cursor.Sound) : EndsAt p where
  tokens := TokenParser.endsAt hp
  fileAnnotations := loop_headers TokenParser.forward_annotationUse passed_fileAnnotation hp []
  imports := loop_headers TokenParser.forward_importHeader passed_import hp []
  members inBody := loop_members inBody hp []
  bodies deeper _ _ := membersAt_eq deeper hp

theorem precedes_package? {p : Parser} (hp : p.cursor.Sound) : p.cursor.Precedes p.package?.2.cursor := by
  have hmoves := TokenParser.precedes_stop TokenParser.forward_packageHeader hp
  unfold package?
  split
  · unfold reading
    cases hread : TokenParser.packageHeader p.cursor with
    | ok path c =>
      rw [hread] at hmoves
      exact hmoves
    | error e c =>
      rw [hread] at hmoves
      exact hmoves.trans (precedes_passMember (record ⟨c, p.errors⟩ e))
  · exact .refl

/-- A file is read to its end. -/
theorem isAtEnd_file {p : Parser} (hp : p.cursor.Sound) (name : String) : (p.file name).2.cursor.isAtEnd = true := by
  let p₁ := (headers isAtFileAnnotation annotationUse p).2
  let p₂ := p₁.package?.2
  let p₃ := (headers (·.isAt .import) importHeader p₂).2
  have h₁ : p.cursor.Precedes p₁.cursor := precedes_headers TokenParser.forward_annotationUse passed_fileAnnotation hp
  have hp₁ := h₁.sound hp
  have hp₂ := (precedes_package? hp₁).sound hp₁
  have h₃ : p₂.cursor.Precedes p₃.cursor := precedes_headers TokenParser.forward_importHeader passed_import hp₂
  have hends : (members false p₃).2.cursor.isAtEnd = true := by
    simpa [endsMembers] using endsMembers_members false (h₃.sound hp₂)
  exact hends

/-- For every text, its lexemes end and the parser reads them to the end of the file, and all that repeats in the parser
ends at every place of the file. -/
theorem ends_ofSource (source : String) :
    Loop (fun s => s.1.rest.length) TextReader.lexemesTurn (.start source, []) (lexemes source) ∧
      (∀ name, ((ofSource source).file name).2.cursor.isAtEnd = true) ∧
      ∀ place errors, EndsAt ⟨(ofSource source).cursor.skip place, errors⟩ := by
  have hsound := (ofSource_cursor source).1
  refine ⟨TextReader.loop_lexemes _ [], isAtEnd_file hsound, fun place _ => ?_⟩
  exact endsAt ((Cursor.Precedes.skip place).sound hsound)

end Parser

end ServiceCatalog
