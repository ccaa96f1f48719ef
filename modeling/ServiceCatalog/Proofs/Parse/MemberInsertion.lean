import ServiceCatalog.Proofs.Parse.DeclarationPlaces
import ServiceCatalog.Proofs.Parse.SkippedMember
import ServiceCatalog.Proofs.Token.LineInsertion

/-!
# A function or a property in a source text

A function or a property has no mark at its end: the parser passes it up to where something begins that looks like a
member.  So it must neither be taken in by the member in front of it nor take in the one behind it.  Where its text is
inserted in lines of its own in front of a class, a type alias or the end of a body, this is so, whatever stands in its
brackets (`SourceFile.parse_insert`), with one exception: a member does not begin behind a dot or two colons, where a
keyword is read as the selector that is missing there (`InsertedFunction.not_forall_parse_insert`).

* `IsMemberText`, `LinePlace`, `SourceFile.Admits`: what is inserted, into which line, and at which places of a file.
* `Parser.exists_file_of_inserted`: the tokens of the text with the lines inserted are read as the same file.
-/

namespace ServiceCatalog

open TokenParser

/-- The tokens of a piece of a text, without the end. -/
def pieceTokens (text : String) : List Token := ((lexemesFrom .start text.toList).filterMap Lexeme.token?).dropLast

/-- Whether a text is that of a function or a property. -/
structure IsMemberText (text : String) : Prop where
  valid : ∀ x ∈ lexemesFrom .start text.toList, x.error? = none
  member : IsMember (pieceTokens text)

/-- Whether members may be inserted at a place of a file: a class or a type alias of it begins there, or a body ends.
The tree does not tell where a body ends, nor where a type alias begins in one. -/
inductive SourceFile.Admits (f : SourceFile) (source : String) : Position → Prop
  | class {d : ClassDecl} (hd : d ∈ f.allDeclarations) : f.Admits source d.span.start
  | typeAlias {a : TypeAlias} (ha : a ∈ f.typeAliases) : f.Admits source a.span.start
  | inBody {q : Cursor} (hplace : (Parser.ofSource source).HasBoundary q) : f.Admits source q.peek.span.start

/-- The last token in front of a place. -/
def tokenBefore? (source : String) (p : Position) : Option Token :=
  ((tokensOf source).takeWhile fun t => t.span.start ≠ p).getLast?

theorem SourceFile.Admits.exists_hasBoundary {name source : String} {f : SourceFile} {p : Position}
    (h : f.Admits source p) (hparse : SourceFile.parse name source = .ok f) :
    ∃ q, (Parser.ofSource source).HasBoundary q ∧ q.peek.span.start = p := by
  cases h with
  | «class» hd => exact SourceFile.exists_hasBoundary_of_class hparse hd
  | typeAlias ha => exact SourceFile.exists_hasBoundary_of_typeAlias hparse ha
  | inBody hplace => exact ⟨_, hplace, rfl⟩

/-- A class or a type alias begins at a place between members, or a body ends. -/
theorem Boundary.begins {q c k : Cursor} {ms : List Member} (h : Boundary q c ms k) : q.IsAtKept ∨ q.kind = .rightBrace := by
  induction h with
  | front _ hkept => exact .inl hkept
  | back _ hclose => exact .inr hclose
  | inside _ _ _ _ _ _ ih => exact ih

/-- The tokens in front of one of them. -/
theorem takeWhile_start_ne {front us : List Token} {t : Token}
    (h : (front ++ t :: us).Pairwise fun t u => t.span.start.Before u.span.start) :
    ((front ++ t :: us).takeWhile fun u => u.span.start ≠ t.span.start) = front := by
  have hfront : ∀ u ∈ front, decide (u.span.start ≠ t.span.start) = true := fun u hu => by
    have hbefore := (List.pairwise_append.mp h).2.2 u hu t List.mem_cons_self
    exact decide_eq_true fun heq => Position.Before.irrefl _ (heq ▸ hbefore)
  rw [List.takeWhile_append_of_pos hfront, List.takeWhile_cons_of_neg (by simp), List.append_nil]

/-- Where the tokens of a function or a property are inserted in front of a class, a type alias or the end of a body in
a file that is read, the file is read as the same file apart from places. -/
theorem Parser.exists_file_of_inserted {name : String} {p : Parser} {q c' : Cursor} {front member us us' : List Token}
    {t t' : Token} (hp : p.cursor.Sound) (hc' : c'.Sound) (herrors : (p.file name).2.errors = []) (hplace : p.HasBoundary q)
    (hmoves : p.cursor.Precedes q) (hselector : q.isAfterSelector = false) (hmember : IsMember member)
    (hlexeme : ∀ u ∈ member.head?, u.lexeme ≠ "file") (hprevious : c'.isAfterSelector = p.cursor.isAfterSelector)
    (hrest : p.cursor.rest = front ++ t :: us) (hq : q.rest = t :: us) (hrest' : c'.rest = front ++ (member ++ t' :: us'))
    (ht : t.SameText t') (hline : t'.newlineBefore = true) (hus : List.Forall₂ Token.Same us us') :
    ∃ f' k', Parser.file name ⟨c', []⟩ = (f', ⟨k', []⟩) ∧ unplaced f' = unplaced (p.file name).1 := by
  obtain ⟨previous, rest, eof⟩ := q
  obtain rfl : rest = t :: us := hq
  have hsound := hmoves.sound hp
  have heof : p.cursor.eof = eof := by
    obtain ⟨n, hskip⟩ := hmoves
    rw [Cursor.skip] at hskip
    exact (congrArg Cursor.eof hskip).symm
  let q' : Cursor := ⟨member.getLast?, t' :: us', c'.eof⟩
  have hsound' : q'.Sound := ⟨hc'.eof, fun u hu => hc'.rest u (by rw [hrest']; simp only [List.mem_append]; exact .inr (.inr hu))⟩
  have hstarts : Seam.Starts eof c'.eof ⟨previous, t :: us, eof⟩ q' := by
    refine ⟨hsound, hsound', hsound.rest t List.mem_cons_self, ht.kind, ht.lexeme, ?_⟩
    refine ⟨hsound.advance, hsound'.advance, rfl, rfl, ?_, us, us', (List.append_nil us).symm, (List.append_nil us').symm, hus, by simp [Seam.ends]⟩
    simp only [Cursor.advance, Cursor.isAfterSelector, q', ht.kind]
  have hline' : q'.peek.newlineBefore = true := hline
  have hinserts : Seam.Inserts ⟨false, t :: us, member ++ t' :: us', eof, c'.eof⟩ ⟨previous, t :: us, eof⟩ q' :=
    hmember.inserts hstarts hplace.begins hselector rfl hline'
  have hnear : Seam.Near ⟨false, t :: us, member ++ t' :: us', eof, c'.eof⟩ p.cursor c' :=
    ⟨hp, hc', heof, rfl, hprevious, front, front, hrest, hrest', List.forall₂_same.mpr fun u _ => ⟨rfl, rfl, rfl⟩, by simp⟩
  refine hinserts.exists_file (fun u us hfirst => hlexeme u ?_) hnear herrors hplace
  obtain ⟨v, vs, rfl, -⟩ := hmember.keyword
  obtain ⟨rfl, -⟩ := List.cons.inj hfirst
  rfl

/-- A source file that is read has no errors in its tokens. -/
theorem SourceFile.error?_of_parse {name source : String} {f : SourceFile} (h : SourceFile.parse name source = .ok f) :
    ∀ x ∈ lexemes source, x.error? = none := by
  have herrors : (Parser.ofSource source).errors = [] :=
    Parser.errors_headers _ (Parser.errors_package? _ (Parser.errors_headers _ (Parser.errors_members false _ (parse_eq_ok.mp h).2)))
  intro x hx
  rw [Parser.ofSource, List.map_eq_nil_iff, List.filterMap_eq_nil_iff] at herrors
  exact herrors x hx

theorem IsMember.ne_nil {ts : List Token} (h : IsMember ts) : ts ≠ [] := by
  obtain ⟨t, rest, rfl, -⟩ := h.keyword
  exact List.cons_ne_nil _ _

/-- A function or a property does not begin with a word. -/
theorem IsMemberText.lexeme_ne {text : String} (h : IsMemberText text) :
    ∀ t ∈ (pieceTokens text).head?, t.lexeme ≠ "file" := by
  intro t ht hfile
  obtain ⟨u, us, htokens, hkind, -⟩ := h.member.keyword
  rw [htokens] at ht
  obtain rfl := Option.some.inj ht
  have hmem : u ∈ pieceTokens text := htokens ▸ List.mem_cons_self
  have hall : ∀ k ∈ [TokenKind.fun, .val, .var], k ∈ TokenKind.words ∧ k ≠ .identifier := by decide
  have hword := ofWord_lexeme (token_mem_of_mem_filterMap ((List.dropLast_sublist _).mem hmem)) (hall _ hkind).1 (hall _ hkind).2
  rw [hfile] at hword
  exact (hall _ hkind).2 hword.symm

/-- The tokens in front of a place between the members of a file that is read, and those behind it. -/
theorem Parser.HasBoundary.exists_tokens {name source : String} {f : SourceFile} {q : Cursor}
    (h : (Parser.ofSource source).HasBoundary q) (hparse : SourceFile.parse name source = .ok f) :
    (Parser.ofSource source).cursor.Precedes q ∧ ∃ front t us, (Parser.ofSource source).cursor.rest = front ++ t :: us ∧
      q.rest = t :: us ∧ q.peek = t ∧ q.previous = front.getLast? := by
  have hsound := (Parser.ofSource_cursor source).1
  obtain ⟨hheaders, -⟩ := Parser.reads_of_file hsound (SourceFile.parse_eq_ok.mp hparse).2
  have hmoves := hheaders.trans (h.precedes (hheaders.sound hsound))
  have hkind : q.kind ≠ .eof := by
    rcases h.begins with hkept | hbrace
    · exact ne_of_mem_of_not_mem hkept.kind_mem.1 (by decide)
    · rw [hbrace]
      nofun
  obtain ⟨t, us, hrest, hpeek⟩ := (hmoves.sound hsound).exists_cons hkind
  refine ⟨hmoves, ?_⟩
  obtain ⟨n, rfl⟩ := hmoves
  refine ⟨(Parser.ofSource source).cursor.rest.take n, t, us, ?_, hrest, hpeek, Option.or_none⟩
  rw [← hrest]
  exact (List.take_append_drop n _).symm

/-- Where a function or a property is inserted in lines of its own in front of a class, a type alias or the end of a body,
and not behind a selector, the file is read as the same file apart from places. -/
theorem SourceFile.parse_insert {name source text : String} {f : SourceFile} (hparse : SourceFile.parse name source = .ok f)
    (htext : IsMemberText text) (l : LinePlace source) (hplace : f.Admits source l.position)
    (hselector : ∀ t, tokenBefore? source l.position = some t → t.kind ≠ .dot ∧ t.kind ≠ .colonColon) :
    ∃ f', SourceFile.parse name (l.insert text) = .ok f' ∧ unplaced f' = unplaced f := by
  obtain ⟨q, hboundary, hstart⟩ := hplace.exists_hasBoundary hparse
  obtain ⟨hmoves, front, t, us, hfront, hrest, rfl, hprevious⟩ := hboundary.exists_tokens hparse
  obtain ⟨hsound, htokens⟩ := Parser.ofSource_cursor source
  rw [hfront] at htokens
  have hbefore : q.isAfterSelector = false := by
    have hordered : (front ++ q.peek :: (us ++ [(Parser.ofSource source).cursor.eof])).Pairwise
        fun t u => t.span.start.Before u.span.start := by
      have hordered : (tokensOf source).Pairwise fun t u => t.span.start.Before u.span.start := tokens_ordered source
      rwa [htokens, List.append_assoc] at hordered
    rw [tokenBefore?, htokens, ← hstart, List.append_assoc, List.cons_append, takeWhile_start_ne hordered] at hselector
    rw [Cursor.isAfterSelector, hprevious]
    cases hlast : front.getLast? with
    | none => rfl
    | some u => simp [hselector u hlast]
  obtain ⟨e₀, hpiece⟩ : ∃ e₀, (lexemesFrom .start text.toList).filterMap Lexeme.token? = pieceTokens text ++ [e₀] := by
    obtain ⟨ts, e, hts, -⟩ := lexemesFrom_tokens .start text.toList
    exact ⟨e, by rw [pieceTokens, hts, List.dropLast_concat]⟩
  obtain ⟨member, t', us', e', hlexemes, he', hsame, hkind, hlexeme, hline, hus⟩ :=
    l.exists_tokens (error?_of_parse hparse) htokens hstart htext.valid hpiece htext.member.ne_nil
  have hinserted := Parser.ofSource_of_lexemes hlexemes
  have hsound' := (Parser.ofSource_cursor (l.insert text)).1
  rw [hinserted] at hsound'
  obtain ⟨rfl, herrors⟩ := parse_eq_ok.mp hparse
  have hword : ∀ u ∈ member.head?, u.lexeme ≠ "file" := by
    intro u hu
    obtain ⟨us, rfl⟩ := List.head?_eq_some_iff.mp hu
    obtain ⟨v, vs, hv, -, htokens⟩ := List.forall₂_cons_right_iff.mp hsame
    rw [hv.lexeme]
    exact htext.lexeme_ne v (by rw [htokens]; rfl)
  obtain ⟨f', k', hfile, hunplaced⟩ := Parser.exists_file_of_inserted hsound hsound' herrors hboundary hmoves hbefore
    (htext.member.sameText hsame) hword rfl hfront hrest rfl ⟨hkind, hlexeme⟩ hline hus
  refine ⟨f', parse_eq_ok.mpr ?_, hunplaced⟩
  rw [hinserted, hfile]
  exact ⟨rfl, rfl⟩

/-! ### A function with a class in its body -/

namespace InsertedFunction

/-- A function with a class of its own. -/
def text : String := "fun f() \x7b class Z \x7d"

theorem pieceTokens_text : pieceTokens text = [⟨.fun, "fun", ⟨1, 1, 3⟩, false⟩, ⟨.identifier, "f", ⟨1, 5, 1⟩, false⟩,
    ⟨.leftParen, "(", ⟨1, 6, 1⟩, false⟩, ⟨.rightParen, ")", ⟨1, 7, 1⟩, false⟩, ⟨.leftBrace, "\x7b", ⟨1, 9, 1⟩, false⟩,
    ⟨.class, "class", ⟨1, 11, 5⟩, false⟩, ⟨.identifier, "Z", ⟨1, 17, 1⟩, false⟩,
    ⟨.rightBrace, "\x7d", ⟨1, 19, 1⟩, false⟩] := by
  with_unfolding_all rfl

theorem isMemberText_text : IsMemberText text := by
  have hvalid : ((lexemesFrom .start text.toList).all fun x => x.error?.isNone) = true := by with_unfolding_all rfl
  refine ⟨fun x hx => by simpa using List.all_eq_true.mp hvalid x hx, ?_⟩
  rw [pieceTokens_text]
  refine ⟨⟨_, _, rfl, by decide, .single rfl (by decide) (fun _ => by with_unfolding_all rfl) ?_⟩, ?_⟩
  · have hbody : Run false true [⟨.class, "class", ⟨1, 11, 5⟩, false⟩, ⟨.identifier, "Z", ⟨1, 17, 1⟩, false⟩] :=
      (Run.plain rfl rfl).append (Run.plain rfl rfl)
    have hbraces : IsMemberRest [⟨.leftBrace, "\x7b", ⟨1, 9, 1⟩, false⟩, ⟨.class, "class", ⟨1, 11, 5⟩, false⟩,
        ⟨.identifier, "Z", ⟨1, 17, 1⟩, false⟩, ⟨.rightBrace, "\x7d", ⟨1, 19, 1⟩, false⟩] := .group rfl hbody .nil
    exact .group rfl .nil hbraces
  · rintro t ht
    obtain rfl := Option.some.inj ht
    decide

/-- A class with another one in its body. -/
def nested : String := "class A \x7b\n  class B\n\x7d\n"

/-- The line of the other class. -/
def line : LinePlace nested where
  front := "class A \x7b\n".toList
  lead := "  ".toList
  indent := "  ".toList
  back := "class B\n\x7d\n".toList
  split := by with_unfolding_all rfl
  lead_blank := List.all_eq_true.mp (by with_unfolding_all rfl)
  indent_blank := List.all_eq_true.mp (by with_unfolding_all rfl)
  indent_newline := by decide
  startsLine := by decide

/-- The other class. -/
def inner : ClassDecl := ⟨.class, ⟨"B", ⟨2, 9, 1⟩⟩, [], [], [], ⟨2, 3, 7⟩⟩

/-- What the class is read as. -/
def file : SourceFile :=
  ⟨"T.kt", [], none, [], [⟨.class, ⟨"A", ⟨1, 7, 1⟩⟩, [], [], [inner], ⟨1, 1, 6⟩⟩], [], ⟨1, 1, 6⟩⟩

set_option maxRecDepth 10000 in
theorem parse_nested : SourceFile.parse "T.kt" nested = .ok file := by
  with_unfolding_all rfl

theorem insert_line : line.insert text = "class A \x7b\n  fun f() \x7b class Z \x7d\n  class B\n\x7d\n" := by
  with_unfolding_all rfl

/-- The class is read alike with the function in it. -/
theorem parse_insert_line : SourceFile.parse "T.kt" nested = .ok file ∧ ∃ f', SourceFile.parse "T.kt"
    "class A \x7b\n  fun f() \x7b class Z \x7d\n  class B\n\x7d\n" = .ok f' ∧ unplaced f' = unplaced file := by
  have hdeclarations : file.allDeclarations = [⟨.class, ⟨"A", ⟨1, 7, 1⟩⟩, [], [], [inner], ⟨1, 1, 6⟩⟩, inner] := by cbv
  have hplace : file.Admits nested line.position := by
    have hposition : line.position = inner.span.start := by with_unfolding_all rfl
    rw [hposition]
    exact .class (by rw [hdeclarations]; simp)
  have hbrace : tokenBefore? nested line.position = some ⟨.leftBrace, "\x7b", ⟨1, 9, 1⟩, false⟩ := by with_unfolding_all rfl
  refine ⟨parse_nested, ?_⟩
  rw [← insert_line]
  refine SourceFile.parse_insert parse_nested isMemberText_text line hplace fun t ht => ?_
  rw [hbrace] at ht
  obtain rfl := Option.some.inj ht
  decide

/-! ### A selector in front of the function -/

/-- A class that delegates to something whose selector is missing, and an annotated class. -/
def unfinished : String := "class A : B by a.\n@C class D\n"

/-- The line of the annotated class. -/
def secondLine : LinePlace unfinished where
  front := "class A : B by a.\n".toList
  lead := []
  indent := []
  back := "@C class D\n".toList
  split := by with_unfolding_all rfl
  lead_blank := nofun
  indent_blank := nofun
  indent_newline := nofun
  startsLine := by decide

/-- The class that delegates. -/
def delegating : ClassDecl :=
  ⟨.class, ⟨"A", ⟨1, 7, 1⟩⟩, [],
    [⟨.user ⟨[], ⟨⟨"B", ⟨1, 11, 1⟩⟩, [], ⟨1, 11, 1⟩⟩⟩, [], "B", ⟨1, 11, 1⟩⟩], [], ⟨1, 1, 17⟩⟩

/-- The annotated class. -/
def annotated : ClassDecl :=
  ⟨.class, ⟨"D", ⟨2, 10, 1⟩⟩,
    [⟨none, ⟨.user ⟨[], ⟨⟨"C", ⟨2, 2, 1⟩⟩, [], ⟨2, 2, 1⟩⟩⟩, [], "C", ⟨2, 2, 1⟩⟩, [], ⟨2, 1, 2⟩⟩], [], [], ⟨2, 1, 10⟩⟩

/-- What the two classes are read as. -/
def classes : SourceFile := ⟨"T.kt", [], none, [], [delegating, annotated], [], ⟨1, 1, 6⟩⟩

set_option maxRecDepth 10000 in
theorem parse_unfinished : SourceFile.parse "T.kt" unfinished = .ok classes := by
  with_unfolding_all rfl

/-- How many classes there are in each class of a file. -/
def sizes (f : SourceFile) : List Nat := f.declarations.map fun d => d.declarations.length

theorem sizes_unplaced (f : SourceFile) : sizes (unplaced f) = sizes f := by
  have hdeclarations : (unplaced f).declarations = f.declarations.map ClassDecl.bare := rfl
  rw [sizes, hdeclarations, List.map_map]
  refine List.map_congr_left fun d _ => ?_
  cases d
  simp [ClassDecl.bare]

/-- The function is read as the selector and a call, and its body as that of the first class. -/
theorem sizes_insert : (SourceFile.parse "T.kt" (secondLine.insert text)).toOption.map sizes = some [1, 0] := by
  with_unfolding_all rfl

/-- Behind a selector a function is no member, also on a line of its own. -/
theorem not_forall_parse_insert :
    ¬ ∀ (name source text : String) (f : SourceFile) (l : LinePlace source), SourceFile.parse name source = .ok f →
      (∀ d ∈ f.allDeclarations, d.kind ≠ .companionObject) → IsMemberText text → f.Admits source l.position →
      StartsLine (l.front ++ l.indent) → ∃ f', SourceFile.parse name (l.insert text) = .ok f' ∧ unplaced f' = unplaced f := by
  intro h
  have hdeclarations : classes.allDeclarations = [delegating, annotated] := by cbv
  have hplace : classes.Admits unfinished secondLine.position := by
    have hposition : secondLine.position = annotated.span.start := by with_unfolding_all rfl
    rw [hposition]
    exact .class (by rw [hdeclarations]; simp)
  obtain ⟨f', hparse, hunplaced⟩ := h "T.kt" unfinished text classes secondLine parse_unfinished
    (by rw [hdeclarations]; decide) isMemberText_text hplace (by decide)
  have hsizes := sizes_insert
  rw [hparse] at hsizes
  have hinserted : sizes f' = [1, 0] := Option.some.inj hsizes
  rw [← sizes_unplaced, hunplaced, sizes_unplaced] at hinserted
  exact absurd hinserted (by decide)

end InsertedFunction

end ServiceCatalog
