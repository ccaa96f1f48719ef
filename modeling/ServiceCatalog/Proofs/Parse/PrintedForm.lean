import ServiceCatalog.Proofs.Parse.Form
import ServiceCatalog.Proofs.Token.Printed

/-!
# Types and arguments in their printed form

The text of a type is what its tokens print as, and a class literal or a collection has a text of its own, put
together from its parts.  Both are given here for the forms, from their parts alone, and each form prints as its
tokens do.

    a.Map<in Key, List<*>?>??
    (Service::class, names = *[a.Map<Key, *>::class, []])

* `TypeForm.print`, `ValueArgumentForm.printAll`: the printed forms.
* `TypeForm.prints`, `ValueArgumentForm.prints`: the tokens of a form print as its printed form.
-/

namespace ServiceCatalog

/-! ## Types -/

/-- Texts in angle brackets; nothing, if there are none. -/
def angled : List String → String
  | [] => ""
  | t :: ts => "<" ++ String.intercalate ", " (t :: ts) ++ ">"

mutual

/-- The printed form of a segment. -/
def SegmentForm.print : SegmentForm → String
  | ⟨name, arguments⟩ => name.text ++ angled (arguments.map fun a => a.print)

/-- The printed form of a type argument. -/
def TypeArgumentForm.print : TypeArgumentForm → String
  | .star => "*"
  | .type t => t.print
  | .inType t => "in " ++ t.print
  | .outType t => "out " ++ t.print

/-- The printed form of a named type. -/
def NamedForm.print : NamedForm → String
  | ⟨first, others⟩ => String.intercalate "." (first.print :: others.map fun s => s.print)

/-- The printed form of a type. -/
def TypeForm.print : TypeForm → String
  | ⟨name, marks⟩ => name.print ++ String.join (List.replicate marks "?")

end

/-- Whether a token can end an item of a list. -/
def endsItem (k : TokenKind) : Bool :=
  k == .identifier || k == .greater || k == .question || k == .star || k == .class || k == .rightBracket

/-- Whether a token can end a name with its type arguments. -/
def endsName (k : TokenKind) : Bool := k == .identifier || k == .greater

theorem endsItem_of_endsName {k : TokenKind} (h : endsName k = true) : endsItem k = true := by
  cases k <;> first | rfl | contradiction

/-- Whether a token can stand before a name, if one stands there. -/
def opensName : Option TokenKind → Bool
  | none => true
  | some k => k == .less || k == .comma || k == .dot || k == .identifier || k == .leftParen || k == .leftBracket ||
      k == .equal || k == .star

/-- No token that can stand before a name runs into it. -/
theorem PlainName.fits (n : PlainName) {k : Option TokenKind} (hk : opensName k = true) :
    n.spelling.fits k = true := by
  obtain ⟨c, cs, hchars, hc⟩ : ∃ c cs, n.spelling.chars = c :: cs ∧ isIdentifierStart c = true := by
    have hword : ServiceCatalog.isWord n.spelling.chars = true := n.isWord
    cases hchars : n.spelling.chars with
    | nil =>
      rw [hchars] at hword
      contradiction
    | cons c cs =>
      rw [hchars, ServiceCatalog.isWord, Bool.and_eq_true] at hword
      exact ⟨c, cs, rfl, hword.1⟩
  have hne : ∀ d, isIdentifierStart d = false → c ≠ d := by
    rintro d hd rfl
    exact Bool.false_ne_true (hd.symm.trans hc)
  have hequal : c ≠ '=' := hne '=' (by decide)
  have hdot : c ≠ '.' := hne '.' (by decide)
  cases k with
  | none => rfl
  | some k =>
    rw [Spelling.fits, n.kind_spelling, hchars]
    cases k <;> first | contradiction | simp [TokenKind.takes, Token.needsSpace, Token.isWordy, hequal, hdot]

/-- Behind an item of a list, a mark is printed close to it. -/
theorem fits_mark {kind last : TokenKind} (hlast : endsItem last = true)
    (hkind : kind ∈ [.comma, .greater, .dot, .question, .less, .rightParen, .rightBracket]) :
    (∀ hmark, (Spelling.mark kind hmark).fits (some last) = true) ∧ gapBetween (some last) kind = "" := by
  simp only [List.mem_cons, List.not_mem_nil, or_false] at hkind
  rcases hkind with rfl | rfl | rfl | rfl | rfl | rfl | rfl <;> cases last <;> first | contradiction | decide

namespace Prints

/-- A mark with the space that may stand before it. -/
theorem spaced {k : Option TokenKind} {kind : TokenKind} {text : String} (hmark : kind.mark?.isSome = true)
    (hfits : (Spelling.mark kind hmark).fits k = true) (htext : (Spelling.mark kind hmark).text = text) :
    Prints k [.mark kind hmark] (gapBetween k kind ++ text) (some kind) := by
  have h := single hfits
  rwa [Spelling.kind_mark, htext] at h

/-- A mark that is printed close to what it is behind. -/
theorem mark {k : Option TokenKind} {kind : TokenKind} {text : String} (hmark : kind.mark?.isSome = true)
    (hfits : (Spelling.mark kind hmark).fits k = true) (hgap : gapBetween k kind = "")
    (htext : (Spelling.mark kind hmark).text = text) : Prints k [.mark kind hmark] text (some kind) := by
  have h := spaced hmark hfits htext
  rwa [hgap, String.empty_append] at h

/-- A mark behind an item of a list. -/
theorem closing {last kind : TokenKind} {text : String} (hlast : endsItem last = true)
    (hmark : kind.mark?.isSome = true)
    (hkind : kind ∈ [.comma, .greater, .dot, .question, .less, .rightParen, .rightBracket])
    (htext : (Spelling.mark kind hmark).text = text) :
    Prints (some last) [.mark kind hmark] text (some kind) :=
  mark hmark ((fits_mark hlast hkind).1 hmark) (fits_mark hlast hkind).2 htext

end Prints

theorem PlainName.prints (n : PlainName) {k : Option TokenKind} (hk : opensName k = true) :
    Prints k [n.spelling] (gapBetween k .identifier ++ n.text) (some .identifier) := by
  have h := Prints.single (n.fits hk)
  rwa [n.text_spelling, n.kind_spelling] at h

/-- Items in brackets. -/
theorem prints_list {ι : Type} {spell : ι → List Spelling} {print : ι → String} {items : List ι}
    {opening closing : TokenKind} {k : Option TokenKind} {front openText closeText : String}
    {hopening : opening.mark?.isSome = true} {hclosing : closing.mark?.isSome = true}
    (hopen : Prints k [.mark opening hopening] (front ++ openText) (some opening))
    (hgap : gapBetween (some opening) .identifier = "")
    (hitem : ∀ i ∈ items, ∀ j, j = opening ∨ j = .comma → ∃ last,
      Prints (some j) (spell i) (gapBetween (some j) .identifier ++ print i) (some last) ∧ endsItem last = true)
    (hclose : ∀ last, endsItem last = true ∨ last = opening →
      Prints (some last) [.mark closing hclosing] closeText (some closing)) :
    Prints k (.mark opening hopening :: (commaSeparated (items.map spell) ++ [.mark closing hclosing]))
      (front ++ (openText ++ String.intercalate ", " (items.map print) ++ closeText)) (some closing) := by
  cases items with
  | nil =>
    have h := hopen.append (hclose opening (.inr rfl))
    simpa [commaSeparated, String.append_assoc] using h
  | cons i is =>
    obtain ⟨first, hfirst, hends⟩ := hitem i List.mem_cons_self opening (.inl rfl)
    obtain ⟨last, hlist, hends⟩ := hfirst.separated ", " spell print hends fun j hj last hlast => by
      have hcomma : Prints (some last) [.mark .comma] "," (some .comma) := .closing hlast rfl (by decide) rfl
      obtain ⟨last', hitem, hends⟩ := hitem j (List.mem_cons_of_mem i hj) .comma (.inr rfl)
      exact ⟨last', hcomma.append hitem, hends⟩
    have h := (hopen.append hlist).append (hclose last (.inl hends))
    rw [hgap, String.empty_append] at h
    simpa [commaSeparated, List.flatMap_map, String.append_assoc] using h

/-- Items in angle brackets, behind a name. -/
theorem prints_angled {ι : Type} {spell : ι → List Spelling} {print : ι → String} {items : List ι}
    (hitem : ∀ i ∈ items, ∀ k, k = .less ∨ k = .comma → ∃ last,
      Prints (some k) (spell i) (gapBetween (some k) .identifier ++ print i) (some last) ∧ endsItem last = true) :
    ∃ last, Prints (some .identifier) (bracketed (.mark .less) (.mark .greater) (items.map spell))
      (angled (items.map print)) (some last) ∧ endsName last = true := by
  cases items with
  | nil => exact ⟨.identifier, .nil _, rfl⟩
  | cons i is =>
    have hopening : Prints (some .identifier) [.mark .less] ("" ++ "<") (some .less) :=
      .closing rfl rfl (by decide) rfl
    have hclosing : ∀ last, endsItem last = true ∨ last = .less →
        Prints (some last) [.mark .greater] ">" (some .greater) := by
      rintro last (hlast | rfl)
      · exact .closing hlast rfl (by decide) rfl
      · exact .mark rfl (by decide) rfl rfl
    refine ⟨.greater, ?_, rfl⟩
    have h := prints_list hopening rfl hitem hclosing
    rwa [String.empty_append] at h

/-- A word before a type. -/
theorem prints_variance (n : PlainName) {k : Option TokenKind} (hk : opensName k = true) {ss : List Spelling}
    {text : String} (h : ∃ last, Prints (some .identifier) ss
      (gapBetween (some .identifier) .identifier ++ text) (some last) ∧ endsItem last = true) :
    ∃ last, Prints k (n.spelling :: ss) (gapBetween k .identifier ++ (n.text ++ " " ++ text)) (some last) ∧
      endsItem last = true := by
  obtain ⟨last, htype, hends⟩ := h
  have h := (n.prints hk).append htype
  refine ⟨last, ?_, hends⟩
  rw [String.append_assoc] at h ⊢
  exact h

/-- Question marks behind a name with its type arguments. -/
theorem prints_questions {k : Option TokenKind} {ss : List Spelling} {text : String} {last : TokenKind}
    (h : Prints k ss text (some last)) (hends : endsItem last = true) (marks : Nat) :
    ∃ last', Prints k (ss ++ List.replicate marks (.mark .question))
      (text ++ String.join (List.replicate marks "?")) (some last') ∧ endsItem last' = true := by
  induction marks generalizing ss text last with
  | zero => exact ⟨last, by simpa using h, hends⟩
  | succ marks ih =>
    have hmark : Prints (some last) [.mark .question] "?" (some .question) := .closing hends rfl (by decide) rfl
    obtain ⟨last', hmarks, hends⟩ := ih (h.append hmark) rfl
    refine ⟨last', ?_, hends⟩
    rw [List.replicate_succ, List.replicate_succ, String.join_cons, ← String.append_assoc, List.append_cons]
    exact hmarks

mutual

theorem SegmentForm.prints : ∀ (s : SegmentForm) {k : Option TokenKind}, opensName k = true → ∃ last,
    Prints k s.spell (gapBetween k .identifier ++ s.print) (some last) ∧ endsName last = true
  | ⟨name, arguments⟩, k, hk => by
    obtain ⟨last, hangled, hends⟩ := prints_angled fun a (ha : a ∈ arguments) k hk => a.prints hk
    refine ⟨last, ?_, hends⟩
    have h := (name.prints hk).append hangled
    rw [SegmentForm.spell, SegmentForm.print]
    simpa [String.append_assoc] using h

theorem TypeArgumentForm.prints : ∀ (a : TypeArgumentForm) {k : TokenKind}, k = .less ∨ k = .comma → ∃ last,
    Prints (some k) a.spell (gapBetween (some k) .identifier ++ a.print) (some last) ∧ endsItem last = true
  | .star, k, hk => by
    refine ⟨.star, ?_, rfl⟩
    have hfits : (Spelling.mark .star).fits (some k) = true := by rcases hk with rfl | rfl <;> decide
    have hgap : gapBetween (some k) .identifier = gapBetween (some k) .star := by rcases hk with rfl | rfl <;> rfl
    rw [TypeArgumentForm.spell, TypeArgumentForm.print, hgap]
    exact .single hfits
  | .type t, k, hk => by
    rw [TypeArgumentForm.spell, TypeArgumentForm.print]
    exact t.prints (by rcases hk with rfl | rfl <;> rfl)
  | .inType t, k, hk => by
    rw [TypeArgumentForm.spell, TypeArgumentForm.print]
    exact prints_variance ⟨"in", rfl, rfl⟩ (by rcases hk with rfl | rfl <;> rfl) (t.prints rfl)
  | .outType t, k, hk => by
    rw [TypeArgumentForm.spell, TypeArgumentForm.print]
    exact prints_variance ⟨"out", rfl, rfl⟩ (by rcases hk with rfl | rfl <;> rfl) (t.prints rfl)

theorem NamedForm.prints : ∀ (u : NamedForm) {k : Option TokenKind}, opensName k = true → ∃ last,
    Prints k u.spell (gapBetween k .identifier ++ u.print) (some last) ∧ endsName last = true
  | ⟨first, others⟩, k, hk => by
    obtain ⟨last, hfirst, hends⟩ := first.prints hk
    rw [NamedForm.spell, NamedForm.print]
    refine hfirst.separated "." SegmentForm.spell SegmentForm.print hends fun s hs last hlast => ?_
    have hdot : Prints (some last) [.mark .dot] "." (some .dot) :=
      .closing (endsItem_of_endsName hlast) rfl (by decide) rfl
    obtain ⟨last', hs, hends⟩ := s.prints (k := some .dot) rfl
    exact ⟨last', hdot.append hs, hends⟩

theorem TypeForm.prints : ∀ (t : TypeForm) {k : Option TokenKind}, opensName k = true → ∃ last,
    Prints k t.spell (gapBetween k .identifier ++ t.print) (some last) ∧ endsItem last = true
  | ⟨name, marks⟩, k, hk => by
    obtain ⟨last, hname, hends⟩ := name.prints hk
    rw [TypeForm.spell, TypeForm.print, ← String.append_assoc]
    exact prints_questions hname (endsItem_of_endsName hends) marks

end

/-! ## Values -/

/-- The text that is kept of a type argument, without its variance. -/
def TypeArgumentForm.keptText : TypeArgumentForm → String
  | .star => "*"
  | .type t | .inType t | .outType t => t.print

/-- Whether a type that was read is the one that was written, also in its text. -/
structure TypeForm.IsRead (t : TypeForm) (r : TypeRef) : Prop where
  isMatch : t.Matches r
  text_eq : r.text = t.print

/-- Whether a type argument that was read is the one that was written, also in the text that is kept of it. -/
structure TypeArgumentForm.IsRead (a : TypeArgumentForm) (x : TypeArgument) : Prop where
  isMatch : a.Matches x
  text_eq : x.text = a.keptText

/-- Whether a type argument has no variance before it. -/
def TypeArgumentForm.isInvariant : TypeArgumentForm → Bool
  | .star | .type _ => true
  | .inType _ | .outType _ => false

theorem TypeArgumentForm.keptText_eq_print {a : TypeArgumentForm} (h : a.isInvariant = true) :
    a.keptText = a.print := by
  cases a with
  | star => rw [keptText, print]
  | type t => rw [keptText, print]
  | inType t | outType t => contradiction

namespace ClassLiteralForm

/-- The printed form of a class literal. -/
def print (l : ClassLiteralForm) : String :=
  String.intercalate "." l.name.names ++ angled (l.arguments.map TypeArgumentForm.print) ++ "::class"

/-- The text that is kept of a class literal. -/
def keptText (l : ClassLiteralForm) : String :=
  String.intercalate "." l.name.names ++ angled (l.arguments.map TypeArgumentForm.keptText) ++ "::class"

end ClassLiteralForm

namespace ValueForm

/-- The printed form of a value. -/
def print : ValueForm → String
  | literal l => l.print
  | collection elements => "[" ++ String.intercalate ", " (elements.map fun v => v.print) ++ "]"

/-- The text that is kept of a value. -/
def keptText : ValueForm → String
  | literal l => l.keptText
  | collection elements => "[" ++ String.intercalate ", " (elements.map fun v => v.keptText) ++ "]"

/-- Whether the type arguments of all class literals have no variance before them. -/
inductive Invariant : ValueForm → Prop
  | literal {l : ClassLiteralForm} (h : ∀ a ∈ l.arguments, a.isInvariant = true) : Invariant (.literal l)
  | collection {vs : List ValueForm} (h : ∀ v ∈ vs, Invariant v) : Invariant (.collection vs)

/-- Whether a value that was read is the one that was written. -/
inductive Matches : ValueForm → Expr → Prop
  | literal {l : ClassLiteralForm} {receiver : Expr} {span : Span} (h : l.IsReceiver receiver)
      (htext : receiver.text ++ "::class" = l.keptText) : Matches (.literal l) (.classLiteral receiver span)
  | collection {vs : List ValueForm} {es : List Expr} {span : Span} (h : List.Forall₂ Matches vs es) :
      Matches (.collection vs) (.collection es span)

/-- Without variance, all of the printed form is kept. -/
theorem Invariant.keptText_eq_print : ∀ {v : ValueForm}, v.Invariant → v.keptText = v.print
  | .literal l, .literal h => by
    have harguments : l.arguments.map TypeArgumentForm.keptText = l.arguments.map TypeArgumentForm.print :=
      List.map_congr_left fun a ha => TypeArgumentForm.keptText_eq_print (h a ha)
    rw [ValueForm.keptText, ValueForm.print, ClassLiteralForm.keptText, ClassLiteralForm.print, harguments]
  | .collection vs, .collection h => by
    have helements : vs.map ValueForm.keptText = vs.map ValueForm.print :=
      List.map_congr_left fun v hv => (h v hv).keptText_eq_print
    rw [ValueForm.keptText, ValueForm.print, helements]

/-- The text of a value that was read is what is kept of the one that was written. -/
theorem Matches.text_eq : ∀ {v : ValueForm} {e : Expr}, v.Matches e → e.text = v.keptText
  | _, _, .literal _ htext => by rw [Expr.text, ValueForm.keptText, htext]
  | .collection vs, .collection es _, .collection h => by
    have hall : ∀ v ∈ vs, ∀ e, v.Matches e → e.text = v.keptText := fun v hv e he => he.text_eq
    have htexts : List.Forall₂ (fun v e => Expr.text e = ValueForm.keptText v) vs es :=
      ((List.forall₂_and_left _ _).mpr ⟨hall, h⟩).imp fun v e ⟨hv, he⟩ => hv e he
    have htexts : es.map Expr.text = vs.map ValueForm.keptText := by
      rw [← List.forall₂_eq_eq_eq, List.forall₂_map_left_iff, List.forall₂_map_right_iff]
      exact htexts.flip
    rw [Expr.text, ValueForm.keptText, Expr.texts_eq_map, htexts]

end ValueForm

/-- A class literal prints as its tokens do. -/
theorem ClassLiteralForm.prints (l : ClassLiteralForm) {k : Option TokenKind} (hk : opensName k = true) :
    Prints k l.spell (gapBetween k .identifier ++ l.print) (some .class) := by
  obtain ⟨⟨first, others⟩, arguments⟩ := l
  have hname : ∃ last, Prints k (DottedForm.spell ⟨first, others⟩)
      (gapBetween k .identifier ++ String.intercalate "." ((first :: others).map PlainName.text)) (some last) ∧
        TokenKind.identifier = last := by
    refine (first.prints hk).separated "." (fun n => [n.spelling]) PlainName.text rfl
      fun n _ last hlast => ⟨.identifier, ?_, rfl⟩
    subst hlast
    have hdot : Prints (some .identifier) [.mark .dot] "." (some .dot) := .closing rfl rfl (by decide) rfl
    exact hdot.append (n.prints rfl)
  obtain ⟨last, hname, rfl⟩ := hname
  obtain ⟨last, hangled, hends⟩ := prints_angled fun a (_ : a ∈ arguments) k hk => a.prints hk
  have hmark : Prints (some last) [.mark .colonColon] "::" (some .colonColon) := by
    cases last <;> first | contradiction | exact .mark rfl (by decide) rfl rfl
  have hclass : Prints (some .colonColon) [.word "class"] "class" (some .class) :=
    .single (s := .word "class") (by decide)
  have h := ((hname.append hangled).append hmark).append hclass
  simpa [ClassLiteralForm.spell, ClassLiteralForm.print, DottedForm.names, TypeArgumentForm.spellAll,
    String.append_assoc] using h

/-- Whether a value can stand behind a token: a bracket that opens, a comma, the mark of a name or a star. -/
def opensValue (k : TokenKind) : Bool :=
  k == .leftParen || k == .leftBracket || k == .comma || k == .equal || k == .star

/-- A value prints as its tokens do. -/
theorem ValueForm.prints : ∀ (v : ValueForm) {k : TokenKind}, opensValue k = true → ∃ last,
    Prints (some k) v.spell (gapBetween (some k) .identifier ++ v.print) (some last) ∧ endsItem last = true
  | .literal l, k, hk => by
    refine ⟨.class, ?_, rfl⟩
    rw [ValueForm.spell, ValueForm.print]
    exact l.prints (by cases k <;> first | rfl | contradiction)
  | .collection vs, k, hk => by
    have hopening : Prints (some k) [.mark .leftBracket] (gapBetween (some k) .identifier ++ "[")
        (some .leftBracket) := by
      have htext : (Spelling.mark .leftBracket).text = "[" := rfl
      cases k <;> first | contradiction | exact .spaced rfl (by decide) htext
    have hclosing : ∀ last, endsItem last = true ∨ last = .leftBracket →
        Prints (some last) [.mark .rightBracket] "]" (some .rightBracket) := by
      rintro last (hlast | rfl)
      · exact .closing hlast rfl (by decide) rfl
      · exact .mark rfl (by decide) rfl rfl
    refine ⟨.rightBracket, ?_, rfl⟩
    rw [ValueForm.spell, ValueForm.print]
    refine prints_list hopening rfl (fun v hv j hj => ?_) hclosing
    exact v.prints (by rcases hj with rfl | rfl <;> rfl)

/-! ## Arguments -/

namespace ValueArgumentForm

/-- The printed form of the name. -/
def printName : Option PlainName → String
  | none => ""
  | some n => n.text ++ " = "

/-- The printed form of an argument. -/
def print (a : ValueArgumentForm) : String := printName a.name ++ (if a.isSpread then "*" else "") ++ a.value.print

/-- Whether an argument that was read is the one that was written. -/
structure Matches (a : ValueArgumentForm) (x : Argument) : Prop where
  name : x.name.map Ident.name = a.name.map PlainName.text
  isSpread : x.isSpread = a.isSpread
  value : a.value.Matches x.value

/-- The printed form of a list of arguments. -/
def printAll (as : List ValueArgumentForm) : String := "(" ++ String.intercalate ", " (as.map print) ++ ")"

/-- An argument prints as its tokens do. -/
theorem prints (a : ValueArgumentForm) {k : TokenKind} (hk : k = .leftParen ∨ k = .comma) : ∃ last,
    Prints (some k) a.spell (gapBetween (some k) .identifier ++ a.print) (some last) ∧ endsItem last = true := by
  obtain ⟨name, isSpread, value⟩ := a
  -- the name comes first, then the star, and the value stands behind the last of them or behind the token before
  have hname : ∃ j, opensValue j = true ∧ ∃ front, gapBetween (some k) .identifier ++ printName name =
      front ++ gapBetween (some j) .identifier ∧ Prints (some k) (spellName name) front (some j) := by
    cases name with
    | none => exact ⟨k, by rcases hk with rfl | rfl <;> rfl, "", by simp [printName], .nil _⟩
    | some n =>
      have hopens : opensName (some k) = true := by rcases hk with rfl | rfl <;> rfl
      have hequal : Prints (some .identifier) [.mark .equal] " =" (some .equal) :=
        .single (s := .mark .equal) (by decide)
      exact ⟨.equal, rfl, _, by simp [printName, String.append_assoc]; rfl, (n.prints hopens).append hequal⟩
  obtain ⟨j, hj, front, hfront, hname⟩ := hname
  have hstar : ∃ j', opensValue j' = true ∧ ∃ front',
      gapBetween (some j) .identifier ++ (if isSpread then "*" else "") = front' ++ gapBetween (some j') .identifier ∧
      Prints (some j) (if isSpread then [.mark .star] else []) front' (some j') := by
    cases isSpread with
    | false => exact ⟨j, hj, "", by simp, .nil _⟩
    | true =>
      refine ⟨.star, rfl, gapBetween (some j) .identifier ++ "*", ?_, ?_⟩
      · simp [gapBetween, Token.needsSpace, Token.isWordy]
      · have htext : (Spelling.mark .star).text = "*" := rfl
        cases j <;> first | contradiction | exact .spaced rfl (by decide) htext
  obtain ⟨j', hj', front', hfront', hstar⟩ := hstar
  obtain ⟨last, hvalue, hends⟩ := value.prints hj'
  refine ⟨last, ?_, hends⟩
  have h := (hname.append hstar).append hvalue
  have htext : gapBetween (some k) .identifier ++ print ⟨name, isSpread, value⟩ =
      front ++ front' ++ (gapBetween (some j') .identifier ++ value.print) := by
    calc gapBetween (some k) .identifier ++ (printName name ++ (if isSpread then "*" else "") ++ value.print)
        = gapBetween (some k) .identifier ++ printName name ++ (if isSpread then "*" else "") ++ value.print := by
          simp only [String.append_assoc]
      _ = front ++ (gapBetween (some j) .identifier ++ (if isSpread then "*" else "")) ++ value.print := by
          rw [hfront]
          simp only [String.append_assoc]
      _ = front ++ front' ++ (gapBetween (some j') .identifier ++ value.print) := by
          rw [hfront']
          simp only [String.append_assoc]
  rw [spell, htext]
  exact h

/-- A list of arguments prints as its tokens do. -/
theorem prints_all (as : List ValueArgumentForm) : Prints none (spellAll as) (printAll as) (some .rightParen) := by
  have hopening : Prints none [.mark .leftParen] ("" ++ "(") (some .leftParen) := .single (s := .mark .leftParen) rfl
  have hclosing : ∀ last, endsItem last = true ∨ last = .leftParen →
      Prints (some last) [.mark .rightParen] ")" (some .rightParen) := by
    rintro last (hlast | rfl)
    · exact .closing hlast rfl (by decide) rfl
    · exact .mark rfl (by decide) rfl rfl
  have h := prints_list hopening rfl (fun a (_ : a ∈ as) j hj => a.prints hj) hclosing
  rwa [String.empty_append] at h

end ValueArgumentForm

end ServiceCatalog
