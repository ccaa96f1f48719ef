import ServiceCatalog.Parse.Cursor
import ServiceCatalog.Proofs.Token.Spelling

/-!
# Printed tokens are read back

The text of tokens has a space only there where `Token.needsSpace` asks for one, and no line feed.  It depends on the
kinds and the lexemes of the tokens alone, so it is also the text of spellings.

`Prints before ss text after` says that spellings have a text behind a token of one kind, and of which kind the last
of them is.  It is put together along the spellings, one run behind another, and it asks that no token runs into the
next one.

* `Prints.append`, `Prints.separated`: runs one behind another, and items with a mark between them.
* `Prints.textAfter_eq`: the text of tokens is the text of the spellings they stand for.
* `Prints.lexemes_eq`: a printed text is read as the same tokens.
-/

namespace ServiceCatalog

/-- The space before a token, if there is one. -/
def gapBetween (before : Option TokenKind) (after : TokenKind) : String :=
  if before.any (Token.needsSpace · after) then " " else ""

/-- Whether a token can be printed behind one of a given kind without running into it. -/
def Spelling.fits (s : Spelling) (before : Option TokenKind) : Bool :=
  before.all fun k => Token.needsSpace k s.kind || !s.chars.head?.any k.takes

/-- Whether spellings have a text behind a token of a given kind, or at the beginning, and end with a token of a
given kind.  None of them runs into the next one. -/
inductive Prints : Option TokenKind → List Spelling → String → Option TokenKind → Prop where
  | nil (k : Option TokenKind) : Prints k [] "" k
  | cons {k last : Option TokenKind} {s : Spelling} {ss : List Spelling} {text : String} (hfits : s.fits k = true)
      (hmore : Prints (some s.kind) ss text last) : Prints k (s :: ss) (gapBetween k s.kind ++ s.text ++ text) last

namespace Prints

variable {k l m : Option TokenKind} {s : Spelling} {ss ss' : List Spelling} {text text' : String}

/-- One spelling. -/
theorem single (hfits : s.fits k = true) : Prints k [s] (gapBetween k s.kind ++ s.text) (some s.kind) := by
  have h : Prints k [s] (gapBetween k s.kind ++ s.text ++ "") (some s.kind) := .cons hfits (.nil _)
  rwa [String.append_empty] at h

/-- One run behind another. -/
theorem append (h : Prints k ss text l) (h' : Prints l ss' text' m) : Prints k (ss ++ ss') (text ++ text') m := by
  induction h with
  | nil k =>
    rw [List.nil_append, String.empty_append]
    exact h'
  | cons hfits _ ih =>
    rw [List.cons_append, String.append_assoc]
    exact .cons hfits (ih h')

/-- Items with a mark before each, behind a run. -/
theorem items {ι : Type} {sep : Spelling} (sepText : String) {spell : ι → List Spelling} {print : ι → String}
    {Ends : TokenKind → Prop} {last : TokenKind} (h : Prints k ss text (some last)) (hlast : Ends last) {is : List ι}
    (hitem : ∀ i ∈ is, ∀ last, Ends last →
      ∃ last', Prints (some last) (sep :: spell i) (sepText ++ print i) (some last') ∧ Ends last') :
    ∃ last', Prints k (ss ++ is.flatMap fun i => sep :: spell i)
      (text ++ String.join (is.map fun i => sepText ++ print i)) (some last') ∧ Ends last' := by
  induction is generalizing ss text last with
  | nil =>
    refine ⟨last, ?_, hlast⟩
    simpa using h
  | cons i is ih =>
    obtain ⟨last', hi, hlast'⟩ := hitem i List.mem_cons_self last hlast
    obtain ⟨last'', his, hends⟩ := ih (h.append hi) hlast' fun j hj => hitem j (List.mem_cons_of_mem i hj)
    refine ⟨last'', ?_, hends⟩
    rw [List.flatMap_cons, List.map_cons, String.join_cons, ← List.append_assoc, ← String.append_assoc]
    exact his

/-- Texts with a separator between them. -/
theorem intercalate_cons (sepText text : String) (texts : List String) :
    String.intercalate sepText (text :: texts) = text ++ String.join (texts.map fun t => sepText ++ t) := by
  induction texts generalizing text with
  | nil => simp
  | cons t ts ih =>
    rw [String.intercalate_cons_cons, ih, List.map_cons, String.join_cons, String.append_assoc, String.append_assoc]

/-- Items with a mark between them. -/
theorem separated {ι : Type} {sep : Spelling} (sepText : String) {front : String} (spell : ι → List Spelling)
    (print : ι → String) {Ends : TokenKind → Prop} {last : TokenKind} {i : ι} {is : List ι}
    (h : Prints k (spell i) (front ++ print i) (some last)) (hlast : Ends last)
    (hitem : ∀ i ∈ is, ∀ last, Ends last →
      ∃ last', Prints (some last) (sep :: spell i) (sepText ++ print i) (some last') ∧ Ends last') :
    ∃ last', Prints k (spell i ++ is.flatMap fun i => sep :: spell i)
      (front ++ String.intercalate sepText ((i :: is).map print)) (some last') ∧ Ends last' := by
  obtain ⟨last', hprints, hends⟩ := h.items sepText hlast hitem
  refine ⟨last', ?_, hends⟩
  rw [List.map_cons, intercalate_cons, List.map_map, ← String.append_assoc]
  exact hprints

/-! ## Texts of tokens -/

/-- The text of tokens is that of the spellings they stand for. -/
theorem textAfter_eq (h : Prints k ss text l) {ts : List Token}
    (hts : List.Forall₂ (fun s t => t.kind = s.kind ∧ t.lexeme = s.text) ss ts) : Token.textAfter k ts = text := by
  induction h generalizing ts with
  | nil k =>
    cases hts
    rfl
  | cons _ _ ih =>
    cases hts with
    | cons ht hts => rw [Token.textAfter, gapBetween, ht.1, ht.2, ih hts]

/-! ## Printed texts are read -/

/-- What is printed behind a token is not read as part of it. -/
theorem takes_head {before : TokenKind} (h : Prints (some before) ss text l) :
    ∀ d ∈ text.toList.head?, before.takes d = false := by
  intro d hd
  cases h with
  | nil => contradiction
  | @cons _ _ s _ _ hfits _ =>
    obtain ⟨c, cs, hchars, -⟩ := s.exists_chars
    cases hspace : Token.needsSpace before s.kind with
    | true =>
      simp [gapBetween, hspace] at hd
      rw [← hd]
      exact (takes_blank before).2
    | false =>
      simp [gapBetween, hspace, Spelling.text, hchars] at hd
      simpa [Spelling.fits, hspace, hchars, hd] using hfits

/-- Whether a token stands for a spelling and on the line of the token before it. -/
def Stands (s : Spelling) (t : Token) : Prop := t.kind = s.kind ∧ t.lexeme = s.text ∧ t.newlineBefore = false

/-- What is printed behind a token is read as the same tokens. -/
theorem lexemesFrom_eq (h : Prints k ss text l) (p : Position) : ∃ ts e,
    lexemesFrom p text.toList = ts.map .token ++ [.token e] ∧ List.Forall₂ Stands ss ts ∧ e.kind = .eof := by
  induction h generalizing p with
  | nil k =>
    obtain ⟨e, hread, heof⟩ := lexemesFrom_blank [] nofun p
    exact ⟨[], e, hread, .nil, heof⟩
  | @cons k _ s _ _ _ hmore ih =>
    have hblank : ∀ b ∈ (gapBetween k s.kind).toList, Text.isBlank b = true := by
      rw [gapBetween]
      split
      · have hspace : Text.isBlank ' ' = true := by decide
        simpa using hspace
      · nofun
    have hnewline : (gapBetween k s.kind).toList.contains '\n' = false := by
      rw [gapBetween]
      split <;> rfl
    obtain ⟨span, p', hfirst⟩ := lexemesFrom_spelling s _ hblank hmore.takes_head p
    obtain ⟨ts, e, hothers, hread, heof⟩ := ih p'
    refine ⟨⟨s.kind, s.text, span, (gapBetween k s.kind).toList.contains '\n'⟩ :: ts, e, ?_,
      .cons ⟨rfl, rfl, hnewline⟩ hread, heof⟩
    rw [String.toList_append, String.toList_append, Spelling.text, String.toList_ofList, hfirst, hothers]
    rfl

/-- A printed text is read as the same tokens. -/
theorem lexemes_eq (h : Prints none ss text l) : ∃ ts e,
    lexemes text = ts.map .token ++ [.token e] ∧ List.Forall₂ Stands ss ts ∧ e.kind = .eof := by
  have hheader : headerLength text.toList = 0 := by
    cases h with
    | nil => rfl
    | @cons _ _ s _ text _ _ =>
      have hgap : gapBetween none s.kind = "" := rfl
      rw [hgap, String.empty_append, String.toList_append, Spelling.text, String.toList_ofList]
      exact headerLength_spelling s text.toList
  rw [lexemes, hheader]
  exact h.lexemesFrom_eq _

end Prints

end ServiceCatalog
