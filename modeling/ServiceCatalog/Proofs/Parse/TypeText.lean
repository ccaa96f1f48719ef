import ServiceCatalog.Proofs.Parse.AcrossValues
import ServiceCatalog.Proofs.Parse.Nesting
import ServiceCatalog.Proofs.Parse.WrittenTypes
import ServiceCatalog.Proofs.Resolve.Renaming
import ServiceCatalog.Proofs.Token.Recognition
import ServiceCatalog.Proofs.Token.Spelling

/-!
# The text of a type that is about a named one

A type keeps the text of all its tokens.  If it is about a named type, then its tokens are those of the dotted path,
with type arguments behind its names, question marks behind them, and parentheses, annotations or the mark of a
suspending type in front.  Whatever is added to the path shows in the text as a character that no identifier has, and
it shows before the first dot unless the path goes on behind that dot.

* `Token.SpellsMarks`: tokens whose lexemes are those of their kinds, as those of a source file are.
* `Token.SpellsNamed`, `Token.SpellsType`: the tokens of a named type, and of a type that is about a named one.
* `Text.Mentions`: what a text shows of a path.
* `mentions_of_type`, `mentions_of_annotationBody`, `mentions_of_value`: the texts of types that are read.
-/

namespace ServiceCatalog

/-! ## Marks -/

/-- A mark is recognized only where it is written. -/
theorem recognizeMark_eq {k : TokenKind} {c : Char} {cs chars : List Char} (hmark : k.mark? = some chars)
    (h : (recognizeMark c cs).kind = .ok k) : c :: cs.take (recognizeMark c cs).length = chars := by
  have htwo : ∀ {d : Char}, cs.head? = some d → cs.take 1 = [d] := by
    intro d hd
    obtain ⟨rest, rfl⟩ := List.head?_eq_some_iff.mp hd
    rfl
  revert h
  unfold recognizeMark
  dsimp only
  -- one case for each character; two of them may be one mark
  split <;> (try split) <;> intro h
  all_goals first
    | contradiction
    | obtain rfl := Except.ok.inj h
      first
        | contradiction
        | exact Option.some.inj hmark
        | (rw [htwo ‹_›]; exact Option.some.inj hmark)

/-- A mark has the characters of its kind. -/
theorem recognize_eq {k : TokenKind} {c : Char} {cs chars : List Char} (hmark : k.mark? = some chars)
    (h : (recognize c cs).kind = .ok k) : Lexeme.keptText (c :: cs.take (recognize c cs).length) = chars := by
  have hnone : ∀ {kind : TokenKind}, kind.mark? = none → kind ≠ k := by
    rintro kind hkind rfl
    exact absurd (hkind.symm.trans hmark) nofun
  have hliteral : ∀ {opening e kind}, kind.mark? = none → (recognizeLiteral opening e kind cs).kind ≠ .ok k := by
    intro opening e kind hkind heq
    unfold recognizeLiteral at heq
    dsimp only at heq
    split at heq
    · exact hnone hkind (Except.ok.inj heq)
    · contradiction
  have hword : ∀ word, (TokenKind.ofWord word).mark? = none := by
    intro word
    have hwords : ∀ kind ∈ TokenKind.words, kind.mark? = none := by decide
    exact hwords _ (ofWord_mem_words word)
  have hrecognize : recognize c cs = recognizeMark c cs ∧ c ≠ '`' := by
    revert h
    unfold recognize
    dsimp only
    split
    · split <;> exact fun h => absurd h (hliteral rfl)
    split
    · exact fun h => absurd h (hliteral rfl)
    split
    · split
      · exact fun h => absurd (Except.ok.inj h) (hnone rfl)
      · exact nofun
    · next hquote =>
      split
      · exact fun h => absurd (Except.ok.inj h) (hnone rfl)
      split
      · exact fun h => absurd (Except.ok.inj h) (hnone (hword _))
      · exact fun _ => ⟨rfl, hquote⟩
  rw [keptText_of_ne hrecognize.2, hrecognize.1]
  rw [hrecognize.1] at h
  exact recognizeMark_eq hmark h
namespace Token

/-- Whether the marks among tokens are spelled as their kinds say. -/
def SpellsMarks (ts : List Token) : Prop :=
  ∀ t ∈ ts, ∀ chars, t.kind.mark? = some chars → t.lexeme = String.ofList chars

/-- Whether tokens are a name, possibly with type arguments. -/
def SpellsSegment (name : String) (ts : List Token) : Prop :=
  ∃ t arguments, ts = t :: arguments ∧ t.kind = .identifier ∧ t.lexeme = name ∧
    ∀ u us, arguments = u :: us → u.kind = .less

/-- Whether tokens are names with dots between them, each possibly with type arguments. -/
inductive SpellsNamed : List String → List Token → Prop where
  | last {name : String} {ts : List Token} : SpellsSegment name ts → SpellsNamed [name] ts
  | cons {name : String} {names : List String} {ts us : List Token} {dot : Token} : SpellsSegment name ts →
      dot.kind = .dot → SpellsNamed names us → SpellsNamed (name :: names) (ts ++ dot :: us)

/-- Whether tokens are a type about a named one: they are its tokens with question marks behind them, or they begin
with something else. -/
inductive SpellsType : List String → List Token → Prop where
  | named {names : List String} {ts marks : List Token} : SpellsNamed names ts →
      (∀ t ∈ marks, t.kind = .question) → SpellsType names (ts ++ marks)
  | opened {names : List String} {t : Token} {ts : List Token} : t.kind = .at ∨ t.kind = .leftParen →
      SpellsType names (t :: ts)
  | suspended {names : List String} {t u : Token} {ts : List Token} : t.kind = .identifier → t.lexeme = "suspend" →
      u.kind = .leftParen ∨ u.kind = .identifier → SpellsType names (t :: u :: ts)

end Token

namespace Text

/-- Whether a character is neither part of identifiers nor a dot. -/
def IsForeign (c : Char) : Prop := isIdentifierPart c = false ∧ c ≠ '.'

/-- Whether a text is a dotted path, or shows that it is more: it has a foreign character, and what stands before its
first dot has one as well unless it is the first name of a longer path. -/
def Mentions (names : List String) (text : String) : Prop :=
  text = joined '.' names ∨
    (∃ c ∈ text.toList, IsForeign c) ∧
      ∀ cut, cutFirst '.' text = some cut → (∀ c ∈ cut.1.toList, isIdentifierPart c = true) →
        ∃ more, more ≠ [] ∧ names = cut.1 :: more

variable {names : List String} {text : String}

theorem ne_dot_of_isIdentifierPart {c : Char} (h : isIdentifierPart c = true) : (c != '.') = true := by
  have hdot : isIdentifierPart '.' = false := by decide
  rw [bne_iff_ne]
  rintro rfl
  rw [hdot] at h
  contradiction

/-- A blank and the marks that types begin or go on with are foreign. -/
theorem isForeign_of_mem {c : Char} (h : c ∈ ['<', '?', '@', '(', ' ']) : IsForeign c := by
  have hall : (['<', '?', '@', '(', ' '].all fun c => !isIdentifierPart c && c != '.') = true := by decide
  simpa [IsForeign] using List.all_eq_true.mp hall c h

/-- What stands before the first mark. -/
theorem toList_fst_of_cutFirst {mark : Char} {cut : String × String} (h : cutFirst mark text = some cut) :
    cut.1.toList = text.toList.takeWhile (· != mark) := by
  rw [cutFirst] at h
  split at h
  · contradiction
  · rw [← Option.some.inj h, String.toList_ofList]

/-- A text with a foreign character behind a word mentions every path. -/
theorem mentions_of_foreign (front behind : List Char) {c : Char} (hfront : ∀ d ∈ front, isIdentifierPart d = true)
    (hc : IsForeign c) (htext : text.toList = front ++ c :: behind) : Mentions names text := by
  refine .inr ⟨⟨c, by rw [htext]; simp, hc⟩, fun cut hcut hword => ?_⟩
  have hmem : c ∈ cut.1.toList := by
    rw [toList_fst_of_cutFirst hcut, htext,
      List.takeWhile_append_of_pos fun d hd => ne_dot_of_isIdentifierPart (hfront d hd),
      List.takeWhile_cons_of_pos (by simpa using hc.2)]
    simp
  exact absurd ((hword c hmem).symm.trans hc.1) nofun

/-- A text with a foreign character behind the first name and a dot mentions the path. -/
theorem mentions_of_dot {name : String} (behind : String) (hname : ∀ d ∈ name.toList, isIdentifierPart d = true)
    (hne : names ≠ []) (hforeign : ∃ c ∈ text.toList, IsForeign c)
    (htext : text = name ++ String.singleton '.' ++ behind) : Mentions (name :: names) text := by
  refine .inr ⟨hforeign, fun cut hcut _ => ⟨names, hne, ?_⟩⟩
  have hdot : '.' ∉ name.toList := fun hmem => absurd (ne_dot_of_isIdentifierPart (hname _ hmem)) (by decide)
  rw [htext, cutFirst_append hdot] at hcut
  rw [← Option.some.inj hcut]

end Text

namespace Token

open Text (IsForeign Mentions)

variable {names : List String} {ts us : List Token} {k : Option TokenKind}

/-! ## The text of the tokens -/

theorem SpellsMarks.of_append {ts us : List Token} (h : SpellsMarks (ts ++ us)) : SpellsMarks ts ∧ SpellsMarks us :=
  ⟨fun t ht => h t (List.mem_append_left _ ht), fun t ht => h t (List.mem_append_right _ ht)⟩

/-- The first character of a mark that is no dot is foreign. -/
theorem isForeign_of_mark {k : TokenKind} {chars : List Char} (hmark : k.mark? = some chars)
    (hk : k ∈ [TokenKind.less, .question, .at, .leftParen]) : ∃ c cs, chars = c :: cs ∧ IsForeign c := by
  simp only [List.mem_cons, List.not_mem_nil, or_false] at hk
  rcases hk with rfl | rfl | rfl | rfl
  · exact ⟨'<', [], (Option.some.inj hmark).symm, Text.isForeign_of_mem (by simp)⟩
  · exact ⟨'?', [], (Option.some.inj hmark).symm, Text.isForeign_of_mem (by simp)⟩
  · exact ⟨'@', [], (Option.some.inj hmark).symm, Text.isForeign_of_mem (by simp)⟩
  · exact ⟨'(', [], (Option.some.inj hmark).symm, Text.isForeign_of_mem (by simp)⟩

/-- A mark that is no dot is spelled with a foreign character. -/
theorem exists_foreign_lexeme {t : Token} (hmarks : SpellsMarks ts) (ht : t ∈ ts)
    (hk : t.kind ∈ [TokenKind.less, .question, .at, .leftParen]) : ∃ c cs, t.lexeme.toList = c :: cs ∧ IsForeign c := by
  obtain ⟨chars, hmark⟩ : ∃ chars, t.kind.mark? = some chars := by
    simp only [List.mem_cons, List.not_mem_nil, or_false] at hk
    rcases hk with h | h | h | h <;> exact h ▸ ⟨_, rfl⟩
  obtain ⟨c, cs, rfl, hc⟩ := isForeign_of_mark hmark hk
  exact ⟨c, cs, by rw [hmarks t ht _ hmark, String.toList_ofList], hc⟩

/-- A mark that is no dot shows in the text of tokens. -/
theorem exists_foreign_of_mem {t : Token} (hmarks : SpellsMarks ts) (ht : t ∈ ts)
    (hk : t.kind ∈ [TokenKind.less, .question, .at, .leftParen]) : ∃ c ∈ (textAfter k ts).toList, IsForeign c := by
  obtain ⟨c, cs, hlexeme, hc⟩ := exists_foreign_lexeme hmarks ht hk
  refine ⟨c, ?_, hc⟩
  clear hmarks
  induction ts generalizing k with
  | nil => exact absurd ht List.not_mem_nil
  | cons u us ih =>
    rw [textAfter, String.toList_append, String.toList_append]
    rcases List.mem_cons.mp ht with rfl | ht
    · simp [hlexeme]
    · exact List.mem_append_right _ (ih ht)

/-- A name without type arguments is spelled as it is, and the type arguments of another one show. -/
theorem textAfter_segment {name : String} (us : List Token) (hk : k = none ∨ k = some .dot) (hts : SpellsSegment name ts) :
    (∃ t, ts = [t] ∧ textAfter k (ts ++ us) = name ++ textAfter (some .identifier) us) ∨
      ∃ u ∈ ts, u.kind = .less := by
  obtain ⟨t, arguments, rfl, hkind, rfl, harguments⟩ := hts
  cases arguments with
  | nil =>
    refine .inl ⟨t, rfl, ?_⟩
    rw [List.cons_append, textAfter, hkind]
    rcases hk with rfl | rfl <;> simp [needsSpace, isWordy]
  | cons u arguments => exact .inr ⟨u, by simp, harguments u arguments rfl⟩

theorem SpellsNamed.ne_nil (h : SpellsNamed names ts) : names ≠ [] := by
  cases h <;> exact nofun

/-- A dot behind a name is written close to it. -/
theorem textAfter_dot (name : String) {dot : Token} (hdot : dot.kind = .dot) (hmarks : SpellsMarks ts) (hmem : dot ∈ ts) :
    name ++ textAfter (some .identifier) (dot :: us) = name ++ String.singleton '.' ++ textAfter (some .dot) us := by
  have hlexeme : dot.lexeme = "." := hmarks dot hmem ['.'] (by rw [hdot]; rfl)
  rw [textAfter, hdot, hlexeme]
  simp [needsSpace, isWordy, String.append_assoc]

/-- Names behind a dot, or at the beginning, show as their path, or else as more. -/
theorem textAfter_named (hk : k = none ∨ k = some .dot) (hmarks : SpellsMarks (ts ++ us)) (hts : SpellsNamed names ts)
    (hus : ∀ t ∈ us, t.kind = .question) :
    textAfter k (ts ++ us) = Text.joined '.' names ∨ ∃ c ∈ (textAfter k (ts ++ us)).toList, IsForeign c := by
  induction hts generalizing k with
  | @last name ts hsegment =>
    rcases textAfter_segment us hk hsegment with ⟨t, rfl, htext⟩ | ⟨u, hu, hless⟩
    · cases us with
      | nil =>
        left
        rw [htext, Text.joined, String.intercalate_singleton]
        exact String.append_empty
      | cons q us =>
        exact .inr (exists_foreign_of_mem hmarks (t := q) (by simp) (by rw [hus q (List.mem_cons_self ..)]; decide))
    · exact .inr (exists_foreign_of_mem hmarks (List.mem_append_left _ hu) (by rw [hless]; decide))
  | @cons name names ts vs dot hsegment hdot hvs ih =>
    rw [List.append_assoc, List.cons_append] at hmarks ⊢
    rcases textAfter_segment (dot :: (vs ++ us)) hk hsegment with ⟨t, rfl, htext⟩ | ⟨u, hu, hless⟩
    · have hdotted := htext.trans (textAfter_dot name hdot hmarks (by simp))
      have hnames : names ≠ [] := hvs.ne_nil
      rcases ih (.inr rfl) (fun t ht => hmarks t (List.mem_append_right [_, _] ht)) with hpath | ⟨c, hc, hforeign⟩
      · exact .inl (by rw [hdotted, hpath, Text.joined_cons hnames])
      · exact .inr ⟨c, by rw [hdotted, String.toList_append]; exact List.mem_append_right _ hc, hforeign⟩
    · exact .inr (exists_foreign_of_mem hmarks (List.mem_append_left _ hu) (by rw [hless]; decide))

theorem isIdentifierPart_of_isWord {cs : List Char} (h : isWord cs = true) : ∀ c ∈ cs, isIdentifierPart c = true := by
  cases cs with
  | nil => exact absurd h nofun
  | cons c cs =>
    rw [isWord, Bool.and_eq_true, List.all_eq_true] at h
    refine List.forall_mem_cons.mpr ⟨?_, h.2⟩
    obtain ⟨hstart, -⟩ := h
    rw [isIdentifierStart, Bool.or_eq_true] at hstart
    simp only [isIdentifierPart, Bool.or_eq_true]
    exact hstart.imp .inl id

/-- The text of tokens that begin with a word and a mark which is no dot mentions every path. -/
theorem mentions_of_mark {t u : Token} (hword : isWord t.lexeme.toList = true) (hmarks : SpellsMarks (t :: u :: ts))
    (ht : t.kind = .identifier) (hu : u.kind ∈ [TokenKind.less, .question, .at, .leftParen]) :
    Mentions names (text (t :: u :: ts)) := by
  obtain ⟨c, cs, hchars, hc⟩ := exists_foreign_lexeme hmarks (t := u) (by simp) hu
  have hclose : needsSpace .identifier u.kind = false := by
    simp only [List.mem_cons, List.not_mem_nil, or_false] at hu
    rcases hu with h | h | h | h <;> rw [h] <;> rfl
  refine Text.mentions_of_foreign t.lexeme.toList (cs ++ (textAfter (some u.kind) ts).toList)
    (isIdentifierPart_of_isWord hword) hc ?_
  rw [text, textAfter, textAfter, ht, Option.any_some, hclose]
  simp [hchars]

/-- The text of a type mentions the path of the named type that it is about. -/
theorem mentions_of_spellsType (hmarks : SpellsMarks ts) (hwords : ∀ n ∈ names, isWord n.toList = true)
    (h : SpellsType names ts) : Mentions names (text ts) := by
  cases h with
  | @named ts marks hnamed hquestions =>
    rcases textAfter_named (.inl rfl) hmarks hnamed hquestions with hpath | hforeign
    · exact .inl hpath
    cases hnamed with
    | @last name _ hsegment =>
      obtain ⟨t, arguments, rfl, ht, rfl, harguments⟩ := hsegment
      have hword := hwords _ (List.mem_singleton_self _)
      cases arguments with
      | cons u arguments => exact mentions_of_mark hword hmarks ht (by rw [harguments u _ rfl]; decide)
      | nil =>
        cases marks with
        | nil =>
          left
          rw [Text.joined, String.intercalate_singleton]
          simp [text, textAfter]
        | cons q marks =>
          exact mentions_of_mark hword hmarks ht (by rw [hquestions q (List.mem_cons_self ..)]; decide)
    | @cons name names ts us dot hsegment hdot hus =>
      rcases textAfter_segment (dot :: (us ++ marks)) (.inl rfl) hsegment with ⟨t, rfl, htext⟩ | ⟨u, hu, hless⟩
      · refine Text.mentions_of_dot (textAfter (some .dot) (us ++ marks))
          (isIdentifierPart_of_isWord (hwords name (List.mem_cons_self ..))) hus.ne_nil hforeign ?_
        exact htext.trans (textAfter_dot name hdot hmarks (by simp))
      · obtain ⟨t, arguments, rfl, ht, rfl, harguments⟩ := hsegment
        have hword := hwords _ (List.mem_cons_self ..)
        cases arguments with
        | cons v arguments => exact mentions_of_mark hword hmarks ht (by rw [harguments v _ rfl]; decide)
        | nil =>
          obtain rfl := List.mem_singleton.mp hu
          exact absurd (ht.symm.trans hless) (by simp)
  | @opened t ts hkind =>
    obtain ⟨c, cs, hchars, hc⟩ := exists_foreign_lexeme hmarks (t := t) (by simp)
      (by rcases hkind with h | h <;> rw [h] <;> decide)
    refine Text.mentions_of_foreign [] (cs ++ (textAfter (some t.kind) ts).toList) (by simp) hc ?_
    simp [text, textAfter, hchars]
  | @suspended t u ts ht hlexeme hu =>
    have hword : isWord t.lexeme.toList = true := by rw [hlexeme]; decide
    rcases hu with hu | hu
    · exact mentions_of_mark hword hmarks ht (by rw [hu]; decide)
    · refine Text.mentions_of_foreign t.lexeme.toList (u.lexeme.toList ++ (textAfter (some u.kind) ts).toList)
        (isIdentifierPart_of_isWord hword) (Text.isForeign_of_mem (c := ' ') (by simp)) ?_
      rw [text, textAfter, textAfter, ht, hu]
      simp [needsSpace, isWordy]

end Token

/-! ## What is passed -/

namespace Cursor

variable {S S' : List Token → Prop} {c c' c'' : Cursor}

/-- Two runs, one behind the other. -/
theorem LeadsBy.comp (h : c.LeadsBy S c') (h' : c'.LeadsBy S' c'') :
    c.LeadsBy (fun ts => ∃ us vs, ts = us ++ vs ∧ S us ∧ S' vs) c'' := by
  obtain ⟨us, hus, heof, hS⟩ := h
  obtain ⟨vs, hvs, heof', hS'⟩ := h'
  exact ⟨us ++ vs, by rw [hus, hvs, List.append_assoc], heof'.trans heof, us, vs, rfl, hS, hS'⟩

/-- A run behind a token that is passed. -/
theorem LeadsBy.cons (hc : c.Sound) (hkind : c.kind ≠ .eof) (h : c.advance.LeadsBy S c') :
    c.LeadsBy (fun ts => ∃ us, ts = c.peek :: us ∧ S us) c' := by
  obtain ⟨t, ts, hrest, hpeek⟩ := hc.exists_cons hkind
  obtain ⟨us, hus, heof, hS⟩ := h
  have hadvance : c.advance.rest = ts := by rw [advance, hrest]
  exact ⟨t :: us, by rw [hrest, ← hadvance, hus]; rfl, heof.trans (eof_advance c), us, by rw [hpeek], hS⟩

/-- A run is not empty if a token has been passed. -/
theorem LeadsBy.of_size_lt (h : c.LeadsBy S c') (hsize : c'.size < c.size) :
    c.LeadsBy (fun ts => S ts ∧ ∃ us, ts = c.peek :: us) c' := by
  obtain ⟨_ | ⟨t, ts⟩, hts, heof, hS⟩ := h
  · rw [List.nil_append] at hts
    rw [size, size, hts] at hsize
    omega
  · refine ⟨t :: ts, hts, heof, hS, ts, ?_⟩
    rw [peek, peekNth, hts]
    rfl

/-- The tokens between two cursors are the run from the one to the other. -/
theorem LeadsBy.between (h : c.LeadsBy S c') : c.LeadsBy (fun ts => c.between c' = ts ∧ S ts) c' := by
  obtain ⟨ts, hts, heof, hS⟩ := h
  refine ⟨ts, hts, heof, ?_, hS⟩
  rw [Cursor.between, size, size, hts, List.length_append, Nat.add_sub_cancel, List.take_left]

end Cursor

namespace TokenParser

open Cursor Token

section Named

variable {type : TokenParser TypeRef} (htype : Passes false false (fun _ => True) type) {c c' : Cursor}

include htype

theorem leadsBy_typeSegment {start : Span} {s : TypeSegment} (hc : c.Sound) (h : typeSegment type start c = .ok s c') :
    c.LeadsBy (SpellsSegment s.name.name) c' := by
  unfold typeSegment at h
  obtain ⟨name, c₁, hname, h⟩ := bind_eq_ok.mp h
  obtain ⟨hkind, rfl, rfl⟩ := identifier_eq_ok.mp hname
  obtain ⟨hasArguments, _, htest, h⟩ := bind_eq_ok.mp h
  cases htest
  have harguments : c.advance.LeadsBy (fun us => ∀ u vs, us = u :: vs → u.kind = .less) c' ∧
      s.name.name = c.peek.lexeme := by
    cases hless : c.advance.isAt .less with
    | false =>
      simp only [hless] at h
      obtain ⟨_, _, hnone, h⟩ := bind_eq_ok.mp h
      cases hnone
      obtain ⟨span, _, hspan, h⟩ := bind_eq_ok.mp h
      cases hspan
      cases h
      exact ⟨⟨[], rfl, rfl, by simp⟩, rfl⟩
    | true =>
      simp only [hless] at h
      obtain ⟨arguments, c₂, harguments, h⟩ := bind_eq_ok.mp h
      have hrun := takes_typeArguments (P := fun _ => True) htype c.advance hc.advance trivial _ _ harguments
      obtain ⟨span, _, hspan, h⟩ := bind_eq_ok.mp h
      cases hspan
      cases h
      obtain ⟨us, hus, heof, -⟩ := hrun
      refine ⟨⟨us, hus, heof, ?_⟩, rfl⟩
      rintro u vs rfl
      have hfirst : c.advance.peek = u := by rw [peek, peekNth, hus]; rfl
      exact hfirst ▸ isAt_iff.mp hless
  obtain ⟨us, hus, heof, args, rfl, hless⟩ := LeadsBy.cons hc (by rw [hkind]; decide) harguments.1
  exact ⟨_, hus, heof, c.peek, args, rfl, hkind, harguments.2.symm, hless⟩

/-- A name behind a dot. -/
theorem leadsBy_dotSegment {start : Span} {s : TypeSegment} (hc : c.Sound) (hdot : isAtDotIdentifier c = true)
    (h : (do let _ ← next; typeSegment type start : TokenParser TypeSegment) c = .ok s c') :
    c.LeadsBy (fun us => ∃ dot ts, us = dot :: ts ∧ dot.kind = .dot ∧ SpellsSegment s.name.name ts) c' := by
  have hkind : c.kind = .dot := isAt_iff.mp (kind_of_isAtDotIdentifier hdot)
  obtain ⟨_, _, hnext, h⟩ := bind_eq_ok.mp h
  cases hnext
  obtain ⟨us, hus, heof, ts, rfl, hts⟩ := LeadsBy.cons hc (by rw [hkind]; nofun) (leadsBy_typeSegment htype hc.advance h)
  exact ⟨_, hus, heof, c.peek, ts, rfl, hkind, hts⟩

/-- Further names, each behind a dot. -/
theorem leadsBy_typeSegments {start : Span} {ss : List TypeSegment} (hc : c.Sound)
    (h : manyWhile isAtDotIdentifier (do let _ ← next; typeSegment type start) c = .ok ss c') :
    c.LeadsBy (fun us => ∀ name ts, SpellsSegment name ts →
      SpellsNamed (name :: ss.map fun s => s.name.name) (ts ++ us)) c' := by
  have hnil : ∀ d : Cursor, d.LeadsBy (fun us => ∀ name ts, SpellsSegment name ts →
      SpellsNamed (name :: ([] : List TypeSegment).map fun s => s.name.name) (ts ++ us)) d :=
    fun d => ⟨[], rfl, rfl, fun name ts hts => by rw [List.append_nil]; exact .last hts⟩
  have hcons : ∀ {d d' d'' : Cursor} {s : TypeSegment} {ss : List TypeSegment},
      d.LeadsBy (fun us => ∃ dot ts, us = dot :: ts ∧ dot.kind = .dot ∧ SpellsSegment s.name.name ts) d' →
      d'.LeadsBy (fun us => ∀ name ts, SpellsSegment name ts →
        SpellsNamed (name :: ss.map fun s => s.name.name) (ts ++ us)) d'' →
      d.LeadsBy (fun us => ∀ name ts, SpellsSegment name ts →
        SpellsNamed (name :: (s :: ss).map fun s => s.name.name) (ts ++ us)) d'' := by
    intro d d' d'' s ss hfirst hothers
    obtain ⟨_, hts, heof, _, vs, rfl, ⟨dot, us, rfl, hdot, hus⟩, hvs⟩ := hfirst.comp hothers
    exact ⟨_, hts, heof, fun name ts hname => .cons hname hdot (hvs _ _ hus)⟩
  generalize hitem : (do let _ ← next; typeSegment type start : TokenParser TypeSegment) = item at h
  fun_induction manyWhile isAtDotIdentifier item c generalizing ss c' with
  | case1 c ht e c'' herror => contradiction
  | case2 c ht a c₁ hfirst hsize e c₂ herror => contradiction
  | case3 c ht a c₁ hfirst hsize as' c₂ hothers ih =>
    cases h
    have hlead := leadsBy_dotSegment htype hc ht (hitem ▸ hfirst)
    exact hcons hlead (ih (hlead.sound hc) hothers)
  | case4 c ht a c₁ hfirst hsize =>
    cases h
    exact hcons (leadsBy_dotSegment htype hc ht (hitem ▸ hfirst)) (hnil _)
  | case5 c ht =>
    cases h
    exact hnil _

theorem leadsBy_userTypeWith {u : UserType} (hc : c.Sound) (h : userTypeWith type c = .ok u c') :
    c.LeadsBy (SpellsNamed u.names) c' := by
  unfold userTypeWith at h
  obtain ⟨start, _, hstart, h⟩ := bind_eq_ok.mp h
  cases hstart
  obtain ⟨first, c₁, hfirst, h⟩ := bind_eq_ok.mp h
  have hlead := leadsBy_typeSegment htype hc hfirst
  obtain ⟨others, c₂, hothers, h⟩ := bind_eq_ok.mp h
  cases h
  obtain ⟨ts, hts, heof, us, vs, rfl, hus, hvs⟩ := hlead.comp (leadsBy_typeSegments htype (hlead.sound hc) hothers)
  refine ⟨us ++ vs, hts, heof, ?_⟩
  rw [UserType.names, segments_userTypeOf]
  exact hvs _ _ hus

end Named

/-- Question marks do not change what a type is about. -/
theorem userType?_nullable (n : Nat) (e : TypeElement) : (nullable n e).userType? = e.userType? := by
  induction n generalizing e with
  | zero => rfl
  | succ n ih => exact ih (.nullable e)

/-- A function type is not about a named one. -/
theorem userType?_functionTail {type : TokenParser TypeRef} {start : Span} {c c' : Cursor} {e : TypeElement}
    (h : functionTail type start c = .ok e c') : e.userType? = none := by
  unfold functionTail at h
  obtain ⟨closed, _, -, h⟩ := bind_eq_ok.mp h
  cases closed with
  | true =>
    obtain ⟨_, _, hfail, -⟩ := bind_eq_ok.mp h
    contradiction
  | false =>
    obtain ⟨_, _, -, h⟩ := bind_eq_ok.mp h
    obtain ⟨_, _, -, h⟩ := bind_eq_ok.mp h
    obtain ⟨_, _, -, h⟩ := bind_eq_ok.mp h
    obtain ⟨_, _, -, h⟩ := bind_eq_ok.mp h
    cases h
    rfl

/-- A repetition of tokens of one kind. -/
theorem leadsBy_marks {k : TokenKind} {c c' : Cursor} {marks : List Token} (hc : c.Sound) (hk : k ≠ .eof)
    (h : manyWhile (·.isAt k) next c = .ok marks c') : c.LeadsBy (fun ts => ∀ t ∈ ts, t.kind = k) c' := by
  have hnext : ∀ {d : Cursor}, d.Sound → d.isAt k = true → d.LeadsBy (fun ts => ∀ t ∈ ts, t.kind = k) d.advance := by
    intro d hd hat
    obtain ⟨t, ts, hrest, hpeek⟩ := hd.exists_cons (by rw [isAt_iff.mp hat]; exact hk)
    refine ⟨[t], by rw [hrest, advance, hrest]; rfl, eof_advance d, fun u hu => ?_⟩
    rw [List.mem_singleton.mp hu, ← hpeek]
    exact isAt_iff.mp hat
  fun_induction manyWhile (·.isAt k) next c generalizing marks c' with
  | case1 c ht e c'' herror => contradiction
  | case2 c ht a c₁ hfirst hsize e c₂ herror => contradiction
  | case3 c ht a c₁ hfirst hsize as' c₂ hothers ih =>
    cases h
    cases hfirst
    obtain ⟨ts, hts, heof, us, vs, rfl, hus, hvs⟩ := (hnext hc ht).comp (ih hc.advance hothers)
    exact ⟨_, hts, heof, List.forall_mem_append.mpr ⟨hus, hvs⟩⟩
  | case4 c ht a c₁ hfirst hsize =>
    cases h
    cases hfirst
    exact hnext hc ht
  | case5 c ht =>
    cases h
    exact ⟨[], rfl, rfl, by simp⟩

section Types

variable {type : TokenParser TypeRef} {value : TokenParser Expr} (htype : Passes false false (fun _ => True) type)
  (hvalue : Passes false true (fun _ => True) value) (hmoves : ∀ n, Forward n type) {c c' : Cursor}

include htype hmoves

theorem leadsBy_typeElement {e : TypeElement} {u : UserType} (hc : c.Sound) (he : e.userType? = some u)
    (h : typeElement type c = .ok e c') : c.LeadsBy (SpellsType u.names) c' := by
  have hless := consumes_typeElement (P := fun _ => True) hmoves c hc trivial e c' h
  have hopened : c.kind = .leftParen → c.LeadsBy (SpellsType u.names) c' := by
    intro hkind
    obtain ⟨ts, hts, heof, -, us, rfl⟩ :=
      (takes_typeElement (P := fun _ => True) htype c hc trivial e c' h).of_size_lt hless
    exact ⟨_, hts, heof, .opened (.inr hkind)⟩
  rw [typeElement_eq] at h
  obtain ⟨_, _, hhere, h⟩ := bind_eq_ok.mp h
  cases hhere
  obtain ⟨e₀, c₁, helement, h⟩ := bind_eq_ok.mp h
  obtain ⟨marks, c₂, hmarks, h⟩ := bind_eq_ok.mp h
  cases h
  rw [userType?_nullable] at he
  cases hkind : c.kind
  case leftParen => exact hopened hkind
  case identifier =>
    rw [hkind] at helement
    have helement : namedOrFunction type c = .ok e₀ c₁ := helement
    unfold namedOrFunction at helement
    obtain ⟨_, _, hstart, helement⟩ := bind_eq_ok.mp helement
    cases hstart
    obtain ⟨user, c₃, huser, helement⟩ := bind_eq_ok.mp helement
    obtain ⟨isFunction, _, htest, helement⟩ := bind_eq_ok.mp helement
    cases htest
    split at helement
    · obtain ⟨_, _, -, helement⟩ := bind_eq_ok.mp helement
      rw [userType?_functionTail helement] at he
      contradiction
    · cases helement
      cases he
      have hnamed := leadsBy_userTypeWith htype hc huser
      obtain ⟨_, hts, heof, us, vs, rfl, hus, hvs⟩ := hnamed.comp (leadsBy_marks (k := .question) (hnamed.sound hc) nofun hmarks)
      exact ⟨_, hts, heof, .named hus hvs⟩
  all_goals
    rw [hkind] at helement
    contradiction

include hvalue

/-- The tokens of a type, with its text. -/
theorem leadsBy_typeWith {t : TypeRef} {u : UserType} (hc : c.Sound) (ht : t.userType? = some u)
    (h : typeWith type value c = .ok t c') :
    c.LeadsBy (fun ts => t.text = Token.text ts ∧ SpellsType u.names ts) c' := by
  have hrun := takes_typeWith (P := fun _ => True) htype hvalue c hc trivial t c' h
  unfold typeWith at h
  obtain ⟨_, _, hhere, h⟩ := bind_eq_ok.mp h
  cases hhere
  obtain ⟨as, c₁, hannotations, h⟩ := bind_eq_ok.mp h
  have hlead : c.Leads false false c₁ :=
    Takes.manyWhile (P := fun _ => True) (takes_annotationWith htype hvalue) c hc trivial as c₁ hannotations
  have hc₁ := hlead.sound hc
  obtain ⟨suspended, _, htest, h⟩ := bind_eq_ok.mp h
  cases htest
  -- what is read behind the annotations, and behind the mark of a suspending type
  have hread : ∀ {d : Cursor}, d.Sound → (do
      let element ← typeElement type
      return (⟨element, as, ← textSince c, ← spanFrom c.peek.span⟩ : TypeRef)) d = .ok t c' →
      d.LeadsBy (SpellsType u.names) c' ∧ c'.size < d.size ∧ t.text = Token.text (c.between c') := by
    intro d hd h
    obtain ⟨element, c₂, helement, h⟩ := bind_eq_ok.mp h
    obtain ⟨_, _, htext, h⟩ := bind_eq_ok.mp h
    cases htext
    obtain ⟨_, _, hspan, h⟩ := bind_eq_ok.mp h
    cases hspan
    cases h
    exact ⟨leadsBy_typeElement htype hmoves hd ht helement,
      consumes_typeElement (P := fun _ => True) hmoves d hd trivial _ _ helement, rfl⟩
  have hspells : c.LeadsBy (SpellsType u.names) c' ∧ t.text = Token.text (c.between c') := by
    cases hsuspend : isAtSuspend c₁ with
    | false =>
      simp only [hsuspend] at h
      obtain ⟨hnamed, hsize, htext⟩ := hread hc₁ h
      refine ⟨?_, htext⟩
      by_cases hat : c.isAt .at = true
      · obtain ⟨_, hts, heof, -, us, rfl⟩ := hrun.of_size_lt (hsize.trans_le hlead.size_le)
        exact ⟨_, hts, heof, .opened (.inl (isAt_iff.mp hat))⟩
      · rw [manyWhile, if_neg hat] at hannotations
        cases hannotations
        exact hnamed
    | true =>
      simp only [hsuspend] at h
      obtain ⟨_, _, hnext, h⟩ := bind_eq_ok.mp h
      cases hnext
      obtain ⟨hnamed, hsize, htext⟩ := hread hc₁.advance h
      refine ⟨?_, htext⟩
      by_cases hat : c.isAt .at = true
      · have hsize' : c'.size < c.size := by
          have := hlead.size_le
          rw [size_advance] at hsize
          omega
        obtain ⟨_, hts, heof, -, us, rfl⟩ := hrun.of_size_lt hsize'
        exact ⟨_, hts, heof, .opened (.inl (isAt_iff.mp hat))⟩
      · rw [manyWhile, if_neg hat] at hannotations
        cases hannotations
        rw [isAtSuspend, Bool.and_eq_true, Bool.or_eq_true, beq_iff_eq, beq_iff_eq] at hsuspend
        obtain ⟨hword, hsecond⟩ := hsuspend
        have hkind : c.kind = .identifier := kind_of_isAtWord hword
        have hend : c.kind ≠ .eof := by rw [hkind]; decide
        obtain ⟨_, hts, heof, _, rfl, -, us, rfl⟩ := LeadsBy.cons hc hend (hnamed.of_size_lt hsize)
        rw [isAtWord, Bool.and_eq_true, beq_iff_eq] at hword
        exact ⟨_, hts, heof, .suspended hkind hword.2 (by rw [← kind_advance hc hend] at hsecond; exact hsecond)⟩
  obtain ⟨ts, hts, heof, hbetween, hts'⟩ := hspells.1.between
  exact ⟨ts, hts, heof, by rw [hspells.2, hbetween], hts'⟩

end Types

end TokenParser

/-! ## Types of a source file -/

/-- Whether a cursor stands in a source file. -/
def Cursor.InSource (c : Cursor) : Prop := ∃ source n, c = (Parser.ofSource source).cursor.skip n

namespace Cursor.InSource

variable {c : Cursor} (h : c.InSource)

include h

protected theorem sound : c.Sound := by
  obtain ⟨source, n, rfl⟩ := h
  exact (Precedes.skip n).sound (Parser.ofSource_cursor source).1

/-- The marks of a source file are spelled as their kinds say. -/
protected theorem spellsMarks : Token.SpellsMarks c.rest := by
  obtain ⟨source, n, rfl⟩ := h
  intro t ht chars hmark
  have hmem : t ∈ tokensOf source := by
    rw [(Parser.ofSource_cursor source).2]
    exact List.mem_append_left _ (List.mem_of_mem_drop ht)
  rcases exists_recognized_of_mem (token_mem_of_mem_filterMap hmem) with heof | ⟨d, rest, hkind, hlexeme⟩
  · rw [heof] at hmark
    contradiction
  · rw [hlexeme, recognize_eq hmark hkind]

end Cursor.InSource

namespace TokenParser

open Cursor Token

variable {c c' : Cursor} {u : UserType} (hc : c.InSource) (hwords : ∀ n ∈ u.names, isWord n.toList = true)

include hc hwords

/-- The text of a type that is read mentions the path of the named type that it is about. -/
theorem mentions_of_type {t : TypeRef} (ht : t.userType? = some u) (h : type c = .ok t c') :
    Text.Mentions u.names t.text := by
  have hmarks := hc.spellsMarks
  have htypes : Passes false false (fun _ => True) (below c fun d _ => type d) :=
    takes_below fun d hd _ => passes_type (P := fun _ => True) d hd trivial
  have hvalues : Passes false true (fun _ => True) (below c fun d _ => value d) :=
    takes_below fun d hd _ => passes_value (P := fun _ => True) d hd trivial
  rw [type] at h
  obtain ⟨ts, hts, -, htext, hspells⟩ := leadsBy_typeWith htypes hvalues (forward_below forward_type) hc.sound ht h
  rw [htext]
  exact mentions_of_spellsType (hts ▸ hmarks).of_append.1 hwords hspells

/-- The text of the name of an annotation that is read mentions its path. -/
theorem mentions_of_annotationBody {start : Span} {useSite : Option Ident} {a : AnnotationUse}
    (ha : a.type.userType? = some u) (h : annotationBody type value start useSite c = .ok a c') :
    Text.Mentions u.names a.type.text := by
  have hmarks := hc.spellsMarks
  unfold annotationBody at h
  obtain ⟨_, _, hhere, h⟩ := bind_eq_ok.mp h
  cases hhere
  obtain ⟨user, c₁, huser, h⟩ := bind_eq_ok.mp h
  obtain ⟨_, _, htext, h⟩ := bind_eq_ok.mp h
  cases htext
  obtain ⟨_, _, hspan, h⟩ := bind_eq_ok.mp h
  cases hspan
  have htype : ∃ span, a.type = ⟨.user user, [], Token.text (c.between c₁), span⟩ := by
    obtain ⟨hasArguments, _, htest, h⟩ := bind_eq_ok.mp h
    cases htest
    split at h
    all_goals
      obtain ⟨_, _, -, h⟩ := bind_eq_ok.mp h
      obtain ⟨_, _, -, h⟩ := bind_eq_ok.mp h
      cases h
      exact ⟨_, rfl⟩
  obtain ⟨span, htype⟩ := htype
  rw [htype] at ha ⊢
  obtain rfl := Option.some.inj ha
  obtain ⟨ts, hts, -, hbetween, hspells⟩ := (leadsBy_userTypeWith passes_type hc.sound huser).between
  rw [hbetween]
  have hnamed : SpellsType user.names (ts ++ []) := .named hspells nofun
  rw [List.append_nil] at hnamed
  exact mentions_of_spellsType (hts ▸ hmarks).of_append.1 hwords hnamed

end TokenParser

/-! ## Types of class literals -/

namespace UserType

/-- Segments are written as their names, or else their type arguments show. -/
theorem joined_render (ss : List TypeSegment) :
    Text.joined '.' (ss.map TypeSegment.render) = Text.joined '.' (ss.map fun s => s.name.name) ∨
      ∃ c ∈ (Text.joined '.' (ss.map TypeSegment.render)).toList, Text.IsForeign c := by
  have hsegment : ∀ s : TypeSegment, s.render = s.name.name ∨ ∃ c ∈ s.render.toList, Text.IsForeign c := by
    intro s
    rw [TypeSegment.render]
    split
    · exact .inl rfl
    · exact .inr ⟨'<', by simp, Text.isForeign_of_mem (by simp)⟩
  induction ss with
  | nil => exact .inl rfl
  | cons s ss ih =>
    cases ss with
    | nil =>
      simp only [List.map_cons, List.map_nil, Text.joined, String.intercalate_singleton]
      exact hsegment s
    | cons s' ss =>
      have hcons : ∀ f : TypeSegment → String, Text.joined '.' ((s :: s' :: ss).map f) =
          f s ++ String.singleton '.' ++ Text.joined '.' ((s' :: ss).map f) :=
        fun f => Text.joined_cons (by simp)
      rw [hcons, hcons]
      rcases hsegment s, ih with ⟨hs | ⟨c, hc, hforeign⟩, hss | ⟨d, hd, hforeign'⟩⟩
      · exact .inl (by rw [hs, hss])
      · exact .inr ⟨d, by rw [String.toList_append]; exact List.mem_append_right _ hd, hforeign'⟩
      all_goals
        refine .inr ⟨c, ?_, hforeign⟩
        rw [String.toList_append, String.toList_append]
        exact List.mem_append_left _ (List.mem_append_left _ hc)

/-- The written form of a named type mentions its path. -/
theorem mentions_render (u : UserType) (hwords : ∀ n ∈ u.names, isWord n.toList = true) :
    Text.Mentions u.names u.render := by
  rw [names] at hwords ⊢
  rw [render]
  obtain ⟨s, ss, hsegments⟩ : ∃ s ss, u.segments = s :: ss := List.exists_cons_of_ne_nil (by simp [segments])
  rw [hsegments] at hwords ⊢
  have hname := Token.isIdentifierPart_of_isWord (hwords s.name.name (List.mem_cons_self ..))
  obtain ⟨behind, hbehind⟩ : ∃ behind, Text.joined '.' ((s :: ss).map TypeSegment.render) = s.render ++ behind := by
    cases ss with
    | nil => exact ⟨"", by simp [Text.joined]⟩
    | cons s' ss =>
      refine ⟨String.singleton '.' ++ Text.joined '.' ((s' :: ss).map TypeSegment.render), ?_⟩
      rw [← String.append_assoc]
      exact Text.joined_cons (by simp)
  by_cases hempty : s.arguments.isEmpty = true
  · rcases joined_render (s :: ss) with hpath | hforeign
    · exact .inl hpath
    · have hrender : s.render = s.name.name := by rw [TypeSegment.render, if_pos hempty]
      cases ss with
      | nil =>
        left
        simp [Text.joined, hrender]
      | cons s' ss =>
        refine Text.mentions_of_dot (Text.joined '.' ((s' :: ss).map TypeSegment.render)) hname (by simp) hforeign ?_
        have hcons : Text.joined '.' (s.render :: (s' :: ss).map TypeSegment.render) =
            s.render ++ String.singleton '.' ++ Text.joined '.' ((s' :: ss).map TypeSegment.render) :=
          Text.joined_cons (by simp)
        rw [hrender] at hcons
        exact (congrArg (Text.joined '.') (by rw [List.map_cons, hrender])).trans hcons
  · refine Text.mentions_of_foreign s.name.name.toList
      ((String.intercalate ", " (s.arguments.map TypeArgument.text) ++ ">" ++ behind).toList) hname
      (Text.isForeign_of_mem (c := '<') (by simp)) ?_
    rw [hbehind, TypeSegment.render, if_neg hempty]
    simp

end UserType

namespace TokenParser

/-- The receiver of a class literal with type arguments keeps its written form. -/
theorem text_of_receiver {type : TokenParser TypeRef} {c c' : Cursor} {t : TypeRef}
    (h : receiver type c = .ok (.type t) c') : ∃ u : UserType, t.element = .user u ∧ t.text = u.render := by
  unfold receiver at h
  obtain ⟨start, _, -, h⟩ := bind_eq_ok.mp h
  obtain ⟨first, _, -, h⟩ := bind_eq_ok.mp h
  obtain ⟨others, _, -, h⟩ := bind_eq_ok.mp h
  obtain ⟨hasArguments, _, -, h⟩ := bind_eq_ok.mp h
  cases hasArguments with
  | true =>
    obtain ⟨arguments, _, -, h⟩ := bind_eq_ok.mp h
    obtain ⟨span, _, -, h⟩ := bind_eq_ok.mp h
    cases h
    exact ⟨_, rfl, rfl⟩
  | false =>
    cases others with
    | nil => cases h
    | cons other others =>
      obtain ⟨span, _, -, h⟩ := bind_eq_ok.mp h
      cases h

/-- What is read as text is no class literal. -/
theorem exists_other_of_otherValue {c c' : Cursor} {e : Expr} (h : otherValue c = .ok e c') :
    ∃ text span, e = .other text span := by
  unfold otherValue at h
  obtain ⟨_, _, -, h⟩ := bind_eq_ok.mp h
  obtain ⟨_, _, -, h⟩ := bind_eq_ok.mp h
  obtain ⟨isBrace, _, -, h⟩ := bind_eq_ok.mp h
  cases isBrace with
  | true =>
    obtain ⟨_, _, hfail, -⟩ := bind_eq_ok.mp h
    contradiction
  | false =>
    obtain ⟨isEmpty, _, -, h⟩ := bind_eq_ok.mp h
    cases isEmpty with
    | true =>
      obtain ⟨_, _, hfail, -⟩ := bind_eq_ok.mp h
      contradiction
    | false =>
      obtain ⟨_, _, -, h⟩ := bind_eq_ok.mp h
      obtain ⟨_, _, -, h⟩ := bind_eq_ok.mp h
      cases h
      exact ⟨_, _, rfl⟩

/-- So does a class literal that is the value of an argument. -/
theorem text_of_value {c c' : Cursor} {t : TypeRef} {span : Span}
    (h : value c = .ok (.classLiteral (.type t) span) c') : ∃ u : UserType, t.element = .user u ∧ t.text = u.render := by
  rw [value] at h
  unfold valueWith at h
  obtain ⟨_, _, hhere, h⟩ := bind_eq_ok.mp h
  cases hhere
  obtain ⟨structured, c₁, hstructured, h⟩ := bind_eq_ok.mp h
  obtain ⟨_, _, hhere, h⟩ := bind_eq_ok.mp h
  cases hhere
  generalize isAtArgumentEnd c₁ = ended at h
  split at h
  · next e =>
    cases h
    unfold structuredValue at hstructured
    obtain ⟨isCollection, _, htest, hstructured⟩ := bind_eq_ok.mp hstructured
    cases htest
    split at hstructured
    · obtain ⟨e, _, hcollection, hstructured⟩ := bind_eq_ok.mp hstructured
      cases hstructured
      unfold collection at hcollection
      obtain ⟨_, _, -, hcollection⟩ := bind_eq_ok.mp hcollection
      obtain ⟨_, _, -, hcollection⟩ := bind_eq_ok.mp hcollection
      obtain ⟨_, _, -, hcollection⟩ := bind_eq_ok.mp hcollection
      obtain ⟨_, _, -, hcollection⟩ := bind_eq_ok.mp hcollection
      cases hcollection
    · unfold attempt at hstructured
      split at hstructured
      · next hliteral =>
        cases hstructured
        unfold classLiteral at hliteral
        obtain ⟨_, _, -, hliteral⟩ := bind_eq_ok.mp hliteral
        obtain ⟨receiver, _, hreceiver, hliteral⟩ := bind_eq_ok.mp hliteral
        obtain ⟨_, _, -, hliteral⟩ := bind_eq_ok.mp hliteral
        obtain ⟨_, _, -, hliteral⟩ := bind_eq_ok.mp hliteral
        obtain ⟨_, _, -, hliteral⟩ := bind_eq_ok.mp hliteral
        cases hliteral
        exact text_of_receiver hreceiver
      · cases hstructured
  · obtain ⟨_, _, -, h⟩ := bind_eq_ok.mp h
    obtain ⟨text, span, hother⟩ := exists_other_of_otherValue h
    contradiction

end TokenParser

end ServiceCatalog
