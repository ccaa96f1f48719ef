import Mathlib.Data.List.Forall2
import ServiceCatalog.Token.Lexeme

/-!
# Written tokens are read back

A `Spelling` is a token as it can be written: a mark, or a word that needs no quotes, with its kind.  `written`
writes spellings one behind the other, as a program is written by hand: on lines, with a space between two tokens
unless one of them is a mark that is written close to the other, and with a space also there where the two would
be read as something else.

* `lexemesFrom_written`: what is written is read as the same tokens, and a line feed stands only before those that
  begin a line.
-/

namespace ServiceCatalog

/-! ## Spellings -/

/-- The characters of the marks whose kind says how they are written. -/
def TokenKind.mark? : TokenKind → Option (List Char)
  | leftParen => some ['(']
  | rightParen => some [')']
  | leftBracket => some ['[']
  | rightBracket => some [']']
  | leftBrace => some ['{']
  | rightBrace => some ['}']
  | comma => some [',']
  | dot => some ['.']
  | colon => some [':']
  | colonColon => some [':', ':']
  | question => some ['?']
  | «at» => some ['@']
  | less => some ['<']
  | greater => some ['>']
  | star => some ['*']
  | equal => some ['=']
  | _ => none

/-- Whether characters are a word: an identifier without quotes, or a keyword. -/
def isWord : List Char → Bool
  | [] => false
  | c :: cs => isIdentifierStart c && cs.all isIdentifierPart

/-- Whether characters are a word of a kind or the mark of the kind. -/
def spells (kind : TokenKind) (chars : List Char) : Bool :=
  kind.mark? == some chars || (isWord chars && TokenKind.ofWord (String.ofList chars) == kind)

/-- A token as it is written. -/
structure Spelling where
  kind : TokenKind
  chars : List Char
  valid : spells kind chars = true

namespace Spelling

/-- The text of the token. -/
def text (s : Spelling) : String := String.ofList s.chars

/-- A mark. -/
def mark (kind : TokenKind) (h : kind.mark?.isSome = true := by decide) : Spelling :=
  ⟨kind, kind.mark?.get h, by simp [spells]⟩

/-- A word. -/
def word (w : String) (h : isWord w.toList = true := by decide) : Spelling :=
  ⟨.ofWord w, w.toList, by simp [spells, h]⟩

@[simp] theorem kind_mark (kind : TokenKind) (h : kind.mark?.isSome = true) : (mark kind h).kind = kind := rfl

@[simp] theorem kind_word (w : String) (h : isWord w.toList = true) : (word w h).kind = .ofWord w := rfl

@[simp] theorem text_word (w : String) (h : isWord w.toList = true) : (word w h).text = w := String.ofList_toList

end Spelling

/-! ## Writing -/

/-- Whether a character directly behind a token would be read as part of it. -/
def TokenKind.takes : TokenKind → Char → Bool
  | less, d | greater, d | star, d | equal, d => d = '='
  | question, d | colon, d => d = ':'
  | dot, d => d = '.'
  | leftParen, _ | rightParen, _ | leftBracket, _ | rightBracket, _ | leftBrace, _ | rightBrace, _ | comma, _
  | colonColon, _ | «at», _ => false
  | _, d => isIdentifierPart d

/-- Whether the next token is written close to this one. -/
def TokenKind.isCloseBehind : TokenKind → Bool
  | leftParen | leftBracket | dot | colonColon | «at» | less => true
  | _ => false

/-- Whether this token is written close to the one before it. -/
def TokenKind.isCloseBefore : TokenKind → Bool
  | leftParen | rightParen | rightBracket | comma | dot | colonColon | question | less | greater => true
  | _ => false

/-- What is written between a token and the next one, which begins a line or not. -/
def blankBetween (before : TokenKind) (startsLine : Bool) (s : Spelling) : List Char :=
  if startsLine then ['\n']
  else if (before.isCloseBehind || s.kind.isCloseBefore) && !s.chars.head?.any before.takes then []
  else [' ']

/-- Spellings written one behind the other, with a line feed before those that begin a line and at the end. -/
def writtenFrom (before : TokenKind) : List (Bool × Spelling) → List Char
  | [] => ['\n']
  | (startsLine, s) :: ss => blankBetween before startsLine s ++ s.chars ++ writtenFrom s.kind ss

/-- A text whose first token begins it. -/
def written : List (Bool × Spelling) → List Char
  | [] => []
  | (_, s) :: ss => s.chars ++ writtenFrom s.kind ss

/-! ## Recognition -/

/-- The code points of blanks. -/
def blankPoints : List Nat :=
  [9, 10, 11, 12, 13, 0x20, 0x85, 0xA0, 0x1680, 0x2000, 0x2001, 0x2002, 0x2003, 0x2004, 0x2005, 0x2006, 0x2007,
    0x2008, 0x2009, 0x200A, 0x2028, 0x2029, 0x202F, 0x205F, 0x3000]

theorem toNat_mem_of_isBlank {c : Char} (h : Text.isBlank c = true) : c.toNat ∈ blankPoints := by
  simp only [Text.isBlank, Bool.or_eq_true, Bool.and_eq_true, decide_eq_true_eq, beq_iff_eq] at h
  simp only [blankPoints, List.mem_cons, List.not_mem_nil, or_false]
  omega

theorem isIdentifierStart_eq_false (points : List Nat)
    (hpoints : ∀ n ∈ points, isIdentifierStart (Char.ofNat n) = false) {c : Char} (hc : c.toNat ∈ points) :
    isIdentifierStart c = false := by
  rw [← Char.ofNat_toNat c]
  exact hpoints c.toNat hc

/-- No word begins with a blank. -/
theorem not_isBlank_of_isIdentifierStart {c : Char} (h : isIdentifierStart c = true) : Text.isBlank c = false := by
  rw [← Bool.not_eq_true]
  intro hblank
  have hword := isIdentifierStart_eq_false blankPoints (by decide +kernel) (toNat_mem_of_isBlank hblank)
  exact Bool.false_ne_true (hword.symm.trans h)

/-- No word begins with a digit. -/
theorem not_isDigit_of_isIdentifierStart {c : Char} (h : isIdentifierStart c = true) : c.isDigit = false := by
  rw [← Bool.not_eq_true]
  intro hdigit
  have hbounds : 48 ≤ c.toNat ∧ c.toNat ≤ 57 := by
    rw [Char.isDigit, Bool.and_eq_true, decide_eq_true_eq, decide_eq_true_eq] at hdigit
    exact ⟨UInt32.le_iff_toNat_le.mp hdigit.1, UInt32.le_iff_toNat_le.mp hdigit.2⟩
  have hword := isIdentifierStart_eq_false (List.range' 48 10) (by decide)
    (List.mem_range'_1.mpr ⟨hbounds.1, by omega⟩)
  exact Bool.false_ne_true (hword.symm.trans h)

/-- The separators of a text that begins with blanks and goes on with a token, if at all. -/
theorem gap_of_blank {bs : List Char} (cs : List Char) (hbs : ∀ b ∈ bs, Text.isBlank b = true)
    (hcs : ∀ c ∈ cs.head?, Text.isBlank c = false ∧ c ≠ '/') : gap (bs ++ cs) = ⟨bs.length, false⟩ := by
  induction bs with
  | nil =>
    cases cs with
    | nil =>
      unfold gap
      rfl
    | cons c cs =>
      obtain ⟨hblank, hslash⟩ := hcs c rfl
      unfold gap
      simp [hblank, hslash]
  | cons b bs ih =>
    unfold gap
    simp only [List.cons_append, hbs b (List.mem_cons_self ..), if_true]
    rw [ih fun d hd => hbs d (List.mem_cons_of_mem _ hd)]
    simp [Gap.beyond, Nat.add_comm]

/-- A word is recognized up to the first character that cannot go on with it. -/
theorem recognize_word {c : Char} {cs rest : List Char} (hc : isIdentifierStart c = true)
    (hcs : cs.all isIdentifierPart = true) (hrest : ∀ d ∈ rest.head?, isIdentifierPart d = false) :
    recognize c (cs ++ rest) = ⟨cs.length, .ok (.ofWord (String.ofList (c :: cs)))⟩ := by
  have hne : ∀ d, isIdentifierStart d = false → c ≠ d := by
    rintro d hd rfl
    exact Bool.false_ne_true (hd.symm.trans hc)
  have hdigit : c.isDigit = false := not_isDigit_of_isIdentifierStart hc
  have htake : (cs ++ rest).takeWhile isIdentifierPart = cs := by
    rw [List.takeWhile_append_of_pos (List.all_eq_true.mp hcs)]
    cases rest with
    | nil => simp
    | cons d rest => simp [hrest d rfl]
  unfold recognize
  rw [if_neg (hne '"' (by decide)), if_neg (hne '\'' (by decide)), if_neg (hne '`' (by decide)), hdigit,
    if_neg Bool.false_ne_true, if_pos hc]
  simp only [htake]

/-- A mark is recognized if the next character would not be read as part of it. -/
theorem recognize_mark {kind : TokenKind} {c : Char} {cs rest : List Char} (hkind : kind.mark? = some (c :: cs))
    (hrest : ∀ d ∈ rest.head?, kind.takes d = false) : recognize c (cs ++ rest) = ⟨cs.length, .ok kind⟩ := by
  cases kind <;> simp only [TokenKind.mark?, Option.some.injEq, List.cons.injEq, reduceCtorEq] at hkind
  all_goals
    obtain ⟨rfl, rfl⟩ := hkind
    first
    | rfl
    | cases rest with
      | nil => rfl
      | cons d rest =>
        have hd : _ = false := hrest d rfl
        simp only [TokenKind.takes, decide_eq_false_iff_not] at hd
        simp [recognize, recognizeMark, hd, isIdentifierStart, Text.isAlphabetic]

/-! ## Spellings are read back -/

theorem takes_ofWord (word : String) (d : Char) : (TokenKind.ofWord word).takes d = isIdentifierPart d := by
  unfold TokenKind.ofWord
  split <;> rfl

namespace Spelling

/-- A spelling is a mark or a word. -/
theorem mark_or_word (s : Spelling) : s.kind.mark? = some s.chars ∨
    ∃ c cs, s.chars = c :: cs ∧ isIdentifierStart c = true ∧ cs.all isIdentifierPart = true ∧
      s.kind = .ofWord (String.ofList s.chars) := by
  obtain ⟨kind, chars, hvalid⟩ := s
  rw [spells, Bool.or_eq_true, beq_iff_eq, Bool.and_eq_true, beq_iff_eq] at hvalid
  refine hvalid.imp id fun ⟨hword, hkind⟩ => ?_
  cases chars with
  | nil => contradiction
  | cons c cs =>
    rw [isWord, Bool.and_eq_true] at hword
    exact ⟨c, cs, rfl, hword.1, hword.2, hkind.symm⟩

/-- No word begins with a byte order mark. -/
theorem isIdentifierStart_byteOrderMark : isIdentifierStart '\uFEFF' = false := by
  -- The table is looked up in two parts: over the whole of it the kernel would recurse too deeply.
  have hfirst : Text.inRanges (Text.alphabeticRanges.take 360) 0xFEFF = false := by decide +kernel
  have hlast : Text.inRanges (Text.alphabeticRanges.drop 360) 0xFEFF = false := by decide +kernel
  have htable : Text.inRanges Text.alphabeticRanges 0xFEFF = false := by
    rw [← List.take_append_drop 360 Text.alphabeticRanges]
    simp only [Text.inRanges, List.any_append, Bool.or_eq_false_iff]
    exact ⟨hfirst, hlast⟩
  simp [isIdentifierStart, Text.isAlphabetic, htable]

/-- The characters of a spelling: it is recognized behind the first of them if the next character would not be
read as part of it. -/
theorem exists_chars (s : Spelling) : ∃ c cs, s.chars = c :: cs ∧ Text.isBlank c = false ∧
    c ∉ ['/', '`', '#', '\uFEFF'] ∧ ∀ rest : List Char, (∀ d ∈ rest.head?, s.kind.takes d = false) →
      recognize c (cs ++ rest) = ⟨cs.length, .ok s.kind⟩ := by
  rcases s.mark_or_word with hmark | ⟨c, cs, hchars, hc, hcs, hkind⟩
  · obtain ⟨kind, chars, hvalid⟩ := s
    obtain ⟨c, cs, rfl, hfirst⟩ : ∃ c cs, chars = c :: cs ∧ Text.isBlank c = false ∧
        c ∉ ['/', '`', '#', '\uFEFF'] := by
      cases kind <;> simp only [TokenKind.mark?, Option.some.injEq, reduceCtorEq] at hmark <;>
        exact ⟨_, _, hmark.symm, by decide, by decide⟩
    exact ⟨c, cs, rfl, hfirst.1, hfirst.2, fun rest hrest => recognize_mark hmark hrest⟩
  · have hinitial : ∀ d ∈ ['/', '`', '#', '\uFEFF'], isIdentifierStart d = false := by
      simp only [List.forall_mem_cons]
      exact ⟨by decide, by decide, by decide, isIdentifierStart_byteOrderMark, by simp⟩
    refine ⟨c, cs, hchars, not_isBlank_of_isIdentifierStart hc, fun hmem => ?_, fun rest hrest => ?_⟩
    · exact Bool.false_ne_true ((hinitial c hmem).symm.trans hc)
    · rw [hkind, hchars]
      refine recognize_word hc hcs fun d hd => ?_
      rw [← takes_ofWord (String.ofList s.chars), ← hkind]
      exact hrest d hd

/-- Whether a token is a spelling that was written, and on a new line only if the spelling begins one. -/
def IsReadAs (written : Bool × Spelling) (t : Token) : Prop :=
  t.kind = written.2.kind ∧ t.lexeme = written.2.text ∧ (t.newlineBefore = true → written.1 = true)

end Spelling

/-- The first lexeme of a text in which a token stands behind blanks. -/
theorem lexemesFrom_cons {bs cs rest : List Char} {c : Char} {kind : TokenKind}
    (hgap : gap (bs ++ c :: (cs ++ rest)) = ⟨bs.length, false⟩)
    (hfound : recognize c (cs ++ rest) = ⟨cs.length, .ok kind⟩) (p : Position) :
    lexemesFrom p (bs ++ c :: (cs ++ rest)) =
      .ofRecognized (p.after bs) (bs.contains '\n') (c :: cs) (.ok kind) ::
        lexemesFrom ((p.after bs).after (c :: cs)) rest := by
  have hdrop : (bs ++ c :: (cs ++ rest)).drop (gap (bs ++ c :: (cs ++ rest))).length = c :: (cs ++ rest) := by
    rw [hgap, List.drop_left]
  have htake : (bs ++ c :: (cs ++ rest)).take (gap (bs ++ c :: (cs ++ rest))).length = bs := by
    rw [hgap, List.take_left]
  rw [lexemesFrom]
  split
  · next h =>
    rw [hdrop] at h
    contradiction
  · next d ds h =>
    rw [hdrop] at h
    cases h
    simp only [htake, hfound, List.take_left, List.drop_left]
    rw [hgap, if_neg Bool.false_ne_true]

/-- A text that begins with a token is that token and what stands behind it. -/
theorem lexemesFrom_spelling (s : Spelling) (bs : List Char) {rest : List Char} (hbs : ∀ b ∈ bs, Text.isBlank b = true)
    (hrest : ∀ d ∈ rest.head?, s.kind.takes d = false) (p : Position) :
    ∃ span p', lexemesFrom p (bs ++ s.chars ++ rest) =
      .token ⟨s.kind, s.text, span, bs.contains '\n'⟩ :: lexemesFrom p' rest := by
  obtain ⟨c, cs, hchars, hblank, hinitial, hrecognize⟩ := s.exists_chars
  simp only [List.mem_cons, List.not_mem_nil, or_false, not_or] at hinitial
  obtain ⟨hslash, hquote, -, -⟩ := hinitial
  have hkept : Lexeme.keptText (c :: cs) = c :: cs := by
    unfold Lexeme.keptText
    split
    · next h => exact absurd (List.cons.inj h).1 hquote
    · rfl
  refine ⟨(p.after bs).spanOf (c :: cs), (p.after bs).after (c :: cs), ?_⟩
  rw [hchars, List.append_assoc, List.cons_append,
    lexemesFrom_cons (gap_of_blank _ hbs (by simp [hblank, hslash])) (hrecognize rest hrest)]
  rw [Lexeme.ofRecognized, hkept, Spelling.text, hchars]

/-! ## Whole texts -/

theorem takes_blank (kind : TokenKind) : kind.takes '\n' = false ∧ kind.takes ' ' = false := by
  cases kind <;> decide

theorem isBlank_blankBetween (before : TokenKind) (startsLine : Bool) (s : Spelling) :
    ∀ b ∈ blankBetween before startsLine s, Text.isBlank b = true := by
  have hspace : Text.isBlank ' ' = true := by decide
  unfold blankBetween
  split
  · simp
  · split <;> simp [hspace]

theorem contains_blankBetween {before : TokenKind} {startsLine : Bool} {s : Spelling}
    (h : (blankBetween before startsLine s).contains '\n' = true) : startsLine = true := by
  unfold blankBetween at h
  split at h
  · assumption
  · split at h <;> simp at h

/-- What is written behind a token is not read as part of it. -/
theorem takes_writtenFrom (kind : TokenKind) (ss : List (Bool × Spelling)) :
    ∀ d ∈ (writtenFrom kind ss).head?, kind.takes d = false := by
  intro d hd
  cases ss with
  | nil =>
    cases hd
    exact (takes_blank kind).1
  | cons s ss =>
    obtain ⟨c, cs, hchars, -⟩ := s.2.exists_chars
    simp only [writtenFrom, blankBetween] at hd
    split at hd
    · cases hd
      exact (takes_blank kind).1
    · split at hd
      · next hclose =>
        rw [hchars] at hd hclose
        cases hd
        simp only [List.head?_cons, Option.any_some, Bool.and_eq_true, Bool.not_eq_true'] at hclose
        exact hclose.2
      · cases hd
        exact (takes_blank kind).2

/-- A text of blanks is the end of a file. -/
theorem lexemesFrom_blank (bs : List Char) (hbs : ∀ b ∈ bs, Text.isBlank b = true) (p : Position) :
    ∃ e : Token, lexemesFrom p bs = [.token e] ∧ e.kind = .eof := by
  have hgap : gap bs = ⟨bs.length, false⟩ := by
    rw [← gap_of_blank [] hbs nofun, List.append_nil]
  rw [lexemesFrom]
  split
  · exact ⟨_, rfl, rfl⟩
  · next h =>
    rw [hgap, List.drop_length] at h
    contradiction

/-- What is written behind a token is read as the same tokens. -/
theorem lexemesFrom_writtenFrom (ss : List (Bool × Spelling)) (before : TokenKind) (p : Position) :
    ∃ ts e, lexemesFrom p (writtenFrom before ss) = ts.map .token ++ [.token e] ∧
      List.Forall₂ Spelling.IsReadAs ss ts ∧ e.kind = .eof := by
  induction ss generalizing before p with
  | nil =>
    obtain ⟨e, hread, heof⟩ := lexemesFrom_blank ['\n'] (by simp) p
    exact ⟨[], e, hread, .nil, heof⟩
  | cons s ss ih =>
    obtain ⟨span, p', hfirst⟩ := lexemesFrom_spelling s.2 _ (isBlank_blankBetween before s.1 s.2)
      (takes_writtenFrom s.2.kind ss) p
    obtain ⟨ts, e, hothers, hread, heof⟩ := ih s.2.kind p'
    refine ⟨_ :: ts, e, by rw [writtenFrom, hfirst, hothers]; rfl, .cons ⟨rfl, rfl, ?_⟩ hread, heof⟩
    exact contains_blankBetween

/-- A text that begins with a token has neither a byte order mark nor an interpreter line. -/
theorem headerLength_spelling (s : Spelling) (rest : List Char) : headerLength (s.chars ++ rest) = 0 := by
  obtain ⟨c, cs, hchars, -, hinitial, -⟩ := s.exists_chars
  simp only [List.mem_cons, List.not_mem_nil, or_false, not_or] at hinitial
  simp [headerLength, hchars, hinitial]

/-- What is written is read as the same tokens. -/
theorem lexemes_written (ss : List (Bool × Spelling)) : ∃ ts e,
    lexemes (String.ofList (written ss)) = ts.map .token ++ [.token e] ∧
      List.Forall₂ Spelling.IsReadAs ss ts ∧ e.kind = .eof := by
  rw [lexemes, String.toList_ofList]
  cases ss with
  | nil =>
    obtain ⟨e, hread, heof⟩ := lexemesFrom_blank [] nofun .start
    exact ⟨[], e, hread, .nil, heof⟩
  | cons s ss =>
    obtain ⟨span, p', hfirst⟩ := lexemesFrom_spelling s.2 [] nofun (takes_writtenFrom s.2.kind ss) .start
    obtain ⟨ts, e, hothers, hread, heof⟩ := lexemesFrom_writtenFrom ss s.2.kind p'
    refine ⟨⟨s.2.kind, s.2.text, span, false⟩ :: ts, e, ?_, .cons ⟨rfl, rfl, nofun⟩ hread, heof⟩
    rw [written, headerLength_spelling, List.take_zero, List.drop_zero, Position.after_nil]
    rw [List.nil_append] at hfirst
    rw [hfirst, hothers]
    rfl

end ServiceCatalog
