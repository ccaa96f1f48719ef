import Mathlib.Data.List.DropRight
import ServiceCatalog.Proofs.Token.Recognition
import ServiceCatalog.Proofs.Token.Separators
import ServiceCatalog.Token.Reader

/-!
# Reading loses nothing

The calls of a reader cut its text into pieces, each of them separators and the characters of one lexeme, until the
last one is the end of the file.  The place that a lexeme tells is the place of its characters in the text.

* `Position.start_after`: lines and columns, counted from the beginning of the text.
* `Piece.Stands`: what a piece and the text around it have to do with its lexeme.
* `exists_pieces`: the pieces of a text, by induction on the lexemes.
* `calls_lexemes`: calling again and again gives the lexemes of the text.
-/

namespace ServiceCatalog

/-! ## Places -/

namespace Position

theorem start_after (cs : List Char) :
    start.after cs = ⟨1 + cs.count '\n', 1 + bytes (cs.rtakeWhile (· ≠ '\n'))⟩ := by
  induction cs using List.reverseRecOn with
  | nil => rfl
  | append_singleton cs c ih =>
    rw [after_append, ih, List.rtakeWhile_concat]
    show step _ c = _
    by_cases hc : c = '\n'
    · simp [step, hc, Nat.add_assoc]
    · simp [step, hc, List.count_append, bytes, Nat.add_assoc]

end Position

/-! ## Pieces of a text -/

/-- A lexeme with its characters and the separators in front of it. -/
structure Piece where
  gap : List Char
  taken : List Char
  lexeme : Lexeme

namespace Piece

/-- The characters of a piece. -/
def text (p : Piece) : List Char := p.gap ++ p.taken

/-- Whether a piece is the end of the file. -/
def IsEnd (p : Piece) : Prop := p.lexeme.asToken.kind = .eof

/-- Whether the lexeme of a piece tells what stands in a text, between given characters. -/
structure Stands (p : Piece) (before behind : List Char) : Prop where
  /-- The gap are separators, at the beginning of the text behind what only a file begins with. -/
  gap : ∃ header separators, p.gap = header ++ separators ∧ (before ≠ [] → header = []) ∧
    IsHeader (separators ++ p.taken ++ behind) header ∧ AreSeparators (p.taken ++ behind) separators
  /-- Lines count line feeds, columns count the bytes since the last one, and so do lengths those of the lexeme. -/
  span : p.lexeme.asToken.span =
    ⟨1 + (before ++ p.gap).count '\n', 1 + Position.bytes ((before ++ p.gap).rtakeWhile (· ≠ '\n')),
      Position.bytes p.taken⟩
  taken : p.taken = [] ↔ p.IsEnd
  /-- The text of a token is that of its characters, without the backticks of a quoted identifier. -/
  lexeme : ∀ t, p.lexeme = .token t →
    if p.taken.head? = some '`' then t.kind = .identifier ∧ p.taken = '`' :: (t.lexeme.toList ++ ['`'])
    else p.taken = t.lexeme.toList
  newlineBefore : ∀ t, p.lexeme = .token t → (t.newlineBefore = true ↔ '\n' ∈ p.gap)

/-- Whether pieces are those of a text behind given characters, up to the end of the file. -/
def AllStand (before : List Char) : List Piece → Prop
  | [] => True
  | p :: later =>
    p.Stands before (later.flatMap text) ∧ (p.IsEnd ↔ later = []) ∧ AllStand (before ++ p.text) later

theorem AllStand.at {before : List Char} {earlier later : List Piece} {p : Piece}
    (h : AllStand before (earlier ++ p :: later)) :
    p.Stands (before ++ earlier.flatMap text) (later.flatMap text) ∧ (p.IsEnd ↔ later = []) := by
  induction earlier generalizing before with
  | nil =>
    rw [List.flatMap_nil, List.append_nil]
    exact ⟨h.1, h.2.1⟩
  | cons q earlier ih =>
    rw [List.flatMap_cons, ← List.append_assoc]
    exact ih h.2.2

section

variable {p : Piece} {before header separators behind : List Char}

/-- A piece stands where its lexeme tells the place behind its gap. -/
theorem stands_of_gap (hgap : p.gap = header ++ separators) (hheader : before ≠ [] → header = [])
    (his : IsHeader (separators ++ p.taken ++ behind) header)
    (hseparators : AreSeparators (p.taken ++ behind) separators)
    (hspan : p.lexeme.asToken.span = (Position.start.after (before ++ p.gap)).spanOf p.taken)
    (htaken : p.taken = [] ↔ p.IsEnd)
    (hlexeme : ∀ t, p.lexeme = .token t →
      if p.taken.head? = some '`' then t.kind = .identifier ∧ p.taken = '`' :: (t.lexeme.toList ++ ['`'])
      else p.taken = t.lexeme.toList)
    (hnewline : ∀ t, p.lexeme = .token t → t.newlineBefore = separators.contains '\n') : p.Stands before behind where
  gap := ⟨header, separators, hgap, hheader, his, hseparators⟩
  span := by
    rw [hspan, Position.start_after]
    rfl
  taken := htaken
  lexeme := hlexeme
  newlineBefore t ht := by
    rw [hnewline t ht, hgap, List.contains_iff_mem, List.mem_append]
    exact (or_iff_right his.newline_not_mem).symm

/-- The end of the file stands behind its gap. -/
theorem stands_atEnd (hheader : before ≠ [] → header = []) (his : IsHeader (separators ++ []) header)
    (hseparators : AreSeparators [] separators) :
    Stands ⟨header ++ separators, [],
      .atEnd (Position.start.after (before ++ (header ++ separators))) (separators.contains '\n')⟩ before [] := by
  refine stands_of_gap rfl hheader ?_ hseparators rfl ⟨fun _ => rfl, fun _ => rfl⟩ ?_ ?_
  · rwa [List.append_nil]
  · rintro t ht
    obtain rfl := Lexeme.token.inj ht
    rfl
  · rintro t ht
    obtain rfl := Lexeme.token.inj ht
    rfl

/-- What is recognized stands behind its gap. -/
theorem stands_ofRecognized {c : Char} {cs : List Char} (hheader : before ≠ [] → header = [])
    (his : IsHeader (separators ++ c :: cs) header) (hseparators : AreSeparators (c :: cs) separators) :
    Stands ⟨header ++ separators, c :: cs.take (recognize c cs).length,
      .ofRecognized (Position.start.after (before ++ (header ++ separators))) (separators.contains '\n')
        (c :: cs.take (recognize c cs).length) (recognize c cs).kind⟩ before (cs.drop (recognize c cs).length) := by
  have hall : c :: cs.take (recognize c cs).length ++ cs.drop (recognize c cs).length = c :: cs :=
    congrArg (c :: ·) (List.take_append_drop ..)
  have hgap := hall.symm ▸ hseparators
  have his' : IsHeader (separators ++ (c :: cs.take (recognize c cs).length) ++ cs.drop (recognize c cs).length)
      header := by
    rwa [List.append_assoc, hall]
  cases hkind : (recognize c cs).kind with
  | error fault =>
    refine stands_of_gap rfl hheader his' hgap rfl ⟨nofun, fun h => ?_⟩ (fun t ht => ?_) fun t ht => ?_
    · exact absurd (show TokenKind.invalid = .eof from h) nofun
    · exact absurd ht nofun
    · exact absurd ht nofun
  | ok kind =>
    refine stands_of_gap rfl hheader his' hgap rfl ⟨nofun, fun h => ?_⟩ (fun t ht => ?_) fun t ht => ?_
    · have heof : kind = .eof := h
      exact absurd (hkind.trans (congrArg _ heof)) (recognize_ne_eof c cs)
    · obtain rfl := Lexeme.token.inj ht
      show if some c = some '`' then _ else _
      rw [String.toList_ofList]
      by_cases hc : c = '`'
      · subst hc
        rw [if_pos rfl]
        exact recognize_quoted hkind
      · rw [if_neg (fun h => hc (Option.some.inj h)), keptText_of_ne hc]
    · obtain rfl := Lexeme.token.inj ht
      rfl

/-- A comment that is never closed stands behind its gap, up to the end of the text. -/
theorem stands_unclosed {c : Char} {cs : List Char} (hheader : before ≠ [] → header = [])
    (his : IsHeader (separators ++ c :: cs) header) (hseparators : AreSeparators (c :: cs) separators) :
    Stands ⟨header ++ separators, c :: cs, .invalid ⟨.unterminatedComment,
      (Position.start.after (before ++ (header ++ separators))).spanOf (c :: cs)⟩ false⟩ before [] := by
  refine stands_of_gap rfl hheader ?_ ?_ rfl ⟨nofun, fun h => ?_⟩ (fun t ht => ?_) fun t ht => ?_
  · rwa [List.append_nil]
  · rwa [List.append_nil]
  · exact absurd (show TokenKind.invalid = .eof from h) nofun
  · exact absurd ht nofun
  · exact absurd ht nofun

end

/-- A text is its gap and what stands behind it. -/
theorem gap_append {cs rest : List Char} (h : cs.drop (ServiceCatalog.gap cs).length = rest) :
    cs.take (ServiceCatalog.gap cs).length ++ rest = cs ∧
      AreSeparators rest (cs.take (ServiceCatalog.gap cs).length) := by
  subst h
  exact ⟨List.take_append_drop .., areSeparators_gap cs⟩

/-- The place behind a gap. -/
theorem after_gap {p : Position} {before header : List Char} (hp : p = Position.start.after (before ++ header))
    (between : List Char) : p.after between = Position.start.after (before ++ (header ++ between)) := by
  rw [hp, ← Position.after_append, List.append_assoc]

/-- The lexemes of a text are those of its pieces. -/
theorem exists_pieces {p : Position} {cs before header : List Char} (hp : p = Position.start.after (before ++ header))
    (hheader : before ≠ [] → header = []) (his : IsHeader cs header) :
    ∃ pieces, pieces ≠ [] ∧ lexemesFrom p cs = pieces.map lexeme ∧ header ++ cs = pieces.flatMap text ∧
      AllStand before pieces := by
  fun_induction lexemesFrom p cs generalizing before header with
  | case1 p cs between =>
    rename_i p' hrest
    obtain ⟨hall, hgap⟩ := gap_append hrest
    have hp' : p' = Position.start.after (before ++ (header ++ between)) := after_gap hp between
    refine ⟨[⟨header ++ between, [], .atEnd p' (between.contains '\n')⟩], List.cons_ne_nil _ _, rfl, ?_, ?_,
      ⟨fun _ => rfl, fun _ => rfl⟩, trivial⟩
    · show header ++ cs = header ++ between ++ [] ++ []
      rw [List.append_nil, List.append_assoc]
      exact congrArg (header ++ ·) hall.symm
    · rw [hp']
      exact stands_atEnd hheader ((congrArg (IsHeader · header) hall).mpr his) hgap
  | case2 p cs between p' c rest =>
    rename_i hrest hunclosed
    obtain ⟨hall, hgap⟩ := gap_append hrest
    have hp' : p' = Position.start.after (before ++ (header ++ between)) := after_gap hp between
    have hnext : p'.after (c :: rest) = Position.start.after (before ++ (header ++ between ++ c :: rest) ++ []) := by
      rw [hp', ← Position.after_append, List.append_nil, List.append_assoc]
    have hend : Stands ⟨[] ++ [], [], .atEnd (Position.start.after
        (before ++ (header ++ between ++ c :: rest) ++ ([] ++ []))) (List.contains [] '\n')⟩ _ [] :=
      stands_atEnd (fun _ => rfl) .nil .nil
    refine ⟨[⟨header ++ between, c :: rest, .invalid ⟨.unterminatedComment, p'.spanOf (c :: rest)⟩ false⟩,
      ⟨[], [], .atEnd (p'.after (c :: rest)) false⟩], List.cons_ne_nil _ _, rfl, ?_, ?_,
      ⟨TokenKind.noConfusion, fun h => absurd h (List.cons_ne_nil _ _)⟩, ?_,
      ⟨fun _ => rfl, fun _ => rfl⟩, trivial⟩
    · show header ++ cs = header ++ between ++ (c :: rest) ++ []
      rw [List.append_nil, List.append_assoc]
      exact congrArg (header ++ ·) hall.symm
    · rw [hp']
      exact stands_unclosed hheader ((congrArg (IsHeader · header) hall).mpr his) hgap
    · rw [hnext]
      exact hend
  | case3 p cs between p' c rest hrest hclosed found =>
    rename_i taken ih
    obtain ⟨hall, hgap⟩ := gap_append hrest
    have hp' : p' = Position.start.after (before ++ (header ++ between)) := after_gap hp between
    have hnext : p'.after taken = Position.start.after (before ++ (header ++ between ++ taken) ++ []) := by
      rw [hp', ← Position.after_append, List.append_nil, List.append_assoc]
    have hsplit : taken ++ rest.drop found.length = c :: rest := congrArg (c :: ·) (List.take_append_drop ..)
    have hstands := stands_ofRecognized hheader ((congrArg (IsHeader · header) hall).mpr his) hgap
    rw [← hp'] at hstands
    obtain ⟨later, hne, hlexemes, htext, hlater⟩ := ih hnext (fun _ => rfl) .nil
    rw [List.nil_append] at htext
    refine ⟨⟨header ++ between, taken, .ofRecognized p' (between.contains '\n') taken found.kind⟩ :: later,
      List.cons_ne_nil _ _, congrArg (_ :: ·) hlexemes, ?_, htext ▸ hstands,
      ⟨fun h => absurd (hstands.taken.mpr h) (List.cons_ne_nil _ _), fun h => absurd h hne⟩, hlater⟩
    rw [List.flatMap_cons, ← htext]
    show header ++ cs = header ++ between ++ taken ++ rest.drop found.length
    rw [List.append_assoc, hsplit, List.append_assoc]
    exact congrArg (header ++ ·) hall.symm

/-- The pieces of a source text. -/
theorem exists_pieces_of_source (source : String) : ∃ pieces, pieces ≠ [] ∧ lexemes source = pieces.map lexeme ∧
    source.toList = pieces.flatMap text ∧ AllStand [] pieces := by
  have hstart : Position.start.after (source.toList.take (headerLength source.toList)) =
      Position.start.after ([] ++ source.toList.take (headerLength source.toList)) := rfl
  have hpieces := exists_pieces hstart nofun (isHeader_headerLength source.toList)
  rwa [List.take_append_drop] at hpieces

end Piece

/-! ## Calls -/

namespace TextReader

theorem offset_le_pass (r : TextReader) (n : Nat) : r.offset ≤ (r.pass n).offset := Nat.le_add_right ..

theorem offset_lt_pass {r : TextReader} {c : Char} {cs : List Char} (h : r.rest = c :: cs) (n : Nat) :
    r.offset < (r.pass (n + 1)).offset := by
  have hpos := c.utf8Size_pos
  show r.offset < r.offset + Position.bytes (r.rest.take (n + 1))
  rw [h, List.take_succ_cons, Position.bytes]
  omega

theorem lexemesFrom_nil (p : Position) : lexemesFrom p [] = [.atEnd p false] := by
  rw [lexemesFrom]
  split
  · next h => simp
  · next h => simp at h

theorem length_rest_pass_lt {r : TextReader} {c : Char} {cs : List Char} (h : r.rest = c :: cs) (n : Nat) :
    (r.pass (n + 1)).rest.length < r.rest.length := by
  show (r.rest.drop (n + 1)).length < r.rest.length
  rw [h, List.length_drop, List.length_cons]
  omega

/-- A call takes the first of the lexemes that are left.  If it is not the end of the file, it has a character and
leaves the others. -/
theorem lexemesFrom_take (r : TextReader) :
    lexemesFrom r.place r.rest = [r.take.1] ∧ r.take.1.asToken.kind = .eof ∨
      lexemesFrom r.place r.rest = r.take.1 :: lexemesFrom r.take.2.place r.take.2.rest ∧
        r.take.1.asToken.kind ≠ .eof ∧ r.offset < r.take.2.offset ∧ r.take.2.rest.length < r.rest.length := by
  obtain ⟨behind, hbehind⟩ : ∃ behind, r.pass (gap r.rest).length = behind := ⟨_, rfl⟩
  have hplace : r.place.after (r.rest.take (gap r.rest).length) = behind.place := hbehind ▸ rfl
  have hoffset : r.offset ≤ behind.offset := hbehind ▸ r.offset_le_pass _
  have hrest : r.rest.drop (gap r.rest).length = behind.rest := hbehind ▸ rfl
  have hlength : behind.rest.length ≤ r.rest.length := by
    rw [← hrest, List.length_drop]
    omega
  rw [lexemesFrom, take]
  dsimp only
  rw [hbehind, hplace]
  split
  · next h =>
    rw [← hrest, h]
    exact .inl ⟨rfl, rfl⟩
  · next c cs h =>
    right
    rw [hrest] at h
    have hlonger : ∀ n, r.offset < (behind.pass (n + 1)).offset :=
      fun n => Nat.lt_of_le_of_lt hoffset (offset_lt_pass h n)
    have hshorter : ∀ n, (behind.pass (n + 1)).rest.length < r.rest.length :=
      fun n => Nat.lt_of_lt_of_le (length_rest_pass_lt h n) hlength
    rw [h]
    dsimp only
    split
    · refine ⟨?_, TokenKind.noConfusion, hlonger _, hshorter _⟩
      show _ = _ :: lexemesFrom (behind.place.after (behind.rest.take (cs.length + 1)))
        (behind.rest.drop (cs.length + 1))
      rw [h, ← List.length_cons, List.take_length, List.drop_length, lexemesFrom_nil]
    · refine ⟨?_, ?_, hlonger _, hshorter _⟩
      · show _ :: lexemesFrom _ _ = _ :: lexemesFrom (behind.place.after (behind.rest.take _)) (behind.rest.drop _)
        rw [h, List.take_succ_cons, List.drop_succ_cons]
      · cases hkind : (recognize c cs).kind with
        | ok kind => exact fun heof => recognize_ne_eof c cs (hkind.trans (congrArg _ heof))
        | error fault => exact TokenKind.noConfusion

theorem passHeader_of_offset_pos {r : TextReader} (h : 0 < r.offset) : r.passHeader = r := by
  rw [passHeader, if_neg (Nat.ne_of_gt h)]

/-- Where something has been read, calling again and again gives the lexemes that are left. -/
theorem calls_of_offset_pos {r : TextReader} (h : 0 < r.offset) :
    r.calls (lexemesFrom r.place r.rest).length = lexemesFrom r.place r.rest := by
  have hnext : r.next = r.take := by rw [next, passHeader_of_offset_pos h]
  rcases r.lexemesFrom_take with ⟨hend, -⟩ | ⟨hothers, -, hlt, -⟩
  · rw [hend]
    exact congrArg (fun found => [found.1]) hnext
  · have hcalls := calls_of_offset_pos (Nat.lt_trans h hlt)
    rw [hothers, List.length_cons]
    show r.next.1 :: r.next.2.calls _ = _
    rw [hnext, hcalls]
termination_by (lexemesFrom r.place r.rest).length
decreasing_by
  rw [hothers]
  exact Nat.lt_succ_self _

/-- Calling again and again gives the lexemes of a text. -/
theorem calls_lexemes (source : String) : (start source).calls (lexemes source).length = lexemes source := by
  have hlexemes : lexemes source = lexemesFrom (start source).passHeader.place (start source).passHeader.rest := rfl
  rw [hlexemes]
  rcases (start source).passHeader.lexemesFrom_take with ⟨hend, -⟩ | ⟨hothers, -, hlt, -⟩
  · rw [hend]
    rfl
  · rw [hothers, List.length_cons]
    exact congrArg (_ :: ·) (calls_of_offset_pos (Nat.lt_of_le_of_lt (Nat.zero_le _) hlt))

/-- The calls of a reader cut its text into pieces that tell what stands in it: the last one is the end of the file,
and every other one is made of separators and of the characters of its lexeme, which are at least one. -/
theorem lossless (source : String) : ∃ pieces : List Piece,
    pieces ≠ [] ∧ (start source).calls pieces.length = pieces.map Piece.lexeme ∧
      lexemes source = pieces.map Piece.lexeme ∧ source.toList = pieces.flatMap Piece.text ∧
      ∀ earlier p later, pieces = earlier ++ p :: later →
        p.Stands (earlier.flatMap Piece.text) (later.flatMap Piece.text) ∧ (p.IsEnd ↔ later = []) := by
  obtain ⟨pieces, hne, hlexemes, htext, hstand⟩ := Piece.exists_pieces_of_source source
  refine ⟨pieces, hne, ?_, hlexemes, htext, fun earlier p later hpieces => (hpieces ▸ hstand).at⟩
  have hcalls := calls_lexemes source
  rwa [hlexemes, List.length_map] at hcalls

end TextReader

end ServiceCatalog
