import ServiceCatalog.Proofs.Token.Exchange
import ServiceCatalog.Proofs.Token.Recognition

/-!
# Lines inserted in a text

Where lines of their own are inserted in front of a token, what is in front of the place and what is behind it are read
as before.  The place is behind the separators in front of the token, or among the blanks that they end with: a comment
that goes up to the end of its line ends in front of the inserted lines, since these begin a line (`StartsLine`).

* `Renders.not_isBlank_getLast?`: tokens end with no blank, so the blanks in front of a token are separators.
* `AreSeparators.exchange_blanks`: other blanks may stand there.
* `headerLength_append`: the header of a file ends at the same place in front of another text.
* `LinePlace.exists_tokens`: the tokens of the text with the lines inserted.
-/

namespace ServiceCatalog

/-! ## What tokens end with -/

theorem forall_not_isBlank {cs : List Char} (h : (cs.all fun c => !Text.isBlank c) = true) :
    ∀ c ∈ cs, Text.isBlank c = false := fun c hc => by simpa using List.all_eq_true.mp h c hc

section

variable {c : Char} {cs behind : List Char} {kind : TokenKind}

/-- A token ends with no blank. -/
theorem not_isBlank_of_recognize (hc : Text.isBlank c = false)
    (h : recognize c (cs ++ behind) = ⟨cs.length, .ok kind⟩) : ∀ d ∈ (c :: cs).getLast?, Text.isBlank d = false := by
  suffices hcs : ∀ d ∈ cs.getLast?, Text.isBlank d = false by
    intro d hd
    rw [List.getLast?_cons] at hd
    cases hlast : cs.getLast? with
    | none =>
      rw [hlast] at hd
      obtain rfl : c = d := Option.some.inj hd
      exact hc
    | some d' =>
      rw [hlast] at hd
      obtain rfl : d' = d := Option.some.inj hd
      exact hcs d' hlast
  -- a literal ends with a mark, and all characters of the others are no blanks
  have hliteral : ∀ {opening : Nat} {e : Enclosure} {found : TokenKind},
      recognizeLiteral opening e found (cs ++ behind) = ⟨cs.length, .ok kind⟩ → ∀ d ∈ cs.getLast?, Text.isBlank d = false := by
    intro opening e found h d hd
    obtain ⟨-, -, hreach⟩ := skip_of_recognizeLiteral h
    have hpos := Enclosure.length_stack_le (congrArg Enclosure.Reach.closed hreach)
    rw [hreach] at hpos
    have hpos : 1 ≤ (cs.drop opening).length := hpos
    have hmark := Enclosure.getLast?_of_closed hreach d ?_
    · exact forall_not_isBlank (by decide) d hmark
    · rw [List.getLast?_drop, if_neg]
      · exact hd
      · rw [List.length_drop] at hpos
        omega
  have hrun : ∀ n, n = cs.length → (∀ d ∈ (cs ++ behind).take n, Text.isBlank d = false) →
      ∀ d ∈ cs.getLast?, Text.isBlank d = false := by
    rintro n rfl hall d hd
    rw [List.take_left] at hall
    exact hall d (List.mem_of_getLast? hd)
  have hpart : ∀ {p : Char → Bool}, (∀ c, Text.isBlank c = true → p c = false) → ∀ c, p c = true → Text.isBlank c = false := by
    intro p hp c hc
    cases hblank : Text.isBlank c with
    | false => rfl
    | true => rw [hp c hblank] at hc; contradiction
  unfold recognize at h
  dsimp only at h
  split at h
  · split at h
    · exact hliteral h
    · exact hliteral h
  split at h
  · exact hliteral h
  split at h
  · split at h
    · next hclosed =>
      obtain ⟨name, hname⟩ : ∃ name, (cs ++ behind).takeWhile (fun d => d ≠ '`' && d ≠ '\n') = name := ⟨_, rfl⟩
      rw [hname] at h hclosed
      obtain ⟨hlength, -⟩ := Recognized.mk.inj h
      obtain ⟨last, rfl⟩ : name <+: cs := List.prefix_of_prefix_length_le (hname ▸ List.takeWhile_prefix _)
        (List.prefix_append ..) (by omega)
      rw [List.append_assoc, List.drop_left] at hclosed
      obtain ⟨d, rfl⟩ : ∃ d, last = [d] := List.length_eq_one_iff.mp (by rw [List.length_append] at hlength; omega)
      obtain rfl : d = '`' := Option.some.inj hclosed
      intro d hd
      rw [List.getLast?_append] at hd
      obtain rfl : '`' = d := Option.some.inj hd
      decide
    · exact absurd (congrArg Recognized.kind h) nofun
  split at h
  · refine hrun _ (congrArg Recognized.length h) (forall_mem_number (hpart fun _ => not_isNumberPart_of_isBlank) ?_ _ _)
    exact forall_not_isBlank (by decide)
  split at h
  · refine hrun _ (congrArg Recognized.length h) fun d hd => ?_
    rw [← List.prefix_iff_eq_take.mp (List.takeWhile_prefix _)] at hd
    exact hpart (fun _ => not_isIdentifierPart_of_isBlank) d (List.mem_takeWhile_imp hd)
  · refine hrun _ (congrArg Recognized.length h) (forall_mem_mark (hpart fun _ => not_isOperatorPart_of_isBlank) ?_ _ _)
    exact forall_not_isBlank (by decide)

/-- What tokens are rendered as ends with no blank. -/
theorem Renders.not_isBlank_getLast? {p : Position} {ts : List Token} (h : Renders behind p cs ts) :
    ∀ d ∈ cs.getLast?, Text.isBlank d = false := by
  induction h with
  | nil => nofun
  | @cons p between cs front c kind ts hbetween hbegins hfound _ ih =>
    intro d hd
    rw [List.getLast?_append, List.getLast?_cons, Option.some_or, ← List.getLast?_cons, ← List.cons_append,
      List.getLast?_append] at hd
    cases hlast : front.getLast? with
    | none =>
      rw [hlast, Option.none_or] at hd
      exact not_isBlank_of_recognize (gap_eq_zero_iff.mp hbegins).1 hfound d hd
    | some d' =>
      rw [hlast, Option.some_or] at hd
      exact ih d (hlast.trans hd)

end

/-! ## Where lines begin -/

/-- Whether what comes behind a text begins a line, with at most blanks in front of it. -/
def StartsLine (cs : List Char) : Prop := ∀ c ∈ cs.reverse.takeWhile (· ≠ '\n'), Text.isBlank c = true

instance (cs : List Char) : Decidable (StartsLine cs) := List.decidableBAll _ _

namespace StartsLine

variable {cs ds : List Char}

theorem of_append (cs : List Char) {ds : List Char} (h : StartsLine (cs ++ ds)) : StartsLine ds := by
  intro c hc
  refine h c ?_
  rw [List.reverse_append, List.takeWhile_append]
  split
  · exact List.mem_append_left _ ((List.takeWhile_sublist _).mem hc)
  · exact hc

theorem isBlank (h : StartsLine cs) (hnewline : '\n' ∉ cs) : ∀ c ∈ cs, Text.isBlank c = true := by
  intro c hc
  refine h c ?_
  rw [List.takeWhile_eq_self_iff.mpr]
  · exact List.mem_reverse.mpr hc
  · intro d hd
    simpa using ne_of_mem_of_not_mem (List.mem_reverse.mp hd) hnewline

end StartsLine

/-- Two characters that begin a text are not among the blanks that it ends with. -/
theorem exists_cons_cons_of_append {a b : Char} {cs front blanks : List Char} (h : a :: b :: cs = front ++ blanks)
    (ha : a ∉ blanks) (hb : b ∉ blanks) : ∃ front', front = a :: b :: front' ∧ cs = front' ++ blanks := by
  rcases front with _ | ⟨c, _ | ⟨d, front⟩⟩
  · rw [List.nil_append] at h
    exact absurd (h ▸ List.mem_cons_self) ha
  · obtain ⟨-, h⟩ := List.cons.inj h
    rw [← show b :: cs = blanks from h] at hb
    exact absurd List.mem_cons_self hb
  · obtain ⟨hfirst, hothers⟩ := List.cons.inj h
    obtain ⟨hsecond, hcs⟩ := List.cons.inj hothers
    exact ⟨front, by rw [hfirst, hsecond], hcs⟩

/-- Separators stay such where the blanks that they end with are exchanged, if a line begins behind the new ones. -/
theorem AreSeparators.exchange_blanks {behind rest cs front blanks lead : List Char} (h : AreSeparators behind cs)
    (hcs : cs = front ++ blanks) (hblanks : ∀ c ∈ blanks, Text.isBlank c = true)
    (hlead : ∀ c ∈ lead, Text.isBlank c = true) (hline : StartsLine (front ++ lead)) :
    AreSeparators rest (front ++ lead) := by
  have hslash : '/' ∉ blanks := fun hmem => absurd (hblanks _ hmem) (by decide)
  have hstar : '*' ∉ blanks := fun hmem => absurd (hblanks _ hmem) (by decide)
  induction h generalizing front with
  | nil =>
    obtain ⟨rfl, -⟩ := List.nil_eq_append_iff.mp hcs
    exact .of_blank hlead
  | @blank c cs hc _ ih =>
    cases front with
    | nil => exact .of_blank hlead
    | cons d front =>
      obtain ⟨rfl, hfront⟩ := List.cons.inj hcs
      exact .blank hc (ih hfront (StartsLine.of_append [c] hline))
  | @line body cs hbody hend _ ih =>
    obtain ⟨front, rfl, hfront⟩ := exists_cons_cons_of_append hcs hslash hslash
    have hinside : '\n' ∉ front → AreSeparators rest ('/' :: '/' :: front ++ lead) := fun hfront => by
      -- the comment is left open, so a line feed ends it
      have hnewline : '\n' ∈ lead := by
        by_contra hnot
        have hall := hline.isBlank (by simp [hfront, hnot])
        exact absurd (hall '/' List.mem_cons_self) (by decide)
      obtain ⟨first, others, rfl, hfirst⟩ := List.eq_append_cons_of_mem hnewline
      have hcomment : AreSeparators rest ('/' :: '/' :: (front ++ first ++ '\n' :: others)) := by
        refine .line (by simp [hfront, hfirst]) (.inr rfl) (.of_blank fun c hc => ?_)
        exact hlead c (List.mem_append_right _ hc)
      simpa using hcomment
    rcases List.append_eq_append_iff.mp hfront with ⟨others, rfl, rfl⟩ | ⟨others, rfl, -⟩
    · cases others with
      | nil =>
        rw [List.append_nil] at hinside hline ⊢
        exact hinside hbody
      | cons c others =>
        have hothers := ih rfl (StartsLine.of_append ('/' :: '/' :: body) (by simpa using hline))
        have hcomment : AreSeparators rest ('/' :: '/' :: (body ++ (c :: others ++ lead))) := .line hbody hend hothers
        simpa using hcomment
    · exact hinside fun hmem => hbody (List.mem_append_left _ hmem)
  | @block body cs hbody _ ih =>
    obtain ⟨front, rfl, hfront⟩ := exists_cons_cons_of_append hcs hslash hstar
    obtain ⟨others, rfl, hothers⟩ : ∃ others, front = body ++ '*' :: '/' :: others ∧ cs = others ++ blanks := by
      rcases List.append_eq_append_iff.mp hfront with ⟨others, rfl, hothers⟩ | ⟨others, -, hothers⟩
      · obtain ⟨others, rfl, hblanks⟩ := exists_cons_cons_of_append hothers hstar hslash
        exact ⟨others, rfl, hblanks⟩
      · exact absurd (hothers ▸ List.mem_append_right _ List.mem_cons_self) hstar
    have hothers := ih hothers (StartsLine.of_append ('/' :: '*' :: (body ++ ['*', '/'])) (by simpa using hline))
    have hcomment := hothers.block hbody
    simpa using hcomment

/-! ## The beginning of a file -/

/-- The characters that the header of a file may begin with. -/
def headerMarks : List Char := ['\uFEFF', '#']

theorem headerLength_eq_zero {cs : List Char} (h : ∀ c ∈ cs.head?, c ∉ headerMarks) : headerLength cs = 0 := by
  have hmark : cs.head? ≠ some '\uFEFF' := fun hhead => h _ hhead (by decide)
  have hline : cs.take 2 ≠ ['#', '!'] := fun htake => by
    obtain ⟨rest, rfl⟩ : ['#', '!'] <+: cs := List.prefix_iff_eq_take.mpr htake.symm
    exact h _ rfl (by decide)
  simp [headerLength, hmark, hline]

/-- No token begins with such a character. -/
theorem recognize_headerMark {c : Char} (hc : c ∈ headerMarks) (cs : List Char) :
    (recognize c cs).kind = .error (.unexpectedCharacter c) := by
  simp only [headerMarks, List.mem_cons, List.not_mem_nil, or_false] at hc
  rcases hc with rfl | rfl
  · rw [recognize, if_neg (by decide), if_neg (by decide), if_neg (by decide), if_neg (by decide),
      if_neg (by rw [Spelling.isIdentifierStart_byteOrderMark]; decide)]
    simp [recognizeMark]
  · rw [recognize, if_neg (by decide), if_neg (by decide), if_neg (by decide), if_neg (by decide), if_neg (by decide)]
    simp [recognizeMark]

/-- What is read as tokens has no header. -/
theorem Renders.headerLength_eq_zero {behind cs : List Char} {p : Position} {ts : List Token}
    (h : Renders behind p cs ts) (hne : ts ≠ []) : headerLength (cs ++ behind) = 0 := by
  cases h with
  | nil => contradiction
  | @cons _ between taken front c kind _ hbetween _ hfound _ =>
    refine ServiceCatalog.headerLength_eq_zero fun d hd hmark => ?_
    have hblank : ∀ c ∈ headerMarks, Text.isBlank c = false := forall_not_isBlank (by decide)
    cases hbetween with
    | nil =>
      obtain rfl : c = d := Option.some.inj hd
      have hkind := congrArg Recognized.kind hfound
      rw [recognize_headerMark hmark] at hkind
      exact absurd hkind nofun
    | blank hb =>
      obtain rfl := Option.some.inj hd
      rw [hblank _ hmark] at hb
      exact absurd hb nofun
    | line | block =>
      obtain rfl := Option.some.inj hd
      exact absurd hmark (by decide)

/-- The header of a file is the same in front of another text. -/
theorem headerLength_append {behind rest header : List Char} (h : IsHeader behind header) (hrest : headerLength rest = 0)
    (hline : EndsLine behind → EndsLine rest) : headerLength (header ++ rest) = header.length := by
  have hnot : rest.take 2 ≠ ['#', '!'] := fun htake => by
    obtain ⟨rest, rfl⟩ : ['#', '!'] <+: rest := List.prefix_iff_eq_take.mpr htake.symm
    simp [headerLength] at hrest
  have hlength : ∀ {body : List Char}, '\n' ∉ body → EndsLine rest →
      (('#' :: '!' :: (body ++ rest)).takeWhile (· ≠ '\n')).length = body.length + 2 := by
    intro body hbody hend
    have hall : '#' :: '!' :: (body ++ rest) = ('#' :: '!' :: body) ++ rest := rfl
    rw [hall, List.takeWhile_append_of_pos (by simpa using fun c hc => ne_of_mem_of_not_mem hc hbody)]
    rcases hend with hnone | hnewline
    · rw [List.head?_eq_none_iff.mp hnone, List.takeWhile_nil, List.append_nil]
      rfl
    · obtain ⟨rest, rfl⟩ := List.head?_eq_some_iff.mp hnewline
      rw [List.takeWhile_cons_of_neg (by decide), List.append_nil]
      rfl
  cases h with
  | nil => exact hrest
  | mark => simp [headerLength, hnot]
  | line hbody hend => simpa [headerLength] using hlength hbody (hline hend)
  | markAndLine hbody hend =>
    have := hlength hbody (hline hend)
    simp only [headerLength, List.cons_append, List.head?_cons, if_true, List.drop_succ_cons, List.drop_zero,
      List.take_succ_cons, List.take_zero, List.length_cons]
    rw [this]
    omega

/-- A place tells how much of a text is in front of it. -/
theorem eq_of_after_eq {p : Position} {front front' back back' : List Char} (h : front ++ back = front' ++ back')
    (hplace : p.after front = p.after front') : front = front' := by
  have hnone : ∀ {front front' more : List Char}, front' = front ++ more → p.after front = p.after front' → front' = front := by
    rintro front _ (_ | ⟨c, more⟩) rfl hplace
    · exact List.append_nil front
    · have hbefore := Position.before_after (p.after front) c more
      rw [← Position.after_append, ← hplace] at hbefore
      exact absurd hbefore (Position.Before.irrefl _)
  rcases List.append_eq_append_iff.mp h with ⟨more, hfront, -⟩ | ⟨more, hfront, -⟩
  · exact (hnone hfront hplace).symm
  · exact hnone hfront hplace.symm

/-! ## Lines in front of a token -/

theorem EndsLine.of_front {front behind rest : List Char} (h : EndsLine (front ++ behind)) (hfront : front ≠ []) :
    EndsLine (front ++ rest) := by
  obtain ⟨c, front, rfl⟩ := List.exists_cons_of_ne_nil hfront
  exact h

/-- What begins with the same separators, or goes on with a blank, looks alike to the token in front of it. -/
theorem AreSeparators.looksAlike_front {behind rest ds front blanks : List Char} (h : AreSeparators behind (front ++ blanks))
    (hblanks : ∀ c ∈ blanks, Text.isBlank c = true) (hrest : front = [] → rest.head?.any Text.isBlank = true) :
    LooksAlike (front ++ ds) (front ++ rest) := by
  have hslash : '/' ∉ blanks := fun hmem => absurd (hblanks _ hmem) (by decide)
  have hstar : '*' ∉ blanks := fun hmem => absurd (hblanks _ hmem) (by decide)
  have hlong : ∀ {c d : Char} {cs : List Char}, c :: d :: cs = front ++ blanks → c ∉ blanks → d ∉ blanks →
      LooksAlike (front ++ ds) (front ++ rest) := fun hcs hc hd => by
    obtain ⟨others, rfl, -⟩ := exists_cons_cons_of_append hcs hc hd
    exact ⟨_, ds, rest, rfl, rfl, .inl (by simp)⟩
  cases hfront : front with
  | nil => exact .of_blank (hrest hfront)
  | cons c others =>
    rw [← hfront]
    generalize hcs : front ++ blanks = cs at h
    cases h with
    | nil =>
      rw [hfront] at hcs
      contradiction
    | blank hb =>
      rw [hfront] at hcs ⊢
      obtain ⟨hc, -⟩ := List.cons.inj hcs
      exact .of_blank (by rw [List.cons_append, List.head?_cons, Option.any_some, hc, hb])
    | line => exact hlong hcs.symm hslash hslash
    | block => exact hlong hcs.symm hslash hstar

/-- The tokens of a text that is rendered in front of separators. -/
theorem Renders.exists_end {between text : List Char} {p : Position} {ts : List Token} (h : Renders between p text ts)
    (hbetween : AreSeparators [] between) :
    ∃ e, lexemesFrom p (text ++ between) = (ts ++ [e]).map .token ∧ e.kind = .eof := by
  let stop := (p.after text).after between
  refine ⟨⟨.eof, "", .point stop.line stop.column, between.contains '\n'⟩, ?_, rfl⟩
  rw [h.lexemesFrom_eq, lexemesFrom_of_separators hbetween, List.map_append]
  rfl

theorem filterMap_token (ts : List Token) : (ts.map Lexeme.token).filterMap Lexeme.token? = ts := by
  rw [List.filterMap_map]
  exact List.filterMap_some

/-- A text without errors is a header, tokens and separators. -/
theorem exists_renders_of_source {source : String} (h : ∀ x ∈ lexemes source, x.error? = none) :
    ∃ header text between ts e, source.toList = header ++ (text ++ between) ∧ IsHeader (text ++ between) header ∧
      Renders between (Position.start.after header) text ts ∧ AreSeparators [] between ∧
      (lexemes source).filterMap Lexeme.token? = ts ++ [e] := by
  obtain ⟨text, between, ts, hbody, hrenders, hbetween⟩ := exists_renders h
  obtain ⟨e, htokens, -⟩ := hrenders.exists_end hbetween
  refine ⟨source.toList.take (headerLength source.toList), text, between, ts, e, ?_, ?_, hrenders, hbetween, ?_⟩
  · rw [← hbody, List.take_append_drop]
  · rw [← hbody]
    exact isHeader_headerLength _
  · rw [← hbody] at htokens
    exact (congrArg _ htokens).trans (filterMap_token _)

/-- A header and tokens in front of separators are read as the tokens. -/
theorem lexemes_of_renders {source : String} {header text between : List Char} {ts : List Token}
    (hsource : source.toList = header ++ (text ++ between)) (hheader : headerLength source.toList = header.length)
    (hrenders : Renders between (Position.start.after header) text ts) (hbetween : AreSeparators [] between) :
    ∃ e, lexemes source = (ts ++ [e]).map .token ∧ e.kind = .eof := by
  obtain ⟨e, htokens, hend⟩ := hrenders.exists_end hbetween
  refine ⟨e, ?_, hend⟩
  rw [← htokens, lexemes, hheader, hsource, List.take_left, List.drop_left]

theorem Renders.ne_nil {behind cs : List Char} {p : Position} {t : Token} {ts : List Token}
    (h : Renders behind p cs (t :: ts)) : cs ≠ [] := by
  cases h
  simp

/-- A header and tokens do not end with blanks of the line that goes on behind them. -/
theorem eq_nil_of_header_append {header text between behind pre more : List Char}
    (hheader : IsHeader (text ++ (between ++ behind)) header) (htext : ∀ d ∈ text.getLast?, Text.isBlank d = false)
    (hbehind : ¬EndsLine behind) (hmore : header ++ text = pre ++ more)
    (hblanks : ∀ c ∈ more, Text.isBlank c = true) (hnewline : '\n' ∉ between) : more = [] := by
  by_contra hne
  obtain ⟨d, hd⟩ := Option.ne_none_iff_exists'.mp (mt List.getLast?_eq_none_iff.mp hne)
  have hblank := hblanks d (List.mem_of_getLast? hd)
  have hlast : (header ++ text).getLast? = some d := by rw [hmore, List.getLast?_append, hd, Option.some_or]
  cases htexts : text.getLast? with
  | some d' =>
    rw [List.getLast?_append, htexts, Option.some_or] at hlast
    obtain rfl := Option.some.inj hlast
    rw [htext d' htexts] at hblank
    contradiction
  | none =>
    obtain rfl := List.getLast?_eq_none_iff.mp htexts
    rw [List.append_nil] at hlast
    have hends : ¬EndsLine (between ++ behind) := fun hends => by
      cases between with
      | nil => exact hbehind hends
      | cons c between =>
        obtain rfl := Option.some.inj (hends.resolve_left nofun)
        exact hnewline List.mem_cons_self
    cases hheader with
    | nil => exact absurd hlast nofun
    | mark =>
      obtain rfl := Option.some.inj hlast
      exact absurd hblank (by decide)
    | line _ hend | markAndLine _ hend => exact hends hend

/-- Where a token stands in a text: behind a header, the tokens in front of it, and separators, which end with blanks. -/
structure StandsBehind (front : List Token) (pre indent post : List Char) (header text between : List Char) : Prop where
  eq : pre = header ++ (text ++ between)
  isHeader : IsHeader (text ++ (between ++ (indent ++ post))) header
  renders : Renders (between ++ (indent ++ post)) (Position.start.after header) text front
  separators : AreSeparators post (between ++ indent)
  not_endsLine : ¬EndsLine post

/-- A place in front of a token, at its beginning or in front of blanks on its line, is behind the tokens in front of it. -/
theorem exists_standsBehind {source : String} {pre indent post : List Char} {front us : List Token} {t e : Token}
    (hvalid : ∀ x ∈ lexemes source, x.error? = none) (hsource : source.toList = pre ++ (indent ++ post))
    (hindent : ∀ c ∈ indent, Text.isBlank c = true) (hnewline : '\n' ∉ indent)
    (htokens : (lexemes source).filterMap Lexeme.token? = front ++ (t :: us) ++ [e])
    (hplace : t.span.start = Position.start.after (pre ++ indent)) :
    ∃ header text between taken behind, StandsBehind front pre indent post header text between ∧
      post = taken ++ behind ∧ AreSeparators [] behind ∧
      ∀ between' p', AreSeparators post between' → ∃ t' us', Renders behind p' (between' ++ taken) (t' :: us') ∧
        t'.kind = t.kind ∧ t'.lexeme = t.lexeme ∧ t'.newlineBefore = between'.contains '\n' ∧
        List.Forall₂ Token.Same us us' := by
  obtain ⟨header, text, behind, ts, e', hsplit, hheader, hrenders, hbehind, htokens'⟩ := exists_renders_of_source hvalid
  obtain ⟨rfl, -⟩ := List.append_inj' (htokens'.symm.trans htokens) rfl
  obtain ⟨text, rest, rfl, hfront, hback⟩ := hrenders.split
  obtain ⟨between, taken, rfl, hseparators, hbegins, hstart, -, hexchange⟩ := hback.exists_between
  have hall : (header ++ text ++ between) ++ (taken ++ behind) = (pre ++ indent) ++ post := by
    rw [List.append_assoc pre, ← hsource, hsplit]
    simp
  have hpre : header ++ text ++ between = pre ++ indent := by
    refine eq_of_after_eq hall (p := Position.start) ?_
    rw [← hplace, hstart, Position.after_append, Position.after_append]
  rw [hpre] at hall
  obtain rfl : taken ++ behind = post := List.append_cancel_left hall
  have hends : ¬EndsLine (taken ++ behind) := by
    obtain ⟨t', us', hrenders', -⟩ := hexchange [] .start .nil
    obtain ⟨c, cs, hcs⟩ := List.exists_cons_of_ne_nil hrenders'.ne_nil
    rw [List.nil_append] at hcs
    rw [hcs] at hbegins ⊢
    exact not_endsLine_of_gap hbegins
  -- tokens end with no blank, so the blanks are separators
  obtain ⟨between, hbetween, rfl⟩ : ∃ between', pre = header ++ text ++ between' ∧ between = between' ++ indent := by
    rcases List.append_eq_append_iff.mp hpre with h | ⟨more, hmore, hindents⟩
    · exact h
    · suffices hnil : more = [] by
        subst hnil
        exact ⟨[], by rw [List.append_nil] at hmore ⊢; exact hmore.symm, hindents.symm⟩
      refine eq_nil_of_header_append (by simpa using hheader) hfront.not_isBlank_getLast? hends hmore (fun c hc => ?_) ?_
      · exact hindent c (hindents ▸ List.mem_append_left _ hc)
      · exact fun hmem => hnewline (hindents ▸ List.mem_append_right _ hmem)
  refine ⟨header, text, between, taken, behind, ⟨?_, ?_, ?_, hseparators, hends⟩, rfl, hbehind, hexchange⟩
  · rw [hbetween, List.append_assoc]
  · simpa using hheader
  · simpa using hfront

namespace StandsBehind

variable {front : List Token} {pre indent post header text between lead : List Char}

/-- The text in front of a place is read alike where a line is begun behind it. -/
theorem renders_front (h : StandsBehind front pre indent post header text between) (rest : List Char)
    (hindent : ∀ c ∈ indent, Text.isBlank c = true) (hlead : ∀ c ∈ lead, Text.isBlank c = true)
    (hline : StartsLine (pre ++ lead)) :
    Renders (between ++ (lead ++ rest)) (Position.start.after header) text front := by
  cases htext : text.getLast? with
  | none =>
    obtain rfl := List.getLast?_eq_none_iff.mp htext
    have hrenders := h.renders
    generalize hnil : [] = cs at hrenders
    cases hrenders with
    | nil => exact .nil
    | cons => exact absurd hnil (by simp)
  | some d =>
    refine h.renders.exchange (h.separators.looksAlike_front hindent fun hbetween => ?_)
    subst hbetween
    cases lead with
    | cons c lead =>
      show Text.isBlank c = true
      exact hlead c List.mem_cons_self
    | nil =>
      -- the last character of the tokens in front stands in the way
      obtain ⟨text, rfl⟩ := List.getLast?_eq_some_iff.mp htext
      have hblank := h.renders.not_isBlank_getLast? d htext
      rw [h.eq, List.append_nil, List.append_nil, ← List.append_assoc] at hline
      have hall := (StartsLine.of_append _ hline).isBlank (fun hmem => ?_) d (List.mem_singleton_self d)
      · exact absurd (hblank.symm.trans hall) nofun
      · rw [← List.mem_singleton.mp hmem, Text.isBlank_newline] at hblank
        exact absurd hblank nofun

/-- The header of the file stays the same. -/
theorem headerLength_eq (h : StandsBehind front pre indent post header text between) (rest : List Char) (hindent : '\n' ∉ indent)
    (hrest : headerLength (text ++ (between ++ rest)) = 0) :
    headerLength (header ++ (text ++ (between ++ rest))) = header.length := by
  refine headerLength_append h.isHeader hrest fun hends => ?_
  by_cases htext : text = []
  · by_cases hbetween : between = []
    · subst htext hbetween
      cases indent with
      | nil => exact absurd hends h.not_endsLine
      | cons c indent =>
        obtain rfl := Option.some.inj (hends.resolve_left nofun)
        exact absurd List.mem_cons_self hindent
    · subst htext
      rw [List.nil_append] at hends ⊢
      exact hends.of_front hbetween
  · exact hends.of_front htext

end StandsBehind

/-! ## Texts with lines inserted -/

/-- A place in a text where lines may be inserted: in front of the blanks that a line begins with, if a line begins
behind what comes in front of it and `lead`. -/
structure LinePlace (source : String) where
  front : List Char
  lead : List Char
  indent : List Char
  back : List Char
  split : source.toList = front ++ (indent ++ back)
  lead_blank : ∀ c ∈ lead, Text.isBlank c = true
  indent_blank : ∀ c ∈ indent, Text.isBlank c = true
  indent_newline : '\n' ∉ indent
  startsLine : StartsLine (front ++ lead)

namespace LinePlace

variable {source : String}

/-- Where the line goes on behind its blanks. -/
def position (l : LinePlace source) : Position := Position.start.after (l.front ++ l.indent)

/-- The text with lines inserted. -/
def insert (l : LinePlace source) (text : String) : String :=
  String.ofList (l.front ++ (l.lead ++ (text.toList ++ '\n' :: (l.indent ++ l.back))))

/-- Where lines are inserted in front of a token, their tokens stand in front of that token, which begins a line then,
and all others stay the same apart from their places. -/
theorem exists_tokens (l : LinePlace source) {text : String} {front us member : List Token} {t e e₀ : Token}
    (hvalid : ∀ x ∈ lexemes source, x.error? = none)
    (htokens : (lexemes source).filterMap Lexeme.token? = front ++ (t :: us) ++ [e]) (hplace : t.span.start = l.position)
    (htext : ∀ x ∈ lexemesFrom .start text.toList, x.error? = none)
    (hmember : (lexemesFrom .start text.toList).filterMap Lexeme.token? = member ++ [e₀]) (hne : member ≠ []) :
    ∃ member' t' us' e', lexemes (l.insert text) = (front ++ (member' ++ (t' :: us')) ++ [e']).map .token ∧
      e'.kind = .eof ∧ List.Forall₂ Token.SameText member member' ∧ t'.kind = t.kind ∧ t'.lexeme = t.lexeme ∧
      t'.newlineBefore = true ∧ List.Forall₂ Token.Same us us' := by
  obtain ⟨pre, lead, indent, post, hsource, hlead, hindent, hnewline, hline⟩ := l
  have hsource' : (insert ⟨pre, lead, indent, post, hsource, hlead, hindent, hnewline, hline⟩ text).toList =
      pre ++ (lead ++ (text.toList ++ '\n' :: (indent ++ post))) := String.toList_ofList
  generalize insert ⟨pre, lead, indent, post, hsource, hlead, hindent, hnewline, hline⟩ text = source' at hsource' ⊢
  generalize text.toList = inserted at hsource' htext hmember
  obtain ⟨header, text, between, taken, behind, hstands, rfl, hbehind, hexchange⟩ :=
    exists_standsBehind hvalid hsource hindent hnewline htokens hplace
  obtain ⟨textᵢ, endᵢ, ts, rfl, hrendersᵢ, hendᵢ⟩ := exists_renders htext
  obtain ⟨e₁, htokensᵢ, -⟩ := hrendersᵢ.exists_end hendᵢ
  obtain rfl : ts = member := by
    rw [htokensᵢ, filterMap_token] at hmember
    exact (List.append_inj' hmember rfl).1
  obtain ⟨u, vs, rfl⟩ := List.exists_cons_of_ne_nil hne
  obtain ⟨betweenᵢ, takenᵢ, rfl, hseparatorsᵢ, -, -, -, hexchangeᵢ⟩ := hrendersᵢ.exists_between
  have hfeed : AreSeparators (taken ++ behind) (endᵢ ++ '\n' :: indent) :=
    .append (hendᵢ.exchange fun _ => .inr rfl) (.blank Text.isBlank_newline (.of_blank hindent))
  have hfront : AreSeparators (betweenᵢ ++ (takenᵢ ++ endᵢ)) (between ++ lead) := by
    refine hstands.separators.exchange_blanks rfl hindent hlead (StartsLine.of_append (header ++ text) ?_)
    have hall : pre ++ lead = header ++ text ++ (between ++ lead) := by rw [hstands.eq]; simp
    rwa [hall] at hline
  obtain ⟨u', vs', hmiddle, hkindᵢ, hlexemeᵢ, -, hsameᵢ⟩ := hexchangeᵢ (between ++ lead ++ betweenᵢ)
    ((Position.start.after header).after text) (hfront.append hseparatorsᵢ)
  obtain ⟨t', us', hlast, hkind, hlexeme, hnewline', hsame⟩ := hexchange (endᵢ ++ '\n' :: indent)
    (((Position.start.after header).after text).after (between ++ lead ++ betweenᵢ ++ takenᵢ)) hfeed
  -- the tokens of the whole, piece by piece
  have hmiddle : Renders ((endᵢ ++ '\n' :: indent ++ taken) ++ behind) ((Position.start.after header).after text)
      (between ++ lead ++ betweenᵢ ++ takenᵢ) (u' :: vs') := by
    have halike : LooksAlike (endᵢ ++ []) (endᵢ ++ '\n' :: (indent ++ (taken ++ behind))) :=
      hendᵢ.looksAlike fun _ => Text.isBlank_newline
    rw [List.append_nil] at halike
    simpa using hmiddle.exchange halike
  have hbehindFront := hmiddle.append hlast
  have hstart : Renders ((between ++ lead ++ betweenᵢ ++ takenᵢ ++ (endᵢ ++ '\n' :: indent ++ taken)) ++ behind)
      (Position.start.after header) text front := by
    have hrenders := hstands.renders_front (betweenᵢ ++ (takenᵢ ++ (endᵢ ++ '\n' :: (indent ++ (taken ++ behind)))))
      hindent hlead hline
    simpa using hrenders
  have hall := hstart.append hbehindFront
  have hsplit : source'.toList = header ++ (text ++ (between ++ lead ++ betweenᵢ ++ takenᵢ ++
      (endᵢ ++ '\n' :: indent ++ taken)) ++ behind) := by
    rw [hsource', hstands.eq]
    simp
  have hheader : headerLength source'.toList = header.length := by
    rw [hsplit]
    have hrest := hall.headerLength_eq_zero (by simp)
    have hheader := hstands.headerLength_eq (lead ++ (betweenᵢ ++ (takenᵢ ++ (endᵢ ++ '\n' :: (indent ++ (taken ++ behind))))))
      hnewline (by simpa using hrest)
    simpa using hheader
  obtain ⟨e', hlexemes, hend⟩ := lexemes_of_renders hsplit hheader hall hbehind
  refine ⟨u' :: vs', t', us', e', hlexemes, hend, .cons ⟨hkindᵢ, hlexemeᵢ⟩ (hsameᵢ.imp fun _ _ => Token.Same.sameText), hkind,
    hlexeme, hnewline'.trans ?_, hsame⟩
  simp

end LinePlace

end ServiceCatalog
