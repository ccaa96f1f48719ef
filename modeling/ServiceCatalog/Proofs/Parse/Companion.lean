import ServiceCatalog.Proofs.Parse.Members

/-!
# Companion objects without a name

A companion object need not have a name, and then it is called `Companion`.  Whether it has one is told by the next
token alone, on whatever line it stands.  So an identifier on the next line is taken for the name, also if it is a
modifier of the next member, which then loses it.

* `Parser.CompanionAt`: a companion object whose keyword is the last token of its line.
* `Parser.member_companion`: its name, and where the next member is read from.
* `EnumBehindCompanion.not_forall_companion`: a companion object that is called `enum`.
-/

namespace ServiceCatalog

/-- Whether the next token begins a line, or the file ends. -/
def Cursor.isAtLine (c : Cursor) : Bool := c.isAtEnd || c.peek.newlineBefore

namespace TokenParser

open Cursor

variable {c : Cursor}

/-! ## The head of a companion object -/

/-- An identifier behind the keyword of a companion object is its name. -/
theorem classNaming_companion_of_identifier (h : c.kind = .object) (hname : c.advance.kind = .identifier) :
    classNaming .companionObject c =
      .ok ⟨c.advance.peek.lexeme, c.advance.peek.span⟩ c.advance.advance := by
  have hfun : eat .fun c = .ok false c := by rw [eat, isAt, h]; rfl
  have htest : test (·.isAt .identifier) c.advance = .ok true c.advance := by rw [test, isAt, hname]; rfl
  unfold classNaming
  refine bind_eq_ok.mpr ⟨_, _, hfun, bind_eq_ok.mpr ⟨_, _, rfl, bind_eq_ok.mpr ⟨_, _, htest, ?_⟩⟩⟩
  exact identifier_eq_ok.mpr ⟨hname, rfl, rfl⟩

/-- Without an identifier behind its keyword, a companion object is called `Companion`. -/
theorem classNaming_companion (h : c.kind = .object) (hname : c.advance.kind ≠ .identifier) :
    classNaming .companionObject c = .ok ⟨"Companion", c.peek.span⟩ c.advance := by
  have hfun : eat .fun c = .ok false c := by rw [eat, isAt, h]; rfl
  have htest : test (·.isAt .identifier) c.advance = .ok false c.advance := by
    rw [test, isAt, beq_eq_false_iff_ne.mpr hname]
  unfold classNaming
  exact bind_eq_ok.mpr ⟨_, _, hfun, bind_eq_ok.mpr ⟨_, _, rfl, bind_eq_ok.mpr ⟨_, _, htest, rfl⟩⟩⟩

/-- A line that no identifier begins does not begin with a constructor. -/
theorem skipConstructor_of_isAtLine (hname : c.kind ≠ .identifier) (hline : c.isAtLine = true) :
    skipConstructor c = .ok () c := by
  have hident : c.isAt .identifier = false := beq_eq_false_iff_ne.mpr hname
  have hsame : ∀ k, k ≠ .eof → (c.isAt k && !c.peek.newlineBefore) = false := by
    intro k hk
    rw [Bool.eq_false_iff, Ne, Bool.and_eq_true]
    rintro ⟨hkind, hnot⟩
    rcases Bool.or_eq_true _ _ ▸ hline with hend | hnew
    · exact hk ((isAt_iff.mp hkind).symm.trans (isAt_iff.mp hend))
    · simp [hnew] at hnot
  have hstop : isAtConstructorModifier c = false := by
    rw [isAtConstructorModifier, hsame .at (by decide), hident]
    rfl
  have hnone : manyWhile isAtConstructorModifier skipConstructorModifier c = .ok [] c := by
    rw [manyWhile, hstop, if_neg Bool.false_ne_true]
  have hword : eatWord "constructor" c = .ok false c := by
    rw [eatWord, isAtWord, hident, Bool.false_and, if_neg Bool.false_ne_true]
  have hparen : test (fun c => c.isAt .leftParen && (false || !c.peek.newlineBefore)) c = .ok false c := by
    rw [test, Bool.false_or, hsame .leftParen (by decide)]
  unfold skipConstructor
  exact bind_eq_ok.mpr ⟨_, _, rfl, bind_eq_ok.mpr ⟨_, _, hnone, bind_eq_ok.mpr ⟨_, _, hword,
    bind_eq_ok.mpr ⟨_, _, hparen, rfl⟩⟩⟩⟩

/-- What follows the keyword of a companion object without a name up to its body: nothing, or supertypes without
constraints behind them. -/
inductive HeadEnds (c : Cursor) : List TypeRef → Cursor → Prop where
  | bare : c.kind ≠ .identifier → c.kind ≠ .less → c.kind ≠ .colon → HeadEnds c [] c
  | supertypes {ts : List TypeRef} {stop : Cursor} : c.kind = .colon →
      TokenParser.supertypes c.advance = .ok ts stop → stop.isAtWord "where" = false → HeadEnds c ts stop

/-- The head of a companion object whose keyword ends its line. -/
theorem classHead_companion {ts : List TypeRef} {stop : Cursor} (h : c.kind = .object)
    (hline : c.advance.isAtLine = true) (hends : HeadEnds c.advance ts stop) :
    classHead .companionObject c = .ok (⟨"Companion", c.peek.span⟩, ts) stop := by
  obtain ⟨hname, hangle⟩ : c.advance.kind ≠ .identifier ∧ c.advance.kind ≠ .less := by
    cases hends with
    | bare hname hangle hcolon => exact ⟨hname, hangle⟩
    | supertypes hcolon hread hwhere => rw [hcolon]; exact ⟨nofun, nofun⟩
  have hless : test (·.isAt .less) c.advance = .ok false c.advance := by
    rw [test, isAt, beq_eq_false_iff_ne.mpr hangle]
  have htail : classTail ⟨"Companion", c.peek.span⟩ c.advance = .ok (⟨"Companion", c.peek.span⟩, ts) stop := by
    have hskip := skipConstructor_of_isAtLine hname hline
    unfold classTail
    cases hends with
    | bare _ _ hcolon =>
      have heat : eat .colon c.advance = .ok false c.advance := by
        rw [eat, isAt, beq_eq_false_iff_ne.mpr hcolon, if_neg Bool.false_ne_true]
      have hwhere : test (·.isAtWord "where") c.advance = .ok false c.advance := by
        rw [test, isAtWord, isAt, beq_eq_false_iff_ne.mpr hname, Bool.false_and]
      exact bind_eq_ok.mpr ⟨_, _, hskip, bind_eq_ok.mpr ⟨_, _, heat, bind_eq_ok.mpr ⟨_, _, rfl,
        bind_eq_ok.mpr ⟨_, _, hwhere, rfl⟩⟩⟩⟩
    | supertypes hcolon hread hnot =>
      have heat : eat .colon c.advance = .ok true c.advance.advance := by
        rw [eat, isAt_iff.mpr hcolon, if_pos rfl]
      have hwhere : test (·.isAtWord "where") stop = .ok false stop := by rw [test, hnot]
      exact bind_eq_ok.mpr ⟨_, _, hskip, bind_eq_ok.mpr ⟨_, _, heat, bind_eq_ok.mpr ⟨_, _, hread,
        bind_eq_ok.mpr ⟨_, _, hwhere, rfl⟩⟩⟩⟩
  rw [classHead_eq]
  exact bind_eq_ok.mpr ⟨_, _, classNaming_companion h hname, bind_eq_ok.mpr ⟨_, _, hless, htail⟩⟩

/-- The name of a companion object is what its keyword is followed by. -/
theorem name_of_classHead_companion {name : Ident} {ts : List TypeRef} {c' : Cursor} (h : c.kind = .object)
    (hok : classHead .companionObject c = .ok (name, ts) c') :
    (c.advance.kind = .identifier → name = ⟨c.advance.peek.lexeme, c.advance.peek.span⟩) ∧
      (c.advance.kind ≠ .identifier → name = ⟨"Companion", c.peek.span⟩) := by
  rw [classHead_eq] at hok
  obtain ⟨name', c₁, hnaming, hok⟩ := bind_eq_ok.mp hok
  have hname : name = name' :=
    (Answers.bind fun _ => .ite (.bind fun _ => answers_classTail name') (answers_classTail name')) c₁ _ c' hok
  subst hname
  constructor
  · intro hident
    rw [classNaming_companion_of_identifier h hident] at hnaming
    cases hnaming
    rfl
  · intro hident
    rw [classNaming_companion h hident] at hnaming
    cases hnaming
    rfl

/-- A modifier behind which neither an annotation nor a modifier stands. -/
theorem preamble_of_modifier (h : isAtModifier c = true) (hless : c.advance.size < c.size)
    (hstop : (c.advance.isAt .at || isAtModifier c.advance) = false) :
    preamble c = .ok ⟨[], [c.peek.lexeme]⟩ c.advance := by
  have hat : c.isAt .at = false := by
    rw [isAt, isAt_iff.mp (kind_of_isAtModifier h)]
    rfl
  have hnone : manyWhile (fun c => c.isAt .at || isAtModifier c) preambleItem c.advance = .ok [] c.advance := by
    rw [manyWhile, hstop, if_neg Bool.false_ne_true]
  have hitem : preambleItem c = .ok ⟨[], [c.peek.lexeme]⟩ c.advance := by
    have htest : test (·.isAt .at) c = .ok false c := by rw [test, hat]
    exact bind_eq_ok.mpr ⟨_, _, htest, bind_eq_ok.mpr ⟨_, _, rfl, rfl⟩⟩
  have hitems : manyWhile (fun c => c.isAt .at || isAtModifier c) preambleItem c =
      .ok [⟨[], [c.peek.lexeme]⟩] c.advance := by
    rw [manyWhile, hat, h]
    simp only [Bool.or_true, if_true, hitem, if_pos hless, hnone]
  exact bind_eq_ok.mpr ⟨_, _, hitems, rfl⟩

end TokenParser

namespace Parser

/-! ## The member and what follows it -/

/-- Whether the next member is a companion object, and what stands before its keyword, which the cursor stands
before.  The keyword is the last token of its line. -/
structure CompanionAt (p : Parser) (pre : TokenParser.Preamble) (c : Cursor) : Prop where
  preamble : TokenParser.preamble p.cursor = .ok pre c
  companion : "companion" ∈ pre.modifiers
  keyword : c.kind = .object
  isAtLine : c.advance.isAtLine = true

/-- The parser behind the body of a class, if the class has one. -/
def behindBody (p : Parser) : Parser :=
  if p.cursor.isAt .leftBrace then
    let q := (members true ⟨p.cursor.advance, p.errors⟩).2
    ⟨q.cursor.advance, q.errors⟩
  else p

theorem behindBody_of_classBody {p q : Parser} {ds : List ClassDecl}
    (hok : classBody (members true) p = .ok ds q) : q = p.behindBody := by
  unfold classBody at hok
  obtain ⟨hasBody, c, htest, hok⟩ := reading_bind_eq_ok.mp hok
  cases htest
  rw [behindBody]
  split at hok
  · next hbrace =>
    obtain ⟨_, c, hnext, hok⟩ := reading_bind_eq_ok.mp hok
    cases hnext
    obtain ⟨inner, q', hmembers, hok⟩ := TokenParser.bind_eq_ok.mp hok
    cases hmembers
    obtain ⟨closing, c, hexpect, hok⟩ := reading_bind_eq_ok.mp hok
    obtain ⟨-, -, rfl⟩ := TokenParser.expect_eq_ok.mp hexpect
    cases hok
    rw [if_pos hbrace]
  · next hbrace =>
    cases hok
    rw [if_neg hbrace]

/-- A member with a modifier is neither the end of the members nor a mark between them. -/
theorem CompanionAt.kind_cursor {p : Parser} {pre : TokenParser.Preamble} {c : Cursor} (h : p.CompanionAt pre c) :
    p.cursor.kind = .at ∨ p.cursor.kind = .identifier := by
  obtain ⟨items, c', hitems, hpre⟩ := TokenParser.bind_eq_ok.mp h.preamble
  rw [TokenParser.manyWhile] at hitems
  split at hitems
  · next hmore =>
    rcases Bool.or_eq_true _ _ ▸ hmore with hat | hmodifier
    · exact .inl (Cursor.isAt_iff.mp hat)
    · exact .inr (Cursor.isAt_iff.mp (TokenParser.kind_of_isAtModifier hmodifier))
  · cases hitems
    cases hpre
    exact absurd h.companion List.not_mem_nil

/-- A companion object is one member. -/
theorem CompanionAt.members_eq {p q : Parser} {pre : TokenParser.Preamble} {c : Cursor} {m : Option Member}
    (hp : p.cursor.Sound) (h : p.CompanionAt pre c) (hok : member (members true) p = .ok m q) (inBody : Bool) :
    members inBody p = (m.toList ++ (members inBody q).1, (members inBody q).2) := by
  have hnot : ∀ k, k ≠ .at → k ≠ .identifier → p.cursor.isAt k = false := by
    intro k hat hident
    rw [Cursor.isAt, beq_eq_false_iff_ne]
    rcases h.kind_cursor with hkind | hkind <;> rw [hkind]
    · exact hat.symm
    · exact hident.symm
  have hends : endsMembers inBody p.cursor = false := by
    rw [endsMembers, Cursor.isAtEnd, hnot .eof (by decide) (by decide), hnot .rightBrace (by decide) (by decide), Bool.and_false,
      Bool.or_false]
  have hstep : memberStep (members true) p = (m, q) := by
    rw [memberStep, hnot .rightBrace (by decide) (by decide), hnot .semicolon (by decide) (by decide), hok]
    rfl
  rw [Parser.members_eq hp, hends, hstep]
  rfl

/-- A companion object is a class with what stands before its keyword, and behind its head and body the parser
stops. -/
theorem CompanionAt.exists_class {p q : Parser} {pre : TokenParser.Preamble} {c : Cursor} {m : Option Member}
    (h : p.CompanionAt pre c) (hok : member (members true) p = .ok m q) :
    ∃ (d : ClassDecl) (stop : Cursor), m = some (.class d) ∧ d.kind = .companionObject ∧
      d.annotations = pre.annotations ∧
      TokenParser.classHead .companionObject c = .ok (d.name, d.supertypes) stop ∧
      q = behindBody ⟨stop, p.errors⟩ := by
  have hkind : TokenParser.classKind? pre.modifiers c = some .companionObject := by
    have hcompanion : pre.modifiers.contains "companion" = true := List.contains_iff_mem.mpr h.companion
    rw [TokenParser.classKind?, h.keyword]
    exact if_pos hcompanion
  have halias : c.isAt .typealias = false := by
    rw [Cursor.isAt, h.keyword]
    rfl
  unfold member at hok
  obtain ⟨start, _, hspan, hok⟩ := reading_bind_eq_ok.mp hok
  cases hspan
  obtain ⟨pre', c', hpreamble, hok⟩ := reading_bind_eq_ok.mp hok
  rw [h.preamble] at hpreamble
  cases hpreamble
  obtain ⟨_, _, hhere, hok⟩ := reading_bind_eq_ok.mp hok
  cases hhere
  dsimp only at hok
  rw [halias, if_neg Bool.false_ne_true, hkind] at hok
  obtain ⟨d, q', hclass, hok⟩ := TokenParser.bind_eq_ok.mp hok
  cases hok
  unfold classFrom at hclass
  obtain ⟨⟨name, supertypes⟩, stop, hhead, hclass⟩ := reading_bind_eq_ok.mp hclass
  obtain ⟨ds, q', hbody, hclass⟩ := TokenParser.bind_eq_ok.mp hclass
  cases hclass
  exact ⟨_, stop, rfl, rfl, rfl, hhead, behindBody_of_classBody hbody⟩

/-- A companion object whose keyword ends its line is called `Companion`, unless an identifier begins the next
line: then that is its name.  Without such an identifier its head ends where its supertypes do, or with its
keyword, and behind the head and the body the members go on. -/
theorem member_companion {p q : Parser} {pre : TokenParser.Preamble} {c : Cursor} {m : Option Member}
    (hp : p.cursor.Sound) (h : p.CompanionAt pre c) (hok : member (members true) p = .ok m q) :
    ∃ d : ClassDecl, m = some (.class d) ∧ d.kind = .companionObject ∧ d.annotations = pre.annotations ∧
      (c.advance.kind = .identifier → d.name = ⟨c.advance.peek.lexeme, c.advance.peek.span⟩) ∧
      (c.advance.kind ≠ .identifier → d.name = ⟨"Companion", c.peek.span⟩) ∧
      (∀ ts stop, TokenParser.HeadEnds c.advance ts stop →
        d.supertypes = ts ∧ q = behindBody ⟨stop, p.errors⟩) ∧
      ∀ inBody, members inBody p = (.class d :: (members inBody q).1, (members inBody q).2) := by
  obtain ⟨d, stop, rfl, hkind, hannotations, hhead, hq⟩ := h.exists_class hok
  obtain ⟨hident, hnone⟩ := TokenParser.name_of_classHead_companion h.keyword hhead
  refine ⟨d, rfl, hkind, hannotations, hident, hnone, ?_, h.members_eq hp hok⟩
  intro ts stop' hends
  have hhead' := TokenParser.classHead_companion h.keyword h.isAtLine hends
  rw [hhead] at hhead'
  obtain ⟨hanswer, rfl⟩ := EStateM.Result.ok.inj hhead'
  exact ⟨(Prod.mk.inj hanswer).2, hq⟩

end Parser

/-! ## A modifier on the next line -/

namespace EnumBehindCompanion

/-- A class with a companion object and, on the next line, a class with something before its keyword. -/
def text (before : String) : String := "class A \x7b\n  companion object\n  " ++ before ++ " class E\n\x7d\n"

/-- The parser in the body of the class. -/
def inBody (before : String) : Parser := ⟨(Parser.ofSource (text before)).cursor.skip 3, []⟩

/-- The class with a modifier or an annotation is behind the keyword of the companion object. -/
def next (before : String) : Cursor := (inBody before).cursor.advance.advance

theorem sound_inBody {before : String} (heof : (inBody before).cursor.eof.kind = .eof)
    (hrest : (inBody before).cursor.rest.all (·.kind != .eof) = true) : (inBody before).cursor.Sound :=
  ⟨heof, fun t ht => by simpa using List.all_eq_true.mp hrest t ht⟩

theorem companionAt_inBody {before : String} (hlexeme : (inBody before).cursor.peek.lexeme = "companion")
    (hmodifier : TokenParser.isAtModifier (inBody before).cursor = true)
    (hless : (inBody before).cursor.advance.size < (inBody before).cursor.size)
    (hkeyword : (inBody before).cursor.advance.kind = .object) (hline : (next before).isAtLine = true) :
    (inBody before).CompanionAt ⟨[], ["companion"]⟩ (inBody before).cursor.advance := by
  refine ⟨?_, List.mem_singleton_self _, hkeyword, hline⟩
  rw [← hlexeme]
  refine TokenParser.preamble_of_modifier hmodifier hless ?_
  simp [Cursor.isAt, TokenParser.isAtModifier, hkeyword]

theorem companionAt_annotated :
    (inBody "@B").CompanionAt ⟨[], ["companion"]⟩ (inBody "@B").cursor.advance := by
  apply companionAt_inBody <;> first | with_unfolding_all rfl | exact of_decide_eq_true (by with_unfolding_all rfl)

theorem companionAt_enum :
    (inBody "enum").CompanionAt ⟨[], ["companion"]⟩ (inBody "enum").cursor.advance := by
  apply companionAt_inBody <;> first | with_unfolding_all rfl | exact of_decide_eq_true (by with_unfolding_all rfl)

/-- Whether a member is read in the body of the class. -/
def isRead (before : String) : Bool :=
  match Parser.member (Parser.members true) (inBody before) with
  | .ok _ _ => true
  | .error _ _ => false

theorem exists_member {before : String} (h : isRead before = true) :
    ∃ m q, Parser.member (Parser.members true) (inBody before) = .ok m q := by
  unfold isRead at h
  split at h
  · next m q hok => exact ⟨m, q, hok⟩
  · contradiction

/-- An annotation on the next line is that of the next class, which the members go on with. -/
theorem member_companion_annotated : ∃ d : ClassDecl, d.name.name = "Companion" ∧
    (Parser.members true (inBody "@B")).1 = .class d :: (Parser.members true ⟨next "@B", []⟩).1 := by
  have hsound : (inBody "@B").cursor.Sound := sound_inBody (by decide +kernel) (by decide +kernel)
  have hread : isRead "@B" = true := by decide +kernel
  have hnext : (next "@B").kind = .at := by decide +kernel
  obtain ⟨m, q, hok⟩ := exists_member hread
  obtain ⟨d, -, -, -, -, hname, hends, hmembers⟩ := Parser.member_companion hsound companionAt_annotated hok
  have hbare : TokenParser.HeadEnds (next "@B") [] (next "@B") :=
    .bare (by rw [hnext]; nofun) (by rw [hnext]; nofun) (by rw [hnext]; nofun)
  have hq : q = Parser.behindBody ⟨next "@B", []⟩ := (hends _ _ hbare).2
  have hbrace : (next "@B").isAt .leftBrace = false := by rw [Cursor.isAt, hnext]; rfl
  refine ⟨d, congrArg Ident.name (hname ?_), ?_⟩
  · show (next "@B").kind ≠ .identifier
    rw [hnext]
    nofun
  · rw [hmembers true, hq, Parser.behindBody, hbrace]
    rfl

/-- A modifier on the next line is the name of the companion object and lost to the class. -/
theorem declarations_enum : (SourceFile.parse "T.kt" (text "enum")).toOption.map
    (·.declarations.map fun d => d.declarations.map fun e => (e.kind, e.name.name)) =
      some [[(.companionObject, "enum"), (.class, "E")]] := by
  with_unfolding_all rfl

/-- A companion object whose keyword ends its line need not be called `Companion`. -/
theorem not_forall_companion : ¬ ∀ (p q : Parser) (pre : TokenParser.Preamble) (c : Cursor) (d : ClassDecl),
    p.cursor.Sound → p.CompanionAt pre c → Parser.member (Parser.members true) p = .ok (some (.class d)) q →
    d.name.name = "Companion" := by
  intro h
  have hsound : (inBody "enum").cursor.Sound := sound_inBody (by decide +kernel) (by decide +kernel)
  have hread : isRead "enum" = true := by decide +kernel
  obtain ⟨m, q, hok⟩ := exists_member hread
  obtain ⟨d, stop, rfl, -, -, hhead, -⟩ := companionAt_enum.exists_class hok
  have hname := (TokenParser.name_of_classHead_companion companionAt_enum.keyword hhead).1 (by decide +kernel)
  have henum : (inBody "enum").cursor.advance.advance.peek.lexeme = "enum" := by decide +kernel
  have hcompanion := h (inBody "enum") q _ _ d hsound companionAt_enum hok
  rw [hname, henum] at hcompanion
  exact absurd hcompanion (by decide)

end EnumBehindCompanion

end ServiceCatalog
