import ServiceCatalog.Proofs.Token.Enclosure
import ServiceCatalog.Proofs.Token.Recognition
import ServiceCatalog.Proofs.Token.Separators
import ServiceCatalog.Token.Reader

/-!
# Literals that end on their line

A string between single marks and a character literal are closed on the line on which they are opened.  Between their
marks stand characters, characters behind a backslash and, in a string, templates.  A template may hold line feeds, and
so, it turns out, may a backslash be followed by one.

* `LineLiteral.AreParts`: what stands between the marks of such a literal, cut into its parts.
* `LineLiteral.skip_parts`, `LineLiteral.exists_parts_of_closed`: a pass takes the parts, and takes nothing else.
* `LineLiteral.ends_on_line`: the text of a literal, and what is reported of one that is open at the end of a line.
-/

namespace ServiceCatalog

open Enclosure

/-- A part of a literal that ends on its line. -/
inductive LiteralPart where
  | plain (c : Char)
  /-- A character behind a backslash. -/
  | escape (c : Char)
  /-- A template, of which what stands behind its opening mark is given. -/
  | template (inner : List Char)

namespace LiteralPart

/-- The characters of a part. -/
def chars : LiteralPart → List Char
  | plain c => [c]
  | escape c => ['\\', c]
  | template inner => '$' :: '{' :: inner

/-- The characters of a part that are not in a template. -/
def outside : LiteralPart → List Char
  | plain c => [c]
  | escape c => ['\\', c]
  | template _ => []

/-- The characters of several parts. -/
def text (parts : List LiteralPart) : List Char := parts.flatMap chars

@[simp] theorem text_nil : text [] = [] := rfl

@[simp] theorem text_cons (x : LiteralPart) (parts : List LiteralPart) :
    text (x :: parts) = x.chars ++ text parts := rfl

end LiteralPart

/-- The literals that end on their line. -/
inductive LineLiteral where
  | string
  | character

namespace LineLiteral

/-- The mark that opens and closes the literal. -/
def mark : LineLiteral → Char
  | string => '"'
  | character => '\''

/-- The literal as it is passed over. -/
def enclosure : LineLiteral → Enclosure
  | string => .quoted
  | character => .character

/-- The kind of its tokens. -/
def kind : LineLiteral → TokenKind
  | string => .stringLiteral
  | character => .charLiteral

/-- Whether a template begins with the character, in front of a text. -/
def Opens (k : LineLiteral) (c : Char) (cs : List Char) : Prop := k = string ∧ c = '$' ∧ cs.head? = some '{'

/-- Whether parts stand between the marks of a literal, with a given text behind them. -/
inductive AreParts (k : LineLiteral) (behind : List Char) : List LiteralPart → Prop
  | nil : AreParts k behind []
  | plain {c : Char} {parts : List LiteralPart} : c ≠ '\n' → c ≠ k.mark → c ≠ '\\' →
      ¬ k.Opens c (LiteralPart.text parts ++ behind) → AreParts k behind parts → AreParts k behind (.plain c :: parts)
  | escape {c : Char} {parts : List LiteralPart} : AreParts k behind parts → AreParts k behind (.escape c :: parts)
  | template {inner : List Char} {parts : List LiteralPart} : k = string →
      skip [.template 0] inner = ⟨true, inner.length⟩ → AreParts k behind parts →
      AreParts k behind (.template inner :: parts)

variable {k : LineLiteral} {outer : List Enclosure} {c : Char} {cs behind : List Char} {parts : List LiteralPart}

/-! ## Passing over a literal -/

theorem skip_mark : skip (k.enclosure :: outer) (k.mark :: cs) = (skip outer cs).beyond 1 := by
  cases k <;> rw [enclosure, mark, skip_cons_cons] <;> rfl

theorem skip_newline : skip (k.enclosure :: outer) ('\n' :: cs) = ⟨false, 0⟩ := by
  cases k <;> rw [enclosure, skip_cons_cons] <;> rfl

theorem skip_escape :
    skip (k.enclosure :: outer) ('\\' :: c :: cs) = (skip (k.enclosure :: outer) cs).beyond 2 := by
  cases k <;> rw [enclosure, skip_cons_cons] <;> simp [step]

theorem skip_template (hk : k = string) : skip (k.enclosure :: outer) ('$' :: '{' :: cs) =
    (skip ([.template 0] ++ k.enclosure :: outer) cs).beyond 2 := by
  subst hk
  rw [enclosure, skip_cons_cons]
  rfl

theorem skip_plain (hnewline : c ≠ '\n') (hmark : c ≠ k.mark) (hescape : c ≠ '\\') (hopens : ¬ k.Opens c cs) :
    skip (k.enclosure :: outer) (c :: cs) = (skip (k.enclosure :: outer) cs).beyond 1 := by
  rw [skip_cons_cons]
  cases k with
  | string =>
    rw [mark] at hmark
    have hopens : ¬ (c = '$' ∧ cs.head? = some '{') := fun h => hopens ⟨rfl, h⟩
    simp [enclosure, step, hnewline, hmark, hescape, hopens]
  | character =>
    rw [mark] at hmark
    simp [enclosure, step, hnewline, hmark, hescape]

/-- A pass takes the parts of a literal. -/
theorem skip_parts (h : k.AreParts behind parts) (outer : List Enclosure) :
    skip (k.enclosure :: outer) (LiteralPart.text parts ++ behind) =
      (skip (k.enclosure :: outer) behind).beyond (LiteralPart.text parts).length := by
  induction h with
  | nil => exact (Reach.beyond_zero _).symm
  | plain hnewline hmark hescape hopens _ ih =>
    rw [LiteralPart.text_cons, List.append_assoc, List.length_append, ← Reach.beyond_beyond, ← ih]
    exact skip_plain hnewline hmark hescape hopens
  | escape _ ih =>
    rw [LiteralPart.text_cons, List.append_assoc, List.length_append, ← Reach.beyond_beyond, ← ih]
    exact skip_escape
  | @template inner parts hk hinner _ ih =>
    have hskip : skip [.template 0] (inner ++ (LiteralPart.text parts ++ behind)) = ⟨true, inner.length⟩ := by
      have hinner' : skip [.template 0] (inner ++ []) = ⟨true, inner.length⟩ := by rwa [List.append_nil]
      exact skip_exchange hinner' fun _ => by simp
    rw [LiteralPart.text_cons, List.append_assoc, List.length_append, ← Reach.beyond_beyond, ← ih, LiteralPart.chars,
      List.cons_append, List.cons_append, skip_template hk, skip_append_of_closed hskip, Reach.beyond_beyond,
      List.length_cons, List.length_cons, Nat.add_comm]

/-- What is behind parts matters for its first character only. -/
theorem AreParts.congr {behind' : List Char} (h : k.AreParts behind parts) (hhead : behind.head? = behind'.head?) :
    k.AreParts behind' parts := by
  induction h with
  | nil => exact .nil
  | plain hnewline hmark hescape hopens _ ih =>
    refine .plain hnewline hmark hescape (fun ⟨hk, hc, hopen⟩ => hopens ⟨hk, hc, ?_⟩) ih
    rw [List.head?_append] at hopen ⊢
    rwa [hhead]
  | escape _ ih => exact .escape ih
  | template hk hinner _ ih => exact .template hk hinner ih

/-- A pass that closes a literal takes its parts and its mark. -/
theorem exists_parts_of_closed (cs : List Char) (h : (skip [k.enclosure] cs).closed) :
    ∃ parts behind, cs = LiteralPart.text parts ++ k.mark :: behind ∧ k.AreParts (k.mark :: behind) parts ∧
      (skip [k.enclosure] cs).length = (LiteralPart.text parts).length + 1 := by
  induction hn : cs.length using Nat.strong_induction_on generalizing cs with
  | h n ih =>
    rcases cs with _ | ⟨c, cs⟩
    · exact absurd h (by simp)
    rw [List.length_cons] at hn
    by_cases hmark : c = k.mark
    · subst hmark
      refine ⟨[], cs, rfl, .nil, ?_⟩
      rw [skip_mark]
      simp
    by_cases hnewline : c = '\n'
    · subst hnewline
      rw [skip_newline] at h
      exact absurd h nofun
    by_cases hescape : c = '\\'
    · subst hescape
      rcases cs with _ | ⟨d, cs⟩
      · -- Nothing is left behind the backslash that could close the literal.
        rw [skip_cons_cons] at h
        cases k <;> exact absurd h (by simp [enclosure, step])
      · rw [skip_escape] at h ⊢
        obtain ⟨parts, behind, rfl, hparts, hlength⟩ := ih cs.length (by rw [List.length_cons] at hn; omega) cs h rfl
        refine ⟨.escape d :: parts, behind, rfl, .escape hparts, ?_⟩
        rw [Reach.length_beyond, hlength, LiteralPart.text_cons, List.length_append, ← Nat.add_assoc]
        rfl
    by_cases hopens : k.Opens c cs
    · obtain ⟨hk, rfl, hhead⟩ := hopens
      obtain ⟨inside, rfl⟩ := List.head?_eq_some_iff.mp hhead
      rw [skip_template hk, skip_append] at h ⊢
      have hclosed : (skip [.template 0] inside).closed = true := by
        by_contra hopen
        rw [if_neg hopen] at h
        exact hopen h
      obtain ⟨inner, behind, rfl, hskip⟩ := exists_front_of_closed hclosed
      have hinner : skip [.template 0] (inner ++ []) = ⟨true, inner.length⟩ := skip_exchange hskip fun _ => by simp
      rw [List.append_nil] at hinner
      rw [hskip, if_pos rfl, List.drop_left] at h ⊢
      obtain ⟨parts, behind, rfl, hparts, hlength⟩ := ih behind.length (by simp at hn; omega) behind h rfl
      refine ⟨.template inner :: parts, behind, by simp [LiteralPart.chars], .template hk hinner hparts, ?_⟩
      simp only [Reach.length_beyond, hlength, LiteralPart.text_cons, LiteralPart.chars, List.length_append,
        List.length_cons]
      omega
    · rw [skip_plain hnewline hmark hescape hopens] at h ⊢
      obtain ⟨parts, behind, rfl, hparts, hlength⟩ := ih cs.length (by omega) cs h rfl
      refine ⟨.plain c :: parts, behind, rfl, .plain hnewline hmark hescape hopens hparts, ?_⟩
      rw [Reach.length_beyond, hlength, LiteralPart.text_cons, List.length_append, ← Nat.add_assoc]
      rfl

/-- A line feed outside of templates stands behind a backslash. -/
theorem newline_mem_iff (h : k.AreParts behind parts) :
    '\n' ∈ parts.flatMap LiteralPart.outside ↔ .escape '\n' ∈ parts := by
  induction h with
  | nil => simp
  | plain hnewline _ _ _ _ ih => simp [LiteralPart.outside, ih, hnewline.symm]
  | escape _ ih => simp [LiteralPart.outside, ih, eq_comm]
  | template _ _ _ ih => simp [LiteralPart.outside, ih]

/-- A literal that is open at the end of a line does not begin with its mark again. -/
theorem AreParts.head?_ne_mark (h : k.AreParts behind parts) (hbehind : EndsLine behind) :
    (LiteralPart.text parts ++ behind).head? ≠ some k.mark := by
  cases h with
  | nil => rcases hbehind with hend | hend <;> cases k <;> simp [LiteralPart.text, mark, hend]
  | plain _ hmark _ _ _ => simpa [LiteralPart.chars] using hmark
  | escape _ => cases k <;> simp [LiteralPart.chars, mark]
  | template _ _ _ => cases k <;> simp [LiteralPart.chars, mark]

/-- A pass stops where a literal is open at the end of a line, whatever is open around it. -/
theorem skip_open (h : k.AreParts behind parts) (hbehind : EndsLine behind) (outer : List Enclosure) :
    skip (k.enclosure :: outer) (LiteralPart.text parts ++ behind) = ⟨false, (LiteralPart.text parts).length⟩ := by
  have hstop : skip (k.enclosure :: outer) behind = ⟨false, 0⟩ := by
    cases behind with
    | nil => exact skip_cons_nil ..
    | cons c cs =>
      obtain rfl : c = '\n' := by simpa [EndsLine] using hbehind
      exact skip_newline
  rw [skip_parts h, hstop]
  rfl

/-! ## Literals of a text -/

/-- Whether three quotes begin a text. -/
def OpensRaw (cs : List Char) : Prop := cs.take 3 = ['"', '"', '"']

instance (cs : List Char) : Decidable (OpensRaw cs) := inferInstanceAs (Decidable (_ = _))

/-- What begins with the mark of a literal is the literal, unless it is a raw string. -/
theorem recognize_mark (h : ¬ OpensRaw (k.mark :: cs)) :
    recognize k.mark cs = recognizeLiteral 0 k.enclosure k.kind cs := by
  cases k with
  | string =>
    have htake : cs.take 2 ≠ ['"', '"'] := fun htake => h (congrArg ('"' :: ·) htake)
    rw [mark, recognize, if_pos rfl, if_neg htake]
    rfl
  | character =>
    rw [mark, recognize, if_neg (by decide), if_pos rfl]
    rfl

/-- A token that is a literal begins with the mark of the literal. -/
theorem eq_mark_of_recognize (h : (recognize c cs).kind = .ok k.kind) : c = k.mark := by
  have hliteral : ∀ opening e kind, (recognizeLiteral opening e kind cs).kind = .ok k.kind → kind = k.kind := by
    intro opening e kind hkind
    unfold recognizeLiteral at hkind
    dsimp only at hkind
    split at hkind
    · exact Except.ok.inj hkind
    · exact absurd hkind nofun
  unfold recognize at h
  dsimp only at h
  split at h
  · next hc =>
    have hkind : TokenKind.stringLiteral = k.kind := by split at h <;> exact hliteral _ _ _ h
    cases k with
    | string => exact hc
    | character => exact absurd hkind nofun
  split at h
  · next hc =>
    have hkind : TokenKind.charLiteral = k.kind := hliteral _ _ _ h
    cases k with
    | string => exact absurd hkind nofun
    | character => exact hc
  split at h
  · split at h <;> cases k <;> exact absurd h nofun
  split at h
  · cases k <;> exact absurd h nofun
  split at h
  · exact absurd (Except.ok.inj h) (ofWord_ne (by cases k <;> decide) _)
  · exact absurd h (recognizeMark_ne (by cases k <;> decide) c cs)

/-- A raw string takes the three quotes that open it. -/
theorem two_le_length_of_opensRaw (h : OpensRaw (k.mark :: cs)) : 2 ≤ (recognize k.mark cs).length := by
  obtain ⟨hmark, htake⟩ := List.cons.inj h
  rw [hmark, recognize, if_pos rfl, if_pos htake]
  exact Nat.le_add_right ..

/-- A token that is a literal on its line is written as one. -/
theorem exists_parts_of_recognize (h : (recognize c cs).kind = .ok k.kind)
    (hraw : ¬ OpensRaw (c :: cs.take (recognize c cs).length)) : ∃ parts,
      c :: cs.take (recognize c cs).length = k.mark :: (LiteralPart.text parts ++ [k.mark]) ∧
        k.AreParts [k.mark] parts := by
  obtain rfl := eq_mark_of_recognize h
  have hopens : ¬ OpensRaw (k.mark :: cs) := by
    intro hopens
    refine hraw ?_
    rw [OpensRaw, List.take_succ_cons, List.take_take, Nat.min_eq_left (two_le_length_of_opensRaw hopens)]
    exact hopens
  have hrecognize := recognize_mark hopens
  have hclosed : (skip [k.enclosure] cs).closed = true := by
    rw [hrecognize, recognizeLiteral, List.drop_zero] at h
    by_contra hopen
    exact absurd (h.symm.trans (if_neg hopen)) nofun
  obtain ⟨parts, behind, rfl, hparts, hlength⟩ := exists_parts_of_closed cs hclosed
  refine ⟨parts, ?_, hparts.congr rfl⟩
  have hlength' : (recognize k.mark (LiteralPart.text parts ++ k.mark :: behind)).length =
      (LiteralPart.text parts).length + 1 := by
    rw [hrecognize, ← hlength]
    exact Nat.zero_add _
  rw [hlength', List.take_length_add_append]
  rfl

/-- A literal that is closed behind its parts is recognized up to its mark. -/
theorem recognize_closed (h : k.AreParts (k.mark :: behind) parts)
    (hraw : ¬ OpensRaw (k.mark :: (LiteralPart.text parts ++ k.mark :: behind))) :
    recognize k.mark (LiteralPart.text parts ++ k.mark :: behind) =
      ⟨(LiteralPart.text parts).length + 1, .ok k.kind⟩ := by
  have hclosed : skip [k.enclosure] (LiteralPart.text parts ++ k.mark :: behind) =
      ⟨true, (LiteralPart.text parts).length + 1⟩ := by
    rw [skip_parts h, skip_mark, skip_nil]
    rfl
  rw [recognize_mark hraw, recognizeLiteral, List.drop_zero, hclosed, Nat.zero_add]
  rfl

/-- A literal that is open at the end of a line is recognized as an unterminated one. -/
theorem recognize_open (h : k.AreParts behind parts) (hbehind : EndsLine behind) :
    recognize k.mark (LiteralPart.text parts ++ behind) =
      ⟨(LiteralPart.text parts).length, .error .unterminatedString⟩ := by
  have hraw : ¬ OpensRaw (k.mark :: (LiteralPart.text parts ++ behind)) := by
    intro hopens
    obtain ⟨hmark, htake⟩ := List.cons.inj hopens
    refine h.head?_ne_mark hbehind ?_
    have hhead : ((LiteralPart.text parts ++ behind).take 2).head? = some k.mark := by
      rw [htake, hmark]
      rfl
    rwa [List.head?_take, if_neg (by decide)] at hhead
  rw [recognize_mark hraw, recognizeLiteral]
  simp only [List.drop_zero, skip_open h hbehind]
  simp

/-- A literal on its line is made of its marks and of its parts, and a line feed outside of templates stands behind a
backslash.  One that is open at the end of a line is reported there, and so is whatever it stands in. -/
theorem ends_on_line (k : LineLiteral) (source : String) :
    (∀ t, .token t ∈ lexemes source → t.kind = k.kind → ¬ OpensRaw t.lexeme.toList → ∃ parts,
      t.lexeme.toList = k.mark :: (LiteralPart.text parts ++ [k.mark]) ∧ k.AreParts [k.mark] parts ∧
        ('\n' ∈ parts.flatMap LiteralPart.outside ↔ .escape '\n' ∈ parts)) ∧
    (∀ (r : TextReader) parts behind,
      r.rest.drop (gap r.rest).length = k.mark :: (LiteralPart.text parts ++ behind) → k.AreParts behind parts →
        EndsLine behind → (∃ span newlineBefore, r.take.1 = .invalid ⟨.unterminatedString, span⟩ newlineBefore) ∧
          r.take.2.rest = behind) ∧
    ∀ outer parts behind, k.AreParts behind parts → EndsLine behind →
      skip (k.enclosure :: outer) (LiteralPart.text parts ++ behind) = ⟨false, (LiteralPart.text parts).length⟩ := by
  refine ⟨fun t ht hkind hraw => ?_, fun r parts behind hrest hparts hbehind => ?_, fun outer parts behind h hbehind =>
    skip_open h hbehind outer⟩
  · obtain heof | ⟨c, cs, hrecognized, htext⟩ := exists_recognized_of_mem ht
    · rw [hkind] at heof
      cases k <;> contradiction
    · rw [hkind] at hrecognized
      have hc := eq_mark_of_recognize hrecognized
      have hquote : c ≠ '`' := by
        rw [hc]
        cases k <;> decide
      rw [htext, String.toList_ofList, keptText_of_ne hquote] at hraw ⊢
      obtain ⟨parts, htaken, hparts⟩ := exists_parts_of_recognize hrecognized hraw
      exact ⟨parts, htaken, hparts, newline_mem_iff hparts⟩
  · have hunclosed : ¬ (gap r.rest).unclosed = true := by
      intro hunclosed
      have hslash := head?_of_unclosed hunclosed
      rw [hrest] at hslash
      cases k <;> exact absurd (Option.some.inj hslash) (by decide)
    have hpass : (r.pass (gap r.rest).length).rest = k.mark :: (LiteralPart.text parts ++ behind) := hrest
    rw [TextReader.take]
    dsimp only
    split
    · next hnil =>
      rw [hpass] at hnil
      contradiction
    · next c cs hcons =>
      obtain ⟨rfl, rfl⟩ := List.cons.inj (hpass.symm.trans hcons)
      rw [if_neg hunclosed, recognize_open hparts hbehind]
      refine ⟨⟨_, _, rfl⟩, ?_⟩
      show (r.pass (gap r.rest).length).rest.drop ((LiteralPart.text parts).length + 1) = behind
      rw [hpass, List.drop_succ_cons, List.drop_left]

end LineLiteral

/-! ### A line feed behind a backslash -/

namespace EscapedLineFeed

/-- A string with a backslash at the end of its line, closed on the next one. -/
def text : String := "\"\\\n\""

/-- The token that it is read as. -/
def literal : Token := ⟨.stringLiteral, text, ⟨1, 1, 4⟩, false⟩

theorem mem_lexemes : .token literal ∈ lexemes text := by
  have hlexemes : lexemes text = [.token literal, .token ⟨.eof, "", ⟨2, 2, 0⟩, false⟩] := by
    with_unfolding_all rfl
  rw [hlexemes]
  exact List.mem_cons_self ..

theorem not_opensRaw_literal : ¬ LineLiteral.OpensRaw literal.lexeme.toList := by
  decide +kernel

/-- The literal is made of its marks and of a part that is not a template. -/
theorem parts_literal : ∃ parts,
    literal.lexeme.toList = '"' :: (LiteralPart.text parts ++ ['"']) ∧ LineLiteral.string.AreParts ['"'] parts ∧
      ('\n' ∈ parts.flatMap LiteralPart.outside ↔ .escape '\n' ∈ parts) :=
  (LineLiteral.ends_on_line .string text).1 literal mem_lexemes rfl not_opensRaw_literal

/-- A literal without templates may hold a line feed. -/
theorem not_forall_newline_not_mem : ¬ ∀ (source : String) (t : Token), .token t ∈ lexemes source →
    t.kind = .stringLiteral → ¬ LineLiteral.OpensRaw t.lexeme.toList → '$' ∉ t.lexeme.toList →
      '\n' ∉ t.lexeme.toList := by
  intro h
  exact h text literal mem_lexemes rfl not_opensRaw_literal (by decide +kernel) (by decide +kernel)

end EscapedLineFeed

end ServiceCatalog
