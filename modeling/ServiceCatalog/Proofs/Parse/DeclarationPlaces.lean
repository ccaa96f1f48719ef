import ServiceCatalog.Proofs.Parse.FileInsertion
import ServiceCatalog.Proofs.Source.Placed

/-!
# Where declarations begin

The span of a class or a type alias begins at its first token, be that an annotation, a modifier or the keyword: the
tokens of a text stand one behind the other, and a span is from one token to a later one.  So the places where the
classes and type aliases of a file begin are told by its tree, and members may be inserted there.

* `Reads.exists_boundary`: a class that is read among members, at any depth, begins at a place between members.
* `SourceFile.exists_hasBoundary_of_class`, `SourceFile.exists_hasBoundary_of_typeAlias`: so do those of a file.
-/

namespace ServiceCatalog

open Relation TokenParser

/-! ## Where spans begin -/

/-- A span that covers a place and what is not in front of it begins at the place. -/
theorem Span.start_merge {a b : Span} (h : a.start.UpTo b.start) : (a.merge b).start = a.start := by
  have hlines : a.line < b.line ∨ a.line = b.line ∧ a.column ≤ b.column := by
    rcases h with heq | hbefore
    · have hline : a.line = b.line := congrArg Position.line heq
      have hcolumn : a.column = b.column := congrArg Position.column heq
      exact .inr ⟨hline, Nat.le_of_eq hcolumn⟩
    · exact hbefore.imp_right fun h => ⟨h.1, Nat.le_of_lt h.2⟩
  rcases hlines with hline | ⟨hline, hcolumn⟩
  · rw [Span.merge, if_neg (Nat.ne_of_lt hline), if_neg (Nat.lt_asymm hline)]
    rfl
  · rw [Span.merge, if_pos hline, Nat.min_eq_left hcolumn]
    rfl

namespace Cursor

/-- Whether the tokens to come begin one behind the other. -/
def Ordered (c : Cursor) : Prop := c.rest.Pairwise fun t u => t.span.start.Before u.span.start

variable {c k : Cursor}

theorem Precedes.ordered (h : c.Precedes k) (hc : c.Ordered) : k.Ordered := by
  obtain ⟨n, rfl⟩ := h
  exact List.Pairwise.sublist (List.drop_sublist n _) hc

/-- The span from a token to a later one begins with the first of them. -/
theorem start_spanFrom (hc : c.Ordered) (hmoves : c.Precedes k) (hless : k.size < c.size) :
    (k.spanFrom c.peek.span).start = c.peek.span.start := by
  obtain ⟨n, rfl⟩ := hmoves
  obtain ⟨previous, _ | ⟨t, ts⟩, eof⟩ := c
  · exact absurd hless (Nat.not_lt_zero _)
  · obtain ⟨n, rfl⟩ := Nat.exists_eq_succ_of_ne_zero (n := n) (by rintro rfl; exact absurd hless (Nat.lt_irrefl _))
    obtain ⟨u, hu⟩ : ∃ u, (t :: ts.take n).getLast? = some u := ⟨_, List.getLast?_eq_some_getLast (List.cons_ne_nil _ _)⟩
    have hspan : (Cursor.skip ⟨previous, t :: ts, eof⟩ (n + 1)).spanFrom t.span = t.span.merge u.span := by
      simp only [spanFrom, skip, List.take_succ_cons, hu, Option.some_or]
    rw [peek_cons, hspan]
    refine Span.start_merge ?_
    rcases List.mem_cons.mp (List.mem_of_getLast? hu) with rfl | hmem
    · exact .inl rfl
    · exact .inr (List.rel_of_pairwise_cons hc (List.mem_of_mem_take hmem))

end Cursor

theorem Parser.ordered_ofSource (source : String) : (ofSource source).cursor.Ordered := by
  have hordered : (tokensOf source).Pairwise fun t u => t.span.start.Before u.span.start := tokens_ordered source
  rw [(ofSource_cursor source).2] at hordered
  exact (List.pairwise_append.mp hordered).1

/-! ## Members that are kept -/

/-- The span of a member that is kept. -/
def Member.span : Member → Span
  | .class d => d.span
  | .typeAlias a => a.span

namespace Member

theorem mem_of_class? {d : ClassDecl} {ms : List Member} (h : d ∈ ms.filterMap class?) : .class d ∈ ms := by
  obtain ⟨m, hm, hclass⟩ := List.mem_filterMap.mp h
  cases m with
  | «class» => exact Option.some.inj hclass ▸ hm
  | typeAlias => contradiction

theorem mem_of_typeAlias? {a : TypeAlias} {ms : List Member} (h : a ∈ ms.filterMap typeAlias?) : .typeAlias a ∈ ms := by
  obtain ⟨m, hm, halias⟩ := List.mem_filterMap.mp h
  cases m with
  | «class» => contradiction
  | typeAlias => exact Option.some.inj halias ▸ hm

end Member

namespace TokenParser

theorem span_typeAlias {start : Span} {annotations : List AnnotationUse} {a : TypeAlias} {c k : Cursor}
    (hok : typeAlias start annotations c = .ok a k) : a.span = k.spanFrom start := by
  have htarget : ∀ {name : Ident} {c : Cursor}, (do
      let _ ← next
      let target ← type
      return (⟨name, annotations, target, ← spanFrom start⟩ : TypeAlias) : TokenParser TypeAlias) c = .ok a k →
      a.span = k.spanFrom start := by
    intro name c hok
    obtain ⟨_, _, -, hok⟩ := bind_eq_ok.mp hok
    obtain ⟨_, _, -, hok⟩ := bind_eq_ok.mp hok
    obtain ⟨_, _, hspan, hok⟩ := bind_eq_ok.mp hok
    cases hspan
    cases hok
    rfl
  have hequal : ∀ {name : Ident} {c : Cursor}, (do
      if ← test (fun c => !c.isAt .equal) then failExpecting TokenKind.equal.description
      let _ ← next
      let target ← type
      return (⟨name, annotations, target, ← spanFrom start⟩ : TypeAlias) : TokenParser TypeAlias) c = .ok a k →
      a.span = k.spanFrom start := by
    intro name c hok
    obtain ⟨isMissing, _, -, hok⟩ := bind_eq_ok.mp hok
    split at hok
    · obtain ⟨_, _, -, hok⟩ := bind_eq_ok.mp hok
      exact htarget hok
    · exact htarget hok
  obtain ⟨_, _, -, hok⟩ := bind_eq_ok.mp hok
  obtain ⟨name, _, -, hok⟩ := bind_eq_ok.mp hok
  obtain ⟨isGeneric, _, -, hok⟩ := bind_eq_ok.mp hok
  split at hok
  · obtain ⟨_, _, -, hok⟩ := bind_eq_ok.mp hok
    exact hequal hok
  · exact hequal hok

end TokenParser

theorem ReadsHead.isAtKept {c k : Cursor} {as : List AnnotationUse} {kind : ClassKind} {name : Ident} {ts : List TypeRef}
    (h : ReadsHead c as kind name ts k) : c.IsAtKept := by
  obtain ⟨-, hbefore, hkind, -⟩ := h
  exact ⟨_, _, hbefore, .inr (by rw [hkind]; rfl)⟩

theorem ReadsHead.size_lt {c k : Cursor} {as : List AnnotationUse} {kind : ClassKind} {name : Ident} {ts : List TypeRef}
    (h : ReadsHead c as kind name ts k) (hc : c.Sound) : k.size < c.size := by
  obtain ⟨-, hbefore, hkind, hhead⟩ := h
  have hmoves := precedes_of_ok forward_preamble hc hbefore
  exact Nat.lt_of_lt_of_le (size_classHead_lt (hmoves.sound hc) hkind hhead) hmoves.size_le

namespace Reads

variable {c k q : Cursor} {m : Member} {ms others : List Member}

/-- A member that is read is read where a class or a type alias begins. -/
theorem exists_at (h : Reads c ms k) (hm : m ∈ ms) :
    ∃ front q others, ms = front ++ m :: others ∧ Reads c front q ∧ q.IsAtKept ∧ Reads q (m :: others) k := by
  induction h with
  | nil => contradiction
  | mark hkind _ ih =>
    obtain ⟨front, q, others, hms, hfront, hq⟩ := ih hm
    exact ⟨front, q, others, hms, .mark hkind hfront, hq⟩
  | passed hc hbefore hkeyword hkind hskip _ ih =>
    obtain ⟨front, q, others, hms, hfront, hq⟩ := ih hm
    exact ⟨front, q, others, hms, .passed hc hbefore hkeyword hkind hskip hfront, hq⟩
  | typeAlias hc hbefore hkeyword halias hothers ih =>
    rcases List.mem_cons.mp hm with rfl | hm
    · exact ⟨[], _, _, rfl, .nil, ⟨_, _, hbefore, .inl hkeyword⟩, .typeAlias hc hbefore hkeyword halias hothers⟩
    · obtain ⟨front, q, others, rfl, hfront, hq⟩ := ih hm
      exact ⟨_ :: front, q, others, rfl, .typeAlias hc hbefore hkeyword halias hfront, hq⟩
  | bodiless hhead hbrace hothers ih =>
    rcases List.mem_cons.mp hm with rfl | hm
    · exact ⟨[], _, _, rfl, .nil, hhead.isAtKept, .bodiless hhead hbrace hothers⟩
    · obtain ⟨front, q, others, rfl, hfront, hq⟩ := ih hm
      exact ⟨_ :: front, q, others, rfl, .bodiless hhead hbrace hfront, hq⟩
  | embodied hhead hbrace hinner hclose hothers _ ih =>
    rcases List.mem_cons.mp hm with rfl | hm
    · exact ⟨[], _, _, rfl, .nil, hhead.isAtKept, .embodied hhead hbrace hinner hclose hothers⟩
    · obtain ⟨front, q, others, rfl, hfront, hq⟩ := ih hm
      exact ⟨_ :: front, q, others, rfl, .embodied hhead hbrace hinner hclose hfront, hq⟩

/-- The span of a member that is read first begins where it is read. -/
theorem start_span (h : Reads q (m :: others) k) (hkept : q.IsAtKept) (hq : q.Sound) (hordered : q.Ordered) :
    m.span.start = q.peek.span.start := by
  suffices hspan : ∃ d, q.Precedes d ∧ d.size < q.size ∧ m.span = d.spanFrom q.peek.span by
    obtain ⟨d, hmoves, hless, hspan⟩ := hspan
    rw [hspan, Cursor.start_spanFrom hordered hmoves hless]
  cases h with
  | mark hsemicolon => exact absurd hsemicolon hkept.not_semicolon
  | passed _ hbefore hkeyword hnone => exact absurd (hkept.keyword hbefore) (by simp [hkeyword, hnone])
  | typeAlias _ hbefore _ halias =>
    have hmoves := precedes_of_ok forward_preamble hq hbefore
    have hbehind := precedes_of_ok (forward_typeAlias _ _) (hmoves.sound hq) halias
    have hless := size_typeAlias_lt (hmoves.sound hq) halias
    exact ⟨_, hmoves.trans hbehind, Nat.lt_of_lt_of_le hless hmoves.size_le, span_typeAlias halias⟩
  | bodiless hhead => exact ⟨_, hhead.precedes hq, hhead.size_lt hq, rfl⟩
  | embodied hhead _ hinner =>
    have hopening := (hhead.precedes hq).sound hq
    have hbody := (Cursor.Precedes.advance.trans (hinner.precedes hopening.advance)).trans .advance
    exact ⟨_, (hhead.precedes hq).trans hbody, Nat.lt_of_le_of_lt hbody.size_le (hhead.size_lt hq), rfl⟩

/-- The classes in a class that is read first are read in its body, and so are the places between them. -/
theorem exists_inner {d e : ClassDecl} (h : Reads q (.class d :: others) k) (hkept : q.IsAtKept) (hq : q.Sound)
    (he : e ∈ d.declarations) : ∃ c' inner k', Reads c' inner k' ∧ .class e ∈ inner ∧ q.Precedes c' ∧
      ∀ q', Boundary q' c' inner k' → Boundary q' q (.class d :: others) k := by
  cases h with
  | mark hsemicolon => exact absurd hsemicolon hkept.not_semicolon
  | passed _ hbefore hkeyword hnone => exact absurd (hkept.keyword hbefore) (by simp [hkeyword, hnone])
  | bodiless => contradiction
  | embodied hhead hbrace hinner hclose hothers =>
    exact ⟨_, _, _, hinner, Member.mem_of_class? he, (hhead.precedes hq).trans .advance,
      fun q' hplace => .inside .nil hhead hbrace hplace hclose hothers⟩

end Reads

/-- Members in front of those around a place may be read too. -/
theorem Boundary.behind {q c d k : Cursor} {ms ms' : List Member} (h : Boundary q d ms' k) (hfront : Reads c ms d) :
    Boundary q c (ms ++ ms') k := by
  cases h with
  | front hfront' hkept hothers =>
    rw [← List.append_assoc]
    exact .front (hfront.append hfront') hkept hothers
  | back hfront' hclose => exact .back (hfront.append hfront') hclose
  | inside hfront' hhead hbrace hinner hclose hothers =>
    rw [← List.append_assoc]
    exact .inside (hfront.append hfront') hhead hbrace hinner hclose hothers

namespace Reads

variable {c k : Cursor} {ms : List Member}

/-- A member that is read begins where members may be inserted. -/
theorem exists_boundary {m : Member} (h : Reads c ms k) (hc : c.Sound) (hordered : c.Ordered) (hm : m ∈ ms) :
    ∃ q, Boundary q c ms k ∧ q.peek.span.start = m.span.start := by
  obtain ⟨front, q, others, rfl, hfront, hkept, hq⟩ := h.exists_at hm
  have hmoves := hfront.precedes hc
  exact ⟨q, .front hfront hkept hq, (hq.start_span hkept (hmoves.sound hc) (hmoves.ordered hordered)).symm⟩

/-- So does a class inside of it, at any depth. -/
theorem exists_boundary_of_reach {d e : ClassDecl} (hreach : ReflTransGen (fun d e => e ∈ d.declarations) d e)
    (h : Reads c ms k) (hc : c.Sound) (hordered : c.Ordered) (hd : .class d ∈ ms) :
    ∃ q, Boundary q c ms k ∧ q.peek.span.start = e.span.start := by
  induction hreach using ReflTransGen.head_induction_on generalizing c ms k with
  | refl => exact h.exists_boundary hc hordered hd
  | head he _ ih =>
    obtain ⟨front, q, others, rfl, hfront, hkept, hq⟩ := h.exists_at hd
    have hmoves := hfront.precedes hc
    obtain ⟨c', inner, k', hinner, hmem, hopening, hlift⟩ := hq.exists_inner hkept (hmoves.sound hc) he
    have hmoves := hmoves.trans hopening
    obtain ⟨q', hplace, hstart⟩ := ih hinner (hmoves.sound hc) (hmoves.ordered hordered) hmem
    exact ⟨q', (hlift q' hplace).behind hfront, hstart⟩

end Reads

/-! ## Files -/

/-- A source file is read where no error is recorded. -/
theorem SourceFile.parse_eq_ok {name source : String} {f : SourceFile} :
    SourceFile.parse name source = .ok f ↔
      ((Parser.ofSource source).file name).1 = f ∧ ((Parser.ofSource source).file name).2.errors = [] := by
  unfold SourceFile.parse
  rcases (Parser.ofSource source).file name with ⟨f', ⟨cursor, errors⟩⟩
  cases errors <;> simp

/-- The members of a file that is read without an error are read behind its headers. -/
theorem Parser.reads_of_file {name : String} {p : Parser} (hp : p.cursor.Sound) (herrors : (p.file name).2.errors = []) :
    p.cursor.Precedes p.behindHeaders.cursor ∧
      Reads p.behindHeaders.cursor (members false p.behindHeaders).1 (members false p.behindHeaders).2.cursor := by
  have h₁ : p.cursor.Precedes (headers isAtFileAnnotation annotationUse p).2.cursor :=
    precedes_headers forward_annotationUse passed_fileAnnotation hp
  have h₂ := h₁.trans (precedes_package? (h₁.sound hp))
  have h₃ : p.cursor.Precedes p.behindHeaders.cursor :=
    h₂.trans (precedes_headers forward_importHeader passed_import (h₂.sound hp))
  have hmembers : (members false p.behindHeaders).2.errors = [] := herrors
  have hnone := errors_members false p.behindHeaders hmembers
  refine ⟨h₃, ?_⟩
  rcases hbehind : p.behindHeaders with ⟨cursor, errors⟩
  rw [hbehind] at hnone hmembers h₃
  obtain rfl : errors = [] := hnone
  exact reads_of_members false (h₃.sound hp) hmembers

namespace SourceFile

variable {name source : String} {f : SourceFile}

/-- A class of a file that is read begins where members may be inserted. -/
theorem exists_hasBoundary_of_class (h : SourceFile.parse name source = .ok f) {d : ClassDecl} (hd : d ∈ f.allDeclarations) :
    ∃ q, (Parser.ofSource source).HasBoundary q ∧ q.peek.span.start = d.span.start := by
  obtain ⟨rfl, herrors⟩ := parse_eq_ok.mp h
  have hsound := (Parser.ofSource_cursor source).1
  obtain ⟨hmoves, hreads⟩ := Parser.reads_of_file hsound herrors
  rw [← map_decl_placed, List.mem_map] at hd
  obtain ⟨p, hp, rfl⟩ := hd
  obtain ⟨top, htop, hreach⟩ := Placed.mem_levels_iff.mp hp
  obtain ⟨e, he, rfl⟩ := List.mem_map.mp htop
  have hreach : ReflTransGen (fun d e : ClassDecl => e ∈ d.declarations) e p.decl :=
    hreach.lift Placed.decl fun a b hinner => by
      obtain ⟨d, hd, rfl⟩ := List.mem_map.mp hinner
      exact hd
  exact hreads.exists_boundary_of_reach hreach (hmoves.sound hsound)
    (hmoves.ordered (Parser.ordered_ofSource source)) (Member.mem_of_class? he)

/-- A type alias of a file that is read begins where members may be inserted. -/
theorem exists_hasBoundary_of_typeAlias (h : SourceFile.parse name source = .ok f) {a : TypeAlias} (ha : a ∈ f.typeAliases) :
    ∃ q, (Parser.ofSource source).HasBoundary q ∧ q.peek.span.start = a.span.start := by
  obtain ⟨rfl, herrors⟩ := parse_eq_ok.mp h
  have hsound := (Parser.ofSource_cursor source).1
  obtain ⟨hmoves, hreads⟩ := Parser.reads_of_file hsound herrors
  exact hreads.exists_boundary (hmoves.sound hsound) (hmoves.ordered (Parser.ordered_ofSource source))
    (Member.mem_of_typeAlias? ha)

end SourceFile

end ServiceCatalog
