import ServiceCatalog.Proofs.Parse.Members

/-!
# Readings without an error

The readers of members record errors and go on, with the whole of the file as what they answer.  A reading without an
error is simpler: it is one member behind the other, and a class with a body has a reading of the members in it.
`Reads c ms k` is such a reading, from one cursor to another one, as an inductive relation, so that what holds
of a file that is read can be shown member by member.

* `Parser.reads_of_members`: members that are read without an error are read so.
* `Reads.members_eq`: what is read so, up to where members end, is what the reader of members answers.
-/

namespace ServiceCatalog

open TokenParser

/-- Whether something is read at a cursor among members: these do not end there, and no mark stands alone there. -/
structure Cursor.IsAtItem (c : Cursor) : Prop where
  not_eof : c.kind ≠ .eof
  not_brace : c.kind ≠ .rightBrace
  not_semicolon : c.kind ≠ .semicolon

theorem Cursor.IsAtItem.goes_on {c : Cursor} (h : c.IsAtItem) (inBody : Bool) :
    Parser.endsMembers inBody c = false := by
  simp [Parser.endsMembers, Cursor.isAtEnd, Cursor.isAt, h.not_eof, h.not_brace]

/-- Whether a class begins at a cursor among members, and its head ends at another one. -/
inductive ReadsHead : Cursor → List AnnotationUse → ClassKind → Ident → List TypeRef → Cursor → Prop
  | mk {c c₁ k : Cursor} {before : Preamble} {kind : ClassKind} {name : Ident} {ts : List TypeRef} (hc : c.IsAtItem)
      (hbefore : preamble c = .ok before c₁) (hkind : classKind? before.modifiers c₁ = some kind)
      (hhead : classHead kind c₁ = .ok (name, ts) k) : ReadsHead c before.annotations kind name ts k

/-- Whether members are read between two cursors without an error. -/
inductive Reads : Cursor → List Member → Cursor → Prop
  | nil {c : Cursor} : Reads c [] c
  | mark {c k : Cursor} {ms : List Member} (h : c.kind = .semicolon) (hothers : Reads c.advance ms k) : Reads c ms k
  | typeAlias {c c₁ c₂ k : Cursor} {before : Preamble} {a : TypeAlias} {ms : List Member} (hc : c.IsAtItem)
      (hbefore : preamble c = .ok before c₁) (hkeyword : c₁.kind = .typealias)
      (halias : TokenParser.typeAlias c.peek.span before.annotations c₁ = .ok a c₂) (hothers : Reads c₂ ms k) :
      Reads c (.typeAlias a :: ms) k
  | bodiless {c c₁ k : Cursor} {as : List AnnotationUse} {kind : ClassKind} {name : Ident} {ts : List TypeRef}
      {ms : List Member} (hhead : ReadsHead c as kind name ts c₁) (hbrace : c₁.kind ≠ .leftBrace)
      (hothers : Reads c₁ ms k) : Reads c (.class ⟨kind, name, as, ts, [], c₁.spanFrom c.peek.span⟩ :: ms) k
  | embodied {c c₁ c₂ k : Cursor} {as : List AnnotationUse} {kind : ClassKind} {name : Ident} {ts : List TypeRef}
      {inner ms : List Member} (hhead : ReadsHead c as kind name ts c₁) (hbrace : c₁.kind = .leftBrace)
      (hinner : Reads c₁.advance inner c₂) (hclose : c₂.kind = .rightBrace) (hothers : Reads c₂.advance ms k) :
      Reads c (.class ⟨kind, name, as, ts, inner.filterMap Member.class?, c₂.advance.spanFrom c.peek.span⟩ :: ms) k
  | passed {c c₁ c₂ k : Cursor} {before : Preamble} {ms : List Member} (hc : c.IsAtItem)
      (hbefore : preamble c = .ok before c₁) (hkeyword : c₁.kind ≠ .typealias)
      (hkind : classKind? before.modifiers c₁ = none) (hskip : skipMember c₁ = ([], c₂)) (hothers : Reads c₂ ms k) :
      Reads c ms k

theorem ReadsHead.precedes {c k : Cursor} {as : List AnnotationUse} {kind : ClassKind} {name : Ident} {ts : List TypeRef}
    (h : ReadsHead c as kind name ts k) (hc : c.Sound) : c.Precedes k := by
  obtain ⟨-, hbefore, -, hhead⟩ := h
  have hmoves := precedes_of_ok forward_preamble hc hbefore
  exact hmoves.trans (precedes_of_ok (forward_classHead _) (hmoves.sound hc) hhead)

namespace Parser

/-- What comes next among members is read without an error where no error is recorded behind it, and if the others
are and the members in bodies are. -/
theorem reads_of_memberStep {c k : Cursor} {found : Option Member} {q : Parser} {ms : List Member}
    (hc : c.Sound) (hends : endsMembers inBody c = false) (hstep : memberStep (members true) ⟨c, []⟩ = (found, q))
    (herrors : q.errors = []) (hothers : Reads q.cursor ms k)
    (hinner : ∀ c' : Cursor, c'.size < c.size → c'.Sound → (members true ⟨c', []⟩).2.errors = [] →
      Reads c' (members true ⟨c', []⟩).1 (members true ⟨c', []⟩).2.cursor) :
    Reads c (found.toList ++ ms) k := by
  unfold memberStep at hstep
  split at hstep
  · cases hstep
    simp [record] at herrors
  next hbrace =>
  split at hstep
  · next hsemicolon =>
    cases hstep
    exact .mark (Cursor.isAt_iff.mp hsemicolon) hothers
  next hsemicolon =>
  have hitem : c.IsAtItem :=
    ⟨not_eof_of_not_endsMembers (by rw [hends]; decide), fun h => hbrace (Cursor.isAt_iff.mpr h), fun h => hsemicolon (Cursor.isAt_iff.mpr h)⟩
  cases hmember : member (members true) ⟨c, []⟩ with
  | error e q' =>
    rw [hmember] at hstep
    cases hstep
    exact absurd herrors (errors_recover_ne_nil q' e)
  | ok found' q' =>
    rw [hmember] at hstep
    cases hstep
    unfold member at hmember
    obtain ⟨start, _, hspan, hok⟩ := reading_bind_eq_ok.mp hmember
    cases hspan
    obtain ⟨before, c₁, hbefore, hok⟩ := reading_bind_eq_ok.mp hok
    obtain ⟨_, _, hhere, hok⟩ := reading_bind_eq_ok.mp hok
    cases hhere
    have hmoves : c.Precedes c₁ := precedes_of_ok forward_preamble hc hbefore
    dsimp only at hok
    split at hok
    · next hkeyword =>
      obtain ⟨a, c₂, halias, hok⟩ := reading_bind_eq_ok.mp hok
      cases hok
      exact .typeAlias hitem hbefore (Cursor.isAt_iff.mp hkeyword) halias hothers
    · next hkeyword =>
      generalize hkind : classKind? before.modifiers c₁ = kind at hok
      cases kind with
      | none =>
        obtain ⟨_, q', hpass, hok⟩ := TokenParser.bind_eq_ok.mp hok
        cases hpass
        cases hok
        have hskip : skipMember c₁ = ([], (skipMember c₁).2) := by
          rcases hskip : skipMember c₁ with ⟨errors, stop⟩
          simp only [passMember, hskip, List.nil_append] at herrors
          rw [herrors]
        exact .passed hitem hbefore (fun h => hkeyword (Cursor.isAt_iff.mpr h)) hkind hskip hothers
      | some kind =>
        obtain ⟨d, q', hclass, hok⟩ := TokenParser.bind_eq_ok.mp hok
        cases hok
        unfold classFrom at hclass
        obtain ⟨⟨name, ts⟩, c₂, hhead, hclass⟩ := reading_bind_eq_ok.mp hclass
        obtain ⟨ds, q', hbody, hclass⟩ := TokenParser.bind_eq_ok.mp hclass
        obtain ⟨_, _, hspan, hclass⟩ := reading_bind_eq_ok.mp hclass
        cases hspan
        cases hclass
        unfold classBody at hbody
        obtain ⟨hasBody, _, htest, hbody⟩ := reading_bind_eq_ok.mp hbody
        cases htest
        split at hbody
        · next hopening =>
          obtain ⟨_, _, hnext, hbody⟩ := reading_bind_eq_ok.mp hbody
          cases hnext
          obtain ⟨inner, q', hmembers, hbody⟩ := TokenParser.bind_eq_ok.mp hbody
          cases hmembers
          obtain ⟨_, c₃, hexpect, hbody⟩ := reading_bind_eq_ok.mp hbody
          obtain ⟨hclose, -, rfl⟩ := expect_eq_ok.mp hexpect
          cases hbody
          have hopening : c₂.kind = .leftBrace := Cursor.isAt_iff.mp hopening
          have hc₂ : c₁.Precedes c₂ := precedes_of_ok (forward_classHead kind) (hmoves.sound hc) hhead
          have hsize : c₂.advance.size < c.size :=
            Nat.lt_of_lt_of_le (Cursor.size_advance_lt (hc₂.sound (hmoves.sound hc)) (by rw [hopening]; decide))
              (Nat.le_trans hc₂.size_le hmoves.size_le)
          exact .embodied ⟨hitem, hbefore, hkind, hhead⟩ hopening
            (hinner c₂.advance hsize (hc₂.sound (hmoves.sound hc)).advance herrors) hclose hothers
        · next hopening =>
          cases hbody
          exact .bodiless ⟨hitem, hbefore, hkind, hhead⟩ (fun h => hopening (Cursor.isAt_iff.mpr h)) hothers

/-- Members that are read without an error are read so, by induction on the number of tokens to come. -/
theorem reads_of_members (inBody : Bool) {c : Cursor} (hc : c.Sound) (h : (members inBody ⟨c, []⟩).2.errors = []) :
    Reads c (members inBody ⟨c, []⟩).1 (members inBody ⟨c, []⟩).2.cursor := by
  induction hn : c.size using Nat.strongRecOn generalizing inBody c with
  | _ n ih =>
    rw [Parser.members_eq hc] at h ⊢
    cases hends : endsMembers inBody c with
    | true => exact .nil
    | false =>
      simp only [hends, Bool.false_eq_true, if_false] at h ⊢
      rcases hstep : memberStep (members true) ⟨c, []⟩ with ⟨found, q⟩
      have hhere : c.size < c.size + 1 := Nat.lt_succ_self _
      have hmoves := (memberStep_alike (p := ⟨c, []⟩) (alike_members _ true) hc hhere).2
      have hless := size_memberStep_lt (p := ⟨c, []⟩) (alike_members _ true) hc hhere
        (not_eof_of_not_endsMembers (by rw [hends]; nofun))
      simp only [hstep] at h hmoves hless ⊢
      obtain ⟨cursor, errors⟩ := q
      obtain rfl : errors = [] := errors_members inBody _ h
      exact reads_of_memberStep hc hends hstep rfl (ih cursor.size (hn ▸ hless) inBody (hmoves.sound hc) h rfl)
        fun c' hless' hc' h' => ih c'.size (hn ▸ hless') true hc' h' rfl

end Parser

theorem TokenParser.precedes_of_skipMember_eq {c k : Cursor} {errors : List ParseError} (h : skipMember c = (errors, k)) :
    c.Precedes k := by
  have hmoves := precedes_skipMemberFrom true c
  rwa [show skipMemberFrom true c = _ from h] at hmoves

theorem TokenParser.not_isAt_typealias {modifiers : List String} {c : Cursor} {kind : ClassKind}
    (h : classKind? modifiers c = some kind) : ¬c.isAt .typealias = true := by
  rw [Cursor.isAt_iff]
  rintro hkind
  simp [classKind?, hkind] at h

namespace Reads

variable {c k : Cursor} {ms : List Member}

/-- What is read moves on. -/
theorem precedes (h : Reads c ms k) (hc : c.Sound) : c.Precedes k := by
  induction h with
  | nil => exact .refl
  | mark h _ ih => exact Cursor.Precedes.advance.trans (ih hc.advance)
  | typeAlias hc' hbefore hkeyword halias _ ih =>
    have h₁ := precedes_of_ok forward_preamble hc hbefore
    have h₂ := precedes_of_ok (forward_typeAlias _ _) (h₁.sound hc) halias
    exact (h₁.trans h₂).trans (ih ((h₁.trans h₂).sound hc))
  | bodiless hhead _ _ ih =>
    have hmoves := hhead.precedes hc
    exact hmoves.trans (ih (hmoves.sound hc))
  | embodied hhead _ _ _ _ ihinner ih =>
    have hopening := (hhead.precedes hc).trans .advance
    have hbody := (hopening.trans (ihinner (hopening.sound hc))).trans .advance
    exact hbody.trans (ih (hbody.sound hc))
  | passed hc' hbefore hkeyword hkind hskip _ ih =>
    have h₁ := precedes_of_ok forward_preamble hc hbefore
    have h₂ := precedes_of_skipMember_eq hskip
    exact (h₁.trans h₂).trans (ih ((h₁.trans h₂).sound hc))

end Reads

namespace Parser

variable {c c₁ k : Cursor} {ms : List Member}

theorem members_of_memberStep (found : Option Member) (hc : c.Sound) (hends : endsMembers inBody c = false)
    (hstep : memberStep (members true) ⟨c, []⟩ = (found, ⟨c₁, []⟩)) (hothers : members inBody ⟨c₁, []⟩ = (ms, ⟨k, []⟩)) :
    members inBody ⟨c, []⟩ = (found.toList ++ ms, ⟨k, []⟩) := by
  rw [Parser.members_eq hc]
  simp only [hends, Bool.false_eq_true, if_false, hstep, hothers]

theorem memberStep_of_member {body : Parser → List Member × Parser} {found : Option Member} (hc : c.IsAtItem)
    (hmember : member body ⟨c, []⟩ = .ok found ⟨c₁, []⟩) : memberStep body ⟨c, []⟩ = (found, ⟨c₁, []⟩) := by
  have hbrace : ¬c.isAt .rightBrace = true := fun h => hc.not_brace (Cursor.isAt_iff.mp h)
  have hsemicolon : ¬c.isAt .semicolon = true := fun h => hc.not_semicolon (Cursor.isAt_iff.mp h)
  simp only [memberStep, if_neg hbrace, if_neg hsemicolon, hmember]

/-- A member is what stands behind its annotations and modifiers. -/
theorem member_of_preamble {body : Parser → List Member × Parser} {before : Preamble} {found : Option Member}
    (hbefore : preamble c = .ok before c₁) (hfound : (if c₁.isAt .typealias = true then (do
        return some (.typeAlias (← reading (TokenParser.typeAlias c.peek.span before.annotations))))
      else match classKind? before.modifiers c₁ with
        | some kind => (do return some (.class (← classFrom body c.peek.span kind before.annotations)))
        | none => (do
          always fun p => ((), p.passMember)
          return none) : MemberParser (Option Member)) ⟨c₁, []⟩ = .ok found ⟨k, []⟩) :
    member body ⟨c, []⟩ = .ok found ⟨k, []⟩ := by
  unfold member
  refine reading_bind_eq_ok.mpr ⟨_, _, rfl, reading_bind_eq_ok.mpr ⟨_, _, hbefore, reading_bind_eq_ok.mpr ⟨_, _, rfl, ?_⟩⟩⟩
  exact hfound

end Parser

namespace Reads

variable {c k : Cursor} {ms : List Member}

/-- What is read without an error, up to where members end, is what the reader of members answers. -/
theorem members_eq (h : Reads c ms k) (hc : c.Sound) (hends : Parser.endsMembers inBody k = true) :
    Parser.members inBody ⟨c, []⟩ = (ms, ⟨k, []⟩) := by
  induction h generalizing inBody with
  | nil =>
    rw [Parser.members_eq hc]
    simp only [hends, if_true]
  | @mark c k ms hkind _ ih =>
    have hgoes : Parser.endsMembers inBody c = false := by
      simp [Parser.endsMembers, Cursor.isAtEnd, Cursor.isAt, hkind]
    refine Parser.members_of_memberStep none hc hgoes ?_ (ih hc.advance hends)
    simp [Parser.memberStep, Cursor.isAt, hkind]
  | typeAlias hc' hbefore hkeyword halias _ ih =>
    have h₁ := precedes_of_ok forward_preamble hc hbefore
    have h₂ := precedes_of_ok (forward_typeAlias _ _) (h₁.sound hc) halias
    refine Parser.members_of_memberStep (some _) hc (hc'.goes_on _) ?_ (ih ((h₁.trans h₂).sound hc) hends)
    refine Parser.memberStep_of_member hc' (Parser.member_of_preamble hbefore ?_)
    rw [if_pos (Cursor.isAt_iff.mpr hkeyword)]
    exact Parser.reading_bind_eq_ok.mpr ⟨_, _, halias, rfl⟩
  | @bodiless c c₁ _ _ kind name ts _ hhead hbrace _ ih =>
    have hmoves := hhead.precedes hc
    obtain ⟨hc', hbefore, hkind, hhead⟩ := hhead
    refine Parser.members_of_memberStep (some _) hc (hc'.goes_on _) ?_ (ih (hmoves.sound hc) hends)
    refine Parser.memberStep_of_member hc' (Parser.member_of_preamble hbefore ?_)
    rw [if_neg (not_isAt_typealias hkind), hkind]
    refine bind_eq_ok.mpr ⟨_, _, Parser.reading_bind_eq_ok.mpr ⟨_, _, hhead, ?_⟩, rfl⟩
    refine bind_eq_ok.mpr ⟨[], ⟨c₁, []⟩, ?_, rfl⟩
    refine Parser.reading_bind_eq_ok.mpr ⟨_, _, rfl, ?_⟩
    rw [if_neg fun h => hbrace (Cursor.isAt_iff.mp h)]
    rfl
  | @embodied c c₁ c₂ _ _ kind name ts inner _ hhead hbrace hinner hclose _ ihinner ih =>
    have hc₁ := ((hhead.precedes hc).sound hc).advance
    have hc₂ := (hinner.precedes hc₁).sound hc₁
    obtain ⟨hc', hbefore, hkind, hhead⟩ := hhead
    refine Parser.members_of_memberStep (some _) hc (hc'.goes_on _) ?_ (ih hc₂.advance hends)
    refine Parser.memberStep_of_member hc' (Parser.member_of_preamble hbefore ?_)
    rw [if_neg (not_isAt_typealias hkind), hkind]
    refine bind_eq_ok.mpr ⟨_, _, Parser.reading_bind_eq_ok.mpr ⟨_, _, hhead, ?_⟩, rfl⟩
    refine bind_eq_ok.mpr ⟨inner.filterMap Member.class?, ⟨c₂.advance, []⟩, ?_, rfl⟩
    refine Parser.reading_bind_eq_ok.mpr ⟨_, _, rfl, ?_⟩
    rw [if_pos (Cursor.isAt_iff.mpr hbrace)]
    refine Parser.reading_bind_eq_ok.mpr ⟨_, _, rfl, bind_eq_ok.mpr ⟨inner, ⟨c₂, []⟩, ?_, ?_⟩⟩
    · unfold Parser.always
      rw [ihinner hc₁ (by simp [Parser.endsMembers, Cursor.isAt, hclose])]
    · exact Parser.reading_bind_eq_ok.mpr ⟨_, _, expect_eq_ok.mpr ⟨hclose, rfl, rfl⟩, rfl⟩
  | @passed c c₁ c₂ _ before _ hc' hbefore hkeyword hkind hskip _ ih =>
    have h₁ := precedes_of_ok forward_preamble hc hbefore
    have h₂ := precedes_of_skipMember_eq hskip
    refine Parser.members_of_memberStep none hc (hc'.goes_on _) ?_ (ih ((h₁.trans h₂).sound hc) hends)
    refine Parser.memberStep_of_member hc' (Parser.member_of_preamble hbefore ?_)
    rw [if_neg fun h => hkeyword (Cursor.isAt_iff.mp h), hkind]
    refine bind_eq_ok.mpr ⟨(), ⟨c₂, []⟩, ?_, rfl⟩
    simp only [Parser.always, Parser.passMember, hskip, List.append_nil]

/-- Members that are read one behind the other are read. -/
theorem append {ms ms' : List Member} {d : Cursor} (h : Reads c ms d) (h' : Reads d ms' k) : Reads c (ms ++ ms') k := by
  induction h with
  | nil => exact h'
  | mark hkind _ ih => exact .mark hkind (ih h')
  | typeAlias hc hbefore hkeyword halias _ ih => exact .typeAlias hc hbefore hkeyword halias (ih h')
  | bodiless hhead hbrace _ ih => exact .bodiless hhead hbrace (ih h')
  | embodied hhead hbrace hinner hclose _ _ ih => exact .embodied hhead hbrace hinner hclose (ih h')
  | passed hc hbefore hkeyword hkind hskip _ ih => exact .passed hc hbefore hkeyword hkind hskip (ih h')

/-- No member is read in front of a brace. -/
theorem eq_of_brace (h : Reads c ms k) (hbrace : c.kind = .rightBrace) : ms = [] ∧ k = c := by
  cases h with
  | nil => exact ⟨rfl, rfl⟩
  | mark hkind =>
    rw [hbrace] at hkind
    contradiction
  | typeAlias hc | passed hc => exact absurd hbrace hc.not_brace
  | bodiless hhead | embodied hhead =>
    obtain ⟨hc, -⟩ := hhead
    exact absurd hbrace hc.not_brace

end Reads

end ServiceCatalog
