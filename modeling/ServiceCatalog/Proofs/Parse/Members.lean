import ServiceCatalog.Proofs.Parse.Nesting
import ServiceCatalog.Proofs.Parse.Progress

/-!
# Members end

Reading members does not fail: what is wrong in one of them is recorded, and the reading goes on where the next member
begins.  So each turn passes a token, whether the member in it is kept, passed or an error.  It may be an error of which
nothing has been passed; then the recovery begins where the turn began, and there is no brace that closes the members
and no end of the file, before which alone a recovery passes nothing.

A member may have members inside it.  They are behind its opening brace, with fewer tokens to come, and so the recursion
is cut as that of types and values is: `Alike n m m'` says that two parsers of members answer the same where fewer than
`n` tokens are to come, and that they only move on there.

* `loop_members`, `loop_headers`: the loops of a file end;
* `endsMembers_members`: members are read up to the end of their body or of the file;
* `membersAt_eq`: turns and bodies inside each other are no more than there are tokens to come.
-/

namespace ServiceCatalog

/-- The answer of a loop is that of its last turn. -/
theorem Loop.exists_last {σ ρ : Type} {size : σ → Nat} {turn : σ → σ ⊕ ρ} {s : σ} {r : ρ} (h : Loop size turn s r) :
    ∃ s', turn s' = .inr r := by
  induction h with
  | @stop s r h => exact ⟨s, h⟩
  | again _ _ _ ih => exact ih

namespace Parser

open TokenParser (stop Forward bind_eq_match)

/-! ## Members move on -/

/-- Whether two parsers of members answer the same, and only move on, where fewer than a number of tokens are to
come. -/
def Alike (n : Nat) {α : Type} (m m' : MemberParser α) : Prop :=
  ∀ p : Parser, p.cursor.Sound → p.cursor.size < n → m p = m' p ∧ p.cursor.Precedes (stop (m p)).cursor

namespace Alike

variable {n : Nat} {α β : Type} {m m' k k' : MemberParser α} {f f' : α → MemberParser β}

theorem pure (a : α) : Alike n (Pure.pure a : MemberParser α) (Pure.pure a) := fun _ _ _ => ⟨rfl, .refl⟩

theorem reading {t : TokenParser α} (h : Forward n t) : Alike n (Parser.reading t) (Parser.reading t) := by
  refine fun p hp hless => ⟨rfl, ?_⟩
  have hmoves := (h p.cursor hp hless).2
  unfold Parser.reading
  split <;> next hread => rw [hread] at hmoves; exact hmoves

theorem bind (hm : Alike n m m') (hf : ∀ a, Alike n (f a) (f' a)) : Alike n (m >>= f) (m' >>= f') := by
  intro p hp hless
  obtain ⟨heq, hmoves⟩ := hm p hp hless
  rw [bind_eq_match, bind_eq_match, ← heq]
  cases hfirst : m p with
  | error e q =>
    rw [hfirst] at hmoves
    exact ⟨rfl, hmoves⟩
  | ok a q =>
    rw [hfirst] at hmoves
    have hq : q.cursor.size < n := Nat.lt_of_le_of_lt hmoves.size_le hless
    exact (hf a q (hmoves.sound hp) hq).imp_right hmoves.trans

theorem ite {b : Bool} (hm : Alike n m m') (hk : Alike n k k') :
    Alike n (if b = true then m else k) (if b = true then m' else k') := by
  cases b
  · exact hk
  · exact hm

end Alike

theorem precedes_passMember (p : Parser) : p.cursor.Precedes p.passMember.cursor :=
  TokenParser.precedes_skipMemberFrom true p.cursor

theorem alike_passMember (n : Nat) :
    Alike n (always fun p => ((), p.passMember)) (always fun p => ((), p.passMember)) :=
  fun p _ _ => ⟨rfl, precedes_passMember p⟩

section Body

variable {n : Nat} {body body' : Parser → List Member × Parser} (hbody : Alike n (always body) (always body'))

include hbody

/-- The body of a class is behind its opening brace. -/
theorem alike_classBody : Alike (n + 1) (classBody body) (classBody body') := by
  intro p hp hless
  have hinner : Alike n (do
      let inner ← always body
      let _ ← reading (TokenParser.expect .rightBrace)
      return inner.filterMap Member.class?) (do
      let inner ← always body'
      let _ ← reading (TokenParser.expect .rightBrace)
      return inner.filterMap Member.class?) :=
    .bind hbody fun _ => .bind (.reading (.expect _)) fun _ => .pure _
  unfold classBody
  rw [bind_eq_match, bind_eq_match]
  dsimp only [reading, TokenParser.test]
  cases hbrace : p.cursor.isAt .leftBrace with
  | false => exact ⟨rfl, .refl⟩
  | true =>
    have hadvance : p.cursor.advance.size < n := by
      have := Cursor.size_advance_lt hp (TokenParser.ne_eof_of_isAt hbrace nofun)
      omega
    obtain ⟨heq, hmoves⟩ := hinner ⟨p.cursor.advance, p.errors⟩ hp.advance hadvance
    exact ⟨heq, Cursor.Precedes.advance.trans hmoves⟩

theorem alike_member : Alike (n + 1) (member body) (member body') := by
  unfold member
  refine .bind (.reading .nextSpan) fun start => .bind (.reading (TokenParser.forward_preamble _)) fun preamble => ?_
  refine .bind (.reading .here) fun here => .ite ?_ ?_
  · exact .bind (.reading (TokenParser.forward_typeAlias _ _ _)) fun _ => .pure _
  · have hclass : ∀ kind, Alike (n + 1) (classFrom body start kind preamble.annotations)
        (classFrom body' start kind preamble.annotations) := fun kind => by
      unfold classFrom
      exact .bind (.reading (TokenParser.forward_classHead kind _)) fun ⟨_, _⟩ => .bind (alike_classBody hbody) fun _ =>
        .bind (.reading (.spanFrom _)) fun _ => .pure _
    cases TokenParser.classKind? preamble.modifiers here with
    | some kind => exact .bind (hclass kind) fun _ => .pure _
    | none => exact .bind (alike_passMember _) fun _ => .pure _

/-- A class has its keyword. -/
theorem size_classFrom_lt {p q : Parser} {start : Span} {kind : ClassKind} {modifiers : List String}
    {annotations : List AnnotationUse} {d : ClassDecl} (hp : p.cursor.Sound) (hless : p.cursor.size < n + 1)
    (hkind : TokenParser.classKind? modifiers p.cursor = some kind)
    (hok : classFrom body start kind annotations p = .ok d q) : q.cursor.size < p.cursor.size := by
  unfold classFrom at hok
  obtain ⟨⟨name, supertypes⟩, c, hhead, hok⟩ := reading_bind_eq_ok.mp hok
  obtain ⟨ds, q', hdeclarations, hok⟩ := TokenParser.bind_eq_ok.mp hok
  cases hok
  have hc : p.cursor.Precedes c := TokenParser.precedes_of_ok (TokenParser.forward_classHead kind) hp hhead
  have hsize : c.size < p.cursor.size := by
    obtain ⟨before, first, head, hrest, -⟩ := TokenParser.classHead_ok hp hkind hhead
    simp only [Cursor.size, hrest, List.length_append, List.length_cons]
    omega
  have hmoves := (alike_classBody hbody ⟨c, p.errors⟩ (hc.sound hp) (Nat.lt_trans hsize hless)).2
  rw [hdeclarations] at hmoves
  exact Nat.lt_of_le_of_lt hmoves.size_le hsize

/-- A member that is read has a token, also one that is passed. -/
theorem size_member_lt {p q : Parser} {found : Option Member} (hp : p.cursor.Sound) (hless : p.cursor.size < n + 1)
    (hend : p.cursor.kind ≠ .eof) (hbrace : p.cursor.kind ≠ .rightBrace) (hok : member body p = .ok found q) :
    q.cursor.size < p.cursor.size := by
  unfold member at hok
  obtain ⟨start, _, hspan, hok⟩ := reading_bind_eq_ok.mp hok
  cases hspan
  obtain ⟨preamble, c, hpreamble, hok⟩ := reading_bind_eq_ok.mp hok
  obtain ⟨_, _, hhere, hok⟩ := reading_bind_eq_ok.mp hok
  cases hhere
  have hmoves : p.cursor.Precedes c := TokenParser.precedes_of_ok TokenParser.forward_preamble hp hpreamble
  have hc : c.Sound := hmoves.sound hp
  dsimp only at hok
  split at hok
  · obtain ⟨a, c', halias, hok⟩ := reading_bind_eq_ok.mp hok
    cases hok
    exact Nat.lt_of_lt_of_le (TokenParser.leads_typeAlias hc halias).2 hmoves.size_le
  · generalize hkind : TokenParser.classKind? preamble.modifiers c = kind at hok
    cases kind with
    | some kind =>
      obtain ⟨d, q', hclass, hok⟩ := TokenParser.bind_eq_ok.mp hok
      cases hok
      have hcless : c.size < n + 1 := Nat.lt_of_le_of_lt hmoves.size_le hless
      exact Nat.lt_of_lt_of_le (size_classFrom_lt hbody (p := ⟨c, p.errors⟩) hc hcless hkind hclass) hmoves.size_le
    | none =>
      obtain ⟨_, q', hpass, hok⟩ := TokenParser.bind_eq_ok.mp hok
      cases hpass
      cases hok
      by_cases hsize : p.cursor.size ≤ c.size
      · -- without annotations and modifiers, the member begins here
        obtain rfl := hmoves.eq_of_size_le hsize
        exact TokenParser.size_snd_skipMember_lt hp hend hbrace
      · have hrest : (passMember ⟨c, p.errors⟩).cursor.size ≤ c.size := (precedes_passMember ⟨c, p.errors⟩).size_le
        exact Nat.lt_of_le_of_lt hrest (Nat.lt_of_not_le hsize)

/-- What comes next among members is the same for bodies that are alike. -/
theorem memberStep_alike {p : Parser} (hp : p.cursor.Sound) (hless : p.cursor.size < n + 1) :
    memberStep body p = memberStep body' p ∧ p.cursor.Precedes (memberStep body p).2.cursor := by
  obtain ⟨heq, hmoves⟩ := alike_member hbody p hp hless
  unfold memberStep
  split
  · exact ⟨rfl, .advance⟩
  · split
    · exact ⟨rfl, .advance⟩
    · rw [← heq]
      cases hmember : member body p with
      | ok found q =>
        rw [hmember] at hmoves
        exact ⟨rfl, hmoves⟩
      | error e q =>
        rw [hmember] at hmoves
        exact ⟨rfl, hmoves.trans (precedes_passMember _)⟩

/-- What comes next among members has a token.  Where a member is an error that nothing has been passed of, the
recovery passes it. -/
theorem size_memberStep_lt {p : Parser} (hp : p.cursor.Sound) (hless : p.cursor.size < n + 1)
    (hend : p.cursor.kind ≠ .eof) : (memberStep body p).2.cursor.size < p.cursor.size := by
  have hadvance := Cursor.size_advance_lt hp hend
  have hmoves := (alike_member hbody p hp hless).2
  unfold memberStep
  split
  · exact hadvance
  · next hbrace =>
    rw [Cursor.isAt_iff] at hbrace
    split
    · exact hadvance
    · cases hmember : member body p with
      | ok found q => exact size_member_lt hbody hp hless hend hbrace hmember
      | error e q =>
        rw [hmember] at hmoves
        by_cases hsize : p.cursor.size ≤ q.cursor.size
        · have hstay : q.cursor = p.cursor := hmoves.eq_of_size_le hsize
          show (skipMember q.cursor).2.size < p.cursor.size
          rw [hstay]
          exact TokenParser.size_snd_skipMember_lt hp hend hbrace
        · have hrest : (q.recover e).cursor.size ≤ q.cursor.size := (precedes_passMember (q.record e)).size_le
          exact Nat.lt_of_le_of_lt hrest (Nat.lt_of_not_le hsize)

end Body

theorem not_eof_of_not_endsMembers {inBody : Bool} {c : Cursor} (h : ¬endsMembers inBody c = true) : c.kind ≠ .eof :=
  fun hkind => h (by simp [endsMembers, Cursor.isAtEnd, Cursor.isAt, hkind])

/-- Members are what comes next among them and the others behind it, if bodies with fewer tokens move on. -/
theorem members_eq_of_alike {n : Nat} (h : ∀ inBody, Alike n (always (members inBody)) (always (members inBody)))
    {inBody : Bool} {p : Parser} (hp : p.cursor.Sound) (hless : p.cursor.size < n + 1) :
    members inBody p = (if endsMembers inBody p.cursor then ([], p)
      else
        let (found, q) := memberStep (members true) p
        let (others, q') := members inBody q
        (found.toList ++ others, q')) ∧ p.cursor.Precedes (members inBody p).2.cursor := by
  have hguard : Alike p.cursor.size
      (always fun q => if q.cursor.size < p.cursor.size then members true q else ([], q)) (always (members true)) := by
    intro q hq hqless
    have hq' : always (fun q => if q.cursor.size < p.cursor.size then members true q else ([], q)) q =
        always (members true) q := by
      dsimp only [always]
      rw [if_pos hqless]
    rw [hq']
    exact h true q hq (by omega)
  rw [members]
  split
  · exact ⟨rfl, .refl⟩
  · next hends =>
    have hhere : p.cursor.size < p.cursor.size + 1 := Nat.lt_succ_self _
    obtain ⟨heq, hmoves⟩ := memberStep_alike hguard hp hhere
    have hpassed := size_memberStep_lt hguard hp hhere (not_eof_of_not_endsMembers hends)
    rcases hstep : memberStep (members true) p with ⟨found, q⟩
    rw [heq, hstep] at hpassed hmoves
    simp only [heq, hstep, if_pos hpassed, true_and]
    dsimp only at hpassed
    exact hmoves.trans (h inBody q (hmoves.sound hp) (by omega)).2

/-- Members move on, by induction on the number of tokens to come. -/
theorem alike_members (n : Nat) (inBody : Bool) : Alike n (always (members inBody)) (always (members inBody)) := by
  induction n generalizing inBody with
  | zero => exact fun p _ hless => absurd hless p.cursor.size.not_lt_zero
  | succ n ih => exact fun p hp hless => ⟨rfl, (members_eq_of_alike ih hp hless).2⟩

/-- Members are what comes next among them and the others behind it. -/
theorem members_eq {inBody : Bool} {p : Parser} (hp : p.cursor.Sound) :
    members inBody p = if endsMembers inBody p.cursor then ([], p)
      else
        let (found, q) := memberStep (members true) p
        let (others, q') := members inBody q
        (found.toList ++ others, q') :=
  (members_eq_of_alike (alike_members p.cursor.size) hp (Nat.lt_succ_self _)).1

/-! ## The loops of a file -/

/-- One turn of the reading of members. -/
def membersTurn (inBody : Bool) : Parser × List Member → (Parser × List Member) ⊕ List Member × Parser
  | (p, found) =>
    if endsMembers inBody p.cursor then .inr (found, p)
    else
      let (next, q) := memberStep (members true) p
      .inl (q, found ++ next.toList)

theorem loop_members (inBody : Bool) {p : Parser} (hp : p.cursor.Sound) (found : List Member) :
    Loop (fun s => s.1.cursor.size) (membersTurn inBody) (p, found)
      (found ++ (members inBody p).1, (members inBody p).2) := by
  induction hn : p.cursor.size using Nat.strongRecOn generalizing p found with
  | _ n ih =>
    rw [members_eq hp]
    by_cases hends : endsMembers inBody p.cursor = true
    · exact .stop (by simp [membersTurn, hends])
    · have hhere : p.cursor.size < p.cursor.size + 1 := Nat.lt_succ_self _
      have hmoves := (memberStep_alike (alike_members _ true) hp hhere).2
      have hpassed := size_memberStep_lt (alike_members _ true) hp hhere (not_eof_of_not_endsMembers hends)
      rcases hstep : memberStep (members true) p with ⟨next, q⟩
      rw [hstep] at hmoves hpassed
      refine .again (t := (q, found ++ next.toList)) (by simp [membersTurn, hends, hstep]) hpassed ?_
      have hrest := ih q.cursor.size (hn ▸ hpassed) (hmoves.sound hp) (found ++ next.toList) rfl
      simpa [hends, hstep] using hrest

/-- Members are read up to the end of their body or of the file, whatever errors are among them. -/
theorem endsMembers_members (inBody : Bool) {p : Parser} (hp : p.cursor.Sound) :
    endsMembers inBody (members inBody p).2.cursor = true := by
  obtain ⟨⟨q, found⟩, hlast⟩ := (loop_members inBody hp []).exists_last
  dsimp only [membersTurn] at hlast
  split at hlast
  · next hends =>
    cases hlast
    exact hends
  · contradiction

/-- Members, in a number of turns and of bodies inside each other; what is left is read by another reader. -/
def membersAt (deeper : Bool → Parser → List Member × Parser) : Nat → Bool → Parser → List Member × Parser
  | 0, inBody, p => deeper inBody p
  | n + 1, inBody, p =>
    if endsMembers inBody p.cursor then ([], p)
    else
      let (found, q) := memberStep (membersAt deeper n true) p
      let (others, q') := membersAt deeper n inBody q
      (found.toList ++ others, q')

/-- As many turns and bodies inside each other as there are tokens to come, and one, are enough. -/
theorem membersAt_eq (deeper : Bool → Parser → List Member × Parser) {n : Nat} {inBody : Bool} {p : Parser}
    (hp : p.cursor.Sound) (hless : p.cursor.size < n) : membersAt deeper n inBody p = members inBody p := by
  induction n generalizing inBody p with
  | zero => exact absurd hless p.cursor.size.not_lt_zero
  | succ n ih =>
    have hbody : Alike n (always (membersAt deeper n true)) (always (members true)) := by
      intro q hq hqless
      have heq : always (membersAt deeper n true) q = always (members true) q := by
        dsimp only [always]
        rw [ih hq hqless]
      exact ⟨heq, heq ▸ (alike_members n true q hq hqless).2⟩
    rw [members_eq hp, membersAt]
    split
    · rfl
    · next hends =>
      obtain ⟨heq, hmoves⟩ := memberStep_alike hbody hp hless
      have hpassed := size_memberStep_lt hbody hp hless (not_eof_of_not_endsMembers hends)
      rcases hstep : memberStep (members true) p with ⟨found, q⟩
      rw [heq, hstep] at hmoves hpassed
      rw [heq, hstep]
      dsimp only at hpassed ⊢
      rw [ih (hmoves.sound hp) (Nat.lt_of_lt_of_le hpassed (Nat.le_of_lt_succ hless))]

/-- One turn of the reading of headers. -/
def headersTurn {α : Type} (t : Cursor → Bool) (header : TokenParser α) :
    Parser × List α → (Parser × List α) ⊕ List α × Parser
  | (p, found) =>
    if t p.cursor then
      match reading header p with
      | .ok a q => .inl (q, found ++ [a])
      | .error e q => .inl (q.recover e, found)
    else .inr (found, p)

section Headers

variable {α : Type} {t : Cursor → Bool} {header : TokenParser α} {p : Parser}
  (hmoves : ∀ n, Forward n header) (hpassed : ∀ c : Cursor, c.Sound → t c = true → (stop (header c)).size < c.size)

include hmoves hpassed

/-- A header has a token, also one that is an error. -/
theorem passed_header {q : Parser} {next : Option α} (hp : p.cursor.Sound) (ht : t p.cursor = true)
    (hstep : (match reading header p with
      | .ok a q => (some a, q)
      | .error e q => (none, q.recover e)) = (next, q)) :
    p.cursor.Precedes q.cursor ∧ q.cursor.size < p.cursor.size := by
  have hfirst := TokenParser.precedes_stop hmoves hp
  have hless := hpassed p.cursor hp ht
  unfold reading at hstep
  cases hread : header p.cursor with
  | ok a c =>
    rw [hread] at hstep hfirst hless
    cases hstep
    exact ⟨hfirst, hless⟩
  | error e c =>
    rw [hread] at hstep hfirst hless
    cases hstep
    have hrest := precedes_passMember (record ⟨c, p.errors⟩ e)
    exact ⟨hfirst.trans hrest, Nat.lt_of_le_of_lt hrest.size_le hless⟩

theorem loop_headers (hp : p.cursor.Sound) (found : List α) :
    Loop (fun s => s.1.cursor.size) (headersTurn t header) (p, found)
      (found ++ (headers t header p).1, (headers t header p).2) := by
  fun_induction headers t header p generalizing found with
  | case1 p ht next q hstep hless others q' hothers ih =>
    have hq := (passed_header hmoves hpassed hp ht hstep).1.sound hp
    refine .again (t := (q, found ++ next.toList)) ?_ hless ?_
    · dsimp only [headersTurn]
      rw [if_pos ht]
      cases hread : reading header p <;> rw [hread] at hstep <;> cases hstep <;> simp
    · have hrest := ih hq (found ++ next.toList)
      rw [hothers] at hrest
      simpa using hrest
  | case2 p ht next q hstep hless => exact absurd (passed_header hmoves hpassed hp ht hstep).2 hless
  | case3 p ht => exact .stop (by simp [headersTurn, ht])

theorem precedes_headers (hp : p.cursor.Sound) : p.cursor.Precedes (headers t header p).2.cursor := by
  fun_induction headers t header p with
  | case1 p ht next q hstep hless others q' hothers ih =>
    have hfirst := (passed_header hmoves hpassed hp ht hstep).1
    have hrest := ih (hfirst.sound hp)
    rw [hothers] at hrest
    exact hfirst.trans hrest
  | case2 p ht next q hstep hless => exact (passed_header hmoves hpassed hp ht hstep).1
  | case3 p ht => exact .refl

end Headers

end Parser

end ServiceCatalog
