import ServiceCatalog.Parse.Group

/-!
# Runs of tokens and their brackets

What a parser passes in one go is made up of single tokens and of whole bracketed groups.  Two things
differ from one construct to the other: whether a round or square bracket that closes nothing may be among
the single tokens (a delegation is passed with such brackets in it), and whether a group may be one in
braces (the head of a class has none).  `Run loose braces` is a run under these two conditions.

Whatever the conditions, a run leaves the braces around it as they are.  `openBraces` computes which braces
are open behind a run, by their places; behind a `Run` they are those that were open in front of it
(`Run.balanced`).

* `groupReach_eq_closed`: the group that the parser finds behind an opening bracket is a run up to the
  closing one.
-/

namespace ServiceCatalog

/-! ## Open braces -/

/-- The places of the open braces behind a token of a kind, which stands at a place. -/
def bracesBehind (place : Nat) (opened : List Nat) : TokenKind → Option (List Nat)
  | .leftBrace => some (place :: opened)
  | .rightBrace => opened.tail?
  | _ => some opened

/-- The places of the braces that are open behind a run of tokens, the innermost first, if `opened` are open
in front of it and it begins at a place.  There are none if a brace closes nothing. -/
def openBraces (place : Nat) (opened : List Nat) : List Token → Option (List Nat)
  | [] => some opened
  | t :: ts => (bracesBehind place opened t.kind).bind fun opened => openBraces (place + 1) opened ts

/-- The braces behind two runs are those behind the second one, in front of which those behind the first are
open. -/
theorem openBraces_append (place : Nat) (opened : List Nat) (ts us : List Token) :
    openBraces place opened (ts ++ us) =
      (openBraces place opened ts).bind fun inner => openBraces (place + ts.length) inner us := by
  induction ts generalizing place opened with
  | nil => rfl
  | cons t ts ih =>
    simp only [List.cons_append, openBraces, ih, Option.bind_assoc, List.length_cons, Nat.add_right_comm,
      Nat.add_assoc]

theorem bracesBehind_other {k : TokenKind} (hleft : k ≠ .leftBrace) (hright : k ≠ .rightBrace) (place : Nat)
    (opened : List Nat) : bracesBehind place opened k = some opened := by
  cases k <;> first | rfl | contradiction

/-- A run that leaves the braces around it as they are. -/
def Balanced (ts : List Token) : Prop := ∀ place opened, openBraces place opened ts = some opened

namespace Balanced

theorem nil : Balanced [] := fun _ _ => rfl

theorem append {ts us : List Token} (hts : Balanced ts) (hus : Balanced us) : Balanced (ts ++ us) := by
  intro place opened
  rw [openBraces_append, hts, Option.bind_some, hus]

theorem cons {t : Token} {ts : List Token} (hleft : t.kind ≠ .leftBrace) (hright : t.kind ≠ .rightBrace)
    (hts : Balanced ts) : Balanced (t :: ts) := by
  intro place opened
  rw [openBraces, bracesBehind_other hleft hright, Option.bind_some, hts]

/-- A balanced run between two braces is balanced together with them. -/
theorem braces {opening closing : Token} {inner : List Token} (hopening : opening.kind = .leftBrace)
    (hclosing : closing.kind = .rightBrace) (hinner : Balanced inner) :
    Balanced (opening :: inner ++ [closing]) := by
  intro place opened
  simp only [List.cons_append, openBraces, openBraces_append, hopening, hclosing, bracesBehind, Option.bind_some,
    hinner (place + 1) (place :: opened), List.tail?_cons]

end Balanced

/-! ## Runs -/

/-- A run of single tokens and of whole groups.  With `loose`, a round or square bracket that closes nothing
may be one of the single tokens; with `braces`, groups may be in braces. -/
inductive Run : Bool → Bool → List Token → Prop
  | nil {loose braces : Bool} : Run loose braces []
  | single {loose braces : Bool} {t : Token} {ts : List Token} (hopening : t.kind.isOpening = false)
      (hclosing : t.kind.isClosing = true → loose = true ∧ t.kind ≠ .rightBrace)
      (hts : Run loose braces ts) : Run loose braces (t :: ts)
  | group {loose braces : Bool} {opening closing : Token} {inner ts : List Token}
      (hpair : opening.kind.closing? = some closing.kind)
      (hbrace : opening.kind = .leftBrace → braces = true) (hinner : Run false true inner)
      (hts : Run loose braces ts) : Run loose braces (opening :: inner ++ closing :: ts)

namespace Run

variable {loose braces : Bool} {ts us : List Token}

theorem append (hts : Run loose braces ts) (hus : Run loose braces us) : Run loose braces (ts ++ us) := by
  induction hts with
  | nil => exact hus
  | single hopening hclosing _ ih => exact single hopening hclosing (ih hus)
  | group hpair hbrace hinner _ _ ih =>
    rw [List.append_assoc, List.cons_append]
    exact group hpair hbrace hinner (ih hus)

/-- A run is one under weaker conditions too. -/
theorem mono {loose' braces' : Bool} (hloose : loose = true → loose' = true)
    (hbraces : braces = true → braces' = true) (hts : Run loose braces ts) : Run loose' braces' ts := by
  induction hts with
  | nil => exact nil
  | single hopening hclosing _ ih =>
    exact single hopening (fun h => ⟨hloose (hclosing h).1, (hclosing h).2⟩) (ih hloose hbraces)
  | group hpair hbrace hinner _ _ ih =>
    exact group hpair (fun h => hbraces (hbrace h)) hinner (ih hloose hbraces)

/-- A token that is no bracket is a run. -/
theorem plain {t : Token} (hopening : t.kind.isOpening = false) (hclosing : t.kind.isClosing = false) :
    Run loose braces [t] :=
  single hopening (fun h => by rw [hclosing] at h; contradiction) nil

/-- A group is a run. -/
theorem groupOf {opening closing : Token} {inner : List Token}
    (hpair : opening.kind.closing? = some closing.kind) (hbrace : opening.kind = .leftBrace → braces = true)
    (hinner : Run false true inner) : Run loose braces (opening :: inner ++ [closing]) :=
  group hpair hbrace hinner nil

/-- A run leaves the braces around it as they are. -/
theorem balanced (hts : Run loose braces ts) : Balanced ts := by
  induction hts with
  | nil => exact Balanced.nil
  | @single loose braces t ts hopening hclosing _ ih =>
    refine Balanced.cons (fun h => ?_) (fun h => ?_) ih
    · rw [h] at hopening
      contradiction
    · exact (hclosing (by rw [h]; rfl)).2 h
  | @group loose braces opening closing inner ts hpair _ _ _ ihinner ih =>
    rw [show opening :: inner ++ closing :: ts = (opening :: inner ++ [closing]) ++ ts by simp]
    refine Balanced.append ?_ ih
    by_cases hbrace : opening.kind = .leftBrace
    · refine Balanced.braces hbrace ?_ ihinner
      rw [hbrace] at hpair
      exact (Option.some.inj hpair).symm
    · -- a group in other brackets has no brace of its own
      have hkinds : opening.kind ≠ .rightBrace ∧ closing.kind ≠ .leftBrace ∧ closing.kind ≠ .rightBrace := by
        generalize opening.kind = o at hpair hbrace
        cases o <;> simp [TokenKind.closing?] at hpair hbrace <;> simp [← hpair]
      refine Balanced.cons hbrace hkinds.1 (ihinner.append ?_)
      exact Balanced.cons hkinds.2.1 hkinds.2.2 Balanced.nil

end Run

/-! ## Groups -/

/-- A reading of brackets that closes all that are due passes a run up to the innermost of them and its closing
bracket, and goes on with the others. -/
theorem groupReach_closed {due : TokenKind} {outer : List TokenKind} {ts : List Token}
    (h : (groupReach (due :: outer) ts).ending = .closed) :
    ∃ inner closing rest, ts = inner ++ closing :: rest ∧ Run false true inner ∧ closing.kind = due ∧
      (groupReach outer rest).ending = .closed ∧
      (groupReach (due :: outer) ts).length = inner.length + 1 + (groupReach outer rest).length := by
  induction hn : ts.length using Nat.strongRecOn generalizing due outer ts with
  | _ n ih =>
    cases ts with
    | nil => simp [groupReach] at h
    | cons t ts =>
      simp only [List.length_cons] at hn
      rw [groupReach] at h ⊢
      cases hopening : t.kind.closing? with
      | some due' =>
        simp only [hopening] at h ⊢
        obtain ⟨inner, closing, rest, rfl, hinner, hclosing, hrest, hlength⟩ :=
          ih ts.length (by omega) h rfl
        simp only [List.length_append, List.length_cons] at hn
        obtain ⟨inner', closing', rest', rfl, hinner', hclosing', hrest', hlength'⟩ :=
          ih rest.length (by omega) hrest rfl
        refine ⟨t :: inner ++ closing :: inner', closing', rest', by simp, ?_, hclosing', hrest', ?_⟩
        · exact .group (hopening.trans (congrArg some hclosing.symm)) (fun _ => rfl) hinner hinner'
        · simp only [GroupReach.succ, hlength, hlength', List.length_append, List.length_cons]
          omega
      | none =>
        simp only [hopening] at h ⊢
        by_cases hclosing : t.kind.isClosing = true
        · simp only [hclosing, if_true] at h ⊢
          by_cases hdue : t.kind = due
          · simp only [hdue, if_true] at h ⊢
            exact ⟨[], t, ts, rfl, .nil, hdue, h, by simp [GroupReach.succ, Nat.add_comm]⟩
          · simp [hdue] at h
        · simp only [hclosing, Bool.false_eq_true, if_false] at h ⊢
          obtain ⟨inner, closing, rest, rfl, hinner, hclosing', hrest, hlength⟩ := ih ts.length (by omega) h rfl
          refine ⟨t :: inner, closing, rest, rfl, .single ?_ (fun h => absurd h hclosing) hinner, hclosing', hrest, ?_⟩
          · rw [Bool.eq_false_iff, Ne, TokenKind.isOpening_iff]
            simp [hopening]
          · simp only [GroupReach.succ, hlength, List.length_cons]
            omega

end ServiceCatalog
