import Mathlib.Data.List.Forall2
import ServiceCatalog.Proofs.Parse.Heads
import ServiceCatalog.Proofs.Source.Placed

/-!
# Forests laid out in tokens

A forest of classes is laid out in a run of tokens: each class has its keyword and its head there, and then
either no body and no classes inside, or a body in braces in which the forest inside it is laid out.  All else
in the run is balanced.

From this alone it follows where every class stands (`Layout.standsIn`): the braces that are open in front of
its keyword are those that open the bodies of the classes around it, one for each.
-/

namespace ServiceCatalog

open Relation

/-! ## Places in a run of tokens -/

namespace ClassDecl

/-- Whether the keyword of a declaration stands at a place. -/
def BeginsAt (ts : List Token) (place : Nat) (d : ClassDecl) : Prop :=
  ∃ before first head after, ts = before ++ first :: head ++ after ∧ before.length = place ∧
    IsHead d.kind d.name first head

/-- Whether the brace that opens the body of a declaration stands at a place: the first one behind its
keyword that is in no group in round or square brackets. -/
def OpensAt (ts : List Token) (place : Nat) (d : ClassDecl) : Prop :=
  ∃ before first head opening after, ts = before ++ first :: head ++ opening :: after ∧
    (before ++ first :: head).length = place ∧ IsHead d.kind d.name first head ∧ opening.kind = .leftBrace

end ClassDecl

/-- Whether the braces that are open in front of a declaration are those of the bodies around it: as many as
there are enclosing declarations, and each of them opens the body of one of those, in their order. -/
def Placed.StandsIn (ts : List Token) (p : Placed) : Prop :=
  ∃ place opened, p.decl.BeginsAt ts place ∧ openBraces 0 [] (ts.take place) = some opened ∧
    opened.length = p.enclosing.length ∧ List.Forall₂ (ClassDecl.OpensAt ts) opened p.enclosing.reverse

/-! ## Layouts -/

/-- Whether a run of tokens holds the classes of a forest and nothing else that braces matter for. -/
inductive Layout : List Token → List ClassDecl → Prop
  | nil : Layout [] []
  | passed {run ts : List Token} {ds : List ClassDecl} (hrun : Balanced run) (h : Layout ts ds) :
      Layout (run ++ ts) ds
  | bodiless {first : Token} {head ts : List Token} {d : ClassDecl} {ds : List ClassDecl}
      (hhead : IsHead d.kind d.name first head) (hinner : d.declarations = []) (h : Layout ts ds) :
      Layout (first :: head ++ ts) (d :: ds)
  | embodied {first opening closing : Token} {head inner ts : List Token} {d : ClassDecl} {ds : List ClassDecl}
      (hhead : IsHead d.kind d.name first head) (hopening : opening.kind = .leftBrace)
      (hclosing : closing.kind = .rightBrace) (hinner : Layout inner d.declarations) (h : Layout ts ds) :
      Layout (first :: head ++ opening :: inner ++ closing :: ts) (d :: ds)

/-- The keyword of a class is no bracket, so it is a run together with the rest of the head. -/
theorem IsHead.run_cons {kind : ClassKind} {name : Ident} {first : Token} {head : List Token}
    (h : IsHead kind name first head) : Run true false (first :: head) := by
  have hplain : kind.keyword.isOpening = false ∧ kind.keyword.isClosing = false := by
    cases kind <;> exact ⟨rfl, rfl⟩
  have hfirst : Run true false [first] := .plain (h.keyword ▸ hplain.1) (h.keyword ▸ hplain.2)
  exact hfirst.append h.run

/-- Where balanced tokens are passed, the open braces stay the same. -/
theorem openBraces_append_of_balanced {before run : List Token} {opened : List Nat}
    (hopened : openBraces 0 [] before = some opened) (hrun : Balanced run) :
    openBraces 0 [] (before ++ run) = some opened := by
  rw [openBraces_append, hopened, Option.bind_some, hrun]

/-- A class stands in the bodies around it, if just those are open in front of its keyword. -/
theorem Placed.standsIn_of_isHead {all before head after : List Token} {first : Token} {opened : List Nat}
    {enclosing : List ClassDecl} {d : ClassDecl} (hall : all = before ++ first :: head ++ after)
    (hhead : IsHead d.kind d.name first head) (hopened : openBraces 0 [] before = some opened)
    (hbodies : List.Forall₂ (ClassDecl.OpensAt all) opened enclosing.reverse) :
    Placed.StandsIn all ⟨enclosing, d⟩ :=
  ⟨before.length, opened, ⟨before, first, head, after, hall, rfl, hhead⟩, by rw [hall]; simpa using hopened,
    by simpa using hbodies.length_eq, hbodies⟩

namespace Layout

variable {ts us : List Token} {ds es : List ClassDecl}

theorem append (hts : Layout ts ds) (hus : Layout us es) : Layout (ts ++ us) (ds ++ es) := by
  induction hts with
  | nil => exact hus
  | passed hrun _ ih =>
    rw [List.append_assoc]
    exact passed hrun ih
  | bodiless hhead hinner _ ih =>
    rw [List.append_assoc]
    exact bodiless hhead hinner ih
  | embodied hhead hopening hclosing hinner _ _ ih =>
    rw [List.append_assoc, List.cons_append]
    exact embodied hhead hopening hclosing hinner ih

/-- The braces of a layout are balanced. -/
theorem balanced (h : Layout ts ds) : Balanced ts := by
  induction h with
  | nil => exact .nil
  | passed hrun _ ih => exact hrun.append ih
  | bodiless hhead _ _ ih => exact hhead.run_cons.balanced.append ih
  | @embodied first opening closing head inner ts d ds hhead hopening hclosing _ _ ihinner ih =>
    have hbody : Balanced (opening :: inner ++ [closing]) := .braces hopening hclosing ihinner
    simpa using (hhead.run_cons.balanced.append hbody).append ih

/-- Every class of a forest, at any depth, stands in the bodies of the classes around it, if the forest is
laid out where just the bodies around the forest are open. -/
theorem standsIn (h : Layout ts ds) {all before after : List Token} {opened : List Nat}
    {enclosing : List ClassDecl} (hall : all = before ++ ts ++ after)
    (hopened : openBraces 0 [] before = some opened)
    (hbodies : List.Forall₂ (ClassDecl.OpensAt all) opened enclosing.reverse) {d : ClassDecl} (hd : d ∈ ds)
    {p : Placed} (hp : ReflTransGen Placed.Encloses ⟨enclosing, d⟩ p) : p.StandsIn all := by
  induction h generalizing before after opened enclosing d with
  | nil => contradiction
  | @passed run ts ds hrun _ ih =>
    have hrest : all = (before ++ run) ++ ts ++ after := by rw [hall]; simp
    exact ih hrest (openBraces_append_of_balanced hopened hrun) hbodies hd hp
  | @bodiless first head ts e es hhead hinner _ ih =>
    have hplace : all = before ++ first :: head ++ (ts ++ after) := by rw [hall]; simp
    have hrest : all = (before ++ first :: head) ++ ts ++ after := by rw [hplace]; simp
    rcases List.mem_cons.mp hd with rfl | hd
    · rcases hp.cases_head with rfl | ⟨q, hq, -⟩
      · exact Placed.standsIn_of_isHead hplace hhead hopened hbodies
      · simp [Placed.Encloses, Placed.inner, hinner] at hq
    · exact ih hrest (openBraces_append_of_balanced hopened hhead.run_cons.balanced) hbodies hd hp
  | @embodied first opening closing head inner ts e es hhead hopening hclosing hinner _ ihinner ih =>
    have hplace : all = before ++ first :: head ++ opening :: (inner ++ closing :: ts ++ after) := by
      rw [hall]; simp
    have hbody : all = (before ++ first :: head ++ [opening]) ++ inner ++ (closing :: ts ++ after) := by
      rw [hplace]; simp
    have hrest : all = (before ++ (first :: head ++ opening :: inner ++ [closing])) ++ ts ++ after := by
      rw [hplace]; simp
    rcases List.mem_cons.mp hd with rfl | hd
    · rcases hp.cases_head with rfl | ⟨q, hq, hp⟩
      · exact Placed.standsIn_of_isHead hplace hhead hopened hbodies
      · obtain ⟨e, he, rfl⟩ := List.mem_map.mp hq
        -- inside the body its own brace is open too
        have hopened' : openBraces 0 [] (before ++ first :: head ++ [opening]) =
            some ((before ++ first :: head).length :: opened) := by
          rw [openBraces_append, openBraces_append_of_balanced hopened hhead.run_cons.balanced]
          simp [openBraces, bracesBehind, hopening]
        have hopens : d.OpensAt all (before ++ first :: head).length :=
          ⟨before, first, head, opening, _, hplace, rfl, hhead, hopening⟩
        refine ihinner hbody hopened' ?_ he hp
        rw [List.reverse_append]
        exact .cons hopens hbodies
    · refine ih hrest (openBraces_append_of_balanced hopened ?_) hbodies hd hp
      simpa using hhead.run_cons.balanced.append (.braces hopening hclosing hinner.balanced)

end Layout

end ServiceCatalog
