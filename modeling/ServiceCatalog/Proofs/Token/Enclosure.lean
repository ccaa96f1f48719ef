import ServiceCatalog.Token.Enclosure

/-!
# What a pass over enclosures depends on

A pass that closes everything on its stack has seen all it needs: what stands behind the characters it took can be
exchanged.  Only the marks that close a raw string have to be the last of their run, so where a raw string is closed
last no further mark may follow.  A pass that does not close everything stops at the end of a line or of the text.

* `length_stack_le`, `three_le_length`, `length_skip_le`: how many characters a pass takes.
* `head?_of_not_closed`: where a pass stops that does not close everything.
* `getLast?_of_closed`: what a pass ends with that closes everything.
* `skip_exchange`, `skip_extend`: a pass that closes everything, in front of another text and in a longer one.
-/

namespace ServiceCatalog

namespace Enclosure

namespace Reach

@[simp] theorem beyond_zero (r : Reach) : r.beyond 0 = r := by simp [beyond]

theorem beyond_beyond (m n : Nat) (r : Reach) : (r.beyond m).beyond n = r.beyond (n + m) := by
  simp [beyond, Nat.add_assoc]

end Reach

variable {e : Enclosure} {s inner : List Enclosure} {c : Char} {cs : List Char} {n : Nat}

/-! ## One move -/

/-- A move takes characters of the text only. -/
theorem length_step_le (h : e.step c cs = some (n, inner)) : n ≤ cs.length := by
  rcases e with _ | _ | _ | (_ | depth) | (_ | depth) <;> rcases cs with _ | ⟨a, _ | ⟨b, cs⟩⟩ <;> grind [step]

/-- A move in a raw string stays in it, or takes the marks that close it. -/
theorem raw_mem_of_step (h : raw.step c cs = some (n, inner)) : raw ∈ inner ∨ n = 2 ∧ inner = [] := by
  grind [step]

/-- A raw string that is the last to be closed behind a move was it before. -/
theorem getLast?_of_step {outer : List Enclosure} (h : e.step c cs = some (n, inner))
    (hlast : (inner ++ outer).getLast? = some raw) : (e :: outer).getLast? = some raw := by
  cases outer with
  | nil =>
    rw [List.append_nil] at hlast
    rcases e with _ | _ | _ | (_ | depth) | (_ | depth) <;> grind [step]
  | cons o outer =>
    rw [List.getLast?_append, List.getLast?_cons, Option.some_or] at hlast
    rwa [List.getLast?_cons_cons, List.getLast?_cons]

/-- What closes a literal or a comment is a mark. -/
theorem getLast?_of_step_nil (h : e.step c cs = some (n, [])) :
    ∀ d ∈ (c :: cs.take n).getLast?, d ∈ ['"', '\'', '}', '/'] := by
  rcases e with _ | _ | _ | (_ | depth) | (_ | depth) <;> rcases cs with _ | ⟨a, _ | ⟨b, cs⟩⟩ <;>
    simp [step] at h ⊢ <;> grind

/-- There is no move only at the end of a line. -/
theorem newline_of_step (h : e.step c cs = none) : c = '\n' := by
  rcases e with _ | _ | _ | (_ | depth) | (_ | depth) <;> grind [step]

/-- A move looks at three characters ahead. -/
theorem step_ahead (e : Enclosure) (c a b d : Char) (cs ds : List Char) :
    e.step c (a :: b :: d :: cs) = e.step c (a :: b :: d :: ds) := by
  rcases e with _ | _ | _ | (_ | depth) | (_ | depth) <;> simp [step]

/-- A move is the same in front of another text if enough characters are left to close what it leaves open. -/
theorem step_exchange {front behind rest : List Char} (hstep : e.step c (front ++ behind) = some (n, inner))
    (hlength : n + inner.length ≤ front.length) (hraw : raw ∈ inner → n + 3 ≤ front.length)
    (hclose : e = raw → inner = [] → front.length = 2 → rest.head? = some '"' → behind.head? = some '"') :
    e.step c (front ++ rest) = some (n, inner) := by
  rcases front with _ | ⟨a, _ | ⟨b, _ | ⟨d, front⟩⟩⟩
  · rcases e with _ | _ | _ | (_ | depth) | (_ | depth) <;> grind [step]
  · rcases e with _ | _ | _ | (_ | depth) | (_ | depth) <;> simp [step] at hstep ⊢ <;> grind
  · rcases e with _ | _ | _ | (_ | depth) | (_ | depth) <;> simp [step] at hstep ⊢ <;> grind
  · exact (step_ahead e c a b d _ _).trans hstep

/-! ## The characters of a pass -/

/-- Each enclosure on the stack takes a character to be closed. -/
theorem length_stack_le (h : (skip s cs).closed) : s.length ≤ (skip s cs).length := by
  fun_induction skip s cs with
  | case1 => exact Nat.zero_le _
  | case2 => contradiction
  | case3 => contradiction
  | case4 e outer c cs n inner hstep ih =>
    have hle := ih h
    rw [List.length_append] at hle
    rw [Reach.length_beyond, List.length_cons]
    omega

/-- A raw string on the stack takes three characters to be closed. -/
theorem three_le_length (h : (skip s cs).closed) (hraw : raw ∈ s) : 3 ≤ (skip s cs).length := by
  fun_induction skip s cs with
  | case1 => exact absurd hraw List.not_mem_nil
  | case2 => contradiction
  | case3 => contradiction
  | case4 e outer c cs n inner hstep ih =>
    rw [Reach.length_beyond]
    rcases List.mem_cons.mp hraw with rfl | hraw
    · rcases raw_mem_of_step hstep with hmem | ⟨rfl, -⟩
      · have hle := ih h (List.mem_append_left _ hmem)
        omega
      · omega
    · have hle := ih h (List.mem_append_right _ hraw)
      omega

/-- A pass takes characters of the text only. -/
theorem length_skip_le (s : List Enclosure) (cs : List Char) : (skip s cs).length ≤ cs.length := by
  fun_induction skip s cs with
  | case1 => exact Nat.zero_le _
  | case2 => exact Nat.zero_le _
  | case3 => exact Nat.zero_le _
  | case4 e outer c cs n inner hstep ih =>
    have hle := length_step_le hstep
    rw [List.length_drop] at ih
    rw [Reach.length_beyond, List.length_cons]
    omega

/-- What a pass that closes everything takes. -/
theorem exists_front_of_closed (h : (skip s cs).closed) :
    ∃ front behind, cs = front ++ behind ∧ skip s cs = ⟨true, front.length⟩ := by
  refine ⟨cs.take (skip s cs).length, cs.drop (skip s cs).length, (List.take_append_drop _ _).symm, ?_⟩
  rw [List.length_take_of_le (length_skip_le s cs), ← h]

/-- A pass that closes everything ends with a mark. -/
theorem getLast?_of_closed {front behind : List Char} (h : skip s (front ++ behind) = ⟨true, front.length⟩) :
    ∀ d ∈ front.getLast?, d ∈ ['"', '\'', '}', '/'] := by
  generalize hcs : front ++ behind = cs at h
  fun_induction skip s cs generalizing front with
  | case1 =>
    obtain rfl := List.eq_nil_of_length_eq_zero (congrArg Reach.length h).symm
    simp
  | case2 => exact absurd (congrArg Reach.closed h) Bool.false_ne_true
  | case3 => exact absurd (congrArg Reach.closed h) Bool.false_ne_true
  | case4 e outer c cs n inner hstep ih =>
    have hclosed : (skip (inner ++ outer) (cs.drop n)).closed = true := congrArg Reach.closed h
    have hlength : n + 1 + (skip (inner ++ outer) (cs.drop n)).length = front.length := congrArg Reach.length h
    obtain ⟨d, front, rfl⟩ : ∃ d front', front = d :: front' := by
      refine List.exists_cons_of_ne_nil fun hnil => ?_
      rw [hnil, List.length_nil] at hlength
      omega
    rw [List.cons_append] at hcs
    obtain ⟨rfl, rfl⟩ := List.cons.inj hcs
    rw [List.length_cons] at hlength
    obtain ⟨taken, left, rfl, rfl⟩ : ∃ taken left, front = taken ++ left ∧ n = taken.length :=
      ⟨front.take n, front.drop n, (List.take_append_drop n front).symm, by rw [List.length_take]; omega⟩
    rw [List.append_assoc, List.drop_left] at hclosed hlength ih
    rw [List.append_assoc] at hstep
    rw [List.length_append] at hlength
    have hleft : skip (inner ++ outer) (left ++ behind) = ⟨true, left.length⟩ := by
      rw [Reach.mk.injEq]
      exact ⟨hclosed, by omega⟩
    cases left with
    | nil =>
      -- nothing is left open, so the move closed the last that was
      have hstack := length_stack_le hclosed
      rw [hleft] at hstack
      obtain rfl : inner = [] := by
        cases inner with
        | nil => rfl
        | cons => exact absurd hstack (by simp)
      have hlast := getLast?_of_step_nil hstep
      rwa [List.take_left, ← List.append_nil taken] at hlast
    | cons b left =>
      rw [← List.cons_append, List.getLast?_append, List.getLast?_cons, Option.some_or, ← List.getLast?_cons]
      exact ih rfl hleft

/-- A pass that does not close everything stops at the end of a line or of the text. -/
theorem head?_of_not_closed (h : (skip s cs).closed = false) :
    (cs.drop (skip s cs).length).head? = none ∨ (cs.drop (skip s cs).length).head? = some '\n' := by
  fun_induction skip s cs with
  | case1 => contradiction
  | case2 => exact .inl rfl
  | case3 e outer c cs hstep => exact .inr (congrArg some (newline_of_step hstep))
  | case4 e outer c cs n inner hstep ih =>
    have hdrop : (c :: cs).drop ((skip (inner ++ outer) (cs.drop n)).beyond (n + 1)).length =
        (cs.drop n).drop (skip (inner ++ outer) (cs.drop n)).length := by
      rw [Reach.length_beyond, List.drop_drop, Nat.add_right_comm, List.drop_succ_cons]
    rw [hdrop]
    exact ih h

/-- Behind what a pass takes that closes everything, the rest of a stack is passed. -/
theorem skip_append_of_closed {front behind : List Char} (h : skip s (front ++ behind) = ⟨true, front.length⟩)
    (outer : List Enclosure) : skip (s ++ outer) (front ++ behind) = (skip outer behind).beyond front.length := by
  rw [skip_append, h, if_pos rfl, List.drop_left]

/-! ## Other texts behind a pass -/

/-- A pass that closes everything is the same in front of another text. -/
theorem skip_exchange {front behind rest : List Char} (h : skip s (front ++ behind) = ⟨true, front.length⟩)
    (hrest : rest.head? = some '"' → s.getLast? = some raw → behind.head? = some '"') :
    skip s (front ++ rest) = ⟨true, front.length⟩ := by
  generalize hcs : front ++ behind = cs at h
  fun_induction skip s cs generalizing front with
  | case1 =>
    rw [skip_nil]
    exact h
  | case2 => exact absurd (congrArg Reach.closed h) Bool.false_ne_true
  | case3 => exact absurd (congrArg Reach.closed h) Bool.false_ne_true
  | case4 e outer c cs n inner hstep ih =>
    have hclosed : (skip (inner ++ outer) (cs.drop n)).closed = true := congrArg Reach.closed h
    have hlength : n + 1 + (skip (inner ++ outer) (cs.drop n)).length = front.length := congrArg Reach.length h
    obtain ⟨d, front, rfl⟩ : ∃ d front', front = d :: front' := by
      refine List.exists_cons_of_ne_nil fun hnil => ?_
      rw [hnil, List.length_nil] at hlength
      omega
    rw [List.cons_append] at hcs
    obtain ⟨rfl, rfl⟩ := List.cons.inj hcs
    rw [List.length_cons] at hlength
    obtain ⟨taken, left, rfl, rfl⟩ : ∃ taken left, front = taken ++ left ∧ n = taken.length :=
      ⟨front.take n, front.drop n, (List.take_append_drop n front).symm, by rw [List.length_take]; omega⟩
    rw [List.append_assoc, List.drop_left] at hclosed hlength ih
    rw [List.length_append] at hlength
    have hleft : (skip (inner ++ outer) (left ++ behind)).length = left.length := by omega
    have hstack := length_stack_le hclosed
    rw [hleft, List.length_append] at hstack
    have hstep' : e.step d (taken ++ left ++ rest) = some (taken.length, inner) := by
      refine step_exchange hstep ?_ (fun hraw => ?_) fun he hinner htwo => ?_
      · rw [List.length_append]
        omega
      · have hthree := three_le_length hclosed (List.mem_append_left outer hraw)
        rw [List.length_append]
        omega
      · -- The raw string is closed here, and nothing is left to be closed behind it.
        subst he
        have htaken : taken.length = 2 := by
          rcases raw_mem_of_step hstep with hmem | ⟨htaken, -⟩
          · exact absurd (hinner ▸ hmem) List.not_mem_nil
          · exact htaken
        rw [List.length_append] at htwo
        have houter : outer = [] := List.eq_nil_of_length_eq_zero (by omega)
        exact fun hquote => hrest hquote (by rw [houter]; rfl)
    have hskip : skip (inner ++ outer) (left ++ rest) = ⟨true, left.length⟩ := by
      refine ih (fun hquote hlast => hrest hquote (getLast?_of_step hstep hlast)) rfl ?_
      rw [Reach.mk.injEq]
      exact ⟨hclosed, hleft⟩
    rw [List.cons_append, skip_cons_cons, hstep']
    show (skip (inner ++ outer) ((taken ++ left ++ rest).drop taken.length)).beyond (taken.length + 1) = _
    rw [List.append_assoc, List.drop_left, hskip, List.length_cons, List.length_append, Nat.add_right_comm]
    rfl

/-- A pass that closes everything is the same in a longer text, where the marks that close a raw string stay the last
of their run. -/
theorem skip_extend {front behind rest : List Char} (h : skip s (front ++ behind) = ⟨true, front.length⟩)
    (hrest : rest.head? ≠ some '"') : skip s (front ++ (behind ++ rest)) = ⟨true, front.length⟩ := by
  refine skip_exchange h fun hquote _ => ?_
  cases behind with
  | nil => exact absurd hquote hrest
  | cons c cs => exact hquote

end Enclosure

end ServiceCatalog
