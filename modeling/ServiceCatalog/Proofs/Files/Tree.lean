import ServiceCatalog.Proofs.Files.Path

/-!
# Changes of a file tree

What the operations do to the places of a tree.  Directories that are made come to stand on the way of their path,
and nothing else changes, also where a fault ends it (`Grows`); a file is written at the end of its path or not at
all; and what is emptied has nothing below it.

* `node?_put`, `node?_clear`: what is at a place behind a change.
* `clean_eq`: emptying a directory.
* `grows_makeDirectories`, `directories_of_makeDirectories`: the directories that are made.
* `exists_ensureDirectories`: what is missing below an empty directory can be made.
* `write_of_writable`, `write_of_not_writable`: what is written.
-/

namespace ServiceCatalog.FileTree

open FilePath (component? eq_of_component? follow stops way)

variable {t t' t'' : FileTree} {top place start parts : List String}

/-! ## What is at a place -/

@[simp] theorem node?_nil (t : FileTree) : t.node? [] = some .directory := by rw [node?, if_pos rfl]

theorem ne_nil_of_node? (hnone : t.node? place = none) : place ≠ [] := by
  rintro rfl
  exact absurd hnone (by simp)

theorem node?_put_of_ne (t : FileTree) {q : List String} (hq : q ≠ place) (n : FileNode) :
    (t.put place n).node? q = t.node? q := by
  have hsame : (t.entries.filter fun e => e.1 ≠ place).find? (fun e => e.1 = q) =
      t.entries.find? fun e => e.1 = q := by
    rw [List.find?_filter]
    congr 1
    funext e
    by_cases he : e.1 = q
    · simp [he, hq]
    · simp [he]
  rw [node?, node?, put, List.find?_append, hsame]
  simp [Ne.symm hq]

theorem node?_put (t : FileTree) (hplace : place ≠ []) (n : FileNode) (q : List String) :
    (t.put place n).node? q = if q = place then some n else t.node? q := by
  by_cases hq : q = place
  · subst hq
    have hgone : (t.entries.filter fun e => e.1 ≠ q).find? (fun e => e.1 = q) = none := by simp
    rw [node?, if_neg hplace, put, if_pos rfl, List.find?_append, hgone]
    simp
  · rw [if_neg hq, node?_put_of_ne t hq]

theorem node?_clear (t : FileTree) (top q : List String) :
    (t.clear top).node? q = if isBelow top q then none else t.node? q := by
  by_cases hnil : q = []
  · have hnot : ¬isBelow top q := fun hbelow => ne_nil_of_isBelow hbelow hnil
    rw [if_neg hnot, hnil, node?_nil, node?_nil]
  · rw [node?, if_neg hnil, node?, if_neg hnil, clear]
    by_cases hbelow : isBelow top q
    · rw [if_pos hbelow, Option.map_eq_none_iff, List.find?_eq_none]
      intro e he
      have hkept : isBelow top e.1 = false := by simpa using (List.mem_filter.mp he).2
      rw [decide_eq_true_eq]
      rintro rfl
      exact absurd hbelow (by simp [hkept])
    · rw [if_neg hbelow, List.find?_filter]
      congr 2
      funext e
      by_cases he : e.1 = q
      · simp [he, hbelow]
      · simp [he]

/-- Asked for, the state stays as it is. -/
theorem get_eq {ε σ : Type} (s : σ) : (get : EStateM ε σ σ) s = .ok s s := rfl

/-- The tree behind an action, whether or not it ended in a fault. -/
def after {ε α : Type} (t : FileTree) (a : EStateM ε FileTree α) : FileTree :=
  match a t with
  | .ok _ t' => t'
  | .error _ t' => t'

/-! ## Emptying a directory -/

theorem clean_eq (p : FilePath) (t : FileTree) :
    clean p t =
      match t.find p with
      | .ok (top, .directory) => .ok () (t.clear top)
      | .ok (_, .file _) => .error .notADirectory t
      | .error .notFound => .ok () t
      | .error fault => .error fault t := by
  unfold clean
  simp only [bind, EStateM.bind, get_eq]
  cases t.find p with
  | error fault => cases fault <;> rfl
  | ok found =>
    obtain ⟨top, n⟩ := found
    cases n <;> rfl

/-! ## Making directories -/

theorem walk_concat (t : FileTree) (start parts : List String) (s : String) :
    (parts ++ [s]).foldlM t.step start = (do t.step (← parts.foldlM t.step start) s) := by
  rw [List.foldlM_append]
  simp

theorem makeDirectory_eq (start : List String) (last : String) (around : List String) (t : FileTree) :
    makeDirectory start (last :: around) t =
      match (last :: around).reverse.foldlM t.step start with
      | .error fault => .error fault t
      | .ok target =>
        match t.node? target, component? last with
        | none, some (.name _) => .ok () (t.put target .directory)
        | _, _ => .error .alreadyExists t := by
  rw [List.reverse_cons, walk_concat]
  unfold makeDirectory
  simp only [bind, EStateM.bind, get_eq]
  cases Except.bind (around.reverse.foldlM t.step start) fun place => t.step place last with
  | error fault => rfl
  | ok target =>
    simp only [MonadExcept.ofExcept, pure, EStateM.pure]
    cases hnode : t.node? target with
    | some n =>
      simp only [Option.isSome_some, true_or, if_true]
      rfl
    | none =>
      cases hlast : component? last with
      | none => rfl
      | some c => cases c <;> rfl

/-- A directory that is there stays, and one that is missing is made. -/
theorem ensureDirectory_eq (start : List String) (last : String) (around : List String) (t : FileTree) :
    ensureDirectory start (last :: around) t =
      match (last :: around).reverse.foldlM t.step start with
      | .error fault => .error fault t
      | .ok target =>
        match t.node? target, component? last with
        | some .directory, _ => .ok () t
        | none, some (.name _) => .ok () (t.put target .directory)
        | _, _ => .error .alreadyExists t := by
  have hcatch : ensureDirectory start (last :: around) t =
      match makeDirectory start (last :: around) t with
      | .ok _ t' => .ok () t'
      | .error fault t' =>
        if fault = .alreadyExists ∧ t'.isDirectory start (last :: around) then .ok () t' else .error fault t' := by
    unfold ensureDirectory
    simp only [tryCatch, tryCatchThe, MonadExceptOf.tryCatch, bind, EStateM.bind, ExceptT.run, EStateM.tryCatch]
    cases makeDirectory start (last :: around) t with
    | ok u t' => rfl
    | error fault t' =>
      simp only [get_eq, EStateM.Backtrackable.restore, EStateM.dummyRestore]
      by_cases h : fault = .alreadyExists ∧ t'.isDirectory start (last :: around)
      · simp only [if_pos h]
        rfl
      · simp only [if_neg h]
        rfl
  rw [hcatch, makeDirectory_eq]
  cases hwalk : (last :: around).reverse.foldlM t.step start with
  | error fault =>
    simp only [isDirectory, hwalk]
    simp
  | ok target =>
    cases hnode : t.node? target with
    | none =>
      cases component? last with
      | none =>
        simp only [isDirectory, hwalk, hnode]
        rfl
      | some c => cases c <;> simp only [isDirectory, hwalk, hnode] <;> rfl
    | some n => cases n <;> simp only [isDirectory, hwalk, hnode] <;> rfl

theorem ensureDirectories_cons (start : List String) (last : String) (around : List String) (t : FileTree) :
    ensureDirectories start (last :: around) t =
      if component? last = none then ensureDirectories start around t
      else
        match ensureDirectory start (last :: around) t with
        | .ok _ t' => .ok () t'
        | .error fault t' =>
          if fault ≠ .notFound then .error fault t'
          else
            match ensureDirectories start around t' with
            | .ok _ t'' => ensureDirectory start (last :: around) t''
            | .error fault t'' => .error fault t'' := by
  rw [ensureDirectories]
  split
  · rfl
  · simp only [tryCatch, tryCatchThe, MonadExceptOf.tryCatch, bind, EStateM.tryCatch]
    cases ensureDirectory start (last :: around) t with
    | ok u t' => rfl
    | error fault t' =>
      by_cases hfault : fault ≠ .notFound
      · simp only [if_pos hfault]
        rfl
      · simp only [if_neg hfault]
        show EStateM.bind (ensureDirectories start around) _ t' = _
        rw [EStateM.bind]
        cases ensureDirectories start around t' <;> rfl

/-- Whether a tree differs from another one by directories at places where nothing was. -/
structure Grows (t t' : FileTree) (places : List (List String)) : Prop where
  workingDirectory : t'.workingDirectory = t.workingDirectory
  node? : ∀ q, t'.node? q = t.node? q ∨ q ∈ places ∧ t.node? q = none ∧ t'.node? q = some .directory

namespace Grows

variable {places places' : List (List String)}

theorem refl (t : FileTree) (places : List (List String)) : Grows t t places := ⟨rfl, fun _ => .inl rfl⟩

theorem mono (h : Grows t t' places) (hsub : places ⊆ places') : Grows t t' places' :=
  ⟨h.workingDirectory, fun q => (h.node? q).imp_right fun hq => ⟨hsub hq.1, hq.2⟩⟩

theorem trans (h : Grows t t' places) (h' : Grows t' t'' places) : Grows t t'' places := by
  refine ⟨h'.workingDirectory.trans h.workingDirectory, fun q => ?_⟩
  rcases h.node? q with hq | ⟨hmem, hnone, hq⟩
  · rcases h'.node? q with hq' | ⟨hmem, hnone, hq'⟩
    · exact .inl (hq'.trans hq)
    · exact .inr ⟨hmem, hq ▸ hnone, hq'⟩
  · rcases h'.node? q with hq' | ⟨-, hnone', -⟩
    · exact .inr ⟨hmem, hnone, hq'.trans hq⟩
    · cases hq.symm.trans hnone'

theorem put {target : List String} (hnone : t.node? target = none) (hmem : target ∈ places) :
    Grows t (t.put target .directory) places := by
  refine ⟨rfl, fun q => ?_⟩
  rw [node?_put t (ne_nil_of_node? hnone)]
  by_cases hq : q = target
  · subst hq
    exact .inr ⟨hmem, hnone, if_pos rfl⟩
  · exact .inl (if_neg hq)

/-- What is there stays. -/
theorem node?_of_some (h : Grows t t' places) {q : List String} {n : FileNode} (hq : t.node? q = some n) :
    t'.node? q = some n := by
  rcases h.node? q with hsame | ⟨-, hnone, -⟩
  · exact hsame.trans hq
  · cases hq.symm.trans hnone

end Grows

/-- What making a directory can come to: a fault, or directories on the whole way, of which the last one may be new. -/
theorem ensureDirectory_cases (start : List String) (last : String) (around : List String) (t : FileTree) :
    (∃ fault, ensureDirectory start (last :: around) t = .error fault t) ∨
      ∃ t', ensureDirectory start (last :: around) t = .ok () t' ∧ t.node? start = some .directory ∧
        (∀ s ∈ last :: around, Fits s) ∧ (∀ q ∈ way start (last :: around).reverse, t'.node? q = some .directory) ∧
        Grows t t' (way start (last :: around).reverse) := by
  rw [ensureDirectory_eq]
  cases hwalk : (last :: around).reverse.foldlM t.step start with
  | error fault => exact .inl ⟨fault, rfl⟩
  | ok target =>
    obtain ⟨hstops, hfits, rfl⟩ := walk_eq_ok_iff.mp hwalk
    have hfits : ∀ s ∈ last :: around, Fits s := fun s hs => hfits s (List.mem_reverse.mpr hs)
    have hway : ∀ t', Grows t t' (way start (last :: around).reverse) →
        t'.node? ((last :: around).reverse.foldl follow start) = some .directory →
        ∀ q ∈ way start (last :: around).reverse, t'.node? q = some .directory := by
      intro t' hgrows hend q hq
      rcases List.mem_append.mp hq with hq | hq
      · exact hgrows.node?_of_some (hstops q hq)
      · exact List.mem_singleton.mp hq ▸ hend
    have hstart : t.node? start = some .directory := by
      refine hstops start ?_
      rw [List.reverse_cons, FilePath.stops_concat]
      exact FilePath.start_mem_way ..
    dsimp only
    split
    · next hnode => exact .inr ⟨t, rfl, hstart, hfits, hway t (.refl t _) hnode, .refl t _⟩
    · next hnode _ =>
      have hgrows : Grows t (t.put _ .directory) _ := .put hnode (FilePath.end_mem_way start (last :: around).reverse)
      refine .inr ⟨_, rfl, hstart, hfits, hway _ hgrows ?_, hgrows⟩
      rw [node?_put t (ne_nil_of_node? hnode), if_pos rfl]
    · exact .inl ⟨_, rfl⟩

/-- Making directories changes nothing but the places on their way, also where it ends in a fault. -/
theorem grows_ensureDirectories (start parts : List String) (t : FileTree) :
    Grows t (t.after (ensureDirectories start parts)) (way start parts.reverse) := by
  induction parts generalizing t with
  | nil => exact .refl t _
  | cons last around ih =>
    have hsub : way start around.reverse ⊆ way start (last :: around).reverse := by
      rw [List.reverse_cons]
      exact FilePath.way_subset_append ..
    have haround := fun t => (ih t).mono hsub
    simp only [after] at haround ⊢
    rw [ensureDirectories_cons]
    by_cases hnone : component? last = none
    · rw [if_pos hnone]
      exact haround t
    · rw [if_neg hnone]
      rcases ensureDirectory_cases start last around t with ⟨fault, hresult⟩ | ⟨t', hresult, -, -, -, hgrows⟩
      · rw [hresult]
        by_cases hfault : fault ≠ .notFound
        · simp only [if_pos hfault]
          exact .refl t _
        · simp only [if_neg hfault]
          have hmiddle := haround t
          cases hresult' : ensureDirectories start around t with
          | error fault t'' =>
            rw [hresult'] at hmiddle
            exact hmiddle
          | ok u t'' =>
            rw [hresult'] at hmiddle
            dsimp only
            rcases ensureDirectory_cases start last around t'' with ⟨fault, hresult⟩ | ⟨t', hresult, -, -, -, hgrows⟩
            · rw [hresult]
              exact hmiddle
            · rw [hresult]
              exact hmiddle.trans hgrows
      · rw [hresult]
        exact hgrows

/-- Directories are made by making the last one, perhaps behind those around it. -/
theorem exists_ensureDirectory {last : String} {around : List String} (hlast : component? last ≠ none)
    (h : ensureDirectories start (last :: around) t = .ok () t') :
    ∃ t'', (t'' = t ∨ ensureDirectories start around t = .ok () t'') ∧
      ensureDirectory start (last :: around) t'' = .ok () t' := by
  rw [ensureDirectories_cons, if_neg hlast] at h
  cases hresult : ensureDirectory start (last :: around) t with
  | ok u t'' =>
    rw [hresult] at h
    exact ⟨t, .inl rfl, hresult.trans h⟩
  | error fault t'' =>
    obtain rfl : t'' = t := by
      rcases ensureDirectory_cases start last around t with ⟨_, hcase⟩ | ⟨_, hcase, -⟩
      · exact (EStateM.Result.error.inj (hresult.symm.trans hcase)).2
      · cases hresult.symm.trans hcase
    rw [hresult] at h
    dsimp only at h
    split at h
    · cases h
    · cases hmiddle : ensureDirectories start around t'' with
      | ok u t₁ =>
        rw [hmiddle] at h
        exact ⟨t₁, .inr rfl, h⟩
      | error fault t₁ =>
        rw [hmiddle] at h
        cases h

/-- The way of directories that were made starts at a directory, unless it leads nowhere. -/
theorem node?_start_of_ensureDirectories (h : ensureDirectories start parts t = .ok () t') :
    t.node? start = some .directory ∨ t' = t ∧ ∀ s ∈ parts, component? s = none := by
  induction parts generalizing t' with
  | nil => exact .inr ⟨(EStateM.Result.ok.inj h).2.symm, by simp⟩
  | cons last around ih =>
    by_cases hlast : component? last = none
    · rw [ensureDirectories_cons, if_pos hlast] at h
      exact (ih h).imp_right fun h => ⟨h.1, List.forall_mem_cons.mpr ⟨hlast, h.2⟩⟩
    · obtain ⟨t'', hfirst, hmade⟩ := exists_ensureDirectory hlast h
      have hstart : t''.node? start = some .directory := by
        rcases ensureDirectory_cases start last around t'' with ⟨_, hcase⟩ | ⟨_, -, hstart, -⟩
        · cases hmade.symm.trans hcase
        · exact hstart
      rcases hfirst with rfl | hfirst
      · exact .inl hstart
      · rcases ih hfirst with hnode | ⟨rfl, -⟩
        · exact .inl hnode
        · exact .inl hstart

/-- Where directories are made, there are directories on the whole way, if it starts at one. -/
theorem node?_of_ensureDirectories (h : ensureDirectories start parts t = .ok () t')
    (hstart : t.node? start = some .directory) {q : List String} (hq : q ∈ way start parts.reverse) :
    t'.node? q = some .directory := by
  induction parts generalizing t' with
  | nil =>
    obtain rfl := List.mem_singleton.mp hq
    exact (EStateM.Result.ok.inj h).2 ▸ hstart
  | cons last around ih =>
    by_cases hlast : component? last = none
    · rw [ensureDirectories_cons, if_pos hlast] at h
      rw [List.reverse_cons, FilePath.way_concat, List.foldl_append] at hq
      refine ih h ?_
      rcases List.mem_append.mp hq with hq | hq
      · exact hq
      · have hend : q = around.reverse.foldl follow start := by
          simpa [follow, hlast] using hq
        exact hend ▸ FilePath.end_mem_way ..
    · obtain ⟨t'', -, hmade⟩ := exists_ensureDirectory hlast h
      rcases ensureDirectory_cases start last around t'' with ⟨_, hcase⟩ | ⟨t₁, hcase, -, -, hway, -⟩
      · cases hmade.symm.trans hcase
      · obtain rfl := (EStateM.Result.ok.inj (hmade.symm.trans hcase)).2
        exact hway q hq

theorem ensureDirectory_of_directory {last : String} {around : List String}
    (hway : ∀ q ∈ way start (last :: around).reverse, t.node? q = some .directory)
    (hfits : ∀ s ∈ last :: around, Fits s) : ensureDirectory start (last :: around) t = .ok () t := by
  have hwalk := walk_eq_ok_iff.mpr ⟨fun q hq => hway q (FilePath.stops_subset_way _ _ hq),
    fun s hs => hfits s (List.mem_reverse.mp hs), rfl⟩
  have hend := hway _ (FilePath.end_mem_way start (last :: around).reverse)
  simp only [ensureDirectory_eq, hwalk, hend]

theorem ensureDirectory_of_missing {last : String} {around : List String}
    (hway : ∀ q ∈ way start around.reverse, t.node? q = some .directory) (hfits : ∀ s ∈ last :: around, Fits s)
    (hlast : component? last = some (.name last))
    (hnone : t.node? ((last :: around).reverse.foldl follow start) = none) :
    ensureDirectory start (last :: around) t =
      .ok () (t.put ((last :: around).reverse.foldl follow start) .directory) := by
  rw [← FilePath.stops_concat start around.reverse last, ← List.reverse_cons] at hway
  have hwalk := walk_eq_ok_iff.mpr ⟨hway, fun s hs => hfits s (List.mem_reverse.mp hs), rfl⟩
  simp only [ensureDirectory_eq, hwalk, hnone, hlast]

/-- Where all directories on a way are there, nothing is made. -/
theorem ensureDirectories_of_directories (hway : ∀ q ∈ way start parts.reverse, t.node? q = some .directory)
    (hfits : ∀ s ∈ parts, Fits s) : ensureDirectories start parts t = .ok () t := by
  induction parts with
  | nil => rfl
  | cons last around ih =>
    have haround : ∀ q ∈ way start around.reverse, t.node? q = some .directory := by
      rw [List.reverse_cons] at hway
      exact fun q hq => hway q (FilePath.way_subset_append _ _ _ hq)
    rw [ensureDirectories_cons, ih haround (List.forall_mem_cons.mp hfits).2,
      ensureDirectory_of_directory hway hfits]
    exact ite_self _

/-- Behind a way of directories that does not start there, a directory is there already or can be made where nothing
is.  A step back is no obstacle: it leads to a place that the way has passed. -/
theorem exists_ensureDirectory_of_way {last : String} {around : List String} (hout : ¬isBelow top start)
    (hway : ∀ q ∈ way start around.reverse, t.node? q = some .directory) (hfits : ∀ s ∈ last :: around, Fits s)
    (hlast : component? last ≠ none)
    (hend : t.node? ((last :: around).reverse.foldl follow start) = some .directory ∨
      isBelow top ((last :: around).reverse.foldl follow start) ∧
        t.node? ((last :: around).reverse.foldl follow start) = none) :
    ∃ t', ensureDirectory start (last :: around) t = .ok () t' := by
  rcases hend with hdirectory | ⟨hbelow, hnone⟩
  · refine ⟨t, ensureDirectory_of_directory ?_ hfits⟩
    rw [List.reverse_cons] at hdirectory ⊢
    rw [FilePath.way_concat]
    exact List.forall_mem_append.mpr ⟨hway, List.forall_mem_singleton.mpr hdirectory⟩
  · obtain ⟨c, hc⟩ := Option.ne_none_iff_exists'.mp hlast
    rcases eq_of_component? hc with rfl | rfl
    · rw [List.reverse_cons, List.foldl_concat, follow, hc] at hbelow hnone
      have hpassed := FilePath.mem_way_of_prefix hout hbelow (List.dropLast_prefix _)
      cases (hway _ hpassed).symm.trans hnone
    · exact ⟨_, ensureDirectory_of_missing hway hfits hc hnone⟩

/-- Directories can be made if what is missing of them is below an empty directory and the way does not start there. -/
theorem exists_ensureDirectories (hout : ¬isBelow top start) (hempty : ∀ q, isBelow top q → t.node? q = none)
    (hway : ∀ q ∈ way start parts.reverse, t.node? q = some .directory ∨ isBelow top q)
    (hfits : ∀ s ∈ parts, Fits s) : ∃ t', ensureDirectories start parts t = .ok () t' := by
  induction parts with
  | nil => exact ⟨t, rfl⟩
  | cons last around ih =>
    have hfits' := (List.forall_mem_cons.mp hfits).2
    have hend := hway _ (FilePath.end_mem_way start (last :: around).reverse)
    rw [List.reverse_cons, FilePath.way_concat, List.forall_mem_append] at hway
    have hstart : t.node? start = some .directory :=
      (hway.1 start (FilePath.start_mem_way ..)).resolve_right hout
    obtain ⟨t', ht'⟩ := ih hway.1 hfits'
    by_cases hlast : component? last = none
    · rw [ensureDirectories_cons, if_pos hlast]
      exact ⟨t', ht'⟩
    have hmake : ∀ u, Grows t u (way start around.reverse) →
        (∀ q ∈ way start around.reverse, u.node? q = some .directory) →
        ∃ u', ensureDirectory start (last :: around) u = .ok () u' := by
      intro u hgrows hway'
      refine exists_ensureDirectory_of_way hout hway' hfits hlast ?_
      rcases hend with hdirectory | hbelow
      · exact .inl (hgrows.node?_of_some hdirectory)
      · rcases hgrows.node? ((last :: around).reverse.foldl follow start) with hsame | ⟨-, -, hdirectory⟩
        · exact .inr ⟨hbelow, hsame.trans (hempty _ hbelow)⟩
        · exact .inl hdirectory
    have hstops : ∀ q ∈ stops start (last :: around).reverse, t.node? q = some .directory ∨ t.node? q = none := by
      rw [List.reverse_cons, FilePath.stops_concat]
      exact fun q hq => (hway.1 q hq).imp_right (hempty q)
    rw [ensureDirectories_cons, if_neg hlast]
    rcases walk_eq_ok_or_notFound hstops (fun s hs => hfits s (List.mem_reverse.mp hs)) with hwalk | hwalk
    · have hdirectories := (walk_eq_ok_iff.mp hwalk).1
      rw [List.reverse_cons, FilePath.stops_concat] at hdirectories
      obtain ⟨u', hu'⟩ := hmake t (.refl t _) hdirectories
      exact ⟨u', by rw [hu']⟩
    · -- the directories around it are made first
      have hmissing : ensureDirectory start (last :: around) t = .error .notFound t := by
        simp only [ensureDirectory_eq, hwalk]
      have hgrows := grows_ensureDirectories start around t
      rw [after, ht'] at hgrows
      obtain ⟨u', hu'⟩ := hmake t' hgrows fun q hq => node?_of_ensureDirectories ht' hstart hq
      exact ⟨u', by simp [hmissing, ht', hu']⟩

/-! ### Along a path -/

theorem makeDirectories_eq {p : FilePath} (hp : p.text ≠ "") (t : FileTree) :
    makeDirectories p t =
      match check p with
      | .error fault => .error fault t
      | .ok _ => ensureDirectories (t.start p) p.segments.reverse t := by
  unfold makeDirectories
  simp only [if_pos hp]
  cases check p <;> rfl

theorem grows_makeDirectories {p : FilePath} (hp : p.text ≠ "") (t : FileTree) :
    Grows t (t.after (makeDirectories p)) (way (t.start p) p.segments) := by
  rw [after, makeDirectories_eq hp]
  cases check p with
  | error fault => exact .refl t _
  | ok _ =>
    have hgrows := grows_ensureDirectories (t.start p) p.segments.reverse t
    rwa [List.reverse_reverse] at hgrows

/-- Where the directories of a path that ends in a name are made, its way starts at a directory, its names are short,
and there are directories on all of it. -/
theorem directories_of_makeDirectories {p : FilePath} {last : String} (hsegments : p.segments = parts ++ [last])
    (hlast : component? last ≠ none) (hp : p.text ≠ "") (h : makeDirectories p t = .ok () t') :
    check p = .ok () ∧ t.node? (t.start p) = some .directory ∧ (∀ s ∈ p.segments, Fits s) ∧
      ∀ q ∈ way (t.start p) p.segments, t'.node? q = some .directory := by
  rw [makeDirectories_eq hp] at h
  cases hcheck : check p with
  | error fault =>
    rw [hcheck] at h
    cases h
  | ok _ =>
    rw [hcheck] at h
    dsimp only at h
    have hreverse : p.segments.reverse = last :: parts.reverse := by simp [hsegments]
    have hstart : t.node? (t.start p) = some .directory := by
      rcases node?_start_of_ensureDirectories h with hstart | ⟨-, hnone⟩
      · exact hstart
      · exact absurd (hnone last (by simp [hreverse])) hlast
    have hfits : ∀ s ∈ p.segments.reverse, Fits s := by
      rw [hreverse] at h ⊢
      obtain ⟨t'', -, hmade⟩ := exists_ensureDirectory hlast h
      rcases ensureDirectory_cases (t.start p) last parts.reverse t'' with ⟨_, hcase⟩ | ⟨_, -, -, hfits, -⟩
      · cases hmade.symm.trans hcase
      · exact hfits
    refine ⟨rfl, hstart, fun s hs => hfits s (List.mem_reverse.mpr hs), fun q hq => ?_⟩
    refine node?_of_ensureDirectories h hstart ?_
    rwa [List.reverse_reverse]

/-! ## Writing files -/

/-- Writing a file to a path that ends in a name either fails or puts the file at the end of the path. -/
theorem write_of_concat {p : FilePath} {last : String} (hsegments : p.segments = parts ++ [last]) (hlast : last ≠ "")
    (bytes : List UInt8) (t : FileTree) :
    write p bytes t =
      match t.place p with
      | .error fault => .error fault t
      | .ok target =>
        if t.node? target = some .directory then .error .isADirectory t
        else .ok () (t.put target (.file bytes)) := by
  have hdrop : (p.segments.reverse.dropWhile (· = "")).reverse = parts ++ [last] := by
    rw [hsegments, List.reverse_append, List.reverse_singleton, List.singleton_append,
      List.dropWhile_cons_of_neg (by simpa using hlast)]
    simp
  rw [FileTree.place, hsegments, walk_concat]
  unfold write
  simp only [hdrop, bind, EStateM.bind, get_eq, List.getLast?_concat,
    List.dropLast_concat]
  cases check p with
  | error fault => rfl
  | ok _ =>
    cases parts.foldlM t.step (t.start p) with
    | error fault => rfl
    | ok around =>
      simp only [MonadExcept.ofExcept, pure, EStateM.pure, Except.bind, hsegments, List.getLast?_concat, ne_eq,
        not_true_eq_false, if_false]
      cases hnode : t.node? around with
      | none =>
        have hstep : ∀ s, t.step around s = .error .notFound := fun s => by rw [step, hnode]
        simp only [hstep]
        rfl
      | some n =>
        cases n with
        | file bytes =>
          have hstep : ∀ s, t.step around s = .error .notADirectory := fun s => by rw [step, hnode]
          simp only [hstep]
          rfl
        | directory =>
          have hstep : t.step around "." = .ok around := by
            rw [step, hnode]
            rfl
          simp only [hstep, EStateM.pure]
          cases t.step around last with
          | error fault => rfl
          | ok target =>
            simp only [EStateM.bind, EStateM.pure]
            by_cases hdirectory : t.node? target = some .directory
            · simp only [if_pos hdirectory]
              rfl
            · simp only [if_neg hdirectory]
              rfl

/-- A path that ends in a separator is no place for a file. -/
theorem write_of_separator {p : FilePath} (hlast : p.segments.getLast? = some "") (bytes : List UInt8)
    (t : FileTree) : ∃ fault, write p bytes t = .error fault t := by
  have hnamed : (p.segments.reverse.dropWhile (· = "")).reverse.getLast? ≠ some "" := by
    rw [List.getLast?_reverse]
    intro hhead
    have hnot := List.head?_dropWhile_not (fun s => decide (s = "")) p.segments.reverse
    simp [hhead] at hnot
  unfold write
  simp only [bind, EStateM.bind, get_eq]
  cases check p with
  | error fault => exact ⟨_, rfl⟩
  | ok _ =>
    simp only [MonadExcept.ofExcept, pure, EStateM.pure]
    cases hname : (p.segments.reverse.dropWhile (· = "")).reverse.getLast? with
    | none => exact ⟨_, rfl⟩
    | some last =>
      have hne : p.segments.getLast? ≠ some last := fun h => hnamed (hname.trans (h.symm.trans hlast))
      simp only [if_pos hne]
      cases Except.bind ((p.segments.reverse.dropWhile (· = "")).reverse.dropLast.foldlM t.step (t.start p))
          fun place => t.step place "." with
      | error fault => exact ⟨_, rfl⟩
      | ok around => exact ⟨_, rfl⟩

/-- Whether a file can be written to a path. -/
structure Writable (t : FileTree) (p : FilePath) : Prop where
  check : check p = .ok ()
  stops : ∀ q ∈ stops (t.start p) p.segments, t.node? q = some .directory
  fits : ∀ s ∈ p.segments, Fits s
  getLast? : p.segments.getLast? ≠ some ""
  node? : t.node? (t.endOf p) ≠ some .directory

namespace Writable

variable {p p' : FilePath}

theorem place_eq (h : t.Writable p) : t.place p = .ok (t.endOf p) :=
  place_eq_ok_iff.mpr ⟨h.check, h.stops, h.fits, rfl⟩

/-- Only the directories of a tree matter for what can be written. -/
theorem congr (h : t.Writable p) (hstart : t'.workingDirectory = t.workingDirectory)
    (hnode : ∀ q, t'.node? q = some .directory ↔ t.node? q = some .directory) : t'.Writable p := by
  have hsame : t'.start p = t.start p := start_congr hstart p
  have hend : t'.endOf p = t.endOf p := endOf_congr hstart p
  refine ⟨h.check, fun q hq => (hnode q).mpr (h.stops q (hsame ▸ hq)), h.fits, h.getLast?, fun hdirectory => ?_⟩
  exact h.node? ((hnode _).mp (hend ▸ hdirectory))

/-- Writing a file does not change what can be written. -/
theorem put_iff (h : t.Writable p) (bytes : List UInt8) :
    (t.put (t.endOf p) (.file bytes)).Writable p' ↔ t.Writable p' := by
  have hne : t.endOf p ≠ [] := fun hnil => h.node? (by rw [hnil, node?_nil])
  have hnode : ∀ q, (t.put (t.endOf p) (.file bytes)).node? q = some .directory ↔
      t.node? q = some .directory := by
    intro q
    rw [node?_put t hne]
    split
    · next hq => simp [hq, h.node?]
    · rfl
  exact ⟨fun h' => h'.congr rfl fun q => (hnode q).symm, fun h' => h'.congr rfl hnode⟩

end Writable

/-- A file is written at the end of its path or not at all. -/
theorem write_of_writable {p : FilePath} (h : t.Writable p) (bytes : List UInt8) :
    write p bytes t = .ok () (t.put (t.endOf p) (.file bytes)) := by
  rcases List.eq_nil_or_concat p.segments with hnil | ⟨parts, last, hsegments⟩
  · exact absurd hnil p.segments_ne_nil
  · rw [List.concat_eq_append] at hsegments
    have hlast : last ≠ "" := fun hempty => h.getLast? (by simp [hsegments, hempty])
    rw [write_of_concat hsegments hlast, h.place_eq]
    exact if_neg h.node?

theorem write_of_not_writable {p : FilePath} (h : ¬t.Writable p) (bytes : List UInt8) :
    ∃ fault, write p bytes t = .error fault t := by
  rcases List.eq_nil_or_concat p.segments with hnil | ⟨parts, last, hsegments⟩
  · exact absurd hnil p.segments_ne_nil
  · rw [List.concat_eq_append] at hsegments
    by_cases hlast : last = ""
    · exact write_of_separator (by simp [hsegments, hlast]) bytes t
    · rw [write_of_concat hsegments hlast]
      cases hplace : t.place p with
      | error fault => exact ⟨fault, rfl⟩
      | ok target =>
        obtain ⟨hcheck, hstops, hfits, rfl⟩ := place_eq_ok_iff.mp hplace
        by_cases hdirectory : t.node? (t.endOf p) = some .directory
        · exact ⟨_, if_pos hdirectory⟩
        · exact absurd ⟨hcheck, hstops, hfits, by simp [hsegments, hlast], hdirectory⟩ h

end ServiceCatalog.FileTree
