import ServiceCatalog.Proofs.Providers.Mapping
import ServiceCatalog.Proofs.Run.Manifest
import ServiceCatalog.Run.Basic

/-!
# What a run leaves behind

A run that can use the file system leaves nothing in its output directory but its own manifests, and nothing at all
where it was skipped or has no providers; a second run finds and leaves the same.  For this the directory must be
found, if there is anything in it: a path that leads back out of a missing directory is not found, and is found as
soon as the directory has been made.

* `run_eq`: the steps of a run.
* `clean_eq_ok_iff`: what a tree is when the output directory was emptied.
* `run_leaves_own_output`: the tree and the outcome behind a run, and behind a second one.
-/

namespace ServiceCatalog

open FileTree (Fits Grows check isBelow makeDirectories)
open FilePath (IsFileName way)

variable {root : FilePath} {t t' : FileTree}

/-- The result of an action with a given outcome and a given tree behind it. -/
def FileTree.withOutcome {α : Type} (t : FileTree) : Except RunError α → EStateM.Result RunError FileTree α
  | .ok a => .ok a t
  | .error e => .error e t

theorem run_eq (root : FilePath) (ds : Diagnostics) (providers : Except RunError ProviderMapping) (t : FileTree) :
    run root ds providers t =
      match Manifest.clean root t with
      | .error e t' => .error e t'
      | .ok _ t' =>
        if ds.hasErrors then .ok .skipped t'
        else
          match providers with
          | .error e => .error e t'
          | .ok m =>
            match Manifest.write root m t' with
            | .error e t'' => .error e t''
            | .ok paths t'' => .ok (.written paths) t'' := by
  simp only [run, bind, EStateM.bind]
  cases Manifest.clean root t with
  | error e t' => rfl
  | ok u t' =>
    by_cases hds : ds.hasErrors
    · simp only [if_pos hds]
      rfl
    · simp only [if_neg hds]
      cases providers with
      | error e => rfl
      | ok m =>
        simp only [EStateM.bind]
        cases Manifest.write root m t' <;> rfl

section

variable {ds : Diagnostics} {providers : Except RunError ProviderMapping} {t₁ : FileTree}

theorem run_of_errors (hclean : Manifest.clean root t = .ok () t') (hds : ds.hasErrors = true) :
    run root ds providers t = .ok .skipped t' := by
  simp only [run_eq, hclean, hds, if_true]

theorem run_of_failure {e : RunError} (hclean : Manifest.clean root t = .ok () t') (hds : ds.hasErrors = false) :
    run root ds (.error e) t = .error e t' := by
  simp only [run_eq, hclean, hds, Bool.false_eq_true, if_false]

theorem run_of_write {m : ProviderMapping} {paths : List FilePath} (hclean : Manifest.clean root t = .ok () t₁)
    (hds : ds.hasErrors = false) (hwrite : Manifest.write root m t₁ = .ok paths t') :
    run root ds (.ok m) t = .ok (.written paths) t' := by
  simp only [run_eq, hclean, hds, Bool.false_eq_true, if_false, hwrite]

end

namespace Manifest

theorem clean_eq_ok_iff :
    clean root t = .ok () t' ↔
      t.find root = .ok (t.endOf root, .directory) ∧ t' = t.clear (t.endOf root) ∨
        t.find root = .error .notFound ∧ t' = t := by
  have hfind : ∀ top, t.find root = .ok (top, .directory) → top = t.endOf root := fun top h =>
    (FileTree.find_eq_directory_iff.mp h).2.2.2
  simp only [clean, RunAction.writing, FileTree.clean_eq]
  cases hfound : t.find root with
  | error fault => cases fault <;> simp [eq_comm]
  | ok found =>
    obtain ⟨top, n⟩ := found
    cases n with
    | file bytes => simp
    | directory =>
      obtain rfl := hfind top hfound
      simp [eq_comm]

/-- Whether nothing is left at the place of the output directory unless it is found there. -/
def Findable (root : FilePath) (t : FileTree) : Prop :=
  t.find root = .error .notFound → ∀ q, isBelow (t.endOf root) q → t.node? q = none

/-- Emptying the output directory leaves nothing below it. -/
theorem node?_of_clean (hfindable : Findable root t) (hclean : clean root t = .ok () t') :
    (∀ q, isBelow (t.endOf root) q → t'.node? q = none) ∧ t'.workingDirectory = t.workingDirectory := by
  rcases clean_eq_ok_iff.mp hclean with ⟨-, rfl⟩ | ⟨hmissing, rfl⟩
  · exact ⟨fun q hq => by rw [FileTree.node?_clear, if_pos hq], rfl⟩
  · exact ⟨hfindable hmissing, rfl⟩

theorem check_of_directory (hroot : root.text ≠ "") (h : check (directory root) = .ok ()) : check root = .ok () := by
  obtain ⟨rest, hrest⟩ : ∃ rest, (directory root).text = root.text ++ rest := by
    rw [directory, FilePath.join, if_neg (by decide)]
    split
    · exact ⟨_, rfl⟩
    · exact ⟨_, String.append_assoc⟩
  obtain ⟨hzero, -, hsize⟩ := FileTree.check_eq_ok_iff.mp h
  rw [hrest, String.toList_append, List.mem_append, not_or] at hzero
  rw [hrest, String.utf8ByteSize_append] at hsize
  exact FileTree.check_eq_ok_iff.mpr ⟨hzero.1, hroot, by omega⟩

/-- Behind the emptying of the output directory there is nothing to empty, even if the directory is found no more. -/
theorem clean_again (hclean : clean root t = .ok () t') :
    ∃ t'', clean root t' = .ok () t'' ∧ ∀ q, t''.node? q = t'.node? q := by
  rcases clean_eq_ok_iff.mp hclean with ⟨hfound, rfl⟩ | ⟨hmissing, rfl⟩
  · have hnode := FileTree.node?_clear t (t.endOf root)
    obtain ⟨hcheck, hway, hfits, -⟩ := FileTree.find_eq_directory_iff.mp hfound
    have hway' : ∀ q ∈ way (t.start root) root.segments, (t.clear (t.endOf root)).node? q = some .directory ∨
        (t.clear (t.endOf root)).node? q = none := by
      intro q hq
      rw [hnode, hway q hq]
      split
      · exact .inr rfl
      · exact .inl rfl
    have hfound' := FileTree.find_eq_directory_or_notFound (t := t.clear (t.endOf root)) hcheck hway' hfits
    rcases hfound' with hfound' | hmissing
    · refine ⟨_, clean_eq_ok_iff.mpr (.inl ⟨hfound', rfl⟩), fun q => ?_⟩
      have hend : (t.clear (t.endOf root)).endOf root = t.endOf root := rfl
      rw [hend, FileTree.node?_clear, hnode]
      split <;> rfl
    · exact ⟨_, clean_eq_ok_iff.mpr (.inr ⟨hmissing, rfl⟩), fun _ => rfl⟩
  · exact ⟨t', hclean, fun _ => rfl⟩

/-- What there is in a tree `t₁` where the directory of the manifests was made in another one. -/
structure Made (root : FilePath) (t t₁ : FileTree) : Prop where
  check : check (directory root) = .ok ()
  fits : ∀ s ∈ (directory root).segments, Fits s
  start : t.node? (t.start root) = some .directory
  grows : Grows t t₁ (way (t.start root) (directory root).segments)
  way : ∀ q ∈ way (t.start root) (directory root).segments, t₁.node? q = some .directory

theorem made_of_makeDirectories (h : makeDirectories (directory root) t = .ok () t') : Made root t t' := by
  obtain ⟨front, -, hsegments, -⟩ := exists_segments_directory root
  have hlast : (directory root).segments = (front ++ [metaDirectory]) ++ ["services"] := by
    rw [hsegments, List.append_assoc]
    rfl
  have hempty := text_directory_ne_empty root
  have hgrows := FileTree.grows_makeDirectories hempty t
  rw [FileTree.after, h] at hgrows
  obtain ⟨hcheck, hstart, hfits, hway⟩ := FileTree.directories_of_makeDirectories hlast (by decide) hempty h
  rw [start_directory] at hgrows hstart hway
  exact ⟨hcheck, hfits, hstart, hgrows, hway⟩

/-- What there is where manifests were written: the directories, and behind them the manifests. -/
structure Written (root : FilePath) (m : ProviderMapping) (t t₁ t' : FileTree) : Prop extends Made root t t₁ where
  writable : ∀ e ∈ m.entries, t₁.Writable (path root e.1)
  eq_foldl_put : t' = m.entries.foldl (put root) t₁

theorem exists_written {m : ProviderMapping} {paths : List FilePath} (h : write root m t = .ok paths t') :
    paths = m.interfaces.map (path root) ∧ ∃ t₁, Written root m t t₁ t' := by
  obtain ⟨t₁, hmade, hwritable, hpaths, rfl⟩ := write_eq_ok_iff.mp h
  exact ⟨hpaths, t₁, made_of_makeDirectories hmade, hwritable, rfl⟩

namespace Written

variable {m : ProviderMapping} {t₁ : FileTree} {q : List String}

/-- The manifests stand in nobody's way. -/
theorem notMem_way (h : Written root m t t₁ t') {e : String × List String} (he : e ∈ m.entries) :
    t₁.endOf (path root e.1) ∉ FilePath.way (t.start root) (directory root).segments :=
  fun hmem => (h.writable e he).node? (h.way _ hmem)

theorem node?_of_mem_way (h : Written root m t t₁ t')
    (hq : q ∈ FilePath.way (t.start root) (directory root).segments) : t'.node? q = some .directory := by
  rw [h.eq_foldl_put, node?_foldl_put_of_ne fun e he heq => h.notMem_way he (heq ▸ hq)]
  exact h.way q hq

theorem workingDirectory (h : Written root m t t₁ t') : t'.workingDirectory = t.workingDirectory := by
  rw [h.eq_foldl_put, workingDirectory_foldl_put, h.grows.workingDirectory]

/-- A second run finds the output directory, unless its path is the empty one. -/
theorem clean (h : Written root m t t₁ t') :
    ∃ u, clean root t' = .ok () u ∧ (u = t' ∨ u = t'.clear (t.endOf root)) := by
  by_cases hroot : root.text = ""
  · have hmissing : t'.find root = .error .notFound := by
      rw [FileTree.find, FileTree.place, FileTree.check, hroot]
      rfl
    exact ⟨t', clean_eq_ok_iff.mpr (.inr ⟨hmissing, rfl⟩), .inl rfl⟩
  · have hfound : t'.find root = .ok (t'.endOf root, .directory) := by
      obtain ⟨front, hparts, hsegments, -⟩ := exists_segments_directory root
      refine FileTree.find_eq_directory_iff.mpr ⟨check_of_directory hroot h.check, fun q hq => ?_, ?_, rfl⟩
      · rw [FileTree.start_congr h.workingDirectory] at hq
        exact h.node?_of_mem_way (way_subset_directory _ root hq)
      · have hfront : ∀ s ∈ front, Fits s := fun s hs => h.fits s (by simp [hsegments, hs])
        have hnone : Fits "" := fun s hs => by cases hs
        rcases hparts with hparts | hparts
        · exact hparts ▸ hfront
        · rw [hparts]
          exact List.forall_mem_append.mpr ⟨hfront, List.forall_mem_singleton.mpr hnone⟩
    rw [FileTree.endOf_congr h.workingDirectory] at hfound
    refine ⟨_, clean_eq_ok_iff.mpr (.inl ⟨?_, rfl⟩), .inr ?_⟩
    · rw [FileTree.endOf_congr h.workingDirectory]
      exact hfound
    · rw [FileTree.endOf_congr h.workingDirectory]

/-- The directories that were made can be made again behind the emptying of the output directory. -/
theorem makeDirectories (h : Written root m t t₁ t') (hempty : ∀ q, isBelow (t.endOf root) q → t.node? q = none)
    {u : FileTree} (hu : u = t' ∨ u = t'.clear (t.endOf root)) :
    ∃ u₁, FileTree.makeDirectories (directory root) u = .ok () u₁ := by
  have hworking : u.workingDirectory = t.workingDirectory := by
    rcases hu with rfl | rfl
    · exact h.workingDirectory
    · exact h.workingDirectory
  rw [FileTree.makeDirectories_eq (text_directory_ne_empty root), h.check, FileTree.start_congr hworking,
    start_directory]
  have hfits : ∀ s ∈ (directory root).segments.reverse, Fits s := fun s hs => h.fits s (List.mem_reverse.mp hs)
  rcases hu with rfl | rfl
  · refine ⟨u, FileTree.ensureDirectories_of_directories (fun q hq => ?_) hfits⟩
    rw [List.reverse_reverse] at hq
    exact h.node?_of_mem_way hq
  · have hout : ¬isBelow (t.endOf root) (t.start root) := by
      intro hbelow
      cases h.start.symm.trans (hempty _ hbelow)
    have hcleared : ∀ q, isBelow (t.endOf root) q → (t'.clear (t.endOf root)).node? q = none := fun q hq => by
      rw [FileTree.node?_clear, if_pos hq]
    refine FileTree.exists_ensureDirectories hout hcleared (fun q hq => ?_) hfits
    rw [List.reverse_reverse] at hq
    rw [FileTree.node?_clear]
    by_cases hbelow : isBelow (t.endOf root) q
    · exact .inr hbelow
    · rw [if_neg hbelow]
      exact .inl (h.node?_of_mem_way hq)

/-- Behind a second run there is what was there behind the first one. -/
theorem again (h : Written root m t t₁ t') (hempty : ∀ q, isBelow (t.endOf root) q → t.node? q = none)
    (hkeys : m.entries.Pairwise fun e e' => e.1 ≠ e'.1) (hnames : ∀ e ∈ m.entries, IsFileName e.1) :
    ∃ u u', Manifest.clean root t' = .ok () u ∧ write root m u = .ok (m.interfaces.map (path root)) u' ∧
      ∀ q, u'.node? q = t'.node? q := by
  obtain ⟨u, hclean, hu⟩ := h.clean
  obtain ⟨u₁, hmakes⟩ := h.makeDirectories hempty hu
  have hmade := made_of_makeDirectories hmakes
  have hworking : u.workingDirectory = t.workingDirectory := by
    rcases hu with rfl | rfl
    · exact h.workingDirectory
    · exact h.workingDirectory
  have hworking₁ : u₁.workingDirectory = t₁.workingDirectory := by
    rw [hmade.grows.workingDirectory, hworking, h.grows.workingDirectory]
  have hstart : u.start root = t.start root := FileTree.start_congr hworking root
  have hend : ∀ p, u₁.endOf p = t₁.endOf p := FileTree.endOf_congr hworking₁
  have hway := hmade.way
  have hgrows := hmade.grows.node?
  rw [hstart] at hway
  rw [hstart] at hgrows
  -- the places of the manifests are those of the first run, and they are free or hold the first manifests
  have hfile : ∀ e ∈ m.entries, t'.node? (t₁.endOf (path root e.1)) = some (.file (utf8Bytes (text e.2))) :=
    fun e he => h.eq_foldl_put ▸ node?_foldl_put_of_mem hkeys hnames he
  have hwritable : ∀ e ∈ m.entries, u₁.Writable (path root e.1) := by
    intro e he
    have hfirst := h.writable e he
    refine ⟨hfirst.check, fun q hq => ?_, hfirst.fits, hfirst.getLast?, ?_⟩
    · rw [segments_path (hnames e he), FilePath.stops_concat, start_path (hnames e he),
        FileTree.start_congr hmade.grows.workingDirectory, hstart] at hq
      exact hway q hq
    · rw [hend]
      rcases hgrows (t₁.endOf (path root e.1)) with hsame | ⟨hmem, -⟩
      · rw [hsame]
        rcases hu with rfl | rfl
        · simp [hfile e he]
        · rw [FileTree.node?_clear, hfile e he]
          split <;> simp
      · exact absurd hmem (h.notMem_way he)
  refine ⟨u, _, hclean, write_of_made hmakes hwritable, fun q => ?_⟩
  by_cases hq : ∃ e ∈ m.entries, q = t₁.endOf (path root e.1)
  · obtain ⟨e, he, rfl⟩ := hq
    have hagain : (m.entries.foldl (put root) u₁).node? (u₁.endOf (path root e.1)) = _ :=
      node?_foldl_put_of_mem hkeys hnames he
    rw [hend] at hagain
    rw [hfile e he, hagain]
  · have hother : ∀ e ∈ m.entries, q ≠ t₁.endOf (path root e.1) := fun e he heq => hq ⟨e, he, heq⟩
    rw [node?_foldl_put_of_ne fun e he => hend _ ▸ hother e he]
    by_cases hmem : q ∈ FilePath.way (t.start root) (directory root).segments
    · rw [hway q hmem, h.node?_of_mem_way hmem]
    · rw [(hgrows q).resolve_right fun hnew => hmem hnew.1]
      rcases hu with rfl | rfl
      · rfl
      · rw [FileTree.node?_clear]
        split
        · next hbelow =>
          have hold := (h.grows.node? q).resolve_right fun hnew => hmem hnew.1
          rw [h.eq_foldl_put, node?_foldl_put_of_ne hother, hold, hempty q hbelow]
        · rfl

end Written

/-- Whether the files below a place are the manifests of pairs of an interface and a provider: one for each
interface, with a line for each of its providers in ascending order. -/
def AreFilesBelow (t : FileTree) (top : List String) (pairs : List (String × String)) : Prop :=
  ∀ names bytes, names ≠ [] →
    (t.node? (top ++ names) = some (.file bytes) ↔
      ∃ interface providers, names = servicesNames ++ [interface] ∧ bytes = utf8Bytes (text providers) ∧
        providers ≠ [] ∧ providers.Pairwise (· < ·) ∧ ∀ p, p ∈ providers ↔ (interface, p) ∈ pairs)

theorem Written.areFilesBelow {m : ProviderMapping} {t₁ : FileTree} (h : Written root m t t₁ t')
    (hempty : ∀ q, isBelow (t.endOf root) q → t.node? q = none) (hm : m.Ordered)
    (hnames : ∀ e ∈ m.entries, IsFileName e.1) : AreFilesBelow t' (t.endOf root) m.pairs := by
  have hend : ∀ e ∈ m.entries, t₁.endOf (path root e.1) = t.endOf root ++ (servicesNames ++ [e.1]) := by
    intro e he
    rw [FileTree.endOf_congr h.grows.workingDirectory, endOf_path (hnames e he), List.append_assoc]
  have hpairs : ∀ e ∈ m.entries, ∀ p, p ∈ e.2 ↔ (e.1, p) ∈ m.pairs := by
    intro e he p
    rw [ProviderMapping.mem_pairs]
    constructor
    · intro hp
      exact ⟨e, he, rfl, hp⟩
    · rintro ⟨e', he', heq, hp⟩
      exact hm.eq_of_fst_eq he' he heq ▸ hp
  intro names bytes hne
  constructor
  · intro hfile
    rw [h.eq_foldl_put] at hfile
    rcases file_of_foldl_put hfile with hold | ⟨e, he, hplace, hbytes⟩
    · have hbelow : isBelow (t.endOf root) (t.endOf root ++ names) := FileTree.isBelow_iff.mpr ⟨names, hne, rfl⟩
      rcases h.grows.node? (t.endOf root ++ names) with hsame | ⟨-, -, hdirectory⟩
      · rw [hsame, hempty _ hbelow] at hold
        cases hold
      · cases hold.symm.trans hdirectory
    · rw [hend e he] at hplace
      exact ⟨e.1, e.2, List.append_cancel_left hplace, hbytes, hm.providers_ne_nil e he, hm.providers_lt e he,
        hpairs e he⟩
  · rintro ⟨interface, providers, rfl, rfl, hne', hsorted, hproviders⟩
    obtain ⟨p, hp⟩ := List.exists_mem_of_ne_nil _ hne'
    obtain ⟨e, he, rfl, -⟩ := ProviderMapping.mem_pairs.mp ((hproviders p).mp hp)
    have hsame : providers = e.2 :=
      hsorted.eq_of_mem_iff (hm.providers_lt e he) fun q => (hproviders q).trans (hpairs e he q).symm
    rw [hsame, ← hend e he, h.eq_foldl_put]
    exact node?_foldl_put_of_mem (hm.interfaces_lt.imp ne_of_lt) hnames he

end Manifest

/-- A run that can use the file system leaves in its output directory the manifests of its providers and no other
file, or nothing at all, and a second run has the same outcome and leaves the same. -/
theorem run_leaves_own_output (root : FilePath) (ds : Diagnostics) (result : Except RunError (List (String × String)))
    (t : FileTree) (hnames : ∀ pairs, result = .ok pairs → ∀ x ∈ pairs, IsFileName x.1)
    (hfindable : Manifest.Findable root t) (hclean : ∃ t₁, Manifest.clean root t = .ok () t₁)
    (hwrite : ∀ t₁ pairs, Manifest.clean root t = .ok () t₁ → ds.hasErrors = false → result = .ok pairs →
      ∃ paths t₂, Manifest.write root (.ofPairs pairs) t₁ = .ok paths t₂) :
    let top := t.endOf root
    ∃ outcome t', run root ds (result.map .ofPairs) t = t'.withOutcome outcome ∧
      ((∃ d ∈ ds.entries, d.severity = .error) →
        outcome = .ok .skipped ∧ ∀ q, isBelow top q → t'.node? q = none) ∧
      ((∀ d ∈ ds.entries, d.severity ≠ .error) → ∀ e, result = .error e →
        outcome = .error e ∧ ∀ q, isBelow top q → t'.node? q = none) ∧
      ((∀ d ∈ ds.entries, d.severity ≠ .error) → ∀ pairs, result = .ok pairs →
        (∃ interfaces : List String, outcome = .ok (.written (interfaces.map (Manifest.path root))) ∧
          interfaces.Pairwise (· < ·) ∧ (∀ i, i ∈ interfaces ↔ ∃ p, (i, p) ∈ pairs) ∧
          ∀ i ∈ interfaces, t'.endOf (Manifest.path root i) = top ++ (Manifest.servicesNames ++ [i])) ∧
        Manifest.AreFilesBelow t' top pairs) ∧
      ∃ t'' : FileTree, run root ds (result.map .ofPairs) t' = t''.withOutcome outcome ∧
        ∀ q, t''.node? q = t'.node? q := by
  intro top
  obtain ⟨t₁, hclean⟩ := hclean
  obtain ⟨hempty, hworking⟩ := Manifest.node?_of_clean hfindable hclean
  obtain ⟨t₂, hclean₂, hsame⟩ := Manifest.clean_again hclean
  by_cases herrors : ∃ d ∈ ds.entries, d.severity = .error
  · have hds : ds.hasErrors = true := by simpa [Diagnostics.hasErrors] using herrors
    have hno : ¬∀ d ∈ ds.entries, d.severity ≠ .error := fun hno => by
      obtain ⟨d, hd, hseverity⟩ := herrors
      exact hno d hd hseverity
    exact ⟨.ok .skipped, t₁, run_of_errors hclean hds, fun _ => ⟨rfl, hempty⟩, fun h => absurd h hno,
      fun h => absurd h hno, t₂, run_of_errors hclean₂ hds, hsame⟩
  · have hds : ds.hasErrors = false := by simpa [Diagnostics.hasErrors] using herrors
    cases result with
    | error e =>
      refine ⟨.error e, t₁, run_of_failure hclean hds, fun h => absurd h herrors, fun _ e' he' => ?_,
        (fun _ _ h => by cases h), t₂, run_of_failure hclean₂ hds, hsame⟩
      exact ⟨congrArg Except.error (Except.error.inj he'), hempty⟩
    | ok pairs =>
      obtain ⟨paths, t', hwrite⟩ := hwrite t₁ pairs hclean hds rfl
      obtain ⟨rfl, t₂, hwritten⟩ := Manifest.exists_written hwrite
      have hm := ProviderMapping.ordered_ofPairs pairs
      have hinterfaces : ∀ i, i ∈ (ProviderMapping.ofPairs pairs).interfaces ↔ ∃ p, (i, p) ∈ pairs := by
        intro i
        rw [hm.mem_interfaces_iff]
        exact exists_congr fun p => ProviderMapping.mem_pairs_ofPairs
      have hnames : ∀ e ∈ (ProviderMapping.ofPairs pairs).entries, IsFileName e.1 := by
        intro e he
        obtain ⟨p, hp⟩ := (hinterfaces e.1).mp (List.mem_map_of_mem he)
        exact hnames pairs rfl _ hp
      have hend : t₁.endOf root = t.endOf root := FileTree.endOf_congr hworking root
      rw [← hend] at hempty
      have hfiles := hwritten.areFilesBelow hempty hm hnames
      obtain ⟨u, u', hagain, hwrite', hsame⟩ :=
        hwritten.again hempty (hm.interfaces_lt.imp ne_of_lt) hnames
      refine ⟨.ok (.written _), t', run_of_write hclean hds hwrite, fun h => absurd h herrors,
        (fun _ _ h => by cases h), ?_, u', run_of_write hagain hds hwrite', hsame⟩
      intro _ pairs' hpairs
      obtain rfl := Except.ok.inj hpairs
      rw [hend] at hfiles
      refine ⟨⟨_, rfl, List.pairwise_map.mpr hm.interfaces_lt, hinterfaces, fun i hi => ?_⟩, fun names bytes hne => ?_⟩
      · obtain ⟨e, he, rfl⟩ := List.mem_map.mp hi
        rw [FileTree.endOf_congr hwritten.workingDirectory, Manifest.endOf_path (hnames e he), hend, List.append_assoc]
      · rw [hfiles names bytes hne]
        simp only [ProviderMapping.mem_pairs_ofPairs]

/-! ### Stale manifests -/

namespace StaleOutput

/-- Two providers of an interface, one of them given twice. -/
def pairs : List (String × String) := [("p.S", "p.B"), ("p.S", "p.A"), ("p.S", "p.B")]

theorem ofPairs_pairs : ProviderMapping.ofPairs pairs = ⟨[("p.S", ["p.A", "p.B"])]⟩ := by decide

theorem isFileName_of_mem_pairs : ∀ x ∈ pairs, IsFileName x.1 := by
  have hname : IsFileName "p.S" := ⟨by decide, by decide, by decide, by decide⟩
  simp [pairs, hname]

/-- The manifest of the interface can be written where its directory and nothing else is. -/
theorem writable_of_check {root : FilePath} {t : FileTree} (hcheck : check (Manifest.path root "p.S") = .ok ())
    (hstops : ∀ q ∈ FilePath.stops (t.start (Manifest.path root "p.S")) (Manifest.path root "p.S").segments,
      t.node? q = some .directory)
    (hfits : ∀ s ∈ (Manifest.path root "p.S").segments, s.utf8ByteSize ≤ FileTree.maxName)
    (hlast : (Manifest.path root "p.S").segments.getLast? ≠ some "")
    (hnode : t.node? (t.endOf (Manifest.path root "p.S")) ≠ some .directory) :
    ∀ e ∈ (ProviderMapping.ofPairs pairs).entries, t.Writable (Manifest.path root e.1) := by
  rw [ofPairs_pairs]
  exact List.forall_mem_singleton.mpr
    ⟨hcheck, hstops, fun s hs => FileTree.fits_of_size (hfits s hs), hlast, hnode⟩

/-- An output directory with an old manifest and another file. -/
def tree : FileTree where
  workingDirectory := []
  entries := [(["out"], .directory), (["out", "notes"], .file [120]), (["out", "META-INF"], .directory),
    (["out", "META-INF", "services"], .directory), (["out", "META-INF", "services", "p.Old"], .file [112, 10])]

/-- Only the directory is left of it. -/
def cleaned : FileTree := ⟨[], [(["out"], .directory)]⟩

/-- The directory with that of the manifests in it. -/
def made : FileTree where
  workingDirectory := []
  entries := [(["out"], .directory), (["out", "META-INF"], .directory), (["out", "META-INF", "services"], .directory)]

theorem clean_tree : Manifest.clean ⟨"out"⟩ tree = .ok () cleaned := rfl

theorem write_cleaned : ∃ paths t', Manifest.write ⟨"out"⟩ (.ofPairs pairs) cleaned = .ok paths t' := by
  have hmade : makeDirectories (Manifest.directory ⟨"out"⟩) cleaned = .ok () made := rfl
  exact ⟨_, _, Manifest.write_of_made hmade
    (writable_of_check (by decide) (by decide) (by decide) (by decide) (by decide))⟩

/-- The old manifest and the other file are gone behind a run. -/
theorem stale_manifest_goes :
    (∀ x ∈ pairs, IsFileName x.1) ∧ Manifest.Findable ⟨"out"⟩ tree ∧
      ∃ paths t', run ⟨"out"⟩ .empty (.ok (.ofPairs pairs)) tree = .ok (.written paths) t' ∧
        Manifest.AreFilesBelow t' ["out"] pairs := by
  have hfindable : Manifest.Findable ⟨"out"⟩ tree := fun h => by cases h
  obtain ⟨outcome, t', hrun, -, -, hwritten, -⟩ := run_leaves_own_output ⟨"out"⟩ .empty (.ok pairs) tree
    (fun _ h => Except.ok.inj h ▸ isFileName_of_mem_pairs) hfindable ⟨cleaned, clean_tree⟩ (by
      intro t₁ _ hclean _ hpairs
      obtain rfl := (EStateM.Result.ok.inj (clean_tree.symm.trans hclean)).2
      exact Except.ok.inj hpairs ▸ write_cleaned)
  obtain ⟨⟨interfaces, rfl, -⟩, hfiles⟩ := hwritten (fun _ hd => absurd hd List.not_mem_nil) pairs rfl
  exact ⟨isFileName_of_mem_pairs, hfindable, _, t', hrun, hfiles⟩

/-- A directory with an old manifest. -/
def outside : FileTree where
  workingDirectory := []
  entries := [(["b"], .directory), (["b", "META-INF"], .directory), (["b", "META-INF", "services"], .directory),
    (["b", "META-INF", "services", "p.Old"], .file [112, 10])]

/-- A path that leads back to a directory out of a missing one is not found before a run, so what is in the directory
is there still when the run has made the way to it. -/
theorem not_forall_own_output :
    ¬ ∀ (root : FilePath) (pairs : List (String × String)) (t : FileTree), (∀ x ∈ pairs, IsFileName x.1) →
      (∃ t₁, Manifest.clean root t = .ok () t₁) →
      (∀ t₁, Manifest.clean root t = .ok () t₁ → ∃ paths t₂, Manifest.write root (.ofPairs pairs) t₁ = .ok paths t₂) →
      ∀ paths t', run root .empty (.ok (.ofPairs pairs)) t = .ok (.written paths) t' →
        ∀ top, t'.find root = .ok (top, .directory) → Manifest.AreFilesBelow t' top pairs := by
  intro h
  have hclean : Manifest.clean ⟨"b/x/.."⟩ outside = .ok () outside := rfl
  have hmade : makeDirectories (Manifest.directory ⟨"b/x/.."⟩) outside = .ok () (outside.put ["b", "x"] .directory) :=
    rfl
  have hwrite := Manifest.write_of_made hmade
    (writable_of_check (by decide) (by decide) (by decide) (by decide) (by decide))
  have hnoErrors : Diagnostics.empty.hasErrors = false := rfl
  have hrun := run_of_write hclean hnoErrors hwrite
  have hfiles := h ⟨"b/x/.."⟩ pairs outside isFileName_of_mem_pairs ⟨_, hclean⟩ (fun t₁ ht₁ => by
    obtain rfl := (EStateM.Result.ok.inj (hclean.symm.trans ht₁)).2
    exact ⟨_, _, hwrite⟩) _ _ hrun ["b"] (by rw [ofPairs_pairs]; rfl)
  obtain ⟨interface, providers, hinterface, -, hne, -, hproviders⟩ :=
    (hfiles ["META-INF", "services", "p.Old"] [112, 10] (by decide)).mp (by rw [ofPairs_pairs]; rfl)
  obtain ⟨p, hp⟩ := List.exists_mem_of_ne_nil providers hne
  have hmem := (hproviders p).mp hp
  simp [Manifest.servicesNames] at hinterface
  simp [pairs, ← hinterface] at hmem

end StaleOutput

end ServiceCatalog
