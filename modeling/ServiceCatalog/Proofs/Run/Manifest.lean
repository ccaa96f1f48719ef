import ServiceCatalog.Proofs.Files.Tree
import ServiceCatalog.Run.Manifest

/-!
# Manifests in a file tree

Where the manifests of a mapping come to stand, and what else a tree shows behind them.

* `endOf_path`: the place of the manifest of an interface, in the directory of services below the output directory.
* `write_eq_ok_iff`: the manifests can be written exactly if their directory can be made and all their places are
  free for files, and then each of them is put at its place.
-/

namespace ServiceCatalog.Manifest

open FileTree (Fits Grows Writable check endOf makeDirectories)
open FilePath (IsFileName follow way)

variable {root : FilePath} {t t' : FileTree}

/-! ## Places of manifests -/

/-- The names that lead from the output directory to that of the manifests. -/
def servicesNames : List String := [metaDirectory, "services"]

theorem segments_servicesDirectory : FilePath.segments ⟨servicesDirectory⟩ = servicesNames := by decide

theorem foldl_follow_servicesNames (place : List String) :
    servicesNames.foldl follow place = place ++ servicesNames := by
  have hfirst : IsFileName metaDirectory := ⟨by decide, by decide, by decide, by decide⟩
  have hsecond : IsFileName "services" := ⟨by decide, by decide, by decide, by decide⟩
  rw [servicesNames, List.foldl_cons, List.foldl_cons, hfirst.follow, hsecond.follow, List.append_assoc]
  rfl

theorem text_directory_ne_empty (root : FilePath) : (directory root).text ≠ "" := by
  rw [directory, FilePath.join, if_neg (by decide)]
  split <;> simp [servicesDirectory, metaDirectory]

/-- The path of the directory of the manifests continues that of the output directory. -/
theorem exists_segments_directory (root : FilePath) :
    ∃ front, (root.segments = front ∨ root.segments = front ++ [""]) ∧
      (directory root).segments = front ++ servicesNames ∧ (directory root).isAbsolute = root.isAbsolute := by
  rw [← segments_servicesDirectory]
  exact root.segments_join (by decide)

theorem start_directory (t : FileTree) (root : FilePath) : t.start (directory root) = t.start root := by
  obtain ⟨_, -, -, habsolute⟩ := exists_segments_directory root
  rw [FileTree.start, FileTree.start, habsolute]

theorem endOf_directory (t : FileTree) (root : FilePath) :
    t.endOf (directory root) = t.endOf root ++ servicesNames := by
  obtain ⟨front, hroot, hsegments, -⟩ := exists_segments_directory root
  have hend : root.segments.foldl follow (t.start root) = front.foldl follow (t.start root) := by
    rcases hroot with hroot | hroot
    · rw [hroot]
    · rw [hroot, List.foldl_append]
      rfl
  rw [endOf, endOf, start_directory, hsegments, List.foldl_append, hend, foldl_follow_servicesNames]

/-- The way to the output directory is on that to the directory of the manifests. -/
theorem way_subset_directory (start : List String) (root : FilePath) :
    way start root.segments ⊆ way start (directory root).segments := by
  obtain ⟨front, hroot, hsegments, -⟩ := exists_segments_directory root
  have hfront : way start root.segments ⊆ way start front := by
    rcases hroot with hroot | hroot
    · rw [hroot]
      exact List.Subset.refl _
    · rw [hroot, FilePath.way_concat, List.foldl_concat]
      have hend : follow (front.foldl follow start) "" ∈ way start front := FilePath.end_mem_way start front
      exact List.append_subset.mpr ⟨List.Subset.refl _, List.cons_subset.mpr ⟨hend, List.nil_subset _⟩⟩
  rw [hsegments]
  exact List.Subset.trans hfront (FilePath.way_subset_append ..)

/-- The path of a manifest continues that of the directory by the parts of the name, unless the name is a path by
itself. -/
theorem segments_path_of_relative {interface : String} (h : interface.toList.head? ≠ some '/') (root : FilePath) :
    (path root interface).segments = (directory root).segments ++ FilePath.segments ⟨interface⟩ ∧
      (path root interface).isAbsolute = (directory root).isAbsolute := by
  obtain ⟨front, -, hsegments, -⟩ := exists_segments_directory root
  obtain ⟨front', hdirectory, hpath, habsolute⟩ := (directory root).segments_join h
  refine ⟨?_, habsolute⟩
  rcases hdirectory with hdirectory | hdirectory
  · rw [path, hpath, hdirectory]
  · -- the path of the directory does not end in a separator
    have hlast := congrArg List.getLast? (hsegments.symm.trans hdirectory)
    simp [servicesNames] at hlast

section

variable {interface : String} (hname : IsFileName interface)

include hname

theorem segments_path (root : FilePath) :
    (path root interface).segments = (directory root).segments ++ [interface] := by
  rw [(segments_path_of_relative (fun h => hname.notMem (List.mem_of_mem_head? h)) root).1, hname.segments]

theorem start_path (t : FileTree) (root : FilePath) : t.start (path root interface) = t.start root := by
  obtain ⟨-, habsolute⟩ := segments_path_of_relative (fun h => hname.notMem (List.mem_of_mem_head? h)) root
  rw [← start_directory t root, FileTree.start, FileTree.start, habsolute]

theorem endOf_path (t : FileTree) (root : FilePath) :
    t.endOf (path root interface) = t.endOf root ++ servicesNames ++ [interface] := by
  rw [endOf, start_path hname, segments_path hname, List.foldl_concat, hname.follow, ← start_directory, ← endOf,
    endOf_directory]

end

/-! ## Writing manifests -/

/-- The tree with the manifest of an entry of a mapping. -/
def put (root : FilePath) (t : FileTree) (e : String × List String) : FileTree :=
  t.put (t.endOf (path root e.1)) (.file (utf8Bytes (text e.2)))

theorem writeOne_of_writable {e : String × List String} (h : t.Writable (path root e.1)) :
    writeOne root e t = .ok (path root e.1) (put root t e) := by
  have hwrite := FileTree.write_of_writable h (utf8Bytes (text e.2))
  simp only [writeOne, bind, EStateM.bind, RunAction.writing, hwrite]
  rfl

theorem writeOne_of_not_writable {e : String × List String} (h : ¬t.Writable (path root e.1)) :
    ∃ fault, writeOne root e t = .error (.output (path root e.1) fault) t := by
  obtain ⟨fault, hwrite⟩ := FileTree.write_of_not_writable h (utf8Bytes (text e.2))
  refine ⟨fault, ?_⟩
  simp only [writeOne, bind, EStateM.bind, RunAction.writing, hwrite]

theorem mapM_writeOne_of_writable {entries : List (String × List String)}
    (h : ∀ e ∈ entries, t.Writable (path root e.1)) :
    entries.mapM (writeOne root) t = .ok (entries.map fun e => path root e.1) (entries.foldl (put root) t) := by
  induction entries generalizing t with
  | nil => rfl
  | cons e entries ih =>
    obtain ⟨hfirst, hrest⟩ := List.forall_mem_cons.mp h
    have hrest := ih (t := put root t e) fun e' he' => (hfirst.put_iff _).mpr (hrest e' he')
    rw [List.mapM_cons]
    simp only [bind, EStateM.bind, writeOne_of_writable hfirst, hrest]
    rfl

/-- Whatever comes of it, the manifests of the first entries are written. -/
theorem mapM_writeOne_cases (root : FilePath) (entries : List (String × List String)) (t : FileTree) :
    (∀ e ∈ entries, t.Writable (path root e.1)) ∨
      ∃ written p fault, written <+: entries ∧
        entries.mapM (writeOne root) t = .error (.output p fault) (written.foldl (put root) t) := by
  induction entries generalizing t with
  | nil => exact .inl (by simp)
  | cons e entries ih =>
    rw [List.mapM_cons]
    by_cases hfirst : t.Writable (path root e.1)
    · rcases ih (put root t e) with hrest | ⟨written, p, fault, hfront, hresult⟩
      · exact .inl (List.forall_mem_cons.mpr ⟨hfirst, fun e' he' => (hfirst.put_iff _).mp (hrest e' he')⟩)
      · refine .inr ⟨e :: written, p, fault, List.cons_prefix_cons.mpr ⟨rfl, hfront⟩, ?_⟩
        simp only [bind, EStateM.bind, writeOne_of_writable hfirst, hresult]
        rfl
    · obtain ⟨fault, hresult⟩ := writeOne_of_not_writable hfirst
      refine .inr ⟨[], path root e.1, fault, List.nil_prefix, ?_⟩
      simp only [bind, EStateM.bind, hresult]
      rfl

theorem write_of_made {m : ProviderMapping} (hmade : makeDirectories (directory root) t = .ok () t')
    (hwritable : ∀ e ∈ m.entries, t'.Writable (path root e.1)) :
    write root m t = .ok (m.interfaces.map (path root)) (m.entries.foldl (put root) t') := by
  simp only [write, bind, EStateM.bind, RunAction.writing, hmade, mapM_writeOne_of_writable hwritable]
  rw [ProviderMapping.interfaces, List.map_map]
  rfl

/-- Manifests are written exactly if their directory can be made and there is nothing in their way. -/
theorem write_eq_ok_iff {m : ProviderMapping} {paths : List FilePath} :
    write root m t = .ok paths t' ↔
      ∃ t₁, makeDirectories (directory root) t = .ok () t₁ ∧ (∀ e ∈ m.entries, t₁.Writable (path root e.1)) ∧
        paths = m.interfaces.map (path root) ∧ t' = m.entries.foldl (put root) t₁ := by
  constructor
  · intro h
    cases hmade : makeDirectories (directory root) t with
    | error fault t₁ =>
      simp only [write, bind, EStateM.bind, RunAction.writing, hmade] at h
      cases h
    | ok u t₁ =>
      rcases mapM_writeOne_cases root m.entries t₁ with hwritable | ⟨_, _, _, -, hresult⟩
      · rw [write_of_made hmade hwritable] at h
        obtain ⟨rfl, rfl⟩ := EStateM.Result.ok.inj h
        exact ⟨t₁, rfl, hwritable, rfl, rfl⟩
      · simp only [write, bind, EStateM.bind, RunAction.writing, hmade, hresult] at h
        cases h
  · rintro ⟨t₁, hmade, hwritable, rfl, rfl⟩
    exact write_of_made hmade hwritable

/-- Whatever comes of it, writing manifests makes directories and writes the first manifests. -/
theorem exists_after_write (root : FilePath) (m : ProviderMapping) (t : FileTree) :
    ∃ t₁ written, Grows t t₁ (way (t.start root) (directory root).segments) ∧ written <+: m.entries ∧
      t.after (write root m) = written.foldl (put root) t₁ := by
  have hgrows := FileTree.grows_makeDirectories (text_directory_ne_empty root) t
  rw [start_directory] at hgrows
  cases hmade : makeDirectories (directory root) t with
  | error fault t₁ =>
    rw [FileTree.after, hmade] at hgrows
    refine ⟨t₁, [], hgrows, List.nil_prefix, ?_⟩
    simp only [FileTree.after, write, bind, EStateM.bind, RunAction.writing, hmade]
    rfl
  | ok u t₁ =>
    rw [FileTree.after, hmade] at hgrows
    rcases mapM_writeOne_cases root m.entries t₁ with hwritable | ⟨written, p, fault, hfront, hresult⟩
    · exact ⟨t₁, m.entries, hgrows, List.prefix_refl _, by rw [FileTree.after, write_of_made hmade hwritable]⟩
    · refine ⟨t₁, written, hgrows, hfront, ?_⟩
      simp only [FileTree.after, write, bind, EStateM.bind, RunAction.writing, hmade, hresult]

/-! ## The tree behind it -/

variable {entries : List (String × List String)} {q : List String}

theorem workingDirectory_foldl_put (root : FilePath) (entries : List (String × List String)) (t : FileTree) :
    (entries.foldl (put root) t).workingDirectory = t.workingDirectory := by
  induction entries generalizing t with
  | nil => rfl
  | cons e entries ih => exact ih _

theorem node?_foldl_put_of_ne (h : ∀ e ∈ entries, q ≠ t.endOf (path root e.1)) :
    (entries.foldl (put root) t).node? q = t.node? q := by
  induction entries generalizing t with
  | nil => rfl
  | cons e entries ih =>
    obtain ⟨hfirst, hrest⟩ := List.forall_mem_cons.mp h
    exact (ih (t := put root t e) hrest).trans (FileTree.node?_put_of_ne t hfirst _)

/-- A file behind the writing of manifests was there before, or is one of them. -/
theorem file_of_foldl_put {bytes : List UInt8} (h : (entries.foldl (put root) t).node? q = some (.file bytes)) :
    t.node? q = some (.file bytes) ∨
      ∃ e ∈ entries, q = t.endOf (path root e.1) ∧ bytes = utf8Bytes (text e.2) := by
  induction entries generalizing t with
  | nil => exact .inl h
  | cons e entries ih =>
    rcases ih h with hold | ⟨e', he', hq, hbytes⟩
    · by_cases hq : q = t.endOf (path root e.1)
      · have hnil : q ≠ [] := by
          rintro rfl
          exact absurd hold (by simp)
        have hnode := FileTree.node?_put t (hq ▸ hnil) (.file (utf8Bytes (text e.2))) q
        rw [if_pos hq] at hnode
        have hfile := Option.some.inj (hold.symm.trans hnode)
        exact .inr ⟨e, List.mem_cons_self .., hq, FileNode.file.inj hfile⟩
      · exact .inl ((FileTree.node?_put_of_ne t hq _).symm.trans hold)
    · exact .inr ⟨e', List.mem_cons_of_mem _ he', hq, hbytes⟩

/-- Manifests of different interfaces stand side by side. -/
theorem node?_foldl_put_of_mem (hkeys : entries.Pairwise fun e e' => e.1 ≠ e'.1)
    (hnames : ∀ e ∈ entries, IsFileName e.1) {e : String × List String} (he : e ∈ entries) :
    (entries.foldl (put root) t).node? (t.endOf (path root e.1)) = some (.file (utf8Bytes (text e.2))) := by
  induction entries generalizing t with
  | nil => exact absurd he List.not_mem_nil
  | cons e' entries ih =>
    obtain ⟨hfirst, hkeys⟩ := List.pairwise_cons.mp hkeys
    obtain ⟨hname, hrest⟩ := List.forall_mem_cons.mp hnames
    rcases List.mem_cons.mp he with rfl | he
    · have hne : ∀ e' ∈ entries, t.endOf (path root e.1) ≠ t.endOf (path root e'.1) := by
        intro e' he' heq
        rw [endOf_path hname, endOf_path (hrest e' he')] at heq
        exact hfirst e' he' (by simpa using heq)
      have hnil : t.endOf (path root e.1) ≠ [] := by
        rw [endOf_path hname]
        simp
      refine (node?_foldl_put_of_ne (t := put root t e) hne).trans ?_
      rw [put, FileTree.node?_put t hnil, if_pos rfl]
    · exact ih (t := put root t e') hkeys hrest he

end ServiceCatalog.Manifest
