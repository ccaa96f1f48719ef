import ServiceCatalog.Proofs.Name.Written
import ServiceCatalog.Proofs.Providers.Kinds
import ServiceCatalog.Proofs.Run.Manifest

/-!
# Where manifests can be written

The name of an interface is a part of the path of its manifest, so the manifest stands in the directory of the
manifests as long as the name, read as a path, is a single step.  Names are joined from the segments of classes.  Those
that come from class files were cut at every slash.  Those that come from sources may be any text between backticks.

* `FilePath.IsChildOf`: the entries of a directory, by their paths.
* `Manifest.isChildOf_path_iff`: when the path of a manifest is one.
* `Manifest.components_of_writeOne`: what is written for a name without slashes is the entry of that name.
* `ClassName.notMem_of_ofInternal?`: the classes in class files have such names.
* `Manifest.manifests_confined`: the paths that are written for the two kinds of inputs.
-/

namespace ServiceCatalog

open FileTree (makeDirectories)
open FilePath (IsFileName component? follow way)

/-- Whether a path is that of an entry of a directory. -/
def FilePath.IsChildOf (p directory : FilePath) : Prop :=
  ∃ name, p.components = directory.components ++ [.name name]

namespace Manifest

variable {root : FilePath} {t t' : FileTree}

/-! ## Paths of manifests -/

theorem components_path_of_relative {interface : String} (h : interface.toList.head? ≠ some '/') (root : FilePath) :
    (path root interface).components =
      (directory root).components ++ (FilePath.segments ⟨interface⟩).filterMap component? := by
  obtain ⟨hsegments, habsolute⟩ := segments_path_of_relative h root
  have hhead : (path root interface).segments.head? = (directory root).segments.head? := by
    rw [hsegments, List.head?_append_of_ne_nil _ (FilePath.segments_ne_nil _)]
  rw [FilePath.components, FilePath.components, FilePath.beginning, FilePath.beginning, habsolute, hhead, hsegments,
    List.filterMap_append, List.append_assoc]

/-- Whether the name of an interface, read as a path, is a single step into the directory of the manifests. -/
def IsStep (root : FilePath) (interface : String) : Prop :=
  if interface.toList.head? = some '/' then FilePath.IsChildOf ⟨interface⟩ (directory root)
  else ∃ name, (FilePath.segments ⟨interface⟩).filterMap component? = [.name name]

/-- The path of a manifest is that of an entry of the directory exactly if the name is a single step. -/
theorem isChildOf_path_iff {interface : String} :
    (path root interface).IsChildOf (directory root) ↔ IsStep root interface := by
  rw [IsStep]
  split
  · next h => rw [path, FilePath.join, if_pos h]
  · next h =>
    rw [FilePath.IsChildOf, components_path_of_relative h]
    simp only [List.append_cancel_left_eq]

/-! ## What is written -/

theorem writable_of_writeOne {e : String × List String} {p : FilePath} (h : writeOne root e t = .ok p t') :
    t.Writable (path root e.1) ∧ p = path root e.1 := by
  by_cases hwritable : t.Writable (path root e.1)
  · rw [writeOne_of_writable hwritable] at h
    exact ⟨hwritable, (EStateM.Result.ok.inj h).1.symm⟩
  · obtain ⟨fault, hfault⟩ := writeOne_of_not_writable hwritable
    exact absurd (hfault.symm.trans h) nofun

/-- A name without slashes that can be written to is the name of a file: what stands for a directory that is there
cannot be written to. -/
theorem isFileName_of_writable {interface : String} (h : t.Writable (path root interface))
    (hslash : '/' ∉ interface.toList) : IsFileName interface := by
  have hrelative : interface.toList.head? ≠ some '/' := fun hhead => hslash (List.mem_of_mem_head? hhead)
  obtain ⟨hsegments, habsolute⟩ := segments_path_of_relative hrelative root
  have hone : FilePath.segments ⟨interface⟩ = [interface] := by
    have hparts : Text.parts '/' (Text.joined '/' [interface]) = [interface] :=
      Text.parts_joined (by simpa using hslash) (List.cons_ne_nil interface [])
    simpa [Text.joined, FilePath.segments] using hparts
  rw [hone] at hsegments
  have hstart : t.start (path root interface) = t.start (directory root) := by
    rw [FileTree.start, FileTree.start, habsolute]
  -- the directories on the way are there, so the name cannot lead to one of them
  have hway : ∀ q ∈ way (t.start (directory root)) (directory root).segments, t.node? q = some .directory := by
    rw [← FilePath.stops_concat (s := interface), ← hsegments, ← hstart]
    exact h.stops
  have hend : t.endOf (path root interface) = follow (t.endOf (directory root)) interface := by
    rw [FileTree.endOf, hsegments, hstart, List.foldl_concat, FileTree.endOf]
  refine ⟨?_, ?_, ?_, hslash⟩
  · rintro rfl
    exact h.getLast? (by rw [hsegments, List.getLast?_concat])
  · rintro rfl
    refine h.node? ?_
    rw [hend]
    exact hway _ (FilePath.end_mem_way ..)
  · rintro rfl
    refine h.node? ?_
    obtain ⟨front, -, hdirectory, -⟩ := exists_segments_directory root
    have haround : (directory root).segments = (front ++ [metaDirectory]) ++ ["services"] := by
      rw [hdirectory, List.append_assoc]
      rfl
    have hup : follow (t.endOf (directory root)) ".." =
        (front ++ [metaDirectory]).foldl follow (t.start (directory root)) := by
      have hservices : IsFileName "services" := ⟨by decide, by decide, by decide, by decide⟩
      rw [FileTree.endOf, haround, List.foldl_concat, hservices.follow]
      exact List.dropLast_concat
    rw [hend, hup]
    refine hway _ ?_
    rw [haround]
    exact FilePath.way_subset_append _ _ _ (FilePath.end_mem_way ..)

/-- What is written for a name without slashes is the entry of that name in the directory of the manifests. -/
theorem components_of_writeOne {e : String × List String} {p : FilePath} (h : writeOne root e t = .ok p t')
    (hslash : '/' ∉ e.1.toList) : p.components = (directory root).components ++ [.name e.1] := by
  obtain ⟨hwritable, rfl⟩ := writable_of_writeOne h
  have hname := isFileName_of_writable hwritable hslash
  have hrelative : e.1.toList.head? ≠ some '/' := fun hhead => hslash (List.mem_of_mem_head? hhead)
  rw [components_path_of_relative hrelative, hname.segments, List.filterMap_cons_some hname.component?,
    List.filterMap_nil]

end Manifest

/-! ## Names of interfaces -/

namespace ClassName

/-- The binary name of a class holds a slash only if one of its segments does. -/
theorem exists_segment_of_mem_binary {c : ClassName} (h : '/' ∈ c.binary.toList) :
    ∃ s ∈ c.dotted.segments, '/' ∈ s.toList := by
  by_contra hnone
  have hall : ∀ s ∈ c.dotted.segments, '/' ∉ s.toList := fun s hs hmem => hnone ⟨s, hs, hmem⟩
  obtain ⟨hpackage, hrelative⟩ := List.forall_mem_append.mp hall
  have hpath : '/' ∉ (Text.joined '$' c.relative.segments).toList := Text.notMem_joined (by decide) hrelative
  have hfront : '/' ∉ (Text.joined '.' c.package.segments).toList := Text.notMem_joined (by decide) hpackage
  have hjoined : '/' ∉ (Text.joined '.' c.package.segments ++ String.singleton '.' ++
      Text.joined '$' c.relative.segments).toList := by
    rw [String.toList_append, String.toList_append, List.mem_append, List.mem_append]
    rintro ((hmem | hmem) | hmem)
    · exact hfront hmem
    · simp at hmem
    · exact hpath hmem
  rw [binary, written] at h
  split at h
  · exact hpath h
  · exact hjoined h

theorem notMem_of_relativeOf? {simple : String} {r : DottedName} (h : relativeOf? simple = some r)
    (hsimple : '/' ∉ simple.toList) : ∀ segment ∈ r.segments, '/' ∉ segment.toList := by
  rw [relativeOf?] at h
  split at h
  · obtain rfl := Option.some.inj h
    exact fun segment hsegment => Text.notMem_of_mem_parts hsegment hsimple
  · contradiction

/-- A class that is read off a class file has no slash in any segment. -/
theorem notMem_of_ofInternal? {s : String} {c : ClassName} (h : ofInternal? s = some c) :
    ∀ segment ∈ c.dotted.segments, '/' ∉ segment.toList := by
  rw [ofInternal?] at h
  refine List.forall_mem_append.mpr ?_
  split at h
  · next path simple hcut =>
    obtain ⟨r, hr, rfl⟩ := Option.map_eq_some_iff.mp h
    exact ⟨notMem_packageOfPath path, notMem_of_relativeOf? hr (Text.notMem_of_cutLast hcut)⟩
  · next hcut =>
    obtain ⟨r, hr, rfl⟩ := Option.map_eq_some_iff.mp h
    exact ⟨fun segment hsegment => absurd hsegment List.not_mem_nil,
      notMem_of_relativeOf? hr (Text.notMem_of_cutLast_eq_none hcut)⟩

theorem notMem_of_ofDescriptor? {s : String} {c : ClassName} (h : ofDescriptor? s = some c) :
    ∀ segment ∈ c.dotted.segments, '/' ∉ segment.toList := by
  obtain ⟨t, -, h⟩ := Option.bind_eq_some_iff.mp h
  obtain ⟨u, -, h⟩ := Option.bind_eq_some_iff.mp h
  exact notMem_of_ofInternal? h

end ClassName

/-- A class file contributes interfaces without a slash in their names. -/
theorem ClassFile.notMem_binary_of_mem_providerPairs {f : ClassFile} {p : ClassName × ClassName}
    (hp : p ∈ f.providerPairs) : '/' ∉ p.1.binary.toList := by
  intro hslash
  obtain ⟨segment, hsegment, hmem⟩ := ClassName.exists_segment_of_mem_binary hslash
  obtain ⟨-, -, hregistered⟩ := mem_providerPairs_iff.mp hp
  rw [registeredFor] at hregistered
  split at hregistered
  · exact absurd hregistered List.not_mem_nil
  · obtain ⟨v, -, hv⟩ := List.mem_filterMap.mp hregistered
    obtain ⟨descriptor, -, hdescriptor⟩ := Option.bind_eq_some_iff.mp hv
    exact ClassName.notMem_of_ofDescriptor? hdescriptor segment hsegment hmem

/-! ## The two kinds of inputs -/

namespace Manifest

variable {root : FilePath} {t t' : FileTree}

/-- Whether a path is written to when the manifests of a mapping are written, even if a later one cannot be. -/
def WritesTo (root : FilePath) (m : ProviderMapping) (t : FileTree) (p : FilePath) : Prop :=
  ∃ front e behind written t₁ t₂ t₃, m.entries = front ++ e :: behind ∧
    makeDirectories (directory root) t = .ok () t₁ ∧ front.mapM (writeOne root) t₁ = .ok written t₂ ∧
    writeOne root e t₂ = .ok p t₃

theorem writable_foldl_put_iff {entries : List (String × List String)} (h : ∀ e ∈ entries, t.Writable (path root e.1))
    {p : FilePath} : (entries.foldl (put root) t).Writable p ↔ t.Writable p := by
  induction entries generalizing t with
  | nil => rfl
  | cons e entries ih =>
    obtain ⟨hfirst, hrest⟩ := List.forall_mem_cons.mp h
    have hput : ∀ p, (put root t e).Writable p ↔ t.Writable p := fun p => hfirst.put_iff _
    rw [List.foldl_cons, ih fun e' he' => (hput _).mpr (hrest e' he'), hput]

/-- All paths that are given back were written to. -/
theorem writesTo_of_write {m : ProviderMapping} {paths : List FilePath} (h : write root m t = .ok paths t')
    {p : FilePath} (hp : p ∈ paths) : WritesTo root m t p := by
  obtain ⟨t₁, hmade, hwritable, rfl, -⟩ := write_eq_ok_iff.mp h
  obtain ⟨i, hi, rfl⟩ := List.mem_map.mp hp
  obtain ⟨e, he, rfl⟩ := List.mem_map.mp hi
  obtain ⟨front, behind, hentries⟩ := List.append_of_mem he
  have hfront : ∀ e' ∈ front, t₁.Writable (path root e'.1) :=
    fun e' he' => hwritable e' (hentries ▸ List.mem_append_left _ he')
  have hlast : (front.foldl (put root) t₁).Writable (path root e.1) :=
    (writable_foldl_put_iff hfront).mpr (hwritable e he)
  exact ⟨front, e, behind, _, t₁, _, _, hentries, hmade, mapM_writeOne_of_writable hfront,
    writeOne_of_writable hlast⟩

/-- Every path that is written to belongs to an interface of the mapping, and is the entry of its name if that has no
slash. -/
theorem exists_interface_of_writesTo {m : ProviderMapping} {p : FilePath} (h : WritesTo root m t p) :
    ∃ i ∈ m.interfaces, p = path root i ∧
      ('/' ∉ i.toList → p.components = (directory root).components ++ [.name i]) := by
  obtain ⟨front, e, behind, _, _, _, _, hentries, -, -, hwrite⟩ := h
  have hmem : e ∈ m.entries := hentries ▸ List.mem_append_right _ (List.mem_cons_self ..)
  exact ⟨e.1, List.mem_map_of_mem hmem, (writable_of_writeOne hwrite).2, components_of_writeOne hwrite⟩

/-- The manifests of class files are entries of their directory.  A manifest of sources is one exactly if the name of
the interface, read as a path, is a single step, as it is if it has no slash; and a slash comes from a segment of the
name of a class. -/
theorem manifests_confined (sources : List SourceFile) (classPath : Registry) (entries : List ClassFileEntry)
    (root : FilePath) (t : FileTree) :
    (∀ m, analyze sources classPath = .ok m → ∀ p, WritesTo root m t p →
      ∃ i ∈ m.interfaces, p = path root i ∧ (p.IsChildOf (directory root) ↔ IsStep root i) ∧
        ('/' ∉ i.toList → p.components = (directory root).components ++ [.name i]) ∧
        ('/' ∈ i.toList → ∃ e : ClassEntry, e.name.binary = i ∧ (∃ s ∈ e.name.dotted.segments, '/' ∈ s.toList) ∧
          (e ∈ classPath.classes ∨ ∃ d ∈ sources.flatMap SourceFile.declared, d.entry = e))) ∧
    ∀ m, ProviderMapping.ofClassFiles entries = .ok m → ∀ p, WritesTo root m t p →
      ∃ i ∈ m.interfaces, p.components = (directory root).components ++ [.name i] := by
  refine ⟨fun m hm p hp => ?_, fun m hm p hp => ?_⟩
  · obtain ⟨i, hi, rfl, hchild⟩ := exists_interface_of_writesTo hp
    refine ⟨i, hi, rfl, isChildOf_path_iff, hchild, fun hslash => ?_⟩
    obtain ⟨r, hr, hm⟩ := analyze_eq_ok_iff.mp hm
    have hprovider : ∀ s ∈ scan autoService sources, r.provider s = .ok s.className :=
      Registry.provider_of_mem_scan hr
    obtain ⟨provider, hpair⟩ := (Registry.ordered_of_providers hprovider hm).mem_interfaces_iff.mp hi
    obtain ⟨x, -, reference, e, -, ⟨name, -, he⟩, hx⟩ :=
      (Registry.mem_pairs_of_providers hprovider hm (i, provider)).mp hpair
    obtain rfl : i = e.name.binary := (Prod.mk.inj hx).1
    refine ⟨e, rfl, ClassName.exists_segment_of_mem_binary hslash, ?_⟩
    obtain ⟨c, hc⟩ := Registry.exists_class?_of_classifier? he
    exact (Registry.eq_or_mem_of_class?_withSources hr hc).imp_left Registry.mem_classes_of_class?
  · obtain ⟨i, hi, rfl, hchild⟩ := exists_interface_of_writesTo hp
    refine ⟨i, hi, hchild ?_⟩
    obtain ⟨provider, hpair⟩ := (ProviderMapping.ordered_ofClassFiles hm).mem_interfaces_iff.mp hi
    obtain ⟨_, -, f, -, pair, hmem, hx⟩ := (ProviderMapping.mem_pairs_ofClassFiles hm).mp hpair
    obtain rfl : i = pair.1.binary := (Prod.mk.inj hx).1
    exact ClassFile.notMem_binary_of_mem_providerPairs hmem

end Manifest

/-! ### A name that leads out of the directory -/

namespace QuotedName

/-- A file in which an interface has a path for its name. -/
def text : String :=
  "import com.google.auto.service.AutoService\nimport `../../../x`\ninterface `../../../x`\n" ++
    "@AutoService(`../../../x`::class) class T\n"

/-- What the file is read as. -/
def file : SourceFile :=
  ⟨"T.kt", [], none,
    [⟨⟨[⟨"com", ⟨1, 8, 3⟩⟩, ⟨"google", ⟨1, 12, 6⟩⟩, ⟨"auto", ⟨1, 19, 4⟩⟩, ⟨"service", ⟨1, 24, 7⟩⟩,
        ⟨"AutoService", ⟨1, 32, 11⟩⟩], ⟨1, 8, 35⟩⟩, false, none, ⟨1, 1, 42⟩⟩,
      ⟨⟨[⟨"../../../x", ⟨2, 8, 12⟩⟩], ⟨2, 8, 12⟩⟩, false, none, ⟨2, 1, 19⟩⟩],
    [⟨.interface, ⟨"../../../x", ⟨3, 11, 12⟩⟩, [], [], [], ⟨3, 1, 22⟩⟩,
      ⟨.class, ⟨"T", ⟨4, 41, 1⟩⟩,
        [⟨none, ⟨.user ⟨[], ⟨⟨"AutoService", ⟨4, 2, 11⟩⟩, [], ⟨4, 2, 11⟩⟩⟩, [], "AutoService", ⟨4, 2, 11⟩⟩,
          [⟨none, false, .classLiteral (.name ⟨"../../../x", ⟨4, 14, 12⟩⟩) ⟨4, 14, 19⟩, ⟨4, 14, 19⟩⟩], ⟨4, 1, 33⟩⟩],
        [], [], ⟨4, 1, 41⟩⟩],
    [], ⟨1, 1, 7⟩⟩

/-- The mapping of the file. -/
def listed : ProviderMapping := ⟨[("../../../x", ["T"])]⟩

set_option maxRecDepth 10000 in
theorem parse_source : SourceFile.parse "T.kt" text = .ok file := by
  with_unfolding_all rfl

theorem analyze_file : analyze [file] .empty = .ok listed := by
  cbv

/-- The path of the manifest. -/
def written : FilePath := ⟨"out/META-INF/services/../../../x"⟩

/-- An output directory with that of the manifests in it. -/
def made : FileTree where
  workingDirectory := []
  entries := [(["out"], .directory), (["out", "META-INF"], .directory), (["out", "META-INF", "services"], .directory)]

theorem path_listed : Manifest.path ⟨"out"⟩ "../../../x" = written := by decide

theorem makeDirectories_empty : makeDirectories (Manifest.directory ⟨"out"⟩) .empty = .ok () made := rfl

theorem writable_written : made.Writable written where
  check := by decide
  stops := by decide
  fits := fun s hs => FileTree.fits_of_size ((show ∀ s ∈ written.segments, s.utf8ByteSize ≤ FileTree.maxName by decide) s hs)
  getLast? := by decide
  node? := by decide

/-- The manifest is written beside the output directory. -/
theorem write_listed :
    Manifest.write ⟨"out"⟩ listed .empty = .ok [written] (made.put ["x"] (.file (utf8Bytes "T\n"))) := by
  have hwritable : ∀ e ∈ listed.entries, made.Writable (Manifest.path ⟨"out"⟩ e.1) :=
    List.forall_mem_singleton.mpr (path_listed ▸ writable_written)
  have hput : Manifest.put ⟨"out"⟩ made ("../../../x", ["T"]) = made.put ["x"] (.file (utf8Bytes "T\n")) := by
    have hend : made.endOf written = ["x"] := by decide
    have htext : Manifest.text ["T"] = "T\n" := by decide
    rw [Manifest.put, path_listed, hend, htext]
  rw [Manifest.write_of_made makeDirectories_empty hwritable, ← hput, ← path_listed]
  rfl

theorem writesTo_written : Manifest.WritesTo ⟨"out"⟩ listed .empty written :=
  Manifest.writesTo_of_write write_listed (List.mem_singleton_self written)

theorem not_isChildOf_written : ¬ written.IsChildOf (Manifest.directory ⟨"out"⟩) := by
  have hwritten : written.components =
      [.name "out", .name metaDirectory, .name "services", .up, .up, .up, .name "x"] := by decide
  have hdirectory : (Manifest.directory ⟨"out"⟩).components =
      [.name "out", .name metaDirectory, .name "services"] := by decide
  rintro ⟨name, h⟩
  rw [hwritten, hdirectory] at h
  have hlength : 7 = 4 := congrArg List.length h
  omega

/-- The name of the interface is no single step, and has a slash that comes from the source text. -/
theorem slash_from_source :
    analyze [file] .empty = .ok listed ∧ Manifest.WritesTo ⟨"out"⟩ listed .empty written ∧
      ∃ i ∈ listed.interfaces, ¬ Manifest.IsStep ⟨"out"⟩ i ∧ '/' ∈ i.toList := by
  obtain ⟨i, hi, -, hstep, -, -⟩ :=
    (Manifest.manifests_confined [file] .empty [] ⟨"out"⟩ .empty).1 listed analyze_file written writesTo_written
  refine ⟨analyze_file, writesTo_written, i, hi, fun h => not_isChildOf_written (hstep.mpr h), ?_⟩
  obtain rfl : i = "../../../x" := List.mem_singleton.mp hi
  decide

/-- Not every manifest of a source text is written to an entry of the directory of the manifests. -/
theorem not_forall_isChildOf :
    ¬ ∀ (name source : String) (f : SourceFile) (m : ProviderMapping) (root : FilePath) (t t' : FileTree)
      (paths : List FilePath), SourceFile.parse name source = .ok f → analyze [f] .empty = .ok m →
        Manifest.write root m t = .ok paths t' → ∀ p ∈ paths, p.IsChildOf (Manifest.directory root) := by
  intro h
  have hchild := h "T.kt" text file listed ⟨"out"⟩ .empty _ [written] parse_source analyze_file write_listed
  exact not_isChildOf_written (hchild written (List.mem_singleton_self written))

end QuotedName

end ServiceCatalog
