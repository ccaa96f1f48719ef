import ServiceCatalog.Proofs.Name.Written

/-!
# The written forms of a class

A class is written in three forms: in a manifest, in a class file and in a field descriptor.  The last two are read
back, the first one never is, and yet a manifest must not list two classes under one name.  What all forms have in
common is that the last mark of the package is followed by the path of nested classes alone, so a written form can be
cut there whatever the mark is.

* `ClassName.Unmarked`: the classes of which no segment holds a mark.
* `ClassName.written_inj`: what is on both sides of the cut determines the class.
* `ClassName.internal_eq_iff`: which class file names are the form of the class that they denote.
* `ClassName.forms_denote`: the forms of unmarked classes, and the class file names that are such forms.
-/

namespace ServiceCatalog.ClassName

variable {c c' : ClassName} {mark : Char}

/-- Whether no segment of a class can be taken for more or for less than one: the path has segments, none of all
segments is empty or holds a dot or a slash, and those of the path hold no dollar sign and do not start with a digit. -/
structure Unmarked (c : ClassName) : Prop where
  relative_ne_nil : c.relative.segments ≠ []
  segments : ∀ s ∈ c.dotted.segments, s ≠ "" ∧ '.' ∉ s.toList ∧ '/' ∉ s.toList
  relative : ∀ s ∈ c.relative.segments, '$' ∉ s.toList ∧ ∀ d ∈ s.toList.head?, d.isDigit = false

theorem Unmarked.package (h : c.Unmarked) : ∀ s ∈ c.package.segments, s ≠ "" ∧ '.' ∉ s.toList ∧ '/' ∉ s.toList :=
  fun s hs => h.segments s (List.mem_append_left _ hs)

/-- A segment can be written in a source text unless it is empty or starts with a digit. -/
theorem isNameable_iff {s : String} : isNameable s = true ↔ s ≠ "" ∧ ∀ d ∈ s.toList.head?, d.isDigit = false := by
  rw [isNameable, Ne, ← String.toList_eq_nil_iff]
  cases s.toList <;> simp

theorem Unmarked.separable (h : c.Unmarked) : c.Separable where
  package := h.package
  relative_ne_nil := h.relative_ne_nil
  relative := fun s hs => by
    obtain ⟨hne, -, hslash⟩ := h.segments s (List.mem_append_right _ hs)
    exact ⟨isNameable_iff.mpr ⟨hne, (h.relative s hs).2⟩, hslash, (h.relative s hs).1⟩

/-! ## Forms of different classes -/

/-- Classes can be told apart by their forms with a mark that stands in none of their segments. -/
theorem written_inj (hmark : mark ≠ '$') (h : c.Unmarked) (h' : c'.Unmarked)
    (hsegments : ∀ s ∈ c.dotted.segments, mark ∉ s.toList) (hsegments' : ∀ s ∈ c'.dotted.segments, mark ∉ s.toList) :
    c.written mark = c'.written mark ↔ c = c' := by
  refine ⟨fun hwritten => ?_, congrArg (written mark)⟩
  obtain ⟨hpackage, hpath⟩ := List.forall_mem_append.mp hsegments
  obtain ⟨hpackage', hpath'⟩ := List.forall_mem_append.mp hsegments'
  have hrelative : Text.joined '$' c.relative.segments = Text.joined '$' c'.relative.segments ↔
      c.relative = c'.relative :=
    (Text.joined_inj (fun s hs => (h.relative s hs).1) h.relative_ne_nil (fun s hs => (h'.relative s hs).1)
      h'.relative_ne_nil).trans DottedName.segments_inj
  have hcut := congrArg (Text.cutLast mark) hwritten
  rw [cutLast_written hmark hpath, cutLast_written hmark hpath'] at hcut
  by_cases hroot : c.package.isRoot <;> by_cases hroot' : c'.package.isRoot
  · rw [written, written, if_pos hroot, if_pos hroot'] at hwritten
    have hroots : c.package.segments = c'.package.segments :=
      (List.isEmpty_iff.mp hroot).trans (List.isEmpty_iff.mp hroot').symm
    exact eq_of_halves (DottedName.segments_inj.mp hroots) (hrelative.mp hwritten)
  · rw [if_pos hroot, if_neg hroot'] at hcut
    cases hcut
  · rw [if_neg hroot, if_pos hroot'] at hcut
    cases hcut
  · rw [if_neg hroot, if_neg hroot'] at hcut
    obtain ⟨hfront, hbehind⟩ := Prod.mk.inj (Option.some.inj hcut)
    have hpackages : c.package.segments = c'.package.segments :=
      (Text.joined_inj hpackage (mt List.isEmpty_iff.mpr hroot) hpackage' (mt List.isEmpty_iff.mpr hroot')).mp hfront
    exact eq_of_halves (DottedName.segments_inj.mp hpackages) (hrelative.mp hbehind)

/-- No two unmarked classes share a name in manifests. -/
theorem binary_inj (h : c.Unmarked) (h' : c'.Unmarked) : c.binary = c'.binary ↔ c = c' :=
  written_inj (by decide) h h' (fun s hs => (h.segments s hs).2.1) fun s hs => (h'.segments s hs).2.1

/-! ## Class file names as forms -/

theorem joined_of_relativeOf? {simple : String} {r : DottedName} (h : relativeOf? simple = some r) :
    Text.joined '$' r.segments = simple := by
  rw [relativeOf?] at h
  split at h
  · obtain rfl := Option.some.inj h
    exact Text.joined_parts '$' simple
  · contradiction

/-- The path of a package is cut at its slashes alone if neither a dot nor an empty part stands in it. -/
theorem segments_packageOfPath_iff {path : String} :
    (packageOfPath path).segments = Text.parts '/' path ↔ ∀ p ∈ Text.parts '/' path, p ≠ "" ∧ '.' ∉ p.toList := by
  constructor
  · intro h p hp
    exact DottedName.plain_ofText _ p (h ▸ hp)
  · intro h
    have hjoined := packageOfPath_joined (n := ⟨Text.parts '/' path⟩) fun p hp =>
      ⟨(h p hp).1, (h p hp).2, Text.mark_notMem_of_mem_parts hp⟩
    rw [Text.joined_parts] at hjoined
    rw [hjoined]

/-- A class file name is the form of the class that it denotes exactly if the segments in front of its last slash are
neither empty nor cut by a dot. -/
theorem internal_eq_iff {s : String} (h : ofInternal? s = some c) :
    c.internal = s ↔ ∀ p ∈ (Text.parts '/' s).dropLast, p ≠ "" ∧ '.' ∉ p.toList := by
  rw [ofInternal?] at h
  split at h
  · next path simple hcut =>
    obtain ⟨r, hr, rfl⟩ := Option.map_eq_some_iff.mp h
    have hsimple : '/' ∉ simple.toList := Text.notMem_of_cutLast hcut
    obtain rfl := Text.eq_of_cutLast hcut
    rw [Text.parts_append, Text.parts_of_notMem hsimple, List.dropLast_concat, ← segments_packageOfPath_iff, internal,
      written, joined_of_relativeOf? hr]
    split
    · next hroot =>
      have hparts : (packageOfPath path).segments ≠ Text.parts '/' path := by
        rw [List.isEmpty_iff.mp hroot]
        exact (Text.parts_ne_nil '/' path).symm
      exact iff_of_false (fun heq => hsimple (heq ▸ by simp)) hparts
    · next hroot =>
      have hslash := notMem_packageOfPath path
      have hne := mt List.isEmpty_iff.mpr hroot
      rw [String.append_left_inj, String.append_left_inj]
      constructor
      · intro hpath
        rw [← Text.parts_joined hslash hne, hpath]
      · intro hparts
        rw [hparts, Text.joined_parts]
  · next hcut =>
    obtain ⟨r, hr, rfl⟩ := Option.map_eq_some_iff.mp h
    have hsimple : '/' ∉ s.toList := Text.notMem_of_cutLast_eq_none hcut
    rw [Text.parts_of_notMem hsimple]
    simp [internal, written, joined_of_relativeOf? hr, DottedName.isRoot]

/-! ## The forms of a class -/

/-- An unmarked class is what its class file name and its field descriptor denote, and no other unmarked class has its
name in manifests.  A class file name without a dot and without an empty segment in front of its last slash is the form
of the class that it denotes. -/
theorem forms_denote :
    (∀ c : ClassName, c.Unmarked → ofInternal? c.internal = some c ∧ ofDescriptor? ("L" ++ c.internal ++ ";") = some c ∧
      ∀ c' : ClassName, c'.Unmarked → c'.binary = c.binary → c' = c) ∧
    ∀ (s : String) (c : ClassName), ofInternal? s = some c → '.' ∉ s.toList →
      (∀ p ∈ (Text.parts '/' s).dropLast, p ≠ "") → c.internal = s := by
  constructor
  · intro c h
    exact ⟨h.separable.ofInternal?_internal, h.separable.ofDescriptor?_descriptor,
      fun c' h' => (binary_inj h' h).mp⟩
  · intro s c h hdot hne
    rw [internal_eq_iff h]
    exact fun p hp => ⟨hne p hp, Text.notMem_of_mem_parts (List.dropLast_subset _ hp) hdot⟩

namespace NestedProvider

/-- A class in another one in a package of two segments. -/
def name : ClassName := ⟨⟨["com", "example"]⟩, ⟨["Outer", "Inner"]⟩⟩

theorem unmarked_name : name.Unmarked where
  relative_ne_nil := by decide
  segments := by simp [name]
  relative := by simp [name]

/-- Its forms, of which those in class files are read back and the one in manifests is its own. -/
theorem forms_denote_name : name.Unmarked ∧ ofInternal? "com/example/Outer$Inner" = some name ∧
    ofDescriptor? "Lcom/example/Outer$Inner;" = some name ∧
      (∀ c : ClassName, c.Unmarked → c.binary = "com.example.Outer$Inner" → c = name) ∧
      name.internal = "com/example/Outer$Inner" := by
  obtain ⟨hinternal, hdescriptor, hbinary⟩ := forms_denote.1 name unmarked_name
  exact ⟨unmarked_name, hinternal, hdescriptor, hbinary,
    forms_denote.2 "com/example/Outer$Inner" name hinternal (by decide) (by decide)⟩

end NestedProvider

end ServiceCatalog.ClassName
