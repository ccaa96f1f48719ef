import Mathlib.Data.List.Induction
import Mathlib.Data.List.Infix
import ServiceCatalog.Files.Tree
import ServiceCatalog.Proofs.Name.Written

/-!
# Following paths

Where a path leads depends on its parts alone, and whether it can be followed on what stands at the places on its
way.  So the places of a path are known before anything is there.

* `FilePath.follow`, `FilePath.way`: the place that a part leads to, and all places on a way.
* `FilePath.segments_join`: a path relative to another one has the parts of that one in front.
* `FileTree.walk_eq_ok_iff`: a path can be followed if there are directories on its way and its names are short.
* `FileTree.find_eq_ok_iff`: what is found at a path.
-/

namespace ServiceCatalog

/-! ## Places below a place -/

namespace FileTree

variable {top place : List String}

theorem isBelow_iff : isBelow top place ↔ ∃ names, names ≠ [] ∧ place = top ++ names := by
  rw [isBelow, Bool.and_eq_true, List.isPrefixOf_iff_prefix, decide_eq_true_eq]
  constructor
  · rintro ⟨⟨names, rfl⟩, hne⟩
    exact ⟨names, by simpa using hne, rfl⟩
  · rintro ⟨names, hne, rfl⟩
    exact ⟨List.prefix_append .., by simpa using hne⟩

/-- What continues a place below another one is below that one too. -/
theorem isBelow_mono {q : List String} (hbelow : isBelow top place) (h : place <+: q) : isBelow top q := by
  obtain ⟨names, hne, rfl⟩ := isBelow_iff.mp hbelow
  obtain ⟨more, rfl⟩ := h
  exact isBelow_iff.mpr ⟨names ++ more, by simp [hne], by simp⟩

theorem ne_nil_of_isBelow (hbelow : isBelow top place) : place ≠ [] := by
  obtain ⟨names, hne, rfl⟩ := isBelow_iff.mp hbelow
  simp [hne]

end FileTree

namespace FilePath

variable {p : FilePath} {start : List String} {parts parts' : List String}

/-! ## Places -/

/-- The place that a part of a path leads to. -/
def follow (place : List String) (segment : String) : List String :=
  match component? segment with
  | some (.name s) => place ++ [s]
  | some .up => place.dropLast
  | _ => place

/-- The places on the way of parts of a path, from the one where it starts to the one in front of its end. -/
def stops (start : List String) : List String → List (List String)
  | [] => []
  | s :: parts => start :: stops (follow start s) parts

/-- All places on the way of parts of a path. -/
def way (start parts : List String) : List (List String) := stops start parts ++ [parts.foldl follow start]

theorem stops_append (start parts parts' : List String) :
    stops start (parts ++ parts') = stops start parts ++ stops (parts.foldl follow start) parts' := by
  induction parts generalizing start with
  | nil => rfl
  | cons s parts ih => exact congrArg (start :: ·) (ih _)

theorem way_append (start parts parts' : List String) :
    way start (parts ++ parts') = stops start parts ++ way (parts.foldl follow start) parts' := by
  rw [way, stops_append, List.foldl_append, List.append_assoc]
  rfl

theorem stops_concat (start parts : List String) (s : String) : stops start (parts ++ [s]) = way start parts :=
  stops_append ..

theorem way_concat (start parts : List String) (s : String) :
    way start (parts ++ [s]) = way start parts ++ [(parts ++ [s]).foldl follow start] := by
  rw [way, stops_append, List.append_assoc, way, List.append_assoc]
  rfl

theorem start_mem_way (start parts : List String) : start ∈ way start parts := by
  cases parts with
  | nil => exact List.mem_singleton_self start
  | cons s parts => exact List.mem_cons_self ..

theorem end_mem_way (start parts : List String) : parts.foldl follow start ∈ way start parts :=
  List.mem_append_right _ (List.mem_singleton_self _)

theorem stops_subset_way (start parts : List String) : stops start parts ⊆ way start parts :=
  List.subset_append_left ..

theorem way_subset_append (start parts parts' : List String) : way start parts ⊆ way start (parts ++ parts') := by
  intro place hplace
  rw [way_append]
  rcases List.mem_append.mp hplace with hplace | hplace
  · exact List.mem_append_left _ hplace
  · rw [List.mem_singleton] at hplace
    exact List.mem_append_right _ (hplace ▸ start_mem_way _ _)

/-- A way that starts outside a directory and leads into it passes all directories in between. -/
theorem mem_way_of_prefix {top place : List String} (hstart : ¬FileTree.isBelow top start)
    (hplace : FileTree.isBelow top place) (hfront : place <+: parts.foldl follow start) :
    place ∈ way start parts := by
  induction parts using List.reverseRecOn generalizing place with
  | nil => exact absurd (FileTree.isBelow_mono hplace hfront) hstart
  | append_singleton parts s ih =>
    rw [way_concat]
    rw [List.foldl_concat, follow] at hfront
    by_cases hend : place = (parts ++ [s]).foldl follow start
    · exact List.mem_append_right _ (List.mem_singleton.mpr hend)
    · refine List.mem_append_left _ (ih hplace ?_)
      rw [List.foldl_concat, follow] at hend
      split at hfront
      · next name hname =>
        rw [hname] at hend
        exact (List.prefix_concat_iff.mp hfront).resolve_left hend
      · exact hfront.trans (List.dropLast_prefix _)
      · exact hfront

/-! ## Parts of paths -/

/-- Whether a text is the name of a file: it stays what it is between slashes, and stands for no other place. -/
structure IsFileName (s : String) : Prop where
  ne_empty : s ≠ ""
  ne_dot : s ≠ "."
  ne_dots : s ≠ ".."
  notMem : '/' ∉ s.toList

theorem eq_of_component? {s : String} {c : PathComponent} (h : component? s = some c) : c = .up ∨ c = .name s := by
  rw [component?] at h
  split at h
  · cases h
  · split at h
    · exact .inl (Option.some.inj h).symm
    · exact .inr (Option.some.inj h).symm

namespace IsFileName

variable {s : String} (h : IsFileName s)

include h

theorem component? : component? s = some (.name s) := by
  rw [FilePath.component?, if_neg (by simp [h.ne_empty, h.ne_dot]), if_neg h.ne_dots]

theorem follow (place : List String) : follow place s = place ++ [s] := by
  rw [FilePath.follow, h.component?]

theorem segments : segments ⟨s⟩ = [s] := by
  have hparts : Text.parts '/' (Text.joined '/' [s]) = [s] :=
    Text.parts_joined (by simpa using h.notMem) (List.cons_ne_nil s [])
  simpa [Text.joined, FilePath.segments] using hparts

end IsFileName

theorem segments_ne_nil (p : FilePath) : p.segments ≠ [] := by
  simp [segments, Text.parts]

/-- A path relative to another one continues its parts, but for an empty one at the end. -/
theorem segments_join (p : FilePath) {s : String} (hs : s.toList.head? ≠ some '/') :
    ∃ front, (p.segments = front ∨ p.segments = front ++ [""]) ∧ (p.join s).segments = front ++ segments ⟨s⟩ ∧
      (p.join s).isAbsolute = p.isAbsolute := by
  have hempty : Text.parts '/' "" = [""] := rfl
  have hhead : ∀ b, p.text ≠ "" → (FilePath.isAbsolute ⟨p.text ++ b⟩) = p.isAbsolute := by
    intro b hne
    obtain ⟨c, l, hl⟩ := List.exists_cons_of_ne_nil (l := p.text.toList) (by simpa using hne)
    simp [isAbsolute, hl]
  rw [join, if_neg hs]
  by_cases hnone : p.text = ""
  · refine ⟨[], .inr ?_, ?_, ?_⟩
    · rw [segments, hnone, hempty, List.nil_append]
    · simp [hnone]
    · simp [hnone, isAbsolute, hs]
  · by_cases hlast : p.text.toList.getLast? = some '/'
    · obtain ⟨l, hl⟩ := List.getLast?_eq_some_iff.mp hlast
      have htext : p.text = String.ofList l ++ String.singleton '/' ++ "" := by
        rw [← String.toList_inj]
        simp [hl]
      refine ⟨Text.parts '/' (String.ofList l), .inr ?_, ?_, ?_⟩
      · rw [segments, htext, Text.parts_append, hempty]
      · rw [if_pos (.inr hlast), segments, segments, ← Text.parts_append]
        simp [htext]
      · rw [if_pos (.inr hlast), hhead s hnone]
    · refine ⟨p.segments, .inl rfl, ?_, ?_⟩
      · rw [if_neg (by simp [hnone, hlast]), segments, segments, segments, ← Text.parts_append]
        rfl
      · rw [if_neg (by simp [hnone, hlast]), String.append_assoc, hhead _ hnone]


end FilePath

namespace FileTree

open FilePath (component? follow stops way)

variable {t t' : FileTree} {start : List String}

/-! ## What can be followed -/

/-- Whether a part of a path is no name that is too long. -/
def Fits (segment : String) : Prop := ∀ s, component? segment = some (.name s) → s.utf8ByteSize ≤ maxName

theorem fits_of_size {segment : String} (h : segment.utf8ByteSize ≤ maxName) : Fits segment := by
  intro s hs
  rcases FilePath.eq_of_component? hs with hc | hc
  · cases hc
  · exact PathComponent.name.inj hc ▸ h

theorem step_eq_ok_iff {place target : List String} {segment : String} :
    t.step place segment = .ok target ↔
      t.node? place = some .directory ∧ Fits segment ∧ target = follow place segment := by
  rw [step, follow]
  cases hnode : t.node? place with
  | none => simp
  | some n =>
    cases n with
    | file bytes => simp
    | directory =>
      cases hsegment : component? segment with
      | none => simp [Fits, hsegment, eq_comm]
      | some c =>
        cases c with
        | name s =>
          by_cases hs : maxName < s.utf8ByteSize
          · have hlong : ¬Fits segment := fun hfits => absurd (hfits s hsegment) (by omega)
            simp [hlong, hs]
          · simp [Fits, hsegment, hs, Nat.not_lt.mp hs, eq_comm]
        | root => simp [Fits, hsegment, eq_comm]
        | here => simp [Fits, hsegment, eq_comm]
        | up => simp [Fits, hsegment, eq_comm]

/-- Parts of a path can be followed exactly if there are directories at all places in front of the last one. -/
theorem walk_eq_ok_iff {parts : List String} {target : List String} :
    parts.foldlM t.step start = .ok target ↔
      (∀ place ∈ stops start parts, t.node? place = some .directory) ∧ (∀ s ∈ parts, Fits s) ∧
        target = parts.foldl follow start := by
  induction parts generalizing start with
  | nil => simp [stops, pure, Except.pure, eq_comm]
  | cons s parts ih =>
    rw [List.foldlM_cons, stops, List.forall_mem_cons, List.forall_mem_cons, List.foldl_cons]
    cases hstep : t.step start s with
    | ok place =>
      obtain ⟨hnode, hfits, rfl⟩ := step_eq_ok_iff.mp hstep
      simp only [hnode, hfits, true_and]
      exact ih
    | error fault =>
      have hno : ¬(t.node? start = some .directory ∧ Fits s) := by
        rintro ⟨hnode, hfits⟩
        rw [step_eq_ok_iff.mpr ⟨hnode, hfits, rfl⟩] at hstep
        cases hstep
      refine iff_of_false (fun h => by cases h) fun h => hno ⟨h.1.1, h.2.1.1⟩

/-- Where short names lead to directories and missing places only, nothing but a missing place can stop a path. -/
theorem walk_eq_ok_or_notFound {parts : List String}
    (hstops : ∀ place ∈ stops start parts, t.node? place = some .directory ∨ t.node? place = none)
    (hfits : ∀ s ∈ parts, Fits s) :
    parts.foldlM t.step start = .ok (parts.foldl follow start) ∨
      parts.foldlM t.step start = .error .notFound := by
  induction parts generalizing start with
  | nil => exact .inl rfl
  | cons s parts ih =>
    rw [stops, List.forall_mem_cons] at hstops
    rw [List.forall_mem_cons] at hfits
    rw [List.foldlM_cons]
    rcases hstops.1 with hnode | hnode
    · rw [step_eq_ok_iff.mpr ⟨hnode, hfits.1, rfl⟩]
      exact ih hstops.2 hfits.2
    · right
      rw [step, hnode]
      rfl

/-- The place that a path leads to, whatever is on its way. -/
def endOf (t : FileTree) (p : FilePath) : List String := p.segments.foldl follow (t.start p)

/-- Where a path leads depends on nothing in the tree but the place that relative paths start from. -/
theorem start_congr (h : t'.workingDirectory = t.workingDirectory) (p : FilePath) : t'.start p = t.start p := by
  rw [FileTree.start, FileTree.start, h]

theorem endOf_congr (h : t'.workingDirectory = t.workingDirectory) (p : FilePath) : t'.endOf p = t.endOf p := by
  rw [endOf, endOf, start_congr h]

theorem place_eq_ok_iff {p : FilePath} {place : List String} :
    t.place p = .ok place ↔
      check p = .ok () ∧ (∀ stop ∈ stops (t.start p) p.segments, t.node? stop = some .directory) ∧
        (∀ s ∈ p.segments, Fits s) ∧ place = t.endOf p := by
  rw [FileTree.place, endOf, ← walk_eq_ok_iff]
  cases check p with
  | error fault => exact iff_of_false (fun h => by cases h) fun h => by cases h.1
  | ok _ => exact (and_iff_right rfl).symm

theorem find_eq_ok_iff {p : FilePath} {place : List String} {n : FileNode} :
    t.find p = .ok (place, n) ↔ t.place p = .ok place ∧ t.node? place = some n := by
  rw [find]
  cases t.place p with
  | error fault => exact iff_of_false (fun h => by cases h) fun h => by cases h.1
  | ok place' =>
    simp only [bind, Except.bind]
    constructor
    · intro h
      split at h
      · next hnode =>
        obtain ⟨rfl, rfl⟩ := Prod.mk.inj (Except.ok.inj h)
        exact ⟨rfl, hnode⟩
      · cases h
    · rintro ⟨hplace, hnode⟩
      obtain rfl := Except.ok.inj hplace
      rw [hnode]
      rfl

/-- A directory is found at a path exactly if there are directories at all places on its way. -/
theorem find_eq_directory_iff {p : FilePath} {place : List String} :
    t.find p = .ok (place, .directory) ↔
      check p = .ok () ∧ (∀ stop ∈ way (t.start p) p.segments, t.node? stop = some .directory) ∧
        (∀ s ∈ p.segments, Fits s) ∧ place = t.endOf p := by
  rw [find_eq_ok_iff, place_eq_ok_iff, way, List.forall_mem_append, List.forall_mem_singleton]
  constructor
  · rintro ⟨⟨hcheck, hstops, hfits, rfl⟩, hnode⟩
    exact ⟨hcheck, ⟨hstops, hnode⟩, hfits, rfl⟩
  · rintro ⟨hcheck, ⟨hstops, hnode⟩, hfits, rfl⟩
    exact ⟨⟨hcheck, hstops, hfits, rfl⟩, hnode⟩

/-- Where short names lead to directories and missing places only, a directory is found or nothing is. -/
theorem find_eq_directory_or_notFound {p : FilePath} (hcheck : check p = .ok ())
    (hway : ∀ stop ∈ way (t.start p) p.segments, t.node? stop = some .directory ∨ t.node? stop = none)
    (hfits : ∀ s ∈ p.segments, Fits s) :
    t.find p = .ok (t.endOf p, .directory) ∨ t.find p = .error .notFound := by
  have hstops := fun stop hstop => hway stop (FilePath.stops_subset_way _ _ hstop)
  rcases walk_eq_ok_or_notFound hstops hfits with hwalk | hwalk
  · rcases hway _ (FilePath.end_mem_way ..) with hnode | hnode
    · refine .inl (find_eq_ok_iff.mpr ⟨place_eq_ok_iff.mpr ⟨hcheck, ?_, hfits, rfl⟩, hnode⟩)
      exact (walk_eq_ok_iff.mp hwalk).1
    · have hplace : t.place p = .ok (t.endOf p) := by
        rw [FileTree.place, hcheck]
        exact hwalk
      have hend : t.node? (t.endOf p) = none := hnode
      right
      rw [find, hplace]
      simp only [bind, Except.bind, hend]
      rfl
  · have hplace : t.place p = .error .notFound := by
      rw [FileTree.place, hcheck]
      exact hwalk
    right
    rw [find, hplace]
    rfl

theorem check_eq_ok_iff {p : FilePath} :
    check p = .ok () ↔ '\x00' ∉ p.text.toList ∧ p.text ≠ "" ∧ p.text.utf8ByteSize ≤ maxPath := by
  simp only [check, List.contains_iff_mem]
  by_cases hzero : '\x00' ∈ p.text.toList
  · simp [hzero]
  · by_cases hempty : p.text = ""
    · simp [hempty]
    · by_cases hlong : maxPath < p.text.utf8ByteSize
      · simp [hzero, hempty, hlong]
      · simp [hzero, hempty, hlong, Nat.not_lt.mp hlong]

end FileTree

end ServiceCatalog
