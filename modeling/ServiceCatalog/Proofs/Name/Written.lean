import Mathlib.Data.List.TakeWhile
import ServiceCatalog.Name.ClassName

/-!
# Written names are read back

Joining parts with a mark that none of them holds, and cutting at the mark, gives the parts again.  So a plain
dotted name is determined by its text, and a class by the name that class files give it.

* `Text.parts_joined`, `Text.cutLast_append`, `Text.cutFirst_eq_some_iff`: cutting undoes joining.
* `Text.parts_joined_eq_flatMap`: the parts of a joined text are those of what was joined.
* `DottedName.Plain.ofText_text`: a plain name is what its text denotes.
* `ClassName.cutLast_written`: where a written form is cut.
* `ClassName.Separable`: the classes whose written forms can be cut again.
* `ClassName.Separable.ofInternal?_internal`, `ClassName.Separable.ofDescriptor?_descriptor`: such a class is what
  its class file name and its field descriptor denote.
-/

namespace ServiceCatalog

namespace Text

/-- Parts that do not hold the mark are the parts of what joining them gives. -/
theorem parts_joined {mark : Char} {ps : List String} (h : ∀ p ∈ ps, mark ∉ p.toList) (hne : ps ≠ []) :
    parts mark (joined mark ps) = ps := by
  have hchars : ∀ l ∈ ps.map String.toList, mark ∉ l := by simpa using h
  rw [parts, toList_joined, List.splitOn_intercalate mark hchars (by simpa using hne), List.map_map]
  simp [Function.comp_def]

theorem parts_ne_nil (mark : Char) (s : String) : parts mark s ≠ [] := by
  simp [parts, List.splitOn_ne_nil]

/-- Joining the parts of a text gives the text. -/
theorem joined_parts (mark : Char) (s : String) : joined mark (parts mark s) = s := by
  rw [← String.toList_inj, toList_joined, parts, List.map_map]
  simp [Function.comp_def, List.intercalate_splitOn]

/-- Parts that do not hold the mark can be told apart by what joining them gives. -/
theorem joined_inj {mark : Char} {ps qs : List String} (hps : ∀ p ∈ ps, mark ∉ p.toList) (hps_ne : ps ≠ [])
    (hqs : ∀ q ∈ qs, mark ∉ q.toList) (hqs_ne : qs ≠ []) : joined mark ps = joined mark qs ↔ ps = qs := by
  refine ⟨fun h => ?_, congrArg (joined mark)⟩
  rw [← parts_joined hps hps_ne, h, parts_joined hqs hqs_ne]

/-- The parts of two texts with the mark between them are those of the one and of the other. -/
theorem parts_append (mark : Char) (s s' : String) :
    parts mark (s ++ String.singleton mark ++ s') = parts mark s ++ parts mark s' := by
  simp [parts, List.splitOn, List.splitOnP_append_cons]

/-- A text without the mark is its only part. -/
theorem parts_of_notMem {mark : Char} {s : String} (h : mark ∉ s.toList) : parts mark s = [s] := by
  rw [parts, List.splitOn_eq_singleton h, List.map_singleton, String.ofList_toList]

/-- Texts without the mark are their only parts. -/
theorem flatMap_parts_of_notMem {mark : Char} {ps : List String} (h : ∀ p ∈ ps, mark ∉ p.toList) :
    ps.flatMap (parts mark) = ps := by
  induction ps with
  | nil => rfl
  | cons p ps ih =>
    obtain ⟨hp, hps⟩ := List.forall_mem_cons.mp h
    rw [List.flatMap_cons, parts_of_notMem hp, ih hps]
    rfl

/-- The parts of a joined text are the parts of what was joined. -/
theorem parts_joined_eq_flatMap (mark : Char) {ps : List String} (h : ps ≠ []) :
    parts mark (joined mark ps) = ps.flatMap (parts mark) := by
  induction ps with
  | nil => exact absurd rfl h
  | cons p ps ih =>
    cases ps with
    | nil => rw [joined, String.intercalate_singleton, List.flatMap_singleton]
    | cons q qs =>
      rw [List.flatMap_cons, ← ih (List.cons_ne_nil q qs)]
      simp only [parts, toList_joined, List.map_cons, List.intercalate_cons_cons, List.append_assoc,
        List.singleton_append, List.splitOn_append_cons_self, List.map_append]

/-- No part of a text holds the mark. -/
theorem mark_notMem_of_mem_parts {mark : Char} {s part : String} (h : part ∈ parts mark s) : mark ∉ part.toList := by
  have hchars : ∀ chars : List Char, ∀ l ∈ chars.splitOn mark, mark ∉ l := by
    intro chars
    induction chars with
    | nil => simp
    | cons c chars ih =>
      obtain ⟨head, tail, hsplit⟩ := List.exists_cons_of_ne_nil (List.splitOn_ne_nil mark chars)
      rw [hsplit, List.forall_mem_cons] at ih
      rw [List.splitOn_cons_eq_if_modifyHead, hsplit]
      split
      · exact List.forall_mem_cons.mpr ⟨List.not_mem_nil, List.forall_mem_cons.mpr ih⟩
      · next hc =>
        refine List.forall_mem_cons.mpr ⟨?_, ih.2⟩
        rw [List.mem_cons, not_or]
        exact ⟨fun hmark => hc (by simp [hmark]), ih.1⟩
  obtain ⟨l, hl, rfl⟩ := List.mem_map.mp h
  rw [String.toList_ofList]
  exact hchars s.toList l hl

/-- Joining puts in no character but the mark. -/
theorem notMem_joined {mark c : Char} (hc : c ≠ mark) {ps : List String} (h : ∀ p ∈ ps, c ∉ p.toList) :
    c ∉ (joined mark ps).toList := by
  rw [toList_joined]
  induction ps with
  | nil => exact List.not_mem_nil
  | cons p ps ih =>
    obtain ⟨hp, hps⟩ := List.forall_mem_cons.mp h
    cases ps with
    | nil => simpa using hp
    | cons q qs =>
      rw [List.map_cons, List.map_cons, List.intercalate_cons_cons, ← List.map_cons]
      simp only [List.mem_append, List.mem_singleton, not_or]
      exact ⟨⟨hp, hc⟩, ih hps⟩

/-- Joining keeps the characters of all parts. -/
theorem mem_joined {mark c : Char} {ps : List String} {p : String} (hp : p ∈ ps) (hc : c ∈ p.toList) :
    c ∈ (joined mark ps).toList := by
  rw [toList_joined]
  induction ps with
  | nil => exact absurd hp List.not_mem_nil
  | cons q qs ih =>
    cases qs with
    | nil =>
      obtain rfl : p = q := List.mem_singleton.mp hp
      simpa using hc
    | cons q' qs =>
      rw [List.map_cons, List.map_cons, List.intercalate_cons_cons, ← List.map_cons]
      rcases List.mem_cons.mp hp with rfl | hp
      · exact List.mem_append_left _ (List.mem_append_left _ hc)
      · exact List.mem_append_right _ (ih hp)

/-- Parts of a text hold no characters that the text does not hold. -/
theorem notMem_of_mem_parts {mark c : Char} {s part : String} (hpart : part ∈ parts mark s) (h : c ∉ s.toList) :
    c ∉ part.toList := by
  intro hmem
  exact h (joined_parts mark s ▸ mem_joined hpart hmem)

/-- A change of characters that keeps the parts changes the mark. -/
theorem map_toList_joined {mark : Char} {f : Char → Char} {ps : List String} (h : ∀ p ∈ ps, ∀ c ∈ p.toList, f c = c) :
    (joined mark ps).toList.map f = (joined (f mark) ps).toList := by
  rw [toList_joined, toList_joined]
  induction ps with
  | nil => rfl
  | cons p ps ih =>
    obtain ⟨hp, hps⟩ := List.forall_mem_cons.mp h
    have hpart : p.toList.map f = p.toList := (List.map_congr_left hp).trans (List.map_id _)
    cases ps with
    | nil => simpa using hpart
    | cons q qs =>
      simp only [List.map_cons, List.intercalate_cons_cons, List.map_append, List.map_nil, hpart] at ih ⊢
      rw [ih hps]

/-- Seen from its end, a text without the mark begins with other characters only. -/
theorem bne_of_mem_reverse {mark : Char} {s : String} (h : mark ∉ s.toList) :
    ∀ c ∈ s.toList.reverse, (c != mark) = true := by
  intro c hc
  rw [bne_iff_ne]
  rintro rfl
  exact h (List.mem_reverse.mp hc)

/-- A mark behind which none follows is the last one. -/
theorem cutLast_append {mark : Char} {behind : String} (h : mark ∉ behind.toList) (front : String) :
    cutLast mark (front ++ String.singleton mark ++ behind) = some (front, behind) := by
  have hchars : (front ++ String.singleton mark ++ behind).toList.reverse =
      behind.toList.reverse ++ mark :: front.toList.reverse := by simp
  rw [cutLast, hchars, List.dropWhile_append_of_pos (bne_of_mem_reverse h),
    List.takeWhile_append_of_pos (bne_of_mem_reverse h)]
  simp

/-- A text without the mark has no last one. -/
theorem cutLast_eq_none {mark : Char} {s : String} (h : mark ∉ s.toList) : cutLast mark s = none := by
  rw [cutLast, List.dropWhile_eq_nil_iff.mpr (bne_of_mem_reverse h)]

/-- A mark before which none stands is the first one. -/
theorem cutFirst_append {mark : Char} {front : String} (h : mark ∉ front.toList) (behind : String) :
    cutFirst mark (front ++ String.singleton mark ++ behind) = some (front, behind) := by
  have hfront : ∀ c ∈ front.toList, (c != mark) = true := by
    intro c hc
    rw [bne_iff_ne]
    rintro rfl
    exact h hc
  have hchars : (front ++ String.singleton mark ++ behind).toList = front.toList ++ mark :: behind.toList := by
    simp
  rw [cutFirst, hchars, List.dropWhile_append_of_pos hfront, List.takeWhile_append_of_pos hfront]
  simp

/-- What is cut at a first mark are the two texts around it, of which the one in front does not hold it. -/
theorem cutFirst_eq_some_iff {mark : Char} {s front behind : String} :
    cutFirst mark s = some (front, behind) ↔ mark ∉ front.toList ∧ s = front ++ String.singleton mark ++ behind := by
  constructor
  · intro h
    rw [cutFirst] at h
    split at h
    · exact absurd h nofun
    · next c rest hdrop =>
      obtain ⟨rfl, rfl⟩ := Prod.mk.inj (Option.some.inj h)
      have hmark : c = mark := by
        have hne : s.toList.dropWhile (· != mark) ≠ [] := hdrop ▸ List.cons_ne_nil c rest
        simpa [hdrop] using List.head_dropWhile_not (· != mark) hne
      have hchars : s.toList = s.toList.takeWhile (· != mark) ++ mark :: rest := by
        rw [← hmark, ← hdrop, hmark, List.takeWhile_append_dropWhile]
      refine ⟨fun hmem => ?_, ?_⟩
      · rw [String.toList_ofList] at hmem
        exact absurd (List.mem_takeWhile_imp hmem) (by simp)
      · rw [← String.toList_inj]
        exact hchars.trans (by simp)
  · rintro ⟨hfront, rfl⟩
    exact cutFirst_append hfront behind

/-- What follows a beginning is what has to be put behind it. -/
theorem dropStart?_eq_some_iff {start s rest : String} : dropStart? start s = some rest ↔ s = start ++ rest := by
  rw [dropStart?]
  constructor
  · intro h
    split at h
    · next hstart =>
      obtain ⟨chars, hchars⟩ := List.isPrefixOf_iff_prefix.mp hstart
      rw [← Option.some.inj h, ← String.toList_inj, ← hchars]
      simp
    · exact absurd h nofun
  · rintro rfl
    have hstart : start.toList.isPrefixOf (start ++ rest).toList = true :=
      List.isPrefixOf_iff_prefix.mpr (by simp)
    rw [if_pos hstart]
    simp

/-- The mark stands between the two halves of a cut text. -/
theorem eq_of_cutLast {mark : Char} {s before behind : String} (h : cutLast mark s = some (before, behind)) :
    s = before ++ String.singleton mark ++ behind := by
  rw [cutLast] at h
  split at h
  · exact absurd h nofun
  · next c rest hdrop =>
    obtain ⟨rfl, rfl⟩ := Prod.mk.inj (Option.some.inj h)
    have hmark : c = mark := by
      have hne : s.toList.reverse.dropWhile (· != mark) ≠ [] := hdrop ▸ List.cons_ne_nil c rest
      have hhead := List.head_dropWhile_not (· != mark) hne
      simpa [hdrop] using hhead
    have hchars : s.toList.reverse = s.toList.reverse.takeWhile (· != mark) ++ mark :: rest := by
      rw [← hmark, ← hdrop, hmark, List.takeWhile_append_dropWhile]
    rw [← String.toList_inj, ← List.reverse_inj]
    exact hchars.trans (by simp)

/-- What stands behind the last mark does not hold it. -/
theorem notMem_of_cutLast {mark : Char} {s before behind : String} (h : cutLast mark s = some (before, behind)) :
    mark ∉ behind.toList := by
  rw [cutLast] at h
  split at h
  · exact absurd h nofun
  · obtain ⟨-, rfl⟩ := Prod.mk.inj (Option.some.inj h)
    intro hmem
    rw [String.toList_ofList, List.mem_reverse] at hmem
    exact absurd (List.mem_takeWhile_imp hmem) (by simp)

theorem notMem_of_cutLast_eq_none {mark : Char} {s : String} (h : cutLast mark s = none) : mark ∉ s.toList := by
  rw [cutLast] at h
  split at h
  · next hnil =>
    intro hmem
    exact absurd (List.dropWhile_eq_nil_iff.mp hnil mark (List.mem_reverse.mpr hmem)) (by simp)
  · exact absurd h nofun

end Text

namespace DottedName

/-- Segments that are read from a text are non-empty and free of dots. -/
theorem plain_ofText (s : String) : (ofText s).Plain := by
  intro segment hsegment
  obtain ⟨hpart, hne⟩ := List.mem_filter.mp hsegment
  exact ⟨by simpa using hne, Text.mark_notMem_of_mem_parts hpart⟩

/-- A plain name is what its text denotes. -/
theorem Plain.ofText_text {n : DottedName} (h : n.Plain) : ofText n.text = n := by
  obtain ⟨segments⟩ := n
  cases segments with
  | nil => decide
  | cons s ss =>
    have hparts : Text.parts '.' (text ⟨s :: ss⟩) = s :: ss :=
      Text.parts_joined (fun p hp => (h p hp).2) (List.cons_ne_nil s ss)
    have hfilter : (s :: ss).filter (· ≠ "") = s :: ss :=
      List.filter_eq_self.mpr fun p hp => by simpa using (h p hp).1
    rw [ofText, segmentsOf, hparts, hfilter]

/-- Plain names with one text are equal. -/
theorem Plain.text_inj {a b : DottedName} (ha : a.Plain) (hb : b.Plain) : a.text = b.text ↔ a = b := by
  refine ⟨fun h => ?_, congrArg text⟩
  rw [← ha.ofText_text, h, hb.ofText_text]

end DottedName

namespace ClassName

/-- A package is what its path in class files denotes. -/
theorem packageOfPath_joined {n : DottedName}
    (h : ∀ s ∈ n.segments, s ≠ "" ∧ '.' ∉ s.toList ∧ '/' ∉ s.toList) :
    packageOfPath (Text.joined '/' n.segments) = n := by
  have hkept : ∀ s ∈ n.segments, ∀ d ∈ s.toList, (if d = '/' then '.' else d) = d := by
    intro s hs d hd
    rw [if_neg]
    rintro rfl
    exact (h s hs).2.2 hd
  have hplain : n.Plain := fun s hs => ⟨(h s hs).1, (h s hs).2.1⟩
  rw [packageOfPath, Text.map_toList_joined hkept, if_pos rfl, String.ofList_toList]
  exact hplain.ofText_text

/-- Slashes cut the path of a package. -/
theorem notMem_packageOfPath (path : String) : ∀ segment ∈ (packageOfPath path).segments, '/' ∉ segment.toList := by
  intro segment hsegment
  have hnone : '/' ∉ path.toList.map fun c => if c = '/' then '.' else c := by
    intro hmem
    obtain ⟨c, -, hc⟩ := List.mem_map.mp hmem
    by_cases hslash : c = '/'
    · rw [if_pos hslash] at hc
      exact absurd hc (by decide)
    · rw [if_neg hslash] at hc
      exact hslash hc
  rw [packageOfPath, DottedName.ofText, DottedName.segmentsOf] at hsegment
  exact Text.notMem_of_mem_parts (List.mem_filter.mp hsegment).1 (by rwa [String.toList_ofList])

/-- The last mark of a written form stands behind the package, if there is one. -/
theorem cutLast_written {c : ClassName} {mark : Char} (hmark : mark ≠ '$')
    (hpath : ∀ s ∈ c.relative.segments, mark ∉ s.toList) :
    Text.cutLast mark (c.written mark) = if c.package.isRoot then none
      else some (Text.joined mark c.package.segments, Text.joined '$' c.relative.segments) := by
  have hnotMem : mark ∉ (Text.joined '$' c.relative.segments).toList := Text.notMem_joined hmark hpath
  rw [written]
  split
  · exact Text.cutLast_eq_none hnotMem
  · exact Text.cutLast_append hnotMem _

/-- Whether the written forms of a class can be cut again: the marks between its segments stand in none of them, no
segment of the package is empty, and the path has segments, all of which can be written in a source text. -/
structure Separable (c : ClassName) : Prop where
  package : ∀ s ∈ c.package.segments, s ≠ "" ∧ '.' ∉ s.toList ∧ '/' ∉ s.toList
  relative_ne_nil : c.relative.segments ≠ []
  relative : ∀ s ∈ c.relative.segments, isNameable s = true ∧ '/' ∉ s.toList ∧ '$' ∉ s.toList

namespace Separable

variable {c : ClassName} (h : c.Separable)

include h

/-- The path is what its text in class files denotes. -/
theorem relativeOf?_joined : relativeOf? (Text.joined '$' c.relative.segments) = some c.relative := by
  have hparts : Text.parts '$' (Text.joined '$' c.relative.segments) = c.relative.segments :=
    Text.parts_joined (fun s hs => (h.relative s hs).2.2) h.relative_ne_nil
  have hall : c.relative.segments.all isNameable = true := List.all_eq_true.mpr fun s hs => (h.relative s hs).1
  simp only [relativeOf?, hparts, if_pos hall]

/-- A class is what its name in class files denotes. -/
theorem ofInternal?_internal : ofInternal? c.internal = some c := by
  have hcut := cutLast_written (show '/' ≠ '$' by decide) fun s hs => (h.relative s hs).2.1
  rw [ofInternal?, internal, hcut]
  by_cases hroot : c.package.isRoot
  · have hpackage : c.package = .root := congrArg DottedName.mk (List.isEmpty_iff.mp hroot)
    simp only [if_pos hroot, written, h.relativeOf?_joined, Option.map_some, ← hpackage]
  · simp only [if_neg hroot, h.relativeOf?_joined, Option.map_some, packageOfPath_joined h.package]

/-- A class is what its field descriptor denotes. -/
theorem ofDescriptor?_descriptor : ofDescriptor? c.descriptor = some c := by
  have hstart : Text.dropStart? "L" c.descriptor = some (c.internal ++ ";") := by
    simp [Text.dropStart?, descriptor]
  have hend : Text.dropEnd? ";" (c.internal ++ ";") = some c.internal := by
    simp [Text.dropEnd?]
  rw [ofDescriptor?, hstart, Option.bind_some, hend, Option.bind_some, h.ofInternal?_internal]

end Separable

end ClassName

end ServiceCatalog
