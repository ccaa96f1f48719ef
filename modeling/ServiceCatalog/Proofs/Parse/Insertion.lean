import ServiceCatalog.Proofs.Parse.LineStart

/-!
# A function or a property between two members

Wherever a member that is kept begins, or a body ends, a function or a property may be inserted: what the reader keeps
stays the same.
-/

namespace ServiceCatalog

open TokenParser

/-! ## An interface behind a function's keyword -/

/-- An interface behind the keyword of a function is one with a single function. -/
theorem Reads.behind_fun {c k : Cursor} {ms : List Member} (h : Reads c.advance ms k) (hc : c.Sound)
    (hkind : c.kind = .fun) (hinterface : c.advance.kind = .interface) (hk : k.kind ≠ .interface) :
    ∃ ms', Reads c ms' k ∧ unplaced ms' = unplaced ms := by
  have hitem : c.IsAtItem := ⟨by rw [hkind]; nofun, by rw [hkind]; nofun, by rw [hkind]; nofun⟩
  have hpreamble : preamble c = .ok ⟨[], []⟩ c := preamble_of_kind (by rw [hkind]; decide)
  have hpreamble' : preamble c.advance = .ok ⟨[], []⟩ c.advance := preamble_of_kind (by rw [hinterface]; decide)
  have hclass : classKind? [] c = some .interface := by
    rw [Cursor.kind_advance hc (by rw [hkind]; nofun)] at hinterface
    simp [classKind?, hkind, hinterface]
  have hclass' : classKind? [] c.advance = some .interface := by simp [classKind?, hinterface]
  have hheads : ∀ {as kind name ts c₁}, ReadsHead c.advance as kind name ts c₁ → ReadsHead c as kind name ts c₁ := by
    rintro as kind name ts c₁ ⟨-, hbefore, hkind', hhead⟩
    rw [hpreamble'] at hbefore
    cases hbefore
    obtain rfl : ClassKind.interface = kind := Option.some.inj (hclass'.symm.trans hkind')
    refine .mk hitem hpreamble hclass ?_
    have hnaming : classNaming .interface c = classNaming .interface c.advance := by
      unfold classNaming
      rw [bind_eq_match, bind_eq_match]
      simp only [eat, Cursor.isAt, hkind, hinterface]
      rfl
    rw [classHead_eq, bind_eq_match, hnaming, ← bind_eq_match, ← classHead_eq]
    exact hhead
  have hnot : ∀ {before c₁}, preamble c.advance = .ok before c₁ → c₁.kind = .interface ∧
      classKind? before.modifiers c₁ = some .interface := fun hbefore => by
    rw [hpreamble'] at hbefore
    cases hbefore
    exact ⟨hinterface, hclass'⟩
  cases h with
  | nil => exact absurd hinterface hk
  | mark hsemicolon =>
    rw [hinterface] at hsemicolon
    contradiction
  | typeAlias _ hbefore hkeyword =>
    rw [(hnot hbefore).1] at hkeyword
    contradiction
  | bodiless hhead hbrace hothers =>
    exact ⟨_, .bodiless (hheads hhead) hbrace hothers, congrArg₂ List.cons (Seam.unplaced_class _ rfl rfl rfl rfl) rfl⟩
  | embodied hhead hbrace hinner hclose hothers =>
    exact ⟨_, .embodied (hheads hhead) hbrace hinner hclose hothers,
      congrArg₂ List.cons (Seam.unplaced_class _ rfl rfl rfl rfl) rfl⟩
  | passed _ hbefore _ hnone =>
    rw [(hnot hbefore).2] at hnone
    contradiction

/-! ## A member between two others -/

namespace Seam

variable {s : Seam} {q q' c c' k k' : Cursor}

/-- Whether a function or a property is inserted at a cursor of the first file, behind which the second file goes on
alike. -/
structure Inserts (s : Seam) (q q' : Cursor) : Prop where
  sound : s.Sound
  isOpen : s.isClosed = false
  rest : q.rest = s.rest
  skips : s.Skips q'
  selector : q.isAfterSelector = false
  starts : Starts s.eof s.eof' q q'

theorem unplaced_append {α : Type} [HasPlaces α] (as bs : List α) : unplaced (as ++ bs) = unplaced as ++ unplaced bs :=
  List.map_append

namespace Inserts

variable (h : s.Inserts q q')

include h

theorem size : q.size = s.rest.length := by rw [Cursor.size, h.rest]

theorem atSeam (hnear : s.Near q k') : s.AtSeam q k' := by
  rcases hnear.cases with hat | hbefore
  · exact hat
  · exact absurd hbefore.length_lt (by rw [h.size]; exact Nat.lt_irrefl _)

/-- Members in front of the place are read alike. -/
theorem reads_front {ms : List Member} (hfront : Reads c ms q) (hnear : s.Near c c') :
    ∃ ms' k', Reads c' ms' k' ∧ unplaced ms' = unplaced ms ∧ (s.AtSeam q k' ∨ s.Lands q' q k') := by
  obtain ⟨ms', k', hreads, hms, hparts⟩ := reads_of_near h.sound h.isOpen (fun _ => h.skips) hfront hnear
    (Nat.le_of_eq h.size.symm) (fun _ _ => h.selector) fun hdoomed => absurd hdoomed.front (by rw [h.size]; exact Nat.lt_irrefl _)
  exact ⟨ms', k', hreads, hms, hparts.imp_left h.atSeam⟩

/-- What is inserted is passed, or it is the keyword of a function that an interface follows. -/
theorem reads_inserted {ms : List Member} (hat : s.AtSeam q c') (hc' : c'.Sound) (hothers : Reads q' ms k)
    (hk : k.kind ≠ .interface) : ∃ ms', Reads c' ms' k ∧ unplaced ms' = unplaced ms := by
  by_cases hfun : c'.kind = .fun ∧ c'.secondKind = .interface
  · obtain ⟨hkind, hsecond⟩ := hfun
    have hadvance : c'.advance.kind = .interface := by
      rw [Cursor.kind_advance hc' (by rw [hkind]; nofun), hsecond]
    have hone : skipOne c' = .ok () c'.advance := by
      unfold skipOne
      rw [hkind]
      rfl
    have hmember : c'.advance.isAtMember = true := by
      have hselector : c'.advance.isAfterSelector = false := by
        rw [Cursor.isAfterSelector_advance hc' (by rw [hkind]; nofun), hkind]
        rfl
      simp only [Cursor.isAtMember, hadvance, hselector, Bool.not_false]
    have hskip : skipMember c' = ([], c'.advance) := by
      have hpassed : skipMemberFrom true c' = skipMemberFrom false c'.advance :=
        skipMemberFrom_of_skipOne (by rw [hkind]; decide) rfl hone (Cursor.size_advance_lt hc' (by rw [hkind]; nofun))
      rw [skipMember, hpassed, skipMemberFrom_of_isAtMember hmember]
    obtain rfl : c'.advance = q' := congrArg Prod.snd (hskip.symm.trans (h.skips.skip q c' hat))
    exact hothers.behind_fun hc' hkind hadvance hk
  · have hreads := hat.reads h.sound h.isOpen h.skips h.starts.goes_on fun hkind hsecond => hfun ⟨hkind, hsecond⟩
    exact ⟨ms, hreads.append hothers, rfl⟩

/-- Where a function or a property is inserted between the members that are read, those that are kept stay the same, by
induction on where the place is. -/
theorem exists_reads {ms : List Member} (hplace : Boundary q c ms k) (hnear : s.Near c c')
    (hk : k.kind = .eof ∨ k.kind = .rightBrace) : ∃ ms' k', Reads c' ms' k' ∧ unplaced ms' = unplaced ms ∧
      k'.kind = k.kind ∧ (ends s.eof s.eof').Near k.advance k'.advance := by
  have hs₂ : (ends s.eof s.eof').Sound :=
    .atEnd (hnear.eof ▸ hnear.sound.eof) (hnear.eof' ▸ hnear.sound'.eof)
  induction hplace generalizing c' with
  | @front c k ms others hfront hkept hothers =>
    obtain ⟨ms₁, d', hreads, hms₁, hat | hlands⟩ := h.reads_front hfront hnear
    · obtain ⟨ms₂, k', hothers', hms₂, hkind, hadvance⟩ := h.starts.reads hkept hothers hk
      have hd' : d'.Sound := (hreads.precedes hnear.sound').sound hnear.sound'
      obtain ⟨ms₃, hinserted, hms₃⟩ := h.reads_inserted hat hd' hothers' (by rw [hkind]; rcases hk with hk | hk <;> rw [hk] <;> nofun)
      refine ⟨ms₁ ++ ms₃, k', hreads.append hinserted, ?_, hkind, hadvance⟩
      rw [unplaced_append, unplaced_append, hms₁, hms₃, hms₂]
    · exact absurd hlands.brace hkept.not_brace
  | @back c ms hfront hclose =>
    obtain ⟨ms', d', hreads, hms, hat | hlands⟩ := h.reads_front hfront hnear
    · have hinserted := hat.reads h.sound h.isOpen h.skips h.starts.goes_on (h.skips.second q d' hat (by rw [hclose]; nofun))
      refine ⟨ms' ++ [], q', hreads.append hinserted, by rw [List.append_nil, hms], h.starts.kind, h.starts.advance⟩
    · exact ⟨ms' ++ [], q', hreads.append hlands.reads, by rw [List.append_nil, hms], h.starts.kind, h.starts.advance⟩
  | @inside c c₁ c₂ c₃ k as kind name ts ms inner others hfront hhead hbrace hinner hclose hothers ihinner =>
    have hc₁ := (hfront.precedes hnear.sound).sound hnear.sound
    have hmoves := hhead.precedes hc₁
    have hc₂ := hmoves.sound hc₁
    have hlength : s.rest.length < c₂.size := by
      have hle := (hinner.precedes hc₂.advance).size_le
      have hless := Cursor.size_advance_lt hc₂ (by rw [hbrace]; nofun)
      rw [h.size] at hle
      omega
    have hclear : ∀ {d : Cursor}, c₂.size ≤ d.size → s.Clear d := fun hd hsize => by omega
    have hreached : s.rest.length ≤ c₁.size := Nat.le_trans (Nat.le_of_lt hlength) hmoves.size_le
    obtain ⟨ms₁, c₁', hreads, hms₁, hnear₁ | hlands⟩ := reads_of_near h.sound h.isOpen (fun _ => h.skips) hfront hnear
      hreached (hclear hmoves.size_le) (not_doomed_of_head hhead hc₁ (Nat.le_of_lt hlength))
    · obtain ⟨as', name', ts', c₂', hhead', has, hname, hts, hbrace', hnear₂⟩ := near_of_readsHead h.sound h.isOpen hhead
        hnear₁ (Nat.le_of_lt hlength) (hclear (Nat.le_refl _)) hbrace
      obtain ⟨inner', c₃', hinner', hinners, hclose', hnear₃⟩ := ihinner hnear₂ (.inr hclose)
      obtain ⟨others', k', hothers', hms₂, hkind, hadvance⟩ := reads_behind hs₂ hothers hnear₃ hk
      refine ⟨_, k', hreads.append (.embodied hhead' hbrace' hinner' (hclose'.trans hclose) hothers'), ?_, hkind, hadvance⟩
      rw [unplaced_append, unplaced_append, hms₁]
      exact congrArg (_ ++ ·) (congrArg₂ List.cons (unplaced_class kind hname has hts (unplaced_classes hinners)) hms₂)
    · obtain ⟨hitem, -⟩ := hhead
      exact absurd hlands.brace hitem.not_brace

end Inserts

end Seam

end ServiceCatalog
