import ServiceCatalog.Proofs.ClassFile.RoundTrip
import ServiceCatalog.Proofs.ClassFile.Values

/-!
# Class files that are cut off

A class file says nowhere how long it is.  What is read of it is decided by a front of its bytes all the same: behind
the front any bytes may follow, and no shorter front would have done, for a reader that is given less asks for a byte
that is missing before it comes to any other judgement.

`Decides item front a` says this of one reader and one front, and `Steady` says that every answer of a reader is decided
by the front that it takes.  Readers in a row are steady if each of them is, so the property passes from the bytes
through counted lists to the nested values of annotations and to the whole file.  The body of an attribute is taken
before it is read, so that a cut of the file never shows in it; a body that is itself too short shows the same way.

* `ByteReader.Steady.bind`, `ByteReader.Steady.counted`: steady readers in a row.
* `AnnotationRecord.steady_readValue`: values of annotations, by the number of bytes that are left.
* `AnnotationRecord.readAll_decided`: the body of an attribute.
* `ClassFile.parse_decided`: a class file is decided by the bytes that are read of it.
-/

namespace ServiceCatalog

namespace ByteReader

variable {α β : Type} {n k : Nat} {item item' : ByteReader α} {front front' : List UInt8} {a : α} {b : β}

/-! ## Fronts that decide -/

/-- Whether a front of bytes decides what a reader answers: it is read as the answer whatever follows it, and of any
shorter front bytes are missing. -/
structure Decides (item : ByteReader α) (front : List UInt8) (a : α) : Prop where
  reads : ∀ n, Reads n item front a
  short : ∀ k < front.length, RunsOut item (front.take k)

theorem decides_nil (h : ∀ n, Reads n item [] a) : Decides item [] a := ⟨h, nofun⟩

/-- A cut in the second front leaves the first one whole. -/
theorem Decides.bind {f : α → ByteReader β} (h : Decides item front a) (hf : Decides (f a) front' b) :
    Decides (item >>= f) (front ++ front') b := by
  refine ⟨fun n => (h.reads n).bind (hf.reads n), fun k hk => runsOut_bind_iff.mpr ?_⟩
  rw [List.length_append] at hk
  rcases Nat.lt_or_ge k front.length with hlt | hge
  · rw [List.take_append_of_le_length (Nat.le_of_lt hlt)]
    exact .inl (h.short k hlt)
  · have htake : (front ++ front').take k = front ++ front'.take (k - front.length) := by
      rw [List.take_append, List.take_of_length_le hge]
    rw [htake]
    exact .inr ⟨a, _, h.reads _ _ (Nat.lt_succ_self _), hf.short _ (by omega)⟩

/-- A reader takes over from one that follows it and that it follows. -/
theorem Decides.congr (h : Decides item front a) (hsame : ∀ n, Follows n item item') : Decides item' front a := by
  refine ⟨fun n rest hn => ?_, fun k hk => ?_⟩
  · exact ((hsame n).ok _ a rest hn (h.reads n rest hn)).1
  · exact (hsame _).short _ (Nat.lt_succ_self _) (h.short k hk)

/-! ## Steady readers -/

/-- Whether every answer of a reader about fewer than `n` bytes is decided by the front that it takes. -/
def Steady (n : Nat) (item : ByteReader α) : Prop :=
  ∀ bytes a rest, bytes.length < n → item bytes = .ok a rest → ∃ front, bytes = front ++ rest ∧ Decides item front a

theorem steady_pure (a : α) : Steady n (pure a) := by
  rintro bytes _ _ - ⟨⟩
  exact ⟨[], rfl, decides_nil fun _ => reads_pure a⟩

theorem steady_throw (e : ClassFileError) : Steady n (throw e : ByteReader α) := by
  intro bytes a rest _ h
  exact absurd h nofun

/-- Readers in a row, of which the second one has fewer than `k` bytes left. -/
theorem Steady.bind_of {f : α → ByteReader β} (h : Steady n item)
    (hleft : ∀ bytes a mid, bytes.length < n → item bytes = .ok a mid → mid.length < k) (hf : ∀ a, Steady k (f a)) :
    Steady n (item >>= f) := by
  intro bytes b rest hn hbind
  obtain ⟨a, mid, hitem, hrest⟩ := bind_ok_iff.mp hbind
  have hmid := hleft bytes a mid hn hitem
  obtain ⟨front, rfl, hfront⟩ := h bytes a mid hn hitem
  obtain ⟨front', rfl, hfront'⟩ := hf a mid b rest hmid hrest
  exact ⟨front ++ front', (List.append_assoc ..).symm, hfront.bind hfront'⟩

theorem Steady.length_le (h : Steady n item) {bytes rest : List UInt8} (hn : bytes.length < n)
    (hitem : item bytes = .ok a rest) : rest.length ≤ bytes.length := by
  obtain ⟨front, rfl, -⟩ := h bytes a rest hn hitem
  rw [List.length_append]
  exact Nat.le_add_left ..

theorem Steady.bind {f : α → ByteReader β} (h : Steady n item) (hf : ∀ a, Steady n (f a)) : Steady n (item >>= f) :=
  h.bind_of (fun _ _ _ hn hitem => Nat.lt_of_le_of_lt (h.length_le hn hitem) hn) hf

theorem Steady.bind_pure {f : α → β} (h : Steady n item) : Steady n (item >>= fun a => pure (f a)) :=
  h.bind fun _ => steady_pure _

theorem steady_ite {p : Prop} [Decidable p] (h : Steady n item) (h' : Steady n item') :
    Steady n (if p then item else item') := by
  split
  · exact h
  · exact h'

theorem steady_take (k : Nat) : Steady n (take k) := by
  intro bytes front rest _ h
  obtain ⟨rfl, hlength⟩ := take_eq_ok_iff.mp h
  refine ⟨front, rfl, fun _ => reads_take hlength, fun j hj => runsOut_take_iff.mpr ?_⟩
  rw [List.length_take]
  omega

theorem steady_skip (k : Nat) : Steady n (skip k) := (steady_take k).bind_pure

theorem steady_number (width : Nat) : Steady n (number width) := by
  rw [number_eq]
  exact (steady_take width).bind_pure

theorem steady_wideNumber : Steady n wideNumber :=
  (steady_number 4).bind fun _ => (steady_number 4).bind_pure

/-- A reader that goes on after a tag has one byte less left. -/
theorem steady_tagged {f : Nat → ByteReader β} (h : ∀ tag, Steady n (f tag)) : Steady (n + 1) (number 1 >>= f) :=
  (steady_number 1).bind_of (fun _ _ _ hn htag => Nat.lt_of_lt_of_le (length_lt_of_tag htag) (Nat.le_of_lt_succ hn)) h

theorem Steady.times (h : Steady n item) : ∀ k, Steady n (times k item)
  | 0 => steady_pure []
  | k + 1 => h.bind fun _ => (h.times k).bind_pure

theorem Steady.counted (h : Steady n item) : Steady n (counted item) := (steady_number 2).bind h.times

theorem steady_ofExcept (e : Except ClassFileError α) : Steady n (ofExcept e) := by
  cases e with
  | ok a => exact steady_pure a
  | error e => exact steady_throw e

/-- A part that was taken before is whole. -/
theorem steady_within (part : List UInt8) (item : ByteReader α) : Steady n (within part item) := by
  intro bytes a rest _ h
  rw [within] at h
  split at h
  · next a' hanswer =>
    obtain ⟨rfl, rfl⟩ := EStateM.Result.ok.inj h
    exact ⟨[], rfl, decides_nil fun _ => reads_within hanswer⟩
  · cases h

theorem answer_eq_ok_iff {bytes : List UInt8} : answer item bytes = .ok a ↔ ∃ rest, item bytes = .ok a rest := by
  rw [answer]
  cases item bytes <;> simp

theorem answer_of_runsOut {bytes : List UInt8} (h : RunsOut item bytes) :
    answer item bytes = .error .unexpectedEof := by
  obtain ⟨left, h⟩ := h
  rw [answer, h]

/-- What a steady reader takes decides its answer.  With any other bytes behind, it answers the same and leaves these
bytes; of any shorter front bytes are missing, and nothing else is wrong with it. -/
theorem Steady.answer_decided (h : ∀ n, Steady n item) {bytes : List UInt8} (hanswer : answer item bytes = .ok a) :
    ∃ n ≤ bytes.length, item bytes = .ok a (bytes.drop n) ∧
      (∀ more, item (bytes.take n ++ more) = .ok a more ∧ answer item (bytes.take n ++ more) = .ok a) ∧
      ∀ k < n, answer item (bytes.take k) = .error .unexpectedEof := by
  obtain ⟨rest, hitem⟩ := answer_eq_ok_iff.mp hanswer
  obtain ⟨front, rfl, hfront⟩ := h _ bytes a rest (Nat.lt_succ_self _) hitem
  have hreads : ∀ more, item (front ++ more) = .ok a more := fun more => hfront.reads _ more (Nat.lt_succ_self _)
  refine ⟨front.length, by simp, ?_, fun more => ?_, fun k hk => ?_⟩
  · rw [List.drop_left]
    exact hitem
  · rw [List.take_left]
    exact ⟨hreads more, answer_eq_ok_iff.mpr ⟨more, hreads more⟩⟩
  · rw [List.take_append_of_le_length (Nat.le_of_lt hk)]
    exact answer_of_runsOut (hfront.short k hk)

theorem steady_expectMagic : Steady n expectMagic :=
  (steady_number 4).bind fun _ => steady_ite (steady_throw _) (steady_pure _)

end ByteReader

open ByteReader

variable {n : Nat}

/-! ## Constants -/

namespace ConstantPool

theorem steady_readConstant (index : Nat) : Steady n (readConstant index) := by
  refine (steady_number 1).bind fun tag => ?_
  split
  · refine (steady_number 2).bind fun length => (steady_take length).bind fun bytes => ?_
    cases decodeText? bytes with
    | some s => exact steady_pure _
    | none => exact steady_throw _
  · exact (steady_number 4).bind_pure
  · exact (steady_number 4).bind_pure
  · exact steady_wideNumber.bind_pure
  · exact steady_wideNumber.bind_pure
  · exact (steady_number 2).bind_pure
  · exact (steady_number 2).bind_pure
  · cases OpaqueKind.ofTag? tag with
    | some kind => exact (steady_skip kind.payload).bind_pure
    | none => exact steady_throw _

theorem steady_readSlots (count index : Nat) : Steady n (readSlots count index) := by
  induction index using readSlots.induct count with
  | case1 index hlt ih =>
    rw [readSlots, if_pos hlt]
    exact (steady_readConstant index).bind fun c => (ih c).bind_pure
  | case2 index hge =>
    rw [readSlots, if_neg hge]
    exact steady_pure []

theorem steady_read : Steady n read := (steady_number 2).bind fun count => (steady_readSlots count 1).bind_pure

end ConstantPool

/-! ## Annotations -/

namespace AnnotationRecord

variable {α : Type} {pool : ConstantPool} {value : ByteReader ElementValue}

theorem steady_lookUp (find : Nat → Except ClassFileError α) : Steady n (lookUp find) :=
  (steady_number 2).bind fun index => steady_ofExcept (find index)

theorem steady_readElement (hvalue : Steady n value) : Steady n (readElement pool value) :=
  (steady_lookUp pool.utf8).bind fun _ => hvalue.bind_pure

theorem steady_readWith (hvalue : Steady n value) : Steady n (readWith pool value) :=
  (steady_lookUp pool.utf8).bind fun _ => (steady_readElement hvalue).counted.bind_pure

theorem ValueForm.steady_read (hvalue : Steady n value) (form : ValueForm) : Steady n (form.read pool value) := by
  cases form with
  | integer | string | «class» => exact (steady_lookUp _).bind_pure
  | number => exact steady_lookUp _
  | enum => exact (steady_lookUp _).bind fun _ => (steady_lookUp _).bind_pure
  | nested => exact (steady_readWith hvalue).bind_pure
  | array => exact hvalue.counted.bind_pure
  | unknown tag => exact steady_throw _

theorem steady_readValueWith (hvalue : Steady n value) : Steady (n + 1) (readValueWith pool value) := by
  rw [readValueWith_eq]
  exact steady_tagged fun tag => (ValueForm.ofTag (Char.ofNat tag)).steady_read hvalue

/-- A value is read from a byte on, and so are the values inside it. -/
theorem steady_readValue (pool : ConstantPool) (n : Nat) : Steady n (readValue pool) := by
  induction n with
  | zero => exact nofun
  | succ n ih =>
    intro bytes v rest hn hread
    have hunfolded := ((follows_unfolded pool _).ok bytes v rest (Nat.lt_succ_self _) hread).1
    obtain ⟨front, hbytes, hfront⟩ := steady_readValueWith ih bytes v rest hn hunfolded
    exact ⟨front, hbytes, hfront.congr (unfolded_follows pool)⟩

theorem steady_readAll (pool : ConstantPool) : Steady n (readAll pool) :=
  (steady_readWith (steady_readValue pool n)).counted

/-- What is read of the body of an attribute decides the annotations in it, and a body that ends before is cut off. -/
theorem readAll_decided {body : List UInt8} {annotations : List AnnotationRecord}
    (h : answer (readAll pool) body = .ok annotations) :
    ∃ n ≤ body.length, readAll pool body = .ok annotations (body.drop n) ∧
      (∀ more, readAll pool (body.take n ++ more) = .ok annotations more ∧
        answer (readAll pool) (body.take n ++ more) = .ok annotations) ∧
      ∀ k < n, answer (readAll pool) (body.take k) = .error .unexpectedEof := by
  have hread : ∀ n, Steady n (readAll pool) := fun _ => steady_readAll pool
  exact Steady.answer_decided hread h

end AnnotationRecord

/-! ## Class files -/

namespace ClassFile

open AnnotationRecord

theorem steady_skipAttribute : Steady n skipAttribute :=
  (steady_skip 2).bind fun _ => (steady_number 4).bind steady_skip

theorem steady_skipMember : Steady n skipMember :=
  (steady_skip 6).bind fun _ => steady_skipAttribute.counted.bind_pure

theorem steady_readSuperclass (pool : ConstantPool) : Steady n (readSuperclass pool) := by
  refine (steady_number 2).bind fun index => ?_
  cases index with
  | zero => exact steady_pure none
  | succ index => exact (steady_ofExcept _).bind_pure

theorem steady_readAttribute (pool : ConstantPool) : Steady n (readAttribute pool) :=
  (steady_lookUp pool.utf8).bind fun _ => (steady_number 4).bind fun length =>
    (steady_take length).bind fun body => steady_within body _

theorem steady_read : Steady n read :=
  steady_expectMagic.bind fun _ => (steady_skip 4).bind fun _ => ConstantPool.steady_read.bind fun pool =>
    (steady_number 2).bind fun _ => (steady_lookUp pool.className).bind fun _ =>
      (steady_readSuperclass pool).bind fun _ => (steady_lookUp pool.className).counted.bind fun _ =>
        steady_skipMember.counted.bind fun _ => steady_skipMember.counted.bind fun _ =>
          (steady_readAttribute pool).counted.bind_pure

/-- What is read of a class file decides it.  With any other bytes behind, the same class file is read and these bytes
are left; of any shorter front bytes are missing, and nothing else is wrong with it. -/
theorem parse_decided {bytes : List UInt8} {f : ClassFile} (h : parse bytes = .ok f) :
    ∃ n ≤ bytes.length, read bytes = .ok f (bytes.drop n) ∧
      (∀ more, read (bytes.take n ++ more) = .ok f more ∧ parse (bytes.take n ++ more) = .ok f) ∧
      ∀ k < n, parse (bytes.take k) = .error .unexpectedEof := by
  have hread : ∀ n, Steady n read := fun _ => steady_read
  exact Steady.answer_decided hread h

/-! ### A file with bytes behind it -/

namespace CutOff

/-- A class file with a nested value, which asks for every kind of reader. -/
def spec : ClassSpec :=
  ⟨"a/B", [.interface "a/I", .visible ⟨"La/M;", [("value", .array [.class "LI;", .nested ⟨"La/N;", []⟩])]⟩]⟩

theorem fits_spec : spec.Fits := by
  refine ⟨by decide +kernel, by decide +kernel, ?_, by decide, by decide, by decide, by decide, by decide⟩
  simp [spec, ClassCall.Fits, AnnotationRecord.Fits, AnnotationRecord.ElementsFit, ElementValue.Fits,
    ElementValue.AllFit]

/-- Two bytes behind a file are left, and do not change it; a cut inside it shows. -/
theorem parse_spec_decided : parse (spec.build ++ [0xCA, 0xFE]) = .ok spec.described ∧
    ∃ n ≤ (spec.build ++ [0xCA, 0xFE]).length,
      read (spec.build ++ [0xCA, 0xFE]) = .ok spec.described ((spec.build ++ [0xCA, 0xFE]).drop n) ∧
      (∀ more, read ((spec.build ++ [0xCA, 0xFE]).take n ++ more) = .ok spec.described more ∧
        parse ((spec.build ++ [0xCA, 0xFE]).take n ++ more) = .ok spec.described) ∧
      ∀ k < n, parse ((spec.build ++ [0xCA, 0xFE]).take k) = .error .unexpectedEof := by
  have hparse : parse (spec.build ++ [0xCA, 0xFE]) = .ok spec.described :=
    answer_eq_ok_iff.mpr ⟨_, ClassSpec.reads_build fits_spec _ (Nat.lt_succ_self _)⟩
  exact ⟨hparse, parse_decided hparse⟩

end CutOff

end ClassFile

end ServiceCatalog
