import ServiceCatalog.ClassFile.Layout
import ServiceCatalog.Proofs.ClassFile.Truncation

/-!
# Class files are read by their layout

A part of a class file is passed or read by the numbers in front of it, so these have to be added up exactly, whatever
the bytes of the part look like.  `Answers item front good` says that a reader takes given bytes, whatever follows them,
and what it may answer.  The parts of a layout are read like this one by one, and so is the whole: what a layout
describes is what is read of it.  Conversely the bytes that are read as a class file are those of a layout, which is
found part by part as well; `Splits item encode ok` says this of one reader.

* `ByteReader.Answers.bind`, `ByteReader.answers_counted`: known bytes in a row.
* `ClassLayout.Describes`: the class file of a layout, in which neither the version nor a member plays a part.
* `ClassFile.answers_read`: the class files that may be read of a layout are those that it describes.
* `ClassFile.exists_layout`: whatever is read as a class file has a layout.
-/

namespace ServiceCatalog

namespace ByteReader

variable {α β γ : Type} {item : ByteReader α} {front front' : List UInt8} {good : α → Prop} {a : α} {k : Nat}

/-! ## Reading known bytes -/

/-- Whether a reader takes given bytes and no more, whatever follows them, and answers what is good, if anything. -/
def Answers (item : ByteReader α) (front : List UInt8) (good : α → Prop) : Prop :=
  ∀ mid a rest, item (front ++ mid) = .ok a rest ↔ rest = mid ∧ good a

theorem answers_of_reads (h : ∀ n, Reads n item front a) : Answers item front (· = a) := by
  intro mid a' rest
  rw [h _ mid (Nat.lt_succ_self _)]
  constructor
  · rintro ⟨⟩
    exact ⟨rfl, rfl⟩
  · rintro ⟨rfl, rfl⟩
    rfl

theorem Answers.bind {f : α → ByteReader β} {good' : α → β → Prop} (h : Answers item front good)
    (hf : ∀ a, good a → Answers (f a) front' (good' a)) :
    Answers (item >>= f) (front ++ front') fun b => ∃ a, good a ∧ good' a b := by
  intro mid b rest
  rw [List.append_assoc, bind_ok_iff]
  constructor
  · rintro ⟨a, left, hitem, hrest⟩
    obtain ⟨rfl, ha⟩ := (h _ a left).mp hitem
    obtain ⟨rfl, hb⟩ := (hf a ha mid b rest).mp hrest
    exact ⟨rfl, a, ha, hb⟩
  · rintro ⟨rfl, a, ha, hb⟩
    exact ⟨a, front' ++ rest, (h _ a _).mpr ⟨rfl, ha⟩, (hf a ha rest b rest).mpr ⟨rfl, hb⟩⟩

theorem Answers.congr {good' : α → Prop} (h : Answers item front good) (hgood : ∀ a, good a ↔ good' a) :
    Answers item front good' :=
  fun mid a rest => (h mid a rest).trans (and_congr_right fun _ => hgood a)

theorem answers_pure (a : α) : Answers (pure a) [] (· = a) := answers_of_reads fun _ => reads_pure a

/-- A reader behind which nothing more is taken. -/
theorem Answers.bind_nil {f : α → ByteReader β} {good' : α → β → Prop} (h : Answers item front good)
    (hf : ∀ a, good a → Answers (f a) [] (good' a)) : Answers (item >>= f) front fun b => ∃ a, good a ∧ good' a b := by
  have hbind := h.bind hf
  rwa [List.append_nil] at hbind

theorem Answers.bind_pure {f : α → β} (h : Answers item front good) :
    Answers (item >>= fun a => pure (f a)) front fun b => ∃ a, good a ∧ b = f a :=
  h.bind_nil fun a _ => answers_pure (f a)

/-- A reader of which the answer is known. -/
theorem Answers.bind_reads {f : α → ByteReader β} {good' : β → Prop} (h : ∀ n, Reads n item front a)
    (hf : Answers (f a) front' good') : Answers (item >>= f) (front ++ front') good' := by
  have hbind : Answers (item >>= f) (front ++ front') fun b => ∃ a', a' = a ∧ good' b := by
    refine (answers_of_reads h).bind ?_
    rintro _ rfl
    exact hf
  exact hbind.congr fun b => exists_eq_left

theorem answers_ofExcept (e : Except ClassFileError α) : Answers (ofExcept e) [] fun a => e = .ok a := by
  cases e with
  | ok a => exact (answers_pure a).congr fun a' => ⟨fun h => h ▸ rfl, fun h => (Except.ok.inj h).symm⟩
  | error e => exact fun mid a rest => ⟨nofun, fun h => absurd h.2 nofun⟩

theorem answers_within (part : List UInt8) (item : ByteReader α) :
    Answers (within part item) [] fun a => answer item part = .ok a := by
  intro mid a rest
  rw [within]
  cases answer item part with
  | ok a' =>
    constructor
    · rintro ⟨⟩
      exact ⟨rfl, rfl⟩
    · rintro ⟨rfl, ⟨⟩⟩
      rfl
  | error e =>
    constructor
    · rintro ⟨⟩
    · rintro ⟨-, ⟨⟩⟩

theorem answers_number (h : k < 256 ^ 2) : Answers (number 2) (bigEndian 2 k) (· = k) :=
  answers_of_reads fun _ => reads_number h

theorem answers_index (i : UInt16) : Answers (number 2) (indexBytes i) (· = i.toNat) := answers_number i.toNat_lt

theorem answers_times {encode : γ → List UInt8} {good : γ → α → Prop} {xs : List γ}
    (h : ∀ x ∈ xs, Answers item (encode x) (good x)) :
    Answers (times xs.length item) (xs.flatMap encode) fun as => List.Forall₂ good xs as := by
  induction xs with
  | nil => exact (answers_pure []).congr fun as => (List.forall₂_nil_left_iff).symm
  | cons x xs ih =>
    obtain ⟨hx, hxs⟩ := List.forall_mem_cons.mp h
    refine (hx.bind fun a _ => (ih hxs).bind_pure).congr fun as => ?_
    rw [List.forall₂_cons_left_iff]
    constructor
    · rintro ⟨a, ha, as, has, rfl⟩
      exact ⟨a, as, ha, has, rfl⟩
    · rintro ⟨a, as, ha, has, rfl⟩
      exact ⟨a, ha, as, has, rfl⟩

theorem answers_counted {encode : γ → List UInt8} {good : γ → α → Prop} {xs : List γ} (hlength : xs.length < 256 ^ 2)
    (h : ∀ x ∈ xs, Answers item (encode x) (good x)) :
    Answers (counted item) (tableBytes encode xs) fun as => List.Forall₂ good xs as := by
  have htimes : ∀ n, n = xs.length → Answers (times n item) (xs.flatMap encode) fun as => List.Forall₂ good xs as := by
    rintro _ rfl
    exact answers_times h
  refine ((answers_number hlength).bind htimes).congr fun as => ?_
  simp

/-- A table of which the entries are only passed. -/
theorem Answers.pass_table {item : ByteReader Unit} {encode : γ → List UInt8} {xs : List γ}
    (hlength : xs.length < 256 ^ 2) (h : ∀ x ∈ xs, Answers item (encode x) fun _ => True) {next : ByteReader β}
    {good : β → Prop} (hnext : Answers next front good) :
    Answers (counted item >>= fun _ => next) (tableBytes encode xs ++ front) good := by
  refine ((answers_counted hlength h).bind fun _ _ => hnext).congr fun b => ⟨?_, fun hb => ?_⟩
  · rintro ⟨_, _, hb⟩
    exact hb
  · have hunits : List.Forall₂ (fun _ _ => True) xs (xs.map fun _ => ()) :=
      List.forall₂_map_right_iff.mpr (List.forall₂_same.mpr fun _ _ => trivial)
    exact ⟨_, hunits, hb⟩

theorem Steady.reads {n : Nat} {bytes : List UInt8} (h : ∀ n, Steady n item) (hitem : item bytes = .ok a []) :
    Reads n item bytes a := by
  obtain ⟨front, rfl, hfront⟩ := h _ bytes a [] (Nat.lt_succ_self _) hitem
  rw [List.append_nil]
  exact hfront.reads n

/-! ## Splitting what is read -/

/-- Whether what a reader takes has a given form. -/
def Splits (item : ByteReader α) (encode : γ → List UInt8) (good : γ → Prop) : Prop :=
  ∀ bytes a rest, item bytes = .ok a rest → ∃ x, good x ∧ bytes = encode x ++ rest

theorem number_eq_ok {width : Nat} {bytes rest : List UInt8} (h : number width bytes = .ok k rest) :
    k < 256 ^ width ∧ bytes = bigEndian width k ++ rest := by
  rw [number_eq, bind_ok_iff] at h
  obtain ⟨front, left, htake, hpure⟩ := h
  obtain ⟨rfl, rfl⟩ := take_eq_ok_iff.mp htake
  obtain ⟨rfl, rfl⟩ := EStateM.Result.ok.inj hpure
  exact ⟨ofBigEndian_lt front, by rw [bigEndian_ofBigEndian]⟩

theorem exists_index (hk : k < 256 ^ 2) : ∃ i, indexBytes i = bigEndian 2 k := by
  have hindex : (UInt16.ofNat k).toNat = k := by
    rw [UInt16.toNat_ofNat']
    omega
  exact ⟨UInt16.ofNat k, by rw [indexBytes, hindex]⟩

theorem splits_index : Splits (number 2) indexBytes fun _ => True := by
  intro bytes k rest h
  obtain ⟨hk, rfl⟩ := number_eq_ok h
  obtain ⟨i, hi⟩ := exists_index hk
  exact ⟨i, trivial, by rw [hi]⟩

/-- Any bytes are those of indices, if their number is even. -/
theorem exists_indices {bytes : List UInt8} (k : Nat) (h : bytes.length = 2 * k) :
    ∃ indices : List UInt16, indices.length = k ∧ bytes = indices.flatMap indexBytes := by
  induction k generalizing bytes with
  | zero => exact ⟨[], rfl, List.length_eq_zero_iff.mp h⟩
  | succ k ih =>
    have hfront : (bytes.take 2).length = 2 := by
      rw [List.length_take]
      omega
    have hback : (bytes.drop 2).length = 2 * k := by
      rw [List.length_drop]
      omega
    have hlt := ofBigEndian_lt (bytes.take 2)
    have hbytes := bigEndian_ofBigEndian (bytes.take 2)
    rw [hfront] at hlt hbytes
    obtain ⟨i, hi⟩ := exists_index hlt
    obtain ⟨indices, rfl, hindices⟩ := ih hback
    refine ⟨i :: indices, rfl, ?_⟩
    rw [List.flatMap_cons, hi, hbytes, ← hindices, List.take_append_drop]

theorem skip_eq_ok {bytes rest : List UInt8} {u : Unit} (h : skip k bytes = .ok u rest) :
    ∃ front, front.length = k ∧ bytes = front ++ rest := by
  obtain ⟨front, mid, htake, ⟨⟩⟩ := bind_ok_iff.mp h
  obtain ⟨hbytes, hlength⟩ := take_eq_ok_iff.mp htake
  exact ⟨front, hlength, hbytes⟩

theorem splits_lookUp (find : Nat → Except ClassFileError α) :
    Splits (AnnotationRecord.lookUp find) indexBytes fun _ => True := by
  intro bytes a rest h
  obtain ⟨index, left, hindex, hfind⟩ := bind_ok_iff.mp h
  obtain rfl : left = rest := ((answers_ofExcept (find index) left a rest).mp hfind).1.symm
  exact splits_index bytes index left hindex

section Tables

variable {encode : γ → List UInt8} {ok : γ → Prop} (h : Splits item encode ok)

include h

theorem Splits.times (n : Nat) :
    Splits (times n item) (List.flatMap encode) fun xs => xs.length = n ∧ ∀ x ∈ xs, ok x := by
  induction n with
  | zero =>
    rintro bytes _ _ ⟨⟩
    exact ⟨[], ⟨rfl, nofun⟩, rfl⟩
  | succ n ih =>
    intro bytes as rest htimes
    obtain ⟨a, mid, hitem, hbind⟩ := bind_ok_iff.mp htimes
    obtain ⟨others, left, hothers, hpure⟩ := bind_ok_iff.mp hbind
    obtain ⟨-, rfl⟩ := EStateM.Result.ok.inj hpure
    obtain ⟨x, hx, rfl⟩ := h bytes a mid hitem
    obtain ⟨xs, ⟨rfl, hxs⟩, rfl⟩ := ih mid others left hothers
    exact ⟨x :: xs, ⟨rfl, List.forall_mem_cons.mpr ⟨hx, hxs⟩⟩, by rw [List.flatMap_cons, List.append_assoc]⟩

theorem Splits.counted :
    Splits (counted item) (tableBytes encode) fun xs => xs.length < 256 ^ 2 ∧ ∀ x ∈ xs, ok x := by
  intro bytes as rest hcounted
  obtain ⟨n, mid, hnumber, htimes⟩ := bind_ok_iff.mp hcounted
  obtain ⟨hn, rfl⟩ := number_eq_ok hnumber
  obtain ⟨xs, ⟨rfl, hxs⟩, rfl⟩ := h.times n mid as rest htimes
  exact ⟨xs, ⟨hn, hxs⟩, by rw [tableBytes, List.append_assoc]⟩

end Tables

end ByteReader

/-! ## Members and attributes -/

namespace ClassFile

open ByteReader AnnotationRecord

variable {pool pool' : ConstantPool} {n : Nat}

theorem answers_lookUp {α : Type} (find : Nat → Except ClassFileError α) (i : UInt16) :
    Answers (lookUp find) (indexBytes i) fun a => find i.toNat = .ok a := by
  refine ((answers_index i).bind_nil fun n _ => answers_ofExcept (find n)).congr fun a => ?_
  simp

theorem reads_skipAttribute {a : AttributeLayout} (h : a.Fits) : Reads n skipAttribute a.encode () :=
  (reads_skip (length_bigEndian 2 _)).bind ((reads_number h).bind (reads_skip rfl))

theorem answers_skipMember {m : MemberLayout} (h : m.Fits) : Answers skipMember m.encode fun _ => True := by
  have hhead : (indexBytes m.access ++ indexBytes m.name ++ indexBytes m.descriptor).length = 6 := by
    simp [indexBytes]
  have hattribute : ∀ a ∈ m.attributes, Answers skipAttribute a.encode fun _ => True :=
    fun a ha => (answers_of_reads fun _ => reads_skipAttribute (h.2 a ha)).congr fun _ => by simp
  have hend : Answers (pure ()) [] fun _ => True := (answers_pure ()).congr fun _ => by simp
  have hattributes := Answers.pass_table h.1 hattribute hend
  rw [List.append_nil] at hattributes
  exact .bind_reads (fun _ => reads_skip hhead) hattributes

/-- The name of the superclass that an index stands for. -/
def superclassAt (pool : ConstantPool) : Nat → Except ClassFileError (Option String)
  | 0 => .ok none
  | index => some <$> pool.className index

theorem readSuperclass_eq (pool : ConstantPool) : readSuperclass pool = lookUp (superclassAt pool) := by
  refine congrArg (number 2 >>= ·) (funext fun index => ?_)
  cases index with
  | zero => rfl
  | succ index =>
    show some <$> ofExcept (pool.className (index + 1)) = ofExcept (some <$> pool.className (index + 1))
    cases pool.className (index + 1) <;> rfl

end ClassFile

/-- Whether an attribute stands for given annotations. -/
def AttributeLayout.Holds (pool : ConstantPool) (a : AttributeLayout) (x : ClassFile.Attribute) : Prop :=
  ∃ name, pool.utf8 a.name.toNat = .ok name ∧ (ClassFile.attributeOf pool name).answer a.payload = .ok x

/-- Whether a class file is the one that a layout describes with a pool.  Neither the version nor a member is asked. -/
structure ClassLayout.Describes (l : ClassLayout) (pool : ConstantPool) (f : ClassFile) : Prop where
  access : l.access.toNat = f.access
  name : pool.className l.name.toNat = .ok f.name
  superclass : ClassFile.superclassAt pool l.superclass.toNat = .ok f.superclass
  interfaces : List.Forall₂ (fun i name => pool.className i.toNat = .ok name) l.interfaces f.interfaces
  attributes : ∃ xs, List.Forall₂ (AttributeLayout.Holds pool) l.attributes xs ∧
    xs.flatMap ClassFile.Attribute.visible = f.visible ∧ xs.flatMap ClassFile.Attribute.invisible = f.invisible

namespace ClassFile

open ByteReader AnnotationRecord

variable {pool pool' : ConstantPool} {l : ClassLayout}

theorem answers_readAttribute {a : AttributeLayout} (h : a.Fits) :
    Answers (readAttribute pool) a.encode (a.Holds pool) := by
  refine (answers_lookUp pool.utf8 a.name).bind fun name _ => .bind_reads (fun _ => reads_number h) ?_
  have hbody := Answers.bind_reads (f := fun body => within body (attributeOf pool name)) (fun _ => reads_take rfl)
    (answers_within a.payload (attributeOf pool name))
  rwa [List.append_nil] at hbody

theorem describes_iff {f : ClassFile} : l.Describes pool f ↔ ∃ name, pool.className l.name.toNat = .ok name ∧
    ∃ superclass, superclassAt pool l.superclass.toNat = .ok superclass ∧
      ∃ interfaces, List.Forall₂ (fun i name => pool.className i.toNat = .ok name) l.interfaces interfaces ∧
        ∃ xs, List.Forall₂ (AttributeLayout.Holds pool) l.attributes xs ∧
          f = ⟨l.access.toNat, name, superclass, interfaces, xs.flatMap Attribute.visible,
            xs.flatMap Attribute.invisible⟩ := by
  constructor
  · rintro ⟨haccess, hname, hsuperclass, hinterfaces, xs, hxs, hvisible, hinvisible⟩
    exact ⟨_, hname, _, hsuperclass, _, hinterfaces, xs, hxs, by rw [haccess, hvisible, hinvisible]⟩
  · rintro ⟨name, hname, superclass, hsuperclass, interfaces, hinterfaces, xs, hxs, rfl⟩
    exact ⟨rfl, hname, hsuperclass, hinterfaces, xs, hxs, rfl, rfl⟩

/-- The class files that may be read of a layout are those that it describes. -/
theorem answers_read (h : l.WellFormed pool) : Answers read l.encode (l.Describes pool) := by
  have hfields : ∀ m ∈ l.fields, Answers skipMember m.encode fun _ => True :=
    fun m hm => answers_skipMember (h.fields.2 m hm)
  have hmethods : ∀ m ∈ l.methods, Answers skipMember m.encode fun _ => True :=
    fun m hm => answers_skipMember (h.methods.2 m hm)
  have hattributes : Answers (counted (readAttribute pool)) (tableBytes AttributeLayout.encode l.attributes)
      (List.Forall₂ (AttributeLayout.Holds pool) l.attributes) :=
    answers_counted h.attributes.1 fun a ha => answers_readAttribute (h.attributes.2 a ha)
  have hinterfaces : Answers (counted (lookUp pool.className)) (tableBytes indexBytes l.interfaces)
      (List.Forall₂ (fun i name => pool.className i.toNat = .ok name) l.interfaces) :=
    answers_counted h.interfaces fun i _ => answers_lookUp pool.className i
  have hsuperclass := answers_lookUp (superclassAt pool) l.superclass
  rw [← readSuperclass_eq] at hsuperclass
  have hnames := (answers_lookUp pool.className l.name).bind fun name _ =>
    hsuperclass.bind fun superclass _ => hinterfaces.bind fun interfaces _ =>
      .pass_table h.fields.1 hfields (.pass_table h.methods.1 hmethods (hattributes.bind_pure
        (f := fun xs => (⟨l.access.toNat, name, superclass, interfaces, xs.flatMap Attribute.visible,
          xs.flatMap Attribute.invisible⟩ : ClassFile))))
  refine Answers.congr (.bind_reads (fun _ => ClassSpec.reads_expectMagic)
    (.bind_reads (fun _ => reads_skip (length_bigEndian 4 _)) (.bind_reads (fun _ => Steady.reads (fun _ =>
      ConstantPool.steady_read) h.constants) (.bind_reads (fun _ => reads_number l.access.toNat_lt) hnames)))) ?_
  exact fun f => describes_iff.symm

/-! ## Layouts of what is read -/

theorem splits_skipAttribute : Splits skipAttribute AttributeLayout.encode AttributeLayout.Fits := by
  intro bytes _ rest h
  obtain ⟨_, mid, hname, hbind⟩ := bind_ok_iff.mp h
  obtain ⟨length, mid', hlength, hpayload⟩ := bind_ok_iff.mp hbind
  obtain ⟨front, hfront, rfl⟩ := skip_eq_ok hname
  obtain ⟨indices, hone, rfl⟩ := exists_indices 1 hfront
  obtain ⟨name, rfl⟩ := List.length_eq_one_iff.mp hone
  obtain ⟨hfits, rfl⟩ := number_eq_ok hlength
  obtain ⟨payload, rfl, rfl⟩ := skip_eq_ok hpayload
  exact ⟨⟨name, payload⟩, hfits, by simp [AttributeLayout.encode]⟩

theorem splits_readAttribute : Splits (readAttribute pool) AttributeLayout.encode AttributeLayout.Fits := by
  intro bytes x rest h
  obtain ⟨name, mid, hname, hbind⟩ := bind_ok_iff.mp h
  obtain ⟨length, mid', hlength, hbind⟩ := bind_ok_iff.mp hbind
  obtain ⟨payload, left, htake, hwithin⟩ := bind_ok_iff.mp hbind
  obtain ⟨i, -, rfl⟩ := splits_lookUp _ bytes name mid hname
  obtain ⟨hfits, rfl⟩ := number_eq_ok hlength
  obtain ⟨rfl, rfl⟩ := take_eq_ok_iff.mp htake
  obtain ⟨rfl, -⟩ := (answers_within payload _ left x rest).mp hwithin
  exact ⟨⟨i, payload⟩, hfits, by simp [AttributeLayout.encode]⟩

theorem splits_skipMember : Splits skipMember MemberLayout.encode MemberLayout.Fits := by
  intro bytes _ rest h
  obtain ⟨_, mid, hhead, hbind⟩ := bind_ok_iff.mp h
  obtain ⟨_, mid', hattributes, ⟨⟩⟩ := bind_ok_iff.mp hbind
  obtain ⟨front, hfront, rfl⟩ := skip_eq_ok hhead
  obtain ⟨indices, hthree, rfl⟩ := exists_indices 3 hfront
  obtain ⟨access, name, descriptor, rfl⟩ := List.length_eq_three.mp hthree
  obtain ⟨attributes, hfits, rfl⟩ := splits_skipAttribute.counted _ _ _ hattributes
  exact ⟨⟨access, name, descriptor, attributes⟩, hfits, by simp [MemberLayout.encode]⟩

theorem expectMagic_eq_ok {bytes rest : List UInt8} {u : Unit} (h : expectMagic bytes = .ok u rest) :
    bytes = bigEndian 4 magic ++ rest := by
  obtain ⟨found, mid, hnumber, htest⟩ := bind_ok_iff.mp h
  obtain ⟨-, rfl⟩ := number_eq_ok hnumber
  split at htest
  · exact absurd htest nofun
  · next hfound =>
    cases htest
    rw [not_not.mp hfound]

/-- The bytes of a version are those of a number. -/
theorem exists_version {bytes : List UInt8} (h : bytes.length = 4) : ∃ v : UInt32, bytes = bigEndian 4 v.toNat := by
  have hlt := ofBigEndian_lt bytes
  have hbytes := bigEndian_ofBigEndian bytes
  rw [h] at hlt hbytes
  have hversion : (UInt32.ofNat (ofBigEndian bytes)).toNat = ofBigEndian bytes := by
    rw [UInt32.toNat_ofNat']
    omega
  exact ⟨UInt32.ofNat (ofBigEndian bytes), by rw [hversion, hbytes]⟩

/-- Whatever is read as a class file has a layout. -/
theorem exists_layout {bytes rest : List UInt8} {f : ClassFile} (h : read bytes = .ok f rest) :
    ∃ l : ClassLayout, ∃ pool, l.WellFormed pool ∧ bytes = l.encode ++ rest := by
  obtain ⟨_, mid₁, hmagic, h⟩ := bind_ok_iff.mp h
  obtain ⟨_, mid₂, hversion, h⟩ := bind_ok_iff.mp h
  obtain ⟨pool, mid₃, hpool, h⟩ := bind_ok_iff.mp h
  obtain ⟨_, mid₄, haccess, h⟩ := bind_ok_iff.mp h
  obtain ⟨_, mid₅, hname, h⟩ := bind_ok_iff.mp h
  obtain ⟨_, mid₆, hsuperclass, h⟩ := bind_ok_iff.mp h
  obtain ⟨_, mid₇, hinterfaces, h⟩ := bind_ok_iff.mp h
  obtain ⟨_, mid₈, hfields, h⟩ := bind_ok_iff.mp h
  obtain ⟨_, mid₉, hmethods, h⟩ := bind_ok_iff.mp h
  obtain ⟨_, left, hattributes, ⟨⟩⟩ := bind_ok_iff.mp h
  obtain rfl := expectMagic_eq_ok hmagic
  obtain ⟨front, hfront, rfl⟩ := skip_eq_ok hversion
  obtain ⟨version, rfl⟩ := exists_version hfront
  obtain ⟨constants, rfl, hconstants⟩ := ConstantPool.steady_read _ _ _ (Nat.lt_succ_self _) hpool
  obtain ⟨access, -, rfl⟩ := splits_index _ _ _ haccess
  obtain ⟨name, -, rfl⟩ := splits_lookUp _ _ _ _ hname
  rw [readSuperclass_eq] at hsuperclass
  obtain ⟨superclass, -, rfl⟩ := splits_lookUp _ _ _ _ hsuperclass
  obtain ⟨interfaces, ⟨hinterfaceCount, -⟩, rfl⟩ := (splits_lookUp _).counted _ _ _ hinterfaces
  obtain ⟨fields, hfieldsFit, rfl⟩ := splits_skipMember.counted _ _ _ hfields
  obtain ⟨methods, hmethodsFit, rfl⟩ := splits_skipMember.counted _ _ _ hmethods
  obtain ⟨attributes, hattributesFit, rfl⟩ := splits_readAttribute.counted _ _ _ hattributes
  have hread : ConstantPool.read constants = .ok pool [] := by
    have hreads := hconstants.reads _ [] (Nat.lt_succ_self _)
    rwa [List.append_nil] at hreads
  exact ⟨⟨version, constants, access, name, superclass, interfaces, fields, methods, attributes⟩, pool,
    ⟨hread, hinterfaceCount, hfieldsFit, hmethodsFit, hattributesFit⟩, by simp [ClassLayout.encode]⟩

end ClassFile

end ServiceCatalog
