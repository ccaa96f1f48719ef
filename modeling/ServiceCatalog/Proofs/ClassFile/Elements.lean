import ServiceCatalog.ClassFile.Builder
import ServiceCatalog.Proofs.ClassFile.Pool

/-!
# Reading back annotations

The bytes of an annotation refer to constants that are added to the pool while the bytes are written, and the pool
goes on growing behind them.  What is written is therefore described with every later pool: `Writes w good given` says
that a writer only adds constants to the given ones, and that its answer is good in any pool that begins with these.

The bytes of a value are read below the start of the value around it; `ReadsInside` says that a reader of values does
as it should up to a number of bytes, and the values inside a value are read with such a reader.

* `Writes.bind`: writers in a row.
* `writes_text`, `writes_className`: the index of a text and of a class.
* `writes_value`, `writes_record`: the bytes of a value and of an annotation, by induction on their structure.
-/

namespace ServiceCatalog

open ByteReader PoolItem ConstantPool

/-! ## Constants of written class files -/

namespace PoolItem

variable {index : Nat} {items more : List PoolItem} {item : PoolItem}

/-- Whether a constant is one that is written in class files, where given constants may be referred to. -/
def Written (items : List PoolItem) : PoolItem → Prop
  | utf8 bytes => ∃ s, bytes = utf8Bytes s
  | «class» i => i ≤ totalSlots items
  | string _ | other .. => False
  | integer _ | float _ | long _ | double _ => True

theorem Written.mono (h : item.Written items) (hmore : items <+: more) : item.Written more := by
  cases item with
  | «class» i => exact Nat.le_trans h (totalSlots_le hmore)
  | _ => exact h

theorem Written.isSome_constant? (h : item.Written items) : item.constant?.isSome := by
  cases item with
  | utf8 bytes =>
    obtain ⟨s, rfl⟩ := h
    rw [constant?, decodeText?_utf8Bytes]
    rfl
  | string _ => exact h.elim
  | other _ _ => exact h.elim
  | _ => rfl

/-- The number of bytes of a text; any other constant has none. -/
def textLength : PoolItem → Nat
  | utf8 bytes => bytes.length
  | _ => 0

/-- A written constant fits its bytes if the pool does and it is no text that is too long. -/
theorem Written.fits (h : item.Written items) (hsize : totalSlots items + 1 < 256 ^ 2)
    (htext : item.textLength < 256 ^ 2) : item.Fits := by
  cases item with
  | utf8 bytes => exact htext
  | «class» i => exact Nat.lt_of_le_of_lt h (Nat.lt_of_succ_lt hsize)
  | string _ => exact h.elim
  | other _ _ => exact h.elim
  | _ => trivial

end PoolItem

namespace ConstantPool

variable {index nameIndex : Nat} {items : List PoolItem} {s : String}

theorem utf8_ofItems (h : At items index (.utf8 (utf8Bytes s))) : (ofItems items).utf8 index = .ok s := by
  have hc : (PoolItem.utf8 (utf8Bytes s)).constant? = some (.utf8 s) := by rw [constant?, decodeText?_utf8Bytes]; rfl
  rw [utf8, get_ofItems h hc]
  rfl

theorem className_ofItems (hname : At items nameIndex (.utf8 (utf8Bytes s))) (h : At items index (.class nameIndex)) :
    (ofItems items).className index = .ok s := by
  rw [className, get_ofItems h rfl]
  exact utf8_ofItems hname

theorem integer_ofItems {v : Int32} (h : At items index (.integer v)) : (ofItems items).integer index = .ok v := by
  rw [integer, get_ofItems h rfl]
  rfl

end ConstantPool

/-! ## Writers -/

namespace PoolWriter

variable {α β : Type} {w : PoolWriter α} {f : α → PoolWriter β} {given : List PoolItem}
  {P : List PoolItem → α → Prop} {Q : List PoolItem → β → Prop}

/-- Whether a writer adds constants to given ones, and answers what is good in every pool that begins with those. -/
structure Writes (w : PoolWriter α) (good : List PoolItem → α → Prop) (given : List PoolItem) : Prop where
  grows : given <+: (w given).2
  written : (∀ item ∈ given, item.Written given) → ∀ item ∈ (w given).2, item.Written (w given).2
  answers : ∀ pool, (w given).2 <+: pool → good pool (w given).1

theorem writes_pure {a : α} (h : ∀ pool, given <+: pool → P pool a) : Writes (pure a) P given :=
  ⟨List.prefix_rfl, fun hgiven => hgiven, h⟩

theorem Writes.congr {w' : PoolWriter α} (h : Writes w P given) (hsame : w' given = w given) : Writes w' P given := by
  refine ⟨?_, ?_, ?_⟩ <;> rw [hsame]
  · exact h.grows
  · exact h.written
  · exact h.answers

theorem Writes.mono {P' : List PoolItem → α → Prop} (h : Writes w P given) (hP : ∀ pool a, P pool a → P' pool a) :
    Writes w P' given :=
  ⟨h.grows, h.written, fun pool hpool => hP _ _ (h.answers pool hpool)⟩

/-- What is good of the first answer is so when the second writer begins, and in every later pool. -/
theorem Writes.bind (h : Writes w P given)
    (hf : ∀ a items, P items a → Writes (f a) (fun pool b => P pool a → Q pool b) items) :
    Writes (w >>= f) Q given := by
  have hsecond := hf (w given).1 (w given).2 (h.answers _ List.prefix_rfl)
  refine ⟨h.grows.trans hsecond.grows, fun hgiven => hsecond.written (h.written hgiven), fun pool hpool => ?_⟩
  exact hsecond.answers pool hpool (h.answers pool (hsecond.grows.trans hpool))

theorem Writes.bind_pure {g : α → β} (h : Writes w P given) (hg : ∀ pool a, P pool a → Q pool (g a)) :
    Writes (w >>= fun a => pure (g a)) Q given :=
  h.bind fun a _ _ => writes_pure fun pool _ => hg pool a

/-! ### Constants -/

theorem writes_add {item : PoolItem} (h : item.Written given) :
    Writes (add item) (fun pool index => At pool index item) given := by
  refine ⟨List.prefix_append .., fun hgiven => ?_, fun pool hpool => (at_totalSlots given item).mono hpool⟩
  intro item' hitem'
  rcases List.mem_append.mp hitem' with hmem | hmem
  · exact (hgiven item' hmem).mono (List.prefix_append ..)
  · obtain rfl := List.mem_singleton.mp hmem
    exact h.mono (List.prefix_append ..)

theorem at_of_indexOf? {item : PoolItem} {items : List PoolItem} {start index : Nat}
    (h : indexOf? item start items = some index) :
    ∃ before after, items = before ++ item :: after ∧ index = totalSlots before + start := by
  induction items generalizing start with
  | nil => exact absurd h nofun
  | cons i items ih =>
    rw [indexOf?] at h
    split at h
    · next hi =>
      obtain rfl := Option.some.inj h
      exact ⟨[], items, by rw [hi]; rfl, (Nat.zero_add _).symm⟩
    · obtain ⟨before, after, rfl, rfl⟩ := ih h
      exact ⟨i :: before, after, rfl, by rw [totalSlots_cons]; omega⟩

theorem writes_text (s : String) (given : List PoolItem) :
    Writes (text s) (fun pool index => At pool index (.utf8 (utf8Bytes s))) given := by
  cases hindex : indexOf? (.utf8 (utf8Bytes s)) 1 given with
  | some index =>
    have hplace : At given index (.utf8 (utf8Bytes s)) := at_of_indexOf? hindex
    have htext : text s given = (index, given) := by rw [text, hindex]
    exact Writes.congr (writes_pure fun pool hpool => hplace.mono hpool) htext
  | none =>
    have hwritten : (PoolItem.utf8 (utf8Bytes s)).Written given := ⟨s, rfl⟩
    have htext : text s given = add (.utf8 (utf8Bytes s)) given := by rw [text, hindex]
    exact (writes_add hwritten).congr htext

theorem writes_className (s : String) (given : List PoolItem) :
    Writes (className s) (fun pool index => (ofItems pool).className index = .ok s ∧ 0 < index ∧
      index ≤ totalSlots pool) given :=
  (writes_text s given).bind fun nameIndex _ hname =>
    (writes_add (show (PoolItem.class nameIndex).Written _ from hname.le)).mono fun _ _ hindex hname' =>
      ⟨className_ofItems hname' hindex, hindex.pos, hindex.le⟩

end PoolWriter

/-! ## Sizes -/

mutual

/-- Whether the numbers of values in arrays and annotations fit their two bytes. -/
def ElementValue.Fits : ElementValue → Prop
  | .nested a => a.Fits
  | .array vs => vs.length < 256 ^ 2 ∧ ElementValue.AllFit vs
  | .int _ | .long _ | .float _ | .double _ | .string _ | .enum .. | .class _ => True

/-- The same of several values. -/
def ElementValue.AllFit : List ElementValue → Prop
  | [] => True
  | v :: vs => v.Fits ∧ ElementValue.AllFit vs

/-- Whether the numbers of values in an annotation fit their two bytes. -/
def AnnotationRecord.Fits : AnnotationRecord → Prop
  | ⟨_, es⟩ => es.length < 256 ^ 2 ∧ AnnotationRecord.ElementsFit es

/-- The same of several named values. -/
def AnnotationRecord.ElementsFit : List (String × ElementValue) → Prop
  | [] => True
  | (_, v) :: es => v.Fits ∧ AnnotationRecord.ElementsFit es

end

mutual

/-- The number of bytes of a value. -/
def ElementValue.size : ElementValue → Nat
  | .nested a => a.size + 1
  | .array vs => ElementValue.sizeOfAll vs + 3
  | .enum .. => 5
  | .int _ | .long _ | .float _ | .double _ | .string _ | .class _ => 3

/-- The number of bytes of several values. -/
def ElementValue.sizeOfAll : List ElementValue → Nat
  | [] => 0
  | v :: vs => v.size + ElementValue.sizeOfAll vs

/-- The number of bytes of an annotation. -/
def AnnotationRecord.size : AnnotationRecord → Nat
  | ⟨_, es⟩ => AnnotationRecord.sizeOfElements es + 4

/-- The number of bytes of several named values. -/
def AnnotationRecord.sizeOfElements : List (String × ElementValue) → Nat
  | [] => 0
  | (_, v) :: es => 2 + v.size + AnnotationRecord.sizeOfElements es

end

/-! ## Values -/

namespace PoolWriter

open AnnotationRecord

variable {α β : Type} {n k size : Nat} {bytes more : List UInt8} {pool given : List PoolItem}

/-- Whether a reader of values does as it should with fewer than `n` bytes left. -/
def ReadsInside (n : Nat) (pool : ConstantPool) (item : ByteReader ElementValue) : Prop :=
  ∀ bytes, bytes.length < n → item bytes = readValue pool bytes

/-- Whether a number of bytes are read as something, given a reader of the values inside. -/
structure Spells (reader : ConstantPool → ByteReader ElementValue → ByteReader α) (a : α) (size : Nat)
    (pool : List PoolItem) (bytes : List UInt8) : Prop where
  length : bytes.length = size
  reads : totalSlots pool + 1 < 256 ^ 2 →
    ∀ n item, ReadsInside n (ofItems pool) item → Reads n (reader (ofItems pool) item) bytes a

namespace Spells

variable {reader : ConstantPool → ByteReader ElementValue → ByteReader α} {a : α} {b : β} {size' : Nat}

theorem map (h : Spells reader a size pool bytes) (g : α → β) :
    Spells (fun p item => reader p item >>= fun x => pure (g x)) (g a) size pool bytes :=
  ⟨h.length, fun hsize n item hitem => (h.reads hsize n item hitem).bind_pure⟩

theorem bind {f : α → ConstantPool → ByteReader ElementValue → ByteReader β} (h : Spells reader a size pool bytes)
    (hf : Spells (f a) b size' pool more) :
    Spells (fun p item => reader p item >>= fun x => f x p item) b (size + size') pool (bytes ++ more) := by
  refine ⟨by rw [List.length_append, h.length, hf.length], fun hsize n item hitem => ?_⟩
  exact (h.reads hsize n item hitem).bind (hf.reads hsize n item hitem)

theorem counted {as : List α} (hlength : as.length < 256 ^ 2)
    (h : Spells (fun p item => times as.length (reader p item)) as size pool bytes) :
    Spells (fun p item => ByteReader.counted (reader p item)) as (size + 2) pool
      (bigEndian 2 as.length ++ bytes) := by
  refine ⟨?_, fun hsize n item hitem => reads_counted hlength (h.reads hsize n item hitem)⟩
  rw [List.length_append, length_bigEndian, h.length, Nat.add_comm]

/-- A value is read with a reader of the values inside it, which has fewer bytes left. -/
theorem value {v : ElementValue} (hlength : bytes.length = size)
    (h : totalSlots pool + 1 < 256 ^ 2 → ∀ n item, ReadsInside n (ofItems pool) item →
      Reads (n + 1) (readValueWith (ofItems pool) item) bytes v) :
    Spells (fun _ item => item) v size pool bytes := by
  refine ⟨hlength, fun hsize n item hitem => Reads.congr (fun rest _ => ?_) hitem⟩
  rw [readValue]
  refine h hsize (bytes ++ rest).length _ (fun inner hinner => ?_) rest (Nat.lt_succ_self _)
  rw [below, dif_pos hinner]

/-- A value is a tag with what is read behind it. -/
theorem tagged {reader : ConstantPool → ByteReader ElementValue → ByteReader ElementValue} {v : ElementValue}
    {c : Char} (h : Spells reader v size pool bytes)
    (htag : ∀ p item n, Reads n (reader p item) bytes v →
      Reads (n + 1) (readValueWith p item) (UInt8.ofNat c.toNat :: bytes) v) :
    Spells (fun _ item => item) v (size + 1) pool (tag c ++ bytes) :=
  .value (congrArg (· + 1) h.length) fun hsize n item hitem => htag _ _ _ (h.reads hsize n item hitem)

end Spells

theorem reads_lookUp {find : Nat → Except ClassFileError α} {a : α} (hfind : find k = .ok a) (hk : k < 256 ^ 2) :
    Reads n (lookUp find) (bigEndian 2 k) a :=
  (reads_number hk).bind_nil (reads_ofExcept hfind)

/-- A reference to a constant is read as what is looked up at its index. -/
theorem spells_reference {find : ConstantPool → Nat → Except ClassFileError α} {a : α} {index : Nat} {item : PoolItem}
    (hindex : At pool index item) (hfind : find (ofItems pool) index = .ok a) :
    Spells (fun p _ => lookUp (find p)) a 2 pool (reference index) :=
  ⟨length_bigEndian 2 index, fun hsize _ _ _ =>
    reads_lookUp hfind (Nat.lt_of_le_of_lt hindex.le (Nat.lt_of_succ_lt hsize))⟩

theorem writes_textReference (s : String) (given : List PoolItem) :
    Writes (textReference s) (Spells (fun pool _ => lookUp pool.utf8) s 2) given :=
  (writes_text s given).bind_pure fun _ _ hindex => spells_reference hindex (utf8_ofItems hindex)

/-- A number is a tag with a reference to a new constant. -/
theorem writes_numberReference {c : Char} {item : PoolItem} {v : ElementValue}
    {reader : ConstantPool → ByteReader ElementValue → ByteReader ElementValue} (hitem : item.Written given)
    (h : ∀ pool index, At pool index item → Spells reader v 2 pool (reference index))
    (htag : ∀ p item n bytes, Reads n (reader p item) bytes v →
      Reads (n + 1) (readValueWith p item) (UInt8.ofNat c.toNat :: bytes) v) :
    Writes (numberReference c item) (Spells (fun _ item => item) v 3) given :=
  (writes_add hitem).bind_pure fun pool index hindex =>
    (h pool index hindex).tagged fun p inner n => htag p inner n _

/-- A number of a kind other than integer is found by its kind. -/
theorem writes_number {c : Char} {item : PoolItem} {v : ElementValue} {number : Constant} (hitem : item.Written given)
    (hnumber : item.constant? = some number)
    (hv : ∀ p i, ConstantPool.get p i = .ok number → AnnotationRecord.numberAt p i = .ok v)
    (htag : ∀ p item n bytes, Reads n (lookUp (AnnotationRecord.numberAt p)) bytes v →
      Reads (n + 1) (readValueWith p item) (UInt8.ofNat c.toNat :: bytes) v) :
    Writes (numberReference c item) (Spells (fun _ item => item) v 3) given := by
  refine writes_numberReference hitem (fun pool index hindex => ?_) htag
  exact spells_reference hindex (hv _ _ (get_ofItems hindex hnumber))

mutual

/-- What is written for a value is read as the value. -/
theorem writes_value : ∀ (v : ElementValue), v.Fits → ∀ given,
    Writes (value v) (Spells (fun _ item => item) v v.size) given
  | .int v, _, given => by
    have hitem : (PoolItem.integer v).Written given := trivial
    exact writes_numberReference hitem
      (fun _ _ hindex => (spells_reference hindex (integer_ofItems hindex)).map ElementValue.int)
      fun _ _ _ _ hread => reads_tagged hread
  | .float bits, _, given => by
    have hitem : (PoolItem.float bits).Written given := trivial
    exact writes_number hitem rfl (fun _ _ h => by rw [AnnotationRecord.numberAt, h]; rfl)
      fun _ _ _ _ hread => reads_tagged hread
  | .long v, _, given => by
    have hitem : (PoolItem.long v).Written given := trivial
    exact writes_number hitem rfl (fun _ _ h => by rw [AnnotationRecord.numberAt, h]; rfl)
      fun _ _ _ _ hread => reads_tagged hread
  | .double bits, _, given => by
    have hitem : (PoolItem.double bits).Written given := trivial
    exact writes_number hitem rfl (fun _ _ h => by rw [AnnotationRecord.numberAt, h]; rfl)
      fun _ _ _ _ hread => reads_tagged hread
  | .string s, _, given =>
    (writes_textReference s given).bind_pure fun _ _ h =>
      (h.map ElementValue.string).tagged fun _ _ _ hread => reads_tagged hread
  | .enum type name, _, given =>
    (writes_textReference type given).bind fun _ items _ =>
      (writes_textReference name items).bind_pure fun _ _ hname htype => by
        have h := htype.bind (f := fun t p _ => lookUp p.utf8 >>= fun x => pure (ElementValue.enum t x))
          (hname.map (ElementValue.enum type))
        rw [List.append_assoc]
        exact h.tagged fun _ _ _ hread => reads_tagged hread
  | .class descriptor, _, given =>
    (writes_textReference descriptor given).bind_pure fun _ _ h =>
      (h.map ElementValue.class).tagged fun _ _ _ hread => reads_tagged hread
  | .nested a, ha, given =>
    (writes_record a ha given).bind_pure fun _ _ h =>
      (h.map ElementValue.nested).tagged fun _ _ _ hread => reads_tagged hread
  | .array vs, ⟨hlength, hvs⟩, given =>
    (writes_values vs hvs given).bind_pure fun _ _ h =>
      ((h.counted hlength).map ElementValue.array).tagged fun _ _ _ hread => reads_tagged hread

/-- What is written for several values is read as the values. -/
theorem writes_values : ∀ (vs : List ElementValue), ElementValue.AllFit vs → ∀ given,
    Writes (values vs) (Spells (fun _ item => times vs.length item) vs (ElementValue.sizeOfAll vs)) given
  | [], _, _ => writes_pure fun _ _ => ⟨rfl, fun _ _ _ _ => reads_pure []⟩
  | v :: vs, ⟨hv, hvs⟩, given =>
    (writes_value v hv given).bind fun _ items _ =>
      (writes_values vs hvs items).bind_pure fun _ _ hrest hfirst => hfirst.bind (hrest.map (v :: ·))

/-- What is written for an annotation is read as the annotation. -/
theorem writes_record : ∀ (a : AnnotationRecord), a.Fits → ∀ given,
    Writes (record a) (Spells readWith a a.size) given
  | ⟨descriptor, es⟩, ⟨hlength, hes⟩, given =>
    (writes_textReference descriptor given).bind fun _ items _ =>
      (writes_elements es hes items).bind_pure fun _ _ hrest hfirst => by
        have h := hfirst.bind (f := fun d p item => counted (readElement p item) >>= fun x => pure (mk d x))
          ((hrest.counted hlength).map (mk descriptor))
        rw [List.append_assoc, AnnotationRecord.size,
          show sizeOfElements es + 4 = 2 + (sizeOfElements es + 2) by omega]
        exact h

/-- What is written for several named values is read as these. -/
theorem writes_elements : ∀ (es : List (String × ElementValue)), AnnotationRecord.ElementsFit es → ∀ given,
    Writes (elements es) (Spells (fun p item => times es.length (readElement p item)) es
      (AnnotationRecord.sizeOfElements es)) given
  | [], _, _ => writes_pure fun _ _ => ⟨rfl, fun _ _ _ _ => reads_pure []⟩
  | (name, v) :: es, ⟨hv, hes⟩, given =>
    (writes_textReference name given).bind fun _ items _ =>
      (writes_value v hv items).bind fun _ items' _ =>
        (writes_elements es hes items').bind_pure fun _ _ hrest hvalue hname =>
          (hname.bind (hvalue.map (Prod.mk name))).bind (hrest.map ((name, v) :: ·))

end

end PoolWriter

end ServiceCatalog
