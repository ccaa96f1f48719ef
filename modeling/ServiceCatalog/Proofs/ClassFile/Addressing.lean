import Mathlib.Algebra.GroupWithZero.Nat
import Mathlib.Data.List.Basic
import ServiceCatalog.Proofs.Chain
import ServiceCatalog.Proofs.ClassFile.Pool

/-!
# Indices into a constant pool

The index of a constant depends on all constants in front of it, those included that nobody refers to.  So reading
has to know the size of every kind of constant, and how many slots it takes: one byte too many, or a slot too few,
and every later index is off.

* `PoolEntry`: the constants of the format, with the fields that the format gives them.
* `PoolEntry.At`: the constant at an index.
* `exists_at_of_lt`: which slot is the first or the second one of which constant.
* `addresses_of_encodeAll`: what is read from the bytes of a pool, and what is found at its indices.
-/

namespace ServiceCatalog

/-! ## Constants of the format -/

/-- A constant of the class file format. -/
inductive PoolEntry where
  | utf8 (bytes : List UInt8)
  | integer (v : Int32)
  | float (bits : UInt32)
  | long (v : Int64)
  | double (bits : UInt64)
  | «class» (name : UInt16)
  | string (text : UInt16)
  | fieldRef (owner member : UInt16)
  | methodRef (owner member : UInt16)
  | interfaceMethodRef (owner member : UInt16)
  | nameAndType (name descriptor : UInt16)
  | methodHandle (kind : UInt8) (member : UInt16)
  | methodType (descriptor : UInt16)
  | dynamic (bootstrap member : UInt16)
  | invokeDynamic (bootstrap member : UInt16)
  | module (name : UInt16)
  | package (name : UInt16)

namespace PoolEntry

/-- Two indices, one behind the other. -/
def indices (i j : UInt16) : List UInt8 := bigEndian 2 i.toNat ++ bigEndian 2 j.toNat

/-- The bytes of a constant. -/
def encode : PoolEntry → List UInt8
  | utf8 bytes => 1 :: bigEndian 2 bytes.length ++ bytes
  | integer v => 3 :: bigEndian 4 v.toUInt32.toNat
  | float bits => 4 :: bigEndian 4 bits.toNat
  | long v => 5 :: bigEndian 8 v.toUInt64.toNat
  | double bits => 6 :: bigEndian 8 bits.toNat
  | «class» name => 7 :: bigEndian 2 name.toNat
  | string text => 8 :: bigEndian 2 text.toNat
  | fieldRef owner member => 9 :: indices owner member
  | methodRef owner member => 10 :: indices owner member
  | interfaceMethodRef owner member => 11 :: indices owner member
  | nameAndType name descriptor => 12 :: indices name descriptor
  | methodHandle kind member => 15 :: kind :: bigEndian 2 member.toNat
  | methodType descriptor => 16 :: bigEndian 2 descriptor.toNat
  | dynamic bootstrap member => 17 :: indices bootstrap member
  | invokeDynamic bootstrap member => 18 :: indices bootstrap member
  | module name => 19 :: bigEndian 2 name.toNat
  | package name => 20 :: bigEndian 2 name.toNat

/-- Whether a constant takes two slots. -/
def isWide : PoolEntry → Bool
  | long _ | double _ => true
  | _ => false

/-- The number of slots of constants. -/
def slotCount (entries : List PoolEntry) : Nat := (entries.map fun e => if e.isWide then 2 else 1).sum

/-- The bytes of a pool: the number of its slots, slot 0 included, and its constants. -/
def encodeAll (entries : List PoolEntry) : List UInt8 :=
  bigEndian 2 (1 + slotCount entries) ++ entries.flatMap encode

/-- Whether a text is one and its length fits.  Nothing else can be wrong with a constant. -/
def Valid : PoolEntry → Prop
  | utf8 bytes => bytes.length < 65536 ∧ (decodeText? bytes).isSome
  | _ => True

/-- Whether a constant of a pool has a given index: slots are counted from 1. -/
def At (entries : List PoolEntry) (index : Nat) (e : PoolEntry) : Prop :=
  ∃ before after, entries = before ++ e :: after ∧ index = 1 + slotCount before

/-- What is kept of a constant: a text instead of its bytes, and the mere kind of what annotations never refer to. -/
def constant? : PoolEntry → Option Constant
  | utf8 bytes => (decodeText? bytes).map .utf8
  | integer v => some (.integer v)
  | float bits => some (.float bits)
  | long v => some (.long v)
  | double bits => some (.double bits)
  | «class» name => some (.class name.toNat)
  | string text => some (.string text.toNat)
  | fieldRef .. => some (.other .fieldRef)
  | methodRef .. => some (.other .methodRef)
  | interfaceMethodRef .. => some (.other .interfaceMethodRef)
  | nameAndType .. => some (.other .nameAndType)
  | methodHandle .. => some (.other .methodHandle)
  | methodType _ => some (.other .methodType)
  | dynamic .. => some (.other .dynamic)
  | invokeDynamic .. => some (.other .invokeDynamic)
  | module _ => some (.other .module)
  | package _ => some (.other .package)

/-! ### As pools are read -/

/-- The constant with its fields as bytes, unless something refers to them. -/
def item : PoolEntry → PoolItem
  | utf8 bytes => .utf8 bytes
  | integer v => .integer v
  | float bits => .float bits
  | long v => .long v
  | double bits => .double bits
  | «class» name => .class name.toNat
  | string text => .string text.toNat
  | fieldRef owner member => .other .fieldRef (indices owner member)
  | methodRef owner member => .other .methodRef (indices owner member)
  | interfaceMethodRef owner member => .other .interfaceMethodRef (indices owner member)
  | nameAndType name descriptor => .other .nameAndType (indices name descriptor)
  | methodHandle kind member => .other .methodHandle (kind :: bigEndian 2 member.toNat)
  | methodType descriptor => .other .methodType (bigEndian 2 descriptor.toNat)
  | dynamic bootstrap member => .other .dynamic (indices bootstrap member)
  | invokeDynamic bootstrap member => .other .invokeDynamic (indices bootstrap member)
  | module name => .other .module (bigEndian 2 name.toNat)
  | package name => .other .package (bigEndian 2 name.toNat)

variable {e : PoolEntry} {entries : List PoolEntry} {index : Nat} {i : PoolItem}

theorem encode_item (e : PoolEntry) : e.item.encode = e.encode := by cases e <;> rfl

theorem slots_item (e : PoolEntry) : e.item.slots = if e.isWide then 2 else 1 := by cases e <;> rfl

theorem constant?_item (e : PoolEntry) : e.item.constant? = e.constant? := by cases e <;> rfl

theorem length_indices (i j : UInt16) : (indices i j).length = 4 := by simp [indices]

theorem Valid.fits_item (h : e.Valid) : e.item.Fits := by
  cases e with
  | utf8 bytes => exact h.1
  | «class» name => exact name.toNat_lt
  | string text => exact text.toNat_lt
  | integer _ | float _ | long _ | double _ => trivial
  | fieldRef | methodRef | interfaceMethodRef | nameAndType | dynamic | invokeDynamic => exact length_indices ..
  | methodHandle kind member => exact congrArg (· + 1) (length_bigEndian 2 _)
  | methodType | module | package => exact length_bigEndian 2 _

theorem Valid.isSome_constant? (h : e.Valid) : e.constant?.isSome := by
  cases e with
  | utf8 bytes => exact (Option.isSome_map).trans h.2
  | _ => rfl

theorem totalSlots_map_item (entries : List PoolEntry) : PoolItem.totalSlots (entries.map item) = slotCount entries := by
  induction entries with
  | nil => rfl
  | cons e entries ih =>
    rw [List.map_cons, PoolItem.totalSlots_cons, ih, slots_item, slotCount, slotCount, List.map_cons, List.sum_cons]

theorem encodeAll_map_item (entries : List PoolEntry) : PoolItem.encodeAll (entries.map item) = encodeAll entries := by
  rw [PoolItem.encodeAll, encodeAll, totalSlots_map_item, Nat.add_comm, List.flatMap_map]
  simp only [encode_item]

/-- Constants have the same indices in both forms. -/
theorem at_map_item_iff : PoolItem.At (entries.map item) index i ↔ ∃ e, At entries index e ∧ e.item = i := by
  constructor
  · rintro ⟨before, after, hsplit, rfl⟩
    obtain ⟨before, behind, rfl, rfl, hbehind⟩ := List.map_eq_append_iff.mp hsplit
    obtain ⟨e, after, rfl, rfl, rfl⟩ := List.map_eq_cons_iff.mp hbehind
    exact ⟨e, ⟨before, after, rfl, by rw [totalSlots_map_item, Nat.add_comm]⟩, rfl⟩
  · rintro ⟨e, ⟨before, after, rfl, rfl⟩, rfl⟩
    exact ⟨before.map item, after.map item, by simp, by rw [totalSlots_map_item, Nat.add_comm]⟩

end PoolEntry

/-! ## Slots -/

namespace PoolItem

variable {items : List PoolItem} {item : PoolItem} {index : Nat}

theorem slots_eq_one_or_two (item : PoolItem) : item.slots = 1 ∨ item.slots = 2 := by
  cases item <;> simp [slots]

theorem At.mem (h : At items index item) : item ∈ items := by
  obtain ⟨before, after, rfl, -⟩ := h
  exact List.mem_append_right _ (List.mem_cons_self ..)

theorem At.cons (h : At items index item) (first : PoolItem) : At (first :: items) (first.slots + index) item := by
  obtain ⟨before, after, rfl, rfl⟩ := h
  exact ⟨first :: before, after, rfl, by rw [totalSlots_cons]; omega⟩

/-- Every slot is the first slot of a constant, or the second one of a constant that takes two. -/
theorem exists_at_of_lt (hindex : index < totalSlots items) :
    ∃ item, At items (index + 1) item ∨ At items index item ∧ item.slots = 2 := by
  induction items generalizing index with
  | nil => exact absurd hindex (Nat.not_lt_zero _)
  | cons first items ih =>
    have hfirst : At (first :: items) 1 first := ⟨[], items, rfl, rfl⟩
    rw [totalSlots_cons] at hindex
    rcases Nat.lt_or_ge index first.slots with hlt | hge
    · rcases Nat.eq_zero_or_pos index with rfl | hpos
      · exact ⟨first, .inl hfirst⟩
      · have hslots := first.slots_eq_one_or_two
        obtain rfl : index = 1 := by omega
        exact ⟨first, .inr ⟨hfirst, by omega⟩⟩
    · obtain ⟨rest, rfl⟩ := Nat.exists_eq_add_of_le hge
      have hrest : rest < totalSlots items := by omega
      obtain ⟨item, hat⟩ := ih hrest
      exact ⟨item, hat.imp (fun h => h.cons first) fun h => ⟨h.1.cons first, h.2⟩⟩

/-- Whether an index names no constant: it is 0, or the second slot of a constant, or behind all constants. -/
def Unused (items : List PoolItem) (index : Nat) : Prop :=
  index = 0 ∨ (∃ first item, At items first item ∧ item.slots = 2 ∧ index = first + 1) ∨ totalSlots items < index

theorem exists_at_or_unused (items : List PoolItem) (index : Nat) :
    (∃ item, At items index item) ∨ Unused items index := by
  rcases Nat.eq_zero_or_pos index with hzero | hpos
  · exact .inr (.inl hzero)
  obtain ⟨slot, rfl⟩ := Nat.exists_eq_succ_of_ne_zero (Nat.ne_of_gt hpos)
  rcases Nat.lt_or_ge slot (totalSlots items) with hlt | hge
  · obtain ⟨item, hat | ⟨hat, hslots⟩⟩ := exists_at_of_lt hlt
    · exact .inl ⟨item, hat⟩
    · exact .inr (.inr (.inl ⟨slot, item, hat, hslots, rfl⟩))
  · exact .inr (.inr (.inr (Nat.lt_succ_of_le hge)))

end PoolItem

/-! ## Looking indices up -/

namespace ConstantPool

open PoolItem

variable {pool : ConstantPool} {items : List PoolItem} {item : PoolItem} {index : Nat} {c : Constant}

theorem get_of_slot (h : pool.slots[index]? = some .unusable ∨ pool.slots[index]? = none) :
    pool.get index = .error (.invalidConstantIndex index) := by
  rw [get]
  rcases h with h | h <;> rw [h]

/-- The second slot of a constant holds nothing. -/
theorem getElem?_slotsOfAll_second (h : At items index item) (hslots : item.slots = 2) :
    (slotsOfAll items)[index]? = some .unusable := by
  obtain ⟨before, after, rfl, rfl⟩ := h
  have hle : (slotsOfAll before).length ≤ totalSlots before + 1 := by
    rw [length_slotsOfAll]
    exact Nat.le_succ _
  rw [slotsOfAll_append, List.getElem?_append_right hle, length_slotsOfAll, Nat.add_sub_cancel_left, slotsOfAll_cons,
    slotsOf, slots_kept, hslots]
  rfl

theorem get_of_unused (h : Unused items index) : (ofItems items).get index = .error (.invalidConstantIndex index) := by
  rcases h with rfl | ⟨first, item, hat, hslots, rfl⟩ | h
  · exact get_of_slot (.inl rfl)
  · exact get_of_slot (.inl (getElem?_slotsOfAll_second hat hslots))
  · refine get_of_slot (.inr (List.getElem?_eq_none ?_))
    show (slotsOfAll items).length + 1 ≤ index
    rw [length_slotsOfAll]
    exact h

/-- A constant is found exactly at its index. -/
theorem get_ofItems_eq_ok_iff (hitems : ∀ item ∈ items, item.constant?.isSome) :
    (ofItems items).get index = .ok c ↔ ∃ item, At items index item ∧ item.constant? = some c := by
  constructor
  · intro h
    rcases exists_at_or_unused items index with ⟨item, hat⟩ | hunused
    · obtain ⟨c', hc'⟩ := Option.isSome_iff_exists.mp (hitems item hat.mem)
      obtain rfl := Except.ok.inj (h.symm.trans (get_ofItems hat hc'))
      exact ⟨item, hat, hc'⟩
    · exact absurd (h.symm.trans (get_of_unused hunused)) nofun
  · rintro ⟨item, hat, hc⟩
    exact get_ofItems hat hc

/-- Nothing is found exactly where no constant is. -/
theorem get_ofItems_eq_error_iff (hitems : ∀ item ∈ items, item.constant?.isSome) :
    (ofItems items).get index = .error (.invalidConstantIndex index) ↔ Unused items index := by
  refine ⟨fun h => ?_, get_of_unused⟩
  rcases exists_at_or_unused items index with ⟨item, hat⟩ | hunused
  · obtain ⟨c, hc⟩ := Option.isSome_iff_exists.mp (hitems item hat.mem)
    exact absurd (h.symm.trans (get_ofItems hat hc)) nofun
  · exact hunused

/-! ### Constants of one kind -/

theorem utf8_eq_ok_iff {s : String} : pool.utf8 index = .ok s ↔ pool.get index = .ok (.utf8 s) := by
  rw [utf8, bind_eq_ok_iff]
  constructor
  · rintro ⟨c, hget, hc⟩
    cases c with
    | utf8 t =>
      obtain rfl := Except.ok.inj hc
      exact hget
    | _ => exact absurd hc nofun
  · exact fun h => ⟨_, h, rfl⟩

theorem integer_eq_ok_iff {v : Int32} : pool.integer index = .ok v ↔ pool.get index = .ok (.integer v) := by
  rw [integer, bind_eq_ok_iff]
  constructor
  · rintro ⟨c, hget, hc⟩
    cases c with
    | integer w =>
      obtain rfl := Except.ok.inj hc
      exact hget
    | _ => exact absurd hc nofun
  · exact fun h => ⟨_, h, rfl⟩

theorem className_eq_ok_iff {s : String} :
    pool.className index = .ok s ↔ ∃ name, pool.get index = .ok (.class name) ∧ pool.get name = .ok (.utf8 s) := by
  rw [className, bind_eq_ok_iff]
  constructor
  · rintro ⟨c, hget, hc⟩
    cases c with
    | «class» name => exact ⟨name, hget, utf8_eq_ok_iff.mp hc⟩
    | _ => exact absurd hc nofun
  · rintro ⟨name, hget, hname⟩
    exact ⟨_, hget, utf8_eq_ok_iff.mpr hname⟩

end ConstantPool

namespace PoolEntry

variable {e : PoolEntry} {entries : List PoolEntry} {index : Nat} {c : Constant}

theorem constant?_eq_utf8_iff {s : String} :
    e.constant? = some (.utf8 s) ↔ ∃ bytes, e = .utf8 bytes ∧ decodeText? bytes = some s := by
  cases e <;> simp [constant?]

theorem constant?_eq_class_iff {i : Nat} :
    e.constant? = some (.class i) ↔ ∃ name : UInt16, e = .class name ∧ name.toNat = i := by
  cases e <;> simp [constant?]

theorem constant?_eq_integer_iff {v : Int32} : e.constant? = some (.integer v) ↔ e = .integer v := by
  cases e <;> simp [constant?]

/-- The pool of constants. -/
def pool (entries : List PoolEntry) : ConstantPool := .ofItems (entries.map item)

theorem isSome_constant?_of_mem_map (hvalid : ∀ e ∈ entries, e.Valid) :
    ∀ i ∈ entries.map item, i.constant?.isSome := by
  intro i hi
  obtain ⟨e, he, rfl⟩ := List.mem_map.mp hi
  rw [constant?_item]
  exact (hvalid e he).isSome_constant?

theorem get_pool_eq_ok_iff (hvalid : ∀ e ∈ entries, e.Valid) :
    (pool entries).get index = .ok c ↔ ∃ e, At entries index e ∧ e.constant? = some c := by
  rw [pool, ConstantPool.get_ofItems_eq_ok_iff (isSome_constant?_of_mem_map hvalid)]
  simp only [at_map_item_iff]
  constructor
  · rintro ⟨i, ⟨e, hat, rfl⟩, hc⟩
    exact ⟨e, hat, constant?_item e ▸ hc⟩
  · rintro ⟨e, hat, hc⟩
    exact ⟨e.item, ⟨e, hat, rfl⟩, (constant?_item e).trans hc⟩

theorem unused_map_item_iff : PoolItem.Unused (entries.map item) index ↔
    index = 0 ∨ (∃ first e, At entries first e ∧ e.isWide = true ∧ index = first + 1) ∨
      1 + slotCount entries ≤ index := by
  have hslots : ∀ e : PoolEntry, e.item.slots = 2 ↔ e.isWide = true := by
    intro e
    rw [slots_item]
    cases e.isWide <;> simp
  rw [PoolItem.Unused, totalSlots_map_item, Nat.add_comm 1, Nat.succ_le_iff]
  refine or_congr_right (or_congr_left ⟨?_, ?_⟩)
  · rintro ⟨first, i, hat, htwo, rfl⟩
    obtain ⟨e, hplace, rfl⟩ := at_map_item_iff.mp hat
    exact ⟨first, e, hplace, (hslots e).mp htwo, rfl⟩
  · rintro ⟨first, e, hat, hwide, rfl⟩
    exact ⟨first, e.item, at_map_item_iff.mpr ⟨e, hat, rfl⟩, (hslots e).mpr hwide, rfl⟩

theorem reads_pool {n : Nat} (hvalid : ∀ e ∈ entries, e.Valid) (hcount : 1 + slotCount entries < 65536) :
    ByteReader.Reads n ConstantPool.read (encodeAll entries) (pool entries) := by
  rw [← encodeAll_map_item]
  refine ConstantPool.reads_ofItems ?_ fun i hi => ?_
  · rw [totalSlots_map_item, Nat.add_comm]
    exact hcount
  · refine ⟨isSome_constant?_of_mem_map hvalid i hi, ?_⟩
    obtain ⟨e, he, rfl⟩ := List.mem_map.mp hi
    exact (hvalid e he).fits_item

end PoolEntry

/-- From the bytes of a pool exactly these bytes are read.  A constant is then found at its index, and nothing is
found at index 0, at the second slot of a wide constant and behind all constants.  The look-ups of texts, class names
and integers succeed where such a constant is, and nowhere else. -/
theorem addresses_of_encodeAll {entries : List PoolEntry} (hvalid : ∀ e ∈ entries, e.Valid)
    (hcount : 1 + PoolEntry.slotCount entries < 65536) :
    ∃ pool : ConstantPool,
      (∀ rest, ConstantPool.read (PoolEntry.encodeAll entries ++ rest) = .ok pool rest) ∧
      (∀ index e, PoolEntry.At entries index e → ∃ c, e.constant? = some c ∧ pool.get index = .ok c) ∧
      (∀ index, pool.get index = .error (.invalidConstantIndex index) ↔
        index = 0 ∨ (∃ first e, PoolEntry.At entries first e ∧ e.isWide = true ∧ index = first + 1) ∨
          1 + PoolEntry.slotCount entries ≤ index) ∧
      (∀ index s, pool.utf8 index = .ok s ↔
        ∃ bytes, PoolEntry.At entries index (.utf8 bytes) ∧ decodeText? bytes = some s) ∧
      (∀ index s, pool.className index = .ok s ↔
        ∃ name bytes, PoolEntry.At entries index (.class name) ∧ PoolEntry.At entries name.toNat (.utf8 bytes) ∧
          decodeText? bytes = some s) ∧
      ∀ index v, pool.integer index = .ok v ↔ PoolEntry.At entries index (.integer v) := by
  have hget : ∀ index c, (PoolEntry.pool entries).get index = .ok c ↔
      ∃ e, PoolEntry.At entries index e ∧ e.constant? = some c := fun _ _ => PoolEntry.get_pool_eq_ok_iff hvalid
  refine ⟨PoolEntry.pool entries, fun rest => ?_, fun index e hat => ?_, fun index => ?_, fun index s => ?_,
    fun index s => ?_, fun index v => ?_⟩
  · exact PoolEntry.reads_pool hvalid hcount rest (Nat.lt_succ_self _)
  · obtain ⟨before, after, hsplit, -⟩ := id hat
    have hmem : e ∈ entries := hsplit ▸ List.mem_append_right _ (List.mem_cons_self ..)
    obtain ⟨c, hc⟩ := Option.isSome_iff_exists.mp (hvalid e hmem).isSome_constant?
    exact ⟨c, hc, (hget index c).mpr ⟨e, hat, hc⟩⟩
  · rw [PoolEntry.pool, ConstantPool.get_ofItems_eq_error_iff (PoolEntry.isSome_constant?_of_mem_map hvalid),
      PoolEntry.unused_map_item_iff]
  · rw [ConstantPool.utf8_eq_ok_iff, hget]
    simp only [PoolEntry.constant?_eq_utf8_iff]
    constructor
    · rintro ⟨e, hat, bytes, rfl, hs⟩
      exact ⟨bytes, hat, hs⟩
    · rintro ⟨bytes, hat, hs⟩
      exact ⟨_, hat, bytes, rfl, hs⟩
  · simp only [ConstantPool.className_eq_ok_iff, hget, PoolEntry.constant?_eq_utf8_iff,
      PoolEntry.constant?_eq_class_iff]
    constructor
    · rintro ⟨i, ⟨e, hat, name, rfl, rfl⟩, e', hat', bytes, rfl, hs⟩
      exact ⟨name, bytes, hat, hat', hs⟩
    · rintro ⟨name, bytes, hat, hat', hs⟩
      exact ⟨_, ⟨_, hat, name, rfl, rfl⟩, _, hat', bytes, rfl, hs⟩
  · rw [ConstantPool.integer_eq_ok_iff, hget]
    simp only [PoolEntry.constant?_eq_integer_iff, exists_eq_right]

/-! ### A pool with every kind of constant -/

namespace EveryKind

/-- The text of a class name. -/
def text : List UInt8 := utf8Bytes "a/B"

/-- Constants of all kinds, wide ones in front of others. -/
def entries : List PoolEntry :=
  [.long 7, .utf8 text, .class 3, .methodHandle 6 13, .double 1, .float 2, .string 3, .fieldRef 4 14,
    .interfaceMethodRef 4 14, .methodRef 4 14, .nameAndType 3 3, .methodType 3, .dynamic 0 14, .invokeDynamic 0 14,
    .module 3, .package 3, .integer 42]

theorem valid_entries : ∀ e ∈ entries, e.Valid := by
  have htext : PoolEntry.Valid (.utf8 text) :=
    ⟨by decide +kernel, Option.isSome_of_eq_some (decodeText?_utf8Bytes "a/B")⟩
  simpa [entries, PoolEntry.Valid] using htext

/-- The class is found by its name and the last constant at its index; the second slot of the first one is empty. -/
theorem addresses_entries : (∀ e ∈ entries, e.Valid) ∧ 1 + PoolEntry.slotCount entries < 65536 ∧
    ∃ pool, ConstantPool.read (PoolEntry.encodeAll entries) = .ok pool [] ∧ pool.className 4 = .ok "a/B" ∧
      pool.integer 19 = .ok 42 ∧ pool.get 2 = .error (.invalidConstantIndex 2) := by
  have hcount : 1 + PoolEntry.slotCount entries < 65536 := by decide
  obtain ⟨pool, hread, -, hunused, -, hclass, hinteger⟩ := addresses_of_encodeAll valid_entries hcount
  refine ⟨valid_entries, hcount, pool, ?_, ?_, ?_, ?_⟩
  · have hall := hread []
    rwa [List.append_nil] at hall
  · exact (hclass 4 "a/B").mpr ⟨3, text, ⟨entries.take 2, _, rfl, rfl⟩, ⟨entries.take 1, _, rfl, rfl⟩,
      decodeText?_utf8Bytes "a/B"⟩
  · exact (hinteger 19 42).mpr ⟨entries.take 16, _, rfl, rfl⟩
  · exact (hunused 2).mpr (.inr (.inl ⟨1, .long 7, ⟨[], _, rfl, rfl⟩, rfl, rfl⟩))

end EveryKind

end ServiceCatalog
