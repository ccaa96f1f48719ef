import ServiceCatalog.ClassFile.ConstantPool
import ServiceCatalog.Proofs.ClassFile.Reading

/-!
# Reading back a constant pool

The constants of a pool are read in the order in which they are written, each into as many slots as its index
counts.  So the slot that an index names holds the constant that was given the index.

* `PoolItem.Fits`: constants whose sizes fit the bytes that they are written in.
* `ConstantPool.ofItems`: the pool of written constants, slot by slot; `reads_ofItems` says that it is what is read.
* `PoolItem.At`, `get_ofItems`: the constant at an index.
-/

namespace ServiceCatalog

namespace PoolItem

variable {n index : Nat} {items more : List PoolItem} {item : PoolItem} {c : Constant}

/-- What reading keeps of a constant, in its first slot. -/
def kept (item : PoolItem) : Constant := item.constant?.getD .unusable

/-- Whether the sizes of a constant fit the bytes that they are written in. -/
def Fits : PoolItem → Prop
  | utf8 bytes => bytes.length < 256 ^ 2
  | «class» i | string i => i < 256 ^ 2
  | other kind payload => payload.length = kind.payload
  | integer _ | float _ | long _ | double _ => True

@[simp] theorem slots_kept (item : PoolItem) : item.kept.slots = item.slots := by
  cases item with
  | utf8 bytes =>
    rw [kept, constant?]
    cases decodeText? bytes <;> rfl
  | _ => rfl

theorem kept_of_constant? (h : item.constant? = some c) : item.kept = c := by
  rw [kept, h]
  rfl

/-- What is kept of a constant is no mark of an empty slot. -/
theorem ne_unusable_of_constant? (h : item.constant? = some c) : c ≠ .unusable := by
  rintro rfl
  cases item with
  | utf8 bytes =>
    obtain ⟨s, -, hs⟩ := Option.map_eq_some_iff.mp h
    exact absurd hs nofun
  | _ => exact absurd h nofun

@[simp] theorem totalSlots_nil : totalSlots [] = 0 := rfl

@[simp] theorem totalSlots_cons (item : PoolItem) (items : List PoolItem) :
    totalSlots (item :: items) = item.slots + totalSlots items := rfl

@[simp] theorem totalSlots_append (items more : List PoolItem) :
    totalSlots (items ++ more) = totalSlots items + totalSlots more := by
  induction items with
  | nil => simp
  | cons item items ih => simp [ih, Nat.add_assoc]

theorem slots_pos (item : PoolItem) : 0 < item.slots := by
  cases item <;> simp [slots]

/-! ## Constants -/

open ByteReader

/-- A constant that fits its bytes is read back. -/
theorem reads_readConstant (hc : item.constant? = some c) (hfits : item.Fits) :
    Reads (n + 1) (ConstantPool.readConstant index) item.encode c := by
  rw [ConstantPool.readConstant]
  cases item with
  | utf8 bytes =>
    obtain ⟨s, hs, rfl⟩ := Option.map_eq_some_iff.mp hc
    refine reads_tagged ((reads_number hfits).bind ((reads_take rfl).bind_nil ?_))
    rw [hs]
    exact reads_pure _
  | integer v =>
    have hread := (reads_number (n := n) (show _ < 256 ^ 4 from v.toUInt32.toNat_lt)).bind_pure
      (f := fun k => Constant.integer (UInt32.ofNat k).toInt32)
    rw [UInt32.ofNat_toNat, Int32.toInt32_toUInt32] at hread
    exact Option.some.inj hc ▸ reads_tagged hread
  | float bits =>
    have hread := (reads_number (n := n) (show _ < 256 ^ 4 from bits.toNat_lt)).bind_pure
      (f := fun k => Constant.float (UInt32.ofNat k))
    rw [UInt32.ofNat_toNat] at hread
    exact Option.some.inj hc ▸ reads_tagged hread
  | long v =>
    have hread := (reads_wideNumber (n := n) v.toUInt64.toNat_lt).bind_pure
      (f := fun k => Constant.long (UInt64.ofNat k).toInt64)
    rw [UInt64.ofNat_toNat, Int64.toInt64_toUInt64] at hread
    exact Option.some.inj hc ▸ reads_tagged hread
  | double bits =>
    have hread := (reads_wideNumber (n := n) bits.toNat_lt).bind_pure
      (f := fun k => Constant.double (UInt64.ofNat k))
    rw [UInt64.ofNat_toNat] at hread
    exact Option.some.inj hc ▸ reads_tagged hread
  | «class» i => exact Option.some.inj hc ▸ reads_tagged (reads_number hfits).bind_pure
  | string i => exact Option.some.inj hc ▸ reads_tagged (reads_number hfits).bind_pure
  | other kind payload =>
    cases kind <;> exact Option.some.inj hc ▸ reads_tagged (reads_skip hfits).bind_pure

/-! ## Places -/

/-- Whether a constant has a given index among others. -/
def At (items : List PoolItem) (index : Nat) (item : PoolItem) : Prop :=
  ∃ before after, items = before ++ item :: after ∧ index = totalSlots before + 1

theorem at_totalSlots (items : List PoolItem) (item : PoolItem) : At (items ++ [item]) (totalSlots items + 1) item :=
  ⟨items, [], rfl, rfl⟩

/-- Constants that are added behind keep the index of a constant. -/
theorem At.mono (h : At items index item) (hmore : items <+: more) : At more index item := by
  obtain ⟨before, after, rfl, rfl⟩ := h
  obtain ⟨rest, rfl⟩ := hmore
  exact ⟨before, after ++ rest, by simp, rfl⟩

theorem At.pos (h : At items index item) : 0 < index := by
  obtain ⟨before, after, -, rfl⟩ := h
  exact Nat.succ_pos _

theorem At.le (h : At items index item) : index ≤ totalSlots items := by
  obtain ⟨before, after, rfl, rfl⟩ := h
  have hpos := item.slots_pos
  rw [totalSlots_append, totalSlots_cons]
  omega

theorem totalSlots_le (h : items <+: more) : totalSlots items ≤ totalSlots more := by
  obtain ⟨rest, rfl⟩ := h
  rw [totalSlots_append]
  exact Nat.le_add_right ..

end PoolItem

namespace ConstantPool

open ByteReader PoolItem

variable {n index : Nat} {items : List PoolItem} {item : PoolItem} {c : Constant}

/-- The slots that constants fill. -/
def slotsOfAll (items : List PoolItem) : List Constant := items.flatMap fun item => slotsOf item.kept

theorem slotsOfAll_cons (item : PoolItem) (items : List PoolItem) :
    slotsOfAll (item :: items) = slotsOf item.kept ++ slotsOfAll items := List.flatMap_cons

theorem slotsOfAll_append (items more : List PoolItem) :
    slotsOfAll (items ++ more) = slotsOfAll items ++ slotsOfAll more := List.flatMap_append

@[simp] theorem length_slotsOf (c : Constant) : (slotsOf c).length = c.slots := by
  have := c.slots_pos
  simp [slotsOf]
  omega

@[simp] theorem length_slotsOfAll (items : List PoolItem) : (slotsOfAll items).length = totalSlots items := by
  induction items with
  | nil => rfl
  | cons item items ih =>
    rw [slotsOfAll_cons, List.length_append, length_slotsOf, slots_kept, ih, totalSlots_cons]

/-- The pool of constants. -/
def ofItems (items : List PoolItem) : ConstantPool := ⟨.unusable :: slotsOfAll items⟩

/-- An index names the constant that it was given to. -/
theorem get_ofItems (h : At items index item) (hc : item.constant? = some c) :
    (ofItems items).get index = .ok c := by
  obtain ⟨before, after, rfl, rfl⟩ := h
  have hslot : (ofItems (before ++ item :: after)).slots[totalSlots before + 1]? = some c := by
    show (slotsOfAll (before ++ item :: after))[totalSlots before]? = some c
    rw [slotsOfAll_append, List.getElem?_append_right (Nat.le_of_eq (length_slotsOfAll before)),
      length_slotsOfAll, Nat.sub_self, slotsOfAll_cons, kept_of_constant? hc]
    rfl
  have hne := ne_unusable_of_constant? hc
  rw [get, hslot]
  cases c <;> first | rfl | exact absurd rfl hne

/-- Constants that fit their bytes are read into the slots that they fill. -/
theorem reads_readSlots (hitems : ∀ item ∈ items, item.constant?.isSome ∧ item.Fits) (index : Nat) :
    Reads n (readSlots (index + totalSlots items) index) (items.flatMap encode) (slotsOfAll items) := by
  induction items generalizing index with
  | nil =>
    rw [totalSlots_nil, Nat.add_zero, readSlots, if_neg (Nat.lt_irrefl index)]
    exact reads_pure []
  | cons item items ih =>
    obtain ⟨⟨hsome, hfits⟩, hothers⟩ := List.forall_mem_cons.mp hitems
    obtain ⟨c, hc⟩ := Option.isSome_iff_exists.mp hsome
    have hpos := item.slots_pos
    have hcount : index + totalSlots (item :: items) = index + c.slots + totalSlots items := by
      rw [totalSlots_cons, ← slots_kept item, kept_of_constant? hc, Nat.add_assoc]
    rw [readSlots, if_pos (by rw [totalSlots_cons]; omega), hcount]
    rw [slotsOfAll_cons, kept_of_constant? hc]
    exact ((reads_readConstant hc hfits).mono (Nat.le_succ n)).bind (ih hothers _).bind_pure

/-- A pool whose constants fit it is read back. -/
theorem reads_ofItems (hsize : totalSlots items + 1 < 256 ^ 2)
    (hitems : ∀ item ∈ items, item.constant?.isSome ∧ item.Fits) :
    Reads n ConstantPool.read (encodeAll items) (ofItems items) := by
  have hslots := reads_readSlots (n := n) hitems 1
  rw [Nat.add_comm] at hslots
  exact (reads_number hsize).bind hslots.bind_pure

end ConstantPool

end ServiceCatalog
