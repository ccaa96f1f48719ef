import Mathlib.Algebra.Group.Nat.Defs
import Mathlib.Data.List.Forall2
import Mathlib.Data.List.Induction
import ServiceCatalog.ClassFile.Bytes
import ServiceCatalog.ClassFile.ModifiedUtf8

/-!
# Reading back what was written

A reader takes its bytes from the front of those that are left, so what it makes of bytes does not depend on what
follows them.  `Reads n item bytes a` says this of one reader and the bytes of one value; the bound `n` on the number
of bytes that are left is for readers that only work below a start.

* `ofBigEndian_bigEndian_mod`: what is left of a number in a given width.
* `Reads.bind`, `reads_times`, `reads_counted`: readers in a row take bytes in a row.
* `decodeText?_utf8Bytes`: a text survives.
-/

namespace ServiceCatalog

/-! ## Numbers -/

/-- What bytes keep of a number is its rest by the numbers that they can spell. -/
theorem ofBigEndian_bigEndian_mod (width n : Nat) : ofBigEndian (bigEndian width n) = n % 256 ^ width := by
  induction width generalizing n with
  | zero => rw [Nat.pow_zero, Nat.mod_one]; rfl
  | succ width ih =>
    rw [ofBigEndian_bigEndian_succ, ih, Nat.pow_succ, Nat.mul_comm (256 ^ width), Nat.mod_mul]
    omega

/-- The bytes of a number are those of its high part, and behind them those of its low part. -/
theorem bigEndian_add (high low n : Nat) :
    bigEndian (high + low) n = bigEndian high (n / 256 ^ low) ++ bigEndian low n := by
  induction low generalizing n with
  | zero => simp [bigEndian]
  | succ low ih =>
    rw [← Nat.add_assoc, bigEndian, bigEndian, ih, List.append_assoc, Nat.div_div_eq_div_mul, Nat.pow_succ']

/-- Bytes spell a number that fits them. -/
theorem ofBigEndian_lt (bytes : List UInt8) : ofBigEndian bytes < 256 ^ bytes.length := by
  induction bytes using List.reverseRecOn with
  | nil => exact Nat.one_pos
  | append_singleton bytes b ih =>
    have hb := b.toNat_lt
    rw [ofBigEndian_append, List.length_append, List.length_singleton, Nat.pow_succ]
    omega

/-- Bytes are those of the number that they spell. -/
theorem bigEndian_ofBigEndian (bytes : List UInt8) : bigEndian bytes.length (ofBigEndian bytes) = bytes := by
  induction bytes using List.reverseRecOn with
  | nil => rfl
  | append_singleton bytes b ih =>
    have hb := b.toNat_lt
    have hhigh : (ofBigEndian bytes * 256 + b.toNat) / 256 = ofBigEndian bytes := by omega
    have hlow : UInt8.ofNat (ofBigEndian bytes * 256 + b.toNat) = b := by
      apply UInt8.toNat_inj.mp
      rw [UInt8.toNat_ofNat']
      omega
    rw [ofBigEndian_append, List.length_append, List.length_singleton, bigEndian, hhigh, hlow, ih]

/-! ## Readers -/

namespace ByteReader

variable {α β : Type} {n k width : Nat} {item : ByteReader α} {bytes more : List UInt8} {a : α} {b : β}

/-- Whether a reader with fewer than `n` bytes left takes given bytes and answers a given value. -/
def Reads (n : Nat) (item : ByteReader α) (bytes : List UInt8) (a : α) : Prop :=
  ∀ rest, (bytes ++ rest).length < n → item (bytes ++ rest) = .ok a rest

theorem reads_pure (a : α) : Reads n (pure a) [] a := fun _ _ => rfl

theorem Reads.mono (h : Reads n item bytes a) (hk : k ≤ n) : Reads k item bytes a :=
  fun rest hn => h rest (Nat.lt_of_lt_of_le hn hk)

theorem Reads.bind {f : α → ByteReader β} (h : Reads n item bytes a) (hf : Reads n (f a) more b) :
    Reads n (item >>= f) (bytes ++ more) b := by
  intro rest hn
  rw [List.append_assoc] at hn ⊢
  show EStateM.bind item f _ = _
  rw [EStateM.bind, h _ hn]
  exact hf rest (Nat.lt_of_le_of_lt (by simp) hn)

/-- A reader behind which nothing more is taken. -/
theorem Reads.bind_nil {f : α → ByteReader β} (h : Reads n item bytes a) (hf : Reads n (f a) [] b) :
    Reads n (item >>= f) bytes b := by
  have hbind := h.bind hf
  rwa [List.append_nil] at hbind

theorem Reads.bind_pure {f : α → β} (h : Reads n item bytes a) :
    Reads n (item >>= fun x => pure (f x)) bytes (f a) :=
  h.bind_nil (reads_pure (f a))

/-- A reader that goes on after a tag, with one byte less left. -/
theorem reads_tagged {f : Nat → ByteReader β} {tag : UInt8} (h : Reads n (f tag.toNat) bytes b) :
    Reads (n + 1) (number 1 >>= f) (tag :: bytes) b := by
  intro rest hn
  have htag : number 1 (tag :: (bytes ++ rest)) = .ok tag.toNat (bytes ++ rest) := by
    show EStateM.Result.ok (0 * 256 + tag.toNat) _ = _
    rw [Nat.zero_mul, Nat.zero_add]
    rfl
  show EStateM.bind (number 1) f _ = _
  rw [EStateM.bind, List.cons_append, htag]
  exact h rest (Nat.lt_of_succ_lt_succ hn)

theorem reads_take (h : bytes.length = k) : Reads n (take k) bytes bytes := by
  intro rest _
  simp [take, ← h]

theorem reads_skip (h : bytes.length = k) : Reads n (skip k) bytes () := (reads_take h).bind_pure

/-- A number is read from its bytes up to what they keep of it. -/
theorem reads_number_mod (k width : Nat) : Reads n (number width) (bigEndian width k) (k % 256 ^ width) := by
  have hread := (reads_take (n := n) (length_bigEndian width k)).bind_pure (f := ofBigEndian)
  rwa [ofBigEndian_bigEndian_mod] at hread

theorem reads_number (h : k < 256 ^ width) : Reads n (number width) (bigEndian width k) k := by
  have hread := reads_number_mod (n := n) k width
  rwa [Nat.mod_eq_of_lt h] at hread

/-- A number of eight bytes is read as its two halves. -/
theorem reads_wideNumber (h : k < 256 ^ 8) : Reads n wideNumber (bigEndian 8 k) k := by
  have hhigh : k / 256 ^ 4 < 256 ^ 4 := by omega
  have hvalue : k / 256 ^ 4 * 0x100000000 + k % 256 ^ 4 = k := by omega
  have hlow := (reads_number_mod (n := n) k 4).bind_pure (f := fun low => k / 256 ^ 4 * 0x100000000 + low)
  rw [hvalue] at hlow
  rw [bigEndian_add 4 4]
  exact (reads_number hhigh).bind hlow

theorem reads_times {as : List α} {parts : List (List UInt8)} (h : List.Forall₂ (Reads n item) parts as) :
    Reads n (times as.length item) parts.flatten as := by
  induction h with
  | nil => exact reads_pure []
  | cons hfirst hothers ih => exact hfirst.bind ih.bind_pure

theorem reads_counted {as : List α} (hlength : as.length < 256 ^ 2) (h : Reads n (times as.length item) bytes as) :
    Reads n (counted item) (bigEndian 2 as.length ++ bytes) as :=
  (reads_number hlength).bind h

theorem answer_of_reads (h : Reads (bytes.length + 1) item bytes a) : answer item bytes = .ok a := by
  have hread := h []
  rw [List.append_nil] at hread
  rw [answer, hread (Nat.lt_succ_self _)]

theorem reads_within (h : answer item bytes = .ok a) : Reads n (within bytes item) [] a := by
  intro rest _
  rw [within, h]
  rfl

theorem reads_ofExcept {e : Except ClassFileError α} (h : e = .ok a) : Reads n (ofExcept e) [] a := h ▸ reads_pure a

/-- Readers that agree on fewer than `n` bytes read the same. -/
theorem Reads.congr {item' : ByteReader α} (h : Reads n item bytes a)
    (hsame : ∀ bytes, bytes.length < n → item' bytes = item bytes) : Reads n item' bytes a :=
  fun rest hn => (hsame _ hn).trans (h rest hn)

end ByteReader

/-! ## Texts -/

theorem toList_loop (bytes : ByteArray) (i : Nat) (taken : List UInt8) :
    ByteArray.toList.loop bytes i taken = taken.reverse ++ bytes.data.toList.drop i := by
  induction i, taken using ByteArray.toList.loop.induct bytes with
  | case1 i taken hi ih =>
    have hsize : i < bytes.data.toList.length := hi
    rw [ByteArray.toList.loop, if_pos hi, ih, List.drop_eq_getElem_cons hsize, List.reverse_cons, List.append_assoc]
    have hget : bytes.get! i = bytes.data.toList[i] := by
      show bytes.data[i]! = _
      rw [getElem!_pos bytes.data i hi, Array.getElem_toList]
    rw [hget]
    rfl
  | case2 i taken hi =>
    have hsize : bytes.data.toList.length ≤ i := Nat.le_of_not_lt hi
    rw [ByteArray.toList.loop, if_neg hi, List.drop_eq_nil_of_le hsize, List.append_nil]

theorem ofUtf8?_utf8Bytes (s : String) : ofUtf8? (utf8Bytes s) = some s := by
  have hbytes : (⟨(utf8Bytes s).toArray⟩ : ByteArray) = s.toByteArray := by
    rw [utf8Bytes, ByteArray.toList, toList_loop]
    rfl
  rw [ofUtf8?, hbytes, String.fromUTF8?, dif_pos s.isValidUTF8]
  rfl

/-- A text is determined by its bytes. -/
theorem utf8Bytes_inj {s t : String} : utf8Bytes s = utf8Bytes t ↔ s = t := by
  refine ⟨fun h => ?_, congrArg utf8Bytes⟩
  have hs := ofUtf8?_utf8Bytes s
  rw [h, ofUtf8?_utf8Bytes] at hs
  exact (Option.some.inj hs).symm

theorem utf8Bytes_ofList (cs : List Char) : utf8Bytes (String.ofList cs) = cs.flatMap String.utf8EncodeChar := by
  rw [utf8Bytes, ByteArray.toList, toList_loop]
  show cs.utf8Encode.data.toList = _
  simp [List.utf8Encode]

theorem decodeText?_utf8Bytes (s : String) : decodeText? (utf8Bytes s) = some s := by
  rw [decodeText?, ofUtf8?_utf8Bytes]
  rfl

end ServiceCatalog
