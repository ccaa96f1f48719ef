import Mathlib.Data.List.Basic
import ServiceCatalog.Proofs.ClassFile.Reading

/-!
# Texts survive in class files

A class file writes a text unit by unit of UTF-16.  Reading takes bytes for standard UTF-8 where they are, and for
units where they are not, so a text would be lost if what is written for it were the standard UTF-8 of another one.
It never is: characters of one unit have the same bytes in both forms but for the character zero, and the bytes of
wider characters in one form are no bytes of the other.

* `ModifiedUtf8.encode`: the bytes that are written for a text.
* `textOfUnits?_encode`: read unit by unit, they are the text.
* `eq_of_textOfUnits?_utf8Bytes`: bytes that can be read in both ways are read alike.
* `decodeText?_of_either_form`: a text is read back from its bytes in either form.
-/

namespace ServiceCatalog

namespace ModifiedUtf8

/-! ## Writing -/

/-- The units of a character: itself, or its two surrogates. -/
def unitsOf (c : Char) : List Nat :=
  if c.toNat < 0x10000 then [c.toNat]
  else [0xD800 + (c.toNat - 0x10000) / 1024, 0xDC00 + (c.toNat - 0x10000) % 1024]

/-- The bytes of a unit.  The unit zero takes two, so that no zero byte occurs. -/
def unitBytes (u : Nat) : List UInt8 :=
  if u ≠ 0 ∧ u < 0x80 then [UInt8.ofNat u]
  else if u < 0x800 then [UInt8.ofNat (0xC0 + u / 64), UInt8.ofNat (0x80 + u % 64)]
  else [UInt8.ofNat (0xE0 + u / 4096), UInt8.ofNat (0x80 + u / 64 % 64), UInt8.ofNat (0x80 + u % 64)]

/-- The bytes that a class file holds for a text. -/
def encode (s : String) : List UInt8 := (s.toList.flatMap unitsOf).flatMap unitBytes

/-! ## Bytes to units -/

variable {bytes : List UInt8} {u x y z : Nat}

theorem toNat_ofNat_of_lt (h : x < 256) : (UInt8.ofNat x).toNat = x := UInt8.toNat_ofNat_of_lt' h

theorem continuation?_ofNat (hx : x < 64) : continuation? (UInt8.ofNat (0x80 + x)) = some x := by
  rw [continuation?, toNat_ofNat_of_lt (by omega), if_pos (by omega)]
  congr 1
  omega

theorem units?_one {b : UInt8} (hb : b.toNat < 0x80) : units? (b :: bytes) = (units? bytes).map (b.toNat :: ·) := by
  rw [units?.eq_def]
  exact if_pos hb

theorem units?_two (bytes : List UInt8) (hx : x < 32) (hy : y < 64) :
    units? (UInt8.ofNat (0xC0 + x) :: UInt8.ofNat (0x80 + y) :: bytes) =
      (units? bytes).map ((x * 64 + y) :: ·) := by
  have hfirst := toNat_ofNat_of_lt (show 0xC0 + x < 256 by omega)
  rw [units?.eq_def]
  simp only [hfirst]
  rw [if_neg (by omega), if_pos (by omega), continuation?_ofNat hy, show (0xC0 + x) % 32 = x by omega]
  cases units? bytes <;> rfl

theorem units?_three (bytes : List UInt8) (hx : x < 16) (hy : y < 64) (hz : z < 64) :
    units? (UInt8.ofNat (0xE0 + x) :: UInt8.ofNat (0x80 + y) :: UInt8.ofNat (0x80 + z) :: bytes) =
      (units? bytes).map ((x * 4096 + y * 64 + z) :: ·) := by
  have hfirst := toNat_ofNat_of_lt (show 0xE0 + x < 256 by omega)
  rw [units?.eq_def]
  simp only [hfirst]
  rw [if_neg (by omega), if_neg (by omega), if_pos (by omega), continuation?_ofNat hy, continuation?_ofNat hz,
    show (0xE0 + x) % 16 = x by omega]
  cases units? bytes <;> rfl

/-- The first byte of four is that of no unit. -/
theorem units?_four {b : UInt8} (hb : 0xF0 ≤ b.toNat) : units? (b :: bytes) = none := by
  have hlt : b.toNat < 256 := b.toNat_lt
  rw [units?.eq_def]
  dsimp only
  rw [if_neg (by omega), if_neg (by omega), if_neg (by omega)]

/-- A unit is read back from its bytes. -/
theorem units?_unitBytes (hu : u < 0x10000) : units? (unitBytes u ++ bytes) = (units? bytes).map (u :: ·) := by
  rw [unitBytes]
  split
  · next h =>
    have hbyte := toNat_ofNat_of_lt (show u < 256 by omega)
    rw [List.cons_append, List.nil_append, units?_one (by omega), hbyte]
  · split
    · have hread := units?_two bytes (show u / 64 < 32 by omega) (show u % 64 < 64 by omega)
      rwa [show u / 64 * 64 + u % 64 = u by omega] at hread
    · have hread := units?_three bytes (show u / 4096 < 16 by omega) (show u / 64 % 64 < 64 by omega)
        (show u % 64 < 64 by omega)
      rwa [show u / 4096 * 4096 + u / 64 % 64 * 64 + u % 64 = u by omega] at hread

theorem units?_flatMap_unitBytes {us : List Nat} (hus : ∀ u ∈ us, u < 0x10000) :
    units? (us.flatMap unitBytes) = some us := by
  induction us with
  | nil => rw [List.flatMap_nil, units?.eq_def]
  | cons u us ih =>
    obtain ⟨hu, hus⟩ := List.forall_mem_cons.mp hus
    rw [List.flatMap_cons, units?_unitBytes hu, ih hus]
    rfl

/-! ## Units to characters -/

variable {c : Char} {cs : List Char}

/-- The code points of characters: none is a surrogate. -/
theorem toNat_valid (c : Char) : c.toNat < 0xD800 ∨ 0xDFFF < c.toNat ∧ c.toNat < 0x110000 := c.valid

theorem not_isSurrogate_toNat (c : Char) : isHighSurrogate c.toNat = false ∧ isLowSurrogate c.toNat = false := by
  have hvalid := toNat_valid c
  simp only [isHighSurrogate, isLowSurrogate, Bool.and_eq_false_iff, decide_eq_false_iff_not]
  omega

theorem lt_of_mem_unitsOf (hu : u ∈ unitsOf c) : u < 0x10000 := by
  have hvalid := toNat_valid c
  rw [unitsOf] at hu
  split at hu
  · next h =>
    rw [List.mem_singleton.mp hu]
    exact h
  · rcases List.mem_pair.mp hu with h | h <;> omega

theorem ofUnits?_toNat (c : Char) (us : List Nat) : ofUnits? (c.toNat :: us) = (ofUnits? us).map (c :: ·) := by
  obtain ⟨hhigh, hlow⟩ := not_isSurrogate_toNat c
  rw [ofUnits?.eq_def]
  dsimp only
  rw [hhigh, hlow, if_neg Bool.false_ne_true, if_neg Bool.false_ne_true, Char.ofNat_toNat]

/-- A character is read back from its units. -/
theorem ofUnits?_unitsOf (c : Char) (us : List Nat) : ofUnits? (unitsOf c ++ us) = (ofUnits? us).map (c :: ·) := by
  rw [unitsOf]
  split
  · exact ofUnits?_toNat c us
  · next h =>
    have hvalid := toNat_valid c
    have hhigh : isHighSurrogate (0xD800 + (c.toNat - 0x10000) / 1024) = true := by
      simp only [isHighSurrogate, Bool.and_eq_true, decide_eq_true_eq]
      omega
    have hlow : isLowSurrogate (0xDC00 + (c.toNat - 0x10000) % 1024) = true := by
      simp only [isLowSurrogate, Bool.and_eq_true, decide_eq_true_eq]
      omega
    have hvalue : 0x10000 + (0xD800 + (c.toNat - 0x10000) / 1024 - 0xD800) * 1024 +
        (0xDC00 + (c.toNat - 0x10000) % 1024 - 0xDC00) = c.toNat := by omega
    rw [List.cons_append, List.cons_append, List.nil_append, ofUnits?.eq_def]
    simp only [hhigh, hlow, if_true, hvalue, Char.ofNat_toNat]

theorem ofUnits?_flatMap_unitsOf (cs : List Char) : ofUnits? (cs.flatMap unitsOf) = some cs := by
  induction cs with
  | nil => rw [List.flatMap_nil, ofUnits?.eq_def]
  | cons c cs ih =>
    rw [List.flatMap_cons, ofUnits?_unitsOf, ih]
    rfl

/-- A text is read back unit by unit from what is written for it. -/
theorem textOfUnits?_encode (s : String) : textOfUnits? (encode s) = some s := by
  have hunits : units? (encode s) = some (s.toList.flatMap unitsOf) := by
    refine units?_flatMap_unitBytes fun u hu => ?_
    obtain ⟨c, -, hu⟩ := List.mem_flatMap.mp hu
    exact lt_of_mem_unitsOf hu
  rw [textOfUnits?, hunits, Option.bind_eq_bind, Option.bind_some, ofUnits?_flatMap_unitsOf, Option.bind_eq_bind,
    Option.bind_some, String.ofList_toList]
  rfl

/-! ## Standard UTF-8 -/

/-- The standard bytes of a character, one to four of them. -/
theorem utf8EncodeChar_eq (c : Char) : String.utf8EncodeChar c =
    if c.toNat ≤ 0x7F then [UInt8.ofNat c.toNat]
    else if c.toNat ≤ 0x7FF then [UInt8.ofNat (c.toNat / 64 % 32 + 0xC0), UInt8.ofNat (c.toNat % 64 + 0x80)]
    else if c.toNat ≤ 0xFFFF then
      [UInt8.ofNat (c.toNat / 4096 % 16 + 0xE0), UInt8.ofNat (c.toNat / 64 % 64 + 0x80),
        UInt8.ofNat (c.toNat % 64 + 0x80)]
    else
      [UInt8.ofNat (c.toNat / 262144 % 8 + 0xF0), UInt8.ofNat (c.toNat / 4096 % 64 + 0x80),
        UInt8.ofNat (c.toNat / 64 % 64 + 0x80), UInt8.ofNat (c.toNat % 64 + 0x80)] := rfl

/-- Apart from the character zero, the standard bytes of a character of one unit are those of the unit. -/
theorem utf8EncodeChar_eq_unitBytes (hpos : 0 < c.toNat) (hc : c.toNat < 0x10000) :
    String.utf8EncodeChar c = unitBytes c.toNat := by
  rw [utf8EncodeChar_eq, unitBytes]
  by_cases hone : c.toNat ≤ 0x7F
  · rw [if_pos hone, if_pos (by omega)]
  · rw [if_neg hone, if_neg (show ¬ (c.toNat ≠ 0 ∧ c.toNat < 0x80) by omega)]
    by_cases htwo : c.toNat ≤ 0x7FF
    · rw [if_pos htwo, if_pos (show c.toNat < 0x800 by omega), show c.toNat / 64 % 32 = c.toNat / 64 by omega,
        Nat.add_comm _ 0xC0, Nat.add_comm _ 0x80]
    · rw [if_neg htwo, if_pos (show c.toNat ≤ 0xFFFF by omega), if_neg (show ¬ c.toNat < 0x800 by omega),
        show c.toNat / 4096 % 16 = c.toNat / 4096 by omega, Nat.add_comm _ 0xE0, Nat.add_comm _ 0x80,
        Nat.add_comm _ 0x80]

/-- The standard bytes of a character of one unit are read as this unit. -/
theorem units?_utf8EncodeChar (hc : c.toNat < 0x10000) :
    units? (String.utf8EncodeChar c ++ bytes) = (units? bytes).map (c.toNat :: ·) := by
  rcases Nat.eq_zero_or_pos c.toNat with hzero | hpos
  · rw [utf8EncodeChar_eq, hzero]
    exact units?_one (by decide)
  · rw [utf8EncodeChar_eq_unitBytes hpos hc, units?_unitBytes hc]

/-- The standard bytes of a wider character are read as no units. -/
theorem units?_utf8EncodeChar_of_le (hc : 0x10000 ≤ c.toNat) : units? (String.utf8EncodeChar c ++ bytes) = none := by
  have hvalid := toNat_valid c
  rw [utf8EncodeChar_eq, if_neg (by omega), if_neg (by omega), if_neg (by omega), List.cons_append]
  refine units?_four ?_
  rw [toNat_ofNat_of_lt (by omega)]
  omega

theorem ofUnits?_of_units?_utf8 {us : List Nat} (h : units? (cs.flatMap String.utf8EncodeChar) = some us) :
    ofUnits? us = some cs := by
  induction cs generalizing us with
  | nil =>
    rw [List.flatMap_nil, units?.eq_def] at h
    rw [← Option.some.inj h, ofUnits?.eq_def]
  | cons c cs ih =>
    rw [List.flatMap_cons] at h
    rcases Nat.lt_or_ge c.toNat 0x10000 with hc | hc
    · rw [units?_utf8EncodeChar hc] at h
      obtain ⟨vs, hvs, rfl⟩ := Option.map_eq_some_iff.mp h
      rw [ofUnits?_toNat, ih hvs]
      rfl
    · rw [units?_utf8EncodeChar_of_le hc] at h
      exact absurd h nofun

/-- The standard bytes of a text are read unit by unit as this text, if at all. -/
theorem eq_of_textOfUnits?_utf8Bytes {s t : String} (h : textOfUnits? (utf8Bytes s) = some t) : t = s := by
  rw [← String.ofList_toList (s := s), utf8Bytes_ofList] at h
  obtain ⟨us, hus, h⟩ := Option.bind_eq_some_iff.mp h
  rw [ofUnits?_of_units?_utf8 hus] at h
  rw [← Option.some.inj h, String.ofList_toList]

end ModifiedUtf8

/-! ## Reading -/

/-- Bytes are read as standard UTF-8 only if they are the bytes of the text. -/
theorem eq_utf8Bytes_of_ofUtf8? {bytes : List UInt8} {s : String} (h : ofUtf8? bytes = some s) :
    bytes = utf8Bytes s := by
  rw [ofUtf8?, String.fromUTF8?] at h
  split at h
  · obtain rfl := Option.some.inj h
    show bytes = ByteArray.toList ⟨bytes.toArray⟩
    rw [ByteArray.toList, toList_loop]
    rfl
  · cases h

/-- A text is read back from what is written for it in either form, and bytes that can be read in both ways are read
alike. -/
theorem decodeText?_of_either_form (s : String) :
    decodeText? (ModifiedUtf8.encode s) = some s ∧ decodeText? (utf8Bytes s) = some s ∧
      ∀ bytes, ofUtf8? bytes = none ∨ ModifiedUtf8.textOfUnits? bytes = none ∨
        ofUtf8? bytes = ModifiedUtf8.textOfUnits? bytes := by
  have halike : ∀ bytes t u, ofUtf8? bytes = some t → ModifiedUtf8.textOfUnits? bytes = some u → t = u := by
    rintro bytes t u ht hu
    rw [eq_utf8Bytes_of_ofUtf8? ht] at hu
    exact (ModifiedUtf8.eq_of_textOfUnits?_utf8Bytes hu).symm
  refine ⟨?_, decodeText?_utf8Bytes s, fun bytes => ?_⟩
  · rw [decodeText?, ModifiedUtf8.textOfUnits?_encode]
    cases ht : ofUtf8? (ModifiedUtf8.encode s) with
    | none => rfl
    | some t => exact congrArg some (halike _ t s ht (ModifiedUtf8.textOfUnits?_encode s))
  · cases ht : ofUtf8? bytes with
    | none => exact .inl rfl
    | some t =>
      cases hu : ModifiedUtf8.textOfUnits? bytes with
      | none => exact .inr (.inl rfl)
      | some u => exact .inr (.inr (congrArg some (halike bytes t u ht hu)))

/-- The character zero takes two bytes, and one beyond the basic plane six. -/
example : ModifiedUtf8.encode "a\x00\u00e9\u20ac😀" =
    [0x61, 0xC0, 0x80, 0xC3, 0xA9, 0xE2, 0x82, 0xAC, 0xED, 0xA0, 0xBD, 0xED, 0xB8, 0x80] := by decide

end ServiceCatalog
