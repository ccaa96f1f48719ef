import ServiceCatalog.ClassFile.Element

/-!
# Readers that follow each other

A value of an annotation is read below the start of the value around it, so the reader of the values inside is another
one at every start.  `Follows n item item'` says that these differences do not show: on fewer than `n` bytes the second
reader answers what the first one answers, and where the first one runs out of bytes, so does the second.  Nothing is
said of other failures, so a reader may also follow one that looks indices up in a smaller pool.

* `ByteReader.Follows.bind`, `ByteReader.Follows.counted`: readers in a row.
* `AnnotationRecord.ValueForm`: what is behind the tag of a value.
* `AnnotationRecord.follows_readValue`: in a larger pool values are read as in the smaller one.
* `AnnotationRecord.follows_unfolded`, `AnnotationRecord.unfolded_follows`: a value is read by a reader that reads the
  values inside with the reader of values itself.
-/

namespace ServiceCatalog

namespace ByteReader

variable {α β : Type} {n k : Nat} {item item' : ByteReader α} {bytes rest : List UInt8} {a : α} {b : β}

/-- Whether a reader ends because bytes are missing. -/
def RunsOut (item : ByteReader α) (bytes : List UInt8) : Prop := ∃ left, item bytes = .error .unexpectedEof left

theorem bind_ok_iff {f : α → ByteReader β} :
    (item >>= f) bytes = .ok b rest ↔ ∃ a mid, item bytes = .ok a mid ∧ f a mid = .ok b rest := by
  show EStateM.bind item f bytes = _ ↔ _
  rw [EStateM.bind]
  cases item bytes with
  | ok a mid => exact ⟨fun h => ⟨a, mid, rfl, h⟩, fun ⟨_, _, heq, h⟩ => by cases heq; exact h⟩
  | error e left => simp

theorem runsOut_bind_iff {f : α → ByteReader β} :
    RunsOut (item >>= f) bytes ↔ RunsOut item bytes ∨ ∃ a mid, item bytes = .ok a mid ∧ RunsOut (f a) mid := by
  show (∃ left, EStateM.bind item f bytes = _) ↔ _
  rw [EStateM.bind, RunsOut]
  cases item bytes with
  | ok a mid =>
    exact ⟨fun h => .inr ⟨a, mid, rfl, h⟩, fun h => h.elim nofun fun ⟨_, _, heq, h⟩ => by cases heq; exact h⟩
  | error e left => simp

theorem take_eq_ok_iff {front : List UInt8} :
    take k bytes = .ok front rest ↔ bytes = front ++ rest ∧ front.length = k := by
  rw [take]
  split
  · next h =>
    constructor
    · intro htake
      obtain ⟨rfl, rfl⟩ := EStateM.Result.ok.inj htake
      exact ⟨(List.take_append_drop k bytes).symm, h⟩
    · rintro ⟨rfl, rfl⟩
      rw [List.take_left, List.drop_left]
  · next h =>
    refine ⟨nofun, ?_⟩
    rintro ⟨rfl, rfl⟩
    rw [List.take_left] at h
    exact absurd rfl h

theorem runsOut_take_iff : RunsOut (take k) bytes ↔ bytes.length < k := by
  rw [RunsOut, take, List.length_take]
  split
  · next h => simp; omega
  · next h => simp; omega

/-! ## Following -/

/-- Whether on fewer than `n` bytes the second reader answers what the first one answers, and runs out of bytes where
the first one does.  The first one leaves no more bytes than it finds. -/
structure Follows (n : Nat) (item item' : ByteReader α) : Prop where
  ok : ∀ bytes a rest, bytes.length < n → item bytes = .ok a rest →
    item' bytes = .ok a rest ∧ rest.length ≤ bytes.length
  short : ∀ bytes, bytes.length < n → RunsOut item bytes → RunsOut item' bytes

namespace Follows

theorem mono (h : Follows n item item') (hk : k ≤ n) : Follows k item item' :=
  ⟨fun bytes a rest hn => h.ok bytes a rest (Nat.lt_of_lt_of_le hn hk),
    fun bytes hn => h.short bytes (Nat.lt_of_lt_of_le hn hk)⟩

/-- Readers may be exchanged for ones that do the same on fewer than `n` bytes. -/
theorem congr {same same' : ByteReader α} (h : Follows n item item') (hitem : ∀ bytes, bytes.length < n →
    same bytes = item bytes) (hitem' : ∀ bytes, bytes.length < n → same' bytes = item' bytes) :
    Follows n same same' := by
  refine ⟨fun bytes a rest hn => ?_, fun bytes hn => ?_⟩
  · rw [hitem bytes hn, hitem' bytes hn]
    exact h.ok bytes a rest hn
  · rw [RunsOut, RunsOut, hitem bytes hn, hitem' bytes hn]
    exact h.short bytes hn

/-- Readers that begin as ones that follow each other, at each start other ones. -/
theorem of_each (h : ∀ bytes, bytes.length < n → ∃ same same', item bytes = same bytes ∧ item' bytes = same' bytes ∧
    Follows (bytes.length + 1) same same') : Follows n item item' := by
  constructor
  · intro bytes a rest hn hitem
    obtain ⟨same, same', hsame, hsame', hfollows⟩ := h bytes hn
    rw [hsame] at hitem
    rw [hsame']
    exact hfollows.ok bytes a rest (Nat.lt_succ_self _) hitem
  · rintro bytes hn ⟨left, hitem⟩
    obtain ⟨same, same', hsame, hsame', hfollows⟩ := h bytes hn
    rw [hsame] at hitem
    rw [RunsOut, hsame']
    exact hfollows.short bytes (Nat.lt_succ_self _) ⟨left, hitem⟩

/-- Readers in a row, of which the second ones have fewer than `k` bytes left. -/
theorem bind_of {f f' : α → ByteReader β} (h : Follows n item item')
    (hleft : ∀ bytes a mid, bytes.length < n → item bytes = .ok a mid → mid.length < k)
    (hf : ∀ a, Follows k (f a) (f' a)) : Follows n (item >>= f) (item' >>= f') := by
  constructor
  · intro bytes b rest hn hbind
    obtain ⟨a, mid, hitem, hrest⟩ := bind_ok_iff.mp hbind
    obtain ⟨hitem', hmid⟩ := h.ok bytes a mid hn hitem
    obtain ⟨hrest', hle⟩ := (hf a).ok mid b rest (hleft bytes a mid hn hitem) hrest
    exact ⟨bind_ok_iff.mpr ⟨a, mid, hitem', hrest'⟩, Nat.le_trans hle hmid⟩
  · intro bytes hn hbind
    refine runsOut_bind_iff.mpr ?_
    rcases runsOut_bind_iff.mp hbind with hitem | ⟨a, mid, hitem, hrest⟩
    · exact .inl (h.short bytes hn hitem)
    · exact .inr ⟨a, mid, (h.ok bytes a mid hn hitem).1, (hf a).short mid (hleft bytes a mid hn hitem) hrest⟩

theorem bind {f f' : α → ByteReader β} (h : Follows n item item') (hf : ∀ a, Follows n (f a) (f' a)) :
    Follows n (item >>= f) (item' >>= f') :=
  h.bind_of (fun bytes a mid hn hitem => Nat.lt_of_le_of_lt (h.ok bytes a mid hn hitem).2 hn) hf

end Follows

theorem follows_pure (a : α) : Follows n (pure a) (pure a) := by
  constructor
  · rintro bytes _ _ - ⟨⟩
    exact ⟨rfl, Nat.le_refl _⟩
  · rintro bytes - ⟨left, h⟩
    exact absurd h nofun

theorem follows_throw {e : ClassFileError} {item : ByteReader α} (he : e ≠ .unexpectedEof) :
    Follows n (throw e) item := by
  constructor
  · intro bytes a rest _ h
    exact absurd h nofun
  · rintro bytes - ⟨left, h⟩
    exact absurd (EStateM.Result.error.inj h).1 he

theorem follows_take (k : Nat) : Follows n (take k) (take k) := by
  refine ⟨fun bytes front rest _ h => ⟨h, ?_⟩, fun bytes _ h => h⟩
  obtain ⟨rfl, -⟩ := take_eq_ok_iff.mp h
  rw [List.length_append]
  exact Nat.le_add_left ..

theorem Follows.bind_pure {f : α → β} (h : Follows n item item') :
    Follows n (item >>= fun a => pure (f a)) (item' >>= fun a => pure (f a)) :=
  h.bind fun _ => follows_pure _

theorem number_eq (width : Nat) : number width = take width >>= fun bytes => pure (ofBigEndian bytes) := rfl

theorem follows_number (width : Nat) : Follows n (number width) (number width) := by
  rw [number_eq]
  exact (follows_take width).bind_pure

/-- A tag is a byte less to come. -/
theorem length_lt_of_tag {tag : Nat} (h : number 1 bytes = .ok tag rest) : rest.length < bytes.length := by
  rw [number_eq, bind_ok_iff] at h
  obtain ⟨front, mid, htake, hpure⟩ := h
  obtain ⟨rfl, hlength⟩ := take_eq_ok_iff.mp htake
  obtain ⟨-, rfl⟩ := EStateM.Result.ok.inj hpure
  rw [List.length_append]
  omega

theorem follows_tagged {f f' : Nat → ByteReader β} (h : ∀ tag, Follows n (f tag) (f' tag)) :
    Follows (n + 1) (number 1 >>= f) (number 1 >>= f') :=
  (follows_number 1).bind_of (fun _ _ _ hn htag => Nat.lt_of_lt_of_le (length_lt_of_tag htag) (Nat.le_of_lt_succ hn)) h

theorem Follows.times (h : Follows n item item') : ∀ k, Follows n (times k item) (times k item')
  | 0 => follows_pure []
  | k + 1 => h.bind fun _ => (h.times k).bind_pure

theorem Follows.counted (h : Follows n item item') : Follows n (counted item) (counted item') :=
  (follows_number 2).bind h.times

end ByteReader

/-! ## Pools that begin alike -/

/-- Whether a look-up that succeeds has the result of another one, and a look-up that fails does so for another reason
than missing bytes. -/
structure Persists {α : Type} (e e' : Except ClassFileError α) : Prop where
  ok : ∀ a, e = .ok a → e' = .ok a
  ne_unexpectedEof : e ≠ .error .unexpectedEof

namespace Persists

variable {α β : Type} {e e' : Except ClassFileError α}

theorem pure (a : α) : Persists (.ok a) (.ok a) := ⟨fun _ h => h, nofun⟩

theorem invalidIndex (index : Nat) (e : Except ClassFileError α) :
    Persists (.error (.invalidConstantIndex index)) e := ⟨nofun, nofun⟩

theorem bind {f f' : α → Except ClassFileError β} (h : Persists e e') (hf : ∀ a, Persists (f a) (f' a)) :
    Persists (e >>= f) (e' >>= f') := by
  cases e with
  | ok a =>
    rw [h.ok a rfl]
    exact hf a
  | error e => exact ⟨nofun, fun he => h.ne_unexpectedEof (congrArg _ (Except.error.inj he))⟩

theorem follows {n : Nat} (h : Persists e e') :
    ByteReader.Follows n (ByteReader.ofExcept e) (ByteReader.ofExcept e') := by
  cases e with
  | ok a =>
    rw [h.ok a rfl]
    exact ByteReader.follows_pure a
  | error e => exact ByteReader.follows_throw fun he => h.ne_unexpectedEof (congrArg _ he)

end Persists

namespace ConstantPool

variable {pool pool' : ConstantPool}

/-- Whether a pool is the front of another one. -/
def IsFrontOf (pool pool' : ConstantPool) : Prop := pool.slots <+: pool'.slots

theorem isFrontOf_refl (pool : ConstantPool) : pool.IsFrontOf pool := List.prefix_rfl

namespace IsFrontOf

variable (h : pool.IsFrontOf pool') (index : Nat)

include h

theorem get : Persists (pool.get index) (pool'.get index) := by
  rw [ConstantPool.get]
  split
  · exact .invalidIndex ..
  · exact .invalidIndex ..
  · next c hne hslot =>
    have hslot' : pool'.slots[index]? = some c := by
      obtain ⟨hlt, rfl⟩ := List.getElem?_eq_some_iff.mp hslot
      exact (List.prefix_iff_getElem?.mp h index hlt)
    rw [ConstantPool.get, hslot']
    split
    · contradiction
    · next heq => exact absurd (Option.some.inj heq) hne
    · next heq =>
      obtain rfl := Option.some.inj heq
      exact .pure c

theorem utf8 : Persists (pool.utf8 index) (pool'.utf8 index) := by
  refine (h.get index).bind fun c => ?_
  cases c with
  | utf8 s => exact .pure s
  | _ => exact .invalidIndex ..

theorem className : Persists (pool.className index) (pool'.className index) := by
  refine (h.get index).bind fun c => ?_
  cases c with
  | «class» name => exact h.utf8 name
  | _ => exact .invalidIndex ..

theorem integer : Persists (pool.integer index) (pool'.integer index) := by
  refine (h.get index).bind fun c => ?_
  cases c with
  | integer v => exact .pure v
  | _ => exact .invalidIndex ..

theorem numberAt : Persists (AnnotationRecord.numberAt pool index) (AnnotationRecord.numberAt pool' index) := by
  refine (h.get index).bind fun c => ?_
  cases c with
  | long _ | float _ | double _ => exact .pure _
  | _ => exact .invalidIndex ..

end IsFrontOf

end ConstantPool

/-! ## Values -/

namespace AnnotationRecord

open ByteReader

variable {α : Type} {n : Nat} {pool pool' : ConstantPool} {value value' : ByteReader ElementValue}

/-- What is behind the tag of a value. -/
inductive ValueForm where
  | integer
  | number
  | string
  | enum
  | «class»
  | nested
  | array
  | unknown (tag : Char)

namespace ValueForm

/-- The form of a value with a given tag. -/
def ofTag : Char → ValueForm
  | 'B' | 'C' | 'I' | 'S' | 'Z' => integer
  | 'J' | 'F' | 'D' => number
  | 's' => string
  | 'e' => enum
  | 'c' => «class»
  | '@' => nested
  | '[' => array
  | tag => unknown tag

/-- Reads a value of the form, given a reader for the values inside it. -/
def read (pool : ConstantPool) (value : ByteReader ElementValue) : ValueForm → ByteReader ElementValue
  | integer => lookUp pool.integer >>= fun v => pure (.int v)
  | number => lookUp (numberAt pool)
  | string => lookUp pool.utf8 >>= fun s => pure (.string s)
  | enum => lookUp pool.utf8 >>= fun type => lookUp pool.utf8 >>= fun name => pure (.enum type name)
  | «class» => lookUp pool.utf8 >>= fun descriptor => pure (.class descriptor)
  | nested => readWith pool value >>= fun a => pure (.nested a)
  | array => counted value >>= fun values => pure (.array values)
  | unknown tag => throw (.unsupportedElementTag tag)

end ValueForm

/-- A value is a tag and what the tag announces. -/
theorem readValueWith_eq (pool : ConstantPool) (value : ByteReader ElementValue) :
    readValueWith pool value = number 1 >>= fun tag => (ValueForm.ofTag (Char.ofNat tag)).read pool value := by
  refine congrArg (number 1 >>= ·) (funext fun tag => ?_)
  dsimp only
  split
  all_goals simp only [ValueForm.ofTag, *]
  all_goals rfl

theorem follows_lookUp {find find' : Nat → Except ClassFileError α} (h : ∀ index, Persists (find index) (find' index)) :
    Follows n (lookUp find) (lookUp find') :=
  (follows_number 2).bind fun index => (h index).follows

section Following

variable (hpool : pool.IsFrontOf pool') (hvalue : Follows n value value')

include hpool hvalue

theorem follows_readElement : Follows n (readElement pool value) (readElement pool' value') :=
  (follows_lookUp hpool.utf8).bind fun _ => hvalue.bind_pure

theorem follows_readWith : Follows n (readWith pool value) (readWith pool' value') :=
  (follows_lookUp hpool.utf8).bind fun _ => (follows_readElement hpool hvalue).counted.bind_pure

theorem ValueForm.follows_read (form : ValueForm) : Follows n (form.read pool value) (form.read pool' value') := by
  cases form with
  | integer => exact (follows_lookUp hpool.integer).bind_pure
  | number => exact follows_lookUp hpool.numberAt
  | string => exact (follows_lookUp hpool.utf8).bind_pure
  | enum => exact (follows_lookUp hpool.utf8).bind fun _ => (follows_lookUp hpool.utf8).bind_pure
  | «class» => exact (follows_lookUp hpool.utf8).bind_pure
  | nested => exact (follows_readWith hpool hvalue).bind_pure
  | array => exact hvalue.counted.bind_pure
  | unknown tag => exact follows_throw nofun

theorem follows_readValueWith : Follows (n + 1) (readValueWith pool value) (readValueWith pool' value') := by
  rw [readValueWith_eq, readValueWith_eq]
  exact follows_tagged fun tag => (ValueForm.ofTag (Char.ofNat tag)).follows_read hpool hvalue

end Following

/-- In a larger pool values are read as in the smaller one. -/
theorem follows_readValue (hpool : pool.IsFrontOf pool') (n : Nat) : Follows n (readValue pool) (readValue pool') := by
  induction n with
  | zero => exact ⟨nofun, nofun⟩
  | succ n ih =>
    refine .of_each fun bytes hn => ⟨_, _, readValue.eq_1 .., readValue.eq_1 .., ?_⟩
    refine follows_readValueWith hpool ((ih.mono (Nat.le_of_lt_succ hn)).congr ?_ ?_)
    · exact fun _ hinner => dif_pos hinner
    · exact fun _ hinner => dif_pos hinner

/-- A value is read as with the reader of values for those inside it. -/
theorem follows_unfolded (pool : ConstantPool) (n : Nat) :
    Follows n (readValue pool) (readValueWith pool (readValue pool)) := by
  refine .of_each fun bytes _ => ⟨_, _, readValue.eq_1 .., rfl, ?_⟩
  refine follows_readValueWith pool.isFrontOf_refl ?_
  exact (follows_readValue pool.isFrontOf_refl _).congr (fun _ hinner => dif_pos hinner) fun _ _ => rfl

/-- What is read with the reader of values for those inside is the value. -/
theorem unfolded_follows (pool : ConstantPool) (n : Nat) :
    Follows n (readValueWith pool (readValue pool)) (readValue pool) := by
  refine .of_each fun bytes _ => ⟨_, _, rfl, readValue.eq_1 .., ?_⟩
  refine follows_readValueWith pool.isFrontOf_refl ?_
  exact (follows_readValue pool.isFrontOf_refl _).congr (fun _ _ => rfl) fun _ hinner => dif_pos hinner

end AnnotationRecord

end ServiceCatalog
