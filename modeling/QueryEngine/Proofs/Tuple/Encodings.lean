import QueryEngine.Proofs.Emission.Operators
import QueryEngine.Proofs.Value.Forms

namespace QueryEngine

open List NullEncoding ValueType Machine Host.Attains

variable {encoding : NullEncoding} {w : Word} {v : Present}

theorem Predicate.apply_eq (normal : ty.normalize x = x) (normal' : ty.normalize y = y) :
    Predicate.eq.apply ty x y = decide (x = y) := by
  refine decide_eq_decide.mpr ⟨fun same => ?_, fun same => by rw [same]⟩
  have registers := congrArg ty.normalize same
  rwa [CodeType.normalize_zeroExtend, CodeType.normalize_zeroExtend, normal, normal'] at registers

variable {ty : ValueType}

/-- A value has a first part, as wide as its sentinel. -/
theorem ValueType.first_part (found : ty.parts? = some parts) :
    ∃ first rest, parts = (first, 0) :: rest ∧ first ≠ .i1 ∧ first.storeSize = min ty.size 8 ∧
      first.normalize ty.sentinel = ty.sentinel := by
  unfold parts? at found
  unfold size sentinel
  generalize ty.shape = shape at found
  cases shape with
  | unknown => cases found
  | _ =>
    cases found
    exact ⟨_, _, rfl, nofun, rfl, rfl⟩

/-- The sentinel of a type depends on its shape. -/
theorem ValueType.sentinel_of_shape {other : ValueType} (same : ty.shape = other.shape) :
    ty.sentinel = other.sentinel := by
  simp only [sentinel, same]

variable {m : Machine}

namespace NullEncoding

/-- Whether a field of type `ty` is NULL: its flag is set, or its first word is the sentinel of the type. -/
def isNull (encoding : NullEncoding) (ty : ValueType) (cells : List (CodeType × Word)) (flag : Bool) : Bool :=
  ty.nullable && match encoding with
    | .indicator => flag
    | .sentinel => cells.head?.map Prod.snd = some ty.sentinel

/-- The value that the words of a field and its flag stand for. -/
def Means (encoding : NullEncoding) (m : Machine) (ty : ValueType) (cells : List (CodeType × Word)) (flag : Bool)
    (d : Datum) : Prop :=
  if encoding.isNull ty cells flag then d = .null else d.Cells m ty.shape cells

/-- What is read back for a value that has been stored as one of type `ty`. Sentinels take a value with the bits of the
sentinel for NULL. -/
def readBack (encoding : NullEncoding) (ty : ValueType) (bits : Option Word) (d : Datum) : Datum :=
  if encoding = .sentinel ∧ ty.nullable = true ∧ bits = some ty.sentinel then .null else d

theorem Means.mono (means : encoding.Means m ty cells flag d) (keeps : m.KeepsTexts m') :
    encoding.Means m' ty cells flag d := by
  unfold Means at means ⊢
  split
  next null => rwa [if_pos null] at means
  next present =>
    rw [if_neg present] at means
    exact means.mono keeps

/-- What words mean is read back if they are stored again. -/
theorem Means.readBack (means : encoding.Means m ty cells flag d) :
    encoding.readBack ty (cells.head?.map Prod.snd) d = d := by
  unfold NullEncoding.readBack
  split
  next collides =>
    obtain ⟨rfl, nullable, same⟩ := collides
    unfold Means at means
    rw [if_pos (by simp [isNull, nullable, same])] at means
    exact means.symm
  · rfl

end NullEncoding

/-- The registers have the types of a value and hold these words. -/
structure Present.Holds (s : Point) (v : Present) (cells : List (CodeType × Word)) : Prop where
  reads : s.ReadsAll v.regs cells
  types : cells.map Prod.fst = v.ty.registers

namespace Held

/-- The registers hold this value, or NULL. What is in the registers of a NULL does not matter; if asked for, it can be read
like a value. -/
inductive Bears (readable : Prop) (s : Point) : Held → Datum → Prop
  | unknown : Bears readable s .unknown .null
  | present {v : Present} {d : Datum} (is : v.Is s d) : Bears readable s (.present v) d
  | null {v : Present} {flag : Reg} {cells : List (CodeType × Word)} (set : s.Bit flag true) (holds : v.Holds s cells)
    (spare : readable → v.ty.shape.Spare s.machine cells) : Bears readable s (.nullable v flag) .null
  | value {v : Present} {flag : Reg} {d : Datum} (unset : s.Bit flag false) (is : v.Is s d) :
    Bears readable s (.nullable v flag) d

/-- The word in the first register of a value. -/
def bits (s : Point) (h : Held) : Option Word := (h.value?.bind fun v => v.regs.head?).map s.frame.value

/-- The registers hold this value as it is loaded: it would be read back if it were stored as one of type `ty`. -/
structure Loaded (encoding : NullEncoding) (ty : ValueType) (s : Point) (h : Held) (d : Datum) : Prop where
  bears : h.Bears (encoding = .indicator) s d
  back : encoding.readBack ty (h.bits s) d = d

/-- The words of a value of a known type, and whether it is NULL. -/
structure Words (readable : Prop) (s : Point) (h : Held) (d : Datum) (v : Present) (cells : List (CodeType × Word))
    (isNull : Bool) : Prop where
  found : h.value? = some v
  shape : v.ty.shape = h.ty.shape
  holds : v.Holds s cells
  flags : ∀ flag ∈ h.flags, s.Bit flag isNull
  plain : h.flags = [] → isNull = false
  value : isNull = false → d.Cells s.machine h.ty.shape cells
  null : isNull = true → d = .null
  spare : readable → h.ty.shape.Spare s.machine cells

end Held

/-- The bytes at an address stand for a value beside this flag. A value of unknown type has no bytes. If asked for, the words
of a NULL can be read like those of a value. -/
structure Machine.Meant (m : Machine) (encoding : NullEncoding) (readable : Prop) (a : Word) (ty : ValueType) (flag : Bool)
    (d : Datum) : Prop where
  unknown : ty.isUnknown = true → d = .null
  known : ∀ parts, ty.parts? = some parts → ∃ cells, m.PartsAt a parts cells ∧ encoding.Means m ty cells flag d ∧
    (readable → ty.shape.Spare m cells)

section

open Host.Attains

variable {host : Host} {s : Point} {h : Held} {d : Datum}

theorem Shape.Spare.registers (spare : ty.shape.Spare m cells) : cells.map Prod.fst = ty.registers := by
  unfold ValueType.registers ValueType.parts?
  generalize ty.shape = shape at spare
  cases spare <;> rfl

theorem Present.Holds.mono (holds : v.Holds s cells) (before : s.Before s') : v.Holds s' cells :=
  ⟨Point.ReadsAll.mono holds.reads before, holds.types⟩

theorem Present.Holds.parts {parts : List (CodeType × Nat)} (holds : v.Holds s cells) (found : v.ty.parts? = some parts) :
    Forall₂ (fun (part : CodeType × Nat) cell => cell.1 = part.1) parts cells := by
  have types := holds.types
  rw [registers_eq found] at types
  refine forall₂_iff_get.mpr ⟨by simpa using (congrArg List.length types).symm, fun i bound bound' => ?_⟩
  have same := getElem_of_eq types (by simpa using bound')
  simpa using same

namespace Held

theorem Is.bears (is : h.Is s d) : h.Bears readable s d := by
  cases is with
  | unknown => exact .unknown
  | present is => exact .present is
  | null set spare =>
    obtain ⟨_, reads, standIn⟩ := spare
    exact .null set ⟨reads, standIn.registers⟩ fun _ => standIn
  | value unset is => exact .value unset is

variable (bears : h.Bears readable s d)

include bears

theorem Bears.is (given : readable) : h.Is s d := by
  cases bears with
  | unknown => exact .unknown
  | present is => exact .present is
  | null set holds spare => exact .null set ⟨_, holds.reads, spare given⟩
  | value unset is => exact .value unset is

theorem Bears.mono (before : s.Before s') : h.Bears readable s' d := by
  cases bears with
  | unknown => exact .unknown
  | present is => exact .present (is.mono before)
  | null set holds spare =>
    exact .null (set.mono before) (holds.mono before) fun given => (spare given).mono before.texts
  | value unset is => exact .value (unset.mono before) (is.mono before)

theorem Bears.eq_null (isUnknown : h.ty.shape = .unknown) : d = .null := by
  cases bears with
  | unknown => rfl
  | null => rfl
  | @present v | @value v => cases v <;> cases isUnknown

theorem Bears.words (known : h.ty.isUnknown ≠ true) :
    ∃ v cells isNull, Words readable s h d v cells isNull := by
  cases bears with
  | unknown => exact absurd rfl known
  | @present v _ is =>
    obtain ⟨cells, reads, value⟩ := is
    exact ⟨v, cells, false, rfl, rfl, ⟨reads, value.spare.registers⟩, by simp [flags], fun _ => rfl, fun _ => value, nofun,
      fun _ => value.spare⟩
  | @null v flag cells set holds spare =>
    exact ⟨v, cells, true, rfl, rfl, holds, by simpa [flags] using set, by simp [flags], nofun, fun _ => rfl, spare⟩
  | @value v flag _ unset is =>
    obtain ⟨cells, reads, value⟩ := is
    exact ⟨v, cells, false, rfl, rfl, ⟨reads, value.spare.registers⟩, by simpa [flags] using unset, by simp [flags],
      fun _ => value, nofun, fun _ => value.spare⟩

end Held

/-- A value has a first register, and its sentinel is a word of that register. -/
theorem NullEncoding.attains_sentinelOf {ty : CodeType} (holds : v.Holds s ((ty, w) :: rest)) :
    host.Yields (sentinelOf v) s fun regs s' => v.regs = regs.1 :: v.regs.tail ∧
      s'.Reads regs.1 ty w ∧ s'.Reads regs.2 ty v.ty.sentinel ∧ ty.normalize v.ty.sentinel = v.ty.sentinel := by
  obtain ⟨parts, found⟩ := parts?_isSome v.known
  obtain ⟨first, _, rfl, _, _, normal⟩ := first_part found
  obtain rfl : ty = first := (forall₂_cons.mp (holds.parts found)).1
  obtain ⟨r, _, head, _, same⟩ := forall₂_cons_right_iff.mp holds.reads
  unfold sentinelOf
  rw [same]
  refine orTrap.bind fun r' s1 _ ⟨point, first⟩ => ?_
  subst point
  cases first
  refine (typeOf head).bind fun type s2 _ ⟨point, equal⟩ => ?_
  subst point equal
  refine (const type v.ty.sentinel.signed).andThen fun marker s3 before3 reads3 => ?_
  rw [Word.ofInt_signed, normal] at reads3
  exact .pure ⟨rfl, rfl, head.mono before3, reads3, normal⟩

theorem Present.Holds.nonempty (holds : v.Holds s cells) : ∃ ty w rest, cells = (ty, w) :: rest := by
  obtain ⟨parts, found⟩ := parts?_isSome v.known
  obtain ⟨_, _, rfl, _⟩ := first_part found
  obtain ⟨cell, rest, _, _, rfl⟩ := forall₂_cons_left_iff.mp (holds.parts found)
  exact ⟨cell.1, cell.2, rest, rfl⟩

theorem Held.bits_eq (found : h.value? = some v) (holds : v.Holds s cells) : h.bits s = cells.head?.map Prod.snd := by
  obtain ⟨_, w, _, rfl⟩ := holds.nonempty
  obtain ⟨r, _, head, _, same⟩ := forall₂_cons_right_iff.mp holds.reads
  simp [bits, found, same, head.value]

theorem Held.Bears.bits_mono (bears : h.Bears readable s d) (before : s.Before s') : h.bits s' = h.bits s := by
  by_cases isUnknown : h.ty.isUnknown = true
  · cases h with
    | unknown => rfl
    | present v | nullable v => exact absurd isUnknown v.known
  · obtain ⟨v, _, _, words⟩ := bears.words isUnknown
    rw [bits_eq words.found words.holds, bits_eq words.found (words.holds.mono before)]

theorem Held.Loaded.mono (loaded : h.Loaded encoding ty s d) (before : s.Before s') : h.Loaded encoding ty s' d :=
  ⟨loaded.bears.mono before, by rw [loaded.bears.bits_mono before]; exact loaded.back⟩

namespace NullEncoding

/-- The words that are stored for those of a nullable value. -/
def storedCells (encoding : NullEncoding) (ty : ValueType) (isNull : Bool) : List (CodeType × Word) → List (CodeType × Word)
  | [] => []
  | (first, w) :: rest => (first, if encoding = .sentinel ∧ isNull = true then ty.sentinel else w) :: rest

theorem storedCells_of_shape (same : ty.shape = other.shape) (isNull : Bool) :
    encoding.storedCells ty isNull cells = encoding.storedCells other isNull cells := by
  cases cells with
  | nil => rfl
  | cons => rw [storedCells, storedCells, sentinel_of_shape same]

theorem attains_storedValue {flag : Reg} {isNull : Bool} (holds : v.Holds s cells) (bit : s.Bit flag isNull) :
    host.Yields (encoding.storedValue v flag) s fun v' s' => v'.ty.shape = v.ty.shape ∧
      v'.Holds s' (encoding.storedCells v.ty isNull cells) := by
  obtain ⟨ty, w, rest, rfl⟩ := holds.nonempty
  cases encoding with
  | indicator => exact .pure ⟨rfl, rfl, by simpa [storedCells] using holds⟩
  | sentinel =>
    refine (attains_sentinelOf holds).andThen fun (first, marker) s1 before1 ⟨regs, firstReads, markerReads, _⟩ => ?_
    refine (select (bit.mono before1) markerReads firstReads).andThen fun chosen s2 before2 reads2 => ?_
    refine (Present.attains_ofRegs v.ty (chosen :: v.regs.tail)).mono fun v' s3 _ ⟨point, same, shape⟩ => ?_
    subst point
    have tail : s3.ReadsAll v.regs.tail rest := by
      have all := Point.ReadsAll.mono holds.reads (before1.trans before2)
      rw [regs] at all
      exact (forall₂_cons.mp all).2
    refine ⟨rfl, shape, ?_, ?_⟩
    · rw [same]
      refine .cons ?_ tail
      simpa [storedCells] using reads2
    · rw [registers_of_shape shape, ← holds.types]
      rfl

/-- What is stored for a nullable value means the value that is read back. -/
theorem means_storedCells {isNull : Bool} {first : CodeType} (nullable : ty.nullable = true)
    (value : isNull = false → d.Cells m ty.shape ((first, w) :: rest)) (null : isNull = true → d = .null) :
    encoding.Means m ty (encoding.storedCells ty isNull ((first, w) :: rest)) isNull (encoding.readBack ty (some w) d) := by
  cases encoding with
  | indicator =>
    cases isNull with
    | true => simp [Means, isNull, nullable, readBack, null rfl]
    | false => simpa [Means, isNull, nullable, readBack, storedCells] using value rfl
  | sentinel =>
    cases isNull with
    | true => simp [Means, isNull, nullable, readBack, storedCells, null rfl]
    | false =>
      by_cases collides : w = ty.sentinel
      · simp [Means, isNull, nullable, readBack, storedCells, collides]
      · simpa [Means, isNull, nullable, readBack, storedCells, collides] using value rfl

end NullEncoding

namespace Held

/-- A value gets a flag, or keeps its own, just if the type is nullable. -/
theorem attains_withNullability {isNull : Bool} (found : h.value? = some v)
    (flagged : ∀ flag ∈ h.flags, s.Bit flag isNull) (unflagged : h.flags = [] → isNull = false) (ty : ValueType) :
    host.Yields (h.withNullability ty) s fun h' s' => (ty.nullable = false → h' = .present v ∧ isNull = false) ∧
      (ty.nullable = true → ∃ flag, h' = .nullable v flag ∧ s'.Bit flag isNull) := by
  cases h with
  | unknown => cases found
  | present v' =>
    cases found
    cases unflagged rfl
    rw [withNullability]
    split
    next nullable =>
      refine (constBool false).andThen fun flag s1 _ unset => .pure ⟨rfl, fun plain => ?_,
        fun _ => ⟨flag, rfl, unset⟩⟩
      rw [nullable] at plain
      cases plain
    next plain => exact .pure ⟨rfl, fun _ => ⟨rfl, rfl⟩, fun nullable => absurd nullable plain⟩
  | nullable v' flag =>
    cases found
    rw [withNullability]
    split
    next nullable =>
      refine .pure ⟨rfl, fun plain => ?_, fun _ => ⟨flag, rfl, flagged flag mem_cons_self⟩⟩
      rw [nullable] at plain
      cases plain
    · exact .throw

/-- A nullable value in memory: the words that are stored for it, and the byte of its flag, if there is a place for it. -/
theorem attains_storeWords {isNull : Bool} {flag : Reg} {place : Option Reg} {parts : List (CodeType × Nat)}
    (found : v.ty.parts? = some parts) (holds : v.Holds s cells) (bit : s.Bit flag isNull)
    (address : s.Reads r .ptr (scratchAddress offset))
    (placed : ∀ p, place = some p → s.Reads p .ptr (scratchAddress (offset + v.ty.size)))
    (inside : offset + v.ty.size + (if place.isSome then 1 else 0) ≤ scratchSpan) :
    host.Attains (do
      (← (← Emit.encoding).storedValue v flag).store r
      storeFlag flag place) s fun _ s' =>
        s.machine.Writes offset (offset + v.ty.size + if place.isSome then 1 else 0) s'.machine ∧
        s'.machine.PartsAt (scratchAddress offset) parts (host.program.encoding.storedCells v.ty isNull cells) ∧
        (place.isSome = true → s'.machine.load 1 (scratchAddress (offset + v.ty.size)) = Word.ofBool isNull) := by
  refine encoding.bind fun encoding s1 _ ⟨point, same⟩ => ?_
  subst point same
  refine (attains_storedValue holds bit).bind fun v' s2 before2 ⟨machine2, shape, holds'⟩ => ?_
  have size := size_of_shape shape
  have found' := (parts?_of_shape shape).trans found
  refine (Present.attains_store found' (address.mono before2) holds'.reads (holds'.parts found')
    (by rw [size]; omega)).bind fun _ s3 before3 ⟨writes3, lies⟩ => ?_
  rw [machine2, size] at writes3
  cases place with
  | none => exact .pure ⟨writes3, lies, nofun⟩
  | some target =>
    have before := before2.trans before3
    refine (widenBit (bit.mono before)).bind fun flag' s4 before4 ⟨machine4, flagIs⟩ => ?_
    refine (Present.attains_storePart flagIs ((placed target rfl).mono (before.trans before4)) inside).mono
      fun _ s5 _ ⟨writes5, byte⟩ => ?_
    rw [machine4] at writes5
    refine ⟨(writes3.mono (Nat.le_refl _) (by omega)).trans (writes5.mono (by omega) (Nat.le_refl _)), ?_, fun _ => ?_⟩
    · refine Machine.PartsAt.congr lies fun part member => ?_
      have bound := part_le found part member
      rw [scratchAddress_add]
      exact writes5.load (by omega) (.inl (by omega))
    · rw [show CodeType.i8.storeSize = 1 from rfl] at byte
      rw [byte]
      cases isNull <;> rfl

/-- The bit that says whether a nullable value that has been loaded is NULL. -/
theorem attains_nullFlagOf {isNull : Bool} (nullable : ty.nullable = true) (shape : v.ty.shape = ty.shape)
    (holds : v.Holds s cells) (flag : Option Reg)
    (flagged : ∀ f, flag = some f → ∃ ty n, s.Number f ty n ∧ decide (n ≠ 0) = isNull) :
    host.Yields (encoding.nullFlag v flag) s fun bit s' => s'.Bit bit (encoding.isNull ty cells isNull) := by
  cases encoding with
  | indicator =>
    cases flag with
    | none => exact .throw
    | some f =>
      obtain ⟨_, n, number, set⟩ := flagged f rfl
      refine (attains_nullFlag number v).weaken fun bit s' _ bitIs => ?_
      rw [set] at bitIs
      simpa [NullEncoding.isNull, nullable] using bitIs
  | sentinel =>
    obtain ⟨_, w, _, rfl⟩ := holds.nonempty
    refine (attains_sentinelOf holds).andThen
      fun (register, marker) s1 _ ⟨_, registerReads, markerReads, normal⟩ => ?_
    refine (Host.Attains.compare .eq registerReads markerReads).weaken fun bit s2 _ bitIs => ?_
    rw [Predicate.apply_eq registerReads.normal normal, sentinel_of_shape shape] at bitIs
    simpa [NullEncoding.isNull, nullable] using bitIs

/-- A value is loaded as what its bytes mean. -/
theorem attains_load {a : Word} {isNull : Bool} (meant : s.machine.Meant host.program.encoding readable a ty isNull d)
    (address : s.Reads r .ptr a)
    (present : ∀ parts, ty.parts? = some parts → ∀ part ∈ parts, a + UInt64.ofNat part.2 ≠ 0) (flag : Option Reg)
    (flagged : ∀ f, flag = some f → ∃ ty n, s.Number f ty n ∧ decide (n ≠ 0) = isNull) :
    host.Yields (load ty r flag) s fun h s' => h.Bears readable s' d ∧
      h.ty.shape = ty.shape ∧ host.program.encoding.readBack ty (h.bits s') d = d := by
  unfold load
  by_cases isUnknown : ty.isUnknown = true
  · rw [if_pos isUnknown, meant.unknown isUnknown]
    exact .pure ⟨rfl, .unknown, (isUnknown_iff.mp isUnknown).symm, by simp [readBack]⟩
  rw [if_neg isUnknown]
  obtain ⟨parts, found⟩ := parts?_isSome isUnknown
  obtain ⟨cells, lies, means, spare⟩ := meant.known parts found
  refine .seq (fun v => inferInstance) (Present.attains_load found address (present parts found) lies)
    fun v s1 before1 ⟨machine1, reads, shape⟩ => ?_
  have holds : v.Holds s1 cells := ⟨reads, by
    rw [registers_of_shape shape, registers_eq found]
    exact (forall₂_eq_eq_eq ▸ forall₂_map_left_iff.mpr (forall₂_map_right_iff.mpr
      (lies.imp fun _ _ both => both.1.symm)) : parts.map Prod.fst = cells.map Prod.fst).symm⟩
  rw [← machine1] at means spare
  cases nullable : ty.nullable with
  | false =>
    have value : d.Cells s1.machine ty.shape cells := by
      simpa [NullEncoding.Means, NullEncoding.isNull, nullable] using means
    exact .pure ⟨machine1, .present ⟨cells, reads, shape ▸ value⟩, shape, by
      rw [bits_eq (h := .present v) rfl holds, means.readBack]⟩
  | true =>
    refine encoding.bind fun encoding s2 _ ⟨point, same⟩ => ?_
    subst point same
    have flagged1 : ∀ f, flag = some f → ∃ ty n, s2.Number f ty n ∧ decide (n ≠ 0) = isNull := fun f given => by
      obtain ⟨flagTy, n, number, set⟩ := flagged f given
      exact ⟨flagTy, n, number.mono before1, set⟩
    refine (attains_nullFlagOf nullable shape holds flag flagged1).bind fun bit s3 before3 ⟨machine3, bitIs⟩ => ?_
    refine .pure ⟨machine3.trans machine1, ?_, shape, by
      rw [bits_eq (h := .nullable v bit) rfl (holds.mono before3), means.readBack]⟩
    unfold NullEncoding.Means at means
    split at means
    next null =>
      rw [null] at bitIs
      rw [means]
      exact .null bitIs (holds.mono before3) fun given => (shape ▸ spare given : v.ty.shape.Spare _ _).mono before3.texts
    next value =>
      rw [Bool.not_eq_true] at value
      rw [value] at bitIs
      exact .value bitIs (Present.Is.mono ⟨cells, reads, shape ▸ means⟩ before3)

end Held

end

end QueryEngine
