import QueryEngine.Proofs.Expression.Typing
import QueryEngine.Proofs.Tuple.Encodings

set_option synthInstance.maxSize 256

namespace QueryEngine

open List ValueType
open TupleLayout hiding align fields types

open Machine (scratchAddress scratchSpan)

variable {encoding : NullEncoding} {offset : Nat}

theorem le_alignTo (n : Nat) (positive : 0 < align) : n ≤ alignTo n align := by
  unfold alignTo
  have whole := Nat.div_add_mod (n + align - 1) align
  have rest := Nat.mod_lt (n + align - 1) positive
  rw [Nat.mul_comm] at whole
  omega

theorem ValueType.alignment_pos (ty : ValueType) : 0 < ty.alignment := by
  unfold alignment
  split
  · exact Nat.one_pos
  next size positive =>
    have : ty.size ≠ 0 := positive
    omega

variable {field : TupleField} {fields : List TupleField}

namespace TupleLayout

/-- A field with a flag has it right behind the value. -/
def Flagged (encoding : NullEncoding) (field : TupleField) : Prop :=
  field.indicator = if hasIndicator encoding field.ty then some (field.offset + field.ty.size) else none

/-- Fields that lie one behind the other between two offsets. -/
structure Placed (encoding : NullEncoding) (fields : List TupleField) (low high : Nat) : Prop where
  flagged : ∀ field ∈ fields, Flagged encoding field
  bounds : ∀ field ∈ fields, low ≤ field.offset ∧ fieldEnd field ≤ high
  apart : fields.Pairwise fun first second => fieldEnd first ≤ second.offset

theorem Flagged.fieldEnd_eq (flagged : Flagged encoding field) :
    fieldEnd field = field.offset + field.ty.size + if hasIndicator encoding field.ty then 1 else 0 := by
  unfold fieldEnd
  rw [flagged]
  split <;> simp_all

/-- The byte of the flag is the last one of the field. -/
theorem Flagged.position (flagged : Flagged encoding field) (present : field.indicator = some i) :
    i = field.offset + field.ty.size ∧ fieldEnd field = i + 1 := by
  refine ⟨?_, by rw [fieldEnd, present]⟩
  rw [flagged] at present
  split at present
  · exact (Option.some.inj present).symm
  · cases present

/-- The other fields lie behind the first one. -/
theorem Placed.tail (placed : Placed encoding (field :: fields) low high) :
    Placed encoding fields (fieldEnd field) high := by
  obtain ⟨first, apart⟩ := pairwise_cons.mp placed.apart
  exact ⟨fun other member => placed.flagged other (mem_cons_of_mem _ member),
    fun other member => ⟨first other member, (placed.bounds other (mem_cons_of_mem _ member)).2⟩, apart⟩

theorem fieldsFrom_placed (start : Nat) (types : List ValueType) : start ≤ (fieldsFrom encoding start types).2 ∧
      Placed encoding (fieldsFrom encoding start types).1 start (fieldsFrom encoding start types).2 := by
  induction types generalizing start with
  | nil => exact ⟨Nat.le_refl _, by simp [fieldsFrom], by simp [fieldsFrom], by simp [fieldsFrom]⟩
  | cons ty types ih =>
    have flagged : Flagged encoding (fieldFrom encoding start ty) := rfl
    have first : start ≤ (fieldFrom encoding start ty).offset := le_alignTo start ty.alignment_pos
    have size : (fieldFrom encoding start ty).offset ≤ fieldEnd (fieldFrom encoding start ty) := by
      rw [flagged.fieldEnd_eq]
      omega
    obtain ⟨most, placed⟩ := ih (fieldEnd (fieldFrom encoding start ty))
    simp only [fieldsFrom]
    refine ⟨by omega, ?_, ?_, ?_⟩
    · exact forall_mem_cons.mpr ⟨flagged, placed.flagged⟩
    · intro field member
      rcases mem_cons.mp member with rfl | later
      · exact ⟨first, most⟩
      · have bounds := placed.bounds field later
        exact ⟨by omega, bounds.2⟩
    · exact pairwise_cons.mpr ⟨fun field member => (placed.bounds field member).1, placed.apart⟩

theorem foldl_alignment (types : List ValueType) (align : Nat) :
    align ≤ types.foldl (fun align ty => max align ty.alignment) align ∧
    (∀ ty ∈ types, ty.alignment ≤ types.foldl (fun align ty => max align ty.alignment) align) ∧
    (types.foldl (fun align ty => max align ty.alignment) align = align ∨
      ∃ ty ∈ types, ty.alignment = types.foldl (fun align ty => max align ty.alignment) align) := by
  induction types generalizing align with
  | nil => exact ⟨Nat.le_refl _, nofun, .inl rfl⟩
  | cons ty types ih =>
    obtain ⟨start, most, reached⟩ := ih (max align ty.alignment)
    rw [foldl_cons]
    refine ⟨by omega, forall_mem_cons.mpr ⟨by omega, most⟩, ?_⟩
    rcases reached with first | ⟨other, member, same⟩
    · rcases Nat.le_total align ty.alignment with less | more
      · exact .inr ⟨ty, mem_cons_self, by omega⟩
      · exact .inl (by omega)
    · exact .inr ⟨other, mem_cons_of_mem _ member, same⟩

theorem make_placed (encoding : NullEncoding) (types : List ValueType) :
    Placed encoding (make encoding types).fields 0 (make encoding types).size := by
  obtain ⟨_, flagged, bounds, apart⟩ := @fieldsFrom_placed encoding 0 types
  refine ⟨flagged, fun field member => ⟨Nat.zero_le _, ?_⟩, apart⟩
  exact Nat.le_trans (bounds field member).2 (le_alignTo _ (foldl_alignment types 1).1)

end TupleLayout

namespace Machine

/-- The bytes of a field stand for a value. -/
def FieldMeans (m : Machine) (encoding : NullEncoding) (readable : Prop) (offset : Nat) (field : TupleField) (d : Datum) : Prop :=
  ∃ flag, (∀ i, field.indicator = some i → m.load 1 (scratchAddress (offset + i)) = Word.ofBool flag) ∧
    m.Meant encoding readable (scratchAddress (offset + field.offset)) field.ty flag d

variable {m : Machine} {readable : Prop}

theorem FieldMeans.congr (means : m.FieldMeans encoding readable offset field d)
    (flagged : TupleLayout.Flagged encoding field) (keeps : m.KeepsTexts m')
    (same : ∀ i, offset + field.offset ≤ i → i < offset + fieldEnd field → m'.cell i = m.cell i) :
    m'.FieldMeans encoding readable offset field d := by
  have size := flagged.fieldEnd_eq
  obtain ⟨flag, byte, unknown, known⟩ := means
  refine ⟨flag, fun i present => ?_, unknown, fun parts found => ?_⟩
  · obtain ⟨position, last⟩ := flagged.position present
    rw [← byte i present]
    exact load_congr fun k _ _ => same k (by omega) (by omega)
  · obtain ⟨cells, lies, value, spare⟩ := known parts found
    refine ⟨cells, lies.congr fun part member => ?_, value.mono keeps, fun given => (spare given).mono keeps⟩
    have bound := part_le found part member
    rw [scratchAddress_add]
    exact load_congr fun i _ _ => same i (by omega) (by omega)

/-- The tuple at an offset of the scratch arena means these values. -/
abbrev TupleMeans (m : Machine) (encoding : NullEncoding) (readable : Prop) (offset : Nat) :
    List TupleField → List Datum → Prop :=
  Forall₂ (m.FieldMeans encoding readable offset)

/-- The tuple at an offset of the scratch arena holds these values, with flags for NULL. -/
abbrev TupleAt (m : Machine) (offset : Nat) : List TupleField → List Datum → Prop := m.TupleMeans .indicator True offset

/-- A tuple stays as long as its bytes do. -/
theorem TupleMeans.congr (means : m.TupleMeans encoding readable offset fields values)
    (placed : TupleLayout.Placed encoding fields low high) (keeps : m.KeepsTexts m')
    (same : ∀ i, offset + low ≤ i → i < offset + high → m'.cell i = m.cell i) :
    m'.TupleMeans encoding readable offset fields values := by
  refine forall₂_iff_get.mpr ?_
  obtain ⟨length, each⟩ := forall₂_iff_get.mp means
  refine ⟨length, fun i bound bound' => ?_⟩
  have member := get_mem fields ⟨i, bound⟩
  have bounds := placed.bounds _ member
  exact (each i bound bound').congr (placed.flagged _ member) keeps fun k _ _ => same k (by omega) (by omega)

end Machine

namespace Held

open Host.Attains

variable {host : Host} {s : Point} {h : Held}

/-- What is read back for the values of a tuple of these types. -/
def readBack (encoding : NullEncoding) (s : Point) : List ValueType → List Held → List Datum → List Datum
  | ty :: types, h :: values, d :: datums =>
    encoding.readBack ty (h.bits s) d :: readBack encoding s types values datums
  | _, _, _ => []

theorem readBack_mono (are : Forall₂ (fun h d => h.Bears readable s d) values datums) (before : s.Before s') :
    readBack encoding s' types values datums = readBack encoding s types values datums := by
  induction are generalizing types with
  | nil => cases types <;> rfl
  | cons head _ ih =>
    cases types with
    | nil => rfl
    | cons ty types => rw [readBack, readBack, head.bits_mono before, ih]

theorem readBack_indicator {R : Held → ValueType → Prop} (typed : Forall₂ R values types)
    (are : Forall₂ (fun h d => h.Bears readable s d) values datums) :
    readBack .indicator s types values datums = datums := by
  induction are generalizing types with
  | nil =>
    cases typed
    rfl
  | cons _ _ ih =>
    cases typed with
    | cons _ rest => simp [readBack, NullEncoding.readBack, ih rest]

/-- The address of a flag, if there is one. -/
theorem attains_flagAddress (address : s.Reads r .ptr (scratchAddress offset)) :
    host.Yields (indicator.mapM fun i => Emit.ptrOffset r i) s fun flag s' => (indicator = none → flag = none) ∧
      ∀ i, indicator = some i → ∃ f, flag = some f ∧ s'.Reads f .ptr (scratchAddress (offset + i)) := by
  cases indicator with
  | none => exact .pure ⟨rfl, fun _ => rfl, nofun⟩
  | some i =>
    refine .map ((ptrOffset address i).weaken fun f s' _ reads => ⟨nofun, fun i' same => ?_⟩)
    cases same
    rw [Machine.scratchAddress_add] at reads
    exact ⟨f, rfl, reads⟩

/-- The byte of a flag, if there is one. -/
theorem attains_loadFlag {indicator : Option Nat} {isNull : Bool} (address : s.Reads r .ptr (scratchAddress offset))
    (byte : ∀ i, indicator = some i → s.machine.load 1 (scratchAddress (offset + i)) = Word.ofBool isNull)
    (inside : ∀ i, indicator = some i → offset + i < scratchSpan) :
    host.Yields (indicator.mapM (loadFlag r)) s fun found s' =>
      ∀ f, found = some f → ∃ ty n, s'.Number f ty n ∧ decide (n ≠ 0) = isNull := by
  cases indicator with
  | none => exact .pure ⟨rfl, nofun⟩
  | some i =>
    refine .map ((ptrOffset address i).sameThen fun target s1 before1 machine1 targetReads => ?_)
    rw [Machine.scratchAddress_add] at targetReads
    refine (Host.Attains.load .i8 targetReads (Machine.scratchAddress_ne_zero (inside i rfl))).weaken
      fun f s2 _ reads => fun f' same => ?_
    cases same
    rw [machine1, show CodeType.i8.storeSize = 1 from rfl, byte i rfl, CodeType.normalize_ofBool, Word.ofBool_eq] at reads
    exact ⟨.i8, _, ⟨reads, CodeType.fits_ofBool isNull⟩, by cases isNull <;> rfl⟩

/-- A value is stored in its field. -/
theorem Bears.storeField (bears : h.Bears readable s d) (encoded : readable → host.program.encoding = .indicator)
    (typed : h.ty.shape = field.ty.shape) (flagged : TupleLayout.Flagged host.program.encoding field)
    (address : s.Reads target .ptr (scratchAddress (offset + field.offset)))
    (unflagged : field.indicator = none → place = none)
    (placed : ∀ i, field.indicator = some i → ∃ p, place = some p ∧ s.Reads p .ptr (scratchAddress (offset + i)))
    (inside : offset + fieldEnd field ≤ scratchSpan) :
    host.Attains (h.store field.ty target place) s fun _ s' =>
      s.machine.Writes (offset + field.offset) (offset + fieldEnd field) s'.machine ∧
        s'.machine.FieldMeans host.program.encoding readable offset field
          (host.program.encoding.readBack field.ty (h.bits s) d) := by
  rw [flagged.fieldEnd_eq] at inside ⊢
  unfold Held.store
  by_cases isUnknown : field.ty.isUnknown = true
  · -- A value of unknown type is NULL and takes no bytes.
    rw [if_pos isUnknown]
    have null := bears.eq_null (typed.trans (isUnknown_iff.mp isUnknown))
    have missing : field.indicator = none := by rw [flagged]; simp [hasIndicator, isUnknown]
    refine .pure ⟨.refl _ _ _, false, by simp [missing], fun _ => by simp [NullEncoding.readBack, null],
      fun parts found => ?_⟩
    rw [parts?, isUnknown_iff.mp isUnknown] at found
    cases found
  rw [if_neg isUnknown]
  obtain ⟨parts, found⟩ := parts?_isSome isUnknown
  refine .seq (fun _ => ?_) attains_checkStorable fun _ s1 _ point => ?_
  · refine .after fun value => ?_
    cases value <;> cases place <;> infer_instance
  subst point
  have known : h.ty.isUnknown ≠ true := by rwa [ne_eq, isUnknown_iff, typed, ← isUnknown_iff]
  obtain ⟨v, cells, isNull, found?, shape, holds, flags, plain, value, null, spare⟩ := bears.words known
  rw [bits_eq found? holds]
  obtain ⟨ty, w, rest, rfl⟩ := holds.nonempty
  have shape' := shape.trans typed
  have size := size_of_shape shape'
  have found' := (parts?_of_shape shape').trans found
  refine .seq (fun value => by cases value <;> cases place <;> infer_instance)
    (attains_withNullability found? flags plain field.ty) ?_
  rintro h' s2 before2 ⟨machine2, whenPlain, whenNullable⟩
  cases nullable : field.ty.nullable with
  | false =>
    obtain ⟨rfl, rfl⟩ := whenPlain nullable
    have missing : hasIndicator host.program.encoding field.ty = false := by
      simp [hasIndicator, nullable]
    simp only [missing, Bool.false_eq_true, if_false, Nat.add_zero, ← Nat.add_assoc] at inside ⊢
    have holds2 := holds.mono before2
    refine (Present.attains_store found' (address.mono before2) holds2.reads (holds2.parts found')
      (by rw [size]; exact inside)).mono ?_
    rintro _ s3 before3 ⟨writes, lies⟩
    rw [machine2, size] at writes
    refine ⟨writes, false, fun i present => ?_, fun isUnknown' => absurd isUnknown' isUnknown, fun parts' other => ?_⟩
    · rw [flagged, missing] at present
      cases present
    · cases found.symm.trans other
      have holds := (value rfl).mono (before2.trans before3).texts
      rw [typed] at holds
      exact ⟨_, lies, by simpa [NullEncoding.Means, NullEncoding.isNull, NullEncoding.readBack, nullable] using holds,
        fun _ => holds.spare⟩
  | true =>
    obtain ⟨flag, rfl, bit⟩ := whenNullable nullable
    have isSome : place.isSome = hasIndicator host.program.encoding field.ty := by
      cases present : field.indicator with
      | none =>
        rw [unflagged present]
        rw [flagged] at present
        split at present
        · cases present
        · simp_all
      | some i =>
        obtain ⟨p, rfl, _⟩ := placed i present
        rw [flagged] at present
        split at present
        · simp_all
        · cases present
    refine (attains_storeWords found' (holds.mono before2) bit (address.mono before2) (fun p given => ?_)
      (by rw [size, isSome]; omega)).mono ?_
    · cases present : field.indicator with
      | none => cases given.symm.trans (unflagged present)
      | some i =>
        obtain ⟨p', given', reads⟩ := placed i present
        cases given.symm.trans given'
        rw [(flagged.position present).1, ← Nat.add_assoc, ← size] at reads
        exact reads.mono before2
    rintro _ s3 before3 ⟨writes, lies, byte⟩
    rw [machine2, size, isSome] at writes
    refine ⟨by simpa only [Nat.add_assoc] using writes, isNull, fun i present => ?_,
      fun isUnknown' => absurd isUnknown' isUnknown, fun parts' other => ?_⟩
    · obtain ⟨p, given, _⟩ := placed i present
      rw [(flagged.position present).1, ← Nat.add_assoc, ← size]
      exact byte (by rw [given]; rfl)
    · cases found.symm.trans other
      rw [NullEncoding.storedCells_of_shape shape'] at lies
      refine ⟨_, lies, NullEncoding.means_storedCells nullable (fun isPresent => ?_) null, fun given => ?_⟩
      · rw [← typed]
        exact (value isPresent).mono (before2.trans before3).texts
      · rw [encoded given, ← typed]
        exact (spare given).mono (before2.trans before3).texts

/-- A value is of the shape of a type, or it is the NULL literal where the type has NULL. -/
def Suits (h : Held) (ty : ValueType) : Prop := h.ty.shape = ty.shape ∨ h = .unknown ∧ ty.nullable = true

/-- The NULL literal gets the registers of a type before it is stored. -/
theorem store_unknown {ty : ValueType} (nullable : ty.nullable = true)
    (stored : Held.unknown.store ty address flag b = .ok x b') :
    (null ty >>= fun h => h.store ty address flag) b = .ok x b' := by
  by_cases isUnknown : ty.isUnknown = true
  · unfold null
    rwa [if_pos isUnknown]
  have same : ty.asNullable = ty := ext_iff.mpr ⟨rfl, nullable.symm⟩
  unfold store at stored
  rw [if_neg isUnknown, checkStorable, withNullability, same] at stored
  obtain ⟨_, _, ⟨⟩, stored⟩ := bind_ran stored
  obtain ⟨h, c, made, stored⟩ := bind_ran stored
  rw [bind_of_ok made]
  have shape := gives_null ty _ h c made
  unfold null at made
  rw [if_neg isUnknown] at made
  obtain ⟨v, _, _, made⟩ := bind_ran made
  obtain ⟨bit, _, _, made⟩ := bind_ran made
  cases made
  have shape : v.ty.shape = ty.shape := shape
  have checked : (Held.nullable v bit).checkStorable ty = Pure.pure () :=
    if_pos ⟨size_of_shape shape, by rw [precision, precision, shape]⟩
  have kept : (Held.nullable v bit).withNullability ty = Pure.pure (.nullable v bit) := if_pos nullable
  unfold store
  rw [if_neg isUnknown, checked, kept]
  exact stored

/-- The values of a tuple are stored one behind the other, and none overwrites another. -/
theorem attains_storeFields (low : Nat) (encoded : readable → host.program.encoding = .indicator)
    (address : s.Reads r .ptr (scratchAddress offset)) (are : Forall₂ (fun h d => h.Bears readable s d) values datums)
    (typed : Forall₂ (fun (h : Held) (field : TupleField) => h.Suits field.ty) values fields)
    (placed : TupleLayout.Placed host.program.encoding fields low high) (inside : offset + high ≤ scratchSpan) :
    host.Attains (storeFields r values fields) s fun _ s' =>
      s.machine.Writes (offset + low) (offset + high) s'.machine ∧
        s'.machine.TupleMeans host.program.encoding readable offset fields
          (readBack host.program.encoding s (fields.map TupleField.ty) values datums) := by
  induction fields generalizing s values datums low with
  | nil =>
    cases typed
    cases are
    exact .pure ⟨.refl _ _ _, .nil⟩
  | cons field fields ih =>
    obtain ⟨h, values, suits, shapes, rfl⟩ := forall₂_cons_right_iff.mp typed
    obtain ⟨d, datums, is, others, rfl⟩ := forall₂_cons_left_iff.mp are
    have bounds := placed.bounds field mem_cons_self
    have flagged := placed.flagged field mem_cons_self
    have size := flagged.fieldEnd_eq
    refine (ptrOffset address field.offset).bind ?_
    rintro target s1 before1 ⟨machine1, targetReads⟩
    rw [Machine.scratchAddress_add] at targetReads
    refine (attains_flagAddress (address.mono before1)).bind ?_
    rintro flag s2 before2 ⟨machine2, unflagged, flagReads⟩
    have before := before1.trans before2
    have stored : host.Attains (h.store field.ty target flag) s2 fun _ s' =>
        s2.machine.Writes (offset + field.offset) (offset + fieldEnd field) s'.machine ∧
          s'.machine.FieldMeans host.program.encoding readable offset field
            (host.program.encoding.readBack field.ty (h.bits s2) d) := by
      rcases suits with shape | ⟨rfl, nullable⟩
      · exact (is.mono before).storeField encoded shape flagged (targetReads.mono before2) unflagged flagReads (by omega)
      cases is
      suffices host.Attains (null field.ty >>= fun h => h.store field.ty target flag) s2 _ from
        fun x b' emitted => this x b' (store_unknown nullable emitted)
      refine ((attains_null field.ty).with_gives (gives_null field.ty)).bind ?_
      rintro h s3 before3 ⟨⟨machine3, is⟩, shape⟩
      refine (is.bears.storeField encoded shape flagged (targetReads.mono (before2.trans before3)) unflagged
        (fun i present => ?_) (by omega)).mono ?_
      · obtain ⟨p, given, reads⟩ := flagReads i present
        exact ⟨p, given, reads.mono before3⟩
      · rintro _ s4 _ ⟨writes, means⟩
        exact ⟨machine3 ▸ writes, by simpa [NullEncoding.readBack] using means⟩
    refine stored.bind ?_
    rintro _ s3 before3 ⟨writes3, means3⟩
    rw [machine2, machine1] at writes3
    rw [is.bits_mono before] at means3
    have before := before.trans before3
    refine (ih _ (address.mono before) (others.imp fun _ _ is => is.mono before) shapes placed.tail).mono ?_
    rintro _ s4 before4 ⟨writes4, means4⟩
    refine ⟨(writes3.mono (by omega) (by omega)).trans (writes4.mono (by omega) (Nat.le_refl _)),
      .cons ?_ (readBack_mono others before ▸ means4)⟩
    exact means3.congr flagged before4.texts fun i _ _ => writes4.keeps i (by omega) (.inl (by omega))

/-- The values of a tuple are stored. -/
theorem attains_storeValues (encoded : readable → host.program.encoding = .indicator)
    (address : s.Reads r .ptr (scratchAddress offset))
    (are : Forall₂ (fun h d => h.Bears readable s d) values datums) (typed : Forall₂ Suits values types)
    (inside : offset + (TupleLayout.make host.program.encoding types).size ≤ scratchSpan) :
    host.Attains (storeTuple (.make host.program.encoding types) r values) s fun _ s' =>
      s.machine.Writes offset (offset + (TupleLayout.make host.program.encoding types).size) s'.machine ∧
        s'.machine.TupleMeans host.program.encoding readable offset (TupleLayout.make host.program.encoding types).fields
          (readBack host.program.encoding s types values datums) := by
  have names : (TupleLayout.make host.program.encoding types).fields.map TupleField.ty = types :=
    TupleLayout.make_types host.program.encoding types
  have fields : Forall₂ (fun (h : Held) (field : TupleField) => h.Suits field.ty) values
      (TupleLayout.make host.program.encoding types).fields := by
    rw [← names] at typed
    exact forall₂_map_right_iff.mp typed
  unfold storeTuple
  rw [if_neg (by simpa using fields.length_eq.symm)]
  have stores := attains_storeFields 0 encoded address are fields (TupleLayout.make_placed host.program.encoding types) inside
  rwa [names] at stores

/-- A tuple whose values have been stored. -/
theorem attains_storeTuple (indicator : host.program.encoding = .indicator)
    (address : s.Reads r .ptr (scratchAddress offset)) (are : Held.All s values datums)
    (typed : Held.Shaped values types)
    (inside : offset + (TupleLayout.make .indicator types).size ≤ scratchSpan) :
    host.Attains (storeTuple (.make .indicator types) r values) s fun _ s' =>
      s.machine.Writes offset (offset + (TupleLayout.make .indicator types).size) s'.machine ∧
        s'.machine.TupleAt offset (TupleLayout.make .indicator types).fields datums := by
  have bear : Forall₂ (fun h d => h.Bears True s d) values datums := are.imp fun _ _ is => is.bears
  have stores := attains_storeValues (fun _ => indicator) address bear (typed.imp fun _ _ => .inl) (indicator ▸ inside)
  rwa [indicator, readBack_indicator typed bear] at stores

section

variable (address : s.Reads r .ptr (scratchAddress offset))

include address

/-- A field is loaded as what its bytes mean. -/
theorem attains_loadField (means : s.machine.FieldMeans host.program.encoding readable offset field d)
    (flagged : TupleLayout.Flagged host.program.encoding field)
    (inside : offset + fieldEnd field ≤ scratchSpan) :
    host.Yields (loadField r field) s fun h s' => h.Bears readable s' d ∧ h.ty.shape = field.ty.shape := by
  obtain ⟨flag, byte, meant⟩ := means
  have size := flagged.fieldEnd_eq
  refine (ptrOffset address field.offset).sameThen fun source s1 before1 machine1 sourceReads => ?_
  rw [Machine.scratchAddress_add] at sourceReads
  refine (attains_loadFlag (address.mono before1) (machine1 ▸ byte) fun i present => ?_).sameThen
    fun found s2 before2 machine2 numbers => ?_
  · have last := flagged.position present
    omega
  rw [machine1] at machine2
  refine (attains_load (machine2 ▸ meant) (sourceReads.mono before2) (fun parts known part member => ?_) found
    numbers).weaken fun h s3 _ ⟨bears, shape, _⟩ => ⟨bears, shape⟩
  have bound := part_le known part member
  have some : 0 < part.1.storeSize := by cases part.1 <;> decide
  rw [Machine.scratchAddress_add]
  exact Machine.scratchAddress_ne_zero (by omega)

/-- The fields of a tuple are loaded as what their bytes mean. -/
theorem attains_loadFields (means : s.machine.TupleMeans host.program.encoding readable offset fields datums)
    (placed : TupleLayout.Placed host.program.encoding fields low high) (inside : offset + high ≤ scratchSpan) :
    host.Yields (fields.mapM (loadField r)) s fun values s' =>
      Forall₂ (fun h d => h.Bears readable s' d) values datums ∧ Held.Shaped values (fields.map TupleField.ty) := by
  induction fields generalizing s datums low with
  | nil =>
    cases means
    exact .pure ⟨rfl, .nil, .nil⟩
  | cons field fields ih =>
    obtain ⟨d, datums, first, others, rfl⟩ := forall₂_cons_left_iff.mp means
    have bound := (placed.bounds field mem_cons_self).2
    rw [mapM_cons]
    refine (attains_loadField address first (placed.flagged field mem_cons_self) (by omega)).sameThen
      fun h s1 before1 machine1 ⟨bears, shape⟩ => ?_
    refine (ih (address.mono before1) (machine1 ▸ others) placed.tail).andThen fun values s2 before2 ⟨are, shapes⟩ => ?_
    exact .pure ⟨rfl, .cons (bears.mono before2) are, .cons shape shapes⟩

/-- The values of a tuple are loaded. -/
theorem attains_loadValues
    (means : s.machine.TupleMeans host.program.encoding readable offset
      (TupleLayout.make host.program.encoding types).fields datums)
    (inside : offset + (TupleLayout.make host.program.encoding types).size ≤ scratchSpan) :
    host.Yields (loadTuple (.make host.program.encoding types) r) s fun values s' =>
      Forall₂ (fun h d => h.Bears readable s' d) values datums ∧
      Held.Shaped values types := by
  refine (attains_loadFields address means (TupleLayout.make_placed host.program.encoding types) inside).weaken
    fun values s' _ ⟨bear, shapes⟩ => ⟨bear, ?_⟩
  exact TupleLayout.make_types host.program.encoding types ▸ shapes

end

/-- The values of a tuple are loaded, each in the form of its type. -/
theorem attains_loadTuple (indicator : host.program.encoding = .indicator)
    (address : s.Reads r .ptr (scratchAddress offset))
    (lies : s.machine.TupleAt offset (TupleLayout.make .indicator types).fields datums)
    (inside : offset + (TupleLayout.make .indicator types).size ≤ scratchSpan) :
    host.Yields (loadTuple (.make .indicator types) r) s fun values s' => Held.All s' values datums ∧
      Held.Shaped values types := by
  have means : s.machine.TupleMeans host.program.encoding True offset
      (TupleLayout.make host.program.encoding types).fields datums := by rwa [indicator]
  have loads := attains_loadValues address means (indicator ▸ inside)
  rw [indicator] at loads
  exact loads.weaken fun values s' _ ⟨bear, shapes⟩ => ⟨bear.imp fun _ _ bears => bears.is trivial, shapes⟩

end Held

end QueryEngine
