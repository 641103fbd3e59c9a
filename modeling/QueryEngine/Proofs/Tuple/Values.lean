import QueryEngine.Proofs.Expression.Nulls
import QueryEngine.Proofs.Memory.Scratch

namespace QueryEngine

open List UInt64 Machine

open Machine (scratchAddress scratchSpan)

variable {host : Host} {s : Point} {other ty : ValueType} {m : Machine} {cells : List (CodeType × Word)}
  {parts : List (CodeType × Nat)} {a : Word} {offset : Nat}

namespace ValueType

theorem isUnknown_iff : ty.isUnknown = true ↔ ty.shape = .unknown := by
  simp [isUnknown]

theorem parts?_of_shape (same : ty.shape = other.shape) : ty.parts? = other.parts? := by
  simp only [parts?, same]

theorem size_of_shape (same : ty.shape = other.shape) : ty.size = other.size := by
  simp only [size, same]

theorem parts?_isSome (known : ty.isUnknown ≠ true) : ∃ parts, ty.parts? = some parts := by
  cases shape : ty.shape with
  | unknown => exact absurd (isUnknown_iff.mpr shape) known
  | _ => simp [parts?, shape]

/-- Every part lies inside of the value. -/
theorem part_le (found : ty.parts? = some parts) : ∀ part ∈ parts, part.2 + part.1.storeSize ≤ ty.size := by
  unfold parts? at found
  split at found <;> cases found <;> rename_i shape <;> simp [size, shape, CodeType.storeSize]

/-- The parts of a value lie one behind the other. -/
theorem parts_apart (found : ty.parts? = some parts) :
    parts.Pairwise fun first second => first.2 + first.1.storeSize ≤ second.2 := by
  unfold parts? at found
  split at found <;> cases found <;> simp [CodeType.storeSize]

end ValueType

/-- Registers that stand in for a value have the types of its parts. -/
theorem Shape.Spare.types (spare : ty.shape.Spare m cells) (found : ty.parts? = some parts) :
    Forall₂ (fun (part : CodeType × Nat) cell => cell.1 = part.1) parts cells := by
  unfold ValueType.parts? at found
  split at found <;> cases found <;> rename_i shape <;> rw [shape] at spare <;> cases spare <;> simp

namespace Machine

/-- The parts of a value at an address hold these words. -/
abbrev PartsAt (m : Machine) (a : Word) : List (CodeType × Nat) → List (CodeType × Word) → Prop :=
  Forall₂ fun part cell => cell.1 = part.1 ∧
    part.1.normalize (m.load part.1.storeSize (a + UInt64.ofNat part.2)) = cell.2

theorem PartsAt.congr {m' : Machine} (lies : m.PartsAt a parts cells)
    (same : ∀ part ∈ parts, m'.load part.1.storeSize (a + ofNat part.2) =
      m.load part.1.storeSize (a + ofNat part.2)) : m'.PartsAt a parts cells := by
  induction lies with
  | nil => exact .nil
  | cons head _ ih =>
    refine .cons ⟨head.1, ?_⟩ (ih fun part member => same part (mem_cons_of_mem _ member))
    rw [same _ mem_cons_self]
    exact head.2

end Machine

namespace Present

open Host.Attains

variable {r : Reg}

abbrev loadPart (address : Reg) (part : CodeType × Nat) : Emit Reg := do
  let address ← Emit.ptrOffset address part.2
  Emit.load part.1 address

theorem attains_loadParts (address : s.Reads r .ptr a) (present : ∀ part ∈ parts, a + ofNat part.2 ≠ 0)
    (lies : s.machine.PartsAt a parts cells) :
    host.Yields (parts.mapM (loadPart r)) s fun regs s' => s'.ReadsAll regs cells := by
  induction parts generalizing s cells with
  | nil =>
    cases lies
    exact .pure ⟨rfl, .nil⟩
  | cons part parts ih =>
    obtain ⟨cell, _, ⟨same, word⟩, others, rfl⟩ := forall₂_cons_left_iff.mp lies
    rw [mapM_cons]
    have one : host.Yields (loadPart r part) s fun v s' => s'.Reads v cell.1 cell.2 := by
      refine (ptrOffset address part.2).sameThen fun target s1 before1 machine1 targetReads => ?_
      refine (Host.Attains.load part.1 targetReads (present part mem_cons_self)).weaken fun v s2 _ reads => ?_
      rw [machine1, word] at reads
      rwa [same]
    refine one.sameThen fun v s1 before1 machine1 reads1 => ?_
    refine (ih (address.mono before1) (fun other member => present other (mem_cons_of_mem _ member))
      (machine1 ▸ others)).andThen fun regs s2 before2 reads2 => ?_
    exact .pure ⟨rfl, .cons (reads1.mono before2) reads2⟩

theorem attains_load (found : ty.parts? = some parts) (address : s.Reads r .ptr a)
    (present : ∀ part ∈ parts, a + ofNat part.2 ≠ 0) (lies : s.machine.PartsAt a parts cells) :
    host.Yields (Present.load ty r) s fun v s' => s'.ReadsAll v.regs cells ∧ v.ty.shape = ty.shape := by
  unfold Present.load build
  rw [found]
  refine (attains_loadParts address present lies).andThen fun regs s1 before1 reads => ?_
  refine (attains_ofRegs ty regs).mono fun v s2 _ ⟨point, same, shape⟩ => ⟨by rw [point], ?_, shape⟩
  rwa [point, same]

/-- A store goes to the scratch arena. -/
theorem attains_storePart {target : Reg} {ty : CodeType} {w : Word} (value : s.Reads r ty w)
    (address : s.Reads target .ptr (scratchAddress offset)) (inside : offset + ty.storeSize ≤ scratchSpan) :
    host.Attains (Emit.store r target) s fun _ s' => s.machine.Writes offset (offset + ty.storeSize) s'.machine ∧
      s'.machine.load ty.storeSize (scratchAddress offset) = Word.ofBytes (Word.bytes ty.storeSize w) := by
  have same := store_sameButScratch s.machine w inside
  have some : 0 < ty.storeSize := by cases ty <;> decide
  refine (Host.Attains.store value address (scratchAddress_ne_zero (by omega)) same.program
    ⟨by rw [same.program]; exact .refl _, by rw [same.database]; exact .refl _⟩).mono fun _ s' _ machine => ?_
  rw [machine]
  exact ⟨store_writes s.machine w inside, load_store s.machine w inside⟩

theorem attains_storeParts {high : Nat} (low : Nat) {regs : List Reg}
    (address : s.Reads r .ptr (scratchAddress offset)) (reads : s.ReadsAll regs cells)
    (types : Forall₂ (fun (part : CodeType × Nat) cell => cell.1 = part.1) parts cells)
    (bounds : ∀ part ∈ parts, low ≤ part.2 ∧ part.2 + part.1.storeSize ≤ high)
    (apart : parts.Pairwise fun first second => first.2 + first.1.storeSize ≤ second.2)
    (inside : offset + high ≤ scratchSpan) :
    host.Attains (storeParts r regs parts) s fun _ s' =>
      s.machine.Writes (offset + low) (offset + high) s'.machine ∧
        s'.machine.PartsAt (scratchAddress offset) parts cells := by
  induction parts generalizing s cells regs low with
  | nil =>
    cases types
    cases reads
    exact .pure ⟨.refl _ _ _, .nil⟩
  | cons part parts ih =>
    obtain ⟨cell, rest, same, others, rfl⟩ := forall₂_cons_left_iff.mp types
    obtain ⟨reg, regs, head, tail, rfl⟩ := forall₂_cons_right_iff.mp reads
    obtain ⟨first, apart⟩ := pairwise_cons.mp apart
    have bound := bounds part mem_cons_self
    rw [storeParts]
    refine (ptrOffset address part.2).bind ?_
    rintro target s1 before1 ⟨machine1, targetReads⟩
    rw [scratchAddress_add] at targetReads
    refine (attains_storePart (head.mono before1) targetReads (by rw [same]; omega)).bind ?_
    rintro _ s2 before2 ⟨writes2, word⟩
    have before := before1.trans before2
    refine (ih (part.2 + part.1.storeSize) (address.mono before) (Point.ReadsAll.mono tail before) others (fun other member =>
      ⟨first other member, (bounds other (mem_cons_of_mem _ member)).2⟩) apart).mono ?_
    rintro _ s3 before3 ⟨writes3, lies⟩
    rw [machine1, same] at writes2
    rw [same] at word
    refine ⟨(writes2.mono (by omega) (by omega)).trans (writes3.mono (by omega) (Nat.le_refl _)), .cons ⟨same, ?_⟩ lies⟩
    rw [scratchAddress_add, writes3.load (by omega) (.inl (by omega)), word, CodeType.normalize_ofBytes_bytes,
      ← same, head.normal]

theorem attains_store {v : Present} (found : v.ty.parts? = some parts)
    (address : s.Reads r .ptr (scratchAddress offset)) (reads : s.ReadsAll v.regs cells)
    (types : Forall₂ (fun (part : CodeType × Nat) cell => cell.1 = part.1) parts cells)
    (inside : offset + v.ty.size ≤ scratchSpan) :
    host.Attains (v.store r) s fun _ s' => s.machine.Writes offset (offset + v.ty.size) s'.machine ∧
      s'.machine.PartsAt (scratchAddress offset) parts cells := by
  unfold Present.store
  rw [found]
  exact (attains_storeParts 0 address reads types
    (fun part member => ⟨Nat.zero_le _, ValueType.part_le found part member⟩) (ValueType.parts_apart found) inside)

end Present

namespace Held

open Host.Attains

variable {h : Held}

/-- The bit that a flag in a register is made into. -/
theorem attains_nullFlag (flag : s.Number f flagTy n) (v : Present) :
    host.Yields (NullEncoding.indicator.nullFlag v (some f)) s fun bit s' => s'.Bit bit (n ≠ 0) := by
  refine (Host.Attains.typeOf flag.reads).bind fun found s1 _ ⟨point, same⟩ => ?_
  subst point same
  refine (constNumber (n := 0) (by cases found <;> rfl)).andThen fun zero s1 before1 zeroIs => ?_
  exact (compareNumbers (show Predicate.ne.isSigned = true from rfl) (flag.mono before1) zeroIs).weaken fun bit s2 _ bitIs =>
    bitIs

theorem attains_checkStorable : host.Attains (h.checkStorable ty) s fun _ s' => s' = s := by
  unfold checkStorable
  split
  · split
    · exact .pure rfl
    · exact .throw
  · exact .pure rfl

end Held

end QueryEngine
