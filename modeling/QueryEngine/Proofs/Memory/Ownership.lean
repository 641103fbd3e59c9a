import Mathlib.Data.Set.Basic
import QueryEngine.Proofs.Execution.Attains
import QueryEngine.Proofs.Memory.Scratch

namespace QueryEngine

/-- A byte of the scratch arena with the object of that address, or the rows that are handed to the caller. -/
inductive Part where
  | memory (offset : Nat)
  | rows

variable {m1 m2 m3 m m' : Machine} {part : Part}

/-- The bytes from one offset up to another one. -/
def Part.range (first last : Nat) : Set Part := { part | ∃ i, first ≤ i ∧ i < last ∧ part = .memory i }

theorem Part.mem_range : memory i ∈ range first last ↔ first ≤ i ∧ i < last := by
  constructor
  · rintro ⟨_, lower, upper, ⟨⟩⟩
    exact ⟨lower, upper⟩
  · rintro ⟨lower, upper⟩
    exact ⟨i, lower, upper, rfl⟩

theorem Part.range_subset (lower : first' ≤ first) (upper : last ≤ last') : range first last ⊆ range first' last' := by
  rintro _ ⟨i, least, most, rfl⟩
  exact ⟨i, by omega, by omega, rfl⟩

namespace Machine

/-- The part is the same in both machines. -/
def Agrees (m m' : Machine) : Part → Prop
  | .memory offset => m'.cell offset = m.cell offset ∧
    m'.objects.lookup (scratchAddress offset) = m.objects.lookup (scratchAddress offset)
  | .rows => m'.outcome.rows = m.outcome.rows

theorem Agrees.refl (m : Machine) (part : Part) : m.Agrees m part := by
  cases part with
  | memory offset => exact ⟨rfl, rfl⟩
  | rows => exact rfl

theorem Agrees.trans (first : m1.Agrees m2 part) (second : m2.Agrees m3 part) :
    m1.Agrees m3 part := by
  cases part with
  | memory offset => exact ⟨second.1.trans first.1, second.2.trans first.2⟩
  | rows => exact Eq.trans second first

/-- The part has been handed out. -/
def Has (m : Machine) : Part → Prop
  | .memory offset => offset < m.taken
  | .rows => True

/-- The parts that nobody has yet. -/
def fresh (m : Machine) : Set Part := { part | ¬ m.Has part }

/-- A later state of a run that changes no table. -/
structure Later (m m' : Machine) : Prop where
  program : m'.program = m.program
  database : m'.database = m.database
  settings : m'.settings = m.settings
  pending : m'.pending = m.pending
  taken : m.taken ≤ m'.taken
  overflow : m.outcome.overflow = true → m'.outcome.overflow = true

theorem Later.refl (m : Machine) : m.Later m := ⟨rfl, rfl, rfl, rfl, Nat.le_refl _, id⟩

theorem Later.trans (first : m1.Later m2) (second : m2.Later m3) : m1.Later m3 where
  program := second.program.trans first.program
  database := second.database.trans first.database
  settings := second.settings.trans first.settings
  pending := second.pending.trans first.pending
  taken := Nat.le_trans first.taken second.taken
  overflow := second.overflow ∘ first.overflow

theorem Later.keepsTexts (later : m.Later m') : m.KeepsTexts m' := by
  refine ⟨?_, ?_⟩
  · rw [later.program]
    exact .refl _
  · rw [later.database]
    exact .refl _

theorem Later.has (later : m.Later m') (has : m.Has part) : m'.Has part := by
  cases part with
  | memory offset => exact Nat.lt_of_lt_of_le has later.taken
  | rows => trivial

/-- The run has changed these parts at most, of those that were there. -/
structure Touches (m : Machine) (parts : Set Part) (m' : Machine) : Prop extends m.Later m' where
  keeps : ∀ part, m.Has part → part ∉ parts → m.Agrees m' part

namespace Touches

theorem refl (m : Machine) (parts : Set Part) : m.Touches parts m := ⟨.refl m, fun part _ _ => .refl m part⟩

/-- What a second step touches is what the first one may touch, or has just been handed out. -/
theorem trans (first : m1.Touches parts m2) (second : m2.Touches parts' m3) (inside : parts' ⊆ parts ∪ m1.fresh) :
    m1.Touches parts m3 := by
  refine ⟨first.toLater.trans second.toLater, fun part has away => ?_⟩
  refine (first.keeps part has away).trans (second.keeps part (first.toLater.has has) fun member => ?_)
  rcases inside member with old | fresh
  · exact away old
  · exact fresh has

theorem mono (touches : m1.Touches parts m2) (inside : parts ⊆ parts' ∪ m1.fresh) : m1.Touches parts' m2 := by
  refine ⟨touches.toLater, fun part has away => touches.keeps part has fun member => ?_⟩
  rcases inside member with old | fresh
  · exact away old
  · exact fresh has

theorem quiet_trans (first : m1.Touches ∅ m2) (second : m2.Touches parts m3) : m1.Touches parts m3 :=
  (first.mono (Set.empty_subset _)).trans second fun _ member => .inl member

theorem trans_quiet (first : m1.Touches parts m2) (second : m2.Touches ∅ m3) : m1.Touches parts m3 :=
  first.trans second (Set.empty_subset _)

end Touches

/-- Everything that was there is the same, and nothing more has been taken. -/
structure Quiet (m m' : Machine) : Prop extends m.Touches ∅ m' where
  same : m'.taken = m.taken

theorem Quiet.refl (m : Machine) : m.Quiet m := ⟨.refl m ∅, rfl⟩

theorem Quiet.trans (first : m1.Quiet m2) (second : m2.Quiet m3) : m1.Quiet m3 :=
  ⟨first.toTouches.trans_quiet second.toTouches, second.same.trans first.same⟩

theorem Quiet.of_eq (same : m' = m) : m.Quiet m' := same ▸ .refl m

theorem SameButScratch.later (same : m.SameButScratch m') : m.Later m' where
  program := same.program
  database := same.database
  settings := same.settings
  pending := same.pending
  taken := Nat.le_of_eq same.taken.symm
  overflow := fun reported => by rwa [same.outcome]

/-- Bytes that are written are touched, and nothing else. -/
theorem Writes.touches {first last : Nat} (writes : m.Writes first last m')
    (limit : m.taken ≤ scratchSpan) : m.Touches (Part.range first last) m' := by
  have same := writes.toSameButScratch
  refine ⟨same.later, fun part has away => ?_⟩
  cases part with
  | memory other =>
    refine ⟨writes.keeps other (Nat.lt_of_lt_of_le has limit) ?_, by rw [same.objects]⟩
    have apart := mt Part.mem_range.mpr away
    omega
  | rows => exact congrArg Outcome.rows same.outcome

/-- Fresh memory changes no part. -/
theorem newRegion?_touches {size : Nat} {a : Word} (found : m.newRegion? size = some (a, m')) :
    a = scratchAddress m.taken ∧ m' = { m with taken := m.taken + regionSize size } ∧
      m.taken + regionSize size ≤ scratchSpan ∧ m.Touches ∅ m' := by
  unfold newRegion? at found
  dsimp only at found
  split at found
  next room =>
    cases found
    refine ⟨rfl, rfl, room, ⟨rfl, rfl, rfl, rfl, Nat.le_add_right _ _, id⟩, fun part has _ => ?_⟩
    cases part with
    | memory offset => exact ⟨rfl, rfl⟩
    | rows => exact rfl
  · cases found

theorem newRegion?_eq (m : Machine) (room : m.taken + regionSize size ≤ scratchSpan) :
    m.newRegion? size = some (scratchAddress m.taken, { m with taken := m.taken + regionSize size }) := by
  exact if_pos room

theorem lt_regionSize (size : Nat) : size < regionSize size := by
  unfold regionSize
  omega

theorem regionSize_le (size : Nat) : regionSize size ≤ size + 8 := by
  unfold regionSize
  omega

end Machine

/-- How many registers the code so far has. -/
abbrev Point.size (s : Point) : Nat := s.builder.function.types.size

namespace Host

variable {host : Host} {low low' : Nat} {parts : Set Part}

/-- The bytes of the stack slots that code gets which is emitted from register `low` on. -/
def laterSlots (host : Host) (low : Nat) : Set Part :=
  { part | ∃ slot ∈ host.function.slots.toList, low ≤ slot.address.index ∧
    part ∈ Part.range (host.places slot.address) (host.places slot.address + slot.size) }

theorem laterSlots_anti (more : low ≤ low') : host.laterSlots low' ⊆ host.laterSlots low := by
  rintro part ⟨slot, member, number, inside⟩
  exact ⟨slot, member, Nat.le_trans more number, inside⟩

/-- The stack slots lie apart in memory that has been handed out, one for each register. -/
structure Laid (host : Host) (m : Machine) : Prop where
  address : ∀ slot ∈ host.function.slots.toList, 0 < slot.size →
    host.slots slot.address = Machine.scratchAddress (host.places slot.address)
  taken : ∀ slot ∈ host.function.slots.toList, host.places slot.address + slot.size ≤ m.taken
  apart : ∀ first ∈ host.function.slots.toList, ∀ second ∈ host.function.slots.toList,
    first.address.index ≠ second.address.index →
    host.places first.address + first.size ≤ host.places second.address ∨
      host.places second.address + second.size ≤ host.places first.address
  span : m.taken ≤ Machine.scratchSpan

theorem Laid.mono (laid : host.Laid m) (later : m.Later m') (span : m'.taken ≤ Machine.scratchSpan) : host.Laid m' where
  address := laid.address
  taken := fun slot member => Nat.le_trans (laid.taken slot member) later.taken
  apart := laid.apart
  span := span

theorem Laid.has (laid : host.Laid m) (member : part ∈ host.laterSlots low) : m.Has part := by
  obtain ⟨slot, isSlot, _, i, _, bound, rfl⟩ := member
  exact Nat.lt_of_lt_of_le bound (laid.taken slot isSlot)

/-- Parts that are there and do not belong to the slots of code that is emitted later. -/
structure Owns (host : Host) (low : Nat) (m : Machine) (parts : Set Part) : Prop where
  has : ∀ part ∈ parts, m.Has part
  away : ∀ part ∈ parts, part ∉ host.laterSlots low

theorem Owns.mono (owns : host.Owns low m parts) (later : m.Later m') (more : low ≤ low') :
    host.Owns low' m' parts where
  has := fun part member => later.has (owns.has part member)
  away := fun part member => mt (fun inside => laterSlots_anti more inside) (owns.away part member)

/-- A slot belongs to the code that is emitted up to its register. -/
theorem Laid.owns (laid : host.Laid m) (member : slot ∈ host.function.slots.toList) (early : slot.address.index < low) :
    host.Owns low m (Part.range (host.places slot.address) (host.places slot.address + slot.size)) where
  has := by
    rintro _ ⟨i, _, bound, rfl⟩
    exact Nat.lt_of_lt_of_le bound (laid.taken slot member)
  away := by
    rintro _ ⟨i, lower, upper, rfl⟩ ⟨other, isOther, late, inside⟩
    have range := Part.mem_range.mp inside
    rcases laid.apart slot member other isOther (by omega) with before | after
    · omega
    · omega

/-- What is handed out later belongs to no slot. -/
theorem Owns.of_fresh (owns : host.Owns low m parts) (laid : host.Laid m) (inside : parts' ⊆ parts ∪ m.fresh)
    (has : ∀ part ∈ parts', m'.Has part) : host.Owns low m' parts' := by
  refine ⟨has, fun part member slot => ?_⟩
  rcases inside member with old | fresh
  · exact owns.away part old slot
  · exact fresh (laid.has slot)

end Host

end QueryEngine
