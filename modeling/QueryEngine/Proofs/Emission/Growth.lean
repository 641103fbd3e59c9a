import QueryEngine.Code.Builder
import QueryEngine.Proofs.Memory.Addresses

namespace QueryEngine

open List

/-- Strings stay where they are while others are added. -/
structure TextHeap.Grows (heap heap' : TextHeap) : Prop where
  arena : heap'.arena = heap.arena
  texts : heap.texts.toList <+: heap'.texts.toList

namespace TextHeap.Grows

theorem refl (heap : TextHeap) : heap.Grows heap := ⟨rfl, prefix_refl _⟩

theorem trans {first second third : TextHeap} (left : first.Grows second) (right : second.Grows third) :
    first.Grows third :=
  ⟨right.arena.trans left.arena, left.texts.trans right.texts⟩

theorem intern (heap : TextHeap) (bytes : Bytes) : heap.Grows (heap.intern bytes).2 :=
  ⟨rfl, by simp [TextHeap.intern]⟩

end TextHeap.Grows

/-- What code names in a program stays where it is while more code is emitted. -/
structure Program.Grows (p p' : Program) : Prop where
  encoding : p'.encoding = p.encoding
  literals : p.literals.Grows p'.literals
  tables : p.tables.toList <+: p'.tables.toList
  columnLists : p.columnLists.toList <+: p'.columnLists.toList
  layouts : p.layouts.toList <+: p'.layouts.toList
  addressable : p.Addressable → p'.Addressable

namespace Program.Grows

theorem refl (p : Program) : p.Grows p :=
  ⟨rfl, .refl _, prefix_refl _, prefix_refl _, prefix_refl _, id⟩

theorem trans {p q r : Program} (first : p.Grows q) (second : q.Grows r) : p.Grows r where
  encoding := second.encoding.trans first.encoding
  literals := first.literals.trans second.literals
  tables := first.tables.trans second.tables
  columnLists := first.columnLists.trans second.columnLists
  layouts := first.layouts.trans second.layouts
  addressable := second.addressable ∘ first.addressable

theorem intern (p : Program) (room : p.literals.hasRoom bytes = true) :
    p.Grows { p with literals := (p.literals.intern bytes).2 } :=
  { refl p with
    literals := .intern p.literals bytes
    addressable := fun addressable => ⟨addressable.arena, addressable.literals.intern room⟩ }

theorem declare (p : Program) (routine : Routine) : p.Grows (p.declare routine) := by
  unfold Program.declare
  split
  · exact refl p
  · exact { refl p with addressable := fun addressable => ⟨addressable.arena, addressable.literals⟩ }

theorem tableHandle (p : Program) (table : String) : p.Grows (p.tableHandle table).2 := by
  unfold Program.tableHandle
  split
  · exact refl p
  · exact { refl p with
      tables := by simp
      addressable := fun addressable => ⟨addressable.arena, addressable.literals⟩ }

theorem columnList (p : Program) (columns : List Nat) : p.Grows (p.columnList columns).2 :=
  { refl p with
    columnLists := by simp [Program.columnList]
    addressable := fun addressable => ⟨addressable.arena, addressable.literals⟩ }

theorem tupleLayout (p : Program) (types : List ValueType) : p.Grows (p.tupleLayout types).2 := by
  unfold Program.tupleLayout
  dsimp only
  split
  · exact refl p
  · exact { refl p with
      layouts := by simp
      addressable := fun addressable => ⟨addressable.arena, addressable.literals⟩ }

end Program.Grows

variable {b b' : Builder} {types : List CodeType} {kept : Nat → Prop}

namespace Builder

def block? (b : Builder) : Option CodeBlock := b.function.blocks[b.current.index]?

/-- The lines that have been emitted into the current block. -/
def lines (b : Builder) : List Line := (b.block?.map fun block => block.lines.toList).getD []

/-- Code can be appended: the current block has not ended. Each stack slot has a register of its own, and each literal
an address. -/
structure Ready (b : Builder) : Prop where
  isOpen : b.block?.map CodeBlock.terminator = some none
  slotBound : ∀ slot ∈ b.function.slots.toList, slot.address.index < b.function.types.size
  slotOrder : b.function.slots.toList.Pairwise fun first second => first.address.index < second.address.index
  addressable : b.program.Addressable

/-- What emission leaves of a function: its registers, its slots and some of its blocks. -/
structure Extends (b b' : Builder) (kept : Nat → Prop) : Prop where
  program : b.program.Grows b'.program
  name : b'.function.name = b.function.name
  result : b'.function.result = b.function.result
  params : b'.function.params = b.function.params
  types : b.function.types.toList <+: b'.function.types.toList
  slots : ∃ added, b'.function.slots.toList = b.function.slots.toList ++ added ∧
    ∀ slot ∈ added, b.function.types.size ≤ slot.address.index
  blockCount : b.function.blocks.size ≤ b'.function.blocks.size
  blocks : ∀ i, kept i → b'.function.blocks[i]? = b.function.blocks[i]?

theorem Extends.types_size (more : b.Extends b' kept) : b.function.types.size ≤ b'.function.types.size := by
  simpa using more.types.length_le

theorem Extends.refl (b : Builder) (kept : Nat → Prop) : b.Extends b kept :=
  ⟨.refl _, rfl, rfl, rfl, prefix_refl _, ⟨[], by simp, by simp⟩, Nat.le_refl _, fun _ _ => rfl⟩

theorem Extends.trans {c d : Builder} (first : b.Extends c kept) (second : c.Extends d kept) : b.Extends d kept := by
  obtain ⟨added, slots, late⟩ := first.slots
  obtain ⟨more, slots', late'⟩ := second.slots
  have size := first.types_size
  refine {
    program := first.program.trans second.program
    name := second.name.trans first.name
    result := second.result.trans first.result
    params := second.params.trans first.params
    types := first.types.trans second.types
    slots := ⟨added ++ more, by rw [slots', slots, append_assoc], ?_⟩
    blockCount := Nat.le_trans first.blockCount second.blockCount
    blocks := fun i keeps => (second.blocks i keeps).trans (first.blocks i keeps) }
  intro slot member
  rcases mem_append.mp member with old | new
  · exact late slot old
  · exact Nat.le_trans size (late' slot new)

theorem Extends.mono (more : b.Extends b' kept) (fewer : ∀ i, kept' i → kept i) : b.Extends b' kept' :=
  { more with blocks := fun i keeps => more.blocks i (fewer i keeps) }

/-- The blocks of a function that are there and are not the current one. -/
def Elsewhere (b : Builder) (i : Nat) : Prop := i < b.function.blocks.size ∧ i ≠ b.current.index

/-- How emission changes a function. Blocks other than the current one stay as they are. The current one gets more
lines, none of them a phi, and has ended if code goes on elsewhere. -/
structure Grows (b b' : Builder) : Prop extends b.Extends b' b.Elsewhere where
  ready : b'.Ready
  current : ∃ block' added, b'.function.blocks[b.current.index]? = some block' ∧
    block'.lines.toList = b.lines ++ added ∧ (∀ line ∈ added, line.instruction.isPhi = false) ∧
    (b'.current = b.current ∨ b.function.blocks.size ≤ b'.current.index ∧ block'.terminator.isSome)

theorem Ready.block (ready : b.Ready) :
    ∃ block, b.function.blocks[b.current.index]? = some block ∧ block.terminator = none ∧
      b.lines = block.lines.toList := by
  obtain ⟨block, found, ended⟩ := Option.map_eq_some_iff.mp ready.isOpen
  exact ⟨block, found, ended, by simp [lines, found]⟩

theorem Ready.current_lt (ready : b.Ready) : b.current.index < b.function.blocks.size := by
  obtain ⟨block, found, _⟩ := ready.block
  exact (Array.getElem?_eq_some_iff.mp found).1

theorem Grows.refl (ready : b.Ready) : b.Grows b := by
  obtain ⟨block, found, _, lines⟩ := ready.block
  exact { Extends.refl b _ with
    ready, current := ⟨block, [], found, by simp [lines], by simp, Or.inl rfl⟩ }

theorem Grows.current_or_new (grows : b.Grows b') :
    b'.current = b.current ∨ b.function.blocks.size ≤ b'.current.index := by
  obtain ⟨_, _, _, _, _, state⟩ := grows.current
  exact state.imp_right And.left

theorem Grows.trans (ready : b.Ready) (first : b.Grows c) (second : c.Grows d) : b.Grows d := by
  have bound := ready.current_lt
  have count := first.blockCount
  obtain ⟨block, lines, found, extends', plain, state⟩ := first.current
  obtain ⟨block', lines', found', extends'', plain', state'⟩ := second.current
  have away (i : Nat) (elsewhere : b.Elsewhere i) : c.Elsewhere i := by
    obtain ⟨old, other⟩ := elsewhere
    refine ⟨by omega, ?_⟩
    rcases first.current_or_new with same | new
    · rwa [same]
    · omega
  refine { first.toExtends.trans (second.toExtends.mono away) with
    ready := second.ready
    current := ?_ }
  rcases state with same | ⟨new, ended⟩
  · have current : c.lines = block.lines.toList := by simp [Builder.lines, block?, same, found]
    refine ⟨block', lines ++ lines', by rw [← same]; exact found', ?_, ?_, ?_⟩
    · rw [extends'', current, extends', append_assoc]
    · intro line member
      exact (mem_append.mp member).elim (plain line) (plain' line)
    · rcases state' with same' | ⟨new', ended'⟩
      · exact Or.inl (same'.trans same)
      · exact Or.inr ⟨by omega, ended'⟩
  · refine ⟨block, lines, ?_, extends', plain, Or.inr ⟨?_, ended⟩⟩
    · rw [second.blocks _ ⟨by omega, by omega⟩, found]
    · rcases second.current_or_new with same' | new'
      · rwa [same']
      · omega

/-- Registers and lines are appended, and all else stays as it is. -/
structure Appends (b b' : Builder) (types : List CodeType) (lines : List Line) : Prop where
  program : b'.program = b.program
  name : b'.function.name = b.function.name
  result : b'.function.result = b.function.result
  params : b'.function.params = b.function.params
  slots : b'.function.slots = b.function.slots
  position : b'.current = b.current
  newTypes : b'.function.types.toList = b.function.types.toList ++ types
  blockCount : b'.function.blocks.size = b.function.blocks.size
  others : ∀ i, i ≠ b.current.index → b'.function.blocks[i]? = b.function.blocks[i]?
  newLines : b'.lines = b.lines ++ lines
  isOpen : b'.block?.map CodeBlock.terminator = some none

namespace Appends

theorem trans {c d : Builder} {types' : List CodeType} {lines lines' : List Line} (first : b.Appends c types lines)
    (second : c.Appends d types' lines') :
    b.Appends d (types ++ types') (lines ++ lines') where
  program := second.program.trans first.program
  name := second.name.trans first.name
  result := second.result.trans first.result
  params := second.params.trans first.params
  slots := second.slots.trans first.slots
  position := second.position.trans first.position
  newTypes := by rw [second.newTypes, first.newTypes, append_assoc]
  blockCount := second.blockCount.trans first.blockCount
  others := fun i away => (second.others i (by rw [first.position]; exact away)).trans (first.others i away)
  newLines := by rw [second.newLines, first.newLines, append_assoc]
  isOpen := second.isOpen

theorem refl (ready : b.Ready) : b.Appends b [] [] :=
  ⟨rfl, rfl, rfl, rfl, rfl, rfl, by simp, rfl, fun _ _ => rfl, by simp, ready.isOpen⟩

theorem ready {lines : List Line} (appends : b.Appends b' types lines) (ready : b.Ready) : b'.Ready := by
  refine ⟨appends.isOpen, ?_, by rw [appends.slots]; exact ready.slotOrder, by
    rw [appends.program]; exact ready.addressable⟩
  intro slot member
  rw [appends.slots] at member
  have old := ready.slotBound slot member
  have size := congrArg List.length appends.newTypes
  simp only [length_append, Array.length_toList] at size
  omega

theorem extending {lines : List Line} (appends : b.Appends b' types lines) :
    b.Extends b' fun i => i ≠ b.current.index where
  program := by rw [appends.program]; exact .refl _
  name := appends.name
  result := appends.result
  params := appends.params
  types := by rw [appends.newTypes]; exact prefix_append _ _
  slots := ⟨[], by simp [appends.slots], by simp⟩
  blockCount := Nat.le_of_eq appends.blockCount.symm
  blocks := appends.others

/-- Lines that are no phis let a function grow. -/
theorem grows {lines : List Line} (appends : b.Appends b' types lines) (ready : b.Ready)
    (plain : ∀ line ∈ lines, line.instruction.isPhi = false) : b.Grows b' := by
  obtain ⟨block', found, _, lines'⟩ := (appends.ready ready).block
  exact { appends.extending.mono fun i away => away.2 with
    ready := appends.ready ready
    current := ⟨block', lines, by rw [← appends.position]; exact found, by rw [← lines', appends.newLines],
      plain, Or.inl appends.position⟩ }

theorem append (ready : b.Ready) (line : Line) : b.Appends (b.append line) [] [line] := by
  obtain ⟨block, found, ended, lines⟩ := ready.block
  have found' : (b.append line).block? = some { block with lines := block.lines.push line } := by
    simp [block?, Builder.append, modifyBlock, Array.getElem?_modify, found]
  refine ⟨rfl, rfl, rfl, rfl, rfl, rfl, ?_, ?_, ?_, ?_, ?_⟩
  · simp [Builder.append, modifyBlock]
  · simp [Builder.append, modifyBlock]
  · intro i away
    simp [Builder.append, modifyBlock, Array.getElem?_modify, Ne.symm away]
  · rw [lines, Builder.lines, found']
    simp
  · simp [found', ended]

theorem addReg (ready : b.Ready) (ty : CodeType) : b.Appends (b.addReg ty).2 [ty] [] :=
  ⟨rfl, rfl, rfl, rfl, rfl, rfl, by simp [Builder.addReg], rfl, fun _ _ => rfl, by simp [lines, block?,
    Builder.addReg], ready.isOpen⟩

theorem define (ready : b.Ready) (ty : CodeType) (instruction : Instruction) :
    b.Appends (b.define ty instruction).2 [ty] [⟨some ⟨b.function.types.size⟩, instruction⟩] := by
  have first := addReg ready ty
  exact first.trans (append (first.ready ready) ⟨some ⟨b.function.types.size⟩, instruction⟩)

end Appends

/-- A stack slot takes a register of its own. -/
theorem Grows.stackSlot (ready : b.Ready) (size : Nat) : b.Grows { (b.addReg .ptr).2 with
      function.slots := b.function.slots.push ⟨(b.addReg .ptr).1, size⟩ } := by
  have grows := (Appends.addReg ready .ptr).grows ready (by simp)
  refine { grows with
    slots := ⟨[⟨(b.addReg .ptr).1, size⟩], by simp, by simp [addReg]⟩
    ready := ⟨grows.ready.isOpen, ?_, ?_, ready.addressable⟩ }
  · intro slot member
    rw [Array.toList_push, mem_append, mem_singleton] at member
    rcases member with old | rfl
    · exact grows.ready.slotBound slot old
    · simp [addReg]
  · have order := ready.slotOrder
    simp only [Array.toList_push, pairwise_append, pairwise_singleton, mem_singleton]
    refine ⟨order, trivial, ?_⟩
    rintro first member second rfl
    exact ready.slotBound first member

theorem Grows.inProgram (ready : b.Ready) {program : Program} (grows : b.program.Grows program) :
    b.Grows { b with program } :=
  { Grows.refl ready with
    program := grows
    ready := ⟨ready.isOpen, ready.slotBound, ready.slotOrder, grows.addressable ready.addressable⟩ }

end Builder

end QueryEngine
