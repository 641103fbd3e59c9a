import Mathlib.Data.List.Forall2
import QueryEngine.Proofs.Emission.Laws

namespace QueryEngine

open List

/-- A phi may get more edges after it has been emitted. Any other line stays as it is. -/
inductive Line.Refines : Line → Line → Prop
  | same (line : Line) : Refines line line
  | phi (result : Option Reg) (ty : CodeType) (incoming more : List (Label × Reg)) :
      Refines ⟨result, .phi ty incoming⟩ ⟨result, .phi ty (incoming ++ more)⟩

theorem Line.Refines.isPhi {first second : Line} (refines : first.Refines second) :
    second.instruction.isPhi = first.instruction.isPhi := by
  cases refines <;> rfl

theorem Line.Refines.eq_of_plain {first second : Line} (refines : first.Refines second)
    (plain : first.instruction.isPhi = false) : second = first := by
  cases refines with
  | same => rfl
  | phi => cases plain

theorem Line.Refines.trans {first second third : Line} (left : first.Refines second) (right : second.Refines third) :
    first.Refines third := by
  cases left with
  | same => exact right
  | phi result ty incoming more =>
    cases right with
    | same => exact .phi result ty incoming more
    | phi _ _ _ others => rw [append_assoc]; exact .phi result ty incoming (more ++ others)

abbrev Line.RefinesAll : List Line → List Line → Prop := Forall₂ Line.Refines

theorem Line.RefinesAll.refl : (lines : List Line) → Line.RefinesAll lines lines
  | [] => .nil
  | line :: lines => .cons (.same line) (refl lines)

theorem Line.RefinesAll.trans {first second third : List Line} (left : Line.RefinesAll first second)
    (right : Line.RefinesAll second third) : Line.RefinesAll first third := by
  induction left generalizing third with
  | nil => exact right
  | cons head _ ih =>
    cases right with
    | cons head' tail' => exact .cons (head.trans head') (ih tail')

theorem Line.RefinesAll.split (refines : Line.RefinesAll (first ++ added) whole) :
    ∃ start rest, whole = start ++ rest ∧ Line.RefinesAll first start ∧ Line.RefinesAll added rest := by
  induction first generalizing whole with
  | nil => exact ⟨[], whole, rfl, .nil, refines⟩
  | cons line lines ih =>
    cases refines with
    | cons head tail =>
      obtain ⟨start, rest, rfl, left, right⟩ := ih tail
      exact ⟨_ :: start, rest, rfl, .cons head left, right⟩

theorem Line.RefinesAll.eq_of_plain {first second : List Line} (refines : Line.RefinesAll first second)
    (plain : ∀ line ∈ first, line.instruction.isPhi = false) : second = first := by
  induction refines with
  | nil => rfl
  | cons head _ ih =>
    rw [head.eq_of_plain (plain _ (mem_cons_self ..)),
      ih fun line member => plain line (mem_cons_of_mem _ member)]

theorem Line.RefinesAll.all_phis {first second : List Line} (refines : Line.RefinesAll first second)
    (phis : ∀ line ∈ first, line.instruction.isPhi = true) : ∀ line ∈ second, line.instruction.isPhi = true := by
  induction refines with
  | nil => exact phis
  | cons head _ ih =>
    obtain ⟨first, rest⟩ := forall_mem_cons.mp phis
    exact forall_mem_cons.mpr ⟨by rw [head.isPhi]; exact first, ih rest⟩

variable {f : Function} {p : Program} {b c : Builder} {block : CodeBlock}

namespace Builder

/-- The blocks that have ended are those of the finished function. -/
structure Sealed (b : Builder) (f : Function) (p : Program) : Prop where
  program : b.program.Grows p
  types : b.function.types.toList <+: f.types.toList
  slots : ∃ later, f.slots.toList = b.function.slots.toList ++ later ∧
    ∀ slot ∈ later, b.function.types.size ≤ slot.address.index
  ended : ∀ {i : Nat} {block : CodeBlock} {terminator : Terminator}, b.function.blocks[i]? = some block →
    block.terminator = some terminator → ∃ block', f.blocks[i]? = some block' ∧
      block'.terminator = some terminator ∧ Line.RefinesAll block.lines.toList block'.lines.toList

/-- What has been emitted is part of the finished function, in which the current block may go on. -/
structure Within (b : Builder) (f : Function) (p : Program) : Prop extends b.Sealed f p where
  current : ∃ block' start rest, f.blocks[b.current.index]? = some block' ∧ block'.lines.toList = start ++ rest ∧
    Line.RefinesAll b.lines start ∧ ∀ line ∈ rest, line.instruction.isPhi = false

/-- A block that has ended is not the one code goes to. -/
theorem Ready.elsewhere (ready : b.Ready) (found : b.function.blocks[i]? = some block)
    (ended : block.terminator = some terminator) : b.Elsewhere i := by
  obtain ⟨_, atCurrent, unended, _⟩ := ready.block
  refine ⟨(Array.getElem?_eq_some_iff.mp found).1, ?_⟩
  rintro rfl
  rw [atCurrent] at found
  cases found
  rw [unended] at ended
  cases ended

theorem Sealed.slots_of_extends (closed : c.Sealed f p) (more : b.Extends c kept) :
    ∃ later, f.slots.toList = b.function.slots.toList ++ later ∧
      ∀ slot ∈ later, b.function.types.size ≤ slot.address.index := by
  obtain ⟨added, slots, late⟩ := more.slots
  obtain ⟨later, slots', late'⟩ := closed.slots
  refine ⟨added ++ later, by rw [slots', slots, append_assoc], fun slot member => ?_⟩
  rcases mem_append.mp member with old | new
  · exact late slot old
  · exact Nat.le_trans more.types_size (late' slot new)

theorem Sealed.of_extends (closed : c.Sealed f p) (ready : b.Ready) (more : b.Extends c kept)
    (keeps : ∀ i, b.Elsewhere i → kept i) : b.Sealed f p where
  program := more.program.trans closed.program
  types := more.types.trans closed.types
  slots := closed.slots_of_extends more
  ended := fun found ended =>
    closed.ended ((more.blocks _ (keeps _ (ready.elsewhere found ended))).trans found) ended

/-- What is emitted before is part of every function that what is emitted later is part of. -/
theorem Within.of_grows (within : c.Within f p) (ready : b.Ready) (grows : b.Grows c) : b.Within f p := by
  obtain ⟨block', _, found, extends', plain, state⟩ := grows.current
  refine { within.toSealed.of_extends ready grows.toExtends fun _ elsewhere => elsewhere with current := ?_ }
  rcases state with same | ⟨_, ended⟩
  · obtain ⟨final, _, rest, atFinal, finalLines, refines, tail⟩ := within.current
    have current : c.lines = block'.lines.toList := by simp [lines, block?, same, found]
    rw [current, extends'] at refines
    obtain ⟨first, second, rfl, left, right⟩ := refines.split
    refine ⟨final, first, second ++ rest, by rw [← same]; exact atFinal, by rw [finalLines, append_assoc],
      left, fun line member => ?_⟩
    rw [right.eq_of_plain plain] at member
    exact (mem_append.mp member).elim (plain line) (tail line)
  · obtain ⟨_, ends⟩ := Option.isSome_iff_exists.mp ended
    obtain ⟨final, atFinal, _, refines⟩ := within.ended found ends
    rw [extends'] at refines
    obtain ⟨first, second, whole, left, right⟩ := refines.split
    refine ⟨final, first, second, atFinal, whole, left, fun line member => ?_⟩
    rw [right.eq_of_plain plain] at member
    exact plain line member

/-- A phi of an ended block may get another edge. -/
theorem Sealed.of_refines (closed : c.Sealed f p) (more : b.Extends c fun j => j ≠ i)
    (found : b.function.blocks[i]? = some block) (found' : c.function.blocks[i]? = some block')
    (terminator : block'.terminator = block.terminator) (refines : Line.RefinesAll block.lines.toList block'.lines.toList) :
    b.Sealed f p where
  program := more.program.trans closed.program
  types := more.types.trans closed.types
  slots := closed.slots_of_extends more
  ended := fun {j other ends} atJ ended => by
    by_cases same : j = i
    · subst same
      cases found.symm.trans atJ
      obtain ⟨final, atFinal, finalEnd, refines'⟩ := closed.ended found' (terminator.trans ended)
      exact ⟨final, atFinal, finalEnd, refines.trans refines'⟩
    · exact closed.ended ((more.blocks j same).trans atJ) ended

/-- Ends the current block and goes on in another one. -/
def goTo (b : Builder) (terminator : Terminator) (entry : Label) : Builder :=
  { b.terminate terminator with current := entry }

theorem Extends.goTo (b : Builder) (terminator : Terminator) (entry : Label) :
    b.Extends (b.goTo terminator entry) fun i => i ≠ b.current.index :=
  { Extends.refl b fun _ => True with
    blockCount := by simp [Builder.goTo, terminate, modifyBlock]
    blocks := fun i away => by
      simp [Builder.goTo, terminate, modifyBlock, Array.getElem?_modify, Ne.symm away] }

theorem goTo_block (terminator : Terminator) (entry : Label) (found : b.function.blocks[b.current.index]? = some block)
    (unended : block.terminator = none) :
    (b.goTo terminator entry).function.blocks[b.current.index]? =
      some { block with terminator := some terminator } := by
  simp [goTo, terminate, modifyBlock, Array.getElem?_modify, found, unended]

@[simp] theorem goTo_size (b : Builder) (terminator : Terminator) (entry : Label) :
    (b.goTo terminator entry).function.blocks.size = b.function.blocks.size := by
  simp [goTo, terminate, modifyBlock]

/-- In the finished function the current block has no more lines, and this end. -/
def EndsWith (b : Builder) (f : Function) (terminator : Terminator) : Prop :=
  ∃ block', f.blocks[b.current.index]? = some block' ∧ block'.terminator = some terminator ∧
    Line.RefinesAll b.lines block'.lines.toList

/-- A block that control leaves is part of the function as soon as its end is. -/
theorem Within.of_goTo (ready : b.Ready) (closed : (b.goTo terminator entry).Sealed f p) :
    b.Within f p ∧ b.EndsWith f terminator := by
  obtain ⟨block, found, unended, lines⟩ := ready.block
  obtain ⟨final, atFinal, finalEnd, refines⟩ := closed.ended (goTo_block terminator entry found unended) rfl
  have refines' : Line.RefinesAll b.lines final.lines.toList := by rw [lines]; exact refines
  refine ⟨{ closed.of_extends ready (.goTo b terminator entry) fun _ elsewhere => elsewhere.2 with
    current := ⟨final, final.lines.toList, [], atFinal, by simp, refines', by simp⟩ }, final, atFinal, finalEnd,
    refines'⟩

end Builder

end QueryEngine
