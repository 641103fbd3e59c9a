import QueryEngine.Proofs.Emission.Containment

namespace QueryEngine

variable {regs : List Reg} {ty : CodeType} {i : Nat} {entries : List (CodeType × List (Label × Reg))} {b b' : Builder}
  {α β : Type} {cond r : Reg} {f : Function}

namespace Builder

/-- The phis that define the registers from number `start` on. -/
def phiLines (start : Nat) : List (CodeType × List (Label × Reg)) → List Line
  | [] => []
  | (ty, incoming) :: entries => ⟨some ⟨start⟩, .phi ty incoming⟩ :: phiLines (start + 1) entries

/-- As many registers from number `start` on. -/
def regsFrom (start : Nat) : Nat → List Reg
  | 0 => []
  | count + 1 => ⟨start⟩ :: regsFrom (start + 1) count

/-- `b'` defines the registers `regs` by one phi for each entry. -/
structure AddsPhis (b b' : Builder) (regs : List Reg) (entries : List (CodeType × List (Label × Reg))) : Prop where
  appends : b.Appends b' (entries.map Prod.fst) (phiLines b.function.types.size entries)
  regs_eq : regs = regsFrom b.function.types.size entries.length

theorem AddsPhis.nil (ready : b.Ready) : b.AddsPhis b [] [] := ⟨.refl ready, rfl⟩

theorem AddsPhis.cons (ready : b.Ready) (rest : (b.define ty (.phi ty incoming)).2.AddsPhis b' regs entries) :
    b.AddsPhis b' ((b.define ty (.phi ty incoming)).1 :: regs) ((ty, incoming) :: entries) := by
  have first := Appends.define ready ty (.phi ty incoming)
  have size : (b.define ty (.phi ty incoming)).2.function.types.size = b.function.types.size + 1 := by
    simpa using congrArg List.length first.newTypes
  have tail := rest.appends
  rw [size] at tail
  refine ⟨first.trans tail, ?_⟩
  rw [rest.regs_eq, size]
  rfl

/-- The function with three new blocks. -/
def withBlocks (b : Builder) : Builder :=
  { b with function.blocks := ((b.function.blocks.push {}).push {}).push {} }

@[simp] theorem withBlocks_size (b : Builder) : b.withBlocks.function.blocks.size = b.function.blocks.size + 3 := by
  simp [withBlocks]

theorem Extends.withBlocks (b : Builder) : b.Extends b.withBlocks fun i => i < b.function.blocks.size :=
  { Extends.refl b fun _ => True with
    blockCount := by simp
    blocks := fun i old => by
      simp only [Builder.withBlocks, Array.getElem?_push, Array.size_push]
      rw [if_neg (by omega), if_neg (by omega), if_neg (by omega)] }

theorem withBlocks_block (new : b.function.blocks.size ≤ i) (bound : i < b.function.blocks.size + 3) :
    b.withBlocks.function.blocks[i]? = some {} := by
  obtain rfl | rfl | rfl : i = b.function.blocks.size ∨ i = b.function.blocks.size + 1 ∨
      i = b.function.blocks.size + 2 := by omega
  all_goals simp [withBlocks, Array.getElem?_push, Array.getElem_push]

theorem lines_of_block (found : b.function.blocks[b.current.index]? = some {}) : b.lines = [] := by
  simp [lines, block?, found]

theorem withBlocks_lines (ready : b.Ready) : b.withBlocks.lines = b.lines :=
  congrArg (fun block => (block.map fun block => block.lines.toList).getD [])
    ((Extends.withBlocks b).blocks _ ready.current_lt)

theorem Ready.withBlocks (ready : b.Ready) : b.withBlocks.Ready := by
  refine ⟨?_, ready.slotBound, ready.slotOrder, ready.addressable⟩
  rw [← ready.isOpen]
  exact congrArg _ ((Extends.withBlocks b).blocks _ ready.current_lt)

/-- Code can go on in a block that is there and has not ended. -/
theorem Ready.goTo (ready : b.Ready) (terminator : Terminator) {entry : Label} {block : CodeBlock}
    (found : b.function.blocks[entry.index]? = some block) (unended : block.terminator = none)
    (away : entry.index ≠ b.current.index) : (b.goTo terminator entry).Ready := by
  refine ⟨?_, ready.slotBound, ready.slotOrder, ready.addressable⟩
  have found' := ((Extends.goTo b terminator entry).blocks _ away).trans found
  rw [block?, show (b.goTo terminator entry).current = entry from rfl, found', Option.map_some, unended]

/-- Where the emission of the first side of a branch starts. -/
def thenStart (b : Builder) (cond : Reg) : Builder :=
  b.withBlocks.goTo (.branch cond ⟨b.function.blocks.size⟩ ⟨b.function.blocks.size + 1⟩) ⟨b.function.blocks.size⟩

theorem Ready.opened_block (ready : b.Ready) (new : b.function.blocks.size ≤ i)
    (bound : i < b.function.blocks.size + 3) : (b.withBlocks.goTo terminator label).function.blocks[i]? = some {} := by
  have current := ready.current_lt
  exact ((Extends.goTo b.withBlocks _ _).blocks i (by change i ≠ b.current.index; omega)).trans
    (withBlocks_block new bound)

theorem Ready.opened (ready : b.Ready) : (b.withBlocks.goTo terminator ⟨b.function.blocks.size⟩).Ready := by
  have current := ready.current_lt
  exact ready.withBlocks.goTo _ (withBlocks_block (Nat.le_refl _) (Nat.lt_add_of_pos_right (by decide))) rfl
    (by change b.function.blocks.size ≠ b.current.index; omega)

theorem Ready.opened_lines (ready : b.Ready) : (b.withBlocks.goTo terminator ⟨b.function.blocks.size⟩).lines = [] :=
  lines_of_block (ready.opened_block (Nat.le_refl _) (Nat.lt_add_of_pos_right (by decide)))

/-- A construct leaves the current block for blocks of its own and ends in one of these. -/
theorem Ready.grows_of_left (ready : b.Ready)
    (later : (b.withBlocks.goTo terminator label).Extends b' fun i => i < b.function.blocks.size) (ready' : b'.Ready)
    (position : b.function.blocks.size ≤ b'.current.index) : b.Grows b' := by
  have bound := ready.current_lt
  obtain ⟨block, found, unended, lines⟩ := ready.block
  have first : b.Extends (b.withBlocks.goTo terminator label) b.Elsewhere :=
    ((Extends.withBlocks b).mono fun _ elsewhere => elsewhere.1).trans
      ((Extends.goTo b.withBlocks _ _).mono fun _ elsewhere => elsewhere.2)
  have found' : b.withBlocks.function.blocks[b.withBlocks.current.index]? = some block :=
    ((Extends.withBlocks b).blocks _ bound).trans found
  exact { first.trans (later.mono fun _ elsewhere => elsewhere.1) with
    ready := ready'
    current := ⟨_, [], (later.blocks _ bound).trans (goTo_block _ _ found' unended), by simp [lines], by simp,
      Or.inr ⟨position, rfl⟩⟩ }

/-- A construct has three blocks, from number `n` on. Its first part starts in the first of them. -/
structure FirstPart (n : Nat) (start stop : Builder) : Prop where
  current : start.current.index = n
  size : start.function.blocks.size = n + 3
  block : ∀ i, n < i → i < n + 3 → start.function.blocks[i]? = some {}
  grows : start.Grows stop

namespace FirstPart

theorem thenStart (ready : b.Ready) (grows : (b.thenStart cond).Grows stop) :
    FirstPart b.function.blocks.size (b.thenStart cond) stop :=
  ⟨rfl, by simp [Builder.thenStart], fun _ new bound => ready.opened_block (Nat.le_of_lt new) bound, grows⟩

variable {start stop last : Builder} (part : FirstPart n start stop)
include part

/-- It ends in the block it starts in or in one that is newer than those of the construct. -/
theorem stop_current : stop.current.index = n ∨ n + 3 ≤ stop.current.index := by
  rcases part.grows.current_or_new with same | new
  · exact Or.inl (by rw [same, part.current])
  · exact Or.inr (by rwa [part.size] at new)

theorem stop_block (new : n < i) (bound : i < n + 3) : stop.function.blocks[i]? = some {} :=
  (part.grows.blocks i ⟨by rwa [part.size], by rw [part.current]; omega⟩).trans (part.block i new bound)

theorem next_block (new : n < i) (bound : i < n + 3) :
    (stop.goTo terminator label).function.blocks[i]? = some {} := by
  have current := part.stop_current
  exact ((Extends.goTo stop _ _).blocks _ (by omega)).trans (part.stop_block new bound)

theorem next_ready : (stop.goTo terminator ⟨n + 1⟩).Ready := by
  have current := part.stop_current
  exact part.grows.ready.goTo _ (part.stop_block (Nat.lt_succ_self _) (by simp)) rfl
    (by change n + 1 ≠ stop.current.index; omega)

theorem next_lines : (stop.goTo terminator ⟨n + 1⟩).lines = [] :=
  lines_of_block (part.next_block (Nat.lt_succ_self _) (Nat.add_lt_add_left (by decide) _))

variable (second : (stop.goTo terminator ⟨n + 1⟩).Grows last)
include second

/-- The second part starts in the second block. -/
theorem last_current : last.current.index = n + 1 ∨ n + 3 ≤ last.current.index := by
  have size := part.grows.blockCount
  rw [part.size] at size
  rcases second.current_or_new with same | new
  · exact Or.inl (by rw [same]; rfl)
  · exact Or.inr (Nat.le_trans size (by simpa using new))

theorem last_block (other : i ≠ n + 1) (bound : i < n + 3) :
    last.function.blocks[i]? = (stop.goTo terminator ⟨n + 1⟩).function.blocks[i]? := by
  have size := part.grows.blockCount
  rw [part.size] at size
  exact second.blocks i ⟨by rw [goTo_size]; omega, other⟩

theorem exit_block (other : i ≠ n + 1) (bound : i < n + 3) : (last.goTo terminator' label).function.blocks[i]? =
    (stop.goTo terminator ⟨n + 1⟩).function.blocks[i]? := by
  have current := part.last_current second
  exact ((Extends.goTo last _ _).blocks _ (by omega)).trans (part.last_block second other bound)

theorem exit_ready : (last.goTo terminator' ⟨n + 2⟩).Ready := by
  have current := part.last_current second
  exact second.ready.goTo _ ((part.last_block second (i := n + 2) (by omega) (by omega)).trans
    (part.next_block (by omega) (by omega))) rfl (by change n + 2 ≠ last.current.index; omega)

theorem exit_empty : (last.goTo terminator' label).function.blocks[n + 2]? = some {} :=
  (part.exit_block second (by omega) (by omega)).trans (part.next_block (by omega) (by omega))

/-- The blocks that were there before the construct stay as they are. -/
theorem extends_exit : start.Extends (last.goTo terminator' label) fun i => i < n := by
  have firstAway := part.stop_current
  have secondAway := part.last_current second
  refine .trans (part.grows.toExtends.mono fun i old => ?_) (.trans ((Extends.goTo stop _ _).mono fun i old => ?_)
    (.trans { second with blocks := fun i old => part.last_block second (by omega) (by omega) }
      ((Extends.goTo last _ _).mono fun i old => ?_)))
  · exact ⟨by rw [part.size]; omega, by rw [part.current]; omega⟩
  · omega
  · omega

end FirstPart

end Builder

/-- The register has the type. -/
abbrev Reg.Of (ty : CodeType) (r : Reg) (b : Builder) : Prop := b.function.typeOf? r = some ty

variable {types : List CodeType}

namespace Emit

open Builder

theorem typeOf_ok (emitted : typeOf r b = .ok ty b') : b.function.typeOf? r = some ty ∧ b' = b := by
  obtain ⟨_, _, ⟨⟩, second⟩ := bind_ran emitted
  cases found : b.function.typeOf? r with
  | none => rw [found] at second; cases second
  | some ty' => rw [found] at second; cases second; exact ⟨rfl, rfl⟩

/-- The type of a register is not changed by what is emitted after it. -/
theorem typeOf?_mono {g : Function} (more : f.types.toList <+: g.types.toList)
    (found : f.typeOf? r = some ty) : g.typeOf? r = some ty := by
  obtain ⟨_, types⟩ := more
  unfold Function.typeOf? at found ⊢
  rw [← Array.getElem?_toList] at found ⊢
  rw [← types, List.getElem?_append_left (List.getElem?_eq_some_iff.mp found).1, found]

theorem typeOf?_lt (found : f.typeOf? r = some ty) : r.index < f.types.size :=
  (Array.getElem?_eq_some_iff.mp found).1

/-- The registers have these types. -/
abbrev Typed (b : Builder) : List Reg → List CodeType → Prop := List.Forall₂ fun r ty => r.Of ty b

theorem Typed.mono (typed : Typed b regs types) (more : b.function.types.toList <+: b'.function.types.toList) :
    Typed b' regs types :=
  typed.imp fun _ _ => typeOf?_mono more

theorem Typed.unique (typed : Typed b regs types) (typed' : Typed b regs types') : types = types' := by
  induction typed generalizing types' with
  | nil => cases typed'; rfl
  | cons head _ ih =>
    cases typed' with
    | cons head' tail' => rw [ih tail', Option.some.inj (head.symm.trans head')]

theorem typed_regsFrom {before : List CodeType} (all : f.types.toList = before ++ types) :
    List.Forall₂ (fun r ty => f.typeOf? r = some ty) (regsFrom before.length types.length) types := by
  induction types generalizing before with
  | nil => exact .nil
  | cons ty types ih =>
    have rest := @ih (before ++ [ty]) (by rw [all, List.append_assoc]; rfl)
    rw [List.length_append] at rest
    refine .cons ?_ rest
    rw [Function.typeOf?, ← Array.getElem?_toList, all]
    simp

theorem Typed.of_phis (adds : b.AddsPhis b' regs entries) : Typed b' regs (entries.map Prod.fst) := by
  have typed := typed_regsFrom adds.appends.newTypes
  rwa [Array.length_toList, List.length_map, ← adds.regs_eq] at typed

theorem checkMergeTypes_ok (emitted : checkMergeTypes position first second b = .ok () b')
    (lengths : first.length = second.length) :
    b' = b ∧ ∃ types, Typed b first types ∧ Typed b second types := by
  induction first generalizing position second with
  | nil =>
    cases second with
    | nil => cases emitted; exact ⟨rfl, [], .nil, .nil⟩
    | cons => cases lengths
  | cons r first ih =>
    cases second with
    | nil => cases lengths
    | cons s second =>
      obtain ⟨ty, c, atFirst, more⟩ := bind_ran emitted
      obtain ⟨found, same⟩ := typeOf_ok atFirst
      obtain ⟨_, d, atSecond, rest⟩ := bind_ran more
      obtain ⟨found', same'⟩ := typeOf_ok atSecond
      rw [same', same] at rest
      rw [same] at found'
      split at rest
      next equal =>
        subst equal
        obtain ⟨unchanged, types, left, right⟩ := ih rest (by simpa using lengths)
        exact ⟨unchanged, ty :: types, .cons found left, .cons found' right⟩
      · cases rest

theorem checkMerge_ok (emitted : checkMerge first second b = .ok () b') :
    b' = b ∧ ∃ types, Typed b first types ∧ Typed b second types := by
  unfold checkMerge at emitted
  split at emitted
  · obtain ⟨_, _, ⟨⟩, _⟩ := bind_ran emitted
  next lengths => exact checkMergeTypes_ok emitted (not_not.mp lengths)

/-- The entries of the phis that merge two lists of values. -/
def mergeEntries (firstEnd secondEnd : Label) :
    List CodeType → List Reg → List Reg → List (CodeType × List (Label × Reg))
  | ty :: types, r :: first, s :: second =>
    (ty, [(firstEnd, r), (secondEnd, s)]) :: mergeEntries firstEnd secondEnd types first second
  | _, _, _ => []

theorem mergeValues_ok (ready : b.Ready) (typed : Typed b first types) (lengths : first.length = second.length)
    (emitted : mergeValues firstEnd secondEnd first second b = .ok merged b') :
    b.AddsPhis b' merged (mergeEntries firstEnd secondEnd types first second) := by
  induction first generalizing second merged types b with
  | nil =>
    cases typed
    cases second with
    | nil => cases emitted; exact .nil ready
    | cons => cases lengths
  | cons r first ih =>
    cases second with
    | nil => cases lengths
    | cons s second =>
      cases typed with
      | @cons _ ty _ types found typed =>
      obtain ⟨ty', c, atFirst, more⟩ := bind_ran emitted
      obtain ⟨found', same⟩ := typeOf_ok atFirst
      obtain rfl : ty = ty' := Option.some.inj (found.symm.trans found')
      rw [same] at more
      obtain ⟨p, d, ⟨⟩, more'⟩ := bind_ran more
      obtain ⟨_, e, others, ⟨⟩⟩ := bind_ran more'
      have appends := Appends.define ready ty (.phi ty [(firstEnd, r), (secondEnd, s)])
      exact .cons ready (ih (appends.ready ready) (Typed.mono typed appends.extending.types) (by simpa using lengths) others)

theorem between_ok (emitted : between entry exit body b = .ok (x, last) b') :
    ∃ c, body { b with current := entry } = .ok x c ∧ last = c.current ∧ b' = c.terminate (.jump exit) := by
  unfold between at emitted
  split at emitted
  next c found =>
    cases emitted
    exact ⟨c, found, rfl, rfl⟩
  · cases emitted

/-- The steps in which a branch is emitted. -/
structure Branches (cond : Reg) (thenCode : Emit (List Reg × α)) (elseCode : α → Emit (List Reg × β))
    (b : Builder) (merged : List Reg) (y : β) (b' : Builder) where
  ready : b.Ready
  thenValues : List Reg
  x : α
  thenEnd : Builder
  elseValues : List Reg
  elseEnd : Builder
  types : List CodeType
  thenSide : thenCode (b.thenStart cond) = .ok (thenValues, x) thenEnd
  elseSide : elseCode x (thenEnd.goTo (.jump ⟨b.function.blocks.size + 2⟩) ⟨b.function.blocks.size + 1⟩) =
    .ok (elseValues, y) elseEnd
  thenTyped : Typed elseEnd thenValues types
  elseTyped : Typed elseEnd elseValues types
  merging : mergeValues thenEnd.current elseEnd.current thenValues elseValues
    (elseEnd.goTo (.jump ⟨b.function.blocks.size + 2⟩) ⟨b.function.blocks.size + 2⟩) = .ok merged b'

theorem between_of_ok (ends : body { b with current := entry } = .ok x c) :
    between entry exit body b = .ok (x, c.current) (c.terminate (.jump exit)) := by
  simp only [between, ends]

theorem between_of_error (failed : body { b with current := entry } = .error fault c) :
    between entry exit body b = .error fault (c.goTo (.jump exit) exit) := by
  simp only [between, failed]
  rfl

/-- The emission of a branch: one side after the other, and then the phis. -/
theorem ifThenElseWith_eq (cond : Reg) (thenCode : Emit (List Reg × α)) (elseCode : α → Emit (List Reg × β)) (b : Builder) :
    ifThenElseWith cond thenCode elseCode b =
      let merge : Label := ⟨b.function.blocks.size + 2⟩
      match thenCode (b.thenStart cond) with
      | .error fault c => .error fault (c.goTo (.jump merge) merge)
      | .ok (thenValues, a) c => match elseCode a (c.goTo (.jump merge) ⟨b.function.blocks.size + 1⟩) with
        | .error fault d => .error fault (d.goTo (.jump merge) merge)
        | .ok (elseValues, y) d => (do
          checkMerge thenValues elseValues
          return (← mergeValues c.current d.current thenValues elseValues, y)) (d.goTo (.jump merge) merge) := by
  have second : b.function.blocks.size + 1 = (b.function.blocks.push {}).size := by simp
  have third : b.function.blocks.size + 2 = ((b.function.blocks.push {}).push {}).size := by simp
  rw [Builder.thenStart, second, third]
  have sides : ifThenElseWith cond thenCode elseCode b = (do
      let thenBlock : Label := ⟨b.function.blocks.size⟩
      let elseBlock : Label := ⟨(b.function.blocks.push {}).size⟩
      let merge : Label := ⟨((b.function.blocks.push {}).push {}).size⟩
      let first ← between thenBlock merge thenCode
      let second ← between elseBlock merge (elseCode first.1.2)
      enter merge
      checkMerge first.1.1 second.1.1
      return (← mergeValues first.2 second.2 first.1.1 second.1.1, second.1.2))
        (b.withBlocks.terminate (.branch cond ⟨b.function.blocks.size⟩ ⟨(b.function.blocks.push {}).size⟩)) := rfl
  rw [sides]
  dsimp only
  split
  next fault c first => exact bind_of_error (between_of_error first)
  next thenValues a c first =>
    refine (bind_of_ok (between_of_ok first)).trans ?_
    split
    next fault d second => exact bind_of_error (between_of_error second)
    next elseValues y d second => exact bind_of_ok (between_of_ok second)

theorem ifThenElseWith_ok (ready : b.Ready) (emitted : ifThenElseWith cond thenCode elseCode b = .ok (merged, y) b') :
    Nonempty (Branches cond thenCode elseCode b merged y b') := by
  rw [ifThenElseWith_eq] at emitted
  dsimp only at emitted
  split at emitted
  · cases emitted
  next thenValues x thenEnd thenSide =>
    split at emitted
    · cases emitted
    next elseValues _ elseEnd elseSide =>
      obtain ⟨_, _, checked, afterCheck⟩ := bind_ran emitted
      obtain ⟨rfl, types, thenTyped, elseTyped⟩ := checkMerge_ok checked
      obtain ⟨_, _, merging, ⟨⟩⟩ := bind_ran afterCheck
      exact ⟨{ ready, thenValues, x, thenEnd, elseValues, elseEnd, types, thenTyped, elseTyped, thenSide, elseSide, merging }⟩

namespace Branches

variable {cond : Reg} {thenCode : Emit (List Reg × α)} {elseCode : α → Emit (List Reg × β)} {b b' : Builder}
  {merged : List Reg} {y : β}

/-- Where the emission of the first side starts. -/
def thenStart (_ : Branches cond thenCode elseCode b merged y b') : Builder := b.thenStart cond

def elseStart (s : Branches cond thenCode elseCode b merged y b') : Builder :=
  s.thenEnd.goTo (.jump ⟨b.function.blocks.size + 2⟩) ⟨b.function.blocks.size + 1⟩

/-- Where the two sides have been emitted and the phis that merge their values have not. -/
def mergeStart (s : Branches cond thenCode elseCode b merged y b') : Builder :=
  s.elseEnd.goTo (.jump ⟨b.function.blocks.size + 2⟩) ⟨b.function.blocks.size + 2⟩

variable (s : Branches cond thenCode elseCode b merged y b')

theorem thenStart_ready : s.thenStart.Ready := s.ready.opened

variable [Growing thenCode]

theorem part : FirstPart b.function.blocks.size s.thenStart s.thenEnd :=
  .thenStart s.ready (Growing.grows s.thenStart_ready s.thenSide)

theorem elseStart_ready : s.elseStart.Ready := s.part.next_ready

variable [∀ x, Growing (elseCode x)]

theorem elseGrows : s.elseStart.Grows s.elseEnd := Growing.grows s.elseStart_ready s.elseSide

theorem mergeStart_ready : s.mergeStart.Ready := s.part.exit_ready s.elseGrows

theorem mergeStart_lines : s.mergeStart.lines = [] := lines_of_block (s.part.exit_empty s.elseGrows)

theorem merges : s.mergeStart.AddsPhis b' merged
    (mergeEntries s.thenEnd.current s.elseEnd.current s.types s.thenValues s.elseValues) :=
  mergeValues_ok s.mergeStart_ready s.thenTyped
    (s.thenTyped.length_eq.trans s.elseTyped.length_eq.symm) s.merging

include s in
theorem grows : b.Grows b' := by
  have appends := s.merges.appends
  refine s.ready.grows_of_left ((s.part.extends_exit s.elseGrows).trans (appends.extending.mono fun i old => ?_))
    (appends.ready s.mergeStart_ready) (by rw [appends.position]; exact Nat.le_add_right _ 2)
  change i ≠ b.function.blocks.size + 2
  omega

section

variable {p : Program} (within : b'.Within f p)
include s within

/-- The second side ends in a jump to where the values are merged. -/
theorem elseEnd_within : s.elseEnd.Within f p ∧ s.elseEnd.EndsWith f (.jump ⟨b.function.blocks.size + 2⟩) :=
  Within.of_goTo s.elseGrows.ready (within.toSealed.of_extends s.mergeStart_ready s.merges.appends.extending
    fun _ elsewhere => elsewhere.2)

theorem elseStart_within : s.elseStart.Within f p :=
  (s.elseEnd_within within).1.of_grows s.elseStart_ready s.elseGrows

theorem thenEnd_within : s.thenEnd.Within f p ∧ s.thenEnd.EndsWith f (.jump ⟨b.function.blocks.size + 2⟩) :=
  Within.of_goTo s.part.grows.ready (s.elseStart_within within).toSealed

theorem thenStart_within : s.thenStart.Within f p :=
  (s.thenEnd_within within).1.of_grows s.thenStart_ready s.part.grows

end

end Branches

section

theorem Gives.ifThenElseWith {elseCode : α → Emit (List Reg × β)} {p : α → Prop} {q : β → Prop}
    (first : Gives thenCode fun result => p result.2) (second : ∀ x, p x → Gives (elseCode x) fun result => q result.2) :
    Gives (Emit.ifThenElseWith cond thenCode elseCode) fun result => q result.2 := by
  rintro b ⟨_, y⟩ b' emitted
  rw [ifThenElseWith_eq] at emitted
  dsimp only at emitted
  split at emitted
  · cases emitted
  next thenSide =>
    split at emitted
    · cases emitted
    next elseSide =>
      obtain ⟨_, _, _, rest⟩ := bind_ran emitted
      obtain ⟨_, _, _, ⟨⟩⟩ := bind_ran rest
      exact (second _ (first _ _ _ thenSide) _ _ _ elseSide :)

theorem Gives.ifThen {post : α → Prop} (gives : Gives code post) : Gives (Emit.ifThen cond code) post := by
  have inner : Gives (([], ·) <$> code : Emit (List Reg × α)) fun result => post result.2 := by
    intro b result b' emitted
    obtain ⟨x, c, emitted1, ⟨⟩⟩ := bind_ran ((map_eq_pure_bind _ code) ▸ emitted)
    exact gives _ _ _ emitted1
  exact (Gives.ifThenElseWith inner fun x holds => .pure holds).bind fun _ holds => .pure holds

end

end Emit

end QueryEngine
