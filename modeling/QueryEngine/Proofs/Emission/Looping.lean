import QueryEngine.Proofs.Emission.Branching

namespace QueryEngine

open List

variable {edge : Label × Reg} {entries : List (CodeType × List (Label × Reg))} {init carried next : List Reg}
  {start : Nat} {b b' : Builder}

namespace Builder

/-- The phis of a loop once the edge from its latch has been added to each of them. -/
def latchEntries (latch : Label) : List (CodeType × List (Label × Reg)) → List Reg → List (CodeType × List (Label × Reg))
  | (ty, incoming) :: entries, r :: next => (ty, incoming ++ [(latch, r)]) :: latchEntries latch entries next
  | entries, _ => entries

theorem latchEntries_refines (latch : Label) (start : Nat) (entries : List (CodeType × List (Label × Reg)))
    (next : List Reg) : Line.RefinesAll (phiLines start entries) (phiLines start (latchEntries latch entries next)) := by
  induction entries generalizing start next with
  | nil => exact .nil
  | cons entry entries ih =>
    cases next with
    | nil => exact .refl _
    | cons r next => exact .cons (.phi _ _ _ _) (ih (start + 1) next)

/-- The lines of a block define no register from number `start` on. -/
def DefinesBelow (start : Nat) (lines : List Line) : Prop :=
  ∀ line ∈ lines, ∀ r, line.result = some r → r.index < start

/-- The change of one line by which a phi gets an edge. -/
def latchLine (r : Reg) (edge : Label × Reg) (line : Line) : Line :=
  match line.instruction with
  | .phi ty incoming =>
    if line.result = some r then { line with instruction := .phi ty (incoming ++ [edge]) } else line
  | _ => line

theorem addIncoming_eq (b : Builder) (label : Label) (r : Reg) (edge : Label × Reg) : b.addIncoming label r edge =
      b.modifyBlock label fun block => { block with lines := block.lines.map (latchLine r edge) } :=
  rfl

theorem latchLine_of_ne (other : line.result ≠ some r) : latchLine r edge line = line := by
  unfold latchLine
  split
  · rw [if_neg other]
  · rfl

theorem latchLine_of_plain (plain : line.instruction.isPhi = false) : latchLine r edge line = line := by
  unfold latchLine
  split
  next found =>
    rw [found] at plain
    cases plain
  · rfl

theorem map_latchLine_phiLines {r : Reg} (before : r.index < start) :
    (phiLines start entries).map (latchLine r edge) = phiLines start entries := by
  induction entries generalizing start with
  | nil => rfl
  | cons entry entries ih =>
    have other : (some ⟨start⟩ : Option Reg) ≠ some r := by
      rintro ⟨⟩
      exact Nat.lt_irrefl _ before
    rw [phiLines, map_cons, ih (by omega), latchLine_of_ne other]

end Builder

namespace Emit

open Builder

variable {α β : Type}

/-- The entries of the phis that carry values into a loop. -/
def carryEntries (preheader : Label) : List CodeType → List Reg → List (CodeType × List (Label × Reg))
  | ty :: types, r :: values => (ty, [(preheader, r)]) :: carryEntries preheader types values
  | _, _ => []

theorem carryValues_ok (ready : b.Ready) (emitted : carryValues preheader init b = .ok carried b') :
    ∃ types, Typed b' init types ∧ b.AddsPhis b' carried (carryEntries preheader types init) := by
  induction init generalizing carried b with
  | nil => cases emitted; exact ⟨[], .nil, .nil ready⟩
  | cons r init ih =>
    obtain ⟨ty, c, atFirst, more⟩ := bind_ran emitted
    obtain ⟨found, same⟩ := typeOf_ok atFirst
    rw [same] at more
    obtain ⟨p, d, ⟨⟩, more'⟩ := bind_ran more
    obtain ⟨_, e, others, ⟨⟩⟩ := bind_ran more'
    have appends := Appends.define ready ty (.phi ty [(preheader, r)])
    obtain ⟨types, typed, adds⟩ := ih (appends.ready ready) others
    have adds' := AddsPhis.cons ready adds
    exact ⟨ty :: types, .cons (typeOf?_mono adds'.appends.extending.types found) typed, adds'⟩

/-- Where the phis stand that `addLatch` gives one more edge. -/
structure Latched (header latch : Label) (start : Nat) (entries : List (CodeType × List (Label × Reg)))
    (next : List Reg) (before rest : List Line) (b b' : Builder) : Prop where
  others : b.Extends b' fun i => i ≠ header.index
  position : b'.current = b.current
  size : b'.function.blocks.size = b.function.blocks.size
  slots : b'.function.slots = b.function.slots
  types : b'.function.types = b.function.types
  program : b'.program = b.program
  params : b'.function.params = b.function.params
  block : ∀ block, b.function.blocks[header.index]? = some block →
    block.lines.toList = before ++ (phiLines start entries ++ rest) →
    ∃ block', b'.function.blocks[header.index]? = some block' ∧ block'.terminator = block.terminator ∧
      block'.lines.toList = before ++ (phiLines start (latchEntries latch entries next) ++ rest)

theorem addLatch_ok {header latch : Label} {before rest : List Line}
    (below : DefinesBelow start before) (plain : ∀ line ∈ rest, line.instruction.isPhi = false)
    (regs : carried = regsFrom start entries.length) (emitted : addLatch header latch carried next b = .ok () b') :
    Latched header latch start entries next before rest b b' := by
  subst regs
  induction entries generalizing start next before b with
  | nil =>
    cases emitted
    exact ⟨.refl _ _, rfl, rfl, rfl, rfl, rfl, rfl, fun block found lines => ⟨block, found, rfl, lines⟩⟩
  | cons entry entries ih =>
    obtain ⟨ty, incoming⟩ := entry
    cases next with
    | nil =>
      cases emitted
      exact ⟨.refl _ _, rfl, rfl, rfl, rfl, rfl, rfl, fun block found lines => ⟨block, found, rfl, lines⟩⟩
    | cons r next =>
      obtain ⟨_, c, ⟨⟩, more⟩ := bind_ran emitted
      have below' : DefinesBelow (start + 1) (before ++ [⟨some ⟨start⟩, .phi ty (incoming ++ [(latch, r)])⟩]) := by
        intro line member result same
        rcases mem_append.mp member with old | new
        · exact Nat.lt_succ_of_lt (below line old result same)
        · rw [mem_singleton.mp new] at same
          cases same
          exact Nat.lt_succ_self start
      have later := ih below' more
      have first : b.Extends (b.addIncoming header ⟨start⟩ (latch, r)) fun i => i ≠ header.index :=
        { Extends.refl b fun _ => True with
          blockCount := by simp [addIncoming, modifyBlock]
          blocks := fun i away => by
            simp [addIncoming, modifyBlock, Array.getElem?_modify, Ne.symm away] }
      refine ⟨first.trans later.others, later.position, ?_, later.slots, later.types, later.program,
        later.params, ?_⟩
      · rw [later.size]
        simp [addIncoming, modifyBlock]
      · intro block found lines
        have unchanged : before.map (latchLine ⟨start⟩ (latch, r)) = before := by
          refine (map_congr_left (g := id) fun line member => latchLine_of_ne fun same => ?_).trans (map_id _)
          exact Nat.lt_irrefl _ (below line member ⟨start⟩ same)
        have unchanged' : rest.map (latchLine ⟨start⟩ (latch, r)) = rest :=
          (map_congr_left (g := id) fun line member => latchLine_of_plain (plain line member)).trans (map_id _)
        have changed : latchLine ⟨start⟩ (latch, r) ⟨some ⟨start⟩, .phi ty incoming⟩ =
            ⟨some ⟨start⟩, .phi ty (incoming ++ [(latch, r)])⟩ := by simp [latchLine]
        obtain ⟨block', found', terminator, lines'⟩ := later.block
          { block with lines := block.lines.map (latchLine ⟨start⟩ (latch, r)) }
          (by simp [addIncoming_eq, modifyBlock, Array.getElem?_modify, found])
          (by simp only [Array.toList_map, lines, map_append, unchanged, unchanged', phiLines, map_cons,
            changed, map_latchLine_phiLines (Nat.lt_succ_self start), append_assoc, cons_append,
            nil_append])
        refine ⟨block', found', terminator, ?_⟩
        rw [lines']
        simp [latchEntries, phiLines]

/-- The steps in which a loop is emitted. -/
structure Loops (init : List Reg) (cond : List Reg → Emit (Reg × α)) (body : α → List Reg → Emit (List Reg × β))
    (b : Builder) (carried : List Reg) (y : β) (b' : Builder) where
  ready : b.Ready
  header : Builder
  continues : Reg
  x : α
  condEnd : Builder
  next : List Reg
  bodyEnd : Builder
  types : List CodeType
  carrying : carryValues b.current init (b.withBlocks.goTo (.jump ⟨b.function.blocks.size⟩)
    ⟨b.function.blocks.size⟩) = .ok carried header
  condition : cond carried header = .ok (continues, x) condEnd
  bodySide : body x carried (condEnd.goTo (.branch continues ⟨b.function.blocks.size + 1⟩
    ⟨b.function.blocks.size + 2⟩) ⟨b.function.blocks.size + 1⟩) = .ok (next, y) bodyEnd
  carriedTyped : Typed bodyEnd carried types
  nextTyped : Typed bodyEnd next types
  latching : addLatch ⟨b.function.blocks.size⟩ bodyEnd.current carried next
    (bodyEnd.goTo (.jump ⟨b.function.blocks.size⟩) ⟨b.function.blocks.size + 2⟩) = .ok () b'

theorem loopCondition_ok {exit : Label} {cond : Emit α} {x : α}
    (emitted : loopCondition exit cond b = .ok x b') : cond b = .ok x b' := by
  unfold loopCondition at emitted
  split at emitted
  next found =>
    cases emitted
    exact found
  · cases emitted

theorem whileLoopWith_ok {cond : List Reg → Emit (Reg × α)} {body : α → List Reg → Emit (List Reg × β)}
    {y : β} (ready : b.Ready) (emitted : whileLoopWith init cond body b = .ok (carried, y) b') :
    Nonempty (Loops init cond body b carried y b') := by
  obtain ⟨header, _, ⟨⟩, afterHeader⟩ := bind_ran emitted
  obtain ⟨_, _, ⟨⟩, afterBody⟩ := bind_ran afterHeader
  obtain ⟨_, _, ⟨⟩, afterExit⟩ := bind_ran afterBody
  obtain ⟨_, _, ⟨⟩, afterRead⟩ := bind_ran afterExit
  obtain ⟨_, _, ⟨⟩, afterJump⟩ := bind_ran afterRead
  obtain ⟨_, _, ⟨⟩, afterEnter⟩ := bind_ran afterJump
  obtain ⟨_, c, carrying, afterCarry⟩ := bind_ran afterEnter
  obtain ⟨⟨continues, x⟩, d, conditioned, afterCondition⟩ := bind_ran afterCarry
  have condition := loopCondition_ok conditioned
  obtain ⟨_, _, ⟨⟩, afterBranch⟩ := bind_ran afterCondition
  obtain ⟨⟨⟨next, _⟩, _⟩, _, bodyBetween, afterSide⟩ := bind_ran afterBranch
  obtain ⟨e, bodySide, rfl, rfl⟩ := between_ok bodyBetween
  obtain ⟨_, _, ⟨⟩, atExit⟩ := bind_ran afterSide
  obtain ⟨_, _, checked, afterCheck⟩ := bind_ran atExit
  obtain ⟨rfl, types, carriedTyped, nextTyped⟩ := checkMerge_ok checked
  obtain ⟨_, _, latching, ⟨⟩⟩ := bind_ran afterCheck
  have second : (⟨b.function.blocks.size + 1⟩ : Label) = ⟨(b.function.blocks.push {}).size⟩ := by simp
  have third : (⟨b.function.blocks.size + 2⟩ : Label) = ⟨((b.function.blocks.push {}).push {}).size⟩ := by simp
  exact ⟨{
    ready, header := c, continues, x, condEnd := d, next, bodyEnd := e, types, carriedTyped, nextTyped, condition
    carrying := carrying
    bodySide := by rw [second, third]; exact bodySide
    latching := by rw [third]; exact latching }⟩

namespace Loops

variable {init : List Reg} {cond : List Reg → Emit (Reg × α)} {body : α → List Reg → Emit (List Reg × β)}
  {b b' : Builder} {carried : List Reg} {y : β}

/-- The header of the loop before its phis are emitted. -/
def entry (_ : Loops init cond body b carried y b') : Builder :=
  b.withBlocks.goTo (.jump ⟨b.function.blocks.size⟩) ⟨b.function.blocks.size⟩

def bodyStart (s : Loops init cond body b carried y b') : Builder :=
  s.condEnd.goTo (.branch s.continues ⟨b.function.blocks.size + 1⟩ ⟨b.function.blocks.size + 2⟩)
    ⟨b.function.blocks.size + 1⟩

/-- Where the loop has been emitted and its phis have no edges from the end of the body yet. -/
def exitStart (s : Loops init cond body b carried y b') : Builder :=
  s.bodyEnd.goTo (.jump ⟨b.function.blocks.size⟩) ⟨b.function.blocks.size + 2⟩

variable (s : Loops init cond body b carried y b')

theorem entry_ready : s.entry.Ready := s.ready.opened

theorem entry_lines : s.entry.lines = [] := s.ready.opened_lines

theorem carries : ∃ types, Typed s.header init types ∧
    s.entry.AddsPhis s.header carried (carryEntries b.current types init) :=
  carryValues_ok s.entry_ready s.carrying

theorem header_current : s.header.current.index = b.function.blocks.size := by
  obtain ⟨_, _, adds⟩ := s.carries
  rw [adds.appends.position]
  rfl

theorem header_ready : s.header.Ready := by
  obtain ⟨_, _, adds⟩ := s.carries
  exact adds.appends.ready s.entry_ready

variable [∀ values, Growing (cond values)]

theorem part : FirstPart b.function.blocks.size s.header s.condEnd := by
  obtain ⟨types, _, adds⟩ := s.carries
  refine ⟨s.header_current, ?_, fun i new bound => ?_, Growing.grows s.header_ready s.condition⟩
  · rw [adds.appends.blockCount]
    simp [entry]
  · rw [adds.appends.others i (by change i ≠ b.function.blocks.size; omega)]
    exact s.ready.opened_block (Nat.le_of_lt new) bound

theorem bodyStart_ready : s.bodyStart.Ready := s.part.next_ready

/-- The header ends with the condition, unless that has blocks of its own. -/
theorem bodyStart_header : ∃ block rest terminator, s.bodyStart.function.blocks[b.function.blocks.size]? = some block ∧
    block.terminator = some terminator ∧ block.lines.toList = s.header.lines ++ rest ∧
      ∀ line ∈ rest, line.instruction.isPhi = false := by
  obtain ⟨block, rest, found, lines, plain, state⟩ := s.part.grows.current
  rw [s.header_current] at found
  rcases state with same | ⟨new, ended⟩
  · have atHeader : s.condEnd.current.index = b.function.blocks.size := by rw [same, s.header_current]
    obtain ⟨block', found', unended, _⟩ := s.part.grows.ready.block
    rw [atHeader, found] at found'
    cases found'
    have ends := goTo_block (.branch s.continues ⟨b.function.blocks.size + 1⟩ ⟨b.function.blocks.size + 2⟩)
      ⟨b.function.blocks.size + 1⟩ (atHeader ▸ found) unended
    rw [atHeader] at ends
    exact ⟨_, rest, _, ends, rfl, lines, plain⟩
  · obtain ⟨terminator, ends⟩ := Option.isSome_iff_exists.mp ended
    rw [s.part.size] at new
    refine ⟨block, rest, terminator, ?_, ends, lines, plain⟩
    exact ((Extends.goTo s.condEnd _ _).blocks _ (by omega)).trans found

variable [∀ x values, Growing (body x values)]

theorem bodyGrows : s.bodyStart.Grows s.bodyEnd := Growing.grows s.bodyStart_ready s.bodySide

/-- The header of the loop before and after its phis get edges from the end of the body. -/
structure Header (types : List CodeType) (rest : List Line) (terminator : Terminator) (before after : CodeBlock) :
    Prop where
  typed : Typed s.header init types
  adds : s.entry.AddsPhis s.header carried (carryEntries b.current types init)
  others : s.exitStart.Extends b' fun i => i ≠ b.function.blocks.size
  position : b'.current = s.exitStart.current
  size : b'.function.blocks.size = s.exitStart.function.blocks.size
  program : b'.program = s.exitStart.program
  params : b'.function.params = s.exitStart.function.params
  slots : b'.function.slots = s.exitStart.function.slots
  sameTypes : b'.function.types = s.exitStart.function.types
  found : s.exitStart.function.blocks[b.function.blocks.size]? = some before
  found' : b'.function.blocks[b.function.blocks.size]? = some after
  ended : before.terminator = some terminator
  ended' : after.terminator = some terminator
  plain : ∀ line ∈ rest, line.instruction.isPhi = false
  lines : before.lines.toList = phiLines b.function.types.size (carryEntries b.current types init) ++ rest
  lines' : after.lines.toList = phiLines b.function.types.size
    (latchEntries s.bodyEnd.current (carryEntries b.current types init) s.next) ++ rest

theorem latched : ∃ types rest terminator before after, s.Header types rest terminator before after := by
  obtain ⟨types, typed, adds⟩ := s.carries
  obtain ⟨block, rest, terminator, found, ended, lines, plain⟩ := s.bodyStart_header
  have phis : s.header.lines = phiLines b.function.types.size (carryEntries b.current types init) := by
    rw [adds.appends.newLines, s.entry_lines]
    rfl
  rw [phis] at lines
  have below : DefinesBelow b.function.types.size [] := by
    intro line member
    cases member
  have latched := addLatch_ok below plain adds.regs_eq s.latching
  have atHeader : s.exitStart.function.blocks[b.function.blocks.size]? = some block :=
    (s.part.exit_block s.bodyGrows (by omega) (by omega)).trans found
  obtain ⟨block', found', terminator', lines'⟩ := latched.block block atHeader lines
  exact ⟨types, rest, terminator, block, block', {
    typed, adds, plain, lines, lines', found', ended
    others := latched.others
    position := latched.position
    size := latched.size
    program := latched.program
    params := latched.params
    slots := latched.slots
    sameTypes := latched.types
    found := atHeader
    ended' := terminator'.trans ended }⟩

include s

theorem exit_ready : b'.Ready := by
  obtain ⟨_, _, _, _, _, latch⟩ := s.latched
  have ready : s.exitStart.Ready := s.part.exit_ready s.bodyGrows
  refine ⟨?_, ?_, ?_, latch.others.program.addressable ready.addressable⟩
  · rw [block?, latch.position]
    rw [latch.others.blocks _ (by change b.function.blocks.size + 2 ≠ b.function.blocks.size; omega)]
    exact ready.isOpen
  · rw [latch.slots, latch.sameTypes]
    exact ready.slotBound
  · rw [latch.slots]
    exact ready.slotOrder

theorem exit_lines : b'.lines = [] := by
  obtain ⟨_, _, _, _, _, latch⟩ := s.latched
  refine lines_of_block ?_
  rw [latch.position, latch.others.blocks _ (by change b.function.blocks.size + 2 ≠ b.function.blocks.size; omega)]
  exact s.part.exit_empty s.bodyGrows

theorem grows : b.Grows b' := by
  obtain ⟨_, _, _, _, _, latch⟩ := s.latched
  have later := (latch.adds.appends.extending.mono fun _ => Nat.ne_of_lt).trans
    ((s.part.extends_exit s.bodyGrows).trans (latch.others.mono fun _ => Nat.ne_of_lt))
  exact s.ready.grows_of_left later s.exit_ready (by rw [latch.position]; exact Nat.le_add_right _ 2)

section

variable {f : Function} {p : Program} (within : b'.Within f p)
include within

theorem exitStart_sealed : s.exitStart.Sealed f p := by
  obtain ⟨_, _, _, _, _, latch⟩ := s.latched
  refine within.toSealed.of_refines latch.others latch.found latch.found' (latch.ended'.trans latch.ended.symm) ?_
  rw [latch.lines, latch.lines']
  exact rel_append (latchEntries_refines _ _ _ _) (Line.RefinesAll.refl _)

theorem bodyEnd_within : s.bodyEnd.Within f p ∧ s.bodyEnd.EndsWith f (.jump ⟨b.function.blocks.size⟩) :=
  Within.of_goTo s.bodyGrows.ready (s.exitStart_sealed within)

theorem bodyStart_within : s.bodyStart.Within f p := (s.bodyEnd_within within).1.of_grows s.bodyStart_ready s.bodyGrows

theorem condEnd_within : s.condEnd.Within f p ∧ s.condEnd.EndsWith f
    (.branch s.continues ⟨b.function.blocks.size + 1⟩ ⟨b.function.blocks.size + 2⟩) :=
  Within.of_goTo s.part.grows.ready (s.bodyStart_within within).toSealed

theorem header_within : s.header.Within f p := (s.condEnd_within within).1.of_grows s.header_ready s.part.grows

theorem start_within : b.withBlocks.Within f p ∧ b.withBlocks.EndsWith f (.jump ⟨b.function.blocks.size⟩) := by
  obtain ⟨_, _, _, _, _, latch⟩ := s.latched
  exact Within.of_goTo s.ready.withBlocks ((s.header_within within).toSealed.of_extends s.entry_ready
    latch.adds.appends.extending fun _ elsewhere => elsewhere.2)

end

end Loops

instance : growth.Structured where
  ifThenElseWith := by
    intro _ _ cond thenCode elseCode first second _ _ _ ready emitted
    have : Growing thenCode := ⟨first⟩
    have : ∀ x, Growing (elseCode x) := fun x => ⟨second x⟩
    obtain ⟨s⟩ := ifThenElseWith_ok ready emitted
    exact s.grows
  whileLoopWith := by
    intro _ _ init cond body first second _ _ _ ready emitted
    have : ∀ values, Growing (cond values) := fun values => ⟨first values⟩
    have : ∀ x values, Growing (body x values) := fun x values => ⟨second x values⟩
    obtain ⟨s⟩ := whileLoopWith_ok ready emitted
    exact s.grows

theorem Gives.whileLoopWith {cond : List Reg → Emit (Reg × α)} {body : α → List Reg → Emit (List Reg × β)}
    {p : α → Prop} {q : β → Prop} (first : ∀ values, Gives (cond values) fun result => p result.2)
    (second : ∀ x values, p x → Gives (body x values) fun result => q result.2) :
    Gives (Emit.whileLoopWith init cond body) fun result => q result.2 := by
  refine .after fun header => .after fun bodyBlock => .after fun exit => .after fun b0 => .after fun _ =>
    .after fun _ => .after fun carried => ?_
  have condition : Gives (loopCondition exit (cond carried)) fun result => p result.2 :=
    fun b result b' emitted => first carried _ _ _ (loopCondition_ok emitted)
  refine condition.bind fun (continues, x) holds => .after fun _ => ?_
  have bodyPart : Gives (between bodyBlock header (body x carried)) fun result => q result.1.2 := by
    rintro b ⟨result, _⟩ b' emitted
    obtain ⟨c, side, _⟩ := between_ok emitted
    exact second x carried holds _ _ _ side
  refine bodyPart.bind fun ((next, y), latch) holds' => ?_
  exact .after fun _ => .after fun _ => .after fun _ => .pure holds'

/-- What is known once the body of a loop has been emitted. -/
theorem Gives.whileLoop {cond : List Reg → Emit Reg} {body : List Reg → Emit (List Reg)} {fact : Prop}
    (gives : ∀ values, Gives (body values) fun _ => fact) : Gives (Emit.whileLoop init cond body) fun _ => fact := by
  have inner (values : List Reg) : Gives ((·, ()) <$> body values) fun _ => fact := by
    intro b result b' emitted
    obtain ⟨x, c, emitted1, _⟩ := bind_ran ((map_eq_pure_bind _ (body values)) ▸ emitted)
    exact gives values _ _ _ emitted1
  exact (Gives.whileLoopWith (p := fun _ => True) (q := fun _ => fact) (fun _ => .any _) fun _ values _ => inner values).bind
    fun _ holds => .pure holds

end Emit

end QueryEngine
