import QueryEngine.Proofs.Execution.Functions
import QueryEngine.Proofs.Memory.Ownership

namespace QueryEngine

open Emit List Routine Machine

/-- The slots lie apart between two offsets of the scratch arena, and the registers of a frame tell where. -/
structure Frame.Places (frame : Frame) (slots : List StackSlot) (first last : Nat) (places : Reg → Nat) : Prop where
  address : ∀ slot ∈ slots, 0 < slot.size → frame.value slot.address = Machine.scratchAddress (places slot.address)
  inside : ∀ slot ∈ slots, first ≤ places slot.address ∧ places slot.address + slot.size ≤ last
  apart : ∀ one ∈ slots, ∀ other ∈ slots, one.address.index ≠ other.address.index →
    places one.address + one.size ≤ places other.address ∨ places other.address + other.size ≤ places one.address

theorem Frame.Places.cons {frame : Frame} {slot : StackSlot} {slots : List StackSlot} {first middle last : Nat}
    {places : Reg → Nat} (rest : frame.Places slots middle last places)
    (others : ∀ other ∈ slots, slot.address.index < other.address.index)
    (address : 0 < slot.size → frame.value slot.address = scratchAddress first) (room : first + slot.size ≤ middle)
    (more : middle ≤ last) :
    frame.Places (slot :: slots) first last fun r => if r = slot.address then first else places r := by
  have old (other : StackSlot) (member : other ∈ slots) : other.address ≠ slot.address := by
    have later := others other member
    intro same
    rw [same] at later
    omega
  refine ⟨fun other member some => ?_, fun other member => ?_, fun one isOne other isOther different => ?_⟩
  · rcases mem_cons.mp member with rfl | member
    · rw [if_pos rfl]
      exact address some
    · rw [if_neg (old other member)]
      exact rest.address other member some
  · rcases mem_cons.mp member with rfl | member
    · rw [if_pos rfl]
      omega
    · rw [if_neg (old other member)]
      have range := rest.inside other member
      omega
  · rcases mem_cons.mp isOne with rfl | oneOld <;> rcases mem_cons.mp isOther with rfl | otherOld
    · exact absurd rfl different
    · rw [if_pos rfl, if_neg (old other otherOld)]
      have range := rest.inside other otherOld
      omega
    · rw [if_pos rfl, if_neg (old one oneOld)]
      have range := rest.inside one oneOld
      omega
    · rw [if_neg (old one oneOld), if_neg (old other otherOld)]
      exact rest.apart one oneOld other otherOld different

namespace Run

theorem slotAddress_ok (some : 0 < size) (room : m.taken + regionSize size ≤ scratchSpan) :
    slotAddress size m = .ok (scratchAddress m.taken) { m with taken := m.taken + regionSize size } := by
  have least := lt_regionSize size
  have span : scratchSpan = 2 ^ 61 := rfl
  have small : ¬(sizeLimit ≤ size + 7 ∨ Action.largestBuffer < (size + 7) / 8 * 8) := by
    simp only [sizeLimit, Action.largestBuffer]
    omega
  simp only [slotAddress, if_neg small, if_neg (Nat.ne_of_gt some), get_bind,
    m.newRegion?_eq room]
  rfl

/-- A slot without bytes takes no memory, any other one takes a region of its own. -/
theorem slotAddresses_ok {slots : List StackSlot} (m : Machine)
    (order : slots.Pairwise fun first second => first.address.index < second.address.index)
    (room : m.taken + 9 * (slots.map StackSlot.size).sum ≤ scratchSpan) :
    ∃ words taken, (slots.map StackSlot.size).mapM slotAddress m = .ok words { m with taken } ∧ m.taken ≤ taken ∧
      taken ≤ m.taken + 9 * (slots.map StackSlot.size).sum ∧ ∀ frame : Frame,
        (∀ index slot, slots[index]? = some slot → frame.value slot.address = words.getD index 0) →
        ∃ places, frame.Places slots m.taken taken places := by
  induction slots generalizing m with
  | nil => exact ⟨[], m.taken, rfl, Nat.le_refl _, by simp, fun _ _ => ⟨fun _ => 0, nofun, nofun, nofun⟩⟩
  | cons slot rest ih =>
    obtain ⟨first, order⟩ := pairwise_cons.mp order
    rw [map_cons, sum_cons] at room
    obtain ⟨a, taken1, placed, isAddress, lower, upper⟩ : ∃ a taken1, slotAddress slot.size m = .ok a { m with taken := taken1 } ∧
        (0 < slot.size → a = scratchAddress m.taken) ∧ m.taken + slot.size ≤ taken1 ∧
        taken1 ≤ m.taken + 9 * slot.size := by
      by_cases none : slot.size = 0
      · rw [none]
        exact ⟨8, m.taken, rfl, nofun, Nat.le_refl _, Nat.le_refl _⟩
      · have least := lt_regionSize slot.size
        have most := regionSize_le slot.size
        exact ⟨_, _, slotAddress_ok (by omega) (by omega), fun _ => rfl, by omega, by omega⟩
    obtain ⟨words, taken, others, more, most, lie⟩ := ih { m with taken := taken1 } order (by dsimp only; omega)
    dsimp only at more most
    refine ⟨a :: words, taken, ?_, by omega, by rw [map_cons, sum_cons]; omega, fun frame values => ?_⟩
    · rw [map_cons, mapM_cons, bind_of_ok placed, bind_of_ok others]
      rfl
    · obtain ⟨places, lie⟩ := lie frame fun index slot found => values (index + 1) slot found
      exact ⟨_, lie.cons first (fun some => (values 0 slot rfl).trans (isAddress some)) lower more⟩

end Run

/-- The finished function with the code of a builder, called without arguments. -/
def Host.called (b : Builder) (program : Program) (frame : Frame) (places : Reg → Nat) : Host where
  function := b.ending (.ret none)
  args := []
  program
  routines := Routine.run
  slots := frame.value
  places

/-- Code that is a function of its own, and that attains something wherever it runs, comes to an end in a machine of which
that holds. -/
theorem Program.function_attains (post : Machine → Prop) {code : Emit Unit} [Growing code] {program finished : Program}
    {name : String} {b : Builder} (addressable : program.Addressable)
    (emitted : code (Builder.start program name [] none) = .ok () b)
    (done : finish b = .ok finished) (m : Machine) (loaded : m.program = finished)
    (room : m.taken + 9 * (b.function.slots.toList.map StackSlot.size).sum ≤ scratchSpan)
    (attains : ∀ (host : Host) (s : Point) (taken : Nat), host.program = finished → host.Laid s.machine →
      s.machine = { m with taken } → taken ≤ m.taken + 9 * (b.function.slots.toList.map StackSlot.size).sum →
      host.Attains code s fun _ s' => post s'.machine) :
    ∃ m', post m' ∧ ∃ least, ∀ limit, least ≤ limit → Run.functionWithin run limit name [] m = .ok none m' := by
  have ready := Builder.start_ready addressable name [] none
  have grows := Emit.Growing.grows ready emitted
  obtain ⟨_, rfl, _, found, more⟩ := finish_ok done
  obtain ⟨within, ends⟩ := grows.ready.within_ending (.ret none)
  have result : b.function.result = none := grows.result
  have params : b.function.params = [] := grows.params
  have found : finished.function? name = some (b.ending (.ret none)) := by
    rwa [result, grows.name] at found
  obtain ⟨words, taken, placed, _, most, lie⟩ := Run.slotAddresses_ok m grows.ready.slotOrder room
  let frame := Frame.fill (Array.replicate b.function.types.size 0) b.function.slots.toList words
  obtain ⟨places, lie⟩ := lie frame (Frame.fill_value grows.ready.slotOrder (by simpa using grows.ready.slotBound))
  have entered : Run.enterFrame (Array.replicate b.function.types.size 0) b.function.slots.toList m = .ok frame { m with taken } := by
    rw [Run.enterFrame_eq, bind_of_ok placed]
    rfl
  have laid : (Host.called b finished frame places).Laid { m with taken } :=
    ⟨lie.address, fun slot member => (lie.inside slot member).2, lie.apart, Nat.le_trans most room⟩
  have start : Point.At (Host.called b finished frame places) ⟨Builder.start program name [] none, frame, { m with taken }⟩ := {
    ready
    within := (within.of_program more).of_grows ready grows
    frameSize := Frame.fill_size.trans Array.size_replicate
    slots := fun _ _ => rfl
    program := loaded
    routines := rfl }
  obtain ⟨s', builder, ⟨n, steps⟩, _, _, holds⟩ := attains _ ⟨Builder.start program name [] none, frame, { m with taken }⟩ taken
    rfl laid rfl most () b emitted (within.of_program more) start
  refine ⟨s'.machine, holds, n + 1, fun limit enough => ?_⟩
  obtain ⟨rest, rfl⟩ := Nat.exists_eq_add_of_le' enough
  have enters : Run.runFrom run (b.ending (.ret none)) [] (rest + n + 1) ⟨0⟩ ⟨0⟩ frame { m with taken } =
      (Host.called b finished frame places).resume (rest + n) ⟨Builder.start program name [] none, frame, { m with taken }⟩ :=
    start.within.enter rfl run [] (rest + n) ⟨0⟩ frame { m with taken }
  have count : (b.ending (.ret none)).params.length = ([] : List Word).length := congrArg List.length params
  have calls : Run.call run (b.ending (.ret none)) [] (rest + n + 1) m = _ := bind_of_ok entered
  rw [← Nat.add_assoc, Run.functionWithin_enter _ _ (loaded ▸ found) count, calls, enters, steps, Host.resume, builder]
  exact congrFun (ends.follow run [] rest s'.frame) s'.machine

end QueryEngine
