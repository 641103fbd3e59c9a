import QueryEngine.Proofs.Execution.Functions
import QueryEngine.Proofs.Tuple.Decoding
import QueryEngine.Proofs.Tuple.Forms

namespace QueryEngine

open List

namespace Held

/-- The registers hold this value, or NULL. What is in the registers of a NULL does not matter. -/
inductive Shows (s : Point) : Held → Datum → Prop
  | unknown : Shows s .unknown .null
  | present {v : Present} {d : Datum} (is : v.Is s d) : Shows s (.present v) d
  | null {v : Present} {flag : Reg} (set : s.Bit flag true) (holds : ∃ cells, v.Holds s cells) :
    Shows s (.nullable v flag) .null
  | value {v : Present} {flag : Reg} {d : Datum} (unset : s.Bit flag false) (is : v.Is s d) :
    Shows s (.nullable v flag) d

open Host.Attains

variable {host : Host} {s : Point} {h : Held} {d : Datum} {r : Reg} {offset : Nat} {encoding : NullEncoding}

theorem Shows.bears (shows' : h.Shows s d) : h.Bears False s d := by
  cases shows' with
  | unknown => exact .unknown
  | present is => exact .present is
  | null set holds =>
    obtain ⟨_, holds⟩ := holds
    exact .null set holds nofun
  | value unset is => exact .value unset is

theorem Bears.shows (bears : h.Bears readable s d) : h.Shows s d := by
  cases bears with
  | unknown => exact .unknown
  | present is => exact .present is
  | null set holds => exact .null set ⟨_, holds⟩
  | value unset is => exact .value unset is

/-- A tuple that has been stored is read back, by code that loads it and by the decoder. -/
theorem attains_roundtrip (address : s.Reads r .ptr (Machine.scratchAddress offset))
    (are : Forall₂ (fun h d => h.Shows s d) values datums)
    (typed : Forall₂ (fun (h : Held) (ty : ValueType) => h.ty.shape = ty.shape) values types)
    (inside : offset + (TupleLayout.make host.program.encoding types).size ≤ Machine.scratchSpan) :
    host.Attains (do
      storeTuple (.make host.program.encoding types) r values
      loadTuple (.make host.program.encoding types) r) s fun loaded s' =>
        s.machine.Writes offset (offset + (TupleLayout.make host.program.encoding types).size) s'.machine ∧
        Forall₂ (fun h d => h.Shows s' d) loaded (readBack host.program.encoding s types values datums) ∧
        Forall₂ (fun (h : Held) (ty : ValueType) => h.ty.shape = ty.shape) loaded types ∧
        (TupleLayout.make host.program.encoding types).decode host.program.encoding s'.machine.readBytes
          (Machine.scratchAddress offset) = readBack host.program.encoding s types values datums := by
  refine (attains_storeValues nofun address (are.imp fun _ _ is => is.bears) (typed.imp fun _ _ => .inl) inside).bind
    fun _ s1 before1 ⟨writes1, means1⟩ => ?_
  refine (attains_loadValues (address.mono before1) means1 inside).mono fun loaded s2 _ ⟨machine2, shown, shapes⟩ => ?_
  rw [machine2]
  exact ⟨writes1, shown.imp fun _ _ bears => bears.shows, shapes, means1.decode (TupleLayout.make_placed _ types)⟩

theorem Shows.hasForm (shows' : h.Shows s d) : h.Formed s.builder := by
  cases shows' with
  | unknown => trivial
  | present is => exact is.spare.formed
  | null set holds =>
    obtain ⟨_, holds⟩ := holds
    have typed := Emit.Typed.of_reads holds.reads
    rw [holds.types] at typed
    exact ⟨typed, set.typed⟩
  | value unset is => exact ⟨is.spare.formed, unset.typed⟩

/-- Tuples survive memory. Code that stores a tuple and loads it again is emitted for all values that fill the types of the
tuple, and writes nowhere else. After it both the registers and the decoder show the same values, but for those that the
encoding takes for NULL. -/
theorem storeTuple_loadTuple {types : List ValueType} {values : List Held} {datums : List Datum} (ready : s.builder.Ready)
    (address : s.Reads r .ptr (Machine.scratchAddress offset)) (are : Forall₂ (fun h d => h.Shows s d) values datums)
    (fills : Forall₂ Held.Fills values types)
    (inside : offset + (TupleLayout.make s.builder.program.encoding types).size ≤ Machine.scratchSpan) :
    let encoding := s.builder.program.encoding
    let layout := TupleLayout.make encoding types
    let back := readBack encoding s types values datums
    ∃ loaded b', (storeTuple layout r values >>= fun _ => loadTuple layout r) s.builder = .ok loaded b' ∧
      ∀ host : Host, s.At host → b'.Within host.function host.program → ∃ s', host.Steps s s' ∧ s'.builder = b' ∧
        Forall₂ (fun h d => h.Shows s' d) loaded back ∧
        Forall₂ (fun (h : Held) (ty : ValueType) => h.ty.shape = ty.shape) loaded types ∧
        layout.decode encoding s'.machine.readBytes (Machine.scratchAddress offset) = back ∧
        s.machine.Writes offset (offset + layout.size) s'.machine := by
  intro encoding layout back
  have formed : ∀ h ∈ values, h.Formed s.builder := by
    intro h member
    obtain ⟨i, bound, rfl⟩ := mem_iff_getElem.mp member
    obtain ⟨length, each⟩ := forall₂_iff_get.mp are
    exact (each i bound (length ▸ bound)).hasForm
  have safe : Emit.Safe (fun _ => False) 0 0 (storeTuple layout r values >>= fun _ => loadTuple layout r) s.builder
      fun _ _ => True := by
    refine (safe_storeTuple formed fills address.typed).bind fun _ b₁ grows₁ _ => ?_
    have same : encoding = b₁.program.encoding := grows₁.program.encoding.symm
    simp only [layout, same]
    exact safe_loadTuple (Emit.typeOf?_mono grows₁.types address.typed)
  obtain ⟨loaded, b', emitted, -⟩ := safe.emitted ready ready.room
  refine ⟨loaded, b', emitted, fun host here within => ?_⟩
  have same : host.program.encoding = encoding := here.within.program.encoding
  have fits : offset + (TupleLayout.make host.program.encoding types).size ≤ Machine.scratchSpan := by rwa [same]
  have runs := attains_roundtrip address are (fills.imp fun _ _ fill => fill.shape) fits
  rw [same] at runs
  obtain ⟨s', builder, steps, _, _, writes, shown, shapes, decoded⟩ := runs loaded b' emitted within here
  exact ⟨s', steps, builder, shown, shapes, decoded, writes⟩

end Held

namespace Held.Example

/-- Three nullable integers. -/
def types : List ValueType := List.replicate 3 ValueType.integer.asNullable

/-- The third value has no flag. -/
def values : List Held :=
  [.nullable (.integer ⟨1⟩) ⟨2⟩, .nullable (.integer ⟨3⟩) ⟨4⟩, .present (.integer ⟨5⟩)]

/-- The first value has the bits of the sentinel. -/
def datums : List Datum := [.integer Int32.minValue, .null, .integer 7]

/-- The address and the values are the parameters of a function. -/
def builder : Builder :=
  [CodeType.ptr, .i32, .i1, .i32, .i1, .i32].zipIdx.foldl (fun b param => (b.define param.1 (.param param.2)).2)
    (Builder.start { name := "example", encoding := .sentinel } "example" [.ptr, .i32, .i1, .i32, .i1, .i32] none)

def args : Array Word := #[Machine.scratchAddress 8, Word.ofInt (-2147483648), 0, 5, 1, 7]

def frame (size : Nat) : Frame := args ++ Array.replicate (size - 6) 0

theorem frame_value (size : Nat) (i : Fin 6) : (frame size).value ⟨i⟩ = args[i] := by
  have bound : i.val < args.size := i.isLt
  simp [frame, Frame.value, Array.getD_eq_getD_getElem?, Array.getElem?_append_left bound,
    Array.getElem?_eq_getElem bound]

end Held.Example

open Held.Example in
/-- Under sentinels the least integer is read back as NULL, like the second value, and the third one as it is. -/
theorem Held.storeTuple_loadTuple_example : ∃ (host : Host) (s s' : Point) (loaded : List Held) (b' : Builder),
    let layout := TupleLayout.make .sentinel types
    s.builder.Ready ∧ s.Reads ⟨0⟩ .ptr (Machine.scratchAddress 8) ∧
      Forall₂ (fun h d => Shows s h d) values datums ∧ Forall₂ Fills values types ∧
      8 + layout.size ≤ Machine.scratchSpan ∧ s.At host ∧
      (storeTuple layout ⟨0⟩ values >>= fun _ => loadTuple layout ⟨0⟩) s.builder = .ok loaded b' ∧ host.Steps s s' ∧
      Forall₂ (fun h d => Shows s' h d) loaded [.null, .null, .integer 7] ∧
      layout.decode .sentinel s'.machine.readBytes (Machine.scratchAddress 8) = [.null, .null, .integer 7] := by
  have ready : builder.Ready := by
    refine ⟨rfl, fun slot member => ?_, ?_, by decide⟩
    · cases member
    · exact .nil
  have emits : (match (storeTuple (.make .sentinel types) ⟨0⟩ values >>= fun _ =>
      loadTuple (.make .sentinel types) ⟨0⟩) builder with
      | .ok _ b => decide (b.function.slots.size = 0 ∧ 6 ≤ b.function.types.size)
      | .error _ _ => false) = true := by decide +kernel
  generalize emitted : (storeTuple (.make .sentinel types) ⟨0⟩ values >>= fun _ =>
    loadTuple (.make .sentinel types) ⟨0⟩) builder = result at emits
  cases result with
  | error fault b => cases emits
  | ok loaded b =>
    obtain ⟨slots, size⟩ := of_decide_eq_true emits
    have grows : builder.Grows b := Emit.Growing.grows ready emitted
    let s : Point := ⟨builder, frame b.function.types.size, .start b.program { encoding := .sentinel } {}⟩
    have here : s.At (Host.ending b []) :=
      Point.at_ending ready grows (by simp [s, frame, args]; omega) rfl (Array.eq_empty_of_size_eq_zero slots)
    have address : s.Reads ⟨0⟩ .ptr (Machine.scratchAddress 8) := ⟨rfl, frame_value _ 0, by decide⟩
    have least : (Present.integer ⟨1⟩).Is s (.integer Int32.minValue) :=
      ⟨_, .cons ⟨rfl, frame_value _ 1, by decide⟩ .nil, .integer Int32.minValue⟩
    have seven : (Present.integer ⟨5⟩).Is s (.integer 7) :=
      ⟨_, .cons ⟨rfl, frame_value _ 5, by decide⟩ .nil, .integer 7⟩
    have spare : (Present.integer ⟨3⟩).Holds s [(.i32, 5)] :=
      ⟨.cons ⟨rfl, frame_value _ 3, by decide⟩ .nil, rfl⟩
    have are : Forall₂ (fun h d => Shows s h d) values datums :=
      .cons (.value ⟨rfl, frame_value _ 2, by decide⟩ least)
        (.cons (.null ⟨rfl, frame_value _ 4, by decide⟩ ⟨_, spare⟩) (.cons (.present seven) .nil))
    have fills : Forall₂ Fills values types :=
      .cons ⟨rfl, nofun⟩ (.cons ⟨rfl, nofun⟩ (.cons ⟨rfl, nofun⟩ .nil))
    have inside : 8 + (TupleLayout.make .sentinel types).size ≤ Machine.scratchSpan := by decide
    have within := (grows.ready.within_ending (.ret none)).1
    obtain ⟨loaded', b', emitted', runs⟩ := storeTuple_loadTuple ready address are fills inside
    cases emitted.symm.trans emitted'
    obtain ⟨s', steps, _, shown, _, decoded, _⟩ := runs _ here within
    have back : readBack .sentinel s types values datums = [.null, .null, .integer 7] := by
      have first : Held.bits s (.nullable (.integer ⟨1⟩) ⟨2⟩) = some (Word.ofInt (-2147483648)) :=
        congrArg some (frame_value _ 1)
      have second : Held.bits s (.nullable (.integer ⟨3⟩) ⟨4⟩) = some 5 := congrArg some (frame_value _ 3)
      have third : Held.bits s (.present (.integer ⟨5⟩)) = some 7 := congrArg some (frame_value _ 5)
      simp only [values, datums, types, List.replicate, readBack, first, second, third]
      decide
    refine ⟨_, s, s', loaded, b, ready, address, are, fills, inside, here, emitted, steps, ?_, ?_⟩
    · rw [← back]
      exact shown
    · rw [← back]
      exact decoded

end QueryEngine
