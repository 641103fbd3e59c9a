import QueryEngine.Proofs.Tuple.Equivalence

namespace QueryEngine

open Emit

/-- The code is emitted, and where it has been emitted into the function, its run ends with `post` and leaves the machine as
it was. -/
def Host.Obtains {α : Type} (host : Host) (code : Emit α) (s : Point) (post : α → Point → Prop) : Prop :=
  ∃ x b', code s.builder = .ok x b' ∧ (b'.Within host.function host.program →
    ∃ s', host.Steps s s' ∧ s'.builder = b' ∧ s'.machine = s.machine ∧ post x s')

variable {host : Host} {s : Point}

theorem Host.Obtains.of_yields {α : Type} {code : Emit α} {post : α → Point → Prop} {typed : α → Builder → Prop}
    (here : s.At host) (safe : Safe (fun _ => False) 0 0 code s.builder typed) (yields : host.Yields code s post) :
    host.Obtains code s post := by
  obtain ⟨x, b', emitted, _⟩ := safe.emitted here.ready here.ready.room
  refine ⟨x, b', emitted, fun within => ?_⟩
  obtain ⟨s', builder, steps, _, _, machine, holds⟩ := yields x b' emitted within here
  exact ⟨s', steps, builder, machine, holds⟩

/-- What a comparison of byte strings asks for. Strings sort by their first bytes that differ, and a proper beginning of a
string sorts before it. -/
def Comparison.Relates (first second : Bytes) : Comparison → Prop
  | less => first < second
  | lessEq => first ≤ second
  | equal => first = second
  | greaterEq => second ≤ first
  | greater => second < first

instance (first second : Bytes) (mode : Comparison) : Decidable (mode.Relates first second) := by
  cases mode <;> unfold Comparison.Relates <;> infer_instance

theorem Comparison.holds_compare (mode : Comparison) (first second : Bytes) :
    mode.holds (compareOfLessAndEq first second) = decide (mode.Relates first second) := by
  unfold compareOfLessAndEq
  split
  next less =>
    have different : first ≠ second := fun same => List.lt_irrefl second (same ▸ less)
    cases mode <;> simp [holds, Relates, less, different, List.le_of_lt less, List.lt_asymm less,
      List.not_le.mpr less]
  next notLess =>
    have atMost := List.not_lt.mp notLess
    split
    next same => cases mode <;> simp [holds, Relates, same, List.lt_irrefl]
    next different =>
      have notAtMost : ¬first ≤ second := fun atLeast => different (List.le_antisymm atLeast atMost)
      cases mode <;> simp [holds, Relates, notLess, different, atMost, notAtMost, List.not_le.mp notAtMost]

/-- Every two strings are in order, and in both orders just if they are the same. -/
structure Comparison.Ordered (x y z : Bytes) : Prop where
  total : lessEq.Relates x y ∨ lessEq.Relates y x
  trans : lessEq.Relates x y → lessEq.Relates y z → lessEq.Relates x z
  antisymm : lessEq.Relates x y ∧ lessEq.Relates y x ↔ equal.Relates x y
  strict : less.Relates x y ↔ ¬lessEq.Relates y x
  flipped : (greater.Relates x y ↔ less.Relates y x) ∧ (greaterEq.Relates x y ↔ lessEq.Relates y x)
  same : equal.Relates x y ↔ x = y

theorem Comparison.ordered (x y z : Bytes) : Ordered x y z where
  total := List.le_total x y
  trans := List.le_trans
  antisymm := ⟨fun ⟨first, second⟩ => List.le_antisymm first second, fun same => same ▸ ⟨List.le_refl x, List.le_refl x⟩⟩
  strict := List.not_le.symm
  flipped := ⟨.rfl, .rfl⟩
  same := .rfl

namespace Present

theorem Contains.formed {v : Present} (contains : v.Contains s content) : v.Formed s.builder := by
  cases contains with
  | bool reads | integer reads | date reads | numeric reads | timestamp reads => exact .cons reads.typed .nil
  | char shown | varchar shown =>
    obtain ⟨a, ptr, _⟩ := shown.placed
    exact .cons ptr.typed (.cons shown.length.reads.typed .nil)

/-- Strings of one kind, wherever their bytes lie and whatever lengths are declared for them. -/
theorem strings_sort_by_bytes (here : s.At host) {v w : Present} {address len address' len' : Reg} {n n' : UInt16}
    (alike : v = .char address len n ∧ w = .char address' len' n' ∨
      v = .varchar address len n ∧ w = .varchar address' len' n')
    {first second : Bytes} (left : s.Shows address len first) (right : s.Shows address' len' second) (mode : Comparison) :
    (host.Obtains (compare mode v w) s fun bit s' => s'.Bit bit (decide (mode.Relates first second))) ∧
      ∀ x y z, Comparison.Ordered x y z := by
  refine ⟨?_, Comparison.ordered⟩
  rw [← mode.holds_compare]
  rcases alike with ⟨rfl, rfl⟩ | ⟨rfl, rfl⟩
  · exact .of_yields here (safe_compare (Contains.char left n).formed (Contains.char right n').formed rfl)
      (Host.Attains.compareStrings mode left right)
  · exact .of_yields here (safe_compare (Contains.varchar left n).formed (Contains.varchar right n').formed rfl)
      (Host.Attains.compareStrings mode left right)

end Present

namespace Held

theorem Contains.formed {h : Held} (contains : h.Contains s content) : h.Formed s.builder := by
  cases contains with
  | unknown => trivial
  | present contains => exact contains.formed
  | null flag contains | value flag contains => exact ⟨contains.formed, flag.typed⟩

theorem hash_folds_contents (here : s.At host) {value : Held} {values : List Held} {content : Content}
    {contents : List Content} (contain : List.Forall₂ (Contains s) (value :: values) (content :: contents)) :
    host.Obtains (hashTuple (value :: values)) s fun r s' =>
      s'.Reads r .i64 ((contents.map Content.hashCode).foldl Hash.combine content.hashCode) := by
  have formed : ∀ h ∈ value :: values, h.Formed s.builder := by
    intro h member
    obtain ⟨i, bound, rfl⟩ := List.getElem_of_mem member
    exact (List.forall₂_iff_get.mp contain).2 i bound (contain.length_eq ▸ bound) |>.formed
  exact .of_yields here (safe_hashTuple formed) (attains_hashContents contain)

end Held

namespace Contents.Example

/-- The empty string at the null address, a string of one byte, and NULL. -/
def builder : Builder :=
  let parameter (b : Builder) (param : CodeType × Nat) := (b.define param.1 (.param param.2)).2
  [(.ptr, 0), (.i64, 1), (.ptr, 2), (.i64, 3), (.i1, 4)].foldl parameter
    (.start { name := "example", encoding := .indicator } "example" [.ptr, .i64, .ptr, .i64, .i1] none)

def args : Array Word := #[0, 0, Machine.scratchAddress 0, 1, 1]

theorem builder_ready : builder.Ready := by
  refine ⟨rfl, fun slot member => ?_, ?_, by decide⟩
  · cases member
  · exact .nil

/-- A run of code that has been emitted after the parameters. -/
theorem exists_point (code : Emit Reg) [Growing code] (emits : (match code builder with
      | .ok _ b => decide (b.function.slots.size = 0)
      | .error _ _ => false) = true) : ∃ (host : Host) (s : Point) (r : Reg) (b : Builder), s.At host ∧
    code s.builder = .ok r b ∧ b.Within host.function host.program ∧ s.Shows ⟨0⟩ ⟨1⟩ [] ∧ s.Shows ⟨2⟩ ⟨3⟩ [0] ∧
    s.Bit ⟨4⟩ true := by
  generalize emitted : code builder = result at emits
  cases result with
  | error fault b => cases emits
  | ok r b =>
    have grows : builder.Grows b := Growing.grows builder_ready emitted
    have size : 5 ≤ b.function.types.toList.length := grows.types.length_le
    rw [Array.length_toList] at size
    let s : Point := ⟨builder, args ++ Array.replicate (b.function.types.size - 5) 0,
      .start b.program { encoding := .indicator } {}⟩
    have value (i : Fin 5) : s.frame.value ⟨i⟩ = args[i] := by
      have bound : i.val < args.size := i.isLt
      simp [s, Frame.value, Array.getD_eq_getD_getElem?, Array.getElem?_append_left bound,
        Array.getElem?_eq_getElem bound]
    refine ⟨Host.ending b [], s, r, b, ?_, emitted, (grows.ready.within_ending (.ret none)).1, ⟨⟨0, ?_, rfl⟩, ?_⟩,
      ⟨⟨Machine.scratchAddress 0, ?_, ?_⟩, ?_⟩, ?_⟩
    · exact Point.at_ending builder_ready grows (by simp [s, args]; omega) rfl
        (Array.eq_empty_of_size_eq_zero (of_decide_eq_true emits))
    · exact ⟨rfl, value 0, rfl⟩
    · exact ⟨⟨rfl, value 1, rfl⟩, rfl⟩
    · exact ⟨rfl, value 2, rfl⟩
    · have place : placeAt? (Machine.scratchAddress 0) = some ⟨.scratch, 0, 0⟩ := by decide
      simp [s, Machine.start, Machine.readBytes, Machine.byteAt, place]
    · exact ⟨⟨rfl, value 3, rfl⟩, rfl⟩
    · exact ⟨rfl, value 4, rfl⟩

end Contents.Example

open Contents.Example in
/-- The empty string sorts before a string of one byte. -/
theorem Present.strings_sort_by_bytes_empty : ∃ (host : Host) (s s' : Point) (bit : Reg), s.At host ∧
    s.Shows ⟨0⟩ ⟨1⟩ [] ∧ s.Shows ⟨2⟩ ⟨3⟩ [0] ∧ host.Steps s s' ∧ s'.machine = s.machine ∧ s'.Bit bit true := by
  obtain ⟨host, s, bit, b, here, emitted, within, empty, zero, _⟩ := exists_point
    (Present.compare .less (.varchar ⟨0⟩ ⟨1⟩ 3) (.varchar ⟨2⟩ ⟨3⟩ 5)) (by decide +kernel)
  obtain ⟨⟨bit', b', emitted', runs⟩, _⟩ := strings_sort_by_bytes here (.inr ⟨rfl, rfl⟩) empty zero .less
  cases emitted.symm.trans emitted'
  obtain ⟨s', steps, _, machine, isLess⟩ := runs within
  exact ⟨host, s, s', bit, here, empty, zero, steps, machine, isLess⟩

open Contents.Example in
/-- NULL is folded into the hash code of a string, whatever its registers hold. -/
theorem Held.hash_folds_contents_null : ∃ (host : Host) (s s' : Point) (r : Reg), s.At host ∧ s.Shows ⟨0⟩ ⟨1⟩ [] ∧
    s.Bit ⟨4⟩ true ∧ host.Steps s s' ∧ s'.machine = s.machine ∧
    s'.Reads r .i64 (Hash.combine (Hash.ofBytes []) Hash.ofNull) := by
  obtain ⟨host, s, r, b, here, emitted, within, empty, zero, set⟩ := exists_point
    (Held.hashTuple [.present (.char ⟨0⟩ ⟨1⟩ 3), .nullable (.varchar ⟨2⟩ ⟨3⟩ 5) ⟨4⟩]) (by decide +kernel)
  obtain ⟨r', b', emitted', runs⟩ := hash_folds_contents here
    (.cons (.present (.char empty 3)) (.cons (.null set (.varchar zero 5)) .nil))
  cases emitted.symm.trans emitted'
  obtain ⟨s', steps, _, machine, reads⟩ := runs within
  exact ⟨host, s, s', r, here, empty, set, steps, machine, reads⟩

end QueryEngine
