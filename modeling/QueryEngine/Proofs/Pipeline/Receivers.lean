import QueryEngine.Proofs.Emission.Operators
import QueryEngine.Proofs.Expression.Typing
import QueryEngine.Proofs.Memory.Ownership

namespace QueryEngine

open Emit

variable {types : Nat → Shape} {R : Receiver} {low width most need : Nat} {host : Host} {db : Database}
  {via : Sink → Sink} {f : ValueRow → Option (List ValueRow)}

theorem length_flatten_le {α β : Type} {f : α → Option (List β)} {ins : List α} {outs : List (List β)}
    (given : ins.mapM f = some outs) (narrow : ∀ x out, f x = some out → out.length ≤ width) :
    outs.flatten.length ≤ ins.length * width := by
  induction mapM_eq_some_iff.mp given with
  | nil => simp
  | @cons x out ins outs first others ih =>
    have head := narrow x out first
    have tail := ih (mapM_eq_some_iff.mpr others)
    simp only [List.flatten_cons, List.length_append, List.length_cons, Nat.succ_mul]
    omega

/-- What becomes of rows, in the order in which they arrive. -/
structure Receiver where
  /-- As many rows can be received. -/
  most : Nat
  /-- These rows have arrived, what they have been made into lies in `parts`, and no more than `left` bytes are still to be
  taken for later rows. -/
  Holds : List ValueRow → (left : Nat) → (parts : Set Part) → Machine → Prop
  /-- Only the parts of its own matter to a receiver. -/
  keeps : ∀ {rows left parts m m'}, Holds rows left parts m → m.Later m' → (∀ part ∈ parts, m.Agrees m' part) →
    Holds rows left parts m'

namespace Receiver

variable {low' : Nat} {rows more : List ValueRow} {left left' budget : Nat} {parts parts' other : Set Part}
  {m m1 m2 : Machine}

/-- The receiver has its parts for itself, and there is room for what it may still take. -/
structure Stands (R : Receiver) (host : Host) (low : Nat) (rows : List ValueRow) (left : Nat) (parts : Set Part)
    (m : Machine) : Prop where
  holds : R.Holds rows left parts m
  laid : host.Laid m
  owns : host.Owns low m parts
  room : m.taken + left ≤ Machine.scratchSpan

/-- What does not touch the parts of a receiver leaves it as it is. -/
theorem Stands.frame (stands : R.Stands host low rows left parts m) (touches : m.Touches other m1)
    (apart : ∀ part ∈ parts, part ∉ other) (room : m1.taken + left ≤ Machine.scratchSpan) (more : low ≤ low') :
    R.Stands host low' rows left parts m1 where
  holds := R.keeps stands.holds touches.toLater fun part member =>
    touches.keeps part (stands.owns.has part member) (apart part member)
  laid := stands.laid.mono touches.toLater (by omega)
  owns := stands.owns.mono touches.toLater more
  room := room

theorem Stands.quiet (stands : R.Stands host low rows left parts m) (quiet : m.Quiet m1) (more : low ≤ low') :
    R.Stands host low' rows left parts m1 :=
  stands.frame quiet.toTouches (fun _ _ member => member) (by rw [quiet.same]; exact stands.room) more

/-- Rows have been received by code that is emitted from register `low` on, which has taken memory out of `budget`. -/
def Moves (R : Receiver) (host : Host) (low : Nat) (rows more : List ValueRow) (budget : Nat) (parts : Set Part)
    (m m' : Machine) : Prop :=
  m.Touches (host.laterSlots low ∪ parts) m' ∧ ∃ left parts', R.Stands host low (rows ++ more) left parts' m' ∧
    parts' ⊆ parts ∪ m.fresh ∧ m'.taken + left ≤ m.taken + budget

theorem Stands.moves (stands : R.Stands host low rows left parts m) : R.Moves host low rows [] left parts m m :=
  ⟨.refl m _, left, parts, by rwa [List.append_nil], fun _ member => .inl member, Nat.le_refl _⟩

/-- Code that is part of other code. -/
theorem Moves.lower (moves : R.Moves host low' rows more budget parts m m1) (owns : host.Owns low m parts)
    (laid : host.Laid m) (earlier : low ≤ low') : R.Moves host low rows more budget parts m m1 := by
  obtain ⟨touches, left, parts', stands, inside, taken⟩ := moves
  refine ⟨touches.mono ?_, left, parts', ?_, inside, taken⟩
  · rintro part (slot | own)
    · exact .inl (.inl (Host.laterSlots_anti earlier slot))
    · exact .inl (.inr own)
  · exact ⟨stands.holds, stands.laid, owns.of_fresh laid inside stands.owns.has, stands.room⟩

/-- One run after another. -/
theorem Moves.trans (touches : m.Touches (host.laterSlots low ∪ parts) m1) (inside : parts' ⊆ parts ∪ m.fresh)
    (taken : m1.taken + left ≤ m.taken + budget) (second : R.Moves host low (rows ++ xs) ys (left + need) parts' m1 m2) :
    R.Moves host low rows (xs ++ ys) (budget + need) parts m m2 := by
  obtain ⟨touches', left', parts2, stands', inside', taken'⟩ := second
  -- What is fresh after the first run was fresh before it.
  have fresh {part : Part} (isFresh : part ∈ m1.fresh) : part ∈ m.fresh :=
    fun has => isFresh (touches.toLater.has has)
  refine ⟨touches.trans touches' ?_, left', parts2, by rwa [← List.append_assoc], ?_, by omega⟩
  · rintro part (slot | own)
    · exact .inl (.inl slot)
    · exact (inside own).imp .inr id
  · intro part member
    rcases inside' member with own | isFresh
    · exact inside own
    · exact .inr (fresh isFresh)

/-- Code that is run after other code. -/
theorem Moves.extend (touches : m.Touches (host.laterSlots low ∪ parts) m1) (inside : parts' ⊆ parts ∪ m.fresh)
    (taken : m1.taken + left ≤ m.taken + budget) (stands : R.Stands host low (rows ++ xs) left parts' m1)
    (earlier : low ≤ low') (second : R.Moves host low' (rows ++ xs) ys left parts' m1 m2) :
    R.Moves host low rows (xs ++ ys) budget parts m m2 := by
  have lowered : R.Moves host low (rows ++ xs) ys (left + 0) parts' m1 m2 := second.lower stands.owns stands.laid earlier
  exact .trans touches inside taken lowered

/-- What neither slots nor the receiver have is still the same after rows have been received. -/
theorem Moves.agrees (moves : R.Moves host low rows more budget parts m m1) (owns : host.Owns low m other)
    (apart : ∀ part ∈ parts, part ∉ other) : ∀ part ∈ other, m.Agrees m1 part := by
  intro part member
  refine moves.1.keeps part (owns.has part member) ?_
  rintro (slot | isOwn)
  · exact owns.away part member slot
  · exact apart part isOwn member

/-- What a receiver takes is apart from what others have. -/
theorem apart_of_inside (inside : parts' ⊆ parts ∪ m.fresh) (apart : ∀ part ∈ parts, part ∉ other)
    (owns : host.Owns low m other) : ∀ part ∈ parts', part ∉ other := by
  intro part member isOther
  rcases inside member with old | fresh
  · exact apart part old isOther
  · exact fresh (owns.has part isOther)

/-- Code that is part of other code, of which what comes first changes nothing. -/
theorem Moves.after (moves : R.Moves host low' rows more budget parts m1 m2)
    (stands : R.Stands host low rows left parts m) (quiet : m.Quiet m1) (earlier : low ≤ low') :
    R.Moves host low rows more budget parts m m2 := by
  have owns := stands.owns.mono quiet.toLater (Nat.le_refl _)
  have laid := stands.laid.mono quiet.toLater (by rw [quiet.same]; exact stands.laid.span)
  obtain ⟨touches, left, parts', stands', inside, taken⟩ := moves.lower owns laid earlier
  refine ⟨quiet.toTouches.quiet_trans touches, left, parts', stands', fun part member => ?_, ?_⟩
  · rcases inside member with old | fresh
    · exact .inl old
    · exact .inr fun has => fresh (quiet.toLater.has has)
  · rw [← quiet.same]
    exact taken

/-- What is received into fresh memory lies in fresh memory. -/
theorem Moves.filled (created : m.Touches ∅ m1) (earlier : low ≤ low') (fresh : home ⊆ m.fresh)
    (touches : m1.Touches (host.laterSlots low' ∪ home) m2) (inside : parts ⊆ home ∪ m1.fresh) :
    parts ⊆ m.fresh ∧ m.Touches (host.laterSlots low) m2 := by
  refine ⟨fun part member => ?_, (created.mono (Set.empty_subset _)).trans touches ?_⟩
  · rcases inside member with isHome | isFresh
    · exact fresh isHome
    · exact fun has => isFresh (created.toLater.has has)
  · rintro part (slot | isHome)
    · exact .inl (Host.laterSlots_anti earlier slot)
    · exact .inr (fresh isHome)

/-- Rows have been received while fresh memory was in use for something else, which is freed in the end. -/
theorem Moves.around (stands : R.Stands host low rows left parts m) (first : m.Touches (host.laterSlots low) m1)
    (earlier : low ≤ low') (fresh : kept ⊆ m.fresh) (touches : m1.Touches (host.laterSlots low' ∪ (parts ∪ kept)) m2)
    (stands' : R.Stands host low' (rows ++ more) left' own m2) (inside : own ⊆ parts ∪ m1.fresh)
    (apart : ∀ part ∈ own, part ∉ kept) (freed : m2.Touches kept m3) (same : m3.taken = m2.taken)
    (taken : m2.taken + left' ≤ m.taken + budget) :
    R.Moves host low rows more budget parts m m3 := by
  have within : own ⊆ parts ∪ m.fresh := fun part member =>
    (inside member).imp id fun isFresh has => isFresh (first.toLater.has has)
  have after := stands'.frame freed apart (by rw [same]; exact stands'.room) (Nat.le_refl _)
  have received : m.Touches (host.laterSlots low ∪ parts) m2 := by
    refine (first.mono fun part slot => .inl (.inl slot)).trans touches ?_
    rintro part (slot | isOwn | isKept)
    · exact .inl (.inl (Host.laterSlots_anti earlier slot))
    · exact .inl (.inr isOwn)
    · exact .inr (fresh isKept)
  exact ⟨received.trans freed fun part isKept => .inr (fresh isKept), left', own,
    ⟨after.holds, after.laid, stands.owns.of_fresh stands.laid within after.owns.has, after.room⟩, within, by omega⟩

/-- The step of a receiver, wherever below `s0` it is emitted. -/
def Receives (R : Receiver) (host : Host) (types : Nat → Shape) (s0 : Point) (next : Sink) : Prop :=
  ∀ held row rows left parts s, s0.Before s → s0.machine.Later s.machine → HeldRow.Is s held row →
    HeldRow.Typed types held → rows.length < R.most → R.Stands host s.size rows left parts s.machine →
    host.Attains (next held) s fun _ s' => R.Moves host s.size rows [row] left parts s.machine s'.machine

theorem Receives.mono (receives : R.Receives host types s next) (before : s.Before s') (later : s.machine.Later s'.machine) :
    R.Receives host types s' next :=
  fun held row rows left parts t before' later' =>
    receives held row rows left parts t (before.trans before') (later.trans later')

end Receiver

/-- Code hands on rows, no more than `most` of them, whoever receives them. It takes no more than `need` bytes itself. -/
def Host.Produces (host : Host) (types : Nat → Shape) (db : Database) (settings : Settings) (code : Sink → Emit Unit)
    (outputs : List ValueRow → Prop) (most need : Nat) : Prop :=
  ∀ (R : Receiver) (next : Sink) (s : Point) (rows : List ValueRow) (left : Nat) (parts : Set Part),
    (∀ held, Growing (next held)) → s.machine.database = db → s.machine.settings = settings →
    R.Stands host s.size rows left parts s.machine → s.machine.taken + left + need ≤ Machine.scratchSpan →
    rows.length + most ≤ R.most → R.Receives host types s next →
    host.Attains (code next) s fun _ s' => ∃ out, outputs out ∧ out.length ≤ most ∧
      R.Moves host s.size rows out (left + need) parts s.machine s'.machine

/-- Nothing has been written to the stack slots of code that is emitted from here on. -/
def Host.Unused (host : Host) (s : Point) : Prop :=
  ∀ offset, .memory offset ∈ host.laterSlots s.size → s.machine.cell offset = 0

/-- Code hands on rows if nothing has been written to its stack slots before. What is known of the rows may depend on whether
an overflow has been reported. -/
def Host.ProducesFirst (host : Host) (types : Nat → Shape) (db : Database) (settings : Settings) (code : Sink → Emit Unit)
    (outputs : (reported : Bool) → List ValueRow → Prop) (most need : Nat) : Prop :=
  ∀ (R : Receiver) (next : Sink) (s : Point) (rows : List ValueRow) (left : Nat) (parts : Set Part),
    (∀ held, Growing (next held)) → s.machine.database = db → s.machine.settings = settings → host.Unused s →
    R.Stands host s.size rows left parts s.machine → s.machine.taken + left + need ≤ Machine.scratchSpan →
    rows.length + most ≤ R.most → R.Receives host types s next →
    host.Attains (code next) s fun _ s' => ∃ out, outputs s'.machine.outcome.overflow out ∧ out.length ≤ most ∧
      R.Moves host s.size rows out (left + need) parts s.machine s'.machine

variable {outputs : List ValueRow → Prop} {code : Sink → Emit Unit} {settings : Settings}

theorem Host.Produces.first (produces : host.Produces types db settings code outputs most need) :
    host.ProducesFirst types db settings code (fun _ => outputs) most need :=
  fun R next s rows left parts grows database set _ => produces R next s rows left parts grows database set

/-- What stays as it is while rows flow by. -/
structure Kept where
  parts : Set Part
  Fact : Machine → Prop
  keeps : ∀ {m m'}, Fact m → m.Later m' → (∀ part ∈ parts, m.Agrees m' part) → Fact m'

/-- Nothing at all. -/
def Kept.nothing : Kept where
  parts := ∅
  Fact := fun _ => True
  keeps := fun _ _ _ => trivial

namespace Receiver

variable {kept : Kept} {s0 : Point} {rows0 : List ValueRow} {next : Sink}

/-- Receives rows for another receiver, which has got `rows0` before and gets `f row` for each row. -/
def through (R : Receiver) (kept : Kept) (f : ValueRow → Option (List ValueRow)) (rows0 : List ValueRow) (most : Nat) :
    Receiver where
  most := most
  Holds := fun rows left parts m => ∃ own outs, parts = own ∪ kept.parts ∧ (∀ part ∈ own, part ∉ kept.parts) ∧
    kept.Fact m ∧ rows.mapM f = some outs ∧ R.Holds (rows0 ++ outs.flatten) left own m
  keeps := by
    rintro rows left _ m m' ⟨own, outs, rfl, apart, fact, given, holds⟩ later agrees
    exact ⟨own, outs, rfl, apart, kept.keeps fact later fun part member => agrees part (.inr member), given,
      R.keeps holds later fun part member => agrees part (.inl member)⟩

/-- Before the first row. -/
theorem Stands.through (stands : R.Stands host low rows0 left own m) (fact : kept.Fact m) (owns : host.Owns low m kept.parts)
    (apart : ∀ part ∈ own, part ∉ kept.parts) :
    (R.through kept f rows0 most).Stands host low [] left (own ∪ kept.parts) m where
  holds := ⟨own, [], rfl, apart, fact, rfl, by simpa using stands.holds⟩
  laid := stands.laid
  owns := ⟨fun part member => member.elim (stands.owns.has part) (owns.has part),
    fun part member => member.elim (stands.owns.away part) (owns.away part)⟩
  room := stands.room

variable {ins : List ValueRow}

/-- The other receiver, out of one that receives for it. -/
theorem Stands.inner (stands : (R.through kept f rows0 most).Stands host low ins left parts m) :
    ∃ own outs, parts = own ∪ kept.parts ∧ (∀ part ∈ own, part ∉ kept.parts) ∧ kept.Fact m ∧
      host.Owns low m kept.parts ∧ ins.mapM f = some outs ∧ R.Stands host low (rows0 ++ outs.flatten) left own m := by
  obtain ⟨own, outs, rfl, apart, fact, given, holds⟩ := stands.holds
  refine ⟨own, outs, rfl, apart, fact, ?_, given, holds, stands.laid, ?_, stands.room⟩
  · exact ⟨fun part member => stands.owns.has part (.inr member), fun part member => stands.owns.away part (.inr member)⟩
  · exact ⟨fun part member => stands.owns.has part (.inl member), fun part member => stands.owns.away part (.inl member)⟩

/-- After the last row: the other receiver has got what `f` gives for all rows, and what was kept is still there. -/
theorem Moves.inner (moves : (R.through kept f rows0 most).Moves host low [] ins budget (own ∪ kept.parts) m m') :
    ∃ outs left own', ins.mapM f = some outs ∧ kept.Fact m' ∧ m.Touches (host.laterSlots low ∪ (own ∪ kept.parts)) m' ∧
      R.Stands host low (rows0 ++ outs.flatten) left own' m' ∧ own' ⊆ own ∪ m.fresh ∧
      (∀ part ∈ own', part ∉ kept.parts) ∧ m'.taken + left ≤ m.taken + budget := by
  obtain ⟨touches, left, _, stands, inside, taken⟩ := moves
  obtain ⟨own', outs, rfl, apart, fact, _, given, stands'⟩ := stands.inner
  refine ⟨outs, left, own', given, fact, touches, stands', fun part member => ?_, apart, taken⟩
  rcases inside (.inl member) with (old | isKept) | fresh
  · exact .inl old
  · exact absurd isKept (apart part member)
  · exact .inr fresh

/-- A step that hands on `f row` for every row makes a receiver out of the one it hands them to. -/
theorem Receives.through (narrow : ∀ row out, f row = some out → out.length ≤ width)
    (fits : rows0.length + most * width ≤ R.most)
    (step : ∀ held row rows left own s, s0.Before s → s0.machine.Later s.machine → HeldRow.Is s held row →
      HeldRow.Typed types held → kept.Fact s.machine → host.Owns s.size s.machine kept.parts → (∀ part ∈ own,
      part ∉ kept.parts) → rows.length + width ≤ R.most → R.Stands host s.size rows left own s.machine →
      host.Attains (via next held) s fun _ s' => ∃ out, f row = some out ∧
      R.Moves host s.size rows out left own s.machine s'.machine) :
    (R.through kept f rows0 most).Receives host types s0 (via next) := by
  intro held row ins left parts s before later is typed few stands
  obtain ⟨own, outs, rfl, apart, fact, owns, given, inner⟩ := stands.inner
  have enough : (rows0 ++ outs.flatten).length + width ≤ R.most := by
    have few : ins.length < most := few
    have produced := length_flatten_le given narrow
    have bound : (ins.length + 1) * width ≤ most * width := Nat.mul_le_mul_right width few
    rw [Nat.succ_mul] at bound
    rw [List.length_append]
    omega
  refine (step held row _ left own s before later is typed fact owns apart enough inner).mono
    fun _ s' _ ⟨out, gives, moves⟩ => ?_
  have untouched := moves.agrees owns apart
  obtain ⟨touches, left', own', stands', inside, taken⟩ := moves
  have apart' := apart_of_inside inside apart owns
  have all : (ins ++ [row]).mapM f = some (outs ++ [out]) := by simp [given, gives]
  refine ⟨touches.mono ?_, left', own' ∪ kept.parts, ⟨⟨own', _, rfl, apart', kept.keeps fact touches.toLater untouched,
    all, ?_⟩, stands'.laid, ?_, stands'.room⟩, ?_, taken⟩
  · rintro part (slot | isOwn)
    · exact .inl (.inl slot)
    · exact .inl (.inr (.inl isOwn))
  · simpa using stands'.holds
  · have keptOwns := owns.mono touches.toLater (Nat.le_refl _)
    exact ⟨fun part member => member.elim (stands'.owns.has part) (keptOwns.has part),
      fun part member => member.elim (stands'.owns.away part) (keptOwns.away part)⟩
  · rintro part (isOwn | isKept)
    · exact (inside isOwn).imp .inl id
    · exact .inl (.inr isKept)

end Receiver

/-- Code hands on `f row` for every row, no more than `width` rows at a time, whoever receives them. -/
def Host.HandsOn (host : Host) (types : Nat → Shape) (via : Sink → Sink) (f : ValueRow → Option (List ValueRow))
    (width : Nat) : Prop :=
  ∀ (R : Receiver) (next : Sink) held row rows left own s, (∀ held, Growing (next held)) → R.Receives host types s next →
    HeldRow.Is s held row → HeldRow.Typed types held → rows.length + width ≤ R.most →
    R.Stands host s.size rows left own s.machine → host.Attains (via next held) s fun _ s' =>
      ∃ out, f row = some out ∧ R.Moves host s.size rows out left own s.machine s'.machine

/-- Code whose rows are handed on by a step. -/
theorem Host.Produces.through (produces : host.Produces types db settings code outputs most need)
    (growing : ∀ next : Sink, (∀ held, Growing (next held)) → ∀ held, Growing (via next held))
    (narrow : ∀ row out, f row = some out → out.length ≤ width) (step : host.HandsOn types via f width) :
    host.Produces types db settings (fun next => code (via next))
      (fun out => ∃ ins outs, outputs ins ∧ ins.mapM f = some outs ∧ out = outs.flatten) (most * width) need := by
  intro R next s rows left parts grows database set stands room fits receives
  have start : (R.through .nothing f rows most).Stands host s.size [] left (parts ∪ Kept.nothing.parts) s.machine :=
    stands.through trivial ⟨nofun, nofun⟩ fun _ _ member => member
  have passes : (R.through .nothing f rows most).Receives host types s (via next) :=
    .through narrow fits fun held row rows left own s' before later is typed _ _ _ enough inner =>
      step R next held row rows left own s' grows (receives.mono before later) is typed enough inner
  refine (produces _ (via next) s [] left _ (growing next grows) database set start room ?_ passes).mono
    fun _ s' _ ⟨ins, given, few, moves⟩ => ?_
  · simp only [List.length_nil, Nat.zero_add]
    exact Nat.le_refl _
  obtain ⟨outs, left', own', all, _, touches, stands', inside, _, taken⟩ := moves.inner
  refine ⟨outs.flatten, ⟨ins, outs, given, all, rfl⟩, ?_, touches.mono ?_, left', own', stands', inside, taken⟩
  · exact Nat.le_trans (length_flatten_le all narrow) (Nat.mul_le_mul_right width few)
  · rintro part (slot | old | isKept)
    · exact .inl (.inl slot)
    · exact .inl (.inr old)
    · exact isKept.elim

end QueryEngine
