import QueryEngine.Proofs.Tuple.Keys
import QueryEngine.Proofs.Value.Operations

namespace QueryEngine

open Emit Safe

variable {b : Builder} {α : Type} {hash : α → Emit Reg} {equals : α → α → Emit Reg}

theorem ValueType.Comparable.comparison {a b : ValueType} (comparable : a.Comparable b) :
    ∃ ty, ValueType.comparison a b = .ok ty := by
  unfold ValueType.comparison
  split
  · exact ⟨_, rfl⟩
  next known =>
    simp only [isUnknown, Bool.or_eq_true, decide_eq_true_eq, not_or] at known
    exact ⟨_, if_pos ((comparable.resolve_left known.1).resolve_left known.2)⟩

namespace Emit.Safe

variable {r r' : Reg}

theorem xorShift (typed : r.Of .i64 b) : Safe fails n n (xorShift r) b (Reg.Of .i64) := by
  refine (const .i64 33).bind fun amount b1 grows1 _ => ?_
  exact (binary .lshr (typed.mono grows1.types)).bind fun shifted b2 grows2 _ =>
    .binary .xor (typed.mono (grows1.types.trans grows2.types))

theorem constWord (w : Word) : Safe fails n n (constWord w) b (Reg.Of .i64) :=
  define .i64 _

theorem mix (typed : r.Of .i64 b) : Safe fails n n (mix r) b (Reg.Of .i64) := by
  refine (xorShift typed).bind fun k b1 _ kTyped => ?_
  refine (constWord _).bind fun first b2 grows2 _ => ?_
  refine (binary .mul (kTyped.mono grows2.types)).bind fun k2 b3 _ k₂Typed => ?_
  refine (xorShift k₂Typed).bind fun k3 b4 _ k₃Typed => ?_
  refine (constWord _).bind fun second b5 grows5 _ => ?_
  exact (binary .mul (k₃Typed.mono grows5.types)).bind fun k4 b6 _ k₄Typed => xorShift k₄Typed

theorem combine (first : r.Of .i64 b) (second : r'.Of .i64 b) : Safe fails n n (combine r r') b (Reg.Of .i64) := by
  refine (constWord _).bind fun seed b1 grows1 _ => ?_
  refine (const .i64 6).bind fun six b2 grows2 _ => ?_
  refine (const .i64 2).bind fun two b3 grows3 _ => ?_
  have upto := grows1.types.trans (grows2.types.trans grows3.types)
  refine (binary .shl (first.mono upto)).bind fun left b4 grows4 _ => ?_
  refine (binary .lshr (first.mono (upto.trans grows4.types))).bind fun right b5 grows5 _ => ?_
  have upto5 := upto.trans (grows4.types.trans grows5.types)
  refine (binary .add (second.mono upto5)).bind fun sum b6 grows6 sumTyped => ?_
  refine (binary .add sumTyped).bind fun sum2 b7 grows7 sum₂Typed => ?_
  refine (binary .add sum₂Typed).bind fun sum3 b8 grows8 _ => ?_
  exact .binary .xor (first.mono (upto5.trans (grows6.types.trans (grows7.types.trans grows8.types))))

end Emit.Safe

theorem Present.safe_hash {v : Present} (formed : v.Formed b) : Safe fails n n v.hash b (Reg.Of .i64) := by
  cases v with
  | bool r | integer r | date r =>
    exact (resize (List.forall₂_cons.mp formed).1 .i64 _).bind fun wide b1 _ typed => .mix typed
  | numeric r | timestamp r => exact .mix (List.forall₂_cons.mp formed).1
  | char address len | varchar address len => exact .callValue rfl formed

namespace Held

variable {h h' : Held}

theorem Is.formed (is : h.Is s d) : h.Formed s.builder := by
  cases is with
  | unknown => trivial
  | present is => exact is.spare.formed
  | null flag spare => exact ⟨spare.formed, flag.typed⟩
  | value flag is => exact ⟨is.spare.formed, flag.typed⟩

theorem safe_hash (formed : h.Formed b) : Safe fails n n h.hash b (Reg.Of .i64) := by
  cases h with
  | unknown => exact .constWord _
  | present v => exact Present.safe_hash formed
  | nullable v flag =>
    refine (Present.safe_hash formed.1).bind fun code b1 _ _ => ?_
    exact (Safe.constWord _).bind fun ofNull b2 _ typed => .select typed

theorem safe_sameValues (left : h.Formed b) (right : h'.Formed b) (comparable : h.ty.Comparable h'.ty) :
    Safe fails n n (sameValues h h') b (Reg.Of .i1) := by
  unfold sameValues
  split
  next v w first second =>
    exact Present.safe_compare (left.value first).1 (right.value second).1 (comparable_values comparable first second)
  · exact .constBool false

theorem safe_equals (left : h.Formed b) (right : h'.Formed b) (comparable : h.ty.Comparable h'.ty) :
    Safe fails n n (h.equals h') b (Reg.Of .i1) := by
  obtain ⟨_, compares⟩ := comparable.comparison
  have checks : checkComparable h h' = Pure.pure () := by rw [checkComparable, compares]
  rw [equals_eq, checks, pure_bind]
  split
  · exact safe_sameValues left right comparable
  · refine (safe_isNull left).bind fun aNull b1 grows1 aTyped => ?_
    refine (safe_isNull (right.mono grows1.types)).bind fun bNull b2 grows2 _ => ?_
    have aTyped := aTyped.mono grows2.types
    refine (binary .and aTyped).bind fun both b3 grows3 bothTyped => ?_
    refine (binary .or (aTyped.mono grows3.types)).bind fun either b4 grows4 eitherTyped => ?_
    have upto := grows1.types.trans (grows2.types.trans (grows3.types.trans grows4.types))
    refine (safe_sameValues (left.mono upto) (right.mono upto) comparable).bind fun same b5 grows5 _ => ?_
    refine (Safe.not (eitherTyped.mono grows5.types)).bind fun neither b6 grows6 typed6 => ?_
    refine (binary .and typed6).bind fun alike b7 grows7 _ => ?_
    exact .binary .or (bothTyped.mono (grows4.types.trans (grows5.types.trans (grows6.types.trans grows7.types))))

theorem safe_hashRest (typed : r.Of .i64 b) (formed : ∀ h ∈ values, h.Formed b) :
    Safe fails n n (hashRest r values) b (Reg.Of .i64) := by
  induction values generalizing b r with
  | nil => exact .pure typed
  | cons value values ih =>
    obtain ⟨here, others⟩ := List.forall_mem_cons.mp formed
    refine (safe_hash here).bind fun next b1 grows1 nextTyped => ?_
    refine (combine (typed.mono grows1.types) nextTyped).bind fun folded b2 grows2 foldedTyped => ?_
    exact ih foldedTyped fun h member => (others h member).mono (grows1.types.trans grows2.types)

theorem safe_hashTuple (formed : ∀ h ∈ values, h.Formed b) : Safe fails n n (hashTuple values) b (Reg.Of .i64) := by
  cases values with
  | nil => exact .const .i64 0
  | cons value values =>
    obtain ⟨here, others⟩ := List.forall_mem_cons.mp formed
    exact (safe_hash here).bind fun first b1 grows1 typed =>
      safe_hashRest typed fun h member => (others h member).mono grows1.types

theorem safe_equalsFrom (typed : all.Of .i1 b) (left : ∀ h ∈ first, h.Formed b) (right : ∀ h ∈ second, h.Formed b)
    (comparable : List.Forall₂ (fun h h' => h.ty.Comparable h'.ty) first second) :
    Safe fails n n (equalsFrom all first second) b (Reg.Of .i1) := by
  induction comparable generalizing b all with
  | nil => exact .pure typed
  | cons here _ ih =>
    obtain ⟨leftHere, left⟩ := List.forall_mem_cons.mp left
    obtain ⟨rightHere, right⟩ := List.forall_mem_cons.mp right
    refine (safe_equals leftHere rightHere here).bind fun same b1 grows1 _ => ?_
    refine (binary .and (typed.mono grows1.types)).bind fun next b2 grows2 nextTyped => ?_
    have upto := grows1.types.trans grows2.types
    exact ih nextTyped (fun h member => (left h member).mono upto) fun h member => (right h member).mono upto

theorem safe_equalsTuple (left : ∀ h ∈ first, h.Formed b) (right : ∀ h ∈ second, h.Formed b)
    (comparable : List.Forall₂ (fun h h' => h.ty.Comparable h'.ty) first second) :
    Safe fails n n (equalsTuple first second) b (Reg.Of .i1) := by
  rw [equalsTuple, if_neg (not_not.mpr comparable.length_eq)]
  exact (Safe.constBool true).bind fun all b1 grows1 typed =>
    safe_equalsFrom typed (fun h member => (left h member).mono grows1.types)
      (fun h member => (right h member).mono grows1.types) comparable

end Held

/-- Code for the hash codes of two values and for the equalities among three. -/
def Emit.relate {α : Type} (hash : α → Emit Reg) (equals : α → α → Emit Reg) (a b c : α) : Emit (List Reg) := do
  return [← hash a, ← hash b, ← equals a a, ← equals a b, ← equals b a, ← equals b c, ← equals a c]

instance [∀ v, Growing (hash v)] [∀ v w, Growing (equals v w)] (a b c : α) : Growing (relate hash equals a b c) := by
  unfold relate
  infer_instance

/-- The code is emitted, and where it has been emitted into the function, its run ends, without a report, with the hash
codes and the equalities in its registers. The equality is an equivalence, it holds of `a` and `b` just if they are the same,
and their hash codes are equal then. -/
def Host.Relates {α : Type} (host : Host) (s : Point) (hash : α → Emit Reg) (equals : α → α → Emit Reg) (a b c : α)
    (same : Prop) : Prop :=
  ∃ regs b', Emit.relate hash equals a b c s.builder = .ok regs b' ∧ (b'.Within host.function host.program →
    ∃ (s' : Point) (aHash bHash : Word) (aa ab ba bc ac : Bool),
      host.Steps s s' ∧ s'.builder = b' ∧ s'.machine = s.machine ∧
      s'.ReadsAll regs ([aHash, bHash].map (.i64, ·) ++ [aa, ab, ba, bc, ac].map (.i1, Word.ofBool ·)) ∧
      aa = true ∧ ba = ab ∧ (ab = true → bc = true → ac = true) ∧ (ab = true ↔ same) ∧ (ab = true → aHash = bHash))

/-- The equality of values is an equivalence if it compares what they stand for. -/
theorem Host.Relates.of_yields {δ : Type} [DecidableEq δ] {host : Host} {s : Point}
    [∀ v, Growing (hash v)] [∀ v w, Growing (equals v w)] {code : δ → Word}
    {a b c : α} {x y z : δ} (here : s.At host) (Is : Point → α → δ → Prop)
    (mono : ∀ {s s' v d}, Is s v d → s.Before s' → Is s' v d)
    (hashes : ∀ {s v d}, Is s v d → host.Yields (hash v) s fun r s' => s'.Reads r .i64 (code d))
    (compares : ∀ {s v w d e}, Is s v d → Is s w e → host.Yields (equals v w) s fun r s' => s'.Bit r (decide (d = e)))
    (safeHash : ∀ {b' v}, s.builder.function.types.toList <+: b'.function.types.toList → v ∈ [a, b, c] →
      Safe (fun _ => False) 0 0 (hash v) b' fun _ _ => True)
    (safeEquals : ∀ {b' v w}, s.builder.function.types.toList <+: b'.function.types.toList → v ∈ [a, b, c] →
      w ∈ [a, b, c] → Safe (fun _ => False) 0 0 (equals v w) b' fun _ _ => True)
    (aIs : Is s a x) (bIs : Is s b y) (cIs : Is s c z) : host.Relates s hash equals a b c (x = y) := by
  have safe : Safe (fun _ => False) 0 0 (relate hash equals a b c) s.builder fun _ _ => True := by
    refine (safeHash (List.prefix_refl _) (by simp)).bind fun _ b1 grows1 _ => ?_
    refine (safeHash grows1.types (by simp)).bind fun _ b2 grows2 _ => ?_
    have upto := grows1.types.trans grows2.types
    refine (safeEquals upto (by simp) (by simp)).bind fun _ b3 grows3 _ => ?_
    have upto := upto.trans grows3.types
    refine (safeEquals upto (by simp) (by simp)).bind fun _ b4 grows4 _ => ?_
    have upto := upto.trans grows4.types
    refine (safeEquals upto (by simp) (by simp)).bind fun _ b5 grows5 _ => ?_
    have upto := upto.trans grows5.types
    refine (safeEquals upto (by simp) (by simp)).bind fun _ b6 grows6 _ => ?_
    exact (safeEquals (upto.trans grows6.types) (by simp) (by simp)).bind fun _ b7 _ _ => .pure trivial
  obtain ⟨regs, b', emitted, -⟩ := safe.emitted here.ready here.ready.room
  refine ⟨regs, b', emitted, fun within => ?_⟩
  have runs : host.Yields (relate hash equals a b c) s fun regs s' => s'.ReadsAll regs
      ([code x, code y].map (.i64, ·) ++
        [true, decide (x = y), decide (y = x), decide (y = z), decide (x = z)].map (.i1, Word.ofBool ·)) := by
    refine (hashes aIs).andThen fun r1 s1 before1 read1 => ?_
    refine (hashes (mono bIs before1)).andThen fun r2 s2 before2 read2 => ?_
    have upto := before1.trans before2
    refine (compares (mono aIs upto) (mono aIs upto)).andThen fun r3 s3 before3 read3 => ?_
    have upto := upto.trans before3
    refine (compares (mono aIs upto) (mono bIs upto)).andThen fun r4 s4 before4 read4 => ?_
    have upto := upto.trans before4
    refine (compares (mono bIs upto) (mono aIs upto)).andThen fun r5 s5 before5 read5 => ?_
    have upto := upto.trans before5
    refine (compares (mono bIs upto) (mono cIs upto)).andThen fun r6 s6 before6 read6 => ?_
    have upto := upto.trans before6
    refine (compares (mono aIs upto) (mono cIs upto)).andThen fun r7 s7 before7 read7 => ?_
    rw [decide_eq_true rfl] at read3
    have last := before6.trans before7
    have late := before4.trans (before5.trans last)
    exact .pure ⟨rfl, .cons (read1.mono (before2.trans (before3.trans late))) (.cons (read2.mono (before3.trans late))
      (.cons (read3.mono late) (.cons (read4.mono (before5.trans last)) (.cons (read5.mono last)
        (.cons (read6.mono before7) (.cons read7 .nil))))))⟩
  obtain ⟨s', builder, steps, _, _, machine, reads⟩ := runs regs b' emitted within here
  refine ⟨s', _, _, _, _, _, _, _, steps, builder, machine, reads, rfl, ?_, ?_, ?_, ?_⟩
  · exact decide_eq_decide.mpr eq_comm
  · simp only [decide_eq_true_eq]
    exact Eq.trans
  · exact decide_eq_true_iff
  · intro same
    rw [of_decide_eq_true same]

/-- Three values, and three tuples member by member, of types that may be compared with each other. -/
theorem Held.equality_is_consistent {host : Host} {s : Point} (here : s.At host) {a b c : Held} {x y z : Datum}
    (aIs : a.Is s x) (bIs : b.Is s y) (cIs : c.Is s z)
    (comparable : ∀ v ∈ [a, b, c], ∀ w ∈ [a, b, c], v.ty.Comparable w.ty)
    {as bs cs : List Held} {xs ys zs : List Datum} (asAre : Held.All s as xs) (bsAre : Held.All s bs ys)
    (csAre : Held.All s cs zs)
    (members : ∀ vs ∈ [as, bs, cs], ∀ ws ∈ [as, bs, cs], List.Forall₂ (fun v w : Held => v.ty.Comparable w.ty) vs ws) :
    host.Relates s Held.hash Held.equals a b c (x = y) ∧
      host.Relates s Held.hashTuple Held.equalsTuple as bs cs (xs = ys) := by
  have formed : ∀ v ∈ [a, b, c], v.Formed s.builder := by
    simp only [List.forall_mem_cons, List.not_mem_nil, false_implies, implies_true, and_true]
    exact ⟨aIs.formed, bIs.formed, cIs.formed⟩
  have allFormed : ∀ vs ∈ [as, bs, cs], ∀ v ∈ vs, v.Formed s.builder := by
    have each {vs : List Held} {ds : List Datum} (are : Held.All s vs ds) : ∀ v ∈ vs, v.Formed s.builder := by
      induction are with
      | nil => nofun
      | cons is _ ih => exact List.forall_mem_cons.mpr ⟨is.formed, ih⟩
    simp only [List.forall_mem_cons, List.not_mem_nil, false_implies, implies_true, and_true]
    exact ⟨each asAre, each bsAre, each csAre⟩
  constructor
  · exact .of_yields here (fun s v d => v.Is s d) Is.mono Is.hash Is.equals
      (fun more member => (safe_hash ((formed _ member).mono more)).mono fun _ _ _ _ => trivial)
      (fun more first second => (safe_equals ((formed _ first).mono more) ((formed _ second).mono more)
        (comparable _ first _ second)).mono fun _ _ _ _ => trivial) aIs bIs cIs
  · exact .of_yields here Held.All (fun are before => are.imp fun _ _ is => is.mono before) attains_hashTuple
      attains_equalsTuple
      (fun more member => (safe_hashTuple fun v among => (allFormed _ member v among).mono more).mono fun _ _ _ _ => trivial)
      (fun more first second => (safe_equalsTuple (fun v among => (allFormed _ first v among).mono more)
        (fun v among => (allFormed _ second v among).mono more) (members _ first _ second)).mono fun _ _ _ _ => trivial)
      asAre bsAre csAre

namespace Held.NullExample

/-- NULL among the integers. -/
def missing : Held := .nullable (.integer ⟨1⟩) ⟨2⟩

def largest : Held := .present (.integer ⟨0⟩)

theorem comparable : ∀ v ∈ [missing, .unknown, largest], ∀ w ∈ [missing, .unknown, largest], v.ty.Comparable w.ty := by
  simp [ValueType.Comparable, missing, largest, ty, Present.ty, ValueType.comparable, ValueType.sameShape,
    ValueType.integer, ValueType.asNullable, ValueType.withNullable, ValueType.unknown]

end Held.NullExample

open Scalar.Example Held.NullExample in
/-- NULL of a nullable type equals the NULL literal, with the same hash code. -/
theorem Held.equality_is_consistent_nulls : ∃ (host : Host) (s s' : Point) (regs : List Reg) (w : Word) (bc ac : Bool),
    s.At host ∧ Held.All s [missing, .unknown, largest] [.null, .null, .integer 2147483647] ∧
    (∀ v ∈ [missing, .unknown, largest], ∀ w ∈ [missing, .unknown, largest], v.ty.Comparable w.ty) ∧ host.Steps s s' ∧
    s'.ReadsAll regs ([w, w].map (.i64, ·) ++ [true, true, true, bc, ac].map (.i1, Word.ofBool ·)) ∧
    host.Relates s Held.hashTuple Held.equalsTuple [missing] [.unknown] [largest] ([Datum.null] = [.null]) := by
  have emits : (match relate hash equals missing .unknown largest builder with
      | .ok _ b => decide (b.function.slots.size = 0)
      | .error _ _ => false) = true := by decide +kernel
  generalize emitted : relate hash equals missing .unknown largest builder = result at emits
  cases result with
  | error fault b => cases emits
  | ok regs b =>
    obtain ⟨host, s, at_builder, here, within, is⟩ := exists_point emitted (of_decide_eq_true emits)
    obtain ⟨⟨-, largestIs⟩, rest⟩ := List.forall₂_cons.mp is
    have missingIs := (List.forall₂_cons.mp rest).1.2
    have members : ∀ vs ∈ [[missing], [unknown], [largest]], ∀ ws ∈ [[missing], [unknown], [largest]],
        List.Forall₂ (fun v w : Held => v.ty.Comparable w.ty) vs ws := by
      simpa using Held.NullExample.comparable
    obtain ⟨⟨regs', b', emitted', runs⟩, tuples⟩ := equality_is_consistent here missingIs .unknown largestIs
      Held.NullExample.comparable (.cons missingIs .nil) (.cons .unknown .nil) (.cons largestIs .nil) members
    rw [at_builder] at emitted'
    cases emitted.symm.trans emitted'
    obtain ⟨s', w, w', aa, ab, ba, bc, ac, steps, _, _, reads, rfl, rfl, _, same, hashes⟩ := runs within
    cases same.mpr rfl
    cases hashes rfl
    exact ⟨host, s, s', regs, w, bc, ac, here, .cons missingIs (.cons .unknown (.cons largestIs .nil)),
      Held.NullExample.comparable, steps, reads, tuples⟩

end QueryEngine
