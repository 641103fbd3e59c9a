import QueryEngine.Proofs.Value.Forms

namespace QueryEngine

open Emit Safe Present

variable {fails : Fault EmitError → Prop} {n : Nat} {b : Builder}

/-- A numeric of at most 18 digits, or a type that is no numeric. -/
def ValueType.Bounded (ty : ValueType) : Prop :=
  ∀ length precision, ty.shape = .numeric length precision → precision ≤ length ∧ length ≤ 18

variable {ty : ValueType}

theorem ValueType.Bounded.precision_le (bounded : ty.Bounded) : ty.precision ≤ 18 := by
  unfold precision
  split
  next length precision shape =>
    obtain ⟨inner, most⟩ := bounded length precision shape
    exact UInt8.le_trans inner most
  · decide

theorem ValueType.Bounded.of_shape {other : ValueType} (bounded : ty.Bounded) (same : other.shape = ty.shape) :
    other.Bounded := by
  unfold Bounded at bounded ⊢
  rwa [same]

theorem powerOfTen?_sub (bound : large ≤ 18) (less : small ≤ large) :
    powerOfTen? (large - small) = some (10 ^ (large - small).toNat) := by
  have few : large - small ≤ 18 := by
    rw [UInt8.le_iff_toNat_le] at bound ⊢
    rw [UInt8.toNat_sub_of_le _ _ less]
    omega
  exact if_pos few

/-- Lengths and precisions of at most 18 are added without overflow. -/
theorem ValueType.addBytes?_eq (few : first ≤ 18) (few' : second ≤ 18) :
    addBytes? first second = some (first + second) ∧ (first + second).toNat = first.toNat + second.toNat := by
  rw [UInt8.le_iff_toNat_le] at few few'
  have fits : first.toNat + second.toNat < 256 := by
    change _ ≤ 18 at few few'
    omega
  exact ⟨by rw [addBytes?, if_pos fits], by rw [UInt8.toNat_add]; omega⟩

/-- Arithmetic on operands of these types stays within words, with a result of this type. A quotient is scaled up by as many
digits as the result has more than the division leaves. -/
inductive ArithOp.Works (op : ArithOp) (result lhs rhs : ValueType) : Prop
  | integer (shape : result.shape = .integer) (left : lhs.shape = .integer) (right : rhs.shape = .integer)
  | numeric {length precision l1 p l2 q : UInt8} (shape : result.shape = .numeric length precision)
    (left : lhs.numericParts? = some (l1, p)) (right : rhs.numericParts? = some (l2, q))
    (few : p ≤ 18) (few' : q ≤ 18) (most : precision ≤ 18) (product : op = .mul → p.toNat + q.toNat ≤ 18)
    (quotient : op = .div → precision.toNat + q.toNat - p.toNat ≤ 18)

variable {op : ArithOp}

theorem ArithOp.Works.of_shapes (works : op.Works result lhs rhs) (same : result'.shape = result.shape)
    (left : lhs'.shape = lhs.shape) (right : rhs'.shape = rhs.shape) :
    op.Works result' lhs' rhs' := by
  have parts {ty ty' : ValueType} (same : ty'.shape = ty.shape) : ty'.numericParts? = ty.numericParts? := by
    rw [ValueType.numericParts?, ValueType.numericParts?, same]
  cases works with
  | integer shape isInteger isInteger' =>
    exact .integer (same.trans shape) (left.trans isInteger) (right.trans isInteger')
  | numeric shape isNumber isNumber' few few' most product quotient =>
    exact .numeric (same.trans shape) ((parts left).trans isNumber) ((parts right).trans isNumber') few few' most product
      quotient

namespace Emit.Safe

variable {r r' : Reg} {ty : CodeType}

theorem reportIf {cond : Reg} {routine : Routine} {message : String} (params : routine.params = [.ptr, .i64])
    (short : (textBytes message).length ≤ Arena.literal.span) :
    Safe fails (n + 1) n (reportIf cond routine message) b fun _ _ => True := by
  refine ifThen fun c _ => (constBytes short).bind fun (address, len) b1 _ ⟨ptr, count⟩ => callEffect ?_
  rw [params]
  exact .cons ptr (.cons count .nil)

/-- A division reports a zero divisor, with one literal. -/
theorem divide (left : r.Of ty b) (right : r'.Of ty b) : Safe fails (n + 1) n (divide r r') b (Reg.Of ty) := by
  refine (typeOf right).bind fun found b' _ ⟨same, equal⟩ => ?_
  subst same equal
  refine (const _ 0).bind fun zero b1 grows1 zeroTyped => ?_
  refine (const _ 1).bind fun one b2 grows2 oneTyped => ?_
  refine (compare .eq).bind fun isZero b3 grows3 _ => ?_
  refine (reportIf rfl (by decide +kernel)).bind fun _ b4 grows4 _ => ?_
  have more4 := grows3.types.trans grows4.types
  refine (select (oneTyped.mono more4)).bind fun divisor b5 grows5 _ => ?_
  have more5 := grows2.types.trans (more4.trans grows5.types)
  refine (binary .sdiv (left.mono (grows1.types.trans more5))).bind fun quotient b6 grows6 _ => ?_
  exact select (zeroTyped.mono (more5.trans grows6.types))

theorem message_short (op : ArithOp) (ty : CodeType) :
    (textBytes ("overflow in " ++ op.verb ++ " of " ++ ty.text)).length ≤ Arena.literal.span := by
  cases op <;> cases ty <;> decide +kernel

theorem checkedBy (op : ArithOp) (binaryOp : BinaryOp) (overflowOp : OverflowOp) (left : r.Of ty b) :
    Safe fails (n + 1) n (checkedBy op binaryOp overflowOp r r') b (Reg.Of ty) := by
  refine (binary binaryOp left).bind fun result b1 grows1 typed => ?_
  refine (overflows overflowOp).bind fun overflowed b2 grows2 _ => ?_
  refine (typeOf (left.mono (grows1.types.trans grows2.types))).bind fun found b3 _ ⟨same, equal⟩ => ?_
  subst same equal
  refine (reportIf rfl (message_short op found)).bind fun _ b4 grows4 _ => ?_
  exact .pure (typed.mono (grows2.types.trans grows4.types))

/-- Arithmetic reports what does not fit, with one literal. -/
theorem checked (op : ArithOp) (left : r.Of ty b) (right : r'.Of ty b) :
    Safe fails (n + 1) n (checked op r r') b (Reg.Of ty) := by
  cases op with
  | add | sub | mul => exact checkedBy _ _ _ left
  | div => exact divide left right

/-- The factor between two precisions is a word, if both are at most 18. -/
theorem rescale (few : source ≤ 18) (few' : target ≤ 18) (typed : r.Of .i64 b) :
    Safe fails (n + 1) n (rescale r source target) b (Reg.Of .i64) := by
  refine .ite (fun _ => (pure typed).spare (Nat.le_succ n)) fun _ => .ite (fun less => ?_) fun least => ?_
  · refine (orTrap (powerOfTen?_sub few' (UInt8.le_of_lt less))).bind fun factor b1 grows1 ⟨same, _⟩ => ?_
    subst same
    refine (const .i64 factor).bind fun factor b2 grows2 factorTyped => ?_
    exact checked .mul (typed.mono grows2.types) factorTyped
  · refine (orTrap (powerOfTen?_sub few (UInt8.not_lt.mp least))).bind fun factor b1 grows1 ⟨same, _⟩ => ?_
    subst same
    refine spare (n := n) ((const .i64 factor).bind fun factor b2 grows2 _ => ?_) (Nat.le_succ n)
    exact binary .sdiv (typed.mono grows2.types)

theorem stringOrder (left : Typed b [address, len] [.ptr, .i64]) (right : Typed b [address', len'] [.ptr, .i64]) :
    Safe fails n n (stringOrder address len address' len') b (Reg.Of .i64) := by
  obtain ⟨ptr, tail⟩ := List.forall₂_cons.mp left
  obtain ⟨count, _⟩ := List.forall₂_cons.mp tail
  obtain ⟨ptr', _⟩ := List.forall₂_cons.mp right
  refine (compare .ult).bind fun shorter b1 grows1 _ => ?_
  refine (select (count.mono grows1.types)).bind fun least b2 grows2 leastTyped => ?_
  have more2 := grows1.types.trans grows2.types
  have args : Typed b2 [address, address', least] Routine.compareBytes.params :=
    .cons (ptr.mono more2) (.cons (ptr'.mono more2) (.cons leastTyped .nil))
  refine (callValue rfl args).bind fun order b3 grows3 orderTyped => ?_
  refine (resize orderTyped .i64 true).bind fun wide b4 grows4 _ => ?_
  refine (const .i64 0).bind fun zero b5 grows5 _ => ?_
  refine (compare .eq).bind fun same b6 grows6 _ => ?_
  have more6 := more2.trans (grows3.types.trans (grows4.types.trans (grows5.types.trans grows6.types)))
  refine (binary .sub (count.mono more6)).bind fun difference b7 _ typed => ?_
  exact select typed

end Emit.Safe

namespace Present

variable {v w : Present}

/-- A literal that can be coerced to a type. -/
theorem safe_constant (coerced : d.coerce ty.asNotNull = .ok d') :
    Safe fails (n + 1) n (constant d ty) b (Present.Of ty.asNotNull) := by
  have value : d'.Coerced ty.asNotNull.shape := by
    rcases Datum.coerce_cases coerced with ⟨_, nullable⟩ | value
    · cases nullable
    · exact value
  unfold constant
  refine (Safe.ofChecked coerced).bind fun found b1 _ ⟨same, equal⟩ => ?_
  subst same equal
  generalize known : ty.asNotNull = target at value
  have plain : target.nullable = false := by rw [← known]; rfl
  obtain ⟨shape, nullable⟩ := target
  cases plain
  have one {r : Reg} {c : Builder} {type : CodeType} (typed : r.Of type c) : Typed c [r] [type] :=
    .cons typed .nil
  cases value with
  | bool value =>
    refine Safe.spare ((Safe.const .i8 _).bind fun r b2 _ typed => ?_) (Nat.le_succ n)
    exact .pure ⟨one typed, rfl⟩
  | integer m | date m =>
    refine Safe.spare ((Safe.const .i32 _).bind fun r b2 _ typed => ?_) (Nat.le_succ n)
    exact .pure ⟨one typed, rfl⟩
  | timestamp m =>
    refine Safe.spare ((Safe.const .i64 _).bind fun r b2 _ typed => ?_) (Nat.le_succ n)
    exact .pure ⟨one typed, rfl⟩
  | numeric raw length precision =>
    refine Safe.spare ((Safe.const .i64 _).bind fun r b2 _ typed => ?_) (Nat.le_succ n)
    exact safe_ofRegs nofun (one typed)
  | char short | varchar short =>
    refine (Safe.constBytes ?_).bind fun (address, len) b2 _ ⟨ptr, count⟩ => ?_
    · rw [textBytes_length]
      exact Nat.le_trans short (Nat.le_of_lt (Nat.lt_of_lt_of_le (UInt16.toNat_lt _) (by decide)))
    · exact safe_ofRegs nofun (.cons ptr (.cons count .nil))

/-- A literal that is refused. -/
theorem safe_constant_refused (refused : d.coerce ty.asNotNull = .error (.error cause))
    (allowed : ∀ cause, fails (.error cause)) :
    Safe fails n n (constant d ty) b post := by
  have code : Safe fails n n (ofChecked .datum (d.coerce ty.asNotNull)) b fun _ _ => False := by
    rw [refused]
    exact .throw (allowed _)
  exact code.bind fun _ _ _ impossible => impossible.elim

theorem string?_typed (formed : v.Formed b) (found : v.string? = some (address, len)) :
    Typed b [address, len] [.ptr, .i64] := by
  cases v with
  | char | varchar => cases found; exact formed
  | _ => cases found

/-- Values of types that can be compared. Numerics among them have the same precision, so none is scaled. -/
theorem safe_compare (left : v.Formed b) (right : w.Formed b) (comparable : v.ty.comparable w.ty = true) :
    Safe fails n n (compare mode v w) b (Reg.Of .i1) := by
  have strings {address len address' len' : Reg} (found : v.string? = some (address, len))
      (found' : w.string? = some (address', len')) :
      Safe fails n n (do
        let order ← stringOrder address len address' len'
        let zero ← const .i64 0
        Emit.compare mode.predicate order zero) b (Reg.Of .i1) := by
    refine (stringOrder (string?_typed left found) (string?_typed right found')).bind fun order b1 _ _ => ?_
    exact (Safe.const .i64 0).bind fun zero b2 _ _ => .compare _
  cases v with
  | bool x => cases w with
    | bool y => exact .compare _
    | _ => cases comparable
  | integer x => cases w with
    | integer y => exact .compare _
    | _ => cases comparable
  | numeric x l p => cases w with
    | numeric y k q =>
      have same : l = k ∧ p = q := by
        simpa [ty, ValueType.comparable, ValueType.sameShape, ValueType.numeric] using comparable
      obtain ⟨rfl, rfl⟩ := same
      have kept (raw : Reg) : rescale raw p (max p p) = Pure.pure raw := if_pos (ite_self p)
      rw [compare, kept, kept]
      exact .compare _
    | _ => cases comparable
  | char address len l => cases w with
    | char address' len' k =>
      unfold compare
      exact .ite (fun _ => strings rfl rfl) fun different => absurd comparable different
    | _ => cases comparable
  | varchar address len l => cases w with
    | varchar address' len' k =>
      unfold compare
      exact .ite (fun _ => strings rfl rfl) fun different => absurd comparable different
    | _ => cases comparable
  | date x => cases w with
    | date y => exact .compare _
    | _ => cases comparable
  | timestamp x => cases w with
    | timestamp y => exact .compare _
    | _ => cases comparable

theorem safe_widen (formed : v.Formed b) (parts : v.ty.numericParts? = some (length, precision)) :
    Safe fails n n (widen v) b fun found b' =>
      ∃ r, found = some (r, length, precision) ∧ r.Of .i64 b' := by
  cases v with
  | integer r =>
    cases parts
    refine (resize (List.forall₂_cons.mp formed).1 .i64 true).bind fun wide b1 _ typed => ?_
    exact .pure ⟨wide, rfl, typed⟩
  | numeric raw =>
    cases parts
    exact .pure ⟨raw, rfl, (List.forall₂_cons.mp formed).1⟩
  | _ => cases parts

theorem isNumber_of_parts (found : v.ty.numericParts? = some parts) : v.isNumber = true := by
  cases v with
  | integer | numeric => rfl
  | _ => cases found

theorem safe_numericArithmetic {precision p q : UInt8} {x y : Reg} (few : p ≤ 18) (few' : q ≤ 18)
    (most : precision ≤ 18) (product : op = .mul → p.toNat + q.toNat ≤ 18)
    (quotient : op = .div → precision.toNat + q.toNat - p.toNat ≤ 18) (left : x.Of .i64 b) (right : y.Of .i64 b) :
    Safe fails (n + 3) n (numericArithmetic op precision x p y q) b (Reg.Of .i64) := by
  have additive : Safe fails (n + 3) n (do
      let x ← rescale x p precision
      let y ← rescale y q precision
      checked op x y) b (Reg.Of .i64) := by
    refine (rescale few most left).bind fun x b1 grows1 typed => ?_
    refine (rescale few' most (right.mono grows1.types)).bind fun y b2 grows2 typed' => ?_
    exact .checked op (typed.mono grows2.types) typed'
  cases op with
  | add | sub => exact additive
  | mul =>
    obtain ⟨found, sum⟩ := ValueType.addBytes?_eq few few'
    refine spare (n := n + 2) ?_ (by omega)
    refine (checked .mul left right).bind fun raw b1 _ typed => ?_
    refine (orTrap found).bind fun digits b2 _ ⟨same, equal⟩ => ?_
    subst same equal
    refine rescale ?_ most typed
    rw [UInt8.le_iff_toNat_le, sum]
    exact product rfl
  | div =>
    obtain ⟨found, sum⟩ := ValueType.addBytes?_eq most few'
    have scale := quotient rfl
    refine spare (n := n + 2) ?_ (by omega)
    refine (orTrap found).bind fun digits b1 _ ⟨same, equal⟩ => ?_
    subst same equal
    refine (rescale (by decide) ?_ left).bind fun numerator b2 grows2 typed => ?_
    · rw [UInt8.le_iff_toNat_le, sum, UInt8.toNat_ofNat']
      exact Nat.le_trans (Nat.mod_le _ _) scale
    · exact .divide typed (right.mono grows2.types)

theorem safe_arithmetic (left : v.Formed b) (right : w.Formed b) (works : op.Works result v.ty w.ty) :
    Safe fails (n + 3) n (arithmetic op result v w) b (Present.Of result.asNotNull) := by
  unfold arithmetic
  dsimp only
  cases works with
  | integer shape isInteger isInteger' =>
    rw [shape]
    cases v with
    | integer x => cases w with
      | integer y =>
        refine spare (n := n + 1) ?_ (by omega)
        refine (checked op (List.forall₂_cons.mp left).1 (List.forall₂_cons.mp right).1).bind fun r b1 _ typed => ?_
        exact .pure ⟨.cons typed .nil, ty_eq shape.symm⟩
      | _ => cases isInteger'
    | _ => cases isInteger
  | numeric shape parts parts' few few' most product quotient =>
    rw [shape]
    refine .ite (fun _ => ?_) fun none => absurd (by simp [isNumber_of_parts parts, isNumber_of_parts parts']) none
    refine (safe_widen left parts).bind fun found b1 grows1 ⟨x, given, typed⟩ => ?_
    subst given
    refine (safe_widen (right.mono grows1.types) parts').bind fun found b2 grows2 ⟨y, given, typed'⟩ => ?_
    subst given
    refine (safe_numericArithmetic few few' most product quotient (typed.mono grows2.types) typed').bind
      fun r b3 _ resultTyped => ?_
    exact .pure ⟨.cons resultTyped .nil, ty_eq shape.symm⟩

/-- Numbers are cast to numerics. Any other cast may be refused. -/
theorem safe_cast (formed : v.Formed b) (bounded : v.ty.Bounded) (bounded' : target.Bounded)
    (allowed : v.isNumber = true ∧ target.isNumeric = true ∨ ∀ cause, fails (.error cause)) :
    Safe fails (n + 1) n (cast target v) b (Present.Of target.asNotNull) := by
  have few := bounded.precision_le
  have few' := bounded'.precision_le
  have refused (cause : EmitError) (other : ¬(v.isNumber = true ∧ target.isNumeric = true)) :
      Safe fails (n + 1) n (fail cause) b (Present.Of target.asNotNull) :=
    .throw (allowed.resolve_left other cause)
  have kept {r : Present} (regs : r.Formed b) (shape : r.ty.shape = target.shape) :
      Safe fails (n + 1) n (pure r) b (Present.Of target.asNotNull) :=
    (Safe.pure ⟨regs, ty_eq shape⟩).spare (Nat.le_succ n)
  unfold cast
  refine .ite (fun same => kept formed (of_decide_eq_true same)) fun different => ?_
  unfold ValueType.precision at few few'
  unfold ValueType.isNumeric at refused
  generalize shape : target.shape = form at few' refused kept
  have result {r : Present} (same : r.ty.shape = form) : r.ty = target.asNotNull := ty_eq (same.trans shape.symm)
  cases v with
  | integer x => cases form with
    | numeric length precision =>
      refine (resize (List.forall₂_cons.mp formed).1 .i64 true).bind fun wide b1 _ typed => ?_
      refine (rescale (by decide) few' typed).bind fun raw b2 _ typed' => ?_
      exact .pure ⟨.cons typed' .nil, result rfl⟩
    | _ => exact refused _ (by simp)
  | numeric x l p => cases form with
    | numeric length precision =>
      refine (rescale few few' (List.forall₂_cons.mp formed).1).bind fun raw b1 _ typed => ?_
      exact .pure ⟨.cons typed .nil, result rfl⟩
    | integer =>
      refine (rescale few (by decide) (List.forall₂_cons.mp formed).1).bind fun whole b1 _ typed => ?_
      refine (resize typed .i32 true).bind fun narrow b2 _ typed' => ?_
      exact .pure ⟨.cons typed' .nil, result rfl⟩
    | _ => exact refused _ (by simp)
  | char address len length | varchar address len length => cases form with
    | char | varchar => exact kept formed rfl
    | _ => exact refused _ (by simp [isNumber])
  | date day => cases form with
    | timestamp =>
      refine (resize (List.forall₂_cons.mp formed).1 .i64 true).bind fun wide b1 _ typed => ?_
      refine (Safe.const .i64 86400).bind fun seconds b2 grows2 typed' => ?_
      refine (Safe.checked .mul (typed.mono grows2.types) typed').bind fun second b3 _ typed'' => ?_
      exact .pure ⟨.cons typed'' .nil, result rfl⟩
    | _ => exact refused _ (by simp [isNumber])
  | bool | timestamp => exact refused _ (by simp [isNumber])

end Present

variable {isAnd : Bool}

namespace Held

variable {h h' : Held} {k : Nat}

theorem nullable_eq (found : h.value? = some v) : h.ty.nullable = !h.flags.isEmpty := by
  cases h with
  | unknown => cases found
  | present v => exact v.ty_nullable
  | nullable v flag => rfl

theorem Formed.value (formed : h.Formed b) (found : h.value? = some v) : v.Formed b ∧ v.ty.shape = h.ty.shape := by
  cases h with
  | unknown => cases found
  | present v => cases found; exact ⟨formed, rfl⟩
  | nullable v flag => cases found; exact ⟨formed.1, rfl⟩

theorem Formed.flags (formed : h.Formed b) : ∀ flag ∈ h.flags, flag.Of .i1 b := by
  cases h with
  | unknown | present => simp [flags]
  | nullable v flag => simpa [flags] using formed.2

theorem eq_unknown_iff : h = .unknown ↔ h.ty.isUnknown = true := by
  cases h with
  | unknown => exact ⟨fun _ => rfl, fun _ => rfl⟩
  | present v | nullable v => exact ⟨nofun, fun isUnknown => absurd isUnknown v.known⟩

theorem value?_eq_none (missing : h.value? = none) : h = .unknown := by
  cases h with
  | unknown => rfl
  | present | nullable => cases missing

/-- Code under a guard results in a value that has a flag if there are flags. -/
theorem safe_guarded {flags : List Reg} {code : Emit Present} [Growing code] (bits : ∀ flag ∈ flags, flag.Of .i1 b)
    (known : ty.isUnknown ≠ true ∨ ∀ cause, fails (.error cause))
    (safe : ∀ c, b.function.types.toList <+: c.function.types.toList → Safe fails k n code c (Present.Of ty.asNotNull)) :
    Safe fails k n (guarded flags ty code) b (Held.Of (ty.withNullable (!flags.isEmpty))) := by
  cases flags with
  | nil =>
    refine (safe b (List.prefix_refl _)).bind fun v b1 _ ⟨formed, same⟩ => ?_
    exact .pure ⟨formed, same⟩
  | cons first rest =>
    have combined : Safe fails k k (rest.foldlM (fun any flag => binary .or any flag) first) b
        (Reg.Of .i1) :=
      .foldlM (bits first List.mem_cons_self) fun any flag _ c _ typed => .binary .or typed
    refine combined.bind fun any b1 grows1 anyTyped => ?_
    have zero (c : Builder) : Safe fails k k (do return (← zero ty).regs) c fun values d =>
        Typed d values ty.registers := by
      by_cases isUnknown : ty.isUnknown = true
      · have none : ty.parts? = none := by rw [ValueType.parts?, ValueType.isUnknown_iff.mp isUnknown]
        unfold zero build
        rw [none]
        exact .throw (known.resolve_left (fun isKnown => isKnown isUnknown) _)
      · refine (safe_zero isUnknown).bind fun v d _ ⟨formed, same⟩ => .pure ?_
        rw [Present.Formed, same] at formed
        exact formed
    have value (c : Builder) (more : b1.function.types.toList <+: c.function.types.toList) :
        Safe fails k n (do return (← code).regs) c fun values d => Typed d values ty.registers := by
      refine (safe c (grows1.types.trans more)).bind fun v d _ ⟨formed, same⟩ => .pure ?_
      rw [Present.Formed, same] at formed
      exact formed
    refine (ifThenElse (fun c _ => zero c) value).bind fun merged b2 grows2 typed => ?_
    by_cases isUnknown : ty.isUnknown = true
    · unfold Present.ofRegs
      rw [ValueType.isUnknown_iff.mp isUnknown]
      exact .throw (known.resolve_left (fun isKnown => isKnown isUnknown) _)
    · refine (safe_ofRegs isUnknown typed).bind fun v b3 grows3 ⟨formed, same⟩ => .pure ⟨⟨formed, ?_⟩, ?_⟩
      · exact anyTyped.mono (grows2.types.trans grows3.types)
      · rw [Held.ty, same]
        rfl

theorem safe_lift {code : Present → Emit Present} [∀ v, Growing (code v)] (formed : h.Formed b)
    (known : ty.isUnknown ≠ true ∨ ∀ cause, fails (.error cause))
    (safe : ∀ v, h.value? = some v → ∀ c, b.function.types.toList <+: c.function.types.toList →
      Safe fails (n + k) n (code v) c (Present.Of ty.asNotNull)) :
    Safe fails (n + k) n (h.lift ty code) b (Held.Of (ty.withNullable h.ty.nullable)) := by
  unfold lift
  cases found : h.value? with
  | none =>
    rw [value?_eq_none found]
    exact safe_null.spare (Nat.le_add_right n k)
  | some v =>
    rw [nullable_eq found]
    exact safe_guarded formed.flags known (safe v found)

theorem safe_lift₂ {code : Present → Present → Emit Present} [∀ v w, Growing (code v w)] (left : h.Formed b)
    (right : h'.Formed b)
    (safe : ∀ v w, h.value? = some v → h'.value? = some w → ty.isUnknown ≠ true ∧
      ∀ c, b.function.types.toList <+: c.function.types.toList → Safe fails (n + k) n (code v w) c (Present.Of ty.asNotNull)) :
    Safe fails (n + k) n (lift₂ ty code h h') b (Held.Of (ty.withNullable (h.ty.nullable || h'.ty.nullable))) := by
  have null : Safe fails (n + k) n (Held.null ty.asNotNull) b (Held.Of (ty.withNullable true)) :=
    safe_null.spare (Nat.le_add_right n k)
  unfold lift₂
  cases found : h.value? with
  | none => rw [value?_eq_none found]; exact null
  | some v =>
    cases found' : h'.value? with
    | none => rw [value?_eq_none found', Bool.or_comm]; exact null
    | some w =>
      obtain ⟨isKnown, emits⟩ := safe v w found found'
      have either : (h.ty.nullable || h'.ty.nullable) = !(h.flags ++ h'.flags).isEmpty := by
        rw [nullable_eq found, nullable_eq found']
        cases h.flags <;> rfl
      rw [either]
      refine safe_guarded (fun flag member => ?_) (.inl isKnown) emits
      rcases List.mem_append.mp member with first | second
      · exact left.flags flag first
      · exact right.flags flag second

theorem safe_expectBool (isBool : h.ty.IsCondition) : Safe fails n n (h.expectBool operation) b fun _ _ => True := by
  unfold expectBool
  rcases isBool with shape | shape <;> (rw [shape]; exact .pure trivial)

/-- Values of types that can be compared, or of which one is NULL. -/
theorem safe_compare (left : h.Formed b) (right : h'.Formed b) (comparable : ValueType.comparison h.ty h'.ty = .ok ty) :
    Safe fails n n (compare mode h h') b (Held.Of (ValueType.bool.withNullable (h.ty.nullable || h'.ty.nullable))) := by
  have checks : Safe fails n n (checkComparable h h') b fun _ _ => True := by
    unfold checkComparable
    rw [comparable]
    exact .pure trivial
  refine checks.bind fun _ b1 grows1 _ => ?_
  have left := left.mono grows1.types
  have right := right.mono grows1.types
  refine safe_lift₂ (k := 0) left right fun v w found found' => ⟨nofun, fun c more => ?_⟩
  obtain ⟨formed, shape⟩ := left.value found
  obtain ⟨formed', shape'⟩ := right.value found'
  have comparable : v.ty.comparable w.ty = true := by
    unfold ValueType.comparison at comparable
    split at comparable
    next unknown =>
      rcases Bool.or_eq_true_iff.mp unknown with isUnknown | isUnknown
      · rw [eq_unknown_iff.mpr isUnknown] at found
        cases found
      · rw [eq_unknown_iff.mpr isUnknown] at found'
        cases found'
    · split at comparable
      next compares => simpa only [ValueType.comparable, ValueType.sameShape, shape, shape'] using compares
      · cases comparable
  refine (Present.safe_compare (formed.mono more) (formed'.mono more) comparable).bind fun bit b2 _ typed => ?_
  exact (resize typed .i8 false).bind fun r b3 _ typed' => .pure ⟨.cons typed' .nil, rfl⟩

theorem safe_not (formed : h.Formed b) (isBool : h.ty.IsCondition) :
    Safe fails n n h.not b (Held.Of (ValueType.bool.withNullable h.ty.nullable)) := by
  refine (safe_expectBool isBool).bind fun _ b1 grows1 _ => ?_
  have formed := formed.mono grows1.types
  have lifted (code : Present → Emit Present) (growing : ∀ v, Growing (code v))
      (safe : ∀ v, h.value? = some v → ∀ c, b1.function.types.toList <+: c.function.types.toList →
        Safe fails n n (code v) c (Present.Of .bool)) :
      Safe fails n n (h.lift .bool code) b1 (Held.Of (ValueType.bool.withNullable h.ty.nullable)) :=
    safe_lift (k := 0) formed (.inl nofun) safe
  refine lifted _ (fun v => by split <;> infer_instance) fun v found c more => ?_
  obtain ⟨value, shape⟩ := formed.value found
  cases v with
  | bool r =>
    refine (Safe.const .i8 1).bind fun one b2 grows2 _ => ?_
    refine (Safe.binary .xor (typeOf?_mono (more.trans grows2.types) (List.forall₂_cons.mp value).1)).bind
      fun r b3 _ typed => ?_
    exact .pure ⟨.cons typed .nil, rfl⟩
  | _ =>
    rcases isBool.of_shape shape with shape | shape <;> cases shape

theorem safe_isNull (formed : h.Formed b) : Safe fails n n h.isNull b (Reg.Of .i1) := by
  cases h with
  | unknown | present => exact .constBool _
  | nullable v flag => exact .pure formed.2

theorem safe_truth (formed : h.Formed b) : Safe fails n n h.truth b fun bits b' =>
    bits.1.Of .i1 b' ∧ bits.2.Of .i1 b' := by
  refine (safe_isNull formed).bind fun isNull b1 _ nullTyped => ?_
  split
  · refine (Safe.const .i8 0).bind fun zero b2 grows2 _ => ?_
    refine (Safe.compare .ne).bind fun set b3 grows3 typed => ?_
    exact .pure ⟨typed, nullTyped.mono (grows2.types.trans grows3.types)⟩
  · refine (Safe.constBool false).bind fun unset b2 grows2 typed => ?_
    exact .pure ⟨typed, nullTyped.mono grows2.types⟩

theorem safe_decides {set : Reg} (typed : set.Of .i1 b) : Safe fails n n (decides isAnd set) b (Reg.Of .i1) :=
  .ite (fun _ => .not typed) fun _ => .pure typed

theorem safe_connect (typed : aNull.Of .i1 b) (typed' : bNull.Of .i1 b) :
    Safe fails n n (connect isAnd aNull bNull aDecides bDecides) b (Held.Of ValueType.bool.asNullable) := by
  refine (Safe.not typed).bind fun aPresent b1 grows1 aTyped => ?_
  refine (Safe.not (typed'.mono grows1.types)).bind fun bPresent b2 grows2 bTyped => ?_
  refine (binary .and (aTyped.mono grows2.types)).bind fun aAlone b3 grows3 aAloneTyped => ?_
  refine (binary .and (bTyped.mono grows3.types)).bind fun bAlone b4 grows4 _ => ?_
  refine (binary .or (aAloneTyped.mono grows4.types)).bind fun decided b5 grows5 decidedTyped => ?_
  have more5 := grows1.types.trans (grows2.types.trans (grows3.types.trans (grows4.types.trans grows5.types)))
  refine (binary .or (typed.mono more5)).bind fun anyNull b6 grows6 _ => ?_
  refine (Safe.not (decidedTyped.mono grows6.types)).bind fun undecided b7 grows7 undecidedTyped => ?_
  refine (binary .and undecidedTyped).bind fun isNull b8 grows8 isNullTyped => ?_
  have chosen : b8.function.typeOf? (if isAnd then undecided else decided) = some .i1 := by
    split
    · exact undecidedTyped.mono grows8.types
    · exact decidedTyped.mono (grows6.types.trans (grows7.types.trans grows8.types))
  refine (resize chosen .i8 false).bind fun r b9 grows9 byte => ?_
  exact .pure ⟨⟨.cons byte .nil, isNullTyped.mono grows9.types⟩, rfl⟩

theorem safe_connectiveNullable (left : h.Formed b) (right : h'.Formed b) :
    Safe fails n n (connectiveNullable isAnd h h') b (Held.Of ValueType.bool.asNullable) := by
  rw [connectiveNullable_eq]
  refine (safe_truth left).bind fun first b1 grows1 ⟨set, null⟩ => ?_
  refine (safe_truth (right.mono grows1.types)).bind fun second b2 grows2 ⟨set', null'⟩ => ?_
  refine (safe_decides (set.mono grows2.types)).bind fun aDecides b3 grows3 _ => ?_
  refine (safe_decides (set'.mono grows3.types)).bind fun bDecides b4 grows4 _ => ?_
  have more := grows3.types.trans grows4.types
  exact safe_connect (null.mono (grows2.types.trans more)) (null'.mono more)

theorem safe_connective (left : h.Formed b) (right : h'.Formed b) (isBool : h.ty.IsCondition)
    (isBool' : h'.ty.IsCondition) :
    Safe fails n n (connective isAnd h h') b (Held.Of (ValueType.bool.withNullable (h.ty.nullable || h'.ty.nullable))) := by
  refine (safe_expectBool isBool).bind fun _ b1 grows1 _ => ?_
  refine (safe_expectBool isBool').bind fun _ b2 grows2 _ => ?_
  have more := grows1.types.trans grows2.types
  have left := left.mono more
  have right := right.mono more
  split
  next x y =>
    exact (binary _ (List.forall₂_cons.mp left).1).bind fun r b3 _ typed => .pure ⟨.cons typed .nil, rfl⟩
  next other =>
    have either : (h.ty.nullable || h'.ty.nullable) = true := by
      cases h with
      | unknown | nullable => rfl
      | present v => cases h' with
        | unknown | nullable => exact Bool.or_true _
        | present w =>
          cases v with
          | bool x => cases w with
            | bool y => exact absurd rfl (other x y rfl)
            | _ => rcases isBool' with shape | shape <;> cases shape
          | _ => rcases isBool with shape | shape <;> cases shape
    rw [either]
    exact safe_connectiveNullable left right

theorem safe_arithmetic (left : h.Formed b) (right : h'.Formed b)
    (works : h.ty.isUnknown ≠ true → h'.ty.isUnknown ≠ true → op.Works ty h.ty h'.ty) :
    Safe fails (n + 3) n (arithmetic op ty h h') b (Held.Of (ty.withNullable (h.ty.nullable || h'.ty.nullable))) := by
  refine safe_lift₂ left right fun v w found found' => ?_
  obtain ⟨formed, shape⟩ := left.value found
  obtain ⟨formed', shape'⟩ := right.value found'
  have works := works (fun isUnknown => v.known (by rwa [ValueType.isUnknown, shape]))
    (fun isUnknown => w.known (by rwa [ValueType.isUnknown, shape']))
  refine ⟨?_, fun c more =>
    Present.safe_arithmetic (formed.mono more) (formed'.mono more) (works.of_shapes rfl shape shape')⟩
  cases works with
  | integer shape | numeric shape => simp [ValueType.isUnknown, shape]

/-- A cast from numbers to numerics. Any other cast may be refused. -/
theorem safe_cast (formed : h.Formed b) (bounded : h.ty.Bounded) (bounded' : ty.Bounded)
    (allowed : h.ty.numericParts?.isSome = true ∧ ty.isNumeric = true ∨ ∀ cause, fails (.error cause)) :
    Safe fails (n + 1) n (h.cast ty) b (Held.Of (ty.withNullable (h.ty.nullable || ty.nullable))) := by
  cases isUnknown : h.ty.isUnknown with
  | true =>
    rw [eq_unknown_iff.mpr isUnknown]
    exact safe_null.spare (Nat.le_succ n)
  | false =>
    have code : h.cast ty = (do
        let result ← h.lift ty (Present.cast ty.asNotNull)
        if ty.nullable then result.withNullability ty else return result) := by
      cases h with
      | unknown => cases isUnknown
      | present | nullable => rfl
    have known : ty.isUnknown ≠ true ∨ ∀ cause, fails (.error cause) := by
      refine allowed.imp_left fun numbers isUnknown => ?_
      rw [ValueType.isNumeric, ValueType.isUnknown_iff.mp isUnknown] at numbers
      cases numbers.2
    rw [code]
    refine (safe_lift (k := 1) formed known fun v found c more => ?_).bind fun result b1 _ ⟨formed, same⟩ => ?_
    · obtain ⟨value, shape⟩ := formed.value found
      refine Present.safe_cast (value.mono more) (bounded.of_shape shape) bounded' (allowed.imp_left fun numbers => ?_)
      rw [ValueType.numericParts?, ← shape] at numbers
      obtain ⟨_, found⟩ := Option.isSome_iff_exists.mp numbers.1
      exact ⟨Present.isNumber_of_parts found, numbers.2⟩
    refine .ite (fun nullable => ?_) fun plain => .pure ⟨formed, ?_⟩
    · rw [nullable, Bool.or_true]
      by_cases isUnknown' : ty.isUnknown = true
      · have null : result = .unknown := eq_unknown_iff.mpr (by rw [same]; exact isUnknown')
        subst null
        exact safe_null
      · have kept : ty.withNullable true = ty := ValueType.ext_iff.mpr ⟨rfl, nullable.symm⟩
        rw [kept]
        exact safe_withNullability formed ⟨by rw [same]; rfl, fun plain => by rw [nullable] at plain; cases plain⟩ isUnknown'
    · rw [Bool.not_eq_true] at plain
      rw [same, plain, Bool.or_false]

/-- A literal that can be coerced to its type. One that cannot may be refused. -/
theorem safe_constant (notNull : d.isNull = false)
    (coerced : (∃ d', d.coerce ty.asNotNull = .ok d') ∨ (∃ cause, d.coerce ty.asNotNull = .error (.error cause)) ∧
      ∀ cause, fails (.error cause)) :
    Safe fails (n + 1) n (constant d ty) b (Held.Of ty) := by
  have value : Safe fails (n + 1) n (Present.constant d ty) b (Present.Of ty.asNotNull) := by
    rcases coerced with ⟨_, coerced⟩ | ⟨⟨_, refused⟩, allowed⟩
    · exact Present.safe_constant coerced
    · exact (safe_constant_refused refused allowed).spare (Nat.le_succ n)
  unfold constant
  rw [if_neg (by simp [notNull])]
  refine value.bind fun v b1 _ ⟨formed, same⟩ => ?_
  refine safe_withNullability formed ⟨by rw [Held.ty, same]; rfl, fun _ => rfl⟩ fun isUnknown => v.known ?_
  rw [same]
  exact isUnknown

end Held

end QueryEngine
