namespace QueryEngine

/-- How a computation ends without a value. An `error` is an answer of the engine and names its cause. A `trap` is
arithmetic that left the range of its machine word, or an index outside its array: nothing after it is answered. -/
inductive Fault (ε : Type) where
  | trap
  | error (cause : ε)
deriving Repr, DecidableEq

abbrev Checked (ε α : Type) := Except (Fault ε) α

namespace Fault

variable {ε ε' α : Type}

def map (wrap : ε → ε') : Fault ε → Fault ε'
  | trap => trap
  | error cause => error (wrap cause)

end Fault

namespace Checked

variable {ε ε' α : Type}

def fail (cause : ε) : Checked ε α := .error (.error cause)

def trap : Checked ε α := .error .trap

def orTrap : Option α → Checked ε α
  | some a => .ok a
  | none => trap

def orFail (cause : ε) : Option α → Checked ε α
  | some a => .ok a
  | none => fail cause

def mapCause (wrap : ε → ε') : Checked ε α → Checked ε' α
  | .ok a => .ok a
  | .error fault => .error (fault.map wrap)

def ofExcept : Except ε α → Checked ε α
  | .ok a => .ok a
  | .error cause => fail cause

end Checked

theorem Checked.bind_ok {ε α β : Type} {x : Except ε α} {next : α → Except ε β} {y : β} (gives : x >>= next = .ok y) :
    ∃ a, x = .ok a ∧ next a = .ok y := by
  cases x with
  | error fault => cases gives
  | ok a => exact ⟨a, rfl, gives⟩

theorem Checked.guard_ok {ε α : Type} {c : Prop} [Decidable c] {cause : ε} {x : Except ε α} {y : α}
    (gives : (if c then .error cause else x) = .ok y) : ¬c ∧ x = .ok y := by
  split at gives
  · cases gives
  · exact ⟨‹_›, gives⟩

theorem Checked.check_ok {ε α : Type} {c : Prop} [Decidable c] {cause : ε} {x : Except ε α} {y : α}
    (gives : (if c then x else .error cause) = .ok y) : c ∧ x = .ok y := by
  split at gives
  · exact ⟨‹_›, gives⟩
  · cases gives

section

variable {ε σ α β : Type} {first : EStateM ε σ α} {next : α → EStateM ε σ β} {s s' : σ}

theorem bind_ran {y : β} (ran : (first >>= next) s = .ok y s') : ∃ x t, first s = .ok x t ∧ next x t = .ok y s' := by
  simp only [bind, EStateM.bind] at ran
  split at ran
  · exact ⟨_, _, by assumption, ran⟩
  · cases ran

theorem bind_of_ok {x : α} (ran : first s = .ok x s') : (first >>= next) s = next x s' := by
  simp only [bind, EStateM.bind, ran]

theorem bind_of_error {fault : ε} (failed : first s = .error fault s') : (first >>= next) s = .error fault s' := by
  simp only [bind, EStateM.bind, failed]

end

theorem Checked.mapError_ok {ε ε' α : Type} {wrap : ε → ε'} {x : Except ε α} {y : α}
    (gives : x.mapError wrap = .ok y) : x = .ok y := by
  cases x with
  | error cause => cases gives
  | ok a => cases gives; rfl

theorem Checked.mapCause_ok {ε ε' α : Type} {wrap : ε → ε'} {x : Checked ε α} {y : α}
    (gives : x.mapCause wrap = .ok y) : x = .ok y := by
  cases x with
  | error fault => cases gives
  | ok a => cases gives; rfl

theorem Checked.ok_of_toOption {ε α : Type} {result : Except ε α} {x : α} (given : result.toOption = some x) :
    result = .ok x := by
  cases result with
  | error => cases given
  | ok => cases given; rfl

theorem get_bind {ε σ β : Type} (next : σ → EStateM ε σ β) (s : σ) : (get >>= next) s = next s s := rfl

end QueryEngine
