import QueryEngine.Proofs.Execution.Attains

namespace QueryEngine

open Run

namespace Run

/-- The run has entered more blocks than it may. -/
def GaveUp {α : Type} : EStateM.Result (Fault RunError) Machine α → Prop
  | .error (.error .blockLimit) _ => True
  | _ => False

theorem GaveUp.fault {α : Type} {fault : Fault RunError}
    (gaveUp : GaveUp (.error fault m : EStateM.Result (Fault RunError) Machine α)) : fault = .error .blockLimit := by
  unfold GaveUp at gaveUp
  split at gaveUp
  next same =>
    cases same
    rfl
  · cases gaveUp

section

theorem follow_more (more : Nat)
    (runs : ∀ source label frame, ¬GaveUp (runFrom routines f args limit source label frame m) →
      runFrom routines f args (limit + more) source label frame m = runFrom routines f args limit source label frame m)
    (ends : ¬GaveUp (follow routines f args limit label terminator frame m)) :
    follow routines f args (limit + more) label terminator frame m =
      follow routines f args limit label terminator frame m := by
  unfold follow at ends ⊢
  split at ends
  · exact runs _ _ _ ends
  · exact runs _ _ _ ends
  · rfl
  · rfl

/-- A run that comes to its end does so however many more blocks it may enter. -/
theorem runFrom_more (more : Nat) (ends : ¬GaveUp (runFrom routines f args limit source label frame m)) :
    runFrom routines f args (limit + more) source label frame m =
      runFrom routines f args limit source label frame m := by
  induction limit generalizing source label frame m with
  | zero => exact absurd trivial ends
  | succ limit ih =>
    rw [Nat.add_right_comm]
    cases found : f.blocks[label.index]? with
    | none => simp only [runFrom, found]
    | some block =>
      rw [runFrom_succ found] at ends ⊢
      rw [runFrom_succ found]
      cases ran : runBlock routines f args source label block frame m with
      | error fault m' => simp only [bind, EStateM.bind, ran]
      | ok frame' m' =>
        rw [bind_of_ok ran] at ends ⊢
        rw [bind_of_ok ran]
        exact follow_more more (fun _ _ _ => ih) ends

end

end Run

namespace Host

open Run (GaveUp)

variable (host : Host)

theorem resume_more (more : Nat) (ends : ¬GaveUp (host.resume limit s)) :
    host.resume (limit + more) s = host.resume limit s := by
  simp only [resume, resumeAt] at ends ⊢
  cases found : host.function.blocks[s.builder.current.index]? with
  | none => rfl
  | some block =>
    rw [found] at ends
    dsimp only at ends ⊢
    cases ran : runLines host.routines host.function host.args s.frame
        (block.lines.toList.drop s.builder.lines.length) s.machine with
    | error fault m => simp only [bind, EStateM.bind, ran]
    | ok frame m =>
      rw [bind_of_ok ran] at ends ⊢
      rw [bind_of_ok ran]
      exact follow_more more (fun _ _ _ => runFrom_more more) ends

variable {host} {s : Point}

/-- A line that fails ends the run. -/
theorem line_fails (appends : s.builder.Appends b' types [line]) (plain : line.instruction.isPhi = false)
    (within : b'.Within host.function host.program)
    (run : runLine host.routines host.function host.args s.frame line s.machine = .error fault m) (more : Nat) :
    host.resume more s = .error fault m := by
  obtain ⟨_, found, lines⟩ := within.next_line appends plain
  simp only [Host.resume, resumeAt, found, lines, runLines]
  simp only [Bind.bind, EStateM.bind, run]

end Host

end QueryEngine
