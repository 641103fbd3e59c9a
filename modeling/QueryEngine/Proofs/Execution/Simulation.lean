import QueryEngine.Proofs.Execution.Returning

namespace QueryEngine

variable {β : Type} {limit : Nat} {s : Point} {post' : α → β → Point → Prop}

namespace Host

open Run (GaveUp)

variable (host : Host)

/-- How a run ends that does not come to the end of some code: it fails, or it is given up. -/
structure Stops (limit : Nat) (s : Point) (fault : Fault RunError) (m : Machine) : Prop where
  hasEdges : ∀ block source, fault ≠ .error (.missingEdge block source)
  givesUp : fault = .error .blockLimit → GaveUp (host.resume limit s)
  fails : fault ≠ .error .blockLimit → ∃ n, ∀ more, host.resume (more + n) s = .error fault m

variable {host}

theorem gaveUp_of_le (less : limit' ≤ limit) (gaveUp : GaveUp (host.resume limit s)) :
    GaveUp (host.resume limit' s) := by
  by_contra ends
  have same := host.resume_more (limit - limit') ends
  rw [Nat.add_sub_cancel' less] at same
  rw [same] at gaveUp
  exact ends gaveUp

namespace Stops

theorem of_le (less : limit' ≤ limit) (stops : host.Stops limit s fault m) : host.Stops limit' s fault m :=
  { stops with givesUp := fun same => gaveUp_of_le less (stops.givesUp same) }

theorem of_steps (steps : host.Steps s s') (stops : host.Stops limit s' fault m) : host.Stops limit s fault m := by
  obtain ⟨n, steps⟩ := steps
  refine ⟨stops.hasEdges, fun same => ?_, fun other => ?_⟩
  · have gaveUp := stops.givesUp same
    rw [← steps] at gaveUp
    exact gaveUp_of_le (Nat.le_add_right limit n) gaveUp
  · obtain ⟨k, fails⟩ := stops.fails other
    refine ⟨k + n, fun more => ?_⟩
    rw [← Nat.add_assoc, steps, fails]

/-- Where a block is entered, one more may be. -/
theorem of_entry (enters : ∀ more, host.resume (more + 1) s = host.resume more s')
    (stops : host.Stops limit s' fault m) : host.Stops (limit + 1) s fault m :=
  { of_steps ⟨1, enters⟩ stops with
    givesUp := fun same => by
      rw [enters]
      exact stops.givesUp same }

end Stops

/-- The run from `s` on goes as the result says: it comes to where `reached` holds, or stops in the same way. -/
def Follows {β : Type} (host : Host) (limit : Nat) (s : Point) (result : EStateM.Result (Fault RunError) Machine β)
    (reached : β → Machine → Prop) : Prop :=
  match result with
  | .ok y m => reached y m
  | .error fault m => host.Stops limit s fault m

theorem Follows.after {s' : Point} {result : EStateM.Result (Fault RunError) Machine β}
    {reached reached' : β → Machine → Prop} (steps : host.Steps s s') (follows : host.Follows limit s' result reached)
    (weaker : ∀ y m, reached y m → reached' y m) : host.Follows limit s result reached' := by
  cases result with
  | error fault m => exact Stops.of_steps steps follows
  | ok y m => exact weaker y m follows

/-- Whenever the code is emitted, a run of it does what the action does. -/
def Simulates {α β : Type} (host : Host) (limit : Nat) (code : Emit α) (s : Point) (action : Run β)
    (post : α → β → Point → Prop) : Prop :=
  ∀ x b', code s.builder = .ok x b' → b'.Within host.function host.program → s.Placed host →
    host.Follows limit s (action s.machine) fun y m =>
      ∃ s', s'.builder = b' ∧ host.Steps s s' ∧ s.Keeps s' ∧ s'.Placed host ∧ s'.machine = m ∧ post x y s'

end Host

namespace Host.Simulates

open Emit Run

variable {α γ : Type} {host : Host}

theorem weaken (simulates : host.Simulates limit code s action post)
    (weaker : s.builder.Ready → ∀ x y s', code s.builder = .ok x s'.builder → s.Keeps s' → post x y s' → post' x y s') :
    host.Simulates limit code s action post' := by
  intro x b' emitted within here
  refine (simulates x b' emitted within here).after (.refl host s) fun y m => ?_
  rintro ⟨s', rfl, steps, keeps, here', machine, holds⟩
  exact ⟨s', rfl, steps, keeps, here', machine, weaker here.ready x y s' emitted keeps holds⟩

theorem mono (simulates : host.Simulates limit code s action post)
    (weaker : ∀ x y s', s.Keeps s' → post x y s' → post' x y s') : host.Simulates limit code s action post' :=
  simulates.weaken fun _ x y s' _ => weaker x y s'

theorem bind {next : α → Emit γ} {continued : β → Run δ} {mid : α → β → Point → Prop} {post : γ → δ → Point → Prop}
    [Growing code] [∀ x, Growing (next x)] (first : host.Simulates limit code s action mid)
    (second : ∀ x y s', s.Keeps s' → mid x y s' → host.Simulates limit (next x) s' (continued y) post) :
    host.Simulates limit (code >>= next) s (action >>= continued) post := by
  intro z b' emitted within here
  obtain ⟨x, c, emitted1, emitted2⟩ := bind_ran emitted
  have grows := Growing.grows here.ready emitted1
  have grows' := Growing.grows grows.ready emitted2
  have follows := first x c emitted1 (within.of_grows grows.ready grows') here
  cases ran : action s.machine with
  | error fault m =>
    rw [ran] at follows
    simp only [Bind.bind, EStateM.bind, ran]
    exact follows
  | ok y m =>
    rw [ran] at follows
    obtain ⟨s1, rfl, steps1, keeps1, here1, machine1, holds1⟩ := follows
    rw [bind_of_ok ran, ← machine1]
    refine (second x y s1 keeps1 holds1 z b' emitted2 within here1).after steps1 fun u m' => ?_
    rintro ⟨s2, builder, steps2, keeps2, here2, machine2, holds2⟩
    exact ⟨s2, builder, steps1.trans steps2, keeps1.trans keeps2, here2, machine2, holds2⟩

theorem pure (holds : post x y s) : host.Simulates limit (Pure.pure x) s (Pure.pure y) post := by
  intro x' b' emitted within here
  cases emitted
  exact ⟨s, rfl, .refl host s, .refl s, here, rfl, holds⟩

/-- Emission that appends nothing has no run. -/
theorem silent {next : α → Emit γ} {post : γ → β → Point → Prop} {p : α → Prop}
    (emission : ∀ x b', code s.builder = .ok x b' → b' = s.builder ∧ p x)
    (rest : ∀ x, p x → host.Simulates limit (next x) s action post) :
    host.Simulates limit (code >>= next) s action post := by
  intro z b' emitted within here
  obtain ⟨x, c, emitted1, emitted2⟩ := bind_ran emitted
  obtain ⟨rfl, given⟩ := emission x c emitted1
  exact rest x given z b' emitted2 within here

theorem congr (simulates : host.Simulates limit code s action post) (same : action s.machine = action' s.machine) :
    host.Simulates limit code s action' post := by
  intro x b' emitted within here
  rw [← same]
  exact simulates x b' emitted within here

variable {instruction : Instruction}

/-- What can go wrong in an instruction. -/
theorem execute_fault {routines : Routines} {f : Function} {args : List Word} {frame : Frame} {m m' : Machine}
    {fault : Fault RunError} (failed : execute routines f args frame instruction m = .error fault m') :
    (∀ block source, fault ≠ .error (.missingEdge block source)) ∧ fault ≠ .error .blockLimit := by
  have null {a : Word} {g : Machine → Word × Machine}
      (failed : (do checkAddress f a; modifyGet g : Run Word) m = .error fault m') :
      fault = .error (.nullPointer f.name) := by
    unfold checkAddress at failed
    split at failed <;> cases failed
    rfl
  cases instruction with
  | load ty address =>
    rw [null (g := fun m => (m.load ty.storeSize (frame.value address), m)) failed]
    simp
  | store value address =>
    rw [null (g := fun m => (0, m.store (typeOf f value).storeSize (frame.value address) (frame.value value))) failed]
    simp
  | call routine arguments =>
    simp only [execute, ofAction] at failed
    split at failed
    · cases failed
    next fault' _ _ =>
      cases failed
      cases fault' <;> simp [Fault.map]
  | cast op value ty => cases op <;> cases failed
  | _ => cases failed

/-- A run stops at a line whose instruction fails. -/
theorem stops_line (appends : s.builder.Appends b' types [⟨r, instruction⟩]) (plain : instruction.isPhi = false)
    (within : b'.Within host.function host.program)
    (ran : execute host.routines host.function host.args s.frame instruction s.machine = .error fault m) :
    host.Stops limit s fault m := by
  obtain ⟨hasEdges, finishes⟩ := execute_fault ran
  have failed : runLine host.routines host.function host.args s.frame ⟨r, instruction⟩ s.machine =
      .error fault m := by
    simp only [runLine, Bind.bind, EStateM.bind, ran]
  exact ⟨hasEdges, fun same => absurd same finishes, fun _ =>
    ⟨0, fun more => line_fails appends plain within failed more⟩⟩

theorem define (plain : instruction.isPhi = false)
    (run : s.Placed host → execute host.routines host.function host.args s.frame instruction s.machine = action s.machine) :
    host.Simulates limit (Emit.define ty instruction) s action fun r w s' => s'.Reads r ty (ty.normalize w) := by
  intro r b' emitted within here
  cases emitted
  rw [← run here]
  cases ran : execute host.routines host.function host.args s.frame instruction s.machine with
  | error fault m => exact stops_line (.define here.ready ty instruction) plain within ran
  | ok w m => exact Attains.define_steps plain here within ran

theorem append (plain : instruction.isPhi = false)
    (run : s.Placed host → execute host.routines host.function host.args s.frame instruction s.machine = action s.machine) :
    host.Simulates limit (Emit.append instruction) s action fun _ _ _ => True := by
  intro _ b' emitted within here
  cases emitted
  rw [← run here]
  cases ran : execute host.routines host.function host.args s.frame instruction s.machine with
  | error fault m => exact stops_line (.append here.ready ⟨none, instruction⟩) plain within ran
  | ok w m =>
    obtain ⟨s', builder, steps, keeps, here', machine⟩ := Attains.append_steps plain here within ran
    exact ⟨s', builder, steps, keeps, here', machine, trivial⟩

theorem mapRun {f : β → γ} (simulates : host.Simulates limit code s action fun x y s' => post x (f y) s') :
    host.Simulates limit code s (f <$> action) post := by
  intro x b' emitted within here
  have follows := simulates x b' emitted within here
  revert follows
  simp only [Functor.map, EStateM.map]
  cases action s.machine with
  | error fault m => exact id
  | ok y m => exact id

/-- What the emission gives is only passed on. -/
theorem returns {f : α → γ} {post : γ → β → Point → Prop}
    (simulates : host.Simulates limit code s action fun x y s' => post (f x) y s') :
    host.Simulates limit (code >>= fun x => Pure.pure (f x)) s action post := by
  intro z b' emitted within here
  obtain ⟨x, c, emitted1, ⟨⟩⟩ := bind_ran emitted
  exact simulates x _ emitted1 within here

/-- An action that always gives the same value. -/
theorem ignore (simulates : host.Simulates limit code s (action >>= fun _ => Pure.pure z) post) :
    host.Simulates limit code s action fun x _ s' => post x z s' := by
  intro x b' emitted within here
  have follows := simulates x b' emitted within here
  revert follows
  simp only [Bind.bind, EStateM.bind]
  cases action s.machine with
  | error fault m => exact id
  | ok y m => exact id

/-- Code that leaves the machine as it is, before other code. -/
theorem step {next : α → Emit γ} {y : β} {δ : Type} {action : Run δ} {mid : α → β → Point → Prop}
    {post : γ → δ → Point → Prop} [Growing code] [∀ x, Growing (next x)]
    (first : host.Simulates limit code s (Pure.pure y) mid)
    (second : ∀ x s', s.Keeps s' → mid x y s' → host.Simulates limit (next x) s' action post) :
    host.Simulates limit (code >>= next) s action post := by
  have first' : host.Simulates limit code s (Pure.pure y) fun x y' s' => y' = y ∧ mid x y' s' := by
    intro x b' emitted within here
    obtain ⟨s', builder, steps, keeps, here', machine, holds⟩ := first x b' emitted within here
    exact ⟨s', builder, steps, keeps, here', machine, rfl, holds⟩
  have both : host.Simulates limit (code >>= next) s (Pure.pure y >>= fun _ => action) post := by
    refine first'.bind fun x y' s' keeps given => ?_
    obtain ⟨rfl, holds⟩ := given
    exact second x s' keeps holds
  exact both

/-- An action that succeeds tells where the run of the code ends. -/
theorem attains {y : β} (simulates : host.Simulates 0 code s action post) (ran : action s.machine = .ok y m)
    (program : m.program = s.machine.program) (texts : s.machine.KeepsTexts m) :
    host.Attains code s fun x s' => s'.machine = m ∧ post x y s' := by
  intro x b' emitted within here
  have follows := simulates x b' emitted within here.toPlaced
  rw [ran] at follows
  obtain ⟨s', builder, steps, keeps, here', rfl, holds⟩ := follows
  exact ⟨s', builder, steps, ⟨keeps, texts⟩, ⟨here', program.trans here.program, here.routines⟩, rfl, holds⟩

/-- Code that leaves the machine as it is. -/
theorem yields {y : β} (simulates : host.Simulates 0 code s (Pure.pure y) post) :
    host.Yields code s fun x s' => post x y s' :=
  simulates.attains rfl rfl (.refl _)

end Host.Simulates

end QueryEngine
