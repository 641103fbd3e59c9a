import QueryEngine.Machine.Calls

namespace QueryEngine

variable {routine : Routine} {m : Machine} {a : Word} {cause : RoutineError}

/-- The kind of the object whose address is the first argument of a routine. -/
def Routine.handle? : Routine → Option ObjectKind
  | poolTake | poolFree => some .pool
  | chainInsert | chainLookup | chainNextSameHash | chainFirst | chainNext | chainFree => some .chainTable
  | listAppend | joinBuild => some .joinList
  | joinLookup | joinNextSameHash | joinFree => some .joinTable
  | release => some .buffer
  | _ => none

/-- What is wrong with an address as that of an object of a kind. -/
def Machine.misuse? (m : Machine) (kind : ObjectKind) (a : Word) : Option RoutineError :=
  match m.objects.lookup a with
  | none => some (.unknownObject a)
  | some object => if object.kind = kind then none else some (.wrongObject a kind)

variable {found : MachineObject}

namespace Action

variable {α β : Type} {m' : Machine} {fault : Fault RoutineError} {next : α → Action β} {action : Action α}

theorem bind_error (failed : action m = .error fault m') : (action >>= next) m = .error fault m' := by
  simp only [bind, EStateM.bind, failed]

theorem bind_run (ran : action m = .ok x m') : (action >>= next) m = next x m' := by
  simp only [bind, EStateM.bind, ran]

theorem object_unknown (missing : m.objects.lookup a = none) : object a m = .error (.error (.unknownObject a)) m := by
  show orFail (.unknownObject a) (m.objects.lookup a) m = _
  rw [missing]
  rfl

theorem object_live (live : m.objects.lookup a = some found) : object a m = .ok found m := by
  show orFail (.unknownObject a) (m.objects.lookup a) m = _
  rw [live]
  rfl

/-- Code that takes objects of one kind only, and changes nothing when it has looked one up that is of another. -/
theorem refused {next : MachineObject → Action α} (misuse : m.misuse? kind a = some cause)
    (others : ∀ found : MachineObject, found.kind ≠ kind → next found m = .error (.error (.wrongObject a kind)) m) :
    (object a >>= next) m = .error (.error cause) m := by
  unfold Machine.misuse? at misuse
  cases found : m.objects.lookup a with
  | none =>
    rw [found] at misuse
    cases misuse
    exact bind_error (object_unknown found)
  | some live =>
    rw [found] at misuse
    rw [bind_run (object_live found)]
    dsimp only at misuse
    split at misuse
    · cases misuse
    next other =>
      cases misuse
      exact others live other

/-- A routine fails where it looks up its first argument. -/
theorem handle_refused {take : Word → Action α} {next : Word → α → Action β} (failed : take a m = .error fault m)
    (rest : List Word) :
    (argument (a :: rest) 0 >>= fun a => take a >>= next a) m = .error fault m := by
  rw [bind_run (show argument (a :: rest) 0 m = .ok a m from rfl), bind_error failed]

end Action

open Action

theorem Routine.run_refused {kind : ObjectKind} (takes : routine.handle? = some kind)
    (asks : routine ≠ .poolFree) (misuse : m.misuse? kind a = some cause)
    (rest : List Word) : routine.run (a :: rest) m = .error (.error cause) m := by
  cases routine <;> cases takes
  case poolFree => exact absurd rfl asks
  case poolTake =>
    refine handle_refused (refused misuse fun found other => ?_) rest
    cases found with
    | pool => exact absurd rfl other
    | _ => rfl
  case listAppend | joinBuild =>
    refine handle_refused (refused misuse fun found other => ?_) rest
    cases found with
    | joinList => exact absurd rfl other
    | _ => rfl
  case joinLookup | joinNextSameHash | joinFree =>
    refine handle_refused (refused misuse fun found other => ?_) rest
    cases found with
    | joinTable => exact absurd rfl other
    | _ => rfl
  case release =>
    refine refused misuse fun found other => ?_
    cases found with
    | buffer => exact absurd rfl other
    | _ => rfl
  all_goals
    refine handle_refused (refused misuse fun found other => ?_) rest
    cases found with
    | chainTable => exact absurd rfl other
    | _ => rfl

/-- Any object can be freed as a pool. -/
theorem Routine.run_poolFree (live : m.objects.lookup a = some found) (rest : List Word) :
    Routine.poolFree.run (a :: rest) m = .ok 0 { m with objects := m.objects.filter fun entry => entry.1 ≠ a } :=
  bind_run (object_live live)

theorem Routine.named?_name (routine : Routine) : Routine.named? routine.name = some routine := by
  cases routine <;> decide

namespace RoutineCall

theorem mapM_argument_word (results : Results) (args : List Word) :
    (args.map CallArgument.word).mapM (argument results) = (pure args : Action (List Word)) := by
  induction args with
  | nil => rfl
  | cons w args ih =>
    rw [List.map_cons, List.mapM_cons, ih]
    rfl

/-- A call by a routine's name runs it. -/
theorem run_routine (name : Option String) (routine : Routine) (args : List Word) (results : Results) :
    run ⟨name, routine.name, args.map .word⟩ results = do
      let w ← routine.run args
      return routine.result.map fun ty => (ty, w) := by
  have known := routine.named?_name
  have accesses : routine.name ≠ "write" ∧ routine.name ≠ "read" := by cases routine <;> decide
  unfold run
  rw [mapM_argument_word, pure_bind]
  split
  · exact absurd ‹_› accesses.1
  · exact absurd ‹_› accesses.2
  · rw [known]

/-- A call that fails gives zero to the later ones, which go on with the machine that it leaves. -/
theorem runAll_refused {args : List Word}
    (failed : routine.run args m = .error (.error cause) m) (name : Option String) (results : Results)
    (calls : List RoutineCall) :
    runAll results m (⟨name, routine.name, args.map .word⟩ :: calls) =
      let later := runAll ((name.map fun name => (name, 0)).toList ++ results) m calls
      (.error (.error cause) :: later.1, later.2) := by
  rw [runAll, run_routine, bind_error failed]
  cases name <;> rfl

end RoutineCall

/-- Handles are checked. A routine that takes one fails if no object is live under it, or one of another kind: it says so, it
gives zero, and the machine with all its objects is as it was. The one exception is that any live object can be freed as a
pool. -/
theorem Routine.handles_checked (routine : Routine) (kind : ObjectKind) (takes : routine.handle? = some kind) (a : Word)
    (rest : List Word) (m : Machine) :
    (∀ cause, m.misuse? kind a = some cause → (routine = .poolFree → m.objects.lookup a = none) →
      routine.run (a :: rest) m = .error (.error cause) m ∧
      ∀ name results calls, RoutineCall.runAll results m (⟨name, routine.name, (a :: rest).map .word⟩ :: calls) =
        let later := RoutineCall.runAll ((name.map fun name => (name, 0)).toList ++ results) m calls
        (.error (.error cause) :: later.1, later.2)) ∧
    (∀ found, m.objects.lookup a = some found → routine = .poolFree →
      routine.run (a :: rest) m = .ok 0 { m with objects := m.objects.filter fun entry => entry.1 ≠ a }) := by
  refine ⟨fun cause misuse unknown => ?_, fun found live same => same ▸ run_poolFree live rest⟩
  have failed : routine.run (a :: rest) m = .error (.error cause) m := by
    by_cases asks : routine = .poolFree
    · have missing := unknown asks
      rw [Machine.misuse?, missing] at misuse
      cases misuse
      rw [asks]
      exact handle_refused (object_unknown missing) rest
    · exact run_refused takes asks misuse rest
  exact ⟨failed, RoutineCall.runAll_refused failed⟩

namespace Routine.Example

def table : MachineObject := .chainTable { buckets := #[0], memory := ⟨{ nextSize := 8 }, #[]⟩ }

/-- A hash table is live under one address. -/
def machine : Machine where
  program := { name := "handles", encoding := .indicator }
  database := { encoding := .indicator }
  settings := {}
  objects := [(64, table)]

end Routine.Example

open Routine.Example in
theorem Routine.handles_checked_example : Routine.joinFree.handle? = some .joinTable ∧
    machine.misuse? .joinTable 64 = some (.wrongObject 64 .joinTable) ∧
    Routine.joinFree.run [64] machine = .error (.error (.wrongObject 64 .joinTable)) machine :=
  ⟨rfl, rfl, ((handles_checked .joinFree .joinTable rfl 64 [] machine).1 _ rfl fun same => nomatch same).1⟩

open Routine.Example in
/-- A hash table is freed as a pool, without an error, and is gone. -/
theorem Routine.poolFree_ends_table : machine.misuse? .pool 64 = some (.wrongObject 64 .pool) ∧
    ∃ m, Routine.poolFree.run [64] machine = .ok 0 m ∧ m.liveObjects = 0 :=
  ⟨rfl, _, rfl, rfl⟩

end QueryEngine
