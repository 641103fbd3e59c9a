import Mathlib
import QueryEngine.Proofs.Execution.Functions
import QueryEngine.Proofs.Script.Statements

namespace QueryEngine

open List Run

variable {call : Invocation} {limit : Nat} {script : Script} {program program' : Program} {name : String} {α : Type}
  {b b' : Builder} {m : Machine} {scope : Scope}

namespace Statement

theorem emitAll_append (scope : Scope) (first last : List Statement) :
    emitAll scope (first ++ last) = (do emitAll (← emitAll scope first) last) := by
  induction first generalizing scope with
  | nil => simp only [nil_append, emitAll, pure_bind]
  | cons statement first ih => simp only [cons_append, emitAll, ih, bind_assoc]

theorem leaveAll_append (site : Site) (first last : List Statement) :
    leaveAll site (first ++ last) = leaveAll (leaveAll site first) last := by
  induction first generalizing site with
  | nil => simp only [nil_append, leaveAll]
  | cons statement first ih => simp only [cons_append, leaveAll, ih]

/-- Only the last statement of a body returns. -/
theorem wellScoped_split (defined : wellScoped known statements = true) :
    ∃ first last known', statements = first ++ last ∧ scopeAll? known first = some known' ∧
      (last = [] ∨ ∃ value, last = [.ret value] ∧ ∀ name ∈ value, name ∈ known') := by
  induction statements generalizing known with
  | nil => exact ⟨[], [], known, rfl, by rw [scopeAll?], .inl rfl⟩
  | cons statement rest ih =>
    by_cases returns : ∃ value, statement = .ret value
    · obtain ⟨value, rfl⟩ := returns
      rw [wellScoped, Bool.and_eq_true] at defined
      obtain ⟨isLast, uses⟩ := defined
      rw [List.isEmpty_iff] at isLast
      subst isLast
      refine ⟨[], [.ret value], known, rfl, by rw [scopeAll?], .inr ⟨value, rfl, fun name member => ?_⟩⟩
      rw [Option.mem_def.mp member] at uses
      simpa using uses
    · rw [wellScoped] at defined
      · cases after : statement.scope? known with
        | none => rw [after] at defined; cases defined
        | some known1 =>
          rw [after] at defined
          obtain ⟨first, last, known', rfl, firstDefined, ends⟩ := ih defined
          refine ⟨statement :: first, last, known', rfl, ?_, ends⟩
          rw [scopeAll?, after]
          exact firstDefined
      · exact fun value same => returns ⟨value, same⟩

theorem runBody_append {known known' : List String} {first : List Statement}
    (defined : scopeAll? known first = some known') (site : Site) (env : Env) (last : List Statement) :
    runBody call limit site env (first ++ last) = (do
      runBody call limit (leaveAll site first) (← runAll call limit site env first) last) := by
  induction first generalizing known site env with
  | nil => simp only [nil_append, runAll, leaveAll, pure_bind]
  | cons statement first ih =>
    obtain ⟨_, after, later⟩ := Option.bind_eq_some_iff.mp defined
    rw [cons_append, runBody, runAll, leaveAll]
    · simp only [bind_assoc, ih later]
    · rintro value rfl
      cases after

end Statement

theorem Builder.terminate_again (b : Builder) (terminator other : Terminator) :
    (b.terminate terminator).terminate other = b.terminate terminator := by
  simp only [terminate, modifyBlock]
  congr 2
  refine Array.ext_getElem? fun i => ?_
  by_cases here : b.current.index = i
  · simp only [Array.getElem?_modify, here, if_true]
    cases b.function.blocks[i]? with
    | none => rfl
    | some block => cases ended : block.terminator <;> simp [ended]
  · simp only [Array.getElem?_modify, here, if_false]

namespace Program

theorem addFunction_ok {params : List CodeType} {result : Option CodeType} {body : Emit Unit}
    (added : program.addFunction name params result body = (program', .ok ())) :
    ∃ b, body (Builder.start program name params result) = .ok () b ∧ finish b = .ok program' := by
  rw [addFunction] at added
  cases ran : body (Builder.start program name params result) with
  | error fault b => rw [ran] at added; cases added
  | ok _ b =>
    rw [ran] at added
    dsimp only at added
    cases finished : finish b with
    | error fault => rw [finished] at added; cases added
    | ok program =>
      rw [finished] at added
      cases added
      exact ⟨b, rfl, finished⟩

end Program

theorem Emit.discard_ok {code : Emit α} (emitted : discard code b = .ok () b') :
    ∃ x, code b = .ok x b' := by
  simp only [discard, Functor.mapConst, Function.comp, EStateM.map] at emitted
  cases ran : code b with
  | error fault c => rw [ran] at emitted; cases emitted
  | ok x c =>
    rw [ran] at emitted
    cases emitted
    exact ⟨x, rfl⟩

namespace Run

section

variable {args : List Word} {f : Function} (routines : Routines) (limit : Nat)

theorem functionWithin_argumentCount (found : m.program.function? name = some f) (other : f.params.length ≠ args.length) :
    functionWithin routines limit name args m = .error (.error (.argumentCount name f.params.length args.length)) m := by
  simp only [functionWithin, get_bind, found, if_pos other]
  rfl

end

theorem slotAddress_error (fails : slotAddress size m = .error fault m') : fault = .trap := by
  rw [slotAddress] at fails
  split at fails
  · cases fails
    rfl
  · split at fails
    · cases fails
    · simp only [get_bind] at fails
      cases placed : m.newRegion? size with
      | none =>
        rw [placed] at fails
        cases fails
        rfl
      | some region =>
        rw [placed] at fails
        cases fails

theorem slotAddresses_error {sizes : List Nat} {m' : Machine} {fault : Fault RunError}
    (fails : sizes.mapM slotAddress m = .error fault m') : fault = .trap := by
  induction sizes generalizing m with
  | nil => cases fails
  | cons size sizes ih =>
    rw [mapM_cons] at fails
    cases placed : slotAddress size m with
    | error fault' m1 =>
      simp only [bind, EStateM.bind, placed] at fails
      cases fails
      exact slotAddress_error placed
    | ok a m1 =>
      rw [bind_of_ok placed] at fails
      cases filled : sizes.mapM slotAddress m1 with
      | error fault' m2 =>
        simp only [bind, EStateM.bind, filled] at fails
        cases fails
        exact ih filled
      | ok words m2 =>
        rw [bind_of_ok filled] at fails
        cases fails

/-- Runs that may enter more and more blocks, compared with another account of them that may be given up in the same way:
both come to the same end, and none of them lacks the value of a phi. -/
structure Agrees {α : Type} (runs account : Nat → EStateM.Result (Fault RunError) Machine α) : Prop where
  more : ∀ limit more, ¬GaveUp (runs limit) → runs (limit + more) = runs limit
  ends : ∀ limit, ¬GaveUp (account limit) → ∃ n, ∀ more, runs (more + n) = account limit
  givesUp : ∀ limit, GaveUp (account limit) → GaveUp (runs limit)
  hasEdges : ∀ limit block source m, account limit ≠ .error (.error (.missingEdge block source)) m

namespace Agrees

variable {runs account : Nat → EStateM.Result (Fault RunError) Machine α}

theorem iff (agrees : Agrees runs account) (ends : ¬GaveUp outcome) :
    (∃ limit, runs limit = outcome) ↔ ∃ limit, account limit = outcome := by
  constructor
  · rintro ⟨limit, rfl⟩
    have accounted : ¬GaveUp (account limit) := fun gaveUp => ends (agrees.givesUp limit gaveUp)
    obtain ⟨n, same⟩ := agrees.ends limit accounted
    exact ⟨limit, by rw [← same limit, agrees.more limit n ends]⟩
  · rintro ⟨limit, rfl⟩
    obtain ⟨n, same⟩ := agrees.ends limit ends
    exact ⟨0 + n, same 0⟩

theorem edges (agrees : Agrees runs account) (limit : Nat) (block source : Label) (m : Machine) :
    runs limit ≠ .error (.error (.missingEdge block source)) m := by
  intro lacks
  obtain ⟨limit', same⟩ := (agrees.iff (by rintro ⟨⟩)).mp ⟨_, lacks⟩
  exact agrees.hasEdges limit' block source m same

/-- Both fail before any block is entered. -/
theorem of_fault (fault : Fault RunError) (ends : fault ≠ .error .blockLimit)
    (edges : ∀ block source, fault ≠ .error (.missingEdge block source)) (first : ∀ limit, runs limit = .error fault m)
    (second : ∀ limit, account limit = .error fault m) : Agrees runs account where
  more := fun limit more _ => by rw [first, first]
  ends := fun limit _ => ⟨0, fun more => by rw [first, second]⟩
  givesUp := fun limit gaveUp => by
    rw [second] at gaveUp
    exact absurd gaveUp.fault ends
  hasEdges := fun limit block source m' lacks => by
    rw [second] at lacks
    injection lacks with same
    exact edges block source same

end Agrees

end Run

theorem Scope.mapM_reg_ok {name : Option String} {r : Option Reg}
    (emitted : name.mapM scope.reg b = .ok r b') : b' = b ∧ r = name.bind fun name => scope.lookup name := by
  cases name with
  | none =>
    cases emitted
    exact ⟨rfl, rfl⟩
  | some name =>
    rw [Option.mapM_some, reg] at emitted
    cases found : scope.lookup name with
    | none => rw [found] at emitted; cases emitted
    | some r' =>
      rw [found] at emitted
      cases emitted
      exact ⟨rfl, found.symm⟩

namespace Script

open Statement

theorem emitAll_ret_ok {scope' : Scope} {name : Option String} (emitted : emitAll scope [.ret name] b = .ok scope' b') :
    b' = b.terminate (.ret (name.bind fun name => scope.lookup name)) := by
  obtain ⟨_, c, returns, rest⟩ := bind_ran emitted
  obtain ⟨r, d, registers, returns⟩ := bind_ran returns
  obtain ⟨rfl, rfl⟩ := Scope.mapM_reg_ok registers
  cases returns
  cases rest
  rfl

/-- How the function of a script came about: the code of all statements but one that returns, and then the end of the last
block. -/
structure Emission (script : Script) (program program' : Program) where
  first : List Statement
  last : List Statement
  known : List String
  body : script.body = first ++ last
  defined : scopeAll? [] first = some known
  scope : Scope
  builder : Builder
  ready : (Builder.start program script.name script.params script.result).Ready
  emitted : emitAll [] first (Builder.start program script.name script.params script.result) = .ok scope builder
  grows : (Builder.start program script.name script.params script.result).Grows builder
  value : Option Reg
  returns : last = [] ∧ value = none ∨
    ∃ name, last = [.ret name] ∧ (∀ name' ∈ name, name' ∈ known) ∧ value = name.bind fun name => scope.lookup name
  found : program'.function? script.name = some (builder.ending (.ret value))

theorem emission_of_emit (addressable : program.Addressable)
    (wellScoped : script.WellScoped) (emitted : script.emit program = (program', .ok ())) :
    Nonempty (script.Emission program program') := by
  obtain ⟨first, _, known, body, defined, ends⟩ := wellScoped_split wellScoped
  have growing := (moves_emitAll first defined []).1
  have ready := Builder.start_ready addressable script.name script.params script.result
  obtain ⟨b', whole, finished⟩ := Program.addFunction_ok emitted
  obtain ⟨_, whole⟩ := Emit.discard_ok whole
  rw [body, emitAll_append] at whole
  obtain ⟨scope, b, ran, rest⟩ := bind_ran whole
  have grows := Emit.Growing.grows ready ran
  obtain ⟨_, rfl, verified, found, _⟩ := Program.finish_ok finished
  rcases ends with rfl | ⟨name, rfl, uses⟩
  · obtain rfl : b = b' := by
      cases rest
      rfl
    -- Without a result the end returns; with one the open block would not have been accepted.
    cases result : b.function.result with
    | none =>
      rw [result, grows.name] at found
      exact ⟨first, [], known, body, defined, scope, b, ready, ran, grows, none, .inl ⟨rfl, rfl⟩, found⟩
    | some ty =>
      rw [result] at verified
      obtain ⟨block, atCurrent, unended, _⟩ := grows.ready.block
      have ended := (Function.verifyBlocks_ok verified block
        (Array.mem_toList_iff.mpr (Array.mem_of_getElem? atCurrent))).1
      rw [unended] at ended
      cases ended
  · obtain rfl := emitAll_ret_ok rest
    rw [Builder.terminate_again, ite_self] at found
    have found : program'.function? b.function.name = _ := found
    rw [grows.name] at found
    exact ⟨first, _, known, body, defined, scope, b, ready, ran, grows, _, .inr ⟨name, rfl, uses, rfl⟩, found⟩

namespace Emission

open Run (GaveUp)

variable (emission : script.Emission program program') (args : List Word) (routines : Routines) {frame : Frame}
  {words : List Word}

/-- The function, run with what its stack slots hold on entry. -/
def host (frame : Frame) : Host where
  function := emission.builder.ending (.ret emission.value)
  args
  program := emission.builder.program
  routines
  slots := frame.value
  places := fun _ => 0

/-- Where a call starts. -/
def entry (_ : script.Emission program program') (frame : Frame) (m : Machine) : Point :=
  ⟨Builder.start program script.name script.params script.result, frame, m⟩

theorem entry_site : (emission.entry frame m).builder.site = { program, params := script.params } := rfl

theorem leaveAll_body : leaveAll { program, params := script.params } script.body = emission.builder.site := by
  have moved := (moves_emitAll emission.first emission.defined []).2 _ _ _ emission.ready emission.emitted
  rw [moved, emission.body, leaveAll_append]
  rcases emission.returns with ⟨last, _⟩ | ⟨_, last, _⟩
  · rw [last, leaveAll]
    rfl
  · rw [last]
    rfl

theorem placed (size : frame.size = emission.builder.function.types.size) :
    (emission.entry frame m).Placed (emission.host args routines frame) where
  ready := emission.ready
  within := (emission.grows.ready.within_ending (.ret emission.value)).1.of_grows emission.ready emission.grows
  frameSize := size
  slots := fun _ _ => rfl

/-- What the last statement returns. -/
theorem runBody_last {site : Site} {env : Env} {s : Point} (agrees : s.Matches emission.scope env emission.known) :
    runBody call limit site env emission.last s.machine = .ok (emission.value.map s.frame.value) s.machine := by
  rcases emission.returns with ⟨last, value⟩ | ⟨name, last, uses, value⟩
  · rw [last, value]
    rfl
  · rw [last, value]
    cases name with
    | none => rfl
    | some name =>
      obtain ⟨r, x, register, cell, reads⟩ := agrees name (uses name rfl)
      simp only [runBody, Option.mapM_some, Env.get, cell, Option.bind_some, register, Option.map_some, reads.value]
      rfl

/-- From its entry on, a run of the function does what the script does. -/
theorem follows (limit : Nat) (size : frame.size = emission.builder.function.types.size)
    (filled : ∀ index slot, emission.builder.function.slots.toList[index]? = some slot →
      frame.value slot.address = words.getD index 0) :
    (emission.host args routines frame).Follows limit (emission.entry frame m)
      (runBody ⟨script.name, args, words, routines⟩ limit { program, params := script.params } [] script.body m)
      fun value m' => ∃ n, ∀ more,
        (emission.host args routines frame).resume (more + n) (emission.entry frame m) = .ok value m' := by
  obtain ⟨within, ends⟩ := emission.grows.ready.within_ending (.ret emission.value)
  have agrees : (emission.entry frame m).Matches [] [] [] := nofun
  have carries : (emission.host args routines frame).Carries ⟨script.name, args, words, routines⟩ :=
    ⟨emission.grows.name, rfl, rfl, filled⟩
  have simulates : (emission.host args routines frame).Simulates limit (emitAll [] emission.first) (emission.entry frame m) _ _ :=
    simulatesAll carries emission.first emission.defined agrees
  have follows := simulates _ _ emission.emitted within (emission.placed args routines size)
  rw [emission.entry_site] at follows
  rw [emission.body, runBody_append emission.defined]
  change Host.Follows _ _ _ (runAll _ _ _ _ _ m) _ at follows
  cases ran : runAll ⟨script.name, args, words, routines⟩ limit { program, params := script.params } [] emission.first m with
  | error fault m' =>
    rw [ran] at follows
    simp only [bind, EStateM.bind, ran]
    exact follows
  | ok env m' =>
    rw [ran] at follows
    obtain ⟨s', builder, ⟨n, steps⟩, _, placed, rfl, _, agrees'⟩ := follows
    rw [bind_of_ok ran, emission.runBody_last agrees']
    refine ⟨n, fun more => ?_⟩
    rw [steps, Host.resume, builder]
    exact congrFun (ends.follow routines args more s'.frame) s'.machine

/-- The run of the function from its first block on. -/
theorem runFrom_agrees (size : frame.size = emission.builder.function.types.size)
    (filled : ∀ index slot, emission.builder.function.slots.toList[index]? = some slot →
      frame.value slot.address = words.getD index 0) :
    Run.Agrees (fun limit => runFrom routines (emission.builder.ending (.ret emission.value)) args limit ⟨0⟩ ⟨0⟩ frame m)
      fun limit => runBody ⟨script.name, args, words, routines⟩ limit { program, params := script.params } [] script.body m := by
  have enters (limit : Nat) : runFrom routines (emission.builder.ending (.ret emission.value)) args (limit + 1) ⟨0⟩ ⟨0⟩
      frame m = (emission.host args routines frame).resume limit (emission.entry frame m) :=
    (emission.placed args routines size).within.enter rfl routines args limit ⟨0⟩ frame m
  have follows (limit : Nat) := emission.follows args routines limit (m := m) size filled
  refine ⟨fun limit more ends => runFrom_more more ends, fun limit ends => ?_, fun limit gaveUp => ?_,
    fun limit block source m' lacks => ?_⟩
  · have ran := follows limit
    revert ran ends
    cases runBody ⟨script.name, args, words, routines⟩ limit { program, params := script.params } [] script.body m with
    | ok value m' =>
      rintro _ ⟨n, same⟩
      exact ⟨n + 1, fun more => by rw [← Nat.add_assoc, enters, same]⟩
    | error fault m' =>
      intro ends stops
      have other : fault ≠ .error .blockLimit := by
        rintro rfl
        exact ends trivial
      obtain ⟨n, same⟩ := stops.fails other
      exact ⟨n + 1, fun more => by rw [← Nat.add_assoc, enters, same]⟩
  · have ran := follows limit
    revert ran gaveUp
    cases runBody ⟨script.name, args, words, routines⟩ limit { program, params := script.params } [] script.body m with
    | ok value m' => exact nofun
    | error fault m' =>
      intro gaveUp stops
      cases limit with
      | zero => trivial
      | succ limit =>
        rw [enters]
        exact Host.gaveUp_of_le (Nat.le_succ limit) (stops.givesUp gaveUp.fault)
  · have ran := follows limit
    rw [lacks] at ran
    exact ran.hasEdges block source rfl

include emission in
/-- A call of the function and a run of the script. -/
theorem agrees (loaded : m.program.function? script.name = program'.function? script.name) :
    Run.Agrees (fun limit => functionWithin routines limit script.name args m)
      fun limit => script.run program routines limit args m := by
  have found := loaded.trans emission.found
  by_cases count : script.params.length = args.length
  · have calls (limit : Nat) :=
      functionWithin_enter routines limit found ((congrArg length emission.grows.params).trans count)
    have runs (limit : Nat) : script.run program routines limit args m = (do
        let slots ← (emission.builder.function.slots.toList.map StackSlot.size).mapM slotAddress
        runBody ⟨script.name, args, slots, routines⟩ limit { program, params := script.params } [] script.body) m := by
      simp only [Script.run, count, ne_eq, not_true_eq_false, if_false, emission.leaveAll_body]
      rfl
    have enters := enterFrame_eq (Array.replicate emission.builder.function.types.size 0) emission.builder.function.slots.toList
    simp only [calls, runs]
    cases placed : (emission.builder.function.slots.toList.map StackSlot.size).mapM slotAddress m with
    | error fault m' =>
      obtain rfl := slotAddresses_error placed
      have filled := (congrFun enters m).trans (bind_of_error placed)
      exact .of_fault .trap nofun nofun (fun _ => bind_of_error filled) fun _ => bind_of_error placed
    | ok words m' =>
      have entered := (congrFun enters m).trans (bind_of_ok placed)
      have called (limit : Nat) : call routines (emission.builder.ending (.ret emission.value)) args limit m = _ :=
        bind_of_ok entered
      simp only [bind_of_ok placed, called]
      exact emission.runFrom_agrees args routines (Frame.fill_size.trans Array.size_replicate)
        (Frame.fill_value emission.grows.ready.slotOrder (by simpa using emission.grows.ready.slotBound))
  · refine .of_fault (.error (.argumentCount script.name script.params.length args.length)) (m := m) nofun nofun
      (fun limit => ?_) fun limit => ?_
    · have same : (emission.builder.ending (.ret emission.value)).params = script.params := emission.grows.params
      rw [functionWithin_argumentCount routines limit found (by rwa [same]), same]
    · simp only [Script.run, count, ne_eq, not_false_eq_true, if_true]
      rfl

end Emission

/-- Structured code is emitted faithfully. A function that a script has been emitted as comes to an end in exactly the ways
in which the script does, with the same result and on the same machine, whatever the routines do; and it never lacks the
value of a phi. -/
theorem function_runs_script {script : Script} {program program' : Program} (addressable : program.Addressable)
    (wellScoped : script.WellScoped) (emitted : script.emit program = (program', .ok ())) {m : Machine}
    (loaded : m.program.function? script.name = program'.function? script.name) (routines : Routines)
    (args : List Word) :
    (∀ outcome, ¬Run.GaveUp outcome → ((∃ limit, Run.functionWithin routines limit script.name args m = outcome) ↔
      ∃ limit, script.run program routines limit args m = outcome)) ∧
    ∀ limit block source m',
      Run.functionWithin routines limit script.name args m ≠ .error (.error (.missingEdge block source)) m' := by
  obtain ⟨emission⟩ := emission_of_emit addressable wellScoped emitted
  have agrees := emission.agrees args routines loaded
  exact ⟨fun _ ends => agrees.iff ends, agrees.edges⟩

/-- The sum of the odd numbers below a number. Whether a number is odd is found by taking two away for as long as that can
be done. -/
def oddSum : Script where
  name := "oddSum"
  params := [.i64]
  result := some .i64
  body := [
    .param "n" 0,
    .const "zero" .i64 0,
    .const "one" .i64 1,
    .const "two" .i64 2,
    .whileLoop ["zero", "zero"] ["i", "sum"] [.compare "more" .slt "i" "n"] "more" [
        .whileLoop ["i"] ["k"] [.compare "large" .sge "k" "two"] "large" [.binary "less" .sub "k" "two"] ["less"] ["rest"],
        .compare "odd" .eq "rest" "one",
        .ifThenElse "odd" [.binary "larger" .add "sum" "i"] ["larger"] [] ["sum"] ["next"],
        .binary "after" .add "i" "one"]
      ["after", "next"] ["stop", "total"],
    -- Counting down is no counting up: nothing is stored.
    .forRange "n" "zero" "never" [.store "never" "never"],
    .ret (some "total")]

def sums : Program := { name := "sums", encoding := .indicator }

/-- A machine with the program that `oddSum` has been emitted into. -/
def oddSumMachine : Machine := .start (oddSum.emit sums).1 { encoding := .indicator } {}

theorem oddSum_run : oddSum.run sums Routine.run 6 [4] oddSumMachine = .ok (some 4) oddSumMachine := by cbv

theorem oddSum_emitted : oddSum.emit sums = (oddSumMachine.program, .ok ()) := by
  have accepted : (oddSum.emit sums).2 = .ok () := by decide +kernel
  rw [oddSumMachine, Machine.start, ← accepted]

theorem function_runs_oddSum :
    (∃ limit, Run.functionWithin Routine.run limit oddSum.name [4] oddSumMachine = .ok (some 4) oddSumMachine) ∧
      ∀ limit block source m, Run.functionWithin Routine.run limit oddSum.name [4] oddSumMachine ≠
        .error (.error (.missingEdge block source)) m := by
  have addressable : sums.Addressable := by decide
  have wellScoped : oddSum.WellScoped := by decide +kernel
  obtain ⟨sameEnds, edges⟩ := function_runs_script addressable wellScoped oddSum_emitted rfl Routine.run [4]
  exact ⟨(sameEnds _ id).mpr ⟨6, oddSum_run⟩, edges⟩

end Script

end QueryEngine
