import QueryEngine.Text.Number
import QueryEngine.Text.Quoted

namespace QueryEngine

inductive ResultMode where
  /-- Prints them separated by tabs, with a closing line. -/
  | print
  | collect
deriving Repr, DecidableEq

structure Settings where
  poolBlock : Nat := 65536
  buckets : Nat := 16
  resultMode : ResultMode := .print
  /-- Whether printed text goes to the standard output as well. -/
  echo : Bool := false
  branch : Nat := 0
deriving Repr, DecidableEq

inductive SettingsError where
  | invalidValue (name value : String)
deriving Repr, DecidableEq

def SettingsError.message : SettingsError → String
  | invalidValue name value => "Invalid value " ++ quoted value ++ " for " ++ name ++ "."

namespace Settings

abbrev Environment := List (String × String)

/-- Whether a process can have these variables: no name or value holds a NUL, which ends it, and a name is not empty and
holds no `=`, which ends it too. -/
def isEnvironment (env : Environment) : Bool :=
  env.all fun (name, value) =>
    !name.isEmpty && !name.contains '=' && !name.contains (Char.ofNat 0) && !value.contains (Char.ofNat 0)

def setting? {α : Type} (env : Environment) (name : String) (read : List Char → Option α) :
    Except SettingsError (Option α) :=
  match env.lookup name with
  | none => .ok none
  | some value => match read (trimBlanks value.toList) with
    | some a => .ok (some a)
    | none => .error (.invalidValue name value)

def readMode (cs : List Char) : Option ResultMode :=
  let lower := cs.map Char.toLower
  if lower = "print".toList then some .print
  else if lower = "collect".toList then some .collect
  else none

def ofEnvironment (env : Environment) : Except SettingsError Settings := do
  let settings : Settings := {}
  let poolBlock ← setting? env "JITQL_POOL_BLOCK_SIZE" readUInt64
  let buckets ← setting? env "JITQL_HASHTABLE_BUCKETS" readUInt64
  let resultMode ← setting? env "JITQL_RESULT_MODE" readMode
  let echo ← setting? env "JITQL_ECHO" fun cs => some (cs = ['1'] || cs.map Char.toLower = "true".toList)
  let branch ← setting? env "JITQL_BRANCH" readUInt64
  return {
    poolBlock := poolBlock.getD settings.poolBlock
    buckets := buckets.getD settings.buckets
    resultMode := resultMode.getD settings.resultMode
    echo := echo.getD settings.echo
    branch := branch.getD settings.branch }

end Settings

end QueryEngine
