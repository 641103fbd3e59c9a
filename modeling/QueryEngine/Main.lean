import QueryEngine.Demo

namespace QueryEngine

def settingNames : List String :=
  ["JITQL_POOL_BLOCK_SIZE", "JITQL_HASHTABLE_BUCKETS", "JITQL_RESULT_MODE", "JITQL_ECHO", "JITQL_BRANCH"]

def readEnvironment : List String → IO Settings.Environment
  | [] => return []
  | name :: names => do
    let rest ← readEnvironment names
    match ← IO.getEnv name with
    | some value => return (name, value) :: rest
    | none => return rest

end QueryEngine

open QueryEngine in
def main : IO UInt32 := do
  let (shown, fault) := Demo.run (← readEnvironment settingNames)
  IO.print shown
  match fault with
  | none => return 0
  | some (.error message) => do
    IO.eprintln ("Error: " ++ message)
    return 1
  | some .trap => return 101
