import QueryEngine.Row

namespace QueryEngine.Report

def columnWidth : Nat := 15

def header (names : List String) : String :=
  "   | " ++ String.intercalate " | " (names.map (padded .left columnWidth)) ++ " |\n"

def line? (number : Nat) (row : Row) : Option String := do
  let fields ← row.mapM (Datum.fieldText? columnWidth)
  some (padded .right 2 (toString number) ++ " |" ++ String.join (fields.map fun field => " " ++ field ++ " |") ++ "\n")

def footer (count : Nat) : String := "(" ++ toString count ++ " rows)\n"

def text? (names : List String) (rows : List Row) (counted : Bool) : Option String := do
  let lines ← (rows.zipIdx).mapM fun row => line? row.2 row.1
  some (header names ++ String.join lines ++ (if counted then footer rows.length else ""))

end QueryEngine.Report
