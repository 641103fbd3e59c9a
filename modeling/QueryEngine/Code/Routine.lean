import QueryEngine.Code.Type

namespace QueryEngine

/-- What emitted code can ask the machine to do. -/
inductive Routine where
  | poolCreate
  | poolTake
  | poolFree
  | chainCreate
  | chainInsert
  | chainLookup
  | chainNextSameHash
  | chainFirst
  | chainNext
  | chainFree
  | listCreate
  | listAppend
  | joinBuild
  | joinLookup
  | joinNextSameHash
  | joinFree
  | printFormatted
  | printChar
  | printBool
  | printInteger
  | printNumeric
  | printString
  | printDate
  | printTimestamp
  | printNull
  | compareBytes
  | hashBytes
  | allocate
  | release
  | reportOverflow
  | reportDivisionByZero
  | resultRow
  | tableRowCount
  | tableColumn
  | tableNulls
  | tableBranches
  | tableInsert
  | tableUpdate
  | tableDelete
deriving Repr, DecidableEq

structure Signature where
  name : String
  params : List CodeType
  result : Option CodeType
deriving Repr, DecidableEq

namespace Routine

def all : List Routine :=
  [.poolCreate, .poolTake, .poolFree, .chainCreate, .chainInsert, .chainLookup, .chainNextSameHash,
    .chainFirst, .chainNext, .chainFree, .listCreate, .listAppend, .joinBuild, .joinLookup, .joinNextSameHash,
    .joinFree, .printFormatted, .printChar, .printBool, .printInteger, .printNumeric, .printString, .printDate,
    .printTimestamp, .printNull, .compareBytes, .hashBytes, .allocate, .release, .reportOverflow,
    .reportDivisionByZero, .resultRow, .tableRowCount, .tableColumn, .tableNulls, .tableBranches, .tableInsert,
    .tableUpdate, .tableDelete]

def signature : Routine → Signature
  | poolCreate => ⟨"pool_create", [], some .ptr⟩
  | poolTake => ⟨"pool_malloc", [.ptr, .i64], some .ptr⟩
  | poolFree => ⟨"pool_free", [.ptr], none⟩
  | chainCreate => ⟨"ht_create", [], some .ptr⟩
  | chainInsert => ⟨"ht_insert", [.ptr, .i64, .i64], some .ptr⟩
  | chainLookup => ⟨"ht_lookup", [.ptr, .i64], some .ptr⟩
  | chainNextSameHash => ⟨"ht_next_same_hash", [.ptr, .ptr, .i64], some .ptr⟩
  | chainFirst => ⟨"ht_first", [.ptr], some .ptr⟩
  | chainNext => ⟨"ht_next", [.ptr, .ptr], some .ptr⟩
  | chainFree => ⟨"ht_free", [.ptr], none⟩
  | listCreate => ⟨"join_list_create", [], some .ptr⟩
  | listAppend => ⟨"join_list_append", [.ptr, .i64, .i64], some .ptr⟩
  | joinBuild => ⟨"sht_build", [.ptr], some .ptr⟩
  | joinLookup => ⟨"sht_lookup", [.ptr, .i64], some .ptr⟩
  | joinNextSameHash => ⟨"sht_next_same_hash", [.ptr, .ptr, .i64], some .ptr⟩
  | joinFree => ⟨"sht_free", [.ptr], none⟩
  | printFormatted => ⟨"printf", [.ptr, .i64, .i64], some .i32⟩
  | printChar => ⟨"print_char", [.i8], none⟩
  | printBool => ⟨"print_bool", [.i8], none⟩
  | printInteger => ⟨"print_integer", [.i32], none⟩
  | printNumeric => ⟨"print_numeric", [.i64, .i32], none⟩
  | printString => ⟨"print_string", [.ptr, .i64], none⟩
  | printDate => ⟨"print_date", [.i32], none⟩
  | printTimestamp => ⟨"print_timestamp", [.i64], none⟩
  | printNull => ⟨"print_null", [], none⟩
  | compareBytes => ⟨"memcmp", [.ptr, .ptr, .i64], some .i32⟩
  | hashBytes => ⟨"hash_bytes", [.ptr, .i64], some .i64⟩
  | allocate => ⟨"malloc", [.i64], some .ptr⟩
  | release => ⟨"free", [.ptr], none⟩
  | reportOverflow => ⟨"report_overflow", [.ptr, .i64], none⟩
  | reportDivisionByZero => ⟨"report_division_by_zero", [.ptr, .i64], none⟩
  | resultRow => ⟨"result_row", [.i64, .ptr], none⟩
  | tableRowCount => ⟨"table_row_count", [.i64], some .i64⟩
  | tableColumn => ⟨"table_column", [.i64, .i64], some .ptr⟩
  | tableNulls => ⟨"table_null_indicators", [.i64], some .ptr⟩
  | tableBranches => ⟨"table_branch_bitmap", [.i64], some .ptr⟩
  | tableInsert => ⟨"table_insert", [.i64, .i64, .ptr], none⟩
  | tableUpdate => ⟨"table_update", [.i64, .i64, .i64, .i64, .ptr], none⟩
  | tableDelete => ⟨"table_delete", [.i64, .i64], none⟩

def name (routine : Routine) : String := routine.signature.name

def params (routine : Routine) : List CodeType := routine.signature.params

def result (routine : Routine) : Option CodeType := routine.signature.result

def named? (name : String) : Option Routine := all.find? fun routine => routine.name = name

end Routine

end QueryEngine
