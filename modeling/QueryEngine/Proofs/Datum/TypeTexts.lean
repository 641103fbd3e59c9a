import QueryEngine.Proofs.Text.Numerals
import QueryEngine.Storage.Database
import QueryEngine.Types.Reading

namespace QueryEngine

variable {cs head tail inner : List Char} {arguments : List Nat} {shape : Shape} {ty : ValueType}

theorem afterHead?_append (head cs : List Char) : afterHead? head (head ++ cs) = some cs := by
  induction head with
  | nil => rfl
  | cons c head ih => rw [List.cons_append, afterHead?, if_pos rfl, ih]

theorem beforeTail?_append (cs tail : List Char) : beforeTail? tail (cs ++ tail) = some cs := by
  rw [beforeTail?, List.reverse_append, afterHead?_append, Option.map_some, List.reverse_reverse]

theorem toLower_of_isDigit {c : Char} (digit : c.isDigit) : c.toLower = c := by
  simp only [Char.isDigit, Bool.and_eq_true, decide_eq_true_eq] at digit
  exact dif_neg fun upper => absurd (UInt32.le_trans upper.1 digit.2) (by decide)

theorem Numeral.toDigits (n : Nat) : Numeral (Nat.toDigits 10 n) n := by
  simpa using Numeral.toString n

theorem readUInt32_toDigits {n : Nat} (small : n < UInt32.size) :
    readUInt32 (trimBlanks (Nat.toDigits 10 n)) = some n := by
  have numeral := Numeral.toDigits n
  rw [trimBlanks_eq_self numeral.dark numeral.dark List.prefix_rfl List.suffix_rfl]
  exact readNat_eq_some.mpr ⟨.inl numeral, small⟩

theorem readArguments_append (name : List Char)
    (read : (splitAll ',' inner).mapM (fun argument => readUInt32 (trimBlanks argument)) = some arguments) :
    readArguments name (name ++ '(' :: (inner ++ [')'])) = some arguments := by
  have dark c (isDark : isBlank c = false) : Dark [c] := ⟨by simp, by simpa using isDark⟩
  have trimmed : trimBlanks ('(' :: (inner ++ [')'])) = '(' :: (inner ++ [')']) :=
    trimBlanks_eq_self (dark '(' (by decide)) (dark ')' (by decide)) (List.prefix_append ['('] _)
      (List.suffix_append ('(' :: inner) [')'])
  rw [readArguments, afterHead?_append]
  simp [trimmed, afterHead?, beforeTail?_append, read]

/-- A text in parentheses is read as a shape, whether a NULL marker follows it or not. -/
theorem ValueType.read_of_shape {c : Char} (dark : isBlank c = false)
    (lower : (c :: (inner ++ [')'])).map Char.toLower = c :: (inner ++ [')']))
    (read : Shape.read (c :: (inner ++ [')'])) = some shape) {text : String}
    (chars : text.toList = c :: (inner ++ [')']) ∨ text.toList = c :: (inner ++ [')']) ++ " null".toList) :
    ValueType.read text = .ok ⟨shape, true⟩ := by
  have close : isBlank ')' = false := by decide
  have space : isBlank ' ' = true := by decide
  have last : isBlank 'l' = false := by decide
  obtain chars | chars := chars
  · have trimmed : trimBlanks (c :: (inner ++ [')'])) = c :: (inner ++ [')']) := by
      simp [trimBlanks, dark, close]
    have plain : beforeTail? "not null".toList (c :: (inner ++ [')'])) = none ∧
        beforeTail? "null".toList (c :: (inner ++ [')'])) = none := by
      simp [beforeTail?, afterHead?]
    rw [ValueType.read, chars, trimmed, lower, plain.1, plain.2]
    simp [read]
  · have trimmed : trimBlanks (c :: (inner ++ [')']) ++ " null".toList) = c :: (inner ++ [')']) ++ " null".toList := by
      simp [trimBlanks, dark, last]
    have marked : beforeTail? "not null".toList (c :: (inner ++ [')']) ++ " null".toList) = none ∧
        beforeTail? "null".toList (c :: (inner ++ [')']) ++ " null".toList) = some (c :: (inner ++ [')', ' '])) := by
      constructor
      · simp [beforeTail?, afterHead?]
      · simpa using beforeTail?_append (c :: (inner ++ [')', ' '])) "null".toList
    have stripped : trimBlanks (c :: (inner ++ [')', ' '])) = c :: (inner ++ [')']) := by
      simp [trimBlanks, dark, space, close]
    rw [ValueType.read, chars, trimmed, List.map_append, lower,
      show " null".toList.map Char.toLower = " null".toList from rfl, marked.1, marked.2]
    simp [stripped, read]

namespace ValueType

/-- A column can have the type, and a numeric has as many digits as a word holds. -/
def Storable (ty : ValueType) : Prop :=
  match ty.shape with
  | .unknown => False
  | .numeric length precision => precision ≤ length ∧ length ≤ numericDigits
  | _ => True

/-- The text of every type a column can have is read as that type, made nullable. -/
theorem read_text (storable : ty.Storable) : ValueType.read ty.text = .ok ty.asNullable := by
  have lower n : (Nat.toDigits 10 n).map Char.toLower = Nat.toDigits 10 n :=
    (List.map_congr_left fun c member => toLower_of_isDigit ((Numeral.toDigits n).digits c member)).trans
      (List.map_id _)
  have comma n : ',' ∉ Nat.toDigits 10 n := (Numeral.toDigits n).not_mem rfl
  have single {n : Nat} (small : n < UInt16.size) :
      (splitAll ',' (Nat.toDigits 10 n)).mapM (fun argument => readUInt32 (trimBlanks argument)) = some [n] := by
    rw [splitAll_eq_splitOn, List.splitOn_eq_singleton (comma n)]
    simp [readUInt32_toDigits (Nat.lt_trans small (by decide))]
  obtain ⟨shape, nullable⟩ := ty
  cases shape with
  | unknown => exact storable.elim
  | bool | integer | date | timestamp => cases nullable <;> decide
  | char length =>
    have arguments := readArguments_append "char".toList (single length.toNat_lt)
    have read : Shape.read ('c' :: ("har(".toList ++ Nat.toDigits 10 length.toNat ++ [')'])) = some (.char length) := by
      simp at arguments
      simp [Shape.read, afterHead?, arguments, length.toNat_lt]
    exact read_of_shape (by decide) (by simp [lower]) read (by cases nullable <;> simp [text, isUnknown])
  | varchar capacity =>
    have arguments := readArguments_append "varchar".toList (single capacity.toNat_lt)
    have read : Shape.read ('v' :: ("archar(".toList ++ Nat.toDigits 10 capacity.toNat ++ [')'])) =
        some (.varchar capacity) := by
      simp at arguments
      simp [Shape.read, afterHead?, arguments, capacity.toNat_lt]
    exact read_of_shape (by decide) (by simp [lower]) read (by cases nullable <;> simp [text, isUnknown])
  | numeric length precision =>
    obtain ⟨less, most⟩ : precision ≤ length ∧ length ≤ numericDigits := storable
    have both : (splitAll ',' (Nat.toDigits 10 length.toNat ++ ',' :: Nat.toDigits 10 precision.toNat)).mapM
        (fun argument => readUInt32 (trimBlanks argument)) = some [length.toNat, precision.toNat] := by
      have small (n : UInt8) : n.toNat < UInt32.size := Nat.lt_trans n.toNat_lt (by decide)
      rw [splitAll_eq_splitOn, List.splitOn_append_cons_self_of_not_mem (comma _), List.splitOn_eq_singleton (comma _)]
      simp [readUInt32_toDigits (small _)]
    have arguments := readArguments_append "numeric".toList both
    have read : Shape.read ('n' :: ("umeric(".toList ++
        (Nat.toDigits 10 length.toNat ++ ',' :: Nat.toDigits 10 precision.toNat) ++ [')'])) =
          some (.numeric length precision) := by
      simp at arguments
      simp [Shape.read, afterHead?, arguments, UInt8.le_iff_toNat_le.mp less, UInt8.le_iff_toNat_le.mp most]
    exact read_of_shape (by decide) (by simp [lower]) read (by cases nullable <;> simp [text, isUnknown])

/-- Nothing in the text of a type says that its values are never NULL. -/
theorem not_null_reads_nullable : read integer.text = .ok integer.asNullable ∧ read integer.text ≠ .ok integer := by
  decide

/-- Every type of a column is read back from its text, in a schema too, but for what the text does not say: that NULL is
not allowed. So exactly the nullable types come back as they were. -/
theorem texts_read_nullable :
    (∀ ty : ValueType, ty.Storable → read ty.text = .ok ty.asNullable ∧ (read ty.text = .ok ty ↔ ty.nullable)) ∧
    ∀ db : Database, (∀ t ∈ db.tables, ∀ ty ∈ t.columnTypes, ty.Storable) → ∃ texts : Table → List String,
      db.schema = String.join (db.tables.map fun t => "CREATE TABLE " ++ t.name ++ " (" ++
        String.intercalate ", " (List.zipWith (fun name text => name ++ " " ++ text) t.columnNames (texts t)) ++
          ");\n") ∧
      ∀ t ∈ db.tables, (texts t).map read = t.columnTypes.map fun ty => .ok ty.asNullable := by
  refine ⟨fun ty storable => ⟨read_text storable, ?_⟩, fun db storable =>
    ⟨fun t => t.columnTypes.map text, ?_, fun t inside => ?_⟩⟩
  · obtain ⟨shape, nullable⟩ := ty
    simp [read_text storable, asNullable, withNullable]
  · refine congrArg String.join (List.map_congr_left fun t _ => ?_)
    simp [Table.schema, Table.columnNames, Table.columnTypes, List.zipWith_map]
  · rw [List.map_map]
    exact List.map_congr_left fun ty member => read_text (storable t inside ty member)

theorem texts_read_nullable_decimal : (numeric 18 18).asNullable.Storable ∧
    read (numeric 18 18).asNullable.text = .ok (numeric 18 18).asNullable := by
  have storable : (numeric 18 18).asNullable.Storable := ⟨UInt8.le_refl _, UInt8.le_refl _⟩
  exact ⟨storable, (texts_read_nullable.1 _ storable).2.mpr rfl⟩

end ValueType

end QueryEngine
