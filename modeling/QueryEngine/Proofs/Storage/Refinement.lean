import Mathlib.Data.Finset.Erase
import Mathlib.Data.Finset.Insert
import Mathlib.Data.Finset.Filter
import Mathlib.Data.Finset.Range
import QueryEngine.Proofs.Storage.Validity

namespace QueryEngine

open List Checked Word

variable {call : Call} {name : String} {stored : Table × TextHeap}

/-- A row as it is seen from outside. -/
structure StoredRow where
  values : Row
  /-- The branches that see the row. -/
  seenBy : Finset Nat

namespace Table

variable {heap heap' : TextHeap} {t t' : Table} {tid column branch i : Nat}

/-- The value of a cell, where there is one. -/
def valueAt (t : Table) (heap : TextHeap) (tid column : Nat) : Datum :=
  (t.getCell heap.read tid column).toOption.getD .null

def rowAt (t : Table) (heap : TextHeap) (tid : Nat) : StoredRow where
  values := (List.range t.columns.size).map (t.valueAt heap tid)
  seenBy := {branch ∈ Finset.range maxBranches | t.isVisible tid branch = true}

/-- The rows of a table, in the order they were added. -/
def rows (t : Table) (heap : TextHeap) : List StoredRow := (List.range t.rowCount).map (t.rowAt heap)

/-- A call that changes a table. -/
inductive Call where
  | addRow (values : Row) (branch : Nat)
  | updateCell (tid column : Nat) (value : Datum)
  | hideRow (tid branch : Nat)
  | copyVisibility (parent branch : Nat)

namespace Call

def run (call : Call) (t : Table) (heap : TextHeap) : Checked TableError (Table × TextHeap) :=
  match call with
  | addRow values branch => t.addRow heap values branch
  | updateCell tid column value => t.updateCell heap tid column value
  | hideRow tid branch => (·, heap) <$> (t.hideRow tid branch).mapError .error
  | copyVisibility parent branch => (·, heap) <$> (t.copyVisibility parent branch).mapError .error

/-- A table and its texts after a call, which changes nothing if it fails. -/
def after (call : Call) (stored : Table × TextHeap) : Table × TextHeap :=
  match call.run stored.1 stored.2 with
  | .ok changed => changed
  | .error _ => stored

/-- What a call is to do to the rows of a table that has this name and these columns. -/
def onRows (call : Call) (name : String) (types : List ValueType) (rows : List StoredRow) :
    Checked TableError (List StoredRow) :=
  match call with
  | addRow values branch =>
    if maxBranches ≤ branch then Checked.fail (.badBranch branch)
    else match Row.coerce types values with
      | .error fault => .error (fault.map .row)
      | .ok row => .ok (rows ++ [⟨row, {branch}⟩])
  | updateCell tid column value =>
    if rows.length ≤ tid then Checked.fail (.rowOutOfRange name tid rows.length)
    else match types[column]? with
      | none => Checked.fail (.columnNotFound name ("#" ++ toString column))
      | some ty => match value.coerce ty with
        | .error fault => .error (fault.map .datum)
        | .ok d => .ok (rows.modify tid fun row => { row with values := row.values.set column d })
  | hideRow tid branch =>
    if rows.length ≤ tid then Checked.fail (.rowOutOfRange name tid rows.length)
    else if maxBranches ≤ branch then Checked.fail (.badBranch branch)
    else .ok (rows.modify tid fun row => { row with seenBy := row.seenBy.erase branch })
  | copyVisibility parent branch =>
    if maxBranches ≤ parent ∨ maxBranches ≤ branch then Checked.fail (.badBranch (max parent branch))
    else .ok (rows.map fun row =>
      if parent ∈ row.seenBy then { row with seenBy := insert branch row.seenBy } else row)

end Call

/-- There may be no room for another row, or for its texts. -/
def Full (t : Table) (heap : TextHeap) : Prop :=
  maxRows ≤ t.rowCount ∨ arenaSpan < (heap.size + maxColumns + 2) * Arena.text.span

end Table

/-- Texts are only coerced to types that bound their length. -/
theorem Datum.coerce_short {value d : Datum} {ty : ValueType} {text : String} (coerced : value.coerce ty = .ok d)
    (isText : d = .char text ∨ d = .varchar text) : byteLength text < 2 ^ 16 := by
  rcases coerce_cases coerced with ⟨rfl, _⟩ | fits
  · rcases isText with isText | isText <;> cases isText
  · generalize ty.shape = shape at fits
    rcases isText with rfl | rfl
    · cases fits with | char short => exact Nat.lt_of_le_of_lt short (UInt16.toNat_lt _)
    · cases fits with | varchar short => exact Nat.lt_of_le_of_lt short (UInt16.toNat_lt _)

namespace Codec

variable {encoding : NullEncoding} {heap : TextHeap} {ty : ValueType} {value d : Datum}

/-- A coerced value has bytes, unless there is no room for its text. No type refuses it any more. -/
theorem encode_cases (valid : heap.Valid) (coerced : value.coerce ty = .ok d) :
    (∃ bytes heap', encode encoding d ty heap = .ok (bytes, heap') ∧ heap'.size ≤ heap.size + 1) ∨
      (encode encoding d ty heap = .error .trap ∧ arenaSpan < (heap.size + 2) * Arena.text.span) := by
  have interned (text : String) (isText : d = .char text ∨ d = .varchar text) :
      (∃ a heap', heap.intern? (textBytes text) = some (a, heap') ∧ heap'.size = heap.size + 1) ∨
        (heap.intern? (textBytes text) = none ∧ arenaSpan < (heap.size + 2) * Arena.text.span) := by
    have short := Datum.coerce_short coerced isText
    have long : max 1 (textBytes text).length ≤ Arena.text.span := by
      rw [textBytes_length]
      simp only [Arena.span]
      omega
    unfold TextHeap.intern?
    split
    · exact Or.inl ⟨_, _, rfl, by simp [TextHeap.size]⟩
    next full =>
      refine Or.inr ⟨rfl, ?_⟩
      simp only [TextHeap.hasRoom, valid.arena, Bool.and_eq_true, decide_eq_true_eq, not_and] at full
      by_contra room
      exact full (by omega) long
  cases isNull : d.isNull with
  | true =>
    cases d with
    | null => exact Or.inl ⟨_, heap, rfl, by omega⟩
    | _ => cases isNull
  | false =>
    have kind := Datum.coerce_hasShape coerced isNull
    generalize isShape : ty.shape = shape at kind
    cases kind
    case char text _ | varchar text _ =>
      rcases interned text (by simp) with ⟨a, heap', found, size⟩ | ⟨none, full⟩
      · exact Or.inl ⟨_, heap', by simp only [encode, isShape, found]; rfl, Nat.le_of_eq size⟩
      · exact Or.inr ⟨by simp only [encode, isShape, none]; rfl, full⟩
    all_goals exact Or.inl ⟨_, heap, by simp only [encode, isShape]; rfl, by omega⟩

end Codec

namespace Table

variable {heap heap' : TextHeap} {t t' : Table} {tid column branch i : Nat}

/-- A coerced row has bytes in every column, unless there is no room for its texts. -/
theorem encodeRow_cases {encoding : NullEncoding} {types : List ValueType} {row : Row} (valid : heap.Valid)
    (coerced : Forall₂ (fun ty d => ∃ value : Datum, value.coerce ty = .ok d) types row) :
    (∃ cells nulls heap', encodeRow encoding column types row heap = .ok (cells, nulls, heap')) ∨
      (encodeRow encoding column types row heap = .error .trap ∧
        arenaSpan < (heap.size + types.length + 2) * Arena.text.span) := by
  induction coerced generalizing column heap with
  | nil => exact Or.inl ⟨_, _, _, rfl⟩
  | @cons ty d types row head _ ih =>
    obtain ⟨value, coerced⟩ := head
    unfold encodeRow
    rcases Codec.encode_cases valid coerced with ⟨bytes, heap1, first, size⟩ | ⟨first, full⟩
    · have valid1 := (Codec.encode_encoded valid coerced first).2.1
      rw [first]
      rcases @ih heap1 (column + 1) valid1 with ⟨cells, nulls, heap2, rest⟩ | ⟨rest, full⟩
      · exact Or.inl ⟨_, _, _, by simp only [bind, Except.bind, rest]; rfl⟩
      · refine Or.inr ⟨by simp only [bind, Except.bind, rest], Nat.lt_of_lt_of_le full ?_⟩
        exact Nat.mul_le_mul_right _ (by rw [length_cons]; omega)
    · rw [first]
      exact Or.inr ⟨rfl, Nat.lt_of_lt_of_le full (Nat.mul_le_mul_right _ (by omega))⟩

@[simp] theorem length_rows (t : Table) (heap : TextHeap) : (t.rows heap).length = t.rowCount := by simp [rows]

theorem mem_seenBy : branch ∈ (t.rowAt heap tid).seenBy ↔ t.isVisible tid branch = true := by
  simp only [rowAt, Finset.mem_filter, Finset.mem_range, and_iff_right_iff_imp]
  intro visible
  simp only [isVisible, Bool.and_eq_true, decide_eq_true_eq] at visible
  exact visible.1.2

theorem isVisible_iff (isRow : tid < t.rowCount) (known : branch < maxBranches) :
    t.isVisible tid branch = (t.branchWord tid).hasBit branch := by
  simp [isVisible, isRow, known]

/-- A table in a state that it can be in, of which the nulls are kept as bits. -/
structure Flagged (t : Table) (heap : TextHeap) : Prop extends t.Valid heap where
  indicator : t.encoding = .indicator

/-- What has the bytes of a value, and its bit for NULL, has the value. -/
theorem Holds.getCell_eq (holds : t.Holds heap tid i d) (indicator : t.encoding = .indicator) (texts : heap.Valid)
    (isRow : tid < t.rowCount) : t.getCell heap.read tid i = .ok d := by
  obtain ⟨c, _, atColumn, atRow, encoded, flagged⟩ := holds
  rw [getCell_of_encoded texts atColumn isRow atRow encoded flagged, indicator, Codec.seen_indicator]

theorem Holds.valueAt (holds : t.Holds heap tid i d) (indicator : t.encoding = .indicator) (texts : heap.Valid)
    (isRow : tid < t.rowCount) : t.valueAt heap tid i = d := by
  rw [Table.valueAt, holds.getCell_eq indicator texts isRow]
  rfl

theorem Flagged.holds (valid : t.Flagged heap) (texts : heap.Valid) (isRow : tid < t.rowCount)
    (isColumn : column < t.columns.size) : t.Holds heap tid column (t.valueAt heap tid column) := by
  obtain ⟨d, holds⟩ := valid.cell tid isRow column isColumn
  exact (holds.valueAt valid.indicator texts isRow).symm ▸ holds

/-- A row can be read as a whole. -/
theorem Flagged.getRow_eq (valid : t.Flagged heap) (texts : heap.Valid) (isRow : tid < t.rowCount) :
    t.getRow heap.read tid = .ok (t.rowAt heap tid).values := by
  have reads (columns : List Nat) (known : ∀ column ∈ columns, column < t.columns.size) :
      columns.mapM (t.getCell heap.read tid) = .ok (columns.map (t.valueAt heap tid)) := by
    induction columns with
    | nil => rfl
    | cons column columns ih =>
      rw [mapM_cons, (valid.holds texts isRow (known column mem_cons_self)).getCell_eq valid.indicator texts
        isRow, ih fun other member => known other (mem_cons_of_mem _ member)]
      rfl
  exact reads _ fun column member => mem_range.mp member

/-- A null bit is only set in a nullable column. -/
theorem Flagged.nullable_of_bit (valid : t.Flagged heap) (texts : heap.Valid) (isRow : tid < t.rowCount)
    (atColumn : t.columns[i]? = some c) (isNull : (t.nullWord tid).hasBit i = true) : c.ty.nullable = true := by
  obtain ⟨_, _, atColumn', _, encoded, flagged⟩ :=
    valid.holds texts isRow (Array.getElem?_eq_some_iff.mp atColumn).1
  cases atColumn.symm.trans atColumn'
  rw [isNull] at flagged
  generalize t.valueAt heap tid i = d at encoded flagged
  cases encoded with
  | null nullable => exact nullable
  | _ => cases flagged

/-- A row is what its cells and its bits for the branches say. -/
theorem rowAt_eq (isRow : tid < t.rowCount) (width : row.values.length = t.columns.size)
    (values : ∀ (i : Nat) d, row.values[i]? = some d → t.valueAt heap tid i = d)
    (known : ∀ branch ∈ row.seenBy, branch < maxBranches)
    (seen : ∀ branch < maxBranches, (t.branchWord tid).hasBit branch = true ↔ branch ∈ row.seenBy) :
    t.rowAt heap tid = row := by
  have sameValues : (t.rowAt heap tid).values = row.values := by
    refine ext_getElem (by simp [rowAt, width]) fun i inside inside' => ?_
    simp only [rowAt, getElem_map, getElem_range]
    exact values i _ (getElem?_eq_getElem inside')
  have sameBranches : (t.rowAt heap tid).seenBy = row.seenBy := by
    ext branch
    rw [mem_seenBy]
    by_cases small : branch < maxBranches
    · rw [isVisible_iff isRow small, seen branch small]
    · have hidden : t.isVisible tid branch = false := by simp [isVisible, small]
      have unknown : branch ∉ row.seenBy := fun member => small (known branch member)
      simp [hidden, unknown]
  generalize t.rowAt heap tid = found at sameValues sameBranches
  obtain ⟨values, seenBy⟩ := found
  dsimp only at sameValues sameBranches
  rw [sameValues, sameBranches]

theorem known_of_seenBy (member : branch ∈ (t.rowAt heap tid).seenBy) : branch < maxBranches := by
  simp only [rowAt, Finset.mem_filter, Finset.mem_range] at member
  exact member.1

theorem hasBit_iff_seenBy (isRow : tid < t.rowCount) (small : branch < maxBranches) :
    (t.branchWord tid).hasBit branch = true ↔ branch ∈ (t.rowAt heap tid).seenBy := by
  rw [mem_seenBy, isVisible_iff isRow small]

theorem length_values (t : Table) (heap : TextHeap) (tid : Nat) :
    (t.rowAt heap tid).values.length = t.columns.size := by simp [rowAt]

theorem valueAt_of_values (found : (t.rowAt heap tid).values[i]? = some d) :
    i < t.columns.size ∧ t.valueAt heap tid i = d := by
  obtain ⟨inside, same⟩ := List.getElem?_eq_some_iff.mp found
  rw [length_values] at inside
  simp only [rowAt, getElem_map, getElem_range] at same
  exact ⟨inside, same⟩

/-- A row that is added comes last, and the others stay as they are. -/
theorem Flagged.rows_addRow (valid : t.Flagged heap) (texts : heap.Valid)
    (added : t.addRow heap values branch = .ok (t', heap')) :
    ∃ row, Row.coerce t.columnTypes values = .ok row ∧ t'.rows heap' = t.rows heap ++ [⟨row, {branch}⟩] := by
  obtain ⟨rewrites, count, kept, row, coerced, width, added'⟩ := valid.addRow_holds texts added
  obtain ⟨known, _, _, _, _, _, _, isNew⟩ := addRow_ok added
  have texts' := rewrites.texts
  have indicator' := rewrites.encoding.trans valid.indicator
  have columns := rewrites.size
  have branchWord (tid : Nat) : t'.branchWord tid = if tid = t.rowCount then bit branch else t.branchWord tid := by
    rw [isNew, branchWord, valid.branches.get?_push, show t.branchWords.size = t.rowCount from rfl]
    split <;> rfl
  have old (tid : Nat) (isOld : tid < t.rowCount) : t'.rowAt heap' tid = t.rowAt heap tid := by
    refine rowAt_eq (by omega) (by rw [length_values, columns]) (fun i d atValue => ?_)
      (fun branch member => known_of_seenBy member) fun branch small => ?_
    · obtain ⟨inside, rfl⟩ := valueAt_of_values atValue
      exact (kept tid isOld i _ (valid.holds texts isOld inside)).valueAt indicator' texts' (by omega)
    · rw [branchWord, if_neg (Nat.ne_of_lt isOld), hasBit_iff_seenBy isOld small]
  have new : t'.rowAt heap' t.rowCount = ⟨row, {branch}⟩ := by
    refine rowAt_eq (by omega) (by rw [columns, width])
      (fun i d atValue => (added' i d atValue).valueAt indicator' texts' (by omega)) (fun other member => ?_)
      fun other small => ?_
    · rw [Finset.mem_singleton.mp member]
      exact known
    · have bit := hasBit_setBit 0 known small
      simp only [setBit, UInt64.zero_or, hasBit_zero, Bool.or_false] at bit
      rw [branchWord, if_pos rfl, bit, decide_eq_true_eq, Finset.mem_singleton]
      exact eq_comm
  refine ⟨row, coerced, ?_⟩
  unfold rows
  rw [count, range_succ, map_append, map_singleton, new]
  congr 1
  exact map_congr_left fun tid member => old tid (mem_range.mp member)

theorem map_range_modify (f g : Nat → α) (change : α → α) (n tid : Nat) (here : g tid = change (f tid))
    (others : ∀ i < n, i ≠ tid → g i = f i) :
    (range n).map g = ((range n).map f).modify tid change := by
  refine ext_getElem (by simp) fun i inside _ => ?_
  have bound : i < n := by simpa using inside
  rw [getElem_modify]
  simp only [getElem_map, getElem_range]
  split
  next same => rw [← same, here]
  next differs => exact others i bound (Ne.symm differs)

/-- An overwritten cell has the new value, and the others stay as they are. -/
theorem Flagged.rows_updateCell (valid : t.Flagged heap) (texts : heap.Valid)
    (updated : t.updateCell heap tid column value = .ok (t', heap')) :
    ∃ ty d, tid < t.rowCount ∧ t.columnTypes[column]? = some ty ∧ value.coerce ty = .ok d ∧
      t'.rows heap' = (t.rows heap).modify tid fun row => { row with values := row.values.set column d } := by
  obtain ⟨rewrites, count, kept, ty, d, typed, coerced, here⟩ := valid.updateCell_holds texts updated
  obtain ⟨isRow, _, _, _, atColumn, _, _, isNew⟩ := updateCell_ok updated
  have texts' := rewrites.texts
  have indicator' := rewrites.encoding.trans valid.indicator
  have isColumn := (Array.getElem?_eq_some_iff.mp atColumn).1
  refine ⟨ty, d, isRow, typed, coerced, ?_⟩
  have columns := rewrites.size
  have branchWord (other : Nat) : t'.branchWord other = t.branchWord other := by rw [isNew]; rfl
  have unchanged (other i : Nat) (isOther : other < t.rowCount) (inside : i < t.columns.size)
      (differs : ¬(other = tid ∧ i = column)) : t'.valueAt heap' other i = t.valueAt heap other i :=
    (kept other i _ differs (valid.holds texts isOther inside)).valueAt indicator' texts' (by omega)
  unfold rows
  rw [count]
  refine map_range_modify _ _ _ _ _ ?_ fun other isOther differs => ?_
  · refine rowAt_eq (by omega) (by rw [length_set, length_values, columns]) (fun i d' atValue => ?_)
      (fun branch member => @known_of_seenBy heap t tid branch member) fun branch known => ?_
    · rw [getElem?_set] at atValue
      split at atValue
      next same =>
        subst same
        rw [length_values, if_pos isColumn] at atValue
        cases atValue
        exact here.valueAt indicator' texts' (by omega)
      next differs =>
        obtain ⟨inside, rfl⟩ := valueAt_of_values atValue
        exact unchanged tid i isRow inside fun both => differs both.2.symm
    · rw [branchWord, hasBit_iff_seenBy isRow known]
  · refine rowAt_eq (by omega) (by rw [length_values, columns]) (fun i d' atValue => ?_)
      (fun branch member => known_of_seenBy member) fun branch known => ?_
    · obtain ⟨inside, rfl⟩ := valueAt_of_values atValue
      exact unchanged other i isOther inside fun both => differs both.1
    · rw [branchWord, hasBit_iff_seenBy isOther known]

/-- Other words for the branches change nothing but who sees the rows. -/
theorem rowAt_withBranches (size : words.size = t.rowCount) (isRow : tid < t.rowCount)
    (values : row.values = (t.rowAt heap tid).values) (known : ∀ branch ∈ row.seenBy, branch < maxBranches)
    (seen : ∀ branch < maxBranches, ((words.get? tid).getD 0).hasBit branch = true ↔ branch ∈ row.seenBy) :
    rowAt { t with branchWords := words } heap tid = row := by
  have isRow' : tid < rowCount { t with branchWords := words } := Nat.lt_of_lt_of_eq isRow size.symm
  refine rowAt_eq isRow' (by rw [values, length_values]) (fun i d atValue => ?_) known seen
  rw [values] at atValue
  obtain ⟨_, rfl⟩ := valueAt_of_values atValue
  have cell : getCell { t with branchWords := words } heap.read tid i = t.getCell heap.read tid i := by
    have checked : checkRow { t with branchWords := words } tid = .ok () := if_pos isRow'
    have checked' : t.checkRow tid = .ok () := if_pos isRow
    unfold getCell
    rw [checked, checked']
    rfl
  rw [valueAt, cell]
  rfl

theorem Valid.rows_hideRow (valid : t.Valid heap) (hidden : t.hideRow tid branch = .ok t') :
    tid < t.rowCount ∧ branch < maxBranches ∧
      t'.rows heap = (t.rows heap).modify tid fun row => { row with seenBy := row.seenBy.erase branch } := by
  obtain ⟨isRow, known, rfl⟩ := hideRow_ok hidden
  refine ⟨isRow, known, ?_⟩
  have size := Growable.set_size t.branchWords tid ((t.branchWord tid).clearBit branch)
  have word (other : Nat) : ((t.branchWords.set tid ((t.branchWord tid).clearBit branch)).get? other).getD 0 =
      if other = tid then (t.branchWord tid).clearBit branch else t.branchWord other := by
    rw [valid.branches.get?_set isRow]
    split <;> rfl
  have count : rowCount { t with branchWords := t.branchWords.set tid ((t.branchWord tid).clearBit branch) } =
      t.rowCount := size
  unfold Table.rows
  rw [count]
  refine map_range_modify _ _ _ _ _ ?_ fun other isOther differs => ?_
  · refine rowAt_withBranches size isRow rfl (fun other member => ?_) fun other small => ?_
    · exact known_of_seenBy (Finset.mem_of_mem_erase member)
    · rw [word, if_pos rfl, hasBit_clearBit _ known small, Bool.and_eq_true, hasBit_iff_seenBy isRow small,
        Finset.mem_erase, Bool.not_eq_true', decide_eq_false_iff_not, ne_comm]
  · refine rowAt_withBranches size isOther rfl (fun other member => known_of_seenBy member) fun branch small => ?_
    rw [word, if_neg differs, hasBit_iff_seenBy isOther small]

theorem Valid.rows_copyVisibility (valid : t.Valid heap) (copied : t.copyVisibility parent branch = .ok t') :
    parent < maxBranches ∧ branch < maxBranches ∧ t'.rows heap = (t.rows heap).map fun row =>
      if parent ∈ row.seenBy then { row with seenBy := insert branch row.seenBy } else row := by
  obtain ⟨knownParent, known, rfl⟩ := copyVisibility_ok copied
  refine ⟨knownParent, known, ?_⟩
  have word (tid : Nat) (isRow : tid < t.rowCount) :
      ((t.branchWords.map fun w => if w.hasBit parent then w.setBit branch else w).get? tid).getD 0 =
        if (t.branchWord tid).hasBit parent then (t.branchWord tid).setBit branch else t.branchWord tid := by
    obtain ⟨w, found⟩ := valid.branches.get?_isSome isRow
    have isWord : t.branchWord tid = w := by rw [branchWord, found]; rfl
    rw [Growable.get?_map, found, isWord]
    rfl
  unfold Table.rows
  rw [map_map]
  refine map_congr_left fun tid member => ?_
  have isRow : tid < t.rowCount := mem_range.mp member
  have seesParent := @hasBit_iff_seenBy heap t tid parent isRow knownParent
  dsimp only [Function.comp]
  split
  next sees =>
    refine rowAt_withBranches rfl isRow rfl (fun other member => ?_) fun other small => ?_
    · rcases Finset.mem_insert.mp member with rfl | old
      · exact known
      · exact known_of_seenBy old
    · rw [word tid isRow, if_pos (seesParent.mpr sees), hasBit_setBit _ known small, Bool.or_eq_true,
        hasBit_iff_seenBy isRow small, Finset.mem_insert, decide_eq_true_eq, eq_comm]
  next sees =>
    refine rowAt_withBranches rfl isRow rfl (fun other member => known_of_seenBy member) fun other small => ?_
    rw [word tid isRow, if_neg fun bit => sees (seesParent.mp bit), hasBit_iff_seenBy isRow small]

theorem changed_ok {change : Except TableError Table}
    (changed : ((·, heap) <$> change.mapError .error : Checked TableError (Table × TextHeap)) = .ok (t', heap')) :
    change = .ok t' ∧ heap' = heap := by
  cases change with
  | error cause => cases changed
  | ok t =>
    cases changed
    exact ⟨rfl, rfl⟩

/-- Calls keep the name of a table and its columns. -/
theorem Call.run_schema (ran : call.run t heap = .ok (t', heap')) (valid : t.Valid heap)
    (texts : heap.Valid) : t'.name = t.name ∧ t'.columnTypes = t.columnTypes := by
  cases call with
  | addRow values branch =>
    have rewrites := (valid.addRow_holds texts ran).1
    exact ⟨rewrites.name, rewrites.types⟩
  | updateCell tid column value =>
    have rewrites := (valid.updateCell_holds texts ran).1
    exact ⟨rewrites.name, rewrites.types⟩
  | hideRow tid branch =>
    obtain ⟨_, _, rfl⟩ := hideRow_ok (changed_ok ran).1
    exact ⟨rfl, rfl⟩
  | copyVisibility parent branch =>
    obtain ⟨_, _, rfl⟩ := copyVisibility_ok (changed_ok ran).1
    exact ⟨rfl, rfl⟩

theorem Call.run_valid (valid : t.Valid heap) (texts : heap.Valid)
    (ran : call.run t heap = .ok (t', heap')) : (t'.Valid heap' ∧ t'.encoding = t.encoding) ∧ heap'.Valid ∧ heap.Grows heap' := by
  cases call with
  | addRow values branch => exact valid.addRow texts ran
  | updateCell tid column value => exact valid.updateCell texts ran
  | hideRow tid branch => exact valid_withoutTexts texts (fun _ => valid.hideRow) ran
  | copyVisibility parent branch => exact valid_withoutTexts texts (fun _ => valid.copyVisibility) ran

/-- What a call that succeeds does to the rows. -/
theorem Call.onRows_of_run (valid : t.Flagged heap) (texts : heap.Valid) (ran : call.run t heap = .ok (t', heap')) :
    call.onRows t.name t.columnTypes (t.rows heap) = .ok (t'.rows heap') := by
  cases call with
  | addRow values branch =>
    have known := (addRow_ok ran).1
    obtain ⟨row, coerced, same⟩ := valid.rows_addRow texts ran
    simp only [onRows, if_neg (Nat.not_le.mpr known), coerced, same]
  | updateCell tid column value =>
    obtain ⟨ty, d, isRow, atColumn, coerced, same⟩ := valid.rows_updateCell texts ran
    simp only [onRows, length_rows, if_neg (Nat.not_le.mpr isRow), atColumn, coerced, same]
  | hideRow tid branch =>
    obtain ⟨hidden, rfl⟩ := changed_ok ran
    obtain ⟨isRow, known, same⟩ := valid.rows_hideRow hidden
    simp only [onRows, length_rows, if_neg (Nat.not_le.mpr isRow), if_neg (Nat.not_le.mpr known), same]
  | copyVisibility parent branch =>
    obtain ⟨copied, rfl⟩ := changed_ok ran
    obtain ⟨knownParent, known, same⟩ := valid.rows_copyVisibility copied
    have both : ¬(maxBranches ≤ parent ∨ maxBranches ≤ branch) := by omega
    simp only [onRows, if_neg both, same]

/-- What a call that fails says. A call that the rows do not refuse only fails where there is no room. -/
theorem Call.fault_of_run {fault : Fault TableError} (valid : t.Flagged heap) (texts : heap.Valid)
    (ran : call.run t heap = .error fault) :
    call.onRows t.name t.columnTypes (t.rows heap) = .error fault ∨ (fault = .trap ∧ t.Full heap) := by
  cases call with
  | addRow values branch =>
    simp only [run, Table.addRow] at ran
    by_cases known : maxBranches ≤ branch
    · rw [if_pos known] at ran
      cases ran
      exact Or.inl (by simp only [onRows, if_pos known]; rfl)
    rw [if_neg known] at ran
    by_cases many : maxRows ≤ t.rowCount
    · rw [if_pos many] at ran
      cases ran
      exact Or.inr ⟨rfl, Or.inl many⟩
    rw [if_neg many] at ran
    cases coerced : Row.coerce t.columnTypes values with
    | error cause =>
      rw [coerced] at ran
      cases ran
      exact Or.inl (by simp only [onRows, if_neg known, coerced])
    | ok row =>
      rw [coerced] at ran
      rcases @encodeRow_cases heap 0 t.encoding _ _ texts (coerce_each coerced) with
        ⟨cells, nulls, heap1, encodes⟩ | ⟨encodes, full⟩
      · simp only [mapCause, bind, Except.bind, encodes] at ran
        cases ran
      · simp only [mapCause, bind, Except.bind, encodes] at ran
        cases ran
        refine Or.inr ⟨rfl, Or.inr (Nat.lt_of_lt_of_le full (Nat.mul_le_mul_right _ ?_))⟩
        have few := valid.few
        rw [length_columnTypes]
        omega
  | updateCell tid column value =>
    simp only [run, Table.updateCell, checkRow, numberedColumn] at ran
    by_cases outside : t.rowCount ≤ tid
    · rw [if_neg (Nat.not_lt.mpr outside)] at ran
      cases ran
      exact Or.inl (by simp only [onRows, length_rows, if_pos outside]; rfl)
    rw [if_pos (Nat.lt_of_not_le outside)] at ran
    cases atColumn : t.columns[column]? with
    | none =>
      rw [atColumn] at ran
      cases ran
      refine Or.inl ?_
      simp only [onRows, length_rows, if_neg outside, columnTypes_getElem?, atColumn, Option.map_none]
      rfl
    | some c =>
      rw [atColumn] at ran
      have typed : t.columnTypes[column]? = some c.ty := by rw [columnTypes_getElem?, atColumn]; rfl
      cases coerced : value.coerce c.ty with
      | error cause =>
        simp only [Except.mapError, mapCause, bind, Except.bind, coerced] at ran
        cases ran
        exact Or.inl (by simp only [onRows, length_rows, if_neg outside, typed, coerced])
      | ok d =>
        rcases @Codec.encode_cases t.encoding _ _ _ _ texts coerced with ⟨bytes, heap1, encodes, _⟩ | ⟨encodes, full⟩
        · simp only [Except.mapError, mapCause, bind, Except.bind, coerced, encodes] at ran
          cases ran
        · simp only [Except.mapError, mapCause, bind, Except.bind, coerced, encodes] at ran
          cases ran
          exact Or.inr ⟨rfl, Or.inr (Nat.lt_of_lt_of_le full (Nat.mul_le_mul_right _ (by omega)))⟩
  | hideRow tid branch =>
    simp only [run, Table.hideRow, checkRow] at ran
    by_cases outside : t.rowCount ≤ tid
    · rw [if_neg (Nat.not_lt.mpr outside)] at ran
      cases ran
      exact Or.inl (by simp only [onRows, length_rows, if_pos outside]; rfl)
    rw [if_pos (Nat.lt_of_not_le outside)] at ran
    by_cases known : maxBranches ≤ branch
    · rw [if_pos known] at ran
      cases ran
      exact Or.inl (by simp only [onRows, length_rows, if_neg outside, if_pos known]; rfl)
    · rw [if_neg known] at ran
      cases ran
  | copyVisibility parent branch =>
    simp only [run, Table.copyVisibility] at ran
    by_cases known : maxBranches ≤ parent ∨ maxBranches ≤ branch
    · rw [if_pos known] at ran
      cases ran
      exact Or.inl (by simp only [onRows, if_pos known]; rfl)
    · rw [if_neg known] at ran
      cases ran

/-- A table with these columns, and its texts. -/
structure Keeps (name : String) (types : List ValueType) (stored : Table × TextHeap) : Prop where
  valid : stored.1.Flagged stored.2
  texts : stored.2.Valid
  named : stored.1.name = name
  typed : stored.1.columnTypes = types

theorem Keeps.after {types : List ValueType}
    (keeps : Keeps name types stored) (call : Call) : Keeps name types (call.after stored) := by
  unfold Call.after
  cases ran : call.run stored.1 stored.2 with
  | error fault => exact keeps
  | ok changed =>
    obtain ⟨⟨valid, same⟩, texts, _⟩ := Call.run_valid keeps.valid.toValid keeps.texts ran
    obtain ⟨named, typed⟩ := Call.run_schema ran keeps.valid.toValid keeps.texts
    exact ⟨⟨valid, same.trans keeps.valid.indicator⟩, texts, named.trans keeps.named, typed.trans keeps.typed⟩

theorem Keeps.afterAll {types : List ValueType} (keeps : Keeps name types stored) (calls : List Call) :
    Keeps name types (calls.foldl (fun stored call => call.after stored) stored) := by
  induction calls generalizing stored with
  | nil => exact keeps
  | cons call calls ih => exact ih (keeps.after call)

theorem Keeps.create {columns : List (String × ValueType)}
    (created : create .indicator name columns = .ok t) (texts : heap.Valid) :
    Keeps name (columns.map Prod.snd) (t, heap) := by
  obtain ⟨valid, indicator⟩ := Valid.create created
  refine ⟨⟨valid, indicator⟩, texts, ?_, ?_⟩
  all_goals
    obtain ⟨_, created⟩ := guard_ok created
    obtain ⟨_, _, created⟩ := bind_ok created
    cases created
  · rfl
  · simp [columnTypes]

theorem rows_created {columns : List (String × ValueType)}
    (created : create .indicator name columns = .ok t) : t.rows heap = [] := by
  obtain ⟨_, created⟩ := guard_ok created
  obtain ⟨_, _, created⟩ := bind_ok created
  cases created
  rfl

/-- A new table has no rows. After any calls its columns are in step with its rows, every row can be read, and no null
bit is set in a column that is not nullable. The next call changes the rows as it is to, or fails with the error that
these rows give it, and then nothing has changed; it only stops otherwise where there is no room. -/
theorem calls_refine_rows {name : String} {columns : List (String × ValueType)} {heap₀ : TextHeap} {t₀ : Table}
    (created : create .indicator name columns = .ok t₀) (texts : heap₀.Valid) (calls : List Call) :
    t₀.rows heap₀ = [] ∧ ∀ t heap, calls.foldl (fun stored call => call.after stored) (t₀, heap₀) = (t, heap) →
      (∀ c ∈ t.columns, c.cells.size = (t.rows heap).length) ∧ t.nullWords.size = (t.rows heap).length ∧
      t.branchWords.size = (t.rows heap).length ∧
      (∀ (tid : Nat) row, (t.rows heap)[tid]? = some row → t.getRow heap.read tid = .ok row.values ∧
        ∀ branch, t.isVisible tid branch = true ↔ branch ∈ row.seenBy) ∧
      (∀ (tid i : Nat) c, tid < t.rowCount → t.columns[i]? = some c → (t.nullWord tid).hasBit i = true →
        c.ty.nullable = true) ∧
      ∀ call : Call, match call.run t heap with
        | .ok (t', heap') => call.onRows name (columns.map Prod.snd) (t.rows heap) = .ok (t'.rows heap')
        | .error fault => call.after (t, heap) = (t, heap) ∧
          (call.onRows name (columns.map Prod.snd) (t.rows heap) = .error fault ∨ (fault = .trap ∧ t.Full heap)) := by
  refine ⟨rows_created created, fun t heap reached => ?_⟩
  have keeps := (Keeps.create created texts).afterAll calls
  rw [reached] at keeps
  obtain ⟨valid, texts, rfl, typed⟩ := keeps
  rw [← typed]
  dsimp only at valid texts ⊢
  refine ⟨fun c member => ?_, ?_, ?_, fun tid row found => ?_, fun tid i c isRow atColumn isNull => ?_, fun call => ?_⟩
  · obtain ⟨i, atColumn⟩ := Array.mem_iff_getElem?.mp member
    rw [length_rows, (valid.column i c atColumn).size]
  · rw [length_rows, valid.nullCount]
  · rw [length_rows]
    rfl
  · have isRow : tid < t.rowCount := by
      rw [← length_rows t heap]
      exact (List.getElem?_eq_some_iff.mp found).1
    have isEntry : t.rowAt heap tid = row := by
      simpa [rows, isRow] using found
    rw [← isEntry]
    exact ⟨valid.getRow_eq texts isRow, fun branch => mem_seenBy.symm⟩
  · exact valid.nullable_of_bit texts isRow atColumn isNull
  · cases ran : call.run t heap with
    | ok changed => exact Call.onRows_of_run valid texts ran
    | error fault => exact ⟨by simp only [Call.after, ran], Call.fault_of_run valid texts ran⟩

namespace Example

def columns : List (String × ValueType) := [("id", .integer), ("note", (.varchar 8 : ValueType).asNullable)]

/-- Among others a call for each way to fail: too long a text, no such row, NULL where there can be none. -/
def calls : List Call :=
  [.addRow [.integer 1, .varchar "first"] 0, .addRow [.integer 2, .null] 1, .addRow [.integer 3, .varchar "too long a text"] 0,
    .copyVisibility 0 2, .updateCell 1 1 (.char "second"), .updateCell 7 0 (.integer 5), .updateCell 0 0 .null,
    .hideRow 0 0]

end Example

theorem calls_refine_rows_example : ∃ t₀, create .indicator "notes" Example.columns = .ok t₀ ∧
    ∃ t heap, Example.calls.foldl (fun stored call => call.after stored) (t₀, { arena := .text }) = (t, heap) ∧
      t.nullWords.size = (t.rows heap).length ∧
      ∀ (tid : Nat) row, (t.rows heap)[tid]? = some row → t.getRow heap.read tid = .ok row.values := by
  obtain ⟨t₀, created⟩ : ∃ t₀, create .indicator "notes" Example.columns = .ok t₀ := ⟨_, rfl⟩
  rcases reached : Example.calls.foldl (fun stored call => call.after stored) (t₀, { arena := .text }) with ⟨t, heap⟩
  obtain ⟨_, nulls, _, reads, _⟩ := (calls_refine_rows created ⟨rfl, by decide⟩ Example.calls).2 t heap reached
  exact ⟨t₀, created, t, heap, reached, nulls, fun tid row found => (reads tid row found).1⟩

end Table

end QueryEngine
