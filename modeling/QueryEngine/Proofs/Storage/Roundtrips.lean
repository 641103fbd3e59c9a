import QueryEngine.Proofs.Expression.Construction
import QueryEngine.Proofs.Storage.Refinement

namespace QueryEngine

variable {value d : Datum} {ty : ValueType}

namespace Codec

variable {encoding : NullEncoding} {heap : TextHeap}

/-- The sentinel of a nullable type is read as NULL. -/
theorem decode_encodeNull (read : MemoryReader) (nullable : ty.nullable = true) :
    decode .sentinel read ty (encodeNull .sentinel ty) = .null := by
  have first : isSentinel ty (encodeNull .sentinel ty) = true := by
    have few : (Word.bytes (min ty.size 8) ty.sentinel).length ≤ 8 := by
      rw [Word.bytes_length]
      exact Nat.min_le_right _ _
    simp only [isSentinel, encodeNull, wordBytes, List.take_append, List.take_of_length_le few, decide_eq_true_eq]
    rw [List.take_replicate, Word.bytes_length]
    have none : min (8 - min ty.size 8) (ty.size - 8) = 0 := by omega
    rw [none, List.replicate_zero, List.append_nil]
  exact if_pos ⟨rfl, nullable, first⟩

/-- Coercion is idempotent. A value that has been coerced to a type has bytes, as many as the type says, and no type refuses
it; only the addresses of texts can run out. A value other than NULL is read from its bytes again, for as long as its text is
in the heap, unless the bytes are the sentinel of a nullable type. NULL is the sentinel of its type, or, beside an
indicator, nothing but zeros. -/
theorem coerced_reads_back (valid : heap.Valid) (coerced : value.coerce ty = .ok d) :
    d.coerce ty = .ok d ∧ (∀ cause, encode encoding d ty heap ≠ Checked.fail cause) ∧
    ((heap.size + 2) * Arena.text.span ≤ arenaSpan → ∃ bytes heap', encode encoding d ty heap = .ok (bytes, heap')) ∧
    (∀ bytes heap', encode encoding d ty heap = .ok (bytes, heap') → bytes.length = ty.size ∧
      (d = .null → bytes = encodeNull encoding ty ∧ (encoding = .indicator → bytes = List.replicate ty.size 0)) ∧
      ∀ later : TextHeap, later.Valid → heap'.Grows later → d ≠ .null →
        ¬(encoding = .sentinel ∧ ty.nullable = true ∧ isSentinel ty bytes = true) →
        decode encoding later.read ty bytes = d) ∧
    ∀ other : ValueType, other.nullable = true → ∀ read, decode .sentinel read other (encodeNull .sentinel other) = .null := by
  refine ⟨Datum.coerce_coerce coerced, ?_, ?_, ?_, fun other nullable read => decode_encodeNull read nullable⟩
  · intro cause refused
    rcases encode_cases valid coerced with ⟨bytes, heap', given, _⟩ | ⟨given, _⟩
    · cases given.symm.trans refused
    · cases given.symm.trans refused
  · intro room
    rcases encode_cases valid coerced with ⟨bytes, heap', given, _⟩ | ⟨_, full⟩
    · exact ⟨bytes, heap', given⟩
    · exact absurd room (Nat.not_le.mpr full)
  · intro bytes heap' given
    obtain ⟨encoded, _, _⟩ := encode_encoded valid coerced given
    refine ⟨encoded.length, ?_, ?_⟩
    · rintro rfl
      cases given
      refine ⟨rfl, ?_⟩
      rintro rfl
      rfl
    · intro later texts grows present plain
      have notNull : d.isNull = false := by cases d <;> first | rfl | exact absurd rfl present
      rw [(encoded.mono grows).decode texts notNull]
      exact if_neg plain

/-- An integer in a nullable column of decimals under sentinels. -/
theorem coerced_reads_back_decimal : ∃ bytes heap',
    (Datum.integer 7).coerce (ValueType.numeric 6 2).asNullable = .ok (.numeric 700 2) ∧
    encode .sentinel (.numeric 700 2) (ValueType.numeric 6 2).asNullable { arena := .text } = .ok (bytes, heap') ∧
    bytes.length = 8 ∧ decode .sentinel heap'.read (ValueType.numeric 6 2).asNullable bytes = .numeric 700 2 := by
  have empty : TextHeap.Valid { arena := .text } := ⟨rfl, by decide, nofun⟩
  obtain ⟨_, _, encodes, back, _⟩ :=
    @coerced_reads_back (.integer 7) _ (ValueType.numeric 6 2).asNullable .sentinel _ empty rfl
  obtain ⟨bytes, heap', given⟩ := encodes (by decide)
  obtain ⟨length, _, reads⟩ := back bytes heap' given
  cases given
  exact ⟨_, _, rfl, rfl, length, reads _ empty (.refl _) nofun (by decide)⟩

/-- Beside an indicator the bytes of a NULL are those of zero. -/
theorem null_reads_zero : Datum.null.coerce ValueType.integer.asNullable = .ok .null ∧
    encode .indicator .null ValueType.integer.asNullable { arena := .text } = .ok ([0, 0, 0, 0], { arena := .text }) ∧
    ∀ read, decode .indicator read ValueType.integer.asNullable [0, 0, 0, 0] = .integer 0 :=
  ⟨rfl, rfl, fun _ => rfl⟩

end Codec

end QueryEngine
