import QueryEngine.Proofs.Execution.Instructions

namespace QueryEngine

open TextHeap List

variable {heap : TextHeap} {host : Host} {s : Point}

theorem ByteArray.toList_loop (bytes : ByteArray) (i : Nat) (read : List UInt8) :
    ByteArray.toList.loop bytes i read = read.reverse ++ bytes.data.toList.drop i := by
  induction i, read using ByteArray.toList.loop.induct bytes with
  | case1 i read less ih =>
    rw [ByteArray.toList.loop, if_pos less, ih, reverse_cons, append_assoc]
    have inside : i < bytes.data.toList.length := by simpa using less
    rw [drop_eq_getElem_cons inside]
    simp [ByteArray.get!, less]
  | case2 i read past =>
    rw [ByteArray.toList.loop, if_neg past, drop_eq_nil_of_le (by simpa using past), append_nil]

theorem textBytes_toByteArray (text : String) : (textBytes text).toByteArray = text.toByteArray := by
  apply ByteArray.ext
  rw [data_toByteArray, textBytes, ByteArray.toList, ByteArray.toList_loop]
  simp

/-- Text survives its encoding. -/
theorem bytesText_textBytes (text : String) : bytesText (textBytes text) = text := by
  unfold bytesText String.fromUTF8?
  rw [textBytes_toByteArray, dif_pos text.isValidUTF8]
  rfl

theorem textBytes_length (text : String) : (textBytes text).length = byteLength text := by
  rw [← size_toByteArray, textBytes_toByteArray]
  rfl

theorem textBytes_inj (same : textBytes first = textBytes second) : first = second := by
  rw [← bytesText_textBytes first, same, bytesText_textBytes]

variable {bytes : Bytes}

namespace TextHeap

/-- What `intern` keeps of a string. -/
def stored (bytes : Bytes) : ByteArray := (if bytes.isEmpty then [0] else bytes).toByteArray

theorem byteAt_stored {region i : Nat} (found : heap.texts.toList[region]? = some (stored bytes))
    (bound : i < bytes.length) :
    heap.byteAt region i = bytes[i] := by
  rw [Array.getElem?_toList] at found
  have present : bytes.isEmpty = false := by
    cases bytes with
    | nil => cases bound
    | cons => rfl
  have size : (stored bytes).size = bytes.length := by
    simp [stored, present]
  unfold byteAt
  rw [found]
  simp only [size, bound, dif_pos]
  simp [stored, present, ByteArray.getElem_eq_getElem_data]

theorem stored_size (present : bytes ≠ []) : (stored bytes).size = bytes.length := by
  simp [stored, present]

end TextHeap

variable {m : Machine} {a : Word}

namespace Machine

/-- The bytes lie at the address, in the database or in the program, where no code overwrites them. -/
structure TextAt (m : Machine) (a : Word) (bytes : Bytes) : Prop where
  length : bytes.length < 2 ^ 63
  read : ∀ m' : Machine, m.KeepsTexts m' → m'.readBytes a bytes.length = bytes

theorem TextAt.mono (lies : m.TextAt a bytes) (keeps : m.KeepsTexts m') : m'.TextAt a bytes :=
  ⟨lies.length, fun m'' keeps' => lies.read m'' (keeps.trans keeps')⟩

theorem TextAt.readBytes (lies : m.TextAt a bytes) : m.readBytes a bytes.length = bytes :=
  lies.read m (.refl m)

theorem readBytes_eq (each : ∀ i (bound : i < bytes.length), m.byteAt (a + UInt64.ofNat i) = bytes[i]) :
    m.readBytes a bytes.length = bytes := by
  refine ext_getElem (by simp [readBytes]) fun i _ bound => ?_
  rw [← each i bound]
  simp [readBytes]

/-- A literal lies where it was put. -/
theorem TextAt.literal (arena : heap.arena = .literal)
    (grows : (heap.intern bytes).2.Grows m.program.literals) (addressable : (heap.intern bytes).2.Addressable) :
    m.TextAt (heap.intern bytes).1 bytes := by
  have added : (heap.intern bytes).2.texts.toList[heap.size]? = some (TextHeap.stored bytes) := by
    simp [intern, stored, size]
  have found (program : TextHeap) (later : (heap.intern bytes).2.Grows program) :
      program.texts.toList[heap.size]? = some (stored bytes) := by
    obtain ⟨_, all⟩ := later.texts
    rw [← all, List.getElem?_append_left (List.getElem?_eq_some_iff.mp added).1, added]
  have arena' : (heap.intern bytes).2.arena = .literal := arena
  refine ⟨?_, fun m' keeps => readBytes_eq fun i bound => ?_⟩
  · by_cases empty : bytes = []
    · rw [empty]
      decide
    · have length := addressable.lengths _ (mem_of_getElem? added)
      rw [stored_size empty, arena'] at length
      exact Nat.lt_of_le_of_lt length (by decide)
  · have present : bytes ≠ [] := by
      rintro rfl
      cases bound
    have valid := addressable.valid added (stored_size present ▸ bound)
    rw [arena'] at valid
    have place : (heap.intern bytes).1 + UInt64.ofNat i = Place.address ⟨.literal, heap.size, i⟩ := by
      rw [intern, regionAddress, arena]
      exact (Place.address_add ..).trans (by rw [Nat.zero_add])
    rw [byteAt, place, Place.placeAt?_address valid]
    exact byteAt_stored (found _ (grows.trans keeps.literals)) bound

end Machine

theorem Host.Attains.intern (bytes : Bytes) :
    host.Yields (Emit.intern bytes) s fun a _ => s.machine.TextAt a bytes := by
  intro a b' emitted within here
  obtain ⟨room, rfl, rfl⟩ := Emit.intern_ok emitted
  have grows := Builder.Grows.inProgram here.ready (.intern _ room)
  refine ⟨⟨_, s.frame, s.machine⟩, rfl, .unlined rfl rfl, ⟨⟨prefix_refl _, fun _ _ => rfl⟩, .refl _⟩,
    ⟨⟨grows.ready, within, here.frameSize, here.slots⟩, here.program, here.routines⟩, rfl, ?_⟩
  have literals := within.program.literals
  rw [← here.program] at literals
  exact .literal here.ready.addressable.arena literals grows.ready.addressable.literals

theorem Host.Attains.constBytes (bytes : Bytes) :
    host.Yields (Emit.constBytes bytes) s fun regs s' =>
      ∃ a, s'.Reads regs.1 .ptr a ∧ s'.Number regs.2 .i64 bytes.length ∧ s'.machine.TextAt a bytes := by
  refine (intern bytes).sameThen fun address s1 before1 machine1 lies => ?_
  refine (definePure rfl fun _ => rfl).sameThen fun ptr s2 before2 machine2 ptrReads => ?_
  have fits : CodeType.i64.fits bytes.length = true := by
    have length := lies.length
    simp only [CodeType.fits, Bool.and_eq_true, decide_eq_true_eq]
    omega
  refine (constNumber fits).sameThen fun len s3 before3 machine3 lenReads => ?_
  have machine : s3.machine = s.machine := machine3.trans (machine2.trans machine1)
  exact .pure ⟨rfl, address, ptrReads.mono before3, lenReads, machine ▸ lies⟩

end QueryEngine
