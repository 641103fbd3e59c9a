import Mathlib.Logic.Function.Basic
import QueryEngine.Proofs.Tuple.Keys

namespace QueryEngine

open Hash

namespace Hash

/-- Shifting twice by 33 leaves nothing of a word, so the second round takes back what the first one has added. -/
theorem xorShift_xorShift (w : Word) : xorShift (xorShift w) = w := by
  have gone : w >>> 33 >>> 33 = 0 := by
    rw [← UInt64.toNat_inj]
    simp [Nat.shiftRight_eq_div_pow, Nat.div_div_eq_div_mul]
    have := w.toNat_lt
    omega
  simp [xorShift, UInt64.shiftRight_xor, gone, UInt64.xor_assoc]

/-- What `mix` does, taken back step by step. The factors are inverse to those of `mix` modulo 2^64. -/
def unmix (w : Word) : Word :=
  xorShift (xorShift (xorShift w * 0x9cb4b2f8129337db) * 0x4f74430c22a54005)

theorem unmix_mix (w : Word) : unmix (mix w) = w := by
  have second : mixSecond * 0x9cb4b2f8129337db = 1 := by decide
  have first : mixFirst * 0x4f74430c22a54005 = 1 := by decide
  simp [unmix, mix, xorShift_xorShift, UInt64.mul_assoc, second, first]

theorem mix_unmix (w : Word) : mix (unmix w) = w := by
  have second : 0x9cb4b2f8129337db * mixSecond = 1 := by decide
  have first : 0x4f74430c22a54005 * mixFirst = 1 := by decide
  simp [unmix, mix, xorShift_xorShift, UInt64.mul_assoc, second, first]

theorem mix_injective : Function.Injective mix := Function.LeftInverse.injective unmix_mix

end Hash

/-- Values of one type that is not a string have different words. -/
theorem Datum.HasShape.eq_of_hashCode {ty : ValueType} {d d' : Datum} (fixed : ty.isString = false)
    (is : d.HasShape ty.shape) (is' : d'.HasShape ty.shape) (same : d.hashCode = d'.hashCode) : d = d' := by
  have words {n n' : Int} (fits : -2 ^ 63 ≤ n ∧ n < 2 ^ 63) (fits' : -2 ^ 63 ≤ n' ∧ n' < 2 ^ 63)
      (same : mix (Word.ofInt n) = mix (Word.ofInt n')) : n = n' := by
    have signed := congrArg Word.signed (mix_injective same)
    rwa [Word.signed_ofInt, Word.signed_ofInt, Int.bmod_eq_of_le (by omega) (by omega),
      Int.bmod_eq_of_le (by omega) (by omega)] at signed
  generalize shaped : ty.shape = shape at is is'
  cases is with
  | bool value =>
    cases is' with | bool value' =>
    revert same
    cases value <;> cases value' <;> decide
  | integer n | date n =>
    cases is'
    have bounds (n : Int32) : -2 ^ 63 ≤ n.toInt ∧ n.toInt < 2 ^ 63 := by
      have := n.le_toInt
      have := n.toInt_lt
      omega
    rw [Int32.toInt_inj.mp (words (bounds _) (bounds _) same)]
  | numeric n _ _ | timestamp n =>
    cases is'
    rw [Int64.toInt_inj.mp (words ⟨n.le_toInt, n.toInt_lt⟩ ⟨Int64.le_toInt _, Int64.toInt_lt _⟩ same)]
  | char | varchar => simp [ValueType.isString, shaped] at fixed

/-- Every word is the mix of exactly one word, so keys of one column collide only if they are equal, or strings. -/
theorem Hash.mix_bijective : (∀ a b, mix a = mix b → a = b) ∧ (∀ w, ∃ a, mix a = w) ∧
    ∀ (ty : ValueType) (d d' : Datum), ty.isString = false → d.HasShape ty.shape → d'.HasShape ty.shape → d ≠ d' →
      hashCode [d] ≠ hashCode [d'] :=
  ⟨fun _ _ same => mix_injective same, fun w => ⟨unmix w, mix_unmix w⟩,
    fun _ _ _ fixed is is' different same => different (is.eq_of_hashCode fixed is' same)⟩

/-- The least and the greatest number of a wide column. -/
theorem Hash.mix_bijective_extremes : ValueType.timestamp.isString = false ∧
    hashCode [.timestamp Int64.minValue] ≠ hashCode [.timestamp Int64.maxValue] :=
  ⟨rfl, mix_bijective.2.2 .timestamp _ _ rfl (.timestamp _) (.timestamp _) (by decide)⟩

end QueryEngine
