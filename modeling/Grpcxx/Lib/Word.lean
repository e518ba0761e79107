import Mathlib.Data.Nat.Bitwise
import Mathlib.Tactic.IntervalCases

/-!
# Assembling a word from sign-extended bytes

A 32-bit word put together from its four bytes by shifting and OR-ing is the word
itself when the bytes are zero-extended. When they are sign-extended, as promoted
signed `char`s are, a byte with its top bit set floods every bit above it with ones.
`assemble` sign-extends all bytes and masks only the lowest one, and
`assemble_eq_iff` says for which words that makes no difference.
-/

namespace Grpcxx.Word

/-- Byte `k` of a word, the lowest being byte `0`. -/
def byte (x : BitVec 32) (k : ℕ) : BitVec 8 := x.extractLsb' (8 * k) 8

/-- The OR of the sign-extended bytes in their places, the lowest byte masked. -/
def assemble (b₃ b₂ b₁ b₀ : BitVec 8) : BitVec 32 :=
  (b₃.signExtend 32 <<< 24) ||| (b₂.signExtend 32 <<< 16) ||| (b₁.signExtend 32 <<< 8) |||
    (b₀.signExtend 32 &&& 255#32)

/-- A number whose bits 15 and 23 are set only below ones. -/
def SignSafe (n : ℕ) : Prop :=
  (n.testBit 15 = true → n / 2 ^ 16 = 2 ^ 16 - 1) ∧ (n.testBit 23 = true → n / 2 ^ 24 = 2 ^ 8 - 1)

instance (n : ℕ) : Decidable (SignSafe n) := inferInstanceAs (Decidable (_ ∧ _))

theorem getLsbD_assemble (x : BitVec 32) {i : ℕ} (hi : i < 32) :
    (assemble (byte x 3) (byte x 2) (byte x 1) (byte x 0)).getLsbD i =
      (x.getLsbD i || (decide (24 ≤ i) && x.getLsbD 23) || (decide (16 ≤ i) && x.getLsbD 15)) := by
  simp only [assemble, byte, BitVec.getLsbD_or, BitVec.getLsbD_and, BitVec.getLsbD_shiftLeft,
    BitVec.getLsbD_signExtend, BitVec.msb_eq_getLsbD_last, hi, BitVec.getLsbD_extractLsb']
  -- bit by bit: which byte it comes from, and which sign bits lie below it
  interval_cases i <;> simp

/-- The bits of a 32-bit number from `k` on are all ones. -/
theorem ones_above_iff {n k : ℕ} (hn : n < 2 ^ 32) (hk : k ≤ 32) :
    (∀ i, i < 32 → k ≤ i → n.testBit i = true) ↔ n / 2 ^ k = 2 ^ (32 - k) - 1 := by
  constructor
  · intro h
    apply Nat.eq_of_testBit_eq
    intro j
    rw [Nat.testBit_div_two_pow, Nat.testBit_two_pow_sub_one]
    -- above the word both sides are zero
    by_cases hj : j < 32 - k
    · rw [h (j + k) (by omega) (by omega)]; simp [hj]
    · have hlt : n < 2 ^ (j + k) := lt_of_lt_of_le hn (Nat.pow_le_pow_right (by omega) (by omega))
      rw [Nat.testBit_lt_two_pow hlt]; simp [hj]
  · intro h i hi hki
    have hb := Nat.testBit_div_two_pow (n := k) (x := n) (i - k)
    rw [h, Nat.testBit_two_pow_sub_one, Nat.sub_add_cancel hki] at hb
    rw [← hb]; simp; omega

/-- **Sign extension is harmless exactly for the sign-safe words.** -/
theorem assemble_eq_iff (x : BitVec 32) :
    assemble (byte x 3) (byte x 2) (byte x 1) (byte x 0) = x ↔ SignSafe x.toNat := by
  have h16 := ones_above_iff x.isLt (k := 16) (by omega)
  have h24 := ones_above_iff x.isLt (k := 24) (by omega)
  unfold SignSafe
  rw [show (2 : ℕ) ^ 16 - 1 = 2 ^ (32 - 16) - 1 from rfl, show (2 : ℕ) ^ 8 - 1 = 2 ^ (32 - 24) - 1 from rfl,
    ← h16, ← h24]
  constructor
  · intro h
    refine ⟨fun h15 i hi h16i => ?_, fun h23 i hi h24i => ?_⟩
    · have := getLsbD_assemble x hi
      rw [h] at this
      have h15' : x.getLsbD 15 = true := h15
      rw [h15'] at this
      simp only [h16i, decide_true, Bool.and_self, Bool.or_true] at this
      exact this
    · have := getLsbD_assemble x hi
      rw [h] at this
      have h23' : x.getLsbD 23 = true := h23
      rw [h23'] at this
      simp only [h24i, decide_true, Bool.and_self, Bool.or_true, Bool.true_or] at this
      exact this
  · rintro ⟨h15, h23⟩
    apply BitVec.eq_of_getLsbD_eq
    intro i hi
    rw [getLsbD_assemble x hi]
    by_cases hone : x.getLsbD i = true
    · simp [hone]
    -- a zero bit has no set sign bit below it
    have h23' : (decide (24 ≤ i) && x.getLsbD 23) = false := by
      rw [Bool.and_eq_false_iff, decide_eq_false_iff_not]
      by_contra hc
      push Not at hc
      exact hone (h23 (Bool.eq_true_of_not_eq_false hc.2) i hi hc.1)
    have h15' : (decide (16 ≤ i) && x.getLsbD 15) = false := by
      rw [Bool.and_eq_false_iff, decide_eq_false_iff_not]
      by_contra hc
      push Not at hc
      exact hone (h15 (Bool.eq_true_of_not_eq_false hc.2) i hi hc.1)
    rw [h23', h15', Bool.or_false, Bool.or_false]

end Grpcxx.Word
