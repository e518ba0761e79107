import Grpcxx.Lib.Word
import Grpcxx.Proof.Reassembly

/-!
# Decoding what was encoded

`Message.ofString` writes the length of its data as four bytes, `Message.parse` reads
it back from signed `char`s of which only the last is masked.

* `announced_ofString`: the length read back is the length written exactly for the
  sign-safe lengths (`Word.SignSafe`).
* `decode_encode_iff`: the round trip over the whole format.
-/

namespace Grpcxx

open Word

namespace Message

/-! ## The encoder -/

@[simp] theorem length_prefixBytes_ofString (p : Bytes) : (ofString p).prefixBytes.length = 5 := rfl

theorem bytes_ofString (p : Bytes) : (ofString p).bytes = (ofString p).prefixBytes ++ p := rfl

theorem take_bytes_ofString (p : Bytes) : (ofString p).bytes.take 5 = (ofString p).prefixBytes := by
  rw [bytes_ofString, List.take_left' (length_prefixBytes_ofString p)]

theorem drop_bytes_ofString (p : Bytes) : (ofString p).bytes.drop 5 = p := by
  rw [bytes_ofString, List.drop_left' (length_prefixBytes_ofString p)]

theorem length_bytes_ofString (p : Bytes) : (ofString p).bytes.length = 5 + p.length := by
  rw [bytes_ofString, List.length_append, length_prefixBytes_ofString]

/-! ## The two byte arithmetics -/

theorem announced_toBitVec (b₀ b₁ b₂ b₃ b₄ : UInt8) (r : Bytes) :
    (announced (b₀ :: b₁ :: b₂ :: b₃ :: b₄ :: r)).toBitVec =
      assemble b₁.toBitVec b₂.toBitVec b₃.toBitVec b₄.toBitVec := rfl

theorem toBitVec_encoded_byte (x : UInt32) {k : ℕ} (hk : k < 4) :
    (((x >>> (UInt32.ofNat (8 * k))) &&& 0xff).toUInt8).toBitVec = byte x.toBitVec k := by
  apply BitVec.eq_of_getLsbD_eq
  intro i hi
  interval_cases k <;> interval_cases i <;> simp [byte]

/-- The length written into the prefix reads back as `announced` assembles it. -/
theorem announced_encoded (x : UInt32) (r : Bytes) :
    (announced (0x00 :: ((x >>> 24) &&& 0xff).toUInt8 :: ((x >>> 16) &&& 0xff).toUInt8 ::
      ((x >>> 8) &&& 0xff).toUInt8 :: (x &&& 0xff).toUInt8 :: r)).toBitVec =
      assemble (byte x.toBitVec 3) (byte x.toBitVec 2) (byte x.toBitVec 1) (byte x.toBitVec 0) := by
  rw [announced_toBitVec, ← toBitVec_encoded_byte x (k := 3) (by omega),
    ← toBitVec_encoded_byte x (k := 2) (by omega), ← toBitVec_encoded_byte x (k := 1) (by omega),
    ← toBitVec_encoded_byte x (k := 0) (by omega)]
  simp

/-- **The length read back is the one written exactly when it is sign-safe.** -/
theorem announced_ofString {p : Bytes} (hp : p.length < 2 ^ 32) :
    (announced (ofString p).prefixBytes).toNat = p.length ↔ SignSafe p.length := by
  have hx : p.length.toUInt32.toNat = p.length := by simp; omega
  -- as an equation of 32-bit words
  rw [show SignSafe p.length ↔ SignSafe p.length.toUInt32.toBitVec.toNat by
      rw [UInt32.toNat_toBitVec, hx],
    ← assemble_eq_iff, ← announced_encoded p.length.toUInt32 []]
  conv_lhs => rw [← hx]
  rw [← UInt32.toNat_inj.symm.eq, ← UInt32.toBitVec_inj]
  rfl

/-! ## The round trip -/

/-- A default-constructed message after everything `ofString p` writes. -/
theorem append_bytes_ofString (p : Bytes) :
    ({} : Message).append (ofString p).bytes = .ok (assembled [(ofString p).bytes]) := by
  have h : ¬ FullAfter [] := by simp [FullAfter, cut]
  simpa using append_assembled (ofString p).bytes h

theorem cut_bytes_ofString (p : Bytes) : cut [(ofString p).bytes] = 5 := by
  rw [cut_singleton, length_bytes_ofString]; omega

theorem length_assembled_ofString (p : Bytes) :
    (assembled [(ofString p).bytes]).length = some (announced (ofString p).prefixBytes) := by
  have hann : announced (ofString p).bytes = announced (ofString p).prefixBytes :=
    announced_congr (length_prefixBytes_ofString p).ge
  simp only [assembled, cut_bytes_ofString, le_refl, if_true, List.flatten_singleton, hann]

theorem data_assembled_ofString (p : Bytes) : (assembled [(ofString p).bytes]).data = p := by
  simp only [assembled, cut_bytes_ofString, List.flatten_singleton, drop_bytes_ofString]

/-- **Decoding undoes encoding exactly at the sign-safe lengths.** What is encoded from
`p` decodes without an exception to `p` and to `p`'s length, if and only if bits 15 and
23 of the length are set only below ones. -/
theorem decode_encode_iff {p : Bytes} (hp : p.length < 2 ^ 32) :
    (∃ m, ({} : Message).append (ofString p).bytes = .ok m ∧ m.view = p ∧
      m.length.map UInt32.toNat = some p.length) ↔ SignSafe p.length := by
  rw [append_bytes_ofString, ← announced_ofString hp]
  constructor
  · rintro ⟨m, hm, -, hlen⟩
    cases hm
    rw [length_assembled_ofString] at hlen
    simpa using hlen
  · intro h
    refine ⟨_, rfl, ?_, ?_⟩
    · unfold view
      rw [length_assembled_ofString, data_assembled_ofString]
      simp only [h, if_true]
    · rw [length_assembled_ofString]
      simpa using h

theorem decode_encode_abc :
    ∃ m, ({} : Message).append (ofString (lit "abc")).bytes = .ok m ∧ m.view = lit "abc" ∧
      m.length.map UInt32.toNat = some 3 :=
  (decode_encode_iff (p := lit "abc") (by decide)).2 (by decide)

/-- 32768 bytes: the third length byte is `0x80`, which reads back as a negative `char`. -/
theorem decode_encode_fails :
    ¬ ∀ p : Bytes, p.length < 2 ^ 32 →
      ∃ m, ({} : Message).append (ofString p).bytes = .ok m ∧ m.view = p ∧
        m.length.map UInt32.toNat = some p.length := by
  intro h
  obtain ⟨p, hp⟩ : ∃ p : Bytes, p.length = 32768 :=
    ⟨List.replicate 32768 0, List.length_replicate⟩
  obtain ⟨m, hm, -, hml⟩ := h p (by omega)
  rw [append_bytes_ofString] at hm
  cases hm
  rw [length_assembled_ofString] at hml
  have hsafe := (announced_ofString (p := p) (by omega)).1 (by simpa using hml)
  rw [hp] at hsafe
  exact absurd hsafe (by decide)

end Message

end Grpcxx
