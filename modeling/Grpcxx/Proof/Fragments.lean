import Grpcxx.Proof.Reassembly

/-!
# How the cuts of a stream change what is received

The DATA of a stream reaches `request::read` in chunks cut by the transport. For a
byte string `s`, every way of cutting it would have to give what `s` gives in one
piece.

* `sameResult_whole_iff`: a cutting does so exactly if it is `Intact`.
* `fragments_iff`: two cuttings of `s` give the same, and the same as `s` in one piece,
  exactly if both are.

A cutting fails to be intact in two ways. `cut` passes five when a chunk straddles the
end of the prefix; the bytes past the fifth are then missing from the data. And a
surplus throws when a chunk boundary comes after the announced length, but goes
unnoticed in the last chunk.
-/

namespace Grpcxx

open Message

/-- A fresh request after the chunks `cs`. -/
def received (id : StreamId) (cs : List Bytes) : Request := cs.foldl Request.read { id }

/-- The same `invalid()`, and where not invalid the same `data()`. -/
def SameResult (id : StreamId) (cs ds : List Bytes) : Prop :=
  (received id cs).invalid = (received id ds).invalid ∧
    ((received id cs).invalid = false → (received id cs).data = (received id ds).data)

instance (id : StreamId) (cs ds : List Bytes) : Decidable (SameResult id cs ds) :=
  inferInstanceAs (Decidable (_ ∧ _))

/-- A cutting of `s` into non-empty chunks. -/
structure Cutting (s : Bytes) where
  chunks : List Bytes
  flatten : chunks.flatten = s
  nonempty : ∀ c ∈ chunks, c ≠ []

/-- **The cuttings that change nothing.** The stream ends inside the prefix, or no chunk
comes after the announced length and the prefix took its five bytes and no more (or took
more, and neither the bytes after the fifth nor the ones left to the data are the
announced number, unless that is zero). -/
def Intact (cs : List Bytes) : Prop :=
  cs.flatten.length < 5 ∨
    (¬ Overrun cs ∧
      (cut cs = 5 ∨
        (cs.flatten.length ≠ (announced cs.flatten).toNat + 5 ∧
          (cs.flatten.length = (announced cs.flatten).toNat + cut cs →
            (announced cs.flatten).toNat = 0))))

theorem SameResult.symm {id : StreamId} {cs ds : List Bytes} (h : SameResult id cs ds) :
    SameResult id ds cs :=
  ⟨h.1.symm, fun hd => (h.2 (h.1.trans hd)).symm⟩

theorem SameResult.trans {id : StreamId} {cs ds es : List Bytes} (h : SameResult id cs ds)
    (h' : SameResult id ds es) : SameResult id cs es :=
  ⟨h.1.trans h'.1, fun hc => (h.2 hc).trans (h'.2 (h.1 ▸ hc))⟩

/-- A chunk arriving too late has the whole prefix before it. -/
theorem Overrun.five_le {cs : List Bytes} (h : Overrun cs) : 5 ≤ cs.flatten.length := by
  obtain ⟨pre, c, post, rfl, hfull⟩ := h
  have := five_le_cut_iff.1 hfull.1
  rw [List.flatten_append, List.length_append]; omega

theorem not_overrun_singleton (s : Bytes) : ¬ Overrun [s] := by
  rw [show [s] = [] ++ [s] from rfl, overrun_snoc]
  rintro (h | h)
  · exact not_overrun_nil h
  · simp [FullAfter, cut] at h

theorem received_overrun {id : StreamId} {cs : List Bytes} (h : Overrun cs) :
    (received id cs).invalid = true :=
  (Request.read_assembled (Request.invalid_fresh id) rfl cs).1 h

theorem received_eq {id : StreamId} {cs : List Bytes} (h : ¬ Overrun cs) :
    received id cs = { id, msg := assembled cs } :=
  (Request.read_assembled (Request.invalid_fresh id) rfl cs).2 h

theorem received_invalid_iff {id : StreamId} {cs : List Bytes} :
    (received id cs).invalid = true ↔ Overrun cs := by
  refine ⟨fun h => ?_, received_overrun⟩
  by_contra ho
  rw [received_eq ho] at h
  exact absurd ((Request.invalid_fresh id).symm.trans h) Bool.false_ne_true

/-- The payloads of a cutting and of the whole agree exactly where `Intact` says. -/
theorem view_eq_whole_iff {cs : List Bytes} (ho : ¬ Overrun cs) :
    (assembled cs).view = (assembled [cs.flatten]).view ↔ Intact cs := by
  have hle := cut_le_length cs
  rw [view_assembled, view_assembled, List.flatten_singleton, cut_singleton]
  unfold Intact
  by_cases hs : cs.flatten.length < 5
  · -- neither has a whole prefix
    have hshort : ¬ 5 ≤ cut cs := by omega
    rw [if_neg (by omega), if_neg (by omega)]
    exact ⟨fun _ => Or.inl hs, fun _ => rfl⟩
  have hk : 5 ≤ cut cs := five_le_cut_iff.2 (by omega)
  rw [min_eq_left (by omega)]
  simp only [hs, false_or, ho, not_false_eq_true, true_and, hk, le_refl]
  by_cases h5 : cut cs = 5
  · rw [h5]
    exact ⟨fun _ => Or.inl rfl, fun _ => rfl⟩
  simp only [h5, false_or]
  by_cases hwhole : cs.flatten.length = (announced cs.flatten).toNat + 5
  · -- the whole is complete, the cutting has lost bytes of it
    rw [if_neg (by omega), if_pos hwhole]
    refine ⟨fun h => ?_, fun h => absurd hwhole h.1⟩
    have := congrArg List.length h
    rw [List.length_nil, List.length_drop] at this
    omega
  rw [if_neg hwhole]
  by_cases hcut : cs.flatten.length = (announced cs.flatten).toNat + cut cs
  · -- the whole is too long, by what the prefix took
    rw [if_pos hcut, List.drop_eq_nil_iff]
    constructor
    · intro h
      exact ⟨hwhole, fun _ => by omega⟩
    · intro h
      have hzero := h.2 hcut
      omega
  · -- neither is complete
    rw [if_neg hcut]
    exact ⟨fun _ => ⟨hwhole, fun h => absurd h hcut⟩, fun _ => rfl⟩

/-- **A cutting gives what the whole gives exactly if it is intact.** -/
theorem sameResult_whole_iff (id : StreamId) (cs : List Bytes) :
    SameResult id cs [cs.flatten] ↔ Intact cs := by
  have hone := not_overrun_singleton cs.flatten
  by_cases ho : Overrun cs
  · constructor
    · rintro ⟨h, -⟩
      rw [received_overrun ho] at h
      exact absurd (received_invalid_iff.1 h.symm) hone
    · rintro (h | ⟨h, -⟩)
      · have := ho.five_le; omega
      · exact absurd ho h
  · -- neither is invalid: only the payloads can differ
    rw [← view_eq_whole_iff ho, SameResult, received_eq ho, received_eq hone]
    simp [Request.data, Request.invalid, Request.hasFlag, Request.Flag.bits]

/-- **Fragmentation.** Two cuttings of a byte string give the same request, and the same
as the string in one piece, if and only if both are intact. -/
theorem fragments_iff (id : StreamId) (s : Bytes) (a b : Cutting s) :
    (SameResult id a.chunks b.chunks ∧ SameResult id a.chunks [s] ∧ SameResult id b.chunks [s]) ↔
      Intact a.chunks ∧ Intact b.chunks := by
  have ha := sameResult_whole_iff id a.chunks
  have hb := sameResult_whole_iff id b.chunks
  rw [a.flatten] at ha
  rw [b.flatten] at hb
  rw [ha, hb]
  refine ⟨fun h => h.2, fun h => ⟨?_, h⟩⟩
  exact (ha.2 h.1).trans (hb.2 h.2).symm

/-- One byte of payload, cut after the first byte of the prefix: the second chunk's
first five bytes go to the prefix and the payload stays empty. -/
theorem fragments_fail :
    ¬ ∀ (id : StreamId) (s : Bytes) (a b : Cutting s), SameResult id a.chunks b.chunks ∧
      SameResult id a.chunks [s] ∧ SameResult id b.chunks [s] := by
  intro h
  have h1 := h 1 [0, 0, 0, 0, 1, 7] ⟨[[0], [0, 0, 0, 1, 7]], rfl, by decide⟩
    ⟨[[0, 0, 0, 0, 1, 7]], rfl, by decide⟩
  exact absurd h1.1 (by decide)

end Grpcxx
