import Grpcxx.Lib.Run
import Grpcxx.Model.Reference
import Grpcxx.Proof.Calls

/-!
# The one string all bodies are read from

`session::data` replaces `_data`, and every data provider reads from it. A body is safe
as long as no other is submitted before it was read to its end.

* `run_pulls`: one `mem_send2`, when at most one body is active.
* `Kept.step`: each call of the session keeps every body apart, if a body is submitted only
  when the ones before were read out.
* `bodies_uncrossed`: so in every run of such calls.
-/

namespace Grpcxx

variable {σ : Type} {N : Nghttp2 σ} {active : σ → StreamId → Prop}

/-- The bytes pulled for a stream. -/
def pulledFor (id : StreamId) (pulls : List (StreamId × Pulled)) : Bytes :=
  (pulls.filter fun x => x.1 = id).flatMap fun x => x.2.bytes

/-- The body of the stream was read to its end. -/
def readOut (id : StreamId) (pulls : List (StreamId × Pulled)) : Bool :=
  pulls.any fun x => x.1 = id && x.2.eof

theorem pulledFor_append (id : StreamId) (ps qs : List (StreamId × Pulled)) :
    pulledFor id (ps ++ qs) = pulledFor id ps ++ pulledFor id qs := by
  simp [pulledFor, List.filter_append]

theorem readOut_append (id : StreamId) (ps qs : List (StreamId × Pulled)) :
    readOut id (ps ++ qs) = (readOut id ps || readOut id qs) := by
  simp [readOut, List.any_append]

theorem pulledFor_of_ne {id : StreamId} {ps : List (StreamId × Pulled)} (h : ∀ x ∈ ps, x.1 ≠ id) :
    pulledFor id ps = [] := by
  have hnone : ps.filter (fun x => x.1 = id) = [] := by
    rw [List.filter_eq_nil_iff]
    intro x hx
    simpa using h x hx
  simp [pulledFor, hnone]

theorem readOut_of_ne {id : StreamId} {ps : List (StreamId × Pulled)} (h : ∀ x ∈ ps, x.1 ≠ id) :
    readOut id ps = false := by
  rw [readOut, List.any_eq_false]
  intro x hx
  simp [h x hx]

/-! ## One `mem_send2` -/

theorem run_pulls_none {act : StreamId → Prop} {send : Send σ} (h : Send.Pulls active act send)
    (hact : ∀ i, ¬ act i) (data : Bytes) :
    (send.run data).pulls = [] ∧ (send.run data).data = data ∧ ∀ i, ¬ active (send.run data).session i := by
  cases h with
  | done h => exact ⟨rfl, rfl, fun i hi => hact i (h i hi)⟩
  | pull hid => exact absurd hid (hact _)

/-- **One active body.** What is pulled comes off the front of the string, and when the end
is reached all of it was pulled and nothing is active. -/
theorem run_pulls {act : StreamId → Prop} {send : Send σ} (h : Send.Pulls active act send)
    {id : StreamId} (hact : ∀ i, act i → i = id) (data : Bytes) :
    (∀ x ∈ (send.run data).pulls, x.1 = id) ∧
      (readOut id (send.run data).pulls = true ∧ pulledFor id (send.run data).pulls = data ∧
          (∀ i, ¬ active (send.run data).session i) ∨
        readOut id (send.run data).pulls = false ∧
          pulledFor id (send.run data).pulls ++ (send.run data).data = data ∧
          ∀ i, active (send.run data).session i → i = id) := by
  induction h generalizing data with
  | done h =>
    exact ⟨fun x hx => absurd hx List.not_mem_nil, Or.inr ⟨rfl, rfl, fun i hi => hact i (h i hi)⟩⟩
  | @pull act i length next hid h ih =>
    obtain rfl := hact i hid
    obtain ⟨hcat, -, heof, -⟩ := readCb_spec data length
    simp only [Send.run]
    generalize readCb data length = r at hcat heof ⊢
    obtain ⟨p, rest⟩ := r
    dsimp only at hcat heof ⊢
    have hfirst : ∀ ps : List (StreamId × Pulled), pulledFor i ((i, p) :: ps) = p.bytes ++ pulledFor i ps := by
      intro ps
      simp [pulledFor]
    have hout : ∀ ps : List (StreamId × Pulled), readOut i ((i, p) :: ps) = (p.eof || readOut i ps) := by
      intro ps
      simp [readOut]
    rw [hfirst, hout]
    cases he : p.eof with
    | true =>
      -- the end is reached: no stream is active any more
      obtain ⟨hnone, -, hinactive⟩ := run_pulls_none (h p)
        (fun j hj => hj.2 ⟨hact j hj.1, he⟩) rest
      rw [heof he, List.append_nil] at hcat
      rw [hnone]
      refine ⟨fun x hx => by rw [List.mem_singleton.1 hx], Or.inl ⟨rfl, ?_, hinactive⟩⟩
      rw [hcat]
      exact List.append_nil data
    | false =>
      -- the same stream goes on with the rest of the string
      obtain ⟨hids, hrest⟩ := ih p (fun j hj => hact j hj.1) rest
      refine ⟨fun x hx => ?_, ?_⟩
      · rcases List.mem_cons.1 hx with rfl | hx
        · rfl
        · exact hids x hx
      · rw [Bool.false_or]
        rcases hrest with ⟨hr, hp, ha⟩ | ⟨hr, hp, ha⟩
        · exact Or.inl ⟨hr, by rw [hp, hcat], ha⟩
        · exact Or.inr ⟨hr, by rw [List.append_assoc, hp, hcat], ha⟩

/-! ## Calls of a session -/

inductive Session.Op
  | data (id : StreamId) (d : Bytes)
  | pending
  | read (bytes : Bytes)
  | headers (id : StreamId) (hdrs : List Header)
  | trailers (id : StreamId) (hdrs : List Header)

/-- A session, the bodies submitted to it, and what was pulled of them. -/
structure Feeding (σ : Type) where
  session : Session σ
  submitted : List (StreamId × Bytes) := []
  pulls : List (StreamId × Pulled) := []

namespace Feeding

def returned {α : Type} (r : EStateM.Result Fault (Session σ) α) (f : Session σ → Feeding σ) :
    Option (Feeding σ) :=
  match r with
  | .ok _ s => some (f s)
  | .error _ _ => none

/-- A call that succeeds. Bodies are submitted on distinct streams. -/
def step (N : Nghttp2 σ) (w : Feeding σ) : Session.Op → Option (Feeding σ)
  | .data id d =>
    if id ∈ w.submitted.map Prod.fst then none
    else
      returned (Session.submitBody N id d w.session) fun s =>
        { w with session := s, submitted := w.submitted ++ [(id, d)] }
  | .pending =>
    returned (Session.pending N w.session) fun s =>
      { w with session := s, pulls := w.pulls ++ ((N.memSend w.session.session).run w.session.data).pulls }
  | .read bytes => returned (Session.read N bytes w.session) fun s => { w with session := s }
  | .headers id hdrs => returned (Session.headers N id hdrs w.session) fun s => { w with session := s }
  | .trailers id hdrs => returned (Session.trailers N id hdrs w.session) fun s => { w with session := s }

/-- Of every body, a first part was pulled for its stream, and the rest is what will be
pulled next. -/
def Uncrossed (w : Feeding σ) : Prop :=
  ∀ b ∈ w.submitted,
    pulledFor b.1 w.pulls ++ (if readOut b.1 w.pulls then [] else w.session.data) = b.2

instance (w : Feeding σ) : Decidable w.Uncrossed := List.decidableBAll _ _

/-- A body is submitted when the ones before were read to their ends. -/
def ReadOut (w : Feeding σ) (op : Session.Op) : Prop :=
  ∀ id d, op = .data id d → ∀ b ∈ w.submitted, readOut b.1 w.pulls = true

/-- The invariant: at most one body is being read. -/
structure Kept (active : σ → StreamId → Prop) (w : Feeding σ) : Prop where
  uncrossed : w.Uncrossed
  pulled : ∀ x ∈ w.pulls, x.1 ∈ w.submitted.map Prod.fst
  current : ∀ i, active w.session.session i → i ∈ w.submitted.map Prod.fst ∧ readOut i w.pulls = false
  single : ∀ b ∈ w.submitted, ∀ b' ∈ w.submitted, readOut b.1 w.pulls = false →
    readOut b'.1 w.pulls = false → b = b'

theorem returned_some {α : Type} {r : EStateM.Result Fault (Session σ) α} {f : Session σ → Feeding σ}
    {w : Feeding σ} (h : returned r f = some w) : ∃ a s, r = .ok a s ∧ f s = w := by
  unfold returned at h
  split at h
  · cases h
    exact ⟨_, _, rfl, rfl⟩
  · cases h

/-- A call that only moves nghttp2 on. -/
theorem Kept.of_same {w : Feeding σ} (hI : Kept active w) {s : Session σ}
    (hdata : s.data = w.session.data)
    (hactive : ∀ i, active s.session i → active w.session.session i) :
    Kept active { w with session := s } := by
  refine ⟨fun b hb => ?_, hI.pulled, fun i hi => hI.current i (hactive i hi), hI.single⟩
  have := hI.uncrossed b hb
  rw [← hdata] at this
  exact this

/-- A body is submitted when no other is being read. -/
theorem Kept.submit (hN : N.Reads active) {w : Feeding σ} (hI : Kept active w) {id : StreamId} {d : Bytes}
    (hnew : id ∉ w.submitted.map Prod.fst) (hout : ∀ b ∈ w.submitted, readOut b.1 w.pulls = true)
    {s : Session σ} (h : Session.submitBody N id d w.session = .ok () s) :
    Kept active { w with session := s, submitted := w.submitted ++ [(id, d)] } := by
  obtain ⟨-, rfl⟩ := Session.submitted_eq_ok h
  have hfresh : ∀ x ∈ w.pulls, x.1 ≠ id := fun x hx he => hnew (he ▸ hI.pulled x hx)
  have hlast : ∀ b ∈ w.submitted ++ [(id, d)], readOut b.1 w.pulls = false → b = (id, d) := by
    intro b hb hn
    rcases List.mem_append.1 hb with hb | hb
    · rw [hout b hb] at hn
      cases hn
    · exact List.mem_singleton.1 hb
  constructor
  case uncrossed =>
    intro b hb
    rcases List.mem_append.1 hb with hb | hb
    · have hdone := hI.uncrossed b hb
      rw [if_pos (hout b hb)] at hdone ⊢
      exact hdone
    · -- the whole of the new body is there to be pulled
      obtain rfl := List.mem_singleton.1 hb
      show pulledFor id w.pulls ++ _ = d
      rw [pulledFor_of_ne hfresh, if_neg (by simp [readOut_of_ne hfresh]), List.nil_append]
  case pulled =>
    intro x hx
    rw [List.map_append]
    exact List.mem_append_left _ (hI.pulled x hx)
  case current =>
    intro i hi
    rcases hN.data _ _ i hi with hi | rfl
    · -- nothing was active
      obtain ⟨hmem, hnot⟩ := hI.current i hi
      obtain ⟨b, hb, rfl⟩ := List.mem_map.1 hmem
      rw [hout b hb] at hnot
      cases hnot
    · exact ⟨by simp, readOut_of_ne hfresh⟩
  case single =>
    intro b hb b' hb' hn hn'
    rw [hlast b hb hn, hlast b' hb' hn']

/-- A send reads the one body that is being read, if there is one. -/
theorem Kept.send (hN : N.Reads active) {w : Feeding σ} (hI : Kept active w) {s : Session σ} {bytes : Bytes}
    (h : Session.pending N w.session = .ok bytes s) :
    Kept active { w with
      session := s
      pulls := w.pulls ++ ((N.memSend w.session.session).run w.session.data).pulls } := by
  obtain ⟨-, rfl⟩ := Session.pending_ok h
  have hpulls := hN.send w.session.session
  generalize N.memSend w.session.session = send at hpulls ⊢
  by_cases hnone : ∀ b ∈ w.submitted, readOut b.1 w.pulls = true
  · have hinactive : ∀ i, ¬ active w.session.session i := by
      intro i hi
      obtain ⟨hmem, hnot⟩ := hI.current i hi
      obtain ⟨b, hb, rfl⟩ := List.mem_map.1 hmem
      rw [hnone b hb] at hnot
      cases hnot
    obtain ⟨hp, hd, ha⟩ := run_pulls_none hpulls hinactive w.session.data
    rw [hp, List.append_nil, Session.afterSend_eq]
    refine ⟨fun b hb => ?_, hI.pulled, fun i hi => absurd hi (ha i), hI.single⟩
    have hdone := hI.uncrossed b hb
    rw [if_pos (hnone b hb)] at hdone ⊢
    exact hdone
  · -- one body is being read: the send goes on with that
    push Not at hnone
    obtain ⟨b₀, hb₀, hreading⟩ := hnone
    rw [ne_eq, Bool.not_eq_true] at hreading
    have hone : ∀ i, active w.session.session i → i = b₀.1 := by
      intro i hi
      obtain ⟨hmem, hnot⟩ := hI.current i hi
      obtain ⟨b, hb, rfl⟩ := List.mem_map.1 hmem
      rw [hI.single b hb b₀ hb₀ hnot hreading]
    obtain ⟨hids, hread⟩ := run_pulls hpulls hone w.session.data
    rw [Session.afterSend_eq]
    generalize send.run w.session.data = r at hids hread ⊢
    -- the other bodies were read out before
    have hothers : ∀ b ∈ w.submitted, b ≠ b₀ → readOut b.1 w.pulls = true := by
      intro b hb hne
      by_contra hnot
      exact hne (hI.single b hb b₀ hb₀ (by simpa using hnot) hreading)
    have hsofar := hI.uncrossed b₀ hb₀
    rw [if_neg (by simp [hreading])] at hsofar
    have honly : ∀ b ∈ w.submitted, readOut b.1 (w.pulls ++ r.pulls) = false → b = b₀ := by
      intro b hb hn
      rw [readOut_append, Bool.or_eq_false_iff] at hn
      exact hI.single b hb b₀ hb₀ hn.1 hreading
    refine ⟨fun b hb => ?_, fun x hx => ?_, fun i hi => ?_, fun b hb b' hb' hn hn' => ?_⟩
    · show pulledFor b.1 (w.pulls ++ r.pulls) ++ (if readOut b.1 (w.pulls ++ r.pulls) then [] else r.data) = b.2
      rw [pulledFor_append, readOut_append]
      by_cases hbe : b = b₀
      · subst hbe
        rw [hreading, Bool.false_or]
        rcases hread with ⟨hr, hp, -⟩ | ⟨hr, hp, -⟩
        · rw [hr, hp, if_pos rfl, List.append_nil, hsofar]
        · rw [hr, if_neg Bool.false_ne_true, List.append_assoc, hp, hsofar]
      · -- nothing was pulled for a body that was read out before
        have hb₁ := hothers b hb hbe
        have hne : ∀ x ∈ r.pulls, x.1 ≠ b.1 := by
          intro x hx he
          rw [← he, hids x hx, hreading] at hb₁
          cases hb₁
        have hkept := hI.uncrossed b hb
        rw [if_pos hb₁] at hkept
        rw [pulledFor_of_ne hne, List.append_nil, hb₁, Bool.true_or, if_pos rfl]
        exact hkept
    · rcases List.mem_append.1 hx with hx | hx
      · exact hI.pulled x hx
      · rw [hids x hx]
        exact List.mem_map_of_mem hb₀
    · rcases hread with ⟨-, -, ha⟩ | ⟨hr, -, ha⟩
      · exact absurd hi (ha i)
      · obtain rfl := ha i hi
        exact ⟨List.mem_map_of_mem hb₀, by rw [readOut_append, hreading, hr, Bool.false_or]⟩
    · rw [honly b hb hn, honly b' hb' hn']

theorem Kept.step (hN : N.Reads active) {w w' : Feeding σ} {op : Session.Op} (hI : Kept active w)
    (hG : ReadOut w op) (h : step N w op = some w') : Kept active w' := by
  cases op with
  | data id d =>
    simp only [Feeding.step] at h
    split at h
    · cases h
    · rename_i hnew
      obtain ⟨_, s, hs, rfl⟩ := returned_some h
      exact hI.submit hN hnew (hG id d rfl) hs
  | pending =>
    obtain ⟨bytes, s, hs, rfl⟩ := returned_some h
    exact hI.send hN hs
  | read bytes =>
    obtain ⟨evs, s, hs, rfl⟩ := returned_some h
    obtain ⟨-, -, rfl⟩ := Session.read_ok hs
    exact hI.of_same rfl fun i hi => hN.recv _ bytes i hi
  | headers id hdrs =>
    obtain ⟨_, s, hs, rfl⟩ := returned_some h
    obtain ⟨-, rfl⟩ := Session.submitted_eq_ok hs
    exact hI.of_same rfl fun i hi => hN.headers _ id _ i hi
  | trailers id hdrs =>
    obtain ⟨_, s, hs, rfl⟩ := returned_some h
    obtain ⟨-, rfl⟩ := Session.submitted_eq_ok hs
    exact hI.of_same rfl fun i hi => hN.trailers _ id _ i hi

end Feeding

open Feeding in
/-- **Bodies do not cross.** In every run of a session's calls in which a body is submitted
only when the ones before were read to their ends, what was pulled for a stream is a first
part of its body, and the rest is still there to be pulled. -/
theorem bodies_uncrossed (hN : N.Reads active) {s : Session σ} (hs : ∀ i, ¬ active s.session i)
    {ops : List Session.Op} {w : Feeding σ}
    (hG : Run.Along (Feeding.step N) ReadOut { session := s } ops)
    (hrun : Run.runFrom (Feeding.step N) { session := s } ops = some w) : w.Uncrossed := by
  have hstart : Kept active ({ session := s } : Feeding σ) := by
    refine ⟨fun b hb => absurd hb List.not_mem_nil, fun x hx => absurd hx List.not_mem_nil,
      fun i hi => absurd hi (hs i), fun b hb => absurd hb List.not_mem_nil⟩
  exact (Run.inv_runAlong (fun _ _ _ hI hG h => hI.step hN hG h) hstart hG hrun).uncrossed

/-- Two bodies, the second submitted when the first was pulled to its end. -/
theorem bodies_uncrossed_two : ∃ w : Feeding Mini,
    Run.runFrom (Feeding.step (Mini.nghttp2 fun _ => {})) { session := { session := {} } }
      [.data 1 [0x61], .pending, .data 3 [0x62], .pending] = some w ∧
    w.submitted = [(1, [0x61]), (3, [0x62])] ∧ w.Uncrossed := by
  have hruns : ((Run.runFrom (Feeding.step (Mini.nghttp2 fun _ => {})) { session := { session := {} } }
      [.data 1 [0x61], .pending]).bind fun w₂ =>
        (Run.runFrom (Feeding.step (Mini.nghttp2 fun _ => {})) w₂ [.data 3 [0x62], .pending]).map fun w =>
          (w₂.submitted.all fun b => readOut b.1 w₂.pulls, w.submitted)) =
      some (true, [(1, [0x61]), (3, [0x62])]) := by decide +kernel
  obtain ⟨w₂, hw₂, hruns⟩ := Option.bind_eq_some_iff.1 hruns
  obtain ⟨w, hw, hfound⟩ := Option.map_eq_some_iff.1 hruns
  obtain ⟨hout, hsubmitted⟩ := Prod.mk.inj hfound
  have hrun : Run.runFrom (Feeding.step (Mini.nghttp2 fun _ => {})) { session := { session := {} } }
      [.data 1 [0x61], .pending, .data 3 [0x62], .pending] = some w := by
    rw [show [Session.Op.data 1 [0x61], .pending, .data 3 [0x62], .pending] =
      [.data 1 [0x61], .pending] ++ [.data 3 [0x62], .pending] from rfl, Run.runFrom_append, hw₂]
    exact hw
  refine ⟨w, hrun, hsubmitted, bodies_uncrossed (Mini.reads _) (fun i => List.not_mem_nil) ?_ hrun⟩
  refine ⟨fun id d _ b hb => absurd hb List.not_mem_nil, fun w₁ h₁ => ⟨nofun, fun w₂' h₂ => ⟨?_, fun _ _ =>
    ⟨nofun, fun _ _ => trivial⟩⟩⟩⟩
  -- the first body was read out
  have hsame : w₂' = w₂ := by
    have hboth := Run.runFrom_cons_eq_some.2 ⟨w₁, h₁, Run.runFrom_cons_eq_some.2 ⟨w₂', h₂, Run.runFrom_nil⟩⟩
    exact Option.some.inj (hboth.symm.trans hw₂)
  subst hsame
  exact fun id d _ b hb => List.all_eq_true.1 hout b hb

/-- Two bodies submitted before either is pulled: stream 1 gets the bytes of stream 3. -/
theorem bodies_cross :
    ¬ ∀ (σ : Type) (N : Nghttp2 σ) (active : σ → StreamId → Prop), N.Reads active →
      ∀ (s : Session σ) (ops : List Session.Op) (w : Feeding σ), (∀ i, ¬ active s.session i) →
      Run.runFrom (Feeding.step N) { session := s } ops = some w → w.Uncrossed := by
  intro h
  have hcross : ∃ w, Run.runFrom (Feeding.step (Mini.nghttp2 fun _ => {})) { session := { session := {} } }
      [.data 1 [0x61], .data 3 [0x62], .pending] = some w ∧ ¬ w.Uncrossed := by
    have hrun : (Run.runFrom (Feeding.step (Mini.nghttp2 fun _ => {})) { session := { session := {} } }
        [.data 1 [0x61], .data 3 [0x62], .pending]).any (fun w => !decide w.Uncrossed) = true := by
      decide +kernel
    obtain ⟨w, hw, hnot⟩ := (Option.any_eq_true _ _).1 hrun
    exact ⟨w, hw, by simpa using hnot⟩
  obtain ⟨w, hw, hnot⟩ := hcross
  exact hnot (h Mini _ _ (Mini.reads _) _ _ w (fun i => List.not_mem_nil) hw)

end Grpcxx
