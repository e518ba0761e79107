import Grpcxx.Lib.Run
import Grpcxx.Model.Reference
import Grpcxx.Proof.Calls

/-!
# A response and its windows

`conn::write` submits the trailers after one drain of `pending`, and that ends as soon as
nothing more can be sent now: at the end of the body, but also when a window is full.
The trailers are then sent ahead of the rest of the body, which is lost.

* `Flow.move`: one `pending`, in nghttp2's frames and windows.
* `wrote_frames`: a write sends HEADERS, as much of the body as the window allows, and the
  trailers, on its own stream only.
* `sent_in_full_iff_fits`: in every run of writes and reads, all responses are sent in full
  exactly if every body fits its window when it is written.
-/

namespace Grpcxx

variable {σ : Type} {F : Flow σ} {N : Nghttp2 σ}

namespace Flow

/-- The frames sent on a stream. -/
def sentOn (F : Flow σ) (id : StreamId) (s : σ) : List Frame := (F.sent s).filter (Frame.on id)

/-- One `pending`: a waiting frame, a piece of a body, or nothing. -/
inductive Move (F : Flow σ) (s s' : Session σ) : Bytes → Prop
  | frame {f : Frame} {rest : List Frame} {bytes : Bytes} (hqueued : F.queued s.session = f :: rest)
      (hne : bytes ≠ []) (hrest : F.queued s'.session = rest.filter fun g => !f.drops g)
      (hsent : F.sent s'.session = F.sent s.session ++ [f])
      (hunfinished : ∀ id, F.unfinished s'.session id ↔ F.unfinished s.session id ∧ ¬ f.ends id)
      (hlive : ∀ id, F.live s'.session id ↔ F.live s.session id ∧ ¬ f.ends id)
      (hwindow : F.window s'.session = F.window s.session) (hdata : s'.data = s.data) :
      Move F s s' bytes
  | data {id : StreamId} {p : Pulled} {bytes : Bytes} (hqueued : F.queued s.session = [])
      (hid : F.unfinished s.session id) (hne : bytes ≠ []) (hqueued' : F.queued s'.session = [])
      (hsent : F.sent s'.session = F.sent s.session ++ [.data id p.bytes])
      (hunfinished : ∀ i, F.unfinished s'.session i ↔
        F.unfinished s.session i ∧ ¬ (i = id ∧ p.eof = true))
      (hlive : F.live s'.session = F.live s.session)
      (hfits : p.bytes.length ≤ F.window s.session id)
      (hwindow : F.window s'.session id = F.window s.session id - p.bytes.length)
      (hdata : p.bytes ++ s'.data = s.data) (heof : p.eof = true → s'.data = []) : Move F s s' bytes
  | idle (hqueued : F.queued s.session = [])
      (hwindow : ∀ id, F.unfinished s.session id → F.window s.session id = 0)
      (hqueued' : F.queued s'.session = []) (hsent : F.sent s'.session = F.sent s.session)
      (hunfinished : F.unfinished s'.session = F.unfinished s.session)
      (hlive : F.live s'.session = F.live s.session) : Move F s s' []

theorem move (hF : F.Models N) {s s' : Session σ} {bytes : Bytes}
    (h : Session.pending N s = .ok bytes s') : F.Move s s' bytes := by
  obtain ⟨hout, rfl⟩ := Session.pending_ok h
  rw [Session.afterSend_eq]
  have hsend := hF.send s.session
  generalize N.memSend s.session = send at hsend hout ⊢
  cases hsend with
  | frame hqueued hne hrest hsent hunfinished hlive hwindow =>
    cases hout
    exact .frame hqueued hne hrest hsent hunfinished hlive hwindow rfl
  | @data id length next hqueued hid hpos hlength hnext =>
    obtain ⟨hcat, hle, heof, -⟩ := readCb_spec s.data length
    obtain ⟨t, closed, out, hdone, hne, hq, hsent, hunfinished, hlive, hwindow⟩ :=
      hnext (readCb s.data length).1 hle
    simp only [Send.run, hdone] at hout ⊢
    cases hout
    exact .data hqueued hid hne hq hsent hunfinished hlive (le_trans hle hlength) hwindow hcat heof
  | idle hqueued hwindow hqueued' hsent hunfinished hlive =>
    cases hout
    exact .idle hqueued hwindow hqueued' hsent hunfinished hlive
  | failed => cases hout

theorem sentOn_congr {s s' : σ} (h : F.sent s' = F.sent s) (i : StreamId) :
    F.sentOn i s' = F.sentOn i s := by
  unfold sentOn
  rw [h]

theorem sentOn_of_sent {s s' : σ} {f : Frame} (h : F.sent s' = F.sent s ++ [f]) (id : StreamId) :
    F.sentOn id s' = if f.on id then F.sentOn id s ++ [f] else F.sentOn id s := by
  unfold sentOn
  rw [h, List.filter_append]
  split
  · rename_i hf; rw [List.filter_cons_of_pos hf, List.filter_nil]
  · rename_i hf; rw [List.filter_cons_of_neg hf, List.filter_nil, List.append_nil]

theorem drops_control (f : Frame) : (Frame.control []).drops f = false := by
  cases f <;> rfl

theorem filter_control (rest : List Frame) :
    (rest.filter fun g => !(Frame.control []).drops g) = rest := by
  rw [List.filter_eq_self]
  intro g _
  rw [drops_control]
  rfl

/-- Nothing is being sent but settings and the like. -/
structure Calm (F : Flow σ) (s : σ) : Prop where
  queued : ∀ f ∈ F.queued s, f = .control []
  unfinished : ∀ id, ¬ F.unfinished s id

/-! ## The first drain: headers and body -/

/-- The headers still wait, behind settings and the like. `s₀` is the state before. -/
structure HeadersWait (F : Flow σ) (s₀ : σ) (id : StreamId) (nv : List Header) (d : Bytes) (w : ℕ)
    (s : Session σ) : Prop where
  queued : ∃ controls, F.queued s.session = controls ++ [.headers id nv false] ∧
    ∀ f ∈ controls, f = .control []
  sent : F.sentOn id s.session = F.sentOn id s₀
  unfinished : F.unfinished s.session id
  data : s.data = d
  window : F.window s.session id = w

/-- The headers are sent, and the pieces `payloads` of the body `d`. -/
structure Pulling (F : Flow σ) (s₀ : σ) (id : StreamId) (nv : List Header) (d : Bytes) (w : ℕ)
    (payloads : List Bytes) (s : Session σ) : Prop where
  queued : F.queued s.session = []
  sent : F.sentOn id s.session =
    F.sentOn id s₀ ++ .headers id nv false :: payloads.map (.data id)
  window : payloads.flatten.length + F.window s.session id = w
  body : F.unfinished s.session id ∧ payloads.flatten ++ s.data = d ∨
    ¬ F.unfinished s.session id ∧ payloads.flatten = d

/-- While the body `d` is sent on stream `id`, with the window `w`. -/
structure Sending (F : Flow σ) (s₀ : σ) (id : StreamId) (nv : List Header) (d : Bytes) (w : ℕ)
    (s : Session σ) : Prop where
  live : F.live s.session id
  others : ∀ i, i ≠ id → F.sentOn i s.session = F.sentOn i s₀
  unfinished : ∀ i, F.unfinished s.session i → i = id
  progress : F.HeadersWait s₀ id nv d w s ∨ ∃ payloads, F.Pulling s₀ id nv d w payloads s

section Sending

variable {s₀ : σ} {id : StreamId} {nv : List Header} {d : Bytes} {w : ℕ} {s s' : Session σ}

theorem HeadersWait.frame (hI : F.HeadersWait s₀ id nv d w s) {f : Frame} {rest : List Frame}
    (hqueued : F.queued s.session = f :: rest)
    (hrest : F.queued s'.session = rest.filter fun g => !f.drops g)
    (hsent : F.sent s'.session = F.sent s.session ++ [f])
    (hunfinished : ∀ i, F.unfinished s'.session i ↔ F.unfinished s.session i ∧ ¬ f.ends i)
    (hwindow : F.window s'.session = F.window s.session) (hdata : s'.data = s.data) :
    (∀ i, f.ends i = false) ∧ (∀ i, i ≠ id → f.on i = false) ∧
      (F.HeadersWait s₀ id nv d w s' ∨ F.Pulling s₀ id nv d w [] s') := by
  obtain ⟨⟨controls, hq, hcontrols⟩, hsent₀, hunf, hd, hw⟩ := hI
  rw [hqueued] at hq
  have hon := sentOn_of_sent hsent id
  cases controls with
  | nil =>
    -- the headers are next
    obtain ⟨rfl, rfl⟩ := List.cons.inj hq
    have hothers : ∀ i, i ≠ id → (Frame.headers id nv false).on i = false := by
      intro i hi
      simp [Frame.on, Ne.symm hi]
    have hunf' : F.unfinished s'.session id := (hunfinished id).2 ⟨hunf, by simp [Frame.ends]⟩
    have hsent' : F.sentOn id s'.session = F.sentOn id s₀ ++ [.headers id nv false] := by
      rw [hon, if_pos (by simp [Frame.on]), hsent₀]
    have hwindow' : ([] : List Bytes).flatten.length + F.window s'.session id = w := by
      rw [hwindow, hw, List.flatten_nil, List.length_nil, Nat.zero_add]
    have hbody : ([] : List Bytes).flatten ++ s'.data = d := by
      rw [hdata, hd]
      rfl
    exact ⟨fun _ => rfl, hothers, Or.inr ⟨hrest, hsent', hwindow', Or.inl ⟨hunf', hbody⟩⟩⟩
  | cons c controls =>
    -- a control frame is next, and says nothing about streams
    obtain ⟨rfl, rfl⟩ := List.cons.inj hq
    obtain rfl := hcontrols f List.mem_cons_self
    rw [filter_control] at hrest
    have hcontrols' : ∀ g ∈ controls, g = .control [] := by
      intro g hg
      exact hcontrols g (List.mem_cons_of_mem _ hg)
    have hsent' : F.sentOn id s'.session = F.sentOn id s₀ := by
      rw [hon, if_neg (by simp [Frame.on]), hsent₀]
    have hunf' : F.unfinished s'.session id := (hunfinished id).2 ⟨hunf, by simp [Frame.ends]⟩
    have hwindow' : F.window s'.session id = w := by rw [hwindow, hw]
    refine ⟨fun i => by simp [Frame.ends], fun i _ => rfl, Or.inl ?_⟩
    exact ⟨⟨controls, hrest, hcontrols'⟩, hsent', hunf', hdata.trans hd, hwindow'⟩

theorem Pulling.data {payloads : List Bytes} (hI : F.Pulling s₀ id nv d w payloads s) {p : Pulled}
    (hid : F.unfinished s.session id) (hqueued : F.queued s'.session = [])
    (hsent : F.sent s'.session = F.sent s.session ++ [.data id p.bytes])
    (hunfinished : ∀ i, F.unfinished s'.session i ↔
      F.unfinished s.session i ∧ ¬ (i = id ∧ p.eof = true))
    (hfits : p.bytes.length ≤ F.window s.session id)
    (hwindow : F.window s'.session id = F.window s.session id - p.bytes.length)
    (hdata : p.bytes ++ s'.data = s.data) (heof : p.eof = true → s'.data = []) :
    F.Pulling s₀ id nv d w (payloads ++ [p.bytes]) s' := by
  obtain ⟨-, hsent₀, hw, hbody⟩ := hI
  have hflat : (payloads ++ [p.bytes]).flatten = payloads.flatten ++ p.bytes := by
    rw [List.flatten_append, List.flatten_singleton]
  have hall : payloads.flatten ++ s.data = d := by
    rcases hbody with ⟨-, h⟩ | ⟨h, -⟩
    · exact h
    · exact absurd hid h
  have hsent' : F.sentOn id s'.session =
      F.sentOn id s₀ ++ .headers id nv false :: (payloads ++ [p.bytes]).map (.data id) := by
    rw [sentOn_of_sent hsent id, if_pos (by simp [Frame.on]), hsent₀, List.map_append, List.append_assoc]
    rfl
  have hwindow' : (payloads ++ [p.bytes]).flatten.length + F.window s'.session id = w := by
    rw [hflat, List.length_append, hwindow]
    omega
  refine ⟨hqueued, hsent', hwindow', ?_⟩
  rw [hflat]
  cases he : p.eof with
  | true =>
    -- the last piece: the string is empty, so all of the body was pulled
    right
    rw [heof he, List.append_nil] at hdata
    have hnot : ¬ F.unfinished s'.session id := by
      intro h
      exact ((hunfinished id).1 h).2 ⟨rfl, he⟩
    exact ⟨hnot, by rw [hdata, hall]⟩
  | false =>
    left
    have hunf' : F.unfinished s'.session id := by
      refine (hunfinished id).2 ⟨hid, fun h => ?_⟩
      rw [he] at h
      cases h.2
    refine ⟨hunf', ?_⟩
    rw [List.append_assoc, hdata, hall]

theorem Sending.step (hF : F.Models N) {bytes : Bytes} (hI : F.Sending s₀ id nv d w s)
    (h : Session.pending N s = .ok bytes s') (hne : bytes ≠ []) : F.Sending s₀ id nv d w s' := by
  obtain ⟨hlive, hothers, hunf, hprogress⟩ := hI
  cases move hF h with
  | idle => exact absurd rfl hne
  | frame hqueued _ hrest hsent hunfinished hlive' hwindow hdata =>
    rcases hprogress with hwait | ⟨payloads, hpull⟩
    · obtain ⟨hends, hon, hnext⟩ := hwait.frame hqueued hrest hsent hunfinished hwindow hdata
      have hlive₁ : F.live s'.session id := (hlive' id).2 ⟨hlive, by simp [hends]⟩
      have hothers₁ : ∀ i, i ≠ id → F.sentOn i s'.session = F.sentOn i s₀ := by
        intro i hi
        rw [sentOn_of_sent hsent, hon i hi, if_neg Bool.false_ne_true, hothers i hi]
      have hunf₁ : ∀ i, F.unfinished s'.session i → i = id := by
        intro i hi
        exact hunf i ((hunfinished i).1 hi).1
      refine ⟨hlive₁, hothers₁, hunf₁, ?_⟩
      rcases hnext with hwait | hpull
      · exact Or.inl hwait
      · exact Or.inr ⟨[], hpull⟩
    · -- nothing waits any more
      rw [hpull.queued] at hqueued
      cases hqueued
  | @data i p _ hqueued hi _ hqueued' hsent hunfinished hlive' hfits hwindow hdata heof =>
    obtain rfl := hunf i hi
    rcases hprogress with hwait | ⟨payloads, hpull⟩
    · -- no body is sent while the headers wait
      obtain ⟨controls, hq, -⟩ := hwait.queued
      rw [hq] at hqueued
      simp at hqueued
    · have hlive₁ : F.live s'.session i := by
        rw [hlive']
        exact hlive
      have hothers₁ : ∀ j, j ≠ i → F.sentOn j s'.session = F.sentOn j s₀ := by
        intro j hj
        rw [sentOn_of_sent hsent, if_neg (by simpa [Frame.on] using Ne.symm hj), hothers j hj]
      have hunf₁ : ∀ j, F.unfinished s'.session j → j = i := by
        intro j hj
        exact hunf j ((hunfinished j).1 hj).1
      have hpull₁ := hpull.data hi hqueued' hsent hunfinished hfits hwindow hdata heof
      exact ⟨hlive₁, hothers₁, hunf₁, Or.inr ⟨payloads ++ [p.bytes], hpull₁⟩⟩

/-- When the first drain ends, as much of the body is sent as the window allows. -/
theorem Sending.done (hF : F.Models N) (hI : F.Sending s₀ id nv d w s)
    (h : Session.pending N s = .ok [] s') :
    F.live s'.session id ∧ F.queued s'.session = [] ∧
      (∀ i, i ≠ id → F.sentOn i s'.session = F.sentOn i s₀) ∧
      (∀ i, F.unfinished s'.session i → i = id) ∧
      ∃ payloads : List Bytes, payloads.flatten = d.take w ∧ F.sentOn id s'.session =
        F.sentOn id s₀ ++ .headers id nv false :: payloads.map (.data id) := by
  obtain ⟨hlive, hothers, hunf, hprogress⟩ := hI
  cases move hF h with
  | frame _ hne => exact absurd rfl hne
  | data _ _ hne => exact absurd rfl hne
  | idle hqueued hwindow hqueued' hsent hunfinished hlive' =>
    have hsame := sentOn_congr hsent
    rcases hprogress with hwait | ⟨payloads, hpull⟩
    · -- the drain does not end while the headers wait
      obtain ⟨controls, hq, -⟩ := hwait.queued
      rw [hq] at hqueued
      simp at hqueued
    · have hlive₁ : F.live s'.session id := by
        rw [hlive']
        exact hlive
      have hothers₁ : ∀ i, i ≠ id → F.sentOn i s'.session = F.sentOn i s₀ := by
        intro i hi
        rw [hsame, hothers i hi]
      have hunf₁ : ∀ i, F.unfinished s'.session i → i = id := by
        intro i hi
        rw [hunfinished] at hi
        exact hunf i hi
      have hpayloads : payloads.flatten = d.take w := by
        have hw := hpull.window
        rcases hpull.body with ⟨hopen, hbody⟩ | ⟨-, hbody⟩
        · -- the window is used up
          rw [hwindow id hopen, Nat.add_zero] at hw
          rw [← hbody, ← hw, List.take_left]
        · -- the body is sent to its end
          rw [hbody, List.take_of_length_le (by rw [← hbody]; omega)]
      exact ⟨hlive₁, hqueued', hothers₁, hunf₁, payloads, hpayloads, by rw [hsame, hpull.sent]⟩

end Sending

/-! ## The second drain: trailers -/

/-- The trailers wait, or they are sent and with them everything. -/
structure Trailing (F : Flow σ) (s₀ : σ) (id : StreamId) (nv : List Header) (s : Session σ) : Prop where
  others : ∀ i, i ≠ id → F.sentOn i s.session = F.sentOn i s₀
  unfinished : ∀ i, F.unfinished s.session i → i = id
  progress : F.queued s.session = [.headers id nv true] ∧ F.sentOn id s.session = F.sentOn id s₀ ∨
    F.queued s.session = [] ∧ F.sentOn id s.session = F.sentOn id s₀ ++ [.headers id nv true] ∧
      ¬ F.unfinished s.session id

section Trailing

variable {s₀ : σ} {id : StreamId} {nv : List Header} {s s' : Session σ}

theorem Trailing.step (hF : F.Models N) {bytes : Bytes} (hI : F.Trailing s₀ id nv s)
    (h : Session.pending N s = .ok bytes s') (hne : bytes ≠ []) : F.Trailing s₀ id nv s' := by
  obtain ⟨hothers, hunf, hprogress⟩ := hI
  cases move hF h with
  | idle => exact absurd rfl hne
  | frame hqueued _ hrest hsent hunfinished =>
    rcases hprogress with ⟨hq, hsent₀⟩ | ⟨hq, -, -⟩
    · -- the trailers go, and what is left of the body with them
      rw [hq] at hqueued
      obtain ⟨rfl, rfl⟩ := List.cons.inj hqueued
      have hothers₁ : ∀ i, i ≠ id → F.sentOn i s'.session = F.sentOn i s₀ := by
        intro i hi
        rw [sentOn_of_sent hsent, if_neg (by simpa [Frame.on] using Ne.symm hi), hothers i hi]
      have hunf₁ : ∀ i, F.unfinished s'.session i → i = id := by
        intro i hi
        exact hunf i ((hunfinished i).1 hi).1
      have hsent₁ : F.sentOn id s'.session = F.sentOn id s₀ ++ [.headers id nv true] := by
        rw [sentOn_of_sent hsent, if_pos (by simp [Frame.on]), hsent₀]
      have hnot : ¬ F.unfinished s'.session id := by
        intro hid
        exact ((hunfinished id).1 hid).2 (by simp [Frame.ends])
      exact ⟨hothers₁, hunf₁, Or.inr ⟨hrest, hsent₁, hnot⟩⟩
    · rw [hq] at hqueued
      cases hqueued
  | @data i p _ hqueued hi =>
    -- no body is sent ahead of the trailers, and none after them
    obtain rfl := hunf i hi
    rcases hprogress with ⟨hq, -⟩ | ⟨-, -, hnot⟩
    · rw [hq] at hqueued
      cases hqueued
    · exact absurd hi hnot

theorem Trailing.done (hF : F.Models N) (hI : F.Trailing s₀ id nv s)
    (h : Session.pending N s = .ok [] s') :
    F.Calm s'.session ∧ (∀ i, i ≠ id → F.sentOn i s'.session = F.sentOn i s₀) ∧
      F.sentOn id s'.session = F.sentOn id s₀ ++ [.headers id nv true] := by
  obtain ⟨hothers, hunf, hprogress⟩ := hI
  cases move hF h with
  | frame _ hne => exact absurd rfl hne
  | data _ _ hne => exact absurd rfl hne
  | idle hqueued _ hqueued' hsent hunfinished _ =>
    have hsame := sentOn_congr hsent
    rcases hprogress with ⟨hq, -⟩ | ⟨-, hsent₀, hnot⟩
    · rw [hq] at hqueued
      cases hqueued
    · have hcalm : F.Calm s'.session := by
        constructor
        · intro f hf
          rw [hqueued'] at hf
          cases hf
        · intro i hi
          rw [hunfinished] at hi
          obtain rfl := hunf i hi
          exact hnot hi
      have hothers₁ : ∀ i, i ≠ id → F.sentOn i s'.session = F.sentOn i s₀ := by
        intro i hi
        rw [hsame, hothers i hi]
      exact ⟨hcalm, hothers₁, by rw [hsame, hsent₀]⟩

end Trailing

/-! ## Writing and reading -/

theorem headers_flow (hF : F.Models N) {s s' : Session σ} {id : StreamId} {hdrs : List Header}
    (h : Session.headers N id hdrs s = .ok () s') :
    (F.live s.session id → F.queued s'.session =
        F.queued s.session ++ [.headers id (Session.nv hdrs) false]) ∧
      F.sent s'.session = F.sent s.session ∧ F.unfinished s'.session = F.unfinished s.session ∧
      F.live s'.session = F.live s.session ∧ F.window s'.session = F.window s.session := by
  obtain ⟨hrc, rfl⟩ := Session.submitted_eq_ok h
  exact hF.headers _ _ _ _ (Prod.ext rfl hrc)

theorem body_flow (hF : F.Models N) {s s' : Session σ} {id : StreamId} {d : Bytes}
    (h : Session.submitBody N id d s = .ok () s') :
    s'.data = d ∧ F.live s.session id ∧ F.queued s'.session = F.queued s.session ∧
      F.sent s'.session = F.sent s.session ∧
      (∀ i, F.unfinished s'.session i ↔ F.unfinished s.session i ∨ i = id) ∧
      F.live s'.session = F.live s.session ∧ F.window s'.session = F.window s.session := by
  obtain ⟨hrc, rfl⟩ := Session.submitted_eq_ok h
  exact ⟨rfl, hF.data _ _ _ (Prod.ext rfl hrc)⟩

theorem trailers_flow (hF : F.Models N) {s s' : Session σ} {id : StreamId} {hdrs : List Header}
    (h : Session.trailers N id hdrs s = .ok () s') :
    (F.live s.session id → F.queued s'.session =
        F.queued s.session ++ [.headers id (Session.nv hdrs) true]) ∧
      F.sent s'.session = F.sent s.session ∧ F.unfinished s'.session = F.unfinished s.session := by
  obtain ⟨hrc, rfl⟩ := Session.submitted_eq_ok h
  obtain ⟨hqueued, hsent, hunf, -, -⟩ := hF.trailers _ _ _ _ (Prod.ext rfl hrc)
  exact ⟨hqueued, hsent, hunf⟩

/-- **What a write sends.** HEADERS, the body as far as the window goes, trailers. -/
theorem wrote_frames (hF : F.Models N) {resp : Response} {s s' : Session σ}
    (h : Session.Wrote N resp s s') (hcalm : F.Calm s.session) :
    F.Calm s'.session ∧ (∀ i, i ≠ resp.id → F.sentOn i s'.session = F.sentOn i s.session) ∧
      ∃ payloads : List Bytes, payloads.flatten = resp.bytes.take (F.window s.session resp.id) ∧
        F.sentOn resp.id s'.session = F.sentOn resp.id s.session ++
          (.headers resp.id (Session.nv responseHeaders) false :: payloads.map (.data resp.id) ++
            [.headers resp.id (Session.nv (responseTrailers resp.status)) true]) := by
  obtain ⟨s₁, s₂, s₃, s₄, h₁, h₂, h₃, h₄, h₅⟩ := h.steps
  obtain ⟨hqueued₁, hsent₁, hunf₁, hlive₁, hwindow₁⟩ := headers_flow hF h₁
  obtain ⟨hdata₂, hopen, hqueued₂, hsent₂, hunf₂, hlive₂, hwindow₂⟩ := body_flow hF h₂
  obtain ⟨hqueued₄, hsent₄, hunf₄⟩ := trailers_flow hF h₄
  -- the first drain
  have hwait : F.HeadersWait s.session resp.id (Session.nv responseHeaders) resp.bytes
      (F.window s.session resp.id) s₂ := by
    have hlive₁' : F.live s.session resp.id := by
      rw [← hlive₁]
      exact hopen
    have hqueued : F.queued s₂.session =
        F.queued s.session ++ [.headers resp.id (Session.nv responseHeaders) false] := by
      rw [hqueued₂]
      exact hqueued₁ hlive₁'
    have hwindow : F.window s₂.session resp.id = F.window s.session resp.id := by
      rw [hwindow₂, hwindow₁]
    exact ⟨⟨F.queued s.session, hqueued, hcalm.queued⟩, sentOn_congr (hsent₂.trans hsent₁) resp.id,
      (hunf₂ resp.id).2 (Or.inr rfl), hdata₂, hwindow⟩
  have hstart : F.Sending s.session resp.id (Session.nv responseHeaders) resp.bytes
      (F.window s.session resp.id) s₂ := by
    have hlive : F.live s₂.session resp.id := by
      rw [hlive₂]
      exact hopen
    have hunf : ∀ i, F.unfinished s₂.session i → i = resp.id := by
      intro i hi
      rcases (hunf₂ i).1 hi with hi | hi
      · rw [hunf₁] at hi
        exact absurd hi (hcalm.unfinished i)
      · exact hi
    exact ⟨hlive, fun i _ => sentOn_congr (hsent₂.trans hsent₁) i, hunf, Or.inl hwait⟩
  obtain ⟨hlive₃, hqueued₃, hothers₃, hunf₃, payloads, hpayloads, hsent₃⟩ :=
    Session.Drained.rule (fun _ _ _ hI => hI.step hF) (fun _ _ hI => hI.done hF) h₃ hstart
  -- the second drain
  have htrail : F.Trailing s₃.session resp.id (Session.nv (responseTrailers resp.status)) s₄ := by
    have hunf : ∀ i, F.unfinished s₄.session i → i = resp.id := by
      intro i hi
      rw [hunf₄] at hi
      exact hunf₃ i hi
    have hqueued : F.queued s₄.session =
        [.headers resp.id (Session.nv (responseTrailers resp.status)) true] := by
      rw [hqueued₄ hlive₃, hqueued₃, List.nil_append]
    exact ⟨fun i _ => sentOn_congr hsent₄ i, hunf, Or.inl ⟨hqueued, sentOn_congr hsent₄ resp.id⟩⟩
  obtain ⟨hcalm', hothers₅, hsent₅⟩ :=
    Session.Drained.rule (fun _ _ _ hI => hI.step hF) (fun _ _ hI => hI.done hF) h₅ htrail
  refine ⟨hcalm', fun i hi => (hothers₅ i hi).trans (hothers₃ i hi), payloads, hpayloads, ?_⟩
  rw [hsent₅, hsent₃, List.append_assoc]

/-- While what was read is answered, by control frames only. -/
structure Answering (F : Flow σ) (s₀ : σ) (s : Session σ) : Prop where
  queued : ∀ f ∈ F.queued s.session, ∃ closes, f = .control closes
  sent : ∀ i, F.sentOn i s.session = F.sentOn i s₀
  unfinished : ∀ i, ¬ F.unfinished s.session i

theorem Answering.step (hF : F.Models N) {s₀ : σ} {s s' : Session σ} {bytes : Bytes}
    (hI : F.Answering s₀ s) (h : Session.pending N s = .ok bytes s') (hne : bytes ≠ []) :
    F.Answering s₀ s' := by
  obtain ⟨hq, hsent₀, hunf⟩ := hI
  cases move hF h with
  | idle => exact absurd rfl hne
  | data _ hi => exact absurd hi (hunf _)
  | @frame f rest _ hqueued _ hrest hsent hunfinished =>
    obtain ⟨closes, rfl⟩ := hq f (by rw [hqueued]; exact List.mem_cons_self)
    have hq' : ∀ g ∈ F.queued s'.session, ∃ closes, g = .control closes := by
      intro g hg
      rw [hrest] at hg
      apply hq g
      rw [hqueued]
      exact List.mem_cons_of_mem _ (List.mem_filter.1 hg).1
    have hsent' : ∀ i, F.sentOn i s'.session = F.sentOn i s₀ := by
      intro i
      rw [sentOn_of_sent hsent, if_neg (by simp [Frame.on]), hsent₀]
    have hunf' : ∀ i, ¬ F.unfinished s'.session i := by
      intro i hi
      exact hunf i ((hunfinished i).1 hi).1
    exact ⟨hq', hsent', hunf'⟩

theorem Answering.done (hF : F.Models N) {s₀ : σ} {s s' : Session σ} (hI : F.Answering s₀ s)
    (h : Session.pending N s = .ok [] s') :
    F.Calm s'.session ∧ ∀ i, F.sentOn i s'.session = F.sentOn i s₀ := by
  obtain ⟨-, hsent₀, hunf⟩ := hI
  cases move hF h with
  | frame _ hne => exact absurd rfl hne
  | data _ _ hne => exact absurd rfl hne
  | idle _ _ hqueued' hsent hunfinished _ =>
    have hcalm : F.Calm s'.session := by
      constructor
      · intro f hf
        rw [hqueued'] at hf
        cases hf
      · intro i hi
        rw [hunfinished] at hi
        exact hunf i hi
    refine ⟨hcalm, fun i => ?_⟩
    rw [sentOn_congr hsent, hsent₀]

/-- **What a read sends**: nothing on any response's stream. -/
theorem read_frames (hF : F.Models N) {s t s' : Session σ} {bytes : Bytes} {evs : List Event}
    (h : Session.read N bytes s = .ok evs t) (hd : Session.Drained N t s') (hcalm : F.Calm s.session) :
    F.Calm s'.session ∧ ∀ i, F.sentOn i s'.session = F.sentOn i s.session := by
  obtain ⟨-, -, rfl⟩ := Session.read_ok h
  obtain ⟨hsent, hunf, hqueued⟩ := hF.recv s.session bytes
  have hstart : F.Answering s.session
      { s with session := (N.memRecv s.session bytes).session, events := [], starts := [] } := by
    have hcontrols : ∀ f ∈ F.queued (N.memRecv s.session bytes).session, ∃ closes, f = .control closes := by
      intro f hf
      rcases hqueued f hf with hf | hf
      · exact ⟨[], hcalm.queued f hf⟩
      · exact hf
    exact ⟨hcontrols, sentOn_congr hsent, fun i hi => hcalm.unfinished i (hunf i hi)⟩
  exact Session.Drained.rule (fun _ _ _ hI => hI.step hF) (fun _ _ hI => hI.done hF) hd hstart

end Flow

/-! ## Runs -/

/-- The frames of a response sent in full: HEADERS, DATA of `n` bytes in all, trailers. -/
def SentInFull (id : StreamId) (n : ℕ) (frames : List Frame) : Prop :=
  ∃ (hs ts : List Header) (payloads : List Bytes),
    frames = .headers id hs false :: payloads.map (.data id) ++ [.headers id ts true] ∧
      (payloads.map List.length).sum = n

/-- The bytes of body in a frame. -/
def Frame.bodyLength : Frame → ℕ
  | .data _ payload => payload.length
  | _ => 0

theorem sum_bodyLength (id : StreamId) (hs ts : List Header) (payloads : List Bytes) :
    ((Frame.headers id hs false :: payloads.map (.data id) ++ [Frame.headers id ts true]).map
      Frame.bodyLength).sum = (payloads.map List.length).sum := by
  have hmap : (payloads.map (Frame.data id)).map Frame.bodyLength = payloads.map List.length := by
    rw [List.map_map]
    rfl
  simp [Frame.bodyLength, hmap]

theorem sentInFull_iff {id : StreamId} {n : ℕ} {hs ts : List Header} {payloads : List Bytes} :
    SentInFull id n (.headers id hs false :: payloads.map (.data id) ++ [.headers id ts true]) ↔
      payloads.flatten.length = n := by
  rw [List.length_flatten]
  constructor
  · rintro ⟨hs', ts', payloads', h, hn⟩
    rw [← sum_bodyLength id hs ts, h, sum_bodyLength, hn]
  · intro hn
    exact ⟨hs, ts, payloads, rfl, hn⟩

/-- The responses written in a run. -/
def responses (ops : List Backend.Op) : List Response :=
  ops.filterMap fun
    | .receive _ => none
    | .write resp => some resp

/-- The body of a response fits the window when it is written. -/
def Fits (F : Flow σ) (B : Backend) (c : B.Conn σ) (op : Backend.Op) : Prop :=
  ∀ resp, op = .write resp → resp.bytes.length ≤ F.window (B.session c).session resp.id

/-- What a run sends on one stream more, is for its responses. -/
theorem run_frames (hF : F.Models N) {results : ℕ → WriteResult} {B : Backend}
    {ops : List Backend.Op} {c c' : B.Conn σ} (hcalm : F.Calm (B.session c).session)
    (hids : ((responses ops).map Response.id).Nodup)
    (hrun : Run.runFrom (B.step N results) c ops = some c') :
    (∀ id, id ∉ (responses ops).map Response.id →
      F.sentOn id (B.session c').session = F.sentOn id (B.session c).session) ∧
    ((∀ resp ∈ responses ops, F.sentOn resp.id (B.session c).session = []) →
      ((∀ resp ∈ responses ops,
        SentInFull resp.id resp.bytes.length (F.sentOn resp.id (B.session c').session)) ↔
          Run.Along (B.step N results) (Fits F B) c ops)) := by
  -- on the calls; between them the connection is calm
  induction ops generalizing c with
  | nil =>
    simp only [Run.runFrom_nil, Option.some.injEq] at hrun
    subst hrun
    exact ⟨fun _ _ => rfl, fun _ => ⟨fun _ => trivial, fun _ resp h => by cases h⟩⟩
  | cons op ops ih =>
    obtain ⟨c₁, hstep, hrest⟩ := Run.runFrom_cons_eq_some.1 hrun
    have hcall : ∃ reqs, B.call N results op c = .ok reqs c₁ := by
      unfold Backend.step at hstep
      split at hstep
      · rename_i reqs c₂ h
        cases hstep
        exact ⟨reqs, h⟩
      · cases hstep
    obtain ⟨reqs, hcall⟩ := hcall
    have hok := Backend.call_ok hcall
    rw [Run.along_cons hstep]
    cases op with
    | receive bytes =>
      obtain ⟨evs, t, hread, -, -, hdrained⟩ := hok
      obtain ⟨hcalm₁, hsame⟩ := Flow.read_frames hF hread hdrained hcalm
      obtain ⟨hothers, hiff⟩ := ih hcalm₁ hids hrest
      -- a read sends nothing on the responses' streams
      refine ⟨fun id hid => (hothers id hid).trans (hsame id), fun hempty => ?_⟩
      have hfits : Fits F B c (.receive bytes) := fun resp h => by cases h
      rw [and_iff_right hfits]
      exact hiff fun resp hresp => (hsame resp.id).trans (hempty resp hresp)
    | write resp =>
      obtain ⟨hwrote, -, -⟩ := hok
      obtain ⟨hcalm₁, hothers₁, payloads, hpayloads, hsent⟩ := Flow.wrote_frames hF hwrote hcalm
      obtain ⟨hnew, hids⟩ := List.nodup_cons.1 (show (resp.id :: (responses ops).map Response.id).Nodup from hids)
      obtain ⟨hothers, hiff⟩ := ih hcalm₁ hids hrest
      refine ⟨fun id hid => ?_, fun hempty => ?_⟩
      · have hne : id ≠ resp.id := fun h => hid (h ▸ List.mem_cons_self)
        have hlater : id ∉ (responses ops).map Response.id := fun h => hid (List.mem_cons_of_mem _ h)
        rw [hothers id hlater, hothers₁ id hne]
      · have hempty₁ : ∀ r ∈ responses ops, F.sentOn r.id (B.session c₁).session = [] := by
          intro r hr
          have hne : r.id ≠ resp.id := fun h => hnew (h ▸ List.mem_map_of_mem hr)
          rw [hothers₁ r.id hne]
          exact hempty r (List.mem_cons_of_mem _ hr)
        -- nothing is sent on this stream later, and what was sent is the body up to the window
        have hthis : SentInFull resp.id resp.bytes.length (F.sentOn resp.id (B.session c').session) ↔
            Fits F B c (.write resp) := by
          rw [hothers resp.id hnew, hsent, hempty resp List.mem_cons_self, List.nil_append,
            sentInFull_iff, hpayloads, List.length_take]
          refine ⟨fun h r hr => ?_, fun h => ?_⟩
          · cases hr
            omega
          · have := h resp rfl
            omega
        show (∀ r ∈ resp :: responses ops, _) ↔ _
        rw [List.forall_mem_cons, hthis, hiff hempty₁]

/-- **No response is truncated, as far as the windows go.** In every run of a connection
from its start, for every schedule of windows: every response written is sent in full if
and only if its body fits the window when it is written. -/
theorem sent_in_full_iff_fits (hF : F.Models N) (results : ℕ → WriteResult) (B : Backend)
    {ops : List Backend.Op} {m : σ} {c : B.Conn σ} (hfresh : F.Fresh m)
    (hids : ((responses ops).map Response.id).Nodup)
    (hrun : Run.runFrom (B.step N results) (B.fresh m) ops = some c) :
    (∀ resp ∈ responses ops,
      SentInFull resp.id resp.bytes.length (F.sentOn resp.id (B.session c).session)) ↔
        Run.Along (B.step N results) (Fits F B) (B.fresh m) ops := by
  have hsession : (B.session (B.fresh m)).session = m := by cases B <;> rfl
  refine (run_frames hF ?_ hids hrun).2 fun resp _ => ?_
  · rw [hsession]
    exact ⟨hfresh.queued, hfresh.unfinished⟩
  · rw [hsession, Flow.sentOn, hfresh.sent]
    rfl

/-- Nothing the peer sends means anything. -/
def silent : Bytes → Arrival := fun _ => {}

def abcdef : Response := { id := 1, msg := .ofString (lit "abcdef") }

theorem sent_in_full_abcdef : ∃ c : Backend.asio.Conn Mini,
    Run.runFrom (Backend.asio.step (Mini.nghttp2 silent) fun _ => .completed) (Backend.asio.fresh {})
      [.receive [0x00], .write abcdef] = some c ∧
    ((∀ resp ∈ responses [.receive [0x00], .write abcdef],
      SentInFull resp.id resp.bytes.length (Mini.flow.sentOn resp.id (Backend.asio.session c).session)) ↔
        Run.Along (Backend.asio.step (Mini.nghttp2 silent) fun _ => .completed) (Fits Mini.flow .asio)
          (Backend.asio.fresh {}) [.receive [0x00], .write abcdef]) := by
  obtain ⟨c, hc⟩ := Option.isSome_iff_exists.1 (show (Run.runFrom
    (Backend.asio.step (Mini.nghttp2 silent) fun _ => .completed) (Backend.asio.fresh {})
    [.receive [0x00], .write abcdef]).isSome = true by decide +kernel)
  refine ⟨c, hc, sent_in_full_iff_fits (Mini.models silent) (fun _ => .completed) .asio ?_ (by decide) hc⟩
  exact ⟨rfl, fun f hf => absurd hf List.not_mem_nil, fun id => List.not_mem_nil⟩

/-- Eleven bytes of body for a window of ten. -/
theorem sent_in_full_fails :
    ¬ ∀ (σ : Type) (F : Flow σ) (N : Nghttp2 σ), F.Models N → ∀ (results : ℕ → WriteResult)
      (B : Backend) (ops : List Backend.Op) (m : σ) (c : B.Conn σ), F.Fresh m →
      ((responses ops).map Response.id).Nodup →
      Run.runFrom (B.step N results) (B.fresh m) ops = some c → ∀ resp ∈ responses ops,
        SentInFull resp.id resp.bytes.length (F.sentOn resp.id (B.session c).session) := by
  intro h
  have hfresh : Mini.flow.Fresh { windows := fun _ => 10 } :=
    ⟨rfl, fun f hf => absurd hf List.not_mem_nil, fun id => List.not_mem_nil⟩
  obtain ⟨c, hc⟩ := Option.isSome_iff_exists.1 (show (Run.runFrom
    (Backend.uv.step (Mini.nghttp2 silent) fun _ => .completed)
    (Backend.uv.fresh { windows := fun _ => 10 }) [.write abcdef]).isSome = true by decide +kernel)
  have hall := h Mini Mini.flow _ (Mini.models silent) _ .uv _ _ c hfresh (by decide) hc
  have hcalm : Mini.flow.Calm (Backend.uv.session (Backend.uv.fresh
      ({ windows := fun _ => 10 } : Mini))).session := ⟨hfresh.queued, hfresh.unfinished⟩
  have hfits := ((run_frames (Mini.models silent) hcalm (by decide) hc).2 fun _ _ => rfl).1 hall
  exact absurd (hfits.1 abcdef rfl) (by decide +kernel)

end Grpcxx
