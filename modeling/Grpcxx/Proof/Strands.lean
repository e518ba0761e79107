import Grpcxx.Model.Strands
import Grpcxx.Proof.Agree
import Grpcxx.Proof.AtRest
import Mathlib.Data.DFinsupp.WellFounded
import Mathlib.Data.Prod.Lex

/-!
# The asio backend serves each connection alone

Whatever the order in which the coroutines of the connections go on, each connection is where
a single coroutine would be that serves it and nothing else (`Asio.serve`).

* `Point.rest_part`: what a coroutine does next, and then the rest, is what it had to do.
* `Line.Ok`: what holds of a connection between steps; `Line.Ok.go` and the like keep it.
* `strands_alone`: a connection that waits for input, or whose coroutine has ended.
* `listen_rests`: all runs end, with all connections served that were accepted before an accept failed.
* `systems_agree`: the connections of the two servers, both at rest.
-/

namespace Grpcxx

namespace Serving

variable {C : Type} {f g : Call C Unit} {w : Serving C} {c : C} {e : Fault}

theorem writing_of_ok (h : f w.conn = .ok () c) : writing f w = .ok () { w with conn := c } := by
  unfold writing
  rw [h]

theorem writing_of_error (h : f w.conn = .error e c) :
    writing f w = .error e { conn := c, acts := w.acts ++ [.writeFailed] } := by
  unfold writing
  rw [h]

/-- One write after the other. -/
theorem writing_bind (f g : Call C Unit) : writing (f >>= fun _ => g) = writing f >>= fun _ => writing g := by
  funext w
  cases hf : f w.conn with
  | error e c => rw [writing_of_error (bind_error hf), bind_error (writing_of_error hf)]
  | ok u c =>
    rw [bind_ok (writing_of_ok hf)]
    have hsame : (f >>= fun _ => g) w.conn = g c := bind_ok hf
    cases hg : g c with
    | ok u c' => rw [writing_of_ok (hsame.trans hg), writing_of_ok (w := { w with conn := c }) hg]
    | error e c' => rw [writing_of_error (hsame.trans hg), writing_of_error (w := { w with conn := c }) hg]

end Serving

namespace Asio

/-- A run goes on with the inputs that come next, unless it has ended. -/
theorem serve_append {σ : Type} {N : Nghttp2 σ} {b : ServerBase} {results : ℕ → WriteResult}
    (ins ins' : List Input) :
    serve N b results (ins ++ ins') = serve N b results ins >>= fun _ => serve N b results ins' := by
  induction ins with
  | nil => rfl
  | cons i ins ih =>
    funext w
    by_cases heos : w.conn.eos = true
    · rw [serve_ended heos, bind_ok (serve_ended heos), serve_ended heos]
    · rw [List.cons_append, serve, serve, ih, bind_assoc, get_bind, get_bind, if_neg heos, if_neg heos]
      simp only [bind_assoc]

namespace System

variable {σ : Type} {N : Nghttp2 σ} {b : ServerBase} {results : ℕ → WriteResult}

/-! ## What is left of a turn -/

def Next.rest (N : Nghttp2 σ) (b : ServerBase) (results : ℕ → WriteResult) :
    Next → Call (Serving (Conn σ)) Unit
  | reqs rs | answer rs => Asio.answer N b results rs
  | trailers resp rs => do
    Serving.writing (Conn.onSession (Session.trailers N resp.id (responseTrailers resp.status)))
    Serving.writing (Conn.writePending N results)
    Asio.answer N b results rs

/-- What the coroutine has still to do before it reads again. -/
def Point.rest (N : Nghttp2 σ) (b : ServerBase) (results : ℕ → WriteResult) :
    Point → Call (Serving (Conn σ)) Unit
  | outside | testing | reading | ended => return ()
  | parsing i => do
    let rs ← Asio.reqs N results i
    Asio.answer N b results rs
  | pending k => do
    Serving.writing (Conn.writePending N results)
    k.rest N b results
  | writing bytes k => do
    Serving.writing (Conn.send results bytes)
    Serving.writing (Conn.writePending N results)
    k.rest N b results
  | trailing resp rs => (Next.trailers resp rs).rest N b results
  | answering rs => Asio.answer N b results rs

theorem Next.rest_point (k : Next) : k.point.rest N b results = k.rest N b results := by
  cases k <;> rfl

/-- `write()` up to where it suspends, or to its end. -/
theorem writePending_chunk (w : Serving (Conn σ)) :
    Serving.writing (Conn.writePending N results) w =
      (chunk N >>= fun bytes =>
        if bytes.isEmpty then pure ()
        else Serving.writing (Conn.send results bytes) >>= fun _ =>
          Serving.writing (Conn.writePending N results)) w := by
  have heq := Conn.writePending_eq (N := N) results w.conn
  cases hp : Conn.onSession (Session.pending N) w.conn with
  | error e c =>
    rw [hp] at heq
    have hchunk : chunk N w = .error e { conn := c, acts := w.acts ++ [.writeFailed] } := by
      unfold chunk
      rw [hp]
    rw [Serving.writing_of_error heq, bind_error hchunk]
  | ok bytes c =>
    rw [hp] at heq
    dsimp only at heq
    have hchunk : chunk N w = .ok bytes { w with conn := c } := by
      unfold chunk
      rw [hp]
    rw [bind_ok hchunk]
    by_cases hempty : bytes.isEmpty = true
    · rw [if_pos hempty] at heq ⊢
      exact Serving.writing_of_ok heq
    · rw [if_neg hempty] at heq ⊢
      rw [← Serving.writing_bind]
      unfold Serving.writing
      rw [heq]
      dsimp only
      cases hs : Conn.send results bytes c with
      | error e c' => rw [bind_error hs]
      | ok u c' => rw [bind_ok hs]

theorem rest_pending (k : Next) :
    (Point.pending k).rest N b results =
      (Point.pending k).part N b >>= fun p => p.rest N b results := by
  funext w
  have hpart : (Point.pending k).part N b = chunk N >>= fun bytes =>
      pure (if bytes.isEmpty then k.point else .writing bytes k) := rfl
  have hrest : (Point.pending k).rest N b results =
      Serving.writing (Conn.writePending N results) >>= fun _ => k.rest N b results := rfl
  rw [hpart, hrest, bind_assoc]
  simp only [pure_bind]
  have hchunk : Serving.writing (Conn.writePending N results) w = _ := writePending_chunk w
  cases hc : chunk N w with
  | error e w' =>
    rw [bind_error hc] at hchunk
    rw [bind_error hchunk, bind_error hc]
  | ok bytes w' =>
    rw [bind_ok hc] at hchunk
    rw [bind_ok hc]
    by_cases hempty : bytes.isEmpty = true
    · rw [if_pos hempty] at hchunk ⊢
      rw [bind_ok hchunk, Next.rest_point]
    · rw [if_neg hempty] at hchunk ⊢
      have hwriting : (Point.writing bytes k).rest N b results =
          (Serving.writing (Conn.send results bytes) >>= fun _ =>
            Serving.writing (Conn.writePending N results)) >>= fun _ => k.rest N b results := by
        rw [bind_assoc]
        rfl
      rw [hwriting]
      cases hs : (Serving.writing (Conn.send results bytes) >>= fun _ =>
          Serving.writing (Conn.writePending N results)) w' with
      | ok u w'' => rw [bind_ok hs, bind_ok (hchunk.trans hs)]
      | error e w'' => rw [bind_error hs, bind_error (hchunk.trans hs)]

theorem rest_parsing (i : Input) :
    (Point.parsing i).rest N b results = (Point.parsing i).part N b >>= fun p => p.rest N b results := by
  cases i with
  | eos | error => rfl
  | bytes bytes =>
    funext w
    cases hread : Serving.onConn (Conn.read N bytes)
        { w with acts := w.acts ++ Serving.readActs N bytes w.conn.session } with
    | ok rs w' =>
      have hpart : (Point.parsing (.bytes bytes)).part N b w = .ok (.pending (.reqs rs)) w' := by
        unfold Point.part
        dsimp only
        rw [hread]
      have hreqs : Asio.reqs N results (.bytes bytes) w =
          (do Serving.writing (Conn.writePending N results); return rs) w' := by
        unfold Asio.reqs
        dsimp only
        rw [hread]
      have hrest : (Point.pending (.reqs rs)).rest N b results =
          Serving.writing (Conn.writePending N results) >>= fun _ => Asio.answer N b results rs := rfl
      rw [bind_ok hpart, hrest]
      show (Asio.reqs N results (.bytes bytes) >>= Asio.answer N b results) w = _
      cases hwrite : Serving.writing (Conn.writePending N results) w' with
      | ok u w'' =>
        have hok : Asio.reqs N results (.bytes bytes) w = .ok rs w'' := by
          rw [hreqs, bind_ok hwrite]
          rfl
        rw [bind_ok hok, bind_ok hwrite]
      | error e w'' =>
        rw [bind_error (hreqs.trans (bind_error hwrite)), bind_error hwrite]
    | error e w' =>
      by_cases he : e.isException = true
      · have hpart : (Point.parsing (.bytes bytes)).part N b w =
            (do endStream; return Point.answering []) w' := by
          unfold Point.part
          dsimp only
          rw [hread]
          exact if_pos he
        have hreqs : Asio.reqs N results (.bytes bytes) w = (do endStream; return []) w' := by
          unfold Asio.reqs
          dsimp only
          rw [hread]
          exact if_pos he
        show (Asio.reqs N results (.bytes bytes) >>= Asio.answer N b results) w = _
        rw [bind_ok (hreqs.trans rfl), bind_ok (hpart.trans rfl)]
        rfl
      · have hpart : (Point.parsing (.bytes bytes)).part N b w = .error e w' := by
          unfold Point.part
          dsimp only
          rw [hread]
          exact if_neg he
        have hreqs : Asio.reqs N results (.bytes bytes) w = .error e w' := by
          unfold Asio.reqs
          dsimp only
          rw [hread]
          exact if_neg he
        rw [bind_error hpart]
        exact bind_error hreqs

theorem rest_answering (rs : List Request) :
    (Point.answering rs).rest N b results =
      (Point.answering rs).part N b >>= fun p => p.rest N b results := by
  cases rs with
  | nil => rfl
  | cons req rs =>
    funext w
    show Asio.answer N b results (req :: rs) w = _
    unfold Asio.answer Point.part
    rw [bind_assoc, get_bind, get_bind]
    by_cases heos : w.conn.eos = true
    · rw [if_pos heos, if_pos heos]
      rfl
    · rw [if_neg heos, if_neg heos, bind_assoc]
      have hwrite : ∀ resp, Serving.writing (Conn.write N results resp) =
          Serving.writing (Conn.onSession (Session.headers N resp.id responseHeaders) >>= fun _ =>
            Conn.onSession (Session.submitBody N resp.id resp.bytes)) >>= fun _ =>
          Serving.writing (Conn.writePending N results) >>= fun _ =>
          Serving.writing (Conn.onSession (Session.trailers N resp.id (responseTrailers resp.status))) >>= fun _ =>
          Serving.writing (Conn.writePending N results) := by
        intro resp
        rw [← Serving.writing_bind, ← Serving.writing_bind, ← Serving.writing_bind, bind_assoc]
        rfl
      simp only [hwrite, bind_assoc, pure_bind]
      rfl

/-- **What the coroutine does next**, and then the rest. -/
theorem Point.rest_part (p : Point) (hp : p.waits = false) :
    p.rest N b results = p.part N b >>= fun p' => p'.rest N b results := by
  cases p with
  | outside | reading | writing | ended => cases hp
  | testing =>
    funext w
    have hpart : Point.testing.part N b w = .ok (if w.conn.eos then .ended else .reading) w := rfl
    rw [bind_ok hpart]
    cases w.conn.eos <;> rfl
  | parsing i => exact rest_parsing i
  | pending k => exact rest_pending k
  | trailing resp rs =>
    have hpart : (Point.trailing resp rs).part N b = Serving.writing (Conn.onSession
        (Session.trailers N resp.id (responseTrailers resp.status))) >>= fun _ =>
      pure (Point.pending (.answer rs)) := rfl
    rw [hpart, bind_assoc]
    simp only [pure_bind]
    rfl
  | answering rs => exact rest_answering rs

/-- Where a coroutine is after a part: it reads again or ends by the test of its loop only. -/
theorem Point.part_after {p p' : Point} {w w' : Serving (Conn σ)} (hp : p.waits = false)
    (h : p.part N b w = .ok p' w') :
    p' = .reading ∧ w'.conn.eos = false ∨ p' = .ended ∧ w'.conn.eos = true ∨
      p' ≠ .outside ∧ p' ≠ .reading ∧ p' ≠ .ended := by
  cases p with
  | outside | reading | writing | ended => cases hp
  | testing =>
    cases h
    cases heos : w.conn.eos with
    | true => exact Or.inr (Or.inl ⟨if_pos rfl, rfl⟩)
    | false => exact Or.inl ⟨if_neg Bool.false_ne_true, rfl⟩
  | parsing i =>
    refine Or.inr (Or.inr ?_)
    cases i with
    | eos | error =>
      cases h
      simp
    | bytes bytes =>
      unfold Point.part at h
      dsimp only at h
      split at h
      · cases h
        simp
      · split at h
        · cases h
          simp
        · cases h
  | pending k =>
    obtain ⟨bytes, w₁, -, h⟩ := bind_eq_ok_iff.1 h
    refine Or.inr (Or.inr ?_)
    cases h
    split
    · cases k <;> simp [Next.point]
    · simp
  | trailing resp rs =>
    obtain ⟨_, w₁, -, h⟩ := bind_eq_ok_iff.1 h
    cases h
    simp
  | answering rs =>
    cases rs with
    | nil =>
      cases h
      simp
    | cons req rs =>
      obtain ⟨_, _, hget, h⟩ := bind_eq_ok_iff.1 h
      cases hget
      split at h
      · cases h
        simp
      · obtain ⟨resp, w₁, -, h⟩ := bind_eq_ok_iff.1 h
        obtain ⟨_, w₂, -, h⟩ := bind_eq_ok_iff.1 h
        cases h
        simp

theorem send_thrown {bytes : Bytes} {w w' : Serving (Conn σ)} {e : Fault}
    (h : Serving.writing (Conn.send results bytes) w = .error e w') : e.isThrown = true := by
  unfold Serving.writing Conn.send zoom Socket.write at h
  cases hr : results w.conn.sock.writes with
  | completed =>
    rw [hr] at h
    cases h
  | failed why | refused why =>
    rw [hr] at h
    cases h
    rfl

/-! ## Between steps -/

/-- **What holds of a connection between steps.** Its inputs are taken in order, and the rest of its
turn leads to where the inputs so far lead a connection that is served alone, from `w₀`. -/
structure Line.Ok (N : Nghttp2 σ) (b : ServerBase) (results : ℕ → WriteResult) (w₀ : Serving (Conn σ))
    (ins : List Input) (l : Line σ) : Prop where
  order : l.taken ++ l.inputs = ins
  turn : l.point ≠ .ended → l.point.rest N b results l.serving = serve N b results l.taken w₀
  reading : l.point = .reading → l.serving.conn.eos = false
  ended : l.point = .ended → serve N b results l.taken w₀ = .ok () l.serving ∧ l.serving.conn.eos = true ∨
    ∃ e, e.isThrown = true ∧ serve N b results l.taken w₀ = .error e l.serving

namespace Line.Ok

variable {w₀ : Serving (Conn σ)} {ins : List Input} {l l' : Line σ}

/-- The coroutine has ended with an exception. -/
theorem threw (h : Line.Ok N b results w₀ ins l) {e : Fault} {w : Serving (Conn σ)}
    (he : e.isThrown = true) (hserve : serve N b results l.taken w₀ = .error e w) :
    Line.Ok N b results w₀ ins { l with point := .ended, serving := w } :=
  ⟨h.order, fun hne => absurd rfl hne, nofun, fun _ => Or.inr ⟨e, he, hserve⟩⟩

theorem go (h : Line.Ok N b results w₀ ins l) (hgo : l.go N b = some l') : Line.Ok N b results w₀ ins l' := by
  unfold Line.go at hgo
  split at hgo
  · cases hgo
  · rename_i hwaits
    have hwaits : l.point.waits = false := by simpa using hwaits
    have hne : l.point ≠ .ended := by
      intro hended
      rw [hended] at hwaits
      cases hwaits
    have hrest : l.point.rest N b results l.serving =
        (l.point.part N b >>= fun p => p.rest N b results) l.serving := by
      rw [← Point.rest_part l.point hwaits]
    rw [h.turn hne] at hrest
    split at hgo
    · rename_i p w hpart
      cases hgo
      rw [bind_ok hpart] at hrest
      refine ⟨h.order, fun _ => hrest.symm, fun hreading => ?_, fun hended => Or.inl ?_⟩
      · rcases Point.part_after hwaits hpart with ⟨-, heos⟩ | ⟨hp, -⟩ | ⟨-, hp, -⟩
        · exact heos
        · cases hp.symm.trans hreading
        · exact absurd hreading hp
      · rcases Point.part_after hwaits hpart with ⟨hp, -⟩ | ⟨hp, heos⟩ | ⟨-, -, hp⟩
        · cases hp.symm.trans hended
        · rw [hp] at hrest
          exact ⟨hrest, heos⟩
        · exact absurd hended hp
    · rename_i e w hpart
      rw [bind_error hpart] at hrest
      split at hgo
      · rename_i he
        cases hgo
        exact h.threw he hrest
      · cases hgo

theorem read (h : Line.Ok N b results w₀ ins l) (hread : l.read = some l') : Line.Ok N b results w₀ ins l' := by
  unfold Line.read at hread
  split at hread
  · rename_i i inputs hpoint hinputs
    cases hread
    have hserved : serve N b results l.taken w₀ = .ok () l.serving := by
      rw [← h.turn (by rw [hpoint]; nofun), hpoint]
      rfl
    have heos : ¬ l.serving.conn.eos = true := by simp [h.reading hpoint]
    refine ⟨?_, fun _ => ?_, nofun, nofun⟩
    · show (l.taken ++ [i]) ++ inputs = ins
      rw [← h.order, hinputs, List.append_assoc, List.singleton_append]
    · show (Point.parsing i).rest N b results l.serving = serve N b results (l.taken ++ [i]) w₀
      rw [serve_append, bind_ok hserved, serve, get_bind, if_neg heos]
      show (Asio.reqs N results i >>= Asio.answer N b results) l.serving =
        (Asio.reqs N results i >>= fun rs => Asio.answer N b results rs >>= pure) l.serving
      simp only [bind_pure]
  · cases hread

theorem wrote (h : Line.Ok N b results w₀ ins l) (hwrote : l.wrote results = some l') :
    Line.Ok N b results w₀ ins l' := by
  unfold Line.wrote at hwrote
  split at hwrote
  · rename_i bytes k hpoint
    have hturn := h.turn (by rw [hpoint]; nofun)
    rw [hpoint] at hturn
    have hrest : (Point.writing bytes k).rest N b results =
        Serving.writing (Conn.send results bytes) >>= fun _ => (Point.pending k).rest N b results := rfl
    rw [hrest] at hturn
    split at hwrote
    · rename_i w hsend
      cases hwrote
      rw [bind_ok hsend] at hturn
      exact ⟨h.order, fun _ => hturn, nofun, nofun⟩
    · rename_i e w hsend
      cases hwrote
      rw [bind_error hsend] at hturn
      exact h.threw (send_thrown hsend) hturn.symm
  · cases hwrote

/-- The connection is accepted. -/
theorem accept (h : Line.Ok N b results w₀ ins l) (hl : l.point = .outside) :
    Line.Ok N b results w₀ ins { l with point := .testing } := by
  refine ⟨h.order, fun _ => ?_, nofun, nofun⟩
  rw [← h.turn (by rw [hl]; nofun), hl]
  rfl

/-- Between turns, the connection is where its inputs lead it. -/
theorem at_rest (h : Line.Ok N b results w₀ ins l) (hl : l.point = .reading ∨ l.point = .ended) :
    final (serve N b results l.taken w₀) = l.serving := by
  rcases hl with hl | hl
  · rw [← h.turn (by rw [hl]; nofun), hl]
    rfl
  · rcases h.ended hl with ⟨hserve, -⟩ | ⟨e, -, hserve⟩
    · rw [hserve]
      rfl
    · rw [hserve]
      rfl

end Line.Ok

/-! ## Any interleaving -/

variable {accepts : List Accept} {sessions : ℕ → σ} {inputs : ℕ → List Input} {s s' : State σ}
  {results : ℕ → ℕ → WriteResult}

/-- The connection has moved, by its coroutine or by the socket. -/
inductive Line.Moves (N : Nghttp2 σ) (b : ServerBase) (results : ℕ → WriteResult) (l l' : Line σ) : Prop
  | go (h : l.go N b = some l')
  | read (h : l.read = some l')
  | wrote (h : l.wrote results = some l')

theorem Line.Moves.ok {w₀ : Serving (Conn σ)} {ins : List Input} {results : ℕ → WriteResult} {l l' : Line σ}
    (h : Line.Moves N b results l l') (hl : Line.Ok N b results w₀ ins l) :
    Line.Ok N b results w₀ ins l' := by
  cases h with
  | go h => exact hl.go h
  | read h => exact hl.read h
  | wrote h => exact hl.wrote h

/-- It was accepted before. -/
theorem Line.Moves.inside {results : ℕ → WriteResult} {l l' : Line σ} (h : Line.Moves N b results l l') :
    l.point ≠ .outside ∧ l'.point ≠ .outside := by
  cases h with
  | go h =>
    unfold Line.go at h
    split at h
    · cases h
    · rename_i hwaits
      have hwaits : l.point.waits = false := by simpa using hwaits
      have hin : l.point ≠ .outside := by
        intro hout
        rw [hout] at hwaits
        cases hwaits
      refine ⟨hin, ?_⟩
      split at h
      · rename_i p w hpart
        cases h
        rcases Point.part_after hwaits hpart with ⟨hp, -⟩ | ⟨hp, -⟩ | ⟨hp, -, -⟩
        · exact fun hout => by cases hp.symm.trans hout
        · exact fun hout => by cases hp.symm.trans hout
        · exact hp
      · split at h
        · cases h
          exact nofun
        · cases h
  | read h =>
    unfold Line.read at h
    split at h
    · rename_i hpoint _
      cases h
      exact ⟨by rw [hpoint]; nofun, nofun⟩
    · cases h
  | wrote h =>
    unfold Line.wrote at h
    split at h
    · rename_i hpoint
      refine ⟨by rw [hpoint]; nofun, ?_⟩
      split at h
      · cases h
        exact nofun
      · cases h
        exact nofun
    · cases h

/-- The steps of the system. -/
inductive Moves (N : Nghttp2 σ) (b : ServerBase) (results : ℕ → ℕ → WriteResult) (s : State σ) : State σ → Prop
  | socket {rest : List Accept} (hon : s.listening = true) (haccepts : s.accepts = .socket :: rest) :
      Moves N b results s
        { s.setLine s.accepted { s.lines s.accepted with point := .testing } with
          accepts := rest
          accepted := s.accepted + 1 }
  | failed {rest : List Accept} (hon : s.listening = true) (haccepts : s.accepts = .error :: rest) :
      Moves N b results s { s with listening := false, accepts := rest }
  | line {h : ℕ} {l : Line σ} (hl : (s.lines h).Moves N b (results h) l) :
      Moves N b results s (s.setLine h l)

theorem step_moves {a : Action} (h : step N b results s a = some s') : Moves N b results s s' := by
  cases a with
  | accept =>
    have h : s.accept = some s' := h
    unfold State.accept at h
    split at h
    · cases h
    · rename_i hon
      have hon : s.listening = true := by simpa using hon
      split at h
      · cases h
      · rename_i rest haccepts
        cases h
        exact .socket hon haccepts
      · rename_i rest haccepts
        cases h
        exact .failed hon haccepts
  | read i =>
    obtain ⟨l, hl, rfl⟩ := Option.map_eq_some_iff.1 h
    exact .line (.read hl)
  | wrote i =>
    obtain ⟨l, hl, rfl⟩ := Option.map_eq_some_iff.1 h
    exact .line (.wrote hl)
  | go i =>
    obtain ⟨l, hl, rfl⟩ := Option.map_eq_some_iff.1 h
    exact .line (.go hl)

/-- What holds of `listen` and of every connection. -/
structure Inv (N : Nghttp2 σ) (b : ServerBase) (results : ℕ → ℕ → WriteResult) (accepts : List Accept)
    (sessions : ℕ → σ) (inputs : ℕ → List Input) (s : State σ) : Prop where
  lines : ∀ h, (s.lines h).Ok N b (results h) { conn := Backend.fresh .asio (sessions h) } (inputs h)
  outside : ∀ h, (s.lines h).point = .outside ↔ s.accepted ≤ h
  accepts : accepts = List.replicate s.accepted .socket ++
    if s.listening then s.accepts else .error :: s.accepts

theorem inv_start : Inv N b results accepts sessions inputs (start accepts sessions inputs) :=
  ⟨fun _ => ⟨rfl, fun _ => rfl, nofun, nofun⟩, fun h => iff_of_true rfl (Nat.zero_le h), rfl⟩

theorem Inv.step (hs : Inv N b results accepts sessions inputs s) (h : Moves N b results s s') :
    Inv N b results accepts sessions inputs s' := by
  cases h with
  | @socket rest hon haccepts =>
    refine ⟨fun h => ?_, fun h => ?_, ?_⟩
    · exact (Function.forall_update_iff s.lines fun h =>
          Line.Ok N b (results h) { conn := Backend.fresh .asio (sessions h) } (inputs h)).2
        ⟨(hs.lines _).accept ((hs.outside _).2 le_rfl), fun h _ => hs.lines h⟩ h
    · show (Function.update s.lines s.accepted _ h).point = .outside ↔ s.accepted + 1 ≤ h
      by_cases hh : h = s.accepted
      · subst hh
        rw [Function.update_self]
        exact iff_of_false nofun (by omega)
      · rw [Function.update_of_ne hh, hs.outside]
        omega
    · show accepts = List.replicate (s.accepted + 1) .socket ++ if s.listening then rest else .error :: rest
      have hall := hs.accepts
      rw [hon, haccepts] at hall
      rw [hon, hall, List.replicate_succ', List.append_assoc]
      rfl
  | @failed rest hon haccepts =>
    refine ⟨hs.lines, hs.outside, ?_⟩
    have hall := hs.accepts
    rw [hon, haccepts] at hall
    exact hall
  | @line i l hl =>
    refine ⟨fun h => ?_, fun h => ?_, hs.accepts⟩
    · exact (Function.forall_update_iff s.lines fun h =>
          Line.Ok N b (results h) { conn := Backend.fresh .asio (sessions h) } (inputs h)).2
        ⟨hl.ok (hs.lines i), fun h _ => hs.lines h⟩ h
    · show (Function.update s.lines i l h).point = .outside ↔ s.accepted ≤ h
      by_cases hh : h = i
      · subst hh
        rw [Function.update_self, ← hs.outside]
        exact iff_of_false hl.inside.2 hl.inside.1
      · rw [Function.update_of_ne hh]
        exact hs.outside h

theorem inv_reached {as : List Action}
    (hrun : Run.runFrom (step N b results) (start accepts sessions inputs) as = some s) :
    Inv N b results accepts sessions inputs s :=
  Run.inv_run (I := Inv N b results accepts sessions inputs) (fun _ _ _ hs h => hs.step (step_moves h))
    inv_start hrun

/-! ## All runs end -/

/-- The parts that the coroutine still has to go through, but for the chunks of a `write()`. -/
def Next.stage : Next → ℕ
  | reqs rs | answer rs => 4 * rs.length + 3
  | trailers _ rs => 4 * rs.length + 5

def Point.stage : Point → ℕ
  | outside | reading | parsing _ | ended => 0
  | testing => 1
  | answering rs => 4 * rs.length + 2
  | trailing _ rs => 4 * rs.length + 4
  | pending k | writing _ k => k.stage

def Point.unread : Point → ℕ
  | parsing _ => 1
  | _ => 0

/-- The chunks that nghttp2 may still have. -/
def Line.chunks (N : Nghttp2 σ) (l : Line σ) : ℕ :=
  match l.point with
  | .pending _ => 2 * l.serving.conn.backlog N + 1
  | .writing _ _ => 2 * l.serving.conn.backlog N + 2
  | _ => 0

def Line.measure (N : Nghttp2 σ) (l : Line σ) : ℕ ×ₗ ℕ ×ₗ ℕ ×ₗ ℕ :=
  toLex (l.inputs.length, toLex (l.point.unread, toLex (l.point.stage, l.chunks N)))

/-- The connection goes on with its turn. -/
theorem measure_lt {l l' : Line σ} (hinputs : l'.inputs = l.inputs)
    (h : l'.point.unread < l.point.unread ∨ l'.point.unread = l.point.unread ∧
      (l'.point.stage < l.point.stage ∨ l'.point.stage = l.point.stage ∧ l'.chunks N < l.chunks N)) :
    l'.measure N < l.measure N := by
  unfold Line.measure
  rw [hinputs, Prod.Lex.toLex_lt_toLex, Prod.Lex.toLex_lt_toLex, Prod.Lex.toLex_lt_toLex]
  exact Or.inr ⟨rfl, h⟩

theorem Next.stage_point (k : Next) : k.point.stage < k.stage := by
  cases k with
  | reqs rs | answer rs => exact Nat.lt_succ_self _
  | trailers resp rs => exact Nat.lt_succ_self _

theorem Next.unread_point (k : Next) : k.point.unread = 0 := by
  cases k <;> rfl

theorem chunk_backlog {w w' : Serving (Conn σ)} {bytes : Bytes} (h : chunk N w = .ok bytes w')
    (hne : bytes ≠ []) : w'.conn.backlog N < w.conn.backlog N := by
  unfold chunk at h
  split at h
  · rename_i c hpending
    cases h
    obtain ⟨s, hs, rfl⟩ := zoom_eq_ok_iff.1 hpending
    obtain ⟨hout, rfl⟩ := Session.pending_ok hs
    simp only [Conn.backlog, Session.afterSend_eq]
    exact N.drains _ _ _ hout hne
  · cases h

/-- A part that is done leaves fewer. -/
theorem part_measure {l : Line σ} {p : Point} {w : Serving (Conn σ)} (hwaits : l.point.waits = false)
    (h : l.point.part N b l.serving = .ok p w) :
    ({ l with point := p, serving := w } : Line σ).measure N < l.measure N := by
  refine measure_lt rfl ?_
  dsimp only
  cases hp : l.point with
  | outside | reading | writing | ended =>
    rw [hp] at hwaits
    cases hwaits
  | testing =>
    rw [hp] at h
    cases h
    refine Or.inr ⟨?_, Or.inl ?_⟩
    · split <;> rfl
    · split <;> exact Nat.zero_lt_one
  | parsing i =>
    rw [hp] at h
    refine Or.inl ?_
    cases i with
    | eos | error =>
      cases h
      exact Nat.zero_lt_one
    | bytes bytes =>
      unfold Point.part at h
      dsimp only at h
      split at h
      · cases h
        exact Nat.zero_lt_one
      · split at h
        · cases h
          exact Nat.zero_lt_one
        · cases h
  | pending k =>
    rw [hp] at h
    obtain ⟨bytes, w₁, hchunk, h⟩ := bind_eq_ok_iff.1 h
    cases h
    by_cases hempty : bytes.isEmpty = true
    · rw [if_pos hempty]
      exact Or.inr ⟨k.unread_point, Or.inl k.stage_point⟩
    · rw [if_neg hempty]
      refine Or.inr ⟨rfl, Or.inr ⟨rfl, ?_⟩⟩
      have hless := chunk_backlog hchunk (by simpa using hempty)
      show 2 * w.conn.backlog N + 2 < l.chunks N
      unfold Line.chunks
      rw [hp]
      dsimp only
      omega
  | trailing resp rs =>
    rw [hp] at h
    obtain ⟨_, w₁, -, h⟩ := bind_eq_ok_iff.1 h
    cases h
    exact Or.inr ⟨rfl, Or.inl (Nat.lt_succ_self _)⟩
  | answering rs =>
    rw [hp] at h
    cases rs with
    | nil =>
      cases h
      exact Or.inr ⟨rfl, Or.inl (Nat.lt_succ_self _)⟩
    | cons req rs =>
      obtain ⟨_, _, hget, h⟩ := bind_eq_ok_iff.1 h
      cases hget
      split at h
      · cases h
        refine Or.inr ⟨rfl, Or.inl ?_⟩
        simp only [Point.stage, List.length_cons]
        omega
      · obtain ⟨resp, w₁, -, h⟩ := bind_eq_ok_iff.1 h
        obtain ⟨_, w₂, -, h⟩ := bind_eq_ok_iff.1 h
        cases h
        refine Or.inr ⟨rfl, Or.inl ?_⟩
        simp only [Point.stage, Next.stage, List.length_cons]
        omega

theorem waits_stage {p : Point} (hp : p.waits = false) : 0 < p.unread ∨ 0 = p.unread ∧ 0 < p.stage := by
  cases p with
  | outside | reading | writing | ended => cases hp
  | parsing i => exact Or.inl Nat.zero_lt_one
  | testing => exact Or.inr ⟨rfl, Nat.zero_lt_one⟩
  | pending k =>
    refine Or.inr ⟨rfl, ?_⟩
    cases k <;> exact Nat.succ_pos _
  | trailing resp rs => exact Or.inr ⟨rfl, Nat.succ_pos _⟩
  | answering rs => exact Or.inr ⟨rfl, Nat.succ_pos _⟩

theorem Line.Moves.measure {results : ℕ → WriteResult} {l l' : Line σ} (h : Line.Moves N b results l l') :
    l'.measure N < l.measure N := by
  cases h with
  | go h =>
    unfold Line.go at h
    split at h
    · cases h
    · rename_i hwaits
      have hwaits : l.point.waits = false := by simpa using hwaits
      split at h
      · rename_i p w hpart
        cases h
        exact part_measure hwaits hpart
      · split at h
        · cases h
          -- the coroutine has thrown
          refine measure_lt rfl ?_
          rcases waits_stage hwaits with hlt | ⟨heq, hlt⟩
          · exact Or.inl hlt
          · exact Or.inr ⟨heq, Or.inl hlt⟩
        · cases h
  | read h =>
    unfold Line.read at h
    split at h
    · rename_i i inputs hpoint hinputs
      cases h
      unfold Line.measure
      rw [Prod.Lex.toLex_lt_toLex]
      refine Or.inl ?_
      show inputs.length < l.inputs.length
      rw [hinputs]
      exact Nat.lt_succ_self _
    · cases h
  | wrote h =>
    unfold Line.wrote at h
    split at h
    · rename_i bytes k hpoint
      split at h
      · rename_i w hsend
        cases h
        refine measure_lt rfl (Or.inr ⟨by rw [hpoint]; rfl, Or.inr ⟨by rw [hpoint]; rfl, ?_⟩⟩)
        obtain ⟨c, hc, hw⟩ := writing_ok hsend
        obtain ⟨sock, -, rfl⟩ := zoom_eq_ok_iff.1 hc
        show 2 * w.conn.backlog N + 1 < l.chunks N
        unfold Line.chunks
        rw [hpoint, hw]
        exact Nat.lt_succ_self _
      · cases h
        refine measure_lt rfl (Or.inr ⟨by rw [hpoint]; rfl, Or.inl ?_⟩)
        rw [hpoint]
        show 0 < k.stage
        cases k <;> exact Nat.succ_pos _
    · cases h

/-- What is left to do for `listen` and the first `k` connections. -/
def State.measure (N : Nghttp2 σ) (k : ℕ) (s : State σ) : ℕ ×ₗ (Fin k → ℕ ×ₗ ℕ ×ₗ ℕ ×ₗ ℕ) :=
  toLex (s.accepts.length, fun i => (s.lines i).measure N)

theorem Inv.measure (hs : Inv N b results accepts sessions inputs s) (h : Moves N b results s s') :
    s'.measure N accepts.length < s.measure N accepts.length := by
  unfold State.measure
  rw [Prod.Lex.toLex_lt_toLex]
  cases h with
  | socket hon haccepts =>
    refine Or.inl ?_
    rw [haccepts]
    exact Nat.lt_succ_self _
  | failed hon haccepts =>
    refine Or.inl ?_
    rw [haccepts]
    exact Nat.lt_succ_self _
  | @line h l hl =>
    have hlt : h < accepts.length := by
      have hlen := congrArg List.length hs.accepts
      rw [List.length_append, List.length_replicate] at hlen
      have hin : ¬ s.accepted ≤ h := fun hle => hl.inside.1 ((hs.outside h).2 hle)
      omega
    refine Or.inr ⟨rfl, Run.family_lt (i := ⟨h, hlt⟩) ?_ fun j hj => ?_⟩
    · show (Function.update s.lines h l h).measure N < (s.lines h).measure N
      rw [Function.update_self]
      exact hl.measure
    · show (Function.update s.lines h l j).measure N = (s.lines j).measure N
      rw [Function.update_of_ne fun hjh => hj (Fin.ext hjh)]

/-! ## What they end with -/

/-- Where nothing moves, a connection that was accepted has taken all its inputs, or has ended. -/
theorem Inv.rests (hs : Inv N b results accepts sessions inputs s)
    (hlive : ∀ h e w, serve N b (results h) (inputs h) { conn := Backend.fresh .asio (sessions h) } =
      .error e w → e.isThrown = true)
    (hrests : Run.Rests (System.step N b results) s) {h : ℕ} (hh : h < s.accepted) :
    (s.lines h).point = .reading ∧ (s.lines h).inputs = [] ∨ (s.lines h).point = .ended := by
  have hin : (s.lines h).point ≠ .outside := by
    intro hout
    have hle := (hs.outside h).1 hout
    omega
  have hgo : (s.lines h).go N b = none := by
    have hnone := hrests (.go h)
    simpa only [System.step, Option.map_eq_none_iff] using hnone
  have hread : (s.lines h).read = none := by
    have hnone := hrests (.read h)
    simpa only [System.step, Option.map_eq_none_iff] using hnone
  have hwrote : (s.lines h).wrote (results h) = none := by
    have hnone := hrests (.wrote h)
    simpa only [System.step, Option.map_eq_none_iff] using hnone
  have hwaits : (s.lines h).point.waits = true := by
    by_contra hne
    have hfalse : (s.lines h).point.waits = false := by simpa using hne
    have hended : (s.lines h).point ≠ .ended := by
      intro hended
      rw [hended] at hfalse
      cases hfalse
    unfold Line.go at hgo
    rw [if_neg hne] at hgo
    split at hgo
    · cases hgo
    · rename_i e w hpart
      split at hgo
      · cases hgo
      · rename_i he
        -- the connection served alone would end the process too
        have hserve : serve N b (results h) (s.lines h).taken { conn := Backend.fresh .asio (sessions h) } =
            .error e w := by
          rw [← (hs.lines h).turn hended, Point.rest_part _ hfalse, bind_error hpart]
        refine he (hlive h e w ?_)
        rw [← (hs.lines h).order, serve_append, bind_error hserve]
  cases hp : (s.lines h).point with
  | outside => exact absurd hp hin
  | ended => exact Or.inr rfl
  | reading =>
    cases hinputs : (s.lines h).inputs with
    | nil => exact Or.inl ⟨rfl, rfl⟩
    | cons i rest =>
      simp only [Line.read, hp, hinputs] at hread
      cases hread
  | writing bytes k =>
    simp only [Line.wrote, hp] at hwrote
    split at hwrote <;> cases hwrote
  | testing | parsing | pending | trailing | answering =>
    rw [hp] at hwaits
    cases hwaits

/-- The inputs that a connection did not take make no difference. -/
theorem Line.Ok.served {w₀ : Serving (Conn σ)} {ins : List Input} {results : ℕ → WriteResult} {l : Line σ}
    (h : Line.Ok N b results w₀ ins l) (hl : l.point = .reading ∧ l.inputs = [] ∨ l.point = .ended) :
    final (serve N b results ins w₀) = l.serving := by
  rcases hl with ⟨hpoint, hinputs⟩ | hended
  · rw [← h.order, hinputs, List.append_nil]
    exact h.at_rest (Or.inl hpoint)
  · rw [← h.order, serve_append]
    rcases h.ended hended with ⟨hserve, heos⟩ | ⟨e, -, hserve⟩
    · rw [bind_ok hserve, serve_ended heos]
      rfl
    · rw [bind_error hserve]
      rfl

/-- **A connection that waits for input, or whose coroutine has ended**, is where it would be if it
were served alone, whatever the other connections and `listen` have done meanwhile. -/
theorem strands_alone {as : List Action}
    (hrun : Run.runFrom (step N b results) (start accepts sessions inputs) as = some s) (h : ℕ)
    (hrest : (s.lines h).point = .reading ∨ (s.lines h).point = .ended) :
    (s.lines h).taken ++ (s.lines h).inputs = inputs h ∧
      final (serve N b (results h) (s.lines h).taken { conn := Backend.fresh .asio (sessions h) }) =
        (s.lines h).serving :=
  ⟨((inv_reached hrun).lines h).order, ((inv_reached hrun).lines h).at_rest hrest⟩

/-- From one request of a batch to the next. -/
def oneAnswer : List Action :=
  [.go 0, .go 0, .wrote 0, .go 0, .wrote 0, .go 0, .go 0, .go 0, .wrote 0, .go 0]

/-- The coroutine of the one connection reads two requests, answers them and reads again. -/
def oneTurn : List Action :=
  [.accept, .go 0, .read 0, .go 0, .go 0] ++ oneAnswer ++ oneAnswer ++ [.go 0, .go 0]

theorem strands_alone_one : ∃ s : State Mini,
    Run.runFrom (step (Mini.nghttp2 bothMethods) twoMethods fun _ _ => .completed)
      (start [.socket, .error] (fun _ => {}) fun _ => [.bytes [0x00], .eos]) oneTurn = some s ∧
    final (serve (Mini.nghttp2 bothMethods) twoMethods (fun _ => .completed) (s.lines 0).taken
      { conn := Backend.fresh .asio {} }) = (s.lines 0).serving := by
  have hpoint : ((Run.runFrom (step (Mini.nghttp2 bothMethods) twoMethods fun _ _ => .completed)
      (start [.socket, .error] (fun _ => {}) fun _ => [.bytes [0x00], .eos]) oneTurn).map
        fun s => (s.lines 0).point) = some .reading := by decide +kernel
  obtain ⟨s, hs, hpoint⟩ := Option.map_eq_some_iff.1 hpoint
  exact ⟨s, hs, (strands_alone hs 0 (Or.inl hpoint)).2⟩

/-- Where nothing moves, and `listen` has not ended, there is nothing left to accept. -/
theorem accepts_nil (hrests : Run.Rests (System.step N b results) s) (hon : s.listening = true) :
    s.accepts = [] := by
  have haccept : s.accept = none := hrests .accept
  unfold State.accept at haccept
  rw [hon] at haccept
  cases hrest : s.accepts with
  | nil => rfl
  | cons a rest =>
    rw [hrest] at haccept
    cases a <;> cases haccept

/-- How many connections were accepted, where nothing moves. -/
theorem Inv.accepted (hs : Inv N b results accepts sessions inputs s)
    (hrests : Run.Rests (System.step N b results) s) :
    s.accepted = (accepts.takeWhile (· = .socket)).length := by
  have htake : ∀ rest : List Accept, rest.takeWhile (· = Accept.socket) = [] →
      ((List.replicate s.accepted Accept.socket ++ rest).takeWhile (· = Accept.socket)).length =
        s.accepted := by
    intro rest hrest
    rw [List.takeWhile_append_of_pos (by simp), hrest, List.append_nil, List.length_replicate]
  rw [hs.accepts]
  cases hon : s.listening with
  | false => exact (htake (.error :: s.accepts) rfl).symm
  | true =>
    rw [accepts_nil hrests hon]
    exact (htake [] rfl).symm

/-- Where nothing moves, `listen` has ended if an accept fails. -/
theorem Inv.listening (hs : Inv N b results accepts sessions inputs s)
    (hrests : Run.Rests (System.step N b results) s) : s.listening = false ↔ Accept.error ∈ accepts := by
  rw [hs.accepts]
  cases hon : s.listening with
  | false => exact iff_of_true rfl (List.mem_append_right _ List.mem_cons_self)
  | true =>
    rw [accepts_nil hrests hon]
    exact iff_of_false nofun (by simp)

theorem halts_reached {as : List Action}
    (hrun : Run.runFrom (step N b results) (start accepts sessions inputs) as = some s) :
    Run.Halts (step N b results) s := by
  refine Run.halts_of_measure (I := Inv N b results accepts sessions inputs)
    (μ := State.measure N accepts.length) ?_ ?_ (inv_reached hrun)
  · exact fun _ _ _ hs h => hs.step (step_moves h)
  · exact fun _ _ _ hs h => hs.measure (step_moves h)

/-- **The asio server comes to rest.** With finitely many connections and inputs no order of the
steps goes on for ever. Where nothing can move, the connections that came before an accept failed have been
accepted, no others, `listen` has ended if one did fail, and each connection is where a coroutine leaves it
that serves it alone: after its last input, or where it threw. -/
theorem listen_rests
    (hlive : ∀ h e w, serve N b (results h) (inputs h) { conn := Backend.fresh .asio (sessions h) } =
      .error e w → e.isThrown = true) {as : List Action}
    (hrun : Run.runFrom (step N b results) (start accepts sessions inputs) as = some s) :
    Run.Halts (step N b results) s ∧ (Run.Rests (step N b results) s →
      s.accepted = (accepts.takeWhile (· = .socket)).length ∧
      (s.listening = false ↔ Accept.error ∈ accepts) ∧ ∀ h, h < s.accepted →
        final (serve N b (results h) (inputs h) { conn := Backend.fresh .asio (sessions h) }) =
          (s.lines h).serving) := by
  have hs := inv_reached hrun
  refine ⟨halts_reached hrun, fun hrests => ⟨hs.accepted hrests, hs.listening hrests, fun h hh => ?_⟩⟩
  exact (hs.lines h).served (hs.rests hlive hrests hh)

/-- One client, who is served, and then an accept that fails. -/
theorem listen_rests_one : ∃ (as : List Action) (s : State Mini),
    Run.runFrom (step (Mini.nghttp2 bothMethods) twoMethods fun _ _ => .completed)
      (start [.socket, .error, .socket] (fun _ => {}) fun _ => [.bytes [0x00], .eos]) as = some s ∧
    s.accepted = 1 ∧ s.listening = false ∧ (s.lines 0).serving.conn.sock.handed ≠ [] := by
  have hserve : (returned (serve (Mini.nghttp2 bothMethods) twoMethods (fun _ => .completed)
      [.bytes [0x00], .eos] { conn := Backend.fresh .asio {} })).map
        (fun w => decide (w.conn.sock.handed = [])) = some false := by decide +kernel
  obtain ⟨w, hw, hhanded⟩ := Option.map_eq_some_iff.1 hserve
  have hok := returned_eq_some hw
  have hlive : ∀ (h : ℕ) e w, serve (Mini.nghttp2 bothMethods) twoMethods (fun _ => .completed)
      [.bytes [0x00], .eos] { conn := Backend.fresh .asio {} } = .error e w → e.isThrown = true := by
    intro h e w herror
    rw [hok] at herror
    cases herror
  have hstart : Run.runFrom (step (Mini.nghttp2 bothMethods) twoMethods fun _ _ => .completed)
      (start [.socket, .error, .socket] (fun _ => {}) fun _ => [.bytes [0x00], .eos]) [] = some _ := rfl
  obtain ⟨as, s, hs, hrests⟩ := (listen_rests hlive hstart).1.rests
  obtain ⟨haccepted, hlistening, hserved⟩ := (listen_rests hlive hs).2 hrests
  have hone : s.accepted = 1 := haccepted
  have hfinal := hserved 0 (by rw [hone]; exact Nat.zero_lt_one)
  rw [hok] at hfinal
  refine ⟨as, s, hs, hone, hlistening.2 (by simp), ?_⟩
  rw [← hfinal]
  exact of_decide_eq_false hhanded

end System

end Asio

/-- **The servers agree.** Where no call of nghttp2 and no write fails, both servers come to rest with
their connections in the same state: the sessions and the requests not yet complete are the same, and the
same bytes were sent, whatever the numbers of threads and the order of their steps. -/
theorem systems_agree {σ : Type} {n k : ℕ} {N : Nghttp2 σ} {b : ServerBase} {sessions : ℕ → σ}
    {inputs : ℕ → List Input} (hinputs : Uv.System.NoFaults N b sessions inputs)
    {s : Uv.System.State (σ × List LibraryCall) n} {as : List (Uv.System.Action n)}
    (hrun : Run.runFrom (Uv.System.step N.logged b fun _ _ => .completed)
      (Uv.System.start (fun h => (sessions h, [])) inputs) as = some s)
    (hrests : Run.Rests (Uv.System.step N.logged b fun _ _ => .completed) s)
    {t : Asio.System.State (σ × List LibraryCall)} {bs : List Asio.System.Action}
    (hrun' : Run.runFrom (Asio.System.step N.logged b fun _ _ => .completed)
      (Asio.System.start (List.replicate k .socket) (fun h => (sessions h, []))
        fun h => (inputs h).filter Input.present) bs = some t)
    (hrests' : Run.Rests (Asio.System.step N.logged b fun _ _ => .completed) t) {h : ℕ} (hh : h < k) :
    (s.lines h).serving.conn.session = (t.lines h).serving.conn.session ∧
      (s.lines h).serving.conn.streams = (t.lines h).serving.conn.streams ∧
      (s.lines h).serving.conn.sock.handed = (t.lines h).serving.conn.sock.handed := by
  have hagrees : ∀ h, ∃ w, Uv.serve N.logged b (fun _ => .completed) (inputs h)
      { conn := Backend.fresh .uv (sessions h, []) } = .ok () w ∧
      Agrees N b (sessions h) (inputs h) w.conn := by
    intro h
    obtain ⟨batches, st, hall⟩ := hinputs h
    exact agrees_of_faultless hall
  have huv := Uv.System.served_at_rest (fun h => (hagrees h).imp fun w hw => hw.1) hrun hrests h
  have hasio : ∀ h, ∃ w, Asio.serve N.logged b (fun _ => .completed) ((inputs h).filter Input.present)
      { conn := Backend.fresh .asio (sessions h, []) } = .ok () w := by
    intro h
    obtain ⟨-, -, w, -, hw, -⟩ := hagrees h
    exact ⟨w, hw⟩
  have hs := Asio.System.inv_reached hrun'
  have haccepted : h < t.accepted := by
    rw [hs.accepted hrests']
    simpa using hh
  have hserved := (hs.lines h).served (hs.rests (fun h e w herror => ?_) hrests' haccepted)
  · obtain ⟨w, hw, w', -, hw', hsession, hstreams, hhanded, -⟩ := hagrees h
    rw [huv] at hw
    rw [hw'] at hserved
    cases hw
    have hfinal : w' = (t.lines h).serving := hserved
    rw [← hfinal]
    exact ⟨hsession, hstreams, hhanded⟩
  · obtain ⟨w', hw'⟩ := hasio h
    rw [hw'] at herror
    cases herror

/-- Two connections, one worker in the uv server. -/
theorem systems_agree_two : ∃ (s : Uv.System.State (Mini × List LibraryCall) 1)
    (t : Asio.System.State (Mini × List LibraryCall)),
    Run.Rests (Uv.System.step (Mini.nghttp2 bothMethods).logged twoMethods fun _ _ => .completed) s ∧
    Run.Rests (Asio.System.step (Mini.nghttp2 bothMethods).logged twoMethods fun _ _ => .completed) t ∧
    (s.lines 1).serving.conn.sock.handed = (t.lines 1).serving.conn.sock.handed := by
  have hinputs : ∀ h, 2 ≤ h → Uv.System.twoClients h = [] := by
    intro h hh
    match h, hh with
    | h + 2, _ => rfl
  obtain ⟨as, s, hs, hrests⟩ := (@Uv.System.halts_start _ 1 (Mini.nghttp2 bothMethods).logged twoMethods
    (fun _ _ => .completed) (fun _ => ({}, [])) _ _ hinputs).rests
  obtain ⟨bs, t, ht, hrests'⟩ := (@Asio.System.halts_reached _ (Mini.nghttp2 bothMethods).logged twoMethods
    (List.replicate 2 .socket) (fun _ => ({}, [])) (fun h => (Uv.System.twoClients h).filter Input.present) _
    (fun _ _ => .completed) [] rfl).rests
  exact ⟨s, t, hrests, hrests',
    (systems_agree Uv.System.noFaults_twoClients hs hrests ht hrests' Nat.one_lt_two).2.2⟩

end Grpcxx
