import Grpcxx.Model.System
import Grpcxx.Proof.Order

/-!
# Turns of a connection's loop

The system takes a turn of `server::conn` in many steps, `Uv.turn` at once. At each point of
a turn, what is left of it (`rest`) comes to the same, whatever part of it is done next.

* `Job.rest_work`: one part of a function.
* `rest_take`, `rest_work`, `rest_flush`, `rest_written`: the steps of a turn.
* `Line.Ok`: what holds of a connection between steps.
-/

namespace Grpcxx.Uv

variable {σ : Type} {n : ℕ} {N : Nghttp2 σ} {b : ServerBase} {results : ℕ → WriteResult}

/-- A run on inputs that leave the connection open goes on with the next ones. -/
theorem serve_append {ins : List Input} (h : ∀ i ∈ ins, ∃ bytes, i = .bytes bytes) (ins' : List Input) :
    serve N b results (ins ++ ins') = serve N b results ins >>= fun _ => serve N b results ins' := by
  induction ins with
  | nil => rfl
  | cons i ins ih =>
    obtain ⟨bytes, rfl⟩ := h i List.mem_cons_self
    have hrest := ih fun j hj => h j (List.mem_cons_of_mem _ hj)
    cases bytes with
    | nil => exact hrest
    | cons x bytes =>
      rw [List.cons_append, serve, hrest, serve, bind_assoc]

namespace System

open Scheduler (Coroutine Task)

/-- What is left of a function. -/
def Job.rest (N : Nghttp2 σ) (b : ServerBase) : Job → Call (Serving (Conn σ)) Unit
  | read bytes => Uv.job N b bytes
  | answer reqs => Uv.answer N b reqs
  | write resp reqs => do
    Serving.onConn (Conn.write N resp)
    Uv.answer N b reqs

/-- **One part of a function**, and then the rest. -/
theorem Job.rest_work (job : Job) : job.rest N b = job.work N b >>= fun job' => job'.rest N b := by
  cases job with
  | read bytes => simp only [rest, work, Uv.job, bind_assoc, pure_bind]
  | answer reqs =>
    cases reqs with
    | nil => simp only [rest, work, pure_bind]
    | cons req reqs => simp only [rest, work, Uv.answer, bind_assoc, pure_bind]
  | write resp reqs => simp only [rest, work, bind_assoc, pure_bind]

/-- What is left of a turn. -/
def rest (N : Nghttp2 σ) (b : ServerBase) (results : ℕ → WriteResult) (l : Line σ) (job : Job) :
    EStateM.Result Fault (Serving (Conn σ)) Unit :=
  match l.point with
  | .reading | .viewing [] | .ended => .ok () l.serving
  | .viewing (x :: bytes) => turn N b results (x :: bytes) l.serving
  | .working => (task (job.rest N b) >>= fun _ => task (Serving.writing (Conn.flush results))) l.serving
  | .flushing => task (Serving.writing (Conn.flush results)) l.serving
  | .writing r => .ok () (l.written r).serving

variable {l : Line σ} {job : Job}

/-- A read begins a turn. -/
theorem rest_take (i : Input) (inputs : List Input) :
    rest N b results (l.take i inputs) job = serve N b results [i] l.serving := by
  match i with
  | .eos | .error | .bytes [] => rfl
  | .bytes (x :: bytes) =>
    show turn N b results (x :: bytes) l.serving = (turn N b results (x :: bytes) >>= pure) l.serving
    rw [bind_pure]

/-- A function does one part of what is left of it. -/
theorem rest_work (hl : l.point = .working) {job' : Job} {w : Serving (Conn σ)}
    (h : job.work N b l.serving = .ok job' w) :
    rest N b results { l with serving := w } job' = rest N b results l job := by
  have hrest : job.rest N b l.serving = job'.rest N b w := by
    rw [Job.rest_work, bind_ok h]
  have htask : task (job.rest N b) l.serving = task (job'.rest N b) w := by
    unfold task
    rw [hrest]
  unfold rest
  simp only [hl]
  cases hr : task (job'.rest N b) w with
  | ok a w' => rw [bind_ok hr, bind_ok (htask.trans hr)]
  | error e w' => rw [bind_error hr, bind_error (htask.trans hr)]

/-- What a function throws ends it. -/
theorem rest_throw (hl : l.point = .working) {e : Fault} {w : Serving (Conn σ)}
    (h : job.work N b l.serving = .error e w) (he : e.isThrown = true) :
    rest N b results { l with serving := w } (.answer []) = rest N b results l job := by
  have htask : task (job.rest N b) l.serving = .ok () w := by
    unfold task
    rw [Job.rest_work, bind_error h]
    exact if_pos he
  have hnone : task (Job.rest N b (.answer [])) w = .ok () w := rfl
  unfold rest
  simp only [hl]
  rw [bind_ok hnone, bind_ok htask]

/-- What ends the process ends the turn. -/
theorem rest_terminate (hl : l.point = .working) {e : Fault} {w : Serving (Conn σ)}
    (h : job.work N b l.serving = .error e w) (he : e.isThrown ≠ true) :
    rest N b results l job = .error e w := by
  have htask : task (job.rest N b) l.serving = .error e w := by
    unfold task
    rw [Job.rest_work, bind_error h]
    exact if_neg he
  unfold rest
  simp only [hl]
  rw [bind_error htask]

/-- A function with nothing left to do leaves the flush. -/
theorem rest_returned (hl : l.point = .working) (job' : Job) :
    rest N b results { l with point := .flushing } job' = rest N b results l (.answer []) := by
  have hnone : task (Job.rest N b (.answer [])) l.serving = .ok () l.serving := rfl
  unfold rest
  simp only [hl]
  rw [bind_ok hnone]

/-- What `flush` does that does not end the process. -/
inductive Line.Flushes (results : ℕ → WriteResult) (l : Line σ) : Line σ → Prop
  | nothing (hempty : l.serving.conn.buffer = []) : Flushes results l { l with point := .reading }
  | begins {r : WriteResult} (hne : l.serving.conn.buffer ≠ []) (hr : results l.serving.conn.sock.writes = r)
      (hstarted : ∀ why, r ≠ .refused why) :
      Flushes results l
        { l with
          point := .writing r
          serving :=
            { l.serving with
              conn :=
                { l.serving.conn with
                  sock :=
                    { handed := l.serving.conn.sock.handed ++ l.serving.conn.buffer
                      writes := l.serving.conn.sock.writes + 1 } } } }

theorem Line.flush_inv {l' : Line σ} (h : l.flush results = some l') : Line.Flushes results l l' := by
  unfold Line.flush at h
  by_cases hempty : l.serving.conn.buffer.isEmpty = true
  · rw [if_pos hempty] at h
    cases h
    exact .nothing (List.isEmpty_iff.1 hempty)
  · rw [if_neg hempty] at h
    have hne : l.serving.conn.buffer ≠ [] := fun hnil => hempty (List.isEmpty_iff.2 hnil)
    cases hr : results l.serving.conn.sock.writes with
    | refused why =>
      rw [hr] at h
      cases h
    | completed | failed why =>
      rw [hr] at h
      cases h
      exact .begins hne hr nofun

/-- `flush` comes to its end at once, or it has suspended and its end is that of the write. -/
theorem Line.flush_cases {l' : Line σ} (h : l.flush results = some l') :
    l'.inputs = l.inputs ∧ l'.taken = l.taken ∧
      (l'.point = .reading ∧ task (Serving.writing (Conn.flush results)) l.serving = .ok () l'.serving ∨
        ∃ r, l'.point = .writing r ∧
          task (Serving.writing (Conn.flush results)) l.serving = .ok () (l'.written r).serving) := by
  unfold task Serving.writing
  cases Line.flush_inv h with
  | nothing hempty =>
    rw [Conn.flush_empty (List.isEmpty_iff.2 hempty)]
    exact ⟨rfl, rfl, Or.inl ⟨rfl, rfl⟩⟩
  | @begins r hne hr hstarted =>
    refine ⟨rfl, rfl, Or.inr ⟨r, rfl, ?_⟩⟩
    rw [Conn.flush_eq (List.isEmpty_eq_false_iff.2 hne), hr]
    cases r with
    | refused why => exact absurd rfl (hstarted why)
    | completed | failed why => rfl

/-- Where libuv refuses the write, a connection served alone ends the process too. -/
theorem Line.flush_none (h : l.flush results = none) :
    ∃ e w, task (Serving.writing (Conn.flush results)) l.serving = .error e w := by
  unfold task Serving.writing
  cases hempty : l.serving.conn.buffer.isEmpty with
  | true =>
    have hflush : l.flush results = some { l with point := .reading } := if_pos hempty
    rw [hflush] at h
    cases h
  | false =>
    have hne : ¬ l.serving.conn.buffer.isEmpty = true := by simp [hempty]
    unfold Line.flush at h
    rw [if_neg hne] at h
    rw [Conn.flush_eq hempty]
    cases hr : results l.serving.conn.sock.writes with
    | refused why => exact ⟨_, _, rfl⟩
    | completed | failed why =>
      rw [hr] at h
      cases h

theorem rest_flushing (hl : l.point = .flushing) :
    rest N b results l job = task (Serving.writing (Conn.flush results)) l.serving := by
  unfold rest
  rw [hl]

/-- `flush`, up to where it suspends. -/
theorem rest_flush {l' : Line σ} (hl : l.point = .flushing) (h : l.flush results = some l') (job' : Job) :
    rest N b results l' job' = rest N b results l job := by
  have hrest : rest N b results l job = _ := rest_flushing hl
  obtain ⟨-, -, ⟨hpoint, htask⟩ | ⟨r, hpoint, htask⟩⟩ := Line.flush_cases h
  · rw [hrest, htask]
    unfold rest
    rw [hpoint]
  · rw [hrest, htask]
    unfold rest
    rw [hpoint]

/-- The end of a write. -/
theorem rest_written {r : WriteResult} (hl : l.point = .writing r) (job' : Job) :
    rest N b results (l.written r) job' = rest N b results l job := by
  have hrest : rest N b results l job = .ok () (l.written r).serving := by
    unfold rest
    rw [hl]
  have hpoint : (l.written r).point = .reading := by
    cases r <;> rfl
  rw [hrest]
  unfold rest
  rw [hpoint]

/-! ## Between steps -/

/-- Where the coroutine is, and whether it runs on the I/O thread. -/
def Point.Seat (runs : Prop) : Point → Prop
  | viewing _ | flushing => runs
  | working | writing _ => ¬ runs
  | reading | ended => True

/-- **What holds of a connection between steps**; `fn` is what is left of the function that its
coroutine awaits. Its inputs are taken in order, and the rest of its turn leads to where the
inputs so far lead a connection that is served alone, from `w₀`. -/
structure Line.Ok (N : Nghttp2 σ) (b : ServerBase) (results : ℕ → WriteResult) (w₀ : Serving (Conn σ))
    (ins : List Input) (l : Line σ) (fn : Option Job) (runs : Prop) : Prop where
  order : l.taken ++ l.inputs = ins
  opened : l.point ≠ .ended → ∀ i ∈ l.taken, ∃ bytes, i = .bytes bytes
  working : l.point = .working ↔ fn.isSome = true
  seat : l.point.Seat runs
  turn : rest N b results l (fn.getD (.answer [])) = serve N b results l.taken w₀

namespace Line.Ok

variable {w₀ : Serving (Conn σ)} {ins : List Input} {fn : Option Job} {runs : Prop}

theorem congr (h : Line.Ok N b results w₀ ins l fn runs) {runs' : Prop} (hruns : runs ↔ runs') :
    Line.Ok N b results w₀ ins l fn runs' := by
  rw [← propext hruns]
  exact h

/-- Between turns, the connection is where its inputs lead it. -/
theorem at_rest (h : Line.Ok N b results w₀ ins l fn runs) (hl : l.point = .reading ∨ l.point = .ended) :
    serve N b results l.taken w₀ = .ok () l.serving := by
  rw [← h.turn]
  unfold rest
  rcases hl with hl | hl
  · rw [hl]
  · rw [hl]

theorem take (h : Line.Ok N b results w₀ ins l none runs) (hl : l.point = .reading) {i : Input}
    {inputs : List Input} (hinputs : l.inputs = i :: inputs) :
    Line.Ok N b results w₀ ins (l.take i inputs) none True := by
  have hopened : ∀ j ∈ l.taken, ∃ bytes, j = .bytes bytes := h.opened (by rw [hl]; nofun)
  have hserved := h.at_rest (Or.inl hl)
  refine ⟨?_, fun hpoint j hj => ?_, ?_, ?_, ?_⟩
  · show (l.taken ++ [i]) ++ inputs = ins
    rw [← h.order, hinputs, List.append_assoc, List.singleton_append]
  · rcases List.mem_append.1 hj with hj | hj
    · exact hopened j hj
    · rw [List.mem_singleton.1 hj]
      cases i with
      | bytes bytes => exact ⟨bytes, rfl⟩
      | eos | error => exact absurd rfl hpoint
  · cases i <;> exact iff_of_false nofun nofun
  · cases i <;> trivial
  · show rest N b results (l.take i inputs) _ = serve N b results (l.taken ++ [i]) w₀
    rw [rest_take, serve_append hopened, bind_ok hserved]

theorem skip (h : Line.Ok N b results w₀ ins l none runs) (hl : l.point = .viewing []) :
    Line.Ok N b results w₀ ins { l with point := .reading } none runs := by
  refine ⟨h.order, fun _ => h.opened (by rw [hl]; nofun), iff_of_false nofun nofun, trivial, ?_⟩
  rw [← h.turn]
  unfold rest
  rw [hl]

theorem suspend (h : Line.Ok N b results w₀ ins l none runs)
    (hl : l.point = .reading ∨ l.point = .ended) (runs' : Prop) :
    Line.Ok N b results w₀ ins l none runs' := by
  refine ⟨h.order, h.opened, h.working, ?_, h.turn⟩
  rcases hl with hl | hl
  · rw [hl]
    trivial
  · rw [hl]
    trivial

theorem run (h : Line.Ok N b results w₀ ins l none runs) {x : UInt8} {bytes : Bytes}
    (hl : l.point = .viewing (x :: bytes)) :
    Line.Ok N b results w₀ ins { l with point := .working } (some (.read (x :: bytes))) False := by
  refine ⟨h.order, fun _ => h.opened (by rw [hl]; nofun), iff_of_true rfl rfl, not_false, ?_⟩
  rw [← h.turn]
  unfold rest
  rw [hl]
  rfl

theorem point_working {job : Job} (h : Line.Ok N b results w₀ ins l (some job) runs) : l.point = .working :=
  h.working.2 rfl

theorem work {job job' : Job} (h : Line.Ok N b results w₀ ins l (some job) runs) {w : Serving (Conn σ)}
    (hwork : job.work N b l.serving = .ok job' w) :
    Line.Ok N b results w₀ ins { l with serving := w } (some job') runs := by
  refine ⟨h.order, h.opened, iff_of_true h.point_working rfl, h.seat, ?_⟩
  rw [← h.turn]
  exact rest_work h.point_working hwork

theorem throw {job : Job} (h : Line.Ok N b results w₀ ins l (some job) runs) {w : Serving (Conn σ)} {e : Fault}
    (hwork : job.work N b l.serving = .error e w) (he : e.isThrown = true) :
    Line.Ok N b results w₀ ins { l with serving := w } (some (.answer [])) runs := by
  refine ⟨h.order, h.opened, iff_of_true h.point_working rfl, h.seat, ?_⟩
  rw [← h.turn]
  exact rest_throw h.point_working hwork he

theorem destroy (h : Line.Ok N b results w₀ ins l (some (.answer [])) runs) :
    Line.Ok N b results w₀ ins { l with point := .flushing } none True := by
  refine ⟨h.order, fun _ => h.opened ?_, iff_of_false nofun nofun, trivial, ?_⟩
  · rw [h.point_working]
    nofun
  · rw [← h.turn]
    exact rest_returned h.point_working _

theorem flush (h : Line.Ok N b results w₀ ins l none runs) (hl : l.point = .flushing) {l' : Line σ}
    (hflush : l.flush results = some l') :
    Line.Ok N b results w₀ ins l' none (l'.point = .reading) := by
  have hopened : ∀ j ∈ l.taken, ∃ bytes, j = .bytes bytes := h.opened (by rw [hl]; nofun)
  obtain ⟨hinputs, htaken, hcases⟩ := Line.flush_cases hflush
  refine ⟨?_, fun _ => ?_, ?_, ?_, ?_⟩
  · rw [hinputs, htaken]
    exact h.order
  · rw [htaken]
    exact hopened
  · rcases hcases with ⟨hpoint, -⟩ | ⟨r, hpoint, -⟩
    · rw [hpoint]
      exact iff_of_false nofun nofun
    · rw [hpoint]
      exact iff_of_false nofun nofun
  · rcases hcases with ⟨hpoint, -⟩ | ⟨r, hpoint, -⟩
    · rw [hpoint]
      trivial
    · rw [hpoint]
      exact fun hreading => by cases hreading
  · rw [rest_flush hl hflush, htaken]
    exact h.turn

theorem written (h : Line.Ok N b results w₀ ins l none runs) {r : WriteResult} (hl : l.point = .writing r) :
    Line.Ok N b results w₀ ins (l.written r) none True := by
  have hopened : ∀ j ∈ l.taken, ∃ bytes, j = .bytes bytes := h.opened (by rw [hl]; nofun)
  have hsame : (l.written r).point = .reading ∧ (l.written r).inputs = l.inputs ∧
      (l.written r).taken = l.taken := by
    cases r <;> exact ⟨rfl, rfl, rfl⟩
  obtain ⟨hpoint, hinputs, htaken⟩ := hsame
  refine ⟨?_, fun _ => ?_, ?_, ?_, ?_⟩
  · rw [hinputs, htaken]
    exact h.order
  · rw [htaken]
    exact hopened
  · rw [hpoint]
    exact iff_of_false nofun nofun
  · rw [hpoint]
    trivial
  · rw [rest_written hl, htaken]
    exact h.turn

end Line.Ok

end System

end Grpcxx.Uv
