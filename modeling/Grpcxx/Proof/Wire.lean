import Grpcxx.Model.Wire
import Grpcxx.Proof.Reading
import Grpcxx.Proof.Turns

/-!
# The session gets what the socket received

The reader and the loop around it together. Whatever libuv reports when, and however long a function or a
flush takes, a connection between two turns is where `Uv.serve` leads on the views that the reader
has returned, and its session was given the bytes that the socket received: each once, and in order.

* `turn_taken`: a turn gives the session the bytes of its view.
* `Here.step`: what holds where the coroutine is.
* `wire_exact`: all runs.
-/

namespace Grpcxx.Uv

open Serving Reader

variable {σ : Type} {N : Nghttp2 σ} {b : ServerBase} {results : ℕ → WriteResult}

/-- The bytes that a session was given. -/
def taken (acts : List Act) : Bytes :=
  acts.flatMap fun
    | .recv bytes => bytes
    | _ => []

theorem taken_append (acts acts' : List Act) : taken (acts ++ acts') = taken acts ++ taken acts' :=
  List.flatMap_append

/-! ## A turn -/

theorem taken_handles (is : List Invocation) : taken (is.map .handle) = [] := by
  induction is with
  | nil => rfl
  | cons i is ih => exact ih

/-- Calling a handler gives it nothing. -/
theorem process_taken {B : Bytes} (req : Request) :
    Keeps (fun w : Serving (Conn σ) => taken w.acts = B) (process b req) := by
  intro w hw
  have hkept : taken (w.acts ++ (b.process req).1.map .handle) = B := by
    rw [taken_append, taken_handles, List.append_nil, hw]
  cases hp : (b.process req).2 with
  | ok resp =>
    rw [process_ok hp]
    exact hkept
  | error e =>
    rw [process_error hp]
    exact hkept

/-- Neither does what is only done on the connection. -/
theorem onConn_taken {α : Type} {B : Bytes} (f : Call (Conn σ) α) :
    Keeps (fun w : Serving (Conn σ) => taken w.acts = B) (onConn f) := by
  intro w hw
  refine (onConn_outcome (P := fun _ => True) (E := fun _ => True) ?_).mono
    (fun _ w' h => ?_) fun w' h => ?_
  · cases f w.conn <;> trivial
  · rw [h.1]
    exact hw
  · rw [h.1]
    exact hw

theorem answer_taken {B : Bytes} (reqs : List Request) :
    Keeps (fun w : Serving (Conn σ) => taken w.acts = B) (answer N b reqs) := by
  induction reqs with
  | nil => exact Keeps.pure _
  | cons req reqs ih => exact Keeps.bind (process_taken req) fun resp => Keeps.bind (onConn_taken _) fun _ => ih

theorem job_taken (bytes : Bytes) (w : Serving (Conn σ)) :
    Outcome (fun _ w' => taken w'.acts = taken w.acts ++ bytes)
      (fun w' => taken w'.acts = taken w.acts ++ bytes) (job N b bytes w) := by
  have hacts : taken (w.acts ++ readActs N bytes w.conn.session) = taken w.acts ++ bytes := by
    rw [taken_append]
    congr 1
    rcases readActs_eq (N := N) bytes w.conn.session with ⟨evs, t, -, h⟩ | ⟨why, t, evs, -, h⟩
    · rw [h]
      exact List.append_nil _
    · rw [h]
      exact List.append_nil _
  unfold job
  rw [get_bind, act_bind]
  exact Keeps.bind (onConn_taken _) (fun reqs => answer_taken reqs) _ hacts

/-- **A turn gives the session the bytes of its view**, however it goes. -/
theorem turn_taken {bytes : Bytes} {w w' : Serving (Conn σ)} (h : turn N b results bytes w = .ok () w') :
    taken w'.acts = taken w.acts ++ bytes := by
  have hturn : Outcome (fun _ w' => taken w'.acts = taken w.acts ++ bytes)
      (fun w' => taken w'.acts = taken w.acts ++ bytes) (turn N b results bytes w) := by
    unfold turn
    refine outcome_bind (task_outcome (job_taken bytes w)) fun _ w₁ hw₁ => task_outcome ?_
    refine (writing_outcome (P := fun _ => True) (E := fun _ => True) ?_).mono
      (fun _ w₂ h => ?_) fun w₂ h => ?_
    · cases Conn.flush results w₁.conn <;> trivial
    · rw [h.1]
      exact hw₁
    · rw [h.1, taken_append, hw₁]
      exact List.append_nil _
  rw [h] at hturn
  exact hturn

/-! ## Where the coroutine is -/

/-- What `Uv.serve` leads to on these views. -/
def Leads (N : Nghttp2 σ) (b : ServerBase) (results : ℕ → WriteResult) (w₀ : Serving (Conn σ))
    (vs : List Bytes) (w : Serving (Conn σ)) : Prop :=
  serve N b results (vs.map .bytes) w₀ = .ok () w

variable {w₀ w w' : Serving (Conn σ)} {vs : List Bytes} {v : Bytes}

theorem Leads.snoc (h : Leads N b results w₀ vs w) :
    Leads N b results w₀ (vs ++ [v]) w' ↔ serve N b results [.bytes v] w = .ok () w' := by
  have hbytes : ∀ i ∈ vs.map Input.bytes, ∃ bytes, i = .bytes bytes := by
    intro i hi
    obtain ⟨bytes, -, rfl⟩ := List.mem_map.1 hi
    exact ⟨bytes, rfl⟩
  unfold Leads at h ⊢
  rw [List.map_append, serve_append hbytes, bind_ok h]
  rfl

/-- A view without bytes is passed over. -/
theorem Leads.skip (h : Leads N b results w₀ vs w) : Leads N b results w₀ (vs ++ [[]]) w :=
  h.snoc.2 rfl

theorem Leads.turn (h : Leads N b results w₀ vs w) (hv : v ≠ [])
    (hturn : turn N b results v w = .ok () w') : Leads N b results w₀ (vs ++ [v]) w' := by
  refine h.snoc.2 ?_
  cases v with
  | nil => exact absurd rfl hv
  | cons x v => exact bind_ok hturn

/-- What the session was given. -/
theorem Leads.taken (h : Leads N b results w₀ vs w) : Uv.taken w.acts = Uv.taken w₀.acts ++ vs.flatten := by
  induction vs generalizing w₀ with
  | nil =>
    cases h
    exact (List.append_nil _).symm
  | cons v vs ih =>
    cases v with
    | nil => exact ih h
    | cons x v =>
      obtain ⟨_, w₁, hturn, hrest⟩ := bind_eq_ok_iff.1 h
      rw [ih hrest, turn_taken hturn, List.flatten_cons, List.append_assoc]

/-- What holds of the connection where the coroutine is, of the views it has had. -/
def Here (N : Nghttp2 σ) (b : ServerBase) (results : ℕ → WriteResult) (w₀ : Serving (Conn σ)) (r : Reader)
    (all : List Bytes) (w : Serving (Conn σ)) : Point → Prop
  | .viewing size => ∃ vs, all = vs ++ [r.view size] ∧ Leads N b results w₀ vs w
  | .working size => size ≠ 0 ∧ ∃ vs, all = vs ++ [r.view size] ∧ Leads N b results w₀ vs w
  | .flushing => ∃ vs v w', all = vs ++ [v] ∧ v ≠ [] ∧ Leads N b results w₀ vs w' ∧
      task (job N b v) w' = .ok () w
  | .testing | .awaiting | .suspending | .suspended | .resuming | .unwinding | .ended =>
    Leads N b results w₀ all w

namespace Wire

variable {s s' : Wire σ}

theorem does_eq_some {f : Call (Serving (Conn σ)) Unit} (h : s.does f = some s') :
    s'.reader = s.reader ∧ f s.serving = .ok () s'.serving := by
  unfold does at h
  split at h
  · rename_i serving hf
    cases h
    exact ⟨rfl, hf⟩
  · cases h

/-- What a step does with the connection: nothing, but for the function and the flush. -/
theorem step_cases {a : Action} (h : step N b results s a = some s') :
    Reader.step s.reader a = some s'.reader ∧
      ((∃ size, a = .parse ∧ s.reader.point = .working size ∧
          task (job N b (s.reader.reader.view size)) s.serving = .ok () s'.serving) ∨
        (a = .finish ∧ task (writing (Conn.flush results)) s.serving = .ok () s'.serving) ∨
        (a ≠ .parse ∧ a ≠ .finish ∧ s'.serving = s.serving)) := by
  obtain ⟨reader, hreader, h⟩ := Option.bind_eq_some_iff.1 h
  cases a with
  | parse =>
    cases Reader.step_inv hreader with
    | parse size hp =>
      rw [hp] at h
      obtain ⟨hsame, hf⟩ := does_eq_some h
      rw [hsame]
      exact ⟨hreader, Or.inl ⟨size, rfl, hp, hf⟩⟩
  | finish =>
    obtain ⟨hsame, hf⟩ := does_eq_some h
    rw [hsame]
    exact ⟨hreader, Or.inr (Or.inl ⟨rfl, hf⟩)⟩
  | _ =>
    cases h
    exact ⟨hreader, Or.inr (Or.inr ⟨by simp, by simp, rfl⟩)⟩

/-- **The invariant.** -/
structure Holds (N : Nghttp2 σ) (b : ServerBase) (results : ℕ → WriteResult) (w₀ : Serving (Conn σ))
    (s : Wire σ) : Prop where
  reads : Reads s.reader
  here : Here N b results w₀ s.reader.reader (views s.reader.log) s.serving s.reader.point

/-- A view that is not empty shows something. -/
theorem Holds.view_ne_nil (hs : Holds N b results w₀ s) {size : ℕ} (hsize : size ≠ 0) :
    s.reader.reader.view size ≠ [] := by
  intro hnil
  have hlength := congrArg List.length hnil
  rw [view, List.length_take, hs.reads.length] at hlength
  simp only [capacity, List.length_nil] at hlength
  omega

/-- `await_resume` adds the view that it returns. -/
theorem here_resume {r : Reader.State} {w : Serving (Conn σ)} (h : Leads N b results w₀ (views r.log) w) :
    Here N b results w₀ r.await_resume.reader (views r.await_resume.log) w r.await_resume.point := by
  unfold Reader.State.await_resume
  dsimp only
  split
  · -- it throws
    rw [views_snoc]
    exact (List.append_nil _).symm ▸ h
  · split
    · exact ⟨_, views_snoc _ _, h⟩
    · exact ⟨_, views_snoc _ _, h⟩

/-- A callback adds no view. -/
theorem views_read_cb (r : Reader.State) (a : Reader.Arrival) : views (r.read_cb a).log = views r.log := by
  cases a with
  | read n =>
    rw [Reader.State.read_cb, log_resume, views_snoc]
    exact List.append_nil _
  | eof =>
    rw [Reader.State.read_cb, log_resume, views_snoc]
    exact List.append_nil _
  | error why =>
    rw [Reader.State.read_cb, log_resume, views_snoc]
    exact List.append_nil _

theorem point_resume (r : Reader.State) : r.resume.point = .resuming ∨ r.resume.point = r.point := by
  unfold Reader.State.resume
  split
  · exact Or.inl rfl
  · exact Or.inr rfl

theorem point_read_cb (r : Reader.State) (a : Reader.Arrival) :
    (r.read_cb a).point = .resuming ∨ (r.read_cb a).point = r.point := by
  cases a <;> exact point_resume _

theorem Holds.step (hs : Holds N b results w₀ s) {a : Action} (h : Wire.step N b results s a = some s') :
    Holds N b results w₀ s' := by
  obtain ⟨hreader, hcases⟩ := step_cases h
  refine ⟨hs.reads.step hreader, ?_⟩
  have hhere := hs.here
  generalize s'.reader = r' at hreader
  generalize s'.serving = w' at hcases
  -- all but two steps leave the connection alone
  have hsame : a ≠ .parse → a ≠ .finish → w' = s.serving := by
    intro hparse hfinish
    rcases hcases with ⟨_, ha, -⟩ | ⟨ha, -⟩ | ⟨-, -, hw⟩
    · exact absurd ha hparse
    · exact absurd ha hfinish
    · exact hw
  cases Reader.step_inv hreader with
  | arrive bytes =>
    rw [hsame (by simp) (by simp)]
    exact hhere
  | callback a hreading hidle hfits =>
    rw [hsame (by simp) (by simp), views_read_cb]
    rw [hs.reads.suspended hreading hidle] at hhere
    rcases point_read_cb s.reader a with hp | hp
    · rw [hp]
      exact hhere
    · rw [hp, hs.reads.suspended hreading hidle]
      exact hhere
  | test hp =>
    rw [hsame (by simp) (by simp)]
    rw [hp] at hhere
    show Here N b results w₀ s.reader.reader (views s.reader.log) s.serving (if _ then _ else _)
    split
    · exact hhere
    · exact hhere
  | ready r hp =>
    rw [hsame (by simp) (by simp)]
    rw [hp] at hhere
    cases r with
    | none =>
      show Leads N b results w₀ (views (s.reader.log ++ [.ready])) s.serving
      rw [views_snoc]
      exact (List.append_nil _).symm ▸ hhere
    | some why =>
      show Leads N b results w₀ (views (s.reader.log ++ [.ready, .reported])) s.serving
      have hviews : views (s.reader.log ++ [.ready, .reported]) = views s.reader.log :=
        List.filterMap_append.trans (List.append_nil _)
      rw [hviews]
      exact hhere
  | suspend hp =>
    rw [hsame (by simp) (by simp)]
    rw [hp] at hhere
    exact hhere
  | resume hp =>
    rw [hsame (by simp) (by simp)]
    rw [hp] at hhere
    exact here_resume hhere
  | check size hp =>
    rw [hsame (by simp) (by simp)]
    rw [hp] at hhere
    show Here N b results w₀ s.reader.reader (views s.reader.log) s.serving (if _ then _ else _)
    obtain ⟨vs, hvs, hleads⟩ := hhere
    split
    · rename_i hsize
      rw [hvs, hsize]
      exact hleads.skip
    · rename_i hsize
      exact ⟨hsize, vs, hvs, hleads⟩
  | parse size hp =>
    rw [hp] at hhere
    obtain ⟨hsize, vs, hvs, hleads⟩ := hhere
    rcases hcases with ⟨size', -, hp', hjob⟩ | ⟨ha, -⟩ | ⟨ha, -⟩
    · rw [hp] at hp'
      cases hp'
      refine ⟨vs, _, s.serving, ?_, hs.view_ne_nil hsize, hleads, hjob⟩
      rw [views_snoc, hvs]
      exact List.append_nil _
    · cases ha
    · exact absurd rfl ha
  | finish hp =>
    rw [hp] at hhere
    obtain ⟨vs, v, w₁, hvs, hv, hleads, hjob⟩ := hhere
    rcases hcases with ⟨_, ha, -⟩ | ⟨-, hflush⟩ | ⟨-, ha, -⟩
    · cases ha
    · show Leads N b results w₀ (views s.reader.log) w'
      rw [hvs]
      exact hleads.turn hv ((bind_ok hjob).trans hflush)
    · exact absurd rfl ha
  | destroy hp =>
    rw [hsame (by simp) (by simp)]
    rw [hp] at hhere
    exact hhere

end Wire

/-- The coroutine is between two turns of its loop, or past it. -/
def Reader.Point.between : Point → Bool
  | .testing | .awaiting | .suspending | .suspended | .unwinding | .ended => true
  | .resuming | .viewing _ | .working _ | .flushing => false

/-- **The session gets what the socket received.** In every run, whatever arrives when, however it is cut
and however long the coroutine is busy: between two turns the views so far and what the socket still holds
are what arrived; the connection is where its loop leads on these views; and the session was
given their bytes. -/
theorem wire_exact {session : σ} {as : List Action} {s : Wire σ}
    (h : Run.runFrom (Wire.step N b results) (Wire.start session) as = some s)
    (hbetween : s.reader.point.between = true) :
    (views s.reader.log).flatten ++ s.reader.socket = as.flatMap Action.arrives ∧
      serve N b results ((views s.reader.log).map .bytes) { conn := Backend.fresh .uv session } =
        .ok () s.serving ∧
      taken s.serving.acts ++ s.reader.socket = as.flatMap Action.arrives := by
  have hstart : Wire.Holds N b results { conn := Backend.fresh .uv session } (Wire.start session) :=
    ⟨.init, rfl⟩
  have hholds : Wire.Holds N b results { conn := Backend.fresh .uv session } s :=
    Run.inv_run (fun _ _ _ hs ha => hs.step ha) hstart h
  have harrives := Run.run_appends (f := fun s : Wire σ => Reader.received s.reader.log ++ s.reader.socket)
    (fun s a s' ha => step_arrives s.reader a s'.reader (Wire.step_cases ha).1) h
  have hleads : Leads N b results { conn := Backend.fresh .uv session } (views s.reader.log) s.serving := by
    have hhere := hholds.here
    cases hp : s.reader.point <;> rw [hp] at hhere hbetween
    all_goals first
      | exact hhere
      | cases hbetween
  have hreceived : Reader.received s.reader.log = (views s.reader.log).flatten := by
    rw [hholds.reads.received_eq]
    cases hp : s.reader.point <;> rw [hp] at hbetween
    all_goals first
      | exact List.append_nil _
      | cases hbetween
  have hsocket : (views s.reader.log).flatten ++ s.reader.socket = as.flatMap Action.arrives := by
    rw [← hreceived]
    exact harrives
  refine ⟨hsocket, hleads, ?_⟩
  rw [hleads.taken]
  exact hsocket

/-- Both requests come with the first bytes. -/
def firstRead (bytes : Bytes) : Arrival := if bytes = [1, 2] then bothMethods bytes else {}

/-- Two reads with bytes and one without. The third byte comes while the session is busy. -/
theorem wire_exact_busy : ∃ s : Wire Mini,
    Run.runFrom (Wire.step (Mini.nghttp2 firstRead) twoMethods fun _ => .completed) (Wire.start {}) busy = some s ∧
    taken s.serving.acts ++ s.reader.socket = [1, 2, 3] := by
  have hruns : ((Run.runFrom (Wire.step (Mini.nghttp2 firstRead) twoMethods fun _ => .completed)
      (Wire.start {}) busy).map fun s : Wire Mini => s.reader.point.between) = some true := by decide +kernel
  obtain ⟨s, hs, hbetween⟩ := Option.map_eq_some_iff.1 hruns
  exact ⟨s, hs, (wire_exact hs hbetween).2.2⟩

end Grpcxx.Uv
