import Grpcxx.Lib.Portions
import Grpcxx.Proof.Bodies

/-!
# A body is drained

`session::data` puts a body into `_data`, and nghttp2 calls `read_cb` for it whenever it builds a
DATA frame, each time with the room that the frame has. `read_cb` erases what it hands over.

* `readCb_source`: one call.
* `Send.course`, `Session.course`: the calls of one `mem_send2`, and of any other call of the
  session but `data`.
* `body_drained`: the calls hand over the body, and `NGHTTP2_DATA_FLAG_EOF` is set at the last.
-/

namespace Grpcxx

open Portions

variable {σ : Type} {N : Nghttp2 σ}

/-- A call of `read_cb`, with a buffer of `length` bytes. -/
def readCbCall (str : Bytes) (length : ℕ) : Portion UInt8 :=
  let r := readCb str length
  { length, items := r.1.bytes, last := r.1.eof, left := r.2 }

/-- **One call**: all that is left, with the flag, or a part of it. -/
theorem readCb_source : Source readCbCall := by
  intro str length hpos
  unfold readCbCall readCb
  split
  · rename_i hfits
    refine Or.inl ⟨_, List.prefix_refl _, ?_⟩
    apply Whole.single
    · rw [List.take_length]
      exact hfits
    · exact List.take_length
    · rfl
    · exact List.drop_length
  · rename_i hmore
    refine Or.inr ?_
    apply Part.single
    · exact List.length_take_le length str
    · exact List.take_append_drop length str
    · rfl
    · intro hnone
      have hlength := congrArg List.length hnone
      rw [List.length_take, List.length_nil] at hlength
      omega
    · intro hnone
      have hlength := congrArg List.length hnone
      rw [List.length_drop, List.length_nil] at hlength
      omega

/-- A body that fills its last buffer needs no further call. -/
example : (portions readCbCall [1, 2, 3, 4] [2, 2]).map (fun c => (c.items, c.last)) =
    [([1, 2], false), ([3, 4], true)] := by decide

/-! ## The calls that are made -/

/-- The calls of `read_cb` in one `mem_send2`. -/
def Send.readCbs : Send σ → Bytes → List (Portion UInt8)
  | .done _ _ _, _ => []
  | .pull _ length next, data =>
    let r := readCb data length
    readCbCall data length :: (next r.1).readCbs r.2

/-- They are the ones that `run` makes. -/
theorem Send.pulls_readCbs (send : Send σ) (data : Bytes) :
    (send.run data).pulls.map (fun x => (x.2.bytes, x.2.eof)) =
      (send.readCbs data).map fun c => (c.items, c.last) := by
  induction send generalizing data with
  | done session closed out => rfl
  | pull id length next ih =>
    simp only [run, readCbs, List.map_cons, ih]
    rfl

theorem Send.course (send : Send σ) (data : Bytes) (hpos : ∀ c ∈ send.readCbs data, 1 ≤ c.length) :
    Course data (send.readCbs data) (send.run data).data := by
  induction send generalizing data with
  | done session closed out => exact Course.nil
  | pull id length next ih =>
    have hfirst : Course data [readCbCall data length] (readCb data length).2 :=
      readCb_source data length (hpos _ List.mem_cons_self)
    exact hfirst.cons (ih _ _ fun c hc => hpos c (List.mem_cons_of_mem _ hc))

/-- The state that a call leaves, whether it returned or threw. -/
def leaves {S α : Type} : EStateM.Result Fault S α → S
  | .ok _ s | .error _ s => s

namespace Session

/-- The call submits a body. -/
def Op.submits : Op → Bool
  | .data _ _ => true
  | .pending | .read _ | .headers _ _ | .trailers _ _ => false

/-- The session after a call, whether it returned or threw. -/
def after (N : Nghttp2 σ) (s : Session σ) : Op → Session σ
  | .data id d => leaves (submitBody N id d s)
  | .pending => leaves (pending N s)
  | .read bytes => leaves (read N bytes s)
  | .headers id hdrs => leaves (headers N id hdrs s)
  | .trailers id hdrs => leaves (trailers N id hdrs s)

/-- The calls of `read_cb` that nghttp2 makes in a call. -/
def readCbs (N : Nghttp2 σ) (s : Session σ) : Op → List (Portion UInt8)
  | .pending => (N.memSend s.session).readCbs s.data
  | .data _ _ | .read _ | .headers _ _ | .trailers _ _ => []

/-- The calls of `read_cb` in a run. -/
def allReadCbs (N : Nghttp2 σ) : Session σ → List Op → List (Portion UInt8)
  | _, [] => []
  | s, op :: ops => s.readCbs N op ++ allReadCbs N (s.after N op) ops

theorem leaves_submitted (what : String) (s : Session σ) (r : σ × ℤ) :
    (leaves (submitted N what s r)).data = s.data := by
  unfold submitted
  dsimp only
  split <;> rfl

theorem leaves_read (bytes : Bytes) (s : Session σ) : (leaves (read N bytes s)).data = s.data := by
  unfold read
  simp only [foldl_callback]
  split <;> rfl

theorem leaves_pending (s : Session σ) :
    (leaves (pending N s)).data = ((N.memSend s.session).run s.data).data := by
  unfold pending
  simp only [foldl_close]
  split <;> rfl

theorem course_same {s s' : Session σ} (h : s'.data = s.data) : Course s.data [] s'.data := by
  rw [h]
  exact Course.nil

/-- **A call that submits nothing** takes from the body no more than `read_cb` hands over. -/
theorem course (s : Session σ) {op : Op} (hop : op.submits = false)
    (hpos : ∀ c ∈ s.readCbs N op, 1 ≤ c.length) :
    Course s.data (s.readCbs N op) (s.after N op).data := by
  cases op with
  | data id d => cases hop
  | pending =>
    have hcourse := (N.memSend s.session).course s.data hpos
    rw [← leaves_pending] at hcourse
    exact hcourse
  | read bytes => exact course_same (leaves_read bytes s)
  | headers id hdrs => exact course_same (leaves_submitted _ _ _)
  | trailers id hdrs => exact course_same (leaves_submitted _ _ _)

/-- No body is submitted before the flag was set. -/
def Alone (N : Nghttp2 σ) (s : Session σ) (ops : List Op) : Prop :=
  ∀ pre op post, ops = pre ++ op :: post → op.submits = true → ∃ c ∈ allReadCbs N s pre, c.last = true

theorem alone_of_forall {s : Session σ} {ops : List Op} (h : ∀ op ∈ ops, op.submits = false) :
    Alone N s ops := by
  intro pre op post hops hsubmits
  have hop : op ∈ ops := by
    rw [hops]
    exact List.mem_append_right _ List.mem_cons_self
  rw [h op hop] at hsubmits
  cases hsubmits

/-- **A run** in which nothing is submitted until the body is drained. -/
theorem course_run (ops : List Op) {s : Session σ} (hpos : ∀ c ∈ allReadCbs N s ops, 1 ≤ c.length)
    (halone : Alone N s ops) : Course s.data (allReadCbs N s ops) (ops.foldl (after N) s).data := by
  induction ops generalizing s with
  | nil => exact Course.nil
  | cons op ops ih =>
    have hop : op.submits = false := by
      cases hsubmits : op.submits with
      | false => rfl
      | true =>
        -- there was no call before
        obtain ⟨c, hc, -⟩ := halone [] op ops rfl hsubmits
        cases hc
    have hfirst : Course s.data (s.readCbs N op) (s.after N op).data :=
      course s hop fun c hc => hpos c (List.mem_append_left _ hc)
    rcases hfirst with ⟨pre, hpre, hwhole⟩ | hpart
    · exact Or.inl ⟨pre, hpre.trans (List.prefix_append _ _), hwhole⟩
    · -- the flag is still to come
      have hrest : Alone N (s.after N op) ops := by
        intro pre op' post hops hsubmits
        obtain ⟨c, hc, hlast⟩ := halone (op :: pre) op' post (by rw [hops]; rfl) hsubmits
        rcases List.mem_append.1 hc with hc | hc
        · rw [(hpart.going c hc).1] at hlast
          cases hlast
        · exact ⟨c, hc, hlast⟩
      exact Course.append (Or.inr hpart) (ih (fun c hc => hpos c (List.mem_append_right _ hc)) hrest)

end Session

/-- **A single body is drained exactly.** Whatever the lengths of the buffers, so many calls of
`read_cb` hand over the body that was submitted, and the flag is set at the last of them. These
are the calls that are made in every run of the session in which no other body is submitted
before; in a run that makes fewer, a part of the body is still to come. -/
theorem body_drained {s s₀ : Session σ} {id : StreamId} {d : Bytes}
    (hdata : Session.submitBody N id d s = .ok () s₀) :
    (∀ lengths : ℕ → ℕ, (∀ k, 1 ≤ lengths k) →
      ∃ n, Whole d (portions readCbCall s₀.data ((List.range n).map lengths))) ∧
    ∀ ops, (∀ c ∈ Session.allReadCbs N s₀ ops, 1 ≤ c.length) → Session.Alone N s₀ ops →
      (∃ pre, pre <+: Session.allReadCbs N s₀ ops ∧ Whole d pre) ∨
        (Session.allReadCbs N s₀ ops).length < max 1 d.length ∧
          Part d (Session.allReadCbs N s₀ ops) (ops.foldl (Session.after N) s₀).data := by
  have hstart : s₀.data = d := by
    obtain ⟨-, rfl⟩ := Session.submitted_eq_ok hdata
    rfl
  constructor
  · intro lengths hpos
    rw [hstart]
    exact exists_whole readCb_source d lengths hpos
  · intro ops hpos halone
    have hcourse := Session.course_run ops hpos halone
    rw [hstart] at hcourse
    rcases hcourse with hwhole | hpart
    · exact Or.inl hwhole
    · exact Or.inr ⟨hpart.lt, hpart⟩

/-- Three bytes, with room for two at a time, and sent by nghttp2 in one frame. -/
theorem body_drained_abc : ∃ s₀, Session.submitBody (Mini.nghttp2 fun _ => {}) 1 [0x61, 0x62, 0x63]
      { session := {} } = .ok () s₀ ∧
    (∃ n, Whole [0x61, 0x62, 0x63] (portions readCbCall s₀.data ((List.range n).map fun _ => 2))) ∧
    ∃ pre, pre <+: Session.allReadCbs (Mini.nghttp2 fun _ => {}) s₀ [.pending] ∧
      Whole [0x61, 0x62, 0x63] pre := by
  refine ⟨_, rfl, ?_⟩
  obtain ⟨hlengths, hruns⟩ := @body_drained Mini (Mini.nghttp2 fun _ => {}) { session := {} } _ 1
    [0x61, 0x62, 0x63] rfl
  refine ⟨hlengths (fun _ => 2) fun _ => by decide, ?_⟩
  rcases hruns [.pending] (by decide) (Session.alone_of_forall (by decide)) with hwhole | ⟨hlt, hpart⟩
  · exact hwhole
  · -- the flag was set
    cases (hpart.going _ List.mem_cons_self).1

end Grpcxx
