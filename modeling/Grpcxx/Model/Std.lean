import Grpcxx.Lib.Split
import Mathlib.Data.List.AList

/-!
# The C++ the code rests on

Byte strings, the string searches, `unordered_map::emplace` and exceptions, as
far as the server uses them. Allocation always succeeds.
-/

namespace Grpcxx

/-- `std::string` and `std::string_view`: bytes. -/
abbrev Bytes := List UInt8

/-- A string literal of the source. All of them are ASCII. -/
def lit (s : String) : Bytes := s.toList.map fun c => c.toNat.toUInt8

/-- `std::string::find(c, pos)`; `none` is `npos`. -/
def Bytes.find (s : Bytes) (c : UInt8) (pos : ℕ) : Option ℕ :=
  ((s.drop pos).findIdx? (· == c)).map (· + pos)

/-- `std::string::substr(pos, n)`. -/
def Bytes.substr (s : Bytes) (pos n : ℕ) : Bytes := (s.drop pos).take n

/-- `std::string::starts_with`. -/
def Bytes.startsWith (s p : Bytes) : Bool := p.isPrefixOf s

/-- `std::unordered_map`. -/
abbrev Map (K V : Type) := AList fun _ : K => V

/-- `unordered_map::emplace` and `insert`: an existing entry stays. -/
def Map.emplace {K V : Type} [DecidableEq K] (m : Map K V) (k : K) (v : V) : Map K V :=
  if k ∈ m then m else m.insert k v

/-- The functions declared `noexcept` that others could throw into. -/
inductive Boundary
  | process
  | buffer
  | write
  /-- `write(std::string_view)` -/
  | write_bytes
  deriving DecidableEq, Repr

/-- What a call can leave by instead of returning: an exception, or the end of the
process. -/
inductive Fault
  /-- `std::length_error` -/
  | length_error (what : String)
  /-- `std::runtime_error` -/
  | runtime_error (what : String)
  /-- a thrown value that is no `std::exception` -/
  | unknown
  /-- `std::terminate`, because an exception reached `boundary` -/
  | terminate (boundary : Boundary)
  deriving DecidableEq, Repr

/-- What `catch (std::exception &)` takes. -/
def Fault.isException : Fault → Bool
  | .length_error _ | .runtime_error _ => true
  | .unknown | .terminate _ => false

/-- What `catch (...)` takes. -/
def Fault.isThrown : Fault → Bool
  | .terminate _ => false
  | _ => true

/-- What becomes of a fault that reaches a `noexcept` boundary. -/
def Fault.reach (boundary : Boundary) : Fault → Fault
  | .terminate b => .terminate b
  | _ => .terminate boundary

/-- A call on an object of type `S`. An exception leaves the object as it was when it
was thrown. -/
abbrev Call (S α : Type) := EStateM Fault S α

/-- A `noexcept` function: an exception that reaches its boundary ends the process. -/
def noexcept {S α : Type} (boundary : Boundary) (f : Call S α) : Call S α := fun s =>
  match f s with
  | .ok a s' => .ok a s'
  | .error e s' => .error (e.reach boundary) s'

/-- A call on a member of an object. -/
def zoom {S T α : Type} (get : T → S) (set : T → S → T) (f : Call S α) : Call T α := fun t =>
  match f (get t) with
  | .ok a s => .ok a (set t s)
  | .error e s => .error e (set t s)

section Call

variable {S α β : Type} {f : Call S α} {g : α → Call S β} {s s' : S} {a : α} {e : Fault}

theorem bind_ok (h : f s = .ok a s') : (f >>= g) s = g a s' := by
  show EStateM.bind f g s = _
  simp only [EStateM.bind, h]

theorem bind_error (h : f s = .error e s') : (f >>= g) s = .error e s' := by
  show EStateM.bind f g s = _
  simp only [EStateM.bind, h]

theorem get_bind {h : S → Call S β} : ((get : Call S S) >>= h) s = h s s := rfl

theorem set_bind {h : PUnit → Call S β} : ((set s' : Call S PUnit) >>= h) s = h ⟨⟩ s' := rfl

theorem noexcept_rule {b : Boundary} {Q : EStateM.Result Fault S α → Prop}
    (hok : ∀ a s', f s = .ok a s' → Q (.ok a s'))
    (herr : ∀ e s', f s = .error e s' → Q (.error (e.reach b) s')) : Q (noexcept b f s) := by
  unfold noexcept
  cases h : f s with
  | ok a s' => exact hok a s' h
  | error e s' => exact herr e s' h

theorem noexcept_eq_ok_iff {b : Boundary} : noexcept b f s = .ok a s' ↔ f s = .ok a s' := by
  unfold noexcept
  cases f s with
  | ok a s' => rfl
  | error e s' => simp

/-- Nothing catches what leaves a `noexcept` function. -/
theorem noexcept_thrown {b : Boundary} (h : noexcept b f s = .error e s') : e.isThrown = false := by
  unfold noexcept at h
  cases hf : f s with
  | ok a t => rw [hf] at h; cases h
  | error e' t =>
    rw [hf] at h
    cases h
    cases e' <;> rfl

theorem zoom_ok {T : Type} {get : T → S} {set : T → S → T} {t : T} (h : f (get t) = .ok a s') :
    zoom get set f t = .ok a (set t s') := by
  simp only [zoom, h]

theorem zoom_error {T : Type} {get : T → S} {set : T → S → T} {t : T}
    (h : f (get t) = .error e s') : zoom get set f t = .error e (set t s') := by
  simp only [zoom, h]

end Call

section Bytes

variable {c : UInt8} (pre : Bytes) {a : Bytes}

theorem Bytes.find_cut (h : c ∉ a) (b : Bytes) :
    Bytes.find (pre ++ (a ++ c :: b)) c pre.length = some (a.length + pre.length) := by
  unfold Bytes.find
  rw [List.drop_left, Split.findIdx?_cut h, Option.map_some]

theorem Bytes.find_none (h : c ∉ a) : Bytes.find (pre ++ a) c pre.length = none := by
  unfold Bytes.find
  rw [List.drop_left, Split.findIdx?_none h, Option.map_none]

end Bytes

section Map

variable {K V : Type} [DecidableEq K] (m : Map K V) (k k' : K) (v : V)

theorem Map.lookup_emplace_ne (h : k' ≠ k) : (m.emplace k v).lookup k' = m.lookup k' := by
  unfold Map.emplace
  split
  · rfl
  · exact AList.lookup_insert_ne h

theorem Map.lookup_emplace_self :
    (m.emplace k v).lookup k = some ((m.lookup k).getD v) := by
  unfold Map.emplace
  split
  · rename_i h
    obtain ⟨w, hw⟩ := Option.isSome_iff_exists.1 (AList.lookup_isSome.2 h)
    rw [hw]; rfl
  · rename_i h
    rw [AList.lookup_insert, AList.lookup_eq_none.2 h]; rfl

/-- A map as the list of its entries. -/
theorem Map.find?_entries :
    (m.entries.find? fun e => e.1 = k).map (fun e => e.2) = m.lookup k := by
  show _ = m.entries.dlookup k
  induction m.entries with
  | nil => rfl
  | cons e es ih =>
    obtain ⟨k₁, v₁⟩ := e
    by_cases h : k₁ = k
    · subst h
      rw [List.find?_cons_of_pos (by simp), List.dlookup_cons_eq]
      rfl
    · rw [List.find?_cons_of_neg (by simpa using h), List.dlookup_cons_ne _ _ (Ne.symm h)]
      exact ih

/-- Entries put in one after another: the first of a key stays. -/
theorem Map.lookup_foldl_emplace {α : Type*} (key : α → K) (val : α → V) (xs : List α) :
    ∀ m : Map K V, (xs.foldl (fun m x => m.emplace (key x) (val x)) m).lookup k =
      (m.lookup k).or ((xs.find? fun x => key x = k).map val) := by
  induction xs with
  | nil => intro m; simp
  | cons x xs ih =>
    intro m
    rw [List.foldl_cons, ih]
    by_cases h : key x = k
    · subst h
      rw [Map.lookup_emplace_self, List.find?_cons_of_pos (by simp)]
      cases m.lookup (key x) <;> rfl
    · have hne : k ≠ key x := fun h' => h h'.symm
      rw [Map.lookup_emplace_ne m _ _ _ hne, List.find?_cons_of_neg (by simp [h])]

end Map

end Grpcxx
