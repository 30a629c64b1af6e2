import PortPort.Lib.Transition

/-! # A flag that is a socket pair

A thread that waits for file objects is woken up through a socket pair. A waker sends one byte, and
does not mind that the buffer is full; the handler of the thread receives until nothing is left. A
model of the thread may keep a flag instead, which the wakers set and the handler clears in one
step: `Flagged` tells what its actions do to the flag. `Flagged.step` is the same model over the
bytes, where the handler takes many steps and wakers send between them. -/

namespace SelfPipe
open Transition

variable {σ α β : Type*}

/-- A system with a flag. The wakers set it, the return of the handler clears it, and no other
action changes it; while the thread is in its handler only its own actions take it out. -/
structure Flagged (next : σ → α → Option σ) where
  pending : σ → Bool
  wakes : α → Bool
  clears : α → Bool
  /-- the actions of the thread that runs the handler -/
  own : α → Bool
  /-- the thread has called its handler -/
  entered : σ → Bool
  set : next s a = some s' → wakes a = true → pending s' = true
  clear : next s a = some s' → clears a = true → pending s' = false
  keep : next s a = some s' → wakes a = false → clears a = false → pending s' = pending s
  stays : next s a = some s' → own a = false → entered s = true → entered s' = true

/-- A state of the system over the bytes. -/
structure Piped (σ β : Type*) where
  state : σ
  /-- the bytes sent and not yet received -/
  buffer : List β := []
  /-- the handler is between two calls of `recv` -/
  handling : Bool := false

inductive Event (α : Type*)
  /-- an action that is none of a waker or of the handler -/
  | act (a : α)
  /-- a waker sends its byte -/
  | wake (a : α)
  /-- a `recv` of the handler returns so many bytes -/
  | recv (n : Nat)
  /-- a `recv` of the handler finds nothing, and the handler returns -/
  | done (a : α)
  /-- a `recv` of the handler raises for another reason, and the handler returns -/
  | abort (a : α)

/-- The action of the system with the flag that the event stands for. -/
def Event.action : Event α → Option α
  | .act a | .wake a | .done a | .abort a => some a
  | .recv _ => none

/-- `send` of one byte: lost if the buffer is full. -/
def push (capacity : Nat) (byte : β) (buffer : List β) : List β :=
  if buffer.length < capacity then buffer ++ [byte] else buffer

theorem push_ne_nil {capacity : Nat} (h : 0 < capacity) (byte : β) (buffer : List β) :
    push capacity byte buffer ≠ [] := by
  unfold push
  split
  · simp
  · exact List.ne_nil_of_length_pos (by omega)

namespace Flagged
variable {next : σ → α → Option σ} (F : Flagged next) (capacity size : Nat) (byte : β)

/-- The system over the bytes: a `recv` asks for `size` of them. -/
def step (c : Piped σ β) : Event α → Option (Piped σ β)
  | .act a =>
    if F.wakes a || F.clears a || (c.handling && F.own a) then none
    else (next c.state a).map fun state => { c with state }
  | .wake a =>
    if F.wakes a && !F.own a then
      (next c.state a).map fun state => { c with state, buffer := push capacity byte c.buffer }
    else none
  | .recv n =>
    if F.entered c.state && 0 < n && n ≤ size && n ≤ c.buffer.length then
      some { c with buffer := c.buffer.drop n, handling := true }
    else none
  | .done a =>
    if F.clears a && c.buffer.isEmpty then
      (next c.state a).map fun state => { c with state, handling := false }
    else none
  | .abort a =>
    if F.clears a then (next c.state a).map fun state => { c with state, handling := false }
    else none

/-- The initial states: the socket pair is new. -/
def Start (I : σ → Prop) (c : Piped σ β) : Prop :=
  I c.state ∧ F.pending c.state = false ∧ c.buffer = [] ∧ c.handling = false

/-- What the bytes have to do with the flag: outside the handler, which nobody else leaves, the flag
is set only while a byte is unread. -/
structure Agrees (c : Piped σ β) : Prop where
  entered : c.handling = true → F.entered c.state = true
  readable : c.handling = false → F.pending c.state = true → c.buffer ≠ []

variable {F capacity size byte}

theorem Agrees.step {c c' : Piped σ β} {e : Event α} (h : F.Agrees c) (hcap : 0 < capacity)
    (hs : F.step capacity size byte c e = some c') : F.Agrees c' := by
  cases e with
  | act a =>
    simp only [Flagged.step, Option.ite_none_left_eq_some, Bool.or_eq_true, Bool.and_eq_true,
      not_or, not_and, Bool.not_eq_true] at hs
    obtain ⟨⟨⟨hwakes, hclears⟩, hown⟩, hs⟩ := hs
    obtain ⟨s, hnext, rfl⟩ := Option.map_eq_some_iff.mp hs
    exact ⟨fun hh => F.stays hnext (hown hh) (h.entered hh),
      fun hh hp => h.readable hh ((F.keep hnext hwakes hclears).symm.trans hp)⟩
  | wake a =>
    simp only [Flagged.step, Option.ite_none_right_eq_some, Bool.and_eq_true,
      Bool.not_eq_true'] at hs
    obtain ⟨⟨-, hown⟩, hs⟩ := hs
    obtain ⟨s, hnext, rfl⟩ := Option.map_eq_some_iff.mp hs
    exact ⟨fun hh => F.stays hnext hown (h.entered hh), fun _ _ => push_ne_nil hcap byte c.buffer⟩
  | recv n =>
    simp only [Flagged.step, Option.ite_none_right_eq_some, Bool.and_eq_true,
      Option.some.injEq] at hs
    obtain ⟨⟨⟨⟨hentered, -⟩, -⟩, -⟩, rfl⟩ := hs
    exact ⟨fun _ => hentered, nofun⟩
  | done a =>
    simp only [Flagged.step, Option.ite_none_right_eq_some, Bool.and_eq_true] at hs
    obtain ⟨⟨hclears, -⟩, hs⟩ := hs
    obtain ⟨s, hnext, rfl⟩ := Option.map_eq_some_iff.mp hs
    exact ⟨nofun, fun _ hp => by cases (F.clear hnext hclears).symm.trans hp⟩
  | abort a =>
    simp only [Flagged.step, Option.ite_none_right_eq_some] at hs
    obtain ⟨hclears, hs⟩ := hs
    obtain ⟨s, hnext, rfl⟩ := Option.map_eq_some_iff.mp hs
    exact ⟨nofun, fun _ hp => by cases (F.clear hnext hclears).symm.trans hp⟩

/-- Every event is an action of the system with the flag, or leaves its state as it is. -/
theorem step_state {c c' : Piped σ β} {e : Event α}
    (hs : F.step capacity size byte c e = some c') :
    (∃ a, e.action = some a ∧ next c.state a = some c'.state) ∨ c'.state = c.state := by
  cases e with
  | act a =>
    simp only [Flagged.step, Option.ite_none_left_eq_some] at hs
    obtain ⟨s, hnext, rfl⟩ := Option.map_eq_some_iff.mp hs.2
    exact .inl ⟨a, rfl, hnext⟩
  | wake a | done a | abort a =>
    simp only [Flagged.step, Option.ite_none_right_eq_some] at hs
    obtain ⟨s, hnext, rfl⟩ := Option.map_eq_some_iff.mp hs.2
    exact .inl ⟨a, rfl, hnext⟩
  | recv n =>
    simp only [Flagged.step, Option.ite_none_right_eq_some, Option.some.injEq] at hs
    obtain ⟨-, rfl⟩ := hs
    exact .inr rfl

variable {P : σ → α → Prop} {I : σ → Prop} {c : Piped σ β}

/-- **The system over the bytes refines the one with the flag**: its reachable states are reachable
there, and outside the handler the socket is readable while the flag is set. -/
theorem reach (hcap : 0 < capacity)
    (h : Reach (Fires (F.step capacity size byte))
      (fun c e => ∀ a, e.action = some a → P c.state a) (F.Start I) c) :
    Reach (Fires next) P I c.state ∧ F.Agrees c := by
  induction h with
  | init hi =>
    obtain ⟨hi, hp, hb, hh⟩ := hi
    exact ⟨.init hi, fun hh' => by simp [hh] at hh', fun _ hp' => by simp [hp] at hp'⟩
  | step _ hP hs ih =>
    refine ⟨?_, ih.2.step hcap hs⟩
    rcases step_state hs with ⟨a, ha, hstep⟩ | hstate
    · exact ih.1.step (hP a ha) hstep
    · exact hstate ▸ ih.1

/-- Where the thread has not called its handler, the flag says that the socket is readable. -/
theorem Agrees.of_pending (h : F.Agrees c) (he : F.entered c.state = false)
    (hp : F.pending c.state = true) : c.buffer ≠ [] := by
  refine h.readable ?_ hp
  cases hh : c.handling with
  | false => rfl
  | true => cases he.symm.trans (h.entered hh)

end Flagged
end SelfPipe
