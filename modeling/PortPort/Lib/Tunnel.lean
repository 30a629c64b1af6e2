import Mathlib.Logic.Function.Basic
import PortPort.Lib.Transition

/-! # Many connections over one pair of channels

A *near* host accepts connections and a *far* host opens its own end of each of them. The two are
joined by a FIFO channel in each direction, whose messages name a connection by its key alone; keys
may be used again. Every message and every connection also has a number, given in the order in which
the near host accepts: no step depends on the number of a message, and it is what the theorems are
about. -/

namespace Tunnel
open Function (update update_self update_of_ne)

inductive Msg (κ β : Type*)
  | opened (k : κ)
  | data (k : κ) (bs : List β)
  | closed (k : κ)

/-- What one host has done with its end of a connection: the bytes received from it, the bytes sent
to it and the bytes waiting to be sent. -/
structure End (β : Type*) where
  received : List β := []
  sent : List β := []
  pend : List β := []

structure State (κ β : Type*) where
  /-- so many connections have been accepted -/
  accepted : Nat
  /-- so many of them have been announced to the far host -/
  announced : Nat
  key : Nat → κ
  near : Nat → End β
  far : Nat → End β
  farOpen : Nat → Prop
  refused : Nat → Prop
  nearTab : κ → Option Nat
  farTab : κ → Option Nat
  /-- the connection last announced to the far host, until it has taken the close -/
  known : κ → Option Nat
  down : List (Nat × Msg κ β)
  up : List (Nat × Msg κ β)
  /-- messages of a far host that no longer sends -/
  late : List (Nat × Msg κ β)
  /-- the far host takes no message any more -/
  deaf : Prop

inductive Action (κ β : Type*)
  | accept (k : κ)
  | nearRecv (n : Nat) (bs : List β)
  | nearSend (n len : Nat)
  | nearClose (k : κ)
  | nearTake
  | farNew (refuse : Bool)
  | farTake
  | farRecv (n : Nat) (bs : List β)
  | farSend (n len : Nat)
  | farEnd (n : Nat) (tell : Bool)
  | farDrop (k : κ)
  | farDeaf

variable {κ β : Type*} [DecidableEq κ]

namespace Msg

@[simp] def key : Msg κ β → κ
  | opened k | data k _ | closed k => k

end Msg

omit [DecidableEq κ] in
theorem of_mem_push {l : List (Nat × Msg κ β)} {x y : Nat × Msg κ β} (h : y ∈ l ++ [x]) :
    y ∈ l ∨ y = x :=
  (List.mem_append.mp h).imp_right List.mem_singleton.mp

namespace End

def recv (e : End β) (bs : List β) : End β := { e with received := e.received ++ bs }
def push (e : End β) (bs : List β) : End β := { e with pend := e.pend ++ bs }

@[simp] theorem recv_received (e : End β) (bs : List β) :
    (e.recv bs).received = e.received ++ bs := rfl
@[simp] theorem recv_sent (e : End β) (bs : List β) : (e.recv bs).sent = e.sent := rfl
@[simp] theorem recv_pend (e : End β) (bs : List β) : (e.recv bs).pend = e.pend := rfl
@[simp] theorem push_received (e : End β) (bs : List β) : (e.push bs).received = e.received := rfl
@[simp] theorem push_sent (e : End β) (bs : List β) : (e.push bs).sent = e.sent := rfl
@[simp] theorem push_pend (e : End β) (bs : List β) : (e.push bs).pend = e.pend ++ bs := rfl

/-- The socket of one end sends what waits at another; they differ only while a connection that
was given up for a later one with its key is still open. -/
def flush (ends : Nat → End β) (n c len : Nat) : Nat → End β :=
  let ends' := update ends n { ends n with sent := (ends n).sent ++ (ends c).pend.take len }
  update ends' c { ends' c with pend := (ends' c).pend.drop len }

theorem flush_self (ends : Nat → End β) (n len m : Nat) :
    flush ends n n len m = if m = n then
      { ends n with
        sent := (ends n).sent ++ (ends n).pend.take len, pend := (ends n).pend.drop len }
    else ends m := by
  simp only [flush, Function.update_self, Function.update_idem, Function.update_apply]

/-- What was sent and what waits, taken together, is not changed by sending. -/
theorem flush_sent_pend (ends : Nat → End β) (n len m : Nat) :
    (flush ends n n len m).sent ++ (flush ends n n len m).pend =
      (ends m).sent ++ (ends m).pend := by
  rw [flush_self]
  split
  · rename_i h
    simp [h]
  · rfl

@[simp] theorem flush_received (ends : Nat → End β) (n c len m : Nat) :
    (flush ends n c len m).received = (ends m).received := by
  simp only [flush, Function.update_apply]
  split <;> split <;> simp_all

theorem update_recv (ends : Nat → End β) (n m : Nat) (bs : List β) :
    (update ends n ((ends n).recv bs) m).sent ++ (update ends n ((ends n).recv bs) m).pend =
      (ends m).sent ++ (ends m).pend := by
  by_cases hm : m = n
  · subst hm
    rw [update_self, recv_sent, recv_pend]
  · rw [update_of_ne hm]

theorem update_push_received (ends : Nat → End β) (n m : Nat) (bs : List β) :
    (update ends n ((ends n).push bs) m).received = (ends m).received := by
  by_cases hm : m = n
  · subst hm
    rw [update_self, push_received]
  · rw [update_of_ne hm]

end End

/-- The far host still takes messages: one that no longer sends takes none either. -/
def State.Hears (s : State κ β) : Prop := s.late = [] ∧ ¬ s.deaf

/-- The step relation. The number that a message of the near host carries is that of its table
entry, and a message of the far host carries the number of the connection it was sent for. -/
inductive Step : State κ β → Action κ β → State κ β → Prop
  | accept : Step s (.accept k)
      { s with
        accepted := s.accepted + 1
        key := update s.key s.accepted k
        near := update s.near s.accepted {}
        nearTab := update s.nearTab k (some s.accepted)
        down := s.down ++ [(s.accepted, .opened k)] }
  | nearRecv (h : s.nearTab (s.key n) = some c) : Step s (.nearRecv n bs)
      { s with
        near := update s.near n ((s.near n).recv bs)
        down := s.down ++ [(c, .data (s.key n) bs)] }
  | nearSend (h : s.nearTab (s.key n) = some c) : Step s (.nearSend n len)
      { s with near := End.flush s.near n c len }
  | nearClose (h : s.nearTab k = some c) : Step s (.nearClose k)
      { s with nearTab := update s.nearTab k none, down := s.down ++ [(c, .closed k)] }
  | takeData (h : s.up = (m, .data k bs) :: up) (hc : s.nearTab k = some c) : Step s .nearTake
      { s with up, near := update s.near c ((s.near c).push bs) }
  | takeClosed (h : s.up = (m, .closed k) :: up) (hc : s.nearTab k = some c) : Step s .nearTake
      { s with up, nearTab := update s.nearTab k none, down := s.down ++ [(c, .closed k)] }
  /-- a message for a key that is not in the table is ignored -/
  | takeUnknown (h : s.up = (m, msg) :: up) (hc : s.nearTab msg.key = none) : Step s .nearTake
      { s with up }
  | farNew (h : s.down = (n, .opened k) :: down) (hl : s.Hears) : Step s (.farNew false)
      { s with
        down
        announced := s.announced + 1
        known := update s.known k (some n)
        farTab := update s.farTab k (some n)
        far := update s.far n {}
        farOpen := update s.farOpen n True
        refused := update s.refused n False }
  | farRefused (h : s.down = (n, .opened k) :: down) (hl : s.Hears) : Step s (.farNew true)
      { s with
        down
        announced := s.announced + 1
        known := update s.known k (some n)
        farTab := update s.farTab k none
        far := update s.far n {}
        farOpen := update s.farOpen n False
        refused := update s.refused n True
        up := s.up ++ [(n, .closed k)] }
  | farData (h : s.down = (n, .data k bs) :: down) (hc : s.farTab k = some c) (hl : s.Hears) :
      Step s .farTake
      { s with down, far := update s.far c ((s.far c).push bs) }
  /-- data for a key that is not in the table is answered by a close -/
  | farUnknown (h : s.down = (n, .data k bs) :: down) (hc : s.farTab k = none) (hl : s.Hears) :
      Step s .farTake
      { s with down, up := s.up ++ [(n, .closed k)] }
  | farClosed (h : s.down = (n, .closed k) :: down) (hl : s.Hears) : Step s .farTake
      { s with
        down
        known := update s.known k none
        farTab := update s.farTab k none
        farOpen := fun c => s.farOpen c ∧ s.farTab k ≠ some c }
  | farRecv (h : s.farOpen n) : Step s (.farRecv n bs)
      { s with
        far := update s.far n ((s.far n).recv bs)
        up := s.up ++ [(n, .data (s.key n) bs)] }
  | farSend (h : s.farOpen n) : Step s (.farSend n len)
      { s with far := End.flush s.far n n len }
  | farEnd {tell : Bool} (h : s.farOpen n) : Step s (.farEnd n tell)
      { s with
        farOpen := update s.farOpen n False
        up := s.up ++ if tell then [(n, .closed (s.key n))] else [] }
  | farDrop (h : s.farTab k = some c) : Step s (.farDrop k)
      { s with
        farTab := update s.farTab k none
        farOpen := update s.farOpen c False
        late := s.late ++ [(c, .closed k)] }
  | farDeaf : Step s .farDeaf { s with deaf := True }

def init (key : Nat → κ) : State κ β where
  accepted := 0
  announced := 0
  key
  near _ := {}
  far _ := {}
  farOpen _ := False
  refused _ := False
  nearTab _ := none
  farTab _ := none
  known _ := none
  down := []
  up := []
  late := []
  deaf := False

def Init (s : State κ β) : Prop := ∃ key, s = init key

/-- The side condition of a run: `A` at every accept, and, if `own`, every socket of the near host
that is used is still the one in the table under its key. -/
def Cond (A : State κ β → κ → Prop) (own : Prop) (s : State κ β) : Action κ β → Prop
  | .accept k => A s k
  | .nearRecv n _ | .nearSend n _ => own → s.nearTab (s.key n) = some n
  | _ => True

/-- The key of a connection does not change. -/
theorem Step.key {s s' : State κ β} {a : Action κ β} (h : Step s a s') :
    s.accepted ≤ s'.accepted ∧ ∀ n < s.accepted, s'.key n = s.key n := by
  cases h with
  | accept => exact ⟨Nat.le_succ _, fun n hn => Function.update_of_ne (Nat.ne_of_lt hn) ..⟩
  | _ => exact ⟨Nat.le_refl _, fun _ _ => rfl⟩

theorem Steps.key {P : State κ β → Action κ β → Prop} {s s' : State κ β}
    (h : Transition.Steps Step P s s') :
    s.accepted ≤ s'.accepted ∧ ∀ n < s.accepted, s'.key n = s.key n := by
  induction h with
  | refl => exact ⟨Nat.le_refl _, fun _ _ => rfl⟩
  | tail _ _ hs ih =>
    refine ⟨Nat.le_trans ih.1 hs.key.1, fun n hn => ?_⟩
    rw [hs.key.2 n (Nat.lt_of_lt_of_le hn ih.1), ih.2 n hn]

abbrev Reachable (A : State κ β → κ → Prop) (own : Prop) : State κ β → Prop :=
  Transition.Reach Step (Cond A own) Init

end Tunnel
