import PortPort.Lib.Transition

/-! # The receive side of a TLS connection

The kernel holds the records not yet decrypted, the TLS layer the rest of the record decrypted last.
An `Endpoint` is a system that owns such a connection: what its calls of `recv` return comes from
the two buffers, and `select` reports the connection as readable only while the kernel holds
something. -/

namespace Tls

variable {σ ε α : Type*}

/-- Application data, or the alert that ends the stream. -/
inductive Record (α : Type*)
  | data (payload : List α)
  | closeNotify

def Record.payload : Record α → List α
  | .data payload => payload
  | .closeNotify => []

structure Buffers (α : Type*) where
  kernel : List (Record α) := []
  internal : List α := []

/-- Decrypt the records up to the first that carries bytes or ends the stream. `none`: `recv` has to
wait for one. -/
def decrypt (n : Nat) : List (Record α) → Option (List α) × Buffers α
  | [] => (none, {})
  | .data [] :: kernel => decrypt n kernel
  | .data (b :: bs) :: kernel => (some ((b :: bs).take n), ⟨kernel, (b :: bs).drop n⟩)
  | .closeNotify :: kernel => (some [], ⟨kernel, []⟩)

/-- `decrypt` decrypts the last record and does not return all of it. -/
def splitsLast (n : Nat) : List (Record α) → Bool
  | [] => false
  | .data [] :: kernel => splitsLast n kernel
  | .data (b :: bs) :: kernel => kernel.isEmpty && n < (b :: bs).length
  | .closeNotify :: _ => false

namespace Buffers

/-- `recv(n)`. -/
def recv (n : Nat) (b : Buffers α) : Option (List α) × Buffers α :=
  if b.internal.isEmpty then decrypt n b.kernel
  else (some (b.internal.take n), { b with internal := b.internal.drop n })

/-- No decrypted bytes are left while the kernel is empty. -/
def Drained (b : Buffers α) : Prop := b.kernel = [] → b.internal = []

/-- The bytes that `recv` has not returned. -/
def bytes (b : Buffers α) : List α := b.internal ++ b.kernel.flatMap Record.payload

/-- `recv(n)` leaves a part of the last record behind. -/
def strands (n : Nat) (b : Buffers α) : Bool := b.internal.isEmpty && splitsLast n b.kernel

variable {n : Nat} {b : Buffers α}

theorem decrypt_drained_iff (kernel : List (Record α)) :
    (decrypt n kernel).2.Drained ↔ splitsLast n kernel = false := by
  induction kernel with
  | nil => exact iff_of_true (fun _ => rfl) rfl
  | cons r kernel ih =>
    match r with
    | .data [] => exact ih
    | .closeNotify => exact iff_of_true (fun _ => rfl) rfl
    | .data (b :: bs) =>
      have hdrop : (b :: bs).drop n = [] ↔ (b :: bs).length ≤ n := List.drop_eq_nil_iff
      have hd : (decrypt n (.data (b :: bs) :: kernel)).2.Drained ↔
          (kernel = [] → (b :: bs).drop n = []) := .rfl
      rw [hd, hdrop]
      cases kernel with
      | nil => simp [splitsLast]
      | cons => simp [splitsLast]

theorem decrypt_bytes (kernel : List (Record α)) :
    (decrypt n kernel).1.getD [] ++ (decrypt n kernel).2.bytes =
      kernel.flatMap Record.payload := by
  induction kernel with
  | nil => rfl
  | cons r kernel ih =>
    match r with
    | .data [] => exact ih
    | .closeNotify => rfl
    | .data (b :: bs) =>
      have hd : (decrypt n (.data (b :: bs) :: kernel)).1.getD [] ++
          (decrypt n (.data (b :: bs) :: kernel)).2.bytes =
            (b :: bs).take n ++ ((b :: bs).drop n ++ kernel.flatMap Record.payload) := rfl
      rw [hd, ← List.append_assoc, List.take_append_drop]
      rfl

/-- A call of `recv` leaves bytes stranded exactly if it splits the last record. -/
theorem recv_drained_iff (h : b.Drained) : (b.recv n).2.Drained ↔ b.strands n = false := by
  unfold recv strands
  cases hb : b.internal with
  | nil => simpa using decrypt_drained_iff b.kernel
  | cons x xs =>
    refine iff_of_true (fun hk => ?_) rfl
    cases hb.symm.trans (h hk)

theorem recv_bytes : (b.recv n).1.getD [] ++ (b.recv n).2.bytes = b.bytes := by
  unfold recv
  cases hb : b.internal with
  | nil => simpa [bytes, hb] using decrypt_bytes b.kernel
  | cons x xs =>
    have htake := List.take_append_drop n (x :: xs)
    simp only [List.isEmpty_cons, Bool.false_eq_true, if_false, bytes, Option.getD_some, hb]
    rw [← List.append_assoc, htake]

/-- A call that has to wait has decrypted all there was. -/
theorem recv_wait (h : (b.recv n).1 = none) : (b.recv n).2 = {} := by
  have hwait (kernel : List (Record α)) (h : (decrypt n kernel).1 = none) :
      (decrypt n kernel).2 = {} := by
    induction kernel with
    | nil => rfl
    | cons r kernel ih =>
      match r, h with
      | .data [], h => exact ih h
  unfold recv at h ⊢
  split at h
  · rename_i hb
    rw [if_pos hb]
    exact hwait b.kernel h
  · cases h

end Buffers

/-! ## A system over its connection -/

structure Endpoint (σ ε α : Type*) where
  step : σ → ε → Option σ
  /-- the result of the call of `recv` that the step makes, if it makes one; the inner `none` is an
  error -/
  recv : σ → ε → Option (Option (List α))
  /-- the step is a return of `select` that reports the connection as readable -/
  readable : ε → Bool
  recvq : σ → List α
  size : Nat
  /-- what `recv` returns is appended to `recvq` -/
  appends : step s e = some s' → recv s e = some (some data) → recvq s' = recvq s ++ data

structure Wired (σ α : Type*) where
  own : σ
  buffers : Buffers α := {}
  /-- the bytes of the records that have arrived -/
  arrived : List α := buffers.bytes
  /-- the bytes that have been appended to `recvq` -/
  appended : List α := []

inductive Event (ε α : Type*)
  | arrive (r : Record α)
  | own (e : ε)

namespace Endpoint

variable [DecidableEq α] (E : Endpoint σ ε α)

def wired (s : Wired σ α) : Event ε α → Option (Wired σ α)
  | .arrive r =>
    some { s with
      buffers := { s.buffers with kernel := s.buffers.kernel ++ [r] }
      arrived := s.arrived ++ r.payload }
  | .own e =>
    let (result, buffers) := s.buffers.recv E.size
    if E.readable e && s.buffers.kernel.isEmpty then none else
    match E.recv s.own e with
    | none => (E.step s.own e).map fun own => { s with own }
    | some none =>
      let buffers := if result = none then buffers else s.buffers
      (E.step s.own e).map fun own => { s with own, buffers }
    | some (some data) =>
      if result = some data then
        (E.step s.own e).map fun own =>
          { s with own, buffers
                   appended := s.appended ++ (E.recvq own).drop (E.recvq s.own).length }
      else none

/-- The step makes no call of `recv` that splits the last record. -/
def Whole (s : Wired σ α) (a : Event ε α) : Prop :=
  ∀ e data, a = .own e → E.recv s.own e = some (some data) → s.buffers.strands E.size = false

/-- Nothing is stranded, and every byte that has arrived is in `recvq` or still to be returned. -/
structure Clear (s : Wired σ α) : Prop where
  drained : s.buffers.Drained
  bytes : s.arrived = s.appended ++ s.buffers.bytes

variable {E} {s s' : Wired σ α} {a : Event ε α}

/-- A step that makes no call of `recv`. -/
theorem wired_own {e : ε} {own : σ} (he : E.readable e = false) (hr : E.recv s.own e = none)
    (hs : E.step s.own e = some own) : E.wired s (.own e) = some { s with own } := by
  simp only [wired, he, hr, hs, Bool.false_and, Bool.false_eq_true, if_false, Option.map_some]

/-- A step whose `recv` returns. -/
theorem wired_recv {e : ε} {own : σ} {data : List α} {buffers : Buffers α}
    (he : E.readable e = false) (hr : E.recv s.own e = some (some data))
    (hb : s.buffers.recv E.size = (some data, buffers)) (hs : E.step s.own e = some own) :
    E.wired s (.own e) = some { s with own, buffers, appended := s.appended ++ data } := by
  have happ : (E.recvq own).drop (E.recvq s.own).length = data := by
    rw [E.appends hs hr, List.drop_left]
  simp only [wired, he, hr, hb, hs, Bool.false_and, Bool.false_eq_true, if_false, if_true,
    Option.map_some, happ]

theorem Clear.step (h : Clear s) (ha : E.Whole s a) (hs : E.wired s a = some s') : Clear s' := by
  cases a with
  | arrive r =>
    cases hs
    refine ⟨fun hk => absurd hk (by simp), ?_⟩
    rw [h.bytes]
    simp [Buffers.bytes]
  | own e =>
    simp only [wired, Option.ite_none_left_eq_some] at hs
    obtain ⟨-, hs⟩ := hs
    split at hs
    · obtain ⟨own, -, rfl⟩ := Option.map_eq_some_iff.mp hs
      exact ⟨h.drained, h.bytes⟩
    · obtain ⟨own, -, rfl⟩ := Option.map_eq_some_iff.mp hs
      split
      · rename_i hwait
        have hbytes := Buffers.recv_bytes (n := E.size) (b := s.buffers)
        rw [hwait, Option.getD_none, List.nil_append] at hbytes
        refine ⟨?_, h.bytes.trans (by rw [hbytes])⟩
        rw [Buffers.recv_wait hwait]
        exact fun _ => rfl
      · exact ⟨h.drained, h.bytes⟩
    · rename_i data hrecv
      rw [Option.ite_none_right_eq_some] at hs
      obtain ⟨hdata, hs⟩ := hs
      obtain ⟨own, hown, rfl⟩ := Option.map_eq_some_iff.mp hs
      have hbytes := Buffers.recv_bytes (n := E.size) (b := s.buffers)
      refine ⟨(Buffers.recv_drained_iff h.drained).mpr (ha e data rfl hrecv), ?_⟩
      simp only [E.appends hown hrecv, List.drop_left]
      rw [h.bytes, ← hbytes, hdata, Option.getD_some, List.append_assoc]

/-- Exactly the steps that split the last record leave bytes stranded. -/
theorem drained_iff (h : Clear s) (hs : E.wired s a = some s') :
    s'.buffers.Drained ↔ E.Whole s a := by
  refine ⟨?_, fun ha => (h.step ha hs).drained⟩
  rintro hd e data rfl hrecv
  simp only [wired, hrecv, Option.ite_none_left_eq_some, Option.ite_none_right_eq_some] at hs
  obtain ⟨-, -, hs⟩ := hs
  obtain ⟨own, -, rfl⟩ := Option.map_eq_some_iff.mp hs
  exact (Buffers.recv_drained_iff h.drained).mp hd

/-- The system has not called `recv` yet, and no decrypted bytes wait for it behind an empty
kernel. -/
structure Begins (I : σ → Prop) (s : Wired σ α) : Prop where
  own : I s.own
  drained : s.buffers.Drained
  arrived : s.arrived = s.buffers.bytes
  appended : s.appended = []

variable (E) in
/-- Reachable by steps none of which splits the last record. -/
abbrev Reachable (I : σ → Prop) : Wired σ α → Prop :=
  Transition.Reach (Transition.Fires E.wired) E.Whole (Begins I)

theorem Reachable.of_exec {I : σ → Prop} {own : σ} {as : List (Event ε α)} (hI : I own)
    (hx : Transition.exec E.wired (fun s _ => !s.buffers.strands E.size) { own } as = some s) :
    Reachable E I s := by
  refine .exec (fun s a ha e data _ _ => ?_) (.init ⟨hI, fun _ => rfl, rfl, rfl⟩) hx
  simpa using ha

theorem Reachable.clear {I : σ → Prop} (h : Reachable E I s) : Clear s := by
  apply h.invariant (J := Clear)
  · intro s hs
    exact ⟨hs.drained, by rw [hs.arrived, hs.appended, List.nil_append]⟩
  · exact fun s a s' hc ha hs => hc.step ha hs

/-- Whatever has arrived is in `recvq` when the kernel is empty. -/
theorem Reachable.appended {I : σ → Prop} (h : Reachable E I s) (hk : s.buffers.kernel = []) :
    s.buffers.internal = [] ∧ s.appended = s.arrived := by
  have hc := h.clear
  have hi := hc.drained hk
  refine ⟨hi, ?_⟩
  rw [hc.bytes]
  simp [Buffers.bytes, hk, hi]

end Endpoint
end Tls
