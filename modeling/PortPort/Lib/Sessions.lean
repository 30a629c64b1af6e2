import Mathlib.Data.List.Basic

/-! # Streams of sessions

A session is a start, any number of items and a stop. `Sessions.run` reads a stream of such marks
and keeps whether a session is open; it gets stuck on a mark that is out of place. -/

namespace Sessions

inductive Mark
  | start | item | stop
  deriving DecidableEq

/-- Whether a session is open behind the stream, where `b` says whether one is before it. -/
def run : Bool → List Mark → Option Bool
  | b, [] => some b
  | false, .start :: ms => run true ms
  | true, .item :: ms => run true ms
  | true, .stop :: ms => run false ms
  | _, _ => none

/-- The stream is `(start item* stop)*`. -/
def Whole (ms : List Mark) : Prop :=
  ∃ ns : List Nat, ms = ns.flatMap fun n => .start :: (List.replicate n .item ++ [.stop])

variable {b c : Bool} {ms ms' : List Mark}

theorem run_append (b : Bool) (ms ms' : List Mark) :
    run b (ms ++ ms') = (run b ms).bind (run · ms') := by
  induction ms generalizing b with
  | nil => rfl
  | cons m ms ih =>
    cases b <;> cases m <;> first | exact ih _ | rfl

theorem run_append_of (h : run b ms = some c) : run b (ms ++ ms') = run c ms' := by
  rw [run_append, h, Option.bind_some]

/-- Where no session is open at the end, the stream is whole, or, if one was open at the beginning,
what is behind its end is. -/
theorem whole_of_run (h : run b ms = some false) : if b then
    ∃ n ms', ms = List.replicate n .item ++ .stop :: ms' ∧ Whole ms' else Whole ms := by
  induction ms generalizing b with
  | nil =>
    cases h
    exact ⟨[], rfl⟩
  | cons m ms ih =>
    match b, m, h with
    | false, .start, h =>
      obtain ⟨n, ms', rfl, ns, rfl⟩ := ih (b := true) h
      refine ⟨n :: ns, ?_⟩
      rw [List.flatMap_cons]
      simp
    | true, .item, h =>
      obtain ⟨n, ms', rfl, hw⟩ := ih (b := true) h
      exact ⟨n + 1, ms', rfl, hw⟩
    | true, .stop, h => exact ⟨0, ms, rfl, ih (b := false) h⟩

theorem run_whole (h : Whole ms) : run false ms = some false := by
  have hitems (n : Nat) : run true (List.replicate n .item ++ [.stop]) = some false := by
    induction n with
    | zero => rfl
    | succ n ih => exact ih
  obtain ⟨ns, rfl⟩ := h
  induction ns with
  | nil => rfl
  | cons n ns ih =>
    rw [List.flatMap_cons, List.cons_append]
    exact (run_append_of (hitems n)).trans ih

theorem whole_iff : Whole ms ↔ run false ms = some false := ⟨run_whole, whole_of_run⟩

/-- A stream on which `run` does not get stuck is the beginning of a whole one. -/
theorem prefix_of_run (h : run false ms = some b) : ∃ w, Whole w ∧ ms <+: w := by
  cases b with
  | false => exact ⟨ms, whole_iff.mpr h, List.prefix_refl _⟩
  | true => exact ⟨ms ++ [.stop], whole_iff.mpr (run_append_of h), List.prefix_append ..⟩

end Sessions
