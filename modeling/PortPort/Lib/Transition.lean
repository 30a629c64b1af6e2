import Mathlib.Logic.Relation

/-! # Step systems driven by actions

A system is a relation `step : σ → α → σ → Prop` between a state, an action and the state behind
it; an executable system is a partial function, used through `Fires`. `Reach step P I` is
reachability from an initial state in `I` by steps each of which meets the side condition `P` on
the state before it and its action. -/

namespace Transition

variable {σ τ α β : Type*}

/-- The steps of an executable system, where `none` means that the action is not enabled. -/
abbrev Fires (step : σ → α → Option σ) (s : σ) (a : α) (s' : σ) : Prop := step s a = some s'

/-- Execute a list of actions, each of which must pass a test in the state it is taken in. -/
def exec (step : σ → α → Option σ) (test : σ → α → Bool) (s : σ) : List α → Option σ
  | [] => some s
  | a :: as => if test s a then (step s a).bind (exec step test · as) else none

theorem exec_cons {step : σ → α → Option σ} {test : σ → α → Bool} {s t : σ} {a : α} {as : List α}
    (ha : test s a = true) (hs : step s a = some t) :
    exec step test s (a :: as) = exec step test t as := by
  rw [exec, if_pos ha, hs, Option.bind_some]

theorem exec_append {step : σ → α → Option σ} {test : σ → α → Bool} {s t : σ} {as bs : List α}
    (h : exec step test s as = some t) : exec step test s (as ++ bs) = exec step test t bs := by
  induction as generalizing s with
  | nil =>
    cases h
    rfl
  | cons a as ih =>
    rw [exec, Option.ite_none_right_eq_some] at h
    obtain ⟨ha, u, hu, h⟩ := h.imp_right Option.bind_eq_some_iff.mp
    rw [List.cons_append, exec_cons ha hu]
    exact ih h

theorem exec_mono {step : σ → α → Option σ} {test test' : σ → α → Bool} {s t : σ} {as : List α}
    (htest : ∀ a ∈ as, ∀ s, test s a = true → test' s a = true) (h : exec step test s as = some t) :
    exec step test' s as = some t := by
  induction as generalizing s with
  | nil => exact h
  | cons a as ih =>
    rw [exec, Option.ite_none_right_eq_some] at h
    obtain ⟨ha, u, hu, h⟩ := h.imp_right Option.bind_eq_some_iff.mp
    rw [exec_cons (htest a List.mem_cons_self s ha) hu]
    exact ih (fun b hb => htest b (List.mem_cons_of_mem _ hb)) h

/-- What is computed from the last state of an execution and the state behind one more step. -/
theorem exists_of_exec {step : σ → α → Option σ} {test : σ → α → Bool} {s : σ} {as : List α} {a : α}
    {f : σ → σ → β} {x : β}
    (h : ((exec step test s as).bind fun t => (step t a).map (f t)) = some x) :
    ∃ t u, exec step test s as = some t ∧ step t a = some u ∧ f t u = x := by
  obtain ⟨t, ht, h⟩ := Option.bind_eq_some_iff.mp h
  obtain ⟨u, hu, hx⟩ := Option.map_eq_some_iff.mp h
  exact ⟨t, u, ht, hu, hx⟩

inductive Reach (step : σ → α → σ → Prop) (P : σ → α → Prop) (I : σ → Prop) : σ → Prop
  | init : I s → Reach step P I s
  | step : Reach step P I s → P s a → step s a s' → Reach step P I s'

/-- Any number of steps, each of which meets the side condition. -/
inductive Steps (step : σ → α → σ → Prop) (P : σ → α → Prop) : σ → σ → Prop
  | refl : Steps step P s s
  | tail : Steps step P s t → P t a → step t a u → Steps step P s u

variable {step : σ → α → σ → Prop} {P Q : σ → α → Prop} {I : σ → Prop} {s t u : σ} {a : α}

theorem Steps.single (hp : P s a) (hs : step s a t) : Steps step P s t := .tail .refl hp hs

theorem Steps.trans (h : Steps step P s t) (h' : Steps step P t u) : Steps step P s u := by
  induction h' with
  | refl => exact h
  | tail _ hp hs ih => exact ih.tail hp hs

/-- What every step that meets the side condition preserves is preserved by any number of them. -/
theorem Steps.invariant {J : σ → Prop} (hstep : ∀ s a s', J s → P s a → step s a s' → J s')
    (h : Steps step P s t) (hs : J s) : J t := by
  induction h with
  | refl => exact hs
  | tail _ hp hst ih => exact hstep _ _ _ ih hp hst

theorem Reach.steps (h : Reach step P I s) (h' : Steps step P s t) : Reach step P I t := by
  induction h' with
  | refl => exact h
  | tail _ hp hs ih => exact ih.step hp hs

/-- The invariant rule: what holds initially and is preserved by every step that meets the side
condition holds in every reachable state. -/
theorem Reach.invariant {J : σ → Prop} (h0 : ∀ s, I s → J s)
    (hstep : ∀ s a s', J s → P s a → step s a s' → J s') (h : Reach step P I s) : J s := by
  induction h with
  | init hi => exact h0 _ hi
  | step _ hp hs ih => exact hstep _ _ _ ih hp hs

/-- The invariant rule where the step may use another invariant. -/
theorem Reach.invariant_of {J K : σ → Prop} (hK : ∀ s, Reach step P I s → K s)
    (h0 : ∀ s, I s → J s) (hstep : ∀ s a s', K s → J s → P s a → step s a s' → J s')
    (h : Reach step P I s) : J s := by
  induction h with
  | init hi => exact h0 _ hi
  | step hr hp hs ih => exact hstep _ _ _ (hK _ hr) ih hp hs

theorem Reach.mono (hPQ : ∀ s a, P s a → Q s a) (h : Reach step P I s) : Reach step Q I s :=
  h.invariant (fun _ hi => .init hi) fun _ _ _ ih hp hs => ih.step (hPQ _ _ hp) hs

/-- Executing actions that pass a test for the side condition takes steps. -/
theorem Steps.exec {step : σ → α → Option σ} {test : σ → α → Bool} {as : List α}
    (htest : ∀ s a, test s a → P s a) (hx : Transition.exec step test s as = some t) :
    Steps (Fires step) P s t := by
  induction as generalizing s with
  | nil => cases hx; exact .refl
  | cons a as ih =>
    rw [Transition.exec, Option.ite_none_right_eq_some] at hx
    obtain ⟨ha, hx⟩ := hx
    obtain ⟨u, hu, hx⟩ := Option.bind_eq_some_iff.mp hx
    exact (Steps.single (htest _ _ ha) hu).trans (ih hx)

theorem Reach.exec {step : σ → α → Option σ} {test : σ → α → Bool} {as : List α}
    (htest : ∀ s a, test s a → P s a) (h : Reach (Fires step) P I s)
    (hx : Transition.exec step test s as = some t) : Reach (Fires step) P I t :=
  h.steps (.exec htest hx)

/-- The simulation rule: a relation that holds initially, and that follows every step from a state
related to a reachable one by some number of steps of the other system, relates every reachable
state to a reachable one. -/
theorem Reach.simulates {step' : τ → β → τ → Prop} {P' : τ → β → Prop} {I' : τ → Prop}
    {R : σ → τ → Prop} (h0 : ∀ s, I s → ∃ t, I' t ∧ R s t)
    (hstep : ∀ s a s' t, Reach step' P' I' t → R s t → P s a → step s a s' →
      ∃ t', Steps step' P' t t' ∧ R s' t')
    (h : Reach step P I s) : ∃ t, Reach step' P' I' t ∧ R s t := by
  induction h with
  | init hi => exact let ⟨t, hi', hr⟩ := h0 _ hi; ⟨t, .init hi', hr⟩
  | step _ hp hs ih =>
    obtain ⟨t, ht, hr⟩ := ih
    obtain ⟨t', ht', hr'⟩ := hstep _ _ _ t ht hr hp hs
    exact ⟨t', ht.steps ht', hr'⟩

end Transition
