import Mathlib.Data.Nat.Find
import Mathlib.Order.WellFounded
import PortPort.Lib.Transition

/-! # Fair runs and progress

A system of several parties is given by its steps and by the actions `own p` of each party `p`. In
an infinite run that is fair to a party, the party takes a step whenever it could take one at all
times from some time on. The progress rule derives that a goal is reached from a rank and from a
choice, in every state, of one party whose steps lower the rank and that stays able to take one. -/

namespace Transition

variable {σ α ι β : Type*} {step : σ → α → σ → Prop} {P : σ → α → Prop} {I : σ → Prop}

/-- An infinite run. -/
structure Run (step : σ → α → σ → Prop) where
  state : ℕ → σ
  act : ℕ → α
  moves : ∀ i, step (state i) (act i) (state (i + 1))

/-- The party with these actions can take a step. -/
def Enabled (step : σ → α → σ → Prop) (own : α → Prop) (s : σ) : Prop := ∃ a t, own a ∧ step s a t

namespace Run

/-- A party that is able to take a step from some time on takes one. -/
def Fair (ρ : Run step) (own : α → Prop) : Prop :=
  ∀ i, (∀ j ≥ i, Enabled step own (ρ.state j)) → ∃ j ≥ i, own (ρ.act j)

theorem reach {ρ : Run step} (hP : ∀ i, P (ρ.state i) (ρ.act i))
    (h : Reach step P I (ρ.state 0)) (i : ℕ) : Reach step P I (ρ.state i) := by
  induction i with
  | zero => exact h
  | succ i ih => exact ih.step (hP i) (ρ.moves i)

/-- What every step keeps holds from some time on. -/
theorem keeps {ρ : Run step} {J : σ → Prop} (hstep : ∀ s a t, J s → step s a t → J t) {i : ℕ}
    (h : J (ρ.state i)) {j : ℕ} (hj : i ≤ j) : J (ρ.state j) := by
  induction j, hj using Nat.le_induction with
  | base => exact h
  | succ j _ ih => exact hstep _ _ _ ih (ρ.moves j)

/-- Put a step in front of a run. -/
def cons {s : σ} {a : α} (ρ : Run step) (h : step s a (ρ.state 0)) : Run step where
  state
    | 0 => s
    | i + 1 => ρ.state i
  act
    | 0 => a
    | i + 1 => ρ.act i
  moves i := by
    cases i with
    | zero => exact h
    | succ i => exact ρ.moves i

/-- Put any number of steps in front of a run. -/
theorem exists_prepend {s t : σ} (h : Steps step P s t) (ρ : Run step) (hρ : ρ.state 0 = t) :
    ∃ ρ' : Run step, ρ'.state 0 = s ∧ ∃ k, (∀ i < k, P (ρ'.state i) (ρ'.act i)) ∧
      ∀ j, ρ'.state (j + k) = ρ.state j ∧ ρ'.act (j + k) = ρ.act j := by
  induction h generalizing ρ with
  | refl => exact ⟨ρ, hρ, 0, fun i hi => absurd hi (Nat.not_lt_zero i), fun _ => ⟨rfl, rfl⟩⟩
  | @tail t u a _ hp hs ih =>
    obtain ⟨ρ', hρ', k, hbefore, hk⟩ := ih (ρ.cons (hρ ▸ hs)) rfl
    refine ⟨ρ', hρ', k + 1, fun i hi => ?_, fun j => ?_⟩
    · rcases Nat.lt_succ_iff_lt_or_eq.mp hi with hlt | rfl
      · exact hbefore i hlt
      · obtain ⟨hstate, hact⟩ := hk 0
        rw [Nat.zero_add] at hstate hact
        rw [hstate, hact]
        exact hp
    · rw [← Nat.add_assoc, Nat.add_right_comm]
      exact hk (j + 1)

/-- Any number of steps begin a run that comes to rest behind them, in a state that some action
leaves as it is. -/
theorem exists_of_steps {s t : σ} {a : α} (h : Steps step P s t) (hidle : step t a t) :
    ∃ ρ : Run step, ρ.state 0 = s ∧ ∃ n, ∀ j ≥ n, ρ.state j = t := by
  obtain ⟨ρ, hρ, k, -, hk⟩ := exists_prepend h ⟨fun _ => t, fun _ => a, fun _ => hidle⟩ rfl
  refine ⟨ρ, hρ, k, fun j hj => ?_⟩
  obtain ⟨j, rfl⟩ := Nat.exists_eq_add_of_le' hj
  exact (hk j).1

/-- Actions of a cycle that are still to be executed. -/
structure Todo (f : σ → α → Option σ) (test : σ → α → Bool) (t : σ) where
  state : σ
  act : α
  rest : List α
  exec : exec f test state (act :: rest) = some t

/-- Actions that lead back to the state they begin in are executed again and again in some run. -/
theorem exists_cycle {f : σ → α → Option σ} {test : σ → α → Bool} {t : σ} {a : α} {as : List α}
    (h : exec f test t (a :: as) = some t) : ∃ ρ : Run (Fires f), ρ.state 0 = t ∧
      (∀ i, test (ρ.state i) (ρ.act i) = true) ∧ ∀ b ∈ a :: as, ∀ i, ∃ j ≥ i, ρ.act j = b := by
  have hnext (c : Todo f test t) : ∃ c' : Todo f test t, test c.state c.act = true ∧
      f c.state c.act = some c'.state ∧
        c'.act :: c'.rest = if c.rest = [] then a :: as else c.rest := by
    obtain ⟨s, b, bs, hx⟩ := c
    rw [Transition.exec, Option.ite_none_right_eq_some] at hx
    obtain ⟨hb, u, hu, hx⟩ := hx.imp_right Option.bind_eq_some_iff.mp
    cases bs with
    | nil =>
      cases hx
      exact ⟨⟨_, a, as, h⟩, hb, hu, rfl⟩
    | cons b' bs => exact ⟨⟨u, b', bs, hx⟩, hb, hu, rfl⟩
  choose next htest hmoves htodo using hnext
  have hcons {c : Todo f test t} {b : α} {bs : List α} (hc : c.rest = b :: bs) :
      (next c).act = b ∧ (next c).rest = bs := by
    have hc' := htodo c
    rw [if_neg (by rw [hc]; exact List.cons_ne_nil b bs), hc] at hc'
    exact List.cons.inj hc'
  -- what is still to be executed is executed, and then the cycle begins again
  have hcovers (c : Todo f test t) (b : α) (hb : b ∈ c.act :: c.rest) :
      ∃ k, (next^[k] c).act = b := by
    rcases List.mem_cons.mp hb with rfl | hb
    · exact ⟨0, rfl⟩
    · generalize hbs : c.rest = bs at hb
      induction bs generalizing c with
      | nil => cases hb
      | cons b' bs ih =>
        obtain ⟨hact, hrest⟩ := hcons hbs
        rcases List.mem_cons.mp hb with rfl | hb
        · exact ⟨1, hact⟩
        · obtain ⟨k, hk⟩ := ih (next c) (List.mem_cons_of_mem _ (hrest ▸ hb)) hrest hb
          exact ⟨k + 1, hk⟩
  have hbegins (c : Todo f test t) : ∃ k, (next^[k] c).act :: (next^[k] c).rest = a :: as := by
    generalize hbs : c.rest = bs
    induction bs generalizing c with
    | nil => exact ⟨1, (htodo c).trans (if_pos hbs)⟩
    | cons b' bs ih =>
      obtain ⟨k, hk⟩ := ih (next c) (hcons hbs).2
      exact ⟨k + 1, hk⟩
  refine ⟨⟨fun i => (next^[i] ⟨t, a, as, h⟩).state, fun i => (next^[i] ⟨t, a, as, h⟩).act,
    fun i => ?_⟩, rfl, fun i => htest _, fun b hb i => ?_⟩
  · rw [Function.iterate_succ_apply']
    exact hmoves _
  · obtain ⟨k, hk⟩ := hbegins (next^[i] ⟨t, a, as, h⟩)
    obtain ⟨k', hk'⟩ := hcovers _ b (hk.symm ▸ hb)
    rw [← Function.iterate_add_apply, ← Function.iterate_add_apply] at hk'
    exact ⟨k' + k + i, Nat.le_add_left .., hk'⟩

/-- A run is fair to a party that cannot take a step where the run comes to rest. -/
theorem fair_of_rest {ρ : Run step} {t : σ} {n : ℕ} {own : α → Prop}
    (hrest : ∀ j ≥ n, ρ.state j = t) (hdead : ¬ Enabled step own t) : ρ.Fair own := by
  intro i hen
  refine absurd (hen (max i n) (le_max_left i n)) ?_
  rw [hrest _ (le_max_right i n)]
  exact hdead

/-- A party that can take a step at any time comes to the goal, if each of its steps is one to the
goal or lowers the rank, which the steps of the others leave as it is. -/
theorem Fair.leadsTo [Preorder β] [WellFoundedLT β] {ρ : Run step} {own : α → Prop}
    (hfair : ρ.Fair own) (rank : σ → β) {goal : ℕ → Prop} {i : ℕ}
    (henabled : ∀ j ≥ i, Enabled step own (ρ.state j))
    (howns : ∀ j ≥ i, own (ρ.act j) → goal j ∨ rank (ρ.state (j + 1)) < rank (ρ.state j))
    (hothers : ∀ j ≥ i, ¬ own (ρ.act j) → rank (ρ.state (j + 1)) = rank (ρ.state j)) :
    ∃ j ≥ i, goal j := by
  classical
  generalize hr : rank (ρ.state i) = r
  induction r using WellFoundedLT.induction generalizing i with
  | ind r ih =>
    -- the first step that the party takes
    have hsome := hfair i henabled
    obtain ⟨hj, hown⟩ := Nat.find_spec hsome
    have hwaits (k : ℕ) (hk : i ≤ k) (hkj : k ≤ Nat.find hsome) : rank (ρ.state k) = r := by
      induction k, hk using Nat.le_induction with
      | base => exact hr
      | succ k hk ihk =>
        have hnot : ¬ own (ρ.act k) := fun ho => Nat.find_min hsome hkj ⟨hk, ho⟩
        rw [hothers k hk hnot, ihk (Nat.le_of_succ_le hkj)]
    rcases howns _ hj hown with hg | hlt
    · exact ⟨_, hj, hg⟩
    · rw [hwaits _ hj (Nat.le_refl _)] at hlt
      have hle := Nat.le_succ_of_le hj
      obtain ⟨k, hk, hg⟩ := ih _ hlt (fun l hl => henabled l (hle.trans hl))
        (fun l hl => howns l (hle.trans hl)) (fun l hl => hothers l (hle.trans hl)) rfl
      exact ⟨k, hle.trans hk, hg⟩

end Run

/-! ## The progress rule -/

/-- What makes the parties come from `K` to `goal`: in every state of `K` the party that helps can
take a step, each of its steps lowers the rank, and no other step raises the rank or, where the
rank stays, changes who helps. -/
structure Progress [Preorder β] (step : σ → α → σ → Prop) (own : ι → α → Prop) (K goal : σ → Prop)
    (rank : σ → β) (helper : σ → ι) : Prop where
  enabled : ∀ s, K s → ¬ goal s → Enabled step (own (helper s)) s
  helps : ∀ s a t, K s → ¬ goal s → step s a t → own (helper s) a → goal t ∨ K t ∧ rank t < rank s
  waits : ∀ s a t, K s → ¬ goal s → step s a t → ¬ own (helper s) a →
    goal t ∨ K t ∧ (rank t < rank s ∨ rank t = rank s ∧ helper t = helper s)

variable [Preorder β] {own : ι → α → Prop} {K goal : σ → Prop} {rank : σ → β} {helper : σ → ι}

/-- As long as the party that helps takes no step, the rank falls or it goes on helping. -/
theorem Progress.until (h : Progress step own K goal rank helper) {ρ : Run step} {i j : ℕ}
    (hK : K (ρ.state i)) (hj : i ≤ j)
    (hown : ∀ k, i ≤ k → k < j → ¬ own (helper (ρ.state i)) (ρ.act k)) :
    (∃ k ≥ i, goal (ρ.state k) ∨ K (ρ.state k) ∧ rank (ρ.state k) < rank (ρ.state i)) ∨
      K (ρ.state j) ∧ rank (ρ.state j) = rank (ρ.state i) ∧
        helper (ρ.state j) = helper (ρ.state i) := by
  induction j, hj using Nat.le_induction with
  | base => exact .inr ⟨hK, rfl, rfl⟩
  | succ j hj ih =>
    rcases ih fun k hk hkj => hown k hk (hkj.trans j.lt_succ_self) with hsome | ⟨hKj, hrank, hhelp⟩
    · exact .inl hsome
    · by_cases hg : goal (ρ.state j)
      · exact .inl ⟨j, hj, .inl hg⟩
      · have hnot := hown j hj j.lt_succ_self
        rw [← hhelp] at hnot
        rcases h.waits _ _ _ hKj hg (ρ.moves j) hnot with hg' | ⟨hK', hlt | ⟨heq, hsame⟩⟩
        · exact .inl ⟨j + 1, hj.trans j.le_succ, .inl hg'⟩
        · exact .inl ⟨j + 1, hj.trans j.le_succ, .inr ⟨hK', hrank ▸ hlt⟩⟩
        · exact .inr ⟨hK', heq.trans hrank, hsame.trans hhelp⟩

/-- The progress rule. -/
theorem Progress.leadsTo [WellFoundedLT β] (h : Progress step own K goal rank helper)
    {ρ : Run step} (hfair : ∀ p, ρ.Fair (own p)) {i : ℕ} (hK : K (ρ.state i)) :
    ∃ j ≥ i, goal (ρ.state j) := by
  generalize hr : rank (ρ.state i) = r
  induction r using WellFoundedLT.induction generalizing i with
  | ind r ih =>
    subst hr
    -- the rank falls, or the goal is reached
    suffices hfalls : ∃ k ≥ i, goal (ρ.state k) ∨
        K (ρ.state k) ∧ rank (ρ.state k) < rank (ρ.state i) by
      obtain ⟨k, hk, hg | ⟨hKk, hlt⟩⟩ := hfalls
      · exact ⟨k, hk, hg⟩
      · obtain ⟨j, hj, hg⟩ := ih _ hlt hKk rfl
        exact ⟨j, hk.trans hj, hg⟩
    by_contra hnever
    have hwaits {j : ℕ} (hj : i ≤ j)
        (hown : ∀ k, i ≤ k → k < j → ¬ own (helper (ρ.state i)) (ρ.act k)) :=
      (h.until hK hj hown).resolve_left hnever
    have hgoal {j : ℕ} (hj : i ≤ j) : ¬ goal (ρ.state j) := fun hg => hnever ⟨j, hj, .inl hg⟩
    -- the party that helps takes no step, for the first one would lower the rank
    have hown : ∀ k, i ≤ k → ¬ own (helper (ρ.state i)) (ρ.act k) := by
      intro k
      induction k using Nat.strong_induction_on with
      | h k ih' =>
        intro hk ho
        obtain ⟨hKk, hrank, hhelp⟩ := hwaits hk fun l hl hlk => ih' l hlk hl
        rw [← hhelp] at ho
        rcases h.helps _ _ _ hKk (hgoal hk) (ρ.moves k) ho with hg | ⟨hK', hlt⟩
        · exact hgoal (hk.trans k.le_succ) hg
        · exact hnever ⟨k + 1, hk.trans k.le_succ, .inr ⟨hK', hrank ▸ hlt⟩⟩
    obtain ⟨j, hj, ho⟩ := hfair (helper (ρ.state i)) i fun j hj => by
      obtain ⟨hKj, -, hhelp⟩ := hwaits hj fun k hk _ => hown k hk
      exact hhelp ▸ h.enabled _ hKj (hgoal hj)
    exact hown j hj ho

end Transition
