import Mathlib.Data.Prod.Lex
import Mathlib.Order.Filter.AtTopBot.Basic
import PortPort.Lib.Progress

/-! # Event loops

A thread calls `select`, then a callback for each event that this has returned, then it works off
what it has received and at last what waits in a queue, each for a bounded number of turns. In a run
that is fair to it the thread comes to each of these places again and again; and if its selector
reports a socket that is ready, and the socket moves bytes when it is called back, each again and
again, then bytes move again and again. -/

open Filter Transition

namespace EventLoop

/-- Where the thread stands. -/
inductive Place (ε : Type*)
  | top
  | dispatch (events : List ε)
  | recv
  | drain

variable {ε σ α : Type*}

/-- A step of the thread, with the turns that are left at most in the loop it is in. -/
inductive Next : Place ε → ℕ → Place ε → ℕ → Prop
  | selects (events : List ε) : Next .top n (.dispatch events) m
  | calls : Next (.dispatch (e :: events)) n (.dispatch events) m
  | dispatched : Next (.dispatch []) n .recv m
  | receives (h : m < n) : Next .recv n .recv m
  | begins (h : 0 < m) : Next .recv n .drain m
  | drains (h : m < n) : Next .drain n .drain m
  | ends : Next .drain n .top m

/-- The places in the order in which the thread comes to them. -/
def Place.index : Place ε → ℕ → ℕ
  | .top, _ => 0
  | .dispatch _, _ => 1
  | .recv, _ => 2
  | .drain, n => if 0 < n then 3 else 4

/-- The steps to the next place, at most. -/
def Place.turns : Place ε → ℕ → ℕ
  | .top, _ => 0
  | .dispatch events, _ => events.length
  | .recv, n | .drain, n => n

/-- How far the thread is from the place `g`. -/
def Place.distance (g : ℕ) (p : Place ε) (n : ℕ) : ℕ ×ₗ ℕ :=
  toLex ((g + 5 - p.index n) % 5, p.turns n)

theorem Next.closer {p p' : Place ε} {n n' g : ℕ} (h : Next p n p' n') (hg : g < 4)
    (hp : p.index n ≠ g) : p'.distance g n' < p.distance g n := by
  unfold Place.distance
  rw [Prod.Lex.toLex_lt_toLex]
  cases h with
  | selects | dispatched | ends | begins =>
    simp only [Place.index] at hp ⊢
    grind
  | calls => simp [Place.index, Place.turns]
  | receives hlt => simp [Place.index, Place.turns, hlt]
  | drains hlt =>
    simp only [Place.index, Place.turns] at hp ⊢
    grind

/-- A thread that runs an event loop as long as `K` holds. -/
structure Thread (step : σ → α → σ → Prop) (own : α → Prop) (K : σ → Prop) (ε : Type*) where
  place : σ → Place ε
  /-- the turns that are left, at most, in the loop it is in -/
  left : σ → ℕ
  enabled : ∀ s, K s → Enabled step own s
  others : ∀ s a t, K s → step s a t → ¬ own a → place t = place s ∧ left t = left s
  next : ∀ s a t, K s → K t → step s a t → own a → Next (place s) (left s) (place t) (left t)

namespace Thread
variable {step : σ → α → σ → Prop} {own : α → Prop} {K : σ → Prop} {ρ : Run step}

/-- The thread stands at the place `g`. -/
def At (T : Thread step own K ε) (g : ℕ) (s : σ) : Prop := (T.place s).index (T.left s) = g

section
variable (T : Thread step own K ε) (hK : ∀ i, K (ρ.state i)) (hfair : ρ.Fair own)
include hK hfair

/-- The thread goes on from where it stands. -/
theorem acts (i : ℕ) : ∃ j ≥ i, own (ρ.act j) ∧ T.place (ρ.state j) = T.place (ρ.state i) ∧
    T.left (ρ.state j) = T.left (ρ.state i) := by
  obtain ⟨j, hj, hown⟩ := hfair i fun j _ => T.enabled _ (hK j)
  induction hn : j - i using Nat.strong_induction_on generalizing j with
  | _ n ih =>
    by_cases hfirst : ∃ k, i ≤ k ∧ k < j ∧ own (ρ.act k)
    · obtain ⟨k, hk, hkj, hown⟩ := hfirst
      exact ih (k - i) (by omega) k hk hown rfl
    · have hwaits (k : ℕ) (hk : i ≤ k) (hkj : k ≤ j) : T.place (ρ.state k) = T.place (ρ.state i) ∧
          T.left (ρ.state k) = T.left (ρ.state i) := by
        induction k, hk using Nat.le_induction with
        | base => exact ⟨rfl, rfl⟩
        | succ k hk ih =>
          have hstays := T.others _ _ _ (hK k) (ρ.moves k) fun ho => hfirst ⟨k, hk, hkj, ho⟩
          obtain ⟨hplace, hleft⟩ := ih (by omega)
          exact ⟨hstays.1.trans hplace, hstays.2.trans hleft⟩
      exact ⟨j, hj, hown, hwaits j hj (Nat.le_refl j)⟩

theorem arrives {g : ℕ} (hg : g < 4) (i : ℕ) : ∃ j ≥ i, own (ρ.act j) ∧ T.At g (ρ.state j) := by
  generalize hd : (T.place (ρ.state i)).distance g (T.left (ρ.state i)) = d
  induction d using WellFoundedLT.induction generalizing i with
  | ind d ih =>
    obtain ⟨j, hj, hown, hplace, hleft⟩ := T.acts hK hfair i
    by_cases hat : T.At g (ρ.state j)
    · exact ⟨j, hj, hown, hat⟩
    · have hnext := T.next _ _ _ (hK j) (hK (j + 1)) (ρ.moves j) hown
      have hlt := hnext.closer hg hat
      rw [hplace, hleft, hd] at hlt
      obtain ⟨k, hk, hk'⟩ := ih _ hlt (j + 1) rfl
      exact ⟨k, by omega, hk'⟩

/-- The thread comes to each place again and again. -/
theorem recurs {g : ℕ} (hg : g < 4) : ∃ᶠ j in atTop, own (ρ.act j) ∧ T.At g (ρ.state j) :=
  frequently_atTop.mpr (T.arrives hK hfair hg)

end

/-! ## Sockets -/

/-- What has a chance again and again happens again and again. -/
def Recurs (chance good : ℕ → Prop) : Prop :=
  (∃ᶠ j in atTop, chance j) → ∃ᶠ j in atTop, chance j ∧ good j

/-- The thread stands before the callback for an event of this kind. -/
def Calls (want : ε → Prop) (p : Place ε) : Prop := ∃ e events, p = .dispatch (e :: events) ∧ want e

/-- What the thread may expect of a socket: where it is registered and ready, again and again
`select` reports it, and, again and again, a callback for it moves bytes. -/
structure Serves (T : Thread step own K ε) (ρ : Run step) (registered ready : σ → Prop)
    (want : ε → Prop) (good : α → Prop) : Prop where
  reports : Recurs
    (fun j => own (ρ.act j) ∧ T.At 0 (ρ.state j) ∧ registered (ρ.state j) ∧ ready (ρ.state j))
    fun j => ∃ events, T.place (ρ.state (j + 1)) = .dispatch events ∧ ∃ e ∈ events, want e
  moves : Recurs
    (fun j => own (ρ.act j) ∧ Calls want (T.place (ρ.state j)) ∧ ready (ρ.state j))
    fun j => good (ρ.act j)

variable {T : Thread step own K ε} {registered ready : σ → Prop} {want : ε → Prop}
  {good : α → Prop}

/-- Nothing is asked of a socket that is not ready any more. -/
theorem Serves.of_never (h : ∀ᶠ j in atTop, ¬ ready (ρ.state j)) :
    T.Serves ρ registered ready want good where
  reports hchance :=
    absurd h (hchance.mono fun _ hj => hj.2.2.2)
  moves hchance :=
    absurd h (hchance.mono fun _ hj => hj.2.2)

/-- An event that `select` has returned is dispatched. -/
theorem dispatches (hK : ∀ i, K (ρ.state i)) (hfair : ρ.Fair own) {i : ℕ} {events : List ε} {e : ε}
    (hp : T.place (ρ.state i) = .dispatch events) (he : e ∈ events) (hw : want e) :
    ∃ j ≥ i, own (ρ.act j) ∧ Calls want (T.place (ρ.state j)) := by
  induction events generalizing i with
  | nil => cases he
  | cons e' events ih =>
    obtain ⟨j, hj, hown, hplace, -⟩ := T.acts hK hfair i
    rw [hp] at hplace
    by_cases hw' : want e'
    · exact ⟨j, hj, hown, e', events, hplace, hw'⟩
    · have hmem : e ∈ events := by
        rcases List.mem_cons.mp he with rfl | hmem
        · exact absurd hw hw'
        · exact hmem
      have hnext := T.next _ _ _ (hK j) (hK (j + 1)) (ρ.moves j) hown
      rw [hplace] at hnext
      generalize hp' : T.place (ρ.state (j + 1)) = p' at hnext
      cases hnext with
      | calls =>
        obtain ⟨k, hk, hk'⟩ := ih hp' hmem
        exact ⟨k, by omega, hk'⟩

/-- A socket that stays ready, and is registered whenever `select` is called, moves bytes. -/
theorem Serves.again (h : T.Serves ρ registered ready want good) (hK : ∀ i, K (ρ.state i))
    (hfair : ρ.Fair own) (hregistered : ∀ i, T.At 0 (ρ.state i) → ready (ρ.state i) →
      registered (ρ.state i))
    (hready : ∀ᶠ j in atTop, ready (ρ.state j)) : ∃ᶠ j in atTop, own (ρ.act j) ∧
      Calls want (T.place (ρ.state j)) ∧ ready (ρ.state j) ∧ good (ρ.act j) := by
  have htop : ∃ᶠ j in atTop, own (ρ.act j) ∧ T.At 0 (ρ.state j) ∧ registered (ρ.state j) ∧
      ready (ρ.state j) := by
    refine ((T.recurs hK hfair (Nat.succ_pos 3)).and_eventually hready).mono ?_
    rintro j ⟨⟨hown, hat⟩, hj⟩
    exact ⟨hown, hat, hregistered j hat hj, hj⟩
  have hcalls : ∃ᶠ j in atTop, own (ρ.act j) ∧ Calls want (T.place (ρ.state j)) := by
    refine frequently_atTop.mpr fun i => ?_
    obtain ⟨j, hj, -, events, hp, e, he, hw⟩ := frequently_atTop.mp (h.reports htop) i
    obtain ⟨k, hk, hk'⟩ := dispatches hK hfair hp he hw
    exact ⟨k, by omega, hk'⟩
  refine (h.moves ((hcalls.and_eventually hready).mono ?_)).mono ?_
  · rintro j ⟨⟨hown, hc⟩, hj⟩
    exact ⟨hown, hc, hj⟩
  · rintro j ⟨⟨hown, hc, hj⟩, hg⟩
    exact ⟨hown, hc, hj, hg⟩

end Thread
end EventLoop
