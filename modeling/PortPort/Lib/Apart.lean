import Mathlib.Logic.Basic

/-! # Users kept apart

Users of a resource each, and what they are doing with it. `Apart res P Q` says that no two users,
one that does `P` and another that does `Q`, share a resource. -/

variable {κ ρ : Type*}

def Apart (res : κ → ρ) (P Q : κ → Prop) : Prop := ∀ k l, P k → Q l → k ≠ l → res k ≠ res l

namespace Apart
variable {res res' : κ → ρ} {P P' Q Q' old : κ → Prop}

theorem empty (hP : ∀ k, ¬ P k) : Apart res P Q := fun k _ hk => absurd hk (hP k)

theorem eq {k l : κ} (h : Apart res P Q) (hk : P k) (hl : Q l) (hres : res k = res l) : k = l :=
  not_not.mp fun hne => h k l hk hl hne hres

/-- The old users do no more than before with the resources they had, and a new one shares its
resource with no other user. -/
theorem of_old (h : Apart res P Q) (hP : ∀ k, old k → P' k → P k) (hQ : ∀ k, old k → Q' k → Q k)
    (hres : ∀ k, old k → res' k = res k)
    (hnew : ∀ k l, ¬ old k → P' k → Q' l → k ≠ l → res' k ≠ res' l)
    (hnew' : ∀ k l, ¬ old l → P' k → Q' l → k ≠ l → res' k ≠ res' l) : Apart res' P' Q' := by
  intro k l hk hl hne
  by_cases hok : old k
  · by_cases hol : old l
    · rw [hres k hok, hres l hol]
      exact h k l (hP k hok hk) (hQ l hol hl) hne
    · exact hnew' k l hol hk hl hne
  · exact hnew k l hok hk hl hne

end Apart
