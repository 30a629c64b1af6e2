import PortPort.Lib.Dict

/-! # Routing by a table that changes

A router makes receivers, one after the other, and registers each under a key; an item that names a
key is handed to the receiver registered under it then, if there is one. What a receiver gets
depends on no item that names another key (`run_without`). -/

namespace Routing

variable {κ μ : Type*}

inductive Cmd (κ μ : Type*)
  /-- a new receiver is registered under the key, in the place of the one that was -/
  | register (k : κ)
  | remove (k : κ)
  | deliver (k : κ) (x : μ)
  | skip

structure Router (κ μ : Type*) where
  /-- so many receivers have been made -/
  made : Nat := 0
  table : Dict κ Nat := ∅
  /-- the key each receiver has been registered under -/
  key : Nat → Option κ := fun _ => none
  received : Nat → List μ := fun _ => []

namespace Router
variable [DecidableEq κ]

def step (r : Router κ μ) : Cmd κ μ → Router κ μ
  | .register k =>
    { r with
      made := r.made + 1
      table := r.table.set k r.made
      key := Function.update r.key r.made (some k) }
  | .remove k => { r with table := r.table.erase k }
  | .deliver k x =>
    match r.table.lookup k with
    | some n => { r with received := Function.update r.received n (r.received n ++ [x]) }
    | none => r
  | .skip => r

def run (r : Router κ μ) (cs : List (Cmd κ μ)) : Router κ μ := cs.foldl step r

theorem step_deliver_some {r : Router κ μ} {k : κ} {n : Nat} (h : r.table.lookup k = some n)
    (x : μ) : r.step (.deliver k x) =
      { r with received := Function.update r.received n (r.received n ++ [x]) } := by
  simp only [step, h]

theorem step_deliver_none {r : Router κ μ} {k : κ} (h : r.table.lookup k = none) (x : μ) :
    r.step (.deliver k x) = r := by
  simp only [step, h]

/-- What the command hands to the receiver. -/
def handed (r : Router κ μ) (n : Nat) : Cmd κ μ → List μ
  | .deliver k x => if r.table.lookup k = some n then [x] else []
  | _ => []

theorem handed_of_ne (r : Router κ μ) (n : Nat) {c : Cmd κ μ} (h : ∀ k x, c ≠ .deliver k x) :
    r.handed n c = [] := by
  cases c with
  | deliver k x => exact absurd rfl (h k x)
  | _ => rfl

theorem step_received (r : Router κ μ) (c : Cmd κ μ) (n : Nat) :
    (r.step c).received n = r.received n ++ r.handed n c := by
  cases c with
  | deliver k x =>
    cases hl : r.table.lookup k with
    | some m =>
      rw [step_deliver_some hl, handed, hl]
      by_cases hmn : n = m
      · subst hmn
        simp
      · simp [hmn, Ne.symm hmn]
    | none =>
      rw [step_deliver_none hl, handed, hl]
      simp
  | _ => exact (List.append_nil _).symm

/-! ## Keys -/

/-- A receiver in the table stands under its key, and one still to be made has none. -/
structure Keyed (r : Router κ μ) : Prop where
  entry : ∀ k n, r.table.lookup k = some n → n < r.made ∧ r.key n = some k
  fresh : ∀ n, r.made ≤ n → r.key n = none

theorem Keyed.init : Keyed ({} : Router κ μ) := ⟨nofun, fun _ _ => rfl⟩

theorem Keyed.step {r : Router κ μ} (h : r.Keyed) (c : Cmd κ μ) : (r.step c).Keyed := by
  cases c with
  | register k =>
    refine ⟨fun k' n hl => ?_, fun n hn => ?_⟩
    · simp only [Router.step, Dict.lookup_set] at hl ⊢
      split at hl
      · rename_i hk
        cases hl
        rw [Function.update_self, hk]
        exact ⟨Nat.lt_succ_self _, rfl⟩
      · obtain ⟨hlt, hkey⟩ := h.entry k' n hl
        rw [Function.update_of_ne (Nat.ne_of_lt hlt)]
        exact ⟨Nat.lt_succ_of_lt hlt, hkey⟩
    · have hlt : r.made < n := hn
      simp only [Router.step]
      rw [Function.update_of_ne (Nat.ne_of_gt hlt)]
      exact h.fresh n (Nat.le_of_lt hlt)
  | remove k =>
    refine ⟨fun k' n hl => ?_, h.fresh⟩
    simp only [Router.step, Dict.lookup_erase] at hl
    split at hl
    · cases hl
    · exact h.entry k' n hl
  | deliver k x =>
    cases hl : r.table.lookup k with
    | some n =>
      rw [step_deliver_some hl]
      exact ⟨h.entry, h.fresh⟩
    | none =>
      rw [step_deliver_none hl]
      exact h
  | skip => exact h

/-! ## Items that name another key -/

/-- The routers differ in nothing but what receivers under `k` have received. -/
structure AgreeBut (k : κ) (r r' : Router κ μ) : Prop where
  made : r'.made = r.made
  table : r'.table = r.table
  key : r'.key = r.key
  received : ∀ n, r.key n ≠ some k → r'.received n = r.received n

omit [DecidableEq κ] in
theorem AgreeBut.refl (k : κ) (r : Router κ μ) : AgreeBut k r r := ⟨rfl, rfl, rfl, fun _ _ => rfl⟩

/-- The same command keeps the agreement. -/
theorem AgreeBut.step {k : κ} {r r' : Router κ μ} (h : AgreeBut k r r') (hr : r.Keyed)
    (c : Cmd κ μ) : AgreeBut k (r.step c) (r'.step c) := by
  cases c with
  | register k' =>
    refine ⟨?_, ?_, ?_, fun n hn => ?_⟩
    · exact congrArg (· + 1) h.made
    · simp only [Router.step, h.table, h.made]
    · simp only [Router.step, h.key, h.made]
    · by_cases hm : n = r.made
      · exact h.received n (by rw [hr.fresh n (Nat.le_of_eq hm.symm)]; nofun)
      · simp only [Router.step, Function.update_of_ne hm] at hn
        exact h.received n hn
  | remove k' => exact { h with table := congrArg (AList.erase k') h.table }
  | deliver k' x =>
    cases hl : r.table.lookup k' with
    | some n =>
      rw [step_deliver_some hl, step_deliver_some (h.table ▸ hl)]
      refine { h with received := fun m hm => ?_ }
      by_cases hmn : m = n
      · subst hmn
        simp only [Function.update_self, h.received m hm]
      · simp only [Function.update_of_ne hmn, h.received m hm]
    | none =>
      rw [step_deliver_none hl, step_deliver_none (h.table ▸ hl)]
      exact h
  | skip => exact h

/-- An item that names `k` reaches no receiver under another key. -/
theorem AgreeBut.deliver {k : κ} {r r' : Router κ μ} (h : AgreeBut k r r') (hr : r.Keyed) (x : μ) :
    AgreeBut k (r.step (.deliver k x)) r' := by
  cases hl : r.table.lookup k with
  | some n =>
    rw [step_deliver_some hl]
    refine { h with received := fun m hm => ?_ }
    have hmn : m ≠ n := fun he => hm (he ▸ (hr.entry k n hl).2)
    simp only [Function.update_of_ne hmn, h.received m hm]
  | none =>
    rw [step_deliver_none hl]
    exact h

end Router

variable [DecidableEq κ]

/-- The command hands over an item that names `k`. -/
def Cmd.delivers (k : κ) : Cmd κ μ → Bool
  | .deliver k' _ => k' = k
  | _ => false

/-- Without the items that name `k`, the table is the same, and so is what every receiver under
another key gets. -/
theorem Router.AgreeBut.run_without {k : κ} {r r' : Router κ μ} (h : AgreeBut k r r')
    (hr : r.Keyed) (cs : List (Cmd κ μ)) :
    AgreeBut k (r.run cs) (r'.run (cs.filter fun c => !c.delivers k)) := by
  induction cs generalizing r r' with
  | nil => exact h
  | cons c cs ih =>
    cases hc : c.delivers k with
    | false =>
      rw [List.filter_cons_of_pos (by simp [hc])]
      exact ih (h.step hr c) (hr.step c)
    | true =>
      rw [List.filter_cons_of_neg (by simp [hc])]
      cases c with
      | deliver k' x =>
        have hk : k' = k := of_decide_eq_true hc
        subst hk
        exact ih (h.deliver hr x) (hr.step _)
      | _ => cases hc

end Routing
