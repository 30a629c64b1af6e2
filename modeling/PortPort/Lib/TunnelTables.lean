import PortPort.Lib.TunnelOrder

/-! # The two tables of a tunnel

A key the far host no longer holds, though it has not been told of the end of its connection, is
the subject of a close on its way in one of the directions. From this the two tables agree up to
the messages in flight. -/

namespace Tunnel
open Function (update update_self update_of_ne)

variable {κ β : Type*}

/-! ## Keys the far host has given up -/

/-- A close for the key is on its way. -/
def Closing (s : State κ β) (k : κ) : Prop :=
  (∃ m, (m, .closed k) ∈ s.up ++ s.late) ∨ ∃ m, (m, .closed k) ∈ s.down

theorem Closing.mono {s s' : State κ β} {k : κ} (h : Closing s k)
    (hu : ∀ m, (m, .closed k) ∈ s.up → (m, .closed k) ∈ s'.up)
    (hl : ∀ m, (m, .closed k) ∈ s.late → (m, .closed k) ∈ s'.late)
    (hd : ∀ m, (m, .closed k) ∈ s.down → (m, .closed k) ∈ s'.down) : Closing s' k := by
  rcases h with ⟨m, hm⟩ | ⟨m, hm⟩
  · rcases List.mem_append.mp hm with hm | hm
    · exact .inl ⟨m, List.mem_append_left _ (hu m hm)⟩
    · exact .inl ⟨m, List.mem_append_right _ (hl m hm)⟩
  · exact .inr ⟨m, hd m hm⟩

theorem mem_tail {l l' : List (Nat × Msg κ β)} {x y : Nat × Msg κ β} (h : l = x :: l')
    (hne : x.2 ≠ y.2) (hy : y ∈ l) : y ∈ l' := by
  rw [h] at hy
  rcases List.mem_cons.mp hy with rfl | hy
  · exact absurd rfl hne
  · exact hy

/-- What holds of a connection that is known to the far host and absent from its table. -/
structure GivenUp (s : State κ β) : Prop where
  closing : s.known k = some n → s.farTab k = none → Closing s k
  cause : s.known k = some n → s.farTab k = none → s.refused n ∨ s.late ≠ []
  notOpen : s.known k = some n → s.farTab k = none → ¬ s.farOpen n
  refused : s.farTab k = some n → ¬ s.refused n

variable [DecidableEq κ]

theorem follow_eq_none {k : κ} {n m : Nat} {msg : Msg κ β}
    (h : follow k (some n) (m, msg) = some none) : msg = .closed k := by
  by_cases hk : msg.key = k
  · subst hk
    cases msg with
    | opened k => cases (follow_opened (β := β)).symm.trans h
    | data k bs =>
      simp only [Msg.key, follow_data, Option.ite_none_right_eq_some, Option.some.injEq,
        reduceCtorEq, and_false] at h
    | closed k => rfl
  · cases (follow_of_ne hk).symm.trans h

/-- A connection whose end is among the messages is closed by one of them. -/
theorem exists_closed {k : κ} {l : List (Nat × Msg κ β)} {n : Nat}
    (h : l.foldlM (follow k) (some n) = some none) : ∃ m, (m, .closed k) ∈ l := by
  induction l generalizing n with
  | nil => cases h
  | cons x l ih =>
    rw [List.foldlM_cons] at h
    obtain ⟨known, hx, hl⟩ := Option.bind_eq_some_iff.mp h
    cases known with
    | some m =>
      obtain ⟨m, hm⟩ := ih hl
      exact ⟨m, List.mem_cons_of_mem _ hm⟩
    | none =>
      obtain ⟨m, msg⟩ := x
      exact ⟨m, follow_eq_none hx ▸ List.mem_cons_self⟩

namespace GivenUp

omit [DecidableEq κ] in
protected theorem init (key : Nat → κ) : GivenUp (init key : State κ β) where
  closing h := by cases h
  cause h := by cases h
  notOpen h := by cases h
  refused h := by cases h

protected theorem step {s s' : State κ β} {a : Action κ β} (hf : Followed s) (hn : Numbered s)
    (hs : GivenUp s) (h : Step s a s') : GivenUp s' := by
  cases h with
  | accept | nearRecv h | nearClose h =>
    exact { hs with
      closing := fun hk ht =>
        (hs.closing hk ht).mono (fun _ => id) (fun _ => id) fun _ => List.mem_append_left _ }
  | nearSend h => exact { hs with }
  | takeData h hc =>
    exact { hs with
      closing := fun hk ht =>
        (hs.closing hk ht).mono (fun _ => mem_tail h nofun) (fun _ => id) fun _ => id }
  | @takeClosed m up c _ k h hc =>
    refine { hs with closing := fun {k' n} hk ht => ?_ }
    by_cases hkk : k' = k
    · exact .inr ⟨c, hkk ▸ List.mem_append_right _ List.mem_cons_self⟩
    · have hne : (Msg.closed k : Msg κ β) ≠ .closed k' := fun he => hkk (Msg.closed.inj he).symm
      exact (hs.closing hk ht).mono (fun _ => mem_tail h hne) (fun _ => id)
        fun _ => List.mem_append_left _
  | @takeUnknown m msg up _ h hc =>
    refine { hs with closing := fun {k n} hk ht => ?_ }
    by_cases hm : msg = .closed k
    · -- The close taken comes to nothing, as the near host has sent its own.
      subst hm
      have hd := hf k
      rw [show s.known k = some n from hk, show s.nearTab k = none from hc] at hd
      exact .inr (exists_closed hd)
    · exact (hs.closing hk ht).mono (fun _ => mem_tail h hm) (fun _ => id) fun _ => id
  | @farNew n down _ k h hl =>
    obtain ⟨rfl, -⟩ := hn.next h
    have hold {k' : κ} {m : Nat} (hk : update s.known k (some s.announced) k' = some m)
        (ht : update s.farTab k (some s.announced) k' = none) :
        m ≠ s.announced ∧ s.known k' = some m ∧ s.farTab k' = none := by
      rcases of_entered hk with ⟨rfl, -⟩ | ⟨hkk, hk⟩
      · rw [update_self] at ht
        cases ht
      · exact ⟨Nat.ne_of_lt (hn.known hk).1, hk, (update_of_ne hkk ..).symm.trans ht⟩
    exact {
      closing := fun hk ht => by
        obtain ⟨-, hk, ht⟩ := hold hk ht
        exact (hs.closing hk ht).mono (fun _ => id) (fun _ => id) fun _ => mem_tail h nofun
      cause := fun hk ht => by
        obtain ⟨hm, hk, ht⟩ := hold hk ht
        exact (hs.cause hk ht).imp_left (update_of_ne hm ..).mpr
      notOpen := fun hk ht ho => by
        obtain ⟨hm, hk, ht⟩ := hold hk ht
        exact hs.notOpen hk ht ((update_of_ne hm ..).mp ho)
      refused := fun ht hr => by
        rcases of_entered ht with ⟨-, rfl⟩ | ⟨-, ht⟩
        · exact (update_self ..).mp hr
        · have hm := Nat.ne_of_lt (hn.known (hn.farTab ht)).1
          exact hs.refused ht ((update_of_ne hm ..).mp hr) }
  | @farRefused n down _ k h hl =>
    obtain ⟨rfl, -⟩ := hn.next h
    have hold {k' : κ} {m : Nat} (hk : update s.known k (some s.announced) k' = some m)
        (ht : update s.farTab k none k' = none) : k' = k ∧ m = s.announced ∨
          m ≠ s.announced ∧ s.known k' = some m ∧ s.farTab k' = none := by
      rcases of_entered hk with ⟨rfl, rfl⟩ | ⟨hkk, hk⟩
      · exact .inl ⟨rfl, rfl⟩
      · exact .inr ⟨Nat.ne_of_lt (hn.known hk).1, hk, (update_of_ne hkk ..).symm.trans ht⟩
    exact {
      closing := fun {k' m} hk ht => by
        rcases hold hk ht with ⟨rfl, -⟩ | ⟨-, hk, ht⟩
        · have hm : (s.announced, Msg.closed k') ∈ s.up ++ [(s.announced, .closed k')] :=
            List.mem_append_right _ List.mem_cons_self
          exact .inl ⟨s.announced, List.mem_append_left _ hm⟩
        · exact (hs.closing hk ht).mono (fun _ => List.mem_append_left _) (fun _ => id)
            fun _ => mem_tail h nofun
      cause := fun hk ht => by
        rcases hold hk ht with ⟨-, rfl⟩ | ⟨hm, hk, ht⟩
        · exact .inl ((update_self ..).mpr trivial)
        · exact (hs.cause hk ht).imp_left (update_of_ne hm ..).mpr
      notOpen := fun hk ht ho => by
        rcases hold hk ht with ⟨-, rfl⟩ | ⟨hm, hk, ht⟩
        · exact (update_self ..).mp ho
        · exact hs.notOpen hk ht ((update_of_ne hm ..).mp ho)
      refused := fun ht hr => by
        obtain ⟨-, ht⟩ := of_erased ht
        have hm := Nat.ne_of_lt (hn.known (hn.farTab ht)).1
        exact hs.refused ht ((update_of_ne hm ..).mp hr) }
  | farData h hc =>
    exact { hs with
      closing := fun hk ht =>
        (hs.closing hk ht).mono (fun _ => id) (fun _ => id) fun _ => mem_tail h nofun }
  | farUnknown h hc =>
    exact { hs with
      closing := fun hk ht => (hs.closing hk ht).mono (fun _ => List.mem_append_left _)
        (fun _ => id) fun _ => mem_tail h nofun }
  | @farClosed n down _ k h =>
    -- the key is no longer known, and the others are as they were
    have hold {k' : κ} {m : Nat} (hk : update s.known k none k' = some m)
        (ht : update s.farTab k none k' = none) :
        k' ≠ k ∧ s.known k' = some m ∧ s.farTab k' = none := by
      obtain ⟨hkk, hk⟩ := of_erased hk
      exact ⟨hkk, hk, (update_of_ne hkk ..).symm.trans ht⟩
    exact {
      closing := fun {k' m} hk ht => by
        obtain ⟨hkk, hk, ht⟩ := hold hk ht
        have hne : (Msg.closed k : Msg κ β) ≠ .closed k' := fun he => hkk (Msg.closed.inj he).symm
        exact (hs.closing hk ht).mono (fun _ => id) (fun _ => id) fun _ => mem_tail h hne
      cause := fun hk ht => hs.cause (hold hk ht).2.1 (hold hk ht).2.2
      notOpen := fun hk ht ho => hs.notOpen (hold hk ht).2.1 (hold hk ht).2.2 ho.1
      refused := fun ht => hs.refused (of_erased ht).2 }
  | farRecv h =>
    exact { hs with
      closing := fun hk ht =>
        (hs.closing hk ht).mono (fun _ => List.mem_append_left _) (fun _ => id) fun _ => id }
  | farSend h => exact { hs with }
  | farEnd h =>
    exact { hs with
      closing := fun hk ht =>
        (hs.closing hk ht).mono (fun _ => List.mem_append_left _) (fun _ => id) fun _ => id
      notOpen := fun hk ht ho => hs.notOpen hk ht (of_ended ho).2 }
  | @farDrop c _ k h =>
    have hold {k' : κ} (ht : update s.farTab k none k' = none) : k' = k ∨ s.farTab k' = none := by
      by_cases hkk : k' = k
      · exact .inl hkk
      · exact .inr ((update_of_ne hkk ..).symm.trans ht)
    exact {
      closing := fun {k' m} hk ht => by
        rcases hold ht with rfl | ht
        · have hm : (c, Msg.closed k') ∈ s.late ++ [(c, .closed k')] :=
            List.mem_append_right _ List.mem_cons_self
          exact .inl ⟨c, List.mem_append_right _ hm⟩
        · exact (hs.closing hk ht).mono (fun _ => id) (fun _ => List.mem_append_left _)
            fun _ => id
      cause := fun _ _ => .inr (List.append_ne_nil_of_right_ne_nil _ nofun)
      notOpen := fun {k' m} hk ht ho => by
        obtain ⟨hmc, ho⟩ := of_ended ho
        rcases hold ht with rfl | ht
        · -- the connection given up is the one known
          exact hmc (Option.some.inj (hk.symm.trans (hn.farTab h)))
        · exact hs.notOpen hk ht ho
      refused := fun ht => hs.refused (of_erased ht).2 }
  | farDeaf => exact { hs with }

end GivenUp

/-! ## The far table brought up to date -/

/-- How a message changes the entry of the key `k` when the far host takes it. -/
def enter (k : κ) (entry : Option Nat) : Nat × Msg κ β → Option Nat
  | (n, .opened k') => if k' = k then some n else entry
  | (_, .data ..) => entry
  | (_, .closed k') => if k' = k then none else entry

theorem enter_of_ne {k : κ} {entry : Option Nat} {n : Nat} {msg : Msg κ β} (h : msg.key ≠ k) :
    enter k entry (n, msg) = entry := by
  cases msg with
  | opened k' | closed k' => exact if_neg h
  | data k' bs => rfl

/-- The entry of the key `k` once these messages are taken. -/
def entryAfter (k : κ) (entry : Option Nat) (l : List (Nat × Msg κ β)) : Option Nat :=
  l.foldl (enter k) entry

theorem entryAfter_eq {k : κ} {l : List (Nat × Msg κ β)} {known near entry : Option Nat}
    (hl : l.foldlM (follow k) known = some near) (he : ∀ n, entry = some n → known = some n) :
    entryAfter k entry l = near ∨
      entryAfter k entry l = none ∧ near = known ∧ entry = none ∧ ∀ m, (m, .closed k) ∉ l := by
  -- From the first message about the key that opens or closes on, the two go together.
  induction l generalizing known entry with
  | nil =>
    cases hl
    cases entry with
    | none => exact .inr ⟨rfl, rfl, rfl, by simp⟩
    | some n => exact .inl (he n rfl).symm
  | cons x l ih =>
    rw [List.foldlM_cons] at hl
    obtain ⟨known', hx, hl'⟩ := Option.bind_eq_some_iff.mp hl
    clear hl
    obtain ⟨m, msg⟩ := x
    have hsame (hk : known' = known) (hen : enter k entry (m, msg) = entry)
        (hm : msg ≠ .closed k) :
        entryAfter k entry ((m, msg) :: l) = near ∨
          entryAfter k entry ((m, msg) :: l) = none ∧ near = known ∧ entry = none ∧
            ∀ m', (m', .closed k) ∉ (m, msg) :: l := by
      subst hk
      rw [entryAfter, List.foldl_cons, hen]
      refine (ih hl' he).imp_right ?_
      rintro ⟨h1, h2, h3, h4⟩
      refine ⟨h1, h2, h3, fun m' h => ?_⟩
      rcases List.mem_cons.mp h with h | h
      · exact hm (Prod.mk.inj h).2.symm
      · exact h4 m' h
    have hboth (hk : enter k entry (m, msg) = known') :
        entryAfter k entry ((m, msg) :: l) = near := by
      rw [entryAfter, List.foldl_cons, hk]
      rcases @ih known' known' hl' (fun n h => h) with h | ⟨h, hn, hk, -⟩
      · exact h
      · exact h.trans (hk ▸ hn.symm)
    by_cases hkk : msg.key = k
    · subst hkk
      cases msg with
      | opened k' =>
        cases follow_opened.symm.trans hx
        exact .inl (hboth (if_pos rfl))
      | data k' bs =>
        simp only [Msg.key, follow_data, Option.ite_none_right_eq_some, Option.some.injEq] at hx
        exact hsame hx.2.symm rfl (by simp)
      | closed k' =>
        simp only [Msg.key, follow_closed, Option.ite_none_right_eq_some, Option.some.injEq] at hx
        exact .inl (hboth ((if_pos rfl).trans hx.2))
    · have hm : msg ≠ .closed k := fun he => hkk (he ▸ rfl)
      exact hsame (Option.some.inj ((follow_of_ne hkk).symm.trans hx)).symm (enter_of_ne hkk) hm

/-- **The tables agree up to the messages in flight.** -/
theorem GivenUp.agree {s : State κ β} (hf : Followed s) (hn : Numbered s) (hs : GivenUp s)
    (k : κ) :
    (∀ n, entryAfter k (s.farTab k) s.down = some n → s.nearTab k = some n) ∧
    (∀ n, s.nearTab k = some n → entryAfter k (s.farTab k) s.down = none →
      ∃ m, (m, .closed k) ∈ s.up ++ s.late) := by
  rcases entryAfter_eq (hf k) (fun n => hn.farTab) with h | ⟨h, hnear, hfar, hc⟩
  · rw [h]
    refine ⟨fun n hn => hn, fun n hn hnone => ?_⟩
    cases hn.symm.trans hnone
  · rw [h]
    refine ⟨fun n hn => (by cases hn), fun n hn _ => ?_⟩
    rcases hs.closing (hnear ▸ hn) hfar with hu | ⟨m, hm⟩
    · exact hu
    · exact absurd hm (hc m)

/-- Whether a close finds its key in the table depends on whether the connection was refused. -/
theorem GivenUp.closed_iff {s : State κ β} (hf : Followed s) (hn : Numbered s) (hs : GivenUp s)
    {down : List (Nat × Msg κ β)} {n : Nat} {k : κ} (h : s.down = (n, .closed k) :: down)
    (hl : s.late = []) : s.farTab k = none ∧ s.refused n ∨ s.farTab k = some n ∧ ¬ s.refused n := by
  have hk := hf.of_closed h
  cases ht : s.farTab k with
  | none => exact .inl ⟨rfl, (hs.cause hk ht).resolve_right fun h => h hl⟩
  | some m =>
    obtain rfl := Option.some.inj ((hn.farTab ht).symm.trans hk)
    exact .inr ⟨rfl, hs.refused ht⟩

/-! ## All of it holds in every run -/

theorem Reachable.followed {A : State κ β → κ → Prop} {own : Prop} {s : State κ β}
    (h : Reachable A own s) : Followed s :=
  h.invariant (fun _ ⟨_, hi⟩ => hi ▸ .init _) fun _ _ _ hs _ => hs.step

theorem Reachable.numbered {A : State κ β → κ → Prop} {own : Prop} {s : State κ β}
    (h : Reachable A own s) : Numbered s :=
  h.invariant_of (K := Followed) (fun _ => Reachable.followed) (fun _ ⟨_, hi⟩ => hi ▸ .init _)
    fun _ _ _ hf hs _ => hs.step hf

theorem Reachable.givenUp {A : State κ β → κ → Prop} {own : Prop} {s : State κ β}
    (h : Reachable A own s) : GivenUp s :=
  h.invariant_of (K := fun s => Followed s ∧ Numbered s)
    (fun _ h => ⟨Reachable.followed h, Reachable.numbered h⟩) (fun _ ⟨_, hi⟩ => hi ▸ .init _)
    fun _ _ _ hk hs _ => hs.step hk.1 hk.2

end Tunnel
