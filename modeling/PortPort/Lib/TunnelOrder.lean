import PortPort.Lib.Tunnel

/-! # The order of messages in a tunnel

What the messages in flight say about the two tables, whatever is accepted when. -/

namespace Tunnel
open Function (update update_self update_of_ne)

variable {κ β : Type*} [DecidableEq κ]

/-! ## The near table is the far host's knowledge brought up to date -/

/-- How a message changes which connection is known under the key `k`. Data and a close must be
about the connection known. -/
def follow (k : κ) (known : Option Nat) : Nat × Msg κ β → Option (Option Nat)
  | (n, .opened k') => if k' = k then some (some n) else some known
  | (n, .data k' _) => if k' = k ∧ known ≠ some n then none else some known
  | (n, .closed k') => if k' = k then (if known = some n then some none else none) else some known

/-- Taking all messages in flight leaves the far host knowing what is in the near table. -/
def Followed (s : State κ β) : Prop :=
  ∀ k, s.down.foldlM (follow k) (s.known k) = some (s.nearTab k)

@[simp] theorem follow_opened {k : κ} {known : Option Nat} {n : Nat} :
    follow k known ((n, .opened k) : Nat × Msg κ β) = some (some n) := if_pos rfl

@[simp] theorem follow_data {k : κ} {known : Option Nat} {n : Nat} {bs : List β} :
    follow k known (n, .data k bs) = if known = some n then some known else none := by
  by_cases h : known = some n
  · simp [follow, h]
  · simp [follow, h]

@[simp] theorem follow_closed {k : κ} {known : Option Nat} {n : Nat} :
    follow k known ((n, .closed k) : Nat × Msg κ β) =
      if known = some n then some none else none := if_pos rfl

/-- A message says nothing about another key than its own. -/
theorem follow_of_ne {k : κ} {known : Option Nat} {n : Nat} {msg : Msg κ β} (h : msg.key ≠ k) :
    follow k known (n, msg) = some known := by
  cases msg with
  | opened k' | closed k' => exact if_neg h
  | data k' bs => exact if_neg fun hk => h hk.1

/-- Data is about the connection known, or about one announced on the way. -/
theorem known_or_opened {k : κ} {l : List (Nat × Msg κ β)} {known near : Option Nat} {m : Nat}
    {bs : List β} (h : l.foldlM (follow k) known = some near) (hm : (m, .data k bs) ∈ l) :
    known = some m ∨ (m, .opened k) ∈ l := by
  induction l generalizing known with
  | nil => cases hm
  | cons x l ih =>
    rw [List.foldlM_cons] at h
    obtain ⟨known', hx, hl⟩ := Option.bind_eq_some_iff.mp h
    rcases List.mem_cons.mp hm with rfl | hm'
    · rw [follow_data, Option.ite_none_right_eq_some] at hx
      exact .inl hx.1
    · obtain ⟨m', msg⟩ := x
      rcases ih hl hm' with rfl | ho
      · by_cases hk : msg.key = k
        · subst hk
          cases msg with
          | opened k =>
            -- the announcement is of the connection itself
            cases (Option.some.inj ((follow_opened (β := β)).symm.trans hx))
            exact .inr List.mem_cons_self
          | data k bs' =>
            simp only [Msg.key, follow_data, Option.ite_none_right_eq_some, Option.some.injEq] at hx
            exact .inl hx.2
          | closed k =>
            simp only [Msg.key, follow_closed, Option.ite_none_right_eq_some, Option.some.injEq,
              reduceCtorEq, and_false] at hx
        · rw [follow_of_ne hk] at hx
          exact .inl (Option.some.inj hx)
      · exact .inr (List.mem_cons_of_mem _ ho)

namespace Followed

protected theorem init (key : Nat → κ) : Followed (init key : State κ β) := fun _ => rfl

variable {s : State κ β} {down : List (Nat × Msg κ β)} {n : Nat} {msg : Msg κ β}

/-- A message at the end of the channel changes the table of the near host under its key. -/
theorem push (hs : Followed s) (msg : Msg κ β) {entry : Option Nat}
    (hx : follow msg.key (s.nearTab msg.key) (n, msg) = some entry) (k : κ) :
    (s.down ++ [(n, msg)]).foldlM (follow k) (s.known k) =
      some (update s.nearTab msg.key entry k) := by
  rw [List.foldlM_append, hs k]
  by_cases hk : k = msg.key
  · subst hk
    simpa using hx
  · rw [update_of_ne hk]
    simpa using follow_of_ne (Ne.symm hk)

/-- The message at the head of the channel changes what is known under its key. -/
theorem pop (hs : Followed s) (h : s.down = (n, msg) :: down) :
    ∃ known, follow msg.key (s.known msg.key) (n, msg) = some known ∧
      ∀ k, down.foldlM (follow k) (update s.known msg.key known k) = some (s.nearTab k) := by
  have hpop (k : κ) : ∃ known, follow k (s.known k) (n, msg) = some known ∧
      down.foldlM (follow k) known = some (s.nearTab k) := by
    have hk := hs k
    rw [h, List.foldlM_cons] at hk
    exact Option.bind_eq_some_iff.mp hk
  obtain ⟨known, hknown, hdown⟩ := hpop msg.key
  refine ⟨known, hknown, fun k => ?_⟩
  by_cases hk : k = msg.key
  · subst hk
    rwa [update_self]
  · obtain ⟨known', hknown', hdown'⟩ := hpop k
    rw [follow_of_ne (Ne.symm hk)] at hknown'
    rwa [update_of_ne hk, Option.some.inj hknown']

theorem of_data (hs : Followed s) {k : κ} {bs : List β} (h : s.down = (n, .data k bs) :: down) :
    s.known k = some n := by
  obtain ⟨known, hk, -⟩ := hs.pop h
  simp only [Msg.key, follow_data, Option.ite_none_right_eq_some] at hk
  exact hk.1

theorem of_closed (hs : Followed s) {k : κ} (h : s.down = (n, .closed k) :: down) :
    s.known k = some n := by
  obtain ⟨known, hk, -⟩ := hs.pop h
  simp only [Msg.key, follow_closed, Option.ite_none_right_eq_some] at hk
  exact hk.1

/-- Data behind the announcement of a connection is about it, or about one announced later. -/
theorem data_of_opened (hs : Followed s) {m : Nat} {k : κ} {bs : List β}
    (h : s.down = (n, .opened k) :: down) (hm : (m, .data k bs) ∈ down) :
    m = n ∨ (m, .opened k) ∈ down := by
  obtain ⟨known, hk, hd⟩ := hs.pop h
  cases hk.symm.trans follow_opened
  have hd := hd k
  rw [Msg.key, update_self] at hd
  exact (known_or_opened hd hm).imp_left fun he => (Option.some.inj he).symm

/-- Data behind the close of a connection is about one announced later. -/
theorem data_of_closed (hs : Followed s) {m : Nat} {k : κ} {bs : List β}
    (h : s.down = (n, .closed k) :: down) (hm : (m, .data k bs) ∈ down) :
    (m, .opened k) ∈ down := by
  obtain ⟨known, hk, hd⟩ := hs.pop h
  simp only [Msg.key, follow_closed, Option.ite_none_right_eq_some] at hk
  cases hk.2
  have hd := hd k
  rw [Msg.key, update_self] at hd
  exact (known_or_opened hd hm).resolve_left nofun

protected theorem step {s s' : State κ β} {a : Action κ β} (hs : Followed s) (h : Step s a s') :
    Followed s' := by
  cases h with
  | accept => exact hs.push _ follow_opened
  | @nearRecv c _ n bs h =>
    have hx : follow (s.key n) (s.nearTab (s.key n)) (c, .data (s.key n) bs) = some (some c) := by
      rw [follow_data, if_pos h, h]
    have hd := hs.push (.data (s.key n) bs) hx
    rwa [Msg.key, ← h, Function.update_eq_self] at hd
  | nearSend h => exact hs
  | nearClose h => exact hs.push _ (by simp [h])
  | takeData h hc => exact hs
  | takeClosed h hc => exact hs.push _ (by simp [hc])
  | takeUnknown h hc => exact hs
  | farNew h | farRefused h =>
    obtain ⟨known, hk, hd⟩ := hs.pop h
    cases hk.symm.trans follow_opened
    exact hd
  | farData h hc | farUnknown h hc =>
    -- what is known stays as it was
    obtain ⟨known, hk, hd⟩ := hs.pop h
    simp only [Msg.key, follow_data, Option.ite_none_right_eq_some, Option.some.injEq] at hk
    rwa [Msg.key, ← hk.2, Function.update_eq_self] at hd
  | farClosed h =>
    obtain ⟨known, hk, hd⟩ := hs.pop h
    simp only [Msg.key, follow_closed, Option.ite_none_right_eq_some, Option.some.injEq] at hk
    cases hk.2
    exact hd
  | farRecv h | farSend h | farEnd h | farDrop h | farDeaf => exact hs

end Followed

/-! ## Numbers -/

/-- An entry of a table from which another has been erased. -/
theorem of_erased {tab : κ → Option Nat} {k k' : κ} {n : Nat}
    (h : update tab k none k' = some n) : k' ≠ k ∧ tab k' = some n := by
  by_cases hk : k' = k
  · subst hk
    rw [update_self] at h
    cases h
  · exact ⟨hk, (update_of_ne hk ..).symm.trans h⟩

theorem of_entered {tab : κ → Option Nat} {k k' : κ} {n m : Nat}
    (h : update tab k (some m) k' = some n) : k' = k ∧ m = n ∨ k' ≠ k ∧ tab k' = some n := by
  by_cases hk : k' = k
  · subst hk
    rw [update_self] at h
    exact .inl ⟨rfl, Option.some.inj h⟩
  · exact .inr ⟨hk, (update_of_ne hk ..).symm.trans h⟩

theorem of_ended {P : Nat → Prop} {n m : Nat} (h : update P n False m) : m ≠ n ∧ P m := by
  by_cases hm : m = n
  · subst hm
    rw [update_self] at h
    exact h.elim
  · rw [update_of_ne hm] at h
    exact ⟨hm, h⟩

/-- The number announced by a message. -/
def opening : Nat × Msg κ β → Option Nat
  | (n, .opened _) => some n
  | _ => none

structure Numbered (s : State κ β) : Prop where
  announced_le : s.announced ≤ s.accepted
  nearTab : s.nearTab k = some n → n < s.accepted ∧ s.key n = k
  down : (n, m) ∈ s.down → n < s.accepted ∧ s.key n = m.key
  /-- the connections still to be announced are announced in order -/
  openings : s.down.filterMap opening = List.range' s.announced (s.accepted - s.announced)
  up : (n, m) ∈ s.up → n < s.announced ∧ s.key n = m.key
  known : s.known k = some n → n < s.announced ∧ s.key n = k
  farTab : s.farTab k = some n → s.known k = some n
  farOpen : s.farOpen n → n < s.announced
  refused : s.refused n → n < s.announced
  far : s.announced ≤ n → s.far n = {}

theorem range'_cons_eq {a b n : Nat} {l : List Nat} (hab : a ≤ b)
    (h : n :: l = List.range' a (b - a)) :
    n = a ∧ a < b ∧ l = List.range' (a + 1) (b - (a + 1)) := by
  obtain ⟨d, rfl⟩ := Nat.exists_eq_add_of_le hab
  rw [Nat.add_sub_cancel_left] at h
  cases d with
  | zero => simp at h
  | succ d =>
    rw [List.range'_succ, List.cons.injEq] at h
    refine ⟨h.1, by omega, ?_⟩
    rw [h.2]
    congr 1
    omega

namespace Numbered
variable {s : State κ β} {down : List (Nat × Msg κ β)} {n : Nat} {msg : Msg κ β}

section
omit [DecidableEq κ]

theorem head (hs : Numbered s) (h : s.down = (n, msg) :: down) :
    n < s.accepted ∧ s.key n = msg.key :=
  hs.down (h ▸ List.mem_cons_self)

theorem upHead (hs : Numbered s) {up : List (Nat × Msg κ β)} (h : s.up = (n, msg) :: up) :
    n < s.announced ∧ s.key n = msg.key :=
  hs.up (h ▸ List.mem_cons_self)

/-- The message that announces a connection is about the next one to be announced. -/
theorem next (hs : Numbered s) {k : κ} (h : s.down = (n, .opened k) :: down) :
    n = s.announced ∧ s.announced < s.accepted ∧
      down.filterMap opening = List.range' (s.announced + 1) (s.accepted - (s.announced + 1)) := by
  have ho := hs.openings
  rw [h] at ho
  exact range'_cons_eq hs.announced_le ho

theorem rest (hs : Numbered s) {x : Nat × Msg κ β} (h : s.down = x :: down)
    (hx : opening x = none) :
    down.filterMap opening = List.range' s.announced (s.accepted - s.announced) := by
  have ho := hs.openings
  rwa [h, List.filterMap_cons_none hx] at ho

protected theorem init (key : Nat → κ) : Numbered (init key : State κ β) where
  announced_le := Nat.le_refl _
  nearTab h := by cases h
  down h := by cases h
  openings := rfl
  up h := by cases h
  known h := by cases h
  farTab h := by cases h
  farOpen h := h.elim
  refused h := h.elim
  far _ := rfl

/-! Every step is made of these. -/

theorem pushDown (hs : Numbered s) (msg : Msg κ β) (hn : n < s.accepted ∧ s.key n = msg.key)
    (ho : opening (n, msg) = none) : Numbered { s with down := s.down ++ [(n, msg)] } :=
  { hs with
    down := fun {n' msg'} hm => by
      rcases of_mem_push hm with hm | hm
      · exact hs.down hm
      · cases hm
        exact hn
    openings := by
      rw [List.filterMap_append, List.filterMap_cons_none ho, List.filterMap_nil, List.append_nil]
      exact hs.openings }

theorem popDown (hs : Numbered s) (h : s.down = (n, msg) :: down)
    (ho : opening (n, msg) = none) : Numbered { s with down } :=
  { hs with
    down := fun hm => hs.down (h ▸ List.mem_cons_of_mem _ hm)
    openings := hs.rest h ho }

theorem pushUp (hs : Numbered s) (msg : Msg κ β) (hn : n < s.announced ∧ s.key n = msg.key) :
    Numbered { s with up := s.up ++ [(n, msg)] } :=
  { hs with
    up := fun {n' msg'} hm => by
      rcases of_mem_push hm with hm | hm
      · exact hs.up hm
      · cases hm
        exact hn }

theorem popUp (hs : Numbered s) {up : List (Nat × Msg κ β)} (h : s.up = (n, msg) :: up) :
    Numbered { s with up } :=
  { hs with up := fun hm => hs.up (h ▸ List.mem_cons_of_mem _ hm) }

theorem setFar (hs : Numbered s) {far : Nat → End β}
    (hfar : ∀ m, s.announced ≤ m → far m = s.far m) : Numbered { s with far } :=
  { hs with far := fun {m} hm => (hfar m hm).trans (hs.far hm) }

theorem closeFar (hs : Numbered s) {farOpen : Nat → Prop} (ho : ∀ m, farOpen m → s.farOpen m) :
    Numbered { s with farOpen } :=
  { hs with farOpen := fun {m} hm => hs.farOpen (ho m hm) }

end

theorem dropNear (hs : Numbered s) (k : κ) :
    Numbered { s with nearTab := update s.nearTab k none } :=
  { hs with nearTab := fun ht => hs.nearTab (of_erased ht).2 }

theorem dropFar (hs : Numbered s) (k : κ) : Numbered { s with farTab := update s.farTab k none } :=
  { hs with farTab := fun ht => hs.farTab (of_erased ht).2 }

/-- The far host has taken the announcement of a connection. -/
theorem announce (hs : Numbered s) {k : κ} (h : s.down = (n, .opened k) :: down)
    {entry : Option Nat} (he : ∀ m, entry = some m → m = n) (isOpen isRefused : Prop) :
    Numbered { s with
      down
      announced := s.announced + 1
      known := update s.known k (some n)
      farTab := update s.farTab k entry
      far := update s.far n {}
      farOpen := update s.farOpen n isOpen
      refused := update s.refused n isRefused } := by
  obtain ⟨rfl, hlt, hopenings⟩ := hs.next h
  have hlater {P : Nat → Prop} {b : Prop} {m : Nat} (hP : P m → m < s.announced)
      (hm : update P s.announced b m) : m < s.announced + 1 := by
    by_cases hma : m = s.announced
    · omega
    · rw [update_of_ne hma] at hm
      exact Nat.lt_succ_of_lt (hP hm)
  exact {
    announced_le := hlt
    nearTab := hs.nearTab
    down := fun hm => hs.down (h ▸ List.mem_cons_of_mem _ hm)
    openings := hopenings
    up := fun hm => (hs.up hm).imp_left Nat.lt_succ_of_lt
    known := fun {k' m} hm => by
      rcases of_entered hm with ⟨rfl, rfl⟩ | ⟨-, hm⟩
      · exact ⟨Nat.lt_succ_self _, (hs.head h).2⟩
      · exact (hs.known hm).imp_left Nat.lt_succ_of_lt
    farTab := fun {k' m} hm => by
      by_cases hk : k' = k
      · subst hk
        have hm : update s.farTab k' entry k' = some m := hm
        rw [update_self] at hm
        exact he m hm ▸ update_self ..
      · have hm : update s.farTab k entry k' = some m := hm
        rw [update_of_ne hk] at hm
        exact (update_of_ne hk ..).trans (hs.farTab hm)
    farOpen := hlater hs.farOpen
    refused := hlater hs.refused
    far := fun hm =>
      (update_of_ne (Nat.ne_of_gt hm) ..).trans (hs.far (Nat.le_of_succ_le hm)) }

protected theorem step {s s' : State κ β} {a : Action κ β} (hf : Followed s) (hs : Numbered s)
    (h : Step s a s') : Numbered s' := by
  have hle := hs.announced_le
  cases h with
  | @accept _ k =>
    -- the new connection has the next number, and what has a number keeps its key
    have hold {m : Nat} {k' : κ} (hm : m < s.accepted ∧ s.key m = k') :
        m < s.accepted + 1 ∧ update s.key s.accepted k m = k' :=
      ⟨Nat.lt_succ_of_lt hm.1, (update_of_ne (Nat.ne_of_lt hm.1) ..).trans hm.2⟩
    have hnew : s.accepted < s.accepted + 1 ∧ update s.key s.accepted k s.accepted = k :=
      ⟨Nat.lt_succ_self _, update_self ..⟩
    exact { hs with
      announced_le := Nat.le_succ_of_le hle
      nearTab := fun {k' m} ht => by
        rcases of_entered ht with ⟨rfl, rfl⟩ | ⟨-, ht⟩
        · exact hnew
        · exact hold (hs.nearTab ht)
      down := fun {m msg} hm => by
        rcases of_mem_push hm with hm | hm
        · exact hold (hs.down hm)
        · cases hm
          exact hnew
      openings := by
        have hsub : s.accepted + 1 - s.announced = s.accepted - s.announced + 1 := by omega
        rw [List.filterMap_append, hs.openings, hsub, List.range'_concat]
        have hlast : s.announced + 1 * (s.accepted - s.announced) = s.accepted := by omega
        rw [hlast]
        rfl
      up := fun hm => ⟨(hs.up hm).1, (hold ⟨Nat.lt_of_lt_of_le (hs.up hm).1 hle, (hs.up hm).2⟩).2⟩
      known := fun hm =>
        ⟨(hs.known hm).1, (hold ⟨Nat.lt_of_lt_of_le (hs.known hm).1 hle, (hs.known hm).2⟩).2⟩ }
  | @nearRecv c _ n bs h =>
    exact { hs.pushDown (.data (s.key n) bs) (hs.nearTab h) rfl with }
  | nearSend h => exact { hs with }
  | @nearClose c _ k h => exact (hs.pushDown (.closed k) (hs.nearTab h) rfl).dropNear k
  | takeData h hc => exact { hs.popUp h with }
  | @takeClosed m up c _ k h hc =>
    exact ((hs.popUp h).pushDown (.closed k) (hs.nearTab hc) rfl).dropNear k
  | takeUnknown h hc => exact hs.popUp h
  | farNew h => exact hs.announce h (fun m hm => (Option.some.inj hm).symm) True False
  | @farRefused n down _ k h =>
    have hup : n < s.announced + 1 := by have := (hs.next h).1; omega
    have hnone : ∀ m, none = some m → m = n := nofun
    exact (hs.announce h hnone False True).pushUp (.closed k) ⟨hup, (hs.head h).2⟩
  | farData h hc =>
    -- what the far host holds has been announced
    have hc := (hs.known (hs.farTab hc)).1
    exact (hs.popDown h rfl).setFar fun m (hm : s.announced ≤ m) => update_of_ne (by omega) ..
  | @farUnknown n down _ k bs h hc =>
    exact (hs.popDown h rfl).pushUp (.closed k) (hs.known (hf.of_data h))
  | farClosed h =>
    exact { hs.popDown h rfl with
      known := fun hm => hs.known (of_erased hm).2
      farTab := fun hm => by
        obtain ⟨hk, hm⟩ := of_erased hm
        exact (update_of_ne hk ..).trans (hs.farTab hm)
      farOpen := fun ho => hs.farOpen ho.1 }
  | @farRecv _ n bs h =>
    have hn := hs.farOpen h
    have hup := hs.pushUp (n := n) (.data (s.key n) bs) ⟨hn, rfl⟩
    exact hup.setFar fun m hm => update_of_ne (Nat.ne_of_gt (Nat.lt_of_lt_of_le hn hm)) ..
  | farSend h =>
    have hn := hs.farOpen h
    apply hs.setFar
    intro m hm
    rw [End.flush_self, if_neg (Nat.ne_of_gt (Nat.lt_of_lt_of_le hn hm))]
  | @farEnd _ n tell h =>
    have hclosed : Numbered { s with farOpen := update s.farOpen n False } :=
      hs.closeFar fun m hm => (of_ended hm).2
    cases tell with
    | true => exact hclosed.pushUp (.closed (s.key n)) ⟨hs.farOpen h, rfl⟩
    | false =>
      rw [if_neg Bool.false_ne_true, List.append_nil]
      exact hclosed
  | farDrop h => exact { (hs.dropFar _).closeFar fun m hm => (of_ended hm).2 with }
  | farDeaf => exact { hs with }

end Numbered
end Tunnel
