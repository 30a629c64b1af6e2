import PortPort.Lib.TunnelTables

/-! # Every byte in a tunnel

Where the bytes received at one end of a connection are: sent at the other end, waiting there, or
in flight. Towards the far host this needs only that the near host reads a connection whose table
entry is its own; towards the near host also that no key is accepted again while the far host can
still be heard about an earlier connection with it. -/

namespace Tunnel
open Function (update update_self update_of_ne)

variable {κ β : Type*}

/-- The bytes that messages carry for a connection. -/
def bytes (n : Nat) (l : List (Nat × Msg κ β)) : List β :=
  l.flatMap fun
    | (m, .data _ bs) => if m = n then bs else []
    | _ => []

@[simp] theorem bytes_nil (n : Nat) : bytes n ([] : List (Nat × Msg κ β)) = [] := rfl

@[simp] theorem bytes_append (n : Nat) (l l' : List (Nat × Msg κ β)) :
    bytes n (l ++ l') = bytes n l ++ bytes n l' := List.flatMap_append

@[simp] theorem bytes_opened (n m : Nat) (k : κ) (l : List (Nat × Msg κ β)) :
    bytes n ((m, .opened k) :: l) = bytes n l := rfl

@[simp] theorem bytes_closed (n m : Nat) (k : κ) (l : List (Nat × Msg κ β)) :
    bytes n ((m, .closed k) :: l) = bytes n l := rfl

@[simp] theorem bytes_data (n m : Nat) (k : κ) (bs : List β) (l : List (Nat × Msg κ β)) :
    bytes n ((m, .data k bs) :: l) = (if m = n then bs else []) ++ bytes n l := rfl

theorem bytes_cons (n : Nat) (x : Nat × Msg κ β) (l : List (Nat × Msg κ β)) :
    bytes n (x :: l) = bytes n [x] ++ bytes n l := by
  rw [← bytes_append]
  rfl

theorem bytes_eq_nil {n : Nat} {l : List (Nat × Msg κ β)}
    (h : ∀ k bs, (n, .data k bs) ∉ l) : bytes n l = [] := by
  induction l with
  | nil => rfl
  | cons x l ih =>
    obtain ⟨m, msg⟩ := x
    have hl := ih fun k bs hm => h k bs (List.mem_cons_of_mem _ hm)
    cases msg with
    | opened | closed => simpa using hl
    | data k bs =>
      have : m ≠ n := fun hm => h k bs (by simp [hm])
      simp [hl, this]

theorem bytes_of_ne {n m : Nat} {msg : Msg κ β} (h : m ≠ n) : bytes n [(m, msg)] = [] := by
  apply bytes_eq_nil
  intro k bs hm
  cases List.mem_singleton.mp hm
  exact h rfl

theorem received_recv (ends : Nat → End β) (n m : Nat) (k : κ) (bs : List β) :
    (update ends n ((ends n).recv bs) m).received =
      (ends m).received ++ bytes m [(n, .data k bs)] := by
  by_cases hm : n = m
  · subst hm
    rw [update_self, End.recv_received, bytes_data, if_pos rfl, bytes_nil, List.append_nil]
  · rw [update_of_ne (Ne.symm hm), bytes_of_ne hm, List.append_nil]

theorem sent_pend_push (ends : Nat → End β) (n m : Nat) (k : κ) (bs : List β) :
    (update ends n ((ends n).push bs) m).sent ++ (update ends n ((ends n).push bs) m).pend =
      (ends m).sent ++ (ends m).pend ++ bytes m [(n, .data k bs)] := by
  by_cases hm : n = m
  · subst hm
    rw [update_self, End.push_sent, End.push_pend, bytes_data, if_pos rfl, bytes_nil,
      List.append_nil, List.append_assoc]
  · rw [update_of_ne (Ne.symm hm), bytes_of_ne hm, List.append_nil]

/-! ## A close is the last word -/

/-- Nothing but further closes follows a close of the same connection. -/
def CloseLast (l : List (Nat × Msg κ β)) : Prop :=
  l.Pairwise fun x y => ∀ k k' bs, x.2 = .closed k → y ≠ (x.1, .data k' bs)

theorem CloseLast.bytes {n : Nat} {k : κ} {l : List (Nat × Msg κ β)}
    (h : CloseLast ((n, .closed k) :: l)) : bytes n l = [] :=
  bytes_eq_nil fun k' bs hm => (List.pairwise_cons.mp h).1 _ hm k k' bs rfl rfl

theorem CloseLast.push {l : List (Nat × Msg κ β)} {m : Nat} {msg : Msg κ β} (h : CloseLast l)
    (hm : ∀ k k' bs, msg = .data k' bs → (m, .closed k) ∉ l) : CloseLast (l ++ [(m, msg)]) := by
  refine List.pairwise_append.mpr ⟨h, List.pairwise_singleton .., fun x hx y hy k k' bs hk he => ?_⟩
  obtain rfl := List.mem_singleton.mp hy
  obtain ⟨n, msg'⟩ := x
  obtain ⟨rfl, hmsg⟩ := Prod.mk.inj he
  subst hk
  exact hm k k' bs hmsg hx

/-- In both directions a close is the last word about its connection. -/
structure Final (s : State κ β) : Prop where
  down : CloseLast s.down
  left : (n, .closed k) ∈ s.down → s.nearTab k ≠ some n
  up : CloseLast s.up
  ended : (n, .closed k) ∈ s.up → ¬ s.farOpen n

variable [DecidableEq κ]

namespace Final

omit [DecidableEq κ] in
protected theorem init (key : Nat → κ) : Final (init key : State κ β) where
  down := List.Pairwise.nil
  left h := by cases h
  up := List.Pairwise.nil
  ended h := by cases h

protected theorem step {s s' : State κ β} {a : Action κ β} (hf : Followed s) (hn : Numbered s)
    (hg : GivenUp s) (hs : Final s) (h : Step s a s') : Final s' := by
  cases h with
  | accept =>
    exact { hs with
      down := hs.down.push nofun
      left := fun hm ht => by
        rcases of_mem_push hm with hm | hm
        · rcases of_entered ht with ⟨-, rfl⟩ | ⟨-, ht⟩
          · exact absurd (hn.down hm).1 (Nat.lt_irrefl _)
          · exact hs.left hm ht
        · cases hm }
  | @nearRecv c _ n bs h =>
    exact { hs with
      down := hs.down.push fun k k' bs' he hm => by
        -- a connection whose entry is in the table has not been closed
        have hk : s.key n = k := (hn.nearTab h).2.symm.trans (hn.down hm).2
        exact hs.left hm (hk ▸ h)
      left := fun hm => by
        rcases of_mem_push hm with hm | hm
        · exact hs.left hm
        · cases hm }
  | nearSend h => exact { hs with }
  | @nearClose c _ k h =>
    exact { hs with
      down := hs.down.push nofun
      left := fun hm ht => by
        obtain ⟨hk, ht⟩ := of_erased ht
        rcases of_mem_push hm with hm | hm
        · exact hs.left hm ht
        · cases hm
          exact hk rfl }
  | takeData h hc | takeUnknown h hc =>
    exact { hs with
      up := (h ▸ hs.up).of_cons
      ended := fun hm => hs.ended (h ▸ List.mem_cons_of_mem _ hm) }
  | @takeClosed m up c _ k h hc =>
    exact {
      down := hs.down.push nofun
      left := fun hm ht => by
        obtain ⟨hk, ht⟩ := of_erased ht
        rcases of_mem_push hm with hm | hm
        · exact hs.left hm ht
        · cases hm
          exact hk rfl
      up := (h ▸ hs.up).of_cons
      ended := fun hm => hs.ended (h ▸ List.mem_cons_of_mem _ hm) }
  | farNew h =>
    obtain ⟨rfl, -⟩ := hn.next h
    exact { hs with
      down := (h ▸ hs.down).of_cons
      left := fun hm => hs.left (h ▸ List.mem_cons_of_mem _ hm)
      ended := fun hm ho => by
        have hne := Nat.ne_of_lt (hn.up hm).1
        exact hs.ended hm ((update_of_ne hne ..).mp ho) }
  | farRefused h =>
    obtain ⟨rfl, -⟩ := hn.next h
    exact {
      down := (h ▸ hs.down).of_cons
      left := fun hm => hs.left (h ▸ List.mem_cons_of_mem _ hm)
      up := hs.up.push nofun
      ended := fun hm ho => by
        obtain ⟨hne, ho⟩ := of_ended ho
        rcases of_mem_push hm with hm | hm
        · exact hs.ended hm ho
        · cases hm
          exact hne rfl }
  | farData h hc =>
    exact { hs with
      down := (h ▸ hs.down).of_cons
      left := fun hm => hs.left (h ▸ List.mem_cons_of_mem _ hm) }
  | farUnknown h hc =>
    have ho := hg.notOpen (hf.of_data h) hc
    exact {
      down := (h ▸ hs.down).of_cons
      left := fun hm => hs.left (h ▸ List.mem_cons_of_mem _ hm)
      up := hs.up.push nofun
      ended := fun hm => by
        rcases of_mem_push hm with hm | hm
        · exact hs.ended hm
        · cases hm
          exact ho }
  | farClosed h =>
    exact { hs with
      down := (h ▸ hs.down).of_cons
      left := fun hm => hs.left (h ▸ List.mem_cons_of_mem _ hm)
      ended := fun hm ho => hs.ended hm ho.1 }
  | farRecv h =>
    exact { hs with
      up := hs.up.push fun k k' bs he hm => hs.ended hm h
      ended := fun hm => by
        rcases of_mem_push hm with hm | hm
        · exact hs.ended hm
        · cases hm }
  | farSend h => exact { hs with }
  | @farEnd _ n tell h =>
    cases tell with
    | true =>
      exact { hs with
        up := hs.up.push nofun
        ended := fun hm ho => by
          obtain ⟨hne, ho⟩ := of_ended ho
          rcases of_mem_push hm with hm | hm
          · exact hs.ended hm ho
          · cases hm
            exact hne rfl }
    | false =>
      rw [if_neg Bool.false_ne_true, List.append_nil]
      exact { hs with ended := fun hm ho => hs.ended hm (of_ended ho).2 }
  | farDrop h => exact { hs with ended := fun hm ho => hs.ended hm (of_ended ho).2 }
  | farDeaf => exact { hs with }

end Final

/-! ## Keys in use again -/

/-- The far host has the connection open, or may still open it, or will answer data for it. -/
def MayTell (s : State κ β) (k : κ) (m : Nat) : Prop :=
  s.farOpen m ∧ s.key m = k ∨ s.Hears ∧
    ((m, .opened k) ∈ s.down ∨ (∃ bs, (m, .data k bs) ∈ s.down) ∧ s.farTab k ≠ some m)

omit [DecidableEq κ] in
theorem MayTell.of_opened {s : State κ β} {n : Nat} {k : κ} (h : (n, .opened k) ∈ s.down)
    (hl : s.Hears) : MayTell s k n :=
  .inr ⟨hl, .inl h⟩

omit [DecidableEq κ] in
theorem MayTell.of_data {s : State κ β} {n : Nat} {k : κ} {bs : List β}
    (h : (n, .data k bs) ∈ s.down) (hc : s.farTab k ≠ some n) (hl : s.Hears) : MayTell s k n :=
  .inr ⟨hl, .inr ⟨⟨bs, h⟩, hc⟩⟩

omit [DecidableEq κ] in
theorem MayTell.of_open {s : State κ β} {n : Nat} (h : s.farOpen n) : MayTell s (s.key n) n :=
  .inl ⟨h, rfl⟩

omit [DecidableEq κ] in
/-- Closes on their way to the far host make it tell nothing. -/
theorem MayTell.of_down {s : State κ β} {down : List (Nat × Msg κ β)} {k : κ} {m : Nat}
    (h : MayTell { s with down } k m)
    (hd : ∀ msg : Msg κ β, (∀ k', msg ≠ .closed k') → (m, msg) ∈ down → (m, msg) ∈ s.down) :
    MayTell s k m := by
  rcases h with ho | ⟨hl, hm | ⟨⟨bs, hm⟩, hfar⟩⟩
  · exact .inl ho
  · exact .of_opened (hd _ nofun hm) hl
  · exact .of_data (hd _ nofun hm) hfar hl

/-- The far host has taken a message about `k`. It may tell of no connection it could not tell of
before, provided that this holds of the data for `k` behind the message. -/
theorem MayTell.of_taken {s s' : State κ β} {x : Nat × Msg κ β} {k k' : κ} {m : Nat}
    {c : Option Nat} (h : s.down = x :: s'.down) (hl : s.Hears)
    (htab : s'.farTab = update s.farTab k c) (hm : MayTell s' k' m)
    (hopen : s'.farOpen m → s'.key m = k' → MayTell s k' m)
    (hdata : ∀ bs, (m, .data k bs) ∈ s'.down → MayTell s k m) : MayTell s k' m := by
  rcases hm with ⟨ho, hk⟩ | ⟨-, hd | ⟨⟨bs, hd⟩, hfar⟩⟩
  · exact hopen ho hk
  · exact .of_opened (h ▸ List.mem_cons_of_mem _ hd) hl
  · by_cases hkk : k' = k
    · subst hkk
      exact hdata bs hd
    · rw [htab, update_of_ne hkk] at hfar
      exact .of_data (h ▸ List.mem_cons_of_mem _ hd) hfar hl

theorem MayTell.behind_opened {s : State κ β} {down : List (Nat × Msg κ β)} {k : κ} {n m : Nat}
    {bs : List β} (hf : Followed s) (h : s.down = (n, .opened k) :: down) (hl : s.Hears)
    (hd : (m, .data k bs) ∈ down) : MayTell s k m := by
  rcases hf.data_of_opened h hd with rfl | hd
  · exact .of_opened (h ▸ List.mem_cons_self) hl
  · exact .of_opened (h ▸ List.mem_cons_of_mem _ hd) hl

/-- Nothing said about a connection with this key can still reach the near host. -/
structure Quiet (s : State κ β) (k : κ) : Prop where
  up : (m, msg) ∈ s.up → msg.key ≠ k
  silent : ¬ MayTell s k m

/-- What the far host says or may say under a key in the near table is about that very
connection. -/
structure Unmixed (s : State κ β) : Prop where
  up : s.nearTab k = some n → (m, msg) ∈ s.up → msg.key = k → m = n
  tell : s.nearTab k = some n → MayTell s k m → m = n

namespace Unmixed

omit [DecidableEq κ] in
protected theorem init (key : Nat → κ) : Unmixed (init key : State κ β) where
  up h := by cases h
  tell h := by cases h

protected theorem step {s s' : State κ β} {a : Action κ β} (hf : Followed s) (hn : Numbered s)
    (hs : Unmixed s) (hq : ∀ k, a = .accept k → Quiet s k) (h : Step s a s') : Unmixed s' := by
  cases h with
  | @accept _ k =>
    have hq := hq k rfl
    exact {
      up := fun ht hm hk => by
        rcases of_entered ht with ⟨rfl, -⟩ | ⟨-, ht⟩
        · exact absurd hk (hq.up hm)
        · exact hs.up ht hm hk
      tell := fun {k' n m} ht hm => by
        have hle := hn.announced_le
        have hold : m = s.accepted ∧ k' = k ∨ MayTell s k' m := by
          rcases hm with ⟨ho, hk⟩ | ⟨hl, hd | ⟨⟨bs, hd⟩, hfar⟩⟩
          · have hne : m ≠ s.accepted := Nat.ne_of_lt (Nat.lt_of_lt_of_le (hn.farOpen ho) hle)
            exact .inr (.inl ⟨ho, (update_of_ne hne ..).symm.trans hk⟩)
          · rcases of_mem_push hd with hd | hd
            · exact .inr (.of_opened hd hl)
            · cases hd
              exact .inl ⟨rfl, rfl⟩
          · rcases of_mem_push hd with hd | hd
            · exact .inr (.of_data hd hfar hl)
            · cases hd
        rcases hold with ⟨rfl, rfl⟩ | hold
        · rcases of_entered ht with ⟨-, rfl⟩ | ⟨hkk, -⟩
          · rfl
          · exact absurd rfl hkk
        · rcases of_entered ht with ⟨rfl, -⟩ | ⟨-, ht⟩
          · exact absurd hold hq.silent
          · exact hs.tell ht hold }
  | @nearRecv c _ n bs h =>
    exact { hs with
      tell := fun {k' n' m} ht hm => by
        rcases hm with ho | ⟨hl, hd | ⟨⟨bs, hd⟩, hfar⟩⟩
        · exact hs.tell ht (.inl ho)
        · rcases of_mem_push hd with hd | hd
          · exact hs.tell ht (.of_opened hd hl)
          · cases hd
        · rcases of_mem_push hd with hd | hd
          · exact hs.tell ht (.of_data hd hfar hl)
          · cases hd
            exact Option.some.inj (h.symm.trans ht) }
  | nearSend h => exact { hs with }
  | @nearClose c _ k h =>
    exact {
      up := fun ht => hs.up (of_erased ht).2
      tell := fun {k' n' m} ht hm => by
        refine hs.tell (of_erased ht).2 (MayTell.of_down (s := s) hm fun msg hne hd => ?_)
        rcases of_mem_push hd with hd | hd
        · exact hd
        · cases hd
          cases hne k rfl }
  | takeData h hc | takeUnknown h hc =>
    exact { hs with up := fun ht hm => hs.up ht (h ▸ List.mem_cons_of_mem _ hm) }
  | @takeClosed m up c _ k h hc =>
    exact {
      up := fun ht hm => hs.up (of_erased ht).2 (h ▸ List.mem_cons_of_mem _ hm)
      tell := fun {k' n' m} ht hm => by
        refine hs.tell (of_erased ht).2 (MayTell.of_down (s := s) hm fun msg hne hd => ?_)
        rcases of_mem_push hd with hd | hd
        · exact hd
        · cases hd
          cases hne k rfl }
  | @farNew n down _ k h hl =>
    exact { hs with
      tell := fun {k' n' m} ht hm => by
        refine hs.tell ht (hm.of_taken h hl rfl (fun ho hk => ?_) fun bs hd =>
          .behind_opened hf h hl hd)
        by_cases hmn : m = n
        · subst hmn
          cases (hn.head h).2.symm.trans hk
          exact .of_opened (h ▸ List.mem_cons_self) hl
        · exact .inl ⟨(update_of_ne hmn ..).mp ho, hk⟩ }
  | @farRefused n down _ k h hl =>
    have hnew := MayTell.of_opened (h ▸ List.mem_cons_self) hl
    exact {
      up := fun ht hm hk => by
        rcases of_mem_push hm with hm | hm
        · exact hs.up ht hm hk
        · cases hm
          cases hk
          exact hs.tell ht hnew
      tell := fun ht hm => hs.tell ht <| hm.of_taken h hl rfl
        (fun ho hk => .inl ⟨(of_ended ho).2, hk⟩) fun bs hd => .behind_opened hf h hl hd }
  | farData h hc =>
    exact { hs with
      tell := fun ht hm =>
        hs.tell ht (MayTell.of_down (s := s) hm fun _ _ hd => h ▸ List.mem_cons_of_mem _ hd) }
  | @farUnknown n down _ k bs h hc hl =>
    have hnew : MayTell s k n := .of_data (h ▸ List.mem_cons_self) (by rw [hc]; nofun) hl
    exact {
      up := fun ht hm hk => by
        rcases of_mem_push hm with hm | hm
        · exact hs.up ht hm hk
        · cases hm
          cases hk
          exact hs.tell ht hnew
      tell := fun ht hm =>
        hs.tell ht (MayTell.of_down (s := s) hm fun _ _ hd => h ▸ List.mem_cons_of_mem _ hd) }
  | @farClosed n down _ k h hl =>
    exact { hs with
      tell := fun ht hm => hs.tell ht <| hm.of_taken h hl rfl
        (fun ho hk => .inl ⟨ho.1, hk⟩) fun bs hd =>
          .of_opened (h ▸ List.mem_cons_of_mem _ (hf.data_of_closed h hd)) hl }
  | farRecv h =>
    exact { hs with
      up := fun ht hm hk => by
        rcases of_mem_push hm with hm | hm
        · exact hs.up ht hm hk
        · cases hm
          cases hk
          exact hs.tell ht (.of_open h) }
  | farSend h => exact { hs with }
  | @farEnd _ n tell h =>
    exact {
      up := fun ht hm hk => by
        rcases List.mem_append.mp hm with hm | hm
        · exact hs.up ht hm hk
        · cases tell with
          | true =>
            cases List.mem_singleton.mp hm
            cases hk
            exact hs.tell ht (.of_open h)
          | false => cases hm
      tell := fun ht hm => hs.tell ht (hm.imp_left fun ho => ⟨(of_ended ho.1).2, ho.2⟩) }
  | farDrop h =>
    exact { hs with
      tell := by
        rintro k' n' m' ht (⟨ho, hk⟩ | ⟨hl, -⟩)
        · exact hs.tell ht (.inl ⟨(of_ended ho).2, hk⟩)
        · cases (List.append_eq_nil_iff.mp hl.1).2 }
  | farDeaf =>
    exact { hs with
      tell := by
        rintro k n m ht (ho | ⟨hl, -⟩)
        · exact hs.tell ht (.inl ho)
        · exact absurd trivial hl.2 }

end Unmixed

/-! ## Bytes towards the far host -/

/-- Where the bytes received at the near ends are. -/
structure Sent (s : State κ β) : Prop where
  waiting : s.announced ≤ n → n < s.accepted → (s.near n).received = bytes n s.down
  live : s.farTab (s.key n) = some n →
    (s.near n).received = (s.far n).sent ++ (s.far n).pend ++ bytes n s.down
  isPrefix n : (s.far n).sent ++ (s.far n).pend <+: (s.near n).received

/-- Where the bytes received at the far ends are. -/
structure Returned (s : State κ β) : Prop where
  live : s.nearTab (s.key n) = some n →
    (s.far n).received = (s.near n).sent ++ (s.near n).pend ++ bytes n s.up
  isPrefix n : (s.near n).sent ++ (s.near n).pend <+: (s.far n).received

omit [DecidableEq κ] in
theorem Numbered.bytes_down {s : State κ β} (hs : Numbered s) {n : Nat} (h : s.accepted ≤ n) :
    bytes n s.down = [] :=
  bytes_eq_nil fun _ _ hm => absurd (hs.down hm).1 (Nat.not_lt.mpr h)

omit [DecidableEq κ] in
theorem Numbered.bytes_up {s : State κ β} (hs : Numbered s) {n : Nat} (h : s.announced ≤ n) :
    bytes n s.up = [] :=
  bytes_eq_nil fun _ _ hm => absurd (hs.up hm).1 (Nat.not_lt.mpr h)

omit [DecidableEq κ] in
protected theorem Sent.init (key : Nat → κ) : Sent (init key : State κ β) where
  waiting _ h := absurd h (Nat.not_lt_zero _)
  live h := by cases h
  isPrefix _ := List.nil_prefix

omit [DecidableEq κ] in
/-- A step that leaves these as they were leaves the bytes towards the far host where they were. -/
theorem Sent.congr {s s' : State κ β} (hs : Sent s) (haccepted : s'.accepted = s.accepted)
    (hannounced : s'.announced = s.announced) (hkey : s'.key = s.key)
    (hnear : ∀ m, (s'.near m).received = (s.near m).received)
    (hfar : ∀ m, (s'.far m).sent ++ (s'.far m).pend = (s.far m).sent ++ (s.far m).pend)
    (htab : ∀ k m, s'.farTab k = some m → s.farTab k = some m)
    (hdown : ∀ m, bytes m s'.down = bytes m s.down) : Sent s' where
  waiting hm hm' := by
    rw [hnear, hdown]
    exact hs.waiting (hannounced ▸ hm) (haccepted ▸ hm')
  live ht := by
    rw [hnear, hfar, hdown]
    rw [hkey] at ht
    exact hs.live (htab _ _ ht)
  isPrefix m := by
    rw [hnear, hfar]
    exact hs.isPrefix m

protected theorem Sent.step {s s' : State κ β} {a : Action κ β} (hf : Followed s) (hn : Numbered s)
    (hs : Sent s) {A : State κ β → κ → Prop} (hP : Cond A True s a) (h : Step s a s') :
    Sent s' := by
  have hle := hn.announced_le
  cases h with
  | @accept _ k =>
    have hdown (m : Nat) : bytes m (s.down ++ [(s.accepted, .opened k)]) = bytes m s.down := by simp
    have hnear {m : Nat} (hm : m ≠ s.accepted) : update s.near s.accepted {} m = s.near m :=
      update_of_ne hm ..
    have hself : update s.near s.accepted {} s.accepted = {} := update_self ..
    exact {
      waiting := fun {m} hm hm' => by
        rw [hdown]
        by_cases hma : m = s.accepted
        · subst hma
          rw [hn.bytes_down (Nat.le_refl _)]
          exact congrArg End.received hself
        · have hlt : m < s.accepted := Nat.lt_of_le_of_ne (Nat.le_of_lt_succ hm') hma
          exact (congrArg End.received (hnear hma)).trans (hs.waiting hm hlt)
      live := fun {m} ht => by
        rw [hdown]
        have hma : m ≠ s.accepted :=
          Nat.ne_of_lt (Nat.lt_of_lt_of_le (hn.known (hn.farTab ht)).1 hle)
        have hkey : update s.key s.accepted k m = s.key m := update_of_ne hma ..
        exact (congrArg End.received (hnear hma)).trans (hs.live (hkey ▸ ht))
      isPrefix m := by
        by_cases hma : m = s.accepted
        · subst hma
          rw [hn.far hle]
          exact List.nil_prefix
        · have hp := hs.isPrefix m
          rw [← hnear hma] at hp
          exact hp }
  | @nearRecv c _ n bs h =>
    have ho : _ = some _ := hP trivial
    obtain rfl := Option.some.inj (h.symm.trans ho)
    have hnear (m : Nat) := received_recv s.near c m (s.key c) bs
    exact {
      waiting := fun {m} hm hm' => by
        rw [hnear, bytes_append, hs.waiting hm hm']
      live := fun {m} ht => by
        rw [hnear, bytes_append, ← List.append_assoc, ← hs.live ht]
      isPrefix m := by
        rw [hnear]
        exact (hs.isPrefix m).trans (List.prefix_append ..) }
  | nearSend h =>
    exact hs.congr rfl rfl rfl (fun _ => End.flush_received ..) (fun _ => rfl) (fun _ _ => id)
      fun _ => rfl
  | nearClose h | takeClosed h hc =>
    exact hs.congr rfl rfl rfl (fun _ => rfl) (fun _ => rfl) (fun _ _ => id) (by simp)
  | takeData h hc =>
    exact hs.congr rfl rfl rfl (fun _ => End.update_push_received ..) (fun _ => rfl) (fun _ _ => id)
      fun _ => rfl
  | takeUnknown h hc => exact { hs with }
  | @farNew n down _ k h =>
    obtain ⟨rfl, hlt, -⟩ := hn.next h
    have hfar : update s.far s.announced {} = s.far :=
      Function.update_eq_self_iff.mpr (hn.far (Nat.le_refl _)).symm
    have hdown (m : Nat) : bytes m s.down = bytes m down := by rw [h, bytes_opened]
    exact {
      waiting := fun {m} hm hm' => by
        rw [← hdown]
        exact hs.waiting (Nat.le_of_succ_le hm) hm'
      live := fun {m} ht => by
        rw [hfar, ← hdown]
        rcases of_entered ht with ⟨-, rfl⟩ | ⟨-, ht⟩
        · -- all that has been received is still on its way
          rw [hn.far (Nat.le_refl _)]
          exact hs.waiting (Nat.le_refl _) hlt
        · exact hs.live ht
      isPrefix m := by
        rw [hfar]
        exact hs.isPrefix m }
  | @farRefused n down _ k h =>
    obtain ⟨rfl, -⟩ := hn.next h
    have hfar : update s.far s.announced {} = s.far :=
      Function.update_eq_self_iff.mpr (hn.far (Nat.le_refl _)).symm
    have hdown (m : Nat) : bytes m s.down = bytes m down := by rw [h, bytes_opened]
    exact {
      waiting := fun {m} hm hm' => by
        rw [← hdown]
        exact hs.waiting (Nat.le_of_succ_le hm) hm'
      live := fun {m} ht => by
        rw [hfar, ← hdown]
        exact hs.live (of_erased ht).2
      isPrefix m := by
        rw [hfar]
        exact hs.isPrefix m }
  | @farData n down c _ bs k h hc =>
    have hknown := hf.of_data h
    obtain rfl := Option.some.inj (hknown.symm.trans (hn.farTab hc))
    obtain ⟨hlt, hkey⟩ := hn.known hknown
    have hfar (m : Nat) := sent_pend_push s.far n m k bs
    have hdown (m : Nat) : bytes m s.down = bytes m [(n, .data k bs)] ++ bytes m down := by
      rw [h, bytes_cons]
    exact {
      waiting := fun {m} hm hm' => by
        have hmn : n ≠ m := Nat.ne_of_lt (Nat.lt_of_lt_of_le hlt hm)
        rw [hs.waiting hm hm', hdown, bytes_of_ne hmn]
        rfl
      live := fun {m} ht => by
        rw [hfar, List.append_assoc, ← hdown]
        exact hs.live ht
      isPrefix m := by
        rw [hfar]
        by_cases hmn : n = m
        · subst hmn
          rw [hs.live (hkey ▸ hc), hdown, ← List.append_assoc]
          exact List.prefix_append ..
        · rw [bytes_of_ne hmn, List.append_nil]
          exact hs.isPrefix m }
  | @farUnknown n down _ k bs h hc =>
    obtain ⟨hlt, hkey⟩ := hn.known (hf.of_data h)
    have hdown {m : Nat} (hmn : n ≠ m) : bytes m s.down = bytes m down := by
      rw [h, bytes_cons, bytes_of_ne hmn]
      rfl
    exact { hs with
      waiting := fun {m} hm hm' => by
        rw [← hdown (Nat.ne_of_lt (Nat.lt_of_lt_of_le hlt hm))]
        exact hs.waiting hm hm'
      live := fun {m} ht => by
        have hmn : n ≠ m := by
          rintro rfl
          cases hc.symm.trans (hkey ▸ ht)
        rw [← hdown hmn]
        exact hs.live ht }
  | @farClosed n down _ k h =>
    have hdown (m : Nat) : bytes m down = bytes m s.down := by rw [h, bytes_closed]
    exact hs.congr rfl rfl rfl (fun _ => rfl) (fun _ => rfl) (fun _ _ ht => (of_erased ht).2) hdown
  | farRecv h =>
    exact hs.congr rfl rfl rfl (fun _ => rfl) (fun _ => End.update_recv ..) (fun _ _ => id)
      fun _ => rfl
  | farSend h =>
    exact hs.congr rfl rfl rfl (fun _ => rfl) (fun _ => End.flush_sent_pend ..) (fun _ _ => id)
      fun _ => rfl
  | farEnd h => exact { hs with }
  | farDrop h =>
    exact hs.congr rfl rfl rfl (fun _ => rfl) (fun _ => rfl) (fun _ _ ht => (of_erased ht).2)
      fun _ => rfl
  | farDeaf => exact { hs with }

omit [DecidableEq κ] in
protected theorem Returned.init (key : Nat → κ) : Returned (init key : State κ β) where
  live h := by cases h
  isPrefix _ := List.nil_prefix

omit [DecidableEq κ] in
/-- A step that leaves these as they were leaves the bytes towards the near host where they
were. -/
theorem Returned.congr {s s' : State κ β} (hs : Returned s) (hkey : s'.key = s.key)
    (hnear : ∀ m, (s'.near m).sent ++ (s'.near m).pend = (s.near m).sent ++ (s.near m).pend)
    (hfar : ∀ m, (s'.far m).received = (s.far m).received)
    (htab : ∀ k m, s'.nearTab k = some m → s.nearTab k = some m)
    (hup : ∀ m, bytes m s'.up = bytes m s.up) : Returned s' where
  live ht := by
    rw [hnear, hfar, hup]
    rw [hkey] at ht
    exact hs.live (htab _ _ ht)
  isPrefix m := by
    rw [hnear, hfar]
    exact hs.isPrefix m

protected theorem Returned.step {s s' : State κ β} {a : Action κ β} (hn : Numbered s)
    (hu : Unmixed s) (hs : Returned s) {A : State κ β → κ → Prop} (hP : Cond A True s a)
    (h : Step s a s') : Returned s' := by
  have hle := hn.announced_le
  cases h with
  | @accept _ k =>
    have hnear {m : Nat} (hm : m ≠ s.accepted) : update s.near s.accepted {} m = s.near m :=
      update_of_ne hm ..
    have hself : update s.near s.accepted {} s.accepted = {} := update_self ..
    exact {
      live := fun {m} ht => by
        by_cases hma : m = s.accepted
        · subst hma
          rw [hn.far hle, hn.bytes_up hle]
          exact congrArg (fun e : End β => e.sent ++ e.pend ++ []) hself.symm
        · rcases of_entered ht with ⟨-, he⟩ | ⟨-, ht⟩
          · exact absurd he.symm hma
          · have ht : s.nearTab (update s.key s.accepted k m) = some m := ht
            rw [update_of_ne hma] at ht
            have hlive := hs.live ht
            rw [← hnear hma] at hlive
            exact hlive
      isPrefix m := by
        by_cases hma : m = s.accepted
        · subst hma
          show (update s.near s.accepted {} s.accepted).sent ++
            (update s.near s.accepted {} s.accepted).pend <+: (s.far s.accepted).received
          rw [hself]
          exact List.nil_prefix
        · have hp := hs.isPrefix m
          rw [← hnear hma] at hp
          exact hp }
  | nearRecv h =>
    exact hs.congr rfl (fun _ => End.update_recv ..) (fun _ => rfl) (fun _ _ => id) fun _ => rfl
  | nearSend h =>
    have ho : _ = some _ := hP trivial
    obtain rfl := Option.some.inj (h.symm.trans ho)
    exact hs.congr rfl (fun _ => End.flush_sent_pend ..) (fun _ => rfl) (fun _ _ => id) fun _ => rfl
  | nearClose h =>
    exact hs.congr rfl (fun _ => rfl) (fun _ => rfl) (fun _ _ ht => (of_erased ht).2) fun _ => rfl
  | @takeData m up c _ bs k h hc =>
    obtain rfl := hu.up hc (h ▸ List.mem_cons_self) rfl
    have hkey := (hn.nearTab hc).2
    have hnear (x : Nat) := sent_pend_push s.near m x k bs
    have hup (x : Nat) : bytes x s.up = bytes x [(m, .data k bs)] ++ bytes x up := by
      rw [h, bytes_cons]
    exact {
      live := fun {x} ht => by
        rw [hnear, List.append_assoc, ← hup]
        exact hs.live ht
      isPrefix x := by
        rw [hnear]
        by_cases hx : m = x
        · subst hx
          rw [hs.live (hkey ▸ hc), hup, ← List.append_assoc]
          exact List.prefix_append ..
        · rw [bytes_of_ne hx, List.append_nil]
          exact hs.isPrefix x }
  | @takeClosed m up c _ k h hc =>
    have hup (x : Nat) : bytes x up = bytes x s.up := by rw [h, bytes_closed]
    exact hs.congr rfl (fun _ => rfl) (fun _ => rfl) (fun _ _ ht => (of_erased ht).2) hup
  | @takeUnknown m msg up _ h hc =>
    have hkey := (hn.upHead h).2
    exact { hs with
      live := fun {x} ht => by
        have hx : m ≠ x := by
          rintro rfl
          cases hc.symm.trans (hkey ▸ ht)
        rw [hs.live ht, h, bytes_cons, bytes_of_ne hx]
        rfl }
  | farNew h | farRefused h =>
    obtain ⟨rfl, -⟩ := hn.next h
    have hfar : update s.far s.announced {} = s.far :=
      Function.update_eq_self_iff.mpr (hn.far (Nat.le_refl _)).symm
    exact hs.congr rfl (fun _ => rfl) (fun _ => by rw [hfar]) (fun _ _ => id) (by simp)
  | farData h hc =>
    exact hs.congr rfl (fun _ => rfl) (fun _ => End.update_push_received ..) (fun _ _ => id)
      fun _ => rfl
  | farUnknown h hc =>
    exact hs.congr rfl (fun _ => rfl) (fun _ => rfl) (fun _ _ => id) (by simp)
  | farClosed h => exact { hs with }
  | @farRecv _ n bs h =>
    have hfar (m : Nat) := received_recv s.far n m (s.key n) bs
    exact {
      live := fun {m} ht => by
        rw [hfar, bytes_append, ← List.append_assoc, ← hs.live ht]
      isPrefix m := by
        rw [hfar]
        exact (hs.isPrefix m).trans (List.prefix_append ..) }
  | farSend h =>
    exact hs.congr rfl (fun _ => rfl) (fun _ => End.flush_received ..) (fun _ _ => id) fun _ => rfl
  | @farEnd _ n tell h =>
    cases tell with
    | true => exact hs.congr rfl (fun _ => rfl) (fun _ => rfl) (fun _ _ => id) (by simp)
    | false => exact hs.congr rfl (fun _ => rfl) (fun _ => rfl) (fun _ _ => id) (by simp)
  | farDrop h | farDeaf => exact { hs with }

/-! ## Runs -/

section
variable {A : State κ β → κ → Prop} {own : Prop} {s : State κ β}

theorem Reachable.final (h : Reachable A own s) : Final s :=
  h.invariant_of (K := fun s => Followed s ∧ Numbered s ∧ GivenUp s)
    (fun _ h => ⟨Reachable.followed h, Reachable.numbered h, Reachable.givenUp h⟩)
    (fun _ ⟨_, hi⟩ => hi ▸ .init _) fun _ _ _ hk hs _ => hs.step hk.1 hk.2.1 hk.2.2

theorem Reachable.sent (h : Reachable A True s) : Sent s :=
  h.invariant_of (K := fun s => Followed s ∧ Numbered s)
    (fun _ h => ⟨Reachable.followed h, Reachable.numbered h⟩)
    (fun _ ⟨_, hi⟩ => hi ▸ .init _) fun _ _ _ hk hs hP => hs.step hk.1 hk.2 hP

/-- A close that the far host takes off its table comes behind all the bytes. -/
theorem Reachable.sent_closed (h : Reachable A True s) {down : List (Nat × Msg κ β)} {n m : Nat}
    {k : κ} (hd : s.down = (n, .closed k) :: down) (hm : s.farTab k = some m) :
    (s.near m).received = (s.far m).sent ++ (s.far m).pend := by
  have hn := h.numbered
  have hknown := h.followed.of_closed hd
  obtain rfl := Option.some.inj (hknown.symm.trans (hn.farTab hm))
  have hk : s.key n = k := (hn.head hd).2
  have hb : bytes n s.down = [] := by
    rw [hd, bytes_closed]
    exact CloseLast.bytes (hd ▸ h.final.down)
  rw [h.sent.live (hk ▸ hm), hb, List.append_nil]

variable (hA : ∀ s k, A s k → Quiet s k)
include hA

theorem Reachable.unmixed (h : Reachable A own s) : Unmixed s :=
  h.invariant_of (K := fun s => Followed s ∧ Numbered s)
    (fun _ h => ⟨Reachable.followed h, Reachable.numbered h⟩) (fun _ ⟨_, hi⟩ => hi ▸ .init _)
    fun _ _ _ hk hs hP => hs.step hk.1 hk.2 fun k ha => hA _ k (by subst ha; exact hP)

theorem Reachable.returned (h : Reachable A True s) : Returned s :=
  h.invariant_of (K := fun s => Numbered s ∧ Unmixed s)
    (fun _ h => ⟨Reachable.numbered h, Reachable.unmixed hA h⟩)
    (fun _ ⟨_, hi⟩ => hi ▸ .init _) fun _ _ _ hk hs hP => hs.step hk.1 hk.2 hP

/-- A close that the near host takes off its table comes behind all the bytes. -/
theorem Reachable.returned_closed (h : Reachable A True s) {up : List (Nat × Msg κ β)} {n m : Nat}
    {k : κ} (hu : s.up = (n, .closed k) :: up) (hm : s.nearTab k = some m) :
    (s.far m).received = (s.near m).sent ++ (s.near m).pend := by
  obtain rfl := (Reachable.unmixed hA h).up hm (hu ▸ List.mem_cons_self) rfl
  have hk : s.key n = k := (h.numbered.nearTab hm).2
  have hb : bytes n s.up = [] := by
    rw [hu, bytes_closed]
    exact CloseLast.bytes (hu ▸ h.final.up)
  rw [(Reachable.returned hA h).live (hk ▸ hm), hb, List.append_nil]

/-- **What is sent at either end is a prefix of what was received at the other.** -/
theorem Reachable.integrity (h : Reachable A True s) (n : Nat) :
    (s.far n).sent <+: (s.near n).received ∧ (s.near n).sent <+: (s.far n).received :=
  ⟨(List.prefix_append ..).trans (h.sent.isPrefix n),
    (List.prefix_append ..).trans ((Reachable.returned hA h).isPrefix n)⟩

end

/-! ## Keys never used again -/

/-- No connection has had the key. -/
def Unused (s : State κ β) (k : κ) : Prop := Numbered s ∧ ∀ n < s.accepted, s.key n ≠ k

omit [DecidableEq κ] in
/-- A key that no connection has had is quiet. -/
theorem Unused.quiet {s : State κ β} {k : κ} (h : Unused s k) : Quiet s k where
  up := by
    intro m msg hm hk
    obtain ⟨hlt, hkey⟩ := h.1.up hm
    exact h.2 m (Nat.lt_of_lt_of_le hlt h.1.announced_le) (hkey.trans hk)
  silent := by
    rintro m (⟨ho, hk⟩ | ⟨-, hm | ⟨⟨bs, hm⟩, -⟩⟩)
    · exact h.2 m (Nat.lt_of_lt_of_le (h.1.farOpen ho) h.1.announced_le) hk
    · exact h.2 m (h.1.down hm).1 (h.1.down hm).2
    · exact h.2 m (h.1.down hm).1 (h.1.down hm).2

/-- If every key is unused when it is accepted, it names one connection. -/
theorem Reachable.key_injective {own : Prop} {s : State κ β} (h : Reachable Unused own s)
    {m n : Nat} (hm : m < s.accepted) (hn : n < s.accepted) (hk : s.key m = s.key n) : m = n := by
  induction h with
  | init hi =>
    obtain ⟨key, rfl⟩ := hi
    exact absurd hm (Nat.not_lt_zero m)
  | @step s a s' _ hP hs ih =>
    cases hs with
    | accept =>
      -- only the new connection has the new key
      have hnew {m : Nat} (hm : m < s.accepted + 1) :
          m = s.accepted ∨ m < s.accepted ∧ m ≠ s.accepted := by omega
      rcases hnew hm with rfl | ⟨hm, hma⟩
      · rcases hnew hn with rfl | ⟨hn, hna⟩
        · rfl
        · have hk := ((update_self ..).symm.trans hk).trans (update_of_ne hna ..)
          exact absurd hk.symm (hP.2 n hn)
      · rcases hnew hn with rfl | ⟨hn, hna⟩
        · have hk := ((update_of_ne hma ..).symm.trans hk).trans (update_self ..)
          exact absurd hk (hP.2 m hm)
        · exact ih hm hn (((update_of_ne hma ..).symm.trans hk).trans (update_of_ne hna ..))
    | _ => exact ih hm hn hk

end Tunnel
