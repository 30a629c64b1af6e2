import Mathlib.Order.Filter.AtTopBot.Basic
import Mathlib.Tactic.ByContra
import PortPort.Lib.Progress

/-! # A channel of encoded items

Items wait in a queue, are encoded into an output buffer, go over a wire and are decoded from an
input buffer. What is handed out is a prefix of what was put in, and if no stage starves, all that
was put in is handed out. A queue behind the channel is emptied by a party that goes on running. -/

open Filter

/-- A counter that never falls and that grows again and again below a bound reaches it. -/
theorem exists_ge_of_grows {f : ℕ → ℕ} {N i : ℕ} (hmono : Monotone f)
    (h : (∀ j ≥ i, f j < N) → ∃ᶠ j in atTop, f j < f (j + 1)) : ∃ j ≥ i, N ≤ f j := by
  by_contra hnever
  have hlt : ∀ j ≥ i, f j < N := fun j hj => Nat.lt_of_not_le fun hle => hnever ⟨j, hj, hle⟩
  have hgrows (n : ℕ) : ∃ j ≥ i, n ≤ f j := by
    induction n with
    | zero => exact ⟨i, Nat.le_refl i, Nat.zero_le _⟩
    | succ n ih =>
      obtain ⟨j, hj, hn⟩ := ih
      obtain ⟨k, hk, hf⟩ := frequently_atTop.mp (h hlt) j
      exact ⟨k + 1, by omega, Nat.lt_of_le_of_lt (hn.trans (hmono hk)) hf⟩
  obtain ⟨j, hj, hN⟩ := hgrows N
  exact absurd (hlt j hj) (Nat.not_lt.mpr hN)

structure Chan (ι β : Type*) where
  queue : List ι := []
  out : List β := []
  wire : List β := []
  inp : List β := []

namespace Chan
variable {ι β : Type*}

/-- The encoding of these items can be told where it begins a stream. -/
structure Code (Ok : ι → Prop) (enc : ι → List β) : Prop where
  ne : ∀ x, Ok x → enc x ≠ []
  cancel : ∀ x y a b, Ok x → Ok y → enc x ++ a = enc y ++ b → x = y ∧ a = b

/-- A step of the channel in which the items `put` are put in and the items `hand` handed out. -/
inductive Moves (Ok : ι → Prop) (enc : ι → List β) (c : Chan ι β) :
    List ι → List ι → Chan ι β → Prop
  | idle : Moves Ok enc c [] [] c
  | puts (hok : ∀ x ∈ xs, Ok x) : Moves Ok enc c xs [] { c with queue := c.queue ++ xs }
  | frames (h : c.queue = x :: rest) :
      Moves Ok enc c [] [] { c with queue := rest, out := c.out ++ enc x }
  | sends (h : c.out = b ++ rest) :
      Moves Ok enc c [] [] { c with out := rest, wire := c.wire ++ b }
  | receives (h : c.wire = b ++ rest) :
      Moves Ok enc c [] [] { c with wire := rest, inp := c.inp ++ b }
  | takes (hok : Ok x) (h : c.inp = enc x ++ rest) : Moves Ok enc c [] [x] { c with inp := rest }

/-- These items are on their way. -/
structure Carries (Ok : ι → Prop) (enc : ι → List β) (c : Chan ι β) (xs : List ι) : Prop where
  ok : ∀ x ∈ xs, Ok x
  bytes : ∃ ys, c.inp ++ (c.wire ++ c.out) = ys.flatMap enc ∧ xs = ys ++ c.queue

variable {Ok : ι → Prop} {enc : ι → List β} {c c' : Chan ι β} {xs put hand : List ι}

theorem Carries.empty : Carries Ok enc {} [] := ⟨List.forall_mem_nil _, [], rfl, rfl⟩

/-- Nothing is lost or added on the way, and the order stays. -/
theorem Carries.moves (hcode : Code Ok enc) (h : Carries Ok enc c xs)
    (hm : Moves Ok enc c put hand c') : ∃ xs', Carries Ok enc c' xs' ∧ xs ++ put = hand ++ xs' := by
  obtain ⟨hok, ys, hbytes, rfl⟩ := h
  cases hm with
  | idle => exact ⟨_, ⟨hok, ys, hbytes, rfl⟩, List.append_nil _⟩
  | puts hput =>
    refine ⟨_, ⟨fun x hx => ?_, ys, hbytes, rfl⟩, List.append_assoc ..⟩
    rw [← List.append_assoc] at hx
    exact (List.mem_append.mp hx).elim (hok x) (hput x)
  | @frames x queue hq =>
    refine ⟨_, ⟨hok, ys ++ [x], ?_, ?_⟩, List.append_nil _⟩
    · simp only [List.flatMap_append, List.flatMap_singleton, ← hbytes, List.append_assoc]
    · rw [hq, List.append_assoc]
      rfl
  | sends hout =>
    refine ⟨_, ⟨hok, ys, ?_, rfl⟩, List.append_nil _⟩
    rw [← hbytes, hout]
    simp only [List.append_assoc]
  | receives hwire =>
    refine ⟨_, ⟨hok, ys, ?_, rfl⟩, List.append_nil _⟩
    rw [← hbytes, hwire]
    simp only [List.append_assoc]
  | @takes x inp hx hinp =>
    rw [hinp, List.append_assoc] at hbytes
    cases ys with
    | nil => exact absurd (List.append_eq_nil_iff.mp hbytes).1 (hcode.ne x hx)
    | cons y ys =>
      obtain ⟨rfl, hrest⟩ := hcode.cancel _ _ _ _ hx (hok y List.mem_cons_self) hbytes
      exact ⟨_, ⟨fun z hz => hok z (List.mem_cons_of_mem _ hz), ys, hrest, rfl⟩,
        List.append_nil _⟩

/-! ## Histories -/

/-- A channel over time. -/
structure History (Ok : ι → Prop) (enc : ι → List β) where
  chan : ℕ → Chan ι β
  put : ℕ → List ι
  hand : ℕ → List ι
  empty : chan 0 = {}
  moves : ∀ i, Moves Ok enc (chan i) (put i) (hand i) (chan (i + 1))

/-- The items of the first `i` steps. -/
def before (xs : ℕ → List ι) : ℕ → List ι
  | 0 => []
  | i + 1 => before xs i ++ xs i

theorem before_mono (xs : ℕ → List ι) {i j : ℕ} (h : i ≤ j) : before xs i <+: before xs j := by
  induction j, h using Nat.le_induction with
  | base => exact List.prefix_rfl
  | succ j _ ih => exact ih.trans (List.prefix_append ..)

/-- Where each step adds at most one item, every item is that of one step. -/
theorem exists_step_of_before {xs : ℕ → List ι} (hone : ∀ i, (xs i).length ≤ 1) {j k : ℕ} {x : ι}
    (h : (before xs j)[k]? = some x) : ∃ i, (before xs i).length = k ∧ xs i = [x] := by
  induction j with
  | zero => cases h
  | succ j ih =>
    rw [before] at h
    by_cases hk : k < (before xs j).length
    · rw [List.getElem?_append_left hk] at h
      exact ih h
    · rw [List.getElem?_append_right (Nat.not_lt.mp hk)] at h
      obtain ⟨hlt, hx⟩ := List.getElem?_eq_some_iff.mp h
      have hlen := hone j
      have hzero : k - (before xs j).length = 0 := by omega
      obtain ⟨y, hy⟩ := List.length_eq_one_iff.mp (show (xs j).length = 1 by omega)
      simp only [hzero, hy, List.getElem_cons_zero] at hx
      exact ⟨j, by omega, by rw [hy, hx]⟩

namespace History
variable (h : History Ok enc)

theorem carries (hcode : Code Ok enc) (i : ℕ) : ∃ xs, Carries Ok enc (h.chan i) xs ∧
    before h.put i = before h.hand i ++ xs := by
  induction i with
  | zero => exact ⟨[], h.empty ▸ .empty, rfl⟩
  | succ i ih =>
    obtain ⟨xs, hxs, hput⟩ := ih
    obtain ⟨xs', hxs', heq⟩ := hxs.moves hcode (h.moves i)
    refine ⟨xs', hxs', ?_⟩
    rw [before, before, hput, List.append_assoc, heq, List.append_assoc]

/-- What is handed out is what was put in, in order. -/
theorem hand_before (hcode : Code Ok enc) (i : ℕ) : before h.hand i <+: before h.put i := by
  obtain ⟨xs, -, hput⟩ := h.carries hcode i
  exact ⟨xs, hput.symm⟩

/-! ## No stage starves -/

/-- No stage starves: one that has something to pass on from some time on passes on again and
again. -/
structure Served : Prop where
  frames : (∀ᶠ j in atTop, (h.chan j).queue ≠ []) →
    ∃ᶠ j in atTop, (h.chan (j + 1)).queue.length < (h.chan j).queue.length
  sends : (∀ᶠ j in atTop, (h.chan j).out ≠ []) →
    ∃ᶠ j in atTop, (h.chan (j + 1)).out.length < (h.chan j).out.length
  receives : (∀ᶠ j in atTop, (h.chan j).wire ≠ []) →
    ∃ᶠ j in atTop, (h.chan (j + 1)).wire.length < (h.chan j).wire.length
  takes : (∀ᶠ j in atTop, ∃ x, Ok x ∧ enc x <+: (h.chan j).inp) →
    ∃ᶠ j in atTop, (h.chan (j + 1)).inp.length < (h.chan j).inp.length

/-- The bytes taken, received, sent and framed so far. -/
def taken (i : ℕ) : ℕ := ((before h.hand i).flatMap enc).length
def received (i : ℕ) : ℕ := h.taken i + (h.chan i).inp.length
def sent (i : ℕ) : ℕ := h.received i + (h.chan i).wire.length
def framed (i : ℕ) : ℕ := h.sent i + (h.chan i).out.length

theorem taken_succ (i : ℕ) : h.taken (i + 1) = h.taken i + ((h.hand i).flatMap enc).length := by
  simp [taken, before]

theorem grows (i : ℕ) : h.taken i ≤ h.taken (i + 1) ∧ h.received i ≤ h.received (i + 1) ∧
    h.sent i ≤ h.sent (i + 1) ∧ h.framed i ≤ h.framed (i + 1) := by
  have hmoves := h.moves i
  have htaken := h.taken_succ i
  simp only [framed, sent, received]
  generalize h.hand i = hand, h.put i = put, h.chan (i + 1) = c' at *
  cases hmoves with
  | idle | puts | frames => simp_all
  | sends hq | receives hq | takes _ hq =>
    have hlen := congrArg List.length hq
    simp_all
    omega

theorem monotone : Monotone h.taken ∧ Monotone h.received ∧ Monotone h.sent ∧
    Monotone h.framed :=
  ⟨monotone_nat_of_le_succ fun i => (h.grows i).1,
    monotone_nat_of_le_succ fun i => (h.grows i).2.1,
    monotone_nat_of_le_succ fun i => (h.grows i).2.2.1,
    monotone_nat_of_le_succ fun i => (h.grows i).2.2.2⟩

theorem framed_eq (hcode : Code Ok enc) (i : ℕ) :
    h.framed i + ((h.chan i).queue.flatMap enc).length =
      ((before h.put i).flatMap enc).length := by
  obtain ⟨xs, ⟨-, ys, hbytes, rfl⟩, hput⟩ := h.carries hcode i
  have hlen := congrArg List.length hbytes
  simp only [framed, sent, received, taken, hput, List.flatMap_append, List.length_append] at hlen ⊢
  omega

theorem framed_lt (hcode : Code Ok enc) {j : ℕ}
    (hq : (h.chan (j + 1)).queue.length < (h.chan j).queue.length) :
    h.framed j < h.framed (j + 1) := by
  obtain ⟨xs, ⟨hok, ys, -, rfl⟩, -⟩ := h.carries hcode j
  have hmoves := h.moves j
  have htaken := h.taken_succ j
  simp only [framed, sent, received]
  generalize h.hand j = hand, h.put j = put, h.chan (j + 1) = c' at *
  cases hmoves with
  | @frames x rest hqueue =>
    have hx : Ok x := hok x (by simp [hqueue])
    have hpos := List.length_pos_iff.mpr (hcode.ne x hx)
    simp only [List.flatMap_nil, List.length_nil, List.length_append] at htaken ⊢
    omega
  | puts =>
    simp only [List.length_append] at hq
    omega
  | _ => exact absurd hq (Nat.lt_irrefl _)

/-- All bytes come through a stage that does not starve. -/
theorem passes {f g : ℕ → ℕ} {buf : ℕ → List β} (hf : Monotone f) (hg : Monotone g)
    (hfg : ∀ j, f j = g j + (buf j).length)
    (hserved : (∀ᶠ j in atTop, buf j ≠ []) → ∃ᶠ j in atTop, (buf (j + 1)).length < (buf j).length)
    {N i : ℕ} (h : N ≤ f i) : ∃ j ≥ i, N ≤ g j := by
  refine exists_ge_of_grows hg fun hlt => ?_
  have hbuf : ∀ᶠ j in atTop, buf j ≠ [] := by
    refine eventually_atTop.mpr ⟨i, fun j hj hnil => ?_⟩
    have hfj := hfg j
    rw [hnil, List.length_nil] at hfj
    have hij := h.trans (hf hj)
    have hgj := hlt j hj
    omega
  refine (hserved hbuf).mono fun j hj => ?_
  have hfj := hfg j
  have hfj' := hfg (j + 1)
  have hle := hf (Nat.le_succ j)
  rw [Nat.succ_eq_add_one] at hle
  omega

/-- What was put in has been handed out, or there is an item that is handed out next. -/
theorem handed_or_next (hcode : Code Ok enc) {i j : ℕ} (hij : i ≤ j) :
    before h.put i <+: before h.hand j ∨ ∃ x rest, Ok x ∧
      before h.put i = before h.hand j ++ x :: rest ∧
      ((enc x).length ≤ (h.chan j).inp.length → enc x <+: (h.chan j).inp) := by
  obtain ⟨xs, ⟨hok, ys, hbytes, rfl⟩, hput⟩ := h.carries hcode j
  rcases List.prefix_or_prefix_of_prefix (before_mono h.put hij) (h.hand_before hcode j) with
    hle | ⟨zs, hzs⟩
  · exact .inl hle
  · cases zs with
    | nil =>
      rw [List.append_nil] at hzs
      exact .inl (hzs ▸ List.prefix_rfl)
    | cons x rest =>
      obtain ⟨tail, htail⟩ := before_mono h.put hij
      rw [← hzs, hput, List.append_assoc, List.append_cancel_left_eq] at htail
      refine .inr ⟨x, rest, hok x ?_, hzs.symm, fun hlen => ?_⟩
      · rw [← htail]
        exact List.mem_cons_self
      · cases ys with
        | nil =>
          have hnil := (List.append_eq_nil_iff.mp hbytes).1
          rw [hnil, List.length_nil, Nat.le_zero, List.length_eq_zero_iff] at hlen
          rw [hlen]
          exact List.nil_prefix
        | cons y ys =>
          obtain ⟨rfl, -⟩ := List.cons.inj htail
          refine List.prefix_of_prefix_length_le ?_ ⟨_, hbytes⟩ hlen
          exact ⟨_, (List.flatMap_cons ..).symm⟩

theorem flatMap_lt (hcode : Code Ok enc) {x : ι} (hx : Ok x) (xs ys : List ι) :
    (xs.flatMap enc).length + (enc x).length ≤ ((xs ++ x :: ys).flatMap enc).length ∧
      0 < (enc x).length := by
  refine ⟨?_, List.length_pos_iff.mpr (hcode.ne x hx)⟩
  simp only [List.flatMap_append, List.flatMap_cons, List.length_append]
  omega

/-- Where no stage starves, all that was put in is handed out at some time. -/
theorem delivers (hcode : Code Ok enc) (hs : h.Served) (i : ℕ) :
    ∃ j ≥ i, before h.put i <+: before h.hand j := by
  obtain ⟨htaken, hreceived, hsent, hframed⟩ := h.monotone
  -- the bytes of these items are framed, sent, received and taken
  obtain ⟨j₁, hj₁, hN₁⟩ : ∃ j ≥ i, ((before h.put i).flatMap enc).length ≤ h.framed j := by
    refine exists_ge_of_grows hframed fun hlt => ?_
    refine (hs.frames (eventually_atTop.mpr ⟨i, fun j hj hnil => ?_⟩)).mono fun j hj =>
      h.framed_lt hcode hj
    have heq := h.framed_eq hcode j
    rw [hnil, List.flatMap_nil, List.length_nil, Nat.add_zero] at heq
    obtain ⟨tail, htail⟩ := before_mono h.put hj
    have hlen := congrArg (fun xs => (xs.flatMap enc).length) htail
    simp only [List.flatMap_append, List.length_append] at hlen
    have hbelow := hlt j hj
    omega
  obtain ⟨j₂, hj₂, hN₂⟩ := passes hframed hsent (fun _ => rfl) hs.sends hN₁
  obtain ⟨j₃, hj₃, hN₃⟩ := passes hsent hreceived (fun _ => rfl) hs.receives hN₂
  have hij₃ : i ≤ j₃ := hj₁.trans (hj₂.trans hj₃)
  obtain ⟨j, hj, hN⟩ : ∃ j ≥ j₃, ((before h.put i).flatMap enc).length ≤ h.taken j := by
    refine exists_ge_of_grows htaken fun hlt => ?_
    have hwhole : ∀ᶠ j in atTop, ∃ x, Ok x ∧ enc x <+: (h.chan j).inp := by
      refine eventually_atTop.mpr ⟨j₃, fun j hj => ?_⟩
      have hbelow := hlt j hj
      have hgot : h.received j = h.taken j + (h.chan j).inp.length := rfl
      have hle := hN₃.trans (hreceived hj)
      rcases h.handed_or_next hcode (hij₃.trans hj) with ⟨tail, htail⟩ | ⟨x, rest, hx, hput, hinp⟩
      · have hlen := congrArg (fun xs => (xs.flatMap enc).length) htail
        simp only [List.flatMap_append, List.length_append] at hlen
        simp only [taken] at hbelow
        omega
      · have hlen := (flatMap_lt hcode hx (before h.hand j) rest).1
        rw [← hput] at hlen
        refine ⟨x, hx, hinp ?_⟩
        simp only [taken] at hgot hbelow
        omega
    refine (hs.takes hwhole).mono fun j hj => ?_
    have hle := hreceived (Nat.le_succ j)
    simp only [received, Nat.succ_eq_add_one] at hle
    omega
  refine ⟨j, hij₃.trans hj, ?_⟩
  rcases h.handed_or_next hcode (hij₃.trans hj) with hle | ⟨x, rest, hx, hput, -⟩
  · exact hle
  · obtain ⟨hlen, hpos⟩ := flatMap_lt hcode hx (before h.hand j) rest
    rw [← hput] at hlen
    simp only [taken] at hN
    omega

end History

/-! ## A queue -/

/-- A queue over time: what is put at its end and what is taken off its front. -/
structure Queue (ι : Type*) where
  items : ℕ → List ι
  put : ℕ → List ι
  take : ℕ → List ι
  empty : items 0 = []
  moves : ∀ i, items i ++ put i = take i ++ items (i + 1)

namespace Queue
variable (q : Queue ι)

theorem before_put (i : ℕ) : before q.put i = before q.take i ++ q.items i := by
  induction i with
  | zero => rw [q.empty]; rfl
  | succ i ih => rw [before, before, ih, List.append_assoc, q.moves, List.append_assoc]

/-- What is taken is what was put, in order. -/
theorem take_before (i : ℕ) : before q.take i <+: before q.put i :=
  ⟨q.items i, (q.before_put i).symm⟩

/-- A queue off which nothing is taken is not emptied. -/
theorem items_ne_nil {i j : ℕ} (hq : q.items i ≠ []) (h : ∀ k ≥ i, k < j → q.take k = [])
    (hij : i ≤ j) : q.items j ≠ [] := by
  induction j, hij using Nat.le_induction with
  | base => exact hq
  | succ j hij ih =>
    have hmoves := q.moves j
    rw [h j hij (Nat.lt_succ_self j), List.nil_append] at hmoves
    rw [← hmoves]
    exact List.append_ne_nil_of_left_ne_nil (ih fun k hk hkj => h k hk (hkj.trans j.lt_succ_self)) _

/-- If again and again something is taken off a queue that is not empty, all is taken. -/
theorem drains {i : ℕ} (h : ∀ j ≥ i, q.items j ≠ [] → ∃ k ≥ j, q.take k ≠ []) :
    ∃ j ≥ i, before q.put i <+: before q.take j := by
  have hmono : Monotone fun j => (before q.take j).length :=
    fun _ _ hjk => (before_mono q.take hjk).length_le
  obtain ⟨j, hj, hlen⟩ := exists_ge_of_grows (i := i) hmono fun hshort => by
    refine frequently_atTop.mpr fun n => ?_
    have hne : q.items (max i n) ≠ [] := by
      intro hnil
      have hput := q.before_put (max i n)
      rw [hnil, List.append_nil] at hput
      have hle := (before_mono q.put (le_max_left i n)).length_le
      exact absurd (hshort _ (le_max_left i n)) (Nat.not_lt.mpr (hput ▸ hle))
    obtain ⟨k, hk, htake⟩ := h _ (le_max_left i n) hne
    refine ⟨k, (le_max_right i n).trans hk, ?_⟩
    rw [before, List.length_append]
    exact Nat.lt_add_of_pos_right (List.length_pos_iff.mpr htake)
  exact ⟨j, hj, List.prefix_of_prefix_length_le (before_mono q.put hj) (q.take_before j) hlen⟩

/-- A party takes everything off its queue, if as long as there is something each of its steps
takes something or brings it nearer to such a step. -/
theorem drains_of_fair {σ α γ : Type*} [Preorder γ] [WellFoundedLT γ] {step : σ → α → σ → Prop}
    {ρ : Transition.Run step} {own : α → Prop} (hfair : ρ.Fair own) (rank : σ → γ) {i : ℕ}
    (henabled : ∀ j ≥ i, Transition.Enabled step own (ρ.state j))
    (howns : ∀ j ≥ i, q.items j ≠ [] → own (ρ.act j) →
      q.take j ≠ [] ∨ rank (ρ.state (j + 1)) < rank (ρ.state j))
    (hothers : ∀ j ≥ i, ¬ own (ρ.act j) → rank (ρ.state (j + 1)) = rank (ρ.state j)) :
    ∃ j ≥ i, before q.put i <+: before q.take j := by
  refine q.drains fun j hj hq => ?_
  by_contra hnever
  have hnone (k : ℕ) (hk : k ≥ j) : q.take k = [] := not_not.mp fun hne => hnever ⟨k, hk, hne⟩
  have hstays (k : ℕ) (hk : k ≥ j) : q.items k ≠ [] :=
    q.items_ne_nil hq (fun l hl _ => hnone l hl) hk
  exact hnever (hfair.leadsTo rank (fun k hk => henabled k (hj.trans hk))
    (fun k hk => howns k (hj.trans hk) (hstays k hk)) fun k hk => hothers k (hj.trans hk))

end Queue
end Chan
