import Mathlib.Data.List.Basic

/-! # Greedy decoding of a byte stream

A decoder takes one item off the front of a buffer, or refuses. `drain` applies it until the
buffer is empty or it refuses, and `feed` is the receive loop that appends one chunk at a time and
drains. A decoder is *stable* outside a set of buffers `bad` when what it accepts it also accepts,
with the same result, however the buffer is continued; then the items `feed` finds do not depend on
how the stream is cut (`feed_eq_drain`). -/

namespace Framing

/-- A decoder of items of type `α` from lists over `β`, with the fact that it always consumes. -/
structure Decoder (α β : Type*) where
  dec : List β → Option (α × List β)
  shrinks : ∀ {b m r}, dec b = some (m, r) → r.length < b.length

variable {α β : Type*} (d : Decoder α β)

/-- `drain` with a bound on the number of items. -/
def drainAux : Nat → List β → List α × List β
  | 0, b => ([], b)
  | n + 1, b =>
    if b = [] then ([], b) else
    match d.dec b with
    | none => ([], b)
    | some (m, r) => let t := drainAux n r; (m :: t.1, t.2)

/-- Decode until the buffer is empty or the decoder refuses. Every item takes at least one
element, so the length of the buffer bounds the number of turns. -/
def drain (b : List β) : List α × List β := drainAux d b.length b

/-- The receive loop: append a chunk to the buffer, drain, go on. -/
def feed (b : List β) : List (List β) → List α × List β
  | [] => ([], b)
  | c :: cs =>
    let t := drain d (b ++ c)
    let u := feed t.2 cs
    (t.1 ++ u.1, u.2)

theorem drainAux_eq {n k : Nat} {b : List β} (hn : b.length ≤ n) (hk : b.length ≤ k) :
    drainAux d n b = drainAux d k b := by
  induction n generalizing k b with
  | zero =>
    have : b = [] := List.eq_nil_of_length_eq_zero (by omega)
    subst this
    cases k <;> simp [drainAux]
  | succ n ih =>
    cases k with
    | zero =>
      have : b = [] := List.eq_nil_of_length_eq_zero (by omega)
      simp [this, drainAux]
    | succ k =>
      simp only [drainAux]
      split
      · rfl
      · cases h : d.dec b with
        | none => rfl
        | some x =>
          have := d.shrinks (r := x.2) (m := x.1) h
          simp only [ih (b := x.2) (k := k) (by omega) (by omega)]

@[simp] theorem drain_nil : drain d [] = ([], []) := rfl

theorem drain_of_none {b : List β} (h : d.dec b = none) : drain d b = ([], b) := by
  unfold drain
  cases b with
  | nil => rfl
  | cons x b => simp [drainAux, h]

theorem drain_of_some {b r : List β} {m : α} (h : d.dec b = some (m, r)) :
    drain d b = (m :: (drain d r).1, (drain d r).2) := by
  have hlt := d.shrinks h
  unfold drain
  cases b with
  | nil => simp at hlt
  | cons x b =>
    simp only [List.length_cons, drainAux, h, if_false, reduceCtorEq]
    rw [drainAux_eq d (n := b.length) (k := r.length) (by simp at hlt; omega) (Nat.le_refl _)]

/-- Induction on the items taken off a buffer. -/
@[elab_as_elim] theorem Decoder.induct {motive : List β → Prop}
    (refuses : ∀ b, d.dec b = none → motive b)
    (takes : ∀ b m r, d.dec b = some (m, r) → motive r → motive b) (b : List β) : motive b := by
  -- every item taken off the buffer makes it shorter
  induction hn : b.length using Nat.strongRecOn generalizing b with
  | _ n ih =>
    cases h : d.dec b with
    | none => exact refuses b h
    | some t => exact takes b t.1 t.2 h (ih t.2.length (hn ▸ d.shrinks h) t.2 rfl)

/-- The buffers the decoder is applied to while it drains `b`. -/
inductive Visits : List β → List β → Prop
  | refl : Visits b b
  | step : d.dec b = some (m, r) → Visits r s → Visits b s

/-- Draining `b` never gets to a bad buffer. -/
def Avoids (bad : List β → Prop) (b : List β) : Prop := ∀ s, Visits d b s → ¬ bad s

variable {d}

theorem Avoids.here {bad : List β → Prop} {b : List β} (h : Avoids d bad b) : ¬ bad b :=
  h b .refl

theorem Avoids.next {bad : List β → Prop} {b r : List β} {m : α} (h : Avoids d bad b)
    (hd : d.dec b = some (m, r)) : Avoids d bad r :=
  fun s hs => h s (.step hd hs)

/-- Outside `bad`, continuing the buffer changes neither the item nor what precedes the
continuation; `bad` can be told from any beginning of the buffer that has it. -/
structure Stable (d : Decoder α β) (bad : List β → Prop) : Prop where
  dec : ∀ {b r m} x, ¬ bad b → d.dec b = some (m, r) → d.dec (b ++ x) = some (m, r ++ x)
  bad : ∀ {b} x, bad b → bad (b ++ x)

/-- Draining a buffer is draining any beginning of it, then the rest behind what that left over. -/
theorem drain_append {bad : List β → Prop} (hd : Stable d bad) :
    ∀ {b x : List β}, Avoids d bad (b ++ x) →
      drain d (b ++ x) = ((drain d b).1 ++ (drain d ((drain d b).2 ++ x)).1,
        (drain d ((drain d b).2 ++ x)).2) := by
  intro b x hav
  -- The induction is on the items of the beginning.
  induction b using d.induct with
  | refuses b h => simp [drain_of_none d h]
  | takes b m r h ih =>
    have hx := hd.dec x (fun hb => hav.here (hd.bad x hb)) h
    rw [drain_of_some d hx, drain_of_some d h, ih (hav.next hx)]
    simp

theorem Avoids.rest {bad : List β → Prop} (hd : Stable d bad) {b x : List β}
    (hav : Avoids d bad (b ++ x)) : Avoids d bad ((drain d b).2 ++ x) := by
  induction b using d.induct with
  | refuses b h => rwa [drain_of_none d h]
  | takes b m r h ih =>
    have hx := hd.dec x (fun hb => hav.here (hd.bad x hb)) h
    rw [drain_of_some d h]
    exact ih (hav.next hx)

/-- What draining leaves over holds no further item. -/
theorem drain_rest (b : List β) : drain d (drain d b).2 = ([], (drain d b).2) := by
  induction b using d.induct with
  | refuses b h => simp [drain_of_none d h]
  | takes b m r h ih =>
    rw [drain_of_some d h]
    exact ih

/-- **Segmentation does not matter**: feeding the chunks one at a time decodes what draining
their concatenation decodes, and leaves the same buffer. -/
theorem feed_eq_drain {bad : List β → Prop} (hd : Stable d bad) {b : List β} {cs : List (List β)}
    (hav : Avoids d bad (b ++ cs.flatten)) (hb : drain d b = ([], b)) :
    feed d b cs = drain d (b ++ cs.flatten) := by
  induction cs generalizing b with
  | nil => simp [feed, hb]
  | cons c cs ih =>
    rw [List.flatten_cons, ← List.append_assoc] at hav ⊢
    rw [feed, ih (hav.rest hd) (drain_rest (b ++ c)), ← drain_append hd hav]

/-- One chunk more. -/
theorem feed_concat (b c : List β) (cs : List (List β)) :
    feed d b (cs ++ [c]) = ((feed d b cs).1 ++ (drain d ((feed d b cs).2 ++ c)).1,
      (drain d ((feed d b cs).2 ++ c)).2) := by
  induction cs generalizing b with
  | nil => simp [feed]
  | cons c' cs ih =>
    rw [List.cons_append, feed, feed, ih]
    simp

/-! ### Streams of encoded items -/

section
variable {e : α → List β} {ok : α → Prop}
  (hde : ∀ {m} x, ok m → d.dec (e m ++ x) = some (m, x))
include hde

/-- A stream of encoded items drains to exactly these items and leaves nothing. -/
theorem drain_flatMap {ms : List α} (hok : ∀ m ∈ ms, ok m) : drain d (ms.flatMap e) = (ms, []) := by
  induction ms with
  | nil => rfl
  | cons m ms ih =>
    have hm := hde (ms.flatMap e) (hok m (by simp))
    rw [List.flatMap_cons, drain_of_some d hm, ih fun m h => hok m (by simp [h])]

/-- Draining a stream of encoded items only visits streams of encoded items. -/
theorem visits_flatMap {ms : List α} {s : List β} (hok : ∀ m ∈ ms, ok m)
    (h : Visits d (ms.flatMap e) s) : ∃ ns : List α, (∀ m ∈ ns, ok m) ∧ s = ns.flatMap e := by
  induction ms with
  | nil =>
    cases h with
    | refl => exact ⟨[], by simp, rfl⟩
    | step h _ => exact absurd (d.shrinks h) (Nat.not_lt_zero _)
  | cons m ms ih =>
    cases h with
    | refl => exact ⟨m :: ms, hok, rfl⟩
    | step h hv =>
      rw [List.flatMap_cons, hde _ (hok m (by simp))] at h
      obtain ⟨rfl, rfl⟩ := Prod.mk.inj (Option.some.inj h)
      exact ih (fun m h => hok m (by simp [h])) hv

/-- What the decoder takes off a buffer that begins a stream of encoded items is the first item
of the stream, and the stream goes on behind it. -/
theorem dec_of_append {bad : List β → Prop} (hd : Stable d bad) {ms : List α} {b rest r : List β}
    {m : α} (hok : ∀ m ∈ ms, ok m) (hb : b ++ rest = ms.flatMap e) (hbad : ¬ bad b)
    (h : d.dec b = some (m, r)) : ∃ ms', ms = m :: ms' ∧ r ++ rest = ms'.flatMap e := by
  have hx := hd.dec rest hbad h
  rw [hb] at hx
  cases ms with
  | nil => exact absurd (d.shrinks hx) (Nat.not_lt_zero _)
  | cons m' ms =>
    rw [List.flatMap_cons, hde _ (hok m' (by simp))] at hx
    obtain ⟨rfl, hr⟩ := Prod.mk.inj (Option.some.inj hx)
    exact ⟨ms, rfl, hr.symm⟩

end

section
variable {e : α → List β} {ok : α → Prop}
  (hed : ∀ {b r m}, ok m → d.dec b = some (m, r) → b = e m ++ r)
include hed

/-- A buffer that drains to items that have one encoding each begins with these encodings. -/
theorem drain_eq_append {b : List β} (hok : ∀ m ∈ (drain d b).1, ok m) :
    b = (drain d b).1.flatMap e ++ (drain d b).2 := by
  induction b using d.induct with
  | refuses b h => simp [drain_of_none d h]
  | takes b m r h ih =>
    rw [drain_of_some d h] at hok ⊢
    have hr := ih fun m hm => hok m (List.mem_cons_of_mem _ hm)
    rw [List.flatMap_cons, List.append_assoc, ← hr]
    exact hed (hok m List.mem_cons_self) h

theorem feed_eq_append {b : List β} {cs : List (List β)} (hok : ∀ m ∈ (feed d b cs).1, ok m) :
    b ++ cs.flatten = (feed d b cs).1.flatMap e ++ (feed d b cs).2 := by
  induction cs generalizing b with
  | nil => simp [feed]
  | cons c cs ih =>
    rw [feed] at hok ⊢
    simp only [List.mem_append] at hok
    have hc := drain_eq_append hed (b := b ++ c) fun m hm => hok m (.inl hm)
    have hcs := ih fun m hm => hok m (.inr hm)
    calc b ++ (c :: cs).flatten
      _ = (b ++ c) ++ cs.flatten := by simp
      _ = (drain d (b ++ c)).1.flatMap e ++ ((drain d (b ++ c)).2 ++ cs.flatten) := by
        rw [← List.append_assoc, ← hc]
      _ = _ := by
        rw [hcs]
        simp

end

end Framing
