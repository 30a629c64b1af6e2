import Mathlib.Data.Int.LeastGreatest
import Mathlib.Order.Bounds.Basic
import PortPort.Server.RelayTable

/-! # The range of ports for relays

`parse_port_range` reads the range off the command line, `Relay.__init__` tries its ports in order,
and `process_msg` answers a CREATE_RELAY message with the port or with an error. -/

namespace PortPort
open Relay (BindResult)

/-! ## Reading the range -/

inductive PortRangeError
  | portRangeParse (msg : String)
  | valueError
  deriving DecidableEq

/-- What the interpreter's Unicode database says of a character outside ASCII. -/
structure UnicodeData where
  decimal : Char → Option (Fin 10)
  isSpace : Char → Bool

/-- `sys.get_int_max_str_digits()`. -/
def INT_MAX_STR_DIGITS : Nat := 4300

namespace UnicodeData

def digit (u : UnicodeData) (c : Char) : Option Nat :=
  if c.toNat < 127 then if c.isDigit then some (c.toNat - '0'.toNat) else none
  else (u.decimal c).map (·.val)

def space (u : UnicodeData) (c : Char) : Bool :=
  if c.toNat < 127 then c ∈ [' ', '\t', '\n', '\x0b', '\x0c', '\r'] else u.isSpace c

/-- The digits at the beginning of a text, and the text behind them. A single underscore may stand
between two digits; `start` says that a digit must come next. -/
def digits (u : UnicodeData) (start : Bool) : List Char → Option (List Nat × List Char)
  | [] => if start then none else some ([], [])
  | c :: cs =>
    if c = '_' then if start then none else u.digits true cs
    else match u.digit c with
      | some d => (u.digits false cs).map fun (ds, rest) => (d :: ds, rest)
      | none => if start then none else some ([], c :: cs)

/-- `int(s, 10)`. -/
def int (u : UnicodeData) (s : List Char) : Except PortRangeError Int :=
  let signed := match s.dropWhile u.space with
    | '+' :: s => (1, s)
    | '-' :: s => (-1, s)
    | s => (1, s)
  match u.digits true signed.2 with
  | none => .error .valueError
  | some (ds, rest) =>
    if rest.all u.space ∧ ds.length ≤ INT_MAX_STR_DIGITS then
      .ok (signed.1 * (ds.foldl (fun n d => 10 * n + d) 0 : Nat))
    else .error .valueError

/-- `parse_port_range`. -/
def parsePortRange (u : UnicodeData) (portRange : String) : Except PortRangeError (Int × Int) :=
  match portRange.toList.splitOn '-' with
  | [minPort, maxPort] =>
    match u.int minPort, u.int maxPort with
    | .ok minPort, .ok maxPort =>
      if minPort > maxPort then
        .error (.portRangeParse
          "Min port is greater than max port, should follow min-max format")
      else .ok (minPort, maxPort)
    | .error e, _ => .error e
    | _, .error e => .error e
  | _ => .error (.portRangeParse "Too many port values provided in range")

theorem not_mem_splitOn {a : Char} {s part : List Char} (h : part ∈ s.splitOn a) : a ∉ part := by
  induction s generalizing part with
  | nil =>
    rw [List.splitOn_nil, List.mem_singleton] at h
    exact h ▸ List.not_mem_nil
  | cons c s ih =>
    rw [List.splitOn_cons_eq_if_modifyHead] at h
    split at h
    · rcases List.mem_cons.mp h with rfl | h
      · exact List.not_mem_nil
      · exact ih h
    · rename_i hc
      cases hs : s.splitOn a with
      | nil => exact absurd hs (List.splitOn_ne_nil a s)
      | cons first parts =>
        rw [hs, List.modifyHead_cons] at h
        rcases List.mem_cons.mp h with rfl | h
        · intro hmem
          rcases List.mem_cons.mp hmem with rfl | hmem
          · exact hc (beq_self_eq_true a)
          · exact ih (hs ▸ List.mem_cons_self) hmem
        · exact ih (hs ▸ List.mem_cons_of_mem _ h)

/-- A text without a minus sign is read as no negative number. -/
theorem int_nonneg {u : UnicodeData} {s : List Char} {n : Int} (hs : '-' ∉ s)
    (h : u.int s = .ok n) : 0 ≤ n := by
  have hdrop : '-' ∉ s.dropWhile u.space := fun hmem => hs ((List.dropWhile_sublist _).mem hmem)
  have hsign : (match s.dropWhile u.space with
      | '+' :: s => ((1 : Int), s)
      | '-' :: s => (-1, s)
      | s => (1, s)).1 = 1 := by
    split
    · rfl
    · rename_i heq
      exact absurd (heq ▸ List.mem_cons_self) hdrop
    · rfl
  unfold int at h
  simp only [hsign] at h
  split at h
  · cases h
  · split at h
    · cases h
      rw [Int.one_mul]
      exact Int.natCast_nonneg _
    · cases h

/-- An accepted range is not empty and holds no negative port. -/
theorem parsePortRange_ok {u : UnicodeData} {portRange : String} {lo hi : Int}
    (h : u.parsePortRange portRange = .ok (lo, hi)) : 0 ≤ lo ∧ lo ≤ hi := by
  unfold parsePortRange at h
  split at h
  · rename_i minPort maxPort hsplit
    have hmin : '-' ∉ minPort := not_mem_splitOn (hsplit ▸ List.mem_cons_self)
    split at h
    · rename_i hlo hhi
      split at h
      · cases h
      · cases h
        exact ⟨int_nonneg hmin hlo, by omega⟩
    · cases h
    · cases h
  · cases h

end UnicodeData

/-! ## Binding a port -/

/-- The kernel's table of ports. -/
structure PortTable where
  occupied : Int → Bool
  /-- the port that a socket bound to port 0 gets -/
  pick : Option Int
  pick_free : ∀ p, pick = some p → 1 ≤ p ∧ p ≤ 65535 ∧ occupied p = false
  pick_none : pick = none → ∀ p, 1 ≤ p → p ≤ 65535 → occupied p = true

namespace PortTable

/-- EADDRINUSE. -/
def addressInUse : OSError := .other 98

/-- The result of `bind`. -/
def bind (k : PortTable) (port : Int) : BindResult :=
  if port < 0 ∨ 65535 < port then .overflow
  else if port = 0 then
    match k.pick with
    | some p => .bound p
    | none => .osError addressInUse
  else if k.occupied port then .osError addressInUse
  else .bound port

/-- The port is in the range and can be bound. -/
structure Bindable (k : PortTable) (lo hi p : Int) : Prop where
  ge : lo ≤ p
  le : p ≤ hi
  pos : 1 ≤ p
  max : p ≤ 65535
  free : k.occupied p = false

variable {k : PortTable} {lo hi : Int}

theorem Bindable.bind {p : Int} (h : k.Bindable lo hi p) : k.bind p = .bound p := by
  have hpos := h.pos
  have hmax := h.max
  unfold PortTable.bind
  rw [if_neg (by omega), if_neg (by omega), if_neg (by simp [h.free])]

theorem bind_overflow {p : Int} (h : 65535 < p) : k.bind p = .overflow := if_pos (.inr h)

theorem bind_occupied {p : Int} (hp : 1 ≤ p ∧ p ≤ 65535) (h : k.occupied p = true) :
    k.bind p = .osError addressInUse := by
  unfold PortTable.bind
  rw [if_neg (by omega), if_neg (by omega), if_pos h]

theorem bind_zero : (∃ p, k.pick = some p ∧ k.bind 0 = .bound p) ∨
    k.pick = none ∧ k.bind 0 = .osError addressInUse := by
  unfold PortTable.bind
  rw [if_neg (by omega), if_pos rfl]
  cases hk : k.pick with
  | some p => exact .inl ⟨p, rfl, rfl⟩
  | none => exact .inr ⟨rfl, rfl⟩

/-- How the loop over the ports of a range that begins with no port 0 comes to its end: it binds the
lowest port that can be bound, or there is none and the range ends before port 65536. -/
inductive Scan (k : PortTable) (lo hi : Int) : Except PyError (Option (Int × Int)) → Prop
  | bound (h : IsLeast {p | k.Bindable lo hi p} p) : Scan k lo hi (.ok (some (p, p)))
  | exhausted (h : ∀ p, ¬ k.Bindable lo hi p) (hmax : hi ≤ 65535) : Scan k lo hi (.ok none)
  | overflow (h : ∀ p, ¬ k.Bindable lo hi p) (hmax : 65535 < hi) :
      Scan k lo hi (.error .overflowError)

/-- The first port is occupied. -/
theorem Scan.succ {out : Except PyError (Option (Int × Int))} (hlo : k.occupied lo = true)
    (h : Scan k (lo + 1) hi out) : Scan k lo hi out := by
  have hiff (p : Int) : k.Bindable lo hi p ↔ k.Bindable (lo + 1) hi p := by
    refine ⟨fun h => ⟨?_, h.le, h.pos, h.max, h.free⟩, fun h => ⟨?_, h.le, h.pos, h.max, h.free⟩⟩
    · have hge := h.ge
      have hne : lo ≠ p := by
        rintro rfl
        exact Bool.false_ne_true (h.free.symm.trans hlo)
      omega
    · have hge := h.ge
      omega
  cases h with
  | bound h => exact .bound (by simpa only [hiff] using h)
  | exhausted h hmax => exact .exhausted (fun p hp => h p ((hiff p).mp hp)) hmax
  | overflow h hmax => exact .overflow (fun p hp => h p ((hiff p).mp hp)) hmax

theorem portsOf_eq (lo hi : Int) :
    Relay.portsOf lo hi = (List.range (hi + 1 - lo).toNat).map fun i : Nat => lo + (i : Int) := by
  simp [Relay.portsOf, ← List.map_eq_flatMap]

theorem portsOf_cons (h : lo ≤ hi) :
    Relay.portsOf lo hi = lo :: Relay.portsOf (lo + 1) hi := by
  have hlen : (hi + 1 - lo).toNat = (hi + 1 - (lo + 1)).toNat + 1 := by omega
  rw [portsOf_eq, portsOf_eq, hlen, List.range_succ_eq_map, List.map_cons, List.map_map]
  refine congr_arg₂ _ (by simp) (List.map_congr_left fun i _ => ?_)
  simp only [Function.comp, Nat.succ_eq_add_one]
  omega

theorem portsOf_nil (h : hi < lo) : Relay.portsOf lo hi = [] := by
  have hlen : (hi + 1 - lo).toNat = 0 := by omega
  rw [portsOf_eq, hlen, List.range_zero, List.map_nil]

/-- The results of `bind` on the ports of the range, in order. -/
def results (k : PortTable) (lo hi : Int) : List BindResult := (Relay.portsOf lo hi).map k.bind

theorem results_cons (h : lo ≤ hi) : k.results lo hi = k.bind lo :: k.results (lo + 1) hi := by
  rw [results, results, portsOf_cons h, List.map_cons]

theorem scan (k : PortTable) (lo hi : Int) (h1 : 1 ≤ lo) (hle : lo ≤ hi ∨ hi ≤ 65535) :
    ∃ out, Relay.bindLoop (Relay.portsOf lo hi) (k.results lo hi) = some out ∧
      Scan k lo hi out := by
  obtain ⟨n, hn⟩ : ∃ n, (hi + 1 - lo).toNat = n := ⟨_, rfl⟩
  induction n generalizing lo with
  | zero =>
    have hlt : hi < lo := by omega
    rw [portsOf_nil hlt]
    refine ⟨_, rfl, .exhausted (fun p hp => ?_) (by omega)⟩
    have hge := hp.ge
    have hle := hp.le
    omega
  | succ n ih =>
    have hlo : lo ≤ hi := by omega
    rw [portsOf_cons hlo, results_cons hlo]
    by_cases hmax : 65535 < lo
    · rw [bind_overflow hmax]
      refine ⟨_, rfl, .overflow (fun p hp => ?_) (by omega)⟩
      have hge := hp.ge
      have hmax := hp.max
      omega
    · cases hocc : k.occupied lo with
      | true =>
        rw [bind_occupied ⟨h1, by omega⟩ hocc]
        obtain ⟨out, hout, hscan⟩ := ih (lo + 1) (by omega) (by omega) (by omega)
        exact ⟨out, hout, .succ hocc hscan⟩
      | false =>
        have hb : k.Bindable lo hi lo := ⟨Int.le_refl _, hlo, h1, by omega, hocc⟩
        rw [hb.bind]
        exact ⟨_, if_pos (.inr rfl), .bound ⟨hb, fun p hp => hp.ge⟩⟩

/-- The outcome of `Relay.__init__` over the range. -/
inductive Constructs (k : PortTable) (lo hi : Int) : Except PyError Relay → Prop
  | made (hp : IsLeast {p | k.Bindable lo hi p} p) (hlo : lo ≠ 0) :
      Constructs k lo hi (.ok { identifyingPort := p })
  | noPort (hp : lo = 0 ∨ ∀ p, ¬ k.Bindable lo hi p)
      (hmax : (∀ p, ¬ k.Bindable lo hi p) → hi ≤ 65535) :
      Constructs k lo hi (.error (.relayNoAvailablePort msg))
  | overflow (hp : ∀ p, ¬ k.Bindable lo hi p) (hmax : 65535 < hi) :
      Constructs k lo hi (.error .overflowError)

theorem constructs (h0 : 0 ≤ lo) (hle : lo ≤ hi) :
    ∃ out, Relay.init (some (lo, hi)) (k.results lo hi) = some out ∧ Constructs k lo hi out := by
  unfold Relay.init
  simp only
  by_cases hlo : lo = 0
  · subst hlo
    rw [portsOf_cons hle, results_cons hle]
    rcases bind_zero (k := k) with ⟨q, hq, hbind⟩ | ⟨hnone, hbind⟩
    · rw [hbind]
      obtain ⟨hpos, hmax, hfree⟩ := k.pick_free q hq
      refine ⟨_, rfl, .noPort (.inl rfl) fun hnot => ?_⟩
      by_contra hhi
      exact hnot q ⟨by omega, by omega, hpos, hmax, hfree⟩
    · rw [hbind]
      have hnot (p : Int) : ¬ k.Bindable 0 hi p := fun hp =>
        Bool.false_ne_true (hp.free.symm.trans (k.pick_none hnone p hp.pos hp.max))
      have hnot' (p : Int) : ¬ k.Bindable (0 + 1) hi p := fun hp =>
        hnot p ⟨by have := hp.pos; omega, hp.le, hp.pos, hp.max, hp.free⟩
      obtain ⟨out, hout, hscan⟩ := scan k (0 + 1) hi (by omega) (by omega)
      simp only [Relay.bindLoop, hout]
      cases hscan with
      | bound hp => exact absurd hp.1 (hnot' _)
      | exhausted _ hmax => exact ⟨_, rfl, .noPort (.inl rfl) fun _ => hmax⟩
      | overflow _ hmax => exact ⟨_, rfl, .overflow hnot hmax⟩
  · obtain ⟨out, hout, hscan⟩ := scan k lo hi (by omega) (.inl hle)
    simp only [hout]
    cases hscan with
    | bound hp =>
      have hpos := hp.1.pos
      exact ⟨_, if_neg (by omega), .made hp hlo⟩
    | exhausted hp hmax => exact ⟨_, rfl, .noPort (.inr hp) fun _ => hmax⟩
    | overflow hp hmax => exact ⟨_, rfl, .overflow hp hmax⟩

end PortTable

/-! ## Answering -/

namespace Server

/-- What the turn of the receive loop makes of a CREATE_RELAY message: the thread of a new relay is
started, or the range is reported as exhausted, or the loop is left without an answer. -/
inductive Turned (k : PortTable) (lo hi : Int) (s : Server) : Server → Prop
  | made (hp : IsLeast {p | k.Bindable lo hi p} p) (hlo : lo ≠ 0)
      (hphase : s'.mgr.phase = .creating s.nrelays) (hlog : s'.mgr.sendLog = s.mgr.sendLog)
      (hrelays : s'.mgr.relays = s.mgr.relays.set p s.nrelays)
      (hport : (s'.relay s.nrelays).identifyingPort = p) : Turned k lo hi s s'
  | exhausted (hp : lo = 0 ∨ ∀ p, ¬ k.Bindable lo hi p)
      (hmax : (∀ p, ¬ k.Bindable lo hi p) → hi ≤ 65535)
      (hphase : ∀ rid, s'.mgr.phase ≠ .creating rid) (hlog : s'.mgr.sendLog =
        s.mgr.sendLog ++ [{ msgType := .error, error := .relayFailurePortExhaustion }])
      (hrelays : s'.mgr.relays = s.mgr.relays) : Turned k lo hi s s'
  | silent (hp : ∀ p, ¬ k.Bindable lo hi p) (hmax : 65535 < hi)
      (hphase : ∀ rid, s'.mgr.phase ≠ .creating rid) (hlog : s'.mgr.sendLog = s.mgr.sendLog) :
      Turned k lo hi s s'

variable {s s' : Server} {k : PortTable} {lo hi : Int}

/-- Exactly one reply has been appended, and the relay is registered under the lowest port that can
be bound; or there is none, and the table is as it was. -/
structure Answered (k : PortTable) (lo hi : Int) (s s' : Server) : Prop where
  opened : ∀ p, IsLeast {p | k.Bindable lo hi p} p →
    s'.mgr.sendLog = s.mgr.sendLog ++ [{ msgType := .openRelay, relayPort := p }] ∧
      s'.mgr.relays = s.mgr.relays.set p s.nrelays ∧ (s'.relay s.nrelays).identifyingPort = p
  exhausted : (∀ p, ¬ k.Bindable lo hi p) →
    s'.mgr.sendLog =
      s.mgr.sendLog ++ [{ msgType := .error, error := .relayFailurePortExhaustion }] ∧
      s'.mgr.relays = s.mgr.relays

theorem exists_least {p : Int} (h : k.Bindable lo hi p) :
    ∃ p, IsLeast {p | k.Bindable lo hi p} p :=
  have ⟨p, hp, hmin⟩ := Int.exists_least_of_bdd (P := k.Bindable lo hi) ⟨lo, fun _ hp => hp.ge⟩
    ⟨p, h⟩
  ⟨p, hp, hmin⟩

/-- No reply has been appended. -/
theorem not_answered (h : s'.mgr.sendLog = s.mgr.sendLog) : ¬ Answered k lo hi s s' := by
  have hne (msg : PortPortMessage) : s.mgr.sendLog ≠ s.mgr.sendLog ++ [msg] := by
    simp
  intro hans
  by_cases havail : ∃ p, k.Bindable lo hi p
  · obtain ⟨p, hp⟩ := havail
    obtain ⟨p, hp⟩ := exists_least hp
    exact hne _ (h.symm.trans (hans.opened p hp).1)
  · exact hne _ (h.symm.trans (hans.exhausted (not_exists.mp havail)).1)

/-- The range is reported as exhausted. -/
theorem answered_exhausted (hlog : s'.mgr.sendLog =
      s.mgr.sendLog ++ [{ msgType := .error, error := .relayFailurePortExhaustion }])
    (hrelays : s'.mgr.relays = s.mgr.relays) :
    Answered k lo hi s s' ↔ ∀ p, ¬ k.Bindable lo hi p := by
  refine ⟨fun hans p hp => ?_, fun hnot => ⟨fun p hp => absurd hp.1 (hnot p), fun _ =>
    ⟨hlog, hrelays⟩⟩⟩
  obtain ⟨p, hp⟩ := exists_least hp
  have hsame := List.append_cancel_left (hlog.symm.trans (hans.opened p hp).1)
  cases hsame

/-- A relay has been announced. -/
theorem answered_opened {p : Int} (hp : IsLeast {p | k.Bindable lo hi p} p)
    (hlog : s'.mgr.sendLog = s.mgr.sendLog ++ [{ msgType := .openRelay, relayPort := p }])
    (hrelays : s'.mgr.relays = s.mgr.relays.set p s.nrelays)
    (hport : (s'.relay s.nrelays).identifyingPort = p) : Answered k lo hi s s' := by
  refine ⟨fun q hq => ?_, fun hnot => absurd hp.1 (hnot p)⟩
  obtain rfl := hp.unique hq
  exact ⟨hlog, hrelays, hport⟩

theorem bind_allowed (hk : ∀ p, s.portListening s.nrelays p = true → k.occupied p = true)
    (port : Int) : s.bindAllowed (k.bind port) = true := by
  have hbound {p : Int} (hpos : 1 ≤ p) (hmax : p ≤ 65535) (hfree : k.occupied p = false) :
      s.bindAllowed (.bound p) = true := by
    have hnot : s.portListening s.nrelays p = false := by
      cases hl : s.portListening s.nrelays p with
      | false => rfl
      | true => exact absurd (hfree.symm.trans (hk p hl)) Bool.false_ne_true
    simp only [bindAllowed, hnot]
    simp
    omega
  unfold PortTable.bind
  split
  · rfl
  split
  · split
    · obtain ⟨hpos, hmax, hfree⟩ := k.pick_free _ ‹_›
      exact hbound hpos hmax hfree
    · rfl
  split
  · rfl
  · exact hbound (by omega) (by omega) (by simpa using ‹¬ k.occupied port = true›)

theorem recvTurn_createRelay {msg : PortPortMessage} {recvq : Bytes} {results : List BindResult}
    (hmsg : grabMsg s.mgr.recvq = .ok (msg, recvq)) (htype : msg.msgType = .createRelay) :
    s.recvTurn results =
      (s.withMgr { s.mgr with recvq }).processMsg { msgType := .createRelay } results := by
  have hne : s.mgr.recvq ≠ [] := by
    intro hnil
    rw [hnil] at hmsg
    cases hmsg
  unfold recvTurn
  rw [if_neg hne, hmsg]
  simp only [processMsg, htype]

theorem recvTurn_turned {msg : PortPortMessage} {recvq : Bytes}
    (hmsg : grabMsg s.mgr.recvq = .ok (msg, recvq)) (htype : msg.msgType = .createRelay)
    (hs : s.portRange = some (lo, hi)) (h0 : 0 ≤ lo) (hle : lo ≤ hi) :
    ∃ s', s.recvTurn (k.results lo hi) = some s' ∧ Turned k lo hi s s' := by
  obtain ⟨out, hout, hcons⟩ := PortTable.constructs (k := k) h0 hle
  have hinit : Relay.init (s.withMgr { s.mgr with recvq }).portRange (k.results lo hi) =
      some out := hs ▸ hout
  rw [recvTurn_createRelay hmsg htype]
  simp only [processMsg, hinit]
  cases hcons with
  | @made p hp hlo =>
    have hrelay : Function.update s.relay s.nrelays { identifyingPort := p } s.nrelays =
        { identifyingPort := p } := Function.update_self ..
    exact ⟨_, rfl, .made hp hlo rfl rfl rfl (congrArg Relay.identifyingPort hrelay)⟩
  | noPort hp hmax =>
    have hreplied := reply_replied (s.withMgr { s.mgr with recvq })
      { msgType := .error, error := .relayFailurePortExhaustion }
    refine ⟨_, rfl, .exhausted hp hmax (fun rid hrid => ?_) (reply_sends (wellFormed_error _))
      hreplied.relays⟩
    rcases hreplied.phase with hph | hph
    · cases hph.symm.trans hrid
    · cases hph.symm.trans hrid
  | overflow hp hmax => exact ⟨_, rfl, .silent hp hmax nofun rfl⟩

end Server

/-- The range begins with port 0 only if none of its ports can be bound, and ends behind the last
port only if some port of it can. -/
structure PortTable.Covers (k : PortTable) (lo hi : Int) : Prop where
  nonzero : ∀ p, k.Bindable lo hi p → lo ≠ 0
  max : (∀ p, ¬ k.Bindable lo hi p) → hi ≤ 65535

namespace ManagerRun
open Server (Answered)
/-- `process_msg` comes to its end, at once or, where it has started the thread of a new relay,
behind any moves of the other threads, in a step from the second state to the third. -/
inductive Ends : ManagerRun → ManagerRun → ManagerRun → Prop
  | now (h : ∀ rid, s.server.mgr.phase ≠ .creating rid) : Ends s s s
  | announces (hp : s.server.mgr.phase = .creating rid)
      (hs : Transition.Steps (Transition.Fires step) (fun _ e => ∀ a, e ≠ .thread a) s s₂)
      (h : s₂.step (.thread .turn) = some s₃) : Ends s s₂ s₃

variable {s s₁ s₂ s₃ : ManagerRun} {k : PortTable} {lo hi : Int}

theorem Ends.eq (h : Ends s₁ s₂ s₃) (hnot : ∀ rid, s₁.server.mgr.phase ≠ .creating rid) :
    s₃ = s₁ := by
  cases h with
  | now => rfl
  | announces hp => exact absurd hp (hnot _)

/-- What the moves of the other threads leave as it is. -/
structure Waited (s s' : ManagerRun) : Prop where
  phase : s'.server.mgr.phase = s.server.mgr.phase
  sendLog : s'.server.mgr.sendLog = s.server.mgr.sendLog
  relays : s'.server.mgr.relays = s.server.mgr.relays
  port : ∀ i, (s'.server.relay i).identifyingPort = (s.server.relay i).identifyingPort

theorem waited
    (h : Transition.Steps (Transition.Fires step) (fun _ e => ∀ a, e ≠ .thread a) s₁ s₂) :
    Waited s₁ s₂ := by
  refine h.invariant (J := Waited s₁) (fun s e s' hw he hs => ?_) ⟨rfl, rfl, rfl, fun _ => rfl⟩
  obtain ⟨inboundData, wakeupPending, hm⟩ := step_others he hs
  refine ⟨?_, ?_, ?_, fun i => (step_ports he hs i).trans (hw.port i)⟩
  · rw [hm]
    exact hw.phase
  · rw [hm]
    exact hw.sendLog
  · rw [hm]
    exact hw.relays

/-- The relay is made and its thread started. -/
theorem created_answered_iff {p : Int} (hp : IsLeast {p | k.Bindable lo hi p} p)
    (hphase : s₁.server.mgr.phase = .creating s.server.nrelays)
    (hlog : s₁.server.mgr.sendLog = s.server.mgr.sendLog)
    (hrelays : s₁.server.mgr.relays = s.server.mgr.relays.set p s.server.nrelays)
    (hport : (s₁.server.relay s.server.nrelays).identifyingPort = p) (hend : Ends s₁ s₂ s₃) :
    Answered k lo hi s.server s₃.server ↔
      (s₂.server.relay s.server.nrelays).sck ≠ .closed := by
  cases hend with
  | now hnot => exact absurd hphase (hnot _)
  | announces hcreating hsteps h =>
    cases hphase.symm.trans hcreating
    have hw := waited hsteps
    obtain ⟨server, hserver, rfl⟩ := Option.map_eq_some_iff.mp h
    simp only [Server.mgrStep, hw.phase.trans hphase, Option.some.injEq] at hserver
    subst hserver
    have hport := (hw.port s.server.nrelays).trans hport
    by_cases hsck : (s₂.server.relay s.server.nrelays).sck = .closed
    · refine iff_of_false (Server.not_answered ?_) (not_not.mpr hsck)
      rw [Server.announce_breaks hsck]
      exact hw.sendLog.trans hlog
    · refine iff_of_true (Server.answered_opened hp ?_ ?_ ?_) hsck
      · have hpos := hp.1.pos
        have hmax := hp.1.max
        rw [Server.announce_opens hsck (by omega), hport, hw.sendLog, hlog]
      · exact (Server.announce_replied ..).relays.trans (hw.relays.trans hrelays)
      · rw [(Server.announce_replied ..).relay, hport]

theorem step_turned {msg : PortPortMessage} {recvq : Bytes}
    (hs : s.server.portRange = some (lo, hi)) (hphase : s.server.mgr.phase = .recvLoop)
    (hmsg : grabMsg s.server.mgr.recvq = .ok (msg, recvq)) (htype : msg.msgType = .createRelay)
    (hk : ∀ p, s.server.portListening s.server.nrelays p = true → k.occupied p = true)
    (h0 : 0 ≤ lo) (hle : lo ≤ hi) :
    ∃ server, s.step (.thread (.recvTurn (k.results lo hi))) = some { s with server } ∧
      Server.Turned k lo hi s.server server := by
  obtain ⟨server, hserver, hturned⟩ := Server.recvTurn_turned (k := k) hmsg htype hs h0 hle
  have hall : (k.results lo hi).all s.server.bindAllowed = true := by
    rw [PortTable.results, List.all_map, List.all_eq_true]
    exact fun port _ => Server.bind_allowed hk port
  refine ⟨server, ?_, hturned⟩
  simp only [step, Server.mgrStep, hphase, hall, if_true, hserver, Option.map_some]

/-- **Every CREATE_RELAY message is answered** with the lowest port of the range that can be bound,
or with an error if there is none, exactly if the range begins with port 0 only if it holds no such
port, it ends behind port 65535 only if it holds one, and the thread of the new relay has not
closed its socket when it is asked for the port to announce. -/
theorem create_answered_iff {u : UnicodeData} {portRange : String} {msg : PortPortMessage}
    {recvq : Bytes} (hparse : u.parsePortRange portRange = .ok (lo, hi))
    (hs : s.server.portRange = some (lo, hi)) (hphase : s.server.mgr.phase = .recvLoop)
    (hmsg : grabMsg s.server.mgr.recvq = .ok (msg, recvq)) (htype : msg.msgType = .createRelay)
    (hk : ∀ p, s.server.portListening s.server.nrelays p = true → k.occupied p = true) :
    ∃ s₁, s.step (.thread (.recvTurn (k.results lo hi))) = some s₁ ∧ (∃ s₂ s₃, Ends s₁ s₂ s₃) ∧
      ∀ s₂ s₃, Ends s₁ s₂ s₃ → (Answered k lo hi s.server s₃.server ↔
        k.Covers lo hi ∧ ∀ p, k.Bindable lo hi p →
          (s₂.server.relay s.server.nrelays).sck ≠ .closed) := by
  obtain ⟨h0, hle⟩ := UnicodeData.parsePortRange_ok hparse
  obtain ⟨server, hstep, hturned⟩ := step_turned (k := k) hs hphase hmsg htype hk h0 hle
  refine ⟨_, hstep, ?_⟩
  cases hturned with
  | @made p _ hp hlo hph hlog hrelays hport =>
    refine ⟨⟨_, _, .announces hph .refl (by simp only [step, Server.mgrStep, hph]; rfl)⟩, ?_⟩
    intro s₂ s₃ hend
    refine (created_answered_iff hp hph hlog hrelays hport hend).trans ?_
    refine ⟨fun hsck => ⟨⟨fun _ _ => hlo, fun hnot => absurd hp.1 (hnot p)⟩, fun _ _ => hsck⟩,
      fun h => h.2 p hp.1⟩
  | exhausted hp hmax hph hlog hrelays =>
    refine ⟨⟨_, _, .now hph⟩, fun s₂ s₃ hend => ?_⟩
    rw [hend.eq hph, Server.answered_exhausted hlog hrelays]
    refine ⟨fun hnot => ⟨⟨fun p hp => absurd hp (hnot p), hmax⟩, fun p hp => absurd hp (hnot p)⟩,
      fun h p hb => ?_⟩
    rcases hp with hlo | hnot
    · exact h.1.nonzero p hb hlo
    · exact hnot p hb
  | silent hp hmax hph hlog =>
    refine ⟨⟨_, _, .now hph⟩, fun s₂ s₃ hend => ?_⟩
    rw [hend.eq hph]
    refine iff_of_false (Server.not_answered hlog) fun h => ?_
    have hle := h.1.max hp
    omega

/-- An interpreter whose strings hold ASCII characters only. -/
def asciiData : UnicodeData := ⟨fun _ => none, fun _ => false⟩

/-- The turn that takes a CREATE_RELAY message is next. -/
def creating (portRange : Int × Int) : ManagerRun where
  server :=
    { (start (some portRange)).server with mgr := { phase := .recvLoop, recvq := [64, 1, 1] } }

/-- Port 4000 is occupied. -/
def table4000 : PortTable where
  occupied p := p = 4000
  pick := some 4001
  pick_free p hp := by
    cases hp
    exact ⟨by decide, by decide, by decide⟩
  pick_none := nofun

theorem create_answered_second : ∃ s₁,
    (creating (4000, 4001)).step (.thread (.recvTurn [.osError (.other 98), .bound 4001])) =
      some s₁ ∧ (∃ s₂ s₃, Ends s₁ s₂ s₃) ∧ ∀ s₂ s₃, Ends s₁ s₂ s₃ →
        (Answered table4000 4000 4001 (creating (4000, 4001)).server s₃.server ↔
          table4000.Covers 4000 4001 ∧ ∀ p, table4000.Bindable 4000 4001 p →
            (s₂.server.relay 0).sck ≠ .closed) := by
  have hrange : asciiData.parsePortRange "4000-4001" = .ok (4000, 4001) := rfl
  have hlistening (p : Int) (hp : (creating (4000, 4001)).server.portListening 0 p = true) :
      table4000.occupied p = true := nomatch hp
  exact create_answered_iff hrange rfl rfl rfl rfl hlistening

/-- No port is occupied. -/
def freeTable : PortTable where
  occupied _ := false
  pick := some 32768
  pick_free p hp := by
    cases hp
    exact ⟨by decide, by decide, rfl⟩
  pick_none := nofun

/-- The range 0-65535 is reported as exhausted. -/
theorem zero_not_answered : ¬ ∀ (u : UnicodeData) (portRange : String) (k : PortTable) (lo hi : Int)
    (s s₁ s₂ s₃ : ManagerRun) (msg : PortPortMessage) (recvq : Bytes),
    u.parsePortRange portRange = .ok (lo, hi) → s.server.portRange = some (lo, hi) →
    s.server.mgr.phase = .recvLoop → grabMsg s.server.mgr.recvq = .ok (msg, recvq) →
    msg.msgType = .createRelay →
    (∀ p, s.server.portListening s.server.nrelays p = true → k.occupied p = true) →
    s.step (.thread (.recvTurn (k.results lo hi))) = some s₁ → Ends s₁ s₂ s₃ →
    Answered k lo hi s.server s₃.server := by
  intro h
  have hrange : asciiData.parsePortRange "0-65535" = .ok (0, 65535) := rfl
  obtain ⟨server, hstep, hturned⟩ := step_turned (s := creating (0, 65535)) (k := freeTable)
    rfl rfl rfl rfl nofun (by decide) (by decide)
  have hanswered (hph : ∀ rid, server.mgr.phase ≠ .creating rid) :=
    h asciiData "0-65535" freeTable 0 65535 (creating (0, 65535)) _ _ _ _ _ hrange rfl rfl rfl rfl
      nofun hstep (.now hph)
  have hfirst : freeTable.Bindable 0 65535 1 := ⟨by decide, by decide, by decide, by decide, rfl⟩
  cases hturned with
  | made hp hlo => exact hlo rfl
  | exhausted hp hmax hph hlog hrelays =>
    exact (Server.answered_exhausted hlog hrelays).mp (hanswered hph) 1 hfirst
  | silent hp hmax => exact absurd hmax (by decide)

end ManagerRun
end PortPort
