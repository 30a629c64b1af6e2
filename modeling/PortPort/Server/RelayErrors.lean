import PortPort.Server.RelayRun

/-! # Errors of one external host

What a callback of the relay makes of the errors that its socket calls raise. -/

namespace PortPort
open Function (update)
open Relay (RelayAction SocketIO)

/-- The error ends the connection: any but that of a call that would block. -/
def OSError.fatal : OSError → Bool
  | .blockingIo => false
  | _ => true

namespace Relay

inductive SocketCall
  | accept | getpeername | send | recv
  deriving DecidableEq

/-- An `except` clause around the call names the error. -/
def caught : SocketCall × OSError → Bool
  | (.send, .brokenPipe) | (.send, .connectionReset) | (.send, .blockingIo) => true
  | (.recv, .connectionReset) | (.recv, .brokenPipe) => true
  | _ => false

/-- The error of the call, if it raised one. -/
def errorOf {α : Type} (call : SocketCall) : Except OSError α → List (SocketCall × OSError)
  | .ok _ => []
  | .error e => [(call, e)]

/-- The error of `recv`, if the callback calls it. -/
def recvErrors (mask : Mask) (io : SocketIO) : List (SocketCall × OSError) :=
  if mask.read then errorOf .recv io.recv else []

/-- The errors that the calls of `handle_socket` raise, one after the other. -/
def errors (r : Relay) (n : Nat) (mask : Mask) (io : SocketIO) : List (SocketCall × OSError) :=
  match io.getpeername, r.connectionTable.lookup (r.conns n).peer with
  | .error e, _ => [(.getpeername, e)]
  | .ok _, none => []
  | .ok _, some con =>
    let sent := if mask.write && (r.conns con).sendq ≠ [] then errorOf .send io.send else []
    if sent.any fun (_, e) => e.fatal then sent else sent ++ recvErrors mask io

/-- The callback comes to the end of the stream. -/
def recvEof (mask : Mask) (io : SocketIO) : Bool :=
  mask.read && match io.recv with
    | .ok data => data.isEmpty
    | .error _ => false

/-- Every error raised is caught, and if the connection ends it is the one under its address. -/
def Handled (r : Relay) (n : Nat) (mask : Mask) (io : SocketIO) : Prop :=
  (∀ x ∈ r.errors n mask io, caught x = true) ∧
    ((∃ x ∈ r.errors n mask io, x.2.fatal = true) ∨ recvEof mask io = true →
      r.connectionTable.lookup (r.conns n).peer = some n)

/-- The callback on the socket `n` has returned to `Relay.open` and has changed nothing but its
own connection. -/
structure Contained (r r' : Relay) (n : Nat) : Prop where
  returns : r'.phase ≠ .crashed e
  conns : m ≠ n → r'.conns m = r.conns m ∧ r'.selector m = r.selector m
  table : m ≠ n →
    (r'.connectionTable.lookup k = some m ↔ r.connectionTable.lookup k = some m)
  sck : r'.sck = r.sck
  atomicClose : r'.atomicClose = r.atomicClose

/-- The connection is no longer in the table, its socket is closed, and this has been reported by
one CLOSE_CONNECTION. -/
structure Ended (r r' : Relay) (n : Nat) (puts : List (Nat × QueuedRelayMessage)) : Prop where
  table : r'.connectionTable.lookup k ≠ some n
  closed : (r'.conns n).sck.isOpen = false
  reported : puts = [(n, r.closeMsg (r.conns n).peer)]

variable {own : Prop} {r r' : Relay} {n con : Nat} {mask : Mask} {io : SocketIO}
  {events : List (RelayKey × Mask)} {puts : List (Nat × QueuedRelayMessage)}

/-- What the property asks of a callback that has left this outcome. -/
def Isolated (r : Relay) (n : Nat) (errors : List (SocketCall × OSError)) (out : Outcome Relay)
    (events : List (RelayKey × Mask)) : Prop :=
  Contained r (afterCallback out events) n ∧
    ((∃ x ∈ errors, x.2.fatal = true) → Ended r (afterCallback out events) n out.puts)

theorem not_isolated_of_raised {errors : List (SocketCall × OSError)} {out : Outcome Relay}
    {e : PyError} (h : out.raised = some e) : ¬ Isolated r n errors out events := by
  intro hi
  apply hi.1.returns (e := e)
  unfold afterCallback
  rw [h]

theorem Contained.refl : Contained r (afterCallback { state := r } events) n where
  returns := nofun
  conns _ := ⟨rfl, rfl⟩
  table _ := .rfl
  sck := rfl
  atomicClose := rfl

/-- The connection under the address of the socket ends. -/
theorem cleanUp_isolated_iff {r₁ : Relay} (hI : r.Inv own)
    (hl : r.connectionTable.lookup (r.conns n).peer = some con) (hf : Frame r r₁)
    (hother : con = n → ∀ m ≠ n, r₁.conns m = r.conns m ∧ r₁.selector m = r.selector m)
    (errors : List (SocketCall × OSError)) :
    Isolated r n errors (r₁.cleanUpConnection (r.conns n).peer) events ↔ con = n := by
  have hl₁ : r₁.connectionTable.lookup (r.conns n).peer = some con := hf.connectionTable ▸ hl
  have hclean := cleanUpConnection_eq (hI.frame hf) hl₁
  have hafter : afterCallback (r₁.cleanUpConnection (r.conns n).peer) events =
      { r₁.removed (r.conns n).peer con with phase := .dispatch events } := by
    rw [hclean]
    rfl
  have hlookup (k : Peer) : (r₁.removed (r.conns n).peer con).connectionTable.lookup k =
      if k = (r.conns n).peer then none else r.connectionTable.lookup k := by
    rw [← hf.connectionTable]
    exact Dict.lookup_erase ..
  constructor
  · rintro ⟨hcontained, -⟩
    by_contra hne
    have htable := (hcontained.table (m := con) (k := (r.conns n).peer) hne).mpr hl
    rw [hafter] at htable
    have hnone := hlookup (r.conns n).peer
    rw [if_pos rfl] at hnone
    cases htable.symm.trans hnone
  · rintro rfl
    refine ⟨?_, fun _ => ?_⟩
    · rw [hafter]
      refine ⟨nofun, fun {m} hm => ?_, fun {m k} hm => ?_, hf.sck, hf.atomicClose⟩
      · have hc : (r₁.removed (r.conns con).peer con).conns m = r₁.conns m :=
          Function.update_of_ne hm ..
        have hs : (r₁.removed (r.conns con).peer con).selector m = r₁.selector m :=
          Function.update_of_ne hm ..
        exact ⟨hc.trans (hother rfl m hm).1, hs.trans (hother rfl m hm).2⟩
      · have hk := hlookup k
        constructor
        · intro hm'
          have hm' := hk.symm.trans hm'
          split at hm'
          · cases hm'
          · exact hm'
        · intro hm'
          have hne : k ≠ (r.conns con).peer := by
            rintro rfl
            exact hm (Option.some.inj (hm'.symm.trans hl))
          exact hk.trans ((if_neg hne).trans hm')
    · rw [hafter, hclean]
      refine ⟨fun {k} hk => ?_, ?_, ?_⟩
      · have hk := (hlookup k).symm.trans hk
        split at hk
        · cases hk
        · rename_i hne
          exact hne (hI.entry hk).2.1.symm
      · have hc : ((r₁.removed (r.conns con).peer con).conns con).sck =
            (r₁.conns con).sck.close := by
          rw [show (r₁.removed (r.conns con).peer con).conns con = _ from Function.update_self ..]
        exact hc ▸ Sock.close_isOpen _
      · simp only [closeMsg, hf.identifyingPort]

/-- The part of the callback behind `mask & EVENT_READ`, entered with the relay `r₁`; `sent` are the
errors of `send`, which have left `r₁` as it was. -/
theorem handleRead_isolated_iff {r₁ : Relay} {sent : List (SocketCall × OSError)} (hI : r.Inv own)
    (hl : r.connectionTable.lookup (r.conns n).peer = some con) (hf : Frame r r₁)
    (hother : con = n → ∀ m ≠ n, r₁.conns m = r.conns m ∧ r₁.selector m = r.selector m)
    (hsent : ∀ x ∈ sent, caught x = true ∧ x.2.fatal = false) (hsame : sent ≠ [] → r₁ = r)
    (herrors : sent ++ recvErrors mask io ≠ []) :
    Isolated r n (sent ++ recvErrors mask io) (if mask.read then
        r₁.handleRead n con (r.conns n).peer io.recv else { state := r₁ }) events ↔
      (∀ x ∈ sent ++ recvErrors mask io, caught x = true) ∧
        ((∃ x ∈ sent ++ recvErrors mask io, x.2.fatal = true) ∨ recvEof mask io = true →
          con = n) := by
  have hquiet : ¬ ∃ x ∈ sent, x.2.fatal = true := by
    rintro ⟨x, hx, hfatal⟩
    cases (hsent x hx).2.symm.trans hfatal
  cases hm : mask.read with
  | false =>
    have hrecv : recvErrors mask io = [] := by simp [recvErrors, hm]
    have heof : recvEof mask io = false := by simp [recvEof, hm]
    rw [hrecv, List.append_nil] at herrors ⊢
    rw [hsame herrors]
    refine iff_of_true ⟨.refl, fun h => absurd h hquiet⟩ ⟨fun x hx => (hsent x hx).1, ?_⟩
    simp [hquiet, heof]
  | true =>
    rw [if_pos rfl]
    cases hrecv : io.recv with
    | ok data =>
      have herr : recvErrors mask io = [] := by simp [recvErrors, hm, hrecv, errorOf]
      have heof : recvEof mask io = data.isEmpty := by simp [recvEof, hm, hrecv]
      rw [herr, List.append_nil] at herrors ⊢
      obtain rfl := hsame herrors
      let c := { r₁.conns n with sck := (r₁.conns n).sck.recv data }
      have hset : Frame r₁ (r₁.setConn n c) := .setConn rfl rfl
      have hconns : ∀ m ≠ n, (r₁.setConn n c).conns m = r₁.conns m ∧
          (r₁.setConn n c).selector m = r₁.selector m :=
        fun m hm => ⟨Function.update_of_ne hm .., rfl⟩
      have hcaught : ∀ x ∈ sent, caught x = true := fun x hx => (hsent x hx).1
      unfold handleRead
      simp only
      rw [show r₁.setConn n _ = r₁.setConn n c from rfl]
      by_cases hd : data = []
      · rw [if_pos hd, cleanUp_isolated_iff hI hl hset fun _ => hconns]
        exact ⟨fun h => ⟨hcaught, fun _ => h⟩, fun h => h.2 (.inr (by simp [heof, hd]))⟩
      · rw [if_neg hd]
        refine iff_of_true ⟨⟨nofun, fun hm => hconns _ hm, fun _ => .rfl, rfl, rfl⟩,
          fun h => absurd h hquiet⟩ ⟨hcaught, ?_⟩
        simp [hquiet, heof, hd]
    | error e =>
      have herr : recvErrors mask io = [(.recv, e)] := by
        simp [recvErrors, hm, hrecv, errorOf]
      have hclean : (∀ x ∈ sent ++ [(SocketCall.recv, e)], caught x = true) →
          e.fatal = true → ((∀ x ∈ sent ++ [(SocketCall.recv, e)], caught x = true) ∧
            ((∃ x ∈ sent ++ [(SocketCall.recv, e)], x.2.fatal = true) ∨ recvEof mask io = true →
              con = n) ↔ con = n) := by
        intro hcaught hfatal
        refine ⟨fun h => h.2 (.inl ⟨(.recv, e), by simp, hfatal⟩), fun h => ⟨hcaught, fun _ => h⟩⟩
      have hcaught (h : caught (.recv, e) = true) :
          ∀ x ∈ sent ++ [(SocketCall.recv, e)], caught x = true := by
        intro x hx
        rcases List.mem_append.mp hx with hx | hx
        · exact (hsent x hx).1
        · rwa [List.mem_singleton.mp hx]
      rw [herr]
      by_cases hc : caught (.recv, e) = true
      · have he : e = .connectionReset ∨ e = .brokenPipe := by
          cases e <;> first | exact .inl rfl | exact .inr rfl | cases hc
        have hfatal : e.fatal = true := by rcases he with rfl | rfl <;> rfl
        have hread : r₁.handleRead n con (r.conns n).peer (.error e) =
            r₁.cleanUpConnection (r.conns n).peer := by
          rcases he with rfl | rfl <;> rfl
        rw [hread, hclean (hcaught hc) hfatal]
        exact cleanUp_isolated_iff hI hl hf hother _
      · have hraised : (r₁.handleRead n con (r.conns n).peer (.error e)).raised = some (.os e) := by
          cases e <;> first | rfl | exact absurd rfl hc
        refine iff_of_false (not_isolated_of_raised hraised) fun h => hc ?_
        exact h.1 (.recv, e) (by simp)

theorem flushed_other (r : Relay) {m : Nat} (n len : Nat) (hm : m ≠ n) :
    (r.flushed n n len).conns m = r.conns m ∧ (r.flushed n n len).selector m = r.selector m := by
  refine ⟨(Function.update_of_ne hm ..).trans (Function.update_of_ne hm ..), ?_⟩
  have hs : (r.flushed n n len).selector = if ((r.setConn n { r.conns n with
      sck := (r.conns n).sck.send ((r.conns n).sendq.take len) }).conns n).sendq.drop len = [] then
    update r.selector n (some .r) else r.selector := rfl
  rw [hs]
  split
  · exact Function.update_of_ne hm ..
  · rfl

theorem handleSocket_isolated_iff (hI : r.Inv own) (herrors : r.errors n mask io ≠ []) :
    Isolated r n (r.errors n mask io) (r.handleSocket n mask io) events ↔ r.Handled n mask io := by
  unfold Handled
  unfold handleSocket
  cases hpeer : io.getpeername with
  | error e =>
    have herr : r.errors n mask io = [(.getpeername, e)] := by simp [errors, hpeer]
    refine iff_of_false (not_isolated_of_raised rfl) fun h => ?_
    have hcaught := h.1 (.getpeername, e) (herr ▸ List.mem_singleton_self _)
    cases hcaught
  | ok _ =>
    cases hl : r.connectionTable.lookup (r.conns n).peer with
    | none => simp [errors, hpeer, hl] at herrors
    | some con =>
      simp only [hl, Option.some.injEq]
      by_cases hw : mask.write && (r.conns con).sendq ≠ []
      · simp only [if_pos hw]
        have herr : r.errors n mask io =
            if (errorOf .send io.send).any fun (_, e) => e.fatal then errorOf .send io.send
              else errorOf .send io.send ++ recvErrors mask io := by
          simp only [errors, hpeer, hl, if_pos hw]
        rw [herr] at herrors ⊢
        cases hsend : io.send with
        | ok len =>
          rw [hsend] at herrors
          rw [handleWrite_eq len (hI.entry hl).2.2.1]
          have hother : con = n → ∀ m ≠ n, (r.flushed n con len).conns m = r.conns m ∧
              (r.flushed n con len).selector m = r.selector m := by
            rintro rfl m hm
            exact flushed_other r con len hm
          exact handleRead_isolated_iff hI hl (flushed_frame len (hI.entry hl).2.2.1) hother
            (List.forall_mem_nil _) (absurd rfl) herrors
        | error e =>
          by_cases hb : e = .blockingIo
          · subst hb
            rw [hsend] at herrors
            refine handleRead_isolated_iff hI hl (.refl r) (fun _ _ _ => ⟨rfl, rfl⟩) ?_
              (fun _ => rfl) herrors
            intro x hx
            rw [List.mem_singleton.mp hx]
            exact ⟨rfl, rfl⟩
          have hfatal : e.fatal = true := by
            cases e <;> first | rfl | exact absurd rfl hb
          rw [show (errorOf .send (.error e : Except OSError Nat)).any _ = true from
            (Bool.or_false _).trans hfatal, if_pos rfl]
          have hone : ∃ x ∈ errorOf .send (.error e : Except OSError Nat), x.2.fatal = true :=
            ⟨_, List.mem_singleton_self _, hfatal⟩
          by_cases hc : caught (.send, e) = true
          · have hwrite : r.handleWrite n con (r.conns n).peer (.error e) =
                .inr (r.cleanUpConnection (r.conns n).peer) := by
              cases e <;> first | rfl | exact absurd rfl hb | cases hc
            rw [hwrite]
            refine (cleanUp_isolated_iff hI hl (.refl r) (fun _ _ _ => ⟨rfl, rfl⟩) _).trans ?_
            refine ⟨fun h => ⟨fun x hx => ?_, fun _ => h⟩, fun h => h.2 (.inl hone)⟩
            rwa [List.mem_singleton.mp hx]
          · have hwrite : r.handleWrite n con (r.conns n).peer (.error e) =
                .inr { state := r, raised := some (.os e) } := by
              cases e <;> first | rfl | exact absurd rfl hb | exact absurd rfl hc
            rw [hwrite]
            refine iff_of_false (not_isolated_of_raised rfl) fun h => hc ?_
            exact h.1 _ (List.mem_singleton_self _)
      · simp only [if_neg hw]
        have herr : r.errors n mask io = [] ++ recvErrors mask io := by
          simp only [errors, hpeer, hl, if_neg hw]
          rfl
        rw [herr] at herrors ⊢
        exact handleRead_isolated_iff hI hl (.refl r) (fun _ _ _ => ⟨rfl, rfl⟩)
          (List.forall_mem_nil _) (absurd rfl) herrors

/-! ## A step of the relay -/

/-- The errors that the socket calls of the callback raise. -/
def callErrors (r : Relay) (a : RelayAction) : List (SocketCall × OSError) :=
  match r.phase, a with
  | .dispatch ((.listening, _) :: _), .accept (.error e) => [(.accept, e)]
  | .dispatch ((.conn n, mask) :: _), .io io => r.errors n mask io
  | _, _ => []

/-- The callback comes to the end of the stream of its socket. -/
def atEof (r : Relay) (a : RelayAction) : Bool :=
  match r.phase, a with
  | .dispatch ((.conn _, mask) :: _), .io io => recvEof mask io
  | _, _ => false

/-- The socket with which the callback is called; at the listening socket, the one that `accept`
would return. -/
def subject (r : Relay) : Nat :=
  match r.phase with
  | .dispatch ((.conn n, _) :: _) => n
  | _ => r.nconns

end Relay

namespace RelayRun
open Relay (Contained Ended caught)

/-- In every reachable state, a callback in which socket calls raise errors returns to
`Relay.open`, with nothing changed but its own connection, and this one ended if an error is
fatal, if and only if an `except` clause names each of the errors and, where the connection ends,
the entry under its address is its own. -/
theorem errors_contained_iff {P : RelayRun → Event → Prop} {s : RelayRun} {a : RelayAction}
    {r' : Relay} {puts : List (Nat × QueuedRelayMessage)} (hs : Reachable P s)
    (h : s.relay.step s.closeReq a = some (r', puts)) (herrors : s.relay.callErrors a ≠ []) :
    (Contained s.relay r' s.relay.subject ∧ ((∃ x ∈ s.relay.callErrors a, x.2.fatal = true) →
        Ended s.relay r' s.relay.subject puts)) ↔
      (∀ x ∈ s.relay.callErrors a, caught x = true) ∧
        ((∃ x ∈ s.relay.callErrors a, x.2.fatal = true) ∨ s.relay.atEof a = true →
          s.relay.connectionTable.lookup (s.relay.conns s.relay.subject).peer =
            some s.relay.subject) := by
  have hI : s.relay.Inv False := Reachable.inv nofun hs
  generalize s.relay = r, s.closeReq = closeReq at *
  unfold Relay.callErrors at herrors
  split at herrors
  · rename_i mask events e hp
    have hcall : r.callErrors (.accept (.error e)) = [(.accept, e)] := by
      simp only [Relay.callErrors, hp]
    simp only [Relay.step, hp, Option.some.injEq, Prod.mk.injEq] at h
    obtain ⟨rfl, rfl⟩ := h
    refine iff_of_false (fun h => h.1.returns rfl) fun h => ?_
    have hcaught := h.1 (.accept, e) (hcall ▸ List.mem_singleton_self _)
    cases hcaught
  · rename_i n mask events io hp
    have hcall : r.callErrors (.io io) = r.errors n mask io := by
      simp only [Relay.callErrors, hp]
    have heof : r.atEof (.io io) = Relay.recvEof mask io := by simp only [Relay.atEof, hp]
    have hsubject : r.subject = n := by simp only [Relay.subject, hp]
    simp only [Relay.step, hp, Option.ite_none_right_eq_some, Option.some.injEq,
      Prod.mk.injEq] at h
    obtain ⟨-, rfl, rfl⟩ := h
    rw [hcall, heof, hsubject]
    exact Relay.handleSocket_isolated_iff hI herrors
  · exact absurd rfl herrors

/-- `select` has returned the socket of the only connection. -/
def oneSelected : List Event :=
  [.thread (.listen (.ok ())), .thread (.select [(.listening, .r)]),
    .thread (.accept (.ok (.dotted 127 0 0 1, 5000))), .thread .turn, .thread .turn,
    .thread (.select [(.conn 0, .r)])]

theorem oneSelected_reached : ∃ s, Reachable (fun _ _ => True) s ∧
    s.relay.phase = .dispatch [(.conn 0, .r)] ∧ s.relay.subject = 0 ∧
    s.relay.connectionTable.lookup (s.relay.conns 0).peer = some 0 ∧
    (s.relay.conns 0).sck.isOpen = true := by
  have hx : (run (fun _ _ => true) oneSelected).map (fun s => (s.relay.phase, s.relay.subject,
      s.relay.connectionTable.lookup (s.relay.conns 0).peer, (s.relay.conns 0).sck.isOpen)) =
        some (.dispatch [(.conn 0, .r)], 0, some 0, true) := by
    decide +kernel
  obtain ⟨s, hs, hx⟩ := Option.map_eq_some_iff.mp hx
  simp only [Prod.mk.injEq] at hx
  exact ⟨s, Reachable.of_run (fun _ _ _ => trivial) hs, hx⟩

/-- The external host has reset the connection, which `recv` reports. -/
theorem errors_contained_reset : ∃ (s : RelayRun) (r' : Relay)
    (puts : List (Nat × QueuedRelayMessage)), Reachable (fun _ _ => True) s ∧
      s.relay.step s.closeReq (.io ⟨.ok (), .ok 0, .error .connectionReset⟩) = some (r', puts) ∧
      Contained s.relay r' 0 ∧ Ended s.relay r' 0 puts := by
  obtain ⟨s, hs, hp, hsubject, hl, hopen⟩ := oneSelected_reached
  let io : Relay.SocketIO := ⟨.ok (), .ok 0, .error .connectionReset⟩
  have hcall : s.relay.callErrors (.io io) = [(.recv, .connectionReset)] := by
    simp [Relay.callErrors, hp, Relay.errors, io, hl, Relay.recvErrors, Relay.errorOf,
      Mask.r]
  have hstep : s.relay.step s.closeReq (.io io) =
      some (Relay.afterCallback (s.relay.handleSocket 0 .r io) [],
        (s.relay.handleSocket 0 .r io).puts) := by
    have hio : s.relay.ioAllowed 0 io = true := by
      simp [Relay.ioAllowed, io, hl, hopen, sendAllowed, recvAllowed]
    simp [Relay.step, hp, hio]
  have h := (errors_contained_iff hs hstep (by rw [hcall]; decide)).mpr
  rw [hcall, hsubject] at h
  obtain ⟨hcontained, hended⟩ := h ⟨by decide, fun _ => hl⟩
  exact ⟨s, _, _, hs, hstep, hcontained, hended ⟨_, List.mem_singleton_self _, rfl⟩⟩

/-- The same connection has been reset before the callback calls `getpeername`. -/
theorem getpeername_crashes : ¬ ∀ (s : RelayRun) (a : RelayAction) (r' : Relay)
    (puts : List (Nat × QueuedRelayMessage)), Reachable (fun _ _ => True) s →
      s.relay.step s.closeReq a = some (r', puts) → s.relay.callErrors a ≠ [] →
        Contained s.relay r' s.relay.subject ∧
          ((∃ x ∈ s.relay.callErrors a, x.2.fatal = true) →
            Ended s.relay r' s.relay.subject puts) := by
  intro h
  obtain ⟨s, hs, hp, -, hl, -⟩ := oneSelected_reached
  let io : Relay.SocketIO := ⟨.error (.other 107), .ok 0, .ok []⟩
  have hio : s.relay.ioAllowed 0 io = true := by
    simp [Relay.ioAllowed, io, hl, sendAllowed, recvAllowed]
  have hstep : s.relay.step s.closeReq (.io io) =
      some ({ s.relay with phase := .crashed (.os (.other 107)) }, []) := by
    simp only [Relay.step, hp, hio, if_true]
    rfl
  have hcall : s.relay.callErrors (.io io) ≠ [] := by
    simp [Relay.callErrors, hp, Relay.errors, io]
  exact (h s _ _ _ hs hstep hcall).1.returns rfl

end RelayRun
end PortPort
