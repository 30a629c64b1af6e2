import PortPort.Client.RemoteRun
import PortPort.System.Streams

/-! # The handshake of the client (`create_remote_proxy` in `client/cli.py`)

The client authenticates, asks for a relay and reads the reply before it enters its loop. The loop
starts with an empty `recvq`: what `recv` has returned behind the frame that announces the relay is
lost. -/

namespace PortPort
open PortPortMessage Framing
open RemoteRun (Event)

/-- The results of the socket calls of the handshake. -/
structure HandshakeIO where
  sendAuth : Except OSError Unit := .ok ()
  authReply : Except OSError Bytes := .ok []
  sendCreate : Except OSError Unit := .ok ()
  data : Except OSError Bytes

/-- The part of the handshake behind `if skip_auth == False`. -/
def authenticate (auth : String) (io : HandshakeIO) : Except PyError Unit := do
  let _ ← ({ msgType := .auth, auth } : PortPortMessage).serialize
  io.sendAuth.mapError .os
  let authReply ← io.authReply.mapError .os
  let (decodedMsg, _) ← grabMsg authReply
  if decodedMsg.msgType ≠ .authSuccess then
    throw (.exception "invalid auth")

/-- The handshake: the reply to CREATE_RELAY, with what `grab_msg` leaves of the bytes. -/
def requestRelay (auth : String) (skipAuth : Bool) (io : HandshakeIO) :
    Except PyError (PortPortMessage × Bytes) := do
  if skipAuth = false then
    authenticate auth io
  let _ ← ({ msgType := .createRelay } : PortPortMessage).serialize
  io.sendCreate.mapError .os
  let data ← io.data.mapError .os
  grabMsg data

/-- `create_remote_proxy` up to its loop: the state in which it enters the loop, or `none` if it
sets the close event and returns. -/
def handshake (auth : String) (skipAuth : Bool) (io : HandshakeIO) : Option RemoteRun :=
  match requestRelay auth skipAuth io with
  | .error _ => none
  -- `recvq = bytes()`: what is left of the bytes is not kept
  | .ok (result, _) => if result.msgType = .openRelay then some (.start result.relayPort) else none

/-- A run of the loop with what its `recv` calls have returned and the messages it has handed to
`process_msg`. -/
structure RemoteLog where
  run : RemoteRun
  received : List Bytes := []
  processed : List PortPortMessage := []

namespace RemoteLog

/-- The bytes that the event has appended to `recvq`, if it is a callback of the socket. -/
def chunk (recvq recvq' : Bytes) : Event → List Bytes
  | .thread (.relayIo _) =>
    let data := recvq'.drop recvq.length
    if data = [] then [] else [data]
  | _ => []

/-- The message that the event hands to `process_msg`, if it is a turn of the receive loop. -/
def taken (c : RemoteProxy) : Event → List PortPortMessage
  | .thread .turn =>
    if c.phase = .recvLoop then
      match grabMsg c.recvq with
      | .ok (msg, _) => [msg]
      | .error _ => []
    else []
  | _ => []

def step (s : RemoteLog) (e : Event) : Option RemoteLog :=
  (s.run.step e).map fun run =>
    { run
      received := s.received ++ chunk s.run.client.remote.recvq run.client.remote.recvq e
      processed := s.processed ++ taken s.run.client.remote e }

/-- The runs of the loop from the state the handshake leaves behind. -/
abbrev Reachable (start : RemoteRun) : RemoteLog → Prop :=
  Transition.Reach (Transition.Fires step) (fun _ _ => True) fun s => s = { run := start }

end RemoteLog

/-! ## The loop processes what its chunks decode to -/

namespace RemoteProxy

/-- Outside the receive loop, `recvq` holds no complete frame until the callback of the socket. -/
def Settled (c : RemoteProxy) : Prop :=
  match c.phase with
  | .recvLoop | .crashed _ => True
  | .dispatch events => (events.map Prod.fst).Nodup ∧
      (.client ∈ events.map Prod.fst → drain frames c.recvq = ([], c.recvq))
  | _ => drain frames c.recvq = ([], c.recvq)

theorem Settled.of_drain {c : RemoteProxy} (h : drain frames c.recvq = ([], c.recvq))
    (hp : ∀ events, c.phase = .dispatch events → (events.map Prod.fst).Nodup) : c.Settled := by
  unfold Settled
  split
  · trivial
  · trivial
  · exact ⟨hp _ ‹_›, fun _ => h⟩
  · exact h

theorem batchTurn_phase (c : RemoteProxy) (left : Nat) (events : List (RemoteKey × Mask)) :
    (c.batchTurn left).phase ≠ .dispatch events := by
  unfold batchTurn
  split
  · exact nofun
  split
  · exact nofun
  · simp only
    split
    · exact nofun
    · split
      · exact nofun
      · simp only
        split <;> exact nofun

end RemoteProxy

namespace RemoteLog

/-- The messages processed, and those that `recvq` still holds, are what the chunks decode to. -/
structure Follows (s : RemoteLog) : Prop where
  decoded : s.processed ++ (drain frames s.run.client.remote.recvq).1 = (receive s.received).1
  rest : (drain frames s.run.client.remote.recvq).2 = (receive s.received).2
  settled : s.run.client.remote.Settled

/-- Nothing has changed that the messages depend on. -/
theorem Follows.congr {s s' : RemoteLog} (h : s.Follows)
    (hrecvq : s'.run.client.remote.recvq = s.run.client.remote.recvq)
    (hreceived : s'.received = s.received) (hprocessed : s'.processed = s.processed)
    (hsettled : s'.run.client.remote.Settled) : s'.Follows where
  decoded := by rw [hprocessed, hrecvq, hreceived, h.decoded]
  rest := by rw [hrecvq, hreceived, h.rest]
  settled := hsettled

/-- The log of the step of the thread that leaves the client `c`. -/
def stepped (s : RemoteLog) (c : Client) (a : Client.RemoteAction) : RemoteLog where
  run := { s.run with client := c }
  received := s.received ++ chunk s.run.client.remote.recvq c.remote.recvq (.thread a)
  processed := s.processed ++ taken s.run.client.remote (.thread a)

theorem Follows.quiet {s : RemoteLog} {c : Client} {a : Client.RemoteAction} (h : s.Follows)
    (ha : chunk s.run.client.remote.recvq c.remote.recvq (.thread a) = [])
    (ht : taken s.run.client.remote (.thread a) = [])
    (hrecvq : c.remote.recvq = s.run.client.remote.recvq) (hsettled : c.remote.Settled) :
    (s.stepped c a).Follows := by
  apply h.congr hrecvq _ _ hsettled
  · simp [stepped, ha]
  · simp [stepped, ht]

theorem grabMsg_error {b : Bytes} {e : PyError} (h : grabMsg b = .error e) :
    frames.dec b = none := by
  have hdec : frames.dec b = (grabMsg b).toOption := rfl
  rw [hdec, h]
  rfl

/-- The receive loop is left: no frame stands at the head of the buffer. -/
theorem breaks_follows {s : RemoteLog} (h : s.Follows)
    (hp : s.run.client.remote.phase = .recvLoop)
    (hq : s.run.client.remote.recvq = [] ∨ ∃ e, grabMsg s.run.client.remote.recvq = .error e) :
    (s.stepped (s.run.client.goto (.batch RemoteProxy.BOUNDED_BATCH)) .turn).Follows := by
  refine h.quiet rfl ?_ rfl (.of_drain ?_ nofun)
  · rcases hq with hnil | ⟨e, hgrab⟩
    · rw [taken, if_pos hp, hnil]
      rfl
    · rw [taken, if_pos hp, hgrab]
  · rcases hq with hnil | ⟨e, hgrab⟩
    · simp only [Client.goto, hnil]
      rfl
    · exact drain_of_none frames (grabMsg_error hgrab)

/-- A frame is taken off the buffer and processed. -/
theorem takes_follows {s : RemoteLog} (h : s.Follows)
    (hp : s.run.client.remote.phase = .recvLoop) {msg : PortPortMessage} {recvq : Bytes}
    (hgrab : grabMsg s.run.client.remote.recvq = .ok (msg, recvq)) :
    (s.stepped (Client.processMsg
      { s.run.client with remote := { s.run.client.remote with recvq } } msg) .turn).Follows := by
  have hremote : (Client.processMsg
      { s.run.client with remote := { s.run.client.remote with recvq } } msg).remote =
      { s.run.client.remote with recvq } := Client.processMsg_remote _ _
  have hdec : frames.dec s.run.client.remote.recvq = some (msg, recvq) :=
    grabMsg?_eq_some.mpr hgrab
  have htaken : taken s.run.client.remote (.thread .turn) = [msg] := by
    rw [taken, if_pos hp, hgrab]
  have hdecoded := h.decoded
  have hrest := h.rest
  rw [drain_of_some frames hdec] at hdecoded hrest
  refine ⟨?_, ?_, ?_⟩
  · simp only [stepped, chunk, htaken, hremote, List.append_nil, List.append_assoc,
      List.singleton_append]
    exact hdecoded
  · simp only [stepped, chunk, hremote, List.append_nil]
    exact hrest
  · simp only [stepped, hremote, RemoteProxy.Settled]
    simp only [hp]

/-- The callback of the socket, which may append a chunk. -/
theorem relayIo_follows {s : RemoteLog} (h : s.Follows) {mask : Mask} {io : RelayIO}
    {events : List (RemoteKey × Mask)}
    (hp : s.run.client.remote.phase = .dispatch ((.client, mask) :: events))
    {phase : RemotePhase} (hphase : phase = .dispatch events ∨ ∃ e, phase = .crashed e)
    (close : Bool) : (s.stepped { s.run.client with
      close, remote := { (s.run.client.remote.handleRelay mask io).state with phase } }
        (.relayIo io)).Follows := by
  have hsettled := h.settled
  simp only [RemoteProxy.Settled, hp, List.map_cons, List.mem_cons, true_or, forall_const]
    at hsettled
  obtain ⟨hnodup, hdrain⟩ := hsettled
  obtain ⟨data, hdata⟩ := (s.run.client.remote.handleRelay_moved mask io).recvq
  have hchunk : chunk s.run.client.remote.recvq
      (s.run.client.remote.handleRelay mask io).state.recvq (.thread (.relayIo io)) =
      if data = [] then [] else [data] := by
    rw [chunk, ← hdata, List.drop_left]
  have hout :
      ({ (s.run.client.remote.handleRelay mask io).state with phase } : RemoteProxy).Settled := by
    rcases hphase with rfl | ⟨e, rfl⟩
    · refine ⟨(List.nodup_cons.mp hnodup).2, fun hm => absurd hm (List.nodup_cons.mp hnodup).1⟩
    · trivial
  by_cases hnil : data = []
  · rw [if_pos hnil] at hchunk
    rw [hnil, List.append_nil] at hdata
    exact h.quiet hchunk rfl hdata.symm hout
  · rw [if_neg hnil] at hchunk
    have hdecoded := h.decoded
    have hrest := h.rest
    rw [hdrain] at hdecoded hrest
    have hfeed := feed_concat (d := frames) [] data s.received
    refine ⟨?_, ?_, hout⟩
    · simp only [stepped, hchunk, taken, List.append_nil]
      rw [← hdata, receive, hfeed, ← receive, ← hdecoded, ← hrest, List.append_nil]
    · simp only [stepped, hchunk]
      rw [← hdata, receive, hfeed, ← receive, ← hrest]

/-- A step of the thread. -/
theorem remoteStep_follows {s : RemoteLog} {c : Client} {a : Client.RemoteAction} (h : s.Follows)
    (ha : s.run.client.remoteStep a = some c) : (s.stepped c a).Follows := by
  have hsettled := h.settled
  have hidle (hp : s.run.client.remote.phase ≠ .recvLoop) :
      taken s.run.client.remote (.thread .turn) = [] := by
    rw [taken, if_neg hp]
  cases Client.remoteStep_moves ha with
  | leaves hp | joined hp =>
    rw [RemoteProxy.Settled, hp] at hsettled
    exact h.quiet rfl (hidle (by simp [hp])) rfl (.of_drain hsettled nofun)
  | selects hp hselect =>
    rw [RemoteProxy.Settled, hp] at hsettled
    simp only [Bool.and_eq_true, RemoteProxy.selectable, decide_eq_true_eq] at hselect
    refine h.quiet rfl rfl rfl (.of_drain hsettled ?_)
    intro events' he
    cases he
    exact hselect.2.1
  | relayIo hp =>
    apply relayIo_follows h hp
    split
    · exact .inl rfl
    · exact .inr ⟨_, rfl⟩
  | wakeupRead hp =>
    rw [RemoteProxy.Settled, hp] at hsettled
    refine h.quiet rfl rfl rfl ⟨(List.nodup_cons.mp hsettled.1).2, fun hm => hsettled.2 ?_⟩
    exact List.mem_cons_of_mem _ hm
  | dispatched hp => exact h.quiet rfl (hidle (by simp [hp])) rfl trivial
  | breaks hp hq => exact breaks_follows h hp hq
  | takes hp hgrab => exact takes_follows h hp hgrab
  | @batch left hp =>
    rw [RemoteProxy.Settled, hp] at hsettled
    refine h.quiet rfl (hidle (by simp [hp])) (RemoteProxy.batchTurn_recvq _ left)
      (.of_drain ?_ ?_)
    · rw [RemoteProxy.batchTurn_recvq]
      exact hsettled
    · exact fun events he => absurd he (RemoteProxy.batchTurn_phase _ left events)

theorem step_follows {s s' : RemoteLog} {e : Event} (h : s.Follows) (hs : step s e = some s') :
    s'.Follows := by
  obtain ⟨run, hrun, rfl⟩ := Option.map_eq_some_iff.mp hs
  rcases RemoteRun.step_cases hrun with ⟨a, rfl, ha, -⟩ | ⟨⟨a, rfl⟩, -, puts, hm, -⟩ |
    ⟨rfl, -, hm⟩ | ⟨rfl, rfl⟩
  · have hstep := remoteStep_follows h ha
    exact hstep.congr rfl rfl rfl hstep.settled
  · refine h.congr (by rw [hm]) (List.append_nil _) (List.append_nil _) ?_
    rw [hm]
    exact h.settled
  · refine h.congr (by rw [hm]) (List.append_nil _) (List.append_nil _) ?_
    rw [hm]
    exact h.settled
  · exact h.congr rfl (List.append_nil _) (List.append_nil _) h.settled

theorem Reachable.follows {remotePort : Int} {s : RemoteLog}
    (h : Reachable (.start remotePort) s) : s.Follows := by
  apply h.invariant (J := Follows)
  · rintro _ rfl
    exact ⟨rfl, rfl, rfl⟩
  · exact fun s e s' h _ hs => step_follows h hs

/-- At the top of the loop, the messages processed are those that the chunks decode to. -/
theorem Reachable.processed {remotePort : Int} {s : RemoteLog}
    (h : Reachable (.start remotePort) s) (hp : s.run.client.remote.phase = .top) :
    s.processed = (receive s.received).1 := by
  have hfollows := Reachable.follows h
  have hsettled := hfollows.settled
  rw [RemoteProxy.Settled, hp] at hsettled
  rw [← hfollows.decoded, hsettled, List.append_nil]

end RemoteLog

/-! ## The handshake -/

/-- The announcement of the relay. -/
def OPEN_RELAY (relayPort : Int) : PortPortMessage := { msgType := .openRelay, relayPort }

def AUTH_SUCCESS : PortPortMessage := { msgType := .authSuccess }

theorem wellFormed_openRelay {relayPort : Int} (h : 0 ≤ relayPort ∧ relayPort < 256 ^ 2) :
    WellFormed (OPEN_RELAY relayPort) := ⟨rfl, h, rfl, nofun⟩

theorem wellFormed_authSuccess : WellFormed AUTH_SUCCESS := ⟨rfl, trivial, rfl, nofun⟩

theorem grabMsg_encode {m : PortPortMessage} (h : WellFormed m) (x : Bytes) :
    grabMsg (encode m ++ x) = .ok (m, x) := grabMsg?_eq_some.mp (grabMsg?_encode x h)

theorem authenticate_ok {auth : String} {data : Except OSError Bytes} (h : auth.length < 256 ^ 2) :
    authenticate auth { authReply := .ok (encode AUTH_SUCCESS), data } = .ok () := by
  have hser : ({ msgType := .auth, auth } : PortPortMessage).serialize =
      .ok (encode { msgType := .auth, auth }) := (serialize_iff rfl).mpr ⟨h, rfl⟩
  have hgrab := grabMsg_encode wellFormed_authSuccess []
  rw [List.append_nil] at hgrab
  unfold authenticate
  rw [hser]
  simp only [ok_bind, Except.mapError]
  rw [hgrab]
  simp [ok_bind, AUTH_SUCCESS, pure, Except.pure]

/-- The handshake comes to the loop when its frames are whole. -/
theorem handshake_eq {auth : String} {skipAuth : Bool} {relayPort : Int} (x : Bytes)
    (hauth : skipAuth = false → auth.length < 256 ^ 2)
    (hport : 0 ≤ relayPort ∧ relayPort < 256 ^ 2) :
    handshake auth skipAuth { authReply := .ok (encode AUTH_SUCCESS)
                              data := .ok (encode (OPEN_RELAY relayPort) ++ x) } =
      some (.start relayPort) := by
  have hgrab := grabMsg_encode (wellFormed_openRelay hport) x
  have hcreate : ({ msgType := .createRelay } : PortPortMessage).serialize = .ok [64, 1, 1] := rfl
  have hrequest : requestRelay auth skipAuth { authReply := .ok (encode AUTH_SUCCESS)
                                               data := .ok (encode (OPEN_RELAY relayPort) ++ x) } =
      .ok (OPEN_RELAY relayPort, x) := by
    unfold requestRelay
    cases skipAuth with
    | true =>
      simp only [hcreate, ok_bind, Except.mapError, hgrab, Bool.true_eq_false, if_false]
    | false =>
      rw [if_pos rfl, authenticate_ok (hauth rfl)]
      simp only [hcreate, ok_bind, Except.mapError, hgrab]
  unfold handshake
  rw [hrequest]
  exact if_pos rfl

/-- **The frames behind the handshake**: where AUTH_SUCCESS is all that the server sends before it
is asked for a relay, and OPEN_RELAY is whole in the `recv` that reads it, the loop is entered, and
when it has received all that the server has sent it has processed exactly the frames behind
OPEN_RELAY if and only if that `recv` returned nothing behind OPEN_RELAY. -/
theorem handshake_keeps_iff {auth : String} {skipAuth : Bool} {relayPort : Int} {data : Bytes}
    {fs : List PortPortMessage} (hauth : skipAuth = false → auth.length < 256 ^ 2)
    (hport : 0 ≤ relayPort ∧ relayPort < 256 ^ 2) (hfs : ∀ m ∈ fs, WellFormed m)
    (hopen : encode (OPEN_RELAY relayPort) <+: data) :
    ∃ start, handshake auth skipAuth { authReply := .ok (encode AUTH_SUCCESS), data := .ok data } =
        some start ∧
      ∀ s, RemoteLog.Reachable start s → s.run.client.remote.phase = .top →
        data ++ s.received.flatten = encode (OPEN_RELAY relayPort) ++ fs.flatMap encode →
        (s.processed = fs ↔ data = encode (OPEN_RELAY relayPort)) := by
  obtain ⟨x, rfl⟩ := hopen
  refine ⟨_, handshake_eq x hauth hport, fun s hs hp hstream => ?_⟩
  rw [List.append_assoc, List.append_cancel_left_eq] at hstream
  have hdata : encode (OPEN_RELAY relayPort) ++ x = encode (OPEN_RELAY relayPort) ↔ x = [] := by
    simp
  rw [RemoteLog.Reachable.processed hs hp, hdata]
  constructor
  · intro hprocessed
    have hauths : ∀ m ∈ (feed frames [] s.received).1, m.msgType ≠ .auth :=
      fun m hm => (hfs m (hprocessed ▸ hm)).notAuth
    have hbytes := feed_eq_append frames_dec_eq hauths
    rw [show feed frames [] s.received = receive s.received from rfl, hprocessed, List.nil_append]
      at hbytes
    have hlength := congrArg List.length hstream
    rw [hbytes] at hlength
    simp only [List.length_append] at hlength
    exact List.eq_nil_of_length_eq_zero (by omega)
  · rintro rfl
    rw [List.nil_append] at hstream
    rw [receive_eq_drain (hstream ▸ avoids_encode hfs), hstream,
      drain_flatMap grabMsg?_encode hfs]

/-- An external host connects behind the announcement of the relay. -/
def newcomer : PortPortMessage :=
  { msgType := .newConnection, addr := .dotted 10 0 0 1, port := 5000, relayPort := 4000 }

theorem wellFormed_newcomer : ∀ m ∈ [newcomer], WellFormed m := by
  intro m hm
  rw [List.mem_singleton.mp hm]
  exact ⟨rfl, ⟨⟨by decide, by decide⟩, by decide, by decide⟩, rfl, nofun⟩

/-- One pass of the loop, with this chunk. -/
def pass (data : Bytes) : List Event :=
  [.thread (.select [(.client, .r)]), .thread (.relayIo { send := .ok 0, recv := .ok data })] ++
    List.replicate 4 (.thread .turn)

theorem handshake_keeps_iff_apart : ∃ start s,
    handshake "" true { authReply := .ok (encode AUTH_SUCCESS)
                        data := .ok (encode (OPEN_RELAY 4000)) } = some start ∧
    RemoteLog.Reachable start s ∧ s.processed = [newcomer] := by
  obtain ⟨start, hstart, hiff⟩ := @handshake_keeps_iff "" true 4000 (encode (OPEN_RELAY 4000)) _
    nofun (by decide) wellFormed_newcomer (List.prefix_refl _)
  have hstart' : start = .start 4000 := by
    have heq := @handshake_eq "" true 4000 [] nofun (by decide)
    rw [List.append_nil, hstart] at heq
    exact Option.some.inj heq
  have hx : (Transition.exec RemoteLog.step (fun _ _ => true) { run := .start 4000 }
      (pass (encode newcomer))).map (fun s => (s.run.client.remote.phase, s.received)) =
      some (.top, [encode newcomer]) := by
    decide +kernel
  obtain ⟨s, hs, hx⟩ := Option.map_eq_some_iff.mp hx
  obtain ⟨hp, hreceived⟩ := Prod.mk.inj hx
  have hr : RemoteLog.Reachable start s := by
    rw [hstart']
    exact .exec (fun _ _ _ => trivial) (.init rfl) hs
  exact ⟨start, s, hstart, hr, (hiff s hr hp (by simp [hreceived])).mpr rfl⟩

/-- OPEN_RELAY and the first connection come in one `recv`. -/
theorem newcomer_lost : ¬ ∀ (auth : String) (skipAuth : Bool) (relayPort : Int) (data : Bytes)
    (fs : List PortPortMessage), (skipAuth = false → auth.length < 256 ^ 2) →
    (0 ≤ relayPort ∧ relayPort < 256 ^ 2) → (∀ m ∈ fs, WellFormed m) →
    encode (OPEN_RELAY relayPort) <+: data →
    ∃ start, handshake auth skipAuth { authReply := .ok (encode AUTH_SUCCESS), data := .ok data } =
        some start ∧
      ∀ s, RemoteLog.Reachable start s → s.run.client.remote.phase = .top →
        data ++ s.received.flatten = encode (OPEN_RELAY relayPort) ++ fs.flatMap encode →
        s.processed = fs := by
  intro h
  obtain ⟨start, hstart, hall⟩ := h "" true 4000 (encode (OPEN_RELAY 4000) ++ encode newcomer)
    [newcomer] nofun (by decide) wellFormed_newcomer (List.prefix_append ..)
  have heq := @handshake_eq "" true 4000 (encode newcomer) nofun (by decide)
  rw [hstart] at heq
  obtain rfl := Option.some.inj heq
  have hprocessed := hall { run := .start 4000 } (.init rfl) rfl (by simp)
  cases hprocessed

end PortPort
