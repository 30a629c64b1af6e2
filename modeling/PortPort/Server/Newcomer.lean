import PortPort.Common.Sockets
import PortPort.Common.Tokens

/-! # Inbound management connections (`add_to_conn_table` in `server/manager.py`)

A newcomer is accepted, its TLS handshake is made and its AUTH message is compared with the token
of the server, all within one callback of the accepting thread. The threads of `relayMgmt` that it
starts are numbered. -/

namespace PortPort
open PortPortMessage BigEndian

/-- The variables of `start_relay_mgmt_server` that `add_to_conn_table` uses. -/
structure MgmtServer where
  authToken : String
  authBypass : Bool := false
  connectionTable : Dict Peer Nat := ∅
  /-- the number of threads started so far -/
  nthreads : Nat := 0

/-- The results of the socket calls made for one newcomer. -/
structure NewcomerIO where
  accept : Except OSError Peer
  /-- `wrap_socket` and its TLS handshake -/
  wrap : Except OSError Unit
  recv : Except OSError Bytes
  sendall : Except OSError Unit

/-- What one call of `add_to_conn_table` leaves behind. -/
structure Newcomer where
  state : MgmtServer
  /-- the messages handed to `sendall` -/
  sent : List PortPortMessage := []
  /-- the newcomer's socket has been closed -/
  closed : Bool := false
  /-- a thread of `relayMgmt` has been started for it -/
  started : Bool := false
  raised : Option PyError := none

namespace MgmtServer

/-- The authentication of a newcomer: the messages handed to `sendall`, and how it ends. -/
def authenticate (s : MgmtServer) (io : NewcomerIO) : List PortPortMessage × Except PyError Unit :=
  match io.recv with
  | .error e => ([], .error (.os e))
  | .ok authMsg =>
    match deserialize authMsg with
    | .error e => ([], .error e)
    | .ok (authMsg, _) =>
      if authMsg.msgType ≠ .auth then
        ([], .error (.exception "Initial message with client not auth message"))
      else if authMsg.auth ≠ s.authToken then
        ([{ msgType := .error, error := .authFailure }], match io.sendall with
          | .error e => .error (.os e)
          | .ok _ => .error (.exception "Invalid auth token"))
      else
        ([{ msgType := .authSuccess }], match io.sendall with
          | .error e => .error (.os e)
          | .ok _ => .ok ())

/-- The end of `add_to_conn_table`: the thread of the newcomer is entered and started. -/
def spinOff (s : MgmtServer) (addr : Peer) (sent : List PortPortMessage) : Newcomer :=
  { state := { s with
      connectionTable := s.connectionTable.set addr s.nthreads, nthreads := s.nthreads + 1 }
    sent, started := true }

/-- `add_to_conn_table`. -/
def addToConnTable (s : MgmtServer) (mask : Mask) (io : NewcomerIO) : Newcomer :=
  if mask.read then
    match io.accept with
    | .error e => { state := s, raised := some (.os e) }
    | .ok addr =>
      match io.wrap with
      -- `SSLWantReadError` and `SSLWantWriteError` are kinds of `SSLError`
      | .error .ssl | .error .sslWantRead | .error .sslWantWrite => { state := s, closed := true }
      | .error e => { state := s, raised := some (.os e) }
      | .ok _ =>
        if s.authBypass then s.spinOff addr [] else
        match s.authenticate io with
        | (sent, .ok _) => s.spinOff addr sent
        -- the clause names `Exception`, so that nothing escapes it
        | (sent, .error _) => { state := s, sent, closed := true }
  else { state := s }

end MgmtServer

/-- The newcomer has been told that it is authenticated, and its thread runs. -/
def Newcomer.Admitted (n : Newcomer) : Prop :=
  n.sent = [{ msgType := .authSuccess }] ∧ n.started = true

instance (n : Newcomer) : Decidable n.Admitted := inferInstanceAs (Decidable (_ ∧ _))

namespace MgmtServer
variable {s : MgmtServer} {addr : Peer} {t : String} {frame : Bytes}

/-- A newcomer whose connection works and whose first `recv` gives these bytes. -/
def newcomer (addr : Peer) (received : Bytes) : NewcomerIO where
  accept := .ok addr
  wrap := .ok ()
  recv := .ok received
  sendall := .ok ()

theorem authenticate_newcomer (s : MgmtServer) (addr : Peer)
    (hframe : ({ msgType := .auth, auth := t } : PortPortMessage).serialize = .ok frame) :
    (s.authenticate (newcomer addr frame)).2 = .ok () ↔
      (encodeUtf8 t).take t.length = encodeUtf8 s.authToken := by
  obtain ⟨hfits, rfl⟩ := (serialize_iff (m := { msgType := .auth, auth := t }) rfl).mp hframe
  have hdec := deserialize_token (encodeUtf8 t) hfits
  rw [← decodeUtf8_iff]
  unfold authenticate
  simp only [newcomer, fieldBytes]
  rw [hdec]
  cases hauth : decodeUtf8 ((encodeUtf8 t).take t.length) with
  | error e => simp [Except.map]
  | ok auth =>
    by_cases ha : auth = s.authToken
    · simp [Except.map, ha]
    · simp [Except.map, ha]

/-- Authentication ends well only behind AUTH_SUCCESS. -/
theorem authenticate_sent {io : NewcomerIO} (h : (s.authenticate io).2 = .ok ()) :
    (s.authenticate io).1 = [{ msgType := .authSuccess }] := by
  unfold authenticate at h ⊢
  split at h
  · cases h
  split at h
  · cases h
  split at h
  · cases h
  split at h
  · split at h <;> cases h
  · rename_i hm ha
    rw [if_neg hm, if_neg ha]

theorem addToConnTable_newcomer (hb : s.authBypass = false) (received : Bytes) :
    (s.addToConnTable .r (newcomer addr received)).Admitted ↔
      (s.authenticate (newcomer addr received)).2 = .ok () := by
  have hcall : s.addToConnTable .r (newcomer addr received) =
      match s.authenticate (newcomer addr received) with
      | (sent, .ok _) => s.spinOff addr sent
      | (sent, .error _) => { state := s, sent, closed := true } := by
    simp only [addToConnTable, Mask.r, newcomer, hb, if_true, Bool.false_eq_true, if_false]
  rw [hcall]
  cases hauth : s.authenticate (newcomer addr received) with
  | mk sent result =>
    cases result with
    | error e => simp [Newcomer.Admitted]
    | ok _ =>
      have hsent : sent = [{ msgType := .authSuccess }] := by
        have hsent : (s.authenticate (newcomer addr received)).1 = _ :=
          authenticate_sent (by rw [hauth])
        rwa [hauth] at hsent
      simp [Newcomer.Admitted, spinOff, hsent]

/-- **Authentication by token**: a newcomer with the token `t` is admitted exactly when `t` is the
token of the server, for exactly those `t` that are ASCII, or that differ from the server's token
where this is not what the first `len(t)` bytes of `t` encode. -/
theorem admitted_iff (hb : s.authBypass = false)
    (hframe : ({ msgType := .auth, auth := t } : PortPortMessage).serialize = .ok frame) :
    ((s.addToConnTable .r (newcomer addr frame)).Admitted ↔ t = s.authToken) ↔
      IsAscii t ∨ t ≠ s.authToken ∧ (encodeUtf8 t).take t.length ≠ encodeUtf8 s.authToken := by
  rw [addToConnTable_newcomer hb, authenticate_newcomer s addr hframe]
  by_cases ht : t = s.authToken
  · rw [← ht, take_encodeUtf8]
    simp
  · constructor
    · intro h
      exact .inr ⟨ht, fun htake => ht (h.mp htake)⟩
    · rintro (hascii | ⟨-, hne⟩)
      · rw [take_encodeUtf8.mpr hascii, encodeUtf8_inj]
      · exact iff_of_false hne ht

/-- A server with this token, and the frame of a client with the token `t`. -/
def withToken (authToken : String) : MgmtServer := { authToken }

theorem admitted_iff_ascii :
    ((withToken "secret").addToConnTable .r (newcomer (.dotted 10 0 0 1, 5000)
      (headerBytes .auth ++ (toBE 2 6 ++ encodeUtf8 "secret")))).Admitted := by
  have hascii : IsAscii "secret" := by simp [IsAscii]
  have hframe : ({ msgType := .auth, auth := "secret" } : PortPortMessage).serialize =
      .ok (headerBytes .auth ++ (toBE 2 6 ++ encodeUtf8 "secret")) :=
    (serialize_iff rfl).mpr ⟨show "secret".length < 256 ^ 2 by decide +kernel, by decide +kernel⟩
  exact ((admitted_iff (s := withToken "secret") rfl hframe).mpr (.inl hascii)).mpr rfl

/-- The right token is refused, since the frame announces one byte of its two. -/
theorem accented_refused : ¬ ∀ (s : MgmtServer) (addr : Peer) (t : String) (frame : Bytes),
    s.authBypass = false →
    ({ msgType := .auth, auth := t } : PortPortMessage).serialize = .ok frame →
    frame.length ≤ RECV_SIZE →
    ((s.addToConnTable .r (newcomer addr frame)).Admitted ↔ t = s.authToken) := by
  intro h
  have hframe : ({ msgType := .auth, auth := "é" } : PortPortMessage).serialize =
      .ok [64, 8, 1, 0, 1, 0xc3, 0xa9] :=
    (serialize_iff rfl).mpr ⟨show "é".length < 256 ^ 2 by decide +kernel, by decide +kernel⟩
  have hadmitted :=
    (h (withToken "é") (.dotted 10 0 0 1, 5000) "é" _ rfl hframe (by decide)).mpr rfl
  have hrefused : ¬ ((withToken "é").addToConnTable .r (newcomer (.dotted 10 0 0 1, 5000)
      [64, 8, 1, 0, 1, 0xc3, 0xa9])).Admitted := by
    decide +kernel
  exact hrefused hadmitted

end MgmtServer
end PortPort
