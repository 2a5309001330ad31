import K0Torrent.Net.Sockets
import K0Torrent.Tracker.HttpTracker

/-! The sockets of the trackers (`http_tracker.cpp`, `udp_tracker.cpp`).

`http_get` and `UdpTracker::announce` with the system calls they make, beside the models that
take the exchange from outside. Each of them closes what it has opened, however it ends.
-/

set_option autoImplicit false

namespace K0Torrent

/-- The first calls of both: what `getaddrinfo`, `socket` and `connect` come to. -/
structure Dialling where
  unresolved : Option ResolverError
  socket : Option Int
  connects : Bool

/-- What is opened, unless one of the calls fails. The address list is freed in either case. -/
def dial (dialling : Dialling) (refused host : Bytes) (fds : Descriptors) :
    Option (Except Thrown Int × Descriptors) :=
  match dialling.unresolved with
  | some reason =>
    some (.error (.standard (ascii "DNS failed for " ++ host ++ ascii ": " ++ reason.text)), fds)
  | none =>
    match dialling.socket with
    | none =>
      some (.error (.standard (ascii "socket() failed")), fds.getaddrinfo.freeaddrinfo)
    | some fd =>
      match fds.getaddrinfo.socket fd with
      | none => none
      | some fds =>
        if ¬ dialling.connects then
          some (.error (.standard (refused ++ host)), fds.freeaddrinfo.close fd)
        else some (.ok fd, fds.freeaddrinfo)

namespace HttpTracker

/-- What the system calls of `http_get` come to. `received` is what the calls of `recv` return,
nothing standing for the end of the stream and for a failure. -/
structure Calls extends Dialling where
  sends : Bool
  received : List Bytes

/-- The loop over `recv`. -/
def receiveAll : List Bytes → Bytes → Bytes
  | [], response => response
  | buf :: rest, response => if buf = [] then response else receiveAll rest (response ++ buf)

/-- From the response on. -/
def bodyOf (response : Bytes) : Except Thrown Bytes :=
  match find response (ascii "\r\n\r\n") with
  | some bodyStart => .ok (response.drop (bodyStart + 4))
  | none => .error (.standard (ascii "Malformed HTTP response (no header end)"))

def httpGetCalls (calls : Calls) (host : Bytes) (fds : Descriptors) :
    Option (Except Thrown Bytes × Descriptors) :=
  match dial calls.toDialling (ascii "connect() failed to ") host fds with
  | none => none
  | some (.error thrown, fds) => some (.error thrown, fds)
  | some (.ok fd, fds) =>
    if ¬ calls.sends then some (.error (.standard (ascii "send() failed")), fds.close fd)
    else
      let response := receiveAll calls.received []
      let fds := fds.close fd
      some (bodyOf response, fds)

end HttpTracker

namespace UdpTracker

def connectUdp (dialling : Dialling) (host : Bytes) (fds : Descriptors) :
    Option (Except Thrown Int × Descriptors) :=
  dial dialling (ascii "UDP connect() failed to ") host fds

/-- `announce`. The datagrams and the random numbers are those of the exchange. -/
def announceCalls (key : UInt32) (dialling : Dialling) (host : Bytes) (exchange : Exchange)
    (req : TrackerRequest) (fds : Descriptors) :
    Option (Except Thrown TrackerResponse × Descriptors) :=
  match connectUdp dialling host fds with
  | none => none
  | some (.error thrown, fds) => some (.error thrown, fds)
  | some (.ok fd, fds) =>
    match doConnect exchange.connectTxn exchange.connecting {} with
    | (.error thrown, _) => some (.error thrown, fds.close fd)
    | (.ok connectionId, socket) =>
      some ((doAnnounce key connectionId exchange.announceTxn req exchange.announcing socket).1,
        fds.close fd)

end UdpTracker

/-! ## Nothing is left open -/

/-- What is open behind the first calls. -/
theorem dial_cases {dialling : Dialling} {refused host : Bytes} {fds after : Descriptors}
    {result : Except Thrown Int} (dialled : dial dialling refused host fds = some (result, after)) :
    (∃ thrown, result = .error thrown ∧ after = fds) ∨
      ∃ fd, result = .ok fd ∧ fds.Opens fd after := by
  unfold dial at dialled
  split at dialled
  · cases dialled
    exact .inl ⟨_, rfl, rfl⟩
  · split at dialled
    · cases dialled
      exact .inl ⟨_, rfl, Descriptors.freeaddrinfo_getaddrinfo fds⟩
    · rename_i fd _
      split at dialled
      · cases dialled
      · rename_i opened taken
        have opens := (Descriptors.socket_eq_some.mp taken).freeaddrinfo
        split at dialled
        · cases dialled
          exact .inl ⟨_, rfl, opens.close⟩
        · cases dialled
          exact .inr ⟨fd, rfl, opens⟩

namespace HttpTracker

theorem receiveAll_eq (received : List Bytes) (response : Bytes) :
    receiveAll received response = response ++ (received.takeWhile (· ≠ [])).flatten := by
  induction received generalizing response with
  | nil => exact (List.append_nil _).symm
  | cons buf rest ih =>
    rw [receiveAll]
    by_cases last : buf = []
    · simp [last]
    · simp [last, ih]

/-- `http_get` as announces know it, on an exchange that gives what `recv` has returned. It
leaves no descriptor and no address list behind. -/
theorem httpGetCalls_eq {calls : Calls} {host : Bytes} {fds after : Descriptors}
    {result : Except Thrown Bytes}
    (got : httpGetCalls calls host fds = some (result, after)) :
    after = fds ∧ ∃ exchanged, (∀ port path, result = httpGet (fun _ _ _ => exchanged) host port path) ∧
      ∀ response, exchanged = .ok response →
        response = (calls.received.takeWhile (· ≠ [])).flatten := by
  unfold httpGetCalls at got
  split at got
  · cases got
  · rename_i thrown fds' dialled
    cases got
    rcases dial_cases dialled with ⟨_, same, rfl⟩ | ⟨_, same, -⟩
    · exact ⟨rfl, .error thrown, fun _ _ => rfl, nofun⟩
    · cases same
  · rename_i fd opened dialled
    rcases dial_cases dialled with ⟨_, same, -⟩ | ⟨_, same, opens⟩
    · cases same
    · cases same
      split at got
      · cases got
        exact ⟨opens.close, .error _, fun _ _ => rfl, nofun⟩
      · cases got
        refine ⟨opens.close, .ok (receiveAll calls.received []), fun _ _ => rfl, ?_⟩
        rintro _ same
        cases same
        exact receiveAll_eq calls.received []

end HttpTracker

namespace UdpTracker

/-- `announce` as announces know it. It leaves no descriptor and no address list behind. -/
theorem announceCalls_eq {key : UInt32} {dialling : Dialling} {host : Bytes} {exchange : Exchange}
    {req : TrackerRequest} {fds after : Descriptors} {result : Except Thrown TrackerResponse}
    (announced : announceCalls key dialling host exchange req fds = some (result, after)) :
    after = fds ∧ ∃ opening, result = announce key { exchange with opening } req := by
  unfold announceCalls at announced
  split at announced
  · cases announced
  · rename_i thrown fds' dialled
    cases announced
    rcases dial_cases dialled with ⟨_, same, rfl⟩ | ⟨_, same, -⟩
    · exact ⟨rfl, some thrown, rfl⟩
    · cases same
  · rename_i fd opened dialled
    rcases dial_cases dialled with ⟨_, same, -⟩ | ⟨_, same, opens⟩
    · cases same
    · cases same
      split at announced
      · rename_i thrown socket connected
        cases announced
        refine ⟨opens.close, none, ?_⟩
        simp only [announce, connected]
      · rename_i connectionId socket connected
        cases announced
        refine ⟨opens.close, none, ?_⟩
        simp only [announce, connected]

end UdpTracker

end K0Torrent
