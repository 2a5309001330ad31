import K0Torrent.Peer.Network

/-! Sockets and the descriptors they hold (`tcp_socket.cpp`, `udp_socket.cpp`).

What the system calls come to is given from outside, an error by the text that `strerror` has
for it. A descriptor that `socket` returns is not in use. What the sockets send and receive does
not concern their descriptors and is left out.
-/

set_option autoImplicit false

namespace K0Torrent

/-- The descriptors of the process that are open, how many calls of `close` have named one that
was not, and how many lists of `getaddrinfo` have not been freed. -/
structure Descriptors where
  opened : Finset Int
  misused : Nat := 0
  addrinfos : Int := 0

namespace Descriptors

/-- A `socket` that returns this descriptor. -/
def socket (fds : Descriptors) (fd : Int) : Option Descriptors :=
  if 0 ≤ fd ∧ fd ∉ fds.opened then some { fds with opened := insert fd fds.opened } else none

def close (fds : Descriptors) (fd : Int) : Descriptors :=
  if fd ∈ fds.opened then { fds with opened := fds.opened.erase fd }
  else { fds with misused := fds.misused + 1 }

def getaddrinfo (fds : Descriptors) : Descriptors := { fds with addrinfos := fds.addrinfos + 1 }

def freeaddrinfo (fds : Descriptors) : Descriptors := { fds with addrinfos := fds.addrinfos - 1 }

/-- `if (fd_ != -1) ::close(fd_)`. -/
def release (fds : Descriptors) (fd : Int) : Descriptors := if fd ≠ -1 then fds.close fd else fds

/-- One more descriptor is open, which was not. -/
structure Opens (before : Descriptors) (fd : Int) (after : Descriptors) : Prop where
  valid : 0 ≤ fd
  fresh : fd ∉ before.opened
  after : after = { before with opened := insert fd before.opened }

section
variable {fds after : Descriptors} {fd : Int}

theorem socket_eq_some : fds.socket fd = some after ↔ fds.Opens fd after := by
  unfold socket
  constructor
  · intro opened
    split at opened
    · rename_i free
      exact ⟨free.1, free.2, (Option.some.inj opened).symm⟩
    · cases opened
  · rintro ⟨valid, fresh, rfl⟩
    exact if_pos ⟨valid, fresh⟩

@[simp] theorem freeaddrinfo_getaddrinfo (fds : Descriptors) : fds.getaddrinfo.freeaddrinfo = fds := by
  simp [getaddrinfo, freeaddrinfo]

theorem Opens.ne (opens : fds.Opens fd after) : fd ≠ -1 := by
  have valid := opens.valid
  omega

theorem Opens.close (opens : fds.Opens fd after) : after.close fd = fds := by
  obtain ⟨-, fresh, rfl⟩ := opens
  unfold Descriptors.close
  rw [if_pos (Finset.mem_insert_self fd fds.opened)]
  simp only [Finset.erase_insert fresh]

theorem Opens.freeaddrinfo (opens : fds.getaddrinfo.Opens fd after) :
    fds.Opens fd after.freeaddrinfo := by
  obtain ⟨valid, fresh, rfl⟩ := opens
  exact ⟨valid, fresh, by simp [Descriptors.freeaddrinfo, Descriptors.getaddrinfo]⟩

end

end Descriptors

/-- `NetError`. -/
def netError (msg : Bytes) : Thrown := .standard (ascii "net: " ++ msg)

def errnoMsg (ctx : String) (error : Bytes) : Bytes := ascii ctx ++ ascii ": " ++ error

/-! ## `TcpSocket` -/

namespace TcpSocket

/-- What the calls for one address come to: whether there is a socket, and whether `connect`
succeeds or is under way. -/
structure Attempt where
  socket : Option Int
  connects : Bool

/-- The loop of `connect` over the addresses. -/
def tryAddresses : List Attempt → Descriptors → Option (Int × Descriptors)
  | [], fds => some (-1, fds)
  | attempt :: rest, fds =>
    match attempt.socket with
    | none => tryAddresses rest fds
    | some sock =>
      match fds.socket sock with
      | none => none
      | some fds => if attempt.connects then some (sock, fds) else tryAddresses rest (fds.close sock)

/-- `connect` of a socket with the descriptor `fd_`, which it returns. -/
def connect (fd : Int) (host : Bytes) (port : Nat) (resolved : Except ResolverError (List Attempt))
    (fds : Descriptors) : Option (Except ConnectError Int × Descriptors) :=
  if fd ≠ -1 then some (.error .alreadyOpen, fds)
  else
    match resolved with
    | .error reason => some (.error (.unresolved host reason), fds)
    | .ok attempts =>
      match tryAddresses attempts fds.getaddrinfo with
      | none => none
      | some (sock, fds) =>
        let fds := fds.freeaddrinfo
        some (if sock = -1 then .error (.refused host port) else .ok sock, fds)

end TcpSocket

/-! ## `UdpSocket` -/

namespace UdpSocket

/-- What `resolve` throws. -/
def unresolved (host : Bytes) (reason : ResolverError) : Thrown :=
  .standard (ConnectError.unresolved host reason).what

/-- A call, with what it throws and the descriptor it leaves in the socket. -/
abbrev Called := Option Thrown × Int × Descriptors

/-- The `socket` at the start of `bind` and of `connect`, and the rest of the call. -/
def afterSocket (socket : Except Bytes Int) (fds : Descriptors)
    (rest : Int → Descriptors → Called) : Option Called :=
  match socket with
  | .error error => some (some (netError (errnoMsg "socket" error)), -1, fds)
  | .ok fd => (fds.socket fd).map (rest fd)

/-- `bind`, with what `socket` and `::bind` come to. -/
def bind (fd : Int) (socket : Except Bytes Int) (bound : Except Bytes Unit) (fds : Descriptors) :
    Option Called :=
  if fd ≠ -1 then some (some (netError (ascii "bind: socket already open")), fd, fds)
  else
    afterSocket socket fds fun fd fds =>
      match bound with
      | .error error => (some (netError (errnoMsg "bind" error)), -1, fds.close fd)
      | .ok () => (none, fd, fds)

/-- `connect` from the address on. -/
def connectTo (host : Bytes) (resolved : Except ResolverError (Except Bytes Unit)) (fd : Int)
    (fds : Descriptors) : Called :=
  match resolved with
  | .error reason => (some (unresolved host reason), fd, fds)
  | .ok connected =>
    let fds := fds.getaddrinfo.freeaddrinfo
    match connected with
    | .error error => (some (netError (errnoMsg "connect" error)), fd, fds)
    | .ok () => (none, fd, fds)

/-- A socket that has no descriptor gets one, and keeps it when the rest fails. -/
def connect (fd : Int) (socket : Except Bytes Int) (host : Bytes)
    (resolved : Except ResolverError (Except Bytes Unit)) (fds : Descriptors) : Option Called :=
  if fd = -1 then afterSocket socket fds (connectTo host resolved)
  else some (connectTo host resolved fd fds)

/-- `send_to`, with the number of bytes that `sendto` takes. -/
def sendTo (fd : Int) (data host : Bytes) (resolved : Except ResolverError (Except Bytes Nat))
    (fds : Descriptors) : Option Thrown × Descriptors :=
  if fd = -1 then (some (netError (ascii "send_to on closed socket")), fds)
  else
    match resolved with
    | .error reason => (some (unresolved host reason), fds)
    | .ok sent =>
      let fds := fds.getaddrinfo.freeaddrinfo
      match sent with
      | .error error => (some (netError (errnoMsg "sendto" error)), fds)
      | .ok count =>
        if count ≠ data.length then (some (netError (ascii "sendto: partial datagram sent")), fds)
        else (none, fds)

end UdpSocket

/-! ## What the calls do to the descriptors -/

/-- A call leaves the descriptor of a socket alone, gives it one, or takes it away. -/
inductive Changes : Int → Descriptors → Int → Descriptors → Prop where
  | kept (fd : Int) (fds : Descriptors) : Changes fd fds fd fds
  | took {fds after : Descriptors} {fd : Int} (opens : fds.Opens fd after) : Changes (-1) fds fd after
  | gave {fds : Descriptors} {fd : Int} (valid : fd ≠ -1) : Changes fd fds (-1) (fds.close fd)

theorem changes_release (fd : Int) (fds : Descriptors) : Changes fd fds (-1) (fds.release fd) := by
  unfold Descriptors.release
  split
  · rename_i valid
    exact .gave valid
  · rename_i none_
    rw [not_not.mp none_]
    exact .kept (-1) fds

namespace TcpSocket

/-- What the loop leaves open is what it returns. -/
theorem tryAddresses_opens {attempts : List Attempt} {fds after : Descriptors} {sock : Int}
    (tried : tryAddresses attempts fds = some (sock, after)) :
    sock = -1 ∧ after = fds ∨ fds.Opens sock after := by
  induction attempts generalizing fds with
  | nil =>
    cases tried
    exact .inl ⟨rfl, rfl⟩
  | cons attempt rest ih =>
    rw [tryAddresses] at tried
    split at tried
    · exact ih tried
    · rename_i fd _
      split at tried
      · cases tried
      · rename_i opened taken
        have opens := Descriptors.socket_eq_some.mp taken
        split at tried
        · cases tried
          exact .inr opens
        · rw [opens.close] at tried
          exact ih tried

/-- Nothing is left open by a call that throws, and the socket is by one that returns. -/
def Settles (fd : Int) (fds : Descriptors) : Except ConnectError Int → Descriptors → Prop
  | .error _, after => after = fds
  | .ok sock, after => fd = -1 ∧ fds.Opens sock after

/-- `connect` as connections know it, and the descriptor that is open then. -/
theorem connect_refines {fd : Int} {host : Bytes} {port : Nat}
    {resolved : Except ResolverError (List Attempt)} {fds after : Descriptors}
    {result : Except ConnectError Int}
    (connected : connect fd host port resolved fds = some (result, after)) :
    Settles fd fds result after ∧ ∃ outcome, result = connectSocket fd host port outcome := by
  unfold connect at connected
  unfold connectSocket
  by_cases free : fd = -1
  · simp only [if_neg (not_not_intro free)] at connected ⊢
    cases resolved with
    | error reason =>
      cases connected
      exact ⟨rfl, .unresolved reason, rfl⟩
    | ok attempts =>
      simp only at connected
      split at connected
      · cases connected
      · rename_i sock tried opened
        cases connected
        rcases tryAddresses_opens opened with ⟨rfl, rfl⟩ | opens
        · exact ⟨Descriptors.freeaddrinfo_getaddrinfo fds, .refused, rfl⟩
        · rw [if_neg opens.ne]
          exact ⟨⟨free, opens.freeaddrinfo⟩, .opened sock, rfl⟩
  · simp only [if_pos (show fd ≠ -1 from free)] at connected ⊢
    cases connected
    exact ⟨rfl, .refused, rfl⟩

end TcpSocket

namespace UdpSocket

theorem changes_afterSocket {socket : Except Bytes Int} {fds after : Descriptors}
    {rest : Int → Descriptors → Called} {thrown : Option Thrown} {fd : Int}
    (called : afterSocket socket fds rest = some (thrown, fd, after))
    (changes : ∀ {sock opened}, fds.Opens sock opened →
      Changes (-1) fds (rest sock opened).2.1 (rest sock opened).2.2) : Changes (-1) fds fd after := by
  unfold afterSocket at called
  split at called
  · cases called
    exact .kept (-1) fds
  · obtain ⟨opened, taken, same⟩ := Option.map_eq_some_iff.mp called
    have done := changes (Descriptors.socket_eq_some.mp taken)
    rwa [same] at done

theorem changes_bind {fd : Int} {socket : Except Bytes Int} {bound : Except Bytes Unit}
    {fds after : Descriptors} {thrown : Option Thrown} {next : Int}
    (called : bind fd socket bound fds = some (thrown, next, after)) :
    Changes fd fds next after := by
  unfold bind at called
  split at called
  · cases called
    exact .kept fd fds
  · rename_i free
    rw [not_not.mp free]
    refine changes_afterSocket called fun opens => ?_
    cases bound with
    | error error =>
      dsimp only
      rw [opens.close]
      exact .kept (-1) fds
    | ok => exact .took opens

theorem connectTo_descriptors (host : Bytes) (resolved : Except ResolverError (Except Bytes Unit))
    (fd : Int) (fds : Descriptors) : (connectTo host resolved fd fds).2 = (fd, fds) := by
  unfold connectTo
  rcases resolved with reason | _ | _
  · rfl
  · simp
  · simp

theorem changes_connect {fd : Int} {socket : Except Bytes Int} {host : Bytes}
    {resolved : Except ResolverError (Except Bytes Unit)} {fds after : Descriptors}
    {thrown : Option Thrown} {next : Int}
    (called : connect fd socket host resolved fds = some (thrown, next, after)) :
    Changes fd fds next after := by
  unfold connect at called
  split at called
  · rename_i free
    rw [free]
    refine changes_afterSocket called fun opens => ?_
    rw [connectTo_descriptors]
    exact .took opens
  · have same := connectTo_descriptors host resolved fd fds
    rw [Option.some.inj called] at same
    cases same
    exact .kept fd fds

theorem sendTo_descriptors (fd : Int) (data host : Bytes)
    (resolved : Except ResolverError (Except Bytes Nat)) (fds : Descriptors) :
    (sendTo fd data host resolved fds).2 = fds := by
  unfold sendTo
  split
  · rfl
  · rcases resolved with reason | _ | count
    · rfl
    · simp
    · dsimp only
      split <;> simp

end UdpSocket

end K0Torrent
