import K0Torrent.Library.Splitting
import K0Torrent.Torrent.InfoHash
import K0Torrent.Tracker.HttpTracker

/-! The URL of a UDP tracker, as its constructor reads it (`udp_tracker.cpp`). -/

set_option autoImplicit false

namespace K0Torrent

open Splitting

namespace UdpTracker

/-- The constructor: the host and the port. -/
def new (url : Bytes) : Except Thrown (Bytes × Nat) :=
  match find url (ascii "://") with
  | none => .error (.standard (ascii "Invalid UDP tracker URL: " ++ url))
  | some sep =>
    let hostStart := sep + 3
    let hostPort := match findByte url urlSlash hostStart with
      | none => url.drop hostStart
      | some slash => substr url hostStart (slash - hostStart)
    match rfindByte hostPort Token.colon with
    | none => .error (.standard (ascii "UDP tracker URL missing port: " ++ url))
    | some colon => do
      let port ← stoi (hostPort.drop (colon + 1))
      -- `static_cast<uint16_t>`.
      return (hostPort.take colon, (port % 2 ^ 16).toNat)

/-- The URL in its parts: what comes before the first `://`, and from there on the host and the
digits of the port, around the last colon before a slash. -/
structure Reads (url scheme host digits back : Bytes) : Prop where
  text : url = scheme ++ (ascii "://" ++ (host ++ Token.colon :: digits ++ back))
  first : ∀ i < scheme.length, ¬ ascii "://" <+: url.drop i
  host : urlSlash ∉ host
  digits : urlSlash ∉ digits ∧ Token.colon ∉ digits
  back : back = [] ∨ back.head? = some urlSlash

/-- What is read as the host and the port: everything up to a slash. -/
theorem hostPort_eq (url : Bytes) (start : Nat) :
    (match findByte url urlSlash start with
      | none => url.drop start
      | some slash => substr url start (slash - start)) =
      (url.drop start).takeWhile (· ≠ urlSlash) := by
  symm
  rw [takeWhile_eq_iff, findByte]
  cases found : (url.drop start).findIdx? (· = urlSlash) with
  | none =>
    exact ⟨findIdx?_eq_none_iff.mp found, [], (List.append_nil _).symm, .inl rfl⟩
  | some i =>
    obtain ⟨front, back, split, absent, rfl⟩ := findIdx?_eq_some_iff.mp found
    have same : substr url start (start + front.length - start) = front := by
      rw [substr, split, Nat.add_sub_cancel_left, List.take_left]
    simp only [Option.map_some, same]
    exact ⟨absent, _, split, .inr rfl⟩

theorem find_of_reads {url scheme host digits back : Bytes}
    (reads : Reads url scheme host digits back) : find url (ascii "://") = some scheme.length := by
  refine find_eq_some_iff.mpr ⟨?_, ?_, reads.first⟩
  · rw [reads.text, List.length_append]
    exact Nat.le_add_right ..
  · rw [reads.text, List.drop_left]
    exact List.prefix_append ..

theorem drop_of_reads {url scheme host digits back : Bytes}
    (reads : Reads url scheme host digits back) :
    url.drop (scheme.length + 3) = host ++ Token.colon :: digits ++ back := by
  rw [reads.text, ← List.drop_drop, List.drop_left]
  rfl

/-- What the constructor does with the host and the port. -/
def readHostPort (url hostPort : Bytes) : Except Thrown (Bytes × Nat) :=
  match rfindByte hostPort Token.colon with
  | none => .error (.standard (ascii "UDP tracker URL missing port: " ++ url))
  | some colon => do
    let port ← stoi (hostPort.drop (colon + 1))
    return (hostPort.take colon, (port % 2 ^ 16).toNat)

theorem new_of_find {url : Bytes} {sep : Nat} (found : find url (ascii "://") = some sep) :
    new url = readHostPort url ((url.drop (sep + 3)).takeWhile (· ≠ urlSlash)) := by
  rw [new, found, ← hostPort_eq]
  rfl

theorem drop_colon (front back : Bytes) :
    (front ++ Token.colon :: back).drop (front.length + 1) = back := by
  rw [← List.drop_drop, List.drop_left]
  rfl

theorem readHostPort_ok_iff {url hostPort host : Bytes} {port : Nat} :
    readHostPort url hostPort = .ok (host, port) ↔ ∃ digits n,
      hostPort = host ++ Token.colon :: digits ∧ Token.colon ∉ digits ∧ stoi digits = .ok n ∧
        port = (n % 2 ^ 16).toNat := by
  constructor
  · intro read
    cases last : rfindByte hostPort Token.colon with
    | none =>
      rw [readHostPort, last] at read
      cases read
    | some colon =>
      obtain ⟨front, digits, split, free, rfl⟩ := findIdx?_reverse_iff.mp last
      rw [readHostPort, last] at read
      simp only [split, drop_colon, List.take_left] at read
      cases number : stoi digits with
      | error thrown =>
        rw [number] at read
        cases read
      | ok n =>
        rw [number] at read
        cases read
        exact ⟨digits, n, split, free, number, rfl⟩
  · rintro ⟨digits, n, rfl, free, number, rfl⟩
    have last : rfindByte (host ++ Token.colon :: digits) Token.colon = some host.length :=
      findIdx?_reverse_iff.mpr ⟨host, digits, rfl, free, rfl⟩
    rw [readHostPort, last]
    simp only [drop_colon, List.take_left, number]
    rfl

theorem new_ok_iff {url host : Bytes} {port : Nat} : new url = .ok (host, port) ↔
    ∃ scheme digits back n, Reads url scheme host digits back ∧ stoi digits = .ok n ∧
      port = (n % 2 ^ 16).toNat := by
  constructor
  · intro accepted
    cases found : find url (ascii "://") with
    | none =>
      rw [new, found] at accepted
      cases accepted
    | some sep =>
      rw [new_of_find found] at accepted
      obtain ⟨digits, n, hostPort, free, read, rfl⟩ := readHostPort_ok_iff.mp accepted
      obtain ⟨slash, back, rest, start⟩ := takeWhile_eq_iff.mp hostPort
      obtain ⟨bound, ⟨rest', here⟩, first⟩ := find_eq_some_iff.mp found
      have length : (url.take sep).length = sep := List.length_take_of_le bound
      have same : rest' = url.drop (sep + 3) := by
        rw [← List.drop_drop, ← here]
        rfl
      rw [List.mem_append, List.mem_cons, not_or, not_or] at slash
      refine ⟨url.take sep, digits, back, n, ⟨?_, ?_, slash.1, ⟨slash.2.2, free⟩, start⟩, read, rfl⟩
      · rw [← rest, ← same, here, List.take_append_drop]
      · rwa [length]
  · rintro ⟨scheme, digits, back, n, reads, read, rfl⟩
    rw [new_of_find (find_of_reads reads), drop_of_reads reads]
    refine readHostPort_ok_iff.mpr ⟨digits, n, ?_, reads.digits.2, read, rfl⟩
    refine takeWhile_append ?_ reads.back
    rw [List.mem_append, List.mem_cons, not_or, not_or]
    exact ⟨reads.host, by decide, reads.digits.1⟩

/-- The host and the port in the URL. -/
def authority (url : Bytes) : Bytes :=
  (url.drop ((find url (ascii "://")).getD url.length + 3)).takeWhile (· ≠ urlSlash)

/-- What `parse_url` does with them. -/
def readUrl (scheme hostPort path : Bytes) : Except Thrown ParsedUrl :=
  match rfindByte hostPort Token.colon with
  | some colon => do
    let port ← stoi (hostPort.drop (colon + 1))
    return { scheme, host := hostPort.take colon, port := (port % 2 ^ 16).toNat, path }
  | none =>
    .ok { scheme, host := hostPort, port := if scheme = ascii "https" then 443 else 80, path }

theorem parseUrl_of_find {url : Bytes} {sep : Nat} (found : find url (ascii "://") = some sep) :
    ∃ path, parseUrl url = readUrl (url.take sep)
      ((url.drop (sep + 3)).takeWhile (· ≠ urlSlash)) path := by
  rw [parseUrl, found, ← hostPort_eq]
  exact ⟨_, rfl⟩

theorem readUrl_ok_iff {url scheme hostPort path host : Bytes} {port : Nat} :
    readHostPort url hostPort = .ok (host, port) ↔ Token.colon ∈ hostPort ∧
      ∃ parsed, readUrl scheme hostPort path = .ok parsed ∧ parsed.host = host ∧
        parsed.port = port := by
  unfold readHostPort readUrl
  cases last : rfindByte hostPort Token.colon with
  | none =>
    have absent : Token.colon ∉ hostPort := by
      have none_ := Option.map_eq_none_iff.mp last
      rwa [findIdx?_eq_none_iff, List.mem_reverse] at none_
    exact iff_of_false nofun fun colon => absent colon.1
  | some colon =>
    obtain ⟨front, back, rfl, -, rfl⟩ := findIdx?_reverse_iff.mp last
    have member : Token.colon ∈ front ++ Token.colon :: back := by simp
    simp only [drop_colon, List.take_left]
    cases number : stoi back with
    | error thrown => simp [Bind.bind, Except.bind]
    | ok n => simp [Bind.bind, Except.bind, Pure.pure, Except.pure]

/-- The constructor accepts just the URLs in which a number that `std::stoi` can read follows the
last colon of what stands between the first `://` and the next slash. Those are the URLs with a
colon there that an HTTP tracker accepts, and both read the same. -/
theorem new_eq_ok_iff (url host : Bytes) (port : Nat) :
    (new url = .ok (host, port) ↔ ∃ scheme digits back n, Reads url scheme host digits back ∧
      stoi digits = .ok n ∧ port = (n % 2 ^ 16).toNat) ∧
    (new url = .ok (host, port) ↔ Token.colon ∈ authority url ∧
      ∃ parsed, parseUrl url = .ok parsed ∧ parsed.host = host ∧ parsed.port = port) := by
  refine ⟨new_ok_iff, ?_⟩
  cases found : find url (ascii "://") with
  | none =>
    refine iff_of_false (fun accepted => ?_) fun read => ?_
    · rw [new, found] at accepted
      cases accepted
    · obtain ⟨-, parsed, accepted, -⟩ := read
      rw [parseUrl, found] at accepted
      cases accepted
  | some sep =>
    obtain ⟨path, same⟩ := parseUrl_of_find found
    rw [new_of_find found, same, authority, found, Option.getD_some]
    exact readUrl_ok_iff

example : new (ascii "udp://[::1]:06969/announce") = .ok (ascii "[::1]", 6969) := by decide +kernel

-- The port is cut down to 16 bits.
example : new (ascii "udp://a:70000") = .ok (ascii "a", 4464) := by decide +kernel

end UdpTracker

end K0Torrent
