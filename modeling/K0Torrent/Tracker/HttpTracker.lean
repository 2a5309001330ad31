import K0Torrent.Bencode.Encode
import K0Torrent.Library.InetAddress
import K0Torrent.Torrent.Metainfo
import K0Torrent.Tracker.UdpTracker

/-! Announcing to an HTTP tracker (`http_tracker.hpp`, `http_tracker.cpp`, `tracker.cpp`).

The exchange with the server is given from outside. Peer addresses are read with the functions
for UDP trackers.
-/

set_option autoImplicit false

namespace K0Torrent

/-! ## Percent-encoding -/

/-- What `url_encode` uses of a `std::ostringstream`. -/
structure OStringStream where
  written : Bytes := []
  hex : Bool := false
  width : Nat := 0
  fill : UInt8 := 0x20

namespace OStringStream

/-- Formatted output fills up to the width from the left, and resets the width. -/
def put (ss : OStringStream) (text : Bytes) : OStringStream :=
  { ss with
    written := ss.written ++ (List.replicate (ss.width - text.length) ss.fill ++ text)
    width := 0 }

def putUnsigned (ss : OStringStream) (n : Nat) : OStringStream :=
  ss.put (if ss.hex then (Nat.toDigits 16 n).map fun c => UInt8.ofNat c.toNat
    else Decimal.encode n)

end OStringStream

def urlEncode (data : Bytes) : Bytes :=
  (data.foldl (fun ss byte =>
    { ss.put [QueryString.percent] with width := 2, fill := 0x30 }.putUnsigned byte.toNat)
    { hex := true : OStringStream }).written

def urlEncodeHash (h : Digest) : Bytes := urlEncode h.toList

def urlEncodePeerId (id : Digest) : Bytes := urlEncode id.toList

/-! ## The URL and the request target -/

def urlSlash : UInt8 := 0x2F

/-- `std::string::find` of a byte, from a position on. -/
def findByte (text : Bytes) (byte : UInt8) (start : Nat) : Option Nat :=
  ((text.drop start).findIdx? (· = byte)).map (start + ·)

/-- `std::string::rfind` of a byte. -/
def rfindByte (text : Bytes) (byte : UInt8) : Option Nat :=
  (text.reverse.findIdx? (· = byte)).map (text.length - 1 - ·)

/-- `std::stoi`; both of its exceptions have its name as their text. -/
def stoi (text : Bytes) : Except Thrown Int :=
  let text := text.dropWhile InetAddress.isSpace
  let digits := (if text.head? = some 0x2B then text.tail else afterSign text).takeWhile
    Decimal.isDigit
  let value : Int :=
    if text.head? = some Token.minus then -(Decimal.value digits : Int) else Decimal.value digits
  if digits.isEmpty ∨ value < -2 ^ 31 ∨ 2 ^ 31 ≤ value then .error (.standard (ascii "stoi"))
  else .ok value

structure ParsedUrl where
  scheme : Bytes
  host : Bytes
  port : Nat
  path : Bytes
  deriving DecidableEq

def parseUrl (url : Bytes) : Except Thrown ParsedUrl :=
  match find url (ascii "://") with
  | none => .error (.standard (ascii "Invalid tracker URL: " ++ url))
  | some schemeEnd =>
    let scheme := url.take schemeEnd
    let hostStart := schemeEnd + 3
    let pathStart := findByte url urlSlash hostStart
    let hostPort := match pathStart with
      | none => url.drop hostStart
      | some pathStart => substr url hostStart (pathStart - hostStart)
    let path := match pathStart with
      | none => [urlSlash]
      | some pathStart => url.drop pathStart
    match rfindByte hostPort Token.colon with
    | some colon => do
      let port ← stoi (hostPort.drop (colon + 1))
      -- `static_cast<uint16_t>`.
      return { scheme, host := hostPort.take colon, port := (port % 2 ^ 16).toNat, path }
    | none =>
      .ok { scheme, host := hostPort, port := if scheme = ascii "https" then 443 else 80, path }

def buildQuery (req : TrackerRequest) : Bytes :=
  ascii "info_hash=" ++ (urlEncodeHash req.infoHash ++ (
  ascii "&peer_id=" ++ (urlEncodePeerId req.peerId ++ (
  ascii "&port=" ++ (Decimal.encode req.port ++ (
  ascii "&uploaded=" ++ (encodeInt req.uploaded ++ (
  ascii "&downloaded=" ++ (encodeInt req.downloaded ++ (
  ascii "&left=" ++ (encodeInt req.left ++ (
  ascii "&compact=" ++ (Decimal.encode (if req.compact then 1 else 0) ++ (
  ascii "&numwant=" ++ (encodeInt req.numWant ++
  match req.event with
  | .started => ascii "&event=started"
  | .stopped => ascii "&event=stopped"
  | .completed => ascii "&event=completed"
  | .none => [])))))))))))))))

/-- The host, the port and the request target of an announce. -/
def requestTarget (url : Bytes) (req : TrackerRequest) : Except Thrown (Bytes × Nat × Bytes) := do
  let parsed ← parseUrl url
  return (parsed.host, parsed.port, parsed.path ++ (ascii "?" ++ buildQuery req))

/-! ## Responses -/

inductive ResponseError where
  | bencode (e : DecodeError)
  | failure (reason : Bytes)
  | compactLength
  | dictPeers
  -- What `std::get` throws outside of every `try`.
  | badVariantAccess
  deriving DecidableEq

def ResponseError.what : ResponseError → Bytes
  | bencode e => ascii ("Bencode parse error in tracker response: " ++ e.what)
  | failure reason => ascii "Tracker failure: " ++ reason
  | compactLength => ascii "Compact peer list has invalid length"
  | dictPeers => ascii "Failed to parse dict peer list"
  | badVariantAccess => ascii "std::get: wrong index for variant"

/-- `static_cast<int32_t>` of an `int64_t`. -/
def narrowI32 (z : Int) : Int := castI32 (castU32 z)

/-- `static_cast<uint16_t>` of an `int64_t`. -/
def narrowU16 (z : Int) : Nat := (z % 2 ^ 16).toNat

def peerAt (raw : Bytes) (i : Nat) : PeerAddress :=
  ⟨UdpTracker.readIp raw (i * 6), UdpTracker.readPort raw (i * 6 + 4)⟩

def parseCompactPeers (raw : Bytes) : Outcome ResponseError (List PeerAddress) :=
  if raw.length % 6 ≠ 0 then .thrown .compactLength
  else .value ((List.range (raw.length / 6)).map (peerAt raw))

/-- `inet_aton`, with the address as the copied `uint32_t`. -/
def inetAton (text : Bytes) : Option Nat :=
  (InetAddress.ofText text).map fun octets => UdpTracker.readIp octets 0

/-- An entry of the list; one whose address is not understood is left out. -/
def readDictPeer (entry : BencodeValue) : Parsed (Option PeerAddress) := do
  let d ← entry.asDict
  let ip ← (← dictAt d (ascii "ip")).asString
  let port ← (← dictAt d (ascii "port")).asInt
  return (inetAton ip).map fun ip => ⟨ip, narrowU16 port⟩

/-- Any exception is replaced by one and the same. -/
def parseDictPeers (peers : BencodeValue) : Outcome ResponseError (List PeerAddress) :=
  match (do mapAll readDictPeer (← peers.asList) : Parsed (List (Option PeerAddress))) with
  | .value found => .value (found.filterMap id)
  | .thrown _ => .thrown .dictPeers
  | .unfinished => .unfinished

def readPeers (peers : BencodeValue) : Outcome ResponseError (List PeerAddress) :=
  match peers with
  | .string raw => parseCompactPeers raw
  | .list _ => parseDictPeers peers
  | _ => .value []

/-- Outside of the `try` blocks only `std::get` can throw. -/
def unguarded {A : Type} : Parsed A → Outcome ResponseError A
  | .value a => .value a
  | .thrown _ => .thrown .badVariantAccess
  | .unfinished => .unfinished

def readNumber (d : List (Bytes × BencodeValue)) (key : Bytes) (absent : Int) :
    Outcome ResponseError Int :=
  unguarded (optional d key (fun val => do return narrowI32 (← val.asInt)) absent)

/-- The part of `parse_response` that reads the decoded dictionary. -/
def readReply (d : List (Bytes × BencodeValue)) : Outcome ResponseError TrackerResponse :=
  match d.lookup (ascii "failure reason") with
  | some reason => do .thrown (.failure (← unguarded reason.asString))
  | none => do
    let interval ← readNumber d (ascii "interval") 1800
    let minInterval ← readNumber d (ascii "min interval") 0
    let complete ← readNumber d (ascii "complete") 0
    let incomplete ← readNumber d (ascii "incomplete") 0
    let warning ← unguarded (optional d (ascii "warning message") BencodeValue.asString [])
    let peers ← match d.lookup (ascii "peers") with
      | some peers => readPeers peers
      | none => .value []
    return { interval, minInterval, complete, incomplete, warning, peers }

def parseResponse (body : Bytes) (fuel : Nat) : Outcome ResponseError TrackerResponse :=
  match decode body fuel 0 with
  | .value (root, _) => do readReply (← unguarded root.asDict)
  | .thrown e => .thrown (.bencode e)
  | .unfinished => .unfinished

/-! ## The exchange -/

/-- `http_get`, with what becomes of a request to a host and port: an exception, or all the bytes
that the server sends. -/
def httpGet (exchange : Bytes → Nat → Bytes → Except Thrown Bytes) (host : Bytes) (port : Nat)
    (path : Bytes) : Except Thrown Bytes := do
  let response ← exchange host port
    (ascii "GET " ++ path ++ ascii " HTTP/1.0\r\n" ++ ascii "Host: " ++ host ++ ascii "\r\n" ++
      ascii "Connection: close\r\n" ++ ascii "User-Agent: K0-0Torrent/0.1\r\n" ++ ascii "\r\n")
  match find response (ascii "\r\n\r\n") with
  | some bodyStart => return response.drop (bodyStart + 4)
  | none => .error (.standard (ascii "Malformed HTTP response (no header end)"))

def HttpTracker.announce (exchange : Bytes → Nat → Bytes → Except Thrown Bytes) (fuel : Nat)
    (url : Bytes) (req : TrackerRequest) : Outcome Thrown TrackerResponse :=
  match (do
    let (host, port, target) ← requestTarget url req
    httpGet exchange host port target) with
  | .error thrown => .thrown thrown
  | .ok body =>
    match parseResponse body fuel with
    | .value response => .value response
    | .thrown e => .thrown (.standard e.what)
    | .unfinished => .unfinished

end K0Torrent
