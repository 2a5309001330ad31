import K0Torrent.Library.Splitting
import K0Torrent.Tracker.HttpTracker

/-! What a server reads out of the request target of an announce.

The target is the path of the URL as `parse_url` finds it, which is all that follows the host,
and behind it a question mark and the parameters of the request.
-/

set_option autoImplicit false

namespace K0Torrent

open QueryString

/-! ## URLs -/

/-- A URL `http://host[:port][/path][?query]`, in its parts. -/
structure HttpUrl where
  host : Bytes
  port : Option Bytes := none
  path : Option Bytes := none
  query : Option Bytes := none
  hostFree : urlSlash ∉ host ∧ question ∉ host
  portDigits : ∀ digits ∈ port, ∀ byte ∈ digits, Decimal.isDigit byte = true
  pathForm : ∀ text ∈ path, text.head? = some urlSlash ∧ question ∉ text

/-- `std::stoi` takes what stands behind the last colon, if there is one, for a number. -/
def PortReads (hostPort : Bytes) : Prop :=
  ∀ colon, rfindByte hostPort Token.colon = some colon →
    ∃ port, stoi (hostPort.drop (colon + 1)) = .ok port

namespace HttpUrl

variable (url : HttpUrl)

def authority : Bytes :=
  match url.port with
  | none => url.host
  | some digits => url.host ++ Token.colon :: digits

/-- What stands behind the authority. -/
def rest : Bytes :=
  url.path.getD [] ++
    match url.query with
    | none => []
    | some query => question :: query

def text : Bytes := ascii "http://" ++ (url.authority ++ url.rest)

/-- The path, which is a slash where there is none. -/
def ownPath : Bytes := url.path.getD [urlSlash]

def ownFields : List (Bytes × Bytes) := (url.query.map fields).getD []

theorem not_mem_authority : urlSlash ∉ url.authority ∧ question ∉ url.authority := by
  have free := url.hostFree
  unfold authority
  cases port : url.port with
  | none => exact free
  | some digits =>
    have plain := url.portDigits digits port
    have digit {byte : UInt8} (other : Decimal.isDigit byte = false) : byte ∉ digits := by
      intro member
      rw [plain byte member] at other
      cases other
    have colon : urlSlash ≠ Token.colon ∧ question ≠ Token.colon := by decide
    have absent : urlSlash ∉ digits ∧ question ∉ digits := ⟨digit rfl, digit rfl⟩
    simp [free, colon, absent]

end HttpUrl

/-! ## `parse_url` -/

theorem find_scheme (rest : Bytes) : find (ascii "http://" ++ rest) (ascii "://") = some 4 := rfl

theorem drop_scheme (rest : Bytes) : (ascii "http://" ++ rest).drop 7 = rest := rfl

/-- What `parse_url` does behind the scheme, with what it takes for the host and the path. -/
def readAuthority (hostPort path : Bytes) : Except Thrown ParsedUrl :=
  match rfindByte hostPort Token.colon with
  | some colon => do
    let port ← stoi (hostPort.drop (colon + 1))
    return { scheme := ascii "http", host := hostPort.take colon, port := (port % 2 ^ 16).toNat
             path }
  | none => .ok { scheme := ascii "http", host := hostPort, port := 80, path }

/-- Everything from the first slash on is the path. -/
theorem parseUrl_slash {hostPort : Bytes} (free : urlSlash ∉ hostPort) (back : Bytes) :
    parseUrl (ascii "http://" ++ (hostPort ++ urlSlash :: back)) =
      readAuthority hostPort (urlSlash :: back) := by
  have found : findByte (ascii "http://" ++ (hostPort ++ urlSlash :: back)) urlSlash 7 =
      some (7 + hostPort.length) := by
    rw [findByte, drop_scheme, Splitting.findIdx?_append free]
    rfl
  have start : substr (ascii "http://" ++ (hostPort ++ urlSlash :: back)) 7 hostPort.length =
      hostPort := by
    rw [substr, drop_scheme, List.take_left]
  have stop : (ascii "http://" ++ (hostPort ++ urlSlash :: back)).drop (7 + hostPort.length) =
      urlSlash :: back := by
    rw [← List.drop_drop, drop_scheme, List.drop_left]
  rw [parseUrl, find_scheme]
  simp only [found, Nat.reduceAdd, Nat.add_sub_cancel_left, start, stop]
  rfl

/-- Without a slash there is no path. -/
theorem parseUrl_of_free {hostPort : Bytes} (free : urlSlash ∉ hostPort) :
    parseUrl (ascii "http://" ++ hostPort) = readAuthority hostPort [urlSlash] := by
  have found : findByte (ascii "http://" ++ hostPort) urlSlash 7 = none := by
    rw [findByte, drop_scheme, Splitting.findIdx?_eq_none_iff.mpr free]
    rfl
  rw [parseUrl, find_scheme]
  simp only [found, Nat.reduceAdd, drop_scheme]
  rfl

/-- The path is passed on as it is, if there is no port or one that can be read. -/
theorem readAuthority_ok_iff {hostPort path : Bytes} :
    (∃ parsed, readAuthority hostPort path = .ok parsed) ↔ PortReads hostPort := by
  unfold readAuthority PortReads
  cases found : rfindByte hostPort Token.colon with
  | none => simp
  | some colon =>
    cases port : stoi (hostPort.drop (colon + 1)) <;>
      simp [port, Bind.bind, Except.bind, Pure.pure, Except.pure]

theorem path_of_readAuthority {hostPort path : Bytes} {parsed : ParsedUrl}
    (read : readAuthority hostPort path = .ok parsed) : parsed.path = path := by
  unfold readAuthority at read
  cases found : rfindByte hostPort Token.colon with
  | none =>
    simp only [found, Except.ok.injEq] at read
    rw [← read]
  | some colon =>
    cases port : stoi (hostPort.drop (colon + 1)) with
    | error thrown => simp [found, port, Bind.bind, Except.bind] at read
    | ok port' =>
      simp only [found, port, Bind.bind, Except.bind, Pure.pure, Except.pure, Except.ok.injEq] at read
      rw [← read]

/-! ## The percent encoder and the query -/

theorem hexText_eq (byte : UInt8) :
    List.replicate (2 - (Nat.toDigits 16 byte.toNat).length) 0x30 ++
      (Nat.toDigits 16 byte.toNat).map (fun c => UInt8.ofNat c.toNat) =
        [hexDigit (byte.toNat / 16), hexDigit (byte.toNat % 16)] := by
  have all : ∀ n : Fin 256, List.replicate (2 - (Nat.toDigits 16 n).length) 0x30 ++
      (Nat.toDigits 16 n).map (fun c => UInt8.ofNat c.toNat) =
        [hexDigit (n / 16), hexDigit (n % 16)] := by
    decide +kernel
  exact all ⟨byte.toNat, byte.toNat_lt⟩

/-- Every byte leaves the stream as it was, with the width reset. -/
theorem urlEncode_eq (data : Bytes) : urlEncode data = data.flatMap encodeByte := by
  have written (ss : OStringStream) (hex : ss.hex = true) (width : ss.width = 0) :
      (data.foldl (fun ss byte =>
        { ss.put [percent] with width := 2, fill := 0x30 }.putUnsigned byte.toNat) ss).written =
          ss.written ++ data.flatMap encodeByte := by
    induction data generalizing ss with
    | nil => simp
    | cons byte data ih =>
      rw [List.foldl_cons, ih]
      · have digits := hexText_eq byte
        simp [OStringStream.put, OStringStream.putUnsigned, hex, width, digits, encodeByte]
      · exact hex
      · rfl
  rw [urlEncode, written _ rfl rfl]
  rfl

theorem not_mem_encodeInt {byte : UInt8} (noDigit : Decimal.isDigit byte = false)
    (noMinus : byte ≠ Token.minus) (n : Int) : byte ∉ encodeInt n := by
  have absent := Decimal.not_mem_encode noDigit
  unfold encodeInt
  split <;> simp [absent, noMinus]

/-- The parameters of a request, with their values as they are meant. -/
def requestFields (req : TrackerRequest) : List (Bytes × Bytes) :=
  [(ascii "info_hash", req.infoHash.toList), (ascii "peer_id", req.peerId.toList),
    (ascii "port", Decimal.encode req.port), (ascii "uploaded", encodeInt req.uploaded),
    (ascii "downloaded", encodeInt req.downloaded), (ascii "left", encodeInt req.left),
    (ascii "compact", Decimal.encode (if req.compact then 1 else 0)),
    (ascii "numwant", encodeInt req.numWant)] ++
  match req.event with
  | .started => [(ascii "event", ascii "started")]
  | .stopped => [(ascii "event", ascii "stopped")]
  | .completed => [(ascii "event", ascii "completed")]
  | .none => []

/-- The same as they are written. -/
def writtenFields (req : TrackerRequest) : List Bytes :=
  [ascii "info_hash" ++ equals :: urlEncodeHash req.infoHash,
    ascii "peer_id" ++ equals :: urlEncodePeerId req.peerId,
    ascii "port" ++ equals :: Decimal.encode req.port,
    ascii "uploaded" ++ equals :: encodeInt req.uploaded,
    ascii "downloaded" ++ equals :: encodeInt req.downloaded,
    ascii "left" ++ equals :: encodeInt req.left,
    ascii "compact" ++ equals :: Decimal.encode (if req.compact then 1 else 0),
    ascii "numwant" ++ equals :: encodeInt req.numWant] ++
  match req.event with
  | .started => [ascii "event" ++ equals :: ascii "started"]
  | .stopped => [ascii "event" ++ equals :: ascii "stopped"]
  | .completed => [ascii "event" ++ equals :: ascii "completed"]
  | .none => []

theorem buildQuery_eq (req : TrackerRequest) :
    buildQuery req = [ampersand].intercalate (writtenFields req) := by
  obtain ⟨infoHash, peerId, port, uploaded, downloaded, left, event, numWant, compact⟩ := req
  cases event <;> simp [buildQuery, writtenFields, List.intercalate, ascii, ampersand, equals]

theorem not_mem_urlEncode {sep : UInt8} (apart : sep ≠ percent) (noDigit : hexValue sep = none)
    (data : Bytes) : sep ∉ urlEncode data := by
  rw [urlEncode_eq]
  exact QueryString.not_mem_encode apart noDigit data

theorem decode_urlEncode (data : Bytes) : QueryString.decode (urlEncode data) = data := by
  rw [urlEncode_eq, decode_encode]

theorem fields_buildQuery (req : TrackerRequest) : fields (buildQuery req) = requestFields req := by
  rw [buildQuery_eq, fields_join]
  · have number (n : Nat) : QueryString.decode (Decimal.encode n) = Decimal.encode n :=
      decode_of_free (Decimal.not_mem_encode rfl n)
    have signed (n : Int) : QueryString.decode (encodeInt n) = encodeInt n :=
      decode_of_free (not_mem_encodeInt rfl (by decide) n)
    have event : QueryString.decode (ascii "started") = ascii "started" ∧
        QueryString.decode (ascii "stopped") = ascii "stopped" ∧
        QueryString.decode (ascii "completed") = ascii "completed" := by decide
    unfold writtenFields requestFields
    cases req.event <;>
      simp (disch := decide) only [List.map_append, List.map_cons, List.map_nil, readField_join,
        urlEncodeHash, urlEncodePeerId, decode_urlEncode, number, signed, event]
  · have hash := @not_mem_urlEncode ampersand (by decide) rfl
    have number := @Decimal.not_mem_encode ampersand rfl
    have signed := @not_mem_encodeInt ampersand rfl (by decide)
    have apart : ampersand ≠ equals := by decide
    have event : ampersand ∉ ascii "started" ∧ ampersand ∉ ascii "stopped" ∧
        ampersand ∉ ascii "completed" ∧ ampersand ∉ ascii "event" := by decide
    have keys : ∀ key ∈ [ascii "info_hash", ascii "peer_id", ascii "port", ascii "uploaded",
        ascii "downloaded", ascii "left", ascii "compact", ascii "numwant"], ampersand ∉ key := by
      decide
    simp only [List.forall_mem_cons] at keys
    unfold writtenFields
    cases req.event <;>
      simp [urlEncodeHash, urlEncodePeerId, hash, number, signed, apart, event, keys]
  · simp [writtenFields]

/-! ## The target -/

/-- A path without a question mark is read back, and so are the parameters of the request. -/
theorem readTarget_of_free {path : Bytes} (free : question ∉ path) (req : TrackerRequest) :
    readTarget (path ++ (ascii "?" ++ buildQuery req)) = (path, requestFields req) := by
  rw [← fields_buildQuery]
  exact readTarget_append free (buildQuery req)

/-- What follows the first question mark of a path runs into the parameters of the request. -/
theorem length_readTarget {front : Bytes} (free : question ∉ front) (back : Bytes)
    (req : TrackerRequest) :
    (readTarget (front ++ question :: back ++ (ascii "?" ++ buildQuery req))).2.length =
      back.count ampersand + (requestFields req).length := by
  have read := readTarget_append free (back ++ question :: buildQuery req)
  have apart : question ≠ ampersand := by decide
  rw [List.append_assoc]
  refine (congrArg (fun result => result.2.length) read).trans ?_
  rw [← fields_buildQuery, length_fields, length_fields, List.count_append,
    List.count_cons_of_ne apart]
  omega

/-- There are never more fields than the ampersands of the path allow. -/
theorem length_readTarget_le (path : Bytes) (req : TrackerRequest) :
    (readTarget (path ++ (ascii "?" ++ buildQuery req))).2.length ≤
      path.count ampersand + (requestFields req).length := by
  rcases cut_cases question path with free | ⟨front, back, free, rfl⟩
  · rw [readTarget_of_free free]
    exact Nat.le_add_left ..
  · rw [length_readTarget free, List.count_append, List.count_cons]
    omega

/-- The server finds the path and the parameters of the URL, and the parameters of the request. -/
def ReadBack (url : HttpUrl) (req : TrackerRequest) : Prop :=
  ∃ host port target, requestTarget url.text req = .ok (host, port, target) ∧
    (readTarget target).1 = url.ownPath ∧
    (readTarget target).2.Perm (url.ownFields ++ requestFields req)

section
variable {url : HttpUrl}

theorem requestTarget_ok {text : Bytes} {req : TrackerRequest} {host target : Bytes} {port : Nat}
    (built : requestTarget text req = .ok (host, port, target)) :
    ∃ parsed, parseUrl text = .ok parsed ∧
      target = parsed.path ++ (ascii "?" ++ buildQuery req) := by
  unfold requestTarget at built
  cases read : parseUrl text with
  | error thrown => simp [read, Bind.bind, Except.bind] at built
  | ok parsed =>
    simp only [read, Bind.bind, Except.bind, Pure.pure, Except.pure, Except.ok.injEq,
      Prod.mk.injEq] at built
    exact ⟨parsed, rfl, built.2.2.symm⟩

/-- Without a query the URL is read as it is meant. -/
theorem parseUrl_text (none_ : url.query = none) :
    parseUrl url.text = readAuthority url.authority url.ownPath := by
  have free := url.not_mem_authority.1
  unfold HttpUrl.text HttpUrl.rest HttpUrl.ownPath
  rw [none_]
  cases path : url.path with
  | none => simpa using parseUrl_of_free free
  | some text =>
    have form := (url.pathForm text path).1
    cases text with
    | nil => cases form
    | cons first back =>
      obtain rfl : first = urlSlash := by simpa using form
      simpa using parseUrl_slash free back

theorem question_not_mem_ownPath : question ∉ url.ownPath := by
  unfold HttpUrl.ownPath
  cases path : url.path with
  | none => decide
  | some text => exact (url.pathForm text path).2

/-- With a query there are too few parameters: a field of the query has run into the first one of
the request, or has been taken for a part of the host. -/
theorem length_of_query {query : Bytes} (some_ : url.query = some query) {parsed : ParsedUrl}
    (read : parseUrl url.text = .ok parsed) (req : TrackerRequest) :
    (readTarget (parsed.path ++ (ascii "?" ++ buildQuery req))).2.length ≤
      query.count ampersand + (requestFields req).length := by
  have free := url.not_mem_authority.1
  unfold HttpUrl.text HttpUrl.rest at read
  rw [some_] at read
  cases path : url.path with
  | some text =>
    have form := url.pathForm text path
    rw [path, Option.getD_some] at read
    cases text with
    | nil => cases form.1
    | cons first back =>
      obtain rfl : first = urlSlash := by simpa using form.1
      rw [List.cons_append, parseUrl_slash free] at read
      rw [path_of_readAuthority read, ← List.cons_append, length_readTarget form.2]
  | none =>
    have apart : urlSlash ≠ question := by decide
    rw [path, Option.getD_none, List.nil_append] at read
    rcases cut_cases urlSlash query with absent | ⟨front, back, absent, rfl⟩
    · rw [parseUrl_of_free (by simp [free, apart, absent])] at read
      rw [path_of_readAuthority read]
      refine Nat.le_trans (length_readTarget_le ..) ?_
      simp [urlSlash, ampersand]
    · have same : url.authority ++ question :: (front ++ urlSlash :: back) =
          (url.authority ++ question :: front) ++ urlSlash :: back := by simp
      rw [same, parseUrl_slash (by simp [free, apart, absent])] at read
      rw [path_of_readAuthority read]
      refine Nat.le_trans (length_readTarget_le ..) ?_
      rw [List.count_append]
      omega

end

/-- The target is read back exactly if the URL has no query and its port is a number. -/
theorem readBack_iff (url : HttpUrl) (req : TrackerRequest) :
    ReadBack url req ↔ url.query = none ∧ PortReads url.authority := by
  constructor
  · rintro ⟨host, port, target, built, -, params⟩
    obtain ⟨parsed, read, rfl⟩ := requestTarget_ok built
    have none_ : url.query = none := by
      cases query : url.query with
      | none => rfl
      | some query' =>
        have few := length_of_query query read req
        have count := params.length_eq
        rw [List.length_append, HttpUrl.ownFields, query, Option.map_some, Option.getD_some,
          length_fields] at count
        omega
    rw [parseUrl_text none_] at read
    exact ⟨none_, readAuthority_ok_iff.mp ⟨parsed, read⟩⟩
  · rintro ⟨none_, reads⟩
    obtain ⟨parsed, read⟩ := (@readAuthority_ok_iff url.authority url.ownPath).mpr reads
    have target := readTarget_of_free (@question_not_mem_ownPath url) req
    refine ⟨parsed.host, parsed.port, url.ownPath ++ (ascii "?" ++ buildQuery req), ?_, ?_, ?_⟩
    · have path := path_of_readAuthority read
      rw [requestTarget, parseUrl_text none_, read]
      simp [Bind.bind, Except.bind, Pure.pure, Except.pure, path]
    · rw [target]
    · rw [target, HttpUrl.ownFields, none_]
      exact List.Perm.refl _

/-- A tracker that knows its users by a passkey. -/
def passkeyUrl : HttpUrl where
  host := ascii "t"
  path := ascii "/announce"
  query := ascii "passkey=k"
  hostFree := by decide
  portDigits := by simp
  pathForm := by decide

/-- It is sent a field too few, since `info_hash` has become a part of its passkey. -/
theorem passkeyUrl_not_readBack :
    passkeyUrl.text = ascii "http://t/announce?passkey=k" ∧
      ¬ ReadBack passkeyUrl { infoHash := .replicate 20 0, peerId := .replicate 20 0 } := by
  constructor
  · rfl
  · rintro ⟨host, port, target, built, -, params⟩
    obtain ⟨parsed, read, rfl⟩ := requestTarget_ok built
    have few := @length_of_query passkeyUrl (ascii "passkey=k") rfl _ read
      { infoHash := .replicate 20 0, peerId := .replicate 20 0 }
    have count := params.length_eq
    have own : passkeyUrl.ownFields.length = 1 := by decide
    rw [List.length_append, own] at count
    have alone : (ascii "passkey=k").count ampersand = 0 := by decide
    omega

end K0Torrent
