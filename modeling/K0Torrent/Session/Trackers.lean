import K0Torrent.Disk.Places
import K0Torrent.Session.Session
import K0Torrent.Torrent.Accepted
import K0Torrent.Tracker.Asked

/-! What a session makes of the trackers and the sizes in a torrent (`session.cpp`).

The constructor gives the announce list to the tracker manager and `fetch_peers`
announces to it. The key `announce` is read from the file and not used any more.
-/

set_option autoImplicit false

namespace K0Torrent

/-! ## The trackers in the file -/

/-- The value of `announce-list` for these tiers. -/
def announceListValue (tiers : List (List Bytes)) : BencodeValue :=
  .list (tiers.map fun tier => .list (tier.map .string))

theorem eq_map_of_mapAll {A B : Type} {read : A → Parsed B} {write : B → A}
    (written : ∀ a b, read a = .value b → a = write b) {items : List A} :
    ∀ {results : List B}, mapAll read items = .value results → items = results.map write := by
  induction items with
  | nil =>
    intro results mapped
    cases mapped
    rfl
  | cons a items ih =>
    intro results mapped
    rw [mapAll] at mapped
    obtain ⟨b, first, mapped⟩ := Outcome.bind_eq_value.mp mapped
    obtain ⟨bs, rest, mapped⟩ := Outcome.bind_eq_value.mp mapped
    cases mapped
    rw [List.map_cons, ← written a b first, ← ih rest]

theorem asString_eq_value {v : BencodeValue} {bytes : Bytes} (read : v.asString = .value bytes) :
    v = .string bytes := by
  cases v <;> cases read
  rfl

theorem string_map_injective : Function.Injective (List.map BencodeValue.string) :=
  List.map_injective_iff.mpr fun _ _ same => BencodeValue.string.inj same

theorem announceListValue_injective : Function.Injective announceListValue := by
  intro tiers tiers' same
  apply List.map_injective_iff.mpr _ (BencodeValue.list.inj same)
  exact fun tier tier' same => string_map_injective (BencodeValue.list.inj same)

/-- The announce list is that of the file, or there is none. -/
theorem announceList_cases {root : List (Bytes × BencodeValue)} {torrent : TorrentFile}
    (readFrom : ReadFrom root torrent) :
    root.lookup (ascii "announce-list") = none ∧ torrent.announceList = [] ∨
      root.lookup (ascii "announce-list") = some (announceListValue torrent.announceList) := by
  have read := readFrom.announceList
  unfold optional at read
  split at read
  · rename_i absent
    exact .inl ⟨absent, (Outcome.value.inj read).symm⟩
  · rename_i val found
    obtain ⟨items, itemsRead, parsed⟩ := Outcome.bind_eq_value.mp read
    have each : ∀ (tier : BencodeValue) (urls : List Bytes),
        (do mapAll BencodeValue.asString (← tier.asList)) = .value urls →
          tier = .list (urls.map .string) := by
      intro tier urls tierRead
      obtain ⟨entries, entriesRead, urlsRead⟩ := Outcome.bind_eq_value.mp tierRead
      rw [asList_eq_value entriesRead, eq_map_of_mapAll (fun _ _ => asString_eq_value) urlsRead]
    apply Or.inr
    rw [found, asList_eq_value itemsRead, eq_map_of_mapAll each parsed, announceListValue]

/-- The file lists a URL in `announce-list` that names a tracker. -/
def ListsTracker (root : List (Bytes × BencodeValue)) : Prop :=
  ∃ tiers, root.lookup (ascii "announce-list") = some (announceListValue tiers) ∧
    ∃ url ∈ tiers.flatten, TrackerUrl url

theorem listsTracker_iff {root : List (Bytes × BencodeValue)} {torrent : TorrentFile}
    (readFrom : ReadFrom root torrent) :
    ListsTracker root ↔ ∃ url ∈ torrent.announceList.flatten, TrackerUrl url := by
  rcases announceList_cases readFrom with ⟨absent, none_⟩ | found
  · rw [none_, ListsTracker, absent]
    exact ⟨fun ⟨tiers, listed, _⟩ => absurd listed.symm (Option.some_ne_none _), nofun⟩
  · constructor
    · rintro ⟨tiers, listed, named⟩
      rw [found] at listed
      rwa [announceListValue_injective (Option.some.inj listed)]
    · exact fun named => ⟨_, found, named⟩

/-! ## The announce -/

namespace Session

def listenPort : Nat := 6881

/-- The tracker manager that the constructor makes, `now` being the time. -/
def newAnnouncer (torrent : TorrentFile) (myPeerId : Digest) (now : Int) : Announcer :=
  Announcer.new torrent.announceList myPeerId listenPort now

/-- What `fetch_peers` adds up. The sum is exact: beyond `int64_t` it is undefined. -/
def left (torrent : TorrentFile) : Int := (torrent.files.map FileInfo.length).sum

/-- The announce of `fetch_peers`, with the peers that it then connects to. -/
def fetchPeers (torrent : TorrentFile) (announcer : Announcer) (around : Circumstances) :
    Announcer × Except Thrown (List PeerAddress) :=
  announcer.announce around torrent.infoHash (left torrent) 0 0 .started

end Session

def Announcer.urls (announcer : Announcer) : List Bytes :=
  announcer.manager.tiers.flatMap fun tier => tier.map TierEntry.url

theorem urls_newAnnouncer (torrent : TorrentFile) (myPeerId : Digest) (now : Int) :
    (Session.newAnnouncer torrent myPeerId now).urls = torrent.announceList.flatten := by
  have urls := urls_new torrent.announceList myPeerId Session.listenPort now
  rw [Announcer.urls, List.flatMap_def, Session.newAnnouncer, Announcer.new, urls]
  exact List.flatten_filter_not_isEmpty

theorem mem_urls {announcer : Announcer} {number j : Nat} {tier : Tier} {entry : TierEntry}
    (at_ : announcer.manager.tiers[number]? = some tier) (here : tier[j]? = some entry) :
    entry.url ∈ announcer.urls :=
  List.mem_flatMap.mpr ⟨tier, List.mem_of_getElem? at_,
    List.mem_map_of_mem (List.mem_of_getElem? here)⟩

/-- No tracker has been made yet. -/
theorem tracker_newAnnouncer {torrent : TorrentFile} {myPeerId : Digest} {now : Int} {tier : Tier}
    {entry : TierEntry} (member : tier ∈ (Session.newAnnouncer torrent myPeerId now).manager.tiers)
    (inside : entry ∈ tier) : entry.tracker = none := by
  obtain ⟨number, bound, rfl⟩ := List.mem_mapIdx.mp (List.mem_filter.mp member).1
  obtain ⟨j, bound, rfl⟩ := List.mem_mapIdx.mp inside
  rfl

/-- What the trackers are met with agrees with their URLs. -/
def Announcer.Meets (announcer : Announcer) (around : Circumstances) : Prop :=
  ∀ number tier j entry, announcer.manager.tiers[number]? = some tier → tier[j]? = some entry →
    (around.attempt number j).Fits entry.url

/-- Each tracker that can be asked replies. -/
def Announcer.replying (announcer : Announcer) : Circumstances where
  checked _ := 0
  attempt number j :=
    let url := ((announcer.manager.tiers[number]?).bind (·[j]?)).elim [] TierEntry.url
    { construction := constructorThrows url, answer := (parseUrl url).map fun _ => {} }

theorem meets_replying (announcer : Announcer) : announcer.Meets announcer.replying := by
  intro number tier j entry at_ here
  have url : ((announcer.manager.tiers[number]?).bind (·[j]?)).elim [] TierEntry.url = entry.url := by
    rw [at_, Option.bind_some, here, Option.elim_some]
  refine ⟨congrArg constructorThrows url, fun thrown _ failed => ?_⟩
  change (parseUrl (((announcer.manager.tiers[number]?).bind (·[j]?)).elim [] TierEntry.url)).map _ = _
  rw [url, failed]
  rfl

namespace Session

/-- The session reaches the trackers that the file names. It has contacted one when an attempt has
been made at a URL that names a tracker. -/
structure ReachesTrackers (root : List (Bytes × BencodeValue)) (torrent : TorrentFile)
    (announcer : Announcer) : Prop where
  tiers : announcer.manager.tiers ≠ []
  listed : ∀ tiers, root.lookup (ascii "announce-list") = some (announceListValue tiers) →
    ∀ url ∈ tiers.flatten, url ∈ announcer.urls
  announced : (∀ tiers, root.lookup (ascii "announce-list") = some (announceListValue tiers) →
      tiers.flatten = []) →
    ∀ url, root.lookup (ascii "announce") = some (.string url) → url ∈ announcer.urls
  contacted : ∀ around, announcer.Meets around →
    ∃ c ∈ (fetchPeers torrent announcer around).1.watch.contacts, ∃ tier entry,
      announcer.manager.tiers[c.tier]? = some tier ∧ tier[c.slot]? = some entry ∧
        TrackerUrl entry.url

/-- Whether the file names trackers in `announce` makes no difference. -/
theorem reachesTrackers_iff {sha1 : Bytes → Digest} {raw : Bytes} {torrent : TorrentFile}
    (accepted : Accepts sha1 raw torrent) {root : List (Bytes × BencodeValue)} {next : Nat}
    (decoded : Returns raw 0 (.dict root) next) (myPeerId : Digest) (now : Int) :
    ReachesTrackers root torrent (newAnnouncer torrent myPeerId now) ↔ ListsTracker root := by
  obtain ⟨root', next', decoded', readFrom⟩ := readFrom_of_accepts accepted
  obtain ⟨same, -⟩ := decoded.unique decoded'
  cases same
  have urls := urls_newAnnouncer torrent myPeerId now
  constructor
  · intro reaches
    obtain ⟨c, -, tier, entry, at_, here, named⟩ := reaches.contacted _ (meets_replying _)
    rw [listsTracker_iff readFrom, ← urls]
    exact ⟨entry.url, mem_urls at_ here, named⟩
  · intro lists
    obtain ⟨url, member, named⟩ := (listsTracker_iff readFrom).mp lists
    rw [← urls] at member
    obtain ⟨tier, inTiers, inTier⟩ := List.mem_flatMap.mp member
    obtain ⟨entry, inside, rfl⟩ := List.mem_map.mp inTier
    refine ⟨List.ne_nil_of_mem inTiers, fun listed found url member => ?_,
      fun none_ => ?_, fun around meets => ?_⟩
    · rw [urls]
      rcases announceList_cases readFrom with ⟨absent, _⟩ | present
      · rw [absent] at found
        exact absurd found.symm (Option.some_ne_none _)
      · rw [present] at found
        rwa [announceListValue_injective (Option.some.inj found)]
    · obtain ⟨tiers, present, url, member, -⟩ := lists
      rw [none_ tiers present] at member
      cases member
    · -- Until a URL that names a tracker is tried, every attempt fails.
      have asked := fun request sweep => @asked_visitTiers ⟨0, false, request⟩
        (fun entry => TrackerUrl entry.url) around rfl (newAnnouncer torrent myPeerId now).manager.tiers
        0 sweep (fun number tier j entry at_ here bad => by
          rw [Nat.zero_add]
          exact reply_of_fits
            (tracker_newAnnouncer (List.mem_of_getElem? at_) (List.mem_of_getElem? here))
            (meets number tier j entry at_ here) bad)
        ⟨tier, inTiers, entry, inside, named⟩
      obtain ⟨c, contact, number, tier, j, entry, first, rfl, at_, here, named⟩ := asked _ _
      rw [Nat.zero_add] at first
      subst first
      exact ⟨c, contact, tier, entry, at_, here, named⟩

/-! ## A torrent with one tracker -/

def announcedRaw : Bytes :=
  ascii "d8:announce25:http://127.0.0.1:9999/ann4:infod6:lengthi100e4:name8:test.txt12:piece lengthi32768e6:pieces20:AAAAAAAAAAAAAAAAAAAAee"

def announcedInfo : BencodeValue :=
  .dict [(ascii "length", .int 100), (ascii "name", .string (ascii "test.txt")),
    (ascii "piece length", .int 32768), (ascii "pieces", .string (ascii "AAAAAAAAAAAAAAAAAAAA"))]

def announcedUrl : Bytes := ascii "http://127.0.0.1:9999/ann"

def announcedRoot : List (Bytes × BencodeValue) :=
  [(ascii "announce", .string announcedUrl), (ascii "info", announcedInfo)]

/-- A file of 100 bytes whose tracker is named in `announce`. -/
def announcedTorrent : TorrentFile where
  infoHash := zeroHash (encode announcedInfo)
  name := ascii "test.txt"
  announce := announcedUrl
  announceList := []
  pieceLength := 32768
  pieces := [hashAt (ascii "AAAAAAAAAAAAAAAAAAAA") 0]
  length := 100
  files := []
  comment := []
  createdBy := []
  creationDate := none

theorem native_announcedRoot : Native (.dict announcedRoot) := by
  simp [announcedRoot, announcedInfo, Native, NativeEntries, Ascending, ascii]
  decide

theorem announcedRaw_eq : announcedRaw = encode (.dict announcedRoot) := by decide +kernel

theorem announcedRaw_short : announcedRaw.length < 2 ^ 63 := by decide +kernel

theorem returns_announced : Returns announcedRaw 0 (.dict announcedRoot) announcedRaw.length :=
  returns_whole native_announcedRoot announcedRaw_eq announcedRaw_short

theorem accepts_announced : Accepts zeroHash announcedRaw announcedTorrent := by
  have found : find announcedRaw infoKey = some 39 := by decide +kernel
  exact accepts_encode native_announcedRoot native_announcedRoot.1.2.1 announcedRaw_eq
    (announcedRaw.take 45) (ascii "e") (by decide +kernel) announcedRaw_short found
    (by decide +kernel) rfl

def listedRaw : Bytes :=
  ascii "d8:announce25:http://127.0.0.1:9999/ann13:announce-listll9:wss://t/ael9:udp://t:8ee4:infod6:lengthi100e4:name8:test.txt12:piece lengthi32768e6:pieces20:AAAAAAAAAAAAAAAAAAAAee"

def listedTiers : List (List Bytes) := [[ascii "wss://t/a"], [ascii "udp://t:8"]]

def listedRoot : List (Bytes × BencodeValue) :=
  [(ascii "announce", .string announcedUrl), (ascii "announce-list", announceListValue listedTiers),
    (ascii "info", announcedInfo)]

theorem native_listedRoot : Native (.dict listedRoot) := by
  simp [listedRoot, announcedInfo, announceListValue, listedTiers, Native, NativeItems,
    NativeEntries, Ascending, ascii]
  decide

theorem listedRaw_eq : listedRaw = encode (.dict listedRoot) := by decide +kernel

theorem listedRaw_short : listedRaw.length < 2 ^ 63 := by decide +kernel

theorem accepts_listed :
    Accepts zeroHash listedRaw { announcedTorrent with announceList := listedTiers } := by
  have found : find listedRaw infoKey = some 83 := by decide +kernel
  exact accepts_encode native_listedRoot native_listedRoot.1.2.2.1 listedRaw_eq
    (listedRaw.take 89) (ascii "e") (by decide +kernel) listedRaw_short found
    (by decide +kernel) rfl

/-- A tracker that no one can be asked for comes first in the list. Without the list nobody is
reached. -/
theorem reachesTrackers_listed :
    ReachesTrackers listedRoot { announcedTorrent with announceList := listedTiers }
      (newAnnouncer { announcedTorrent with announceList := listedTiers } noHash 0) ∧
    (ReachesTrackers announcedRoot announcedTorrent (newAnnouncer announcedTorrent noHash 0) ↔
      ListsTracker announcedRoot) := by
  have named : TrackerUrl (ascii "udp://t:8") := ⟨⟨.udp, by decide⟩, fun http => nomatch http⟩
  have lists : ListsTracker listedRoot :=
    ⟨listedTiers, rfl, ascii "udp://t:8", .tail _ (.head _), named⟩
  have returns : Returns listedRaw 0 (.dict listedRoot) listedRaw.length :=
    returns_whole native_listedRoot listedRaw_eq listedRaw_short
  exact ⟨(reachesTrackers_iff accepts_listed returns noHash 0).mpr lists,
    reachesTrackers_iff accepts_announced returns_announced noHash 0⟩

/-- The tracker in `announce` does not become part of a tier. -/
theorem announced_unreached :
    Accepts zeroHash announcedRaw announcedTorrent ∧
      Returns announcedRaw 0 (.dict announcedRoot) announcedRaw.length ∧
      announcedRoot.lookup (ascii "announce") = some (.string announcedUrl) ∧
      (newAnnouncer announcedTorrent noHash 0).manager.tiers = [] ∧
      ¬ ReachesTrackers announcedRoot announcedTorrent (newAnnouncer announcedTorrent noHash 0) :=
  ⟨accepts_announced, returns_announced, rfl, rfl, fun reaches => reaches.tiers rfl⟩

/-! ## What is left -/

section
variable {torrent : TorrentFile} (lengths : ∀ file ∈ registered torrent, 0 ≤ file.2)
  (sum : torrent.totalSize < 2 ^ 63) (downloadDir workingDir : Bytes)
include lengths sum

theorem totalSize_fileMap :
    ((DiskManager.new torrent downloadDir workingDir).fileMap.totalSize : Int) = torrent.totalSize := by
  have nonneg := sum_nonneg lengths
  rw [sum_registered] at nonneg
  rw [totalSize_new]
  exact castU64_of_range _ nonneg (Int.lt_trans sum (by decide))

/-- What the session announces as left is the size of the torrent, for the client and
for its files, exactly if the torrent has a list of files or no bytes. -/
theorem left_eq_iff :
    (left torrent = torrent.totalSize ∧
      left torrent = (DiskManager.new torrent downloadDir workingDir).fileMap.totalSize) ↔
    torrent.files ≠ [] ∨ torrent.length = 0 := by
  rw [totalSize_fileMap lengths sum, and_self]
  unfold left TorrentFile.totalSize TorrentFile.isMultiFile
  cases torrent.files with
  | nil => simp [eq_comm]
  | cons file files => simp

end

theorem left_eq_twoFiles :
    (left twoFiles = twoFiles.totalSize ∧
      left twoFiles = (DiskManager.new twoFiles [] []).fileMap.totalSize) ↔
    twoFiles.files ≠ [] ∨ twoFiles.length = 0 :=
  left_eq_iff (by decide) (by decide) [] []

/-- The single file of 100 bytes is announced as if nothing were left of it. -/
theorem left_of_announced :
    Accepts zeroHash announcedRaw announcedTorrent ∧ left announcedTorrent = 0 ∧
      announcedTorrent.totalSize = 100 ∧
      (DiskManager.new announcedTorrent [] []).fileMap.totalSize = 100 :=
  ⟨accepts_announced, rfl, rfl, by decide +kernel⟩

end Session

end K0Torrent
