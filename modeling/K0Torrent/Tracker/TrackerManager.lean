import K0Torrent.Common.Types
import K0Torrent.Library.FirstSeen

/-! Announcing to tiers of trackers (`tracker_manager.hpp`, `tracker_manager.cpp`).

What a tracker does is given from outside: whether it can be created, what it
answers, and how long that takes. Times are nanoseconds of the steady clock.
-/

set_option autoImplicit false

namespace K0Torrent

/-! ## Requests and responses -/

inductive TrackerEvent where
  | none
  | completed
  | started
  | stopped
  deriving DecidableEq

structure TrackerRequest where
  infoHash : Digest
  peerId : Digest
  port : Nat := 6881
  uploaded : Int := 0
  downloaded : Int := 0
  left : Int := 0
  event : TrackerEvent := .started
  numWant : Int := 50
  compact : Bool := true

structure TrackerResponse where
  interval : Int := 1800
  minInterval : Int := 0
  complete : Int := 0
  incomplete : Int := 0
  peers : List PeerAddress := []
  warning : Bytes := []

/-! ## Trackers -/

inductive TrackerKind where
  | udp
  | http
  deriving DecidableEq

/-- `origin` is where the URL stands in the announce list: entries are moved, never
copied, so it tells them apart. -/
structure TierEntry where
  origin : Nat × Nat
  url : Bytes
  tracker : Option TrackerKind := none
  interval : Int := 1800
  failures : Nat := 0
  nextAnnounce : Int
  deriving DecidableEq

abbrev Tier := List TierEntry

def TierEntry.isDue (entry : TierEntry) (now : Int) : Bool := decide (entry.nextAnnounce ≤ now)

/-- `construction` is what the constructor of the tracker throws. -/
def makeTracker (url : Bytes) (construction : Option Thrown) : Except Thrown TrackerKind :=
  if url.take 4 = ascii "udp:" then
    match construction with
    | none => .ok .udp
    | some thrown => .error thrown
  else if url.take 4 = ascii "http" then
    match construction with
    | none => .ok .http
    | some thrown => .error thrown
  else .error (.standard (ascii "Unsupported tracker scheme: " ++ url))

def TierEntry.getTracker (entry : TierEntry) (construction : Option Thrown) :
    Except Thrown TierEntry :=
  match entry.tracker with
  | some _ => .ok entry
  | none =>
    match makeTracker entry.url construction with
    | .ok kind => .ok { entry with tracker := some kind }
    | .error thrown => .error thrown

/-- What an attempt at a tracker meets. `waited` is the time since the last reading
of the clock, `took` the time until the next. -/
structure Attempt where
  construction : Option Thrown := none
  answer : Except Thrown TrackerResponse
  waited : Nat := 0
  took : Nat := 0

/-- `get_tracker()->announce(req)`, with the entry as it is then. -/
def TierEntry.contact (entry : TierEntry) (attempt : Attempt) :
    TierEntry × Except Thrown TrackerResponse :=
  match entry.getTracker attempt.construction with
  | .ok entry => (entry, attempt.answer)
  | .error thrown => (entry, .error thrown)

def seconds (n : Int) : Int := n * 1000000000

/-- In seconds, after that many failures. -/
def backoff (failures : Nat) : Int := min (60 * 2 ^ min failures 5) 1800

def TierEntry.succeed (entry : TierEntry) (interval now : Int) : TierEntry :=
  { entry with failures := 0, interval, nextAnnounce := now + seconds interval }

def TierEntry.fail (entry : TierEntry) (now : Int) : TierEntry :=
  { entry with
    failures := entry.failures + 1
    nextAnnounce := now + seconds (backoff (entry.failures + 1)) }

/-! ## A tier -/

/-- What the attempts of one call of the manager have in common: the number of that
call, whether it asks `is_due` first, and the request. -/
structure Round where
  number : Nat
  gated : Bool
  request : TrackerRequest

inductive Ending where
  | replied (response : TrackerResponse)
  /-- With the backoff in seconds. -/
  | failed (backoff : Int)
  | escaped
  /-- The tracker was told to stop; what it answers is dropped. -/
  | stopped

/-- A record of one attempt, for which there is none in the source. -/
structure Contact where
  round : Round
  tier : Nat
  slot : Nat
  origin : Nat × Nat
  started : Int
  finished : Int
  ending : Ending

/-- The clock, and the attempts so far with the latest first. -/
structure Watch where
  clock : Int
  contacts : List Contact

/-- What the clock says after an attempt. -/
def Watch.after (watch : Watch) (attempt : Attempt) : Int :=
  watch.clock + attempt.waited + attempt.took

def Watch.note (watch : Watch) (round : Round) (tier slot : Nat) (origin : Nat × Nat)
    (attempt : Attempt) (ending : Ending) : Watch where
  clock := watch.after attempt
  contacts := ⟨round, tier, slot, origin, watch.clock + attempt.waited, watch.after attempt, ending⟩ ::
    watch.contacts

/-- `rotate(begin, begin + i, begin + i + 1)`. -/
def moveToFront (tier : Tier) (i : Nat) : Tier :=
  (tier.drop i).take 1 ++ tier.take i ++ tier.drop (i + 1)

structure TierOutcome where
  tier : Tier
  minInterval : Int
  watch : Watch
  peers : Except Thrown (List PeerAddress)

def lowered (minInterval : Int) (response : TrackerResponse) : Int :=
  if 0 < response.minInterval then min minInterval response.minInterval else minInterval

/-- The loop of `try_tier`, with the entries that have failed and those still to be tried. -/
def tryFrom (round : Round) (number : Nat) (attempt : Nat → Attempt) :
    Tier → Tier → Int → Watch → TierOutcome
  | done, [], minInterval, watch => ⟨done, minInterval, watch, .ok []⟩
  | done, entry :: rest, minInterval, watch =>
    let i := done.length
    let now := watch.after (attempt i)
    let note := watch.note round number i entry.origin (attempt i)
    let (entry, answer) := entry.contact (attempt i)
    match answer with
    | .ok response =>
      let tier := done ++ entry :: rest
      let tier := if 0 < i then moveToFront tier i else tier
      -- `e` still refers to slot `i`, whatever the rotation has put there.
      let tier := tier.modify i fun e => e.succeed response.interval now
      ⟨tier, lowered minInterval response, note (.replied response), .ok response.peers⟩
    | .error (.standard _) =>
      tryFrom round number attempt (done ++ [entry.fail now]) rest minInterval
        (note (.failed (backoff (entry.failures + 1))))
    | .error .other => ⟨done ++ entry :: rest, minInterval, note .escaped, .error .other⟩

def tryTier (round : Round) (number : Nat) (attempt : Nat → Attempt) (tier : Tier)
    (minInterval : Int) (watch : Watch) : TierOutcome :=
  tryFrom round number attempt [] tier minInterval watch

/-! ## The manager -/

structure TrackerManager where
  tiers : List Tier
  peerId : Digest
  port : Nat
  minInterval : Int := 1800

def newTier (now : Int) (number : Nat) (tierUrls : List Bytes) : Tier :=
  tierUrls.mapIdx fun i url => { origin := (number, i), url, nextAnnounce := now }

def TrackerManager.new (announceList : List (List Bytes)) (peerId : Digest) (port : Nat)
    (now : Int) : TrackerManager where
  tiers := (announceList.mapIdx (newTier now)).filter fun tier => !tier.isEmpty
  peerId := peerId
  port := port

/-- What a call meets in each tier: the time until `is_due` reads the clock, and an
attempt for each slot. -/
structure Circumstances where
  checked : Nat → Nat
  attempt : Nat → Nat → Attempt

/-- What the loop over the tiers changes besides them. The set `seen` is that of the
peers collected. -/
structure Sweep where
  minInterval : Int
  watch : Watch
  peers : List PeerAddress

/-- The reading of the clock by `is_due`, if it is asked. -/
def Watch.check (watch : Watch) (gated : Bool) (checked : Nat) : Watch :=
  if gated then { watch with clock := watch.clock + checked } else watch

def frontIsDue (tier : Tier) (now : Int) : Bool :=
  match tier with
  | [] => false
  | front :: _ => front.isDue now

/-- The loop of `announce` and, with the check in front, of `reannounce_if_due`. -/
def visitTiers (round : Round) (around : Circumstances) :
    Nat → List Tier → Sweep → List Tier × Sweep × Option Thrown
  | _, [], sweep => ([], sweep, none)
  | number, tier :: rest, sweep =>
    let watch := sweep.watch.check round.gated (around.checked number)
    if round.gated && !frontIsDue tier watch.clock then
      let (rest, sweep, thrown) := visitTiers round around (number + 1) rest { sweep with watch }
      (tier :: rest, sweep, thrown)
    else
      let outcome := tryTier round number (around.attempt number) tier sweep.minInterval watch
      match outcome.peers with
      | .error thrown =>
        (outcome.tier :: rest, ⟨outcome.minInterval, outcome.watch, sweep.peers⟩, some thrown)
      | .ok peers =>
        let (rest, sweep, thrown) := visitTiers round around (number + 1) rest
          ⟨outcome.minInterval, outcome.watch, FirstSeen.insertAll sweep.peers peers⟩
        (outcome.tier :: rest, sweep, thrown)

/-- The loop of `stop`. -/
def stopTiers (round : Round) (around : Circumstances) :
    Nat → List Tier → Watch → List Tier × Watch × Option Thrown
  | _, [], watch => ([], watch, none)
  | number, [] :: rest, watch =>
    let (rest, watch, thrown) := stopTiers round around (number + 1) rest watch
    ([] :: rest, watch, thrown)
  | number, (front :: back) :: rest, watch =>
    let watch := watch.note round number 0 front.origin (around.attempt number 0) .stopped
    let (front, answer) := front.contact (around.attempt number 0)
    match answer with
    | .error .other => ((front :: back) :: rest, watch, some .other)
    | _ =>
      let (rest, watch, thrown) := stopTiers round around (number + 1) rest watch
      ((front :: back) :: rest, watch, thrown)

/-- The manager and the clock, with the number of calls so far. -/
structure Announcer where
  manager : TrackerManager
  watch : Watch
  calls : Nat

section
variable (announcer : Announcer) (around : Circumstances)

def Announcer.visit (gated : Bool) (request : TrackerRequest) :
    Announcer × Except Thrown (List PeerAddress) :=
  let manager := announcer.manager
  let (tiers, sweep, thrown) := visitTiers ⟨announcer.calls, gated, request⟩ around 0 manager.tiers
    ⟨manager.minInterval, announcer.watch, []⟩
  (⟨{ manager with tiers, minInterval := sweep.minInterval }, sweep.watch, announcer.calls + 1⟩,
    match thrown with
    | none => .ok sweep.peers
    | some thrown => .error thrown)

def Announcer.announce (infoHash : Digest) (left downloaded uploaded : Int) (event : TrackerEvent) :
    Announcer × Except Thrown (List PeerAddress) :=
  let manager := announcer.manager
  announcer.visit around false
    { infoHash, peerId := manager.peerId, port := manager.port, downloaded, uploaded, left, event }

def Announcer.reannounceIfDue (infoHash : Digest) (downloaded uploaded left : Int) :
    Announcer × Except Thrown (List PeerAddress) :=
  let manager := announcer.manager
  announcer.visit around true
    { infoHash, peerId := manager.peerId, port := manager.port, downloaded, uploaded, left,
      event := .none }

def Announcer.stop (infoHash : Digest) (downloaded uploaded : Int) : Announcer × Option Thrown :=
  let manager := announcer.manager
  let request : TrackerRequest :=
    { infoHash, peerId := manager.peerId, port := manager.port, downloaded, uploaded, left := 0,
      event := .stopped }
  let (tiers, watch, thrown) :=
    stopTiers ⟨announcer.calls, false, request⟩ around 0 manager.tiers announcer.watch
  (⟨{ manager with tiers }, watch, announcer.calls + 1⟩, thrown)

end

/-! ## Runs -/

def Announcer.new (announceList : List (List Bytes)) (peerId : Digest) (port : Nat) (now : Int) :
    Announcer :=
  ⟨TrackerManager.new announceList peerId port now, ⟨now, []⟩, 0⟩

inductive TrackerCall where
  | announce (infoHash : Digest) (left downloaded uploaded : Int) (event : TrackerEvent)
  | reannounceIfDue (infoHash : Digest) (downloaded uploaded left : Int)
  | stop (infoHash : Digest) (downloaded uploaded : Int)

def Announcer.step (announcer : Announcer) (event : TrackerCall × Circumstances) :
    Option Announcer :=
  match event with
  | (.announce infoHash left downloaded uploaded event, around) =>
    some (announcer.announce around infoHash left downloaded uploaded event).1
  | (.reannounceIfDue infoHash downloaded uploaded left, around) =>
    some (announcer.reannounceIfDue around infoHash downloaded uploaded left).1
  | (.stop infoHash downloaded uploaded, around) =>
    some (announcer.stop around infoHash downloaded uploaded).1

end K0Torrent
