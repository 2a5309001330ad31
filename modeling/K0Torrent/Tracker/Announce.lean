import K0Torrent.Library.Machine
import K0Torrent.Tracker.TrackerManager

/-! What `announce` returns, and what becomes of the tiers.

A tier is asked in its order up to the first tracker that replies. Entries only
change places within their tier.
-/

set_option autoImplicit false

namespace K0Torrent

open Machine

/-! ## One attempt after the other -/

section
variable {round : Round} {number : Nat} {attempt : Nat → Attempt} {done rest : Tier}
  {entry entry' : TierEntry} {minInterval : Int} {watch : Watch}

theorem tryFrom_replied {response : TrackerResponse}
    (met : entry.contact (attempt done.length) = (entry', .ok response)) :
    tryFrom round number attempt done (entry :: rest) minInterval watch =
      ⟨(if 0 < done.length then moveToFront (done ++ entry' :: rest) done.length
          else done ++ entry' :: rest).modify done.length fun e =>
            e.succeed response.interval (watch.after (attempt done.length)),
        lowered minInterval response,
        watch.note round number done.length entry.origin (attempt done.length) (.replied response),
        .ok response.peers⟩ := by
  simp only [tryFrom, met]

theorem tryFrom_failed {what : Bytes}
    (met : entry.contact (attempt done.length) = (entry', .error (.standard what))) :
    tryFrom round number attempt done (entry :: rest) minInterval watch =
      tryFrom round number attempt (done ++ [entry'.fail (watch.after (attempt done.length))]) rest
        minInterval (watch.note round number done.length entry.origin (attempt done.length)
          (.failed (backoff (entry'.failures + 1)))) := by
  simp only [tryFrom, met]

theorem tryFrom_escaped (met : entry.contact (attempt done.length) = (entry', .error .other)) :
    tryFrom round number attempt done (entry :: rest) minInterval watch =
      ⟨done ++ entry' :: rest, minInterval,
        watch.note round number done.length entry.origin (attempt done.length) .escaped,
        .error .other⟩ := by
  simp only [tryFrom, met]

end

theorem moveToFront_split (done rest : Tier) (entry : TierEntry) :
    moveToFront (done ++ entry :: rest) done.length = entry :: done ++ rest := by
  rw [moveToFront, List.drop_left, List.take_left, ← List.drop_drop, List.drop_left]
  rfl

/-! ## The trackers of a tier -/

/-- What of an entry never changes. -/
def TierEntry.identity (entry : TierEntry) : (Nat × Nat) × Bytes := (entry.origin, entry.url)

theorem identity_contact (entry : TierEntry) (attempt : Attempt) :
    (entry.contact attempt).1.identity = entry.identity := by
  unfold TierEntry.contact TierEntry.getTracker
  cases entry.tracker with
  | some kind => rfl
  | none => cases makeTracker entry.url attempt.construction <;> rfl

theorem identity_of_contact {entry entry' : TierEntry} {attempt : Attempt}
    {answer : Except Thrown TrackerResponse} (met : entry.contact attempt = (entry', answer)) :
    entry'.identity = entry.identity := by
  have same := identity_contact entry attempt
  rwa [met] at same

theorem map_identity_modify (tier : Tier) (i : Nat) (interval now : Int) :
    (tier.modify i fun e => e.succeed interval now).map TierEntry.identity =
      tier.map TierEntry.identity := by
  induction tier generalizing i with
  | nil => rw [List.modify_nil]
  | cons entry rest ih =>
    cases i with
    | zero => rfl
    | succ i => exact congrArg (List.cons entry.identity) (ih i)

/-- The same trackers, in some order. -/
def SameTrackers (tier tier' : Tier) : Prop :=
  (tier'.map TierEntry.identity).Perm (tier.map TierEntry.identity)

theorem sameTrackers_tryFrom (round : Round) (number : Nat) (attempt : Nat → Attempt)
    (rest : Tier) : ∀ (done : Tier) (minInterval : Int) (watch : Watch),
    SameTrackers (done ++ rest) (tryFrom round number attempt done rest minInterval watch).tier := by
  induction rest with
  | nil =>
    intro done minInterval watch
    rw [List.append_nil]
    exact List.Perm.refl _
  | cons entry rest ih =>
    intro done minInterval watch
    rcases met : entry.contact (attempt done.length) with ⟨entry', answer⟩
    have same := identity_of_contact met
    have unmoved : (done ++ entry' :: rest).map TierEntry.identity =
        (done ++ entry :: rest).map TierEntry.identity := by
      simp only [List.map_append, List.map_cons, same]
    match answer with
    | .ok response =>
      rw [tryFrom_replied met, SameTrackers, map_identity_modify, ← unmoved]
      split
      · rw [moveToFront_split]
        exact (List.perm_middle.symm).map _
      · exact List.Perm.refl _
    | .error (.standard what) =>
      have later := ih (done ++ [entry'.fail (watch.after (attempt done.length))]) minInterval
        (watch.note round number done.length entry.origin (attempt done.length)
          (.failed (backoff (entry'.failures + 1))))
      rw [tryFrom_failed met]
      refine later.trans ?_
      rw [← unmoved, List.append_assoc]
      simp only [List.map_append, List.map_cons, List.cons_append, List.nil_append]
      exact List.Perm.refl _
    | .error .other =>
      rw [tryFrom_escaped met, SameTrackers, unmoved]

section
variable {round : Round} {around : Circumstances} {number : Nat} {tier : Tier} {rest : List Tier}
  {sweep : Sweep}

theorem visitTiers_skipped
    (early : (round.gated &&
      !frontIsDue tier (sweep.watch.check round.gated (around.checked number)).clock) = true) :
    visitTiers round around number (tier :: rest) sweep =
      let result := visitTiers round around (number + 1) rest
        { sweep with watch := sweep.watch.check round.gated (around.checked number) }
      (tier :: result.1, result.2) := by
  rw [visitTiers, if_pos early]

section
variable
  (due : (round.gated &&
    !frontIsDue tier (sweep.watch.check round.gated (around.checked number)).clock) = false)
  {outcome : TierOutcome}
  (tried : tryTier round number (around.attempt number) tier sweep.minInterval
    (sweep.watch.check round.gated (around.checked number)) = outcome)
include due tried

theorem visitTiers_ok {peers : List PeerAddress} (returned : outcome.peers = .ok peers) :
    visitTiers round around number (tier :: rest) sweep =
      let result := visitTiers round around (number + 1) rest
        ⟨outcome.minInterval, outcome.watch, FirstSeen.insertAll sweep.peers peers⟩
      (outcome.tier :: result.1, result.2) := by
  rw [visitTiers, if_neg (by rw [due]; exact Bool.false_ne_true)]
  simp only [tried, returned]

theorem visitTiers_thrown {thrown : Thrown} (escaped : outcome.peers = .error thrown) :
    visitTiers round around number (tier :: rest) sweep =
      (outcome.tier :: rest, ⟨outcome.minInterval, outcome.watch, sweep.peers⟩, some thrown) := by
  rw [visitTiers, if_neg (by rw [due]; exact Bool.false_ne_true)]
  simp only [tried, escaped]

end

theorem sameTrackers_visitTiers (tiers : List Tier) : ∀ (number : Nat) (sweep : Sweep),
    List.Forall₂ SameTrackers tiers (visitTiers round around number tiers sweep).1 := by
  induction tiers with
  | nil => exact fun _ _ => .nil
  | cons tier rest ih =>
    intro number sweep
    cases due : round.gated &&
        !frontIsDue tier (sweep.watch.check round.gated (around.checked number)).clock with
    | true =>
      rw [visitTiers_skipped due]
      exact .cons (List.Perm.refl _) (ih ..)
    | false =>
      have kept := sameTrackers_tryFrom round number (around.attempt number) tier [] sweep.minInterval
        (sweep.watch.check round.gated (around.checked number))
      cases returned : (tryTier round number (around.attempt number) tier sweep.minInterval
          (sweep.watch.check round.gated (around.checked number))).peers with
      | ok peers =>
        rw [visitTiers_ok due rfl returned]
        exact .cons kept (ih ..)
      | error thrown =>
        rw [visitTiers_thrown due rfl returned]
        exact .cons kept (List.forall₂_same.mpr fun _ _ => List.Perm.refl _)

theorem sameTrackers_stopTiers (tiers : List Tier) : ∀ (number : Nat) (watch : Watch),
    List.Forall₂ SameTrackers tiers (stopTiers round around number tiers watch).1 := by
  induction tiers with
  | nil => exact fun _ _ => .nil
  | cons tier rest ih =>
    intro number watch
    cases tier with
    | nil => exact .cons (List.Perm.refl _) (ih ..)
    | cons front back =>
      rcases met : front.contact (around.attempt number 0) with ⟨front', answer⟩
      have kept : SameTrackers (front :: back) (front' :: back) := by
        rw [SameTrackers, List.map_cons, identity_of_contact met]
        exact List.Perm.refl _
      simp only [stopTiers, met]
      split
      · exact .cons kept (List.forall₂_same.mpr fun _ _ => List.Perm.refl _)
      · exact .cons kept (ih ..)

end

/-- Tier for tier the same trackers. -/
theorem sameTrackers_trans {first second third : List Tier}
    (here : List.Forall₂ SameTrackers first second) (next : List.Forall₂ SameTrackers second third) :
    List.Forall₂ SameTrackers first third := by
  induction here generalizing third with
  | nil => exact next
  | cons same _ ih =>
    obtain ⟨other, rest, same', later, rfl⟩ := List.forall₂_cons_left_iff.mp next
    exact .cons (same'.trans same) (ih later)

/-- A call visits the tiers, or stops them. -/
theorem step_cases {announcer after : Announcer} {event : TrackerCall × Circumstances}
    (taken : announcer.step event = some after) :
    (∃ gated request, after = (announcer.visit event.2 gated request).1) ∨
      ∃ infoHash downloaded uploaded, after = (announcer.stop event.2 infoHash downloaded uploaded).1 := by
  obtain ⟨call, around⟩ := event
  cases call with
  | announce => exact .inl ⟨_, _, (Option.some.inj taken).symm⟩
  | reannounceIfDue => exact .inl ⟨_, _, (Option.some.inj taken).symm⟩
  | stop => exact .inr ⟨_, _, _, (Option.some.inj taken).symm⟩

theorem sameTrackers_step {announcer after : Announcer} {event : TrackerCall × Circumstances}
    (taken : announcer.step event = some after) :
    List.Forall₂ SameTrackers announcer.manager.tiers after.manager.tiers := by
  rcases step_cases taken with ⟨gated, request, rfl⟩ | ⟨infoHash, downloaded, uploaded, rfl⟩
  · exact sameTrackers_visitTiers ..
  · exact sameTrackers_stopTiers ..

theorem sameTrackers_of_run {start announcer : Announcer}
    {history : List (Transition Announcer (TrackerCall × Circumstances))}
    (run : Run Announcer.step start history announcer) :
    List.Forall₂ SameTrackers start.manager.tiers announcer.manager.tiers := by
  refine run.invariant (fun s => List.Forall₂ SameTrackers start.manager.tiers s.manager.tiers)
    (List.forall₂_same.mpr fun _ _ => List.Perm.refl _) fun s e t same taken => ?_
  exact sameTrackers_trans same (sameTrackers_step taken)

/-! ## The tiers of an announce list -/

theorem map_url_newTier (now : Int) (number : Nat) (tierUrls : List Bytes) :
    (newTier now number tierUrls).map TierEntry.url = tierUrls := by
  apply List.ext_getElem?
  intro i
  rw [newTier, List.getElem?_map, List.getElem?_mapIdx, Option.map_map]
  exact Option.map_id_apply

theorem urls_mapIdx {read : Nat → List Bytes → Tier}
    (urls : ∀ number tierUrls, (read number tierUrls).map TierEntry.url = tierUrls)
    (announceList : List (List Bytes)) :
    ((announceList.mapIdx read).filter fun tier => !tier.isEmpty).map (List.map TierEntry.url) =
      announceList.filter fun tierUrls => !tierUrls.isEmpty := by
  induction announceList generalizing read with
  | nil => rfl
  | cons tierUrls rest ih =>
    have later := @ih (fun number => read (number + 1)) fun _ => urls _
    have empty := congrArg List.isEmpty (urls 0 tierUrls)
    rw [List.isEmpty_map] at empty
    rw [List.mapIdx_cons, List.filter_cons, List.filter_cons, empty]
    split
    · rw [List.map_cons, urls, later]
    · exact later

theorem urls_new (announceList : List (List Bytes)) (peerId : Digest) (port : Nat) (now : Int) :
    (TrackerManager.new announceList peerId port now).tiers.map (List.map TierEntry.url) =
      announceList.filter fun tierUrls => !tierUrls.isEmpty :=
  urls_mapIdx (map_url_newTier now) announceList

/-! ## Who replies -/

def TierEntry.reply (entry : TierEntry) (attempt : Attempt) : Except Thrown TrackerResponse :=
  (entry.contact attempt).2

/-- What the first tracker to reply says, the slots counted from `i` on. -/
def firstReply (attempt : Nat → Attempt) (i : Nat) (tier : Tier) : Option TrackerResponse :=
  (tier.zipIdx i).findSome? fun x => (x.1.reply (attempt x.2)).toOption

/-- The peers that the tiers contribute, one tier after the other. -/
def repliedPeers (around : Circumstances) (number : Nat) (tiers : List Tier) : List PeerAddress :=
  (tiers.zipIdx number).flatMap fun x =>
    (firstReply (around.attempt x.2) 0 x.1).elim [] TrackerResponse.peers

def Attempt.Standard (attempt : Attempt) : Prop :=
  attempt.construction ≠ some .other ∧ attempt.answer ≠ .error .other

/-- Whatever is thrown is derived from `std::exception`. -/
def Circumstances.Standard (around : Circumstances) : Prop :=
  ∀ number i, (around.attempt number i).Standard

theorem makeTracker_standard {url : Bytes} {construction : Option Thrown}
    (standard : construction ≠ some .other) : makeTracker url construction ≠ .error .other := by
  unfold makeTracker
  split
  · cases construction with
    | none => nofun
    | some thrown => exact fun other => standard (congrArg some (Except.error.inj other))
  · split
    · cases construction with
      | none => nofun
      | some thrown => exact fun other => standard (congrArg some (Except.error.inj other))
    · nofun

theorem reply_standard {entry : TierEntry} {attempt : Attempt} (standard : attempt.Standard) :
    entry.reply attempt ≠ .error .other := by
  unfold TierEntry.reply TierEntry.contact TierEntry.getTracker
  cases entry.tracker with
  | some kind => exact standard.2
  | none =>
    have created := @makeTracker_standard entry.url _ standard.1
    cases made : makeTracker entry.url attempt.construction with
    | ok kind => exact standard.2
    | error thrown =>
      rw [made] at created
      exact fun other => created (congrArg Except.error (Except.error.inj other))

theorem peers_tryFrom (round : Round) (number : Nat) {attempt : Nat → Attempt}
    (standard : ∀ i, (attempt i).Standard) (rest : Tier) :
    ∀ (done : Tier) (minInterval : Int) (watch : Watch),
      (tryFrom round number attempt done rest minInterval watch).peers =
        .ok ((firstReply attempt done.length rest).elim [] TrackerResponse.peers) := by
  induction rest with
  | nil => exact fun _ _ _ => rfl
  | cons entry rest ih =>
    intro done minInterval watch
    rcases met : entry.contact (attempt done.length) with ⟨entry', answer⟩
    have replied : entry.reply (attempt done.length) = answer := congrArg Prod.snd met
    rw [firstReply, List.zipIdx_cons, List.findSome?_cons, replied]
    match answer with
    | .ok response =>
      rw [tryFrom_replied met]
      rfl
    | .error (.standard what) =>
      rw [tryFrom_failed met, ih, List.length_append]
      rfl
    | .error .other => exact absurd replied (reply_standard (standard _))

theorem peers_visitTiers {round : Round} {around : Circumstances} (ungated : round.gated = false)
    (standard : around.Standard) (tiers : List Tier) : ∀ (number : Nat) (sweep : Sweep),
    (visitTiers round around number tiers sweep).2.2 = none ∧
      (visitTiers round around number tiers sweep).2.1.peers =
        FirstSeen.insertAll sweep.peers (repliedPeers around number tiers) := by
  induction tiers with
  | nil => exact fun _ _ => ⟨rfl, rfl⟩
  | cons tier rest ih =>
    intro number sweep
    have peers := peers_tryFrom round number (standard number) tier [] sweep.minInterval
      (sweep.watch.check round.gated (around.checked number))
    rw [visitTiers_ok (by rw [ungated]; rfl) rfl peers]
    obtain ⟨none_, collected⟩ := ih (number + 1) ⟨_, _, FirstSeen.insertAll sweep.peers
      ((firstReply (around.attempt number) 0 tier).elim [] TrackerResponse.peers)⟩
    exact ⟨none_, collected.trans (FirstSeen.insertAll_append ..).symm⟩

/-! ## Who is contacted -/

theorem drop_succ {tier rest : Tier} {entry : TierEntry} {i : Nat}
    (left : tier.drop i = entry :: rest) : tier[i]? = some entry ∧ tier.drop (i + 1) = rest := by
  constructor
  · rw [← List.head?_drop, left]
    rfl
  · rw [← List.tail_drop, left]
    rfl

/-- A record of an attempt at an entry of the tier, all entries before it having failed. -/
structure Tried (round : Round) (number : Nat) (attempt : Nat → Attempt) (tier : Tier)
    (c : Contact) : Prop where
  sameRound : c.round = round
  sameTier : c.tier = number
  here : ∃ entry, tier[c.slot]? = some entry ∧ entry.origin = c.origin
  before : ∀ j < c.slot, ∃ entry thrown, tier[j]? = some entry ∧
    entry.reply (attempt j) = .error thrown

section
variable {round : Round} {number : Nat} {attempt : Nat → Attempt} {tier : Tier}

theorem tried_tryFrom (rest : Tier) : ∀ (done : Tier) (minInterval : Int) (watch : Watch),
    tier.drop done.length = rest →
    (∀ j < done.length, ∃ entry thrown, tier[j]? = some entry ∧
      entry.reply (attempt j) = .error thrown) →
    ∃ new, (tryFrom round number attempt done rest minInterval watch).watch.contacts =
        new ++ watch.contacts ∧ ∀ c ∈ new, Tried round number attempt tier c := by
  induction rest with
  | nil => exact fun _ _ _ _ _ => ⟨[], rfl, List.forall_mem_nil _⟩
  | cons entry rest ih =>
    intro done minInterval watch left before
    obtain ⟨here, left'⟩ := drop_succ left
    rcases met : entry.contact (attempt done.length) with ⟨entry', answer⟩
    have first : ∀ ending, Tried round number attempt tier
        ⟨round, number, done.length, entry.origin, watch.clock + (attempt done.length).waited,
          watch.after (attempt done.length), ending⟩ :=
      fun _ => ⟨rfl, rfl, ⟨entry, here, rfl⟩, before⟩
    match answer with
    | .ok response =>
      rw [tryFrom_replied met]
      exact ⟨[_], rfl, fun c member => List.mem_singleton.mp member ▸ first _⟩
    | .error (.standard what) =>
      have replied : entry.reply (attempt done.length) = .error (.standard what) :=
        congrArg Prod.snd met
      obtain ⟨new, contacts, tried⟩ := ih
        (done ++ [entry'.fail (watch.after (attempt done.length))]) minInterval
        (watch.note round number done.length entry.origin (attempt done.length)
          (.failed (backoff (entry'.failures + 1)))) (by rw [List.length_append]; exact left') fun j bound => by
            rw [List.length_append] at bound
            rcases Nat.lt_succ_iff_lt_or_eq.mp bound with earlier | rfl
            · exact before j earlier
            · exact ⟨entry, _, here, replied⟩
      rw [tryFrom_failed met, contacts]
      refine ⟨new ++ [_], (List.append_cons ..), fun c member => ?_⟩
      rcases List.mem_append.mp member with later | last
      · exact tried c later
      · exact List.mem_singleton.mp last ▸ first _
    | .error .other =>
      rw [tryFrom_escaped met]
      exact ⟨[_], rfl, fun c member => List.mem_singleton.mp member ▸ first _⟩

end

theorem contacts_check (watch : Watch) (gated : Bool) (checked : Nat) :
    (watch.check gated checked).contacts = watch.contacts := by
  unfold Watch.check
  split <;> rfl

theorem tried_visitTiers {round : Round} {around : Circumstances} (tiers : List Tier) :
    ∀ (number : Nat) (sweep : Sweep),
      ∃ new, (visitTiers round around number tiers sweep).2.1.watch.contacts =
          new ++ sweep.watch.contacts ∧
        ∀ c ∈ new, ∃ i tier, tiers[i]? = some tier ∧
          Tried round (number + i) (around.attempt (number + i)) tier c := by
  induction tiers with
  | nil => exact fun _ _ => ⟨[], rfl, List.forall_mem_nil _⟩
  | cons tier rest ih =>
    intro number sweep
    have shift : ∀ {c}, (∃ i tier, rest[i]? = some tier ∧
        Tried round (number + 1 + i) (around.attempt (number + 1 + i)) tier c) →
        ∃ i tier', (tier :: rest)[i]? = some tier' ∧
          Tried round (number + i) (around.attempt (number + i)) tier' c := by
      rintro c ⟨i, other, at_, tried⟩
      rw [Nat.add_assoc, Nat.add_comm 1] at tried
      exact ⟨i + 1, other, at_, tried⟩
    cases due : round.gated &&
        !frontIsDue tier (sweep.watch.check round.gated (around.checked number)).clock with
    | true =>
      rw [visitTiers_skipped due]
      obtain ⟨new, contacts, tried⟩ := ih (number + 1)
        { sweep with watch := sweep.watch.check round.gated (around.checked number) }
      exact ⟨new, contacts.trans (by rw [contacts_check]), fun c member => shift (tried c member)⟩
    | false =>
      obtain ⟨new, contacts, tried⟩ := @tried_tryFrom round number (around.attempt number) tier tier []
        sweep.minInterval (sweep.watch.check round.gated (around.checked number)) rfl nofun
      rw [contacts_check] at contacts
      have here : ∀ c ∈ new, ∃ i tier', (tier :: rest)[i]? = some tier' ∧
          Tried round (number + i) (around.attempt (number + i)) tier' c :=
        fun c member => ⟨0, tier, rfl, tried c member⟩
      cases returned : (tryFrom round number (around.attempt number) [] tier sweep.minInterval
          (sweep.watch.check round.gated (around.checked number))).peers with
      | error thrown =>
        rw [visitTiers_thrown due rfl returned]
        exact ⟨new, contacts, here⟩
      | ok peers =>
        rw [visitTiers_ok due rfl returned]
        obtain ⟨later, contacts', tried'⟩ := ih (number + 1) ⟨_, _, FirstSeen.insertAll sweep.peers _⟩
        refine ⟨later ++ new, contacts'.trans ?_, fun c member => ?_⟩
        · rw [List.append_assoc, ← contacts]
          rfl
        · rcases List.mem_append.mp member with inLater | inNew
          · exact shift (tried' c inLater)
          · exact here c inNew

/-! ## Announcing -/

/-- Each tier holds the URLs of one list of the announce list that is not empty. -/
def HoldsUrls (announceList : List (List Bytes)) (tiers : List Tier) : Prop :=
  List.Forall₂ (fun tierUrls tier => (tier.map TierEntry.url).Perm tierUrls)
    (announceList.filter fun tierUrls => !tierUrls.isEmpty) tiers

theorem holdsUrls_of_sameTrackers {announceList : List (List Bytes)} {peerId : Digest} {port : Nat}
    {now : Int} {tiers : List Tier}
    (same : List.Forall₂ SameTrackers (TrackerManager.new announceList peerId port now).tiers tiers) :
    HoldsUrls announceList tiers := by
  rw [HoldsUrls, ← urls_new announceList peerId port now, List.forall₂_map_left_iff]
  refine same.imp fun tier tier' trackers => ?_
  have urls := trackers.map Prod.snd
  rwa [List.map_map, List.map_map] at urls

theorem visit_of_none {announcer : Announcer} {around : Circumstances} {gated : Bool}
    {request : TrackerRequest} {tiers : List Tier} {sweep : Sweep}
    (visited : visitTiers ⟨announcer.calls, gated, request⟩ around 0 announcer.manager.tiers
      ⟨announcer.manager.minInterval, announcer.watch, []⟩ = (tiers, sweep, none)) :
    announcer.visit around gated request =
      (⟨{ announcer.manager with tiers, minInterval := sweep.minInterval }, sweep.watch,
        announcer.calls + 1⟩, .ok sweep.peers) := by
  simp only [Announcer.visit, visited]

/-- Over every run, a call of `announce` that meets no foreign exception returns the
peers of the first tracker of each tier to reply, each once and in the order of
their first appearance, and asks no tracker behind one that has replied. -/
theorem announce_merges {announceList : List (List Bytes)} {peerId : Digest} {port : Nat} {now : Int}
    {history : List (Transition Announcer (TrackerCall × Circumstances))} {announcer : Announcer}
    (run : Run Announcer.step (Announcer.new announceList peerId port now) history announcer)
    {around : Circumstances} (standard : around.Standard) (infoHash : Digest)
    (left downloaded uploaded : Int) (event : TrackerEvent) :
    HoldsUrls announceList announcer.manager.tiers ∧
      ∃ after peers,
        announcer.announce around infoHash left downloaded uploaded event = (after, .ok peers) ∧
        peers.Nodup ∧ peers = (repliedPeers around 0 announcer.manager.tiers).eraseDups ∧
        HoldsUrls announceList after.manager.tiers ∧
        ∃ new, after.watch.contacts = new ++ announcer.watch.contacts ∧
          ∀ c ∈ new, ∃ tier, announcer.manager.tiers[c.tier]? = some tier ∧
            ∀ j < c.slot, ∃ entry thrown, tier[j]? = some entry ∧
              entry.reply (around.attempt c.tier j) = .error thrown := by
  let request : TrackerRequest :=
    { infoHash, peerId := announcer.manager.peerId, port := announcer.manager.port, downloaded,
      uploaded, left, event }
  let round : Round := ⟨announcer.calls, false, request⟩
  rcases visited : visitTiers round around 0 announcer.manager.tiers
    ⟨announcer.manager.minInterval, announcer.watch, []⟩ with ⟨tiers, sweep, thrown⟩
  have kept := @sameTrackers_visitTiers round around announcer.manager.tiers 0
    ⟨announcer.manager.minInterval, announcer.watch, []⟩
  obtain ⟨none_, peers⟩ := @peers_visitTiers round around rfl standard announcer.manager.tiers 0
    ⟨announcer.manager.minInterval, announcer.watch, []⟩
  obtain ⟨new, contacts, tried⟩ := @tried_visitTiers round around announcer.manager.tiers 0
    ⟨announcer.manager.minInterval, announcer.watch, []⟩
  rw [visited] at kept none_ peers contacts
  cases none_
  have same := sameTrackers_of_run run
  refine ⟨holdsUrls_of_sameTrackers same, _, sweep.peers, visit_of_none visited, ?_, ?_,
    holdsUrls_of_sameTrackers (sameTrackers_trans same kept), new, contacts, ?_⟩
  · rw [peers]
    exact FirstSeen.nodup_insertAll List.nodup_nil _
  · rw [peers]
    exact FirstSeen.insertAll_nil _
  · intro c member
    obtain ⟨i, tier, at_, tried⟩ := tried c member
    rw [Nat.zero_add] at tried
    have number := tried.sameTier
    subst number
    exact ⟨tier, at_, tried.before⟩

/-- A tracker of an unknown scheme before one that replies, and a second tier. -/
def twoTiers : List (List Bytes) := [[ascii "x:", ascii "udp:a"], [ascii "http:b"]]

/-- Everything replies: with a peer that all have, and one of its own. -/
def allReply : Circumstances :=
  ⟨fun _ => 0, fun number i => { answer := .ok { peers := [⟨9, 9⟩, ⟨number, i⟩] } }⟩

theorem standard_allReply : allReply.Standard :=
  fun _ _ => ⟨by simp [allReply], by simp [allReply]⟩

def noHash : Digest := Vector.replicate 20 0

theorem announce_merges_twoTiers :
    let announcer := Announcer.new twoTiers noHash 6881 0
    let before := (announcer.announce allReply noHash 1 0 0 .started).1
    HoldsUrls twoTiers before.manager.tiers ∧
      ∃ after peers, before.announce allReply noHash 1 0 0 .none = (after, .ok peers) ∧
        peers.Nodup ∧ peers = (repliedPeers allReply 0 before.manager.tiers).eraseDups ∧
        HoldsUrls twoTiers after.manager.tiers ∧
        ∃ new, after.watch.contacts = new ++ before.watch.contacts ∧
          ∀ c ∈ new, ∃ tier, before.manager.tiers[c.tier]? = some tier ∧
            ∀ j < c.slot, ∃ entry thrown, tier[j]? = some entry ∧
              entry.reply (allReply.attempt c.tier j) = .error thrown :=
  announce_merges (.next (e := (.announce noHash 1 0 0 .started, allReply)) .start rfl)
    standard_allReply noHash 1 0 0 .none

example : ((Announcer.new twoTiers noHash 6881 0).announce allReply noHash 1 0 0 .started).2 =
    .ok [⟨9, 9⟩, ⟨0, 1⟩, ⟨1, 0⟩] := rfl

end K0Torrent
