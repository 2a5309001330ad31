import K0Torrent.Tracker.Announce
import Mathlib.Data.List.Infix

/-! When `reannounce_if_due` contacts a tracker.

Only the first entry of a tier is asked whether it is due. The others are tried
when all before them have failed. The first entry keeps the schedule of its last
contact, unless that was a success behind other entries.
-/

set_option autoImplicit false

namespace K0Torrent

open Machine

/-! ## The law -/

/-- How long the manager means to leave the tracker alone, in seconds. -/
def Ending.wait : Ending → Option Int
  | replied response => some response.interval
  | failed backoff => some backoff
  | escaped => none
  | stopped => none

def Contact.due (c : Contact) : Option Int := c.ending.wait.map fun wait => c.finished + seconds wait

/-- A success of a tracker that was not the first of its tier. -/
def Contact.Promoted (c : Contact) : Prop := 0 < c.slot ∧ ∃ response, c.ending = .replied response

def lastContact (contacts : List Contact) (origin : Nat × Nat) : Option Contact :=
  contacts.find? fun c => c.origin = origin

/-- What holds of a contact in a call that asks `is_due`, given those before it. -/
structure Respects (c : Contact) (earlier : List Contact) : Prop where
  first : c.slot = 0 → ∀ p ∈ lastContact earlier c.origin, ∀ due ∈ p.due,
    p.Promoted ∨ due ≤ c.started
  behind : ∀ j < c.slot, ∃ q ∈ earlier, q.round = c.round ∧ q.tier = c.tier ∧ q.slot = j ∧
    ∃ backoff, q.ending = .failed backoff

/-! ## The first entry of a tier -/

def OnSchedule (contacts : List Contact) (front : TierEntry) : Prop :=
  ∀ c ∈ lastContact contacts front.origin, ∀ due ∈ c.due,
    c.Promoted ∨ (c.slot = 0 ∧ due = front.nextAnnounce)

theorem lastContact_self {contacts : List Contact} {c : Contact} {origin : Nat × Nat}
    (same : c.origin = origin) : lastContact (c :: contacts) origin = some c := by
  rw [lastContact, List.find?_cons_of_pos (by simpa using same)]

theorem lastContact_note (watch : Watch) (round : Round) (tier slot : Nat) {origin origin' : Nat × Nat}
    (same : origin = origin') (attempt : Attempt) (ending : Ending) :
    lastContact (watch.note round tier slot origin attempt ending).contacts origin' =
      some ⟨round, tier, slot, origin, watch.clock + attempt.waited, watch.after attempt, ending⟩ :=
  lastContact_self same

theorem lastContact_append {contacts : List Contact} {origin : Nat × Nat} (new : List Contact)
    (others : ∀ c ∈ new, c.origin ≠ origin) :
    lastContact (new ++ contacts) origin = lastContact contacts origin := by
  have none_ : new.find? (fun c => decide (c.origin = origin)) = none :=
    List.find?_eq_none.mpr fun c member => by simpa using others c member
  rw [lastContact, List.find?_append, none_, Option.none_or]
  rfl

theorem OnSchedule.frame {contacts : List Contact} {front : TierEntry}
    (onSchedule : OnSchedule contacts front) {new : List Contact}
    (others : ∀ c ∈ new, c.origin ≠ front.origin) : OnSchedule (new ++ contacts) front := by
  intro c found
  rw [lastContact_append new others] at found
  exact onSchedule c found

theorem OnSchedule.note {watch : Watch} {front : TierEntry}
    (onSchedule : OnSchedule watch.contacts front) {origin : Nat × Nat} (other : origin ≠ front.origin)
    (round : Round) (tier slot : Nat) (attempt : Attempt) (ending : Ending) :
    OnSchedule (watch.note round tier slot origin attempt ending).contacts front :=
  @OnSchedule.frame watch.contacts front onSchedule [_] fun _ member =>
    List.mem_singleton.mp member ▸ other

/-- The entry that was contacted last goes by what that contact brought. -/
theorem onSchedule_note (watch : Watch) (round : Round) (tier slot : Nat) {origin : Nat × Nat}
    {front : TierEntry} (same : origin = front.origin) (attempt : Attempt) (ending : Ending)
    (brought : ∀ wait ∈ ending.wait, (0 < slot ∧ ∃ response, ending = .replied response) ∨
      (slot = 0 ∧ watch.after attempt + seconds wait = front.nextAnnounce)) :
    OnSchedule (watch.note round tier slot origin attempt ending).contacts front := by
  intro c found due dueIs
  rw [lastContact_note watch round tier slot same] at found
  cases found
  obtain ⟨wait, waits, rfl⟩ := Option.map_eq_some_iff.mp dueIs
  exact brought wait waits

/-- Every contact of a call that asks `is_due` obeys the law. -/
def Lawful (contacts : List Contact) : Prop :=
  ∀ c earlier, (c :: earlier) <:+ contacts → c.round.gated = true → Respects c earlier

theorem Lawful.cons {contacts : List Contact} (lawful : Lawful contacts) {c : Contact}
    (respects : c.round.gated = true → Respects c contacts) : Lawful (c :: contacts) := by
  intro d earlier made gated
  rcases List.suffix_cons_iff.mp made with same | before
  · obtain ⟨rfl, rfl⟩ := List.cons.inj same
    exact respects gated
  · exact lawful d earlier before gated

/-! ## Within a tier -/

/-- Where the loop of `try_tier` stands. -/
structure Passing (round : Round) (number : Nat) (done rest : Tier) (watch : Watch) : Prop where
  lawful : Lawful watch.contacts
  front : ∀ front ∈ (done ++ rest).head?, OnSchedule watch.contacts front
  failed : ∀ j < done.length, ∃ q ∈ watch.contacts, q.round = round ∧ q.tier = number ∧ q.slot = j ∧
    ∃ backoff, q.ending = .failed backoff
  due : round.gated = true → done = [] → ∀ front ∈ rest.head?, front.nextAnnounce ≤ watch.clock
  distinct : ((done ++ rest).map TierEntry.origin).Nodup

section
variable {round : Round} {number : Nat} {attempt : Nat → Attempt} {done rest : Tier}
  {entry entry' : TierEntry} {minInterval : Int} {watch : Watch}

theorem origin_of_contact {attempt : Attempt} {answer : Except Thrown TrackerResponse}
    (met : entry.contact attempt = (entry', answer)) : entry'.origin = entry.origin :=
  congrArg Prod.fst (identity_of_contact met)

theorem origin_of_fail {attempt : Attempt} {answer : Except Thrown TrackerResponse}
    (met : entry.contact attempt = (entry', answer)) (now : Int) :
    entry.origin = (entry'.fail now).origin :=
  (origin_of_contact met).symm

theorem Passing.note (passing : Passing round number done (entry :: rest) watch)
    (attempt : Attempt) (ending : Ending) :
    Lawful (watch.note round number done.length entry.origin attempt ending).contacts := by
  refine passing.lawful.cons fun gated => ⟨fun first p found due dueIs => ?_, passing.failed⟩
  have start : done = [] := List.eq_nil_of_length_eq_zero first
  subst start
  rcases passing.front entry rfl p found due dueIs with promoted | ⟨-, same⟩
  · exact .inl promoted
  · have ready := passing.due gated rfl entry rfl
    right
    change due ≤ watch.clock + attempt.waited
    omega

/-- Entries behind the first one leave its schedule alone. -/
theorem Passing.front_kept (passing : Passing round number done (entry :: rest) watch)
    (attempt : Attempt) (ending : Ending) :
    ∀ front ∈ done.head?,
      OnSchedule (watch.note round number done.length entry.origin attempt ending).contacts front := by
  cases done with
  | nil => exact nofun
  | cons first others =>
    rintro front ⟨⟩
    have distinct := passing.distinct
    simp only [List.cons_append, List.map_cons, List.map_append, List.nodup_cons] at distinct
    have different : entry.origin ≠ first.origin := fun same => distinct.1 (same ▸ by simp)
    exact (passing.front first rfl).note different round number _ attempt ending

theorem Passing.fail (passing : Passing round number done (entry :: rest) watch) {attempt : Attempt}
    {answer : Except Thrown TrackerResponse} (met : entry.contact attempt = (entry', answer)) :
    Passing round number (done ++ [entry'.fail (watch.after attempt)]) rest
      (watch.note round number done.length entry.origin attempt
        (.failed (backoff (entry'.failures + 1)))) where
  lawful := passing.note attempt _
  front := by
    cases done with
    | nil =>
      rintro front ⟨⟩
      refine onSchedule_note watch round number _ (origin_of_fail met _) attempt _ ?_
      rintro wait ⟨⟩
      exact .inr ⟨rfl, rfl⟩
    | cons first others => exact passing.front_kept attempt _
  failed j bound := by
    rw [List.length_append] at bound
    rcases Nat.lt_succ_iff_lt_or_eq.mp bound with earlier | rfl
    · obtain ⟨q, member, rest⟩ := passing.failed j earlier
      exact ⟨q, List.mem_cons_of_mem _ member, rest⟩
    · exact ⟨_, List.mem_cons_self .., rfl, rfl, rfl, _, rfl⟩
  due _ none_ := absurd none_ (by simp)
  distinct := by
    have distinct := passing.distinct
    rw [List.map_append, List.map_cons] at distinct
    rwa [List.append_assoc, List.singleton_append, List.map_append, List.map_cons,
      ← origin_of_fail met]

/-- After a pass over a tier the law holds, and its first entry is on schedule. -/
theorem lawful_tryFrom (rest : Tier) : ∀ (done : Tier) (watch : Watch),
    Passing round number done rest watch →
    Lawful (tryFrom round number attempt done rest minInterval watch).watch.contacts ∧
      ∀ front ∈ (tryFrom round number attempt done rest minInterval watch).tier.head?,
        OnSchedule (tryFrom round number attempt done rest minInterval watch).watch.contacts
          front := by
  induction rest with
  | nil =>
    intro done watch passing
    have front := passing.front
    rw [List.append_nil] at front
    exact ⟨passing.lawful, front⟩
  | cons entry rest ih =>
    intro done watch passing
    rcases met : entry.contact (attempt done.length) with ⟨entry', answer⟩
    match answer with
    | .ok response =>
      rw [tryFrom_replied met]
      refine ⟨passing.note _ _, ?_⟩
      cases done with
      | nil =>
        rintro front ⟨⟩
        refine @onSchedule_note watch round number _ _ (entry'.succeed response.interval _)
          (origin_of_contact met).symm _ _ ?_
        rintro wait ⟨⟩
        exact .inr ⟨rfl, rfl⟩
      | cons first others =>
        -- The rotation has put the entry in front as it was before the contact.
        rw [if_pos (show 0 < (first :: others).length from Nat.succ_pos _), moveToFront_split]
        rintro front ⟨⟩
        exact onSchedule_note watch round number _ (origin_of_contact met).symm _ _ fun _ _ =>
          .inl ⟨Nat.succ_pos _, response, rfl⟩
    | .error (.standard what) =>
      rw [tryFrom_failed met]
      exact ih _ _ (passing.fail met)
    | .error .other =>
      rw [tryFrom_escaped met]
      refine ⟨passing.note _ _, ?_⟩
      cases done with
      | nil =>
        rintro front ⟨⟩
        exact onSchedule_note watch round number _ (origin_of_contact met).symm _ _ fun wait waits =>
          by cases waits
      | cons first others => exact passing.front_kept _ _

end

/-! ## Over all tiers -/

def origins (tiers : List Tier) : List (Nat × Nat) := tiers.flatten.map TierEntry.origin

theorem origins_cons (tier : Tier) (rest : List Tier) :
    origins (tier :: rest) = tier.map TierEntry.origin ++ origins rest := by
  rw [origins, List.flatten_cons, List.map_append]
  rfl

theorem origin_mem_of_front {tier : Tier} {front : TierEntry} (here : front ∈ tier.head?) :
    front.origin ∈ tier.map TierEntry.origin :=
  List.mem_map_of_mem (List.mem_of_mem_head? here)

theorem Tried.origin_mem {round : Round} {number : Nat} {attempt : Nat → Attempt} {tier : Tier}
    {c : Contact} (tried : Tried round number attempt tier c) :
    c.origin ∈ tier.map TierEntry.origin := by
  obtain ⟨entry, at_, same⟩ := tried.here
  exact same ▸ List.mem_map_of_mem (List.mem_of_getElem? at_)

theorem SameTrackers.origins {tier tier' : Tier} (same : SameTrackers tier tier') :
    (tier'.map TierEntry.origin).Perm (tier.map TierEntry.origin) := by
  have origins := same.map Prod.fst
  rwa [List.map_map, List.map_map] at origins

theorem origins_perm {tiers tiers' : List Tier} (same : List.Forall₂ SameTrackers tiers tiers') :
    (origins tiers').Perm (origins tiers) := by
  induction same with
  | nil => exact List.Perm.refl _
  | cons here _ ih =>
    rw [origins_cons, origins_cons]
    exact here.origins.append ih

/-- The law holds, and each tier's first entry is on schedule. -/
structure InOrder (tiers : List Tier) (contacts : List Contact) : Prop where
  lawful : Lawful contacts
  fronts : ∀ tier ∈ tiers, ∀ front ∈ tier.head?, OnSchedule contacts front

theorem InOrder.tail {tier : Tier} {rest : List Tier} {contacts : List Contact}
    (inOrder : InOrder (tier :: rest) contacts) : InOrder rest contacts :=
  ⟨inOrder.lawful, fun other member => inOrder.fronts other (List.mem_cons_of_mem _ member)⟩

theorem fronts_frame {tiers : List Tier} {contacts new : List Contact}
    (fronts : ∀ tier ∈ tiers, ∀ front ∈ tier.head?, OnSchedule contacts front)
    (others : ∀ c ∈ new, c.origin ∉ origins tiers) :
    ∀ tier ∈ tiers, ∀ front ∈ tier.head?, OnSchedule (new ++ contacts) front := by
  intro tier member front here
  refine (fronts tier member front here).frame fun c inNew same => others c inNew ?_
  rw [same]
  exact List.mem_map_of_mem (List.mem_flatten_of_mem member (List.mem_of_mem_head? here))

/-- A tier joins those behind it, whose contacts are not with its trackers. -/
theorem InOrder.join {tier : Tier} {rest : List Tier} {contacts new : List Contact}
    (later : InOrder rest (new ++ contacts)) (front : ∀ front ∈ tier.head?, OnSchedule contacts front)
    (others : ∀ c ∈ new, c.origin ∉ tier.map TierEntry.origin) :
    InOrder (tier :: rest) (new ++ contacts) where
  lawful := later.lawful
  fronts other member first here := by
    rcases List.mem_cons.mp member with rfl | behind
    · exact (front first here).frame fun c inNew same =>
        others c inNew (same ▸ origin_mem_of_front here)
    · exact later.fronts other behind first here

section
variable {round : Round} {around : Circumstances}

theorem new_visitTiers (tiers : List Tier) (number : Nat) (sweep : Sweep) :
    ∃ new, (visitTiers round around number tiers sweep).2.1.watch.contacts =
        new ++ sweep.watch.contacts ∧ ∀ c ∈ new, c.origin ∈ origins tiers := by
  obtain ⟨new, contacts, tried⟩ := @tried_visitTiers round around tiers number sweep
  refine ⟨new, contacts, fun c member => ?_⟩
  obtain ⟨i, tier, at_, tried⟩ := tried c member
  obtain ⟨entry, here, same⟩ := tried.here
  exact same ▸ List.mem_map_of_mem
    (List.mem_flatten_of_mem (List.mem_of_getElem? at_) (List.mem_of_getElem? here))

theorem passing_of_due {number : Nat} {tier : Tier} {watch : Watch}
    (lawful : Lawful watch.contacts) (front : ∀ front ∈ tier.head?, OnSchedule watch.contacts front)
    (due : (round.gated && !frontIsDue tier watch.clock) = false)
    (distinct : (tier.map TierEntry.origin).Nodup) : Passing round number [] tier watch where
  lawful := lawful
  front := front
  failed := nofun
  due gated _ first here := by
    rw [gated, Bool.true_and, Bool.not_eq_false'] at due
    cases tier with
    | nil => cases here
    | cons entry rest =>
      cases here
      exact of_decide_eq_true due
  distinct := distinct

/-- A pass over a tier keeps the order of it and of the tiers behind it. -/
theorem inOrder_tryTier (number : Nat) {tier : Tier} {rest : List Tier} {watch : Watch}
    (attempt : Nat → Attempt) (minInterval : Int) (distinct : (origins (tier :: rest)).Nodup)
    (inOrder : InOrder (tier :: rest) watch.contacts)
    (due : (round.gated && !frontIsDue tier watch.clock) = false) :
    InOrder ((tryTier round number attempt tier minInterval watch).tier :: rest)
      (tryTier round number attempt tier minInterval watch).watch.contacts := by
  rw [origins_cons] at distinct
  obtain ⟨distinctHere, -, apart⟩ := List.nodup_append.mp distinct
  obtain ⟨lawful, front⟩ := @lawful_tryFrom round number attempt minInterval tier [] watch
    (passing_of_due inOrder.lawful (inOrder.fronts tier (List.mem_cons_self ..)) due distinctHere)
  obtain ⟨new, contacts, tried⟩ := @tried_tryFrom round number attempt tier tier [] minInterval watch
    rfl nofun
  -- The trackers of the tiers behind have not been contacted meanwhile.
  have fronts := @fronts_frame rest watch.contacts new inOrder.tail.fronts fun c member inRest =>
    apart _ (tried c member).origin_mem _ inRest rfl
  rw [← contacts] at fronts
  refine ⟨lawful, fun other member => ?_⟩
  rcases List.mem_cons.mp member with rfl | behind
  · exact front
  · exact fronts other behind

theorem inOrder_visitTiers (tiers : List Tier) : ∀ (number : Nat) (sweep : Sweep),
    (origins tiers).Nodup → InOrder tiers sweep.watch.contacts →
    InOrder (visitTiers round around number tiers sweep).1
      (visitTiers round around number tiers sweep).2.1.watch.contacts := by
  induction tiers with
  | nil => exact fun _ _ _ inOrder => inOrder
  | cons tier rest ih =>
    intro number sweep distinct inOrder
    rw [← contacts_check sweep.watch round.gated (around.checked number)] at inOrder
    have apart := distinct
    rw [origins_cons] at apart
    obtain ⟨-, distinctRest, apart⟩ := List.nodup_append.mp apart
    cases due : round.gated &&
        !frontIsDue tier (sweep.watch.check round.gated (around.checked number)).clock with
    | true =>
      have later := ih (number + 1)
        { sweep with watch := sweep.watch.check round.gated (around.checked number) } distinctRest
        inOrder.tail
      obtain ⟨new, contacts, among⟩ := @new_visitTiers round around rest (number + 1)
        { sweep with watch := sweep.watch.check round.gated (around.checked number) }
      rw [visitTiers_skipped due]
      rw [contacts] at later ⊢
      exact later.join (inOrder.fronts tier (List.mem_cons_self ..)) fun c member inTier =>
        apart _ inTier _ (among c member) rfl
    | false =>
      have passed :=
        inOrder_tryTier number (around.attempt number) sweep.minInterval distinct inOrder due
      have trackers : SameTrackers tier (tryTier round number (around.attempt number) tier
          sweep.minInterval (sweep.watch.check round.gated (around.checked number))).tier :=
        sameTrackers_tryFrom ..
      generalize made : tryTier round number (around.attempt number) tier sweep.minInterval
        (sweep.watch.check round.gated (around.checked number)) = outcome at passed trackers
      cases returned : outcome.peers with
      | error thrown =>
        rw [visitTiers_thrown due made returned]
        exact passed
      | ok peers =>
        have later := ih (number + 1) ⟨outcome.minInterval, outcome.watch,
          FirstSeen.insertAll sweep.peers peers⟩ distinctRest passed.tail
        obtain ⟨new, contacts, among⟩ := @new_visitTiers round around rest (number + 1)
          ⟨outcome.minInterval, outcome.watch, FirstSeen.insertAll sweep.peers peers⟩
        rw [visitTiers_ok due made returned]
        rw [contacts] at later ⊢
        exact later.join (passed.fronts _ (List.mem_cons_self ..)) fun c member inTier =>
          apart _ (trackers.origins.subset inTier) _ (among c member) rfl

theorem new_stopTiers (tiers : List Tier) : ∀ (number : Nat) (watch : Watch),
    ∃ new, (stopTiers round around number tiers watch).2.1.contacts = new ++ watch.contacts ∧
      ∀ c ∈ new, c.origin ∈ origins tiers := by
  induction tiers with
  | nil => exact fun _ _ => ⟨[], rfl, List.forall_mem_nil _⟩
  | cons tier rest ih =>
    intro number watch
    cases tier with
    | nil => exact ih (number + 1) watch
    | cons front back =>
      obtain ⟨new, contacts, among⟩ := ih (number + 1)
        (watch.note round number 0 front.origin (around.attempt number 0) .stopped)
      have here : front.origin ∈ origins ((front :: back) :: rest) := by
        rw [origins_cons]
        exact List.mem_append_left _ (List.mem_cons_self ..)
      rcases met : front.contact (around.attempt number 0) with ⟨front', answer⟩
      simp only [stopTiers, met]
      split
      · exact ⟨[_], rfl, fun c member => List.mem_singleton.mp member ▸ here⟩
      · refine ⟨new ++ [_], contacts.trans (List.append_cons ..), fun c member => ?_⟩
        rcases List.mem_append.mp member with later | first
        · rw [origins_cons]
          exact List.mem_append_right _ (among c later)
        · exact List.mem_singleton.mp first ▸ here

theorem inOrder_stopTiers (ungated : round.gated = false) (tiers : List Tier) :
    ∀ (number : Nat) (watch : Watch), (origins tiers).Nodup → InOrder tiers watch.contacts →
    InOrder (stopTiers round around number tiers watch).1
      (stopTiers round around number tiers watch).2.1.contacts := by
  induction tiers with
  | nil => exact fun _ _ _ inOrder => inOrder
  | cons tier rest ih =>
    intro number watch distinct inOrder
    rw [origins_cons] at distinct
    obtain ⟨-, distinctRest, apart⟩ := List.nodup_append.mp distinct
    cases tier with
    | nil =>
      obtain ⟨new, contacts, -⟩ := @new_stopTiers round around rest (number + 1) watch
      have later := ih (number + 1) watch distinctRest inOrder.tail
      rw [stopTiers]
      rw [contacts] at later ⊢
      exact later.join (fun front here => by cases here) fun _ _ => List.not_mem_nil
    | cons front back =>
      rcases met : front.contact (around.attempt number 0) with ⟨front', answer⟩
      have lawful : Lawful
          (watch.note round number 0 front.origin (around.attempt number 0) .stopped).contacts :=
        inOrder.lawful.cons fun gated => absurd (ungated.symm.trans gated) Bool.false_ne_true
      have front_ : ∀ first ∈ (front' :: back).head?, OnSchedule
          (watch.note round number 0 front.origin (around.attempt number 0) .stopped).contacts first := by
        rintro first ⟨⟩
        exact onSchedule_note watch round number 0 (origin_of_contact met).symm _ _ fun wait waits =>
          by cases waits
      have fronts' : ∀ other ∈ rest, ∀ first ∈ other.head?, OnSchedule
          (watch.note round number 0 front.origin (around.attempt number 0) .stopped).contacts first :=
        @fronts_frame rest watch.contacts [_] inOrder.tail.fronts fun c member inRest => by
          obtain rfl := List.mem_singleton.mp member
          exact apart _ (List.mem_cons_self ..) _ inRest rfl
      have later := ih (number + 1) _ distinctRest ⟨lawful, fronts'⟩
      obtain ⟨new, contacts, among⟩ := @new_stopTiers round around rest (number + 1)
        (watch.note round number 0 front.origin (around.attempt number 0) .stopped)
      simp only [stopTiers, met]
      split
      · exact @InOrder.join _ _ _ [] ⟨lawful, fronts'⟩ front_ (List.forall_mem_nil _)
      · rw [contacts] at later ⊢
        refine later.join front_ fun c member inTier => apart _ ?_ _ (among c member) rfl
        rwa [List.map_cons, origin_of_contact met] at inTier

end

/-! ## Over a run -/

theorem origins_newTier (now : Int) (number : Nat) (tierUrls : List Bytes) :
    (newTier now number tierUrls).map TierEntry.origin =
      (List.range tierUrls.length).map fun i => (number, i) := by
  apply List.ext_getElem?
  intro i
  rw [newTier, List.getElem?_map, List.getElem?_mapIdx, List.getElem?_map, Option.map_map]
  by_cases bound : i < tierUrls.length
  · rw [List.getElem?_eq_getElem bound, List.getElem?_range bound]
    rfl
  · rw [List.getElem?_eq_none (Nat.not_lt.mp bound),
      List.getElem?_eq_none (by rw [List.length_range]; exact Nat.not_lt.mp bound)]
    rfl

theorem distinct_mapIdx {read : Nat → List Bytes → Tier} {base : Nat}
    (distinct : ∀ i tierUrls, ((read i tierUrls).map TierEntry.origin).Nodup)
    (numbered : ∀ i tierUrls, ∀ origin ∈ (read i tierUrls).map TierEntry.origin, origin.1 = base + i)
    (announceList : List (List Bytes)) :
    (origins ((announceList.mapIdx read).filter fun tier => !tier.isEmpty)).Nodup ∧
      ∀ origin ∈ origins ((announceList.mapIdx read).filter fun tier => !tier.isEmpty),
        base ≤ origin.1 := by
  induction announceList generalizing read base with
  | nil => exact ⟨List.nodup_nil, List.forall_mem_nil _⟩
  | cons tierUrls rest ih =>
    obtain ⟨distinctRest, later⟩ := @ih (fun i => read (i + 1)) (base + 1) (fun _ => distinct _)
      fun i urls origin member => (numbered (i + 1) urls origin member).trans (by omega)
    have here := numbered 0 tierUrls
    rw [List.mapIdx_cons, List.filter_cons]
    split
    · rw [origins_cons]
      refine ⟨List.nodup_append.mpr ⟨distinct 0 tierUrls, distinctRest, fun a first b second same => ?_⟩,
        fun origin member => ?_⟩
      · have low := here a first
        have high := later b second
        rw [same] at low
        omega
      · rcases List.mem_append.mp member with first | second
        · exact Nat.le_of_eq (here origin first).symm
        · exact Nat.le_of_succ_le (later origin second)
    · exact ⟨distinctRest, fun origin member => Nat.le_of_succ_le (later origin member)⟩

theorem distinct_new (announceList : List (List Bytes)) (peerId : Digest) (port : Nat) (now : Int) :
    (origins (TrackerManager.new announceList peerId port now).tiers).Nodup := by
  refine (@distinct_mapIdx (newTier now) 0 (fun i tierUrls => ?_) (fun i tierUrls => ?_)
    announceList).1
  · rw [origins_newTier]
    exact List.nodup_range.map fun _ _ same => (Prod.mk.inj same).2
  · rw [origins_newTier]
    intro origin member
    obtain ⟨j, -, rfl⟩ := List.mem_map.mp member
    exact (Nat.zero_add i).symm

section
variable {announceList : List (List Bytes)} {peerId : Digest} {port : Nat} {now : Int}
  {history : List (Transition Announcer (TrackerCall × Circumstances))} {announcer : Announcer}
  (run : Run Announcer.step (Announcer.new announceList peerId port now) history announcer)
include run

theorem distinct_of_run : (origins announcer.manager.tiers).Nodup :=
  (origins_perm (sameTrackers_of_run run)).nodup_iff.mpr (distinct_new ..)

theorem inOrder_of_run : InOrder announcer.manager.tiers announcer.watch.contacts := by
  refine run.invariant_of_history (fun _ s => InOrder s.manager.tiers s.watch.contacts)
    ⟨fun c earlier made => ?_, fun tier _ front _ c found => nomatch found⟩ ?_
  · cases List.suffix_nil.mp made
  · intro history s event t rest inOrder taken
    have distinct := distinct_of_run rest
    rcases step_cases taken with ⟨gated, request, rfl⟩ | ⟨infoHash, downloaded, uploaded, rfl⟩
    · exact inOrder_visitTiers _ 0 _ distinct inOrder
    · exact inOrder_stopTiers rfl _ 0 _ distinct inOrder

/-- `reannounce_if_due` contacts the first tracker of a tier no earlier than its last
success plus the interval or its last failure plus the backoff, unless that was a
success behind other trackers; and another one only after all before it have failed. -/
theorem reannounce_respects {c : Contact} {earlier : List Contact}
    (made : (c :: earlier) <:+ announcer.watch.contacts) (gated : c.round.gated = true) :
    Respects c earlier :=
  (inOrder_of_run run).lawful c earlier made gated

end

/-! ## A tier that is due, and one that is not -/

def threeTrackers : List (List Bytes) := [[ascii "udp:a", ascii "udp:b"], [ascii "udp:c"]]

/-- The first tracker of the second tier wants to be left alone for an hour. -/
def welcoming : Circumstances :=
  ⟨fun _ => 0, fun number _ => { answer := .ok { interval := if number = 0 then 1 else 3600 } }⟩

def failing (checked : Nat) : Circumstances :=
  ⟨fun _ => checked, fun _ _ => { answer := .error (.standard (ascii "timed out")) }⟩

/-- Two minutes after the first announcement. -/
def afterWelcome : Announcer :=
  let start := Announcer.new threeTrackers noHash 6881 0
  let first := (start.announce welcoming noHash 1 0 0 .started).1
  (first.reannounceIfDue (failing 120000000000) noHash 0 0 1).1

theorem reannounce_respects_afterWelcome : ∃ second first earlier waiting due,
    afterWelcome.watch.contacts = second :: first :: earlier ∧
      (first.slot = 0 ∧ second.slot = 1 ∧ first.round = second.round ∧ first.round.gated = true) ∧
      Respects first earlier ∧ Respects second (first :: earlier) ∧
      lastContact (second :: first :: earlier) (1, 0) = some waiting ∧
      waiting.round.gated = false ∧ waiting.due = some due ∧ second.finished < due := by
  have run : Run Announcer.step (Announcer.new threeTrackers noHash 6881 0) _ afterWelcome :=
    .next (e := (.reannounceIfDue noHash 0 0 1, failing 120000000000))
      (.next (e := (.announce noHash 1 0 0 .started, welcoming)) .start rfl) rfl
  exact ⟨_, _, _, _, _, rfl, ⟨rfl, rfl, rfl, rfl⟩, reannounce_respects run ⟨[_], rfl⟩ rfl,
    reannounce_respects run ⟨[], rfl⟩ rfl, rfl, rfl, rfl, by decide⟩

/-! ## A tracker that is tried too early -/

def twoTrackers : List (List Bytes) := [[ascii "udp:a", ascii "udp:b"]]

def replying : Circumstances := ⟨fun _ => 0, fun _ _ => { answer := .ok { interval := 1 } }⟩

/-- All fail, the first tracker replies, all fail; two minutes later the first tracker
is due and fails once more. -/
def afterFailover : Announcer :=
  let start := Announcer.new twoTrackers noHash 6881 0
  let first := (start.announce (failing 0) noHash 1 0 0 .started).1
  let second := (first.announce replying noHash 1 0 0 .none).1
  let third := (second.announce (failing 0) noHash 1 0 0 .none).1
  (third.reannounceIfDue (failing 120000000000) noHash 0 0 1).1

theorem run_afterFailover :
    ∃ history, Run Announcer.step (Announcer.new twoTrackers noHash 6881 0) history afterFailover :=
  ⟨_, .next (e := (.reannounceIfDue noHash 0 0 1, failing 120000000000))
    (.next (e := (.announce noHash 1 0 0 .none, failing 0))
      (.next (e := (.announce noHash 1 0 0 .none, replying))
        (.next (e := (.announce noHash 1 0 0 .started, failing 0)) .start rfl) rfl) rfl) rfl⟩

/-- The second tracker has failed twice and is contacted two minutes before its
backoff is over. -/
theorem contacted_before_due :
    ∃ history announcer, Run Announcer.step (Announcer.new twoTrackers noHash 6881 0) history announcer ∧
      ∃ c earlier p due, (c :: earlier) <:+ announcer.watch.contacts ∧ c.round.gated = true ∧
        lastContact earlier c.origin = some p ∧ p.ending = .failed 240 ∧ p.due = some due ∧
        c.started < due := by
  obtain ⟨history, run⟩ := run_afterFailover
  exact ⟨history, afterFailover, run, _, _, _, _, ⟨[], rfl⟩, rfl, rfl, rfl, rfl, by decide⟩

end K0Torrent
