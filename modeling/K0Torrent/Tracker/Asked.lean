import K0Torrent.Tracker.Announce
import K0Torrent.Tracker.UdpUrl

/-! Which URLs of an announce list a tracker is asked for.

A URL that no tracker can be made for, or that has no host, only costs its turn: what is thrown then
is derived from `std::exception`, and the next URL is tried. So one that has them is reached.
-/

set_option autoImplicit false

namespace K0Torrent

/-- What the constructor throws that `make_tracker` calls. That of `HttpTracker` only keeps the
URL. -/
def constructorThrows (url : Bytes) : Option Thrown :=
  if url.take 4 = ascii "udp:" then
    match UdpTracker.new url with
    | .ok _ => none
    | .error thrown => some thrown
  else none

/-- A tracker is made for the URL, and has a host to ask. -/
structure TrackerUrl (url : Bytes) : Prop where
  made : ∃ kind, makeTracker url (constructorThrows url) = .ok kind
  parsed : url.take 4 = ascii "http" → ∃ parsed, parseUrl url = .ok parsed

/-- The attempt meets what the URL alone leads to: what the constructor throws, and what the
`announce` of an `HttpTracker` throws before it has a host. -/
structure Attempt.Fits (attempt : Attempt) (url : Bytes) : Prop where
  construction : attempt.construction = constructorThrows url
  parsing : ∀ thrown, url.take 4 = ascii "http" → parseUrl url = .error thrown →
    attempt.answer = .error thrown

/-! ## URLs that name no tracker -/

theorem stoi_standard (text : Bytes) : stoi text ≠ .error .other := by
  unfold stoi
  dsimp only
  split_ifs <;> nofun

theorem bind_standard {A B : Type} {first : Except Thrown A} {rest : A → Except Thrown B}
    (standard : first ≠ .error .other) (later : ∀ a, rest a ≠ .error .other) :
    first.bind rest ≠ .error .other := by
  cases first with
  | ok a => exact later a
  | error thrown => exact fun other => standard (congrArg Except.error (Except.error.inj other))

theorem new_standard (url : Bytes) : UdpTracker.new url ≠ .error .other := by
  cases found : find url (ascii "://") with
  | none =>
    simp [UdpTracker.new, found]
  | some sep =>
    rw [UdpTracker.new_of_find found, UdpTracker.readHostPort]
    generalize (url.drop (sep + 3)).takeWhile (· ≠ urlSlash) = hostPort
    cases rfindByte hostPort Token.colon with
    | none => simp
    | some colon => exact bind_standard (stoi_standard _) fun _ => by simp [pure, Except.pure]

theorem parseUrl_standard (url : Bytes) : parseUrl url ≠ .error .other := by
  cases found : find url (ascii "://") with
  | none =>
    simp [parseUrl, found]
  | some sep =>
    obtain ⟨path, same⟩ := UdpTracker.parseUrl_of_find found
    rw [same, UdpTracker.readUrl]
    generalize (url.drop (sep + 3)).takeWhile (· ≠ urlSlash) = hostPort
    cases rfindByte hostPort Token.colon with
    | none => simp
    | some colon => exact bind_standard (stoi_standard _) fun _ => by simp [pure, Except.pure]

theorem Thrown.exists_standard {thrown : Thrown} (standard : thrown ≠ .other) :
    ∃ what, thrown = .standard what := by
  cases thrown with
  | standard what => exact ⟨what, rfl⟩
  | other => exact absurd rfl standard

/-- An attempt at a URL that names no tracker fails, and the next one is tried. -/
theorem reply_of_fits {entry : TierEntry} {attempt : Attempt} (fresh : entry.tracker = none)
    (fits : attempt.Fits entry.url) (none_ : ¬ TrackerUrl entry.url) :
    ∃ what, entry.reply attempt = .error (.standard what) := by
  have asked : entry.reply attempt =
      (makeTracker entry.url (constructorThrows entry.url)).bind fun _ => attempt.answer := by
    rw [TierEntry.reply, TierEntry.contact, TierEntry.getTracker, fresh, fits.construction]
    dsimp only
    cases makeTracker entry.url (constructorThrows entry.url) <;> rfl
  have answered {kind : TrackerKind} (made : makeTracker entry.url (constructorThrows entry.url) = .ok kind) :
      ∃ what, attempt.answer = .error (.standard what) := by
    by_cases http : entry.url.take 4 = ascii "http"
    · cases parsed : parseUrl entry.url with
      | ok parts => exact absurd ⟨⟨kind, made⟩, fun _ => ⟨parts, parsed⟩⟩ none_
      | error thrown =>
        obtain ⟨what, rfl⟩ := Thrown.exists_standard fun other =>
          parseUrl_standard entry.url (other ▸ parsed)
        exact ⟨what, fits.parsing _ http parsed⟩
    · exact absurd ⟨⟨kind, made⟩, fun same => absurd same http⟩ none_
  cases made : makeTracker entry.url (constructorThrows entry.url) with
  | ok kind =>
    rw [asked, made]
    exact answered made
  | error thrown =>
    have standard : makeTracker entry.url (constructorThrows entry.url) ≠ .error .other := by
      refine makeTracker_standard fun other => ?_
      unfold constructorThrows at other
      split at other
      · have fine := new_standard entry.url
        cases read : UdpTracker.new entry.url with
        | ok parts =>
          rw [read] at other
          cases other
        | error thrown =>
          rw [read] at other fine
          cases other
          exact fine rfl
      · cases other
    rw [made] at standard
    obtain ⟨what, rfl⟩ := Thrown.exists_standard fun other => standard (congrArg Except.error other)
    exact ⟨what, by rw [asked, made]; rfl⟩

/-! ## Who is asked -/

section
variable {round : Round} {number : Nat} {attempt : Nat → Attempt} (Good : TierEntry → Prop)

theorem contacts_suffix_tryFrom (rest : Tier) : ∀ {done : Tier} {minInterval : Int} {watch : Watch},
    watch.contacts <:+ (tryFrom round number attempt done rest minInterval watch).watch.contacts := by
  induction rest with
  | nil => exact fun {_ _ _} => List.suffix_refl _
  | cons entry rest ih =>
    intro done minInterval watch
    rcases met : entry.contact (attempt done.length) with ⟨entry', answer⟩
    match answer with
    | .ok response =>
      rw [tryFrom_replied met]
      exact List.suffix_cons ..
    | .error (.standard what) =>
      have noted : watch.contacts <:+ (watch.note round number done.length entry.origin
          (attempt done.length) (.failed (backoff (entry'.failures + 1)))).contacts :=
        List.suffix_cons ..
      rw [tryFrom_failed met]
      exact noted.trans ih
    | .error .other =>
      rw [tryFrom_escaped met]
      exact List.suffix_cons ..

/-- If the others of a tier do not reply, one of the good ones is asked, or there are none. -/
theorem asked_tryFrom (rest : Tier) : ∀ {done : Tier} {minInterval : Int} {watch : Watch},
    (∀ j entry, rest[j]? = some entry → ¬ Good entry →
      ∃ what, entry.reply (attempt (done.length + j)) = .error (.standard what)) →
    (∃ c ∈ (tryFrom round number attempt done rest minInterval watch).watch.contacts,
      c.tier = number ∧ ∃ j entry, c.slot = done.length + j ∧ rest[j]? = some entry ∧ Good entry) ∨
    (tryFrom round number attempt done rest minInterval watch).peers = .ok [] ∧
      ∀ entry ∈ rest, ¬ Good entry := by
  induction rest with
  | nil => exact fun _ => .inr ⟨rfl, List.forall_mem_nil _⟩
  | cons entry rest ih =>
    intro done minInterval watch silent
    rcases met : entry.contact (attempt done.length) with ⟨entry', answer⟩
    by_cases good : Good entry
    · left
      match answer with
      | .ok response =>
        rw [tryFrom_replied met]
        exact ⟨_, List.mem_cons_self .., rfl, 0, entry, rfl, rfl, good⟩
      | .error (.standard what) =>
        rw [tryFrom_failed met]
        exact ⟨_, (contacts_suffix_tryFrom rest).subset (List.mem_cons_self ..), rfl, 0, entry, rfl, rfl,
          good⟩
      | .error .other =>
        rw [tryFrom_escaped met]
        exact ⟨_, List.mem_cons_self .., rfl, 0, entry, rfl, rfl, good⟩
    · obtain ⟨what, failed⟩ := silent 0 entry rfl good
      obtain rfl : answer = .error (.standard what) := (congrArg Prod.snd met).symm.trans failed
      rw [tryFrom_failed met]
      have later : ∀ j other, rest[j]? = some other → ¬ Good other → ∃ what,
          other.reply (attempt ((done ++
            [entry'.fail (watch.after (attempt done.length))]).length + j)) =
              .error (.standard what) := by
        intro j other at_ bad
        rw [List.length_append, Nat.add_assoc, List.length_singleton, Nat.add_comm 1]
        exact silent (j + 1) other at_ bad
      rcases ih later with ⟨c, member, tier, j, other, slot, at_, good⟩ | ⟨none_, bad⟩
      · left
        refine ⟨c, member, tier, j + 1, other, ?_, at_, good⟩
        rw [slot, List.length_append, Nat.add_assoc, List.length_singleton, Nat.add_comm 1]
      · exact .inr ⟨none_, List.forall_mem_cons.mpr ⟨good, bad⟩⟩

variable {around : Circumstances}

theorem asked_visitTiers (ungated : round.gated = false) (tiers : List Tier) :
    ∀ {number : Nat} {sweep : Sweep},
    (∀ i tier j entry, tiers[i]? = some tier → tier[j]? = some entry → ¬ Good entry →
      ∃ what, entry.reply (around.attempt (number + i) j) = .error (.standard what)) →
    (∃ tier ∈ tiers, ∃ entry ∈ tier, Good entry) →
    ∃ c ∈ (visitTiers round around number tiers sweep).2.1.watch.contacts, ∃ i tier j entry,
      c.tier = number + i ∧ c.slot = j ∧ tiers[i]? = some tier ∧ tier[j]? = some entry ∧
        Good entry := by
  induction tiers with
  | nil =>
    rintro number sweep - ⟨tier, member, -⟩
    cases member
  | cons tier rest ih =>
    rintro number sweep silent some_
    have due : (round.gated &&
        !frontIsDue tier (sweep.watch.check round.gated (around.checked number)).clock) = false := by
      rw [ungated]
      rfl
    have first := @asked_tryFrom round number (around.attempt number) Good tier [] sweep.minInterval
      (sweep.watch.check round.gated (around.checked number)) fun j entry at_ bad => by
        rw [List.length_nil, Nat.zero_add]
        exact silent 0 tier j entry rfl at_ bad
    cases returned : (tryTier round number (around.attempt number) tier sweep.minInterval
        (sweep.watch.check round.gated (around.checked number))).peers with
    | error thrown =>
      rw [visitTiers_thrown due rfl returned]
      rcases first with ⟨c, member, here, j, entry, slot, at_, good⟩ | ⟨none_, -⟩
      · exact ⟨c, member, 0, tier, j, entry, here, slot.trans (Nat.zero_add j), rfl, at_, good⟩
      · cases returned.symm.trans none_
    | ok peers =>
      rw [visitTiers_ok due rfl returned]
      rcases first with ⟨c, member, here, j, entry, slot, at_, good⟩ | ⟨-, bad⟩
      · obtain ⟨new, contacts, -⟩ := @tried_visitTiers round around rest (number + 1) ⟨_, _, _⟩
        refine ⟨c, ?_, 0, tier, j, entry, here, slot.trans (Nat.zero_add j), rfl, at_, good⟩
        dsimp only
        rw [contacts]
        exact List.mem_append_right _ member
      · obtain ⟨other, member, entry, inside, good⟩ := some_
        have inRest := (List.mem_cons.mp member).resolve_left fun same =>
          bad entry (same ▸ inside) good
        obtain ⟨c, asked, i, tier', j, entry', number_, slot, at_, here, good⟩ := @ih (number + 1) _
          (fun i tier j entry at_ here bad => by
            rw [Nat.add_assoc, Nat.add_comm 1]
            exact silent (i + 1) tier j entry at_ here bad) ⟨other, inRest, entry, inside, good⟩
        refine ⟨c, asked, i + 1, tier', j, entry', ?_, slot, at_, here, good⟩
        rw [number_, Nat.add_assoc, Nat.add_comm 1]

end

end K0Torrent
