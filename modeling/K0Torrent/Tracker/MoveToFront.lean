import K0Torrent.Tracker.Announce

/-! Which entry of a tier gets the result of an announce.

`try_tier` keeps a reference to the slot of the tracker that replied. Once that tracker
has been moved to the front, the slot holds one that failed.
-/

set_option autoImplicit false

namespace K0Torrent

variable {attempt : Nat → Attempt}

/-- The entries after all of their trackers have failed, the first one at slot `i`. -/
def failAll (attempt : Nat → Attempt) : Nat → Int → Tier → Tier
  | _, _, [] => []
  | i, clock, entry :: rest =>
    let now := clock + (attempt i).waited + (attempt i).took
    (entry.contact (attempt i)).1.fail now :: failAll attempt (i + 1) now rest

/-- The clock after these attempts. -/
def clockAfter (attempt : Nat → Attempt) : Nat → Int → Tier → Int
  | _, clock, [] => clock
  | i, clock, _ :: rest =>
    clockAfter attempt (i + 1) (clock + (attempt i).waited + (attempt i).took) rest

/-- No tracker of these entries replies, the first one being at slot `i`. -/
def AllFail (attempt : Nat → Attempt) (i : Nat) (tier : Tier) : Prop :=
  ∀ (j : Nat) (entry : TierEntry), tier[j]? = some entry →
    ∃ what, entry.reply (attempt (i + j)) = .error (.standard what)

/-- The first tracker to reply is at slot `i`. -/
structure RepliesFirst (attempt : Nat → Attempt) (tier : Tier) (i : Nat) (entry : TierEntry)
    (response : TrackerResponse) : Prop where
  at_ : tier[i]? = some entry
  before : AllFail attempt 0 (tier.take i)
  replied : entry.reply (attempt i) = .ok response

/-- The tracker that replied comes to the front with what it said; the others are as
their own attempts have left them. -/
structure MovesToFront (attempt : Nat → Attempt) (clock : Int) (tier after : Tier) : Prop where
  replied : ∀ i entry response, RepliesFirst attempt tier i entry response →
    after = (entry.contact (attempt i)).1.succeed response.interval
        (clockAfter attempt 0 clock (tier.take (i + 1))) ::
      failAll attempt 0 clock (tier.take i) ++ tier.drop (i + 1)
  failed : AllFail attempt 0 tier → after = failAll attempt 0 clock tier

theorem length_failAll (tier : Tier) : ∀ (i : Nat) (clock : Int),
    (failAll attempt i clock tier).length = tier.length := by
  induction tier with
  | nil => exact fun _ _ => rfl
  | cons entry rest ih => exact fun i clock => congrArg Nat.succ (ih ..)

/-- Each entry has failed once more, and at least once. -/
theorem failures_failAll (tier : Tier) : ∀ (i : Nat) (clock : Int),
    ∀ entry ∈ failAll attempt i clock tier, 0 < entry.failures := by
  induction tier with
  | nil => exact fun _ _ => List.forall_mem_nil _
  | cons entry rest ih =>
    intro i clock
    rw [failAll]
    exact List.forall_mem_cons.mpr ⟨Nat.succ_pos _, ih _ _⟩

theorem clockAfter_append (front back : Tier) : ∀ (i : Nat) (clock : Int),
    clockAfter attempt i clock (front ++ back) =
      clockAfter attempt (i + front.length) (clockAfter attempt i clock front) back := by
  induction front with
  | nil => exact fun _ _ => rfl
  | cons entry front ih =>
    intro i clock
    rw [List.cons_append, clockAfter, ih, clockAfter, List.length_cons, Nat.add_right_comm, Nat.add_assoc]

theorem AllFail.tail {i : Nat} {entry : TierEntry} {rest : Tier}
    (fails : AllFail attempt i (entry :: rest)) : AllFail attempt (i + 1) rest := by
  intro j other at_
  rw [Nat.add_right_comm, Nat.add_assoc]
  exact fails (j + 1) other at_

/-- The loop passes trackers that fail. -/
theorem tryFrom_allFail {round : Round} {number : Nat} {minInterval : Int} {rest : Tier}
    (front : Tier) : ∀ {done : Tier} {watch : Watch}, AllFail attempt done.length front →
      ∃ watch', watch'.clock = clockAfter attempt done.length watch.clock front ∧
        tryFrom round number attempt done (front ++ rest) minInterval watch =
          tryFrom round number attempt (done ++ failAll attempt done.length watch.clock front) rest
            minInterval watch' := by
  induction front with
  | nil =>
    intro done watch _
    exact ⟨watch, rfl, by rw [failAll, List.append_nil, List.nil_append]⟩
  | cons entry front ih =>
    intro done watch fails
    obtain ⟨what, failed⟩ := fails 0 entry rfl
    rw [Nat.add_zero] at failed
    have met : entry.contact (attempt done.length) =
        ((entry.contact (attempt done.length)).1, .error (.standard what)) := Prod.ext rfl failed
    have length : (done ++ [(entry.contact (attempt done.length)).1.fail
        (watch.after (attempt done.length))]).length = done.length + 1 := List.length_append
    have later := fails.tail
    rw [← length] at later
    obtain ⟨watch', clock, passed⟩ := @ih _ (watch.note round number done.length entry.origin
      (attempt done.length) (.failed (backoff ((entry.contact (attempt done.length)).1.failures + 1)))) later
    refine ⟨watch', ?_, ?_⟩
    · rw [clock, length]
      rfl
    · rw [List.cons_append, tryFrom_failed met, passed, length, List.append_assoc]
      rfl

section
variable {round : Round} {number : Nat} {tier : Tier} {minInterval : Int} {watch : Watch}

theorem tier_of_allFail (fails : AllFail attempt 0 tier) :
    (tryTier round number attempt tier minInterval watch).tier = failAll attempt 0 watch.clock tier := by
  obtain ⟨watch', -, passed⟩ := @tryFrom_allFail _ round number minInterval [] tier [] watch fails
  rw [List.append_nil] at passed
  rw [tryTier, passed]
  rfl

section
variable {i : Nat} {entry : TierEntry} {response : TrackerResponse}
  (first : RepliesFirst attempt tier i entry response)
include first

/-- The reply goes to slot `i` of the tier as it is after the rotation. -/
theorem tier_of_repliesFirst :
    (tryTier round number attempt tier minInterval watch).tier =
      (if 0 < i then
          (entry.contact (attempt i)).1 :: failAll attempt 0 watch.clock (tier.take i) ++
            tier.drop (i + 1)
        else (entry.contact (attempt i)).1 :: tier.drop (i + 1)).modify i fun e =>
          e.succeed response.interval (clockAfter attempt 0 watch.clock (tier.take (i + 1))) := by
  obtain ⟨at_, before, replied⟩ := first
  obtain ⟨bound, here⟩ := List.getElem?_eq_some_iff.mp at_
  have length : (failAll attempt 0 watch.clock (tier.take i)).length = i := by
    rw [length_failAll, List.length_take_of_le (Nat.le_of_lt bound)]
  have split : tier = tier.take i ++ entry :: tier.drop (i + 1) := by
    rw [← here, List.getElem_cons_drop, List.take_append_drop]
  have met : entry.contact (attempt (failAll attempt 0 watch.clock (tier.take i)).length) =
      ((entry.contact (attempt i)).1, .ok response) := by
    rw [length]
    exact Prod.ext rfl replied
  obtain ⟨watch', clock, passed⟩ := @tryFrom_allFail _ round number minInterval
    (entry :: tier.drop (i + 1)) (tier.take i) [] watch before
  rw [← split] at passed
  have now : watch'.after (attempt i) = clockAfter attempt 0 watch.clock (tier.take (i + 1)) := by
    rw [List.take_add_one, at_, clockAfter_append, Watch.after, clock,
      List.length_take_of_le (Nat.le_of_lt bound), Nat.zero_add]
    rfl
  rw [tryTier, passed, List.nil_append, List.length_nil, tryFrom_replied met, moveToFront_split,
    length, now]
  cases i with
  | zero => rfl
  | succ i => rfl

/-- Behind the front, slot `i` is another entry, and has not failed afterwards. -/
theorem failures_of_repliesFirst (moved : 0 < i) :
    ∃ other, (tryTier round number attempt tier minInterval watch).tier[i]? = some other ∧
      other.failures = 0 := by
  have bound := (List.getElem?_eq_some_iff.mp first.at_).1
  have long : i < ((entry.contact (attempt i)).1 :: failAll attempt 0 watch.clock (tier.take i) ++
      tier.drop (i + 1)).length := by
    rw [List.cons_append, List.length_cons, List.length_append, length_failAll,
      List.length_take_of_le (Nat.le_of_lt bound)]
    omega
  rw [tier_of_repliesFirst first, if_pos moved, List.getElem?_modify_eq,
    List.getElem?_eq_getElem long]
  exact ⟨_, rfl, rfl⟩

end

/-- The result goes where it belongs exactly if no tracker behind the first one of the
tier is the first to reply. -/
theorem movesToFront_iff :
    MovesToFront attempt watch.clock tier (tryTier round number attempt tier minInterval watch).tier ↔
      ∀ i entry response, RepliesFirst attempt tier i entry response → i = 0 := by
  constructor
  · intro moves i entry response first
    by_contra other
    have moved := Nat.pos_of_ne_zero other
    have meant := moves.replied i entry response first
    obtain ⟨wrong, at_, failures⟩ := @failures_of_repliesFirst _ round number tier minInterval watch
      i entry response first moved
    have bound := (List.getElem?_eq_some_iff.mp first.at_).1
    have length : (failAll attempt 0 watch.clock (tier.take i)).length = i := by
      rw [length_failAll, List.length_take_of_le (Nat.le_of_lt bound)]
    -- It should hold the last of the entries that failed.
    obtain ⟨k, rfl⟩ := Nat.exists_eq_add_one.mpr moved
    rw [meant, List.cons_append, List.getElem?_cons_succ,
      List.getElem?_append_left (by omega)] at at_
    exact absurd failures (Nat.ne_of_gt (failures_failAll _ _ _ _ (List.mem_of_getElem? at_)))
  · intro front
    refine ⟨fun i entry response first => ?_, tier_of_allFail⟩
    cases front i entry response first
    rw [tier_of_repliesFirst first]
    rfl

end

/-! ## The second tracker replies -/

/-- Two trackers; the first one has failed twice before. -/
def failedFirst : Tier :=
  [{ origin := (0, 0), url := ascii "udp:a", failures := 2, nextAnnounce := 0 },
    { origin := (0, 1), url := ascii "udp:b", nextAnnounce := 0 }]

/-- The second tracker replies, and names 900 seconds. -/
def secondReplies (i : Nat) : Attempt :=
  { answer := if i = 1 then .ok { interval := 900 } else .error (.standard []) }

/-- The tracker that replied keeps its old deadline at the front, and the one that failed
gets the result. -/
theorem reply_misplaced :
    RepliesFirst secondReplies failedFirst 1
        { origin := (0, 1), url := ascii "udp:b", nextAnnounce := 0 } { interval := 900 } ∧
      (tryTier ⟨0, false, { infoHash := noHash, peerId := noHash }⟩ 0 secondReplies failedFirst 1800
          ⟨0, []⟩).tier =
        [{ origin := (0, 1), url := ascii "udp:b", tracker := some .udp, nextAnnounce := 0 },
          { origin := (0, 0), url := ascii "udp:a", tracker := some .udp, interval := 900,
            failures := 0, nextAnnounce := seconds 900 }] ∧
      ¬ MovesToFront secondReplies 0 failedFirst
        (tryTier ⟨0, false, { infoHash := noHash, peerId := noHash }⟩ 0 secondReplies failedFirst 1800
          ⟨0, []⟩).tier := by
  have first : RepliesFirst secondReplies failedFirst 1
      { origin := (0, 1), url := ascii "udp:b", nextAnnounce := 0 } { interval := 900 } := by
    refine ⟨rfl, fun j entry at_ => ?_, rfl⟩
    cases j with
    | zero =>
      cases at_
      exact ⟨[], rfl⟩
    | succ j => cases at_
  refine ⟨first, rfl, fun moves => ?_⟩
  have meant := moves.replied 1 _ _ first
  exact absurd meant (by decide)

end K0Torrent
