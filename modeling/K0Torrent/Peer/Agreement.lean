import K0Torrent.Peer.Codec
import K0Torrent.Peer.Network

/-! What connections, sockets and registrations have in common at all times.

A connection that is not disconnected has an open socket, which the loop watches for as much
as there is to do; and the bytes on their way are those that were to be sent.
-/

set_option autoImplicit false

namespace K0Torrent

/-! ## Failed connects -/

theorem infix_of_append {c : UInt8} {rest front text : Bytes} (absent : c ∉ front)
    (found : c :: rest <:+: front ++ text) : c :: rest <:+: text := by
  induction front with
  | nil => exact found
  | cons first front ih =>
    rw [List.cons_append, List.infix_cons_iff] at found
    rcases found with here | later
    · obtain ⟨same, -⟩ := List.cons_prefix_cons.mp here
      exact absurd (same ▸ List.mem_cons_self ..) absent
    · exact ih (fun member => absent (List.mem_cons_of_mem _ member)) later

theorem not_mem_ipToString {c : UInt8} (letter : Decimal.isDigit c = false) (other : c ≠ 0x2E)
    (ip : Nat) : c ∉ ipToString ip := by
  have dot : ascii "." = [0x2E] := rfl
  simp [ipToString, octet, dot, Decimal.not_mem_encode letter, other]

/-- A text of a failed connect has neither letter, unless the resolver brings it in. -/
theorem not_infix_what {c : UInt8} {rest : Bytes} (letter : c = 0x4F ∨ c = 0x45)
    (plain : ∀ reason : ResolverError, ¬ c :: rest <:+: reason.text) {fd : Int} {ip port : Nat}
    {outcome : ConnectOutcome} {error : ConnectError}
    (failed : connectSocket fd (ipToString ip) port outcome = .error error) :
    ¬ c :: rest <:+: error.what := by
  have digit : Decimal.isDigit c = false := by rcases letter with rfl | rfl <;> decide
  have dot : c ≠ 0x2E := by rcases letter with rfl | rfl <;> decide
  have host := not_mem_ipToString digit dot ip
  unfold connectSocket at failed
  split at failed
  · cases failed
    intro found
    have fixed : c ∉ ConnectError.alreadyOpen.what := by rcases letter with rfl | rfl <;> decide
    exact fixed (found.subset (List.mem_cons_self ..))
  · cases outcome with
    | unresolved reason =>
      cases failed
      intro found
      have fixed : c ∉ ascii "net: getaddrinfo(" ∧ c ∉ ascii "): " := by
        rcases letter with rfl | rfl <;> decide
      apply plain reason
      apply infix_of_append _ found
      simp [fixed, host]
    | refused =>
      cases failed
      intro found
      have fixed : c ∉ ascii "net: could not connect to " ∧ c ∉ ascii ":" := by
        rcases letter with rfl | rfl <;> decide
      have absent : c ∉ (ConnectError.refused (ipToString ip) port).what := by
        simp [ConnectError.what, fixed, host, Decimal.not_mem_encode digit]
      exact absent (found.subset (List.mem_cons_self ..))
    | opened fd => cases failed

/-- So `start` never goes on without a socket. -/
theorem not_inProgress {fd : Int} {ip port : Nat} {outcome : ConnectOutcome} {error : ConnectError}
    (failed : connectSocket fd (ipToString ip) port outcome = .error error) :
    inProgress error.what = false := by
  apply decide_eq_false
  rintro (operation | name)
  · exact not_infix_what (.inl rfl) (fun reason => reason.plain.1) failed operation
  · exact not_infix_what (.inr rfl) (fun reason => reason.plain.2) failed name

/-! ## What holds between two operations -/

theorem PeerMessage.serialize_ne_nil {msg : PeerMessage} {buf : Bytes}
    (serialized : msg.serialize = .ok buf) : buf ≠ [] := by
  simp only [PeerMessage.serialize] at serialized
  split at serialized
  · cases serialized
  · cases serialized
    exact List.append_ne_nil_of_right_ne_nil _ (List.cons_ne_nil _ _)

namespace Endpoint

/-- What the loop has to watch for. -/
def mask (endpoint : Endpoint) : Nat :=
  if endpoint.writeBuffer = [] then pollIn else pollIn ||| pollOut

/-- What has been sent, with what is still to be, is the handshake and the messages. -/
def Intact (endpoint : Endpoint) : Prop :=
  ∃ bufs : List Bytes, endpoint.queued.map PeerMessage.serialize = bufs.map .ok ∧
    endpoint.sent ++ endpoint.writeBuffer = endpoint.handshake.serialize ++ bufs.flatten

theorem Intact.took {endpoint : Endpoint} (intact : endpoint.Intact) (count : Nat) :
    (endpoint.took count).Intact := by
  obtain ⟨bufs, serialized, bytes⟩ := intact
  refine ⟨bufs, serialized, ?_⟩
  have whole : (endpoint.took count).sent ++ (endpoint.took count).writeBuffer =
      endpoint.sent ++ endpoint.writeBuffer := by
    rw [Endpoint.took, List.append_assoc, List.take_append_drop]
  exact whole.trans bytes

theorem Intact.queue {endpoint : Endpoint} (intact : endpoint.Intact) {msg : PeerMessage}
    {buf : Bytes} (serialized : msg.serialize = .ok buf) : (endpoint.queue msg buf).Intact := by
  obtain ⟨bufs, before, bytes⟩ := intact
  refine ⟨bufs ++ [buf], ?_, ?_⟩
  · simp only [Endpoint.queue, List.map_append, List.map_cons, List.map_nil, before, serialized]
  · have longer := congrArg (· ++ buf) bytes
    rw [List.append_assoc, List.append_assoc] at longer
    rw [List.flatten_concat]
    exact longer

theorem intact_greet {endpoint : Endpoint} (writeBuffer : endpoint.writeBuffer = [])
    (sent : endpoint.sent = []) (queued : endpoint.queued = []) : endpoint.greet.Intact := by
  refine ⟨[], congrArg _ queued, ?_⟩
  simp only [greet, handshake, sent, writeBuffer, List.nil_append, List.flatten_nil, List.append_nil]

theorem mask_greet (endpoint : Endpoint) : endpoint.greet.mask = pollIn ||| pollOut := by
  apply if_neg
  apply List.append_ne_nil_of_right_ne_nil
  exact List.cons_ne_nil _ _

/-- Nothing has happened to it. -/
structure Unstarted (endpoint : Endpoint) : Prop where
  state : endpoint.state = .disconnected
  fd : endpoint.fd = -1
  writeBuffer : endpoint.writeBuffer = []
  sent : endpoint.sent = []
  queued : endpoint.queued = []

end Endpoint

namespace Network

variable {ι : Type}

theorem state_disconnect [DecidableEq ι] (net : Network ι) (i : ι) :
    ((net.disconnect i).endpoints i).state = .disconnected := by
  unfold Network.disconnect
  by_cases dead : (net.endpoints i).state = .disconnected
  · rw [if_pos dead]
    exact dead
  · rw [if_neg dead]
    split
    · simp only [Function.update_self]
      rfl
    · simp only [update, Function.update_self]
      rfl

structure Agree (net : Network ι) : Prop where
  dead : ∀ i, (net.endpoints i).state = .disconnected → (net.endpoints i).fd = -1
  live : ∀ i, (net.endpoints i).state ≠ .disconnected →
    0 ≤ (net.endpoints i).fd ∧ (net.endpoints i).fd ∈ net.opened ∧
      net.loop.lookup (net.endpoints i).fd = some ⟨(net.endpoints i).mask, i⟩
  registered : ∀ fd entry, net.loop.lookup fd = some entry →
    (net.endpoints entry.cb).state ≠ .disconnected ∧ (net.endpoints entry.cb).fd = fd
  owned : ∀ fd ∈ net.opened, ∃ i, (net.endpoints i).state ≠ .disconnected ∧ (net.endpoints i).fd = fd
  intact : ∀ i, (net.endpoints i).state ≠ .disconnected → (net.endpoints i).Intact
  unstarted : ∀ i, (net.endpoints i).started = false → (net.endpoints i).Unstarted
  raised : net.raised = []

theorem agree_new (identities : ι → PeerAddress × Digest × Digest) (pipeRead : Int) :
    Agree (new identities pipeRead) where
  dead i _ := rfl
  live i alive := absurd rfl alive
  registered fd entry found := by cases found
  owned fd member := by cases member
  intact i alive := absurd rfl alive
  unstarted i _ := ⟨rfl, rfl, rfl, rfl, rfl⟩
  raised := rfl

section
variable {net : Network ι} (agree : Agree net) {i : ι}
include agree

theorem Agree.started (alive : (net.endpoints i).state ≠ .disconnected) :
    (net.endpoints i).started = true := by
  by_contra fresh
  exact alive (agree.unstarted i (Bool.eq_false_iff.mpr fresh)).state

theorem Agree.fd_ne (alive : (net.endpoints i).state ≠ .disconnected) : (net.endpoints i).fd ≠ -1 := by
  have positive := (agree.live i alive).1
  omega

theorem Agree.fd_injective {j : ι} (first : (net.endpoints i).state ≠ .disconnected)
    (second : (net.endpoints j).state ≠ .disconnected)
    (same : (net.endpoints i).fd = (net.endpoints j).fd) : i = j := by
  have found := (agree.live i first).2.2
  rw [same, (agree.live j second).2.2] at found
  exact (congrArg EventLoop.Entry.cb (Option.some.inj found)).symm

/-- Who owns a descriptor that the connection does not have. -/
theorem Agree.owned_of_ne {fd : Int} (member : fd ∈ net.opened)
    (other : (net.endpoints i).state ≠ .disconnected → (net.endpoints i).fd ≠ fd) :
    ∃ j, j ≠ i ∧ (net.endpoints j).state ≠ .disconnected ∧ (net.endpoints j).fd = fd := by
  obtain ⟨j, alive, at_⟩ := agree.owned fd member
  refine ⟨j, ?_, alive, at_⟩
  rintro rfl
  exact other alive at_

variable [DecidableEq ι]

/-- One connection changes, and the loop and the open descriptors do with it. -/
theorem Agree.replace {endpoint : Endpoint} {loop : EventLoop ι} {opened : Finset Int}
    (dead : endpoint.state = .disconnected → endpoint.fd = -1)
    (live : endpoint.state ≠ .disconnected → 0 ≤ endpoint.fd ∧ endpoint.fd ∈ opened ∧
      loop.lookup endpoint.fd = some ⟨endpoint.mask, i⟩)
    (intact : endpoint.state ≠ .disconnected → endpoint.Intact)
    (unstarted : endpoint.started = false → endpoint.Unstarted)
    (others : ∀ j, j ≠ i → (net.endpoints j).state ≠ .disconnected →
      (net.endpoints j).fd ∈ opened ∧
        loop.lookup (net.endpoints j).fd = net.loop.lookup (net.endpoints j).fd)
    (registered : ∀ fd entry, loop.lookup fd = some entry →
      entry.cb = i ∧ endpoint.state ≠ .disconnected ∧ endpoint.fd = fd ∨
        entry.cb ≠ i ∧ net.loop.lookup fd = some entry)
    (owned : ∀ fd ∈ opened, endpoint.state ≠ .disconnected ∧ endpoint.fd = fd ∨
      ∃ j, j ≠ i ∧ (net.endpoints j).state ≠ .disconnected ∧ (net.endpoints j).fd = fd) :
    Agree { net with endpoints := Function.update net.endpoints i endpoint, loop, opened } where
  dead j := by
    dsimp only
    rw [Function.update_apply]
    split
    · exact dead
    · exact agree.dead j
  live j := by
    dsimp only
    rw [Function.update_apply]
    split
    · rename_i same
      rw [same]
      exact live
    · rename_i different
      intro alive
      rw [(others j different alive).2]
      exact ⟨(agree.live j alive).1, (others j different alive).1, (agree.live j alive).2.2⟩
  registered fd entry found := by
    dsimp only
    rcases registered fd entry found with ⟨same, alive, at_⟩ | ⟨different, before⟩
    · rw [same, Function.update_self]
      exact ⟨alive, at_⟩
    · rw [Function.update_of_ne different]
      exact agree.registered fd entry before
  owned fd member := by
    dsimp only
    rcases owned fd member with ⟨alive, at_⟩ | ⟨j, different, alive, at_⟩
    · refine ⟨i, ?_⟩
      rw [Function.update_self]
      exact ⟨alive, at_⟩
    · refine ⟨j, ?_⟩
      rw [Function.update_of_ne different]
      exact ⟨alive, at_⟩
  intact j := by
    dsimp only
    rw [Function.update_apply]
    split
    · exact intact
    · exact agree.intact j
  unstarted j := by
    dsimp only
    rw [Function.update_apply]
    split
    · exact unstarted
    · exact agree.unstarted j
  raised := agree.raised

/-- A live connection changes, with what the loop watches for. -/
theorem Agree.change (alive : (net.endpoints i).state ≠ .disconnected) {endpoint : Endpoint}
    {loop : EventLoop ι} (intact : endpoint.Intact) (state : endpoint.state ≠ .disconnected)
    (fd : endpoint.fd = (net.endpoints i).fd) (started : endpoint.started = true)
    (lookup : ∀ other, loop.lookup other =
      if other = (net.endpoints i).fd then some ⟨endpoint.mask, i⟩ else net.loop.lookup other) :
    Agree { net with endpoints := Function.update net.endpoints i endpoint, loop } := by
  apply agree.replace (fun dead => absurd dead state) (fun _ => ?_) (fun _ => intact)
    (fun fresh => absurd started (Bool.eq_false_iff.mp fresh)) (fun j different alive' => ?_)
    (fun other entry found => ?_) (fun other member => ?_)
  · rw [lookup, fd, if_pos rfl]
    exact ⟨(agree.live i alive).1, (agree.live i alive).2.1, rfl⟩
  · rw [lookup, if_neg fun same => different (agree.fd_injective alive' alive same)]
    exact ⟨(agree.live j alive').2.1, rfl⟩
  · rw [lookup] at found
    split at found
    · rename_i same
      cases found
      exact .inl ⟨rfl, state, fd.trans same.symm⟩
    · rename_i apart
      refine .inr ⟨?_, found⟩
      rintro rfl
      exact apart (agree.registered other entry found).2.symm
  · by_cases same : (net.endpoints i).fd = other
    · exact .inl ⟨state, fd.trans same⟩
    · exact .inr (agree.owned_of_ne member fun _ => same)

/-- A connection that stays disconnected. -/
theorem Agree.still (dead : (net.endpoints i).state = .disconnected) {endpoint : Endpoint}
    (state : endpoint.state = .disconnected) (fd : endpoint.fd = -1)
    (unstarted : endpoint.started = false → endpoint.Unstarted) : Agree (net.update i endpoint) := by
  apply agree.replace (fun _ => fd) (fun alive => absurd state alive)
    (fun alive => absurd state alive) unstarted (fun j _ alive => ⟨(agree.live j alive).2.1, rfl⟩)
    (fun other entry found => .inr ⟨?_, found⟩)
    (fun other member => .inr (agree.owned_of_ne member fun alive => absurd dead alive))
  rintro rfl
  exact (agree.registered other entry found).1 dead

/-- What the receiving side does, short of connecting and disconnecting. -/
theorem Agree.setConnection {connection : PeerConnection}
    (state : connection.state = .disconnected ↔ (net.endpoints i).state = .disconnected)
    (hash : connection.infoHash = (net.endpoints i).connection.infoHash) :
    Agree (net.setConnection i connection) := by
  by_cases dead : (net.endpoints i).state = .disconnected
  · have dead' : Endpoint.state { net.endpoints i with connection } = .disconnected :=
      state.mpr dead
    refine agree.still dead dead' (agree.dead i dead) fun fresh => ?_
    have old := agree.unstarted i fresh
    exact ⟨dead', old.fd, old.writeBuffer, old.sent, old.queued⟩
  · have alive : Endpoint.state { net.endpoints i with connection } ≠ .disconnected :=
      fun still => dead (state.mp still)
    have same : Endpoint.handshake { net.endpoints i with connection } = (net.endpoints i).handshake := by
      simp only [Endpoint.handshake, hash]
    have intact : Endpoint.Intact { net.endpoints i with connection } := by
      rw [Endpoint.Intact, same]
      exact agree.intact i dead
    apply agree.change dead intact alive rfl (agree.started dead)
    intro other
    split
    · rename_i at_
      rw [at_]
      exact (agree.live i dead).2.2
    · rfl

/-- A live connection changes, and tells the loop what to watch for. -/
theorem Agree.modify (alive : (net.endpoints i).state ≠ .disconnected) {endpoint : Endpoint}
    (intact : endpoint.Intact) (state : endpoint.state ≠ .disconnected)
    (fd : endpoint.fd = (net.endpoints i).fd) (started : endpoint.started = true) {events : Nat}
    (mask : endpoint.mask = events) :
    ∃ after, (net.update i endpoint).modify i events = (after, none) ∧ Agree after := by
  have found := (agree.live i alive).2.2
  cases modified : net.loop.modify (net.endpoints i).fd events with
  | error error =>
    rw [EventLoop.modify, found] at modified
    cases modified
  | ok loop =>
    refine ⟨{ net.update i endpoint with loop }, ?_, ?_⟩
    · unfold Network.modify
      simp only [update, Function.update_self, fd, modified]
    · apply agree.change alive intact state fd started
      intro other
      rw [EventLoop.lookup_modify found modified, mask]

theorem Agree.disconnect : Agree (net.disconnect i) := by
  unfold Network.disconnect
  by_cases dead : (net.endpoints i).state = .disconnected
  · rw [if_pos dead]
    exact agree
  · rw [if_neg dead, if_pos (agree.fd_ne dead)]
    -- No other connection has the descriptor.
    have others : ∀ j, j ≠ i → (net.endpoints j).state ≠ .disconnected →
        (net.endpoints j).fd ≠ (net.endpoints i).fd :=
      fun j different alive same => different (agree.fd_injective alive dead same)
    apply agree.replace
    · exact fun _ => rfl
    · exact fun alive => absurd rfl alive
    · exact fun alive => absurd rfl alive
    · exact fun fresh => absurd (agree.started dead) (Bool.eq_false_iff.mp fresh)
    · intro j different alive
      have apart := others j different alive
      rw [EventLoop.lookup_remove, if_neg apart]
      exact ⟨Finset.mem_erase.mpr ⟨apart, (agree.live j alive).2.1⟩, rfl⟩
    · intro other entry found
      rw [EventLoop.lookup_remove] at found
      split at found
      · cases found
      · rename_i apart
        refine .inr ⟨?_, found⟩
        rintro rfl
        exact apart (agree.registered other entry found).2.symm
    · intro other member
      obtain ⟨apart, before⟩ := Finset.mem_erase.mp member
      exact .inr (agree.owned_of_ne before fun _ same => apart same.symm)

theorem Agree.queueMessage {msg : PeerMessage} {after : Network ι} {thrown : Option Thrown}
    (queued : net.queueMessage i msg = some (after, thrown)) : Agree after ∧ thrown = none := by
  unfold Network.queueMessage at queued
  by_cases connected : (net.endpoints i).state = .connected
  · have alive : (net.endpoints i).state ≠ .disconnected := by
      rw [connected]
      exact fun same => by cases same
    rw [if_neg (fun other => other connected)] at queued
    cases serialized : msg.serialize with
    | error fault =>
      simp only [serialized] at queued
      cases queued
    | ok buf =>
      simp only [serialized] at queued
      have some_ := PeerMessage.serialize_ne_nil serialized
      have mask : ((net.endpoints i).queue msg buf).mask = pollIn ||| pollOut :=
        if_neg (List.append_ne_nil_of_right_ne_nil _ some_)
      obtain ⟨after', modified, agree'⟩ := agree.modify alive
        ((agree.intact i alive).queue serialized) alive rfl (agree.started alive) mask
      rw [modified] at queued
      cases queued
      exact ⟨agree', rfl⟩
  · rw [if_pos connected] at queued
    cases queued
    exact ⟨agree, rfl⟩

theorem Agree.handleWrite (result : SendResult) : Agree (net.handleWrite i result).1 := by
  unfold Network.handleWrite
  split
  · exact agree
  · rename_i some_
    split
    · exact agree
    · rename_i open_
      have alive : (net.endpoints i).state ≠ .disconnected := fun dead => open_ (agree.dead i dead)
      cases result with
      | failed => exact agree
      | accepted count =>
        have intact := (agree.intact i alive).took count
        dsimp only
        split
        · rename_i done
          have mask : ((net.endpoints i).took count).mask = pollIn := by
            simp only [update, Function.update_self] at done
            exact if_pos done
          obtain ⟨after, modified, agree'⟩ :=
            agree.modify alive intact alive rfl (agree.started alive) mask
          rw [modified]
          exact agree'
        · rename_i more
          simp only [update, Function.update_self] at more
          apply agree.change alive intact alive rfl (agree.started alive)
          intro other
          split
          · rename_i at_
            rw [at_, (agree.live i alive).2.2, Endpoint.mask, Endpoint.mask, if_neg some_, if_neg more]
          · rfl

/-- A disconnected connection gets a socket, and a registration for it. -/
theorem Agree.opened (dead : (net.endpoints i).state = .disconnected) {fd : Int} (positive : 0 ≤ fd)
    (fresh : fd ∉ net.opened) {endpoint : Endpoint} {loop : EventLoop ι} (intact : endpoint.Intact)
    (state : endpoint.state ≠ .disconnected) (at_ : endpoint.fd = fd)
    (started : endpoint.started = true)
    (lookup : ∀ other, loop.lookup other =
      if other = fd then some ⟨endpoint.mask, i⟩ else net.loop.lookup other) :
    Agree { net with
      endpoints := Function.update net.endpoints i endpoint, loop, opened := insert fd net.opened } := by
  apply agree.replace (fun still => absurd still state) (fun _ => ?_) (fun _ => intact)
    (fun fresh => absurd started (Bool.eq_false_iff.mp fresh)) (fun j _ alive => ?_)
    (fun other entry found => ?_) (fun other member => ?_)
  · rw [lookup, at_, if_pos rfl]
    exact ⟨positive, Finset.mem_insert_self _ _, rfl⟩
  · obtain ⟨-, member, -⟩ := agree.live j alive
    have apart : (net.endpoints j).fd ≠ fd := by
      rintro rfl
      exact fresh member
    rw [lookup, if_neg apart]
    exact ⟨Finset.mem_insert_of_mem member, rfl⟩
  · rw [lookup] at found
    split at found
    · rename_i same
      cases found
      exact .inl ⟨rfl, state, at_.trans same.symm⟩
    · refine .inr ⟨?_, found⟩
      rintro rfl
      exact (agree.registered other entry found).1 dead
  · rcases Finset.mem_insert.mp member with rfl | before
    · exact .inl ⟨state, at_⟩
    · exact .inr (agree.owned_of_ne before fun alive => absurd dead alive)

theorem Agree.start {outcome : ConnectOutcome} {reserved : Vector UInt8 8} {after : Network ι}
    (started : net.start i outcome reserved = some after) : Agree after := by
  unfold Network.start at started
  dsimp only at started
  split at started
  · cases started
  · rename_i first
    have fresh := agree.unstarted i (Bool.eq_false_iff.mpr first)
    split at started
    · rename_i error failed
      rw [not_inProgress failed, if_neg Bool.false_ne_true] at started
      cases started
      have state : Endpoint.state { net.endpoints i with started := true, reserved } =
        .disconnected := fresh.state
      exact (agree.still fresh.state state fresh.fd fun other => by cases other).disconnect
    · rename_i fd connected
      split at started
      · rename_i unused
        cases started
        -- A descriptor that is registered would be open.
        have free : net.loop.lookup fd = none := by
          by_contra found
          obtain ⟨entry, found⟩ := Option.ne_none_iff_exists'.mp found
          obtain ⟨alive, at_⟩ := agree.registered fd entry found
          exact unused.2 (at_ ▸ (agree.live _ alive).2.1)
        cases added : net.loop.add fd (pollIn ||| pollOut) i with
        | error error =>
          rw [EventLoop.add, free] at added
          cases added
        | ok loop =>
          have intact : (Endpoint.greet { net.endpoints i with started := true, reserved, fd }).Intact :=
            Endpoint.intact_greet fresh.writeBuffer fresh.sent fresh.queued
          unfold Network.register
          simp only [update, Function.update_self, added, Function.update_idem]
          apply agree.opened fresh.state unused.1 unused.2 intact (fun same => by cases same) rfl rfl
          intro other
          rw [Endpoint.mask_greet]
          exact EventLoop.lookup_add added other
      · cases started

end

section
variable [DecidableEq ι] {net after : Network ι} {i : ι} {thrown : Option Thrown}

theorem Agree.run {action : Action ι} (agree : Agree net)
    (ran : action.run net = some (after, thrown)) : Agree after ∧ thrown = none := by
  cases action with
  | start i outcome reserved =>
    obtain ⟨after', started, same⟩ := Option.map_eq_some_iff.mp ran
    cases same
    exact ⟨agree.start started, rfl⟩
  | queueMessage i msg => exact agree.queueMessage ran
  | disconnect i =>
    cases ran
    exact ⟨agree.disconnect, rfl⟩

theorem Agree.runActions {throws : Option Thrown} {actions : List (Action ι)} (agree : Agree net)
    (ran : runActions throws actions net = some (after, thrown)) : Agree after := by
  induction actions generalizing net with
  | nil =>
    cases ran
    exact agree
  | cons action rest ih =>
    rw [Network.runActions] at ran
    split at ran
    · cases ran
    · rename_i threw
      cases ran
      exact (agree.run threw).1
    · rename_i returned
      exact ih (agree.run returned).1 ran

theorem Agree.caught (agree : Agree net) : Agree (caught i (net, thrown)) := by
  rcases thrown with _ | _ | _
  · exact agree
  · exact agree.disconnect
  · exact agree

theorem Agree.handleMessages {handler : Nat → Handling ι} {rounds : Nat} :
    ∀ {calls : Nat} {net : Network ι}, Agree net →
      handleMessages i handler rounds calls net = some (after, thrown) → Agree after := by
  induction rounds with
  | zero =>
    intro calls net _ handled
    cases handled
  | succ rounds ih =>
    intro calls net agree handled
    rw [Network.handleMessages] at handled
    split at handled
    · cases handled
    · rename_i result parsed
      split at handled
      · cases handled
        exact agree
      · dsimp only at handled
        split at handled
        · cases handled
        · rename_i threw
          cases handled
          split at threw
          · cases threw
          · apply Agree.runActions _ threw
            exact agree.setConnection Iff.rfl rfl
        · rename_i middle returned
          have agree' : Agree middle := by
            split at returned
            · cases returned
              exact agree
            · apply Agree.runActions _ returned
              exact agree.setConnection Iff.rfl rfl
          apply ih _ handled
          exact agree'.setConnection Iff.rfl rfl

/-- A handshake that is accepted, or not complete yet, leaves the connection alive. -/
theorem processHandshake_ok {connection connection' : PeerConnection} {ready : Bool}
    (state : connection.state = .handshakeSent)
    (shaken : connection.processHandshake = .ok (connection', ready)) :
    connection'.state ≠ .disconnected ∧ connection'.infoHash = connection.infoHash := by
  rcases connection.processHandshake_cases with
    ⟨-, accepted⟩ | ⟨-, ⟨-, waits⟩ | ⟨-, error, failed⟩⟩
  · cases accepted.symm.trans shaken
    refine ⟨fun dead => ?_, rfl⟩
    cases dead
  · cases waits.symm.trans shaken
    refine ⟨fun dead => ?_, rfl⟩
    cases state.symm.trans dead
  · cases failed.symm.trans shaken

/-- What a read makes of a connection that is alive. -/
theorem handshaken_ok {filled connection : PeerConnection} {ready : Bool}
    (alive : filled.state ≠ .disconnected)
    (shaken : (if filled.state = .handshakeSent then filled.processHandshake
      else .ok (filled, true)) = .ok (connection, ready)) :
    connection.state ≠ .disconnected ∧ connection.infoHash = filled.infoHash := by
  split at shaken
  · rename_i sent
    exact processHandshake_ok sent shaken
  · cases shaken
    exact ⟨alive, rfl⟩

theorem Agree.handleRead {result : RecvResult} {handler : Nat → Handling ι} (agree : Agree net)
    (read : net.handleRead i result handler = some after) : Agree after := by
  unfold Network.handleRead at read
  split at read
  · cases read
    exact agree.disconnect
  · rename_i open_
    have alive : (net.endpoints i).connection.state ≠ .disconnected :=
      fun dead => open_ (agree.dead i dead)
    cases result with
    | failed =>
      cases read
      exact agree.disconnect
    | data bytes =>
      dsimp only at read
      split at read
      · cases read
        exact agree
      · split at read
        · cases read
          apply Agree.disconnect
          exact agree.setConnection Iff.rfl rfl
        · rename_i connection ready shaken
          obtain ⟨still, hash⟩ := @handshaken_ok { (net.endpoints i).connection with
            readBuffer := (net.endpoints i).connection.readBuffer ++ bytes } connection ready alive shaken
          have agree' : Agree (net.setConnection i connection) :=
            agree.setConnection (iff_of_false still alive) hash
          split at read
          · obtain ⟨⟨middle, thrown⟩, handled, rfl⟩ := Option.map_eq_some_iff.mp read
            exact (agree'.handleMessages handled).caught
          · cases read
            exact agree'

theorem Agree.onSocketEvent {events : Nat} {send : SendResult} {recv : RecvResult}
    {handler : Nat → Handling ι} (agree : Agree net)
    (ran : net.onSocketEvent i events send recv handler = some after) : Agree after := by
  have written : Agree (if hasEvent events pollOut then net.handleWrite i send else (net, none)).1 := by
    split
    · exact agree.handleWrite send
    · exact agree
  unfold Network.onSocketEvent at ran
  split at ran
  · rename_i middle thrown threw
    cases ran
    rw [threw] at written
    exact written.caught
  · rename_i middle returned
    rw [returned] at written
    split at ran
    · exact written.handleRead ran
    · cases ran
      exact written

/-! ## Runs -/

theorem Agree.step {e : Event ι} (agree : Agree net) (taken : step net e = some after) :
    Agree after := by
  cases e with
  | call action =>
    obtain ⟨⟨after', thrown⟩, ran, rfl⟩ := Option.map_eq_some_iff.mp taken
    exact (agree.run ran).1
  | poll order revents =>
    cases taken
    have same := @EventLoop.lookup_poll ι net.loop order revents
    refine ⟨agree.dead, fun j alive => ?_, fun fd entry found => ?_, agree.owned, agree.intact,
      agree.unstarted, agree.raised⟩
    · rw [same]
      exact agree.live j alive
    · rw [same] at found
      exact agree.registered fd entry found
  | socket fd events send recv handler =>
    rw [Network.step] at taken
    split at taken
    · cases taken
    · exact agree.onSocketEvent taken

open Machine

theorem agree_of_run {identities : ι → PeerAddress × Digest × Digest} {pipeRead : Int}
    {history : List (Transition (Network ι) (Event ι))}
    (run : Run step (new identities pipeRead) history net) : Agree net :=
  run.invariant Agree (agree_new identities pipeRead) fun _ _ _ agree taken => agree.step taken

end

end Network

end K0Torrent
