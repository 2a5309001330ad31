import K0Torrent.Client.Callback
import K0Torrent.Client.Refinement

/-! What a pass of the loop comes to.

The loop over the entries counts down what `poll` has found, and looks each descriptor up at
its turn. In a client it calls just the connections that there was something for.
-/

set_option autoImplicit false

namespace K0Torrent.Client

open Machine EventLoop

variable {ι : Type} [DecidableEq ι]

/-! ## Invariants of a client -/

section
variable {setup : Setup} {client after start final : Client ι} {Holds : Client ι → Prop}
  {history : List (Transition (Client ι) (Event ι))}

theorem dispatch_keeps {around : Nat → Surroundings}
    (called : ∀ client after fd entry events around, Holds client →
      client.net.loop.lookup fd = some entry →
        client.onSocketEvent setup entry.cb events around = some after → Holds after)
    {pfds : List PollFd} : ∀ {k ready : Nat} {client : Client ι}, Holds client →
      dispatch setup around k pfds ready client = some after → Holds after := by
  induction pfds with
  | nil =>
    intro k ready client holds ran
    cases ran
    exact holds
  | cons pfd pfds ih =>
    intro k ready client holds ran
    rw [dispatch] at ran
    split at ran
    · cases ran
      exact holds
    · split at ran
      · exact ih holds ran
      · split at ran
        · exact ih holds ran
        · rename_i entry found
          split at ran
          · cases ran
          · rename_i middle returned
            exact ih (called _ _ _ _ _ _ holds found returned) ran

/-- What `poll`, the callbacks and `stop` keep, a client keeps. -/
theorem run_keeps (run : Run (step setup) start history final) (holds : Holds start)
    (polled : ∀ client order revents, Holds client → Holds (client.polled order revents))
    (called : ∀ client after fd entry events around, Holds client →
      client.net.loop.lookup fd = some entry →
        client.onSocketEvent setup entry.cb events around = some after → Holds after)
    (stopped : ∀ client, Holds client → Holds client.stop) : Holds final := by
  apply run.invariant Holds holds
  intro client e next holds taken
  cases e with
  | stop =>
    cases taken
    exact stopped client holds
  | pass order revents around =>
    have before := polled client order revents holds
    rcases runOnce_cases taken with rfl | ⟨rest, ready, dispatched⟩
    · exact before
    · exact dispatch_keeps called before dispatched

/-- And what `start` keeps, `fetch_peers` does. -/
theorem fetchPeers_keeps
    (started : ∀ client i outcome reserved net, Holds client →
      client.net.start i outcome reserved = some net →
        Holds { client with net, connections := client.connections ++ [i] })
    {attempts : List (ι × ConnectOutcome × Vector UInt8 8)} : ∀ {client : Client ι}, Holds client →
      fetchPeers attempts client = some after → Holds after := by
  induction attempts with
  | nil =>
    intro client holds fetched
    cases fetched
    exact holds
  | cons attempt attempts ih =>
    intro client holds fetched
    obtain ⟨i, outcome, reserved⟩ := attempt
    rw [fetchPeers] at fetched
    split at fetched
    · cases fetched
    · rename_i net taken
      exact ih (started _ _ _ _ _ holds taken) fetched

end

/-- The connections that are alive are in the list, for the torrent, and in the poll set. -/
structure Regular (setup : Setup) (pipeRead : Int) (client : Client ι) : Prop where
  agree : Network.Agree client.net
  synced : ∃ masks, PollSet.Synced pipeRead masks client.net.loop
  known : ∀ i, (client.net.endpoints i).state ≠ .disconnected → i ∈ client.connections
  hash : ∀ i, (client.net.endpoints i).connection.infoHash = setup.torrent.infoHash

section
variable {setup : Setup} {pipeRead : Int} {client after : Client ι}

theorem Regular.start (regular : Regular setup pipeRead client) {i : ι} {outcome : ConnectOutcome}
    {reserved : Vector UInt8 8} {net : Network ι}
    (started : client.net.start i outcome reserved = some net) :
    Regular setup pipeRead { client with net, connections := client.connections ++ [i] } := by
  have agree := regular.agree.start started
  rcases regular.agree.start_cases started with rfl | ⟨fd, loop, -, -, added, rfl⟩
  · refine ⟨agree, regular.synced, fun j alive => ?_, fun j => ?_⟩
    · by_cases here : j = i
      · simp [here]
      · rw [Network.endpoints_update_of_ne here] at alive
        exact List.mem_append_left _ (regular.known j alive)
    · by_cases here : j = i
      · subst here
        rw [Network.endpoints_update_self]
        exact regular.hash j
      · rw [Network.endpoints_update_of_ne here]
        exact regular.hash j
  · obtain ⟨masks, synced⟩ := regular.synced
    refine ⟨agree, ⟨_, synced.add added⟩, fun j alive => ?_, fun j => ?_⟩
    · by_cases here : j = i
      · simp [here]
      · simp only [Function.update_of_ne here] at alive
        exact List.mem_append_left _ (regular.known j alive)
    · by_cases here : j = i
      · subst here
        simp only [Function.update_self]
        exact regular.hash j
      · simp only [Function.update_of_ne here]
        exact regular.hash j

theorem regular_of_fetched {myPeerId : Digest} {addresses : ι → PeerAddress}
    {files : FileStore.Files (LexicalPath.Place Bytes) UInt8} {attempts : List (ι × ConnectOutcome × Vector UInt8 8)}
    (connected : fetchPeers attempts
      (new setup myPeerId addresses pipeRead (.fresh files)) = some client) :
    Regular setup pipeRead client := by
  refine fetchPeers_keeps (fun _ _ _ _ _ regular started => regular.start started) ?_ connected
  exact ⟨Network.agree_new _ _, ⟨_, PollSet.synced_new pipeRead⟩, fun i alive => absurd rfl alive,
    fun i => rfl⟩

theorem Fetched.regular (fetched : Fetched setup client) :
    ∃ pipeRead, Regular setup pipeRead client := by
  obtain ⟨myPeerId, addresses, pipeRead, files, attempts, connected⟩ := fetched.connects
  exact ⟨pipeRead, regular_of_fetched connected⟩

theorem Regular.polled (regular : Regular setup pipeRead client) (order : EntryOrder ι)
    (revents : Nat → Nat) : Regular setup pipeRead (client.polled order revents) where
  agree := agree_polled regular.agree order revents
  synced := by
    obtain ⟨masks, synced⟩ := regular.synced
    refine ⟨masks, ?_⟩
    have reported := (synced.handOver order).1.report
      fun k => if k = 0 then (if client.unread = 0 then 0 else pollIn) else revents k
    rwa [report_handOver] at reported
  known := regular.known
  hash := regular.hash

/-- A callback is called for a connection that is alive. -/
theorem Regular.called (regular : Regular setup pipeRead client) {fd : Int} {entry : Entry ι}
    {events : Nat} {around : Surroundings} (found : client.net.loop.lookup fd = some entry)
    (ran : client.onSocketEvent setup entry.cb events around = some after) :
    Regular setup pipeRead after := by
  have within := (keeps_within entry.cb client).onSocketEvent (.refl _ client) ran
  obtain ⟨handler, event⟩ := net_onSocketEvent ran
  refine ⟨regular.agree.onSocketEvent event, ?_, fun j alive => ?_, fun j => ?_⟩
  · exact (keeps_synced entry.cb pipeRead).onSocketEvent regular.synced ran
  · rw [within.connections]
    apply regular.known
    by_cases here : j = entry.cb
    · rw [here]
      exact (regular.agree.registered fd entry found).1
    · rwa [within.endpoint j here] at alive
  · by_cases here : j = entry.cb
    · rw [here, within.hash]
      exact regular.hash _
    · rw [within.endpoint j here]
      exact regular.hash j

theorem disconnects_keep {Holds : Client ι → Prop}
    (disconnected : ∀ client i, Holds client → Holds (client.disconnect i)) (connections : List ι) :
    ∀ {client : Client ι}, Holds client →
      Holds { client with net := connections.foldl Network.disconnect client.net } := by
  induction connections with
  | nil => exact fun holds => holds
  | cons i connections ih => exact fun holds => ih (disconnected _ i holds)

theorem endpoints_disconnects {connections : List ι} {j : ι} (other : j ∉ connections) :
    ∀ {net : Network ι}, (connections.foldl Network.disconnect net).endpoints j = net.endpoints j := by
  induction connections with
  | nil => exact rfl
  | cons i connections ih =>
    intro net
    obtain ⟨apart, later⟩ := List.ne_and_not_mem_of_not_mem_cons other
    exact (ih later).trans (Network.endpoints_disconnect apart)

theorem state_disconnects {connections : List ι} {j : ι} (member : j ∈ connections) :
    ∀ {net : Network ι},
      ((connections.foldl Network.disconnect net).endpoints j).state = .disconnected := by
  induction connections with
  | nil => cases member
  | cons i connections ih =>
    intro net
    by_cases later : j ∈ connections
    · exact ih later
    · rw [List.foldl_cons, endpoints_disconnects later]
      rcases List.mem_cons.mp member with rfl | again
      · exact Network.state_disconnect net j
      · exact absurd again later

/-- Nothing is alive behind `stop`. -/
theorem Regular.dead_stop (regular : Regular setup pipeRead client) (i : ι) :
    (client.stop.net.endpoints i).state = .disconnected := by
  by_cases member : i ∈ client.connections
  · exact state_disconnects member
  · have before : (client.net.endpoints i).state = .disconnected := by
      by_contra alive
      exact member (regular.known i alive)
    have same := @endpoints_disconnects ι _ _ _ member client.net
    exact (congrArg Endpoint.state same).trans before

theorem Regular.stop (regular : Regular setup pipeRead client) :
    Regular setup pipeRead client.stop where
  agree := by
    have agree := @disconnects_keep ι _ (fun client => Network.Agree client.net)
      (fun client i agree => agree.disconnect) client.connections client regular.agree
    exact agree
  synced := by
    have synced := @disconnects_keep ι _
      (fun client => ∃ masks, PollSet.Synced pipeRead masks client.net.loop)
      (fun client i => (keeps_synced i pipeRead).disconnect client) client.connections client
      regular.synced
    exact synced
  known i alive := absurd (regular.dead_stop i) alive
  hash i := by
    have hash := @disconnects_keep ι _
      (fun client => (client.net.endpoints i).connection.infoHash = setup.torrent.infoHash)
      (fun client j hash => ?_) client.connections client (regular.hash i)
    · exact hash
    · have within := (keeps_within j client).disconnect client (.refl j client)
      by_cases here : i = j
      · subst here
        exact within.hash.trans hash
      · rwa [within.endpoint i here]

theorem Regular.run (regular : Regular setup pipeRead client)
    {history : List (Transition (Client ι) (Event ι))}
    (run : Run (step setup) client history after) : Regular setup pipeRead after := by
  refine run_keeps run regular ?_ ?_ ?_
  · exact fun client order revents regular => regular.polled order revents
  · exact fun client after fd entry events around regular found ran => regular.called found ran
  · exact fun client regular => regular.stop

theorem Runs.regular {start final : Client ι} {history : List (Transition (Client ι) (Event ι))}
    (runs : Runs setup start history final) : ∃ pipeRead, Regular setup pipeRead final := by
  obtain ⟨pipeRead, regular⟩ := runs.1.regular
  exact ⟨pipeRead, regular.run runs.2⟩

end

/-! ## The pipe -/

section
variable {setup : Setup} {start client after final : Client ι}
  {history : List (Transition (Client ι) (Event ι))}

theorem unread_runOnce {order : EntryOrder ι} {revents : Nat → Nat} {around : Nat → Surroundings}
    (ran : client.runOnce setup order revents around = some after) :
    after.unread = client.unread := by
  rcases runOnce_cases ran with rfl | ⟨rest, ready, dispatched⟩
  · rfl
  · refine @dispatch_keeps ι _ setup after (fun later => later.unread = client.unread) around ?_ rest
      1 ready (client.polled order revents) rfl dispatched
    intro before later fd entry events around same found called
    exact ((keeps_within entry.cb before).onSocketEvent (.refl _ before) called).unread.trans same

/-- Nothing is ever taken out of the pipe again. -/
theorem unread_run (run : Run (step setup) start history final) :
    final.unread = 0 ↔ start.unread = 0 ∧ ∀ x ∈ history, x.event ≠ .stop := by
  induction run with
  | start => simp
  | @next history client next e earlier taken ih =>
    rw [List.forall_mem_cons]
    cases e with
    | stop =>
      cases taken
      exact iff_of_false (Nat.succ_ne_zero _) fun both => both.2.1 rfl
    | pass order revents around =>
      rw [unread_runOnce taken, ih]
      exact and_congr_right' (iff_and_self.mpr fun _ => (nofun : Event.pass order revents around ≠ .stop))

theorem Fetched.unread (fetched : Fetched setup client) : client.unread = 0 := by
  obtain ⟨myPeerId, addresses, pipeRead, files, attempts, connected⟩ := fetched.connects
  exact @fetchPeers_keeps ι _ _ (fun client => client.unread = 0) (fun _ _ _ _ _ empty _ => empty)
    _ _ rfl connected

theorem Runs.unread (runs : Runs setup start history client) :
    client.unread = 0 ↔ ∀ x ∈ history, x.event ≠ .stop :=
  (unread_run runs.2).trans (and_iff_right runs.1.unread)

end

/-! ## A pass -/

/-- An entry with something to report, and the connection that it was polled for. -/
structure Due (ι : Type) where
  index : Nat
  connection : ι
  revents : Nat

def due (loop : EventLoop ι) (at_ : PollFd × Nat) : Option (Due ι) :=
  if at_.1.revents = 0 then none
  else (loop.lookup at_.1.fd).map fun entry => ⟨at_.2, entry.cb, at_.1.revents⟩

/-- What `poll` has found, the pipe apart. -/
def dues (client : Client ι) : List (Due ι) :=
  client.net.loop.pollfds.zipIdx.tail.filterMap (due client.net.loop)

def serve (setup : Setup) (around : Nat → Surroundings) (client : Client ι) (due : Due ι) :
    Option (Client ι) :=
  client.onSocketEvent setup due.connection (widenShort due.revents) (around due.index)

section
variable {setup : Setup} {pipeRead : Int} {client after : Client ι} {around : Nat → Surroundings}

omit [DecidableEq ι] in
theorem due_congr {loop loop' : EventLoop ι} {pfds : List PollFd} {k : Nat}
    (same : ∀ pfd ∈ pfds, loop.lookup pfd.fd = loop'.lookup pfd.fd) :
    (pfds.zipIdx k).filterMap (due loop) = (pfds.zipIdx k).filterMap (due loop') := by
  apply List.filterMap_congr
  intro at_ member
  unfold due
  rw [same at_.1 (List.fst_mem_of_mem_zipIdx member)]

/-- A callback leaves every other registration as it is. -/
theorem Regular.lookup_called (regular : Regular setup pipeRead client) {fd other : Int}
    {entry : Entry ι} {events : Nat} {surroundings : Surroundings}
    (found : client.net.loop.lookup fd = some entry)
    (ran : client.onSocketEvent setup entry.cb events surroundings = some after)
    (apart : other ≠ fd) : after.net.loop.lookup other = client.net.loop.lookup other := by
  have within := (keeps_within entry.cb client).onSocketEvent (.refl _ client) ran
  have own := (regular.agree.registered fd entry found).2
  have agree' := (regular.called found ran).agree
  by_cases positive : 0 ≤ other
  · exact within.lookup other positive (by rwa [own])
  · -- What is registered is a descriptor.
    have unregistered {net : Network ι} (agree : Network.Agree net) : net.loop.lookup other = none := by
      by_contra some_
      obtain ⟨entry', found'⟩ := Option.ne_none_iff_exists'.mp some_
      obtain ⟨alive, at_⟩ := agree.registered other entry' found'
      exact positive (at_ ▸ (agree.live _ alive).1)
    rw [unregistered agree', unregistered regular.agree]

/-- Neither the counter nor the lookups leave anyone out or call anyone else. -/
theorem Regular.dispatch_eq {pfds : List PollFd} : ∀ {k ready : Nat} {client : Client ι},
    Regular setup pipeRead client → (pfds.map PollFd.fd).Nodup →
      pfds.countP (fun pfd => pfd.revents != 0) ≤ ready →
        dispatch setup around k pfds ready client =
          ((pfds.zipIdx k).filterMap (due client.net.loop)).foldlM (serve setup around) client := by
  induction pfds with
  | nil =>
    intro k ready client regular once counted
    rfl
  | cons pfd pfds ih =>
    intro k ready client regular once counted
    obtain ⟨apart, once⟩ := List.nodup_cons.mp once
    rw [List.countP_cons] at counted
    rw [dispatch, List.zipIdx_cons, List.filterMap_cons]
    by_cases silent : pfd.revents = 0
    · have skipped : due client.net.loop (pfd, k) = none := if_pos silent
      simp only [silent, bne_self_eq_false, Bool.false_eq_true, if_false, Nat.add_zero] at counted
      rw [skipped, if_pos silent]
      dsimp only
      split
      · -- Nothing is left.
        rename_i none_
        have quiet : (pfds.zipIdx (k + 1)).filterMap (due client.net.loop) = [] := by
          rw [List.filterMap_eq_nil_iff]
          intro at_ member
          have zero := Nat.le_zero.mp (none_ ▸ counted)
          rw [List.countP_eq_zero] at zero
          have silent' := zero at_.1 (List.fst_mem_of_mem_zipIdx member)
          exact if_pos (by simpa using silent')
        rw [quiet]
        rfl
      · exact ih regular once counted
    · have reports : (pfd.revents != 0) = true := by simpa using silent
      rw [reports, if_pos rfl] at counted
      rw [if_neg (by omega), if_neg silent]
      cases found : client.net.loop.lookup pfd.fd with
      | none =>
        have skipped : due client.net.loop (pfd, k) = none := by simp [due, found]
        rw [skipped]
        exact ih regular once (by omega)
      | some entry =>
        have taken : due client.net.loop (pfd, k) = some ⟨k, entry.cb, pfd.revents⟩ := by
          simp [due, found, silent]
        rw [taken]
        dsimp only
        rw [List.foldlM_cons]
        unfold serve
        dsimp only
        cases called : client.onSocketEvent setup entry.cb (widenShort pfd.revents) (around k) with
        | none => rfl
        | some after =>
          have later : (pfds.zipIdx (k + 1)).filterMap (due client.net.loop) =
              (pfds.zipIdx (k + 1)).filterMap (due after.net.loop) := by
            apply due_congr
            intro other member
            refine (regular.lookup_called found called fun same => apart ?_).symm
            exact same ▸ List.mem_map_of_mem member
          rw [later]
          exact ih (regular.called found called) once (by omega)

/-! ## The array of a pass -/

omit [DecidableEq ι] in
theorem pollfds_eq {order : EntryOrder ι} {revents : Nat → Nat} {masks : PollSet.Masks}
    (mirrors : PollSet.Mirrors pipeRead masks (client.polled order revents).net.loop.pollfds) :
    ∃ pipe rest, (client.polled order revents).net.loop.pollfds = pipe :: rest := by
  have first := mirrors.pipe
  cases pollfds : (client.polled order revents).net.loop.pollfds with
  | nil => simp [pollfds] at first
  | cons pipe rest => exact ⟨pipe, rest, rfl⟩

omit [DecidableEq ι] in
theorem Regular.mirrors (regular : Regular setup pipeRead client) (order : EntryOrder ι)
    (revents : Nat → Nat) : ∃ masks : PollSet.Masks,
      PollSet.Mirrors pipeRead masks (client.polled order revents).net.loop.pollfds ∧
        ∀ fd, masks fd = (client.net.loop.lookup fd).map Entry.events := by
  obtain ⟨masks, synced⟩ := regular.synced
  obtain ⟨handed, clean⟩ := synced.handOver order
  have reported := handed.report
    fun k => if k = 0 then (if client.unread = 0 then 0 else pollIn) else revents k
  have mirrors := reported.mirrors clean
  rw [report_handOver] at mirrors
  exact ⟨masks, mirrors, fun fd => (synced.registered fd).symm⟩

omit [DecidableEq ι] in
theorem revents_pipe {order : EntryOrder ι} {revents : Nat → Nat} {pipe : PollFd}
    {rest : List PollFd} (pollfds : (client.polled order revents).net.loop.pollfds = pipe :: rest) :
    pipe.revents = if client.unread = 0 then 0 else pollIn := by
  have first := congrArg (fun pfds => pfds[0]?.map PollFd.revents) pollfds
  unfold polled EventLoop.poll at first
  simp only [List.getElem?_mapIdx, List.getElem?_cons_zero, Option.map_some, Option.map_map] at first
  obtain ⟨pfd, -, same⟩ := Option.map_eq_some_iff.mp first
  exact same.symm

/-- With something in the pipe a pass does not return. -/
theorem runOnce_of_pollfds {order : EntryOrder ι} {revents : Nat → Nat} {pipe : PollFd}
    {rest : List PollFd} (pollfds : (client.polled order revents).net.loop.pollfds = pipe :: rest) :
    client.runOnce setup order revents around = if client.unread = 0 then
      dispatch setup around 1 rest (client.polled order revents).net.loop.ready
        (client.polled order revents) else none := by
  have readable := revents_pipe pollfds
  have unread : (client.polled order revents).unread = client.unread := rfl
  unfold runOnce
  dsimp only
  rw [pollfds, unread]
  dsimp only
  by_cases empty : client.unread = 0
  · rw [if_pos empty] at readable ⊢
    rw [if_neg (show ¬ hasEvent pipe.revents pollIn = true by rw [readable]; exact Bool.false_ne_true)]
    split
    · rename_i none_
      rw [none_]
      cases rest <;> rfl
    · rfl
  · rw [if_neg empty] at readable ⊢
    have counted : (client.polled order revents).net.loop.ready ≠ 0 := by
      rw [EventLoop.ready, pollfds, List.countP_cons, readable]
      exact Nat.succ_ne_zero _
    rw [if_neg counted, if_pos (show hasEvent pipe.revents pollIn = true by rw [readable]; rfl)]
    split
    · rename_i left
      exact absurd left (drain_ne_left rfl)
    · rfl
    · rfl

theorem Regular.runOnce_eq (regular : Regular setup pipeRead client) (order : EntryOrder ι)
    (revents : Nat → Nat) : client.runOnce setup order revents around =
      if client.unread = 0 then
        (client.polled order revents).dues.foldlM (serve setup around) (client.polled order revents)
      else none := by
  obtain ⟨masks, mirrors, -⟩ := regular.mirrors order revents
  obtain ⟨pipe, rest, pollfds⟩ := pollfds_eq mirrors
  have polled := regular.polled order revents
  have once : (rest.map PollFd.fd).Nodup := by simpa [pollfds] using mirrors.once
  have readable := revents_pipe pollfds
  rw [runOnce_of_pollfds pollfds]
  split
  · rename_i empty
    rw [if_pos empty] at readable
    have counted : rest.countP (fun pfd => pfd.revents != 0) ≤
        (client.polled order revents).net.loop.ready := by
      rw [EventLoop.ready, pollfds, List.countP_cons]
      exact Nat.le_add_right ..
    rw [dues, pollfds, List.zipIdx_cons, List.tail_cons]
    exact polled.dispatch_eq once counted
  · rfl

omit [DecidableEq ι] in
/-- Whom an entry was polled for. -/
theorem Regular.lookup_iff (regular : Regular setup pipeRead client) {fd : Int} {entry : Entry ι} :
    client.net.loop.lookup fd = some entry ↔
      (client.net.endpoints entry.cb).state ≠ .disconnected ∧
        (client.net.endpoints entry.cb).fd = fd ∧
        (client.net.endpoints entry.cb).mask = entry.events := by
  constructor
  · intro found
    obtain ⟨alive, own⟩ := regular.agree.registered fd entry found
    have same := (regular.agree.live entry.cb alive).2.2
    rw [own, found] at same
    exact ⟨alive, own, (congrArg Entry.events (Option.some.inj same)).symm⟩
  · rintro ⟨alive, rfl, mask⟩
    rw [(regular.agree.live entry.cb alive).2.2, mask]

omit [DecidableEq ι] in
theorem Regular.mem_dues (regular : Regular setup pipeRead client) (due : Due ι) :
    due ∈ client.dues ↔ (client.net.endpoints due.connection).state ≠ .disconnected ∧
      due.revents ≠ 0 ∧ 0 < due.index ∧ ∃ pfd, client.net.loop.pollfds[due.index]? = some pfd ∧
        pfd.fd = (client.net.endpoints due.connection).fd ∧ pfd.revents = due.revents := by
  unfold dues
  rw [List.mem_filterMap, List.tail_zipIdx]
  constructor
  · rintro ⟨⟨pfd, k⟩, member, made⟩
    unfold Client.due at made
    split at made
    · cases made
    · rename_i reports
      obtain ⟨entry, found, rfl⟩ := Option.map_eq_some_iff.mp made
      obtain ⟨alive, own, -⟩ := regular.lookup_iff.mp found
      obtain ⟨later, at_⟩ := List.mk_mem_zipIdx_iff_le_and_getElem?_sub.mp member
      have index : k - (0 + 1) + 1 = k := Nat.sub_add_cancel later
      rw [List.getElem?_tail, index] at at_
      exact ⟨alive, reports, later, pfd, at_, own.symm, rfl⟩
  · rintro ⟨alive, reports, later, pfd, at_, own, same⟩
    refine ⟨(pfd, due.index), ?_, ?_⟩
    · have index : due.index - (0 + 1) + 1 = due.index := Nat.sub_add_cancel later
      rw [List.mk_mem_zipIdx_iff_le_and_getElem?_sub, List.getElem?_tail, index]
      exact ⟨later, at_⟩
    · have found : client.net.loop.lookup pfd.fd =
          some ⟨(client.net.endpoints due.connection).mask, due.connection⟩ :=
        regular.lookup_iff.mpr ⟨alive, own.symm, rfl⟩
      simp [Client.due, found, same, reports]

omit [DecidableEq ι] in
/-- Distinct entries are of distinct connections. -/
theorem Regular.nodup_dues (regular : Regular setup pipeRead client)
    (once : (client.net.loop.pollfds.tail.map PollFd.fd).Nodup) :
    (client.dues.map Due.connection).Nodup := by
  unfold dues
  rw [List.tail_zipIdx]
  generalize client.net.loop.pollfds.tail = pfds at once
  generalize 0 + 1 = k
  induction pfds generalizing k with
  | nil => exact List.nodup_nil
  | cons pfd pfds ih =>
    obtain ⟨apart, once⟩ := List.nodup_cons.mp once
    rw [List.zipIdx_cons, List.filterMap_cons]
    cases made : due client.net.loop (pfd, k) with
    | none => exact ih once (k + 1)
    | some first =>
      refine List.nodup_cons.mpr ⟨fun member => apart ?_, ih once (k + 1)⟩
      obtain ⟨later, member, same⟩ := List.mem_map.mp member
      obtain ⟨at_, there, made'⟩ := List.mem_filterMap.mp member
      have own {at_ : PollFd × Nat} {due_ : Due ι} (made : due client.net.loop at_ = some due_) :
          (client.net.endpoints due_.connection).fd = at_.1.fd := by
        unfold due at made
        split at made
        · cases made
        · obtain ⟨entry, found, rfl⟩ := Option.map_eq_some_iff.mp made
          exact (regular.lookup_iff.mp found).2.1
      have fds := own made'
      rw [same, own made] at fds
      rw [fds]
      exact List.mem_map_of_mem (List.fst_mem_of_mem_zipIdx there)

/-! ## What a client polls and serves -/

variable {start : Client ι} {history : List (Transition (Client ι) (Event ι))}

/-- `poll` watches the pipe that the loop was made with and, once each, the sockets of the
connections that are alive: for something to read, and if there is something to write, for that. -/
theorem polled_exactly {myPeerId : Digest} {addresses : ι → PeerAddress}
    {files : FileStore.Files (LexicalPath.Place Bytes) UInt8}
    {attempts : List (ι × ConnectOutcome × Vector UInt8 8)}
    (connected : fetchPeers attempts
      (new setup myPeerId addresses pipeRead (.fresh files)) = some start)
    (run : Run (step setup) start history client) (order : EntryOrder ι) (revents : Nat → Nat) :
    ∃ pipe rest, (client.polled order revents).net.loop.pollfds = pipe :: rest ∧
      PollSet.asks pipe = (pipeRead, pollIn) ∧ (rest.map PollFd.fd).Nodup ∧
      ∀ fd events, (fd, events) ∈ rest.map PollSet.asks ↔
        ∃ i, (client.net.endpoints i).state ≠ .disconnected ∧ (client.net.endpoints i).fd = fd ∧
          events = if (client.net.endpoints i).writeBuffer = [] then pollIn
            else pollIn ||| pollOut := by
  have regular := (regular_of_fetched connected).run run
  obtain ⟨masks, mirrors, registered⟩ := regular.mirrors order revents
  obtain ⟨pipe, rest, pollfds⟩ := pollfds_eq mirrors
  rw [pollfds] at mirrors
  have small (endpoint : Endpoint) : endpoint.mask < 2 ^ 15 := by
    unfold Endpoint.mask
    split <;> decide
  -- The mask of an entry is that of the connection that it was made for.
  have entries (i : ι) (alive : (client.net.endpoints i).state ≠ .disconnected) :
      masks (client.net.endpoints i).fd = some (client.net.endpoints i).mask := by
    rw [registered, (regular.agree.live i alive).2.2]
    rfl
  refine ⟨pipe, rest, pollfds, Option.some.inj mirrors.pipe, mirrors.once,
    fun fd events => ⟨fun member => ?_, ?_⟩⟩
  · obtain ⟨pfd, there, same⟩ := List.mem_map.mp member
    cases same
    have some_ := (mirrors.registered pfd.fd).mp (List.mem_map_of_mem there)
    rw [registered, Option.isSome_map] at some_
    obtain ⟨entry, found⟩ := Option.isSome_iff_exists.mp some_
    obtain ⟨alive, own, -⟩ := regular.lookup_iff.mp found
    have mask := entries entry.cb alive
    rw [own] at mask
    exact ⟨entry.cb, alive, own, mirrors.mask pfd there _ (small _) mask⟩
  · rintro ⟨i, alive, rfl, rfl⟩
    have mask := entries i alive
    have there := (mirrors.registered (client.net.endpoints i).fd).mpr (by rw [mask]; rfl)
    obtain ⟨pfd, member, own⟩ := List.mem_map.mp there
    refine List.mem_map.mpr ⟨pfd, member, Prod.ext own ?_⟩
    exact mirrors.mask pfd member _ (small _) (own ▸ mask)

theorem polled_exactly_dialled : ∃ history client pipe rest,
    Runs Session.oneByte dialled history client ∧
      (client.polled (.asStored _) fun _ => 0).net.loop.pollfds = pipe :: rest ∧
        PollSet.asks pipe = (3, pollIn) ∧ (9, pollIn ||| pollOut) ∈ rest.map PollSet.asks := by
  have runs := @runs_of_replay [hears itsHandshake, hears [0, 0, 0, 2, 5, 0x80]] _ _ rfl
  have connected : fetchPeers [((), .opened 9, .replicate 8 0)] (new Session.oneByte
      (.replicate 20 2) (fun _ => ⟨0x0100007F, 6881⟩) 3 (.fresh fun _ => [])) = some dialled := rfl
  obtain ⟨pipe, rest, pollfds, first, -, watched⟩ :=
    polled_exactly connected runs.2 (.asStored _) fun _ => 0
  exact ⟨_, _, pipe, rest, runs, pollfds, first,
    (watched 9 _).mpr ⟨(), (fun same => by cases same), rfl, rfl⟩⟩

/-- A pass calls the callbacks of the connections that `poll` has found something for, once each
and with that, in the order of the array; but with something in the pipe it does not return. -/
theorem runOnce_serves (runs : Runs setup start history client) (order : EntryOrder ι)
    (revents : Nat → Nat) (around : Nat → Surroundings) :
    (client.runOnce setup order revents around = if client.unread = 0 then
        (client.polled order revents).dues.foldlM (serve setup around) (client.polled order revents)
      else none) ∧
      ((client.polled order revents).dues.map Due.connection).Nodup ∧
      ∀ due : Due ι, due ∈ (client.polled order revents).dues ↔
        (client.net.endpoints due.connection).state ≠ .disconnected ∧ due.revents ≠ 0 ∧
          0 < due.index ∧ ∃ pfd,
            (client.polled order revents).net.loop.pollfds[due.index]? = some pfd ∧
              pfd.fd = (client.net.endpoints due.connection).fd ∧ pfd.revents = due.revents := by
  obtain ⟨pipeRead, regular⟩ := runs.regular
  have polled := regular.polled order revents
  refine ⟨regular.runOnce_eq order revents, ?_, polled.mem_dues⟩
  obtain ⟨masks, mirrors, -⟩ := regular.mirrors order revents
  exact polled.nodup_dues mirrors.once

/-- The peer's socket has something to read. -/
theorem runOnce_serves_dialled : ∃ history client, Runs Session.oneByte dialled history client ∧
    ∃ polled, polled = client.polled (.asStored _) (fun k => if k = 1 then pollIn else 0) ∧
      polled.dues.map Due.connection = [()] ∧
      ∀ around, client.runOnce Session.oneByte (.asStored _) (fun k => if k = 1 then pollIn else 0)
        around = polled.dues.foldlM (serve Session.oneByte around) polled := by
  have runs := @runs_of_replay [hears itsHandshake] _ _ rfl
  exact ⟨_, _, runs, _, rfl, rfl, fun around => (runOnce_serves runs _ _ around).1.trans (if_pos rfl)⟩

end

end K0Torrent.Client
