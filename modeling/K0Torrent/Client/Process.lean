import K0Torrent.Library.Machine
import K0Torrent.Library.Ownership
import K0Torrent.Tracker.Exchanges

/-! The descriptors of the process: socket objects from construction to destruction, and the
exchanges with trackers between them (`tcp_socket.cpp`, `udp_socket.cpp`, `http_tracker.cpp`,
`udp_tracker.cpp`).

An event is one call, whatever it returns or throws, or something that another part of the
process does to descriptors of its own. A call on an object that does not exist has no
successor.
-/

set_option autoImplicit false

namespace K0Torrent

open Ownership

inductive SocketKind where
  | tcp
  | udp
  deriving DecidableEq

/-- A `TcpSocket` or a `UdpSocket`. -/
structure Socket where
  kind : SocketKind
  fd : Int := -1
  deriving DecidableEq

/-- The objects that exist, and the descriptors of everything else in the process. -/
structure Process (ι : Type) where
  sockets : ι → Option Socket
  others : Finset Int
  fds : Descriptors

namespace Process

inductive Event (ι : Type) where
  | construct (i : ι) (kind : SocketKind)
  | moveConstruct (i other : ι)
  | moveAssign (i other : ι)
  | destroy (i : ι)
  | close (i : ι)
  | tcpConnect (i : ι) (host : Bytes) (port : Nat)
      (resolved : Except ResolverError (List TcpSocket.Attempt))
  | bind (i : ι) (socket : Except Bytes Int) (bound : Except Bytes Unit)
  | udpConnect (i : ι) (socket : Except Bytes Int) (host : Bytes)
      (resolved : Except ResolverError (Except Bytes Unit))
  | sendTo (i : ι) (data host : Bytes) (resolved : Except ResolverError (Except Bytes Nat))
  | httpGet (calls : HttpTracker.Calls) (host : Bytes)
  | announce (key : UInt32) (dialling : Dialling) (host : Bytes) (exchange : UdpTracker.Exchange)
      (req : TrackerRequest)
  | othersOpen (fd : Int)
  | othersClose (fd : Int)

variable {ι : Type} [DecidableEq ι]

/-- A call has left this descriptor in the object. -/
def assign (process : Process ι) (i : ι) (socket : Socket) (fd : Int) (fds : Descriptors) :
    Process ι :=
  { process with sockets := Function.update process.sockets i (some { socket with fd }), fds }

/-- The object, if it exists and is of that kind. -/
def find (process : Process ι) (i : ι) (kind : SocketKind) : Option Socket :=
  (process.sockets i).filter fun socket => socket.kind = kind

def step (process : Process ι) : Event ι → Option (Process ι)
  | .construct i kind =>
    match process.sockets i with
    | some _ => none
    | none => some { process with sockets := Function.update process.sockets i (some { kind }) }
  | .moveConstruct i j =>
    match process.sockets i, process.sockets j with
    | none, some other =>
      some { process with
        sockets := Function.update (Function.update process.sockets i (some other)) j
          (some { other with fd := -1 }) }
    | _, _ => none
  | .moveAssign i j =>
    match process.sockets i, process.sockets j with
    | some this, some other =>
      if this.kind ≠ other.kind then none
      else if i = j then some process
      else
        some { process with
          sockets := Function.update (Function.update process.sockets i
            (some { this with fd := other.fd })) j (some { other with fd := -1 })
          fds := process.fds.release this.fd }
    | _, _ => none
  | .destroy i =>
    (process.sockets i).map fun this =>
      { process with
        sockets := Function.update process.sockets i none
        fds := process.fds.release this.fd }
  | .close i =>
    (process.sockets i).map fun this => process.assign i this (-1) (process.fds.release this.fd)
  | .tcpConnect i host port resolved => do
    let this ← process.find i .tcp
    let (result, fds) ← TcpSocket.connect this.fd host port resolved process.fds
    return process.assign i this (match result with | .ok fd => fd | .error _ => this.fd) fds
  | .bind i socket bound => do
    let this ← process.find i .udp
    let (_, fd, fds) ← UdpSocket.bind this.fd socket bound process.fds
    return process.assign i this fd fds
  | .udpConnect i socket host resolved => do
    let this ← process.find i .udp
    let (_, fd, fds) ← UdpSocket.connect this.fd socket host resolved process.fds
    return process.assign i this fd fds
  | .sendTo i data host resolved =>
    (process.find i .udp).map fun this =>
      { process with fds := (UdpSocket.sendTo this.fd data host resolved process.fds).2 }
  | .httpGet calls host =>
    (HttpTracker.httpGetCalls calls host process.fds).map fun called =>
      { process with fds := called.2 }
  | .announce key dialling host exchange req =>
    (UdpTracker.announceCalls key dialling host exchange req process.fds).map fun called =>
      { process with fds := called.2 }
  | .othersOpen fd =>
    (process.fds.socket fd).map fun fds => { process with others := insert fd process.others, fds }
  | .othersClose fd =>
    if fd ∈ process.others then
      some { process with others := process.others.erase fd, fds := process.fds.close fd }
    else none

/-- The descriptor that stands for none is held by nobody. -/
def held (fd : Int) : Option Int := if fd = -1 then none else some fd

def heldBy (object : Option Socket) : Option Int := object.bind fun socket => held socket.fd

def holds (process : Process ι) (i : ι) : Option Int := heldBy (process.sockets i)

/-- Every descriptor that is open is held by one object, or is none of the sockets' business;
nothing has been closed that was not open, and no address list has been kept. -/
structure Sound (process : Process ι) : Prop where
  owned : Owned process.holds (process.fds.opened \ process.others)
  others : process.others ⊆ process.fds.opened
  misused : process.fds.misused = 0
  addrinfos : process.fds.addrinfos = 0

/-- A process without sockets. -/
def start (others : Finset Int) : Process ι := ⟨fun _ => none, others, { opened := others }⟩

omit [DecidableEq ι] in
theorem sound_start (others : Finset Int) : Sound (start (ι := ι) others) where
  owned := by
    have nobody : (start (ι := ι) others).fds.opened \ (start (ι := ι) others).others = ∅ :=
      Finset.sdiff_self others
    rw [nobody]
    exact owned_nobody
  others := Finset.Subset.refl others
  misused := rfl
  addrinfos := rfl

theorem holds_update (process : Process ι) (i : ι) (object : Option Socket) (fds : Descriptors)
    (others : Finset Int) :
    holds ⟨Function.update process.sockets i object, others, fds⟩ =
      Function.update process.holds i (heldBy object) :=
  Function.comp_update heldBy process.sockets i object

section
variable {process after : Process ι} {i j : ι}

omit [DecidableEq ι] in
theorem Sound.notMem_others (sound : Sound process) {fd : Int} (fresh : fd ∉ process.fds.opened) :
    fd ∉ process.others :=
  fun member => fresh (sound.others member)

/-- What a call does to one descriptor keeps the rule, if the object has it then. -/
theorem Sound.change (sound : Sound process) {fd next : Int} {fds : Descriptors}
    {object : Option Socket} (before : process.holds i = held fd)
    (changes : Changes fd process.fds next fds) (now : heldBy object = held next) :
    Sound { process with sockets := Function.update process.sockets i object, fds } := by
  have holds_ := holds_update process i object fds process.others
  rw [now] at holds_
  generalize origin : process.fds = earlier at changes
  cases changes with
  | kept =>
    subst origin
    rw [← before, Function.update_eq_self] at holds_
    exact ⟨holds_ ▸ sound.owned, sound.others, sound.misused, sound.addrinfos⟩
  | took opens =>
    obtain ⟨valid, fresh, rfl⟩ := opens
    subst origin
    have outside := sound.notMem_others fresh
    refine ⟨?_, sound.others.trans (Finset.subset_insert ..), sound.misused, sound.addrinfos⟩
    simp only [Finset.insert_sdiff_of_notMem _ outside, holds_, held, if_neg (show next ≠ -1 by omega)]
    exact sound.owned.take before fun member => fresh (Finset.mem_sdiff.mp member).1
  | gave valid =>
    subst origin
    rw [held, if_neg valid] at before
    obtain ⟨opened, outside⟩ := Finset.mem_sdiff.mp (sound.owned.used before)
    have closed : process.fds.close fd =
        { process.fds with opened := process.fds.opened.erase fd } := if_pos opened
    rw [closed] at holds_ ⊢
    refine ⟨?_, fun fd' member => ?_, sound.misused, sound.addrinfos⟩
    · simp only [Finset.erase_sdiff_comm, holds_]
      exact sound.owned.drop before
    · exact Finset.mem_erase.mpr ⟨fun same => outside (same ▸ member), sound.others member⟩

/-- One object takes over the descriptor of another. -/
theorem Sound.hand (sound : Sound process) (different : i ≠ j) (free : process.holds i = none)
    {heir giver : Option Socket} (taken : heldBy heir = process.holds j)
    (left : heldBy giver = none) :
    Sound { process with
      sockets := Function.update (Function.update process.sockets i heir) j giver } := by
  have holds_ := holds_update { process with sockets := Function.update process.sockets i heir } j
    giver process.fds process.others
  rw [holds_update process i heir, taken, left] at holds_
  exact ⟨holds_ ▸ sound.owned.hand different free, sound.others, sound.misused, sound.addrinfos⟩

omit [DecidableEq ι] in
theorem holds_of_find {kind : SocketKind} {this : Socket} (found : process.find i kind = some this) :
    process.holds i = held this.fd := by
  rw [holds, (Option.filter_eq_some_iff.mp found).1]
  rfl

/-- A call on an object that ends with this descriptor in it. -/
theorem Sound.assign (sound : Sound process) {this : Socket} {fd : Int} {fds : Descriptors}
    (before : process.holds i = held this.fd) (changes : Changes this.fd process.fds fd fds) :
    Sound (process.assign i this fd fds) :=
  sound.change before changes rfl

omit [DecidableEq ι] in
/-- A call that leaves the descriptors as they are. -/
theorem Sound.same (sound : Sound process) {fds : Descriptors} (same : fds = process.fds) :
    Sound { process with fds } := by
  subst same
  exact sound

theorem Sound.step {event : Event ι} (sound : Sound process)
    (taken : step process event = some after) : Sound after := by
  cases event with
  | construct i kind =>
    simp only [Process.step] at taken
    split at taken
    · cases taken
    · rename_i absent
      cases taken
      have before : process.holds i = held (-1) := by
        rw [holds, absent]
        rfl
      exact sound.change before (.kept (-1) process.fds) rfl
  | moveConstruct i j =>
    simp only [Process.step] at taken
    split at taken
    · rename_i other absent present
      cases taken
      refine sound.hand ?_ ?_ ?_ rfl
      · rintro rfl
        cases absent.symm.trans present
      · rw [holds, absent]
        rfl
      · rw [holds, present]
    · cases taken
  | moveAssign i j =>
    simp only [Process.step] at taken
    split at taken
    · rename_i this other present present'
      split at taken
      · cases taken
      · split at taken
        · cases taken
          exact sound
        · rename_i different
          cases taken
          -- The descriptor that is replaced goes first.
          have released := @Sound.change ι _ process i sound this.fd (-1) _
            (some { this with fd := -1 }) (by rw [holds, present]; rfl)
            (changes_release this.fd process.fds) rfl
          have handed := @Sound.hand ι _ _ i j released different
            (by simp only [holds, Function.update_self]; rfl) (some { this with fd := other.fd })
            (some { other with fd := -1 })
            (by simp only [holds, Function.update_of_ne (Ne.symm different), present']; rfl) rfl
          simpa only [Function.update_idem] using handed
    · cases taken
  | destroy i =>
    obtain ⟨this, present, same⟩ := Option.map_eq_some_iff.mp taken
    cases same
    refine sound.change ?_ (changes_release this.fd process.fds) rfl
    rw [holds, present]
    rfl
  | close i =>
    obtain ⟨this, present, same⟩ := Option.map_eq_some_iff.mp taken
    cases same
    refine sound.change ?_ (changes_release this.fd process.fds) rfl
    rw [holds, present]
    rfl
  | tcpConnect i host port resolved =>
    obtain ⟨this, found, taken⟩ := Option.bind_eq_some_iff.mp taken
    obtain ⟨⟨result, fds⟩, connected, taken⟩ := Option.bind_eq_some_iff.mp taken
    cases taken
    refine sound.assign (holds_of_find found) ?_
    have settles := (TcpSocket.connect_refines connected).1
    cases result with
    | error error =>
      obtain rfl : fds = process.fds := settles
      exact .kept this.fd process.fds
    | ok fd =>
      obtain ⟨none_, opens⟩ : this.fd = -1 ∧ process.fds.Opens fd fds := settles
      rw [none_]
      exact .took opens
  | bind i socket bound =>
    obtain ⟨this, found, taken⟩ := Option.bind_eq_some_iff.mp taken
    obtain ⟨⟨thrown, fd, fds⟩, called, taken⟩ := Option.bind_eq_some_iff.mp taken
    cases taken
    exact sound.assign (holds_of_find found) (UdpSocket.changes_bind called)
  | udpConnect i socket host resolved =>
    obtain ⟨this, found, taken⟩ := Option.bind_eq_some_iff.mp taken
    obtain ⟨⟨thrown, fd, fds⟩, called, taken⟩ := Option.bind_eq_some_iff.mp taken
    cases taken
    exact sound.assign (holds_of_find found) (UdpSocket.changes_connect called)
  | sendTo i data host resolved =>
    obtain ⟨this, found, same⟩ := Option.map_eq_some_iff.mp taken
    cases same
    exact sound.same (UdpSocket.sendTo_descriptors ..)
  | httpGet calls host =>
    obtain ⟨⟨result, fds⟩, got, same⟩ := Option.map_eq_some_iff.mp taken
    cases same
    exact sound.same (HttpTracker.httpGetCalls_eq got).1
  | announce key dialling host exchange req =>
    obtain ⟨⟨result, fds⟩, announced, same⟩ := Option.map_eq_some_iff.mp taken
    cases same
    exact sound.same (UdpTracker.announceCalls_eq announced).1
  | othersOpen fd =>
    obtain ⟨fds, opened, same⟩ := Option.map_eq_some_iff.mp taken
    cases same
    obtain ⟨-, fresh, rfl⟩ := Descriptors.socket_eq_some.mp opened
    refine ⟨?_, Finset.insert_subset_insert fd sound.others, sound.misused, sound.addrinfos⟩
    have kept : insert fd process.fds.opened \ insert fd process.others =
        process.fds.opened \ process.others := by
      rw [Finset.insert_sdiff_insert, Finset.sdiff_insert_of_notMem fresh]
    rw [kept]
    exact sound.owned
  | othersClose fd =>
    simp only [Process.step] at taken
    split at taken
    · rename_i member
      cases taken
      have closed : process.fds.close fd =
          { process.fds with opened := process.fds.opened.erase fd } := if_pos (sound.others member)
      rw [closed]
      refine ⟨?_, Finset.erase_subset_erase fd sound.others, sound.misused, sound.addrinfos⟩
      have kept : process.fds.opened.erase fd \ process.others.erase fd =
          process.fds.opened \ process.others := by
        ext other
        simp only [Finset.mem_sdiff, Finset.mem_erase]
        constructor
        · rintro ⟨⟨different, opened⟩, outside⟩
          exact ⟨opened, fun inside => outside ⟨different, inside⟩⟩
        · rintro ⟨opened, outside⟩
          exact ⟨⟨fun same => outside (same ▸ member), opened⟩, fun inside => outside inside.2⟩
      rw [kept]
      exact sound.owned
    · cases taken

/-- Whatever the calls return or throw, in whatever order they come: each descriptor that is
open is held by exactly one socket object, or by another part of the process. No descriptor is
closed that is not open, none of another part is, and no address list is kept. So none is left
when the objects are gone. -/
theorem mem_opened_iff {others : Finset Int} {final : Process ι}
    {history : List (Machine.Transition (Process ι) (Event ι))}
    (run : Machine.Run step (start others) history final) :
    (∀ fd, fd ∈ final.fds.opened \ final.others ↔ ∃! i, final.holds i = some fd) ∧
      final.others ⊆ final.fds.opened ∧ final.fds.misused = 0 ∧ final.fds.addrinfos = 0 ∧
      ((∀ i, final.sockets i = none) → final.fds.opened = final.others) := by
  have sound : Sound final :=
    run.invariant Sound (sound_start others) fun _ _ _ sound taken => sound.step taken
  refine ⟨sound.owned.mem_iff, sound.others, sound.misused, sound.addrinfos, fun gone => ?_⟩
  refine Finset.Subset.antisymm (fun fd opened => ?_) sound.others
  by_contra outside
  obtain ⟨i, here⟩ := sound.owned.held (Finset.mem_sdiff.mpr ⟨opened, outside⟩)
  rw [holds, gone i] at here
  cases here

end

/-- The second address answers, the socket is moved, and both objects go. -/
theorem mem_opened_iff_moved : ∃ history final, Machine.Run step (start {0, 1, 2}) history final ∧
    (∀ i : Bool, final.sockets i = none) ∧ final.fds.opened = {0, 1, 2} := by
  obtain ⟨history, final, run, others, gone⟩ : ∃ history final,
      Machine.Run step (start {0, 1, 2}) history final ∧ final.others = {0, 1, 2} ∧
      ∀ i : Bool, final.sockets i = none :=
    ⟨_, _, @Machine.run_of_replay _ _ step (start {0, 1, 2})
      [.construct false .tcp,
        .tcpConnect false [] 80 (.ok [⟨some 3, false⟩, ⟨none, false⟩, ⟨some 3, true⟩]),
        .moveConstruct true false, .destroy false, .close true, .destroy true] _ _ [] _ .start rfl,
      rfl, by decide⟩
  refine ⟨history, final, run, gone, ?_⟩
  rw [(mem_opened_iff run).2.2.2.2 gone, others]

end Process

end K0Torrent
