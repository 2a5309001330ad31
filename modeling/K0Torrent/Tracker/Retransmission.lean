import K0Torrent.Tracker.UdpTracker

/-! What the order of the datagrams does to an announce over UDP.

Each request is sent up to four times, and every transmission may be answered, late and
more than once. The first datagram that is read decides, whatever it answers.
-/

set_option autoImplicit false

namespace K0Torrent.UdpTracker

/-- A reply to the connect request with this transaction id. -/
def IsConnectReply (txnId : UInt32) (datagram : Bytes) : Prop :=
  16 ≤ datagram.length ∧ readU32At datagram 0 = 0 ∧ readU32At datagram 4 = txnId.toNat

def IsAnnounceReply (txnId : UInt32) (datagram : Bytes) : Prop :=
  20 ≤ datagram.length ∧ readU32At datagram 0 = 1 ∧ readU32At datagram 4 = txnId.toNat

instance (txnId : UInt32) (datagram : Bytes) : Decidable (IsConnectReply txnId datagram) :=
  inferInstanceAs (Decidable (_ ∧ _ ∧ _))

instance (txnId : UInt32) (datagram : Bytes) : Decidable (IsAnnounceReply txnId datagram) :=
  inferInstanceAs (Decidable (_ ∧ _ ∧ _))

/-- The datagrams that arrive during so many attempts from one on, or until `send` fails. -/
def arrivalsFrom (phase : Nat → Transmission) : Nat → Nat → List Bytes
  | 0, _ => []
  | left + 1, attempt =>
    if (phase attempt).sendFails then []
    else (phase attempt).arriving ++ arrivalsFrom phase left (attempt + 1)

def arrivals (phase : Nat → Transmission) : List Bytes := arrivalsFrom phase attempts 0

/-- With that many attempts left and a queue, the first datagram that is read and not
empty, and what stays in the queue. An empty one uses up an attempt, as silence and an
error of `recv` do. -/
inductive FirstRead (phase : Nat → Transmission) :
    Nat → Nat → List Bytes → Bytes → List Bytes → Prop where
  | found {left attempt : Nat} {queue rest : List Bytes} {datagram : Bytes}
      (sent : (phase attempt).sendFails = false) (received : (phase attempt).recvFails = false)
      (first : queue ++ (phase attempt).arriving = datagram :: rest) (some_ : datagram ≠ []) :
      FirstRead phase (left + 1) attempt queue datagram rest
  | empty {left attempt : Nat} {queue next rest : List Bytes} {datagram : Bytes}
      (sent : (phase attempt).sendFails = false) (received : (phase attempt).recvFails = false)
      (first : queue ++ (phase attempt).arriving = [] :: next)
      (later : FirstRead phase left (attempt + 1) next datagram rest) :
      FirstRead phase (left + 1) attempt queue datagram rest
  | silent {left attempt : Nat} {queue rest : List Bytes} {datagram : Bytes}
      (sent : (phase attempt).sendFails = false) (received : (phase attempt).recvFails = false)
      (none_ : queue ++ (phase attempt).arriving = [])
      (later : FirstRead phase left (attempt + 1) [] datagram rest) :
      FirstRead phase (left + 1) attempt queue datagram rest
  | failed {left attempt : Nat} {queue rest : List Bytes} {datagram : Bytes}
      (sent : (phase attempt).sendFails = false) (failed : (phase attempt).recvFails = true)
      (later : FirstRead phase left (attempt + 1) (queue ++ (phase attempt).arriving) datagram
        rest) :
      FirstRead phase (left + 1) attempt queue datagram rest

section
variable {phase : Nat → Transmission}

theorem arrivalsFrom_succ {attempt : Nat} (sent : (phase attempt).sendFails = false)
    (queue : List Bytes) (left : Nat) :
    queue ++ arrivalsFrom phase (left + 1) attempt =
      (queue ++ (phase attempt).arriving) ++ arrivalsFrom phase left (attempt + 1) := by
  rw [arrivalsFrom, sent, if_neg Bool.false_ne_true, List.append_assoc]

theorem FirstRead.sublist {left attempt : Nat} {queue rest : List Bytes} {datagram : Bytes}
    (read : FirstRead phase left attempt queue datagram rest) :
    List.Sublist (datagram :: rest) (queue ++ arrivalsFrom phase left attempt) := by
  induction read with
  | found sent _ first =>
    rw [arrivalsFrom_succ sent, first]
    exact List.sublist_append_left ..
  | empty sent _ first _ ih =>
    rw [arrivalsFrom_succ sent, first]
    exact ih.cons _
  | silent sent _ none_ _ ih =>
    rw [arrivalsFrom_succ sent, none_]
    exact ih
  | failed sent _ _ ih =>
    rw [arrivalsFrom_succ sent]
    exact ih

variable {packet : Bytes} {recvCap : Nat} (positive : 0 < recvCap)
include positive

theorem isEmpty_take_iff (datagram : Bytes) :
    (datagram.take recvCap).isEmpty = true ↔ datagram = [] := by
  rw [List.isEmpty_iff, List.take_eq_nil_iff]
  exact or_iff_right (Nat.ne_of_gt positive)

theorem firstRead_of_sendRecvFrom {resp : Bytes} {after : UdpSocket} (left : Nat) :
    ∀ {attempt : Nat} {socket : UdpSocket},
      sendRecvFrom packet recvCap phase left attempt socket = (.ok resp, after) →
      ∃ datagram, FirstRead phase left attempt socket.queue datagram after.queue ∧
        resp = datagram.take recvCap := by
  induction left with
  | zero =>
    intro attempt socket received
    cases received
  | succ left ih =>
    intro attempt socket received
    rw [sendRecvFrom] at received
    cases sent : (phase attempt).sendFails with
    | true =>
      rw [sent, if_pos rfl] at received
      cases received
    | false =>
      rw [sent, if_neg Bool.false_ne_true] at received
      cases failed : (phase attempt).recvFails with
      | true =>
        simp only [failed, if_true] at received
        obtain ⟨datagram, later, read⟩ := ih received
        exact ⟨datagram, .failed sent failed later, read⟩
      | false =>
        simp only [failed, Bool.false_eq_true, if_false] at received
        cases waiting : socket.queue ++ (phase attempt).arriving with
        | nil =>
          simp only [waiting] at received
          obtain ⟨datagram, later, read⟩ := ih received
          exact ⟨datagram, .silent sent failed waiting later, read⟩
        | cons datagram queue =>
          simp only [waiting, isEmpty_take_iff positive] at received
          split at received
          · rename_i none_
            subst none_
            obtain ⟨other, later, read⟩ := ih received
            exact ⟨other, .empty sent failed waiting later, read⟩
          · rename_i some_
            cases received
            exact ⟨datagram, .found sent failed waiting some_, rfl⟩

theorem sendRecvFrom_of_firstRead {left attempt : Nat} {queue rest : List Bytes} {datagram : Bytes}
    (read : FirstRead phase left attempt queue datagram rest) : ∀ sent : List Bytes,
    ∃ sent', sendRecvFrom packet recvCap phase left attempt ⟨sent, queue⟩ =
      (.ok (datagram.take recvCap), ⟨sent', rest⟩) := by
  induction read with
  | found sends received first some_ =>
    intro sent
    refine ⟨packet :: sent, ?_⟩
    simp only [sendRecvFrom, sends, received, first, isEmpty_take_iff positive, some_,
      Bool.false_eq_true, if_false]
  | empty sends received first _ ih =>
    intro sent
    obtain ⟨sent', later⟩ := ih (packet :: sent)
    refine ⟨sent', ?_⟩
    simp only [sendRecvFrom, sends, received, first, List.take_nil, List.isEmpty_nil, later,
      Bool.false_eq_true, if_false, if_true]
  | silent sends received none_ _ ih =>
    intro sent
    obtain ⟨sent', later⟩ := ih (packet :: sent)
    refine ⟨sent', ?_⟩
    simp only [sendRecvFrom, sends, received, none_, later, Bool.false_eq_true, if_false]
  | failed sends failed _ ih =>
    intro sent
    obtain ⟨sent', later⟩ := ih (packet :: sent)
    refine ⟨sent', ?_⟩
    simp only [sendRecvFrom, sends, failed, later, Bool.false_eq_true, if_false, if_true]

end

/-! ## What the checks accept -/

theorem readU32At_take {datagram : Bytes} {cap offset : Nat} (within : offset + 4 ≤ cap) :
    readU32At (datagram.take cap) offset = readU32At datagram offset := by
  unfold readU32At
  simp [List.getElem?_take_of_lt, show offset < cap by omega, show offset + 1 < cap by omega,
    show offset + 2 < cap by omega, show offset + 3 < cap by omega]

theorem checkConnect_ok_iff {txnId : UInt32} {datagram : Bytes} :
    (∃ connectionId, checkConnect txnId (datagram.take 16) = .ok connectionId) ↔
      IsConnectReply txnId datagram := by
  unfold checkConnect IsConnectReply
  rw [readU32At_take (by decide), readU32At_take (by decide), List.length_take]
  split_ifs <;> simp <;> omega

theorem checkAnnounce_ok_iff {txnId : UInt32} {datagram : Bytes} {response : TrackerResponse} :
    checkAnnounce txnId (datagram.take maxResp) = .ok response ↔
      IsAnnounceReply txnId datagram ∧ readResponse (datagram.take maxResp) = response := by
  have cap : 20 ≤ maxResp := by decide
  unfold checkAnnounce IsAnnounceReply
  rw [readU32At_take (by decide), readU32At_take (by decide), List.length_take]
  split_ifs <;> simp <;> omega

/-! ## The two phases -/

theorem firstRead_of_doConnect {txnId : UInt32} {phase : Nat → Transmission}
    {socket after : UdpSocket} {connectionId : Nat}
    (connected : doConnect txnId phase socket = (.ok connectionId, after)) :
    ∃ datagram, FirstRead phase attempts 0 socket.queue datagram after.queue ∧
      IsConnectReply txnId datagram := by
  unfold doConnect at connected
  rcases received : sendRecv (connectRequest txnId) 16 phase socket with ⟨_ | resp, after'⟩
  · rw [received] at connected
    cases connected
  · rw [received] at connected
    obtain ⟨checked, rfl⟩ := Prod.mk.inj connected
    obtain ⟨datagram, read, rfl⟩ := firstRead_of_sendRecvFrom (by decide) attempts received
    exact ⟨datagram, read, checkConnect_ok_iff.mp ⟨connectionId, checked⟩⟩

theorem doConnect_of_firstRead {txnId : UInt32} {phase : Nat → Transmission}
    {socket : UdpSocket} {datagram : Bytes} {rest : List Bytes}
    (read : FirstRead phase attempts 0 socket.queue datagram rest)
    (reply : IsConnectReply txnId datagram) :
    ∃ connectionId sent, doConnect txnId phase socket = (.ok connectionId, ⟨sent, rest⟩) := by
  obtain ⟨sent, received⟩ := @sendRecvFrom_of_firstRead phase (connectRequest txnId) 16 (by decide)
    _ _ _ _ _ read socket.sent
  obtain ⟨connectionId, checked⟩ := checkConnect_ok_iff.mpr reply
  refine ⟨connectionId, sent, ?_⟩
  rw [doConnect, sendRecv, received]
  exact congrArg (·, (⟨sent, rest⟩ : UdpSocket)) checked

section
variable {key : UInt32} {connectionId : Nat} {txnId : UInt32} {req : TrackerRequest}
  {phase : Nat → Transmission} {socket : UdpSocket}

theorem firstRead_of_doAnnounce {response : TrackerResponse}
    (announced : (doAnnounce key connectionId txnId req phase socket).1 = .ok response) :
    ∃ datagram rest, FirstRead phase attempts 0 socket.queue datagram rest ∧
      IsAnnounceReply txnId datagram ∧ readResponse (datagram.take maxResp) = response := by
  unfold doAnnounce at announced
  rcases received : sendRecv (announceRequest key connectionId txnId req) maxResp phase socket
    with ⟨_ | resp, after⟩
  · rw [received] at announced
    cases announced
  · rw [received] at announced
    obtain ⟨datagram, read, rfl⟩ := firstRead_of_sendRecvFrom (by decide) attempts received
    exact ⟨datagram, after.queue, read, checkAnnounce_ok_iff.mp announced⟩

theorem doAnnounce_of_firstRead {datagram : Bytes} {rest : List Bytes}
    (read : FirstRead phase attempts 0 socket.queue datagram rest)
    (reply : IsAnnounceReply txnId datagram) :
    (doAnnounce key connectionId txnId req phase socket).1 =
      .ok (readResponse (datagram.take maxResp)) := by
  obtain ⟨sent, received⟩ := @sendRecvFrom_of_firstRead phase
    (announceRequest key connectionId txnId req) maxResp (by decide) _ _ _ _ _ read socket.sent
  rw [doAnnounce, sendRecv, received]
  exact checkAnnounce_ok_iff.mpr ⟨reply, rfl⟩

end

/-! ## The announce -/

/-- No reply to the request that is pending has arrived: to the connect request, or to the
announce request after the socket has got through the first phase. -/
inductive Unanswered (exchange : Exchange) : Prop where
  | connect (thrown : Thrown) (socket : UdpSocket)
      (pending : doConnect exchange.connectTxn exchange.connecting {} = (.error thrown, socket))
      (none_ : ∀ datagram ∈ arrivals exchange.connecting,
        ¬ IsConnectReply exchange.connectTxn datagram)
  | announce (connectionId : Nat) (socket : UdpSocket)
      (pending : doConnect exchange.connectTxn exchange.connecting {} = (.ok connectionId, socket))
      (none_ : ∀ datagram ∈ socket.queue ++ arrivals exchange.announcing,
        ¬ IsAnnounceReply exchange.announceTxn datagram)

/-- What a response is read from, and what a failure means. -/
structure Tolerates (key : UInt32) (exchange : Exchange) (req : TrackerRequest) : Prop where
  response : ∀ response, announce key exchange req = .ok response →
    ∃ datagram ∈ arrivals exchange.connecting ++ arrivals exchange.announcing,
      IsAnnounceReply exchange.announceTxn datagram ∧
        readResponse (datagram.take maxResp) = response
  failure : exchange.opening = none → ∀ thrown, announce key exchange req = .error thrown →
    Unanswered exchange

/-- The first datagram that is read is a reply to the request, or none arrives. -/
def Settles (IsReply : Bytes → Prop) (phase : Nat → Transmission) (queue : List Bytes) : Prop :=
  (∃ datagram rest, FirstRead phase attempts 0 queue datagram rest ∧ IsReply datagram) ∨
    ∀ datagram ∈ queue ++ arrivals phase, ¬ IsReply datagram

structure Orderly (exchange : Exchange) : Prop where
  connect : Settles (IsConnectReply exchange.connectTxn) exchange.connecting []
  announce : ∀ datagram rest, FirstRead exchange.connecting attempts 0 [] datagram rest →
    IsConnectReply exchange.connectTxn datagram →
    Settles (IsAnnounceReply exchange.announceTxn) exchange.announcing rest

section
variable {key : UInt32} {exchange : Exchange} {req : TrackerRequest}

theorem announce_of_connectFailed {thrown : Thrown} {socket : UdpSocket}
    (opened : exchange.opening = none)
    (failed : doConnect exchange.connectTxn exchange.connecting {} = (.error thrown, socket)) :
    announce key exchange req = .error thrown := by
  rw [announce, opened]
  simp only [failed]

theorem announce_of_connected {connectionId : Nat} {socket : UdpSocket}
    (opened : exchange.opening = none)
    (connected : doConnect exchange.connectTxn exchange.connecting {} = (.ok connectionId, socket)) :
    announce key exchange req =
      (doAnnounce key connectionId exchange.announceTxn req exchange.announcing socket).1 := by
  rw [announce, opened]
  simp only [connected]

/-- The phases that an announce has gone through, from its result. -/
theorem announce_cases {result : Except Thrown TrackerResponse}
    (opened : exchange.opening = none) (announced : announce key exchange req = result) :
    (∃ thrown socket, doConnect exchange.connectTxn exchange.connecting {} = (.error thrown, socket) ∧
      result = .error thrown) ∨
    (∃ connectionId socket,
      doConnect exchange.connectTxn exchange.connecting {} = (.ok connectionId, socket) ∧
      (doAnnounce key connectionId exchange.announceTxn req exchange.announcing socket).1 =
        result) := by
  rcases connected : doConnect exchange.connectTxn exchange.connecting {} with ⟨_ | _, socket⟩
  · rw [announce_of_connectFailed opened connected] at announced
    exact .inl ⟨_, socket, rfl, announced.symm⟩
  · rw [announce_of_connected opened connected] at announced
    exact .inr ⟨_, socket, rfl, announced⟩

/-- Peers come from a reply to the announce request only, in any order of the datagrams. -/
theorem reply_of_announce {response : TrackerResponse}
    (announced : announce key exchange req = .ok response) :
    ∃ datagram ∈ arrivals exchange.connecting ++ arrivals exchange.announcing,
      IsAnnounceReply exchange.announceTxn datagram ∧
        readResponse (datagram.take maxResp) = response := by
  have opened : exchange.opening = none := by
    rw [announce] at announced
    cases opening : exchange.opening with
    | none => rfl
    | some thrown =>
      rw [opening] at announced
      cases announced
  rcases announce_cases opened announced with ⟨_, _, _, failed⟩ | ⟨_, socket, connected, replied⟩
  · cases failed
  · obtain ⟨datagram, rest, read, reply⟩ := firstRead_of_doAnnounce replied
    obtain ⟨earlier, before, -⟩ := firstRead_of_doConnect connected
    have left := (List.sublist_cons_self earlier socket.queue).trans before.sublist
    have all := read.sublist.trans (left.append_right _)
    exact ⟨datagram, all.subset (List.mem_cons_self ..), reply⟩

theorem orderly_of_tolerates (tolerates : Tolerates key exchange req)
    (opened : exchange.opening = none) : Orderly exchange where
  connect := by
    rcases connected : doConnect exchange.connectTxn exchange.connecting {} with ⟨_ | _, socket⟩
    · have failed := @announce_of_connectFailed key exchange req _ _ opened connected
      cases tolerates.failure opened _ failed with
      | connect thrown socket pending none_ => exact .inr none_
      | announce connectionId socket pending none_ =>
        rw [connected] at pending
        cases pending
    · obtain ⟨datagram, read, reply⟩ := firstRead_of_doConnect connected
      exact .inl ⟨datagram, _, read, reply⟩
  announce datagram rest read reply := by
    obtain ⟨connectionId, sent, connected⟩ := @doConnect_of_firstRead _ _ {} _ _ read reply
    have announced := @announce_of_connected key exchange req _ _ opened connected
    cases result : announce key exchange req with
    | ok response =>
      rw [announced] at result
      obtain ⟨datagram', rest', read', reply', -⟩ := firstRead_of_doAnnounce result
      exact .inl ⟨datagram', rest', read', reply'⟩
    | error thrown =>
      cases tolerates.failure opened _ result with
      | connect thrown socket pending none_ =>
        rw [connected] at pending
        cases pending
      | announce connectionId' socket pending none_ =>
        rw [connected] at pending
        cases pending
        exact .inr none_

theorem unanswered_of_orderly (orderly : Orderly exchange) {thrown : Thrown}
    (opened : exchange.opening = none) (failed : announce key exchange req = .error thrown) :
    Unanswered exchange := by
  rcases announce_cases opened failed with
    ⟨thrown', socket, pending, _⟩ | ⟨connectionId, socket, pending, failed'⟩
  · apply Unanswered.connect _ _ pending
    apply orderly.connect.resolve_left
    rintro ⟨datagram, rest, read, reply⟩
    obtain ⟨connectionId, sent, connected⟩ := @doConnect_of_firstRead _ _ {} _ _ read reply
    rw [pending] at connected
    cases connected
  · obtain ⟨datagram, read, reply⟩ := firstRead_of_doConnect pending
    apply Unanswered.announce _ _ pending
    apply (orderly.announce datagram _ read reply).resolve_left
    rintro ⟨datagram', rest, read', reply'⟩
    rw [doAnnounce_of_firstRead read' reply'] at failed'
    cases failed'

/-- An announce tolerates an order of the datagrams exactly if in each phase the first one
that is read is a reply to the request, or no reply arrives. -/
theorem tolerates_iff :
    Tolerates key exchange req ↔ (exchange.opening = none → Orderly exchange) := by
  constructor
  · exact orderly_of_tolerates
  · intro orderly
    exact ⟨fun response => reply_of_announce,
      fun opened thrown failed => unanswered_of_orderly (orderly opened) opened failed⟩

end

/-! ## A late reply to the connect request -/

def connectReply : Bytes := writeU32 0 ++ writeU32 7 ++ writeU64 1

def announceReply : Bytes := writeU32 1 ++ writeU32 8 ++ writeU32 1800 ++ writeU32 0 ++ writeU32 0

def anyRequest : TrackerRequest :=
  { infoHash := Vector.replicate 20 0, peerId := Vector.replicate 20 0 }

/-- The reply to the first connect request comes during the second attempt, together with the
reply to the second one. The reply to the announce request comes at once. -/
def lateReply : Exchange where
  connectTxn := 7
  announceTxn := 8
  connecting attempt := { arriving := if attempt = 1 then [connectReply, connectReply] else [] }
  announcing attempt := { arriving := if attempt = 0 then [announceReply] else [] }

/-- The second of the two is read in place of the reply to the announce request. -/
theorem lateReply_fails :
    announce 0 lateReply anyRequest =
        .error (.standard (ascii "UDP announce response too short")) ∧
      IsConnectReply lateReply.connectTxn connectReply ∧
      announceReply ∈ arrivals lateReply.announcing ∧
      IsAnnounceReply lateReply.announceTxn announceReply ∧
      ¬ Tolerates 0 lateReply anyRequest := by
  have failed : announce 0 lateReply anyRequest =
      .error (.standard (ascii "UDP announce response too short")) := by rfl
  have arrives : announceReply ∈ arrivals lateReply.announcing := by decide +kernel
  have reply : IsAnnounceReply lateReply.announceTxn announceReply := by decide
  refine ⟨failed, by decide, arrives, reply, fun tolerates => ?_⟩
  cases tolerates.failure rfl _ failed with
  | connect thrown socket pending none_ =>
    exact none_ connectReply (by decide +kernel) (by decide)
  | announce connectionId socket pending none_ =>
    exact none_ announceReply (List.mem_append_right _ arrives) reply

end K0Torrent.UdpTracker
