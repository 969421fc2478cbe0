import QuickRelay.Server.Serving

/-! Starting the workers: which datagram sockets the process leaves bound to an address,
and which of them an event loop polls. -/
namespace QuickRelay.Server
open Lib Protocol
open Binding (IpAddr SocketAddr ServerIdentity)
open Transport.EventLoop hiding Step History

/-! ### What the operating system answers -/

/-- Up to `bind`: each call succeeds or fails; `port` is the one taken for port 0. -/
structure BindAnswers where
  created : Bool
  reuseAddress : Bool
  reusePort : Bool
  bound : Bool
  port : UInt16
  deriving DecidableEq, Repr

/-- Up to a socket that is registered with the poll; `named` is whether `local_addr`
succeeds. -/
structure PolledAnswers extends BindAnswers where
  listening : Bool
  nonblocking : Bool
  registered : Bool
  named : Bool
  deriving DecidableEq, Repr

structure SenderAnswers extends BindAnswers where
  named : Bool
  deriving DecidableEq, Repr

/-- One call of `start_worker`. -/
structure StartAnswers where
  poll : Bool
  waker : Bool
  udp : PolledAnswers
  sender : SenderAnswers
  tcp : PolledAnswers
  spawned : Bool
  deriving DecidableEq, Repr

inductive StartError where
  | poll
  | waker
  | spawn
  deriving DecidableEq, Repr

inductive ServeError where
  | nothingToServe
  | failedToStart (index : Nat) (error : StartError)
  | nothingBound
  deriving DecidableEq, Repr

/-! ### Sockets -/

/-- An open socket and the address it is bound to. No two open sockets have one handle. -/
structure Socket where
  handle : Nat
  addr : SocketAddr
  deriving DecidableEq, Repr

def BindAnswers.opens (a : BindAnswers) : Bool := a.created && a.reuseAddress && a.reusePort && a.bound

/-- Where a socket bound to an address lands. -/
def BindAnswers.landed (a : BindAnswers) (addr : SocketAddr) : SocketAddr :=
  if addr.port = 0 then { addr with port := a.port } else addr

def bindUdp (a : PolledAnswers) (handle : Nat) (addr : SocketAddr) : Option Socket :=
  if a.opens && a.nonblocking then some ⟨handle, a.landed addr⟩ else none

def bindTcp (a : PolledAnswers) (handle : Nat) (addr : SocketAddr) : Option Socket :=
  if a.opens && a.listening && a.nonblocking then some ⟨handle, a.landed addr⟩ else none

/-- `new_udp` and `new_tcp`: a socket that cannot be registered is closed. -/
def attach (a : PolledAnswers) (socket : Option Socket) : Option Socket := if a.registered then socket else none

def localAddr (named : Bool) (socket : Socket) : Option SocketAddr := if named then some socket.addr else none

def replySocket (a : SenderAnswers) (handle : Nat) (addr : SocketAddr) : Option Socket :=
  if a.opens then some ⟨handle, a.landed addr⟩ else none

/-! ### Workers -/

def isUnspecified (ip : IpAddr) : Bool :=
  match ip with
  | .v4 octets => octets.val == zeros 4
  | .v6 octets => octets.val == zeros 16

/-- The listen list without wildcards, port 0 and repetitions. -/
def listenIdentities (listeners : List SocketAddr) : List ServerIdentity :=
  listeners.foldl (fun out address =>
    if isUnspecified address.ip || address.port == 0 then out
    else if identityOfSocket address ∈ out then out
    else out ++ [identityOfSocket address]) []

/-- `WorkerConfig::default`, in nanoseconds. -/
def defaultConfig : WorkerConfig := ⟨300 * 10 ^ 9, 5 * 10 ^ 9, none⟩

/-- A worker on its thread: the sockets it owns, the sender its handler owns, and its
event loop. -/
structure RunningWorker where
  udp : Option Socket
  listener : Option Socket
  sender : Option Socket
  loop : Loop BindingHandler

/-- The sockets of one worker take three handles from `handle` on. -/
def startWorker (a : StartAnswers) (handle : Nat) (listening : SocketAddr) (listeners : List SocketAddr) :
    Except StartError (Option RunningWorker) :=
  if !a.poll then .error .poll
  else if !a.waker then .error .waker
  else
    let udp := attach a.udp (bindUdp a.udp handle listening)
    let udpAddr := udp.bind (localAddr a.udp.named)
    let sender := udpAddr.bind (replySocket a.sender (handle + 1))
    let listener := attach a.tcp (bindTcp a.tcp (handle + 2) listening)
    let tcpAddr := listener.bind (localAddr a.tcp.named)
    let handler := startHandler (listenIdentities listeners) (sender.map fun s => ⟨localAddr a.sender.named s⟩)
      (tcpAddr.map identityOfSocket)
    -- Both paths failed: what was bound closes with the worker.
    if udpAddr.isNone && tcpAddr.isNone then .ok none
    else if !a.spawned then .error .spawn
    else .ok (some ⟨udp, listener, sender, startLoop defaultConfig handler udp.isSome listener.isSome⟩)

/-- The loop of `main` from worker `index` on. -/
def startWorkers (listeners : List SocketAddr) (listening : Nat → SocketAddr) (answers : Nat → StartAnswers)
    (index : Nat) : Nat → Except ServeError (List RunningWorker)
  | 0 => .ok []
  | count + 1 =>
    match startWorker (answers index) (3 * index) (listening index) listeners with
    | .error e => .error (.failedToStart index e)
    | .ok worker =>
      match startWorkers listeners listening answers (index + 1) count with
      | .error e => .error e
      | .ok running => .ok (worker.toList ++ running)

/-- `main` up to the point where every worker is started. -/
def serve (listeners : List SocketAddr) (workers : Nat) (answers : Nat → StartAnswers) :
    Except ServeError (List RunningWorker) :=
  match listeners with
  | [] => .error .nothingToServe
  | first :: _ =>
    if workers = 0 then .error .nothingToServe
    else match startWorkers listeners (fun index => listeners.getD (index % listeners.length) first) answers 0 workers with
      | .error e => .error e
      | .ok [] => .error .nothingBound
      | .ok running => .ok running

/-! ### Groups -/

/-- The datagram sockets a worker leaves bound. -/
def RunningWorker.datagramSockets (w : RunningWorker) : List Socket := w.udp.toList ++ w.sender.toList

/-- The worker's event loop polls this socket and drains it into `on_stun`. -/
def RunningWorker.Polls (w : RunningWorker) (s : Socket) : Prop := w.loop.worker.udp = true ∧ w.udp = some s

/-- The sockets bound to one address and port. -/
def group (running : List RunningWorker) (addr : SocketAddr) : List Socket :=
  (running.flatMap RunningWorker.datagramSockets).filter fun s => s.addr = addr

/-- The kernel's choice: each four-tuple goes to a fixed member of the group of its
destination. -/
structure Dispatcher (running : List RunningWorker) where
  pick : SocketAddr → SocketAddr → Option Socket
  member : ∀ src dst s, pick src dst = some s → s ∈ group running dst
  total : ∀ src dst, group running dst ≠ [] → pick src dst ≠ none

/-- Some event loop polls the socket. -/
def Polled (running : List RunningWorker) (s : Socket) : Prop := ∃ w ∈ running, w.Polls s

/-- The worker gets a sender for its replies. -/
def StartAnswers.sends (a : StartAnswers) : Bool :=
  a.udp.opens && a.udp.nonblocking && a.udp.registered && a.udp.named && a.sender.opens

/-- Every datagram the kernel hands to a socket is read, whichever member of a group it
picks: no socket of a group only sends. -/
def Drained (running : List RunningWorker) : Prop :=
  (∀ (d : Dispatcher running) (src dst : SocketAddr) (s : Socket), d.pick src dst = some s → Polled running s) ∧
  ∀ addr, ∀ s ∈ group running addr, Polled running s

/-! ### What start-up leaves bound -/

/-- A worker that runs, by the answers it was started with. -/
structure Started (a : StartAnswers) (handle : Nat) (w : RunningWorker) : Prop where
  udp : ∀ s, w.udp = some s → s.handle = handle
  sender : ∀ s, w.sender = some s → s.handle = handle + 1
  polled : w.loop.worker.udp = w.udp.isSome
  sends : w.sender.isSome = a.sends

theorem bindUdp_handle {a : PolledAnswers} {handle : Nat} {addr : SocketAddr} {s : Socket}
    (h : bindUdp a handle addr = some s) : s.handle = handle := by
  obtain ⟨-, hs⟩ := Option.ite_none_right_eq_some.mp h
  cases hs
  rfl

theorem replySocket_handle {a : SenderAnswers} {handle : Nat} {addr : SocketAddr} {s : Socket}
    (h : replySocket a handle addr = some s) : s.handle = handle := by
  obtain ⟨-, hs⟩ := Option.ite_none_right_eq_some.mp h
  cases hs
  rfl

theorem attach_eq_some {a : PolledAnswers} {socket : Option Socket} {s : Socket} (h : attach a socket = some s) :
    socket = some s := (Option.ite_none_right_eq_some.mp h).2

/-- The address a sender can be bound to is there when the socket is bound, registered and
named. -/
theorem udpAddr_isSome (a : PolledAnswers) (handle : Nat) (addr : SocketAddr) :
    ((attach a (bindUdp a handle addr)).bind (localAddr a.named)).isSome =
      (a.opens && a.nonblocking && a.registered && a.named) := by
  rw [attach, bindUdp]
  cases hr : a.registered with
  | false => simp
  | true =>
    cases ho : a.opens && a.nonblocking with
    | false => simp
    | true =>
      cases hn : a.named with
      | false => simp [localAddr]
      | true => simp [localAddr]

theorem sender_isSome (a : StartAnswers) (handle handle' : Nat) (addr : SocketAddr) :
    (((attach a.udp (bindUdp a.udp handle addr)).bind (localAddr a.udp.named)).bind
      (replySocket a.sender handle')).isSome = a.sends := by
  have hudp := udpAddr_isSome a.udp handle addr
  cases hu : (attach a.udp (bindUdp a.udp handle addr)).bind (localAddr a.udp.named) with
  | none =>
    rw [hu] at hudp
    rw [StartAnswers.sends, ← hudp]
    rfl
  | some udp =>
    rw [hu] at hudp
    rw [StartAnswers.sends, ← hudp, Option.bind_some, replySocket]
    cases a.sender.opens with
    | false => rfl
    | true => rfl

/-- A worker is not skipped once it has a sender. -/
theorem startWorker_ok {a : StartAnswers} {handle : Nat} {listening : SocketAddr} {listeners : List SocketAddr}
    {o : Option RunningWorker} (h : startWorker a handle listening listeners = .ok o) :
    (∃ w, o = some w ∧ Started a handle w) ∨ o = none ∧ a.sends = false := by
  have hsender := sender_isSome a handle (handle + 1) listening
  simp only [startWorker] at h
  split at h
  case isTrue => cases h
  case isFalse =>
    split at h
    case isTrue => cases h
    case isFalse =>
      split at h
      case isTrue hnone =>
        cases h
        refine .inr ⟨rfl, ?_⟩
        rw [Bool.and_eq_true, Option.isNone_iff_eq_none] at hnone
        rw [← hsender, hnone.1]
        rfl
      case isFalse =>
        split at h
        case isTrue => cases h
        case isFalse =>
          cases h
          refine .inl ⟨_, rfl, ?_⟩
          constructor
          case udp => exact fun s hs => bindUdp_handle (attach_eq_some hs)
          case sender =>
            intro s hs
            obtain ⟨udp, -, hreply⟩ := Option.bind_eq_some_iff.mp hs
            exact replySocket_handle hreply
          case polled => rfl
          case sends => exact hsender

/-- The workers that run are started ones, each by the answers of its own index, and every
worker with a sender is among them. -/
theorem startWorkers_ok {listeners : List SocketAddr} {listening : Nat → SocketAddr} {answers : Nat → StartAnswers}
    {index count : Nat} {running : List RunningWorker}
    (h : startWorkers listeners listening answers index count = .ok running) :
    (∀ w ∈ running, ∃ i, index ≤ i ∧ i < index + count ∧ Started (answers i) (3 * i) w) ∧
    ∀ i, index ≤ i → i < index + count → (answers i).sends = true → ∃ w ∈ running, Started (answers i) (3 * i) w := by
  induction count generalizing index running with
  | zero =>
    cases h
    constructor
    · intro w hw
      cases hw
    · intro i hle hlt
      omega
  | succ count ih =>
    rw [startWorkers] at h
    split at h
    case h_1 => cases h
    case h_2 worker hworker =>
      split at h
      case h_1 => cases h
      case h_2 rest hrest =>
        cases h
        obtain ⟨hall, hsends⟩ := ih hrest
        constructor
        · intro w hw
          rcases List.mem_append.mp hw with hw | hw
          · rw [Option.mem_toList] at hw
            rcases startWorker_ok hworker with ⟨w', hw', hstarted⟩ | ⟨hnone, -⟩
            · cases hw'.symm.trans hw
              exact ⟨index, Nat.le_refl _, by omega, hstarted⟩
            · cases hnone.symm.trans hw
          · obtain ⟨i, hle, hlt, hstarted⟩ := hall w hw
            exact ⟨i, by omega, by omega, hstarted⟩
        · intro i hle hlt hi
          rcases Nat.eq_or_lt_of_le hle with rfl | hlt'
          · rcases startWorker_ok hworker with ⟨w, rfl, hstarted⟩ | ⟨-, hnot⟩
            · exact ⟨w, List.mem_append_left _ (List.mem_cons_self ..), hstarted⟩
            · cases hnot.symm.trans hi
          · obtain ⟨w, hw, hstarted⟩ := hsends i hlt' (by omega) hi
            exact ⟨w, List.mem_append_right _ hw, hstarted⟩

theorem serve_ok {listeners : List SocketAddr} {workers : Nat} {answers : Nat → StartAnswers} {running : List RunningWorker}
    (h : serve listeners workers answers = .ok running) :
    ∃ listening, startWorkers listeners listening answers 0 workers = .ok running := by
  cases listeners with
  | nil => cases h
  | cons first rest =>
    simp only [serve] at h
    split at h
    case isTrue => cases h
    case isFalse =>
      split at h
      case h_1 => cases h
      case h_2 => cases h
      case h_3 running' hrunning =>
        cases h
        exact ⟨_, hrunning⟩

/-! ### Groups that only read -/

theorem mem_group {running : List RunningWorker} {addr : SocketAddr} {s : Socket} :
    s ∈ group running addr ↔ (∃ w ∈ running, w.udp = some s ∨ w.sender = some s) ∧ s.addr = addr := by
  simp only [group, RunningWorker.datagramSockets, List.mem_filter, List.mem_flatMap, List.mem_append, Option.mem_toList,
    decide_eq_true_eq]

/-- **Groups**: every datagram that reaches a socket of the process is read, whatever the
kernel picks, exactly when no worker gets a sender for its replies. -/
theorem group_drained {listeners : List SocketAddr} {workers : Nat} {answers : Nat → StartAnswers}
    {running : List RunningWorker} (h : serve listeners workers answers = .ok running) :
    Drained running ↔ ∀ index < workers, (answers index).sends = false := by
  obtain ⟨listening, hstart⟩ := serve_ok h
  obtain ⟨hall, hsends⟩ := startWorkers_ok hstart
  constructor
  · intro hdrained index hlt
    rw [Bool.eq_false_iff]
    intro hindex
    obtain ⟨w, hw, hstarted⟩ := hsends index (Nat.zero_le _) (by omega) hindex
    obtain ⟨s, hs⟩ := Option.isSome_iff_exists.mp (hstarted.sends.trans hindex)
    obtain ⟨w', hw', -, hudp⟩ := hdrained.2 s.addr s (mem_group.mpr ⟨⟨w, hw, .inr hs⟩, rfl⟩)
    obtain ⟨j, -, -, hstarted'⟩ := hall w' hw'
    -- The sender's handle is no polled socket's.
    have h1 := hstarted.sender s hs
    have h2 := hstarted'.udp s hudp
    omega
  · intro hnone
    have hpolled : ∀ addr, ∀ s ∈ group running addr, Polled running s := by
      intro addr s hs
      obtain ⟨⟨w, hw, hudp | hsender⟩, -⟩ := mem_group.mp hs
      · obtain ⟨i, -, -, hstarted⟩ := hall w hw
        refine ⟨w, hw, ?_, hudp⟩
        rw [hstarted.polled, hudp]
        rfl
      · obtain ⟨i, -, hlt, hstarted⟩ := hall w hw
        have hsome := hstarted.sends
        rw [hsender, hnone i (by omega)] at hsome
        cases hsome
    exact ⟨fun d src dst s hpick => hpolled dst s (d.member src dst s hpick), hpolled⟩

/-! ### A single worker -/

/-- Every call succeeds. -/
def willing : StartAnswers :=
  { poll := true, waker := true, spawned := true
    udp := ⟨⟨true, true, true, true, 0⟩, true, true, true, true⟩
    sender := ⟨⟨true, true, true, true, 0⟩, true⟩
    tcp := ⟨⟨true, true, true, true, 0⟩, true, true, true, true⟩ }

/-- 0.0.0.0:3478. -/
def anyAddress : SocketAddr := ⟨.v4 ⟨[0, 0, 0, 0], rfl⟩, 3478⟩

/-- The worker that `willing` starts on `anyAddress`. -/
def soleWorker : RunningWorker :=
  { udp := some ⟨0, anyAddress⟩
    listener := some ⟨2, anyAddress⟩
    sender := some ⟨1, anyAddress⟩
    loop := startLoop defaultConfig
      (startHandler [] (some ⟨some anyAddress⟩) (some (identityOfSocket anyAddress))) true true }

theorem serve_sole : serve [anyAddress] 1 (fun _ => willing) = .ok [soleWorker] := rfl

/-- The reply socket cannot be bound. -/
def senderless : StartAnswers := { willing with sender := ⟨⟨true, true, true, false, 0⟩, true⟩ }

/-- The worker that `senderless` starts on `anyAddress`. -/
def quietWorker : RunningWorker :=
  { soleWorker with
    sender := none
    loop := startLoop defaultConfig (startHandler [] none (some (identityOfSocket anyAddress))) true true }

theorem serve_quiet : serve [anyAddress] 1 (fun _ => senderless) = .ok [quietWorker] := rfl

theorem quiet_drained : Drained [quietWorker] := (group_drained serve_quiet).mpr fun _ _ => rfl

theorem sole_group {addr : SocketAddr} {s : Socket} (h : s ∈ group [soleWorker] addr) : addr = anyAddress := by
  obtain ⟨⟨w, hw, hs⟩, rfl⟩ := mem_group.mp h
  obtain rfl := List.mem_singleton.mp hw
  rcases hs with hs | hs
  · cases hs
    rfl
  · cases hs
    rfl

theorem sender_member {dst : SocketAddr} {s : Socket}
    (h : (if dst = anyAddress then some (⟨1, anyAddress⟩ : Socket) else none) = some s) : s ∈ group [soleWorker] dst := by
  obtain ⟨rfl, hs⟩ := Option.ite_none_right_eq_some.mp h
  cases hs
  exact mem_group.mpr ⟨⟨soleWorker, List.mem_cons_self .., .inr rfl⟩, rfl⟩

theorem sender_total {dst : SocketAddr} (h : group [soleWorker] dst ≠ []) :
    (if dst = anyAddress then some (⟨1, anyAddress⟩ : Socket) else none) ≠ none := by
  obtain ⟨s, hs⟩ := List.exists_mem_of_ne_nil _ h
  rw [sole_group hs]
  exact Option.some_ne_none _

/-- Every four-tuple goes to the socket that only sends. -/
def toSender : Dispatcher [soleWorker] where
  pick _ dst := if dst = anyAddress then some ⟨1, anyAddress⟩ else none
  member _ _ _ := sender_member
  total _ _ := sender_total

/-- With one worker on one address, the kernel may hand every datagram to a socket no loop
polls. -/
theorem sender_picked : ¬ ∀ (listeners : List SocketAddr) (workers : Nat) (answers : Nat → StartAnswers)
    (running : List RunningWorker), serve listeners workers answers = .ok running → Drained running := by
  intro hall
  have hdrained := hall _ _ _ _ serve_sole
  have hpick : toSender.pick anyAddress anyAddress = some ⟨1, anyAddress⟩ := by decide
  obtain ⟨w, hw, -, hudp⟩ := hdrained.1 toSender anyAddress anyAddress _ hpick
  obtain rfl := List.mem_singleton.mp hw
  cases hudp

end QuickRelay.Server
