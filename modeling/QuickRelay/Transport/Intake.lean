import QuickRelay.Transport.Edges

/-! From the socket to the handler: the octets that reached a connection's socket are the
frames handed over, the partial frame in the window, and what is unread. -/
namespace QuickRelay.Transport.EventLoop
open Lib

variable {ε H : Type} {api : Handler ε H}

/-- What a step adds to a socket. -/
def arrivedNow (handle : Nat) (s : System H) : Signal ε → Bytes
  | .arrival (.octets h octets) => if h = handle ∧ s.kernel.open? handle then octets else []
  | _ => []

/-- The octets that reached a socket. -/
def arrivedOn (handle : Nat) (hist : List (System H × Signal ε)) : Bytes := hist.flatMap fun x => arrivedNow handle x.1 x.2

def handedNow (id : ConnectionId) : Act → List Bytes
  | .tcpStun payload i => if i = id then [payload] else []
  | _ => []

/-- The payloads handed over for a connection. -/
def handedTo (id : ConnectionId) (hist : List (System H × Signal ε)) : List Bytes := hist.flatMap fun x =>
  match x.2 with
  | .arrival _ => []
  | .loop label => handedNow id label.2

/-- The payloads decoded and not handed over yet. -/
def Phase.pending (id : ConnectionId) : Phase → List Bytes
  | .decode i frames _ _ => if i = id then frames else []
  | _ => []

/-- A read with room for its octets, which completes a batch at most and, if it completes
a frame, ends with one. -/
structure Conn.Takes (c : Conn) (chunk : Bytes) : Prop where
  room : c.readLen + chunk.length ≤ c.readBuf.length
  whole : ∀ ps tail, frames.Partial tail → c.window ++ chunk = frames.encodeAll ps ++ tail →
    ps.length ≤ decodeBatch ∧ (ps ≠ [] → tail = [])

/-- Reads are taken, and a connection whose peer has closed its side is dropped only if
what is unread completes no frame. -/
def System.Intact (s : System H) : Signal ε → Prop
  | .loop (_, .read id chunk) => ∀ c, s.loop.worker.conns.get id = some c → c.Takes chunk
  | .loop (_, .drop id) => ∀ c, s.loop.worker.conns.get id = some c → (s.kernel.streams c.stream).fin →
    frames.Partial (c.window ++ (s.kernel.streams c.stream).rx)
  | _ => True

/-- Reads of this connection are taken. -/
def System.TakesFor (id : ConnectionId) (s : System H) : Signal ε → Prop
  | .loop (_, .read i chunk) => i = id → ∀ c, s.loop.worker.conns.get i = some c → c.Takes chunk
  | _ => True

theorem System.Intact.takesFor {s : System H} {signal : Signal ε} (h : s.Intact signal) (id : ConnectionId) : s.TakesFor id signal := by
  rcases signal with a | ⟨answer, act⟩
  · trivial
  · cases act with
    | read i chunk => exact fun _ => h
    | _ => trivial

/-! ### One connection -/

/-- The arrived octets, accounted for. -/
structure Conn.Accounts (c : Conn) (arrived : Bytes) (payloads : List Bytes) (rx : Bytes) : Prop where
  unfinished : frames.Partial c.window
  split : ∃ ps, arrived = frames.encodeAll ps ++ (c.window ++ rx) ∧ payloads = ps.map Payload.octets

namespace Conn.Accounts
variable {c c' : Conn} {arrived rx : Bytes} {payloads : List Bytes}

theorem arrive (h : c.Accounts arrived payloads rx) (octets : Bytes) : c.Accounts (arrived ++ octets) payloads (rx ++ octets) := by
  obtain ⟨ps, harr, hps⟩ := h.split
  exact ⟨h.unfinished, ps, by rw [harr, List.append_assoc, List.append_assoc], hps⟩

theorem window_eq (h : c.Accounts arrived payloads rx) (hw : c'.window = c.window) : c'.Accounts arrived payloads rx :=
  ⟨hw ▸ h.unfinished, hw ▸ h.split⟩

/-- A read that is taken moves its octets to the frames and the window. -/
theorem read {chunk rest : Bytes} {now : Nat} (h : c.Accounts arrived payloads (chunk ++ rest)) (ht : c.Takes chunk)
    (hc : c'.toConn = (c.receive chunk now).takeFrames.1) :
    c'.Accounts arrived (payloads ++ (c.receive chunk now).takeFrames.2) rest := by
  obtain ⟨ps, harr, hps⟩ := h.split
  obtain ⟨qs, tail, hsplit, htail⟩ := frames.exists_split (c.window ++ chunk)
  obtain ⟨hframes, hwin, -⟩ := c.receive_frames now ht.room htail hsplit
  obtain ⟨hbatch, hclean⟩ := ht.whole qs tail htail hsplit
  have hwindow : c'.window = tail := by
    rw [hc, hwin]
    by_cases hqs : qs = []
    · rw [if_pos hqs]
    · rw [if_neg hqs, hclean hqs]
  have htake : (qs.map Payload.octets).take decodeBatch = qs.map Payload.octets :=
    List.take_of_length_le (by rwa [List.length_map])
  refine ⟨hwindow ▸ htail, ps ++ qs, ?_, ?_⟩
  · rw [harr, hwindow, ← List.append_assoc c.window, hsplit, PrefixCode.encodeAll_append]
    simp only [List.append_assoc]
  · rw [hps, hframes, htake, List.map_append]

/-- If nothing unread completes a frame, every frame that arrived is among the payloads. -/
theorem complete (h : c.Accounts arrived payloads rx) (hrest : frames.Partial (c.window ++ rx)) {qs : List Payload} {tail : Bytes}
    (ht : frames.Partial tail) (hq : arrived = frames.encodeAll qs ++ tail) : payloads = qs.map Payload.octets := by
  obtain ⟨ps, harr, hps⟩ := h.split
  obtain ⟨rfl, -⟩ := frames.split_unique hrest ht (harr.symm.trans hq)
  exact hps

end Conn.Accounts

/-! ### One step -/

section
variable {w w' : Worker H} {k k₁ : Kernel} {p p' : Phase} {answer : Answer ε} {act : Act} {id : ConnectionId} {c c' : Conn}

/-- A live connection's read side: only a read changes it. -/
theorem Does.read_side (h : Does api w p (answer, act) w') (hlive : w.conns.get id = some c) (hlive' : w'.conns.get id = some c') :
    (c'.toConn = c.toConn ∧ ∀ chunk, act ≠ .read id chunk) ∨ ∃ chunk now, answer = .read (.octets chunk) now ∧
      act = .read id (chunk.take readWindow) ∧ c'.toConn = (c.receive (chunk.take readWindow) now).takeFrames.1 := by
  have hinsert : ∀ {id₀ : ConnectionId} {c₀ c₁ : Conn}, w.conns.get id₀ = some c₀ → c₁.toConn = c₀.toConn →
      (w.conns.insert id₀ c₁).get id = some c' → c'.toConn = c.toConn := by
    intro id₀ c₀ c₁ hget heq hget'
    by_cases hid : id = id₀
    · subst hid
      rw [ConnMgr.get_insert_self (ConnMgr.lt_of_get hget)] at hget'
      cases hget'
      cases hget.symm.trans hlive
      exact heq
    · rw [ConnMgr.get_insert_ne hid] at hget'
      cases hget'.symm.trans hlive
      rfl
  have hsame : w'.conns.get id = w.conns.get id → c'.toConn = c.toConn := by
    intro heq
    cases (hlive'.symm.trans heq).trans hlive
    rfl
  cases h with
  | @unregistered _ _ _ id₀ conns halloc =>
    refine .inl ⟨hsame ?_, nofun⟩
    obtain ⟨hid, -, -, hget⟩ := ConnMgr.alloc_eq_some halloc
    have hne : id ≠ id₀ := by
      rintro rfl
      have hlt := ConnMgr.lt_of_get hlive
      rw [hid] at hlt
      exact Nat.lt_irrefl _ hlt
    exact (ConnMgr.get_remove_ne hne).trans (hget id)
  | @connect _ _ _ _ id₀ conns _ halloc =>
    refine .inl ⟨hsame ?_, nofun⟩
    obtain ⟨hid, -, -, hget⟩ := ConnMgr.alloc_eq_some halloc
    have hne : id ≠ id₀ := by
      rintro rfl
      have hlt := ConnMgr.lt_of_get hlive
      rw [hid] at hlt
      exact Nat.lt_irrefl _ hlt
    exact (ConnMgr.get_insert_ne hne _).trans (hget id)
  | @read _ id₀ c₀ c₁ chunk now hget hc =>
    by_cases hid : id = id₀
    · subst hid
      rw [ConnMgr.get_insert_self (ConnMgr.lt_of_get hget)] at hlive'
      cases hlive'
      cases hget.symm.trans hlive
      exact .inr ⟨chunk, now, rfl, rfl, by rw [hc]⟩
    · refine .inl ⟨hsame (ConnMgr.get_insert_ne hid _), ?_⟩
      rintro chunk' heq
      cases heq
      exact hid rfl
  | write hget hc _ => exact .inl ⟨hinsert hget hc hlive', nofun⟩
  | place _ hget _ => exact .inl ⟨hinsert hget (Conn.takeWrite_rest _ _).2 hlive', nofun⟩
  | @drop _ _ id₀ _ _ _ =>
    have hne : id ≠ id₀ := by
      rintro rfl
      rw [ConnMgr.get_remove_self] at hlive'
      cases hlive'
    exact .inl ⟨hsame (ConnMgr.get_remove_ne hne), nofun⟩
  | _ => exact .inl ⟨hsame rfl, nofun⟩

theorem pending_nil (h : ¬ p.decoding) (id : ConnectionId) : p.pending id = [] := by
  cases p with
  | decode => exact absurd rfl h
  | _ => rfl

theorem handedNow_nil (h : ¬ act.reads) (id : ConnectionId) : handedNow id act = [] := by
  cases act with
  | tcpStun => exact absurd rfl h
  | _ => rfl

/-- What is pending for a live connection is handed over, or just read. -/
theorem Moves.pending (h : Moves w p (answer, act) p') (hlive : w.conns.get id = some c) :
    (p.pending id = handedNow id act ++ p'.pending id ∧ ∀ chunk, act ≠ .read id chunk) ∨ ∃ chunk now,
      answer = .read (.octets chunk) now ∧ act = .read id (chunk.take readWindow) ∧ p.pending id = [] ∧
      p'.pending id = (c.receive (chunk.take readWindow) now).takeFrames.2 ∧ (Loop.mk w p).current = some c.stream := by
  have hquiet : ¬ act.reads → ∀ chunk, act ≠ .read id chunk := by
    rintro hact chunk rfl
    exact hact rfl
  cases h with
  | stop hp hact _ => exact .inl ⟨by rw [pending_nil hp, handedNow_nil hact]; rfl, hquiet hact⟩
  | rest hp hp' hact _ =>
    rw [pending_nil (Phase.resting_not_decoding hp), pending_nil (Phase.resting_not_decoding hp'), handedNow_nil hact]
    exact .inl ⟨rfl, hquiet hact⟩
  | cut _ _ hcut => exact .inl ⟨by rw [handedNow_nil hcut.not_reads]; rfl, hquiet hcut.not_reads⟩
  | datagram hact => exact .inl ⟨by rw [handedNow_nil hact]; rfl, hquiet hact⟩
  | @read r ready c₀ chunk now hget =>
    by_cases hid : r.id = id
    · subst hid
      cases hget.symm.trans hlive
      refine .inr ⟨chunk, now, rfl, rfl, rfl, if_pos rfl, ?_⟩
      rw [Loop.current_serve, hlive]
      rfl
    · refine .inl ⟨(if_neg hid).symm, ?_⟩
      rintro chunk' heq
      cases heq
      exact hid rfl
  | @handed id' payload frames _ _ _ =>
    refine .inl ⟨?_, nofun⟩
    rw [Phase.pending, Phase.pending, handedNow]
    by_cases hid : id' = id
    · rw [if_pos hid, if_pos hid, if_pos hid]
      rfl
    · rw [if_neg hid, if_neg hid, if_neg hid]
      rfl
  | @allHanded id' frames _ _ hdone =>
    refine .inl ⟨?_, nofun⟩
    rw [Phase.pending]
    split
    case isTrue hid =>
      rcases hdone with rfl | hnone
      · rfl
      · rw [hid, hlive] at hnone
        cases hnone
    case isFalse => rfl
  | _ => exact .inl ⟨rfl, nofun⟩

theorem Moves.connect_pending {stream : Nat} (h : Moves w p (answer, .connect id stream) p') : p'.pending id = [] := by
  cases h with
  | stop _ hact _ => exact absurd rfl hact
  | rest _ _ hact _ => exact absurd rfl hact
  | cut _ _ hcut => exact absurd rfl hcut.not_reads
  | datagram hact => exact absurd rfl hact
  | connected => rfl

theorem Moves.drop_pending {id' : ConnectionId} (h : Moves w p (answer, .drop id') p') : p.pending id = [] := by
  cases h with
  | stop hp _ _ => exact pending_nil hp id
  | rest hp _ _ _ => exact pending_nil (Phase.resting_not_decoding hp) id
  | _ => rfl

/-- Octets leave a socket in a read of its connection only. -/
theorem Moves.rx (h : Moves w p (answer, act) p') (hk : k.answer ⟨w, p⟩ answer = some k₁) (handle : Nat) :
    (k₁.streams handle).rx = (k.streams handle).rx ∨ ∃ id c chunk now, answer = .read (.octets chunk) now ∧
      act = .read id (chunk.take readWindow) ∧ w.conns.get id = some c ∧ c.stream = handle ∧
      (k.streams handle).rx = chunk.take readWindow ++ (k₁.streams handle).rx := by
  rcases Kernel.answer_cases hk with ⟨_, _, -, hrep⟩ | ⟨h', chunk, now, rfl, hcur, hfull, hchunk, rfl⟩ | ⟨-, -, heq⟩
  · exact .inl (hrep.queue handle).1
  · by_cases hh : handle = h'
    · subst hh
      rw [Kernel.update_self]
      cases h with
      | stop _ _ hread => exact absurd rfl hread
      | rest _ _ _ hplain => cases hplain
      | refused hplain => cases hplain
      | wrote _ hplain => cases hplain
      | @read r _ c _ _ hget =>
        rw [Loop.current_serve, hget] at hcur
        refine .inr ⟨r.id, c, chunk, now, rfl, rfl, hget, Option.some.inj hcur, ?_⟩
        rw [hfull]
        exact hchunk
    · rw [Kernel.update_ne hh]
      exact .inl rfl
  · rw [heq]
    exact .inl rfl

theorem Kernel.follow_registered {conns : ConnMgr} {handle : Nat} (h : ((k.follow conns act).streams handle).registered = none) :
    (k.streams handle).registered = none := by
  cases act with
  | connect id stream =>
    by_cases hh : handle = stream
    · rw [follow, hh, update_self] at h
      cases h
    · rwa [follow, update_ne hh] at h
  | write id => exact (onConn_field Stream.registered Stream.reregister (fun _ => rfl) k id _).symm.trans h
  | place reply => exact (onConn_field Stream.registered Stream.reregister (fun _ => rfl) k reply.id _).symm.trans h
  | _ => exact h

/-- A new connection has read nothing, and its id is the next one. -/
theorem Does.new_conn {stream : Nat} (h : Does api w p (answer, .connect id stream) w') (hlive' : w'.conns.get id = some c') :
    id.value = w.conns.nextId ∧ c'.toConn = Transport.Conn.new := by
  cases h with
  | connect _ halloc =>
    obtain ⟨hid, -, hnext, -⟩ := ConnMgr.alloc_eq_some halloc
    refine ⟨hid, ?_⟩
    rw [ConnMgr.get_insert_self (by rw [hid, hnext]; exact Nat.lt_succ_self _)] at hlive'
    cases hlive'
    rfl

end

/-! ### Runs -/

/-- A socket that was never registered was never read, and that of a live connection is
registered under its id. -/
structure Owned (hist : List (System H × Signal ε)) (s : System H) : Prop where
  untouched : ∀ h, (s.kernel.streams h).registered = none → arrivedOn h hist = (s.kernel.streams h).rx
  registered : ∀ id c, s.loop.worker.conns.get id = some c → (s.kernel.streams c.stream).registered = some id

/-- A connection not accepted yet was handed nothing, and a live one accounts for what arrived. -/
structure Accounted (id : ConnectionId) (hist : List (System H × Signal ε)) (s : System H) : Prop where
  fresh : s.loop.worker.conns.nextId.toNat ≤ id.value.toNat → handedTo id hist = []
  accounts : ∀ c, s.loop.worker.conns.get id = some c →
    c.Accounts (arrivedOn c.stream hist) (handedTo id hist ++ s.loop.phase.pending id) (s.kernel.streams c.stream).rx

theorem arrivedOn_snoc (h : Nat) (hist : List (System H × Signal ε)) (s : System H) (signal : Signal ε) :
    arrivedOn h (hist ++ [(s, signal)]) = arrivedOn h hist ++ arrivedNow h s signal := by
  rw [arrivedOn, List.flatMap_append, List.flatMap_singleton]
  rfl

theorem handedTo_snoc_arrival (id : ConnectionId) (hist : List (System H × Signal ε)) (s : System H) (a : Arrival) :
    handedTo id (hist ++ [(s, .arrival a)]) = handedTo id hist := by
  rw [handedTo, List.flatMap_append, List.flatMap_singleton, List.append_nil]
  rfl

theorem handedTo_snoc_loop (id : ConnectionId) (hist : List (System H × Signal ε)) (s : System H) (label : Answer ε × Act) :
    handedTo id (hist ++ [(s, .loop label)]) = handedTo id hist ++ handedNow id label.2 := by
  rw [handedTo, List.flatMap_append, List.flatMap_singleton]
  rfl

/-- What arrives is queued. -/
theorem Kernel.arrive_rx (s : System H) (a : Arrival) (h : Nat) :
    ((s.kernel.arrive a).streams h).rx = (s.kernel.streams h).rx ++ arrivedNow h s (.arrival a : Signal ε) := by
  cases a with
  | datagram octets src => exact (List.append_nil _).symm
  | connection => exact (List.append_nil _).symm
  | octets handle octets =>
    rw [arrive, arrivedNow]
    by_cases hopen : s.kernel.open? handle && !octets.isEmpty
    · rw [if_pos hopen]
      rw [Bool.and_eq_true] at hopen
      by_cases hh : h = handle
      · rw [hh, update_self, if_pos ⟨rfl, hopen.1⟩]
      · rw [update_ne hh, if_neg fun hc => hh hc.1.symm, List.append_nil]
    · rw [if_neg hopen]
      split
      case isTrue hc =>
        rw [hc.1, hc.2, Bool.true_and, Bool.not_eq_true', Bool.not_eq_false, List.isEmpty_iff] at hopen
        rw [hopen, List.append_nil]
      case isFalse => rw [List.append_nil]
  | fin handle =>
    have hnow : arrivedNow h s (.arrival (.fin handle) : Signal ε) = [] := rfl
    rw [arrive, hnow, List.append_nil]
    split
    · exact update_field Stream.rx (fun s => { s with fin := true, edge := true }) (fun _ => rfl) _ _ _
    · rfl

theorem arrivedOn_loop (handle : Nat) (hist : List (System H × Signal ε)) (s : System H) (label : Answer ε × Act) :
    arrivedOn handle (hist ++ [(s, .loop label)]) = arrivedOn handle hist := by
  rw [arrivedOn_snoc]
  exact List.append_nil _

section
variable {hist : List (System H × Signal ε)} {s : System H}

theorem Owned.arrive (h : Owned hist s) (a : Arrival) : Owned (hist ++ [(s, .arrival a)]) ⟨s.loop, s.kernel.arrive a⟩ where
  untouched := by
    intro handle hnone
    rw [(s.kernel.arrive_stream a handle).1] at hnone
    rw [arrivedOn_snoc, h.untouched handle hnone]
    exact (Kernel.arrive_rx s a handle).symm
  registered id c hlive := (s.kernel.arrive_stream a _).1.trans (h.registered id c hlive)

theorem Accounted.arrive {id : ConnectionId} (h : Accounted id hist s) (a : Arrival) :
    Accounted id (hist ++ [(s, .arrival a)]) ⟨s.loop, s.kernel.arrive a⟩ where
  fresh hid := (handedTo_snoc_arrival id hist s a).trans (h.fresh hid)
  accounts := by
    intro c hlive
    rw [arrivedOn_snoc, handedTo_snoc_arrival]
    have harr := (h.accounts c hlive).arrive (arrivedNow c.stream s (.arrival a : Signal ε))
    rwa [← Kernel.arrive_rx] at harr

end

section
variable {hist : List (System H × Signal ε)} {w w' : Worker H} {k k₁ : Kernel} {p p' : Phase} {answer : Answer ε} {act : Act}
  {id : ConnectionId}

theorem Owned.step (h : Owned hist ⟨⟨w, p⟩, k⟩) (hdoes : Does api w p (answer, act) w') (hmoves : Moves w p (answer, act) p')
    (hk : k.answer ⟨w, p⟩ answer = some k₁) :
    Owned (hist ++ [(⟨⟨w, p⟩, k⟩, .loop (answer, act))]) ⟨⟨w', p'⟩, k₁.follow w.conns act⟩ := by
  constructor
  case untouched =>
    intro handle hnone
    have hnone' := (Kernel.answer_keeps hk handle).1.symm.trans (Kernel.follow_registered hnone)
    rw [arrivedOn_loop, h.untouched handle hnone']
    refine Eq.trans ?_ (Kernel.follow_queue k₁ act handle).1.symm
    rcases hmoves.rx hk handle with hrx | ⟨id, c, chunk, now, -, -, hget, rfl, -⟩
    · exact hrx.symm
    · cases hnone'.symm.trans (h.registered id c hget)
  case registered =>
    intro id c' hlive'
    rcases (Does.table api hdoes).survives hlive' with ⟨c, hlive, hs⟩ | rfl
    · rw [← hs]
      exact (hmoves.follow_live hk (h.registered id c hlive)).1
    · rw [Kernel.follow, Kernel.update_self]
      rfl

/-- A connection that lives on accounts for what it read. -/
theorem Conn.Accounts.step {c c' : Conn} {arrived : Bytes} {handed : List Bytes}
    (h : c.Accounts arrived (handed ++ p.pending id) (k.streams c.stream).rx) (hown : Owned hist ⟨⟨w, p⟩, k⟩)
    (hdoes : Does api w p (answer, act) w') (hmoves : Moves w p (answer, act) p') (hk : k.answer ⟨w, p⟩ answer = some k₁)
    (hlive : w.conns.get id = some c) (hlive' : w'.conns.get id = some c') (htakes : ∀ chunk, act = .read id chunk → c.Takes chunk) :
    c'.Accounts arrived (handed ++ handedNow id act ++ p'.pending id) (k₁.streams c.stream).rx := by
  rcases hmoves.pending hlive with ⟨hpend, hnot⟩ | ⟨chunk, now, rfl, rfl, hp, hp', hcur⟩
  · have hrx : (k₁.streams c.stream).rx = (k.streams c.stream).rx := by
      rcases hmoves.rx hk c.stream with hrx | ⟨id₀, c₀, chunk, now, -, rfl, hget, hs₀, -⟩
      · exact hrx
      · -- another connection does not read this socket
        have hreg := hown.registered id₀ c₀ hget
        rw [hs₀] at hreg
        cases Option.some.inj ((hown.registered id c hlive).symm.trans hreg)
        exact absurd rfl (hnot _)
    rcases hdoes.read_side hlive hlive' with ⟨hconn, -⟩ | ⟨chunk, now, -, hact, -⟩
    · rw [hrx, List.append_assoc, ← hpend]
      refine h.window_eq ?_
      rw [hconn]
    · exact absurd hact (hnot _)
  · rcases hdoes.read_side hlive hlive' with ⟨-, hnot⟩ | ⟨chunk', now', heq, -, hconn⟩
    · exact absurd rfl (hnot _)
    · cases heq
      obtain ⟨handle, hcur', hfull, hchunk, rfl⟩ := Kernel.answer_octets hk
      cases hcur.symm.trans hcur'
      rw [hfull] at hconn hp' htakes ⊢
      rw [hp, List.append_nil, hchunk] at h
      rw [Kernel.update_self, hp']
      have hnil : handedNow id (.read id chunk) = [] := rfl
      have hread := h.read (htakes _ rfl) hconn
      rwa [hnil, List.append_nil]

/-- Nothing is handed over for a connection that is not live. -/
theorem Does.handed_live (h : Does api w p (answer, act) w') (hne : handedNow id act ≠ []) : ∃ c, w'.conns.get id = some c := by
  cases h with
  | @tcpStun _ _ _ i c _ _ hget _ =>
    rw [handedNow] at hne
    by_cases hid : i = id
    · subst hid
      exact ⟨c, hget⟩
    · rw [if_neg hid] at hne
      exact absurd rfl hne
  | _ => exact absurd rfl hne

theorem Accounted.step (h : Accounted id hist ⟨⟨w, p⟩, k⟩) (hown : Owned hist ⟨⟨w, p⟩, k⟩) (hdoes : Does api w p (answer, act) w')
    (hmoves : Moves w p (answer, act) p') (hk : k.answer ⟨w, p⟩ answer = some k₁)
    (htakes : System.TakesFor id ⟨⟨w, p⟩, k⟩ (.loop (answer, act))) :
    Accounted id (hist ++ [(⟨⟨w, p⟩, k⟩, .loop (answer, act))]) ⟨⟨w', p'⟩, k₁.follow w.conns act⟩ := by
  have htable := Does.table api hdoes
  constructor
  case fresh =>
    intro hid
    rw [handedTo_snoc_loop, h.fresh (Nat.le_trans htable.next_le hid), List.nil_append]
    by_contra hne
    obtain ⟨c, hget⟩ := hdoes.handed_live hne
    exact absurd (ConnMgr.lt_of_get hget) (Nat.not_lt.mpr hid)
  case accounts =>
    intro c' hlive'
    rw [arrivedOn_loop, handedTo_snoc_loop, (Kernel.follow_queue k₁ act _).1]
    rcases htable.survives hlive' with ⟨c, hlive, hs⟩ | rfl
    · rw [← hs]
      refine (h.accounts c hlive).step hown hdoes hmoves hk hlive hlive' ?_
      rintro chunk rfl
      exact htakes rfl c hlive
    · obtain ⟨hid, hnew⟩ := hdoes.new_conn hlive'
      have hrx : (k₁.streams c'.stream).rx = (k.streams c'.stream).rx := by
        rcases hmoves.rx hk c'.stream with hrx | ⟨_, _, _, _, -, hact, -⟩
        · exact hrx
        · cases hact
      have hnil : handedNow id (.connect id c'.stream) = [] := rfl
      have hwindow : c'.window = [] := by rw [hnew, Transport.Conn.new_window]
      rw [hown.untouched _ (hmoves.fresh hk), h.fresh (Nat.le_of_eq (congrArg UInt64.toNat hid.symm)), hnil, hrx,
        hmoves.connect_pending]
      exact ⟨hwindow ▸ frames.partial_nil, [], by rw [hwindow]; rfl, rfl⟩

end

/-- In a run that takes a connection's reads, it accounts for what arrived while it lives. -/
theorem run_accounted {s₀ s : System H} {hist : List (System H × Signal ε)} {id : ConnectionId}
    (hrun : Run (System.Step api) s₀ hist s) (hown : Owned ([] : List (System H × Signal ε)) s₀)
    (hstart : Accounted id ([] : List (System H × Signal ε)) s₀) (htakes : ∀ x ∈ hist, x.1.TakesFor id x.2) :
    Accounted id hist s := by
  refine (hrun.invariant (P := fun hist s => (∀ x ∈ hist, x.1.TakesFor id x.2) → Owned hist s ∧ Accounted id hist s)
    (fun _ => ⟨hown, hstart⟩) ?_ htakes).2
  intro hist t signal u _ ih hstep hall
  obtain ⟨hown, hs⟩ := ih fun x hx => hall x (List.mem_append_left _ hx)
  cases hstep with
  | arrival a => exact ⟨hown.arrive a, hs.arrive a⟩
  | loop hl hk =>
    have hdoes := step_does api hl
    have hmoves := step_moves api hl
    exact ⟨hown.step hdoes hmoves hk, hs.step hown hdoes hmoves hk (hall _ (List.mem_append_right _ (List.mem_singleton_self _)))⟩

end QuickRelay.Transport.EventLoop
