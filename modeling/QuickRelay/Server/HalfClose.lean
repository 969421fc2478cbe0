import QuickRelay.Server.Stranded
import QuickRelay.Transport.Intake

/-! Connections whose peer has closed its side: the frames that came before, and when they
are dropped with the connection. -/
namespace QuickRelay.Server
open Lib Protocol
open Transport (ConnectionId Payload frames)
open Transport.EventLoop hiding Step History

/-- Every frame that reached a socket before its peer closed it is handed over before the
connection is dropped. -/
def Complete {ε H : Type} (hist : List (System H × Signal ε)) : Prop :=
  ∀ before t answer id after c, hist = before ++ (t, .loop (answer, .drop id)) :: after →
    t.loop.worker.conns.get id = some c → (t.kernel.streams c.stream).fin →
    ∀ ps tail, frames.Partial tail → arrivedOn c.stream before = frames.encodeAll ps ++ tail →
      handedTo id before = ps.map Payload.octets

theorem start_owned {ε H : Type} (config : WorkerConfig) (handler : H) (udp listener : Bool) :
    Owned ([] : List (System H × Signal ε)) (startSystem config handler udp listener) where
  untouched _ _ := rfl
  registered _ _ h := by cases h

theorem start_accounted {ε H : Type} (config : WorkerConfig) (handler : H) (udp listener : Bool) (id : ConnectionId) :
    Accounted id ([] : List (System H × Signal ε)) (startSystem config handler udp listener) where
  fresh _ := rfl
  accounts _ h := by cases h

/-- So it is if reads are taken and no drop finds a frame unread. -/
theorem half_close {ε H : Type} (api : Handler ε H) {config : WorkerConfig} {handler : H} {udp listener : Bool}
    {hist : List (System H × Signal ε)} {s : System H}
    (hrun : Run (System.Step api) (startSystem config handler udp listener) hist s)
    (hintact : ∀ x ∈ hist, x.1.Intact x.2) : Complete hist := by
  rintro before t answer id after c rfl hlive hfin ps tail htail harr
  obtain ⟨u, hbefore, hdrop, -⟩ := hrun.split
  have haccounted := run_accounted hbefore (start_owned config handler udp listener) (start_accounted config handler udp listener id)
    fun x hx => (hintact x (List.mem_append_left _ hx)).takesFor id
  have hunread := hintact _ (List.mem_append_right _ List.mem_cons_self) c hlive hfin
  have hacc := haccounted.accounts c hlive
  cases hdrop with
  | loop hl _ =>
    rw [(step_moves api hl).drop_pending, List.append_nil] at hacc
    exact hacc.complete hunread htail harr

/-- The listener is reported; the connection is, with or without its peer's close. -/
def listenReadable : PollEvent := ⟨eventTcpListen, true, false, false, false, false⟩

def connReadable (closed : Bool) : PollEvent := ⟨connToken ⟨0⟩, true, false, false, closed, false⟩

def closingStart : System BindingHandler := startSystem ⟨300, 5, none⟩ (startHandler [] none (some sampleIdentity)) true true

/-- A connection comes in and is served to the end of the tick. -/
def acceptInputs : List (Input Env) :=
  [.arrival .connection, .answer (.clock false 0), .answer .silent, .answer (.poll (some [listenReadable]) false), .answer .silent,
    .answer (.accept (.stream 0)), .answer (.accept .notReady), .answer (.register true 0), .answer .silent, .answer .silent,
    .answer .silent, .answer .silent]

/-- One frame, and the close behind it, in one event. -/
def closeInputs : List (Input Env) :=
  [.arrival (.octets 0 [0, 0]), .arrival (.fin 0), .answer (.clock false 1), .answer .silent,
    .answer (.poll (some [connReadable true]) false)]

/-- The connection as accepted, and after a read that left its window so. -/
def closingConn : Conn := { Conn.new 0 0 with halfOpenDeadline := some 5 }

def closingRead (window : Transport.Conn) : Conn := { closingConn.receive [0, 0] 1 with toConn := window }

theorem single_counted (conn : Conn) : [some conn].length = (1 : UInt64).toNat := rfl

def closingWorker (conn : Conn) (ticks packets : Nat) : Worker BindingHandler :=
  ⟨⟨300, 5, none⟩, (startHandler [] none (some sampleIdentity)).noteConnect ⟨0⟩, true, true,
    ⟨1, [some conn], single_counted conn⟩,
    ⟨ticks, 0, 1, 0, packets⟩⟩

theorem emptyPayload_fits : ([] : Bytes).length ≤ Transport.maxFramePayload := Nat.zero_le _

theorem emptyFrame : ([0, 0] : Bytes) = frames.encodeAll [⟨[], emptyPayload_fits⟩] := rfl

/-- The frame is read in one tick, the close is reported in the next. -/
theorem orderly_through (window : Transport.Conn) : ∃ k₁ k₂ k₃, closingStart.Through (serverHandler signedResponseCrypto) System.Intact
      (acceptInputs ++ [.arrival (.octets 0 [0, 0]), .answer (.clock false 1), .answer .silent,
        .answer (.poll (some [connReadable false]) false), .answer .silent, .answer .silent])
      ⟨⟨closingWorker closingConn 1 0, .serve [⟨⟨0⟩, true, false⟩]⟩, k₁⟩ ∧
    k₁.answer ⟨closingWorker closingConn 1 0, .serve [⟨⟨0⟩, true, false⟩]⟩ (.read (.octets [0, 0]) 1 : Answer Env) = some k₂ ∧
    (System.mk ⟨closingWorker (closingRead window) 1 0, .decode ⟨0⟩ [[]] false []⟩ k₂).Through (serverHandler signedResponseCrypto)
      System.Intact [.answer (.call sampleEnv), .answer .silent, .answer .silent, .answer .silent, .answer .silent,
        .arrival (.fin 0), .answer (.clock false 2), .answer .silent, .answer (.poll (some [connReadable true]) false)]
      ⟨⟨closingWorker (closingRead window) 2 1, .dispatch ⟨[connReadable true], [], false⟩⟩, k₃⟩ ∧ (k₃.streams 0).fin ∧
    (k₃.streams 0).rx = [] := by
  refine ⟨_, _, _, ⟨trivial, trivial, trivial, trivial, trivial, trivial, trivial, trivial, trivial, trivial, trivial, trivial, trivial,
    trivial, trivial, trivial, trivial, trivial, rfl⟩, rfl, ⟨trivial, trivial, trivial, trivial, trivial, trivial, trivial, trivial,
    trivial, rfl⟩, rfl, rfl⟩

theorem closingConn_takes : closingConn.Takes [0, 0] where
  room := by
    change 0 + 2 ≤ (zeros Transport.frameCap).length
    rw [zeros_length]
    decide
  whole ps tail htail hsplit := by
    have hone : frames.encodeAll [⟨[], emptyPayload_fits⟩] ++ [] = frames.encodeAll ps ++ tail :=
      (List.append_nil _).trans (emptyFrame.symm.trans hsplit)
    obtain ⟨rfl, rfl⟩ := frames.split_unique frames.partial_nil htail hone
    exact ⟨by decide, fun _ => rfl⟩

/-- The frame that the read completes is decoded, and nothing stays in the window. -/
theorem closingConn_frames : ∃ window, (closingConn.receive [0, 0] 1).toConn.takeFrames.1 = window ∧
    (closingConn.receive [0, 0] 1).toConn.takeFrames.2 = [[]] ∧ window.window = [] := by
  obtain ⟨hframes, hwindow, -⟩ := closingConn.receive_frames 1 closingConn_takes.room frames.partial_nil
    (emptyFrame.trans (List.append_nil _).symm)
  rw [ite_self] at hwindow
  exact ⟨_, rfl, hframes, hwindow⟩

theorem closing_read {k₁ k₂ : Kernel} {window : Transport.Conn}
    (hwindow : (closingConn.receive [0, 0] 1).toConn.takeFrames.1 = window)
    (hframes : (closingConn.receive [0, 0] 1).toConn.takeFrames.2 = [[]]) (hk : k₁.answer ⟨closingWorker closingConn 1 0, .serve [⟨⟨0⟩, true, false⟩]⟩
    (.read (.octets [0, 0]) 1 : Answer Env) = some k₂) : Leads (serverHandler signedResponseCrypto) System.Intact
    ⟨⟨closingWorker closingConn 1 0, .serve [⟨⟨0⟩, true, false⟩]⟩, k₁⟩
    ⟨⟨closingWorker (closingRead window) 1 0, .decode ⟨0⟩ [[]] false []⟩, k₂⟩ := by
  have hread : ∀ chunk : Bytes, (Loop.mk (closingWorker closingConn 1 0) (.serve [⟨⟨0⟩, true, false⟩])).next
      (serverHandler signedResponseCrypto) (.read (.octets chunk) 1) =
    some (.read ⟨0⟩ (chunk.take readWindow), ⟨closingWorker { closingConn.receive (chunk.take readWindow) 1 with
        toConn := (closingConn.receive (chunk.take readWindow) 1).toConn.takeFrames.1 } 1 0,
      .decode ⟨0⟩ (closingConn.receive (chunk.take readWindow) 1).toConn.takeFrames.2 false []⟩) := fun _ => rfl
  have htake : ([0, 0] : Bytes).take readWindow = [0, 0] := rfl
  have hnext : (Loop.mk (closingWorker closingConn 1 0) (.serve [⟨⟨0⟩, true, false⟩])).next (serverHandler signedResponseCrypto)
      (.read (.octets [0, 0]) 1) = some (.read ⟨0⟩ [0, 0], ⟨closingWorker (closingRead window) 1 0, .decode ⟨0⟩ [[]] false []⟩) := by
    rw [hread, htake, hframes, hwindow]
    rfl
  refine ⟨[(_, .loop (.read (.octets [0, 0]) 1, .read ⟨0⟩ [0, 0]))], Run.snoc .refl (.loop hnext hk), fun x hx => ?_⟩
  rw [List.mem_singleton.mp hx]
  rintro c hlive
  cases hlive
  exact closingConn_takes

/-- A close that comes after its frame was read loses nothing. -/
theorem close_after_read : ∃ hist s before t, hist = before ++ [(t, .loop (.silent, .drop ⟨0⟩))] ∧
    (t.kernel.streams 0).fin ∧ Complete hist ∧
    Run (System.Step (serverHandler signedResponseCrypto))
      (startSystem ⟨300, 5, none⟩ (startHandler [] none (some sampleIdentity)) true true) hist s := by
  obtain ⟨window, hleft, hframes, hwindow⟩ := closingConn_frames
  obtain ⟨k₁, k₂, k₃, hfirst, hread, hlast, hfin, hrx⟩ := orderly_through window
  obtain ⟨before, hbefore, hintact⟩ := ((Leads.through hfirst).trans (closing_read hleft hframes hread)).trans (.through hlast)
  have hdrop : (System.mk ⟨closingWorker (closingRead window) 2 1, .dispatch ⟨[connReadable true], [], false⟩⟩ k₃).next
    (serverHandler signedResponseCrypto) (.answer .silent) = some (.loop (.silent, .drop ⟨0⟩), _) := rfl
  have hrun := hbefore.snoc (System.next_step hdrop)
  refine ⟨_, _, before, _, rfl, hfin, half_close _ hrun fun x hx => ?_, hrun⟩
  rcases List.mem_append.mp hx with hx | hx
  · exact hintact x hx
  · rw [List.mem_singleton.mp hx]
    rintro c hlive -
    cases hlive
    change frames.Partial (window.window ++ (k₃.streams 0).rx)
    rw [hwindow, hrx]
    exact frames.partial_nil

/-- The poller says readable and read-closed; the octets are there. -/
theorem closing_through : ∃ t, closingStart.Through (serverHandler signedResponseCrypto) System.Intact (acceptInputs ++ closeInputs) t ∧
    t.loop.phase = .dispatch ⟨[connReadable true], [], false⟩ ∧
    (t.loop.worker.conns.get ⟨0⟩).map (fun c => (c.stream, c.window)) = some (0, []) ∧
    (t.kernel.streams 0).rx = frames.encodeAll [⟨[], emptyPayload_fits⟩] ∧ (t.kernel.streams 0).fin ∧
    ∃ u, t.next (serverHandler signedResponseCrypto) (.answer .silent) = some (.loop (.silent, .drop ⟨0⟩), u) := by
  refine ⟨_, ⟨trivial, trivial, trivial, trivial, trivial, trivial, trivial, trivial, trivial, trivial, trivial, trivial, trivial,
    trivial, trivial, trivial, trivial, rfl⟩, rfl, rfl, rfl, rfl, _, rfl⟩

/-- The connection is dropped with the frame unread. -/
theorem frame_lost : ¬ ∀ (ε H : Type) (api : Handler ε H) (config : WorkerConfig) (handler : H) (udp listener : Bool)
    (hist : List (System H × Signal ε)) (s : System H),
    Run (System.Step api) (startSystem config handler udp listener) hist s → Complete hist := by
  intro hall
  obtain ⟨t, hthrough, hphase, hconn, hrx, hfin, u, hdrop⟩ := closing_through
  obtain ⟨hist, hrun, hintact⟩ := Leads.through hthrough
  obtain ⟨c, hlive, heq⟩ := Option.map_eq_some_iff.mp hconn
  obtain ⟨hstream, hwindow⟩ := Prod.mk.inj heq
  have hacc := (run_accounted hrun (start_owned _ _ _ _) (start_accounted _ _ _ _ ⟨0⟩)
    fun x hx => (hintact x hx).takesFor ⟨0⟩).accounts c hlive
  obtain ⟨ps, harr, hps⟩ := hacc.split
  rw [hwindow, hstream, hrx, List.nil_append, ← PrefixCode.encodeAll_append, ← List.append_nil (frames.encodeAll _)] at harr
  have hpending : (Phase.dispatch ⟨[connReadable true], [], false⟩).pending ⟨0⟩ = [] := rfl
  rw [hphase, hpending, List.append_nil] at hps
  have hcomplete := hall _ _ _ _ _ _ _ _ _ (hrun.snoc (System.next_step hdrop)) hist t .silent ⟨0⟩ [] c rfl hlive
    (by rwa [hstream]) _ [] frames.partial_nil (by rw [hstream]; exact harr)
  rw [hps, List.map_append] at hcomplete
  exact absurd (congrArg List.length hcomplete) (by simp)

end QuickRelay.Server
