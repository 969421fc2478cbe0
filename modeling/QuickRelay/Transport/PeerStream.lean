import QuickRelay.Transport.Intake

/-! One connection's way in, whatever is read of the others: what is handed over for it are the
first frames of what its peer sent. -/
namespace QuickRelay.Transport.EventLoop
open Lib

variable {ε H : Type} {api : Handler ε H}

/-- What was handed over for a connection begins what arrived on the socket registered for it. -/
structure FromPeer (id : ConnectionId) (hist : List (System H × Signal ε)) (s : System H) : Prop extends Accounted id hist s where
  begun : handedTo id hist = [] ∨ ∃ handle ps tail, (s.kernel.streams handle).registered = some id ∧
    arrivedOn handle hist = frames.encodeAll ps ++ tail ∧ handedTo id hist = ps.map Payload.octets

/-- The first of the payloads that are accounted for. -/
theorem Conn.Accounts.first {c : Conn} {arrived rx : Bytes} {payloads pending : List Bytes}
    (h : c.Accounts arrived (payloads ++ pending) rx) :
    ∃ ps tail, arrived = frames.encodeAll ps ++ tail ∧ payloads = ps.map Payload.octets := by
  obtain ⟨ps, harr, hps⟩ := h.split
  obtain ⟨first, rest, rfl, hfirst, -⟩ := List.map_eq_append_iff.mp hps.symm
  refine ⟨first, frames.encodeAll rest ++ (c.window ++ rx), ?_, hfirst.symm⟩
  rw [harr, PrefixCode.encodeAll_append, List.append_assoc]

section
variable {hist : List (System H × Signal ε)} {id : ConnectionId}

theorem FromPeer.arrive {s : System H} (h : FromPeer id hist s) (a : Arrival) :
    FromPeer id (hist ++ [(s, .arrival a)]) ⟨s.loop, s.kernel.arrive a⟩ where
  toAccounted := h.toAccounted.arrive a
  begun := by
    rw [handedTo_snoc_arrival]
    refine h.begun.imp_right ?_
    rintro ⟨handle, ps, tail, hreg, harr, hps⟩
    refine ⟨handle, ps, tail ++ arrivedNow handle s (.arrival a : Signal ε), (s.kernel.arrive_stream a _).1.trans hreg, ?_, hps⟩
    rw [arrivedOn_snoc, harr, List.append_assoc]

theorem FromPeer.step {w w' : Worker H} {k k₁ : Kernel} {p p' : Phase} {answer : Answer ε} {act : Act}
    (h : FromPeer id hist ⟨⟨w, p⟩, k⟩) (hown : Owned hist ⟨⟨w, p⟩, k⟩) (hdoes : Does api w p (answer, act) w')
    (hmoves : Moves w p (answer, act) p') (hk : k.answer ⟨w, p⟩ answer = some k₁)
    (htakes : System.TakesFor id ⟨⟨w, p⟩, k⟩ (.loop (answer, act))) :
    FromPeer id (hist ++ [(⟨⟨w, p⟩, k⟩, .loop (answer, act))]) ⟨⟨w', p'⟩, k₁.follow w.conns act⟩ := by
  have hacc := h.toAccounted.step hown hdoes hmoves hk htakes
  refine ⟨hacc, ?_⟩
  by_cases hlive' : ∃ c', w'.conns.get id = some c'
  · obtain ⟨c', hlive'⟩ := hlive'
    obtain ⟨ps, tail, harr, hps⟩ := (hacc.accounts c' hlive').first
    exact .inr ⟨c'.stream, ps, tail, (hown.step hdoes hmoves hk).registered id c' hlive', harr, hps⟩
  · -- the connection is gone, or has not come
    have hnil : handedNow id act = [] := by
      by_contra hne
      exact hlive' (hdoes.handed_live hne)
    rw [handedTo_snoc_loop, hnil, List.append_nil]
    refine h.begun.imp_right ?_
    rintro ⟨handle, ps, tail, hreg, harr, hps⟩
    have hkept := (hmoves.follow_live (c := Conn.new handle 0) hk hreg).1
    exact ⟨handle, ps, tail, hkept, (arrivedOn_loop handle hist _ _).trans harr, hps⟩

end

/-- In every run that takes the reads of a connection, what was handed over for it begins what
its peer sent. -/
theorem run_fromPeer {s₀ s : System H} {hist : List (System H × Signal ε)} {id : ConnectionId}
    (hrun : Run (System.Step api) s₀ hist s) (hstart : Owned ([] : List (System H × Signal ε)) s₀)
    (hpeer : FromPeer id ([] : List (System H × Signal ε)) s₀) (htakes : ∀ x ∈ hist, x.1.TakesFor id x.2) :
    FromPeer id hist s := by
  refine (hrun.invariant (P := fun hist s => (∀ x ∈ hist, x.1.TakesFor id x.2) → Owned hist s ∧ FromPeer id hist s)
    (fun _ => ⟨hstart, hpeer⟩) ?_ htakes).2
  intro hist t signal u _ ih hstep hall
  obtain ⟨hown, hs⟩ := ih fun x hx => hall x (List.mem_append_left _ hx)
  cases hstep with
  | arrival a => exact ⟨hown.arrive a, hs.arrive a⟩
  | loop hl hk =>
    have hdoes := step_does api hl
    have hmoves := step_moves api hl
    exact ⟨hown.step hdoes hmoves hk, hs.step hown hdoes hmoves hk (hall _ (List.mem_append_right _ (List.mem_singleton_self _)))⟩

end QuickRelay.Transport.EventLoop
