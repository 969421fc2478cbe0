import QuickRelay.Lib.Recency
import QuickRelay.Server.Steps

/-! The cache over a sequence of calls: of each transaction its last reply, as long as it
lives and is among the last filed. -/
namespace QuickRelay.Server
open Lib Recency

/-- A call, with the instants its clock gives. -/
inductive CacheCall where
  | insert (reapAt fileAt : Nat) (key : TransactionKey) (datagram : Bytes)
  | lookup (now : Nat) (key : TransactionKey)
  deriving DecidableEq, Repr

namespace CacheCall

def start : CacheCall → Nat
  | .insert reapAt _ _ _ => reapAt
  | .lookup now _ => now

def finish : CacheCall → Nat
  | .insert _ fileAt _ _ => fileAt
  | .lookup now _ => now

/-- What an insertion files: its key, the instant and the reply. -/
def files : CacheCall → Option (TransactionKey × (Nat × Bytes))
  | .insert _ fileAt key datagram => some (key, fileAt, datagram)
  | .lookup _ _ => none

end CacheCall

def TransactionCache.call (c : TransactionCache) : CacheCall → TransactionCache
  | .insert reapAt fileAt key datagram => c.insert reapAt fileAt key datagram
  | .lookup now key => (c.lookup now key).2

/-- The cache after calls on an empty one. -/
def cacheAfter (calls : List CacheCall) : TransactionCache := calls.foldl TransactionCache.call .empty

/-- Each call ends no sooner than it starts, and the next one starts later. -/
structure Increasing (calls : List CacheCall) : Prop where
  forward : ∀ call ∈ calls, call.start ≤ call.finish
  later : calls.Pairwise fun a b => a.finish < b.start

/-- What the calls filed, in order. -/
def filings (calls : List CacheCall) : List (TransactionKey × (Nat × Bytes)) := calls.filterMap CacheCall.files

/-- The keys inserted by the calls, in order. -/
def insertedKeys (calls : List CacheCall) : List TransactionKey := Assoc.keys (filings calls)

/-! ### The entries and the last filings -/

def entryOf (e : TransactionKey × (Nat × Bytes)) : TransactionKey × TransactionEntry :=
  (e.1, ⟨e.2.2, e.2.1 + transactionTimeout⟩)

def alive (now : Nat) (e : TransactionKey × (Nat × Bytes)) : Bool := decide (now < (entryOf e).2.deadline)

theorem decide_alive (now : Nat) (e : TransactionKey × (Nat × Bytes)) :
    decide (now < (entryOf e).2.deadline) = alive now e := rfl

theorem alive_iff {now : Nat} {e : TransactionKey × (Nat × Bytes)} :
    alive now e = true ↔ now < e.2.1 + transactionTimeout := by
  rw [alive, decide_eq_true_iff, entryOf]

/-- Later filings stand first. -/
def Falling (l : List (TransactionKey × (Nat × Bytes))) : Prop := l.Pairwise fun a b => b.2.1 < a.2.1

/-- Up to order, the entries are those among the last filings that are alive. -/
def Holds (c : TransactionCache) (es : List (TransactionKey × (Nat × Bytes))) (now : Nat) : Prop :=
  c.entries.Perm ((((recents es).take transactionCacheCap).filter (alive now)).map entryOf)

theorem keys_entryOf (l : List (TransactionKey × (Nat × Bytes))) : Assoc.keys (l.map entryOf) = Assoc.keys l := by
  rw [Assoc.keys, List.map_map]
  rfl

/-- What expires, expires from the end. -/
theorem take_alive {l : List (TransactionKey × (Nat × Bytes))} (h : Falling l) (now n : Nat) :
    (l.take n).filter (alive now) = (l.filter (alive now)).take n := by
  induction l generalizing n with
  | nil => simp
  | cons e l ih =>
    obtain ⟨hfirst, hrest⟩ := List.pairwise_cons.mp h
    cases n with
    | zero => rfl
    | succ n =>
      rw [List.take_succ_cons]
      cases he : alive now e with
      | true => rw [List.filter_cons_of_pos he, List.filter_cons_of_pos he, List.take_succ_cons, ih hrest]
      | false =>
        have hdead : ∀ f ∈ l, alive now f = false := by
          intro f hf
          have hlt := hfirst f hf
          rw [Bool.eq_false_iff, Ne, alive_iff] at he ⊢
          omega
        have hnil : l.filter (alive now) = [] := by
          refine List.filter_eq_nil_iff.mpr fun f hf => ?_
          rw [hdead f hf]
          exact Bool.false_ne_true
        have hnil' : (l.take n).filter (alive now) = [] := by
          refine List.filter_eq_nil_iff.mpr fun f hf => ?_
          rw [hdead f (List.mem_of_mem_take hf)]
          exact Bool.false_ne_true
        rw [List.filter_cons_of_neg (by rw [he]; exact Bool.false_ne_true),
          List.filter_cons_of_neg (by rw [he]; exact Bool.false_ne_true), hnil, hnil', List.take_nil]

theorem holds_reap {c : TransactionCache} {es : List (TransactionKey × (Nat × Bytes))} {now : Nat} (h : Holds c es now)
    {t : Nat} (hle : now ≤ t) : Holds (c.reap t) es t := by
  have hfilter := h.filter fun e => decide (t < e.2.deadline)
  rw [List.filter_map, List.filter_filter] at hfilter
  have halive : ∀ e ∈ (recents es).take transactionCacheCap,
      (((fun e => decide (t < e.2.deadline)) ∘ entryOf) e && alive now e) = alive t e := by
    intro e _
    rw [Function.comp_apply, decide_alive, Bool.and_eq_left_iff_imp, alive_iff, alive_iff]
    exact Nat.lt_of_le_of_lt hle
  rw [List.filter_congr halive] at hfilter
  exact hfilter

/-! ### One call -/

/-- Making room leaves the last filings but one short of the cap. -/
theorem makeRoom_perm {c : TransactionCache} {l : List (TransactionKey × (Nat × Bytes))} (hf : Falling l)
    (h : c.entries.Perm ((l.take transactionCacheCap).map entryOf)) :
    c.makeRoom.entries.Perm ((l.take (transactionCacheCap - 1)).map entryOf) := by
  have hlen := h.length_eq
  rw [List.length_map, List.length_take] at hlen
  rw [TransactionCache.makeRoom]
  by_cases hfull : transactionCacheCap ≤ c.entries.length
  · rw [if_pos hfull]
    have hlong : transactionCacheCap - 1 < l.length := by
      rw [transactionCacheCap] at hlen hfull ⊢
      omega
    have htake : l.take transactionCacheCap = l.take (transactionCacheCap - 1) ++ [l[transactionCacheCap - 1]] :=
      (List.take_append_getElem hlong).symm
    rw [htake, List.map_append] at h
    refine Assoc.eraseP_least_perm h fun e he => ?_
    obtain ⟨f, hmem, rfl⟩ := List.mem_map.mp he
    rw [Falling, ← List.take_append_drop transactionCacheCap l, htake] at hf
    have hlt := (List.pairwise_append.mp (List.pairwise_append.mp hf).1).2.2 f hmem _ (List.mem_singleton_self _)
    exact Nat.add_lt_add_right hlt transactionTimeout
  · rw [if_neg hfull]
    have hshort : l.length ≤ transactionCacheCap - 1 := by
      rw [transactionCacheCap] at hlen hfull ⊢
      omega
    rw [List.take_of_length_le (by omega)] at h
    rw [List.take_of_length_le hshort]
    exact h

theorem without_entryOf (k : TransactionKey) (l : List (TransactionKey × (Nat × Bytes))) :
    without k (l.map entryOf) = (without k l).map entryOf := by
  rw [without, List.filter_map]
  rfl

theorem falling_recents {es : List (TransactionKey × (Nat × Bytes))} (h : es.Pairwise fun a b => a.2.1 < b.2.1) :
    Falling (recents es) := recents_pairwise h

/-- Of the last filings that are alive, one more leaves room for one fewer. -/
theorem take_filed {es : List (TransactionKey × (Nat × Bytes))} {e : TransactionKey × (Nat × Bytes)} {now : Nat}
    (hes : (es ++ [e]).Pairwise fun a b => a.2.1 < b.2.1) (he : alive now e = true) :
    ((recents (es ++ [e])).take transactionCacheCap).filter (alive now) =
      e :: (without e.1 ((recents es).filter (alive now))).take (transactionCacheCap - 1) := by
  have hcap : transactionCacheCap = transactionCacheCap - 1 + 1 := rfl
  have hcomm : (without e.1 (recents es)).filter (alive now) = without e.1 ((recents es).filter (alive now)) := by
    rw [without, without, List.filter_filter, List.filter_filter]
    apply List.filter_congr
    intro f _
    exact Bool.and_comm _ _
  rw [take_alive (falling_recents hes), recents_concat, touch, List.filter_cons_of_pos he, hcomm, hcap, List.take_succ_cons]
  rfl

theorem holds_insert {c : TransactionCache} {es : List (TransactionKey × (Nat × Bytes))} {now : Nat} (h : Holds c es now)
    {reapAt fileAt : Nat} (hreap : now ≤ reapAt) (hfile : reapAt ≤ fileAt) {key : TransactionKey} {d : Bytes}
    (hes : (es ++ [(key, fileAt, d)]).Pairwise fun a b => a.2.1 < b.2.1) :
    Holds (c.insert reapAt fileAt key d) (es ++ [(key, fileAt, d)]) reapAt := by
  have hold := falling_recents (List.pairwise_append.mp hes).1
  have hnew : alive reapAt (key, fileAt, d) = true := by
    rw [alive_iff]
    exact Nat.lt_of_le_of_lt hfile (Nat.lt_add_of_pos_right (by decide))
  have hreaped := holds_reap h hreap
  rw [Holds, take_alive hold] at hreaped
  have hkeys : key ∈ (c.reap reapAt).keys ↔
      key ∈ Assoc.keys (((recents es).filter (alive reapAt)).take transactionCacheCap) := by
    rw [← keys_entryOf]
    exact (hreaped.map Prod.fst).mem_iff
  rw [Holds, take_filed hes hnew, List.map_cons]
  simp only [TransactionCache.insert]
  split
  case isTrue hk =>
    have hnodup : (Assoc.keys ((recents es).filter (alive reapAt))).Nodup := Assoc.nodup_filter (recents_nodup es)
    have htake : (without key ((recents es).filter (alive reapAt))).take (transactionCacheCap - 1) =
        without key (((recents es).filter (alive reapAt)).take transactionCacheCap) :=
      take_without_of_mem hnodup (hkeys.mp hk)
    have hperm := replace_perm (c.reap reapAt).distinct hk ⟨d, fileAt + transactionTimeout⟩
    have hrest : (without key (c.reap reapAt).entries).Perm
        ((without key (((recents es).filter (alive reapAt)).take transactionCacheCap)).map entryOf) := by
      rw [← without_entryOf]
      exact hreaped.filter _
    rw [htake]
    exact hperm.trans (hrest.cons _)
  case isFalse hk =>
    have hnot : key ∉ Assoc.keys (((recents es).filter (alive reapAt)).take (transactionCacheCap - 1)) := by
      intro hmem
      exact hk (hkeys.mpr (((List.take_sublist_take_left (Nat.sub_le _ 1)).map Prod.fst).subset hmem))
    rw [take_without_of_not_mem hnot]
    have hroom := makeRoom_perm (hold.filter _) hreaped
    exact (List.perm_append_singleton _ _).trans (hroom.cons _)

/-! ### A sequence of calls -/

theorem files_time {call : CacheCall} {e : TransactionKey × (Nat × Bytes)} (h : call.files = some e) :
    e.2.1 = call.finish := by
  cases call with
  | insert reapAt fileAt key d =>
    cases h
    rfl
  | lookup now key => cases h

theorem filings_increasing {calls : List CacheCall} (h : Increasing calls) :
    (filings calls).Pairwise fun a b => a.2.1 < b.2.1 := by
  have hfinish : calls.Pairwise fun a b => a.finish < b.finish :=
    h.later.imp_of_mem fun _ hb hlt => Nat.lt_of_lt_of_le hlt (h.forward _ hb)
  refine hfinish.filterMap CacheCall.files fun a b hlt e he f hf => ?_
  rw [files_time he, files_time hf]
  exact hlt

theorem filings_concat (calls : List CacheCall) (call : CacheCall) :
    filings (calls ++ [call]) = filings calls ++ call.files.toList := by
  rw [filings, List.filterMap_append]
  cases call <;> rfl

theorem Increasing.init {calls : List CacheCall} {call : CacheCall} (h : Increasing (calls ++ [call])) : Increasing calls where
  forward c hc := h.forward c (List.mem_append_left _ hc)
  later := (List.pairwise_append.mp h.later).1

/-- Calls in order leave the live ones of the last filings, as of a time that is past. -/
theorem holds_after {calls : List CacheCall} (h : Increasing calls) :
    ∃ now, Holds (cacheAfter calls) (filings calls) now ∧ ∀ t, (∀ call ∈ calls, call.finish < t) → now ≤ t := by
  induction calls using List.reverseRecOn with
  | nil => exact ⟨0, List.Perm.nil, fun t _ => Nat.zero_le t⟩
  | append_singleton calls call ih =>
    obtain ⟨now, hholds, hpast⟩ := ih h.init
    have hnow : now ≤ call.start :=
      hpast _ fun c hc => (List.pairwise_append.mp h.later).2.2 c hc call (List.mem_singleton_self call)
    have hforward := h.forward call (List.mem_concat_self ..)
    have hstep : Holds (cacheAfter (calls ++ [call])) (filings (calls ++ [call])) call.start := by
      have hfilings := filings_increasing h
      rw [filings_concat] at hfilings ⊢
      rw [cacheAfter, List.foldl_append]
      cases call with
      | insert reapAt fileAt key d => exact holds_insert hholds hnow hforward hfilings
      | lookup t key =>
        rw [CacheCall.files, Option.toList_none, List.append_nil]
        exact holds_reap hholds hnow
    refine ⟨call.start, hstep, fun t ht => ?_⟩
    exact Nat.le_trans hforward (Nat.le_of_lt (ht call (List.mem_concat_self ..)))

/-- An entry is found as long as it is among the last filings and lives. -/
theorem Holds.lookup {c : TransactionCache} {es : List (TransactionKey × (Nat × Bytes))} {now : Nat} (h : Holds c es now)
    {t : Nat} (hle : now ≤ t) {key : TransactionKey} {d : Bytes} : (c.lookup t key).1 = some d ↔
      ∃ fileAt, (key, fileAt, d) ∈ (recents es).take transactionCacheCap ∧ t < fileAt + transactionTimeout := by
  have hmem : ∀ deadline, (key, ⟨d, deadline⟩) ∈ (c.reap t).entries ↔
      ∃ e ∈ (recents es).take transactionCacheCap, alive t e = true ∧ entryOf e = (key, ⟨d, deadline⟩) := by
    intro deadline
    rw [(holds_reap h hle).mem_iff, List.mem_map]
    constructor
    · rintro ⟨e, he, hentry⟩
      obtain ⟨he, halive⟩ := List.mem_filter.mp he
      exact ⟨e, he, halive, hentry⟩
    · rintro ⟨e, he, halive, hentry⟩
      exact ⟨e, List.mem_filter.mpr ⟨he, halive⟩, hentry⟩
  rw [TransactionCache.lookup_eq_some]
  constructor
  · rintro ⟨deadline, hentry, hlt⟩
    obtain ⟨⟨key', fileAt, d'⟩, he, halive, heq⟩ := (hmem deadline).mp (TransactionCache.mem_reap.mpr ⟨hentry, hlt⟩)
    cases heq
    exact ⟨fileAt, he, alive_iff.mp halive⟩
  · rintro ⟨fileAt, he, hlt⟩
    have hentry := (hmem _).mpr ⟨_, he, alive_iff.mpr hlt, rfl⟩
    exact ⟨_, TransactionCache.mem_reap.mp hentry⟩

theorem filings_split {calls : List CacheCall} {before since : List (TransactionKey × (Nat × Bytes))} {key : TransactionKey}
    {fileAt : Nat} {d : Bytes} (h : filings calls = before ++ (key, fileAt, d) :: since) :
    ∃ reapAt pre post, calls = pre ++ .insert reapAt fileAt key d :: post ∧ filings post = since := by
  obtain ⟨front, rest, rfl, -, hrest⟩ := List.filterMap_eq_append_iff.mp h
  obtain ⟨skipped, call, post, rfl, -, hcall, hpost⟩ := List.filterMap_eq_cons_iff.mp hrest
  cases call with
  | insert reapAt fileAt' key' d' =>
    cases hcall
    exact ⟨reapAt, front ++ skipped, post, by rw [List.append_assoc], hpost⟩
  | lookup now key' => cases hcall

/-- **Cache**: after any calls in order the keys are distinct and at most as many as the cap;
and a later lookup finds, of every key inserted, the last reply, until it is 55 s old or as
many other keys as the cap were inserted since. -/
theorem cache_refines {calls : List CacheCall} (h : Increasing calls) :
    (cacheAfter calls).keys.Nodup ∧ (cacheAfter calls).entries.length ≤ transactionCacheCap ∧
    ∀ now, (∀ call ∈ calls, call.finish < now) → ∀ key d, ((cacheAfter calls).lookup now key).1 = some d ↔
      ∃ reapAt fileAt before since, calls = before ++ .insert reapAt fileAt key d :: since ∧ key ∉ insertedKeys since ∧
        now < fileAt + transactionTimeout ∧ (insertedKeys since).toFinset.card < transactionCacheCap := by
  refine ⟨(cacheAfter calls).distinct, (cacheAfter calls).bounded, fun now hnow key d => ?_⟩
  obtain ⟨past, hholds, hpast⟩ := holds_after h
  rw [hholds.lookup (hpast now hnow)]
  constructor
  · rintro ⟨fileAt, he, hlt⟩
    obtain ⟨before, since, hsplit, hlast, hfew⟩ := mem_take_recents.mp he
    obtain ⟨reapAt, pre, post, hcalls, rfl⟩ := filings_split hsplit
    exact ⟨reapAt, fileAt, pre, post, hcalls, hlast, hlt, hfew⟩
  · rintro ⟨reapAt, fileAt, before, since, rfl, hlast, hlt, hfew⟩
    refine ⟨fileAt, mem_take_recents.mpr ⟨filings before, filings since, ?_, hlast, hfew⟩, hlt⟩
    rw [filings, List.filterMap_append]
    rfl

/-- The transaction of a control connection of one listener. -/
def streamKey (id : UInt64) : TransactionKey := ⟨sampleIdentity.toSocketAddr, zeroTxid, some ⟨id⟩⟩

/-- Two transactions filed, the first of them filed again. -/
def refiled : List CacheCall :=
  [.insert 0 1 (streamKey 0) [1], .insert 2 3 (streamKey 1) [2], .lookup 4 (streamKey 0), .insert 5 6 (streamKey 0) [3]]

theorem refiled_increasing : Increasing refiled := ⟨by decide, by decide⟩

theorem refiled_found : ((cacheAfter refiled).lookup 7 (streamKey 1)).1 = some [2] := by
  refine ((cache_refines refiled_increasing).2.2 7 (by decide) _ _).mpr ⟨2, 3, [.insert 0 1 (streamKey 0) [1]],
    [.lookup 4 (streamKey 0), .insert 5 6 (streamKey 0) [3]], rfl, ?_, ?_, ?_⟩
  · exact fun hmem => absurd (List.mem_singleton.mp hmem) (by decide)
  · decide
  · exact Nat.lt_of_le_of_lt (List.toFinset_card_le _) (by decide)

end QuickRelay.Server
