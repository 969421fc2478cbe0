import QuickRelay.Binding.Decision
import QuickRelay.Lib.Assoc
import QuickRelay.Protocol.Message
import QuickRelay.Transport.Framing

/-! The transaction cache: rendered replies by their transaction, each kept until
its deadline. Instants are nanoseconds. -/
namespace QuickRelay.Server
open Lib Protocol

def transactionTimeout : Nat := 55 * 10 ^ 9
def transactionCacheCap : Nat := 4096

/-- Source address and transaction id; the connection for a control stream. -/
structure TransactionKey where
  peer : Binding.SocketAddr
  txid : TransactionId
  connection : Option Transport.ConnectionId
  deriving DecidableEq, Repr

structure TransactionEntry where
  datagram : Bytes
  deadline : Nat
  deriving DecidableEq, Repr

/-- Entries in the order they were filed, one a transaction, at most the cap. -/
structure TransactionCache where
  entries : List (TransactionKey × TransactionEntry)
  distinct : (Assoc.keys entries).Nodup
  bounded : entries.length ≤ transactionCacheCap
  deriving DecidableEq

namespace TransactionCache

def empty : TransactionCache := ⟨[], .nil, Nat.zero_le _⟩

def keys (c : TransactionCache) : List TransactionKey := Assoc.keys c.entries

/-- Drops the entries past their deadline. -/
def reap (c : TransactionCache) (now : Nat) : TransactionCache where
  entries := c.entries.filter fun e => decide (now < e.2.deadline)
  distinct := Assoc.nodup_filter c.distinct
  bounded := Nat.le_trans (List.length_filter_le _ _) c.bounded

/-- The reply kept under a transaction, which stays. -/
def lookup (c : TransactionCache) (now : Nat) (key : TransactionKey) : Option Bytes × TransactionCache :=
  let c := c.reap now
  ((Assoc.find key c.entries).map TransactionEntry.datagram, c)

/-- The first entry that expires no later than any other. -/
def reapOldest (c : TransactionCache) : TransactionCache where
  entries := c.entries.eraseP fun e => c.entries.all fun e' => decide (e.2.deadline ≤ e'.2.deadline)
  distinct := Assoc.nodup_eraseP c.distinct
  bounded := Nat.le_trans List.length_eraseP_le c.bounded

theorem reapOldest_length (c : TransactionCache) (h : c.entries ≠ []) :
    c.reapOldest.entries.length + 1 = c.entries.length := by
  obtain ⟨e, he, hle⟩ := Assoc.exists_least (f := fun e : TransactionKey × TransactionEntry => e.2.deadline) h
  have := List.length_eraseP_of_mem (p := fun e => c.entries.all fun e' => decide (e.2.deadline ≤ e'.2.deadline)) he
    (by simpa using fun a b hab => hle (a, b) hab)
  have hpos : 0 < c.entries.length := List.length_pos_of_mem he
  rw [reapOldest, this]
  omega

/-- Room for one more entry. -/
def makeRoom (c : TransactionCache) : TransactionCache :=
  if transactionCacheCap ≤ c.entries.length then c.reapOldest else c

theorem makeRoom_length (c : TransactionCache) : c.makeRoom.entries.length + 1 ≤ transactionCacheCap := by
  rw [makeRoom]
  split
  · have hb := c.bounded
    have hne : c.entries ≠ [] := by
      intro h
      simp_all [transactionCacheCap]
    have := c.reapOldest_length hne
    omega
  · omega

theorem makeRoom_sublist (c : TransactionCache) : c.makeRoom.entries.Sublist c.entries := by
  rw [makeRoom]
  split
  · exact List.eraseP_sublist
  · exact List.Sublist.refl _

/-- A reply already kept under the transaction is replaced where it stands. -/
def insert (c : TransactionCache) (reapAt fileAt : Nat) (key : TransactionKey) (datagram : Bytes) : TransactionCache :=
  let c := c.reap reapAt
  let entry : TransactionEntry := ⟨datagram, fileAt + transactionTimeout⟩
  if h : key ∈ c.keys then
    { entries := Assoc.replace key entry c.entries
      distinct := by rw [Assoc.keys_replace]; exact c.distinct
      bounded := by rw [Assoc.length_replace]; exact c.bounded }
  else
    { entries := c.makeRoom.entries ++ [(key, entry)]
      distinct := Assoc.nodup_concat c.makeRoom.distinct
        fun hk => h ((c.makeRoom_sublist.map Prod.fst).subset hk)
      bounded := by rw [List.length_append]; exact c.makeRoom_length }

/-! ### What the cache holds -/

theorem mem_reap {c : TransactionCache} {now : Nat} {e : TransactionKey × TransactionEntry} :
    e ∈ (c.reap now).entries ↔ e ∈ c.entries ∧ now < e.2.deadline := by
  simp [reap]

/-- A lookup finds the entry of the transaction if it is not past its deadline. -/
theorem lookup_eq_some {c : TransactionCache} {now : Nat} {key : TransactionKey} {d : Bytes} :
    (c.lookup now key).1 = some d ↔ ∃ t, (key, ⟨d, t⟩) ∈ c.entries ∧ now < t := by
  rw [lookup, Option.map_eq_some_iff]
  constructor
  · rintro ⟨⟨d, t⟩, he, rfl⟩
    exact ⟨t, mem_reap.mp ((Assoc.find_eq_some (c.reap now).distinct).mp he)⟩
  · rintro ⟨t, he⟩
    exact ⟨⟨d, t⟩, (Assoc.find_eq_some (c.reap now).distinct).mpr (mem_reap.mpr he), rfl⟩

/-- What was just filed is there. -/
theorem mem_insert_self (c : TransactionCache) (reapAt fileAt : Nat) (key : TransactionKey) (d : Bytes) :
    (key, ⟨d, fileAt + transactionTimeout⟩) ∈ (c.insert reapAt fileAt key d).entries := by
  simp only [insert]
  split
  case isTrue h => exact (Assoc.mem_replace (c.reap reapAt).distinct).mpr (.inl ⟨rfl, h⟩)
  case isFalse h => simp

/-- Everything else in the cache was there before. -/
theorem mem_insert {c : TransactionCache} {reapAt fileAt : Nat} {key : TransactionKey} {d : Bytes}
    {e : TransactionKey × TransactionEntry} (h : e ∈ (c.insert reapAt fileAt key d).entries) :
    e = (key, ⟨d, fileAt + transactionTimeout⟩) ∨ e ∈ c.entries ∧ e.1 ≠ key := by
  simp only [insert] at h
  split at h
  case isTrue hk =>
    rcases (Assoc.mem_replace (c.reap reapAt).distinct).mp h with ⟨rfl, -⟩ | ⟨he, hne⟩
    · exact .inl rfl
    · exact .inr ⟨(mem_reap.mp he).1, hne⟩
  case isFalse hk =>
    rcases List.mem_append.mp h with he | he
    · have he' := (c.reap reapAt).makeRoom_sublist.subset he
      exact .inr ⟨(mem_reap.mp he').1, fun hkey => hk (hkey ▸ List.mem_map_of_mem he')⟩
    · exact .inl (List.mem_singleton.mp he)

end TransactionCache
end QuickRelay.Server
