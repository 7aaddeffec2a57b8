import Leasehold.Redis.Store
import Leasehold.Table
import Leasehold.Proofs.Text.Numeral
import Mathlib.Logic.Function.Basic

/-!
# What a Redis server does

A server is known by its replies and by what can be observed of its state: the
record it keeps under each key, and whether it knows the script.  A record has
an expiry in milliseconds and is live up to it, the expiry included.

`Documented` says of the commands that a store sends what the documentation of
the server says: what is replied, and which records are live afterwards.  A
record that has expired may be dropped at any time, so nothing is said about
such records.  The script is described by the commands that it runs.

`Vault` is a server that does so (`Vault.documented`).
-/

namespace Leasehold.Redis

/-! ## Servers -/

/-- What a server keeps under a key. -/
structure Record where
  /-- The value. -/
  value : String
  /-- The last millisecond of the record. -/
  expiry : Nat
deriving DecidableEq, Repr

/-- A server whose states are of type `σ`. -/
structure Server (σ : Type) where
  /-- The reply to a command at a reading of the clock in milliseconds. -/
  reply (now : Nat) : σ → Command → Reply × σ
  /-- The record of a key, live or expired. -/
  record? : σ → String → Option Record
  /-- Whether the server knows the script. -/
  knowsScript : σ → Bool

namespace Server

variable {σ : Type} (srv : Server σ)

/-- The record of a key, if it is live. -/
def live? (now : Nat) (s : σ) (k : String) : Option Record :=
  (srv.record? s k).filter fun r => decide (now ≤ r.expiry)

/-- A command gets a reply and leaves the given records live. -/
def Serves (now : Nat) (s : σ) (c : Command) (r : Reply) (after : String → Option Record) : Prop :=
  (srv.reply now s c).1 = r ∧ srv.live? now (srv.reply now s c).2 = after

/-- What the text of `script` says: it reads the key, and deletes it if it has the given value. -/
def compareAndDelete (now : Nat) (s : σ) (k v : String) : Reply × σ :=
  if (srv.reply now s ["GET", k]).1 = .text v then
    srv.reply now (srv.reply now s ["GET", k]).2 ["DEL", k]
  else (.number 0, (srv.reply now s ["GET", k]).2)

/-- The server does as the documentation of the commands says. -/
structure Documented : Prop where
  /-- `SET` with `NX` replies nothing if the key has a live record. -/
  set_taken : ∀ now s k v ms, 0 < ms → now + ms < 2 ^ 63 → (srv.live? now s k).isSome →
    srv.Serves now s ["SET", k, v, "NX", "PX", toString ms] .nothing (srv.live? now s)
  /-- Else it writes a record that expires so many milliseconds later. -/
  set_free : ∀ now s k v ms, 0 < ms → now + ms < 2 ^ 63 → srv.live? now s k = none →
    srv.Serves now s ["SET", k, v, "NX", "PX", toString ms] (.status "OK")
      (Function.update (srv.live? now s) k (some ⟨v, now + ms⟩))
  /-- `GET` replies the value, or nothing. -/
  get : ∀ now s k, srv.Serves now s ["GET", k]
    ((srv.live? now s k).elim .nothing fun r => .text r.value) (srv.live? now s)
  /-- `DEL` replies the number of records it removed. -/
  del : ∀ now s k, srv.Serves now s ["DEL", k]
    (.number (if (srv.live? now s k).isSome then 1 else 0))
    (Function.update (srv.live? now s) k none)
  /-- `PEXPIRE` replies the number of records whose expiry it set. -/
  pexpire : ∀ now s k ms, 0 < ms → now + ms < 2 ^ 63 →
    srv.Serves now s ["PEXPIRE", k, toString ms]
      (.number (if (srv.live? now s k).isSome then 1 else 0))
      (Function.update (srv.live? now s) k
        ((srv.live? now s k).map fun r => { r with expiry := now + ms }))
  /-- `EVALSHA` with the digest runs the script if the server knows it.  The text of `script` is only
  sent; what it says is put as `compareAndDelete`, by the server's own `GET` and `DEL`. -/
  evalsha : ∀ now s k v, srv.knowsScript s = true →
    srv.reply now s (runScript k v) = srv.compareAndDelete now s k v
  /-- Else it replies an error of the kind that says so. -/
  noscript : ∀ now s k v, srv.knowsScript s = false → ∃ line, errorCode line = "NOSCRIPT" ∧
    srv.Serves now s (runScript k v) (.error line) (srv.live? now s)
  /-- `SCRIPT LOAD` replies the digest of the script, and the server knows it from then on. -/
  load : ∀ now s, srv.knowsScript (srv.reply now s loadScript).2 = true ∧
    ∃ digest, srv.Serves now s loadScript (.text digest) (srv.live? now s)

variable {srv}

theorem live?_later {now later : Nat} (h : now ≤ later) (s : σ) (k : String) :
    srv.live? later s k =
      (srv.live? now s k).filter fun r => decide (later ≤ r.expiry) := by
  rw [live?, live?, Option.filter_filter]
  congr 1
  funext r
  rw [Bool.eq_iff_iff, Bool.and_eq_true, decide_eq_true_iff, decide_eq_true_iff]
  constructor
  · intro hlater
    exact ⟨Nat.le_trans h hlater, hlater⟩
  · exact And.right

/-- What the script replies, and what it leaves. -/
theorem Documented.compareAndDelete (h : srv.Documented) (now : Nat) (s : σ) (k v : String) :
    let holds := (srv.live? now s k).map (·.value) = some v
    (srv.compareAndDelete now s k v).1 = .number (if holds then 1 else 0) ∧
      srv.live? now (srv.compareAndDelete now s k v).2 =
        Function.update (srv.live? now s) k (if holds then none else srv.live? now s k) := by
  obtain ⟨hread, hkept⟩ := h.get now s k
  obtain ⟨hgone, hleft⟩ := h.del now (srv.reply now s ["GET", k]).2 k
  rw [hkept] at hgone hleft
  have htext : (srv.reply now s ["GET", k]).1 = .text v ↔
      (srv.live? now s k).map (·.value) = some v := by
    rw [hread]
    cases srv.live? now s k <;> simp
  by_cases hholds : (srv.live? now s k).map (·.value) = some v
  · have hsome : (srv.live? now s k).isSome = true := by
      rw [← Option.isSome_map (f := Record.value), hholds, Option.isSome_some]
    simp only [Server.compareAndDelete, if_pos (htext.mpr hholds), if_pos hholds, hgone, hleft, if_pos hsome,
      and_self]
  · simp only [Server.compareAndDelete, if_neg (mt htext.mp hholds), if_neg hholds, hkept,
      Function.update_eq_self, and_self]

end Server

/-! ## A server -/

/-- The state of a server that drops no record by itself. -/
structure Vault where
  /-- The records. -/
  records : Table Record := ∅
  /-- Whether the script was loaded. -/
  loaded : Bool := false

namespace Vault

/-- The record of a key, if it is live. -/
def live? (s : Vault) (now : Nat) (k : String) : Option Record :=
  (s.records.find? k).filter fun r => decide (now ≤ r.expiry)

/-- Replies to a command. -/
def reply (now : Nat) (s : Vault) : Command → Reply × Vault
  | ["SET", k, v, "NX", "PX", ms] =>
      match natural? ms.toList, s.live? now k with
      | none, _ => (.error "ERR value is not an integer or out of range", s)
      | some _, some _ => (.nothing, s)
      | some ms, none => (.status "OK", { s with records := s.records.insert k ⟨v, now + ms⟩ })
  | ["GET", k] => ((s.live? now k).elim .nothing fun r => .text r.value, s)
  | ["DEL", k] =>
      (.number (if (s.live? now k).isSome then 1 else 0), { s with records := s.records.erase k })
  | ["PEXPIRE", k, ms] =>
      match natural? ms.toList, s.live? now k with
      | none, _ => (.error "ERR value is not an integer or out of range", s)
      | some _, none => (.number 0, s)
      | some ms, some r =>
          (.number 1, { s with records := s.records.insert k { r with expiry := now + ms } })
  | ["EVALSHA", _, _, k, v] =>
      if s.loaded then
        if (s.live? now k).map (·.value) = some v then
          (.number 1, { s with records := s.records.erase k })
        else (.number 0, s)
      else (.error "NOSCRIPT No matching script. Please use EVAL.", s)
  | ["SCRIPT", "LOAD", _] => (.text scriptDigest, { s with loaded := true })
  | _ => (.error "ERR unknown command", s)

/-- The server with these states. -/
def server : Server Vault where
  reply := reply
  record? s := s.records.find?
  knowsScript := loaded

theorem natural?_toString (n : Nat) : natural? (toString n).toList = some n := by
  rw [natural?, Numeral.toList_toString, Numeral.decimal, if_neg (Numeral.inBase_ne_nil 10 n)]
  exact Numeral.value?_inBase (by decide) (by decide) n

theorem live?_insert (s : Vault) {now : Nat} {k : String} {r : Record} (h : now ≤ r.expiry) :
    server.live? now { s with records := s.records.insert k r } =
      Function.update (server.live? now s) k (some r) := by
  funext j
  by_cases hj : j = k
  · subst hj
    simp [Server.live?, server, Option.filter_some, h]
  · simp [Server.live?, server, Table.find?_insert_of_ne, hj]

theorem live?_erase (s : Vault) (now : Nat) (k : String) :
    server.live? now { s with records := s.records.erase k } =
      Function.update (server.live? now s) k none := by
  funext j
  by_cases hj : j = k
  · subst hj
    simp [Server.live?, server]
  · simp [Server.live?, server, Table.find?_erase_of_ne, hj]

theorem documented : server.Documented where
  set_taken now s k v ms _ _ htaken := by
    obtain ⟨r, hr⟩ := Option.isSome_iff_exists.mp htaken
    have hlive : s.live? now k = some r := hr
    simp only [Server.Serves, server, reply, natural?_toString, hlive, and_self]
  set_free now s k v ms _ _ hfree := by
    have hlive : s.live? now k = none := hfree
    have hreply : server.reply now s ["SET", k, v, "NX", "PX", toString ms] =
        (.status "OK", { s with records := s.records.insert k ⟨v, now + ms⟩ }) := by
      simp only [server, reply, natural?_toString, hlive]
    rw [Server.Serves, hreply]
    exact ⟨rfl, s.live?_insert (Nat.le_add_right now ms)⟩
  get now s k := ⟨rfl, rfl⟩
  del now s k := ⟨rfl, s.live?_erase now k⟩
  pexpire now s k ms _ _ := by
    cases hlive : server.live? now s k with
    | none =>
      have hreply : server.reply now s ["PEXPIRE", k, toString ms] = (.number 0, s) := by
        have hnone : s.live? now k = none := hlive
        simp only [server, reply, natural?_toString, hnone]
      rw [Server.Serves, hreply, Option.map_none, ← hlive, Function.update_eq_self]
      exact ⟨by rw [hlive]; rfl, rfl⟩
    | some r =>
      have hreply : server.reply now s ["PEXPIRE", k, toString ms] =
          (.number 1,
            { s with records := s.records.insert k { r with expiry := now + ms } }) := by
        have hsome : s.live? now k = some r := hlive
        simp only [server, reply, natural?_toString, hsome]
      rw [Server.Serves, hreply]
      exact ⟨rfl, s.live?_insert (Nat.le_add_right now ms)⟩
  evalsha now s k v hknown := by
    have hloaded : s.loaded = true := hknown
    have htext : (server.reply now s ["GET", k]).1 = .text v ↔
        (s.live? now k).map (·.value) = some v := by
      cases hlive : s.live? now k <;> simp [server, reply, hlive]
    simp only [Server.compareAndDelete, htext]
    split
    next h =>
      have hsome : (s.live? now k).isSome = true := by
        rw [← Option.isSome_map (f := Record.value), h, Option.isSome_some]
      simp [server, reply, runScript, hloaded, h, hsome]
    next h => simp [server, reply, runScript, hloaded, h]
  noscript now s k v hunknown := by
    have hloaded : s.loaded = false := hunknown
    have hreply : server.reply now s (runScript k v) =
        (.error "NOSCRIPT No matching script. Please use EVAL.", s) := by
      simp [server, reply, runScript, hloaded]
    refine ⟨_, ?_, by rw [Server.Serves, hreply]; exact ⟨rfl, rfl⟩⟩
    decide
  load now s := ⟨rfl, scriptDigest, rfl, rfl⟩

end Vault

end Leasehold.Redis
