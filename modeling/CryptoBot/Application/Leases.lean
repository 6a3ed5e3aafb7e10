import CryptoBot.Application.Outbox
import Mathlib.Data.List.Induction

/-!
# Lease exclusion

`acquire_lease` and `release_lease` for any names and owners, each acquisition with a time to live of
its own. The row of a lease is what its last taker wrote; an owner that was granted the lease and has
not released it is in the row, or its grant has run out.
-/

namespace CryptoBot

open Lib

/-! ## Calls -/

/-- `acquire_lease` with a time to live in microseconds. -/
def OutboxStore.acquireLeaseFor (name owner : String) (ttl : Int) (now : Time) (s : OutboxStore) :
    Bool × OutboxStore :=
  match s.leases name with
  | some row =>
    if row.owner ≠ owner ∧ now < row.expiresAt then (false, s)
    else (true, { s with leases := Function.update s.leases name (some ⟨owner, now + ttl⟩) })
  | none => (true, { s with leases := Function.update s.leases name (some ⟨owner, now + ttl⟩) })

theorem OutboxStore.acquireLease_eq (name owner : String) (ttlSeconds : Int) (now : Time)
    (s : OutboxStore) :
    s.acquireLease name owner ttlSeconds now = s.acquireLeaseFor name owner (seconds ttlSeconds) now :=
  rfl

/-- `release_lease`. -/
def OutboxStore.releaseLease (name owner : String) (s : OutboxStore) : OutboxStore :=
  if (s.leases name).any fun row => decide (row.owner = owner) then
    { s with leases := Function.update s.leases name none }
  else s

inductive LeaseOp
  | acquire (owner : String) (ttl : Int)
  | release (owner : String)
deriving DecidableEq

/-- A call on the lease of a name. -/
structure LeaseCall where
  name : String
  op : LeaseOp
  at_ : Time
deriving DecidableEq

/-- A call that was served; `granted` tells whether it was an acquisition that returned true. -/
structure Served where
  call : LeaseCall
  granted : Bool
deriving DecidableEq

namespace OutboxStore

def serve (c : LeaseCall) (s : OutboxStore) : Bool × OutboxStore :=
  match c.op with
  | .acquire owner ttl => s.acquireLeaseFor c.name owner ttl c.at_
  | .release owner => (false, s.releaseLease c.name owner)

/-- The calls of a sequence, served in turn: what was served, the latest first, and the store. -/
def serveAll (calls : List LeaseCall) (s : OutboxStore) : List Served × OutboxStore :=
  calls.foldl (fun r c => (⟨c, (r.2.serve c).1⟩ :: r.1, (r.2.serve c).2)) ([], s)

variable {s : OutboxStore} {name owner : String} {ttl : Int} {now : Time} {calls : List LeaseCall}
  {c : LeaseCall}

/-- An acquisition is refused when another owner has an unexpired row. -/
theorem acquireLeaseFor_eq : s.acquireLeaseFor name owner ttl now =
    if ∃ row ∈ s.leases name, row.owner ≠ owner ∧ now < row.expiresAt then (false, s)
    else (true, { s with leases := Function.update s.leases name (some ⟨owner, now + ttl⟩) }) := by
  unfold acquireLeaseFor
  cases s.leases name with
  | none => simp
  | some row => simp

theorem releaseLease_leases_other {name' : String} (h : name' ≠ name) :
    (s.releaseLease name owner).leases name' = s.leases name' := by
  unfold releaseLease
  split
  · exact Function.update_of_ne h _ _
  · rfl

/-- A release leaves the row of another owner. -/
theorem releaseLease_keeps {row : Lease} (hrow : s.leases name = some row) (h : row.owner ≠ owner) :
    (s.releaseLease name owner).leases name = some row := by
  unfold releaseLease
  rw [hrow, Option.any_some, if_neg (by simpa using h), hrow]

theorem serveAll_concat : serveAll (calls ++ [c]) s =
    (⟨c, ((serveAll calls s).2.serve c).1⟩ :: (serveAll calls s).1,
      ((serveAll calls s).2.serve c).2) := List.foldl_concat ..

end OutboxStore

/-! ## Grants -/

/-- When the latest grant of an owner runs out, unless the owner has released the lease since. -/
def unreleased (name owner : String) : List Served → Option Time
  | [] => none
  | x :: h =>
    if x.call.name = name then
      match x.call.op with
      | .acquire o ttl =>
        if o = owner ∧ x.granted then some (x.call.at_ + ttl) else unreleased name owner h
      | .release o => if o = owner then none else unreleased name owner h
    else unreleased name owner h

/-- The owner holds an unexpired, unreleased lease at a time. -/
def HoldsLease (name owner : String) (t : Time) (h : List Served) : Prop :=
  ∃ e ∈ unreleased name owner h, t < e

namespace OutboxStore

/-- Every unreleased grant is the row's, or has run out by now. -/
def Backed (now : Time) (h : List Served) (s : OutboxStore) : Prop :=
  ∀ name owner, ∀ e ∈ unreleased name owner h, s.leases name = some ⟨owner, e⟩ ∨ e ≤ now

variable {s : OutboxStore} {h : List Served} {now t : Time} {name owner : String}

theorem Backed.mono (hb : Backed now h s) (ht : now ≤ t) : Backed t h s :=
  fun name owner e he => (hb name owner e he).imp_right fun hle => hle.trans ht

/-- Of two owners at most one has an unexpired grant. -/
theorem Backed.unique {other : String} (hb : Backed now h s) (ht : now ≤ t)
    (hown : HoldsLease name owner t h) (hoth : HoldsLease name other t h) : owner = other := by
  obtain ⟨e, he, hlt⟩ := hown
  obtain ⟨e', he', hlt'⟩ := hoth
  have hrow : s.leases name = some ⟨owner, e⟩ :=
    (hb name owner e he).resolve_right fun hle => absurd (hle.trans ht) (not_le.2 hlt)
  have hrow' : s.leases name = some ⟨other, e'⟩ :=
    (hb name other e' he').resolve_right fun hle => absurd (hle.trans ht) (not_le.2 hlt')
  rw [hrow] at hrow'
  cases hrow'
  rfl

/-- Whoever is granted the lease meets no unexpired grant of another owner. -/
theorem Backed.granted {other : String} {ttl : Int} (hb : Backed t h s)
    (hgrant : (s.acquireLeaseFor name owner ttl t).1 = true) (hne : other ≠ owner) :
    ¬ HoldsLease name other t h := by
  rintro ⟨e, he, hlt⟩
  have hrow : s.leases name = some ⟨other, e⟩ :=
    (hb name other e he).resolve_right (not_le.2 hlt)
  rw [acquireLeaseFor_eq, if_pos ⟨_, hrow, hne, hlt⟩] at hgrant
  cases hgrant

/-- A call keeps every unreleased grant backed. -/
theorem Backed.serve {c : LeaseCall} (hb : Backed c.at_ h s) :
    Backed c.at_ (⟨c, (s.serve c).1⟩ :: h) (s.serve c).2 := by
  obtain ⟨n, op, t⟩ := c
  intro name owner e he
  cases op with
  | acquire o ttl =>
    have hserve : s.serve ⟨n, .acquire o ttl, t⟩ = s.acquireLeaseFor n o ttl t := rfl
    rw [hserve, acquireLeaseFor_eq] at he ⊢
    split at he
    · next hrefused =>
      rw [if_pos hrefused]
      simp only [unreleased, and_false, if_false, ite_self, Bool.false_eq_true] at he
      exact hb name owner e he
    · next hgranted =>
      rw [if_neg hgranted]
      dsimp only [unreleased] at he ⊢
      by_cases hname : n = name
      · subst hname
        rw [if_pos rfl] at he
        rw [Function.update_self]
        by_cases ho : o = owner
        · rw [if_pos ⟨ho, rfl⟩] at he
          cases he
          exact .inl (by rw [ho])
        · -- the row of another owner has run out, or it would not have been overwritten
          rw [if_neg fun h => ho h.1] at he
          refine .inr ((hb n owner e he).elim (fun hrow => ?_) id)
          by_contra hlt
          exact hgranted ⟨_, hrow, fun h => ho h.symm, not_le.1 hlt⟩
      · rw [if_neg hname] at he
        rw [Function.update_of_ne fun h => hname h.symm]
        exact hb name owner e he
  | release o =>
    have hserve : s.serve ⟨n, .release o, t⟩ = (false, s.releaseLease n o) := rfl
    rw [hserve] at he ⊢
    dsimp only [unreleased] at he ⊢
    by_cases hname : n = name
    · subst hname
      rw [if_pos rfl] at he
      by_cases ho : o = owner
      · rw [if_pos ho] at he
        cases he
      · rw [if_neg ho] at he
        exact (hb n owner e he).imp_left fun hrow => releaseLease_keeps hrow fun h => ho h.symm
    · rw [if_neg hname] at he
      rw [releaseLease_leases_other fun h => hname h.symm]
      exact hb name owner e he

/-- Whatever the calls, every unreleased grant is backed. -/
theorem backed_serveAll {calls : List LeaseCall} (s : OutboxStore)
    (htimes : calls.Pairwise fun c c' => c.at_ ≤ c'.at_) (ht : ∀ c ∈ calls, c.at_ ≤ t) :
    Backed t (serveAll calls s).1 (serveAll calls s).2 := by
  induction calls using List.reverseRecOn generalizing t with
  | nil => exact fun _ _ _ he => by cases he
  | append_singleton calls c ih =>
    obtain ⟨hpast, -, hle⟩ := List.pairwise_append.1 htimes
    have hb : Backed c.at_ (serveAll calls s).1 (serveAll calls s).2 :=
      ih hpast fun d hd => hle d hd c (.head _)
    rw [serveAll_concat]
    exact hb.serve.mono (ht c (List.mem_append_right _ (.head _)))

/-- Lease exclusion. After any calls at non-decreasing times, an acquisition that is granted at a time
meets no unexpired, unreleased grant of another owner, and at no time from the last call on do two
owners hold the lease. -/
theorem lease_exclusion (s : OutboxStore) {calls : List LeaseCall}
    (htimes : calls.Pairwise fun c c' => c.at_ ≤ c'.at_) {t : Time} (ht : ∀ c ∈ calls, c.at_ ≤ t)
    (name : String) :
    (∀ owner ttl, ((serveAll calls s).2.acquireLeaseFor name owner ttl t).1 = true →
      ∀ other, other ≠ owner → ¬ HoldsLease name other t (serveAll calls s).1) ∧
    ∀ owner other, HoldsLease name owner t (serveAll calls s).1 →
      HoldsLease name other t (serveAll calls s).1 → owner = other := by
  have hb : Backed t (serveAll calls s).1 (serveAll calls s).2 := backed_serveAll s htimes ht
  exact ⟨fun _ _ hgrant _ hne => hb.granted hgrant hne,
    fun _ _ hown hoth => hb.unique (le_refl t) hown hoth⟩

/-- The lease of the trading worker runs out as the other worker asks for it. -/
theorem lease_taken_over :
    ¬ HoldsLease OutboxDispatcher.leaseName "trading" (seconds 60)
      (serveAll [⟨OutboxDispatcher.leaseName, .acquire "trading" (seconds 60), 0⟩] {}).1 :=
  (lease_exclusion {} (List.pairwise_singleton _ _) (by decide) _).1 "recon" (seconds 60)
    (by decide +kernel) "trading" (by decide)

end OutboxStore

end CryptoBot
