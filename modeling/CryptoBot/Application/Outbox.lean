import CryptoBot.Infrastructure.StoreLaws
import CryptoBot.Lib.Fencing

/-!
# The outbox dispatcher

`engine/application/outbox.py` and the outbox and lease queries of `store.py`. Both workers run a
dispatcher against one ledger; a lease is to keep their flushes apart. A flush reads the due rows
once, renews the lease before every delivery, and marks each row with what became of it. The columns
`sent_at` and `last_error` are written and never read, so they are not modelled.
-/

namespace CryptoBot

open Lib

/-! ## The store -/

/-- A row of `leases`. -/
structure Lease where
  owner : String
  expiresAt : Time
deriving DecidableEq

/-- The ledger and its table of leases. -/
structure OutboxStore where
  ledger : Ledger := {}
  leases : String → Option Lease := fun _ => none

namespace OutboxStore

/-- The rows of the outbox. -/
def rows (s : OutboxStore) : List OutboxRow := s.ledger.outbox

def setRows (s : OutboxStore) (rows : List OutboxRow) : OutboxStore :=
  { s with ledger := { s.ledger with outbox := rows } }

@[simp] theorem rows_setRows (s : OutboxStore) (rows : List OutboxRow) :
    (s.setRows rows).rows = rows := rfl

/-- `acquire_lease`: whether the owner holds the lease from now on. -/
def acquireLease (name owner : String) (ttlSeconds : Int) (now : Time) (s : OutboxStore) :
    Bool × OutboxStore :=
  match s.leases name with
  | some row =>
    if row.owner ≠ owner ∧ now < row.expiresAt then (false, s)
    else (true, { s with
      leases := Function.update s.leases name (some ⟨owner, now + seconds ttlSeconds⟩) })
  | none => (true, { s with
      leases := Function.update s.leases name (some ⟨owner, now + seconds ttlSeconds⟩) })

/-- `pending_outbox`: the due rows by id, at most `limit`. -/
def pendingOutbox (limit : Nat) (now : Time) (s : OutboxStore) : List OutboxRow :=
  ((s.rows.filter fun r => decide (r.status = .pending ∧ r.nextAttemptAt ≤ now)).insertionSort
    fun a b => a.id ≤ b.id).take limit

/-- `mark_outbox_sent`. -/
def markOutboxSent (id : Nat) (s : OutboxStore) : OutboxStore :=
  s.setRows (s.rows.map fun r => if r.id = id then { r with status := .sent } else r)

/-- `mark_outbox_failed`. -/
def markOutboxFailed (id : Nat) (nextAttemptAt : Time) (dead : Bool) (s : OutboxStore) :
    OutboxStore :=
  s.setRows (s.rows.map fun r => if r.id = id then
    { r with
      attempts := r.attempts + 1, nextAttemptAt, status := if dead then .dead else .pending }
    else r)

end OutboxStore

/-! ## The dispatcher -/

/-- `CP_KINDS`: the kinds that go to the control plane, all but the alerts. -/
def OutboxKind.isCp : OutboxKind → Bool
  | .signals | .orders | .fills | .reconciliation | .events | .positions => true
  | .telegram => false

namespace OutboxDispatcher

/-- A dispatcher: its owner name for the lease, whether it has a notifier, and how often a delivery
is tried. -/
structure Dispatcher where
  owner : String
  notifier : Bool
  maxAttempts : Nat

/-- What a flush asks of its environment: the time, the control plane's answer to a row, the
notifier's. -/
inductive Req
  | now
  | post (row : OutboxRow)
  | send (row : OutboxRow)
deriving DecidableEq

abbrev Ans : Req → Type
  | .now => Time
  | .post _ | .send _ => Except Exn Unit

/-- The row a request hands over. -/
def Req.row : Req → Option OutboxRow
  | .now => none
  | .post row | .send row => some row

/-- The steps on the store. -/
inductive Label
  | lease
  | read (limit : Nat) (now : Time)
  | sent (id : Nat)
  | failed (id : Nat)
  | enqueue
deriving DecidableEq

/-- A program of a dispatcher. -/
abbrev Dispatch (α : Type) : Type 1 := Proc OutboxStore Label Ans Exn α

def clockNow : Dispatch Time := Proc.ask .now .ok

/-- `LEASE_NAME` and `LEASE_TTL_SECONDS`. -/
def leaseName : String := "outbox-dispatch"

def leaseTtlSeconds : Int := 60

variable (d : Dispatcher)

def acquire : Dispatch Bool := do
  let now ← clockNow
  Proc.step .lease fun s =>
    let r := s.acquireLease leaseName d.owner leaseTtlSeconds now
    (.ok r.1, r.2)

/-- The delivery of one row: to the notifier, if there is one, or to the control plane. -/
def deliver (row : OutboxRow) : Dispatch Unit :=
  if row.kind.isCp then Proc.ask (.post row) id
  else if d.notifier then Proc.ask (.send row) id
  else pure ()

def markSent (row : OutboxRow) : Dispatch Unit :=
  Proc.step (.sent row.id) fun s => (.ok (), s.markOutboxSent row.id)

def markFailed (row : OutboxRow) (nextAttemptAt : Time) (dead : Bool) : Dispatch Unit :=
  Proc.step (.failed row.id) fun s => (.ok (), s.markOutboxFailed row.id nextAttemptAt dead)

/-- `isinstance(exc, ControlPlaneRejected)`. -/
def isRejected (exc : Exn) : Bool := decide (exc.typeName = "ControlPlaneRejected")

/-- `min(600, 2 ** min(attempts, 9))`, in seconds. -/
def delay (attempts : Nat) : Int := min 600 (2 ^ min attempts 9)

/-- The rows of one flush: a rejected row is dead-lettered; any other failure is tried again later,
and a failure towards the control plane ends the flush. -/
def flushRows : List OutboxRow → Nat → Dispatch Nat
  | [], sent => pure sent
  | row :: rows, sent => do
    if ← acquire d then
      match ← (deliver d row).attempt with
      | .ok _ => do
        markSent row
        flushRows rows (sent + 1)
      | .error exc =>
        if isRejected exc then do
          let now ← clockNow
          markFailed row now true
          flushRows rows sent
        else do
          let attempts := row.attempts + 1
          let now ← clockNow
          markFailed row (now + seconds (delay attempts)) (decide (d.maxAttempts ≤ attempts))
          if row.kind.isCp then return sent
          else flushRows rows sent
    else return sent

/-- `flush`. -/
def flush (limit : Nat) : Dispatch Nat := do
  if ← acquire d then
    let now ← clockNow
    let rows ← Proc.step (.read limit now) fun s => (.ok (s.pendingOutbox limit now), s)
    flushRows d rows 0
  else return 0

/-- A transaction that leaves a message. -/
def enqueue (kind : OutboxKind) (key : OutboxKey) (message : OutboxMessage) (now : Time) :
    Dispatch Unit :=
  Proc.step .enqueue fun s =>
    match Store.enqueue kind key message now s.ledger with
    | .ok (_, ledger) => (.ok (), { s with ledger })
    | .error e => (.error e, s)

end OutboxDispatcher

end CryptoBot
