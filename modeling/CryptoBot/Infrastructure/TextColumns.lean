import CryptoBot.Application.Outbox
import CryptoBot.Domain.InstantOrder

/-!
# Queries on columns of instants

The columns `execution_time` and `next_attempt_at` hold what `_iso` has written, and SQLite compares
them as texts, byte by byte; all characters are ASCII, so that is the order of characters. The queries
that order or select by them give what the same queries on instants give.
-/

namespace CryptoBot

open Lib

/-- `fills` as it is queried: by the text of the execution time; the sort keeps rows of one text in
the order of their ids. -/
def Ledger.fillsByText (s : Ledger) (bot : String) (symbol : Symbol) : List Fill :=
  (s.fills.rows.filter fun f => decide (f.symbol = symbol) &&
    s.orders.rows.any fun o => decide (o.id = f.orderId ∧ o.bot = bot)).insertionSort
      fun a b => isoformat a.executionTime ≤ isoformat b.executionTime

/-- `pending_outbox` as it is queried: by the text of the next attempt. -/
def OutboxStore.pendingByText (limit : Nat) (now : Time) (s : OutboxStore) : List OutboxRow :=
  ((s.rows.filter fun r =>
    decide (r.status = .pending ∧ isoformat r.nextAttemptAt ≤ isoformat now)).insertionSort
      fun a b => a.id ≤ b.id).take limit

theorem Ledger.fillsByText_eq {s : Ledger} {bot : String} {symbol : Symbol}
    (hs : ∀ f ∈ s.fills.rows, Representable f.executionTime) :
    s.fillsByText bot symbol = s.fillsOf bot symbol := by
  have hle : ∀ a ∈ s.fills.rows, ∀ b ∈ s.fills.rows,
      isoformat a.executionTime ≤ isoformat b.executionTime ↔ a.executionTime ≤ b.executionTime :=
    fun a ha b hb => isoformat_le_iff (hs a ha) (hs b hb)
  have hsame := List.map_insertionSort
    (r := fun a b : Fill => isoformat a.executionTime ≤ isoformat b.executionTime)
    (s := fun a b : Fill => a.executionTime ≤ b.executionTime) id
    (s.fills.rows.filter fun f => decide (f.symbol = symbol) &&
      s.orders.rows.any fun o => decide (o.id = f.orderId ∧ o.bot = bot))
    fun a ha b hb => hle a (List.mem_of_mem_filter ha) b (List.mem_of_mem_filter hb)
  rwa [List.map_id, List.map_id] at hsame

theorem Ledger.fillsOf_ordered (s : Ledger) (bot : String) (symbol : Symbol) :
    (s.fillsOf bot symbol).Pairwise fun a b => a.executionTime ≤ b.executionTime := by
  have htotal : Std.Total fun a b : Fill => a.executionTime ≤ b.executionTime :=
    ⟨fun a b => le_total a.executionTime b.executionTime⟩
  have htrans : IsTrans Fill fun a b => a.executionTime ≤ b.executionTime :=
    ⟨fun a b c hab hbc => Int.le_trans hab hbc⟩
  exact List.pairwise_insertionSort _ _

theorem OutboxStore.pendingByText_eq {limit : Nat} {now : Time} {s : OutboxStore}
    (hnow : Representable now) (hs : ∀ r ∈ s.rows, Representable r.nextAttemptAt) :
    s.pendingByText limit now = s.pendingOutbox limit now := by
  have hdue : ∀ r ∈ s.rows,
      decide (r.status = .pending ∧ isoformat r.nextAttemptAt ≤ isoformat now) =
        decide (r.status = .pending ∧ r.nextAttemptAt ≤ now) :=
    fun r hr => decide_eq_decide.2 (and_congr_right fun _ => isoformat_le_iff (hs r hr) hnow)
  unfold pendingByText pendingOutbox
  rw [List.filter_congr hdue]

/-- Texts of aware datetimes, whatever their zones and with or without fractions, are ordered as the
instants; so the fills come in the order of their execution times, as the queries on instants have
them, and the outbox gives the rows that are due. -/
theorem text_order_is_time_order :
    (∀ (a b : AwareDatetime) (x y : String), a.iso = .ok x → b.iso = .ok y →
      (x < y ↔ a.instant < b.instant) ∧ (x = y ↔ a.instant = b.instant)) ∧
    (∀ (s : Ledger) (bot : String) (symbol : Symbol),
      (∀ f ∈ s.fills.rows, Representable f.executionTime) →
      s.fillsByText bot symbol = s.fillsOf bot symbol ∧
      (s.fillsByText bot symbol).Pairwise fun a b => a.executionTime ≤ b.executionTime) ∧
    ∀ (s : OutboxStore) (limit : Nat) (now : Time), Representable now →
      (∀ r ∈ s.rows, Representable r.nextAttemptAt) →
      s.pendingByText limit now = s.pendingOutbox limit now := by
  refine ⟨?_, ?_, ?_⟩
  · intro a b x y ha hb
    obtain ⟨hrep, rfl⟩ := AwareDatetime.iso_ok ha
    obtain ⟨hrep', rfl⟩ := AwareDatetime.iso_ok hb
    exact ⟨isoformat_lt_iff hrep hrep', isoformat_inj hrep hrep'⟩
  · intro s bot symbol hs
    have heq := @Ledger.fillsByText_eq s bot symbol hs
    exact ⟨heq, heq ▸ s.fillsOf_ordered bot symbol⟩
  · intro s limit now hnow hs
    exact OutboxStore.pendingByText_eq hnow hs

/-- A whole second in one zone and half a second later in another. -/
theorem whole_second_first :
    "2026-01-01T00:00:00+00:00" < "2026-01-01T00:00:00.500000+00:00" :=
  ((text_order_is_time_order.1 ⟨1767225600000000, 0⟩ ⟨1767229200500000, 3600000000⟩
    "2026-01-01T00:00:00+00:00" "2026-01-01T00:00:00.500000+00:00" (by decide +kernel)
    (by decide +kernel)).1).2 (by decide)

end CryptoBot
