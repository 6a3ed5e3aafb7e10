import CryptoBot.Exchanges.Normalizer
import CryptoBot.Infrastructure.Store
import CryptoBot.Lib.Keyset

/-!
# The trades of an account, page by page

`my_trades` of `engine/exchanges/binance/rest_client.py` selects by order, by trade id or by time and
returns one page. `recent_fills` of `engine/execution/binance.py` asks for pages until one is not
full: the first by time, the others by the id of the last trade seen.
-/

namespace CryptoBot

open Lib

/-! ## The exchange -/

/-- What `my_trades` selects by; the exchange supports no other combinations. -/
inductive TradeQuery
  | byOrder (orderId : String)
  | fromId (id : Nat)
  | startTime (ms : Int)
deriving DecidableEq

def TradeQuery.selects : TradeQuery → Trade → Bool
  | .byOrder orderId, t => decide (toString t.orderId = orderId)
  | .fromId id, t => decide (id ≤ t.id)
  | .startTime ms, t => decide (ms ≤ t.time)

/-- `my_trades`: the oldest trades of the symbol that are selected, at most `limit` of them. -/
def myTrades (history : List Trade) (symbol : ExchangeSymbol) (q : TradeQuery) (limit : Nat) :
    List Trade :=
  (history.filter fun t => decide (t.symbol = symbol) && q.selects t).take limit

/-- The trades of an account in the order of their ids, which is also that of their times. -/
def Chronological (history : List Trade) : Prop :=
  history.Pairwise fun t u => t.id < u.id ∧ t.time ≤ u.time

/-- Of two trades the one with the larger id is not the earlier one. -/
theorem Chronological.time_le {history : List Trade} (h : Chronological history) {t u : Trade}
    (ht : t ∈ history) (hu : u ∈ history) (hid : t.id < u.id) : t.time ≤ u.time := by
  obtain ⟨i, hi, rfl⟩ := List.getElem_of_mem ht
  obtain ⟨j, hj, rfl⟩ := List.getElem_of_mem hu
  rcases lt_trichotomy i j with hij | rfl | hij
  · exact (List.pairwise_iff_getElem.1 h i j hi hj hij).2
  · exact le_rfl
  · exact absurd (List.pairwise_iff_getElem.1 h j i hj hi hij).1 hid.not_gt

/-- The default page of `my_trades`. -/
def defaultLimit : Nat := 1000

/-! ## The executor -/

namespace BinanceExecutor

/-- How the requests of one call are answered: the first, the second and so on. -/
abbrev Answers : Type := Nat → ExchangeSymbol → TradeQuery → Nat → Except Exn (List Trade)

variable (ask : Answers) (symbol : ExchangeSymbol) (pageLimit maxPages : Nat)

/-- The loop of `recent_fills`, with the pages that are left, those that have been read, the last
page and all trades so far. -/
def morePages : Nat → Nat → List Trade → List Trade → Except Exn (List Trade)
  | left, pages, rows, out =>
    if rows.length < pageLimit then .ok out
    else
      match left, rows.getLast? with
      | 0, _ => .error (.external "RuntimeError"
          s!"recent_fills exceeded {maxPages} pages; widen reconciliation cadence")
      | _ + 1, none => .error (.external "IndexError" "list index out of range")
      | left + 1, some last => do
        let rows ← ask pages symbol (.fromId (last.id + 1)) pageLimit
        morePages left (pages + 1) rows (out ++ rows)

/-- `recent_fills`, before its rows are normalised. -/
def recentTrades (sinceMs : Int) : Except Exn (List Trade) := do
  let rows ← ask 0 symbol (.startTime sinceMs) pageLimit
  morePages ask symbol pageLimit maxPages (maxPages - 1) 1 rows rows

/-- `recent_fills`: all account trades since `sinceMs`, oldest first. -/
def recentFills (account : String) (symbols : SymbolMap) (sinceMs : Int) :
    Except Exn (List ExchangeFill) := do
  let rows ← recentTrades ask symbol pageLimit maxPages sinceMs
  return rows.map fun t => Normalizer.restTradeFill t account symbols none

/-! ## Completeness -/

section
variable {ask : Answers} {symbol : ExchangeSymbol} {pageLimit maxPages : Nat} {sinceMs : Int}
  {histories : Nat → List Trade}

/-- The trades of a symbol from a time on. -/
def since (symbol : ExchangeSymbol) (sinceMs : Int) (history : List Trade) : List Trade :=
  history.filter fun t => decide (t.symbol = symbol) && decide (sinceMs ≤ t.time)

/-- The trade history of an account while it is read: it is chronological, and new trades appear at
its end. -/
structure Growing (histories : Nat → List Trade) : Prop where
  chronological : ∀ n, Chronological (histories n)
  grows : ∀ n, histories n <+: histories (n + 1)

theorem Growing.initial (h : Growing histories) (n : Nat) : histories 0 <+: histories n := by
  induction n with
  | zero => exact List.prefix_refl _
  | succ n ih => exact ih.trans (h.grows n)

theorem Growing.sorted (h : Growing histories) (n : Nat) :
    Keyset.Sorted Trade.id (since symbol sinceMs (histories n)) :=
  (List.Pairwise.imp (fun h => h.1) (h.chronological n)).filter _

/-- A request is answered from the history of its time, or fails. -/
def AnsweredFrom (ask : Answers) (histories : Nat → List Trade) : Prop :=
  ∀ n symbol q limit rows, ask n symbol q limit = .ok rows →
    rows = myTrades (histories n) symbol q limit

/-- From a trade at or after `sinceMs` on, the later ids are the later trades. -/
theorem fromId_eq {history : List Trade} {last : Trade} (h : Chronological history)
    (hlast : last ∈ since symbol sinceMs history) (limit : Nat) :
    myTrades history symbol (.fromId (last.id + 1)) limit =
      ((since symbol sinceMs history).filter fun t => last.id < t.id).take limit := by
  obtain ⟨hmem, htime⟩ := List.mem_filter.1 hlast
  rw [Bool.and_eq_true, decide_eq_true_iff, decide_eq_true_iff] at htime
  rw [myTrades, since, List.filter_filter]
  refine congrArg (List.take limit) (List.filter_congr fun t ht => ?_)
  by_cases hid : last.id < t.id
  · have hsince : sinceMs ≤ t.time := htime.2.trans (h.time_le hmem ht hid)
    simp only [TradeQuery.selects, Nat.succ_le_of_lt hid, hid, hsince, decide_true, Bool.and_true,
      Bool.true_and]
  · have hnot : ¬ last.id + 1 ≤ t.id := hid
    simp only [TradeQuery.selects, hnot, hid, decide_false, Bool.and_false, Bool.false_and]

/-- The loop ends with a page that is not full, or goes on behind the last trade of a full one. -/
theorem morePages_ok {left pages : Nat} {rows out res : List Trade}
    (h : morePages ask symbol pageLimit maxPages left pages rows out = .ok res) :
    (rows.length < pageLimit ∧ res = out) ∨
    ∃ left' last page, left = left' + 1 ∧ pageLimit ≤ rows.length ∧ rows.getLast? = some last ∧
      ask pages symbol (.fromId (last.id + 1)) pageLimit = .ok page ∧
      morePages ask symbol pageLimit maxPages left' (pages + 1) page (out ++ page) = .ok res := by
  unfold morePages at h
  split at h
  · next hshort =>
    cases h
    exact .inl ⟨hshort, rfl⟩
  · next hfull =>
    split at h
    · cases h
    · cases h
    · next left' last hlast =>
      cases hpage : ask pages symbol (.fromId (last.id + 1)) pageLimit with
      | error e =>
        rw [hpage] at h
        cases h
      | ok page =>
        rw [hpage] at h
        exact .inr ⟨left', last, page, rfl, not_lt.1 hfull, hlast, hpage, h⟩

/-- A page behind the last trade continues what has been read, up to the end if it is not full. -/
theorem next_page (hgrow : Growing histories) {n : Nat} {rows out : List Trade} {last : Trade}
    (hout : out <+: since symbol sinceMs (histories n)) (hrows : rows <:+ out)
    (hlast : rows.getLast? = some last) :
    let page := myTrades (histories (n + 1)) symbol (.fromId (last.id + 1)) pageLimit
    out ++ page <+: since symbol sinceMs (histories (n + 1)) ∧
      (page.length < pageLimit → out ++ page = since symbol sinceMs (histories (n + 1))) := by
  intro page
  have hmore : since symbol sinceMs (histories n) <+: since symbol sinceMs (histories (n + 1)) :=
    (hgrow.grows n).filter _
  have hend : out.getLast? = some last := by
    obtain ⟨before, rfl⟩ := hrows
    rw [List.getLast?_append, hlast, Option.some_or]
  have hmem : last ∈ since symbol sinceMs (histories (n + 1)) :=
    (hout.trans hmore).subset (List.mem_of_getLast? hend)
  have hpage : page = _ := fromId_eq (hgrow.chronological (n + 1)) hmem pageLimit
  rw [hpage]
  refine ⟨?_, Keyset.append_last (hgrow.sorted _) hout hmore hend⟩
  rw [Keyset.append_page (hgrow.sorted _) hout hmore hend]
  exact List.take_prefix _ _

/-- What the loop has read is a beginning of the trades there are, and all of them once a page is
not full. -/
theorem morePages_complete (hgrow : Growing histories) (hask : AnsweredFrom ask histories)
    {left n : Nat} {rows out res : List Trade}
    (hout : out <+: since symbol sinceMs (histories n)) (hrows : rows <:+ out)
    (hlast : rows.length < pageLimit → out = since symbol sinceMs (histories n))
    (hok : morePages ask symbol pageLimit maxPages left (n + 1) rows out = .ok res) :
    ∃ m, res = since symbol sinceMs (histories m) := by
  induction left generalizing n rows out with
  | zero =>
    rcases morePages_ok hok with ⟨hshort, rfl⟩ | ⟨left', -, -, hleft, -⟩
    · exact ⟨n, hlast hshort⟩
    · cases hleft
  | succ left ih =>
    rcases morePages_ok hok with ⟨hshort, rfl⟩ | ⟨left', last, page, hleft, -, hend, hpage, hrest⟩
    · exact ⟨n, hlast hshort⟩
    · obtain rfl := Nat.succ.inj hleft
      obtain rfl := hask _ _ _ _ _ hpage
      obtain ⟨hinit, hfinal⟩ := next_page hgrow hout hrows hend
      exact ih hinit (List.suffix_append _ _) hfinal hrest

theorem recentTrades_complete (hgrow : Growing histories) (hask : AnsweredFrom ask histories)
    {res : List Trade}
    (hok : recentTrades ask symbol pageLimit maxPages sinceMs = .ok res) :
    ∃ m, res = since symbol sinceMs (histories m) := by
  unfold recentTrades at hok
  cases hpage : ask 0 symbol (.startTime sinceMs) pageLimit with
  | error e =>
    rw [hpage] at hok
    cases hok
  | ok page =>
    rw [hpage] at hok
    obtain rfl : page = (since symbol sinceMs (histories 0)).take pageLimit := hask _ _ _ _ _ hpage
    exact morePages_complete hgrow hask (List.take_prefix _ _) (List.suffix_refl _)
      Keyset.take_eq_self hok

/-- `recent_fills` returns every trade since then, in the order of the ids, or it raises; trades that
appear while it reads are read as well or not, and nothing else changes. -/
theorem recentFills_complete (hgrow : Growing histories) (hask : AnsweredFrom ask histories)
    {account : String} {symbols : SymbolMap} {fills : List ExchangeFill}
    (hok : recentFills ask symbol pageLimit maxPages account symbols sinceMs = .ok fills) :
    ∃ m, histories 0 <+: histories m ∧ Chronological (histories m) ∧
      fills = (since symbol sinceMs (histories m)).map fun t =>
        Normalizer.restTradeFill t account symbols none := by
  unfold recentFills at hok
  cases hrows : recentTrades ask symbol pageLimit maxPages sinceMs with
  | error e =>
    rw [hrows] at hok
    cases hok
  | ok rows =>
    rw [hrows] at hok
    cases hok
    obtain ⟨m, rfl⟩ := recentTrades_complete hgrow hask hrows
    exact ⟨m, hgrow.initial m, hgrow.chronological m, rfl⟩

/-- Where every request is answered, the loop raises only when all pages have been full. -/
theorem morePages_full (hgrow : Growing histories)
    (hask : ∀ n q, ask n symbol q pageLimit = .ok (myTrades (histories n) symbol q pageLimit))
    (hlimit : 0 < pageLimit) {left n : Nat} {rows out : List Trade} {e : Exn}
    (hout : out <+: since symbol sinceMs (histories n)) (hrows : rows <:+ out)
    (hfull : pageLimit ≤ rows.length → (n + 1) * pageLimit ≤ out.length)
    (herror : morePages ask symbol pageLimit maxPages left (n + 1) rows out = .error e) :
    ∃ m, (n + left + 1) * pageLimit ≤ (since symbol sinceMs (histories m)).length := by
  induction left generalizing n rows out with
  | zero =>
    unfold morePages at herror
    split at herror
    · cases herror
    · next h => exact ⟨n, (hfull (not_lt.1 h)).trans hout.length_le⟩
  | succ left ih =>
    unfold morePages at herror
    split at herror
    · cases herror
    next h =>
    split at herror
    · next hleft => cases hleft
    · next hnone =>
      rw [List.getLast?_eq_none_iff.1 hnone] at h
      exact absurd hlimit h
    · next left' last hleft hlast =>
      obtain rfl := Nat.succ.inj hleft
      rw [hask] at herror
      have hnext : pageLimit ≤ (myTrades (histories (n + 1)) symbol (.fromId (last.id + 1))
          pageLimit).length → (n + 1 + 1) * pageLimit ≤ (out ++ myTrades (histories (n + 1)) symbol
            (.fromId (last.id + 1)) pageLimit).length := by
        intro hpage
        rw [List.length_append, Nat.succ_mul (n + 1)]
        exact Nat.add_le_add (hfull (not_lt.1 h)) hpage
      obtain ⟨m, hm⟩ := ih (next_page hgrow hout hrows hlast).1 (List.suffix_append _ _) hnext herror
      exact ⟨m, by rwa [Nat.add_right_comm n 1 left] at hm⟩

/-- `recent_fills` returns unless there are as many trades as all pages hold. -/
theorem recentTrades_returns (hgrow : Growing histories)
    (hask : ∀ n q, ask n symbol q pageLimit = .ok (myTrades (histories n) symbol q pageLimit))
    (hlimit : 0 < pageLimit) (hpages : 0 < maxPages)
    (hfew : ∀ n, (since symbol sinceMs (histories n)).length < maxPages * pageLimit) :
    ∃ res, recentTrades ask symbol pageLimit maxPages sinceMs = .ok res := by
  cases hres : recentTrades ask symbol pageLimit maxPages sinceMs with
  | ok res => exact ⟨res, rfl⟩
  | error e =>
    unfold recentTrades at hres
    rw [hask] at hres
    obtain ⟨m, hm⟩ := morePages_full hgrow hask hlimit (List.take_prefix _ _) (List.suffix_refl _)
      (fun h => by simpa using h) hres
    have hcap : 0 + (maxPages - 1) + 1 = maxPages := by omega
    rw [hcap] at hm
    exact absurd hm (not_le.2 (hfew m))

end

end BinanceExecutor

/-! ## A sample account -/

/-- A trade of the sample account at a minute of the first of January 2025. -/
def sampleTradeRow (id : Nat) (minute : Int) : Trade where
  id := id
  orderId := 4711
  symbol := ⟨"BTCUSDT", btcusdt_free⟩
  qty := 1 / 10
  price := 100
  quoteQty := 10
  commission := 0
  commissionAsset := none
  time := 1735689600000 + minute * 60000
  isBuyer := true

/-- Four trades, and a fifth that appears behind the first page. -/
def sampleHistories : Nat → List Trade
  | 0 => [sampleTradeRow 7 0, sampleTradeRow 8 1, sampleTradeRow 9 2, sampleTradeRow 12 2]
  | _ => [sampleTradeRow 7 0, sampleTradeRow 8 1, sampleTradeRow 9 2, sampleTradeRow 12 2,
      sampleTradeRow 13 3]

theorem sampleHistories_growing : BinanceExecutor.Growing sampleHistories where
  chronological n := by
    rcases n with _ | n <;>
    · unfold Chronological sampleHistories sampleTradeRow
      simp
  grows n := by
    rcases n with _ | n
    · exact ⟨[sampleTradeRow 13 3], rfl⟩
    · exact List.prefix_refl _

/-- The account read in pages of two from the second trade on. -/
def sampleRead : Except Exn (List ExchangeFill) :=
  BinanceExecutor.recentFills
    (fun n symbol q limit => .ok (myTrades (sampleHistories n) symbol q limit))
    ⟨"BTCUSDT", btcusdt_free⟩ 2 50 "main" ⟨fun _ => ⟨"BTC", "USDT"⟩⟩ 1735689660000

theorem recentFills_sample :
    ∃ fills, sampleRead = .ok fills ∧ fills.map (·.exchangeTradeId) = ["8", "9", "12", "13"] ∧
      ∃ m, fills = (BinanceExecutor.since ⟨"BTCUSDT", by decide⟩ 1735689660000
        (sampleHistories m)).map fun t =>
          Normalizer.restTradeFill t "main" ⟨fun _ => ⟨"BTC", "USDT"⟩⟩ none := by
  have hread : sampleRead.map (List.map (·.exchangeTradeId)) = .ok ["8", "9", "12", "13"] := by
    decide +kernel
  cases hfills : sampleRead with
  | error e =>
    rw [hfills] at hread
    cases hread
  | ok fills =>
    rw [hfills] at hread
    obtain ⟨m, -, -, hm⟩ := BinanceExecutor.recentFills_complete sampleHistories_growing
      (fun _ _ _ _ _ h => (Except.ok.inj h).symm) hfills
    exact ⟨fills, rfl, Except.ok.inj hread, m, hm⟩

end CryptoBot
