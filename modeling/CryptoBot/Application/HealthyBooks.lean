import CryptoBot.Application.RunAlone
import CryptoBot.Application.Conflicts
import CryptoBot.Application.PositionLaws
import CryptoBot.Exchanges.OrderFills
import CryptoBot.Execution.Paper

/-!
# What HEALTHY says about the books

A run that nothing interferes with checks the fills of the newest orders, then rebuilds the
position. Each check speaks about the moment it is made: the fills of an order checked earlier stay
as they are, because a later download records fills of its own order only, and rebuilding the
position changes neither orders nor fills.
-/

namespace CryptoBot

open Lib OrderService ReconciliationService

variable {cfg : Config} {ans : Answers Ledger Label Ans} {h h' : History Label Ans}
  {s s' : Ledger} {t t' : Findings}

/-- The executor names its order in every execution it returns for one. -/
def OwnFills (ans : Answers Ledger Label Ans) : Prop :=
  ∀ h s o xfs, ans h (.call (.queryFills o)) s (.ok xfs) →
    ∀ xf ∈ xfs, xf.clientOrderId.filter (· ≠ "") = some o.clientOrderId

/-- The recorded fills explain what has been executed. -/
def Explained (tolerance : ℚ) (s : Ledger) (o : Order) : Prop :=
  0 < o.executedQuantity → o.status ≠ .submitting →
    |s.fillQuantity o - o.executedQuantity| ≤ tolerance

/-! ## Executors that name the order -/

theorem BinanceExecutor.queryFills_own {ask : BinanceExecutor.Answers}
    {exchange : Symbol → ExchangeSymbol} {account : String} {symbols : SymbolMap} {o : Order}
    {xfs : List ExchangeFill} (hname : o.clientOrderId ≠ "")
    (h : BinanceExecutor.queryFills ask exchange account symbols o = .ok xfs) :
    ∀ xf ∈ xfs, xf.clientOrderId.filter (· ≠ "") = some o.clientOrderId := by
  intro xf hxf
  unfold BinanceExecutor.queryFills at h
  split at h
  · cases h
    cases hxf
  · split at h
    · cases h
      cases hxf
    · next orderId _ _ =>
      cases hrows : ask 0 (exchange o.symbol) (.byOrder orderId) defaultLimit with
      | error e =>
        rw [hrows] at h
        cases h
      | ok rows =>
        rw [hrows] at h
        obtain rfl := Except.ok.inj h
        obtain ⟨t, -, rfl⟩ := List.mem_map.1 hxf
        exact Option.filter_eq_some_iff.2 ⟨rfl, decide_eq_true hname⟩

/-- The rows of the simulated book are kept under the names of their orders. -/
def PaperBook.Named (book : PaperBook) : Prop := ∀ c r, book c = some r → r.clientOrderId = c

theorem PaperBook.Named.submit {book : PaperBook} (hbook : book.Named) {feeRate : ℚ} {o : Order}
    {rules : SymbolRules} {nowMs : Int} :
    PaperBook.Named (PaperExecutor.submit feeRate o rules nowMs book).2 := by
  rcases @PaperExecutor.submit_cases feeRate o rules nowMs book with
    ⟨-, -, hsame⟩ | ⟨price, -, -, -, -, hnew⟩
  · rw [hsame]
    exact hbook
  · intro c r hr
    rw [hnew] at hr
    dsimp only at hr
    by_cases hc : c = o.clientOrderId
    · subst hc
      rw [Function.update_self] at hr
      obtain rfl := Option.some.inj hr
      rfl
    · rw [Function.update_of_ne hc] at hr
      exact hbook c r hr

theorem PaperExecutor.queryFills_own {book : PaperBook} (hbook : book.Named) {o : Order}
    (hname : o.clientOrderId ≠ "") : ∀ xf ∈ PaperExecutor.queryFills o book,
      xf.clientOrderId.filter (· ≠ "") = some o.clientOrderId := by
  intro xf hxf
  unfold PaperExecutor.queryFills at hxf
  cases hr : book o.clientOrderId with
  | none =>
    rw [hr] at hxf
    cases hxf
  | some r =>
    rw [hr] at hxf
    obtain rfl := List.mem_singleton.1 hxf
    exact Option.filter_eq_some_iff.2
      ⟨congrArg some (hbook _ r hr), decide_eq_true ((hbook _ r hr).symm ▸ hname)⟩

/-- Both executors name their order, whatever the exchange answers, as long as it has a name. -/
theorem ownFills_of_executor {ans : Answers Ledger Label Ans}
    (hans : ∀ h s o xfs, ans h (.call (.queryFills o)) s (.ok xfs) → o.clientOrderId ≠ "" ∧
      ((∃ ask exchange account symbols,
        BinanceExecutor.queryFills ask exchange account symbols o = .ok xfs) ∨
       ∃ book : PaperBook, book.Named ∧ xfs = PaperExecutor.queryFills o book)) : OwnFills ans := by
  intro h s o xfs ha
  obtain ⟨hname, ⟨ask, exchange, account, symbols, hxfs⟩ | ⟨book, hbook, rfl⟩⟩ := hans h s o xfs ha
  · exact BinanceExecutor.queryFills_own hname hxfs
  · exact PaperExecutor.queryFills_own hbook hname

/-! ## The fills of one order -/

/-- Executions of `o` are recorded as fills of `o`, and change no order. -/
theorem ingestFillTx_own {o : Order} {xf : ExchangeFill} {now : Time} {b : Bool}
    (ho : o ∈ s.orders.rows) (hxf : xf.clientOrderId.filter (· ≠ "") = some o.clientOrderId)
    (h : ingestFillTx cfg xf now s = .ok (b, s')) :
    s'.orders = s.orders ∧ ∀ x ∈ s.orders.rows, x ≠ o → s'.fillQuantity x = s.fillQuantity x := by
  refine ⟨ingestFillTx_orders h, fun x hx hne => ?_⟩
  have hfound {y : Order}
      (hf : findOrder cfg s (xf.clientOrderId.filter (· ≠ "")) xf.exchangeOrderId = some y) :
      y = o := by
    rw [hxf, findOrder_of_clientOrderId (Ledger.getOrder_of_mem ho)] at hf
    exact (Option.some.inj hf).symm
  rcases ingestFillTx_cases h with ⟨-, rfl⟩ | ⟨y, hf, ⟨rfl, -⟩ | ⟨f, hrow, hfilled⟩⟩
  · rfl
  · rfl
  · obtain rfl := hfound hf
    have hid : f.orderId ≠ x.id := by
      rw [hrow]
      exact fun hid => hne (Ledger.eq_of_id hx ho hid.symm)
    simp [Ledger.fillQuantity, Ledger.fillsForOrder, hfilled.rows, hid]

theorem recorded_own {o : Order} {xfs : List ExchangeFill} (ho : o ∈ s.orders.rows)
    (hxfs : ∀ xf ∈ xfs, xf.clientOrderId.filter (· ≠ "") = some o.clientOrderId)
    (h : Recorded cfg xfs s s') :
    s'.orders = s.orders ∧ ∀ x ∈ s.orders.rows, x ≠ o → s'.fillQuantity x = s.fillQuantity x := by
  induction h with
  | nil => exact ⟨rfl, fun _ _ _ => rfl⟩
  | cons hx _ ih =>
    obtain ⟨hxf, hxfs⟩ := List.forall_mem_cons.1 hxfs
    obtain ⟨horders, hfills⟩ := ingestFillTx_own ho hxf hx
    obtain ⟨horders', hfills'⟩ := ih (horders ▸ ho) hxfs
    refine ⟨horders'.trans horders, fun x hx hne => ?_⟩
    rw [hfills' x (horders ▸ hx) hne, hfills x hx hne]

/-- A download of the executions of `o` touches the fills of `o` only. -/
theorem ends_ingestOrderFills {o : Order} {r : Except Exn Unit} (hown : OwnFills ans)
    (ho : o ∈ s.orders.rows)
    (hrun : Proc.Ends ans (ingestOrderFills cfg (some o)) h s r h' s') :
    s'.orders = s.orders ∧ ∀ x ∈ s.orders.rows, x ≠ o → s'.fillQuantity x = s.fillQuantity x := by
  cases hrun.post ((sequential_alone ans).wp_ingestOrderFills (some o)) with
  | skipped => exact ⟨rfl, fun _ _ _ => rfl⟩
  | failed => exact ⟨rfl, fun _ _ _ => rfl⟩
  | recorded ha _ hr =>
    obtain ⟨h₀, ha⟩ := ha
    exact recorded_own ho (hown h₀ s o _ ha) hr

/-! ## The check of the fills -/

/-- The check of one order: afterwards its fills explain it, unless a mismatch has been found. -/
theorem ends_checkFillsComplete {o : Order} {tolerance : ℚ} (hown : OwnFills ans)
    (ho : o ∈ s.orders.rows)
    (hrun : LProc.Ends ans (checkFillsComplete cfg tolerance o) t h s (.ok ⟨⟩) t' h' s') :
    s'.orders = s.orders ∧ (∀ x ∈ s.orders.rows, x ≠ o → s'.fillQuantity x = s.fillQuantity x) ∧
      t.Grown t' ∧ (t'.Clean → Explained tolerance s' o) := by
  unfold checkFillsComplete at hrun
  split at hrun
  · next hskip =>
    obtain ⟨⟨-, rfl⟩, -, rfl⟩ := (LProc.ends_pure _ _).1 hrun
    refine ⟨rfl, fun _ _ _ => rfl, .rfl, fun _ hpos hstatus => ?_⟩
    exact absurd hskip (not_or.2 ⟨not_le.2 hpos, hstatus⟩)
  · rw [LProc.ends_exec_bind_ok] at hrun
    obtain ⟨have_, _, _, hq, hrun⟩ := hrun
    obtain ⟨hval, rfl, rfl⟩ := (ends_query _ _ _).1 hq
    cases hval
    split at hrun
    · rw [LProc.ends_exec_bind_ok] at hrun
      obtain ⟨_, _, s₁, hdown, hrun⟩ := hrun
      obtain ⟨horders, hothers⟩ := ends_ingestOrderFills hown ho hdown
      rw [LProc.ends_exec_bind_ok] at hrun
      obtain ⟨_, _, _, hq, hrun⟩ := hrun
      obtain ⟨hval, rfl, rfl⟩ := (ends_query _ _ _).1 hq
      cases hval
      split at hrun
      · obtain ⟨-, -, rfl⟩ := (LProc.ends_assign _ _).1 hrun
        exact ⟨horders, hothers, growing_report _ _ _ _ _ hrun,
          fun hclean => absurd hclean (not_clean_report hrun)⟩
      · next hle =>
        obtain ⟨⟨-, rfl⟩, -, rfl⟩ := (LProc.ends_pure _ _).1 hrun
        exact ⟨horders, hothers, .rfl, fun _ _ _ => not_lt.1 hle⟩
    · next hle =>
      obtain ⟨⟨-, rfl⟩, -, rfl⟩ := (LProc.ends_pure _ _).1 hrun
      exact ⟨rfl, fun _ _ _ => rfl, .rfl, fun _ _ _ => not_lt.1 hle⟩

/-- The loop over the newest orders: what has been explained stays so. -/
theorem explained_of_trail {os : List Order} {tolerance : ℚ} (hown : OwnFills ans)
    (hos : ∀ o ∈ os, o ∈ s.orders.rows)
    (hrun : LProc.Trail ans (checkFillsComplete cfg tolerance) os t h s (.ok ⟨⟩) t' h' s') :
    s'.orders = s.orders ∧ t.Grown t' ∧ (t'.Clean → ∀ o ∈ os, Explained tolerance s' o) := by
  let I (rest : List Order) (u : Findings) (_ : History Label Ans) (v : Ledger) : Prop :=
    v.orders = s.orders ∧ t.Grown u ∧ rest ⊆ os ∧
      (u.Clean → ∀ o ∈ os, o ∉ rest → Explained tolerance v o)
  have hI : I [] t' h' s' := by
    refine hrun.invariant I ?_ rfl ⟨rfl, .rfl, List.Subset.refl _, fun _ o ho hn => absurd ho hn⟩
    rintro o rest u h₁ v u' h₂ v' ⟨horders, hgrown, hrest, hdone⟩ hcheck
    obtain ⟨horders', hothers, hgrown', hexplained⟩ :=
      ends_checkFillsComplete hown (horders ▸ hos o (hrest (.head _))) hcheck
    refine ⟨horders'.trans horders, hgrown.trans hgrown', fun x hx => hrest (.tail _ hx), ?_⟩
    intro hclean x hx hn
    by_cases heq : x = o
    · exact heq ▸ hexplained hclean
    · -- an order checked before: its fills have not been touched
      have hbefore := hdone (hclean.of_grown hgrown') x hx (by simp [heq, hn])
      rw [Explained, hothers x (horders ▸ hos x hx) heq]
      exact hbefore
  obtain ⟨horders, hgrown, -, hall⟩ := hI
  exact ⟨horders, hgrown, fun hclean o ho => hall hclean o ho List.not_mem_nil⟩

/-! ## The check of the position -/

/-- A comparison that finds nothing critical. -/
theorem ends_comparePosition {tolerance baseTotal : ℚ} {before rebuilt : Position}
    {anomalies : List Anomaly} {r : Except Exn Unit} (hclean : t'.Clean)
    (hrun : LProc.Ends ans (comparePosition tolerance before rebuilt anomalies baseTotal) t h s
      r t' h' s') :
    anomalies = [] ∧ rebuilt.quantity - baseTotal ≤ tolerance ∧ s' = s := by
  have hbalance {u : Findings} {h₁ : History Label Ans} {v : Ledger} (hu : LProc.Ends ans
      (if tolerance < rebuilt.quantity - baseTotal then
        report .balanceBelowPosition .critical none (.quantities rebuilt.quantity baseTotal)
      else pure ⟨⟩ : RunM Unit) u h₁ v r t' h' s') :
      rebuilt.quantity - baseTotal ≤ tolerance ∧ s' = v := by
    split at hu
    · exact absurd hclean (not_clean_report hu)
    · next hle =>
      obtain ⟨-, -, rfl⟩ := (LProc.ends_pure _ _).1 hu
      exact ⟨not_lt.1 hle, rfl⟩
  have hrest {u : Findings} {h₁ : History Label Ans} {v : Ledger} (hu : LProc.Ends ans (do
      anomalies.forM fun a => report .positionAnomaly .critical none (.anomaly a)
      if tolerance < rebuilt.quantity - baseTotal then
        report .balanceBelowPosition .critical none (.quantities rebuilt.quantity baseTotal) :
          RunM Unit) u h₁ v r t' h' s') :
      anomalies = [] ∧ rebuilt.quantity - baseTotal ≤ tolerance ∧ s' = v := by
    rw [LProc.ends_bind] at hu
    rcases hu with ⟨_, u₁, h₂, v₁, hloop, hu⟩ | ⟨e, hloop, -⟩
    · cases LProc.ends_forM hloop with
      | nil => exact ⟨rfl, hbalance hu⟩
      | cons ha has =>
        -- the first anomaly is among the findings at the end
        refine absurd (hclean.of_grown ?_) (not_clean_report ha)
        refine (Trail.grown (fun _ => growing_report ..) has).trans ?_
        split at hu
        · exact growing_report _ _ _ _ _ hu
        · exact growing_pure _ hu
    · cases LProc.ends_forM hloop with
      | cons ha has =>
        exact absurd (hclean.of_grown (Trail.grown (fun _ => growing_report ..) has))
          (not_clean_report ha)
      | stop _ ha => exact absurd hclean (not_clean_report ha)
  unfold comparePosition at hrun
  dsimp only at hrun
  split at hrun
  · rw [LProc.ends_bind] at hrun
    rcases hrun with ⟨_, u₁, h₂, v₁, hreport, hrun⟩ | ⟨e, hreport, -⟩
    · obtain ⟨-, -, rfl⟩ := (LProc.ends_assign _ _).1 hreport
      exact hrest hrun
    · cases ((LProc.ends_assign _ _).1 hreport).1.1
  · exact hrest hrun

/-- The fold of the recorded fills of a bot on a symbol in execution order, at the mark price of
the stored position. -/
def Ledger.folded (s : Ledger) (bot : String) (symbol : Symbol) : Position × List Anomaly :=
  PositionService.replay
    { bot, symbol, lastMarkPrice := (s.getPosition bot symbol).lastMarkPrice } (s.fillsOf bot symbol)

/-- The stored position is the fold of the recorded fills. The stop price of an open position is
the trading worker's, not the fold's. -/
def Ledger.PositionFolded (s : Ledger) (bot : String) (symbol : Symbol) : Prop :=
  let p := s.getPosition bot symbol
  let res := (s.folded bot symbol).1
  p = { res with
    stopPrice := if 0 < res.quantity then p.stopPrice else res.stopPrice, updatedAt := p.updatedAt }

/-- The rebuild stores the fold of the recorded fills. -/
theorem ends_rebuild {res : Position × List Anomaly}
    (hrun : Proc.Ends ans (rebuild cfg) h s (.ok res) h' s') :
    s'.orders = s.orders ∧ s'.fills = s.fills ∧ s'.getPosition cfg.bot cfg.symbol = res.1 ∧
      s'.PositionFolded cfg.bot cfg.symbol ∧ res.2 = (s'.folded cfg.bot cfg.symbol).2 := by
  unfold rebuild at hrun
  rw [Proc.ends_bind_ok] at hrun
  obtain ⟨existing, _, _, hq, hrun⟩ := hrun
  obtain ⟨hval, rfl, rfl⟩ := (ends_query _ _ _).1 hq
  cases hval
  rw [Proc.ends_bind_ok] at hrun
  obtain ⟨fills, _, _, hq, hrun⟩ := hrun
  obtain ⟨hval, rfl, rfl⟩ := (ends_query _ _ _).1 hq
  cases hval
  dsimp only at hrun
  rw [Proc.ends_bind_ok] at hrun
  obtain ⟨now, _, v, hnow, hrun⟩ := hrun
  obtain ⟨_, hval, -, rfl, rfl⟩ := ends_clockNow hnow
  cases hval
  rw [Proc.ends_bind_ok] at hrun
  obtain ⟨p, _, _, htx, hrun⟩ := hrun
  obtain ⟨hval, rfl, rfl⟩ := (Proc.ends_pure _ _).1 hrun
  cases hval
  obtain ⟨-, ⟨q, htx, hval⟩ | ⟨_, _, hval, -⟩⟩ := ends_transaction htx
  · cases hval
    obtain ⟨rfl, hpositions, hrest⟩ := Store.savePosition_ok htx
    have hkey := PositionService.rebuilt_key (v.getPosition cfg.bot cfg.symbol) cfg.bot cfg.symbol
      (v.fillsOf cfg.bot cfg.symbol)
    have horders : s'.orders = v.orders := (congrArg Ledger.orders hrest :)
    have hfills : s'.fills = v.fills := (congrArg Ledger.fills hrest :)
    have hstored := Ledger.getPosition_upsert_self hpositions hkey.1 hkey.2
    have hfolded : s'.folded cfg.bot cfg.symbol = PositionService.replay
        { bot := cfg.bot, symbol := cfg.symbol,
          lastMarkPrice := (v.getPosition cfg.bot cfg.symbol).lastMarkPrice }
        (v.fillsOf cfg.bot cfg.symbol) := by
      have hmark : (s'.getPosition cfg.bot cfg.symbol).lastMarkPrice =
          (v.getPosition cfg.bot cfg.symbol).lastMarkPrice := by
        rw [hstored]
        exact PositionService.rebuilt_lastMarkPrice ..
      rw [Ledger.folded, hmark, Ledger.fillsOf, horders, hfills, Ledger.fillsOf]
    refine ⟨horders, hfills, hstored, ?_, by rw [hfolded, PositionService.rebuilt]⟩
    rw [Ledger.PositionFolded, hfolded, hstored, PositionService.rebuilt]
    dsimp only
    split <;> rfl
  · cases hval

/-- The books are sound: the position is the fold of the fills, without anomaly and covered by the
balance, and the fills explain the newest orders. -/
structure BooksSound (cfg : Config) (tolerance baseTotal : ℚ) (s : Ledger) : Prop where
  position : s.PositionFolded cfg.bot cfg.symbol
  anomalies : (s.folded cfg.bot cfg.symbol).2 = []
  balance : (s.getPosition cfg.bot cfg.symbol).quantity - baseTotal ≤ tolerance
  fills : ∀ o ∈ s.newestOrders cfg.bot cfg.symbol 100, Explained tolerance s o

/-- What has no part in orders, fills and positions leaves sound books sound. -/
theorem BooksSound.aside {tolerance baseTotal : ℚ} (hs : BooksSound cfg tolerance baseTotal s)
    (h : Aside s s') : BooksSound cfg tolerance baseTotal s' := by
  have hposition := Ledger.getPosition_congr h.positions cfg.bot cfg.symbol
  have hfolded : s'.folded cfg.bot cfg.symbol = s.folded cfg.bot cfg.symbol := by
    rw [Ledger.folded, hposition, Ledger.fillsOf, h.orders, h.fills, Ledger.folded, Ledger.fillsOf]
  refine ⟨?_, hfolded ▸ hs.anomalies, hposition ▸ hs.balance, fun o ho => ?_⟩
  · rw [Ledger.PositionFolded, hfolded, hposition]
    exact hs.position
  · rw [Ledger.newestOrders, h.orders] at ho
    rw [Explained, Ledger.fillQuantity_congr h.fills rfl]
    exact hs.fills o ho

theorem ends_checkProtectiveStop {rules : SymbolRules} {p : Position} {r : Except Exn Unit}
    (hrun : LProc.Ends ans (checkProtectiveStop cfg rules p) t h s r t' h' s') : s' = s := by
  unfold checkProtectiveStop at hrun
  split at hrun
  · rw [LProc.ends_bind] at hrun
    rcases hrun with ⟨_, _, _, _, hq, hrun⟩ | ⟨_, hq, -⟩
    · obtain ⟨-, hq⟩ := (LProc.ends_exec _ _).1 hq
      obtain ⟨-, -, rfl⟩ := (ends_query _ _ _).1 hq
      split at hrun
      · exact ((LProc.ends_assign _ _).1 hrun).2.2
      · exact ((LProc.ends_pure _ _).1 hrun).2.2
    · obtain ⟨-, hq⟩ := (LProc.ends_exec _ _).1 hq
      exact ((ends_query _ _ _).1 hq).2.2
  · exact ((LProc.ends_pure _ _).1 hrun).2.2

theorem ends_checkPosition {runKey : RunKey} {rules : SymbolRules} {tolerance : ℚ}
    (hrun : LProc.Ends ans (checkPosition cfg runKey rules tolerance) t h s (.ok ⟨⟩) t' h' s') :
    ∃ balances, .call (.call .balances) (.ok balances) ∈ h' ∧
      (t'.Clean → (∀ o ∈ s.newestOrders cfg.bot cfg.symbol 100, Explained tolerance s o) →
        BooksSound cfg tolerance (balances.total rules.baseAsset) s') := by
  unfold checkPosition at hrun
  rw [LProc.ends_exec_bind_ok] at hrun
  obtain ⟨balances, _, _, hcall, hrun⟩ := hrun
  obtain ⟨-, rfl, rfl⟩ := ends_call_ok hcall
  refine ⟨balances, hrun.suffix.subset (.head _), fun hclean hexplained => ?_⟩
  rw [LProc.ends_exec_bind_ok] at hrun
  obtain ⟨before, _, _, hq, hrun⟩ := hrun
  obtain ⟨hval, rfl, rfl⟩ := (ends_query _ _ _).1 hq
  cases hval
  rw [LProc.ends_exec_bind_ok] at hrun
  obtain ⟨res, h₁, s₁, hrebuild, hrun⟩ := hrun
  obtain ⟨horders, hfills, hstored, hposition, hanomalies⟩ := ends_rebuild hrebuild
  dsimp only at hrun
  rw [LProc.ends_bind_ok] at hrun
  obtain ⟨_, t₁, h₂, s₂, hcompare, hrun⟩ := hrun
  rw [LProc.ends_exec_bind_ok] at hrun
  obtain ⟨_, h₃, s₃, hset, hrun⟩ := hrun
  rw [LProc.ends_exec_bind_ok] at hrun
  obtain ⟨now, h₄, s₄, hnow, hrun⟩ := hrun
  rw [LProc.ends_exec_bind_ok] at hrun
  obtain ⟨_, h₅, s₅, henqueue, hstop⟩ := hrun
  obtain ⟨hnone, hcovered, rfl⟩ :=
    ends_comparePosition (hclean.of_grown (growing_checkProtectiveStop _ _ hstop)) hcompare
  have hbooks : BooksSound cfg tolerance (balances.total rules.baseAsset) s₂ := by
    refine ⟨hposition, hanomalies ▸ hnone, hstored ▸ hcovered, fun o ho => ?_⟩
    rw [Ledger.newestOrders, horders] at ho
    rw [Explained, Ledger.fillQuantity_congr hfills rfl]
    exact hexplained o ho
  have hset : Aside s₂ s₃ := by
    obtain ⟨-, ⟨_, htx, -⟩ | ⟨_, htx, -⟩⟩ := ends_transaction hset
    · cases htx
      exact ⟨rfl, rfl, rfl, rfl, rfl⟩
    · cases htx
  obtain ⟨_, -, -, -, rfl⟩ := ends_clockNow hnow
  obtain ⟨-, -, henqueue⟩ := ends_enqueue ⟨by decide, by decide⟩ henqueue
  obtain rfl := ends_checkProtectiveStop hstop
  exact (hbooks.aside hset).aside henqueue

/-! ## A run -/

/-- A try block that returns and has found nothing critical leaves sound books. -/
theorem Completed.booksSound {runKey : RunKey} {last : Option Time} {f : Findings}
    (hown : OwnFills ans) (hrun : Completed ans cfg runKey last h s f h' s') (hclean : f.Clean) :
    ∃ rules balances, .call (.call (.symbolRules cfg.symbol)) (.ok rules) ∈ h' ∧
      .call (.call .balances) (.ok balances) ∈ h' ∧
      BooksSound cfg (max rules.stepSize (1 / 100000000)) (balances.total rules.baseAsset) s' := by
  obtain ⟨hrules, -, -, -, -, -, -, hcomplete, hposition⟩ := hrun
  obtain ⟨balances, hbalances, hsound⟩ := ends_checkPosition hposition
  refine ⟨_, balances, hrules, hbalances, hsound hclean fun o ho => ?_⟩
  obtain ⟨horders, -, hexplained⟩ :=
    explained_of_trail hown (fun o ho => Ledger.mem_of_newestOrders ho) hcomplete
  rw [Ledger.newestOrders, horders] at ho
  exact hexplained (hclean.of_grown (growing_checkPosition _ _ _ hposition)) o ho

/-- A run that nothing interferes with and that ends HEALTHY leaves sound books: the stored position
is the fold of the recorded fills, without anomaly, it exceeds the base balance of the exchange by
at most the tolerance, and the fills of the newest orders explain what they have executed. -/
theorem healthy_books (cfg : Config) (env : Prog.Env Label Ans)
    (hown : ∀ h o xfs, env h (.call (.queryFills o)) = .ok xfs →
      ∀ xf ∈ xfs, xf.clientOrderId.filter (· ≠ "") = some o.clientOrderId)
    (reason : String) (operatorAck : Bool) (s : Ledger) :
    let out := Prog.run env (ReconciliationService.run cfg reason operatorAck).run [] s
    ∀ result, out.1 = .ok result → result.status = .healthy →
      ∃ rules balances, .call (.call (.symbolRules cfg.symbol)) (.ok rules) ∈ out.2.1 ∧
        .call (.call .balances) (.ok balances) ∈ out.2.1 ∧
        BooksSound cfg (max rules.stepSize (1 / 100000000)) (balances.total rules.baseAsset)
          out.2.2 := by
  intro out result hresult hhealthy
  have hrun := Proc.ends_run env (ReconciliationService.run cfg reason operatorAck) [] s
  rw [hresult] at hrun
  cases ends_run hrun with
  | intro _ _ hbody haside hconclude hend =>
    obtain ⟨rfl, hclean, -⟩ := of_healthy hhealthy
    obtain ⟨rules, balances, hrules, hbalances, hsound⟩ :=
      (ends_body hbody).booksSound (fun h _ o xfs ha => hown h o xfs ha.symm) hclean
    exact ⟨rules, balances, hend.mem (.tail _ (hconclude.mem hrules)),
      hend.mem (.tail _ (hconclude.mem hbalances)), hsound.aside haside⟩

/-! ## A missed execution -/

/-- The ledger of an entry that rests on the exchange. -/
def restingLedger : Ledger where
  orders := ⟨[{ sampleRow sampleEntry .buy 1 "4711" with status := .new, executedQuantity := 0 }],
    List.pairwise_singleton _ _⟩

/-- An exchange that has filled the entry. -/
def filledEntry : (r : Req) → Except Exn r.Val
  | .queryOrder o =>
    let r := sampleReport sampleEntry .buy .filled 2
    .ok (if r.clientOrderId = o.clientOrderId then some r else none)
  | .queryFills o =>
    let xf := sampleFill sampleEntry .buy "1" 2
    .ok (if xf.clientOrderId = some o.clientOrderId then [xf] else [])
  | .balances => .ok ⟨[("BTC", ⟨2, 0⟩)]⟩
  | r => listing (.ok []) r

/-- The run that finds the execution ends HEALTHY, with the position of the fill. -/
theorem recovered_books :
    let out := Prog.run (exchangeEnv filledEntry)
      (ReconciliationService.run sampleConfig "periodic" false).run [] restingLedger
    (out.2.2.getPosition "default" ⟨"BTC", "USDT"⟩).quantity = 2 ∧
      ∃ rules balances, .call (.call (.symbolRules ⟨"BTC", "USDT"⟩)) (.ok rules) ∈ out.2.1 ∧
        .call (.call .balances) (.ok balances) ∈ out.2.1 ∧
        BooksSound sampleConfig (max rules.stepSize (1 / 100000000))
          (balances.total rules.baseAsset) out.2.2 := by
  intro out
  have hown : ∀ h o xfs, exchangeEnv filledEntry h (.call (.queryFills o)) = .ok xfs →
      ∀ xf ∈ xfs, xf.clientOrderId.filter (· ≠ "") = some o.clientOrderId := by
    intro h o xfs hxfs xf hxf
    obtain rfl := Except.ok.inj hxfs
    split at hxf
    · next ho =>
      obtain rfl := List.mem_singleton.1 hxf
      rw [← ho]
      decide +kernel
    · cases hxf
  have hhealthy : ∃ result, out.1 = .ok result ∧ result.status = .healthy := by
    have hstatus : out.1.toOption.map (·.status) = some .healthy := by decide +kernel
    cases hresult : out.1 with
    | error e =>
      rw [hresult] at hstatus
      cases hstatus
    | ok result =>
      rw [hresult] at hstatus
      exact ⟨result, rfl, Option.some.inj hstatus⟩
  obtain ⟨result, hresult, hstatus⟩ := hhealthy
  refine ⟨by decide +kernel, ?_⟩
  exact healthy_books sampleConfig (exchangeEnv filledEntry) hown "periodic" false restingLedger
    result hresult hstatus

end CryptoBot
