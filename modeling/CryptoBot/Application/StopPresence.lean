import CryptoBot.Application.Exits
import CryptoBot.Lib.Leads

/-!
# The presence of the protective stop

With the stop on the exchange, a cycle that keeps its position open ends with
`_ensure_protective_stop`: it places the stop, unless one is resting. An attempt to place it that has
executed anything is not repeated, although it no longer rests: what is left of the position then
has no stop.
-/

namespace CryptoBot

open Lib OrderService TradingCycle

section
variable {cfg : Config} {s s₁ s' : Ledger} {env : Prog.Env Label Ans}
  {ans : Answers Ledger Label Ans} {h h₁ h' : History Label Ans} {rules : SymbolRules}
  {position : Position}

/-- A stop of the bot rests on the exchange, or may. -/
def Ledger.StopResting (cfg : Config) (s : Ledger) : Prop :=
  ∃ o ∈ s.nonTerminalOrders cfg.bot cfg.symbol, o.purpose = .protectiveStop

/-- The limit price of the stop order of a position with this stop price. -/
def stopLimit (cfg : Config) (rules : SymbolRules) (stop : ℚ) : ℚ :=
  rules.roundPrice (stop * (1 - cfg.protectiveStopLimitOffsetPct / 100))

/-- A cycle against `env` comes to `_ensure_protective_stop`, after which it only returns. -/
def ReachesStop (cfg : Config) (env : Prog.Env Label Ans) (s : Ledger) (position : Position)
    (rules : SymbolRules) (h₁ : History Label Ans) (s₁ : Ledger) : Prop :=
  ∃ result : Option Action → CycleResult,
    Proc.Leads (fun h q _ a => a = env h q) (runOnce cfg) [] s
      (ensureProtectiveStop cfg position rules >>= fun placed => pure (result placed)) h₁ s₁

/-- What keeps a position without a resting stop: the placement just made has already ended, the
attempts are exhausted, or one of them has ended with an execution. -/
inductive Unprotected (cfg : Config) (base : IntentBase) (s₁ s' : Ledger) : Prop
  | ended {o : Order} (ho : o ∈ s'.orders.rows) (hbase : o.clientIntentId.base = base)
      (hnew : ∀ x ∈ s₁.orders.rows, x.clientIntentId ≠ o.clientIntentId)
      (hterminal : o.isTerminal = true)
  | exhausted (hattempts : maxAttempts .protectiveStop ≤ (endedAttempts s₁ base).length)
  | executed {a : Order} (ha : a ∈ s₁.orders.rows) (hbase : a.clientIntentId.base = base)
      (hterminal : a.isTerminal = true) (hended : endedWithoutFill a = false)

theorem Placed.market {intent : OrderIntent} {o : Order} (h : Placed cfg s s' intent o) :
    o.bot = cfg.bot ∧ o.symbol = intent.symbol := by
  obtain ⟨rules, now, o₀, hmark, rfl⟩ := h.row
  cases hmark
  exact ⟨rfl, rfl⟩

/-- A submission of a stop, when none is resting. -/
theorem protected_of_submission {base : IntentBase} {n : Nat} {iid : IntentId}
    {intent : OrderIntent} {r : Except Exn (Option Order)} (hs : s.Paired)
    (hbot : base.bot = cfg.bot) (hsymbol : base.symbol = cfg.symbol)
    (hpurpose : base.purpose = .protectiveStop)
    (hnone : ∀ o ∈ s.nonTerminalOrders cfg.bot cfg.symbol, o.purpose ≠ .protectiveStop)
    (hdigest : ∀ k < n, ∀ a ∈ s.orders.rows, a.clientOrderId =
      makeClientOrderId cfg.textLib cfg.clientOrderIdPrefix ⟨base, k⟩ → a.clientIntentId = ⟨base, k⟩)
    (hintent : intent.clientIntentId = iid) (hplaced : intent.purpose = .protectiveStop)
    (hmarket : intent.symbol = cfg.symbol) (hc : Chosen base n s (some iid))
    (hsub : Submission cfg intent rules h s r h' s') :
    s'.StopResting cfg ∨ Unprotected cfg base s s' := by
  have hiid : ∃ j < n, iid = ⟨base, j⟩ := by
    cases hc with
    | fresh hj => exact ⟨_, hj, rfl⟩
    | standing hj => exact ⟨_, hj, rfl⟩
  obtain ⟨j, hj, rfl⟩ := hiid
  cases hsub with
  | @standing a _ ha =>
    rw [hintent] at ha
    obtain ⟨hmem, hid⟩ := Ledger.getOrderByIntent_eq_some.1 ha
    have hbase : a.clientIntentId.base = base := (congrArg IntentId.base hid :)
    have hended : endedWithoutFill a = false := by
      cases hc with
      | fresh _ _ hnone => rw [hnone] at ha; cases ha
      | standing _ _ ha' hended =>
        rw [ha'] at ha
        cases ha
        exact hended
    refine .inr (.executed hmem hbase ?_ hended)
    by_contra hopen
    refine hnone a (Ledger.mem_nonTerminalOrders.2 ⟨hmem, ?_, ?_, Bool.eq_false_iff.2 hopen⟩) ?_
    · rw [hs.bot a hmem, hbase, hbot]
    · rw [hs.symbol a hmem, hbase, hsymbol]
    · rw [hs.purpose a hmem, hbase, hpurpose]
  | refused _ hx hid =>
    rw [hintent] at hx hid
    obtain ⟨hmem, hxc⟩ := Ledger.getOrder_eq_some.1 hx
    exact absurd (hdigest j hj _ hmem hxc) (Ledger.getOrderByIntent_eq_none.1 hid _ hmem)
  | @sent o s₁ _ _ _ hp _ hrows _ _ =>
    have hmem : o ∈ s₁.orders.rows := hp.rows ▸ List.mem_append_right _ (.head _)
    obtain ⟨o', ho', hsame⟩ := hrows.new o hmem
    have hid : o'.clientIntentId = ⟨base, j⟩ := by
      rw [hsame.clientIntentId, hp.order.2.1, hintent]
    by_cases hterminal : o'.isTerminal = true
    · refine .inr (.ended ho' (congrArg IntentId.base hid :) (fun x hx hxid => ?_) hterminal)
      obtain ⟨-, -, hnew⟩ := List.pairwise_append.1 (hp.rows ▸ s₁.orders.ok)
      exact (hnew x hx o (.head _)).2.2.1 (hxid.trans hsame.clientIntentId)
    · refine .inl ⟨o', Ledger.mem_nonTerminalOrders.2
        ⟨ho', ?_, ?_, Bool.eq_false_iff.2 hterminal⟩, ?_⟩
      · exact hsame.bot.trans hp.market.1
      · exact hsame.symbol.trans (hp.market.2.trans hmarket)
      · exact hsame.purpose.trans (hp.purpose.trans hplaced)

/-- Where `_ensure_protective_stop` ends a stop is resting, unless something stands against it. -/
theorem ends_ensureProtectiveStop {stop : ℚ} {r : Except Exn (Option Action)} {base : IntentBase}
    (hs : s.Paired) (hbase : base = positionBase cfg position .protectiveStop)
    (hstop : position.stopPrice = some stop)
    (htrade : rules.isTradeable (rules.roundQty position.quantity) (stopLimit cfg rules stop) = true)
    (hdigest : ∀ k < maxAttempts .protectiveStop, ∀ a ∈ s.orders.rows, a.clientOrderId =
      makeClientOrderId cfg.textLib cfg.clientOrderIdPrefix ⟨base, k⟩ → a.clientIntentId = ⟨base, k⟩)
    (hrun : Proc.Ends ans (ensureProtectiveStop cfg position rules) h s r h' s') :
    s'.StopResting cfg ∨ Unprotected cfg base s s' := by
  subst hbase
  rcases (Proc.ends_bind _ _ _).1 hrun with ⟨x, h₁, s₁, hq, hrun⟩ | ⟨e, hq, -⟩
  swap
  · obtain ⟨hx, -⟩ := (ends_query _ _ _).1 hq
    cases hx
  obtain ⟨hx, rfl, rfl⟩ := (ends_query _ _ _).1 hq
  obtain rfl := Except.ok.inj hx
  rw [hstop] at hrun
  dsimp only at hrun
  split at hrun
  · next hlive =>
    obtain ⟨-, -, rfl⟩ := (Proc.ends_pure _ _).1 hrun
    obtain ⟨o, ho, hpurpose⟩ := List.any_eq_true.1 hlive
    exact .inl ⟨o, ho, of_decide_eq_true hpurpose⟩
  · next hlive =>
    have hnone : ∀ o ∈ s₁.nonTerminalOrders cfg.bot cfg.symbol, o.purpose ≠ .protectiveStop := by
      intro o ho hpurpose
      exact hlive (List.any_eq_true.2 ⟨o, ho, decide_eq_true hpurpose⟩)
    rw [if_neg (by rw [stopLimit] at htrade; rw [htrade]; exact Bool.false_ne_true)] at hrun
    obtain ⟨r₁, h₂, hsub⟩ : ∃ r₁ h₂, Proc.Ends ans (submit cfg .protectiveStop .sell
        (rules.roundQty position.quantity) rules stop (positionBase cfg position .protectiveStop)
        none .stopLossLimit (some (stopLimit cfg rules stop)) (some stop)) _ s₁ r₁ h₂ s' := by
      rcases (Proc.ends_bind _ _ _).1 hrun with ⟨o, h₂, s₂, hsub, hrun⟩ | ⟨e, hsub, -⟩
      · cases o with
        | none =>
          obtain ⟨-, -, rfl⟩ := (Proc.ends_pure _ _).1 hrun
          exact ⟨_, _, hsub⟩
        | some o =>
          obtain ⟨-, -, rfl⟩ := (Proc.ends_pure _ _).1 hrun
          exact ⟨_, _, hsub⟩
      · exact ⟨_, _, hsub⟩
    cases ends_submit hs hsub with
    | exhausted ht => exact .inr (.exhausted (le_length_endedAttempts ht))
    | @chosen iid _ _ _ _ hc _ hsub =>
      exact protected_of_submission hs rfl rfl rfl hnone hdigest rfl rfl rfl hc hsub

/-- With the stop on the exchange, every cycle that comes to `_ensure_protective_stop`, from any
ledger of any run and whatever is answered, with a position that is tradeable at the limit price,
ends with a stop of the bot that is not terminal; unless the placement made in that cycle has
already ended, the attempts have all ended without a fill, or an earlier attempt has ended with an
execution and stands. Of the digests it needs that those of the attempts are no other order's. -/
theorem stop_stands {stop : ℚ} {base : IntentBase} (hs : Reachable cfg s)
    (hreach : ReachesStop cfg env s position rules h₁ s₁)
    (hbase : base = positionBase cfg position .protectiveStop)
    (hstop : position.stopPrice = some stop)
    (htrade : rules.isTradeable (rules.roundQty position.quantity) (stopLimit cfg rules stop) = true)
    (hdigest : ∀ k < maxAttempts .protectiveStop, ∀ a ∈ s₁.orders.rows, a.clientOrderId =
      makeClientOrderId cfg.textLib cfg.clientOrderIdPrefix ⟨base, k⟩ →
        a.clientIntentId = ⟨base, k⟩) :
    let s' := (Prog.run env (runOnce cfg).run [] s).2.2
    s'.StopResting cfg ∨ Unprotected cfg base s₁ s' := by
  intro s'
  obtain ⟨result, hlead⟩ := hreach
  have hpaired : s₁.Paired :=
    Prog.Leads.within hlead (pairing_conducts cfg).runOnce (fun h hs => h hs) hs.paired
  have hrun := Proc.ends_run env
    (ensureProtectiveStop cfg position rules >>= fun placed => pure (result placed)) h₁ s₁
  rw [← Prog.Leads.run_eq hlead] at hrun
  rcases (Proc.ends_bind _ _ _).1 hrun with ⟨placed, h₂, s₂, hensure, hrun⟩ | ⟨e, hensure, -⟩
  · obtain ⟨-, -, hs'⟩ := (Proc.ends_pure _ _).1 hrun
    rw [← hs'] at hensure
    exact ends_ensureProtectiveStop hpaired hbase hstop htrade hdigest hensure
  · exact ends_ensureProtectiveStop hpaired hbase hstop htrade hdigest hensure

/-! ## Cycles that hold -/

theorem leads_query {α β : Type} (l : Label) (f : Ledger → α) (g : α → Engine β) :
    Proc.Leads ans (query l f >>= g) h s (g (f s)) (.step l :: h) s := .atomic .refl

theorem leads_transaction {α β : Type} {l : Label} {t : Tx α} {a : α} (ht : t s = .ok (a, s'))
    (g : α → Engine β) :
    Proc.Leads ans (transaction l t >>= g) h s (g a) (.step l :: h) s' := by
  refine .atomic ?_
  rw [ht]
  exact .refl

theorem leads_call {β : Type} {r : Req} {a : r.Val} (ha : env h (.call r) = .ok a)
    (g : r.Val → Engine β) :
    Proc.Leads (fun h q _ a => a = env h q) (call r >>= g) h s (g a)
      (.call (.call r) (.ok a) :: h) s := .call ha.symm .refl

theorem leads_attempt {β : Type} {r : Req} {a : r.Val} (ha : env h (.call r) = .ok a)
    (g : Except Exn r.Val → Engine β) :
    Proc.Leads (fun h q _ a => a = env h q) ((call r).attempt >>= g) h s (g (.ok a))
      (.call (.call r) (.ok a) :: h) s := .call ha.symm .refl

theorem leads_now {β : Type} (g : Time → Engine β) :
    Proc.Leads (fun h q _ a => a = env h q) (clockNow >>= g) h s (g (env h (.ambient .now)))
      (.call (.ambient .now) (env h (.ambient .now)) :: h) s := .call rfl .refl

variable {control : Control} {st : ReconciliationState} {entriesOk : Bool} {funds : Funds}
  {snap : MarketSnapshot} {signal : Signal} {signalId : SignalId}

/-- Neither stopped out nor selling, the cycle comes to its stop on the exchange. -/
theorem manageOpen_hold (hx : cfg.protectiveStopOnExchange = true)
    (hlow : snap.stopCheckLow position.openedAt = none) (hhold : signal.action = .hold) :
    manageOpen cfg control rules snap signal position =
      ensureProtectiveStop cfg position rules >>= fun placed =>
        pure { action := placed.getD .hold } := by
  unfold manageOpen
  rw [hlow, hhold, hx]
  cases position.stopPrice <;> rfl

/-- The same orders, and the position but for its mark. -/
structure Marked (cfg : Config) (s s' : Ledger) : Prop where
  orders : s'.orders = s.orders
  position : ∃ price now, s'.getPosition cfg.bot cfg.symbol =
    { (s.getPosition cfg.bot cfg.symbol).mark price with updatedAt := some now }

/-- The balance query and the daily loss limit always return, and touch neither orders nor
positions. -/
theorem comes_readFunds {β : Type} {g : Funds → Engine β}
    {G : Engine β → History Label Ans → Ledger → Prop}
    (hg : ∀ funds h' s', s'.orders = s.orders → s'.positions = s.positions →
      (g funds).Comes (fun h q _ a => a = env h q) h' s' G) :
    (readFunds cfg rules snap >>= g).Comes (fun h q _ a => a = env h q) h s G := by
  have hrun := Proc.ends_run env (readFunds cfg rules snap) h s
  suffices hreturns : ∃ funds, (Prog.run env (readFunds cfg rules snap).run h s).1 = .ok funds ∧
      (Prog.run env (readFunds cfg rules snap).run h s).2.2.orders = s.orders ∧
      (Prog.run env (readFunds cfg rules snap).run h s).2.2.positions = s.positions by
    obtain ⟨funds, hok, ho, hp⟩ := hreturns
    rw [hok] at hrun
    exact (Proc.Ends.leads hrun g).comes (hg _ _ _ ho hp)
  rcases (Proc.ends_bind _ _ _).1 hrun with ⟨bal, h₁, s₁, hcall, hrun⟩ | ⟨e, hcall, -⟩
  swap
  · obtain ⟨_, hx, -⟩ := (Proc.ends_attempt _ _).1 hcall
    cases hx
  obtain ⟨_, hx, hcall⟩ := (Proc.ends_attempt _ _).1 hcall
  cases hx
  obtain ⟨-, rfl, rfl⟩ := ends_call hcall
  cases bal with
  | error e =>
    obtain ⟨hr, -, hs⟩ := hrun
    exact ⟨_, hr, congrArg Ledger.orders hs, congrArg Ledger.positions hs⟩
  | ok bal =>
    obtain ⟨now, -, hr, -, hs⟩ := hrun
    refine ⟨_, hr, ?_, ?_⟩
    · rw [hs]
      rfl
    · rw [hs]
      rfl

theorem Marked.same (hm : Marked cfg s s') :
    (s'.getPosition cfg.bot cfg.symbol).quantity = (s.getPosition cfg.bot cfg.symbol).quantity ∧
      (s'.getPosition cfg.bot cfg.symbol).stopPrice =
        (s.getPosition cfg.bot cfg.symbol).stopPrice ∧
      (s'.getPosition cfg.bot cfg.symbol).openedAt =
        (s.getPosition cfg.bot cfg.symbol).openedAt := by
  obtain ⟨price, now, hposition⟩ := hm.position
  rw [hposition]
  exact ⟨rfl, rfl, rfl⟩

theorem Marked.trans_positions {s'' : Ledger} (hm : Marked cfg s s') (ho : s''.orders = s'.orders)
    (hp : s''.positions = s'.positions) : Marked cfg s s'' := by
  refine ⟨ho.trans hm.orders, ?_⟩
  rw [Ledger.getPosition_congr hp]
  exact hm.position

theorem mark_ok (cfg : Config) (price : ℚ) (now : Time) (s : Ledger) :
    ∃ p s', PositionService.mark cfg.bot cfg.symbol price now s = .ok (p, s') ∧ Marked cfg s s' := by
  have hkey := Ledger.getPosition_key s cfg.bot cfg.symbol
  exact ⟨_, _, rfl, rfl, price, now, Ledger.getPosition_upsert_self rfl hkey.1 hkey.2⟩

/-- From `s`, a cycle comes to its stop, with the position of `s` and its orders. -/
def ComesToStop (cfg : Config) (env : Prog.Env Label Ans) (rules : SymbolRules) (s : Ledger)
    (p : Engine CycleResult) (h : History Label Ans) (s₁ : Ledger) : Prop :=
  p.Comes (fun h q _ a => a = env h q) h s₁ fun p' _ s' => Marked cfg s s' ∧
    ∃ result : Option Action → CycleResult, p' =
      ensureProtectiveStop cfg (s'.getPosition cfg.bot cfg.symbol) rules >>= fun placed =>
        pure (result placed)

theorem comesToStop_decideOrders {stop : ℚ} (hx : cfg.protectiveStopOnExchange = true)
    (hcandles : snap.recentCandles = []) (hhold : signal.action = .hold)
    (hidle : inFlight cfg s = [])
    (hopen : (s.getPosition cfg.bot cfg.symbol).isOpen rules = true)
    (hstop : (s.getPosition cfg.bot cfg.symbol).stopPrice = some stop) (hm : Marked cfg s s₁) :
    ComesToStop cfg env rules s
      (decideOrders cfg control st entriesOk funds rules snap signal signalId) h s₁ := by
  have hidle₁ : inFlight cfg s₁ = [] := by
    rw [← hidle, inFlight, Ledger.nonTerminalOrders, hm.orders]
    rfl
  obtain ⟨hquantity, hstop₁, -⟩ := hm.same
  have hopen₁ : (s₁.getPosition cfg.bot cfg.symbol).isOpen rules = true := by
    rw [← hopen, Position.isOpen, hquantity]
    rfl
  refine Proc.Leads.comes (leads_query _ _ _) ?_
  rw [hidle₁]
  refine Proc.Leads.comes (leads_query _ _ _) ?_
  rw [hidle₁, if_neg (not_not.2 rfl)]
  refine Proc.Leads.comes (leads_query _ _ _) ?_
  rw [if_pos hopen₁, hstop₁, hstop]
  refine .here ⟨hm, _, manageOpen_hold hx ?_ hhold⟩
  rw [MarketSnapshot.stopCheckLow, hcandles]
  rfl

theorem comesToStop_trade {stop : ℚ} (hx : cfg.protectiveStopOnExchange = true)
    (hsnap : ∀ h, env h (.call (.snapshot cfg.symbol)) = .ok (.ok snap))
    (hrules : ∀ h, env h (.call (.symbolRules cfg.symbol)) = .ok rules)
    (hsignal : ∀ h, env h (.call (.evaluate snap)) = .ok signal)
    (hcandles : snap.recentCandles = []) (hhold : signal.action = .hold)
    (hidle : inFlight cfg s = [])
    (hopen : (s.getPosition cfg.bot cfg.symbol).isOpen rules = true)
    (hstop : (s.getPosition cfg.bot cfg.symbol).stopPrice = some stop) :
    ComesToStop cfg env rules s (trade cfg control st entriesOk) h s := by
  refine Proc.Leads.comes (leads_call (hsnap _) _) ?_
  refine Proc.Leads.comes (leads_call (hrules _) _) ?_
  refine Proc.Leads.comes (leads_now _) ?_
  obtain ⟨p, s₁, hmark, hm₁⟩ := mark_ok cfg snap.markPrice _ s
  refine Proc.Leads.comes (leads_transaction hmark _) ?_
  refine comes_readFunds fun funds h₂ s₂ ho hp => ?_
  refine Proc.Leads.comes (leads_call (hsignal _) _) ?_
  refine Proc.Leads.comes (leads_now _) ?_
  obtain ⟨outbox, hsignals⟩ := Store.enqueue_eq_ok .signals _ _ _ s₂
  refine Proc.Leads.comes (leads_transaction hsignals _) ?_
  exact comesToStop_decideOrders hx hcandles hhold hidle hopen hstop (hm₁.trans_positions ho hp)

theorem reconciliationGate_eq (hmode : cfg.tradingMode ≠ .paper) :
    reconciliationGate cfg control = query .query (·.getReconState cfg.bot) := by
  unfold reconciliationGate
  simp only [if_neg hmode]
  exact bind_pure _

/-- A cycle outside PAPER that may exit, and neither is stopped out nor sells, comes to its stop with
the position it found. -/
theorem comesToStop_runOnce {stop : ℚ} (hmode : cfg.tradingMode ≠ .paper)
    (hx : cfg.protectiveStopOnExchange = true)
    (hcontrol : ∀ h, env h (.call .getControl) = .ok control)
    (hvalid : ∀ h, env h (.call .validateRuntime) = .ok ⟨⟩)
    (hexits : ∀ h, (s.getReconState cfg.bot).allowsExits (env h (.ambient .now))
      cfg.reconStateMaxAgeSeconds = true)
    (hsnap : ∀ h, env h (.call (.snapshot cfg.symbol)) = .ok (.ok snap))
    (hrules : ∀ h, env h (.call (.symbolRules cfg.symbol)) = .ok rules)
    (hsignal : ∀ h, env h (.call (.evaluate snap)) = .ok signal)
    (hcandles : snap.recentCandles = []) (hhold : signal.action = .hold)
    (hidle : inFlight cfg s = [])
    (hopen : (s.getPosition cfg.bot cfg.symbol).isOpen rules = true)
    (hstop : (s.getPosition cfg.bot cfg.symbol).stopPrice = some stop) :
    ComesToStop cfg env rules s (runOnce cfg) h s := by
  refine Proc.Leads.comes (leads_now _) ?_
  refine Proc.Leads.comes (leads_attempt (hcontrol _) _) ?_
  refine Proc.Leads.comes (leads_attempt (hvalid _) _) ?_
  dsimp only
  rw [reconciliationGate_eq hmode]
  refine Proc.Leads.comes (leads_query _ _ _) ?_
  refine Proc.Leads.comes (leads_now _) ?_
  refine Proc.Leads.comes (leads_now _) ?_
  rw [hexits, Bool.not_true, if_neg Bool.false_ne_true]
  refine Proc.Comes.bind
    (comesToStop_trade hx hsnap hrules hsignal hcandles hhold hidle hopen hstop) _ ?_
  rintro _ h₁ s₁ ⟨hm, result, rfl⟩
  exact ⟨hm, _, by rw [bind_assoc]; exact bind_congr fun placed => pure_bind _ _⟩

end

/-! ### Half a stop -/

/-- The entry has filled; its stop has executed one half before it was canceled. -/
def halfStopped : Ledger := (enteredPool stoppingConfig).state

theorem reachable_halfStopped : Reachable stoppingConfig halfStopped :=
  ⟨Unit, inferInstance, _, entered_run _, rfl⟩

/-- One half of the position is left, open and with its stop price; the half-executed stop is the only
attempt, and has not ended without a fill. -/
theorem halfStopped_facts :
    (halfStopped.getReconState "default").allowsExits (seconds 1735689600) 90 = true ∧
    inFlight stoppingConfig halfStopped = [] ∧
    (halfStopped.getPosition "default" ⟨"BTC", "USDT"⟩).isOpen sampleRules = true ∧
    (halfStopped.getPosition "default" ⟨"BTC", "USDT"⟩).quantity = 1 ∧
    (halfStopped.getPosition "default" ⟨"BTC", "USDT"⟩).stopPrice = some 97 ∧
    (halfStopped.getPosition "default" ⟨"BTC", "USDT"⟩).openedAt = some (seconds 1735689600) ∧
    endedAttempts halfStopped sampleStop.base = [] ∧
    ∀ k < maxAttempts .protectiveStop, ∀ a ∈ halfStopped.orders.rows, a.clientOrderId =
      makeClientOrderId stoppingConfig.textLib stoppingConfig.clientOrderIdPrefix
        ⟨sampleStop.base, k⟩ → a.clientIntentId = ⟨sampleStop.base, k⟩ := by
  decide +kernel

/-- The cycle that follows in a quiet market. -/
def quietMarket : Prog.Env Label Ans := exchangeEnv (marketAnswers .hold halvingExchange)

/-- It comes to its stop, with the half that is left of the position. -/
theorem halfStopped_reaches : ∃ position h₁ s₁,
    ReachesStop stoppingConfig quietMarket halfStopped position sampleRules h₁ s₁ ∧
      s₁.orders = halfStopped.orders ∧ position.quantity = 1 ∧ position.stopPrice = some 97 ∧
      positionBase stoppingConfig position .protectiveStop = sampleStop.base := by
  obtain ⟨hexits, hidle, hopen, hquantity, hstop, hopened, -⟩ := halfStopped_facts
  obtain ⟨_, h₁, s₁, hlead, hm, result, rfl⟩ : ComesToStop stoppingConfig quietMarket sampleRules
      halfStopped (runOnce stoppingConfig) [] halfStopped :=
    comesToStop_runOnce (by decide) rfl (fun _ => rfl) (fun _ => rfl) (fun _ => hexits)
      (fun _ => rfl) (fun _ => rfl) (fun _ => rfl) rfl rfl hidle hopen hstop
  obtain ⟨hquantity', hstop', hopened'⟩ := hm.same
  refine ⟨_, h₁, s₁, ⟨result, hlead⟩, hm.orders, hquantity'.trans hquantity, hstop'.trans hstop, ?_⟩
  rw [positionBase, hopened'.trans hopened]
  rfl

/-- The cycle that entered has placed a stop, which ended neither refused nor filled; none was
resting when that cycle ended. The half of the position that is left is open and tradeable at the
limit price; but no stop is placed for it, although no attempt has ended without a fill, and none is
resting when the next cycle ends. -/
theorem half_stop_stands : (halfStopped.orders.rows.map fun o =>
      (o.clientIntentId, o.status, o.executedQuantity)) =
    [(sampleEntry, .filled, 2), (sampleStop, .canceled, 1)] ∧ ∃ position h₁ s₁,
    Reachable stoppingConfig halfStopped ∧
    ReachesStop stoppingConfig quietMarket halfStopped position sampleRules h₁ s₁ ∧
    position.isOpen sampleRules = true ∧ position.stopPrice = some 97 ∧
    sampleRules.isTradeable (sampleRules.roundQty position.quantity)
      (stopLimit stoppingConfig sampleRules 97) = true ∧
    endedAttempts s₁ (positionBase stoppingConfig position .protectiveStop) = [] ∧
    (Prog.run quietMarket (runOnce stoppingConfig).run [] halfStopped).2.2.intents =
      halfStopped.intents ∧
    ¬ (Prog.run quietMarket (runOnce stoppingConfig).run [] halfStopped).2.2.StopResting
      stoppingConfig := by
  obtain ⟨position, h₁, s₁, hreach, horders, hquantity, hstop, hbase⟩ := halfStopped_reaches
  obtain ⟨-, -, -, -, -, -, hnone, -⟩ := halfStopped_facts
  have hend : (halfStopped.orders.rows.map fun o =>
        (o.clientIntentId, o.status, o.executedQuantity)) =
        [(sampleEntry, .filled, 2), (sampleStop, .canceled, 1)] ∧
      (Prog.run quietMarket (runOnce stoppingConfig).run [] halfStopped).2.2.intents =
        halfStopped.intents ∧
      (Prog.run quietMarket (runOnce stoppingConfig).run [] halfStopped).2.2.nonTerminalOrders
        stoppingConfig.bot stoppingConfig.symbol = [] := by
    decide +kernel
  refine ⟨hend.1, position, h₁, s₁, reachable_halfStopped, hreach, ?_, hstop, ?_, ?_, hend.2.1, ?_⟩
  · rw [Position.isOpen, hquantity]
    decide +kernel
  · rw [hquantity]
    decide +kernel
  · rw [endedAttempts, hbase, horders]
    exact hnone
  · rintro ⟨o, ho, -⟩
    rw [hend.2.2] at ho
    cases ho

/-- That attempt is what stands against another one. -/
theorem half_stop_unprotected : ∃ position h₁ s₁,
    ReachesStop stoppingConfig quietMarket halfStopped position sampleRules h₁ s₁ ∧
    ((Prog.run quietMarket (runOnce stoppingConfig).run [] halfStopped).2.2.StopResting
        stoppingConfig ∨
      Unprotected stoppingConfig sampleStop.base s₁
        (Prog.run quietMarket (runOnce stoppingConfig).run [] halfStopped).2.2) := by
  obtain ⟨position, h₁, s₁, hreach, horders, hquantity, hstop, hbase⟩ := halfStopped_reaches
  obtain ⟨-, -, -, -, -, -, -, hdigest⟩ := halfStopped_facts
  refine ⟨position, h₁, s₁, hreach,
    stop_stands reachable_halfStopped hreach hbase.symm hstop ?_ (horders ▸ hdigest)⟩
  rw [hquantity]
  decide +kernel

end CryptoBot
