import CryptoBot.Application.SingleSend
import CryptoBot.Lib.Paths

/-!
# What a cycle has seen before it sends an order

`run_once` asks for the control state, the configuration, the reconciliation row, the market, the
balances and a signal, in this order, and lets an order through only after all of its checks. A
history says what the cycle was told, and the points of its run say which ledger it looked at.
-/

namespace CryptoBot

open Lib OrderService TradingCycle

/-! ## What a cycle is told -/

/-- What a cycle is told before it decides; `row` is what the reconciliation gate saw, and the
clock read `exitsAt` and `entriesAt` when its age was checked. -/
structure Briefing where
  control : Control
  row : ReconciliationState
  exitsAt : Time
  entriesAt : Time
  snap : MarketSnapshot
  rules : SymbolRules
  balances : Except Exn BalanceSnapshot
  signal : Signal

/-- A cycle begins with the control state and the configuration check. -/
def opening (control : Control) (t : Time) : History Label Ans :=
  [.call (.call .validateRuntime) (.ok ⟨⟩), .call (.call .getControl) (.ok control),
    .call (.ambient .now) t]

/-- The row has been read, at a point that the cycle has passed. -/
structure Gated (cfg : Config) (V : History Label Ans → Ledger → Prop) (control : Control)
    (row : ReconciliationState) (h : History Label Ans) : Prop where
  opened : ∃ t, opening control t <:+ h
  row : ∃ s, V h s ∧ s.getReconState cfg.bot = row

namespace Briefing

variable (b : Briefing) (cfg : Config) (V : History Label Ans → Ledger → Prop)

/-- From the row on: the two clock readings, the market, the rules, the mark, and the balances. -/
def market (t : Time) (h : History Label Ans) : History Label Ans :=
  .call (.call .balances) b.balances :: .step .commit :: .call (.ambient .now) t ::
    .call (.call (.symbolRules cfg.symbol)) (.ok b.rules) ::
    .call (.call (.snapshot cfg.symbol)) (.ok (.ok b.snap)) ::
    .call (.ambient .now) b.entriesAt :: .call (.ambient .now) b.exitsAt :: h

/-- The cycle has been told all of it. -/
def Given (h : History Label Ans) : Prop :=
  ∃ hg t hb, Gated cfg V b.control b.row hg ∧ b.market cfg t hg <:+ hb ∧
    .call (.call (.evaluate b.snap)) (.ok b.signal) :: hb <:+ h

variable {b cfg V} in
theorem Given.mono {h h' : History Label Ans} (hb : b.Given cfg V h) (hh : h <:+ h') :
    b.Given cfg V h' := by
  obtain ⟨hg, t, hb, hgate, hmarket, hsignal⟩ := hb
  exact ⟨hg, t, hb, hgate, hmarket, hsignal.trans hh⟩

end Briefing

/-! ## The table -/

/-- The row was updated no longer than the admitted age before `now`. -/
def RecentAt (cfg : Config) (row : ReconciliationState) (now : Time) : Prop :=
  ∃ t, row.updatedAt = some t ∧ now - t ≤ seconds cfg.reconStateMaxAgeSeconds

/-- What warrants an order of a purpose, when a cycle that was told `b` decides on the ledger `s`. -/
def Warranted (cfg : Config) (b : Briefing) (s : Ledger) : OrderPurpose → Prop
  | .entry =>
    b.signal.action = .buy ∧ b.control.enabled = true ∧ b.control.emergencyStop = false ∧
    cfg.globalTradingEnabled = true ∧
    b.row.status = .healthy ∧ RecentAt cfg b.row b.entriesAt ∧
    (∃ bal, b.balances = .ok bal) ∧ RiskManager.isDailyHalted cfg s = false ∧
    (s.getPosition cfg.bot cfg.symbol).isOpen b.rules = false ∧
    PositionService.openPositionCount s cfg.bot cfg.symbol b.rules < cfg.maxOpenPositions
  | .exit => b.signal.action = .sell ∧ b.control.emergencyStop = false
  | .stopExit =>
    ∃ stop low, (s.getPosition cfg.bot cfg.symbol).stopPrice = some stop ∧
      b.snap.stopCheckLow (s.getPosition cfg.bot cfg.symbol).openedAt = some low ∧ low ≤ stop
  | .protectiveStop => True

/-- A cycle decides: it was told `b`, with a recent HEALTHY or DEGRADED row, and nothing but
protective stops is open; it has sent nothing yet. -/
structure Deciding (cfg : Config) (V : History Label Ans → Ledger → Prop) (b : Briefing)
    (h : History Label Ans) (s : Ledger) : Prop where
  given : b.Given cfg V h
  row : b.row.status = .healthy ∨ b.row.status = .degraded
  recent : RecentAt cfg b.row b.exitsAt
  idle : inFlight cfg s = []
  unsent : submits h = []

/-- The order `o` may be sent: the cycle has passed a point where it decided, and `o` is
warranted there. An ENTRY, EXIT or STOP_EXIT is the first order the cycle sends, and but for
protective stops the only one that is open. -/
def Granted (cfg : Config) (V : History Label Ans → Ledger → Prop) (h : History Label Ans)
    (s : Ledger) (o : Order) : Prop :=
  ∃ b hd sd, V hd sd ∧ hd <:+ h ∧ Deciding cfg V b hd sd ∧ Warranted cfg b sd o.purpose ∧
    (o.purpose ≠ .protectiveStop → submits h = [] ∧ ∀ x ∈ inFlight cfg s, x = o)

/-- A cycle runs alone, and owes a grant for every order it sends. -/
def grantContract (cfg : Config) (V : History Label Ans → Ledger → Prop) :
    Contract Ledger Label Ans where
  rely h s s' := s' = s ∧ V h s
  ans _ _ _ _ := True
  step _ _ _ _ := True
  guard h q s := ∀ o rules, q = .call (.submit o rules) → Granted cfg V h s o

/-! ## Going on without a submission -/

/-- The history has grown, by no submission. -/
def Onward (h h' : History Label Ans) : Prop := h <:+ h' ∧ submits h' = submits h

namespace Onward

variable {h h' h'' : History Label Ans}

theorem rfl : Onward h h := ⟨List.suffix_rfl, Eq.refl _⟩

theorem trans (h₁ : Onward h h') (h₂ : Onward h' h'') : Onward h h'' :=
  ⟨h₁.1.trans h₂.1, h₂.2.trans h₁.2⟩

theorem step (h₁ : Onward h h') (l : Label) : Onward h (.step l :: h') :=
  h₁.trans ⟨List.suffix_cons _ _, Eq.refl _⟩

theorem call (h₁ : Onward h h') {q : Request} (a : Ans q) (hq : q.isSubmit = false) :
    Onward h (.call q a :: h') := by
  refine h₁.trans ⟨List.suffix_cons _ _, List.filterMap_cons_none ?_⟩
  cases q with
  | ambient x => exact Eq.refl _
  | call r =>
    cases r with
    | submit o rules => cases hq
    | _ => exact Eq.refl _

end Onward

section
variable {cfg : Config} {V : History Label Ans → Ledger → Prop}

/-! ## Orders in flight -/

theorem mem_inFlight {s : Ledger} {o : Order} :
    o ∈ inFlight cfg s ↔ o ∈ s.orders.rows ∧ o.bot = cfg.bot ∧ o.symbol = cfg.symbol ∧
      o.isTerminal = false ∧ o.purpose ≠ .protectiveStop := by
  rw [inFlight, List.mem_filter, Ledger.mem_nonTerminalOrders, decide_eq_true_iff]
  simp only [and_assoc]

/-- When nothing is in flight, nothing comes to be. -/
def Idling (cfg : Config) (s s' : Ledger) : Prop := inFlight cfg s = [] → inFlight cfg s' = []

theorem Idling.congr {s s' : Ledger} (h : s'.orders = s.orders) : Idling cfg s s' := by
  intro hidle
  rw [List.eq_nil_iff_forall_not_mem] at hidle ⊢
  intro o ho
  rw [mem_inFlight, h] at ho
  exact hidle o (mem_inFlight.2 ho)

/-- A terminal order stays terminal. -/
theorem OrderChange.terminal {s : Ledger} {o o' : Order} (h : OrderChange cfg s o o')
    (ho : o.isTerminal) : o'.isTerminal := by
  cases h with
  | report _ happly =>
    have hstatus := (Order.applyReport_ok happly).1.isTerminal ho
    rw [Order.isTerminal] at ho ⊢
    exact hstatus ▸ ho
  | rejected h =>
    have hno := ((Order.markRejected_ok h).2.2.2.2.2 rfl).1
    rw [ho] at hno
    cases hno
  | flagged => exact ho

theorem ExchangeMove.idling {s s' : Ledger} (h : ExchangeMove cfg s s') : Idling cfg s s' := by
  induction h with
  | keep h => exact Idling.congr (congrArg Ledger.orders h :)
  | @change s s' o o' hc hr =>
    intro hidle
    rw [List.eq_nil_iff_forall_not_mem] at hidle ⊢
    intro x hx
    obtain ⟨hmem, hbot, hsymbol, hopen, hpurpose⟩ := mem_inFlight.1 hx
    rcases hr.mem_iff.1 hmem with rfl | ⟨hmem, -⟩
    · refine hidle o (mem_inFlight.2 ⟨hr.mem, ?_, ?_, ?_, ?_⟩)
      · exact hr.same.bot.symm.trans hbot
      · exact hr.same.symbol.symm.trans hsymbol
      · rw [Bool.eq_false_iff] at hopen ⊢
        exact fun ho => hopen (hc.terminal ho)
      · rwa [← hr.same.purpose]
    · exact hidle x (mem_inFlight.2 ⟨hmem, hbot, hsymbol, hopen, hpurpose⟩)
  | fill h => exact Idling.congr (congrArg Ledger.orders h.rest :)
  | seq _ _ ih ih' => exact fun hidle => ih' (ih hidle)

/-- When nothing is in flight, an order that has just been placed is the only one. -/
theorem Placed.inFlight {s s' : Ledger} {intent : OrderIntent} {o : Order}
    (h : Placed cfg s s' intent o) (hidle : inFlight cfg s = []) :
    ∀ x ∈ TradingCycle.inFlight cfg s', x = o := by
  intro x hx
  rw [List.eq_nil_iff_forall_not_mem] at hidle
  obtain ⟨hmem, hrest⟩ := mem_inFlight.1 hx
  rw [h.rows] at hmem
  rcases List.mem_append.1 hmem with hmem | hmem
  · exact absurd (mem_inFlight.2 ⟨hmem, hrest⟩) (hidle x)
  · exact List.mem_singleton.1 hmem

/-! ## Programs that send nothing -/

/-- The program sends nothing, and puts nothing in flight. -/
abbrev SendsNothing (cfg : Config) (V : History Label Ans → Ledger → Prop) (α : Type)
    (p : Prog Ledger Label Ans α) : Prop :=
  ∀ h s, p.wp (grantContract cfg V) (fun _ h' s' => Onward h h' ∧ Idling cfg s s') h s

theorem sendsNothing_sequenced : Sequenced (SendsNothing cfg V) where
  done _ _ _ := ⟨.rfl, fun hidle => hidle⟩
  bind hp hg h s := (Prog.wp_bind _ _ _ h s).2 <| Prog.wp_mono (fun a h' s' hh =>
    Prog.wp_mono (fun _ _ _ hh' => ⟨hh.1.trans hh'.1, fun hidle => hh'.2 (hh.2 hidle)⟩)
      (hg a h' s')) (hp h s)

/-- Nothing is owed for a call that sends no order. -/
theorem owes_nothing {q : Request} {h : History Label Ans} {s : Ledger} (hq : q.isSubmit = false) :
    (grantContract cfg V).guard h q s := by
  rintro o rules rfl
  cases hq

theorem sendsNothing_call {α : Type} {q : Request} {k : Ans q → Prog Ledger Label Ans α}
    (hq : q.isSubmit = false) (hk : ∀ a, SendsNothing cfg V _ (k a)) :
    SendsNothing cfg V _ (.call q k) := by
  rintro h s s' ⟨rfl, -⟩
  refine ⟨owes_nothing hq, fun a _ => ?_⟩
  exact Prog.wp_mono (fun _ _ _ hh => ⟨(Onward.rfl.call a hq).trans hh.1, hh.2⟩) (hk a _ _)

theorem sendsNothing_transaction {α : Type} {l : Label} {t : Tx α}
    (ht : ∀ s a s', t s = .ok (a, s') → Idling cfg s s') :
    SendsNothing cfg V _ (transaction l t).run := by
  refine fun h s => wp_transaction ?_
  rintro s' ⟨rfl, -⟩
  exact ⟨fun a s'' htx => ⟨trivial, Onward.rfl.step l, ht _ a s'' htx⟩,
    fun _ _ => ⟨trivial, Onward.rfl.step l, fun hidle => hidle⟩⟩

theorem sendsNothing_reject {c reason : String} {now : Time} :
    SendsNothing cfg V _ (transaction .commit (rejectTx c reason now)).run :=
  sendsNothing_transaction fun _ _ _ h => (rejectTx_move h : ExchangeMove cfg _ _).idling

theorem sendsNothing : Resolves cfg (fun _ => True) (SendsNothing cfg V) := by
  have hP : Handles cfg (fun _ => True) (SendsNothing cfg V) :=
    { toSequenced := sendsNothing_sequenced
      read := fun l _ _ _ => (wp_query _ _).2 fun _ hr =>
        ⟨trivial, Onward.rfl.step l, Idling.congr (congrArg Ledger.orders hr.1)⟩
      ambient := fun a get => sendsNothing_call rfl fun _ _ _ => ⟨Onward.rfl, fun hidle => hidle⟩
      call := fun r _ hr hk => sendsNothing_call hr fun a => hk a (heard_true r a)
      keep := fun _ => fun ht => sendsNothing_transaction fun s a s' h =>
        Idling.congr (ht s a s' h).2
      report := fun _ _ _ => sendsNothing_transaction fun _ _ _ h => (applyReportTx_move h).idling
      event := fun _ _ _ _ _ => sendsNothing_transaction fun _ _ _ h => (handleTx_move h).idling }
  exact ⟨hP, fun o => hP.resolveAmbiguous (hP.seq hP.now fun _ => hP.ite (hP.pure _)
    (hP.seq sendsNothing_reject fun _ => hP.pure _))⟩

/-! ## Submissions -/

/-- An order that is handed to the executor has the purpose of its intent. -/
theorem Placed.purpose {s s' : Ledger} {intent : OrderIntent} {o : Order}
    (h : Placed cfg s s' intent o) : o.purpose = intent.purpose := by
  obtain ⟨rules, now, o₀, hmark, rfl⟩ := h.row
  cases hmark
  rfl

variable {h : History Label Ans} {s : Ledger} {rules : SymbolRules}

theorem SendsNothing.wp {α : Type} {p : Engine α} {h₁ : History Label Ans} {s₁ : Ledger}
    (hp : SendsNothing cfg V _ p.run) (hh : h <:+ h₁) :
    Proc.wp (grantContract cfg V) p (fun _ h' _ => h <:+ h') h₁ s₁ :=
  Proc.wp_mono (hp h₁ s₁) fun _ _ _ hh' => hh.trans hh'.1.1

/-- `o` may be sent by a program that starts at `h` and `s`, as its first order. -/
abbrev GrantedFrom (cfg : Config) (V : History Label Ans → Ledger → Prop) (h : History Label Ans)
    (s : Ledger) (purpose : OrderPurpose) : Prop :=
  ∀ h' s' o, Onward h h' → (inFlight cfg s = [] → ∀ x ∈ inFlight cfg s', x = o) →
    o.purpose = purpose → Granted cfg V h' s' o

/-- A submission sends an order of the purpose of its intent, or none. -/
theorem wp_submitIntent {intent : OrderIntent} (hgrant : GrantedFrom cfg V h s intent.purpose) :
    Proc.wp (grantContract cfg V) (submitIntent cfg intent rules) (fun _ h' _ => h <:+ h') h s := by
  have hP : Resolves cfg (fun _ => True) (SendsNothing cfg V) := sendsNothing
  refine (Proc.wp_bind _ _ _ _ _).2 ((wp_query _ _).2 fun s₁ hs₁ => ⟨trivial, ?_⟩)
  obtain ⟨rfl, -⟩ := hs₁
  have hh₁ := Onward.rfl.step (.submitIntent intent) (h := h)
  dsimp only
  cases s₁.getOrderByIntent intent.clientIntentId with
  | some existing => exact hh₁.1
  | none =>
    refine (Proc.wp_bind _ _ _ _ _).2 ((wp_clockNow _).2 fun s₂ hs₂ =>
      ⟨owes_nothing rfl, fun now _ => ?_⟩)
    obtain ⟨rfl, -⟩ := hs₂
    have hh₂ := hh₁.call (q := .ambient .now) now rfl
    dsimp only
    cases ho : (newOrder cfg intent rules).markSubmitting now with
    | error message => exact hh₂.1
    | ok o₀ =>
      refine (Proc.wp_bind _ _ _ _ _).2 (wp_transaction fun s₃ hs₃ => ⟨fun res s₄ htx =>
        ⟨trivial, ?_⟩, fun _ _ => ⟨trivial, (hh₂.step _).1⟩⟩)
      obtain ⟨rfl, -⟩ := hs₃
      have hh₃ := hh₂.step .commit
      rcases persistTx_cases ho htx with ⟨rfl, -, -⟩ | ⟨o, rfl, hp⟩
      · exact hh₃.1
      · refine (Proc.wp_bind _ _ _ _ _).2 ((Proc.wp_attempt _ _ _ _).2
          ((wp_call _ _).2 fun s₅ hs₅ => ⟨?_, fun a _ => ?_⟩))
        · obtain ⟨rfl, -⟩ := hs₅
          rintro _ _ ⟨⟩
          exact hgrant _ _ _ hh₃ hp.inFlight hp.purpose
        · have hsettle (out : SubmitOutcome) :
              SendsNothing cfg V _ (settle cfg o out).run :=
            hP.settle hP.resolve (fun _ _ => trivial) (fun _ _ _ => sendsNothing_reject)
              fun _ _ => sendsNothing_transaction fun _ _ _ h => (flagAmbiguousTx_move h).idling
          have hh₄ : h <:+ .call (.call (.submit o rules)) a :: .step .commit ::
              .call (.ambient .now) now :: .step (.submitIntent intent) :: h :=
            hh₃.1.trans (List.suffix_cons _ _)
          cases a with
          | error e => exact (hP.seq (hsettle _) fun _ => hP.read _ _ : SendsNothing ..).wp hh₄
          | ok out => exact (hP.seq (hsettle _) fun _ => hP.read _ _ : SendsNothing ..).wp hh₄

theorem wp_submit {purpose : OrderPurpose} {side : OrderSide} {qty refPrice : ℚ}
    {base : IntentBase} {signalId : Option SignalId} {orderType : OrderType}
    {limit stop : Option ℚ} (hgrant : GrantedFrom cfg V h s purpose) :
    Proc.wp (grantContract cfg V)
      (submit cfg purpose side qty rules refPrice base signalId orderType limit stop)
      (fun _ h' _ => h <:+ h') h s := by
  have hP : Resolves cfg (fun _ => True) (SendsNothing cfg V) := sendsNothing
  refine (Proc.wp_bind _ _ _ _ _).2 (Proc.wp_mono (hP.nextIntentId h s) ?_)
  rintro (e | _ | iid) h₁ s₁ ⟨hh₁, hi₁⟩
  · exact hh₁.1
  · exact (hP.seq hP.now fun _ => hP.seq (hP.enqueue _) fun _ =>
      hP.seq (hP.enqueue _) fun _ => hP.pure _ : SendsNothing ..).wp hh₁.1
  · exact Proc.wp_mono (wp_submitIntent fun h' s' o hh hi =>
      hgrant h' s' o (hh₁.trans hh) fun hidle => hi (hi₁ hidle)) fun _ _ _ hh => hh₁.1.trans hh

/-! ## The decision -/

variable {b : Briefing}

theorem Deciding.congr {s' : Ledger} {h' : History Label Ans} (hd : Deciding cfg V b h s)
    (hh : Onward h h') (horders : s'.orders = s.orders) : Deciding cfg V b h' s' := by
  refine ⟨hd.given.mono hh.1, hd.row, hd.recent, ?_, hh.2.trans hd.unsent⟩
  have hnon : s'.nonTerminalOrders cfg.bot cfg.symbol = s.nonTerminalOrders cfg.bot cfg.symbol := by
    rw [Ledger.nonTerminalOrders, horders]
    rfl
  rw [inFlight, hnon]
  exact hd.idle

/-- A protective stop may be sent from the decision on. -/
theorem Deciding.grantStop (hd : Deciding cfg V b h s) (hV : V h s) {h' : History Label Ans}
    {s' : Ledger} {o : Order} (hh : h <:+ h') (ho : o.purpose = .protectiveStop) :
    Granted cfg V h' s' o := by
  refine ⟨b, h, s, hV, hh, hd, ?_, fun hne => absurd ho hne⟩
  rw [ho]
  trivial

/-- The first order a cycle sends must be warranted. -/
theorem Deciding.grant (hd : Deciding cfg V b h s) (hV : V h s) {purpose : OrderPurpose}
    (hw : Warranted cfg b s purpose) {h₁ : History Label Ans} {s₁ : Ledger} (hh : Onward h h₁)
    (hi : Idling cfg s s₁) : GrantedFrom cfg V h₁ s₁ purpose := by
  rintro h' s' o hh' hflight rfl
  exact ⟨b, h, s, hV, (hh.trans hh').1, hd, hw, fun _ =>
    ⟨(hh.trans hh').2.trans hd.unsent, hflight (hi hd.idle)⟩⟩

theorem wp_ensureProtectiveStop {position : Position}
    (hgrant : V h s → ∀ h' s' o, h <:+ h' → o.purpose = .protectiveStop →
      Granted cfg V h' s' o) :
    Proc.wp (grantContract cfg V) (ensureProtectiveStop cfg position rules) (fun _ _ _ => True)
      h s := by
  refine (Proc.wp_bind _ _ _ _ _).2 ((wp_query _ _).2 fun s₁ hs₁ => ⟨trivial, ?_⟩)
  have hgrant := hgrant (hs₁.1 ▸ hs₁.2)
  dsimp only
  split
  · trivial
  · refine (Proc.wp_ite _ _ _ _ _ _).2 ?_
    split
    · trivial
    · refine (Proc.wp_ite _ _ _ _ _ _).2 ?_
      split
      · trivial
      · refine (Proc.wp_bind _ _ _ _ _).2 (Proc.wp_mono (wp_submit fun h' s' o hh _ =>
          hgrant h' s' o ((List.suffix_cons _ _).trans hh.1)) fun r _ _ _ => ?_)
        rcases r with e | _ | o <;> trivial

/-- An exit may be sent when it is warranted where the cycle decides. -/
theorem wp_exit {purpose : OrderPurpose} {refPrice : ℚ} (hd : Deciding cfg V b h s)
    (hw : Warranted cfg b s purpose) :
    Proc.wp (grantContract cfg V) (exit cfg purpose rules refPrice) (fun _ _ _ => True) h s := by
  have hP : Resolves cfg (fun _ => True) (SendsNothing cfg V) := sendsNothing
  refine (Proc.wp_bind _ _ _ _ _).2 ((wp_query _ _).2 fun s₁ hs₁ => ⟨trivial, ?_⟩)
  obtain ⟨rfl, hV⟩ := hs₁
  have hh₁ := (Onward.rfl (h := h)).step .query
  refine (Proc.wp_bind _ _ _ _ _).2 (Proc.wp_mono (hP.cancelStops _ _) ?_)
  rintro (e | ok) h₂ s₂ ⟨hh₂, hi₂⟩
  · trivial
  refine (Proc.wp_ite _ _ _ _ _ _).2 ?_
  split
  · refine (Proc.wp_bind _ _ _ _ _).2 ((wp_query _ _).2 fun s₃ hs₃ => ⟨trivial, ?_⟩)
    obtain ⟨rfl, -⟩ := hs₃
    have hh₃ := (hh₁.trans hh₂).step .query
    refine (Proc.wp_ite _ _ _ _ _ _).2 ?_
    split
    · trivial
    · refine (Proc.wp_bind _ _ _ _ _).2 (Proc.wp_mono (wp_submit (hd.grant hV hw hh₃ hi₂)) ?_)
      rintro (e | _ | o) h₄ s₄ -
      · trivial
      · trivial
      · refine (Proc.wp_bind _ _ _ _ _).2 ((wp_query _ _).2 fun s₅ _ => ⟨trivial, ?_⟩)
        refine (Proc.wp_ite _ _ _ _ _ _).2 ?_
        split <;> trivial
  · trivial

theorem setStop_orders {price : ℚ} {now : Time} {p : Position} {s' : Ledger}
    (h : PositionService.setStop cfg.bot cfg.symbol price now s = .ok (p, s')) :
    s'.orders = s.orders := by
  cases h
  rfl

/-- The position that `set_stop` returns is the one it has stored. -/
theorem setStop_position {price : ℚ} {now : Time} {p : Position} {s' : Ledger}
    (h : PositionService.setStop cfg.bot cfg.symbol price now s = .ok (p, s')) :
    p = s'.getPosition cfg.bot cfg.symbol := by
  obtain ⟨s₁, s₂, hget, hsave⟩ := Tx.bind_ok.1 h
  cases hget
  obtain ⟨rfl, hpos, -⟩ := Store.savePosition_ok hsave
  obtain ⟨hbot, hsymbol⟩ := s.getPosition_key cfg.bot cfg.symbol
  exact (Ledger.getPosition_upsert_self hpos hbot hsymbol).symm

/-- The exits and the resting stop of an open position. -/
theorem wp_manageOpen (hd : Deciding cfg V b h s) :
    Proc.wp (grantContract cfg V) (manageOpen cfg b.control b.rules b.snap b.signal
      (s.getPosition cfg.bot cfg.symbol)) (fun _ _ _ => True) h s := by
  have hexit {purpose : OrderPurpose} {refPrice : ℚ} (hw : Warranted cfg b s purpose) :
      Proc.wp (grantContract cfg V) (do
        return { action := ← exit cfg purpose b.rules refPrice } : Engine CycleResult)
        (fun _ _ _ => True) h s :=
    (Proc.wp_bind _ _ _ _ _).2 (Proc.wp_mono (wp_exit hd hw) fun r _ _ _ => by
      cases r <;> trivial)
  unfold manageOpen
  dsimp only
  split
  · next stop hhit =>
    refine hexit ?_
    split at hhit
    · next stop' low hstop hlow =>
      split at hhit
      · next hle => exact ⟨stop', low, hstop, hlow, hle⟩
      · cases hhit
    · cases hhit
  · refine (Proc.wp_ite _ _ _ _ _ _).2 ?_
    split
    · next hsell => exact hexit ⟨hsell.1, by simpa using hsell.2⟩
    · refine (Proc.wp_ite _ _ _ _ _ _).2 ?_
      split
      · refine (Proc.wp_bind _ _ _ _ _).2 (Proc.wp_mono (wp_ensureProtectiveStop fun hV h' s' o =>
          hd.grantStop hV) fun r _ _ _ => ?_)
        cases r <;> trivial
      · trivial

/-- What follows an entry is at most its protective stop. -/
theorem wp_protectEntry {o : Order}
    (hgrant : ∀ h' s' o, h <:+ h' → o.purpose = .protectiveStop → Granted cfg V h' s' o) :
    Proc.wp (grantContract cfg V) (protectEntry cfg rules o) (fun _ _ _ => True) h s := by
  refine (Proc.wp_ite _ _ _ _ _ _).2 ?_
  split
  · refine (Proc.wp_bind _ _ _ _ _).2 ((wp_query _ _).2 fun s₁ _ => ⟨trivial, ?_⟩)
    refine (Proc.wp_ite _ _ _ _ _ _).2 ?_
    split
    · refine (Proc.wp_bind _ _ _ _ _).2 ((wp_clockNow _).2 fun s₂ _ =>
        ⟨owes_nothing rfl, fun now _ => ?_⟩)
      refine (Proc.wp_bind _ _ _ _ _).2 (wp_transaction fun s₃ _ => ⟨fun p s₄ _ => ⟨trivial, ?_⟩,
        fun _ _ => ⟨trivial, trivial⟩⟩)
      refine (Proc.wp_ite _ _ _ _ _ _).2 ?_
      split
      · refine (Proc.wp_bind _ _ _ _ _).2 (Proc.wp_mono (wp_ensureProtectiveStop
          fun _ h' s' o hh => hgrant h' s' o ?_) fun r _ _ _ => ?_)
        · exact (((List.suffix_cons _ _).trans (List.suffix_cons _ _)).trans
            (List.suffix_cons _ _)).trans hh
        · cases r <;> trivial
      · trivial
    · trivial
  · trivial

theorem recentAt_iff {row : ReconciliationState} {now : Time} :
    row.fresh now cfg.reconStateMaxAgeSeconds = true ↔ RecentAt cfg row now := by
  simp only [ReconciliationState.fresh, RecentAt, Option.any_eq_true, decide_eq_true_eq]

theorem allowsEntries_iff {row : ReconciliationState} {now : Time} :
    row.allowsEntries now cfg.reconStateMaxAgeSeconds = true ↔
      row.status = .healthy ∧ RecentAt cfg row now := by
  rw [ReconciliationState.allowsEntries, Bool.and_eq_true, decide_eq_true_iff, recentAt_iff]

theorem allowsExits_iff {row : ReconciliationState} {now : Time} :
    row.allowsExits now cfg.reconStateMaxAgeSeconds = true ↔
      (row.status = .healthy ∨ row.status = .degraded) ∧ RecentAt cfg row now := by
  rw [ReconciliationState.allowsExits, Bool.and_eq_true, decide_eq_true_iff, recentAt_iff]

theorem entryBlocks_eq_nil {control : Control} {st : ReconciliationState} {entriesOk halted : Bool}
    {funds : Funds} {n : Nat} (h : entryBlocks cfg control st entriesOk funds n halted = []) :
    control.enabled = true ∧ control.emergencyStop = false ∧ cfg.globalTradingEnabled = true ∧
      entriesOk = true ∧ funds.balances.isSome = true ∧ n < cfg.maxOpenPositions ∧
      halted = false := by
  simp only [entryBlocks, RiskManager.entryChecks, List.append_eq_nil_iff, ite_eq_left_iff,
    ite_eq_right_iff, List.cons_ne_nil, imp_false, not_not, Bool.not_eq_true] at h
  obtain ⟨⟨⟨⟨⟨hon, hstop⟩, hglobal⟩, hentries⟩, hbal⟩, hcount, hhalt⟩ := h
  exact ⟨Bool.eq_true_of_not_eq_false hon, hstop, Bool.eq_true_of_not_eq_false hglobal,
    Bool.eq_true_of_not_eq_false hentries, Bool.eq_true_of_not_eq_false hbal, hcount, hhalt⟩

/-- An entry, when nothing speaks against it. -/
theorem wp_tryEntry {funds : Funds} {signalId : SignalId} (hd : Deciding cfg V b h s)
    (hflat : (s.getPosition cfg.bot cfg.symbol).isOpen b.rules = false)
    (hfunds : funds.balances.isSome = true → ∃ bal, b.balances = .ok bal) :
    Proc.wp (grantContract cfg V) (tryEntry cfg b.control b.row
      (b.row.allowsEntries b.entriesAt cfg.reconStateMaxAgeSeconds) funds b.rules b.snap b.signal
      signalId) (fun _ _ _ => True) h s := by
  refine (Proc.wp_ite _ _ _ _ _ _).2 ?_
  split
  · trivial
  · next hbuy =>
    refine (Proc.wp_bind _ _ _ _ _).2 ((wp_query _ _).2 fun s₁ hs₁ => ⟨trivial, ?_⟩)
    obtain ⟨rfl, hV⟩ := hs₁
    refine (Proc.wp_bind _ _ _ _ _).2 ((wp_query _ _).2 fun s₂ hs₂ => ⟨trivial, ?_⟩)
    obtain ⟨rfl, -⟩ := hs₂
    have hh₂ := ((Onward.rfl (h := h)).step .query).step .query
    refine (Proc.wp_ite _ _ _ _ _ _).2 ?_
    split
    · trivial
    · next hreasons =>
      obtain ⟨hon, hstop, hglobal, hrow, hbal, hcount, hhalt⟩ :=
        entryBlocks_eq_nil (not_not.1 hreasons)
      obtain ⟨hhealthy, hrecent⟩ := allowsEntries_iff.1 hrow
      have hw : Warranted cfg b s₂ .entry := ⟨not_not.1 hbuy, hon, hstop, hglobal, hhealthy,
        hrecent, hfunds hbal, hhalt, hflat, hcount⟩
      dsimp only
      split
      · trivial
      · next qty hqty =>
        refine (Proc.wp_bind _ _ _ _ _).2 (Proc.wp_mono (wp_submit
          (hd.grant hV hw hh₂ fun hidle => hidle)) ?_)
        rintro (e | _ | o) h₃ s₃ hh₃
        · trivial
        · trivial
        · refine (Proc.wp_bind _ _ _ _ _).2 (Proc.wp_mono (wp_protectEntry fun h' s' o hh =>
            hd.grantStop hV ((hh₂.1.trans hh₃).trans hh)) fun r _ _ _ => ?_)
          cases r <;> trivial

/-! ## The cycle up to the decision -/

/-- What a cycle knows when it turns to the orders in flight. -/
structure Informed (cfg : Config) (V : History Label Ans → Ledger → Prop) (b : Briefing)
    (h : History Label Ans) : Prop where
  given : b.Given cfg V h
  row : b.row.status = .healthy ∨ b.row.status = .degraded
  recent : RecentAt cfg b.row b.exitsAt
  unsent : submits h = []

theorem wp_decideOrders (signalId : SignalId) {funds : Funds} (hb : Informed cfg V b h)
    (hfunds : funds.balances.isSome = true → ∃ bal, b.balances = .ok bal) :
    Proc.wp (grantContract cfg V) (decideOrders cfg b.control b.row
      (b.row.allowsEntries b.entriesAt cfg.reconStateMaxAgeSeconds) funds b.rules b.snap b.signal
      signalId) (fun _ _ _ => True) h s := by
  have hP : Resolves cfg (fun _ => True) (SendsNothing cfg V) := sendsNothing
  refine (Proc.wp_bind _ _ _ _ _).2 ((wp_query _ _).2 fun s₁ _ => ⟨trivial, ?_⟩)
  have hh₁ := (Onward.rfl (h := h)).step .query
  refine (Proc.wp_bind _ _ _ _ _).2 (Proc.wp_mono (hP.refreshInFlight _ _) ?_)
  rintro (e | _) h₂ s₂ ⟨hh₂, -⟩
  · trivial
  refine (Proc.wp_bind _ _ _ _ _).2 ((wp_query _ _).2 fun s₃ _ => ⟨trivial, ?_⟩)
  have hh₃ := (hh₁.trans hh₂).step .query
  refine (Proc.wp_ite _ _ _ _ _ _).2 ?_
  split
  · trivial
  · next hidle =>
    have hd : Deciding cfg V b (.step .query :: h₂) s₃ :=
      ⟨hb.given.mono hh₃.1, hb.row, hb.recent, not_not.1 hidle, hh₃.2.trans hb.unsent⟩
    refine (Proc.wp_bind _ _ _ _ _).2 ((wp_query _ _).2 fun s₄ hs₄ => ⟨trivial, ?_⟩)
    obtain ⟨rfl, -⟩ := hs₄
    have hd₄ := hd.congr (Onward.rfl.step .query) rfl
    refine (Proc.wp_ite _ _ _ _ _ _).2 ?_
    split
    · split
      · exact wp_manageOpen hd₄
      · refine (Proc.wp_bind _ _ _ _ _).2 ((wp_clockNow _).2 fun s₅ hs₅ =>
          ⟨owes_nothing rfl, fun now _ => ?_⟩)
        obtain ⟨rfl, -⟩ := hs₅
        refine (Proc.wp_bind _ _ _ _ _).2 (wp_transaction fun s₆ hs₆ => ⟨fun p s₇ htx =>
          ⟨trivial, ?_⟩, fun _ _ => ⟨trivial, trivial⟩⟩)
        obtain ⟨rfl, -⟩ := hs₆
        have hd₇ := hd₄.congr ((Onward.rfl.call (q := .ambient .now) now rfl).step .commit)
          (setStop_orders htx)
        rw [setStop_position htx]
        exact wp_manageOpen hd₇
    · next hflat => exact wp_tryEntry hd₄ (Bool.eq_false_iff.2 hflat) hfunds

/-- The balances are asked for once, and the funds are known when they were answered. -/
theorem wp_readFunds {snap : MarketSnapshot} :
    Proc.wp (grantContract cfg V) (readFunds cfg rules snap) (fun r h' _ => ∃ a,
      Onward (.call (.call .balances) a :: h) h' ∧ ∀ funds, r = .ok funds →
        funds.balances.isSome = true → ∃ bal, a = .ok bal) h s := by
  have hP : Resolves cfg (fun _ => True) (SendsNothing cfg V) := sendsNothing
  refine (Proc.wp_bind _ _ _ _ _).2 ((Proc.wp_attempt _ _ _ _).2 ((wp_call _ _).2 fun s₁ _ =>
    ⟨owes_nothing rfl, fun a _ => ?_⟩))
  cases a with
  | ok bal =>
    have hset {day : RiskDay} :
        SendsNothing cfg V _ (transaction .commit (Store.setRiskDay cfg.bot day)).run :=
      sendsNothing_transaction fun _ _ _ h => by cases h; exact Idling.congr rfl
    refine Proc.wp_mono ((hP.seq (hP.read _ _) fun _ => hP.seq hP.now fun _ => hP.seq
      (hP.seq (hP.read _ _) fun _ => hP.seq hset fun _ => hP.pure _) fun _ =>
      hP.pure _ : SendsNothing ..) _ s₁) fun _ _ _ hh => ⟨.ok bal, hh.1, fun _ _ _ => ⟨bal, rfl⟩⟩
  | error e =>
    refine (Proc.wp_bind _ _ _ _ _).2 ((wp_query _ _).2 fun s₂ _ => ⟨trivial, .error e,
      Onward.rfl.step .query, fun funds hf hsome => ?_⟩)
    cases hf
    cases hsome

/-- From the signal on. -/
theorem wp_signal {control : Control} {row : ReconciliationState} {exitsAt entriesAt t : Time}
    {snap : MarketSnapshot} {bal : Except Exn BalanceSnapshot} {funds : Funds}
    {hg : History Label Ans} (hgate : Gated cfg V control row hg)
    (hrow : row.status = .healthy ∨ row.status = .degraded) (hrecent : RecentAt cfg row exitsAt)
    (hunsent : submits h = [])
    (hmarket : ∀ signal, Briefing.market ⟨control, row, exitsAt, entriesAt, snap, rules, bal, signal⟩
      cfg t hg <:+ h)
    (hfunds : funds.balances.isSome = true → ∃ b, bal = .ok b) :
    Proc.wp (grantContract cfg V) (do
      let signal ← call (.evaluate snap)
      let signalId : SignalId :=
        { bot := cfg.bot, symbol := cfg.symbol, candleTs := snap.candleTs, action := signal.action
          score := signal.score }
      let now ← clockNow
      transaction .commit (Store.enqueue .signals (.signal signalId)
        (.signal signalId snap.signalPrice signal.reasons cfg.tradingMode now) now)
      decideOrders cfg control row (row.allowsEntries entriesAt cfg.reconStateMaxAgeSeconds) funds
        rules snap signal signalId) (fun _ _ _ => True) h s := by
  refine (Proc.wp_bind _ _ _ _ _).2 ((wp_call _ _).2 fun s₁ _ =>
    ⟨owes_nothing rfl, fun a _ => ?_⟩)
  rcases a with e | signal
  · trivial
  refine (Proc.wp_bind _ _ _ _ _).2 ((wp_clockNow _).2 fun s₂ _ =>
    ⟨owes_nothing rfl, fun t' _ => ?_⟩)
  refine (Proc.wp_bind _ _ _ _ _).2 (wp_transaction fun s₃ _ => ⟨fun _ s₄ _ => ⟨trivial, ?_⟩,
    fun _ _ => ⟨trivial, trivial⟩⟩)
  have hb : Informed cfg V ⟨control, row, exitsAt, entriesAt, snap, rules, bal, signal⟩
      (.step .commit :: .call (.ambient .now) t' ::
        .call (.call (.evaluate snap)) (.ok signal) :: h) := by
    refine ⟨⟨hg, t, h, hgate, hmarket signal, ?_⟩, hrow, hrecent, ?_⟩
    · exact (List.suffix_cons _ _).trans (List.suffix_cons _ _)
    · exact (((Onward.rfl.call _ rfl).call t' rfl).step _).2.trans hunsent
  have hdecide := wp_decideOrders (s := s₄)
    ⟨cfg.bot, cfg.symbol, snap.candleTs, signal.action, signal.score⟩ hb hfunds
  exact hdecide

/-- From the market data on. -/
theorem wp_trade {control : Control} {row : ReconciliationState} {exitsAt entriesAt : Time}
    {hg : History Label Ans} (hgate : Gated cfg V control row hg)
    (hrow : row.status = .healthy ∨ row.status = .degraded) (hrecent : RecentAt cfg row exitsAt)
    (hunsent : submits hg = []) :
    Proc.wp (grantContract cfg V)
      (trade cfg control row (row.allowsEntries entriesAt cfg.reconStateMaxAgeSeconds))
      (fun _ _ _ => True) (.call (.ambient .now) entriesAt :: .call (.ambient .now) exitsAt :: hg)
      s := by
  refine (Proc.wp_bind _ _ _ _ _).2 ((wp_call _ _).2 fun s₁ _ =>
    ⟨owes_nothing rfl, fun a _ => ?_⟩)
  rcases a with e | reason | snap
  · trivial
  · trivial
  refine (Proc.wp_bind _ _ _ _ _).2 ((wp_call _ _).2 fun s₂ _ =>
    ⟨owes_nothing rfl, fun a _ => ?_⟩)
  rcases a with e | rules
  · trivial
  refine (Proc.wp_bind _ _ _ _ _).2 ((wp_clockNow _).2 fun s₃ _ =>
    ⟨owes_nothing rfl, fun t _ => ?_⟩)
  refine (Proc.wp_bind _ _ _ _ _).2 (wp_transaction fun s₄ _ => ⟨fun _ s₅ _ => ⟨trivial, ?_⟩,
    fun _ _ => ⟨trivial, trivial⟩⟩)
  refine (Proc.wp_bind _ _ _ _ _).2 (Proc.wp_mono wp_readFunds ?_)
  rintro (e | funds) h₁ s₆ ⟨bal, hh₁, hfunds⟩
  · trivial
  · exact wp_signal hgate hrow hrecent (hh₁.2.trans hunsent) (fun _ => hh₁.1) (hfunds funds rfl)

/-- The gate returns the row that it read last. -/
theorem wp_reconciliationGate {control : Control} :
    Proc.wp (grantContract cfg V) (reconciliationGate cfg control) (fun r h' s' =>
      Onward h h' ∧ ∀ row, r = .ok row → s'.getReconState cfg.bot = row) h s := by
  have hP : Resolves cfg (fun _ => True) (SendsNothing cfg V) := sendsNothing
  have hread {h₁ s₁} (hh : Onward h h₁) : Proc.wp (grantContract cfg V)
      (query .query (·.getReconState cfg.bot)) (fun r h' s' =>
        Onward h h' ∧ ∀ row, r = .ok row → s'.getReconState cfg.bot = row) h₁ s₁ :=
    (wp_query _ _).2 fun s₂ _ => ⟨trivial, hh.step _, fun _ hrow => Except.ok.inj hrow⟩
  refine (Proc.wp_bind _ _ _ _ _).2 ((wp_query _ _).2 fun s₁ _ => ⟨trivial, ?_⟩)
  have hh₁ := (Onward.rfl (h := h)).step .query
  refine (Proc.wp_ite _ _ _ _ _ _).2 ?_
  split
  · refine (Proc.wp_bind _ _ _ _ _).2 (Proc.wp_mono (hP.run _ _) ?_)
    rintro (e | res) h₂ s₂ hh₂
    · exact ⟨hh₁.trans hh₂.1, nofun⟩
    refine (Proc.wp_ite _ _ _ _ _ _).2 ?_
    split
    · refine (Proc.wp_bind _ _ _ _ _).2 ((wp_query _ _).2 fun s₃ _ => ⟨trivial, ?_⟩)
      refine (Proc.wp_bind _ _ _ _ _).2 ((wp_clockNow _).2 fun s₄ _ =>
        ⟨owes_nothing rfl, fun t _ => ?_⟩)
      have hh₄ := ((hh₁.trans hh₂.1).step .rowRead).call (q := .ambient .now) t rfl
      refine (Proc.wp_bind _ _ _ _ _).2 (wp_transaction fun s₅ _ => ⟨fun _ s₆ _ => ⟨trivial, ?_⟩,
        fun _ _ => ⟨trivial, hh₄.step _, nofun⟩⟩)
      exact hread (hh₄.step _)
    · exact hread (hh₁.trans hh₂.1)
  · exact ⟨hh₁, fun _ hrow => Except.ok.inj hrow⟩

/-- A cycle owes nothing: every order it sends is granted. -/
theorem wp_runOnce :
    Proc.wp (grantContract cfg V) (runOnce cfg) (fun _ _ _ => True) [] s := by
  refine (Proc.wp_bind _ _ _ _ _).2 ((wp_clockNow _).2 fun s₁ _ =>
    ⟨owes_nothing rfl, fun t _ => ?_⟩)
  refine (Proc.wp_bind _ _ _ _ _).2 ((Proc.wp_attempt _ _ _ _).2 ((wp_call _ _).2 fun s₂ _ =>
    ⟨owes_nothing rfl, fun a _ => ?_⟩))
  rcases a with e | control
  · refine (Proc.wp_bind _ _ _ _ _).2 (wp_transaction fun s₃ _ =>
      ⟨fun _ _ _ => ⟨trivial, trivial⟩, fun _ _ => ⟨trivial, trivial⟩⟩)
  refine (Proc.wp_bind _ _ _ _ _).2 ((Proc.wp_attempt _ _ _ _).2 ((wp_call _ _).2 fun s₃ _ =>
    ⟨owes_nothing rfl, fun a _ => ?_⟩))
  rcases a with e | ⟨⟩
  · trivial
  refine (Proc.wp_bind _ _ _ _ _).2 (Proc.wp_mono wp_reconciliationGate ?_)
  rintro (e | row) h₁ s₄ ⟨hh₁, hrow⟩
  · trivial
  refine (Proc.wp_bind _ _ _ _ _).2 ((wp_clockNow _).2 fun s₅ hs₅ =>
    ⟨owes_nothing rfl, fun exitsAt _ => ?_⟩)
  obtain ⟨rfl, hV⟩ := hs₅
  have hgate : Gated cfg V control row h₁ := ⟨⟨t, hh₁.1⟩, s₅, hV, hrow row rfl⟩
  refine (Proc.wp_bind _ _ _ _ _).2 ((wp_clockNow _).2 fun s₆ _ =>
    ⟨owes_nothing rfl, fun entriesAt _ => ?_⟩)
  refine (Proc.wp_ite _ _ _ _ _ _).2 ?_
  split
  · trivial
  · next hexits =>
    rw [Bool.not_eq_true, Bool.not_eq_false'] at hexits
    obtain ⟨hstatus, hrecent⟩ := allowsExits_iff.1 hexits
    refine (Proc.wp_bind _ _ _ _ _).2
      (Proc.wp_mono (wp_trade hgate hstatus hrecent hh₁.2) fun r _ _ _ => ?_)
    cases r <;> trivial

/-! ## Every run of a cycle -/

/-- The points of the runs of `run_once` from the ledger `s`, whatever it is told. -/
abbrev Cycle (cfg : Config) (s : Ledger) : Point Ledger Label Ans PUnit → Prop :=
  Path (fun _ _ _ _ => True) ⟨(runOnce cfg).run.forget, [], s⟩

/-- The history and the ledger of such a point. -/
abbrev Passed (cfg : Config) (s : Ledger) : History Label Ans → Ledger → Prop :=
  Path.Passes (fun _ _ _ _ => True) ⟨(runOnce cfg).run.forget, [], s⟩

/-- The orders sent by now other than protective stops. -/
def decided (h : History Label Ans) : List (Order × SymbolRules) :=
  (submits h).filter fun x => decide (x.1.purpose ≠ .protectiveStop)

theorem submitting?_eq_some {p : Prog Ledger Label Ans PUnit} {o : Order}
    (hp : submitting? p = some o) : ∃ rules k, p = .call (.call (.submit o rules)) k := by
  unfold submitting? at hp
  split at hp
  · cases hp
    exact ⟨_, _, rfl⟩
  · cases hp

theorem Cycle.granted {s₀ : Ledger} {p : Prog Ledger Label Ans PUnit} {o : Order}
    (hpath : Cycle cfg s₀ ⟨p, h, s⟩) (ho : submitting? p = some o) :
    Granted cfg (Passed cfg s₀) h s o := by
  obtain ⟨rules, k, rfl⟩ := submitting?_eq_some ho
  refine Path.guard (C := grantContract cfg (Passed cfg s₀)) ?_ (fun _ _ _ _ _ => trivial)
    (Prog.wp_forget wp_runOnce) hpath o rules rfl
  exact fun _ _ hp => ⟨rfl, hp⟩

/-- In every run of a cycle, from every ledger and whatever the control plane, the market, the
strategy and the exchange answer: an order is sent only after the cycle has passed a point where it
decided and where the order was warranted, and at most one order other than a protective stop is
sent. -/
theorem submission_granted {s₀ : Ledger} {x : Point Ledger Label Ans PUnit} (hx : Cycle cfg s₀ x) :
    (∀ o, submitting? x.prog = some o → Granted cfg (Passed cfg s₀) x.hist x.state o) ∧
      (decided x.hist).length ≤ 1 := by
  refine ⟨fun o ho => Cycle.granted hx ho, ?_⟩
  induction hx with
  | refl => exact Nat.zero_le 1
  | @tail y z hy hnext ih =>
    cases hnext with
    | atomic => exact ih
    | @call q k h s a ha =>
      by_cases hq : q.isSubmit = false
      · rw [decided, ((Onward.rfl (h := h)).call a hq).2]
        exact ih
      · obtain ⟨o, rules, rfl⟩ : ∃ o rules, q = .call (.submit o rules) := by
          unfold Request.isSubmit at hq
          split at hq
          · exact ⟨_, _, rfl⟩
          · cases hq rfl
        obtain ⟨b, hd, sd, -, -, -, -, hfirst⟩ := Cycle.granted hy (o := o) rfl
        have hcons : submits (.call (.call (.submit o rules)) a :: h) =
            (o, rules) :: submits h := rfl
        by_cases hp : o.purpose = .protectiveStop
        · rw [decided, hcons, List.filter_cons_of_neg (by simpa using hp)]
          exact ih
        · rw [decided, hcons, (hfirst hp).1]
          exact List.length_filter_le _ _

end

/-! ## An entry -/

/-- The ledger after a clean reconciliation. -/
def healthyLedger : Ledger :=
  (Prog.run (exchangeEnv (marketAnswers .hold (listing (.ok []))))
    (ReconciliationService.run sampleConfig "startup" false).run [] {}).2.2

/-- A cycle on a BUY signal, from that ledger, at the call that sends the entry. -/
def enteringCycle : Point Ledger Label Ans PUnit :=
  Point.go (exchangeEnv (marketAnswers .buy (listing (.ok [])))) 27
    ⟨(runOnce sampleConfig).run.forget, [], healthyLedger⟩

/-- The entry is sent, and it is granted. -/
theorem entry_granted :
    ∃ o, submitting? enteringCycle.prog = some o ∧ o.purpose = .entry ∧
      Granted sampleConfig (Passed sampleConfig healthyLedger) enteringCycle.hist
        enteringCycle.state o := by
  have hentry : (submitting? enteringCycle.prog).map (·.purpose) = some .entry := by
    decide +kernel
  obtain ⟨o, ho, hpurpose⟩ := Option.map_eq_some_iff.1 hentry
  have hcycle : Cycle sampleConfig healthyLedger enteringCycle :=
    Point.path_go (fun _ _ _ => trivial) 27 _
  exact ⟨o, ho, hpurpose, (submission_granted hcycle).1 o ho⟩

end CryptoBot
