import CryptoBot.Application.Gating
import CryptoBot.Lib.Authority

/-!
# On what authority an order is sent

`Gating` follows one cycle that runs alone. Here any number of processes work on the ledger, and what
a cycle has read may no longer be so when it sends. What remains is that each order rests on what
its process was told and saw since its start: the control state and the configuration came first,
then a recent reconciliation row, the market, the balances and a signal, and the ledgers it looked at
when it decided.
-/

namespace CryptoBot

open Lib OrderService TradingCycle

variable {cfg : Config} {M : History Label Ans → Ledger → Prop} {h h' : History Label Ans}
  {s : Ledger}

/-! ## What a process saw -/

/-- By the history `h` the process has taken a step in a ledger of which `K` holds. -/
def Noticed (M : History Label Ans → Ledger → Prop) (h : History Label Ans) (K : Ledger → Prop) :
    Prop :=
  ∃ l h₀ s, .step l :: h₀ <:+ h ∧ M h₀ s ∧ K s

theorem Noticed.mono {K : Ledger → Prop} (hK : Noticed M h K) (hh : h <:+ h') : Noticed M h' K := by
  obtain ⟨l, h₀, s, h₁, hM, hs⟩ := hK
  exact ⟨l, h₀, s, h₁.trans hh, hM, hs⟩

theorem Noticed.now {K : Ledger → Prop} (l : Label) (hM : M h s) (hK : K s) :
    Noticed M (.step l :: h) K :=
  ⟨l, h, s, List.suffix_rfl, hM, hK⟩

/-- The cycle was told the control state, and then read the row with its last event, a query. -/
structure Sighted (cfg : Config) (M : History Label Ans → Ledger → Prop) (control : Control)
    (row : ReconciliationState) (h : History Label Ans) : Prop where
  opened : ∃ t, opening control t <:+ h
  row : ∃ h₀ s, h = .step .query :: h₀ ∧ M h₀ s ∧ s.getReconState cfg.bot = row

/-- The cycle was told all of `b`, and the row was HEALTHY or DEGRADED and recent. -/
structure Instructed (cfg : Config) (M : History Label Ans → Ledger → Prop) (b : Briefing)
    (h : History Label Ans) : Prop where
  told : ∃ hg t hb, Sighted cfg M b.control b.row hg ∧ b.market cfg t hg <:+ hb ∧
    .call (.call (.evaluate b.snap)) (.ok b.signal) :: hb <:+ h
  row : b.row.status = .healthy ∨ b.row.status = .degraded
  recent : RecentAt cfg b.row b.exitsAt

theorem Instructed.mono {b : Briefing} (hb : Instructed cfg M b h) (hh : h <:+ h') :
    Instructed cfg M b h' := by
  obtain ⟨⟨hg, t, hb, hgate, hmarket, hsignal⟩, hrow, hrecent⟩ := hb
  exact ⟨⟨hg, t, hb, hgate, hmarket, hsignal.trans hh⟩, hrow, hrecent⟩

/-! ## What an order rests on -/

/-- The stop of the position was hit: one that the position had, or one that the cycle has set on a
position that had none. -/
def StopHit (cfg : Config) (M : History Label Ans → Ledger → Prop) (b : Briefing)
    (h : History Label Ans) : Prop :=
  ∃ stop low opened, b.snap.stopCheckLow opened = some low ∧ low ≤ stop ∧
    (Noticed M h (fun s => (s.getPosition cfg.bot cfg.symbol).stopPrice = some stop ∧
        (s.getPosition cfg.bot cfg.symbol).openedAt = opened) ∨
      Noticed M h (fun s => (s.getPosition cfg.bot cfg.symbol).stopPrice = none ∧
        stop = entryStop cfg b.rules (s.getPosition cfg.bot cfg.symbol).averageEntryPrice) ∧
      Noticed M h fun s => (s.getPosition cfg.bot cfg.symbol).openedAt = opened)

/-- What an order of a purpose rests on, by what the cycle was told and the ledgers it looked at. -/
def Backed (cfg : Config) (M : History Label Ans → Ledger → Prop) (b : Briefing)
    (h : History Label Ans) : OrderPurpose → Prop
  | .entry =>
    b.signal.action = .buy ∧ b.control.enabled = true ∧ b.control.emergencyStop = false ∧
    cfg.globalTradingEnabled = true ∧ b.row.status = .healthy ∧ RecentAt cfg b.row b.entriesAt ∧
    (∃ bal, b.balances = .ok bal) ∧ Noticed M h (fun s => inFlight cfg s = []) ∧
    Noticed M h (fun s => (s.getPosition cfg.bot cfg.symbol).isOpen b.rules = false) ∧
    Noticed M h (fun s =>
      PositionService.openPositionCount s cfg.bot cfg.symbol b.rules < cfg.maxOpenPositions) ∧
    Noticed M h fun s => RiskManager.isDailyHalted cfg s = false
  | .exit =>
    b.signal.action = .sell ∧ b.control.emergencyStop = false ∧
    Noticed M h (fun s => inFlight cfg s = []) ∧
    Noticed M h fun s => (s.getPosition cfg.bot cfg.symbol).isOpen b.rules = true
  | .stopExit =>
    StopHit cfg M b h ∧ Noticed M h (fun s => inFlight cfg s = []) ∧
    Noticed M h fun s => (s.getPosition cfg.bot cfg.symbol).isOpen b.rules = true
  | .protectiveStop =>
    cfg.protectiveStopOnExchange = true ∧
    Noticed M h (fun s => (s.getPosition cfg.bot cfg.symbol).isOpen b.rules = true) ∧
    Noticed M h fun s =>
      ∀ o ∈ s.nonTerminalOrders cfg.bot cfg.symbol, o.purpose ≠ .protectiveStop

theorem StopHit.mono {b : Briefing} (hb : StopHit cfg M b h) (hh : h <:+ h') :
    StopHit cfg M b h' := by
  obtain ⟨stop, low, opened, hlow, hle, hstop | ⟨hnone, hopen⟩⟩ := hb
  · exact ⟨stop, low, opened, hlow, hle, .inl (hstop.mono hh)⟩
  · exact ⟨stop, low, opened, hlow, hle, .inr ⟨hnone.mono hh, hopen.mono hh⟩⟩

theorem Backed.mono {b : Briefing} {purpose : OrderPurpose} (hb : Backed cfg M b h purpose)
    (hh : h <:+ h') : Backed cfg M b h' purpose := by
  cases purpose with
  | entry =>
    obtain ⟨h₁, h₂, h₃, h₄, h₅, h₆, h₇, hidle, hflat, hcount, hhalt⟩ := hb
    exact ⟨h₁, h₂, h₃, h₄, h₅, h₆, h₇, hidle.mono hh, hflat.mono hh, hcount.mono hh, hhalt.mono hh⟩
  | exit =>
    obtain ⟨h₁, h₂, hidle, hopen⟩ := hb
    exact ⟨h₁, h₂, hidle.mono hh, hopen.mono hh⟩
  | stopExit =>
    obtain ⟨hstop, hidle, hopen⟩ := hb
    exact ⟨hstop.mono hh, hidle.mono hh, hopen.mono hh⟩
  | protectiveStop =>
    obtain ⟨h₁, hopen, hstop⟩ := hb
    exact ⟨h₁, hopen.mono hh, hstop.mono hh⟩

/-- An order of this purpose may be sent. -/
def Authorised (cfg : Config) (M : History Label Ans → Ledger → Prop) (h : History Label Ans)
    (purpose : OrderPurpose) : Prop :=
  ∃ b, Instructed cfg M b h ∧ Backed cfg M b h purpose

theorem Authorised.mono {purpose : OrderPurpose} (ha : Authorised cfg M h purpose) (hh : h <:+ h') :
    Authorised cfg M h' purpose := by
  obtain ⟨b, hb, hbacked⟩ := ha
  exact ⟨b, hb.mono hh, hbacked.mono hh⟩

/-- Only orders that may be sent are handed to the executor. -/
def AuthorisedRequest (cfg : Config) (M : History Label Ans → Ledger → Prop) (h : History Label Ans)
    (q : Request) : Prop :=
  ∀ o rules, q = .call (.submit o rules) → Authorised cfg M h o.purpose

/-- What a process owes that has seen `M`. -/
abbrev authority (cfg : Config) (M : History Label Ans → Ledger → Prop) :
    Contract Ledger Label Ans := .authority M (AuthorisedRequest cfg M)

/-! ## What is asked for -/

/-- An order that is handed to the executor has this purpose. -/
def Ordering (purpose : OrderPurpose) (q : Request) : Prop :=
  ∀ o rules, q = .call (.submit o rules) → o.purpose = purpose

theorem ordering_of_not_isSubmit {purpose : OrderPurpose} {q : Request} (hq : q.isSubmit = false) :
    Ordering purpose q := by
  rintro o rules rfl
  cases hq

theorem authorised_of_not_isSubmit {q : Request} (hq : q.isSubmit = false) :
    AuthorisedRequest cfg M h q := by
  rintro o rules rfl
  cases hq

/-- Everything but a submission hands nothing to the executor. -/
theorem asks_nothing (cfg : Config) : Resolves cfg (fun _ => True)
    fun (α : Type) (p : Prog Ledger Label Ans α) => p.Asks fun q => q.isSubmit = false := by
  have hP : Handles cfg (fun _ => True)
      fun (α : Type) (p : Prog Ledger Label Ans α) => p.Asks fun q => q.isSubmit = false :=
    { toSequenced := Prog.Asks.sequenced _
      read := fun _ _ _ => trivial
      ambient := fun _ _ => ⟨rfl, fun _ => trivial⟩
      call := fun r _ hr hk => ⟨hr, fun a => hk a (heard_true r a)⟩
      keep := fun _ _ _ => fun _ => trivial
      report := fun _ _ _ _ => trivial
      event := fun _ _ _ _ _ _ => trivial }
  exact ⟨hP, fun o => hP.resolveAmbiguous (hP.seq hP.now fun _ => hP.ite (hP.pure _)
    (hP.seq (fun _ => trivial) fun _ => hP.pure _))⟩

theorem asks_ordering {α : Type} {p : Engine α} {purpose : OrderPurpose}
    (hp : p.run.Asks fun q => q.isSubmit = false) : p.run.Asks (Ordering purpose) :=
  hp.mono fun _ => ordering_of_not_isSubmit

theorem asks_submitIntent {intent : OrderIntent} {rules : SymbolRules} :
    (submitIntent cfg intent rules).run.Asks (Ordering intent.purpose) := by
  have hN := asks_nothing cfg
  have hP := Prog.Asks.sequenced (σ := Ledger) (ι := Label) (A := Ans) (Ordering intent.purpose)
  refine hP.seq (asks_ordering (hN.read _ _)) fun existing => ?_
  cases existing with
  | some o => exact hP.pure _
  | none =>
    refine hP.seq (asks_ordering hN.now) fun now => ?_
    cases ho : (newOrder cfg intent rules).markSubmitting now with
    | error message => exact hP.throw _
    | ok o₀ =>
      intro s
      cases htx : persistTx intent o₀ now s with
      | error e =>
        simp only [htx]
        exact trivial
      | ok r =>
        obtain ⟨r, s'⟩ := r
        simp only [htx]
        rcases persistTx_cases ho htx with ⟨rfl, -, -⟩ | ⟨o, rfl, hplaced⟩
        · exact trivial
        · have hrest (out : SubmitOutcome) : (do
              settle cfg o out
              query .query (·.getOrder o.clientOrderId) : Engine (Option Order)).run.Asks
                fun q => q.isSubmit = false :=
            hN.seq (hN.settle hN.resolve (fun _ _ => trivial) (fun _ _ _ _ => trivial)
              fun _ _ _ => trivial) fun _ => hN.read _ _
          refine ⟨?_, fun a => ?_⟩
          · rintro _ _ ⟨⟩
            exact hplaced.purpose
          · cases a with
            | ok out => exact asks_ordering (hrest _)
            | error e => exact asks_ordering (hrest _)

theorem asks_submit {purpose : OrderPurpose} {side : OrderSide} {qty refPrice : ℚ}
    {rules : SymbolRules} {base : IntentBase} {signalId : Option SignalId} {orderType : OrderType}
    {limit stop : Option ℚ} :
    (submit cfg purpose side qty rules refPrice base signalId orderType limit stop).run.Asks
      (Ordering purpose) := by
  have hN := asks_nothing cfg
  have hP := Prog.Asks.sequenced (σ := Ledger) (ι := Label) (A := Ans) (Ordering purpose)
  refine hP.seq (asks_ordering hN.nextIntentId) fun iid => ?_
  cases iid with
  | none =>
    exact asks_ordering (hN.seq hN.now fun _ => hN.seq (hN.enqueue _) fun _ =>
      hN.seq (hN.enqueue _) fun _ => hN.pure _)
  | some iid =>
    let intent := newIntent cfg iid purpose side qty refPrice signalId orderType limit stop
    exact (asks_submitIntent : (submitIntent cfg intent rules).run.Asks (Ordering intent.purpose))

theorem asks_exit {purpose : OrderPurpose} {rules : SymbolRules} {refPrice : ℚ} :
    (exit cfg purpose rules refPrice).run.Asks (Ordering purpose) := by
  have hN := asks_nothing cfg
  have hP := Prog.Asks.sequenced (σ := Ledger) (ι := Label) (A := Ans) (Ordering purpose)
  refine hP.seq (asks_ordering (hN.read _ _)) fun _ => hP.seq (asks_ordering hN.cancelStops) fun _ =>
    hP.ite ?_ (hP.pure _)
  refine hP.seq (asks_ordering (hN.read _ _)) fun _ => hP.ite (hP.pure _)
    (hP.seq asks_submit fun order => ?_)
  cases order with
  | none => exact hP.pure _
  | some o => exact asks_ordering (hN.seq (hN.read _ _) fun _ => hN.ite (hN.pure _) (hN.pure _))

/-! ## What a cycle owes -/

/-- A program that hands nothing to the executor. -/
theorem wp_quiet {α : Type} {p : Engine α} (hp : p.run.Asks fun q => q.isSubmit = false) :
    Proc.wp (authority cfg M) p (fun _ h' _ => h <:+ h') h s :=
  Prog.Asks.wp hp fun _ _ _ => authorised_of_not_isSubmit

/-- A program that sends orders of one purpose, from where they may be sent. -/
theorem wp_ordering {α : Type} {p : Engine α} {purpose : OrderPurpose}
    (hp : p.run.Asks (Ordering purpose)) (ha : Authorised cfg M h purpose) :
    Proc.wp (authority cfg M) p (fun _ h' _ => h <:+ h') h s := by
  refine Prog.Asks.wp hp fun h' q hh hq => ?_
  rintro o rules rfl
  rw [hq o rules rfl]
  exact ha.mono hh

variable {b : Briefing} {rules : SymbolRules}

/-- `set_stop` sets the stop, and returns the position with its opening. -/
theorem setStop_sets {price : ℚ} {now : Time} {p : Position} {s' : Ledger}
    (h : PositionService.setStop cfg.bot cfg.symbol price now s = .ok (p, s')) :
    p.stopPrice = some price ∧ p.openedAt = (s.getPosition cfg.bot cfg.symbol).openedAt := by
  cases h
  exact ⟨rfl, rfl⟩

theorem wp_ensureProtectiveStop_authorised {position : Position} (hb : Instructed cfg M b h)
    (hexchange : cfg.protectiveStopOnExchange = true)
    (hopen : Noticed M h fun s => (s.getPosition cfg.bot cfg.symbol).isOpen b.rules = true) :
    Proc.wp (authority cfg M) (ensureProtectiveStop cfg position b.rules) (fun _ _ _ => True)
      h s := by
  refine (Proc.wp_bind _ _ _ _ _).2 ((wp_query _ _).2 fun s₁ hM => ⟨trivial, ?_⟩)
  have hh := List.suffix_cons (Event.step (A := Ans) Label.query) h
  dsimp only
  split
  · trivial
  · refine (Proc.wp_ite _ _ _ _ _ _).2 ?_
    split
    · trivial
    · next hnone =>
      have hunprotected : ∀ o ∈ s₁.nonTerminalOrders cfg.bot cfg.symbol,
          o.purpose ≠ .protectiveStop := by
        simpa using hnone
      have ha : Authorised cfg M (.step .query :: h) .protectiveStop :=
        ⟨b, hb.mono hh, hexchange, hopen.mono hh, Noticed.now _ hM hunprotected⟩
      refine (Proc.wp_ite _ _ _ _ _ _).2 ?_
      split
      · trivial
      · refine (Proc.wp_bind _ _ _ _ _).2 (Proc.wp_mono (wp_ordering asks_submit ha)
          fun r _ _ _ => ?_)
        rcases r with e | _ | o <;> trivial

/-- An exit of a position, on the authority the cycle has by now. -/
theorem wp_exit_authorised {purpose : OrderPurpose} {refPrice : ℚ}
    (ha : Authorised cfg M h purpose) :
    Proc.wp (authority cfg M) (do
      return { action := ← exit cfg purpose rules refPrice } : Engine CycleResult)
      (fun _ _ _ => True) h s :=
  (Proc.wp_bind _ _ _ _ _).2 (Proc.wp_mono (wp_ordering asks_exit ha) fun r _ _ _ => by
    cases r <;> trivial)

/-- The exits and the resting stop of a position whose stop and opening the cycle knows. -/
theorem wp_manageOpen_authorised {position : Position} (hb : Instructed cfg M b h)
    (hidle : Noticed M h fun s => inFlight cfg s = [])
    (hopen : Noticed M h fun s => (s.getPosition cfg.bot cfg.symbol).isOpen b.rules = true)
    (hstop : ∀ stop low, position.stopPrice = some stop →
      b.snap.stopCheckLow position.openedAt = some low → low ≤ stop → StopHit cfg M b h) :
    Proc.wp (authority cfg M) (manageOpen cfg b.control b.rules b.snap b.signal position)
      (fun _ _ _ => True) h s := by
  unfold manageOpen
  dsimp only
  split
  · next stop hhit =>
    refine wp_exit_authorised ⟨b, hb, ?_, hidle, hopen⟩
    split at hhit
    · next stop' low hprice hlow =>
      split at hhit
      · next hle => exact hstop stop' low hprice hlow hle
      · cases hhit
    · cases hhit
  · refine (Proc.wp_ite _ _ _ _ _ _).2 ?_
    split
    · next hsell =>
      exact wp_exit_authorised ⟨b, hb, hsell.1, by simpa using hsell.2, hidle, hopen⟩
    · refine (Proc.wp_ite _ _ _ _ _ _).2 ?_
      split
      · next hexchange =>
        refine (Proc.wp_bind _ _ _ _ _).2 (Proc.wp_mono
          (wp_ensureProtectiveStop_authorised hb hexchange hopen) fun r _ _ _ => ?_)
        cases r <;> trivial
      · trivial

/-- What follows an entry is at most its protective stop. -/
theorem wp_protectEntry_authorised {o : Order} (hb : Instructed cfg M b h) :
    Proc.wp (authority cfg M) (protectEntry cfg b.rules o) (fun _ _ _ => True) h s := by
  refine (Proc.wp_ite _ _ _ _ _ _).2 ?_
  split
  · refine (Proc.wp_bind _ _ _ _ _).2 ((wp_query _ _).2 fun s₁ hM => ⟨trivial, ?_⟩)
    have hh₁ := List.suffix_cons (Event.step (A := Ans) Label.query) h
    refine (Proc.wp_ite _ _ _ _ _ _).2 ?_
    split
    · next hisOpen =>
      have hopen := Noticed.now (K := fun s =>
        (s.getPosition cfg.bot cfg.symbol).isOpen b.rules = true) .query hM hisOpen
      refine (Proc.wp_bind _ _ _ _ _).2 ((wp_clockNow _).2 fun s₂ _ =>
        ⟨authorised_of_not_isSubmit rfl, fun now _ => ?_⟩)
      refine (Proc.wp_bind _ _ _ _ _).2 (wp_transaction fun s₃ _ => ⟨fun p s₄ _ => ⟨trivial, ?_⟩,
        fun _ _ => ⟨trivial, trivial⟩⟩)
      have hh₄ : .step .query :: h <:+ .step .commit :: .call (.ambient .now) now ::
          .step .query :: h := (List.suffix_cons _ _).trans (List.suffix_cons _ _)
      refine (Proc.wp_ite _ _ _ _ _ _).2 ?_
      split
      · next hexchange =>
        refine (Proc.wp_bind _ _ _ _ _).2 (Proc.wp_mono (wp_ensureProtectiveStop_authorised
          (hb.mono (hh₁.trans hh₄)) hexchange.1 (hopen.mono hh₄)) fun r _ _ _ => ?_)
        cases r <;> trivial
      · trivial
    · trivial
  · trivial

/-- An entry, when nothing speaks against it. -/
theorem wp_tryEntry_authorised {signalId : SignalId} {funds : Funds} (hb : Instructed cfg M b h)
    (hidle : Noticed M h fun s => inFlight cfg s = [])
    (hflat : Noticed M h fun s => (s.getPosition cfg.bot cfg.symbol).isOpen b.rules = false)
    (hfunds : funds.balances.isSome = true → ∃ bal, b.balances = .ok bal) :
    Proc.wp (authority cfg M) (tryEntry cfg b.control b.row
      (b.row.allowsEntries b.entriesAt cfg.reconStateMaxAgeSeconds) funds b.rules b.snap b.signal
      signalId) (fun _ _ _ => True) h s := by
  refine (Proc.wp_ite _ _ _ _ _ _).2 ?_
  split
  · trivial
  · next hbuy =>
    refine (Proc.wp_bind _ _ _ _ _).2 ((wp_query _ _).2 fun s₁ hM₁ => ⟨trivial, ?_⟩)
    refine (Proc.wp_bind _ _ _ _ _).2 ((wp_query _ _).2 fun s₂ hM₂ => ⟨trivial, ?_⟩)
    have hh₁ := List.suffix_cons (Event.step (A := Ans) Label.query) h
    have hh₂ := List.suffix_cons (Event.step (A := Ans) Label.query) (.step .query :: h)
    refine (Proc.wp_ite _ _ _ _ _ _).2 ?_
    split
    · trivial
    · next hreasons =>
      obtain ⟨hon, hstop, hglobal, hrow, hbal, hcount, hhalt⟩ :=
        entryBlocks_eq_nil (not_not.1 hreasons)
      obtain ⟨hhealthy, hrecent⟩ := allowsEntries_iff.1 hrow
      have ha : Authorised cfg M (.step .query :: .step .query :: h) .entry := by
        refine ⟨b, hb.mono (hh₁.trans hh₂), not_not.1 hbuy, hon, hstop, hglobal, hhealthy, hrecent,
          hfunds hbal, hidle.mono (hh₁.trans hh₂), hflat.mono (hh₁.trans hh₂), ?_, ?_⟩
        · exact (Noticed.now .query hM₁ hcount).mono hh₂
        · exact Noticed.now _ hM₂ hhalt
      dsimp only
      split
      · trivial
      · refine (Proc.wp_bind _ _ _ _ _).2 (Proc.wp_mono (wp_ordering asks_submit ha) ?_)
        rintro (e | _ | o) h₃ s₃ hh₃
        · trivial
        · trivial
        · refine (Proc.wp_bind _ _ _ _ _).2 (Proc.wp_mono (wp_protectEntry_authorised
            (hb.mono ((hh₁.trans hh₂).trans hh₃))) fun r _ _ _ => ?_)
          cases r <;> trivial

theorem wp_decideOrders_authorised (signalId : SignalId) {funds : Funds} (hb : Instructed cfg M b h)
    (hfunds : funds.balances.isSome = true → ∃ bal, b.balances = .ok bal) :
    Proc.wp (authority cfg M) (decideOrders cfg b.control b.row
      (b.row.allowsEntries b.entriesAt cfg.reconStateMaxAgeSeconds) funds b.rules b.snap b.signal
      signalId) (fun _ _ _ => True) h s := by
  refine (Proc.wp_bind _ _ _ _ _).2 ((wp_query _ _).2 fun s₁ _ => ⟨trivial, ?_⟩)
  have hh₁ := List.suffix_cons (Event.step (A := Ans) Label.query) h
  refine (Proc.wp_bind _ _ _ _ _).2
    (Proc.wp_mono (wp_quiet (asks_nothing cfg).refreshInFlight) ?_)
  rintro (e | _) h₂ s₂ hh₂
  · trivial
  refine (Proc.wp_bind _ _ _ _ _).2 ((wp_query _ _).2 fun s₃ hM₃ => ⟨trivial, ?_⟩)
  have hh₃ := (hh₁.trans hh₂).trans (List.suffix_cons (Event.step Label.query) h₂)
  refine (Proc.wp_ite _ _ _ _ _ _).2 ?_
  split
  · trivial
  · next hnone =>
    have hidle := Noticed.now (K := fun s => inFlight cfg s = []) .query hM₃ (not_not.1 hnone)
    refine (Proc.wp_bind _ _ _ _ _).2 ((wp_query _ _).2 fun s₄ hM₄ => ⟨trivial, ?_⟩)
    have hh₄ := List.suffix_cons (Event.step (A := Ans) Label.query) (.step .query :: h₂)
    have hb₄ := hb.mono (hh₃.trans hh₄)
    refine (Proc.wp_ite _ _ _ _ _ _).2 ?_
    split
    · next hisOpen =>
      have hopen := Noticed.now (K := fun s =>
        (s.getPosition cfg.bot cfg.symbol).isOpen b.rules = true) .query hM₄ hisOpen
      split
      · refine wp_manageOpen_authorised hb₄ (hidle.mono hh₄) hopen fun stop low hp hlow hle => ?_
        exact ⟨stop, low, _, hlow, hle, .inl (Noticed.now _ hM₄ ⟨hp, rfl⟩)⟩
      · next hnostop =>
        refine (Proc.wp_bind _ _ _ _ _).2 ((wp_clockNow _).2 fun s₅ _ =>
          ⟨authorised_of_not_isSubmit rfl, fun now _ => ?_⟩)
        refine (Proc.wp_bind _ _ _ _ _).2 (wp_transaction fun s₆ hM₆ => ⟨fun p s₇ htx =>
          ⟨trivial, ?_⟩, fun _ _ => ⟨trivial, trivial⟩⟩)
        have hh₆ : .step .query :: .step .query :: h₂ <:+ .call (.ambient .now) now ::
            .step .query :: .step .query :: h₂ := List.suffix_cons _ _
        have hh₇ := hh₆.trans (List.suffix_cons (Event.step Label.commit) _)
        refine wp_manageOpen_authorised (hb₄.mono hh₇) (hidle.mono (hh₄.trans hh₇))
          (hopen.mono hh₇) fun stop low hp hlow hle => ?_
        -- the stop is the one that was set, from the price the position had when it was read
        obtain ⟨hstop, hopened⟩ := setStop_sets htx
        rw [hstop] at hp
        refine ⟨stop, low, _, hlow, hle, .inr ⟨?_, ?_⟩⟩
        · exact (Noticed.now .query hM₄ ⟨hnostop, (Option.some.inj hp).symm⟩).mono hh₇
        · exact Noticed.now _ hM₆ hopened.symm
    · next hclosed =>
      exact wp_tryEntry_authorised hb₄ (hidle.mono hh₄)
        (Noticed.now _ hM₄ (Bool.eq_false_iff.2 hclosed)) hfunds

/-! ## The cycle up to the decision -/

/-- The balances are asked for once, and the funds are known when they were answered. -/
theorem wp_readFunds_authorised {snap : MarketSnapshot} :
    Proc.wp (authority cfg M) (readFunds cfg rules snap) (fun r h' _ => ∃ a,
      .call (.call .balances) a :: h <:+ h' ∧ ∀ funds, r = .ok funds →
        funds.balances.isSome = true → ∃ bal, a = .ok bal) h s := by
  have hN := asks_nothing cfg
  refine (Proc.wp_bind _ _ _ _ _).2 ((Proc.wp_attempt _ _ _ _).2 ((wp_call _ _).2 fun s₁ _ =>
    ⟨authorised_of_not_isSubmit rfl, fun a _ => ?_⟩))
  cases a with
  | ok bal =>
    refine Proc.wp_mono (wp_quiet ?_) fun _ _ _ hh => ⟨.ok bal, hh, fun _ _ _ => ⟨bal, rfl⟩⟩
    exact hN.seq (hN.read _ _) fun _ => hN.seq hN.now fun _ => hN.seq
      (hN.seq (hN.read _ _) fun _ => hN.seq (fun _ => trivial) fun _ => hN.pure _) fun _ =>
      hN.pure _
  | error e =>
    refine (Proc.wp_bind _ _ _ _ _).2 ((wp_query _ _).2 fun s₂ _ => ⟨trivial, .error e,
      List.suffix_cons _ _, fun funds hf hsome => ?_⟩)
    cases hf
    cases hsome

/-- From the signal on. -/
theorem wp_signal_authorised {control : Control} {row : ReconciliationState}
    {exitsAt entriesAt t : Time} {snap : MarketSnapshot} {bal : Except Exn BalanceSnapshot}
    {funds : Funds} {hg : History Label Ans} (hgate : Sighted cfg M control row hg)
    (hrow : row.status = .healthy ∨ row.status = .degraded) (hrecent : RecentAt cfg row exitsAt)
    (hmarket : ∀ signal, Briefing.market ⟨control, row, exitsAt, entriesAt, snap, rules, bal, signal⟩
      cfg t hg <:+ h)
    (hfunds : funds.balances.isSome = true → ∃ b, bal = .ok b) :
    Proc.wp (authority cfg M) (do
      let signal ← call (.evaluate snap)
      let signalId : SignalId :=
        { bot := cfg.bot, symbol := cfg.symbol, candleTs := snap.candleTs, action := signal.action
          score := signal.score }
      let now ← clockNow
      transaction .commit (Store.enqueue .signals (.signal signalId)
        (.signal signalId snap.signalPrice signal.reasons cfg.tradingMode now) now)
      decideOrders cfg control row (row.allowsEntries entriesAt cfg.reconStateMaxAgeSeconds) funds
        rules snap signal signalId) (fun _ _ _ => True) h s := by
  refine (Proc.wp_bind _ _ _ _ _).2 ((wp_call _ _).2 fun s₁ _ =>
    ⟨authorised_of_not_isSubmit rfl, fun a _ => ?_⟩)
  rcases a with e | signal
  · trivial
  refine (Proc.wp_bind _ _ _ _ _).2 ((wp_clockNow _).2 fun s₂ _ =>
    ⟨authorised_of_not_isSubmit rfl, fun t' _ => ?_⟩)
  refine (Proc.wp_bind _ _ _ _ _).2 (wp_transaction fun s₃ _ => ⟨fun _ s₄ _ => ⟨trivial, ?_⟩,
    fun _ _ => ⟨trivial, trivial⟩⟩)
  have hb : Instructed cfg M ⟨control, row, exitsAt, entriesAt, snap, rules, bal, signal⟩
      (.step .commit :: .call (.ambient .now) t' ::
        .call (.call (.evaluate snap)) (.ok signal) :: h) :=
    ⟨⟨hg, t, h, hgate, hmarket signal, (List.suffix_cons _ _).trans (List.suffix_cons _ _)⟩, hrow,
      hrecent⟩
  have hdecide := wp_decideOrders_authorised (s := s₄)
    ⟨cfg.bot, cfg.symbol, snap.candleTs, signal.action, signal.score⟩ hb hfunds
  exact hdecide

/-- From the market data on. -/
theorem wp_trade_authorised {control : Control} {row : ReconciliationState}
    {exitsAt entriesAt : Time} {hg : History Label Ans} (hgate : Sighted cfg M control row hg)
    (hrow : row.status = .healthy ∨ row.status = .degraded) (hrecent : RecentAt cfg row exitsAt) :
    Proc.wp (authority cfg M)
      (trade cfg control row (row.allowsEntries entriesAt cfg.reconStateMaxAgeSeconds))
      (fun _ _ _ => True) (.call (.ambient .now) entriesAt :: .call (.ambient .now) exitsAt :: hg)
      s := by
  refine (Proc.wp_bind _ _ _ _ _).2 ((wp_call _ _).2 fun s₁ _ =>
    ⟨authorised_of_not_isSubmit rfl, fun a _ => ?_⟩)
  rcases a with e | reason | snap
  · trivial
  · trivial
  refine (Proc.wp_bind _ _ _ _ _).2 ((wp_call _ _).2 fun s₂ _ =>
    ⟨authorised_of_not_isSubmit rfl, fun a _ => ?_⟩)
  rcases a with e | rules
  · trivial
  refine (Proc.wp_bind _ _ _ _ _).2 ((wp_clockNow _).2 fun s₃ _ =>
    ⟨authorised_of_not_isSubmit rfl, fun t _ => ?_⟩)
  refine (Proc.wp_bind _ _ _ _ _).2 (wp_transaction fun s₄ _ => ⟨fun _ s₅ _ => ⟨trivial, ?_⟩,
    fun _ _ => ⟨trivial, trivial⟩⟩)
  refine (Proc.wp_bind _ _ _ _ _).2 (Proc.wp_mono wp_readFunds_authorised ?_)
  rintro (e | funds) h₁ s₆ ⟨bal, hmarket, hfunds⟩
  · trivial
  exact wp_signal_authorised hgate hrow hrecent (fun _ => hmarket) (hfunds funds rfl)

/-- The gate reads the row that it returns last. -/
theorem wp_reconciliationGate_authorised {control : Control} (hopen : ∃ t, opening control t <:+ h) :
    Proc.wp (authority cfg M) (reconciliationGate cfg control)
      (fun r h' _ => ∀ row, r = .ok row → Sighted cfg M control row h') h s := by
  have hN := asks_nothing cfg
  obtain ⟨t, ht⟩ := hopen
  have hread {h₁ s₁} (hh : h <:+ h₁) : Proc.wp (authority cfg M)
      (query .query (·.getReconState cfg.bot))
      (fun r h' _ => ∀ row, r = .ok row → Sighted cfg M control row h') h₁ s₁ := by
    refine (wp_query _ _).2 fun s₂ hM => ⟨trivial, fun row hrow => ?_⟩
    exact ⟨⟨t, (ht.trans hh).trans (List.suffix_cons _ _)⟩, h₁, s₂, rfl, hM, Except.ok.inj hrow⟩
  refine (Proc.wp_bind _ _ _ _ _).2 ((wp_query _ _).2 fun s₁ hM => ⟨trivial, ?_⟩)
  have hh₁ := List.suffix_cons (Event.step (A := Ans) Label.query) h
  refine (Proc.wp_ite _ _ _ _ _ _).2 ?_
  split
  · refine (Proc.wp_bind _ _ _ _ _).2 (Proc.wp_mono (wp_quiet hN.run) ?_)
    rintro (e | res) h₂ s₂ hh₂
    · exact fun _ h => by cases h
    refine (Proc.wp_ite _ _ _ _ _ _).2 ?_
    split
    · refine (Proc.wp_bind _ _ _ _ _).2 (Proc.wp_mono (wp_quiet (hN.read _ _)) ?_)
      rintro (e | st) h₃ s₃ hh₃
      · exact fun _ h => by cases h
      refine (Proc.wp_bind _ _ _ _ _).2 (Proc.wp_mono (wp_quiet hN.now) ?_)
      rintro (e | now) h₄ s₄ hh₄
      · exact fun _ h => by cases h
      refine (Proc.wp_bind _ _ _ _ _).2 (Proc.wp_mono
        (wp_quiet (hN.keep _ Store.saveReconState_keeps)) ?_)
      rintro (e | _) h₅ s₅ hh₅
      · exact fun _ h => by cases h
      exact hread ((((hh₁.trans hh₂).trans hh₃).trans hh₄).trans hh₅)
    · exact hread (hh₁.trans hh₂)
  · refine fun row hrow => ⟨⟨t, ht.trans hh₁⟩, h, s₁, rfl, hM, Except.ok.inj hrow⟩

/-- A cycle hands to the executor only what it has authority for. -/
theorem wp_runOnce_authorised :
    Proc.wp (authority cfg M) (runOnce cfg) (fun _ _ _ => True) [] s := by
  refine (Proc.wp_bind _ _ _ _ _).2 ((wp_clockNow _).2 fun s₁ _ =>
    ⟨authorised_of_not_isSubmit rfl, fun t _ => ?_⟩)
  refine (Proc.wp_bind _ _ _ _ _).2 ((Proc.wp_attempt _ _ _ _).2 ((wp_call _ _).2 fun s₂ _ =>
    ⟨authorised_of_not_isSubmit rfl, fun a _ => ?_⟩))
  rcases a with e | control
  · exact (Proc.wp_bind _ _ _ _ _).2 (wp_transaction fun s₃ _ =>
      ⟨fun _ _ _ => ⟨trivial, trivial⟩, fun _ _ => ⟨trivial, trivial⟩⟩)
  refine (Proc.wp_bind _ _ _ _ _).2 ((Proc.wp_attempt _ _ _ _).2 ((wp_call _ _).2 fun s₃ _ =>
    ⟨authorised_of_not_isSubmit rfl, fun a _ => ?_⟩))
  rcases a with e | ⟨⟩
  · trivial
  refine (Proc.wp_bind _ _ _ _ _).2
    (Proc.wp_mono (wp_reconciliationGate_authorised ⟨t, List.suffix_rfl⟩) ?_)
  rintro (e | row) h₁ s₄ hgate
  · trivial
  refine (Proc.wp_bind _ _ _ _ _).2 ((wp_clockNow _).2 fun s₅ _ =>
    ⟨authorised_of_not_isSubmit rfl, fun exitsAt _ => ?_⟩)
  refine (Proc.wp_bind _ _ _ _ _).2 ((wp_clockNow _).2 fun s₆ _ =>
    ⟨authorised_of_not_isSubmit rfl, fun entriesAt _ => ?_⟩)
  refine (Proc.wp_ite _ _ _ _ _ _).2 ?_
  split
  · trivial
  · next hexits =>
    rw [Bool.not_eq_true, Bool.not_eq_false'] at hexits
    obtain ⟨hstatus, hrecent⟩ := allowsExits_iff.1 hexits
    refine (Proc.wp_bind _ _ _ _ _).2
      (Proc.wp_mono (wp_trade_authorised (hgate row rfl) hstatus hrecent) fun r _ _ _ => ?_)
    cases r <;> trivial

/-! ## Every run of the engine -/

/-- Whatever a process of the engine has seen, it hands to the executor only what it has authority
for: only a trading cycle hands anything to it. -/
theorem EngineProgram.wp_authority {p : Prog Ledger Label Ans PUnit}
    (hp : EngineProgram cfg (fun _ => True) p) :
    p.wp (authority cfg M) (fun _ _ _ => True) [] s := by
  have hN := asks_nothing cfg
  have hquiet {α : Type} {p : Engine α} (hp : p.run.Asks fun q => q.isSubmit = false) :
      p.run.forget.wp (authority cfg M) (fun _ _ _ => True) [] s := Prog.wp_forget (wp_quiet hp)
  cases hp with
  | runOnce => exact Prog.wp_forget wp_runOnce_authorised
  | run => exact hquiet hN.run
  | start => exact hquiet hN.start
  | onState => exact hquiet hN.onState
  | onEvent ev hev => exact hquiet (hN.onEvent hev)
  | pollControl => exact hquiet hN.pollControl
  | touch => exact hquiet hN.touch

variable {τ : Type} [DecidableEq τ]

/-- The runs of any number of processes of the engine, over one ledger. -/
abbrev EngineRun (cfg : Config) :
    Pool τ Ledger Label Ans → Pool τ Ledger Label Ans → Prop :=
  Pool.Run (EngineProgram cfg fun _ => True) fun _ _ => True

/-- The ledgers in which process `i` took its events since its start, and the present one, by its
history then. -/
abbrev Beside (cfg : Config) (P : Pool τ Ledger Label Ans) (i : τ) :
    History Label Ans → Ledger → Prop :=
  P.Saw (EngineProgram cfg fun _ => True) (fun _ _ => True) i

/-- In every run of any number of processes, killed and started again at any point, a process is at
the call that hands an order to the executor only when what it was told and saw since its start
gives it the authority for an order of that purpose. -/
theorem order_authorised {s₀ : Ledger} {P : Pool τ Ledger Label Ans}
    (hrun : EngineRun cfg (.idle s₀) P) {i : τ} {o : Order} (ho : AtSubmit P i o) :
    Authorised cfg (Beside cfg P i) (P.hist i) o.purpose := by
  obtain ⟨rules, k, hi⟩ := submitting?_eq_some ho
  exact hrun.authorised (G := AuthorisedRequest cfg) (fun p hp M s => hp.wp_authority)
    (.call hi (.ok { kind := .ambiguous })) o rules rfl

/-- A cycle has read the HEALTHY row and goes on to its entry, while the worker hears that the stream
is down and degrades the row. -/
def overtakenCycle : Pool Bool Ledger Label Ans :=
  let env := exchangeEnv (marketAnswers .buy (listing (.ok [])))
  let reading := ((Pool.idle healthyLedger).restart false (runOnce sampleConfig).run.forget).go env
    false 10
  let degraded := (reading.restart true
    (ReconciliationWorker.onState sampleConfig .disconnected "").run.forget).go env true 20
  degraded.go env false 17

/-- The entry is sent on the authority of the row that was read, which is HEALTHY no more. -/
theorem overtaken_entry_authorised :
    (overtakenCycle.state.getReconState sampleConfig.bot).status = .degraded ∧
      ∃ o, AtSubmit overtakenCycle false o ∧ o.purpose = .entry ∧
        Authorised sampleConfig (Beside sampleConfig overtakenCycle false)
          (overtakenCycle.hist false) o.purpose := by
  have hentry : (submitting? (overtakenCycle.prog false)).map (·.purpose) = some .entry := by
    decide +kernel
  obtain ⟨o, ho, hpurpose⟩ := Option.map_eq_some_iff.1 hentry
  have hrun : EngineRun sampleConfig (.idle healthyLedger) overtakenCycle :=
    ((((Runs.refl.tail trivial (.start false .runOnce)).trans (Pool.run_go_any _ false 10 _)).tail
      trivial (.start true (.onState .disconnected ""))).trans (Pool.run_go_any _ true 20 _)).trans
        (Pool.run_go_any _ false 17 _)
  exact ⟨by decide +kernel, o, ho, hpurpose, order_authorised hrun ho⟩

end CryptoBot
