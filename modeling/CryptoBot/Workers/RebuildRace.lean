import CryptoBot.Application.RunRules
import CryptoBot.Application.PositionLaws
import CryptoBot.Lib.Pool

/-!
# Rebuilding a position while fills arrive

`ingest_fill` reads and writes the position in the transaction that records the fill. The rebuild
of a reconciliation reads the fills and writes the position in separate steps, so a fill another
thread records in between is in the ledger and not in the position. As long as that does not
happen, the position of a bot that only buys holds exactly what its recorded fills received.
-/

namespace CryptoBot

open Lib

namespace RebuildRace

variable (cfg : Config)

/-- What the recorded fills of the traded symbol have received. -/
def received (s : Ledger) : ℚ :=
  ((s.fills.rows.filter fun f => decide (f.symbol = cfg.symbol)).map Fill.received).sum

/-- No recorded commission in the base asset exceeds the quantity bought. -/
def NonNeg (s : Ledger) : Prop := ∀ f ∈ s.fills.rows, 0 ≤ f.received

instance (s : Ledger) : Decidable (NonNeg s) := inferInstanceAs (Decidable (∀ _ ∈ _, _))

/-- A process has read the fills for a rebuild and not yet written the position. -/
def rebuilding : History Label Ans → Bool
  | [] => false
  | .step .rebuildRead :: _ => true
  | .step .rebuildWrite :: _ => false
  | _ :: h => rebuilding h

/-- What the threads run: reconciliations, and everything that records BUY fills. -/
inductive Program : Prog Ledger Label Ans PUnit → Prop
  | run (reason : String) (operatorAck : Bool) :
      Program (ReconciliationService.run cfg reason operatorAck).run.forget
  | ingestFill (xf : ExchangeFill) : Program (OrderService.ingestFill cfg xf).run.forget
  | handle (ev : StreamEvent) : Program (StreamIngestionService.handle cfg ev).run.forget
  | submitIntent (intent : OrderIntent) (rules : SymbolRules) (hside : intent.side = .buy) :
      Program (OrderService.submitIntent cfg intent rules).run.forget

/-- No fill is recorded between the read and the write of another thread's rebuild, and none whose
base commission exceeds its quantity. -/
def Calm {τ : Type} (P : Pool τ Ledger Label Ans) : Act τ Label Ans → Prop
  | .event i (.step _) => NonNeg (P.after i) ∧ ((P.after i).fills.rows ≠ P.state.fills.rows →
      ∀ j, j ≠ i → rebuilding (P.hist j) = false)
  | _ => True

/-! ## The books of a bot that only buys -/

/-- Every order is a BUY of the bot, every fill belongs to one, and the position holds what the
fills received. -/
structure Books (s : Ledger) : Prop where
  orders : ∀ o ∈ s.orders.rows, o.bot = cfg.bot ∧ o.side = .buy
  fills : ∀ f ∈ s.fills.rows, f.side = .buy ∧ ∃ o ∈ s.orders.rows, o.id = f.orderId
  nonneg : NonNeg s
  position : (s.getPosition cfg.bot cfg.symbol).quantity = received cfg s

variable {cfg} {s s' : Ledger}

theorem books_empty : Books cfg {} where
  orders _ h := absurd h List.not_mem_nil
  fills _ h := absurd h List.not_mem_nil
  nonneg _ h := absurd h List.not_mem_nil
  position := rfl

theorem received_congr (h : s'.fills = s.fills) : received cfg s' = received cfg s := by
  rw [received, received, h]

/-- What touches neither orders, fills nor positions keeps the books. -/
theorem Books.congr (hb : Books cfg s) (ho : s'.orders = s.orders) (hf : s'.fills = s.fills)
    (hp : s'.positions = s.positions) : Books cfg s' where
  orders := by rw [ho]; exact hb.orders
  fills := by rw [hf, ho]; exact hb.fills
  nonneg := by rw [NonNeg, hf]; exact hb.nonneg
  position := by rw [Ledger.getPosition_congr hp, received_congr hf, hb.position]

/-- An order that changes stays a BUY of the bot, with its row id. -/
theorem Books.replaced {o o' : Order} (hb : Books cfg s) (hr : s.Replaced s' o o') :
    Books cfg s' where
  orders x hx := by
    rcases hr.mem_iff.1 hx with rfl | ⟨hx, -⟩
    · rw [hr.same.bot, hr.same.side]
      exact hb.orders o hr.mem
    · exact hb.orders x hx
  fills f hf := by
    rw [hr.fills] at hf
    obtain ⟨hside, x, hx, hid⟩ := hb.fills f hf
    by_cases hxo : x.id = o.id
    · exact ⟨hside, o', hr.mem_new, hr.same.id.trans (hxo.symm.trans hid)⟩
    · exact ⟨hside, x, hr.mem_iff.2 (.inr ⟨hx, hxo⟩), hid⟩
  nonneg := by rw [NonNeg, hr.fills]; exact hb.nonneg
  position := by
    rw [Ledger.getPosition_congr hr.positions, received_congr hr.fills, hb.position]

/-- A recorded fill enters the position with what it received. -/
theorem Books.filled {o : Order} {xf : ExchangeFill} {f : Fill} (hb : Books cfg s)
    (h : Filled cfg s s' o xf f) (hn : NonNeg s') : Books cfg s' := by
  obtain ⟨t, hrow⟩ := h.row
  have hmem := findOrder_mem h.find
  have hside : f.side = .buy := by rw [hrow]; exact (hb.orders o hmem).2
  have horders : s'.orders = s.orders := (congrArg Ledger.orders h.rest :)
  have hrec : 0 ≤ f.received := hn f (h.rows ▸ List.mem_append_right _ (.head _))
  refine ⟨by rw [horders]; exact hb.orders, fun g hg => ?_, hn, ?_⟩
  · rw [horders]
    rw [h.rows] at hg
    rcases List.mem_append.1 hg with hg | hg
    · exact hb.fills g hg
    · obtain rfl := List.mem_singleton.1 hg
      exact ⟨hside, o, hmem, by rw [hrow]; rfl⟩
  · obtain ⟨now, hpos⟩ := h.positions
    obtain ⟨hkb, hks⟩ := applyFillToPosition_key (s.getPosition cfg.bot f.symbol) f
    obtain ⟨hgb, hgs⟩ := Ledger.getPosition_key s cfg.bot f.symbol
    by_cases hsym : f.symbol = cfg.symbol
    · rw [Ledger.getPosition_upsert_self hpos (hkb.trans hgb) ((hks.trans hgs).trans hsym)]
      dsimp only
      rw [applyFillToPosition_buy hside hrec, hsym, hb.position]
      simp [received, h.rows, hsym]
    · rw [Ledger.getPosition_upsert_of_ne (by simp [hks, hgs, hsym]) hpos, hb.position]
      simp [received, h.rows, hsym]

/-- A new order of a BUY intent. -/
theorem Books.placed {intent : OrderIntent} {o : Order} (hb : Books cfg s)
    (h : Placed cfg s s' intent o) (hside : intent.side = .buy) : Books cfg s' := by
  obtain ⟨rules, now, o₀, hmark, rfl⟩ := h.row
  cases hmark
  have hf : s'.fills = s.fills := (congrArg Ledger.fills h.rest :)
  have hp : s'.positions = s.positions := (congrArg Ledger.positions h.rest :)
  refine ⟨fun x hx => ?_, fun f hf' => ?_, by rw [NonNeg, hf]; exact hb.nonneg, ?_⟩
  · rw [h.rows] at hx
    rcases List.mem_append.1 hx with hx | hx
    · exact hb.orders x hx
    · obtain rfl := List.mem_singleton.1 hx
      exact ⟨rfl, hside⟩
  · rw [hf] at hf'
    obtain ⟨hfs, x, hx, hid⟩ := hb.fills f hf'
    exact ⟨hfs, x, h.rows ▸ List.mem_append_left _ hx, hid⟩
  · rw [Ledger.getPosition_congr hp, received_congr hf, hb.position]

theorem ExchangeMove.fills_subset (h : ExchangeMove cfg s s') : s.fills.rows ⊆ s'.fills.rows := by
  induction h with
  | keep h => exact fun _ hf => (congrArg Ledger.fills h.symm :) ▸ hf
  | change _ hr => rw [hr.fills]; exact fun _ h => h
  | fill h => rw [h.rows]; exact List.subset_append_left _ _
  | seq _ _ ih ih' => exact fun _ h => ih' (ih h)

theorem Books.exchange (hb : Books cfg s) (h : ExchangeMove cfg s s') (hn : NonNeg s') :
    Books cfg s' := by
  induction h with
  | keep h =>
    exact hb.congr (congrArg Ledger.orders h :) (congrArg Ledger.fills h :)
      (congrArg Ledger.positions h :)
  | change _ hr => exact hb.replaced hr
  | fill h => exact hb.filled h hn
  | seq _ h' ih ih' => exact ih' (ih hb fun f hf => hn f (ExchangeMove.fills_subset h' hf)) hn

/-- What the rebuild reads is everything the position is made of. -/
theorem Books.rebuilt (hb : Books cfg s) (existing : Position) :
    (PositionService.rebuilt existing cfg.bot cfg.symbol
      (s.fillsOf cfg.bot cfg.symbol)).1.quantity = received cfg s := by
  have hperm : (s.fillsOf cfg.bot cfg.symbol).Perm
      (s.fills.rows.filter fun f => decide (f.symbol = cfg.symbol)) := by
    refine (List.perm_insertionSort _ _).trans (.of_eq (List.filter_congr fun f hf => ?_))
    obtain ⟨-, o, ho, hid⟩ := hb.fills f hf
    rw [List.any_eq_true.2 ⟨o, ho, decide_eq_true ⟨hid, (hb.orders o ho).1⟩⟩, Bool.and_true]
  rw [PositionService.rebuilt_quantity, received, (hperm.map Fill.received).sum_eq]
  intro f hf
  have hf' := List.mem_of_mem_filter (hperm.subset hf)
  exact ⟨(hb.fills f hf').1, hb.nonneg f hf'⟩

/-! ## The contract of a thread -/

/-- A thread relies on the books, and on the fills while it rebuilds; it keeps the books as long as
it records nothing negative. -/
def contract (cfg : Config) : Contract Ledger Label Ans where
  rely h s s' := Books cfg s' ∧ (rebuilding h → s'.fills = s.fills)
  ans _ _ _ _ := True
  step _ _ _ s' := NonNeg s' → Books cfg s'
  guard _ _ _ := True

theorem contract_stable : (contract cfg).Stable (Books cfg) where
  refl _ _ hb := ⟨hb, fun _ => rfl⟩
  trans h h' := ⟨h'.1, fun hp => (h'.2 hp).trans (h.2 hp)⟩

theorem admits : Admits cfg (contract cfg) fun _ _ => True where
  rely _ _ := trivial
  step hr _ hs := ⟨hr.1.exchange hs.2, trivial⟩
  call _ _ := ⟨trivial, fun _ _ => trivial⟩

/-- A transaction that keeps the books is safe. -/
theorem transaction_safe {α : Type} {l : Label} {t : Tx α}
    (ht : ∀ s a s', Books cfg s → t s = .ok (a, s') → NonNeg s' → Books cfg s') :
    (transaction l t).Safe (contract cfg) := fun _ _ _ =>
  wp_transaction fun _ hr =>
    ⟨fun a s' h => ⟨ht _ a s' hr.1 h, trivial⟩, fun _ _ => ⟨fun _ => hr.1, trivial⟩⟩

theorem setState_safe {l : Label} {status : ReconciliationStatus} {reason : String}
    {success : Bool} {ws : Option Bool} :
    (ReconciliationService.setState cfg l status reason success ws).Safe (contract cfg) :=
  (admits.query_keeps _).bind fun _ => admits.ask_keeps.bind fun _ =>
    (transaction_safe fun _ _ _ hb h _ => by cases h; exact hb.congr rfl rfl rfl).bind
      fun _ => Proc.keeps_pure _

/-- Between the read and the write of a rebuild no other thread has recorded a fill, so what it
writes is what the fills have received. -/
theorem rebuild_safe : (ReconciliationService.rebuild cfg).Safe (contract cfg) := by
  refine (admits.query_keeps _).bind fun existing h s _ => ?_
  refine (Proc.wp_bind _ _ _ _ _).2 ((wp_query _ _).2 fun s₁ hs₁ => ⟨fun _ => hs₁.1, ?_⟩)
  refine (Proc.wp_bind _ _ _ _ _).2 ((wp_clockNow _).2 fun s₂ hs₂ => ⟨trivial, fun now _ => ?_⟩)
  refine (Proc.wp_bind _ _ _ _ _).2 (wp_transaction fun s₃ hs₃ => ⟨fun p s₄ htx => ⟨?_, trivial⟩,
    nofun⟩)
  have hfills : s₃.fills = s₁.fills := (hs₃.2 rfl).trans (hs₂.2 rfl)
  obtain ⟨rfl, hpos, hrest⟩ := Store.savePosition_ok htx
  obtain ⟨hbot, hsymbol⟩ := PositionService.rebuilt_key existing cfg.bot cfg.symbol
    (s₁.fillsOf cfg.bot cfg.symbol)
  have horders : s₄.orders = s₃.orders := (congrArg Ledger.orders hrest :)
  have hfills' : s₄.fills = s₃.fills := (congrArg Ledger.fills hrest :)
  intro hn
  refine ⟨by rw [horders]; exact hs₃.1.orders, by rw [horders, hfills']; exact hs₃.1.fills, hn, ?_⟩
  rw [Ledger.getPosition_upsert_self hpos hbot hsymbol, received_congr (hfills'.trans hfills)]
  exact hs₁.1.rebuilt existing

/-- Every program of the threads keeps the contract. -/
theorem Program.sound {p : Prog Ledger Label Ans PUnit} (hp : Program cfg p) (s : Ledger) :
    p.wp (contract cfg) (fun _ _ _ => True) [] s := by
  cases hp with
  | run => exact Prog.wp_forget (admits.run_keeps (fun _ => setState_safe) rebuild_safe [] s trivial)
  | ingestFill => exact Prog.wp_forget (admits.keeps ingestFill_exchange [] s trivial)
  | handle => exact Prog.wp_forget (admits.keeps handle_exchange [] s trivial)
  | submitIntent _ _ hside =>
    exact Prog.wp_forget (admits.submitIntent_keeps
      (fun hr _ hp => ⟨fun _ => hr.1.placed hp hside, trivial⟩) [] s trivial)

/-! ## No lost fill -/

section
variable {τ : Type} [DecidableEq τ] {P P' : Pool τ Ledger Label Ans} {act : Act τ Label Ans}

/-- A calm step keeps the books and every thread's contract. -/
theorem step_books (hP : Pool.Sound (contract cfg) P) (hb : Books cfg P.state) (hok : Calm P act)
    (hs : Pool.Step (Program cfg) P act P') :
    Pool.Sound (contract cfg) P' ∧ Books cfg P'.state := by
  rcases hP.step_cases contract_stable hb hs with ⟨i, l, rfl, -, hstep, hsound⟩ |
    ⟨i, q, a, rfl, hst, -, -, hsound⟩ | ⟨i, p, rfl, hp, hst, -, hsound⟩
  · obtain ⟨hn, hcalm⟩ := hok
    rw [← hs.state_eq_after] at hn hcalm
    have hb' : Books cfg P'.state := hstep hn
    refine ⟨hsound fun j hj => ⟨hb', fun hreb => ?_⟩, hb'⟩
    by_contra hne
    rw [hcalm (fun h => hne (Table.ext h)) j hj] at hreb
    cases hreb
  · exact ⟨hsound trivial, hst ▸ hb⟩
  · exact ⟨hsound (hp.sound _), hst ▸ hb⟩

/-- In every interleaving of reconciliation runs with threads that record BUY fills, in which no fill
is recorded between the read and the write of another thread's rebuild and no commission exceeds
what was bought, the stored quantity is what the recorded fills have received. -/
theorem position_eq_received (hrun : Pool.Run (Program cfg) Calm (.idle {}) P) :
    (P.state.getPosition cfg.bot cfg.symbol).quantity = received cfg P.state := by
  have hinv : Pool.Sound (contract cfg) P ∧ Books cfg P.state := by
    refine hrun.invariant (I := fun P => Pool.Sound (contract cfg) P ∧ Books cfg P.state) ?_
      ⟨Pool.sound_idle _ _, books_empty⟩
    exact fun ⟨hP, hb⟩ hok hs => step_books hP hb hok hs
  exact hinv.2.position

end

/-! ## A fill that the rebuild overwrites -/

/-- An exchange that has acknowledged the sample entry. -/
def restingExchange : Prog.Env Label Ans := exchangeEnv fun r =>
  match r with
  | .submit .. => .ok { kind := .acknowledged, report := some (sampleReport sampleEntry .buy .new 0) }
  | .queryOrder _ => .ok (some (sampleReport sampleEntry .buy .new 0))
  | r => listing (.ok [sampleReport sampleEntry .buy .new 0]) r

/-- The pool after process `i` has been started with a program and has taken `n` events. -/
def started (P : Pool Bool Ledger Label Ans) (i : Bool) {α : Type} (p : Engine α) (n : Nat) :
    Pool Bool Ledger Label Ans := (P.restart i p.run.forget).go restingExchange i n

/-- The trading worker (process `false`) has submitted the sample entry. -/
def submitted : Pool Bool Ledger Label Ans :=
  started (.idle {}) false (OrderService.submitIntent sampleConfig (sampleIntent sampleEntry .buy 2)
    { symbol := ⟨"BTC", "USDT"⟩, baseAsset := "BTC", quoteAsset := "USDT" }) 100

/-- The fill of one BTC arrives. -/
def thenFill (P : Pool Bool Ledger Label Ans) : Pool Bool Ledger Label Ans :=
  started P false (OrderService.ingestFill sampleConfig (sampleFill sampleEntry .buy "1" 1)) 100

/-- The reconciliation worker (process `true`) takes `n` events of a run. -/
def thenRun (P : Pool Bool Ledger Label Ans) (n : Nat) : Pool Bool Ledger Label Ans :=
  started P true (ReconciliationService.run sampleConfig "periodic" false) n

theorem run_started {ok : Pool Bool Ledger Label Ans → Act Bool Label Ans → Prop}
    {P : Pool Bool Ledger Label Ans} {i : Bool} {α : Type} {p : Engine α} {n : Nat}
    (hp : Program sampleConfig p.run.forget) (hstart : ok P (.start i))
    (hok : ∀ x ∈ (P.restart i p.run.forget).scheduled restingExchange i n, ok x.1 x.2) :
    Pool.Run (Program sampleConfig) ok P (started P i p n) :=
  (Pool.run_restart i hp hstart).trans (Pool.run_go_of_scheduled _ _ _ hok)

/-- The fill arrives after the rebuild has read the fills (event 24 of the run) and before it
writes the position. -/
def overwrittenFill : Pool Bool Ledger Label Ans :=
  (thenFill (thenRun submitted 24)).go restingExchange true 100

/-- Then nobody rebuilds any more, and the position holds nothing of what the fill received. -/
theorem rebuild_loses_fill :
    Pool.Run (Program sampleConfig) (fun _ _ => True) (.idle {}) overwrittenFill ∧
    (∀ i, rebuilding (overwrittenFill.hist i) = false) ∧
    (overwrittenFill.state.getPosition sampleConfig.bot sampleConfig.symbol).quantity = 0 ∧
    received sampleConfig overwrittenFill.state = 1 := by
  refine ⟨?_, by decide +kernel, by decide +kernel, by decide +kernel⟩
  exact (run_started (.submitIntent _ _ rfl) trivial fun _ _ => trivial).trans <|
    (run_started (.run _ _) trivial fun _ _ => trivial).trans <|
    (run_started (.ingestFill _) trivial fun _ _ => trivial).trans <| Pool.run_go_any _ _ _ _

instance (P : Pool Bool Ledger Label Ans) (act : Act Bool Label Ans) : Decidable (Calm P act) :=
  match act with
  | .event _ (.step _) => inferInstanceAs (Decidable (_ ∧ (_ → ∀ _, _ → _)))
  | .event _ (.call ..) | .start _ => isTrue trivial

/-- A fill that arrives before the run survives its rebuild. -/
theorem rebuild_keeps_fill :
    ((thenRun (thenFill submitted) 100).state.getPosition sampleConfig.bot
      sampleConfig.symbol).quantity =
      received sampleConfig (thenRun (thenFill submitted) 100).state :=
  position_eq_received <|
    (run_started (.submitIntent _ _ rfl) trivial (by decide +kernel)).trans <|
    (run_started (.ingestFill _) trivial (by decide +kernel)).trans <|
    run_started (.run _ _) trivial (by decide +kernel)

end RebuildRace

end CryptoBot
