import CryptoBot.Application.Programs
import CryptoBot.Lib.Claims

/-!
# At most one send for each intent

`submit_intent` sends an order only after its own transaction has inserted the intent, and the
intents of the ledger are never removed. Inserting an intent is a claim on its id, and the call of
`executor.submit` spends it: no interleaving of processes, crash or restart sends one intent twice.
-/

namespace CryptoBot

open Lib OrderService

section
variable {cfg : Config} {s s' : Ledger}

/-! ## What happens to the intents -/

theorem ExchangeMove.intents (h : ExchangeMove cfg s s') : s'.intents = s.intents := by
  induction h with
  | keep h => exact (congrArg Ledger.intents h :)
  | change _ hr => exact hr.intents
  | fill h => exact (congrArg Ledger.intents h.rest :)
  | seq _ _ ih ih' => exact ih'.trans ih

theorem Placed.order {intent : OrderIntent} {o : Order} (h : Placed cfg s s' intent o) :
    o.status = .submitting ∧ o.clientIntentId = intent.clientIntentId ∧
      o.clientOrderId =
        makeClientOrderId cfg.textLib cfg.clientOrderIdPrefix intent.clientIntentId := by
  obtain ⟨rules, now, o₀, hmark, rfl⟩ := h.row
  cases hmark
  exact ⟨rfl, rfl, rfl⟩

/-! ## Claims on intents -/

/-- The ledger has an intent of this id. -/
def Ledger.Intended (s : Ledger) (id : IntentId) : Prop :=
  ∃ i ∈ s.intents, i.clientIntentId = id

/-- Placing an order claims the id of its intent, and handing it to the executor spends the id. -/
def intentClaims (cfg : Config) : Claims Ledger Request Order IntentId where
  key := Order.clientIntentId
  taken := Ledger.Intended
  claims s s' o := ∃ intent, Placed cfg s s' intent o
  spends
    | .call (.submit o _) => some o
    | _ => none
  free := by
    rintro s s' o ⟨intent, h⟩ ⟨i, hi, hid⟩
    exact h.fresh i hi (hid.trans h.order.2.1)
  takes := by
    rintro s s' o ⟨intent, h⟩
    exact ⟨intent, h.intents ▸ List.mem_append_right _ (.head _), h.order.2.1.symm⟩

theorem Ledger.Intended.congr {id : IntentId} (h : s.Intended id) (hi : s'.intents = s.intents) :
    s'.Intended id := by
  rw [Ledger.Intended, hi]
  exact h

theorem isSubmit_of_spends {q : Request} {o : Order} (h : (intentClaims cfg).spends q = some o) :
    q.isSubmit = true := by
  unfold intentClaims at h
  dsimp only at h
  split at h
  · rfl
  · exact absurd h (Option.some_ne_none o).symm

/-- A transaction that leaves the intents alone claims nothing. -/
theorem thrifty_transaction {α : Type} {l : Label} {t : Tx α}
    (ht : ∀ s a s', t s = .ok (a, s') → s'.intents = s.intents) :
    (transaction l t).run.Thrifty (intentClaims cfg) none := by
  refine Prog.Thrifty.step fun s id hid => ?_
  cases htx : t s with
  | ok r =>
    exact Ledger.Intended.congr hid (ht s r.1 r.2 htx)
  | error e => exact hid

theorem thrifty_handles (cfg : Config) : Handles cfg (fun _ => True)
    fun (α : Type) (p : Prog Ledger Label Ans α) => p.Thrifty (intentClaims cfg) none where
  toSequenced := Prog.Thrifty.sequenced _
  read _ _ := Prog.Thrifty.step fun _ _ hid => hid
  ambient _ _ := ⟨fun x hx => absurd (isSubmit_of_spends hx) Bool.false_ne_true, fun _ => trivial⟩
  call r k hr hk := by
    refine ⟨fun o ho => ?_, fun a => hk a ?_⟩
    · rw [isSubmit_of_spends ho] at hr
      cases hr
    · exact heard_true r a
  keep _ := fun ht => thrifty_transaction fun s a s' h => (ht s a s' h).1
  report _ _ _ := thrifty_transaction fun _ _ _ h => (applyReportTx_move h).intents
  event _ _ _ _ _ := thrifty_transaction fun _ _ _ h => (handleTx_move h).intents

theorem thrifty_reject {c reason : String} {now : Time} :
    (transaction .commit (rejectTx c reason now)).run.Thrifty (intentClaims cfg) none :=
  thrifty_transaction fun _ _ _ h => (rejectTx_move h : ExchangeMove cfg _ _).intents

theorem thrifty_resolve (o : Order) :
    (resolveAmbiguous cfg o).run.Thrifty (intentClaims cfg) none := by
  have hP := thrifty_handles cfg
  refine hP.resolveAmbiguous (hP.seq hP.now fun now => hP.ite (hP.pure _) ?_)
  exact hP.seq thrifty_reject fun _ => hP.pure _

/-- A submission claims its intent before it sends the order. -/
theorem thrifty_submitIntent (intent : OrderIntent) (rules : SymbolRules) :
    (submitIntent cfg intent rules).run.Thrifty (intentClaims cfg) none := by
  have hP := thrifty_handles cfg
  refine hP.seq (hP.read _ _) fun existing => ?_
  cases existing with
  | some o => exact hP.pure _
  | none =>
    refine hP.seq hP.now fun t => ?_
    cases ho : (newOrder cfg intent rules).markSubmitting t with
    | error message => exact hP.throw _
    | ok o₀ =>
      have hsettle (o : Order) (out : SubmitOutcome) :
          (settle cfg o out).run.Thrifty (intentClaims cfg) none :=
        hP.settle thrifty_resolve (fun _ _ => trivial) (fun _ _ _ => thrifty_reject)
          fun _ _ => thrifty_transaction fun _ _ _ h => (flagAmbiguousTx_move h).intents
      intro s
      cases htx : persistTx intent o₀ t s with
      | error e =>
        refine ⟨fun id hid => ?_, .inl ?_⟩
        · simp only [htx]
          exact hid
        · simp only [htx]
          exact trivial
      | ok r =>
        obtain ⟨r, s'⟩ := r
        rcases persistTx_cases ho htx with ⟨rfl, rfl, -⟩ | ⟨o, rfl, hp⟩
        · refine ⟨fun id hid => ?_, .inl ?_⟩
          · simp only [htx]
            exact hid
          · simp only [htx]
            exact trivial
        · refine ⟨fun id hid => ?_, .inr ⟨o, ⟨intent, ?_⟩, ?_⟩⟩
          · simp only [htx]
            obtain ⟨i, hi, hid⟩ := hid
            exact ⟨i, hp.intents ▸ List.mem_append_left _ hi, hid⟩
          · simpa only [htx] using hp
          · simp only [htx]
            refine ⟨fun x hx => hx, fun a => ?_⟩
            cases a with
            | ok out => exact hP.seq (hsettle _ _) fun _ => hP.read _ _
            | error e => exact hP.seq (hsettle _ _) fun _ => hP.read _ _

/-- The whole engine is thrifty. -/
theorem thrifty_governs (cfg : Config) : Governs cfg (fun _ => True)
    fun (α : Type) (p : Prog Ledger Label Ans α) => p.Thrifty (intentClaims cfg) none where
  toHandles := thrifty_handles cfg
  resolve := thrifty_resolve
  submit _ _ _ _ _ _ _ _ _ _ := by
    have hP := thrifty_handles cfg
    refine hP.seq hP.nextIntentId fun iid => ?_
    cases iid with
    | none =>
      exact hP.seq hP.now fun _ => hP.seq (hP.enqueue _) fun _ => hP.seq (hP.enqueue _) fun _ =>
        hP.pure _
    | some iid => exact thrifty_submitIntent _ _

/-! ## Runs of any number of processes -/

/-- What a process may run: `submit_intent` for any intent, and whatever else the engine runs. -/
inductive Submitter (cfg : Config) : Prog Ledger Label Ans PUnit → Prop
  | submitIntent (intent : OrderIntent) (rules : SymbolRules) :
      Submitter cfg (OrderService.submitIntent cfg intent rules).run.forget
  | engine {p : Prog Ledger Label Ans PUnit} (hp : EngineProgram cfg (fun _ => True) p) :
      Submitter cfg p

theorem Submitter.thrifty {p : Prog Ledger Label Ans PUnit} (hp : Submitter cfg p) :
    p.Thrifty (intentClaims cfg) none := by
  cases hp with
  | submitIntent intent rules => exact (thrifty_submitIntent intent rules).bind fun _ => trivial
  | engine hp => exact (thrifty_governs cfg).program hp

variable {τ : Type} {P : Pool τ Ledger Label Ans}

/-- The order of a program that is at the call of `executor.submit`. -/
def submitting? : Prog Ledger Label Ans PUnit → Option Order
  | .call (.call (.submit o _)) _ => some o
  | _ => none

/-- Process `i` is at the call that hands `o` to the executor. -/
def AtSubmit (P : Pool τ Ledger Label Ans) (i : τ) (o : Order) : Prop :=
  submitting? (P.prog i) = some o

variable [DecidableEq τ]

/-- A run of any number of processes over the ledger `s`, with the orders handed to the executor:
those of every call that was answered, and those of every call a process was killed at. -/
abbrev Sends (cfg : Config) (s : Ledger) : Pool τ Ledger Label Ans → List Order → Prop :=
  Pool.Spends (intentClaims cfg) (Submitter cfg) (.idle s)

omit [DecidableEq τ] in
theorem AtSubmit.spending {i : τ} {o : Order} (h : AtSubmit P i o) :
    Pool.Spending (intentClaims cfg) P i o := by
  unfold AtSubmit submitting? at h
  split at h
  · next o' rules k hprog => exact ⟨_, k, hprog, h⟩
  · cases h

/-- In every run of any number of processes, killed and started again at any point, the executor
gets at most one order for each intent id, the calls under way included; and a process is at such a
call only after a row with its order, SUBMITTING under the intent's own client order id, was
committed. -/
theorem sent_once {s : Ledger} {os : List Order} (hrun : Sends cfg s P os) :
    os.Pairwise (fun a b => a.clientIntentId ≠ b.clientIntentId) ∧
    ∀ i o, AtSubmit P i o →
      (∀ o' ∈ os, o'.clientIntentId ≠ o.clientIntentId) ∧
      (∀ j o', AtSubmit P j o' → o'.clientIntentId = o.clientIntentId → j = i) ∧
      ∃ P₁, Pool.Run (Submitter cfg) (fun _ _ => True) (.idle s) P₁ ∧
        Pool.Run (Submitter cfg) (fun _ _ => True) P₁ P ∧ o ∈ P₁.state.orders.rows ∧
        o.status = .submitting ∧ ∃ intent ∈ P₁.state.intents,
          o.clientIntentId = intent.clientIntentId ∧ o.clientOrderId =
            makeClientOrderId cfg.textLib cfg.clientOrderIdPrefix intent.clientIntentId := by
  obtain ⟨t, ht⟩ := hrun.orderly fun _ hp => hp.thrifty
  refine ⟨ht.once, fun i o hi => ?_⟩
  have hheld : t i = some o := ht.holds_of_spending hi.spending
  refine ⟨fun o' ho' => ht.unspent i o hheld o' ho', fun j o' hj hid => ?_, ?_⟩
  · exact ht.apart j i o' o (ht.holds_of_spending hj.spending) hheld hid
  · obtain ⟨P₁, act, P₂, h₁, hs₁, h₂, intent, hp⟩ := ht.claimed i o hheld
    obtain ⟨hstatus, hid, hcid⟩ := hp.order
    refine ⟨P₂, h₁.tail trivial hs₁, h₂, ?_, hstatus, intent, ?_, hid, hcid⟩
    · exact hp.rows ▸ List.mem_append_right _ (.head _)
    · exact hp.intents ▸ List.mem_append_right _ (.head _)

/-- Two processes submit the sample entry: both look the intent up before either has inserted it. -/
def racingSubmits : Pool Bool Ledger Label Ans :=
  let submit := (submitIntent sampleConfig (sampleIntent sampleEntry .buy 2)
    { symbol := ⟨"BTC", "USDT"⟩, baseAsset := "BTC", quoteAsset := "USDT" }).run.forget
  let env := exchangeEnv (listing (.ok []))
  ((((((Pool.idle {} : Pool Bool Ledger Label Ans).restart false submit).go env false 1).restart true
    submit).go env true 3).go env false 100)

/-- The process that loses the race sends nothing. -/
theorem racing_submits_send_once :
    ∃ o, AtSubmit racingSubmits true o ∧
      ∀ j o', AtSubmit racingSubmits j o' → o'.clientIntentId = o.clientIntentId → j = true := by
  have hsubmit {rules : SymbolRules} : Submitter sampleConfig (submitIntent sampleConfig
      (sampleIntent sampleEntry .buy 2) rules).run.forget := .submitIntent _ _
  obtain ⟨_, h₁⟩ := (Pool.Spends.refl : Sends sampleConfig {} (.idle {}) []).restart false hsubmit
  obtain ⟨_, h₂⟩ := h₁.go (exchangeEnv (listing (.ok []))) false 1
  obtain ⟨_, h₃⟩ := h₂.restart true hsubmit
  obtain ⟨_, h₄⟩ := h₃.go (exchangeEnv (listing (.ok []))) true 3
  obtain ⟨_, h₅⟩ := h₄.go (exchangeEnv (listing (.ok []))) false 100
  have hsome : (submitting? (racingSubmits.prog true)).isSome := by decide +kernel
  obtain ⟨o, ho⟩ := Option.isSome_iff_exists.1 hsome
  exact ⟨o, ho, ((sent_once h₅).2 true o ho).2.1⟩

end

end CryptoBot
