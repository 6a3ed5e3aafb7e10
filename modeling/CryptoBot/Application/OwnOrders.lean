import CryptoBot.Application.OrderService

/-!
# The bot's own orders

`make_client_order_id` builds an id from the configured prefix, and the reconciliation and the
user-data stream tell own orders by that prefix. Each normalises the prefix on its own: only the
first has a text for a prefix of which nothing is left, and all of them keep what `str.isalnum`
accepts in any alphabet.
-/

namespace CryptoBot

open StreamIngestionService

/-- A character of a client order id at the exchange: `[A-Za-z0-9_-]`. -/
def Permitted (c : Char) : Prop := c.isAlphanum ∨ c = '_' ∨ c = '-'

instance (c : Char) : Decidable (Permitted c) := inferInstanceAs (Decidable (_ ∨ _ ∨ _))

/-- A digit of a hexadecimal digest. -/
def HexDigit (c : Char) : Prop := c ∈ "0123456789abcdef".toList

instance (c : Char) : Decidable (HexDigit c) := inferInstanceAs (Decidable (_ ∈ _))

/-- A property of all characters of a text, checked character by character. -/
theorem forall_mem_of_all {p : Char → Prop} [DecidablePred p] {text : List Char}
    (h : (text.all fun c => decide (p c)) = true) : ∀ c ∈ text, p c :=
  fun c hc => of_decide_eq_true (List.all_eq_true.1 h c hc)

theorem HexDigit.permitted {c : Char} (h : HexDigit c) : Permitted c :=
  forall_mem_of_all (by decide) c h

/-- The client order id of an intent is one the exchange takes, and is recognised as the bot's. -/
structure Recognised (cfg : Config) (i : IntentId) : Prop where
  length : (makeClientOrderId cfg.textLib cfg.clientOrderIdPrefix i).length ≤ 36
  permitted : ∀ c ∈ (makeClientOrderId cfg.textLib cfg.clientOrderIdPrefix i).toList, Permitted c
  own : startsWith (makeClientOrderId cfg.textLib cfg.clientOrderIdPrefix i) (ownPrefix cfg)

variable {cfg : Config} {i : IntentId}

/-- The part of a client order id before its dash. -/
def safePrefix (cfg : Config) : List Char :=
  if cfg.textLib.safeChars cfg.clientOrderIdPrefix = [] then ['c', 'b']
  else cfg.textLib.safeChars cfg.clientOrderIdPrefix

theorem makeClientOrderId_toList :
    (makeClientOrderId cfg.textLib cfg.clientOrderIdPrefix i).toList =
      safePrefix cfg ++ '-' :: (cfg.textLib.sha256Hex i).toList.take (35 - (safePrefix cfg).length) :=
  String.toList_ofList

theorem safePrefix_length : (safePrefix cfg).length ≤ 8 := by
  unfold safePrefix
  split
  · decide
  · exact List.length_take_le _ _

theorem makeClientOrderId_length :
    (makeClientOrderId cfg.textLib cfg.clientOrderIdPrefix i).length ≤ 36 := by
  have hsafe := @safePrefix_length cfg
  have hdigest := List.length_take_le (35 - (safePrefix cfg).length)
    (cfg.textLib.sha256Hex i).toList
  rw [← String.length_toList, makeClientOrderId_toList, List.length_append, List.length_cons]
  omega

/-- Every id is recognised if and only if something of the prefix is left, and it is all ASCII. -/
theorem recognised_iff (hhex : ∀ i, ∀ c ∈ (cfg.textLib.sha256Hex i).toList, HexDigit c) :
    (∀ i, Recognised cfg i) ↔
      cfg.textLib.safeChars cfg.clientOrderIdPrefix ≠ [] ∧
        ∀ c ∈ cfg.textLib.safeChars cfg.clientOrderIdPrefix, Permitted c := by
  constructor
  · intro h
    obtain ⟨-, hpermitted, hown⟩ := h sampleEntry
    have hne : cfg.textLib.safeChars cfg.clientOrderIdPrefix ≠ [] := by
      intro hnil
      rw [startsWith, makeClientOrderId_toList, ownPrefix, safePrefix, if_pos hnil, hnil,
        String.toList_ofList] at hown
      cases hown
    refine ⟨hne, fun c hc => hpermitted c ?_⟩
    rw [makeClientOrderId_toList, safePrefix, if_neg hne]
    exact List.mem_append_left _ hc
  · rintro ⟨hne, hsafe⟩ i
    have hsame : safePrefix cfg = cfg.textLib.safeChars cfg.clientOrderIdPrefix := if_neg hne
    refine ⟨makeClientOrderId_length, fun c hc => ?_, ?_⟩
    · rw [makeClientOrderId_toList, hsame, List.mem_append, List.mem_cons] at hc
      rcases hc with hc | rfl | hc
      · exact hsafe c hc
      · exact .inr (.inr rfl)
      · exact (hhex i c (List.mem_of_mem_take hc)).permitted
    · rw [startsWith, makeClientOrderId_toList, hsame, ownPrefix, String.toList_ofList,
        List.isPrefixOf_iff_prefix]
      exact ⟨_, by rw [List.append_assoc, List.singleton_append]⟩

/-- A digest table of hexadecimal texts. -/
theorem table_hex {digests : List (IntentId × String)}
    (h : ∀ d ∈ digests, (d.2.toList.all fun c => decide (HexDigit c)) = true) (i : IntentId) :
    ∀ c ∈ ((TextLib.table digests).sha256Hex i).toList, HexDigit c := by
  show ∀ c ∈ ((digests.lookup i).getD "").toList, HexDigit c
  rw [List.lookup_eq_findSome?]
  cases hd : digests.findSome? fun p => if i == p.1 then some p.2 else none with
  | none =>
    intro c hc
    cases hc
  | some d =>
    obtain ⟨p, hp, hpd⟩ := List.exists_of_findSome?_eq_some hd
    obtain rfl := Option.some.inj (Option.ite_none_right_eq_some.1 hpd).2
    exact forall_mem_of_all (h p hp)

/-- The default prefix. -/
theorem recognised_default : Recognised sampleConfig sampleEntry :=
  (recognised_iff (table_hex (by decide +kernel))).2
    ⟨by decide +kernel, forall_mem_of_all (by decide +kernel)⟩ sampleEntry

/-- A prefix of which nothing is left, and one in another alphabet. -/
theorem unrecognised_prefixes :
    ¬ Recognised { sampleConfig with clientOrderIdPrefix := "_" } sampleEntry ∧
      ¬ Recognised
        { sampleConfig with
          clientOrderIdPrefix := "бот"
          textLib := { sampleConfig.textLib with
            isalnum := fun c => c.isAlphanum || decide ('а' ≤ c ∧ c ≤ 'я') } } sampleEntry := by
  refine ⟨fun h => ?_, fun h => ?_⟩
  · have hown := h.own
    revert hown
    decide +kernel
  · have hpermitted := h.permitted 'б'
    revert hpermitted
    decide +kernel

end CryptoBot
