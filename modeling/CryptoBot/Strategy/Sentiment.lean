import CryptoBot.Lib.Grid
import CryptoBot.Lib.Fields
import Mathlib.Data.Rat.Floor
import Mathlib.Data.List.SplitOn

/-!
# News sentiment

`sentiment.py`: the score of a headline is that of VADER, which is a parameter, or that of the
fallback lexicon; the score of the news is the mean over the headlines, to three decimals.
-/

namespace CryptoBot

open Lib

/-- A headline of `get_news_headlines`. -/
structure Headline where
  title : String
  published : String := ""
  source : String := ""
deriving DecidableEq

inductive SentimentLabel
  | positive | negative | neutral
deriving DecidableEq, Repr

def SentimentLabel.value : SentimentLabel → String
  | .positive => "positive"
  | .negative => "negative"
  | .neutral => "neutral"

/-- The value of `score_headlines`. -/
structure Sentiment where
  score : ℚ
  label : SentimentLabel
  count : Nat
  breakdown : List (Headline × ℚ)
deriving DecidableEq

namespace Sentiment

/-- `_POSITIVE_WORDS`. -/
def positiveWords : List String :=
  ["surge", "rally", "bullish", "soar", "gain", "gains", "breakout", "record",
   "inflow", "inflows", "adoption", "approval", "approved", "upgrade", "partnership",
   "recover", "recovery", "rebound", "buy", "accumulate"]

/-- `_NEGATIVE_WORDS`. -/
def negativeWords : List String :=
  ["crash", "plunge", "bearish", "selloff", "sell-off", "hack", "hacked", "exploit",
   "ban", "banned", "lawsuit", "fraud", "collapse", "outflow", "outflows",
   "liquidation", "liquidated", "warning", "decline", "fear", "regulation", "crackdown"]

/-- `str.lower` on one character, as far as its value may be a letter of the lexicon: of the
characters outside ASCII only the Kelvin sign has such a value. -/
def lower (c : Char) : Char := if c = '\u212a' then 'k' else c.toLower

/-- The words of `_fallback_score`. -/
def words (text : String) : List (List Char) :=
  ((text.toList.map fun c => if c = ',' ∨ c = '.' then ' ' else lower c).splitOnP isSpace).filter
    fun w => !w.isEmpty

/-- How many of the words stand in a lexicon. -/
def hits (lexicon : List String) (ws : List (List Char)) : Nat :=
  ws.countP fun w => lexicon.any fun entry => decide (entry.toList = w)

/-- `_fallback_score`. -/
def fallbackScore (text : String) : ℚ :=
  let ws := words text
  let pos := hits positiveWords ws
  let neg := hits negativeWords ws
  if pos + neg = 0 then 0 else ((pos : ℚ) - neg) / (pos + neg)

/-- `score_text`: by the analyzer, if it is installed. -/
def scoreText (analyzer : Option (String → ℚ)) (text : String) : ℚ :=
  match analyzer with
  | some compound => compound text
  | none => fallbackScore text

/-- `score_headlines`. -/
def scoreHeadlines (analyzer : Option (String → ℚ)) (headlines : List Headline) : Sentiment :=
  if headlines = [] then ⟨0, .neutral, 0, []⟩
  else
    let total := (headlines.map fun h => scoreText analyzer h.title).sum
    let breakdown := headlines.map fun h =>
      (h, Grid.nearest (1 / 1000) (scoreText analyzer h.title))
    let avg := total / headlines.length
    let label := if 15 / 100 < avg then .positive else if avg < -(15 / 100) then .negative
      else .neutral
    { score := Grid.nearest (1 / 1000) avg
      label := label
      count := headlines.length
      breakdown := breakdown.mergeSort fun x y => decide (x.2 ≤ y.2) }

end Sentiment

end CryptoBot
