import Candlewick.Text.Blank
import Candlewick.Text.Upper

/-! # Pairs

The name of a pair joins the asset that is traded and the quote that prices are in: `BTC/USDT`,
`BTC-USDT` or `BTCUSDT`. `splitPair` takes a name apart after trimming it and raising it to upper
case. A separator decides alone; without one the longest known quote at the end of the name does. -/

namespace Candlewick

/-- The asset that is traded and the quote that pays for it. -/
structure Pair where
  asset : String
  quote : String
deriving Repr, DecidableEq, Inhabited

/-- The quotes that are recognised at the end of a name without a separator. -/
def knownQuotes : List (List Char) :=
  ["FDUSD".toList, "USDT".toList, "BUSD".toList, "USDC".toList, "TUSD".toList, "DAI".toList,
    "USD".toList, "EUR".toList, "TRY".toList, "BTC".toList, "ETH".toList, "BNB".toList]

/-- Whether a character separates asset and quote. -/
def isSeparator (c : Char) : Bool := c = '/' || c = '-'

/-- What stands in front of an ending, if that is not nothing. -/
def beforeEnding? (name ending : List Char) : Option (List Char) :=
  if name.length > ending.length && ending.isSuffixOf name then
    some (name.take (name.length - ending.length))
  else none

/-- The longer of two quotes, the second where they are equally long. -/
def longer (a b : List Char) : List Char := if a.length > b.length then a else b

/-- The longest known quote that ends a name with something in front of it. -/
def quoteOf? (name : List Char) : Option (List Char) :=
  (knownQuotes.filter fun q => (beforeEnding? name q).isSome).foldl
    (fun best q => some (match best with
      | none => q
      | some b => longer b q)) none

/-- Splits a name at its first separator, both parts being needed. -/
def splitAtSeparator? (name : List Char) : Option (List Char × List Char) :=
  let asset := name.takeWhile (!isSeparator ·)
  let quote := (name.dropWhile (!isSeparator ·)).drop 1
  if asset.isEmpty || quote.isEmpty then none else some (asset, quote)

/-- Splits a name that is trimmed and in upper case. -/
def splitName? (name : List Char) : Option (List Char × List Char) :=
  if name.any isSeparator then splitAtSeparator? name
  else do
    let quote ← quoteOf? name
    return (← beforeEnding? name quote, quote)

/-- A name as pairs are told apart by: without blanks around it and in upper case. -/
def canonicalName (pair : String) : List Char := upperCase (trimBlank pair.toList)

/-- The pair of two parts of a name. -/
def Pair.ofParts (parts : List Char × List Char) : Pair :=
  ⟨String.ofList parts.1, String.ofList parts.2⟩

/-- The asset and the quote of a named pair. -/
def splitPair (pair : String) : Option Pair := (splitName? (canonicalName pair)).map .ofParts

example : splitName? "BTCFDUSD".toList = some ("BTC".toList, "FDUSD".toList) := by decide
example : splitName? "A-B/C".toList = some ("A".toList, "B/C".toList) := by decide
example : splitName? "USDT".toList = none ∧ splitName? "BTC/".toList = none := by decide

end Candlewick
