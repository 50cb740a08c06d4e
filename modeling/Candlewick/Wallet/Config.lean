import Candlewick.Amount
import Candlewick.Json.Record
import Candlewick.Table
import Candlewick.Text.Upper

/-! # Wallet configurations

What a wallet starts with: the coin that values are reckoned in, the amounts it holds, and the fees
of its venue. -/

namespace Candlewick

/-- The starting balances of a wallet and its fee rates. -/
structure WalletConfig (α : Type) where
  /-- The coin that values are reckoned in. -/
  base : String
  /-- The free amount of each asset at the start. -/
  assets : Table String α
  /-- The fee rate of orders that rest. -/
  makerFee : α
  /-- The fee rate of orders that execute at once. -/
  takerFee : α
deriving Inhabited

namespace WalletConfig

section Generic
variable {α : Type} [Amount α]

/-- An empty wallet without fees. -/
def ofBase (base : String) : WalletConfig α := ⟨base, .empty, Amount.zero, Amount.zero⟩

/-- Adds to the starting balance of an asset. -/
def withAsset (c : WalletConfig α) (asset : String) (amount : α) : WalletConfig α :=
  { c with assets := c.assets.update (upperName asset) Amount.zero (· + amount) }

/-- Sets the fee rates. -/
def withFees (c : WalletConfig α) (maker taker : α) : WalletConfig α :=
  { c with makerFee := maker, takerFee := taker }

end Generic

/-- Reads the JSON form. Every field may be left out. -/
def read? (v : Json) : Option (WalletConfig Float) := do
  match ← Json.slots? ["base_coin", "assets", "maker_fee", "taker_fee"] v with
  | [base, assets, maker, taker] =>
    return {
      base := ← base.default "USDT" Json.string?
      assets := .ofList (← assets.default [] (Json.pairs? Json.float?))
      makerFee := ← maker.default 0 Json.float?
      takerFee := ← taker.default 0 Json.float? }
  | _ => none

end WalletConfig

end Candlewick
