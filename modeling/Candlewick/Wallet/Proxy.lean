import Candlewick.Feed.Feeder
import Candlewick.Wallet.Valuation

/-! # Wallets as feeders

A wallet in front of a source of candles passes all questions on. Without a source it knows the
limits of the pairs that it can split, and nothing else. -/

namespace Candlewick

/-- A wallet with a source of candles, if it has one. -/
structure Proxy (φ α : Type) where
  wallet : Wallet α
  source : Option φ
deriving Inhabited

namespace Proxy
variable {φ α τ : Type}

/-- Asks the source, if there is one. -/
def ask (p : Proxy φ α) (operation : String) (f : φ → Except FeedError τ) : Except FeedError τ :=
  match p.source with
  | some s => f s
  | none => .error (.unsupported operation)

variable [Amount α]

/-- The limits of a pair by the rules of the wallet. -/
def ownLimits (p : Proxy φ α) (pair : String) : Except FeedError (PairLimits α) :=
  match p.wallet.split? pair with
  | some q => .ok (.unrestricted q.asset q.quote)
  | none => .error (.parse ("Unknown pair: " ++ pair))

variable [Feeder φ α]

/-- Opens a stream of the source. -/
def subscribe (p : Proxy φ α) (key : FeedKey) : Except FeedError (Stream α) × Proxy φ α :=
  match p.source with
  | none => (.error (.unsupported "candles_subscription"), p)
  | some s =>
    let (stream, s) := Feeder.subscribe s key
    (stream, { p with source := some s })

instance : Feeder (Proxy φ α) α where
  limits p pair :=
    match p.source with
    | some s => Feeder.limits s pair
    | none => p.ownLimits pair
  lastQuote p pair := p.ask "last_quote" (Feeder.lastQuote · pair)
  byPeriod p key first last := p.ask "candles_by_period" (Feeder.byPeriod · key first last)
  byLimit p key limit := p.ask "candles_by_limit" (Feeder.byLimit · key limit)
  subscribe := subscribe

end Proxy

end Candlewick
