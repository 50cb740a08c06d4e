import Candlewick.Time.Stamp
import Candlewick.Wallet.Valuation

/-! # Wallet reports

The text of a summary: what is held at the end, the returns, the risk and the volume. Values have
two decimals and quantities four. -/

namespace Candlewick

/-- A value with its coin. -/
def valueText (coin : String) (a : Float) : String := Decimal.fixed 2 a ++ " " ++ coin

/-- A fraction as hundredths. -/
def percentText (a : Float) : String := Decimal.fixed 2 (a * 100) ++ "%"

/-- A decline with the times it started and ended at. -/
def Drawdown.report (d : Drawdown Float) : String :=
  percentText d.value ++ " (" ++ d.start.report ++ " -> " ++ d.stop.report ++ ")"

/-- The report of a run. -/
def WalletSummary.report (s : WalletSummary Float) : String :=
  let value := valueText s.base
  let held (h : HeldAsset Float) : String :=
    Decimal.fixed 4 h.quantity ++ " " ++ h.asset ++ " = " ++ value h.value
  String.intercalate "\n"
    (["-- FINAL WALLET --"] ++ s.holdings.map held ++
      [ value s.baseBalance
      , "----- RETURNS -----"
      , "START PORTFOLIO = " ++ value s.initialValue
      , "FINAL PORTFOLIO = " ++ value s.finalValue
      , "GROSS PROFIT    = " ++ value s.profit ++ " (" ++ percentText s.returnRate ++ ")"
      , "MARKET CHANGE (B&H) = " ++ percentText s.marketChange
      , "------ RISK -------"
      , "MAX DRAWDOWN = " ++ (s.drawdown.map Drawdown.report).getD "0.00%"
      , "------ VOLUME -----"
      , value s.volume ])

/-- A wallet in a diagnostic text. -/
def Wallet.describe {α : Type} (w : Wallet α) (proxying : Bool) : String :=
  "PaperWallet \x7b orders: " ++ toString w.orders.length ++ ", proxying: " ++
    toString proxying ++ " \x7d"

end Candlewick
