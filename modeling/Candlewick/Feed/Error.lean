/-! # Errors of feeds

Why a source of candles does not answer. -/

namespace Candlewick

/-- Why a source of candles does not answer. -/
inductive FeedError where
  /-- The connection was refused or lost. -/
  | disconnected (pair reason : String)
  /-- There is nothing for what was asked. -/
  | notAvailable (pair timeframe : String)
  /-- The source cannot do this at all. -/
  | unsupported (operation : String)
  /-- The data cannot be read. -/
  | parse (detail : String)
  /-- The source failed. -/
  | sourceFailed (cause : String)
deriving Repr, DecidableEq, Inhabited

/-- What is said of it. -/
def FeedError.message : FeedError → String
  | disconnected pair reason => "Feed for " ++ pair ++ " disconnected: " ++ reason
  | notAvailable pair timeframe => "No data for " ++ pair ++ " " ++ timeframe
  | unsupported operation => "Operation not supported: " ++ operation
  | parse detail => "Parse error: " ++ detail
  | sourceFailed cause => "Upstream error: " ++ cause

end Candlewick
