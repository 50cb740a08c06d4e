import Candlewick.Candle.Basic
import Candlewick.Json.Record

/-! # Written candles

The JSON form of a candle, and what is said of a value that metadata refuses. Reading takes any
numbers as metadata: only the setters check names. -/

namespace Candlewick

/-- What is said of a refused value. -/
def MetadataError.message : MetadataError Float → String
  | .nonFinite name value => "Non-finite value " ++ Decimal.plain value ++ " for " ++ name
  | .reservedName name => "Extension name " ++ name ++ " is reserved for a known metric"
  | .emptyName => "Extension name must not be empty"
  | .unknownMetric name => "Unknown metric: " ++ name

namespace Metadata

/-- The metrics by name, in alphabetical order, then the extensions likewise. -/
def write (m : Metadata Float) : Json :=
  let metrics := (Table.ofList (m.metrics.entries.map fun (k, v) => (k.name, v))).sorted
  .obj [("metrics", .obj (metrics.map fun (k, v) => (k, .finite v))),
    ("extra", .obj (m.extra.sorted.map fun (k, v) => (k, .finite v)))]

/-- Reads metrics and extensions; under a name that is written twice the last value counts. -/
def read? (v : Json) : Option (Metadata Float) := do
  match ← Json.slots? ["metrics", "extra"] v with
  | [metrics, extra] =>
    let metrics ← metrics.required (Json.pairs? Json.float?)
    let metrics ← metrics.mapM fun (name, x) => (Metric.ofName? name).map fun k => (k, x)
    let extra ← extra.required (Json.pairs? Json.float?)
    return ⟨.ofList metrics, .ofList extra⟩
  | _ => none

end Metadata

namespace Candle

/-- The fields of a written candle. -/
def fieldNames : List String :=
  ["pair", "time", "updated_at", "open", "high", "low", "close", "volume", "complete", "metadata"]

/-- The JSON form. Amounts that have no numeral are null. -/
def write (c : Candle Float) : Json :=
  .obj (fieldNames.zip
    [.str c.pair, .str c.time.stamp, .str c.updated.stamp, .finite c.opening, .finite c.high,
      .finite c.low, .finite c.close, .finite c.volume, .bool c.complete, c.metadata.write])

/-- Reads the JSON form. Metadata may be left out. -/
def read? (v : Json) : Option (Candle Float) := do
  match ← Json.slots? fieldNames v with
  | [pair, time, updated, opening, high, low, close, volume, complete, metadata] =>
    return {
      pair := ← pair.required Json.string?
      time := ← time.required Json.instant?
      updated := ← updated.required Json.instant?
      opening := ← opening.required Json.float?
      high := ← high.required Json.float?
      low := ← low.required Json.float?
      close := ← close.required Json.float?
      volume := ← volume.required Json.float?
      complete := ← complete.required Json.bool?
      metadata := ← metadata.default .empty Metadata.read? }
  | _ => none

end Candle

end Candlewick
