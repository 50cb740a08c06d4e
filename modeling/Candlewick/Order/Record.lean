import Candlewick.Json.Record
import Candlewick.Order.Basic

/-! # Written orders

`Order.report` is the line that reports show for an order, `Order.write` and `Order.read?` are its
JSON form. -/

namespace Candlewick

namespace Moment

/-- The moment to the minute. -/
def report : Moment → String
  | .at t => t.report
  | .now => "now"

/-- The moment in full. -/
def stamp : Moment → String
  | .at t => t.stamp
  | .now => "now"

end Moment

namespace Order

/-- State, side, pair, date, identity, kind, quantity, price and value. Prices have four decimals
and values two. -/
def report (o : Order Float) : String :=
  "[" ++ o.status.name ++ "] " ++ o.side.name ++ " " ++ o.pair ++ " " ++ o.created.report ++
    " | ID: " ++ toString o.id ++ ", Type: " ++ o.kind.name ++ ", " ++
    Decimal.plain o.quantity ++ " x $" ++ Decimal.fixed 4 o.price ++
    " (~$" ++ Decimal.fixed 2 o.notional ++ ")"

/-- The fields of a written order. -/
def fieldNames : List String :=
  ["exchange_id", "group_id", "pair", "side", "order_type", "status", "price", "stop", "quantity",
    "created_at", "updated_at"]

/-- The JSON form. Amounts that have no numeral are null. -/
def write (o : Order Float) : Json :=
  .obj (fieldNames.zip
    [.int o.id, .option (o.group.map .int), .str o.pair, .str o.side.name, .str o.kind.name,
      .str o.status.name, .finite o.price, .option (o.stop.map .finite), .finite o.quantity,
      .str o.created.stamp, .str o.updated.stamp])

/-- Reads the JSON form. -/
def read? (v : Json) : Option (Order Float) := do
  match ← Json.slots? fieldNames v with
  | [id, group, pair, side, kind, status, price, stop, quantity, created, updated] =>
    return {
      id := ← id.required Json.int64?
      group := ← group.optional Json.int64?
      pair := ← pair.required Json.string?
      side := ← side.required (Json.name? Side.ofName?)
      kind := ← kind.required (Json.name? OrderKind.ofName?)
      status := ← status.required (Json.name? OrderStatus.ofName?)
      price := ← price.required Json.float?
      stop := ← stop.optional Json.float?
      quantity := ← quantity.required Json.float?
      created := .at (← created.required Json.instant?)
      updated := .at (← updated.required Json.instant?) }
  | _ => none

end Order

end Candlewick
