import Candlewick.Candle.Basic
import Candlewick.Decimal.Text
import Candlewick.Text.Blank
import Candlewick.Text.Utf8

/-! # Candle files

Candles as comma-separated values: a row of names, then one row for each bar with its opening time
in seconds. `Csv.rows` takes the text apart; `Csv.candles` reads the rows into candles.

Fields are separated by commas and rows by line feeds, carriage returns or both; empty lines do not
count. A quote at the start of a field opens a quoted part, in which only a quote means something: a
doubled one stands for itself, a single one ends the part. All rows have as many fields as the first
one. Blanks around a field do not count. -/

namespace Candlewick

/-- Why a file of candles is not read. -/
inductive CandleFileError where
  /-- It has rows that are not rows of numbers under the right names. -/
  | malformed
  /-- A time has no date. -/
  | invalidTimestamp (time : Int)
  /-- A value is undefined or infinite. -/
  | nonFinite (time : Int)
deriving Repr, DecidableEq

/-- What is said of it. -/
def CandleFileError.detail : CandleFileError → String
  | malformed => "malformed candle file"
  | invalidTimestamp time => "invalid timestamp " ++ toString time
  | nonFinite time => "non-finite value in row at " ++ toString time

namespace Csv

/-! ### Rows -/

/-- Where in a row the reader is. -/
inductive Position where
  /-- Before a row. -/
  | start
  /-- Before a field that is not the first of its row. -/
  | field
  /-- In a field. -/
  | plain
  /-- In a quoted part. -/
  | quoted
  /-- After a quote in a quoted part. -/
  | afterQuote
deriving Repr, DecidableEq

/-- What was read so far, everything in reverse: the current field, the fields of the current row
before it, and the rows before that. -/
structure Reading where
  position : Position
  field : List UInt8
  fields : List (List UInt8)
  rows : List (List (List UInt8))

namespace Reading

/-- Before the first row. -/
def initial : Reading := ⟨.start, [], [], []⟩

/-- The current field ends, and another follows. -/
def endField (r : Reading) : Reading :=
  { r with position := .field, field := [], fields := r.field.reverse :: r.fields }

/-- The current row ends. -/
def endRow (r : Reading) : Reading :=
  ⟨.start, [], [], (r.field.reverse :: r.fields).reverse :: r.rows⟩

/-- One more byte in the current field. -/
def add (r : Reading) (position : Position) (b : UInt8) : Reading :=
  { r with position, field := b :: r.field }

/-- Whether a byte ends a row. -/
def isRowEnd (b : UInt8) : Bool := b = 10 || b = 13

/-- A byte that is no part of a quoted part. -/
def stepPlain (r : Reading) (b : UInt8) : Reading :=
  if b = 44 then r.endField
  else if isRowEnd b then r.endRow
  else r.add .plain b

/-- Reads a byte. Since empty lines do not count, a line feed after a carriage return needs no
attention. -/
def step (r : Reading) (b : UInt8) : Reading :=
  match r.position with
  | .start =>
    if isRowEnd b then r
    else if b = 34 then { r with position := .quoted }
    else r.stepPlain b
  | .field => if b = 34 then { r with position := .quoted } else r.stepPlain b
  | .plain => r.stepPlain b
  | .quoted => if b = 34 then { r with position := .afterQuote } else r.add .quoted b
  | .afterQuote => if b = 34 then r.add .quoted b else r.stepPlain b

/-- The rows when nothing more comes. -/
def finish (r : Reading) : List (List (List UInt8)) :=
  match r.position with
  | .start => r.rows.reverse
  | _ => r.endRow.rows.reverse

end Reading

/-- The bytes without a byte order mark at the front. -/
def dropMark : List UInt8 → List UInt8
  | 0xef :: 0xbb :: 0xbf :: bs => bs
  | bs => bs

/-- The rows of fields of a file. -/
def rows (bytes : List UInt8) : List (List (List UInt8)) :=
  ((dropMark bytes).foldl Reading.step .initial).finish

/-! ### Values -/

/-- The text of a field without blanks around it, if the bytes are those of a text. -/
def text? (bytes : List UInt8) : Option String :=
  (utf8? bytes).map fun s => String.ofList (trimBlank s.toList)

/-- The texts of a row. -/
def texts? (row : List (List UInt8)) : Option (List String) := row.mapM text?

/-- A whole number in base sixteen, signed or not. -/
def hexInt? (cs : List Char) : Option Int := do
  let (negative, ds) := Decimal.takeSign cs
  if ds.isEmpty then none
  else
    let n : Nat ← ds.foldlM (fun n c => (Decimal.hexDigit? c).map (16 * n + ·)) 0
    return if negative then -(n : Int) else n

/-- A whole number of 64 bits in base ten, or in base sixteen after `0x`. -/
def int? (s : String) : Option Int := do
  let n ← match s.toList with
    | '0' :: 'x' :: cs => hexInt? cs
    | cs => Decimal.int? cs
  if -9223372036854775808 ≤ n ∧ n ≤ 9223372036854775807 then some n else none

/-- The numbers of a row. -/
structure Record where
  time : Int
  opening : Float
  close : Float
  low : Float
  high : Float
  volume : Float

/-- The names of the columns, in the order of the fields of a record. -/
def columnNames : List String := ["time", "open", "close", "low", "high", "volume"]

/-- The fields in the order of `columnNames`, each name standing over exactly one of them. -/
def pick? (names fields : List String) : Option (List String) :=
  columnNames.mapM fun name =>
    match (names.zip fields).filter (·.1 = name) with
    | [(_, field)] => some field
    | _ => none

/-- Reads the fields of a record. -/
def record? : List String → Option Record
  | time :: opening :: close :: low :: high :: volume :: _ => do
    return {
      time := ← int? time
      opening := ← Decimal.toFloat? opening
      close := ← Decimal.toFloat? close
      low := ← Decimal.toFloat? low
      high := ← Decimal.toFloat? high
      volume := ← Decimal.toFloat? volume }
  | _ => none

/-! ### Candles -/

/-- The complete candle of a record. The time is looked at before the values. -/
def Record.candle (r : Record) (pair : String) : Except CandleFileError (Candle Float) :=
  match Instant.ofSeconds? r.time with
  | none => .error (.invalidTimestamp r.time)
  | some time =>
    if [r.opening, r.close, r.low, r.high, r.volume].all Float.isFinite then
      .ok {
        pair, time, updated := time
        opening := r.opening, high := r.high, low := r.low, close := r.close
        volume := r.volume, complete := true, metadata := .empty }
    else .error (.nonFinite r.time)

/-- The candle of a row. Where the names themselves are no texts, the fields count by position. -/
def candle (names : List (List UInt8)) (pair : String) (row : List (List UInt8)) :
    Except CandleFileError (Candle Float) :=
  let record := do
    if row.length ≠ names.length then none
    else
      let fields ← texts? row
      match texts? names with
      | some names => (pick? names fields).bind record?
      | none => record? fields
  match record with
  | some r => r.candle pair
  | none => .error .malformed

/-- The candles of a file in the order of their times, or what is wrong with its first bad row. -/
def candles (bytes : List UInt8) (pair : String) :
    Except CandleFileError (List (Candle Float)) :=
  match rows bytes with
  | [] => .ok []
  | names :: rows =>
    (rows.mapM (candle names pair)).map (·.mergeSort fun a b => a.time.upTo b.time)

end Csv

end Candlewick
