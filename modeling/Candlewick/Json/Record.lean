import Candlewick.Json.Reader
import Candlewick.Time.Stamp

/-! # Records in JSON

A record is an object whose fields have names, or an array of the values of its fields in order.
Fields of other names are ignored, a field given twice is refused, and so is an array with too many
elements. What stands for a field (`Slot`) tells a field that an object leaves out from one that an
array is too short for: only the first may stand for an absent optional value. -/

namespace Candlewick.Json

/-- What a record says about one of its fields. -/
inductive Slot where
  /-- The field has this value. -/
  | given (value : Json)
  /-- The object has no such field. -/
  | omitted
  /-- The array ends before the field. -/
  | beyond
deriving Inhabited

/-- The values under one name in an object. -/
def valuesOf (name : String) (fields : List (String × Json)) : List Json :=
  (fields.filter (·.1 = name)).map (·.2)

/-- What a record says about the fields of the given names, in their order. -/
def slots? (names : List String) : Json → Option (List Slot)
  | .obj fields =>
    names.mapM fun name =>
      match valuesOf name fields with
      | [] => some .omitted
      | [v] => some (.given v)
      | _ => none
  | .arr elements =>
    if elements.length > names.length then none
    else some (elements.map .given ++ List.replicate (names.length - elements.length) .beyond)
  | _ => none

namespace Slot
variable {τ : Type}

/-- A field that has to be there. -/
def required (read : Json → Option τ) : Slot → Option τ
  | .given v => read v
  | _ => none

/-- A field with a default. -/
def default (value : τ) (read : Json → Option τ) : Slot → Option τ
  | .given v => read v
  | _ => some value

/-- A field that may be null or left out. -/
def optional (read : Json → Option τ) : Slot → Option (Option τ)
  | .given .null => some none
  | .given v => (read v).map some
  | .omitted => some none
  | .beyond => none

end Slot

/-! ### Values of fields -/

/-- A text. -/
def string? : Json → Option String
  | .str s => some s
  | _ => none

/-- A truth value. -/
def bool? : Json → Option Bool
  | .bool b => some b
  | _ => none

/-- A finite number. -/
def float? : Json → Option Float
  | .num n =>
    let a := n.toFloat
    if a.isFinite then some a else none
  | _ => none

/-- A whole number from `low` to `high`, written without a point. Zero has no sign. -/
def intBetween? (low high : Int) : Json → Option Int
  | .num n =>
    match n.toInt? with
    | some k => if low ≤ k && k ≤ high && !(n.negative && k = 0) then some k else none
    | none => none
  | _ => none

/-- A whole number that 64 bits with a sign hold. -/
def int64? : Json → Option Int :=
  intBetween? (-9223372036854775808) 9223372036854775807

/-- A count of at most 64 bits. -/
def nat64? (v : Json) : Option Nat :=
  (intBetween? 0 (UInt64.size - 1 : Nat) v).map Int.toNat

/-- A count of at most 32 bits. -/
def nat32? (v : Json) : Option Nat :=
  (intBetween? 0 (UInt32.size - 1 : Nat) v).map Int.toNat

/-- A list of values of one kind. -/
def list? {τ : Type} (read : Json → Option τ) : Json → Option (List τ)
  | .arr es => es.mapM read
  | _ => none

/-- The pairs of an object. -/
def pairs? {τ : Type} (read : Json → Option τ) : Json → Option (List (String × τ))
  | .obj fs => fs.mapM fun (k, v) => (read v).map fun x => (k, x)
  | _ => none

/-- A word out of a closed list: a text, or an object with the word as its only field and null as
the value. -/
def word? : Json → Option String
  | .str s => some s
  | .obj [(s, .null)] => some s
  | _ => none

/-- A word that `ofName?` knows. -/
def name? {τ : Type} (ofName? : String → Option τ) (v : Json) : Option τ :=
  (word? v).bind ofName?

/-- A written instant. -/
def instant? : Json → Option Instant
  | .str s => Instant.ofStamp? s
  | _ => none

end Candlewick.Json
