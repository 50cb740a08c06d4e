import Candlewick.Decimal.Text

/-! # JSON values

A value keeps its numerals as they were written, since whether a number is whole is a matter of its
writing, and the fields of an object in order with repetitions, since a reader of records refuses a
field that is given twice. A well-formed text may also hold what stands for no value at all; that is
kept as `Json.unusable`, since a reader may pass over it. `Json.write` is the compact text of a
value. -/

namespace Candlewick

/-- A JSON value. -/
inductive Json where
  | null
  | bool (b : Bool)
  | num (n : Decimal.Numeral)
  | str (s : String)
  | arr (elements : List Json)
  | obj (fields : List (String × Json))
  /-- A text with half of a surrogate pair, or an object with such a name. -/
  | unusable
deriving Inhabited

namespace Json

/-- A whole number. -/
def int (n : Int) : Json := .num (.ofInt n)

/-- A number, or the word for one that has no numeral. -/
def float (a : Float) : Json :=
  match Decimal.Numeral.ofFloat? a with
  | some n => .num n
  | none => .str (Decimal.plain a)

/-- A number, or null for one that has no numeral. -/
def finite (a : Float) : Json :=
  match Decimal.Numeral.ofFloat? a with
  | some n => .num n
  | none => .null

/-- A value or null. -/
def option (o : Option Json) : Json := o.getD .null

/-- A character between quotes. Controls are written by code point. -/
def writeChar (c : Char) : List Char :=
  if c = '"' then ['\\', '"']
  else if c = '\\' then ['\\', '\\']
  else if c.toNat < 32 then
    let ds := Nat.toDigits 16 c.toNat
    ['\\', 'u'] ++ List.replicate (4 - ds.length) '0' ++ ds
  else [c]

/-- A text between quotes. -/
def writeString (s : String) : String :=
  String.ofList (('"' :: s.toList.flatMap writeChar) ++ ['"'])

mutual

/-- The compact text of a value; what is unusable is written as null. -/
def write : Json → String
  | .null | .unusable => "null"
  | .bool b => if b then "true" else "false"
  | .num n => n.text
  | .str s => writeString s
  | .arr es => "[" ++ writeElements es ++ "]"
  | .obj fs => "\x7b" ++ writeFields fs ++ "\x7d"

/-- The elements of an array, with commas between them. -/
def writeElements : List Json → String
  | [] => ""
  | [e] => e.write
  | e :: es => e.write ++ "," ++ writeElements es

/-- The fields of an object, with commas between them. -/
def writeFields : List (String × Json) → String
  | [] => ""
  | [(k, v)] => writeString k ++ ":" ++ v.write
  | (k, v) :: fs => writeString k ++ ":" ++ v.write ++ "," ++ writeFields fs

end

end Json

end Candlewick
