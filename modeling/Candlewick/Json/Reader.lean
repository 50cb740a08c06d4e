import Candlewick.Json.Value

/-! # Reading JSON

`Json.read?` accepts exactly one value with blanks around it. Values may lie in one another to any
depth: the containers that are open are kept in a list, the innermost first. -/

namespace Candlewick.Json

/-- The text from its first character that is not blank in JSON. -/
def skipBlanks (cs : List Char) : List Char :=
  cs.dropWhile fun c => c = ' ' || c = '\n' || c = '\t' || c = '\r'

/-- The rest after a given word. -/
def afterWord? : List Char → List Char → Option (List Char)
  | [], cs => some cs
  | w :: ws, c :: cs => if w = c then afterWord? ws cs else none
  | _ :: _, [] => none

/-- Four digits in base sixteen. -/
def takeHex : List Char → Option (Nat × List Char)
  | a :: b :: c :: d :: cs => do
    let digit := Decimal.hexDigit?
    return ((← digit a) * 4096 + (← digit b) * 256 + (← digit c) * 16 + (← digit d), cs)
  | _ => none

/-- A character by its code after `\u`. Two codes of the surrogate range make one character; one
that stands alone makes none. -/
def takeCode (cs : List Char) : Option (Option Char × List Char) := do
  let (n, cs) ← takeHex cs
  if n < 0xd800 ∨ 0xe000 ≤ n then return (some (Char.ofNat n), cs)
  else if 0xdc00 ≤ n then return (none, cs)
  else
    match cs with
    | '\\' :: 'u' :: after =>
      let (k, after) ← takeHex after
      if 0xdc00 ≤ k ∧ k < 0xe000 then
        return (some (Char.ofNat (0x10000 + (n - 0xd800) * 1024 + (k - 0xdc00))), after)
      else return (none, cs)
    | _ => return (none, cs)

/-- The character that a letter after a backslash stands for. -/
def escape? (c : Char) : Option Char :=
  if c = '"' ∨ c = '\\' ∨ c = '/' then some c
  else if c = 'b' then some '\x08'
  else if c = 'f' then some '\x0c'
  else if c = 'n' then some '\n'
  else if c = 'r' then some '\r'
  else if c = 't' then some '\t'
  else none

/-- The characters up to the closing quote, put before `done` in reverse, and the rest; no text
where a code made no character. Fuel counts characters. -/
def takeString : Nat → Option (List Char) → List Char → Option (Option String × List Char)
  | 0, _, _ | _, _, [] => none
  | fuel + 1, done, c :: cs =>
    if c = '"' then some (done.map fun cs => String.ofList cs.reverse, cs)
    else if c = '\\' then
      match cs with
      | 'u' :: cs =>
        match takeCode cs with
        | some (c, cs) => takeString fuel (done.bind fun cs => c.map (· :: cs)) cs
        | none => none
      | e :: cs =>
        match escape? e with
        | some c => takeString fuel (done.map (c :: ·)) cs
        | none => none
      | [] => none
    else if c.toNat < 32 then none
    else takeString fuel (done.map (c :: ·)) cs

/-- At least one digit, and the rest. -/
def takeDigits1 (cs : List Char) : Option (List Char × List Char) :=
  match Decimal.takeDigits cs with
  | ([], _) => none
  | r => some r

/-- A numeral: no sign but minus, no needless zero in front, digits on both sides of a point. -/
def takeNumeral (cs : List Char) : Option (Decimal.Numeral × List Char) := do
  let (negative, cs) := match cs with
    | '-' :: cs => (true, cs)
    | cs => (false, cs)
  let (whole, cs) ← takeDigits1 cs
  if whole.length > 1 && whole.head? = some '0' then none
  else
    let (fraction, cs) ← match cs with
      | '.' :: cs => takeDigits1 cs
      | cs => some ([], cs)
    match cs with
    | [] => return (⟨negative, whole, fraction, none⟩, [])
    | c :: rest =>
      if c = 'e' ∨ c = 'E' then
        let (below, rest) := Decimal.takeSign rest
        let (ds, rest) ← takeDigits1 rest
        let n : Int := Decimal.natOfDigits ds
        return (⟨negative, whole, fraction, some (if below then -n else n)⟩, rest)
      else return (⟨negative, whole, fraction, none⟩, c :: rest)

/-- A container that is open, with what it holds so far in reverse. -/
inductive Open where
  | arr (done : List Json)
  /-- With the name of the field whose value comes next; no fields where a name was no text. -/
  | obj (done : Option (List (String × Json))) (name : Option String)

namespace Open

/-- The object with the value of its next field. -/
def add (done : Option (List (String × Json))) (name : Option String) (v : Json) :
    Option (List (String × Json)) := do
  return (← name, v) :: (← done)

/-- The value of an object that is closed. -/
def close (done : Option (List (String × Json))) : Json :=
  match done with
  | some fs => .obj fs.reverse
  | none => .unusable

end Open

/-- The name of a field after blanks, with the colon after it, and the rest. -/
def takeName (fuel : Nat) (cs : List Char) : Option (Option String × List Char) :=
  match skipBlanks cs with
  | '"' :: cs => do
    let (name, cs) ← takeString fuel (some []) cs
    match skipBlanks cs with
    | ':' :: cs => return (name, cs)
    | _ => none
  | _ => none

/-- A value that is no container, whose first character is given, and the rest. -/
def takePlain (fuel : Nat) (c : Char) (cs : List Char) : Option (Json × List Char) :=
  if c = 'n' then (afterWord? ['u', 'l', 'l'] cs).map fun cs => (.null, cs)
  else if c = 't' then (afterWord? ['r', 'u', 'e'] cs).map fun cs => (.bool true, cs)
  else if c = 'f' then (afterWord? ['a', 'l', 's', 'e'] cs).map fun cs => (.bool false, cs)
  else if c = '"' then
    (takeString fuel (some []) cs).map fun (s, cs) => (s.elim .unusable .str, cs)
  else (takeNumeral (c :: cs)).map fun (n, cs) => (.num n, cs)

/-- Reads on inside of open containers: after a value if there is one, and else where one has to
begin. Every step takes a character, so that fuel counts characters. -/
def takeFrom : Nat → List Open → Option Json → List Char → Option (Json × List Char)
  | 0, _, _, _ => none
  | _ + 1, [], some v, cs => some (v, cs)
  | fuel + 1, .arr done :: opens, some v, cs =>
    match skipBlanks cs with
    | ',' :: cs => takeFrom fuel (.arr (v :: done) :: opens) none cs
    | ']' :: cs => takeFrom fuel opens (some (.arr (v :: done).reverse)) cs
    | _ => none
  | fuel + 1, .obj done name :: opens, some v, cs =>
    match skipBlanks cs with
    | ',' :: cs =>
      match takeName fuel cs with
      | some (next, cs) => takeFrom fuel (.obj (Open.add done name v) next :: opens) none cs
      | none => none
    | '\x7d' :: cs => takeFrom fuel opens (some (Open.close (Open.add done name v))) cs
    | _ => none
  | fuel + 1, opens, none, cs =>
    match skipBlanks cs with
    | '[' :: cs =>
      match skipBlanks cs with
      | ']' :: cs => takeFrom fuel opens (some (.arr [])) cs
      | cs => takeFrom fuel (.arr [] :: opens) none cs
    | '\x7b' :: cs =>
      match skipBlanks cs with
      | '\x7d' :: cs => takeFrom fuel opens (some (.obj [])) cs
      | cs =>
        match takeName fuel cs with
        | some (name, cs) => takeFrom fuel (.obj (some []) name :: opens) none cs
        | none => none
    | c :: cs =>
      match takePlain fuel c cs with
      | some (v, cs) => takeFrom fuel opens (some v) cs
      | none => none
    | [] => none

/-- Reads a text that holds exactly one value. -/
def read? (text : String) : Option Json :=
  let cs := text.toList
  match takeFrom (cs.length + 2) [] none cs with
  | some (v, rest) => if (skipBlanks rest).isEmpty then some v else none
  | none => none

end Candlewick.Json
