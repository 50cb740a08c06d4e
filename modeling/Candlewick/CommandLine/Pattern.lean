import Candlewick.Decimal.Text
import Candlewick.Text.Blank
import Candlewick.Text.Letter

/-! # Patterns

The patterns that a log filter may ask the value of a field to match: characters, classes in
brackets, escapes, groups, alternatives and repetitions. Nothing is matched here; `Pattern.reads`
says which texts are patterns at all.

A pattern is about characters of all scripts unless it says otherwise (`(?-u)`). In that mode there
are no ready-made classes (`\d`), no word boundaries, and no way to disregard case, because those
need tables; outside of it a pattern must not go beyond ASCII. Repetition counts in braces are not
supported. -/

namespace Candlewick.Pattern

/-- How the characters of a pattern are meant. -/
structure Mode where
  /-- In all scripts. -/
  unicode : Bool
  anyCase : Bool
  /-- Blanks and comments between the parts are no parts. -/
  spaced : Bool
deriving Repr, DecidableEq

namespace Mode

/-- How a pattern begins. -/
def initial : Mode := ⟨true, false, false⟩

/-- Whether a character may stand for itself. -/
def allows (m : Mode) (c : Char) : Bool := if m.unicode then !m.anyCase else c.toNat < 128

/-- Sets or clears a flag. -/
def set? (m : Mode) (flag : Char) (on : Bool) : Option Mode :=
  if flag = 'u' then some { m with unicode := on }
  else if flag = 'i' then some { m with anyCase := on }
  else if flag = 'x' then some { m with spaced := on }
  else if ['m', 's', 'U', 'R'].contains flag then some m
  else none

end Mode

/-- What an escape stands for. -/
inductive Escape where
  | char (c : Char)
  /-- A class of characters. -/
  | cls
  /-- A place in the text. -/
  | place
deriving Repr, DecidableEq

/-- The value of a number of digits in base sixteen, and the rest. -/
def takeHex (count : Nat) (cs : List Char) : Option (Char × List Char) := do
  let ds := cs.take count
  if ds.length < count then none
  else
    let n : Nat ← ds.foldlM (fun n c => (Decimal.hexDigit? c).map (16 * n + ·)) 0
    if n < 0xd800 ∨ 0xe000 ≤ n ∧ n < 0x110000 then return (Char.ofNat n, cs.drop count) else none

/-- What stands after a backslash, and the rest. -/
def takeEscape (m : Mode) : List Char → Option (Escape × List Char)
  | [] => none
  | c :: cs =>
    if c = 'x' then (takeHex 2 cs).map fun (c, cs) => (.char c, cs)
    else if c = 'u' then (takeHex 4 cs).map fun (c, cs) => (.char c, cs)
    else if c = 'U' then (takeHex 8 cs).map fun (c, cs) => (.char c, cs)
    else if ['d', 's', 'w'].contains c then if m.unicode then none else some (.cls, cs)
    else if ['b', 'B', '<', '>'].contains c then if m.unicode then none else some (.place, cs)
    else if ['A', 'z'].contains c then some (.place, cs)
    else if ['a', 'f', 't', 'n', 'r', 'v'].contains c then some (.char '\n', cs)
    else if c.toNat < 128 && !c.isAlphanum then some (.char c, cs)
    else none

/-! ### Classes in brackets -/

/-- The names of classes that may stand in a class. -/
def classNames : List String :=
  ["alnum", "alpha", "ascii", "blank", "cntrl", "digit", "graph", "lower", "print", "punct",
    "space", "upper", "word", "xdigit"]

/-- The rest after a named class, whose bracket was taken before. -/
def takeNamed (cs : List Char) : Option (List Char) :=
  match cs with
  | ':' :: cs =>
    let cs := match cs with
      | '^' :: cs => cs
      | cs => cs
    match cs.dropWhile (· ≠ ':') with
    | ':' :: ']' :: rest =>
      if classNames.contains (String.ofList (cs.takeWhile (· ≠ ':'))) then some rest else none
    | _ => none
  | _ => none

/-- The rest after the beginning of a class, whose bracket was taken before: what negates it, dashes
and, if there is none, a closing bracket that stands for itself. -/
def takeOpening (m : Mode) (cs : List Char) : Option (List Char) :=
  let (negated, cs) := match cs with
    | '^' :: cs => (true, cs)
    | cs => (false, cs)
  if negated && !m.unicode then none
  else
    match cs with
    | '-' :: cs => some (cs.dropWhile (· = '-'))
    | ']' :: cs => some cs
    | cs => some cs

/-- A member of a class, and the rest. -/
def takeMember (m : Mode) : List Char → Option (Escape × List Char)
  | [] => none
  | '\\' :: cs => takeEscape m cs
  | c :: cs => some (.char c, cs)

/-- The rest after a member or a range of members. A place is no member, and only characters are
ends of a range, the smaller one first. -/
def takeRange (m : Mode) (cs : List Char) : Option (List Char) := do
  let alone : Escape → Bool
    | .char c => m.allows c
    | .cls => true
    | .place => false
  let (first, cs) ← takeMember m cs
  match cs with
  | '-' :: ']' :: _ | '-' :: '-' :: _ => if alone first then return cs else none
  | '-' :: cs =>
    match first, ← takeMember m cs with
    | .char a, (.char b, cs) =>
      if m.allows a && m.allows b && a.toNat ≤ b.toNat then return cs else none
    | _, _ => none
  | cs => if alone first then return cs else none

/-- The rest after a class; `depth` is how many are open inside of it. Fuel counts characters. -/
def takeClass (m : Mode) : Nat → Nat → List Char → Option (List Char)
  | 0, _, _ | _, _, [] => none
  | fuel + 1, depth, ']' :: cs =>
    match depth with
    | 0 => some cs
    | depth + 1 => takeClass m fuel depth cs
  | fuel + 1, depth, '[' :: cs =>
    match takeNamed cs with
    | some rest => takeClass m fuel depth rest
    | none => (takeOpening m cs).bind (takeClass m fuel (depth + 1))
  | fuel + 1, depth, '&' :: '&' :: cs | fuel + 1, depth, '-' :: '-' :: cs
  | fuel + 1, depth, '~' :: '~' :: cs => takeClass m fuel depth cs
  | fuel + 1, depth, cs => (takeRange m cs).bind (takeClass m fuel depth)

/-! ### Groups -/

/-- The flags up to a colon or the closing bracket: the mode that they set, that character, and the
rest. Each flag stands once, and so does the dash after which flags are cleared. -/
def takeFlags (m : Mode) (seen : List Char) : List Char → Option (Mode × Char × List Char)
  | [] => none
  | c :: cs =>
    if c = ':' ∨ c = ')' then
      if seen.head? = some '-' || (c = ')' && seen.isEmpty) then none else some (m, c, cs)
    else if seen.contains c then none
    else if c = '-' then takeFlags m (c :: seen) cs
    else (m.set? c (!seen.contains '-')).bind fun m => takeFlags m (c :: seen) cs

/-- Whether a character may stand in the name of a group, at its beginning or further on. -/
def nameChar (first : Bool) (c : Char) : Bool :=
  c = '_' || (isLetterOrNumber c && !(first && c.isDigit)) ||
    (!first && ['.', '[', ']'].contains c)

/-- The name of a group up to the mark that closes it, and the rest. -/
def takeName (cs : List Char) : Option (List Char × List Char) :=
  let name := cs.takeWhile (· ≠ '>')
  match name, cs.drop name.length with
  | c :: more, _ :: rest =>
    if nameChar true c && more.all (nameChar false) then some (name, rest) else none
  | _, _ => none

/-! ### Patterns -/

/-- How far the reading of a pattern came. -/
structure Reading where
  mode : Mode
  /-- The modes outside of the groups that are open, the innermost first. -/
  outside : List Mode
  /-- Whether something that can be repeated comes right before. -/
  repeatable : Bool
  /-- The names of groups so far. -/
  names : List (List Char)

namespace Reading

/-- Before the first character. -/
def initial : Reading := ⟨.initial, [], false, []⟩

/-- A part that can be repeated. -/
def part (r : Reading) : Reading := { r with repeatable := true }

/-- A group in which characters are meant in a mode. -/
def enter (r : Reading) (m : Mode) : Reading :=
  { r with mode := m, outside := r.mode :: r.outside, repeatable := false }

/-- A group with a name, which no other group has. -/
def enterNamed (r : Reading) (cs : List Char) : Option (Reading × List Char) := do
  let (name, cs) ← takeName cs
  if r.names.contains name then none
  else return ({ r with names := name :: r.names }.enter r.mode, cs)

/-- The beginning of a group, whose bracket was taken before, or flags for the rest of a group. What
looks ahead or behind is not supported. -/
def takeGroup (r : Reading) : List Char → Option (Reading × List Char)
  | '?' :: 'P' :: '<' :: cs => r.enterNamed cs
  | '?' :: '<' :: cs => r.enterNamed cs
  | '?' :: cs =>
    match takeFlags r.mode [] cs with
    | some (m, ':', cs) => some (r.enter m, cs)
    | some (m, _, cs) => some ({ r with mode := m, repeatable := false }, cs)
    | none => none
  | cs => some (r.enter r.mode, cs)

/-- The next part of a pattern, and the rest. -/
def next? (r : Reading) (c : Char) (cs : List Char) : Option (Reading × List Char) :=
  if c = '(' then r.takeGroup cs
  else if c = ')' then
    match r.outside with
    | [] => none
    | m :: outside => some ({ r with mode := m, outside, repeatable := true }, cs)
  else if c = '|' then some ({ r with repeatable := false }, cs)
  else if c = '[' then
    if r.mode.unicode && r.mode.anyCase then none
    else
      ((takeOpening r.mode cs).bind fun cs => takeClass r.mode (cs.length + 1) 0 cs).map
        fun cs => (r.part, cs)
  else if ['*', '+', '?'].contains c then
    if r.repeatable then
      match cs with
      | '?' :: cs => some (r, cs)
      | cs => some (r, cs)
    else none
  else if c = '\x7b' then none
  else if c = '\\' then
    match takeEscape r.mode cs with
    | some (.char c, cs) => if r.mode.allows c then some (r.part, cs) else none
    | some (_, cs) => some (r.part, cs)
    | none => none
  else if c = '.' then if r.mode.unicode then some (r.part, cs) else none
  else if c = '^' ∨ c = '$' then some (r.part, cs)
  else if r.mode.spaced && isBlank c then some (r, cs)
  else if r.mode.spaced && c = '#' then some (r, cs.dropWhile (· ≠ '\n'))
  else if r.mode.allows c then some (r.part, cs)
  else none

/-- Reads the rest of a pattern. Every step takes a character, so that fuel counts characters. -/
def readFrom : Nat → Reading → List Char → Bool
  | _, r, [] => r.outside.isEmpty
  | 0, _, _ => false
  | fuel + 1, r, c :: cs =>
    match r.next? c cs with
    | some (r, cs) => readFrom fuel r cs
    | none => false

end Reading

/-- Whether a text is a pattern. -/
def reads (cs : List Char) : Bool := Reading.initial.readFrom cs.length cs

example : reads "BTC.*|(?P<a>[^a-c]+?)$".toList ∧ !reads "*".toList ∧ !reads "(a".toList ∧
    !reads "[b-a]".toList ∧ !reads "a\x7b2".toList ∧ !reads "\\d".toList := by decide +kernel

end Candlewick.Pattern
