import Candlewick.CommandLine.Pattern
import Candlewick.Text.Utf8

/-! # Log filters

A log filter is a list of directives with commas between them. A directive sets the most detailed
level that is shown of what it is about: `target[span{field}]=level`, where every part may be left
out and a field may ask for a value. Of the directives that are about an entry of the log the most
specific one decides (`LogFilter.shows`): the one with the longest target, then the one with the
most fields. -/

namespace Candlewick

/-- How detailed an entry of the log is. -/
inductive LogLevel where
  | off
  | error
  | warn
  | info
  | debug
  | trace
deriving Repr, DecidableEq, Inhabited

namespace LogLevel

/-- The name of a level. -/
def name : LogLevel → String
  | off => "off"
  | error => "error"
  | warn => "warn"
  | info => "info"
  | debug => "debug"
  | trace => "trace"

/-- All levels, each with more detail than the one before. -/
def all : List LogLevel := [off, error, warn, info, debug, trace]

/-- The place of a level in the order. -/
def rank (l : LogLevel) : Nat := all.idxOf l

/-- Whether the level is shown where another one is the most detailed. -/
def upTo (a b : LogLevel) : Bool := a.rank ≤ b.rank

/-- Reads a level: its name in any case, or its rank. -/
def read? (cs : List Char) : Option LogLevel :=
  let digits := match cs with
    | '+' :: ds => ds
    | ds => ds
  match (Decimal.nat? digits).bind (all[·]?) with
  | some l => some l
  | none => all.find? fun l => l.name.toList = cs.map Char.toLower

end LogLevel

/-- A field that an entry has to have, and whether a value of it is asked for. -/
structure FieldFilter where
  name : List Char
  hasValue : Bool
deriving Repr, DecidableEq, Inhabited

/-- The most detailed level to be shown of what a directive is about. -/
structure Directive where
  level : LogLevel
  /-- How the target of an entry begins. -/
  target : Option (List Char)
  /-- The span that an entry is in. -/
  span : Option (List Char)
  fields : List FieldFilter
deriving Repr, DecidableEq, Inhabited

namespace Directive

/-- Whether a character may begin a directive: a letter or number of any script, or one of a few
signs. -/
def canBegin (c : Char) : Bool := isLetterOrNumber c || c = '-' || c = ':' || c = '_'

/-- Whether a text says which value a field has to have: a truth value, a number, or a pattern. -/
def readsValue (cs : List Char) : Bool :=
  (Decimal.toFloat? (String.ofList cs)).isSome || Pattern.reads cs

/-- Why a directive is not read. -/
inductive Fault where
  | malformed
  /-- A part of it would begin or end inside of a character. -/
  | insideCharacter
deriving Repr, DecidableEq

/-- Reads a field filter: a name, then an equals sign and a value if one is asked for. What comes
after a second equals sign is not looked at. -/
def readField (cs : List Char) : Except Fault FieldFilter :=
  let name := cs.takeWhile (· ≠ '=')
  match cs.drop name.length with
  | [] => if cs.isEmpty then .error .malformed else .ok ⟨name, false⟩
  | _ :: rest =>
    if readsValue (rest.takeWhile (· ≠ '=')) then .ok ⟨name, true⟩ else .error .malformed

/-- Reads a level at the end of a directive. No text means all levels. -/
def readLevel (cs : List Char) : Except Fault LogLevel :=
  if cs.isEmpty then .ok .trace
  else
    match LogLevel.read? cs with
    | some level => .ok level
    | none => .error .malformed

/-- Which part of a directive the reader is in, and at which place of the text it began. -/
inductive Position where
  | start
  | target (since : Nat)
  | span (since : Nat)
  | field (since : Nat)
  /-- After the fields. -/
  | fields
  /-- After the bracket. -/
  | closed
  | level (since : Nat)

/-- A directive that shows everything. -/
def everything : Directive := ⟨.trace, none, none, []⟩

/-- A part of the text, if there is one where it was looked for. -/
def part : Option (List Char) → Except Fault (List Char)
  | some cs => .ok cs
  | none => .error .insideCharacter

/-- The part of a text between two places. -/
def cut (text : List Char) (since till : Nat) : Except Fault (List Char) :=
  part (bytesBetween? since till text)

/-- The character at a place: it may end the part that the reader is in. -/
def step (text : List Char) (place : Nat) (d : Directive) (c : Char) :
    Position → Except Fault (Directive × Position)
  | .start =>
    if c = '[' then .ok (d, .span (place + 1))
    else if canBegin c then .ok (d, .target place)
    else .error .malformed
  | .target since =>
    if c = '=' then do return ({ d with target := ← cut text since place }, .level (place + 1))
    else if c = '[' then do return ({ d with target := ← cut text since place }, .span (place + 1))
    else .ok (d, .target since)
  | .span since =>
    if c = ']' then do return ({ d with span := ← cut text since place }, .closed)
    else if c = '\x7b' then do
      let span ← cut text since place
      return ({ d with span := if span.isEmpty then none else some span }, .field (place + 1))
    else .ok (d, .span since)
  | .field since =>
    if c = '\x7d' then do
      let f ← readField (← cut text since place)
      return ({ d with fields := d.fields ++ [f] }, .fields)
    else .ok (d, .field since)
  | .fields => if c = ']' then .ok (d, .closed) else .error .malformed
  | .closed => if c = '=' then .ok (d, .level (place + 1)) else .error .malformed
  | .level since => .ok (d, .level since)

/-- The end of a directive. A single word is a level if it reads as one, and else a target. -/
def finish (text : List Char) (d : Directive) : Position → Except Fault Directive
  | .target since => do
    let word ← part (bytesFrom? since text)
    match LogLevel.read? word with
    | some level => return { d with level }
    | none => return { d with target := some word }
  | .level since => do
    return { d with level := ← readLevel (← part (bytesFrom? since text)) }
  | .closed => .ok d
  | .start | .span _ | .field _ | .fields => .error .malformed

/-- Looks at the characters from a place on. -/
def readFrom (text : List Char) (place : Nat) (d : Directive) (p : Position) :
    List Char → Except Fault Directive
  | [] => finish text d p
  | c :: cs => do
    let (d, p) ← step text place d c p
    readFrom text (place + c.utf8Size) d p cs

/-- Reads a directive. Blanks at its ends are passed over in the search for the marks between its
parts, but belong to the parts: these are cut at the places of the marks out of the whole text, so
that a blank at the front shifts them. Places are counted in bytes. -/
def read (text : List Char) : Except Fault Directive :=
  readFrom text 0 everything .start (trimBlank text)

/-- Whether a directive is about entries themselves: one with a span or a value is only about what
happens inside of spans. -/
def aboutEntries (d : Directive) : Bool := d.span.isNone && d.fields.all (!·.hasValue)

/-- Whether a directive is about an entry with a target and fields. -/
def covers (d : Directive) (target : String) (fields : List String) : Bool :=
  d.aboutEntries && d.target.all (·.isPrefixOf target.toList) &&
    d.fields.all fun f => fields.contains (String.ofList f.name)

/-- The names of the fields. -/
def fieldNames (d : Directive) : List String := d.fields.map fun f => String.ofList f.name

/-- Whether a directive decides before another one that covers the same entry. -/
def moreSpecific (a b : Directive) : Bool :=
  let size (d : Directive) : Nat := d.target.elim 0 (·.length + 1)
  match compare (size a) (size b) with
  | .gt => true
  | .lt => false
  | .eq =>
    match compare a.fields.length b.fields.length with
    | .gt => true
    | .lt => false
    | .eq => compare a.fieldNames b.fieldNames = .gt

end Directive

/-- A log filter. -/
structure LogFilter where
  directives : List Directive
deriving Repr, DecidableEq, Inhabited

namespace LogFilter

/-- A filter that shows one level everywhere. -/
def ofLevel (level : LogLevel) : LogFilter := ⟨[{ Directive.everything with level }]⟩

/-- Reads a filter. One without directives shows errors. -/
def read (s : String) : Except Directive.Fault LogFilter := do
  let texts := (s.splitOn ",").filter fun t => !t.isEmpty
  if texts.isEmpty then return ofLevel .error
  return ⟨← texts.mapM fun t => Directive.read t.toList⟩

/-- Reads a filter. A text that is none counts as the filter for information, but there is no filter
where a directive would be cut inside of a character. -/
def ofText? (s : String) : Option LogFilter :=
  match read s with
  | .ok f => some f
  | .error .malformed => some (ofLevel .info)
  | .error .insideCharacter => none

/-- The directive that decides on an entry. Of two that are equally specific it is the later one. -/
def deciding? (f : LogFilter) (target : String) (fields : List String) : Option Directive :=
  (f.directives.filter (·.covers target fields)).foldl (fun best d =>
    match best with
    | none => some d
    | some b => if b.moreSpecific d then some b else some d) none

/-- Whether an entry with a level, a target and fields is shown. -/
def shows (f : LogFilter) (level : LogLevel) (target : String) (fields : List String) : Bool :=
  (f.deciding? target fields).any fun d => level.upTo d.level

example : (Directive.read "a[b]=info".toList).toOption =
    some ⟨.info, some ['a'], some ['b'], []⟩ := by decide +kernel
example : (Directive.read " a=info".toList).toOption = none ∧
    (Directive.cut " é=info".toList 0 2).toOption = none := by decide +kernel

end LogFilter

end Candlewick
