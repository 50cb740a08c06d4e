/-! # Bytes of texts

Texts as bytes in UTF-8: the text that bytes stand for, if they stand for one, and the parts of a
text at a place that is counted in bytes, if it is not inside of a character. -/

namespace Candlewick

/-- The text that bytes stand for. -/
def utf8? (bytes : List UInt8) : Option String := String.fromUTF8? ⟨bytes.toArray⟩

/-- What stands before a place and what stands after it. -/
def splitAtByte? : Nat → List Char → Option (List Char × List Char)
  | 0, cs => some ([], cs)
  | _ + 1, [] => none
  | place + 1, c :: cs =>
    if c.utf8Size ≤ place + 1 then
      (splitAtByte? (place + 1 - c.utf8Size) cs).map fun (before, after) => (c :: before, after)
    else none

/-- The part of a text between two places. -/
def bytesBetween? (since till : Nat) (cs : List Char) : Option (List Char) := do
  let (before, _) ← splitAtByte? till cs
  let (_, part) ← splitAtByte? since before
  return part

/-- The part of a text from a place on. -/
def bytesFrom? (since : Nat) (cs : List Char) : Option (List Char) :=
  (splitAtByte? since cs).map (·.2)

example : bytesBetween? 2 3 ['é', 'a', 'b'] = some ['a'] ∧ bytesFrom? 1 ['é', 'a', 'b'] = none := by
  decide

end Candlewick
