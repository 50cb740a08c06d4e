import Candlewick.Text.Quoted

/-! # Texts for terminals

A text that is shown on a terminal must not steer it. The controls that could are written by their
code points; line feeds, tabs and the other characters stay as they are. -/

namespace Candlewick

/-- A character of a text for a terminal: escape, bell, backspace, form feed and delete are written
with two digits in base sixteen, the controls beyond ASCII with their digits in braces. -/
def terminalChar (c : Char) : List Char :=
  let n := c.toNat
  if n = 0x07 ∨ n = 0x08 ∨ n = 0x0c ∨ n = 0x1b ∨ n = 0x7f then
    ['\\', 'x'] ++ Nat.toDigits 16 (n / 16) ++ Nat.toDigits 16 (n % 16)
  else if 0x80 ≤ n ∧ n ≤ 0x9f then escapeCode c
  else [c]

/-- A text for a terminal. -/
def terminalText (s : String) : String := String.ofList (s.toList.flatMap terminalChar)

example : terminalText "a\x1b[1m\tb" = "a\\x1b[1m\tb" := by decide +kernel

end Candlewick
