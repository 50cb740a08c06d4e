import Candlewick.Text.Hidden

/-! # Texts in quotes

A text between double quotes with the characters that would not show escaped, as diagnostic texts
name the pairs of a configuration. -/

namespace Candlewick

/-- The code point of a character in base sixteen, in braces. -/
def escapeCode (c : Char) : List Char :=
  "\\u\x7b".toList ++ Nat.toDigits 16 c.toNat ++ ['\x7d']

/-- A character inside quotes. -/
def quoteChar (c : Char) : List Char :=
  if c = '"' then ['\\', '"']
  else if c = '\\' then ['\\', '\\']
  else if c = '\n' then ['\\', 'n']
  else if c = '\r' then ['\\', 'r']
  else if c = '\t' then ['\\', 't']
  else if c = '\x00' then ['\\', '0']
  else if isHidden c then escapeCode c
  else [c]

/-- The text between quotes. -/
def quoted (s : String) : String :=
  String.ofList (('"' :: s.toList.flatMap quoteChar) ++ ['"'])

example : quoted "a\"b\n" = "\"a\\\"b\\n\"" := by decide +kernel

end Candlewick
