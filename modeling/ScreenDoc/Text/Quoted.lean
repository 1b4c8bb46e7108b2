import ScreenDoc.Text.Hidden

/-!
# Quoted names

How a name from a document is quoted inside a message.

## Main definitions

- `Text.quote` — the name between quotation marks, with escapes
-/

namespace ScreenDoc

namespace Text

/-- The digits of a code, in hexadecimal. -/
def codeDigits (c : Char) : List Char :=
  Nat.toDigits 16 c.toNat

/-- A character inside quotes: quotation mark, backslash, line feed, carriage return, tab and null
after a backslash, a hidden character by its code, any other as it is. -/
def quoteChar (c : Char) : List Char :=
  if c = '"' then ['\\', '"']
  else if c = '\\' then ['\\', '\\']
  else if c = '\n' then ['\\', 'n']
  else if c = '\r' then ['\\', 'r']
  else if c = '\t' then ['\\', 't']
  else if c.toNat = 0 then ['\\', '0']
  else if isHidden c then ['\\', 'u', '\x7b'] ++ codeDigits c ++ ['\x7d']
  else [c]

/-- A name between quotation marks. -/
def quote (name : String) : String :=
  String.ofList ('"' :: (name.toList.flatMap quoteChar ++ ['"']))

end Text

end ScreenDoc
