import BuilderApi.Text.Unprinted

/-!
# Quoting for messages

A message shows a string in quotes in which every character that does not print by itself is spelled
out: tab, line feed, carriage return and NUL by their short escapes, the others by their code point.
-/

namespace BuilderApi

/-- A character as a message shows it inside quotes. -/
def shownChar (c : Char) : List Char :=
  if c = '\x00' then ['\\', '0']
  else if c = '\t' then ['\\', 't']
  else if c = '\r' then ['\\', 'r']
  else if c = '\n' then ['\\', 'n']
  else if c = '"' then ['\\', '"']
  else if c = '\\' then ['\\', '\\']
  else if isUnprinted c then '\\' :: 'u' :: '\x7b' :: Nat.toDigits 16 c.toNat ++ ['\x7d']
  else [c]

/-- A string as a message shows it. -/
def shown (s : String) : String :=
  String.ofList ('"' :: s.toList.flatMap shownChar ++ ['"'])

end BuilderApi
