import StepScript.Json.Writer
import StepScript.Text.Unprinted

/-!
# Listing — text shown inside an error

An error that lists a value writes its strings between quotes.  Quotes and backslashes are escaped,
the common control characters have a letter, and any other character that is not printed is written
by its number.
-/

namespace StepScript

namespace Listing

def byNumber (c : Char) : List Char :=
  ['\\', 'u', '\x7b'] ++ (Nat.toDigits 16 c.toNat) ++ ['\x7d']

def escapeChar (c : Char) : List Char :=
  if c = '"' then ['\\', '"']
  else if c = '\\' then ['\\', '\\']
  else if c = '\n' then ['\\', 'n']
  else if c = '\r' then ['\\', 'r']
  else if c = '\t' then ['\\', 't']
  else if c = '\x00' then ['\\', '0']
  else if Unprinted.isUnprinted c then byNumber c
  else [c]

def quote (s : String) : String :=
  String.ofList ('"' :: (s.toList.flatMap escapeChar ++ ['"']))

end Listing

end StepScript
