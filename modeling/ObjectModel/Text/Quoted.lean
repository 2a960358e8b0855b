import ObjectModel.Text.Shown

/-!
# Quoted texts and records

The written form of a text stands between double quotes, with escapes for the
quote, the backslash and everything that is not shown as itself. Records,
lists and maps are written from the written forms of their parts.
-/
namespace ObjectModel.Text

/-- A code point in hexadecimal, between braces. -/
def escapeCode (c : Char) : List Char :=
  '\\' :: 'u' :: '\x7b' :: Nat.toDigits 16 c.toNat ++ ['\x7d']

/-- The written form of one character inside quotes. -/
def escape (c : Char) : List Char :=
  if c = '\x00' then ['\\', '0']
  else if c = '\t' then ['\\', 't']
  else if c = '\r' then ['\\', 'r']
  else if c = '\n' then ['\\', 'n']
  else if c = '\\' then ['\\', '\\']
  else if c = '"' then ['\\', '"']
  else if isShown c then [c]
  else escapeCode c

def quote (s : String) : String :=
  String.ofList ('"' :: s.toList.flatMap escape ++ ['"'])

def ofBool (b : Bool) : String := if b then "true" else "false"

/-- A record: its name, then each field with its value, between braces. -/
def record (name : String) (fields : List (String × String)) : String :=
  name ++ " \x7b " ++ String.intercalate ", " (fields.map fun f => f.1 ++ ": " ++ f.2) ++ " \x7d"

/-- A name applied to one value, between parentheses. -/
def applied (name value : String) : String := name ++ "(" ++ value ++ ")"

def list (items : List String) : String := "[" ++ String.intercalate ", " items ++ "]"

/-- A map between braces, without inner blanks. -/
def map (entries : List (String × String)) : String :=
  "\x7b" ++ String.intercalate ", " (entries.map fun e => e.1 ++ ": " ++ e.2) ++ "\x7d"

end ObjectModel.Text
