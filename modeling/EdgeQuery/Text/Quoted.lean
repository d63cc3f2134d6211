import EdgeQuery.Text.Invisible

/-!
Quoted texts and characters as messages show them: between quotes, on one line, and with every
character that cannot be seen written by its code point.
-/

namespace EdgeQuery.Text

/-- How a character is written between two `quote`s. -/
def escape (quote c : Char) : List Char :=
  if c = '\x00' then ['\\', '0']
  else if c = '\t' then ['\\', 't']
  else if c = '\r' then ['\\', 'r']
  else if c = '\n' then ['\\', 'n']
  else if c = '\\' ∨ c = quote then ['\\', c]
  else if isInvisible c then
    ['\\', 'u', '\x7b'] ++ Nat.toDigits 16 c.toNat ++ ['\x7d']
  else [c]

def quote (mark : Char) (content : List Char) : String :=
  String.ofList (mark :: content.flatMap (escape mark) ++ [mark])

/-- A text between double quotes. -/
def quoted (content : String) : String :=
  quote '"' content.toList

/-- A character between single quotes. -/
def quotedChar (c : Char) : String :=
  quote '\'' [c]

end EdgeQuery.Text
