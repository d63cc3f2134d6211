import EdgeQuery.Datum

/-!
Data as JSON. A record is an object of its fields; a case is its name, or an object with its name
as the only key; an optional value is itself or null. Only what must be escaped in a string is.
-/

namespace EdgeQuery

namespace Json

/-- The four digits of a code point below 65536. -/
def codeDigits (code : Nat) : List Char :=
  let digits := Nat.toDigits 16 code
  List.replicate (4 - digits.length) '0' ++ digits

/-- How a character is written inside a JSON string. -/
def escape (c : Char) : List Char :=
  if c = '"' ∨ c = '\\' then ['\\', c]
  else if c = '\x08' then ['\\', 'b']
  else if c = '\x0c' then ['\\', 'f']
  else if c = '\n' then ['\\', 'n']
  else if c = '\r' then ['\\', 'r']
  else if c = '\t' then ['\\', 't']
  else if c.toNat < 0x20 then '\\' :: 'u' :: codeDigits c.toNat
  else [c]

def string (content : String) : String :=
  String.ofList ('"' :: content.toList.flatMap escape ++ ['"'])

/-- How much is put on a line. -/
inductive Layout
  /-- Everything on one line, without spaces. -/
  | compact
  /-- One item or field per line, indented by two spaces per level. -/
  | indented

/-- A line break inside brackets, `depth` levels deep. -/
def Layout.lineBreak : Layout → Nat → String
  | .compact, _ => ""
  | .indented, depth => "\n" ++ String.ofList (List.replicate (2 * depth) ' ')

/-- What stands between a key and its value. -/
def Layout.colon : Layout → String
  | .compact => ":"
  | .indented => ": "

/-- Items between brackets that stand `depth` levels deep. -/
def bracketed (layout : Layout) (depth : Nat) (first last : String) (items : List String) :
    String :=
  if items.isEmpty then first ++ last
  else
    let lineBreak := layout.lineBreak (depth + 1)
    first ++ lineBreak ++ ("," ++ lineBreak).intercalate items ++ layout.lineBreak depth ++ last

def field (layout : Layout) (key value : String) : String :=
  string key ++ layout.colon ++ value

end Json

namespace Datum

mutual

/-- The JSON text of a datum that stands `depth` levels deep. -/
def json (layout : Json.Layout) (depth : Nat) : Datum → String
  | .string content => Json.string content
  | .number value => toString value
  | .bool value => if value then "true" else "false"
  | .list items => Json.bracketed layout depth "[" "]" (jsonItems layout (depth + 1) items)
  | .absent => "null"
  | .present value => json layout depth value
  | .record _ fields =>
    Json.bracketed layout depth "\x7b" "\x7d" (jsonFields layout (depth + 1) fields)
  | .unit name => Json.string name
  | .wrapped name value =>
    Json.bracketed layout depth "\x7b" "\x7d"
      [Json.field layout name (json layout (depth + 1) value)]
  | .variant name fields =>
    Json.bracketed layout depth "\x7b" "\x7d"
      [Json.field layout name
        (Json.bracketed layout (depth + 1) "\x7b" "\x7d" (jsonFields layout (depth + 2) fields))]
termination_by structural datum => datum

def jsonItems (layout : Json.Layout) (depth : Nat) : List Datum → List String
  | [] => []
  | datum :: items => json layout depth datum :: jsonItems layout depth items
termination_by structural items => items

def jsonFields (layout : Json.Layout) (depth : Nat) : List (String × Datum) → List String
  | [] => []
  | (key, value) :: fields =>
    Json.field layout key (json layout depth value) :: jsonFields layout depth fields
termination_by structural fields => fields

end

def compactJson (datum : Datum) : String :=
  datum.json .compact 0

def indentedJson (datum : Datum) : String :=
  datum.json .indented 0

end Datum
end EdgeQuery
