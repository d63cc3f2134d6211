import EdgeQuery.Datum
import EdgeQuery.Text.Quoted

/-!
Data as an outline: every field, item and value on a line of its own, indented by four spaces per
level and followed by a comma, with the names of records and cases in front of their brackets.
-/

namespace EdgeQuery

namespace Outline

def indentation (depth : Nat) : String :=
  String.ofList (List.replicate (4 * depth) ' ')

/-- Lines between brackets that stand `depth` levels deep. -/
def bracketed (depth : Nat) (first last : String) (items : List String) : String :=
  if items.isEmpty then first ++ last
  else
    let line := fun item => indentation (depth + 1) ++ item ++ ",\n"
    first ++ "\n" ++ String.join (items.map line) ++ indentation depth ++ last

end Outline

namespace Datum

mutual

/-- The outline of a datum that stands `depth` levels deep. -/
def outlineAt (depth : Nat) : Datum → String
  | .string content => Text.quoted content
  | .number value => toString value
  | .bool value => if value then "true" else "false"
  | .list items => Outline.bracketed depth "[" "]" (outlineItems (depth + 1) items)
  | .absent => "None"
  | .present value => Outline.bracketed depth "Some(" ")" [outlineAt (depth + 1) value]
  | .record name fields =>
    Outline.bracketed depth (name ++ " \x7b") "\x7d" (outlineFields (depth + 1) fields)
  | .unit name => name
  | .wrapped name value =>
    Outline.bracketed depth (name ++ "(") ")" [outlineAt (depth + 1) value]
  | .variant name fields =>
    Outline.bracketed depth (name ++ " \x7b") "\x7d" (outlineFields (depth + 1) fields)
termination_by structural datum => datum

def outlineItems (depth : Nat) : List Datum → List String
  | [] => []
  | datum :: items => outlineAt depth datum :: outlineItems depth items
termination_by structural items => items

def outlineFields (depth : Nat) : List (String × Datum) → List String
  | [] => []
  | (key, value) :: fields =>
    (key ++ ": " ++ outlineAt depth value) :: outlineFields depth fields
termination_by structural fields => fields

end

def outline (datum : Datum) : String :=
  datum.outlineAt 0

end Datum
end EdgeQuery
