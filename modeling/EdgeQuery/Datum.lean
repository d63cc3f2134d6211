/-!
Labelled data: the neutral form in which syntax trees and tokens are handed to other programs. A
datum keeps the names of records, fields and cases, so that it can be written as JSON or as an
indented outline.
-/

namespace EdgeQuery

inductive Datum
  | string (content : String)
  | number (value : Nat)
  | bool (value : Bool)
  | list (items : List Datum)
  /-- An optional value that is not there. -/
  | absent
  /-- An optional value that is there. -/
  | present (value : Datum)
  | record (name : String) (fields : List (String × Datum))
  /-- A case without contents. -/
  | unit (name : String)
  /-- A case that holds one value. -/
  | wrapped (name : String) (value : Datum)
  /-- A case with fields of its own. -/
  | variant (name : String) (fields : List (String × Datum))

namespace Datum

def optional (value : Option Datum) : Datum :=
  match value with
  | some datum => .present datum
  | none => .absent

def strings (contents : List String) : Datum :=
  .list (contents.map .string)

end Datum
end EdgeQuery
