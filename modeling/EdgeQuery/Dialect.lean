import EdgeQuery.Keyword

/-!
The two dialects of the language. They differ in one thing only: whether a keyword may be written
in small letters.
-/

namespace EdgeQuery

inductive Dialect
  /-- Keywords are written in capitals; any other spelling is a name. -/
  | strict
  /-- Keywords are recognised in any ASCII case. -/
  | relaxed
deriving DecidableEq, Repr

namespace Dialect

def ofIgnoreCase (ignoreCase : Bool) : Dialect :=
  if ignoreCase then relaxed else strict

def name : Dialect → String
  | strict => "strict"
  | relaxed => "relaxed"

def ignoresCase : Dialect → Bool
  | strict => false
  | relaxed => true

/-- The keyword that the dialect reads in a word. -/
def keyword? : Dialect → String → Option Keyword
  | strict => Keyword.ofText?
  | relaxed => Keyword.ofTextAnyCase?

theorem keyword?_text (dialect : Dialect) (keyword : Keyword) :
    dialect.keyword? keyword.text = some keyword := by
  cases dialect
  · exact Keyword.ofText?_text keyword
  · exact Keyword.ofTextAnyCase?_text keyword

end Dialect
end EdgeQuery
