/-!
The reserved words of the query language. Each is named as it is spelled, in capitals.
-/

namespace EdgeQuery

inductive Keyword
  | SELECT | CREATE | UPDATE
  | VALUE | AS | FROM | ONLY | WITH | NOINDEX | INDEX
  | WHERE | SPLIT | OMIT | GROUP | BY | ALL | ORDER | RAND | COLLATE | NUMERIC | ASC | DESC
  | LIMIT | START | AT | FETCH | TIMEOUT | PARALLEL | TEMPFILES | EXPLAIN | FULL
  | CONTENT | MERGE | PATCH | SET | UNSET | RETURN | BEFORE | AFTER | DIFF
  | AND | OR | CONTAINS | INSIDE
deriving DecidableEq, Repr

namespace Keyword

def all : List Keyword :=
  [SELECT, CREATE, UPDATE, VALUE, AS, FROM, ONLY, WITH, NOINDEX, INDEX, WHERE, SPLIT, OMIT, GROUP,
    BY, ALL, ORDER, RAND, COLLATE, NUMERIC, ASC, DESC, LIMIT, START, AT, FETCH, TIMEOUT, PARALLEL,
    TEMPFILES, EXPLAIN, FULL, CONTENT, MERGE, PATCH, SET, UNSET, RETURN, BEFORE, AFTER, DIFF, AND,
    OR, CONTAINS, INSIDE]

/-- The spelling of the word. -/
def text : Keyword → String
  | SELECT => "SELECT" | CREATE => "CREATE" | UPDATE => "UPDATE"
  | VALUE => "VALUE" | AS => "AS" | FROM => "FROM" | ONLY => "ONLY" | WITH => "WITH"
  | NOINDEX => "NOINDEX" | INDEX => "INDEX"
  | WHERE => "WHERE" | SPLIT => "SPLIT" | OMIT => "OMIT" | GROUP => "GROUP" | BY => "BY"
  | ALL => "ALL" | ORDER => "ORDER" | RAND => "RAND" | COLLATE => "COLLATE"
  | NUMERIC => "NUMERIC" | ASC => "ASC" | DESC => "DESC" | LIMIT => "LIMIT" | START => "START"
  | AT => "AT" | FETCH => "FETCH" | TIMEOUT => "TIMEOUT" | PARALLEL => "PARALLEL"
  | TEMPFILES => "TEMPFILES" | EXPLAIN => "EXPLAIN" | FULL => "FULL"
  | CONTENT => "CONTENT" | MERGE => "MERGE" | PATCH => "PATCH" | SET => "SET" | UNSET => "UNSET"
  | RETURN => "RETURN" | BEFORE => "BEFORE" | AFTER => "AFTER" | DIFF => "DIFF"
  | AND => "AND" | OR => "OR" | CONTAINS => "CONTAINS" | INSIDE => "INSIDE"

/-- The keyword spelled exactly as the text. -/
def ofText? (text : String) : Option Keyword :=
  all.find? fun keyword => keyword.text = text

/-- The keyword whose spelling differs from the text in the case of ASCII letters at most. -/
def ofTextAnyCase? (text : String) : Option Keyword :=
  all.find? fun keyword => keyword.text.toList = text.toList.map Char.toUpper

theorem ofText?_text (keyword : Keyword) : ofText? keyword.text = some keyword := by
  cases keyword <;> decide

theorem ofTextAnyCase?_text (keyword : Keyword) :
    ofTextAnyCase? keyword.text = some keyword := by
  cases keyword <;> decide

end Keyword
end EdgeQuery
