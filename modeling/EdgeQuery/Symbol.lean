/-!
Punctuation and operator symbols: their spellings, and which of them a text begins with.
-/

namespace EdgeQuery

/-- The brackets that enclose a part of a query. -/
inductive Delimiter
  | paren
  | bracket
  | brace
deriving DecidableEq, Repr

/-- The direction in which a graph edge is followed. -/
inductive Direction
  | out
  | into
deriving DecidableEq, Repr

inductive Symbol
  | plus | minus | star | slash | percent
  | equal | notEqual | less | lessEqual | greater | greaterEqual
  | bars | ampersands
  | arrow (direction : Direction)
  | opening (delimiter : Delimiter)
  | closing (delimiter : Delimiter)
  | comma | semicolon | dot | colon | doubleColon
deriving DecidableEq, Repr

namespace Symbol

def text : Symbol → String
  | plus => "+" | minus => "-" | star => "*" | slash => "/" | percent => "%"
  | equal => "=" | notEqual => "!=" | less => "<" | lessEqual => "<=" | greater => ">"
  | greaterEqual => ">="
  | bars => "||" | ampersands => "&&"
  | arrow .out => "->" | arrow .into => "<-"
  | opening .paren => "(" | closing .paren => ")"
  | opening .bracket => "[" | closing .bracket => "]"
  | opening .brace => "\x7b" | closing .brace => "\x7d"
  | comma => "," | semicolon => ";" | dot => "." | colon => ":" | doubleColon => "::"

theorem text_ne_nil (symbol : Symbol) : symbol.text.toList ≠ [] := by
  rcases symbol with _ | _ | _ | _ | _ | _ | _ | _ | _ | _ | _ | _ | _ | d | d | d <;>
    try cases d
  all_goals decide

/-- The longest symbol that begins with the character `c` followed by `rest`. -/
def longest? (c : Char) (rest : List Char) : Option Symbol :=
  match c, rest with
  | ':', ':' :: _ => some doubleColon
  | '-', '>' :: _ => some (arrow .out)
  | '<', '-' :: _ => some (arrow .into)
  | '<', '=' :: _ => some lessEqual
  | '>', '=' :: _ => some greaterEqual
  | '!', '=' :: _ => some notEqual
  | '|', '|' :: _ => some bars
  | '&', '&' :: _ => some ampersands
  | '+', _ => some plus
  | '-', _ => some minus
  | '*', _ => some star
  | '/', _ => some slash
  | '%', _ => some percent
  | '=', _ => some equal
  | '<', _ => some less
  | '>', _ => some greater
  | '(', _ => some (opening .paren)
  | ')', _ => some (closing .paren)
  | '[', _ => some (opening .bracket)
  | ']', _ => some (closing .bracket)
  | '\x7b', _ => some (opening .brace)
  | '\x7d', _ => some (closing .brace)
  | ',', _ => some comma
  | ';', _ => some semicolon
  | '.', _ => some dot
  | ':', _ => some colon
  | _, _ => none

end Symbol
end EdgeQuery
