import EdgeQuery.Proofs.Position
import EdgeQuery.Proofs.SourceFile.Buffered

/-!
Nothing that is asked for is missing. A scanner that goes by byte offsets, a parser that goes by the
indices of tokens, and a table of the offsets at which lines begin may be called for whatever they
do, in any order and on any text: every offset lies between characters and none beyond the end,
every index is one of the list, no difference is negative, every loop ends, and there is a name in
every identifier. What they hand out is what the scanner, the parser and the lines hand out.
-/

namespace EdgeQuery

open Cursor Parse Text Walk

/-- What a call to a parser hands out. -/
inductive Answer
  | expression (result : Except SyntaxError Expr)
  | statement (result : Except SyntaxError Statement)
  | file (result : Except SyntaxError SourceFile)
  | recovery (result : SourceFile × List SyntaxError)
  | endOfInput (result : Except SyntaxError Unit)

/-- What a run comes to, and where it ends. -/
def reply {ε σ α : Type} (make : Except ε α → Answer) : EStateM.Result ε σ α → Answer × σ
  | .ok value later => (make (.ok value), later)
  | .error error later => (make (.error error), later)

namespace Call

/-- What the call hands out. -/
def answer : Call → Cursor → Answer
  | .read .expression, cursor => (reply .expression (Expr.parse cursor)).1
  | .read .statement, cursor => (reply .statement (Statement.parse cursor)).1
  | .read .single, cursor => (reply .statement (Statement.parseSingle cursor)).1
  | .read .file, cursor => (reply .file (SourceFile.parse cursor)).1
  | .read .recovery, cursor => .recovery (SourceFile.recover.outcome cursor).1
  | .endOfInput, cursor => (reply .endOfInput (Parse.endOfInput cursor)).1

/-- What calls one after the other hand out. -/
def answers : List Call → Cursor → List Answer
  | [], _ => []
  | call :: calls, cursor => call.answer cursor :: answers calls (call.next cursor)

end Call

namespace Buffer

/-- The place in front of all tokens of a text. -/
def ofText? (text : String) (dialect : Dialect) (limit : Nat) : Option Buffer := do
  let (tokens, scanner) ← (OffsetScanner.ofText text dialect).tokens?
  return ⟨text.toList, tokens, 0, scanner.takeComments.1, limit, limit, []⟩

def answer? : Call → Buffer → Option (Answer × Buffer)
  | .read .expression, buffer => do
    return reply .expression (← (Expr.routeRanked buffer.levels 0).run? buffer)
  | .read .statement, buffer => do
    return reply .statement (← (Statement.routeAt buffer.levels).run? buffer)
  | .read .single, buffer => do return reply .statement (← buffer.single?)
  | .read .file, buffer => do return reply .file (← buffer.file? [])
  | .read .recovery, buffer => do
    let (result, later) ← buffer.recovered? [] []
    return (.recovery result, later)
  | .endOfInput, buffer => do return reply .endOfInput (← buffer.endOfInput?)

def answers? : List Call → Buffer → Option (List Answer)
  | [], _ => return []
  | call :: calls, buffer => do
    let (answer, later) ← buffer.answer? call
    return answer :: (← later.answers? calls)

variable {dialect : Dialect} {text : List Char} {tokens : List Token} {buffer : Buffer}
  {cursor : Cursor}

theorem ofText?_eq (text : String) (dialect : Dialect) (limit : Nat) :
    ∃ buffer, ofText? text dialect limit = some buffer ∧
      Shows dialect text.toList (Scanner.ofText text dialect).tokens.1 buffer
        (Cursor.ofText text dialect limit) := by
  obtain ⟨htokens, hreads, -⟩ :=
    OffsetScanner.tokens?_eq (OffsetScanner.ofText_cut text dialect)
  refine ⟨_, ?_, hreads, Cursor.ofText_between text dialect limit, [], ?_, rfl, rfl⟩
  · rw [ofText?, OffsetScanner.ofText_eq, htokens]
    rfl
  · exact tokens_ofText text dialect limit

/-- What a run comes to is handed out. -/
theorem Shown.reply_eq {α : Type} {checked : Option (EStateM.Result SyntaxError Buffer α)}
    {walk : Parse α} (make : Except SyntaxError α → Answer) (trees : α → List Statement)
    (h : Shown dialect text tokens checked (walk cursor)) :
    ∃ later, (checked >>= fun result => pure (reply make result)) =
        some ((reply make (walk cursor)).1, later) ∧
      Shows dialect text tokens later (walk.answer trees cursor).2 := by
  rw [Walk.answer]
  cases hrun : walk cursor with
  | ok value mid =>
    rw [hrun] at h
    obtain ⟨later, rfl, hlater⟩ := h.exists_ok
    exact ⟨later, rfl, hlater⟩
  | error error mid =>
    rw [hrun] at h
    obtain ⟨later, rfl, hlater⟩ := h.exists_error
    exact ⟨later, rfl, hlater⟩

/-- Every call is answered, and leaves a place from which every call is answered. -/
theorem answer?_eq (call : Call) (h : Shows dialect text tokens buffer cursor) :
    ∃ later, buffer.answer? call = some (call.answer cursor, later) ∧
      Shows dialect text tokens later (call.next cursor) := by
  obtain ⟨-, -, hlevels, -⟩ := h.fields_eq
  cases call with
  | endOfInput => exact h.endOfInput?_shown.reply_eq .endOfInput _
  | read request =>
    cases request with
    | expression =>
      have hrun := Route.run?_shown (Expr.routeRanked cursor.levels 0) h
      rw [(Expr.routeRanked_follows cursor).walk_eq, ← hlevels] at hrun
      exact hrun.reply_eq .expression _
    | statement =>
      have hrun := Route.run?_shown (Statement.routeAt cursor.levels) h
      rw [(Statement.routeAt_follows cursor).walk_eq, ← hlevels] at hrun
      exact hrun.reply_eq .statement _
    | single => exact h.single?_shown.reply_eq .statement _
    | file =>
      have hrun := file?_shown [] h (Nat.le_refl cursor.ahead.length)
      rw [← parse_eq_fileFrom] at hrun
      exact hrun.reply_eq .file _
    | recovery =>
      obtain ⟨later, hrun, hlater⟩ := recovered?_eq [] [] h (Nat.le_refl cursor.ahead.length)
      rw [← outcome_eq_recoveredFrom] at hrun hlater
      refine ⟨later, ?_, ?_⟩
      · rw [answer?, hrun]
        rfl
      · have hnext : (Call.read .recovery).next cursor = (SourceFile.recover.outcome cursor).2 := by
          show (Walk.answer SourceFile.recover _ cursor).2 = _
          rw [Walk.answer, run_eq_outcome SourceFile.recover cursor]
        rw [hnext]
        exact hlater

/-- However often and in whatever order a parser is called, it answers. The induction is on the
calls. -/
theorem answers?_eq (calls : List Call) (h : Shows dialect text tokens buffer cursor) :
    buffer.answers? calls = some (Call.answers calls cursor) := by
  induction calls generalizing buffer cursor with
  | nil => rfl
  | cons call calls ih =>
    obtain ⟨later, hanswer, hlater⟩ := answer?_eq call h
    rw [answers?, hanswer]
    exact congrArg (Option.bind · _) (ih hlater)

end Buffer

namespace Input

/-- A fault, located with a table. -/
def diagnostic? (name : String) (table : LineTable) (error : SyntaxError) : Option Diagnostic := do
  let position ← table.position? error.span.start
  return ⟨name, position.line, position.column, error.message⟩

def check? (input : Input) (dialect : Dialect) : Option (List Diagnostic) := do
  let buffer ← Buffer.ofText? input.text dialect nestingLimit
  let ((_, errors), _) ← buffer.recovered? [] []
  errors.mapM (diagnostic? input.name (LineTable.ofText input.text))

/-- A token with its text and place. -/
def tokenDatum? (table : LineTable) (mark : Mark) : Option Datum := do
  let position ← table.position? mark.2.start
  let text ← mark.lexeme? table.text
  return .record "Token"
    [("kind", mark.1.datum), ("text", .string text), ("span", mark.2.datum),
      ("line", .number position.line), ("column", .number position.column)]

/-- The tokens, each on a line of JSON, or why one cannot be written. -/
def tokenLines? (input : Input) (dialect : Dialect) (writer : JsonWriter) :
    Option (Except String (List String)) := do
  let (tokens, _) ← (OffsetScanner.ofText input.text dialect).tokens?
  let data ← tokens.mapM (tokenDatum? (LineTable.ofText input.text))
  return data.mapM writer.compact

theorem mapM_eq_some {α β : Type} {f : α → Option β} {g : α → β} {list : List α}
    (h : ∀ a ∈ list, f a = some (g a)) : list.mapM f = some (list.map g) := by
  induction list with
  | nil => rfl
  | cons a list ih =>
    obtain ⟨hfirst, hlater⟩ := List.forall_mem_cons.mp h
    rw [List.mapM_cons, hfirst, ih hlater]
    rfl

/-- Every fault is located. -/
theorem check?_eq (input : Input) (dialect : Dialect) :
    input.check? dialect = some (input.check dialect) := by
  obtain ⟨buffer, hbuffer, hshows⟩ := Buffer.ofText?_eq input.text dialect nestingLimit
  obtain ⟨later, hrun, -⟩ := Buffer.recovered?_eq [] [] hshows (Nat.le_refl _)
  rw [← Buffer.outcome_eq_recoveredFrom] at hrun
  have hall : (SourceFile.recoverText input.text dialect).2.mapM
      (diagnostic? input.name (LineTable.ofText input.text)) = some (input.check dialect) := by
    refine mapM_eq_some fun error _ => ?_
    rw [diagnostic?, LineTable.position?_eq]
    rfl
  rw [check?, hbuffer]
  simp only [Option.bind_eq_bind, Option.bind_some, hrun]
  exact hall

/-- Every token is located, and its text is found. -/
theorem tokenLines?_eq (input : Input) (dialect : Dialect) (writer : JsonWriter) :
    input.tokenLines? dialect writer = some (input.tokenLines dialect writer) := by
  obtain ⟨htokens, hreads, -⟩ :=
    OffsetScanner.tokens?_eq (OffsetScanner.ofText_cut input.text dialect)
  have hall : (((Scanner.ofText input.text dialect).tokens.1.map Token.mark).mapM
      (tokenDatum? (LineTable.ofText input.text))) = some (input.tokenData dialect) := by
    rw [List.mapM_map]
    refine mapM_eq_some fun token hmem => ?_
    have hlexeme : token.mark.lexeme? (LineTable.ofText input.text).text = some token.text :=
      hreads token hmem
    simp only [Function.comp_apply, tokenDatum?, LineTable.position?_eq, hlexeme,
      Option.bind_eq_bind, Option.bind_some]
    rfl
  rw [tokenLines?, OffsetScanner.ofText_eq, htokens]
  simp only [Option.bind_eq_bind, Option.bind_some, hall]
  rfl

end Input

section Dotted

/-- The identifier that the names make up, of which there has to be one. -/
def Identifier.dotted? : List String → Option Identifier
  | [] => none
  | [name] => some (.raw name)
  | names => some (.dotted names)

/-- The identifier that the segments of a chain make up, unless a record is one of several. The
outer choice is whether there are segments, and names if several segments are raw. -/
def Identifier.ofChain? (segments : List Identifier) : Option (Option Identifier) :=
  if 1 < segments.length && !segments.all isRaw then some none
  else if segments.length = 1 then segments.head?.map some
  else (dotted? (segments.filterMap rawName?)).map some

/-- Reads an identifier, or nothing where a chain has no name. -/
def Identifier.parseNamed : Parse (Option Identifier) := do
  let name ← identifier
  match ← RecordKey.parse? with
  | some key => return some (.record ⟨name, key⟩)
  | none => return dotted? (name :: (← repeated nextName?))

/-- Reads a reference that begins with a name, or nothing where a chain has no segment or no name.
-/
def FieldReference.parseNamedChain : Parse (Option FieldReference) := do
  let first ← Identifier.parseKey (← Parse.identifier)
  let more ← repeated Identifier.nextSegment?
  match Identifier.ofChain? (first :: more) with
  | none => return none
  | some none => return some (.path (first :: more))
  | some (some origin) =>
    match (← get).arrow? with
    | some direction => return some (.edge (some origin) (← EdgePath.parse direction))
    | none => return some (.identifier origin)

theorem Identifier.dotted?_cons (name : String) (names : List String) :
    dotted? (name :: names) = some (ofNames name names) := by
  cases names with
  | nil => rfl
  | cons next names => rfl

/-- Segments that are all raw have names. -/
theorem Identifier.ofChain?_cons (first : Identifier) (more : List Identifier) :
    ofChain? (first :: more) = some (ofSegments? first more) := by
  cases more with
  | nil => rfl
  | cons second more =>
    have hlength : 1 < (first :: second :: more).length := by simp
    rw [ofChain?, ofSegments?, decide_eq_true hlength, Bool.true_and]
    cases hraw : (first :: second :: more).all isRaw with
    | false => rfl
    | true =>
      obtain ⟨name, rfl⟩ : ∃ name, first = .raw name := by
        cases first with
        | raw name => exact ⟨name, rfl⟩
        | _ => cases hraw
      have hdotted : dotted? ((raw name :: second :: more).filterMap rawName?) =
          some (.dotted ((raw name :: second :: more).filterMap rawName?)) := by
        cases second with
        | raw next => rfl
        | _ => cases hraw
      rw [if_neg (by simp), if_neg (by simp), hdotted]
      rfl

/-- In every identifier that is read there is a name. -/
theorem Identifier.parseNamed_eq : parseNamed = parse >>= fun id => pure (some id) := by
  rw [parseNamed, parse, bind_assoc]
  congr 1
  funext name
  rw [bind_assoc]
  congr 1
  funext key
  cases key with
  | some key => rfl
  | none =>
    show (repeated nextName? >>= fun names => pure (dotted? (name :: names))) =
      (repeated nextName? >>= fun names => pure (ofNames name names)) >>= fun id => pure (some id)
    simp only [dotted?_cons, bind_assoc, pure_bind]

theorem FieldReference.parseNamedChain_eq :
    parseNamedChain = parseChain >>= fun field => pure (some field) := by
  rw [parseNamedChain, parseChain]
  simp only [Identifier.ofChain?_cons, bind_assoc]
  congr 1
  funext name
  congr 1
  funext first
  congr 1
  funext more
  cases Identifier.ofSegments? first more with
  | none => rfl
  | some origin =>
    show (get >>= fun cursor => _) = ((get >>= fun cursor => _) >>= _)
    rw [bind_assoc]
    congr 1
    funext cursor
    cases cursor.arrow? with
    | none => rfl
    | some direction =>
      dsimp only
      rw [bind_assoc]
      rfl

end Dotted

/-- No call fails for what it asks for. A scanner may be called in any order, and the text of every
token can be taken; every offset has a position; a parser with any number of levels may be called in
any order; the faults and the tokens of a text can be reported; and every identifier has a name. -/
theorem nothing_missing (text : String) (dialect : Dialect) :
    (∀ requests, (OffsetScanner.ofText text dialect).answers? requests =
      some (((Scanner.ofText text dialect).answers requests).map fun answer =>
        (answer.1.map Token.mark, answer.2))) ∧
    (∀ requests, ∀ answer ∈ (Scanner.ofText text dialect).answers requests, ∀ token ∈ answer.1,
      token.mark.lexeme? text.toList = some token.text) ∧
    (∀ offset, (LineTable.ofText text).position? offset =
      some ((LineIndex.ofText text).position offset)) ∧
    (∀ limit calls, (Buffer.ofText? text dialect limit >>= fun buffer => buffer.answers? calls) =
      some (Call.answers calls (Cursor.ofText text dialect limit))) ∧
    (∀ name, Input.check? ⟨name, text⟩ dialect = some (Input.check ⟨name, text⟩ dialect)) ∧
    (∀ name writer, Input.tokenLines? ⟨name, text⟩ dialect writer =
      some (Input.tokenLines ⟨name, text⟩ dialect writer)) ∧
    (∀ cursor, Identifier.parseNamed cursor =
      (Identifier.parse >>= fun id => pure (some id)) cursor) ∧
    ∀ cursor, FieldReference.parseNamedChain cursor =
      (FieldReference.parseChain >>= fun field => pure (some field)) cursor := by
  have hcut := OffsetScanner.ofText_cut text dialect
  refine ⟨fun requests => (OffsetScanner.answers?_eq requests hcut).1,
    fun requests => (OffsetScanner.answers?_eq requests hcut).2, LineTable.position?_eq text, ?_,
    fun name => Input.check?_eq ⟨name, text⟩ dialect,
    fun name writer => Input.tokenLines?_eq ⟨name, text⟩ dialect writer,
    congrFun Identifier.parseNamed_eq, congrFun FieldReference.parseNamedChain_eq⟩
  intro limit calls
  obtain ⟨buffer, hbuffer, hshows⟩ := Buffer.ofText?_eq text dialect limit
  rw [hbuffer]
  exact Buffer.answers?_eq calls hshows

end EdgeQuery
