import EdgeQuery.Proofs.Fault
import EdgeQuery.Proofs.Safety
import EdgeQuery.Proofs.Text.Line

/-!
Messages on one line. A fault names the token that it has found, and of all tokens it is those that
the scanner makes whose names stay on a line: names hold letters and digits, and what a string holds
is quoted. Whatever a parser is called for, it finds no other tokens.
-/

namespace EdgeQuery

open Cursor Parse Text Walk

section Wording

variable {dialect : Dialect}

/-- A character of a name ends no line. -/
theorem Lexeme.onOneLine_of_isNameChar {c : Char} (h : isNameChar c) : OnOneLine [c] := by
  have hfeed : isNameChar '\n' = false := by decide
  have hreturn : isNameChar '\r' = false := by decide
  simp only [OnOneLine, List.mem_singleton]
  refine ⟨?_, ?_⟩ <;> rintro rfl
  · rw [hfeed] at h
    cases h
  · rw [hreturn] at h
    cases h

theorem onOneLine_of_isName {name : String} (h : isName name) : OnOneLine name.toList := by
  obtain ⟨c, tail, htext, -, hall⟩ := Lexeme.exists_cons_of_isName h
  rw [htext, onOneLine_iff]
  exact fun d hmem => Lexeme.onOneLine_of_isNameChar (hall d hmem)

@[simp]
theorem Keyword.onOneLine_text (k : Keyword) : OnOneLine k.text.toList := by
  cases k <;> decide

@[simp]
theorem Symbol.onOneLine_text (s : Symbol) : OnOneLine s.text.toList := by
  rcases s with _ | _ | _ | _ | _ | _ | _ | _ | _ | _ | _ | _ | _ | d | d | d <;>
    first | decide | cases d <;> decide

@[simp]
theorem DurationUnit.onOneLine_text (unit : DurationUnit) : OnOneLine unit.text.toList := by
  cases unit <;> decide

/-- A spelling between backquotes. -/
theorem onOneLine_backquoted {text : String} (h : OnOneLine text.toList) :
    OnOneLine ("`" ++ text ++ "`").toList :=
  .concat (.concat (by decide) h) (by decide)

/-- The name of a token that the dialect reads. -/
theorem TokenKind.onOneLine_describe {kind : TokenKind} {text : String}
    (h : kind.Genuine dialect text) : OnOneLine kind.describe.toList := by
  cases kind with
  | number value => exact .concat (.concat (by decide) (onOneLine_toString _)) (by decide)
  | duration value =>
    have hvalue : OnOneLine value.text.toList :=
      .concat (onOneLine_toString _) value.unit.onOneLine_text
    exact .concat (.concat (by decide) hvalue) (by decide)
  | string content => exact .concat (by decide) (onOneLine_quoted content)
  | identifier name => exact .concat (.concat (by decide) (onOneLine_of_isName h.1)) (by decide)
  | «variable» name => exact .concat (.concat (by decide) (onOneLine_of_isName h)) (by decide)
  | keyword k => exact onOneLine_backquoted k.onOneLine_text
  | symbol s => exact onOneLine_backquoted s.onOneLine_text
  | endOfInput => exact h.elim
  | error error =>
    cases error with
    | invalidCharacter c => exact .concat (by decide) (onOneLine_quotedChar c)
    | _ => decide

theorem Expectation.onOneLine_quoted (expectation : Expectation) :
    OnOneLine expectation.quoted.toList := by
  cases expectation with
  | keyword k => exact onOneLine_backquoted k.onOneLine_text
  | symbol s => exact onOneLine_backquoted s.onOneLine_text
  | _ => decide

theorem Expectation.onOneLine_choice (choices : List Expectation) :
    OnOneLine (choice choices).toList := by
  fun_induction choice choices with
  | case1 => decide
  | case2 only => exact only.onOneLine_quoted
  | case3 first last =>
    exact .concat (.concat first.onOneLine_quoted (by decide)) last.onOneLine_quoted
  | case4 first more _ _ ih => exact .concat (.concat first.onOneLine_quoted (by decide)) ih

theorem Construct.onOneLine_text (construct : Construct) : OnOneLine construct.text.toList := by
  cases construct with
  | delimited delimiter => cases delimiter <;> decide
  | _ => decide

/-- The token that the fault has found, if it names one, is one that the dialect reads or the end of
the text. -/
def SyntaxError.Genuine (dialect : Dialect) : SyntaxError → Prop
  | .unexpected _ found _ => found = .endOfInput ∨ ∃ text, found.Genuine dialect text
  | _ => True

/-- The message of a fault. -/
theorem SyntaxError.onOneLine_message {error : SyntaxError} (h : error.Genuine dialect) :
    OnOneLine error.message.toList := by
  cases error with
  | invalidCharacter c span => exact .concat (by decide) (onOneLine_quotedChar c)
  | numberOutOfRange span => exact show OnOneLine "number out of range".toList by decide
  | unexpected expected found span =>
    have hfound : OnOneLine found.describe.toList := by
      rcases h with rfl | ⟨text, h⟩
      · decide
      · exact TokenKind.onOneLine_describe h
    have hchoice := Expectation.onOneLine_choice expected
    exact .concat (.concat (.concat (by decide) hchoice) (by decide)) hfound
  | unterminated construct start => exact .concat (by decide) construct.onOneLine_text
  | tooDeep span => exact show OnOneLine "expression nested too deeply".toList by decide

end Wording

section Readers

variable {dialect : Dialect} {limit : Nat} {cursor later : Cursor} {error : SyntaxError}

/-- What is wrong at a cursor among tokens of a text. -/
theorem SyntaxError.genuine_fault (h : cursor.Between dialect limit)
    (choices : List Expectation) : (cursor.fault choices).Genuine dialect := by
  unfold Cursor.fault
  dsimp only
  split
  · next cause _ => cases cause <;> trivial
  · trivial
  · cases hahead : cursor.ahead with
    | nil => exact .inl (kind_of_ahead_nil hahead)
    | cons token rest =>
      have hgenuine := h.genuine token (hahead ▸ List.mem_cons_self)
      have hcurrent : cursor.current = token := peek_of_ahead hahead
      exact .inr ⟨token.text, hcurrent ▸ hgenuine⟩

theorem Cursor.Strays.genuine (h : cursor.Between dialect limit)
    (hstray : cursor.Strays error later) : error.Genuine dialect := by
  obtain ⟨tokens, hskips⟩ := Skips.of_strays hstray
  rcases hstray.2.2 with ⟨choices, rfl⟩ | rfl
  · exact SyntaxError.genuine_fault (h.leaves hskips.toLeaves) choices
  · trivial

/-- The faults that the parser ends with, wherever it begins among tokens of a text, name no other
tokens than those of a text. -/
def Parse.Names {α : Type} (dialect : Dialect) (limit : Nat) (parser : Parse α) : Prop :=
  ∀ cursor later error, cursor.Between dialect limit → parser cursor = .error error later →
    error.Genuine dialect

theorem Parse.Names.of_reads {α : Type} {parser : Parse α}
    {post : Cursor → α → List Token → Cursor → Prop}
    (h : ∀ cursor, cursor.Between dialect limit → parser.Reads cursor (post cursor)) :
    parser.Names dialect limit :=
  fun cursor _ _ hbetween hrun => ((h cursor hbetween).of_error hrun).genuine hbetween

theorem Parse.Names.bind {α β : Type} {parser : Parse α} {next : α → Parse β} {post : α → Prop}
    (h : parser.Names dialect limit) (hkeeps : parser.Keeps dialect limit post)
    (hnext : ∀ value, (next value).Names dialect limit) :
    (parser >>= next).Names dialect limit := by
  intro cursor later error hbetween hrun
  cases hfirst : parser cursor with
  | error other mid =>
    rw [bind_of_error hfirst] at hrun
    cases hrun
    exact h cursor later error hbetween hfirst
  | ok value mid =>
    have hmid := hkeeps cursor hbetween
    rw [hfirst] at hmid
    rw [bind_of_ok hfirst] at hrun
    exact hnext value mid later error hmid.1 hrun

theorem Parse.Names.pure {α : Type} (value : α) :
    (Pure.pure value : Parse α).Names dialect limit :=
  fun _ _ _ _ hrun => nomatch hrun

theorem Parse.endOfInput_names : endOfInput.Names dialect limit := by
  intro cursor later error hbetween hrun
  have hrun : (if cursor.atEnd then (Pure.pure () : Parse Unit)
    else expected [.endOfInput]) cursor = .error error later := hrun
  split at hrun
  · cases hrun
  · cases hrun
    exact SyntaxError.genuine_fault hbetween _

theorem Statement.parseTerminated_names : parseTerminated.Names dialect limit := by
  intro cursor later error hbetween hrun
  rw [parseTerminated_run] at hrun
  have hstart : (start cursor).Between dialect limit :=
    ⟨hbetween.genuine, hbetween.passed, hbetween.limit_eq⟩
  exact ((parseTerminated_reads hbetween).of_error hrun).genuine hstart

theorem Statement.parseSingle_names : parseSingle.Names dialect limit :=
  parseTerminated_names.bind parseTerminated_keeps fun s =>
    endOfInput_names.bind endOfInput_keeps fun _ => .pure s

theorem Expr.parseSingle_names : parseSingle.Names dialect limit :=
  (Names.of_reads Expr.parse_reads).bind parse_keeps fun e =>
    endOfInput_names.bind endOfInput_keeps fun _ => .pure e

theorem SourceFile.parse_names : parse.Names dialect limit := by
  intro cursor later error hbetween hrun
  obtain ⟨start, hbegins, hfails⟩ := exists_begins_of_error hrun
  exact Statement.parseTerminated_names start later error (hbegins.clears hbetween).1 hfails

/-- A fault that is passed over is that of a statement. -/
theorem SourceFile.recoverGroup_keeps :
    recoverGroup.Keeps dialect limit fun group => ∀ error ∈ group.2, error.Genuine dialect := by
  intro cursor hbetween
  have hstart := hbetween.droppingUpTo cursor.current.span.start
  cases hrun : Statement.parseTerminated cursor.atStatement with
  | ok statement mid =>
    rw [recoverGroup_of_ok hrun]
    obtain ⟨tokens, hskips, -⟩ := Statement.parseTerminated_skips_of_ok hstart hrun
    exact ⟨(hstart.leaves hskips.toLeaves).droppingUpTo _, List.forall_mem_nil _⟩
  | error error mid =>
    rw [recoverGroup_of_error hrun]
    obtain ⟨tokens, hskips⟩ := Statement.parseTerminated_skips_of_error hstart hrun
    obtain ⟨passed, hpast⟩ := synchronized_skips mid cursor.ahead.length
    refine ⟨(hstart.leaves hskips.toLeaves).leaves hpast.toLeaves, ?_⟩
    exact List.forall_mem_singleton.mpr
      (Statement.parseTerminated_names _ mid error hstart hrun)

theorem SourceFile.recover_names (h : cursor.Between dialect limit) :
    ∀ error ∈ (recover.outcome cursor).1.2, error.Genuine dialect := by
  have hrecover : recover.Keeps dialect limit fun result =>
      ∀ error ∈ result.2, error.Genuine dialect := by
    refine recoverGroup_keeps.rounds.bind fun result hresult => .pure fun error hmem => ?_
    obtain ⟨found, hfound, herror⟩ := List.mem_flatMap.mp hmem
    exact hresult.1 found hfound error herror
  have hrun := hrecover cursor h
  rw [run_eq_outcome recover] at hrun
  exact hrun.2

/-- The faults that a call hands out. -/
def Answer.faults : Answer → List SyntaxError
  | .expression (.error error) | .statement (.error error) | .file (.error error)
  | .endOfInput (.error error) => [error]
  | .recovery (_, errors) => errors
  | _ => []

/-- The faults of a call. -/
theorem Call.answer_names (call : Call) (h : cursor.Between dialect limit) :
    ∀ error ∈ (call.answer cursor).faults, error.Genuine dialect := by
  have hreply {α : Type} {parser : Parse α} {make : Except SyntaxError α → Answer}
      (hnames : parser.Names dialect limit) (hok : ∀ value, (make (.ok value)).faults = [])
      (herror : ∀ error, (make (.error error)).faults = [error]) :
      ∀ error ∈ (reply make (parser cursor)).1.faults, error.Genuine dialect := by
    cases hrun : parser cursor with
    | ok value later =>
      rw [reply, hok]
      exact List.forall_mem_nil _
    | error error later =>
      rw [reply, herror]
      exact List.forall_mem_singleton.mpr (hnames cursor later error h hrun)
  cases call with
  | endOfInput => exact hreply endOfInput_names (fun _ => rfl) fun _ => rfl
  | read request =>
    cases request with
    | expression => exact hreply (.of_reads Expr.parse_reads) (fun _ => rfl) fun _ => rfl
    | statement => exact hreply (.of_reads Statement.parse_reads) (fun _ => rfl) fun _ => rfl
    | single => exact hreply Statement.parseSingle_names (fun _ => rfl) fun _ => rfl
    | file => exact hreply SourceFile.parse_names (fun _ => rfl) fun _ => rfl
    | recovery => exact SourceFile.recover_names h

theorem Call.next_between (call : Call) (h : cursor.Between dialect limit) :
    (call.next cursor).Between dialect limit := by
  cases call with
  | endOfInput => rwa [endOfInput_next]
  | read request => exact (request.answer_wellFormed h).1

/-- The faults of calls one after the other. The induction is on the calls. -/
theorem Call.answers_names (calls : List Call) (h : cursor.Between dialect limit) :
    ∀ answer ∈ answers calls cursor, ∀ error ∈ answer.faults, error.Genuine dialect := by
  induction calls generalizing cursor with
  | nil => exact List.forall_mem_nil _
  | cons call calls ih =>
    exact List.forall_mem_cons.mpr ⟨call.answer_names h, ih (call.next_between h)⟩

/-- The fault that ends the run of a parser on a text. -/
theorem Parse.Names.of_run {α : Type} {parser : Parse α} {text : String}
    (h : parser.Names dialect limit) (hrun : parser.run text dialect limit = .error error) :
    error.Genuine dialect := by
  obtain ⟨later, hrun⟩ := run_eq_error.mp hrun
  exact h _ later error (ofText_between text dialect limit) hrun

end Readers

end EdgeQuery
