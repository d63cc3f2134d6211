import EdgeQuery.Proofs.Calls
import EdgeQuery.Proofs.Parse.Buffer
import EdgeQuery.Proofs.SourceFile.Rounds

/-!
Files read from a place among the tokens of a text. The loops end where the place is that of the
last token. They all come to it, since every round passes a token; a round that passed none would be
`none`, and not the first of endlessly many.
-/

namespace EdgeQuery

open Cursor Parse Walk

namespace Buffer

/-- Takes the comments that begin before the offset. -/
def drain (buffer : Buffer) (offset : Nat) : List SourceItem × Buffer :=
  let early := fun comment : Comment => decide (comment.span.start < offset)
  ((buffer.comments.takeWhile early).map .comment,
    { buffer with comments := buffer.comments.dropWhile early })

/-- Takes the comments before the current token. -/
def drainHere? (buffer : Buffer) : Option (List SourceItem × Buffer) := do
  let token ← buffer.peek? 0
  return buffer.drain token.span.start

/-- Takes the comments before the end of the last token read. -/
def drainBehind? (buffer : Buffer) : Option (List SourceItem × Buffer) := do
  let behind ← buffer.behind?
  return buffer.drain behind

/-- Whether the mark of the end stands here. -/
def atEnd? (buffer : Buffer) : Option Bool := do
  let token ← buffer.peek? 0
  return decide (token.kind = .endOfInput)

/-- Reads a statement with all its levels, and the semicolon behind it. -/
def terminated? (buffer : Buffer) : Option (EStateM.Result SyntaxError Buffer Statement) :=
  (Statement.routeTerminated buffer.limit).run?
    { buffer with levels := buffer.limit, opened := [] }

/-- The number of tokens that are left. -/
def left (buffer : Buffer) : Nat :=
  buffer.tokens.length - buffer.place

/-- Reads what is left of a file, behind the items. -/
def file? (items : List SourceItem) (buffer : Buffer) :
    Option (EStateM.Result SyntaxError Buffer SourceFile) := do
  let (leading, start) ← buffer.drainHere?
  if ← start.atEnd? then return .ok ⟨items ++ leading⟩ start
  else
    match ← start.terminated? with
    | .error error later => return .error error later
    | .ok statement later =>
      let (trailing, last) ← later.drainBehind?
      if _hlast : last.left < buffer.left then
        file? (items ++ (leading ++ .statement statement :: trailing)) last
      else none
termination_by buffer.left

/-- Passes all tokens up to and with the next semicolon. -/
def passSemicolon? (buffer : Buffer) : Option Buffer := do
  if ← buffer.atEnd? then return buffer
  else
    let token ← buffer.peek? 0
    let later ← buffer.advance?
    if token.kind = .symbol .semicolon then return later
    else if _hlater : later.left < buffer.left then passSemicolon? later
    else none
termination_by buffer.left

/-- The place behind the next semicolon. A parse that failed where it began, at `start`, has to pass
a token. -/
def synchronize? (start : Nat) (buffer : Buffer) : Option Buffer := do
  let token ← buffer.peek? 0
  if buffer.place = start && !decide (token.kind = .symbol .semicolon) then
    passSemicolon? (← buffer.advance?)
  else passSemicolon? buffer

/-- Reads what is left of a file, behind the items and the faults, past further faults. -/
def recovered? (items : List SourceItem) (errors : List SyntaxError) (buffer : Buffer) :
    Option ((SourceFile × List SyntaxError) × Buffer) := do
  let (leading, start) ← buffer.drainHere?
  if ← start.atEnd? then return ((⟨items ++ leading⟩, errors), start)
  else
    match ← start.terminated? with
    | .error error later =>
      let last ← later.synchronize? start.place
      if _hlast : last.left < buffer.left then
        recovered? (items ++ leading) (errors ++ [error]) last
      else none
    | .ok statement later =>
      let (trailing, last) ← later.drainBehind?
      if _hlast : last.left < buffer.left then
        recovered? (items ++ (leading ++ .statement statement :: trailing)) errors last
      else none
termination_by buffer.left

/-- Fails unless all tokens have been read. -/
def endOfInput? (buffer : Buffer) : Option (EStateM.Result SyntaxError Buffer Unit) := do
  if ← buffer.atEnd? then return .ok () buffer
  else
    let cursor ← buffer.view?
    return .error (cursor.fault [.endOfInput]) buffer

/-- Reads a statement that is all there is. -/
def single? (buffer : Buffer) : Option (EStateM.Result SyntaxError Buffer Statement) := do
  match ← buffer.terminated? with
  | .error error later => return .error error later
  | .ok statement later =>
    match ← later.endOfInput? with
    | .error error last => return .error error last
    | .ok () last => return .ok statement last

variable {dialect : Dialect} {text : List Char} {tokens : List Token} {buffer later : Buffer}
  {cursor mid : Cursor}

namespace Shows

/-- A place is as far from the end as its cursor. -/
theorem place_add (h : Shows dialect text tokens buffer cursor) :
    buffer.place + cursor.ahead.length + 1 = tokens.length := by
  obtain ⟨-, -, passed, rfl, -, rfl⟩ := h
  simp [of, Nat.add_assoc]

theorem left_eq (h : Shows dialect text tokens buffer cursor) :
    buffer.left = cursor.ahead.length + 1 := by
  have hplace := h.place_add
  obtain ⟨-, -, passed, -, -, rfl⟩ := h
  rw [left, show (of text tokens passed.length cursor).tokens = tokens.map Token.mark from rfl,
    List.length_map]
  omega

/-- Where the cursor has fewer tokens ahead, fewer are left. -/
theorem left_lt (h : Shows dialect text tokens buffer cursor)
    (hlater : Shows dialect text tokens later mid)
    (hlength : mid.ahead.length < cursor.ahead.length) :
    later.left < buffer.left := by
  rw [h.left_eq, hlater.left_eq]
  omega

theorem drain_shows (h : Shows dialect text tokens buffer cursor) (offset : Nat) :
    (buffer.drain offset).1 = cursor.commentsUpTo offset ∧
      Shows dialect text tokens (buffer.drain offset).2 (cursor.droppingUpTo offset) := by
  have hcomments := h.fields_eq.1
  rw [drain, hcomments]
  refine ⟨rfl, h.withComments fun comment hmem => ?_⟩
  exact h.between.passed comment ((List.dropWhile_suffix _).subset hmem)

theorem drainHere?_eq (h : Shows dialect text tokens buffer cursor) :
    ∃ later, buffer.drainHere? = some (cursor.leading, later) ∧
      Shows dialect text tokens later cursor.atStatement := by
  obtain ⟨hcomments, hshows⟩ := h.drain_shows cursor.current.span.start
  refine ⟨_, ?_, hshows⟩
  rw [drainHere?, h.peek?_eq]
  exact congrArg some (Prod.ext hcomments rfl)

theorem drainBehind?_eq (h : Shows dialect text tokens buffer cursor) :
    ∃ later, buffer.drainBehind? = some (cursor.commentsUpTo cursor.behind, later) ∧
      Shows dialect text tokens later (cursor.droppingUpTo cursor.behind) := by
  obtain ⟨hcomments, hshows⟩ := h.drain_shows cursor.behind
  refine ⟨_, ?_, hshows⟩
  rw [drainBehind?, h.behind?_eq]
  exact congrArg some (Prod.ext hcomments rfl)

theorem atEnd?_eq (h : Shows dialect text tokens buffer cursor) :
    buffer.atEnd? = some cursor.atEnd := by
  have hend : decide (cursor.current.kind = .endOfInput) = cursor.atEnd := by
    rw [Cursor.atEnd, Bool.eq_iff_iff, decide_eq_true_iff, List.isEmpty_iff]
    exact h.kind_eq_endOfInput
  rw [atEnd?, h.peek?_eq]
  exact congrArg some hend

theorem terminated?_shown (h : Shows dialect text tokens buffer cursor) :
    Shown dialect text tokens buffer.terminated? (Statement.parseTerminated cursor) := by
  have hstart : Shows dialect text tokens { buffer with levels := cursor.limit, opened := [] }
      (Statement.start cursor) := (h.withLevels cursor.limit).withOpened []
  have hrun := Route.run?_shown (Statement.routeTerminated cursor.limit) hstart
  rw [(Statement.routeTerminated_follows cursor).walk_eq, ← h.fields_eq.2.1] at hrun
  rw [Statement.parseTerminated_run, ← h.fields_eq.2.1]
  exact hrun

theorem endOfInput?_shown (h : Shows dialect text tokens buffer cursor) :
    Shown dialect text tokens buffer.endOfInput? (Parse.endOfInput cursor) := by
  have hrun : Parse.endOfInput cursor =
      if cursor.atEnd then .ok () cursor else .error (cursor.fault [.endOfInput]) cursor := by
    show (if cursor.atEnd = true then (pure () : Parse Unit) else expected [.endOfInput]) cursor = _
    split <;> rfl
  rw [hrun, endOfInput?, h.atEnd?_eq]
  cases cursor.atEnd with
  | true => exact .ok h
  | false =>
    show Shown dialect text tokens (Option.bind buffer.view? _) _
    rw [h.view?_eq]
    exact .error h

theorem single?_shown (h : Shows dialect text tokens buffer cursor) :
    Shown dialect text tokens buffer.single? (Statement.parseSingle cursor) := by
  have hterminated := h.terminated?_shown
  rw [single?, Statement.parseSingle]
  cases hrun : Statement.parseTerminated cursor with
  | error error mid =>
    rw [hrun] at hterminated
    obtain ⟨later, hlater, hshows⟩ := hterminated.exists_error
    rw [bind_of_error hrun, hlater]
    exact .error hshows
  | ok statement mid =>
    rw [hrun] at hterminated
    obtain ⟨later, hlater, hshows⟩ := hterminated.exists_ok
    have hend := hshows.endOfInput?_shown
    rw [bind_of_ok hrun, hlater]
    cases hendrun : Parse.endOfInput mid with
    | error error last =>
      rw [hendrun] at hend
      obtain ⟨place, hplace, hlast⟩ := hend.exists_error
      rw [bind_of_error hendrun]
      show Shown dialect text tokens (Option.bind later.endOfInput? _) _
      rw [hplace]
      exact .error hlast
    | ok value last =>
      rw [hendrun] at hend
      obtain ⟨place, hplace, hlast⟩ := hend.exists_ok
      rw [bind_of_ok hendrun]
      show Shown dialect text tokens (Option.bind later.endOfInput? _) _
      rw [hplace]
      exact .ok hlast

end Shows

section Files

/-- What is left of a file, read in at most so many rounds behind the items. -/
def fileFrom (items : List SourceItem) (rounds : Nat) (cursor : Cursor) :
    EStateM.Result SyntaxError Cursor SourceFile :=
  match repeatUpTo (SourceFile.round? SourceFile.parseGroup) rounds cursor with
  | .ok groups later => .ok ⟨items ++ (groups.flatten ++ later.leading)⟩ later.atStatement
  | .error error later => .error error later

theorem parse_eq_fileFrom (cursor : Cursor) :
    SourceFile.parse cursor = fileFrom [] cursor.ahead.length cursor := by
  rw [fileFrom, SourceFile.parse]
  cases hloop : repeatUpTo (SourceFile.round? SourceFile.parseGroup) cursor.ahead.length cursor with
  | ok groups later =>
    rw [bind_of_ok (SourceFile.rounds_of_ok hloop)]
    rfl
  | error error later => rw [bind_of_error (SourceFile.rounds_of_error hloop)]

variable {items group : List SourceItem} {rounds : Nat}

theorem fileFrom_of_atEnd (h : cursor.atEnd = true) :
    fileFrom items rounds cursor = .ok ⟨items ++ cursor.leading⟩ cursor.atStatement := by
  rw [fileFrom, SourceFile.repeatUpTo_of_atEnd h]
  rfl

theorem fileFrom_of_ok (h : cursor.atEnd = false)
    (hgroup : SourceFile.parseGroup cursor = .ok group mid) :
    fileFrom items (rounds + 1) cursor = fileFrom (items ++ group) rounds mid := by
  rw [fileFrom, fileFrom, SourceFile.repeatUpTo_of_ok h hgroup]
  cases hloop : repeatUpTo (SourceFile.round? SourceFile.parseGroup) rounds mid with
  | ok groups later =>
    rw [bind_of_ok hloop]
    show EStateM.Result.ok _ _ = EStateM.Result.ok _ _
    rw [List.flatten_cons, List.append_assoc, List.append_assoc]
  | error error later => rw [bind_of_error hloop]

theorem fileFrom_of_error {error : SyntaxError} (h : cursor.atEnd = false)
    (hgroup : SourceFile.parseGroup cursor = .error error mid) :
    fileFrom items (rounds + 1) cursor = .error error mid := by
  rw [fileFrom, SourceFile.repeatUpTo_of_error h hgroup]

/-- A statement that is read leaves fewer tokens. -/
theorem parseGroup_progress (h : cursor.Between dialect cursor.limit)
    (hgroup : SourceFile.parseGroup cursor = .ok group mid) :
    mid.ahead.length < cursor.ahead.length := by
  cases hparse : Statement.parseTerminated cursor.atStatement with
  | error error later =>
    rw [SourceFile.parseGroup_of_error hparse] at hgroup
    cases hgroup
  | ok statement later =>
    rw [SourceFile.parseGroup_of_ok hparse] at hgroup
    cases hgroup
    obtain ⟨tokens, hskips, hne, -⟩ :=
      Statement.parseTerminated_skips_of_ok (h.droppingUpTo cursor.current.span.start) hparse
    have hlength : cursor.ahead.length = (tokens ++ later.ahead).length :=
      congrArg List.length hskips.ahead_eq
    have hpos := List.length_pos_iff.mpr hne
    rw [List.length_append] at hlength
    show later.ahead.length < cursor.ahead.length
    omega

theorem file?_of_atEnd (items : List SourceItem) (h : Shows dialect text tokens buffer cursor)
    (hend : cursor.atEnd = true) :
    Shown dialect text tokens (buffer.file? items)
      (.ok ⟨items ++ cursor.leading⟩ cursor.atStatement) := by
  obtain ⟨start, hdrain, hstart⟩ := h.drainHere?_eq
  have hatEnd : start.atEnd? = some true := hstart.atEnd?_eq.trans (congrArg some hend)
  rw [file?, hdrain]
  simp only [Option.bind_eq_bind, Option.bind_some, hatEnd]
  exact .ok hstart

/-- Every round passes a token, so there are enough rounds for all of them. The induction is on the
rounds. -/
theorem file?_shown (items : List SourceItem) (h : Shows dialect text tokens buffer cursor)
    (hrounds : cursor.ahead.length ≤ rounds) :
    Shown dialect text tokens (buffer.file? items) (fileFrom items rounds cursor) := by
  induction rounds generalizing items buffer cursor with
  | zero =>
    have hend : cursor.atEnd = true :=
      List.isEmpty_iff.mpr (List.length_eq_zero_iff.mp (Nat.le_zero.mp hrounds))
    rw [fileFrom_of_atEnd hend]
    exact file?_of_atEnd items h hend
  | succ rounds ih =>
    cases hend : cursor.atEnd with
    | true =>
      rw [fileFrom_of_atEnd hend]
      exact file?_of_atEnd items h hend
    | false =>
      obtain ⟨start, hdrain, hstart⟩ := h.drainHere?_eq
      have hatEnd : start.atEnd? = some false := hstart.atEnd?_eq.trans (congrArg some hend)
      have hterminated := hstart.terminated?_shown
      rw [file?, hdrain]
      simp only [Option.bind_eq_bind, Option.bind_some, hatEnd]
      cases hparse : Statement.parseTerminated cursor.atStatement with
      | error error later =>
        rw [hparse] at hterminated
        obtain ⟨place, hplace, hlater⟩ := hterminated.exists_error
        rw [fileFrom_of_error hend (SourceFile.parseGroup_of_error hparse)]
        simp only [hplace, Option.bind_some]
        exact .error hlater
      | ok statement later =>
        rw [hparse] at hterminated
        obtain ⟨place, hplace, hlater⟩ := hterminated.exists_ok
        obtain ⟨last, hbehind, hlast⟩ := hlater.drainBehind?_eq
        have hgroup := SourceFile.parseGroup_of_ok hparse
        have hprogress := parseGroup_progress h.between hgroup
        rw [fileFrom_of_ok hend hgroup]
        simp only [hplace, hbehind, Option.bind_some, h.left_lt hlast hprogress, dif_pos]
        exact ih _ hlast (by omega)

end Files

section Recovery

/-- What is passed is what stands up to the next semicolon. The induction is on the tokens ahead. -/
theorem passSemicolon?_eq (h : Shows dialect text tokens buffer cursor) :
    ∃ later, buffer.passSemicolon? = some later ∧
      Shows dialect text tokens later (SourceFile.behindSemicolon cursor) := by
  have hend := h.atEnd?_eq
  induction hahead : cursor.ahead generalizing buffer cursor with
  | nil =>
    refine ⟨buffer, ?_, ?_⟩
    · rw [passSemicolon?, hend, Cursor.atEnd, hahead]
      rfl
    · rcases cursor with ⟨ahead⟩
      obtain rfl : ahead = [] := hahead
      exact h
  | cons token rest ih =>
    obtain ⟨place, hadvance, hplace⟩ := h.advance?_eq
    have hpeek : buffer.peek? 0 = some token :=
      (h.peek?_eq 0).trans (congrArg some (peek_of_ahead hahead))
    rw [advanced_of_ahead hahead] at hplace
    have hprogress : place.left < buffer.left :=
      h.left_lt hplace (by rw [hahead]; exact Nat.lt_succ_self rest.length)
    have hrun : buffer.passSemicolon? =
        if token.kind = .symbol .semicolon then some place else place.passSemicolon? := by
      rw [Cursor.atEnd, hahead] at hend
      rw [passSemicolon?, hend, hpeek, hadvance]
      simp [hprogress]
    rw [hrun, SourceFile.behindSemicolon, hahead, pastSemicolon]
    split
    · exact ⟨place, rfl, hplace⟩
    · exact ih hplace hplace.atEnd?_eq rfl

theorem synchronize?_eq {start : Buffer} {front : Cursor}
    (hstart : Shows dialect text tokens start front)
    (h : Shows dialect text tokens buffer cursor) :
    ∃ later, buffer.synchronize? start.place = some later ∧
      Shows dialect text tokens later (cursor.synchronized front.ahead.length) := by
  have hplace : decide (buffer.place = start.place) =
      decide (cursor.ahead.length = front.ahead.length) := by
    have hfront := hstart.place_add
    have hback := h.place_add
    rw [Bool.eq_iff_iff, decide_eq_true_iff, decide_eq_true_iff]
    omega
  have hkind : decide (cursor.current.kind = .symbol .semicolon) = cursor.atSymbol .semicolon := rfl
  have hpeek : buffer.peek? 0 = some cursor.current := h.peek?_eq 0
  obtain ⟨place, hadvance, hnext⟩ := h.advance?_eq
  rw [SourceFile.synchronized_eq, synchronize?, hpeek]
  simp only [Option.bind_eq_bind, Option.bind_some, hplace, hkind, hadvance]
  split
  · exact passSemicolon?_eq hnext
  · exact passSemicolon?_eq h

/-- What is left of a file, read past the faults in at most so many rounds, behind the items and the
faults. -/
def recoveredFrom (items : List SourceItem) (errors : List SyntaxError) (rounds : Nat)
    (cursor : Cursor) : (SourceFile × List SyntaxError) × Cursor :=
  let (groups, later) :=
    (repeatUpTo (SourceFile.round? SourceFile.recoverGroup) rounds).outcome cursor
  ((⟨items ++ (groups.flatMap (·.1) ++ later.leading)⟩, errors ++ groups.flatMap (·.2)),
    later.atStatement)

theorem outcome_eq_recoveredFrom (cursor : Cursor) :
    SourceFile.recover.outcome cursor = recoveredFrom [] [] cursor.ahead.length cursor := by
  have hloop := run_eq_outcome
    (repeatUpTo (SourceFile.round? SourceFile.recoverGroup) cursor.ahead.length) cursor
  refine outcome_of_ok ?_
  rw [SourceFile.recover, bind_of_ok (SourceFile.rounds_of_ok hloop)]
  rfl

variable {items : List SourceItem} {errors : List SyntaxError} {rounds : Nat}
  {group : List SourceItem × List SyntaxError}

theorem recoveredFrom_of_atEnd (h : cursor.atEnd = true) :
    recoveredFrom items errors rounds cursor =
      ((⟨items ++ cursor.leading⟩, errors), cursor.atStatement) := by
  rw [recoveredFrom, outcome_of_ok (SourceFile.repeatUpTo_of_atEnd h)]
  simp

theorem recoveredFrom_of_ok (h : cursor.atEnd = false)
    (hgroup : SourceFile.recoverGroup cursor = .ok group mid) :
    recoveredFrom items errors (rounds + 1) cursor =
      recoveredFrom (items ++ group.1) (errors ++ group.2) rounds mid := by
  have hloop := run_eq_outcome (repeatUpTo (SourceFile.round? SourceFile.recoverGroup) rounds) mid
  have hall : repeatUpTo (SourceFile.round? SourceFile.recoverGroup) (rounds + 1) cursor =
      .ok (group :: ((repeatUpTo (SourceFile.round? SourceFile.recoverGroup) rounds).outcome mid).1)
        ((repeatUpTo (SourceFile.round? SourceFile.recoverGroup) rounds).outcome mid).2 := by
    rw [SourceFile.repeatUpTo_of_ok h hgroup, bind_of_ok hloop]
    rfl
  rw [recoveredFrom, recoveredFrom, outcome_of_ok hall]
  simp

theorem recovered?_of_atEnd (items : List SourceItem) (errors : List SyntaxError)
    (h : Shows dialect text tokens buffer cursor) (hend : cursor.atEnd = true) :
    ∃ later, buffer.recovered? items errors = some ((⟨items ++ cursor.leading⟩, errors), later) ∧
      Shows dialect text tokens later cursor.atStatement := by
  obtain ⟨start, hdrain, hstart⟩ := h.drainHere?_eq
  have hatEnd : start.atEnd? = some true := hstart.atEnd?_eq.trans (congrArg some hend)
  refine ⟨start, ?_, hstart⟩
  rw [recovered?, hdrain]
  simp only [Option.bind_eq_bind, Option.bind_some, hatEnd]
  rfl

/-- A round that finds a fault passes a token as well. The induction is on the rounds. -/
theorem recovered?_eq (items : List SourceItem) (errors : List SyntaxError)
    (h : Shows dialect text tokens buffer cursor) (hrounds : cursor.ahead.length ≤ rounds) :
    ∃ later, buffer.recovered? items errors =
        some ((recoveredFrom items errors rounds cursor).1, later) ∧
      Shows dialect text tokens later (recoveredFrom items errors rounds cursor).2 := by
  induction rounds generalizing items errors buffer cursor with
  | zero =>
    have hend : cursor.atEnd = true :=
      List.isEmpty_iff.mpr (List.length_eq_zero_iff.mp (Nat.le_zero.mp hrounds))
    rw [recoveredFrom_of_atEnd hend]
    exact recovered?_of_atEnd items errors h hend
  | succ rounds ih =>
    cases hend : cursor.atEnd with
    | true =>
      rw [recoveredFrom_of_atEnd hend]
      exact recovered?_of_atEnd items errors h hend
    | false =>
      have hne : cursor.ahead ≠ [] := List.isEmpty_eq_false_iff.mp hend
      obtain ⟨start, hdrain, hstart⟩ := h.drainHere?_eq
      have hatEnd : start.atEnd? = some false := hstart.atEnd?_eq.trans (congrArg some hend)
      have hterminated := hstart.terminated?_shown
      rw [recovered?, hdrain]
      simp only [Option.bind_eq_bind, Option.bind_some, hatEnd]
      cases hparse : Statement.parseTerminated cursor.atStatement with
      | error error later =>
        rw [hparse] at hterminated
        obtain ⟨place, hplace, hlater⟩ := hterminated.exists_error
        obtain ⟨last, hsynchronize, hlast⟩ := synchronize?_eq hstart hlater
        have hgroup := SourceFile.recoverGroup_of_error hparse
        have hprogress := (SourceFile.recoverGroup_progress h.between hne hgroup).2
        rw [recoveredFrom_of_ok hend hgroup]
        simp only [hplace, hsynchronize, Option.bind_some, h.left_lt hlast hprogress, dif_pos]
        exact ih _ _ hlast (by omega)
      | ok statement later =>
        rw [hparse] at hterminated
        obtain ⟨place, hplace, hlater⟩ := hterminated.exists_ok
        obtain ⟨last, hbehind, hlast⟩ := hlater.drainBehind?_eq
        have hgroup := SourceFile.recoverGroup_of_ok hparse
        have hprogress := (SourceFile.recoverGroup_progress h.between hne hgroup).2
        rw [recoveredFrom_of_ok hend hgroup, List.append_nil]
        simp only [hplace, hbehind, Option.bind_some, h.left_lt hlast hprogress, dif_pos]
        exact ih _ _ hlast (by omega)

end Recovery
end Buffer
end EdgeQuery
