import EdgeQuery.Diagnostic
import EdgeQuery.Proofs.Query

/-!
Reading up to the first fault and reading past the faults. As long as no statement is faulty both
take the same steps; at the first fault one of them stops with it, while the other one notes it down
and goes on behind the next semicolon.
-/

namespace EdgeQuery

open Cursor Parse Walk

namespace Walk

section Rules

variable {α : Type} {cursor later : Cursor}

/-- A walk that cannot fail comes to its outcome. -/
theorem run_eq_outcome (walk : Walk Empty α) (cursor : Cursor) :
    walk cursor = .ok (walk.outcome cursor).1 (walk.outcome cursor).2 := by
  rw [outcome]
  cases walk cursor with
  | ok value later => rfl
  | error error later => exact error.elim

theorem outcome_of_ok {walk : Walk Empty α} {value : α} (h : walk cursor = .ok value later) :
    walk.outcome cursor = (value, later) := by
  rw [outcome, h]

end Rules
end Walk

namespace Cursor

/-- The comments that begin before the offset. -/
def commentsUpTo (cursor : Cursor) (offset : Nat) : List SourceItem :=
  (cursor.comments.takeWhile fun comment => decide (comment.span.start < offset)).map .comment

theorem statements_commentsUpTo (cursor : Cursor) (offset : Nat) :
    (cursor.commentsUpTo offset).filterMap SourceItem.statement? = [] := by
  rw [commentsUpTo, List.filterMap_map]
  exact List.filterMap_eq_nil_iff.mpr fun _ _ => rfl

/-- The cursor when the comments that begin before the offset have been taken. -/
def droppingUpTo (cursor : Cursor) (offset : Nat) : Cursor :=
  { cursor with
    comments := cursor.comments.dropWhile fun comment => decide (comment.span.start < offset) }

/-- The comments in front of the next statement. -/
def leading (cursor : Cursor) : List SourceItem :=
  cursor.commentsUpTo cursor.current.span.start

/-- The cursor in front of the next statement. -/
def atStatement (cursor : Cursor) : Cursor :=
  cursor.droppingUpTo cursor.current.span.start

end Cursor

namespace SourceFile

section Groups

variable {cursor later : Cursor} {statement : Statement} {error : SyntaxError}

theorem parseGroup_of_ok (h : Statement.parseTerminated cursor.atStatement = .ok statement later) :
    parseGroup cursor =
      .ok (cursor.leading ++ .statement statement :: later.commentsUpTo later.behind)
        (later.droppingUpTo later.behind) := by
  show (Statement.parseTerminated >>= _) cursor.atStatement = _
  rw [bind_of_ok h]
  rfl

theorem parseGroup_of_error
    (h : Statement.parseTerminated cursor.atStatement = .error error later) :
    parseGroup cursor = .error error later := by
  show (Statement.parseTerminated >>= _) cursor.atStatement = _
  rw [bind_of_error h]

theorem recoverGroup_of_ok
    (h : Statement.parseTerminated cursor.atStatement = .ok statement later) :
    recoverGroup cursor =
      .ok (cursor.leading ++ .statement statement :: later.commentsUpTo later.behind, [])
        (later.droppingUpTo later.behind) := by
  have hattempt :
      attempt Statement.parseTerminated cursor.atStatement = .ok (.ok statement) later := by
    rw [attempt, h]
  show (attempt Statement.parseTerminated >>= _) cursor.atStatement = _
  rw [bind_of_ok hattempt]
  rfl

theorem recoverGroup_of_error
    (h : Statement.parseTerminated cursor.atStatement = .error error later) :
    recoverGroup cursor =
      .ok (cursor.leading, [error]) (later.synchronized cursor.ahead.length) := by
  have hattempt :
      attempt Statement.parseTerminated cursor.atStatement = .ok (.error error) later := by
    rw [attempt, h]
  show (attempt Statement.parseTerminated >>= _) cursor.atStatement = _
  rw [bind_of_ok hattempt]
  rfl

/-- Where reading up to the first fault goes on, reading past the faults does so too. -/
theorem recoverGroup_of_parseGroup_ok {items : List SourceItem}
    (h : parseGroup cursor = .ok items later) : recoverGroup cursor = .ok (items, []) later := by
  cases hstatement : Statement.parseTerminated cursor.atStatement with
  | ok statement mid =>
    rw [parseGroup_of_ok hstatement] at h
    cases h
    exact recoverGroup_of_ok hstatement
  | error error mid =>
    rw [parseGroup_of_error hstatement] at h
    cases h

/-- Where reading up to the first fault stops, reading past the faults keeps the fault. -/
theorem recoverGroup_of_parseGroup_error (h : parseGroup cursor = .error error later) :
    ∃ mid, recoverGroup cursor = .ok (cursor.leading, [error]) mid := by
  cases hstatement : Statement.parseTerminated cursor.atStatement with
  | ok statement mid =>
    rw [parseGroup_of_ok hstatement] at h
    cases h
  | error error mid =>
    rw [parseGroup_of_error hstatement] at h
    cases h
    exact ⟨_, recoverGroup_of_error hstatement⟩

end Groups

section Rounds

variable {ε α : Type} {round : Walk ε α} {cursor mid : Cursor}

/-- Behind the rounds the comments that are left are taken. -/
theorem rounds_of_ok {values : List α}
    (h : repeatUpTo (round? round) cursor.ahead.length cursor = .ok values mid) :
    rounds round cursor = .ok (values, mid.leading) mid.atStatement := by
  rw [rounds_eq]
  have hloop : repeated (round? round) cursor = .ok values mid := h
  rw [bind_of_ok hloop]
  rfl

theorem rounds_of_error {error : ε}
    (h : repeatUpTo (round? round) cursor.ahead.length cursor = .error error mid) :
    rounds round cursor = .error error mid := by
  rw [rounds_eq]
  have hloop : repeated (round? round) cursor = .error error mid := h
  rw [bind_of_error hloop]

end Rounds

section Agreement

variable {cursor later : Cursor} {n : Nat}

/-- A run over statements without a fault is the same for both readers. The induction is on the
number of rounds. -/
theorem repeatUpTo_recoverGroup_ok {groups : List (List SourceItem)}
    (h : repeatUpTo (round? parseGroup) n cursor = .ok groups later) :
    repeatUpTo (round? recoverGroup) n cursor = .ok (groups.map (·, [])) later := by
  induction n generalizing cursor groups with
  | zero =>
    cases h
    rfl
  | succ n ih =>
    cases hend : cursor.atEnd with
    | true =>
      rw [repeatUpTo_of_atEnd hend] at h ⊢
      cases h
      rfl
    | false =>
      cases hgroup : parseGroup cursor with
      | error error mid =>
        rw [repeatUpTo_of_error hend hgroup] at h
        cases h
      | ok items mid =>
        rw [repeatUpTo_of_ok hend hgroup] at h
        obtain ⟨more, mid', hmore, hpure⟩ := bind_ok h
        cases hpure
        rw [repeatUpTo_of_ok hend (recoverGroup_of_parseGroup_ok hgroup), bind_of_ok (ih hmore)]
        rfl

/-- The fault that ends a run of one reader is the first one of the other. -/
theorem repeatUpTo_recoverGroup_error {error : SyntaxError}
    (h : repeatUpTo (round? parseGroup) n cursor = .error error later) :
    ∃ groups mid, repeatUpTo (round? recoverGroup) n cursor = .ok groups mid ∧
      (groups.flatMap (·.2)).head? = some error := by
  induction n generalizing cursor with
  | zero => cases h
  | succ n ih =>
    cases hend : cursor.atEnd with
    | true =>
      rw [repeatUpTo_of_atEnd hend] at h
      cases h
    | false =>
      cases hgroup : parseGroup cursor with
      | error error mid =>
        rw [repeatUpTo_of_error hend hgroup] at h
        cases h
        obtain ⟨behind, hrecover⟩ := recoverGroup_of_parseGroup_error hgroup
        rw [repeatUpTo_of_ok hend hrecover]
        exact ⟨_, _, bind_of_ok (run_eq_outcome _ _), rfl⟩
      | ok items mid =>
        have hmore : repeatUpTo (round? parseGroup) n mid = .error error later := by
          rw [repeatUpTo_of_ok hend hgroup] at h
          cases hrun : repeatUpTo (round? parseGroup) n mid with
          | ok more mid' =>
            rw [bind_of_ok hrun] at h
            cases h
          | error other mid' =>
            rw [bind_of_error hrun] at h
            exact h
        obtain ⟨more, behind, hrecover, hfirst⟩ := ih hmore
        refine ⟨(items, []) :: more, behind, ?_, hfirst⟩
        rw [repeatUpTo_of_ok hend (recoverGroup_of_parseGroup_ok hgroup), bind_of_ok hrecover]
        rfl

theorem recover_of_parse_ok {file : SourceFile} (h : parse cursor = .ok file later) :
    recover cursor = .ok (file, []) later := by
  cases hloop : repeatUpTo (round? parseGroup) cursor.ahead.length cursor with
  | ok groups mid =>
    rw [parse, bind_of_ok (rounds_of_ok hloop)] at h
    cases h
    rw [recover, bind_of_ok (rounds_of_ok (repeatUpTo_recoverGroup_ok hloop))]
    simp [List.flatMap_map, List.flatMap_id', pure, EStateM.pure]
  | error error mid =>
    rw [parse, bind_of_error (rounds_of_error hloop)] at h
    cases h

theorem recover_of_parse_error {error : SyntaxError} (h : parse cursor = .error error later) :
    ∃ result mid, recover cursor = .ok result mid ∧ result.2.head? = some error := by
  cases hloop : repeatUpTo (round? parseGroup) cursor.ahead.length cursor with
  | ok groups mid =>
    rw [parse, bind_of_ok (rounds_of_ok hloop)] at h
    cases h
  | error other mid =>
    rw [parse, bind_of_error (rounds_of_error hloop)] at h
    cases h
    obtain ⟨groups, behind, hrecover, hfirst⟩ := repeatUpTo_recoverGroup_error hloop
    have hrun : recover cursor =
        .ok (⟨groups.flatMap (·.1) ++ behind.leading⟩, groups.flatMap (·.2))
          behind.atStatement := by
      rw [recover, bind_of_ok (rounds_of_ok hrecover)]
      rfl
    exact ⟨_, _, hrun, hfirst⟩

/-- What reading up to the first fault makes of what reading past the faults has found. -/
def upToFault {α ε : Type} (value : α) : List ε → Except ε α
  | [] => .ok value
  | error :: _ => .error error

/-- Reading up to the first fault finds what reading past the faults does, as long as there is no
fault, and the first one otherwise. -/
theorem ofText_eq_upToFault (text : String) (dialect : Dialect) :
    ofText text dialect =
      upToFault (recoverText text dialect).1 (recoverText text dialect).2 := by
  rw [ofText, Parse.run, recoverText]
  cases hrun : parse (Cursor.ofText text dialect nestingLimit) with
  | ok file later =>
    rw [outcome_of_ok (recover_of_parse_ok hrun)]
    rfl
  | error error later =>
    obtain ⟨⟨file, errors⟩, mid, hrecover, hfirst⟩ := recover_of_parse_error hrun
    rw [outcome_of_ok hrecover]
    cases errors with
    | nil => cases hfirst
    | cons other errors =>
      cases hfirst
      rfl

end Agreement

section Drivers

variable {α ε : Type} {value other : α} {errors : List ε} {error : ε}

theorem upToFault_eq_ok : upToFault value errors = .ok other ↔ value = other ∧ errors = [] := by
  cases errors <;> simp [upToFault]

theorem upToFault_eq_error : upToFault value errors = .error error ↔ errors.head? = some error := by
  cases errors <;> simp [upToFault]

theorem exists_upToFault_eq_ok : (∃ other, upToFault value errors = .ok other) ↔ errors = [] := by
  simp [upToFault_eq_ok]

end Drivers
end SourceFile

theorem Input.parse_eq_upToFault (input : Input) (dialect : Dialect) :
    input.parse dialect =
      SourceFile.upToFault (SourceFile.recoverText input.text dialect).1 (input.check dialect) := by
  rw [Input.parse, SourceFile.ofText_eq_upToFault, Input.check]
  cases (SourceFile.recoverText input.text dialect).2 <;> rfl

/-- Both readers agree. There are no faults for one of them exactly if the other one yields a file,
and then both yield the same; otherwise the fault of one is the first of the other. The same holds
of the files and faults that are reported. -/
theorem SourceFile.readers_agree (input : Input) (dialect : Dialect) :
    ((recoverText input.text dialect).2 = [] ↔ ∃ file, ofText input.text dialect = .ok file) ∧
      (∀ file, ofText input.text dialect = .ok file ↔
        recoverText input.text dialect = (file, [])) ∧
      (∀ error, ofText input.text dialect = .error error ↔
        (recoverText input.text dialect).2.head? = some error) ∧
      (input.check dialect = [] ↔ ∃ file, input.parse dialect = .ok file) ∧
      (∀ file, input.parse dialect = .ok file ↔
        recoverText input.text dialect = (file, [])) ∧
      ∀ diagnostic, input.parse dialect = .error diagnostic ↔
        (input.check dialect).head? = some diagnostic := by
  have hcheck : input.check dialect = [] ↔ (recoverText input.text dialect).2 = [] :=
    List.map_eq_nil_iff
  rw [ofText_eq_upToFault, input.parse_eq_upToFault dialect]
  refine ⟨exists_upToFault_eq_ok.symm, ?_, fun error => upToFault_eq_error,
    exists_upToFault_eq_ok.symm, ?_, fun diagnostic => upToFault_eq_error⟩
  · intro file
    rw [upToFault_eq_ok, Prod.ext_iff]
  · intro file
    rw [upToFault_eq_ok, hcheck, Prod.ext_iff]

end EdgeQuery
