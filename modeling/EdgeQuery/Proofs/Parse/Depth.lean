import EdgeQuery.Proofs.Parse.Congruence

/-!
Parsers that run out of nesting levels. A parser that has fewer levels than another one comes to the
same, or it stops for want of levels at a place that the other one reaches as well. And where a
level is entered only behind a token, a parser with many levels has passed many tokens until it has
none.
-/

namespace EdgeQuery

open Cursor

namespace Cursor

theorem ahead_ne_nil {cursor : Cursor} (h : cursor.kind 0 ≠ .endOfInput) : cursor.ahead ≠ [] := by
  intro hahead
  refine h ?_
  rw [kind, peek, hahead]
  rfl

theorem fault_ne_tooDeep (cursor : Cursor) (choices : List Expectation) (span : Span) :
    cursor.fault choices ≠ .tooDeep span := by
  unfold fault
  dsimp only
  split
  · next error _ => cases error <;> nofun
  · nofun
  · nofun

theorem advanced_suffix (cursor : Cursor) : cursor.advanced.ahead <:+ cursor.ahead := by
  rw [advanced]
  split
  · exact List.suffix_refl _
  · next hahead =>
    rw [hahead]
    exact List.suffix_cons _ _

theorem advanced_size (cursor : Cursor) : cursor.advanced.size = cursor.size := by
  rw [advanced]
  split <;> rfl

theorem advanced_length_lt {cursor : Cursor} (h : cursor.ahead ≠ []) :
    cursor.advanced.ahead.length < cursor.ahead.length := by
  obtain ⟨token, rest, hahead⟩ := List.exists_cons_of_ne_nil h
  rw [advanced_of_ahead hahead, hahead]
  exact Nat.lt_succ_self _

end Cursor

/-- The cursor that a parse has come to. -/
def Parse.place {α : Type} : EStateM.Result SyntaxError Cursor α → Cursor
  | .ok _ later | .error _ later => later

namespace Route

section Suffixes

variable {α : Type}

theorem apply_suffix (move : Move) (cursor : Cursor) :
    (move.apply cursor).ahead <:+ cursor.ahead := by
  cases move with
  | level levels => exact List.suffix_refl _
  | _ => exact cursor.advanced_suffix

/-- A route leads forward only. -/
theorem place_suffix (route : Route α) (cursor : Cursor) :
    (Parse.place (route.walk cursor)).ahead <:+ cursor.ahead := by
  induction route generalizing cursor with
  | look more ih => exact ih cursor cursor
  | step move more ih => exact (ih (move.apply cursor)).trans (apply_suffix move cursor)
  | _ => exact List.suffix_refl _

theorem place_size (route : Route α) (cursor : Cursor) :
    (Parse.place (route.walk cursor)).size = cursor.size := by
  induction route generalizing cursor with
  | look more ih => exact ih cursor cursor
  | step move more ih =>
    have happly : (move.apply cursor).size = cursor.size := by
      cases move with
      | level levels => rfl
      | _ => exact advanced_size cursor
    exact (ih (move.apply cursor)).trans happly
  | _ => rfl

theorem place_mem_visits (route : Route α) (cursor : Cursor) :
    Parse.place (route.walk cursor) ∈ route.visits cursor := by
  cases hrun : route.walk cursor with
  | ok value later => exact last_mem_visits (.inl ⟨value, hrun⟩)
  | error error later => exact last_mem_visits (.inr ⟨error, hrun⟩)

end Suffixes

/-- Both parses have come to the same, but the first one may have run out of nesting levels. Then
the second one has come to the same place or past it. -/
inductive Shortened {α : Type} : EStateM.Result SyntaxError Cursor α →
    EStateM.Result SyntaxError Cursor α → Prop
  | ok {value : α} {left right : Cursor} : left.SameAhead right →
      Shortened (.ok value left) (.ok value right)
  | fault {choices : List Expectation} {left right : Cursor} : left.SameAhead right →
      Shortened (.error (left.fault choices) left) (.error (right.fault choices) right)
  | tooDeep {left : Cursor} {result : EStateM.Result SyntaxError Cursor α} :
      (Parse.place result).ahead <:+ left.ahead →
      Shortened (.error (.tooDeep left.current.span) left) result

section Shortened

variable {α β : Type} {route route' : Route α} {next next' : α → Route β} {cursor cursor' : Cursor}

theorem Shortened.bind (h : Shortened (route.walk cursor) (route'.walk cursor'))
    (hnext : ∀ value mid mid', mid.SameAhead mid' →
      Shortened ((next value).walk mid) ((next' value).walk mid')) :
    Shortened ((route >>= next).walk cursor) ((route' >>= next').walk cursor') := by
  rw [walk_bind, walk_bind]
  cases hrun : route.walk cursor with
  | ok value mid =>
    rw [hrun] at h
    cases hrun' : route'.walk cursor' with
    | ok value' mid' =>
      rw [hrun'] at h
      cases h with
      | ok hsame =>
        rw [Parse.bind_of_ok hrun, Parse.bind_of_ok hrun']
        exact hnext value mid mid' hsame
    | error error mid' =>
      rw [hrun'] at h
      cases h
  | error error mid =>
    rw [hrun] at h
    rw [Parse.bind_of_error hrun]
    cases hrun' : route'.walk cursor' with
    | ok value' mid' =>
      rw [hrun'] at h
      cases h with
      | tooDeep hsuffix =>
        rw [Parse.bind_of_ok hrun']
        exact .tooDeep ((place_suffix (next' value') mid').trans hsuffix)
    | error error' mid' =>
      rw [hrun'] at h
      rw [Parse.bind_of_error hrun']
      cases h with
      | fault hsame => exact .fault hsame
      | tooDeep hsuffix => exact .tooDeep hsuffix

/-- The first route is the second with fewer nesting levels. -/
def shortened : Congruence where
  Rel route route' := ∀ cursor cursor' : Cursor, cursor.SameAhead cursor' →
    Shortened (route.walk cursor) (route'.walk cursor')
  done _ _ _ h := .ok h
  fault _ _ _ h := .fault h
  look hnext cursor cursor' h := hnext cursor cursor' h cursor cursor' h
  bind h hnext cursor cursor' hsame :=
    (h cursor cursor' hsame).bind fun value mid mid' hmid => hnext value mid mid' hmid
  advance _ _ h := .ok (h.apply .advance)
  enter delimiter _ _ h := .ok (h.apply (.enter delimiter))
  leave _ _ h := .ok (h.apply .leave)

theorem shortened_tooDeep (route : Route α) : shortened.Rel .tooDeep route := by
  intro cursor cursor' h
  refine .tooDeep ?_
  rw [h.ahead_eq]
  exact place_suffix route cursor'

theorem shortened_nested {levels levels' : Nat} (h : shortened.Rel route route') :
    shortened.Rel (nested levels route) (nested levels' route') := by
  have htake (levels levels' : Nat) :
      shortened.Rel (take (.level levels)) (take (.level levels')) :=
    fun _ _ h => .ok ⟨h.ahead_eq, h.size_eq⟩
  exact shortened.bind (htake levels levels') fun _ =>
    shortened.bind h fun value => Congruence.wrap (htake _ _) fun _ => value

end Shortened

section Compared

/-- What is open beforehand stays open outside of what is opened later. -/
theorem unclosed?_outer {opened left : List (Delimiter × Span)} {tokens : List Token}
    (h : unclosed? opened tokens = some left) (outer : List (Delimiter × Span)) :
    unclosed? (opened ++ outer) tokens = some (left ++ outer) := by
  induction tokens generalizing opened with
  | nil =>
    cases h
    rfl
  | cons token tokens ih =>
    rw [unclosed?] at h ⊢
    split at h
    · next hkind => exact ih h
    · next hkind =>
      split at h
      · next innermost span inner =>
        split at h
        · next hmatches =>
          rw [List.cons_append]
          dsimp only
          rw [if_pos hmatches]
          exact ih h
        · cases h
      · cases h
    · exact ih h

theorem tallies_outer {start start' later later' : Cursor} {outer : List (Delimiter × Span)}
    (h : start.Tallies later) (h' : start'.Tallies later') (hsame : start.SameAhead start')
    (hlater : later.SameAhead later') (hopened : start.opened = start'.opened ++ outer) :
    later.opened = later'.opened ++ outer := by
  obtain ⟨tokens, hahead, hleft⟩ := h
  obtain ⟨tokens', hahead', hleft'⟩ := h'
  obtain rfl : tokens = tokens' := by
    rw [hsame.ahead_eq, hlater.ahead_eq, hahead'] at hahead
    exact (List.append_cancel_right hahead).symm
  have hboth := unclosed?_outer hleft' outer
  rw [← hopened, hleft] at hboth
  exact Option.some.inj hboth

/-- The parses have come to the same, with some delimiters more noted as open by the first, unless
the first one has run out of nesting levels where the second one goes past. -/
inductive Compared {α : Type} (outer : List (Delimiter × Span)) :
    EStateM.Result SyntaxError Cursor α → EStateM.Result SyntaxError Cursor α → Prop
  | ok {value : α} {left right : Cursor} : left.SameAhead right →
      Compared outer (.ok value left) (.ok value right)
  | fault {choices : List Expectation} {left right : Cursor} : left.SameAhead right →
      left.opened = right.opened ++ outer →
      Compared outer (.error (left.fault choices) left) (.error (right.fault choices) right)
  | tooDeep {left : Cursor} {result : EStateM.Result SyntaxError Cursor α} :
      (Parse.place result).ahead <:+ left.ahead →
      Compared outer (.error (.tooDeep left.current.span) left) result

/-- A parse without levels left stands at the token where one was missing. -/
theorem Compared.of_tooDeep {α : Type} {outer : List (Delimiter × Span)} {span : Span}
    {left : Cursor} {result : EStateM.Result SyntaxError Cursor α}
    (h : Compared outer (.error (.tooDeep span) left) result) :
    span = left.current.span ∧ (Parse.place result).ahead <:+ left.ahead := by
  generalize hfirst : EStateM.Result.error (SyntaxError.tooDeep span) left = first at h
  cases h with
  | ok hsame => cases hfirst
  | fault hsame hopened =>
    exact absurd (EStateM.Result.error.inj hfirst).1.symm (fault_ne_tooDeep _ _ span)
  | tooDeep hsuffix =>
    cases hfirst
    exact ⟨rfl, hsuffix⟩

theorem Follows.compared {α : Type} {route route' : Route α} {parser parser' : Parse α}
    {cursor cursor' : Cursor} {outer : List (Delimiter × Span)}
    (hfollows : route.Follows parser cursor) (hfollows' : route'.Follows parser' cursor')
    (hshort : shortened.Rel route route') (hsame : cursor.SameAhead cursor')
    (hopened : cursor.opened = cursor'.opened ++ outer) :
    Compared outer (parser cursor) (parser' cursor') := by
  have hresults := hshort cursor cursor' hsame
  have hleft := hfollows.tallies _ (place_mem_visits route cursor)
  have hright := hfollows'.tallies _ (place_mem_visits route' cursor')
  rw [← hfollows.walk_eq, ← hfollows'.walk_eq]
  generalize route.walk cursor = result at *
  generalize route'.walk cursor' = result' at *
  cases hresults with
  | ok hlater => exact .ok hlater
  | fault hlater => exact .fault hlater (tallies_outer hleft hright hsame hlater hopened)
  | tooDeep hsuffix => exact .tooDeep hsuffix

end Compared

section Deep

variable {α β : Type} {route : Route α} {next : α → Route β} {cursor : Cursor} {n : Nat}

/-- Wherever the route begins, it passes `n` tokens at least until it runs out of levels. -/
def Deep (n : Nat) (route : Route α) : Prop :=
  ∀ cursor span later, route.walk cursor = .error (.tooDeep span) later →
    later.ahead.length + n ≤ cursor.ahead.length

/-- From the cursor, the route passes a token at least unless it fails. -/
def Advances (route : Route α) (cursor : Cursor) : Prop :=
  ∀ value later, route.walk cursor = .ok value later →
    later.ahead.length < cursor.ahead.length

/-- From the cursor, the route passes a token at least, and if it runs out of levels `n` more. -/
structure Opens (n : Nat) (route : Route α) (cursor : Cursor) : Prop where
  advances : route.Advances cursor
  tooDeep : ∀ span later, route.walk cursor = .error (.tooDeep span) later →
    later.ahead.length + n < cursor.ahead.length

theorem Deep.mono {m : Nat} (h : route.Deep n) (hle : m ≤ n) : route.Deep m := by
  intro cursor span later hrun
  have hdeep := h cursor span later hrun
  omega

theorem deep_zero (route : Route α) : route.Deep 0 := by
  intro cursor span later hrun
  have hsuffix := route.place_suffix cursor
  rw [hrun] at hsuffix
  exact hsuffix.length_le

theorem deep_of_opens (h : ∀ cursor, route.Opens n cursor) : route.Deep (n + 1) :=
  fun cursor span later hrun => (h cursor).tooDeep span later hrun

theorem length_le_of_ok {value : α} {later : Cursor} (h : route.walk cursor = .ok value later) :
    later.ahead.length ≤ cursor.ahead.length := by
  have hsuffix := route.place_suffix cursor
  rw [h] at hsuffix
  exact hsuffix.length_le

theorem Deep.bind (h : route.Deep n) (hnext : ∀ value, (next value).Deep n) :
    (route >>= next).Deep n := by
  intro cursor span later hrun
  rw [walk_bind] at hrun
  cases hfirst : route.walk cursor with
  | ok value mid =>
    rw [Parse.bind_of_ok hfirst] at hrun
    have hmid := length_le_of_ok hfirst
    have hlater := hnext value mid span later hrun
    omega
  | error error mid =>
    rw [Parse.bind_of_error hfirst] at hrun
    cases hrun
    exact h cursor span later hfirst

theorem deep_done (value : α) : (Pure.pure value : Route α).Deep n :=
  nofun

/-- A move that does not fail. -/
theorem deep_take (move : Move) : (take move).Deep n :=
  fun _ _ _ hrun => by cases hrun

theorem Deep.nested {levels : Nat} (h : route.Deep n) : (Route.nested levels route).Deep n :=
  (deep_take _).bind fun _ => h.bind fun value => (deep_take _).bind fun _ => deep_done value

theorem deep_fault (choices : List Expectation) : (fault choices : Route α).Deep n := by
  intro cursor span later hrun
  exact absurd (EStateM.Result.error.inj hrun).1 (cursor.fault_ne_tooDeep choices span)

/-- What is put together from routes that pass `n` tokens until they run out of levels. -/
def deep (n : Nat) : Congruence where
  Rel _ route := route.Deep n
  done := deep_done
  fault := deep_fault
  look hnext cursor span later hrun := hnext cursor cursor (.refl cursor) cursor span later hrun
  bind := Deep.bind
  advance := deep_take _
  enter _ := deep_take _
  leave := deep_take _

theorem deep_iff_alike : route.Deep n ↔ (deep n).Rel route route :=
  .rfl

theorem Advances.bind (h : route.Advances cursor) (next : α → Route β) :
    (route >>= next).Advances cursor := by
  intro result later hrun
  rw [walk_bind] at hrun
  obtain ⟨value, mid, hfirst, hmore⟩ := Parse.bind_ok hrun
  exact (length_le_of_ok hmore).trans_lt (h value mid hfirst)

theorem Opens.bind (h : route.Opens n cursor) (hnext : ∀ value, (next value).Deep n) :
    (route >>= next).Opens n cursor := by
  refine ⟨h.advances.bind next, fun span later hrun => ?_⟩
  rw [walk_bind] at hrun
  cases hfirst : route.walk cursor with
  | ok value mid =>
    rw [Parse.bind_of_ok hfirst] at hrun
    have hmid := h.advances value mid hfirst
    have hlater := hnext value mid span later hrun
    omega
  | error error mid =>
    rw [Parse.bind_of_error hfirst] at hrun
    cases hrun
    exact h.tooDeep span later hfirst

theorem Opens.fault (choices : List Expectation) : (fault choices : Route α).Opens n cursor :=
  ⟨nofun, fun span _ hrun =>
    absurd (EStateM.Result.error.inj hrun).1 (cursor.fault_ne_tooDeep choices span)⟩

theorem Advances.ask {question : Cursor → α} (h : (next (question cursor)).Advances cursor) :
    (Route.ask question >>= next).Advances cursor :=
  h

theorem Advances.fault (choices : List Expectation) :
    (Route.fault choices : Route α).Advances cursor :=
  nofun

theorem advance_advances (h : cursor.ahead ≠ []) : Route.advance.Advances cursor := by
  rintro _ _ ⟨⟩
  exact advanced_length_lt h

theorem identifier_advances (cursor : Cursor) : identifier.Advances cursor := by
  refine .ask ?_
  cases hkind : cursor.kind 0 with
  | identifier name =>
    exact (advance_advances (ahead_ne_nil (by rw [hkind]; nofun))).bind _
  | _ => exact .fault _

theorem keyword_advances (k : Keyword) (cursor : Cursor) : (keyword k).Advances cursor := by
  refine .ask ?_
  split
  · next hfound =>
    have hkind : cursor.kind 0 = .keyword k := Parse.atKeyword_iff.mp hfound
    exact advance_advances (ahead_ne_nil (by rw [hkind]; nofun))
  · exact .fault _

/-- A route that never runs out of levels. -/
theorem Opens.of_deep (h : route.Advances cursor) (hdeep : route.Deep (n + 1)) :
    route.Opens n cursor :=
  ⟨h, fun span later hrun => hdeep cursor span later hrun⟩

theorem Opens.ask {question : Cursor → α} (h : (next (question cursor)).Opens n cursor) :
    (Route.ask question >>= next).Opens n cursor :=
  ⟨h.advances, h.tooDeep⟩

theorem Opens.within {delimiter : Delimiter} (h : cursor.ahead ≠ []) (hinner : route.Deep n) :
    (Route.within delimiter route).Opens n cursor := by
  have henter : (take (.enter delimiter)).Advances cursor := by
    rintro _ _ ⟨⟩
    exact advanced_length_lt h
  refine (Opens.of_deep henter (deep_take _)).bind fun _ => Deep.bind hinner fun value => ?_
  exact Congruence.wrap ((deep n).close delimiter) fun _ => value

theorem Opens.delimitedList {delimiter : Delimiter} (h : cursor.ahead ≠ [])
    (hitem : route.Deep n) : (Route.delimitedList delimiter route).Opens n cursor := by
  have hlist : (deep n).Rel route.commaList route.commaList := Congruence.commaList hitem
  have hinner := (deep n).bind ((deep n).atSymbol (.closing delimiter)) fun closed =>
    Congruence.ite (closed = true) ((deep n).done []) hlist
  exact .within h hinner

theorem Opens.nested {levels : Nat} (h : route.Opens n { cursor with levels := levels }) :
    (Route.nested levels route).Opens n cursor := by
  have hrest := h.bind fun value => (deep_take (.level (levels + 1))).bind fun _ =>
    deep_done value
  exact ⟨hrest.advances, hrest.tooDeep⟩

end Deep
end Route
end EdgeQuery
