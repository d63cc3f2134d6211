import Mathlib
import EdgeQuery.Proofs.Query
import EdgeQuery.Proofs.Reference.Chain

/-!
References read in full. A reference takes the longest chain that stands where it begins, and what
it is settles whether an edge path may follow; each target of an edge path is the longest chain that
makes up an identifier, there are one or two of them, and no further arrow may stand behind the last.
-/

namespace EdgeQuery

open Cursor Parse Walk

section Reading

variable {α : Type} {cursor later : Cursor} {name : String}

theorem Cursor.peek_one {first second : Token} {rest : List Token}
    (h : cursor.ahead = first :: second :: rest) : cursor.peek 1 = second := by
  rw [peek, h]
  rfl

/-- A key is read if one is ahead. -/
theorem RecordKey.parse?_cases (cursor : Cursor) :
    (∃ colon token key later, RecordKey.parse? cursor = .ok (some key) later ∧
      cursor.Passes [colon, token] later ∧ colon.kind = .symbol .colon ∧
      RecordKey.ReadFrom token key) ∨
    RecordKey.parse? cursor = .ok none cursor ∧ ¬ KeyAhead cursor.ahead := by
  by_cases hkey : KeyAhead cursor.ahead
  · obtain ⟨colon, token, rest, key, hahead, hcolon, hread⟩ := hkey
    have hsplit : cursor.ahead = [colon, token] ++ rest := hahead
    obtain ⟨later, hpass, -⟩ := exists_passes hsplit
    obtain ⟨hspelled, -⟩ := RecordKey.spelledBy_of_ofToken? (RecordKey.readFrom_iff.mp hread)
    refine .inl ⟨colon, token, key, later, RecordKey.parse?_some hpass ?_, hpass, hcolon, hread⟩
    exact spells_symbol.mpr ⟨colon, [token], rfl, hcolon, spells_singleton.mpr hspelled⟩
  · refine .inr ⟨?_, hkey⟩
    by_cases hcolon : cursor.kind 0 = .symbol .colon
    · have hnone : RecordKey.ofToken? (cursor.peek 1) = none := by
        refine Option.eq_none_iff_forall_ne_some.mpr fun key hread => hkey ?_
        obtain ⟨colon, rest, hahead, -, hkind⟩ := exists_ahead hcolon TokenKind.noConfusion
        cases rest with
        | nil =>
          rw [peek, hahead] at hread
          cases hread
        | cons token rest =>
          rw [peek_one hahead] at hread
          exact ⟨colon, token, rest, key, hahead, hkind, RecordKey.readFrom_iff.mpr hread⟩
      rw [RecordKey.parse?, bind_of_ok (get_run cursor), atSymbol_iff.mpr hcolon, hnone]
      rfl
    · exact RecordKey.parse?_none hcolon

/-- A dot is read if a name is behind it. -/
theorem nextName?_cases (cursor : Cursor) :
    (∃ dot token name later, nextName? cursor = .ok (some name) later ∧
      cursor.Passes [dot, token] later ∧ dot.kind = .symbol .dot ∧ token.Names name) ∨
    nextName? cursor = .ok none cursor ∧ ¬ NameAhead cursor.ahead := by
  by_cases hname : NameAhead cursor.ahead
  · obtain ⟨dot, token, rest, name, hahead, hdot, hnames⟩ := hname
    have hsplit : cursor.ahead = [dot, token] ++ rest := hahead
    obtain ⟨later, hpass, -⟩ := exists_passes hsplit
    exact .inl ⟨dot, token, name, later, nextName?_some hpass hdot (Token.names_iff.mp hnames),
      hpass, hdot, hnames⟩
  · refine .inr ⟨nextName?_none (Bool.eq_false_iff.mpr fun hchain => hname ?_), hname⟩
    rw [atChainDot, Bool.and_eq_true] at hchain
    obtain ⟨dot, rest, hahead, -, hdot⟩ :=
      exists_ahead (atSymbol_iff.mp hchain.1) TokenKind.noConfusion
    obtain ⟨name, hnames⟩ := Option.isSome_iff_exists.mp hchain.2
    cases rest with
    | nil =>
      rw [Cursor.name?, peek, hahead] at hnames
      cases hnames
    | cons token rest =>
      rw [Cursor.name?, peek_one hahead] at hnames
      exact ⟨dot, token, rest, name, hahead, hdot, Token.names_iff.mpr hnames⟩

/-- A segment is read with its key. -/
theorem parseKey_run {token : Token} (hnames : token.Names name) (cursor : Cursor) :
    ∃ (segment : Segment) (tokens : List Token) (later : Cursor),
      Identifier.parseKey name cursor = .ok segment.identifier later ∧
      cursor.Passes tokens later ∧ segment.Written (token :: tokens) ∧
      segment.Settled true later.ahead := by
  rcases RecordKey.parse?_cases cursor with
    ⟨colon, behind, key, later, hrun, hpass, hcolon, hread⟩ | ⟨hrun, hnot⟩
  · refine ⟨⟨name, some key⟩, [colon, behind], later, ?_, hpass, .keyed hnames hcolon hread,
      .inr ⟨rfl, nofun⟩⟩
    rw [Identifier.parseKey, bind_of_ok hrun]
    rfl
  · refine ⟨⟨name, none⟩, [], cursor, ?_, .refl cursor, .plain hnames, .inr ⟨rfl, fun _ => hnot⟩⟩
    rw [Identifier.parseKey, bind_of_ok hrun]
    rfl

/-- What a round of a loop over a chain does. -/
def Continues (keys : Bool) (item? : Parse (Option α)) (make : Segment → α) : Prop :=
  ∀ cursor, item? cursor = .ok none cursor ∧ ¬ NameAhead cursor.ahead ∨
    ∃ dot front segment later, item? cursor = .ok (some (make segment)) later ∧
      cursor.Passes (dot :: front) later ∧ dot.kind = .symbol .dot ∧ segment.Written front ∧
      segment.Settled keys later.ahead

theorem nextName?_continues : Continues false nextName? Segment.name := by
  intro cursor
  rcases nextName?_cases cursor with ⟨dot, token, name, later, hrun, hpass, hdot, hnames⟩ | hstop
  · exact .inr ⟨dot, [token], ⟨name, none⟩, later, hrun, hpass, hdot, .plain hnames,
      .inl ⟨rfl, rfl⟩⟩
  · exact .inl hstop

theorem nextSegment?_continues : Continues true Identifier.nextSegment? Segment.identifier := by
  intro cursor
  rcases nextName?_cases cursor with
    ⟨dot, token, name, mid, hrun, hpass, hdot, hnames⟩ | ⟨hrun, hstop⟩
  · obtain ⟨segment, tokens, later, hkey, hpass', hwritten, hsettled⟩ := parseKey_run hnames mid
    refine .inr ⟨dot, token :: tokens, segment, later, ?_, hpass.trans hpass', hdot, hwritten,
      hsettled⟩
    rw [Identifier.nextSegment?, bind_of_ok hrun]
    exact bind_pure_of_ok some hkey
  · refine .inl ⟨?_, hstop⟩
    rw [Identifier.nextSegment?, bind_of_ok hrun]
    rfl

/-- Behind a segment the loop goes as far as the chain does. The induction is on the rounds. -/
theorem Continues.repeatUpTo {keys : Bool} {item? : Parse (Option α)} {make : Segment → α}
    (h : Continues keys item? make) {rounds : Nat} (hrounds : cursor.ahead.length ≤ rounds)
    {segment : Segment} {front : List Token} (hwritten : segment.Written front)
    (hsettled : segment.Settled keys cursor.ahead) :
    ∃ segments tokens later,
      Walk.repeatUpTo item? rounds cursor = .ok (segments.map make) later ∧
      cursor.Passes tokens later ∧
      Greedy keys later.ahead (segment :: segments) (front ++ tokens) := by
  induction rounds generalizing cursor segment front with
  | zero =>
    refine ⟨[], [], cursor, rfl, .refl cursor, ?_⟩
    rw [List.append_nil]
    refine .last hwritten hsettled ?_
    rintro ⟨_, _, _, _, hahead, -⟩
    rw [hahead] at hrounds
    cases hrounds
  | succ rounds ih =>
    rcases h cursor with ⟨hrun, hstop⟩ | ⟨dot, front', next, mid, hrun, hpass, hdot, hnext, hkey⟩
    · refine ⟨[], [], cursor, ?_, .refl cursor, ?_⟩
      · rw [Walk.repeatUpTo, bind_of_ok hrun]
        rfl
      · rw [List.append_nil]
        exact .last hwritten hsettled hstop
    · have hlength := hpass.length_eq
      rw [List.length_cons] at hlength
      obtain ⟨segments, tokens, later, hmore, hpass', hgreedy⟩ :=
        ih (by omega) hnext hkey
      refine ⟨next :: segments, dot :: (front' ++ tokens), later, ?_, hpass.trans hpass', ?_⟩
      · rw [Walk.repeatUpTo, bind_of_ok hrun]
        exact bind_pure_of_ok (make next :: ·) hmore
      · refine .more hwritten ?_ hdot hgreedy
        rw [(hpass.trans hpass').1] at hsettled
        exact hsettled

end Reading

/-- The cursor stands on an identifier, and the later one behind the longest chain there that makes
up an identifier, which is this one. -/
def Cursor.Targets (cursor : Cursor) (id : Identifier) (later : Cursor) : Prop :=
  (∃ name, cursor.kind 0 = .identifier name) ∧
    ∃ segments tokens, Longest IsTarget cursor.ahead tokens ∧ Chain segments tokens ∧
      MakesUp segments id ∧ cursor.Passes tokens later

section Identifiers

variable {cursor later : Cursor} {name : String}

theorem Cursor.Passes.unique {tokens : List Token} {other : Cursor}
    (h : cursor.Passes tokens later) (hother : cursor.Passes tokens other) : other = later := by
  have hahead : other.ahead = later.ahead := List.append_cancel_left (hother.1.symm.trans h.1)
  rw [hother.2, h.2, hahead]

theorem Cursor.Targets.unique {id other : Identifier} {last : Cursor}
    (h : cursor.Targets id later) (hother : cursor.Targets other last) :
    other = id ∧ last = later := by
  obtain ⟨-, segments, tokens, hlongest, hchain, hmakes, hpass⟩ := h
  obtain ⟨-, segments', tokens', hlongest', hchain', hmakes', hpass'⟩ := hother
  obtain rfl := hlongest.eq hlongest'
  obtain rfl := hchain.unique hchain'
  exact ⟨hmakes.eq hmakes', hpass.unique hpass'⟩

/-- The identifier of names that are read one by one. -/
theorem makesUp_ofNames (first : String) {more : List Segment}
    (h : ∀ segment ∈ more, segment.key = none) :
    MakesUp (⟨first, none⟩ :: more) (.ofNames first (more.map Segment.name)) := by
  cases more with
  | nil => exact .single ⟨first, none⟩
  | cons second more =>
    exact .dotted (by simp) (List.forall_mem_cons.mpr ⟨rfl, h⟩)

/-- An identifier is read as far as it goes. -/
theorem Identifier.parse_run (h : cursor.kind 0 = .identifier name) :
    ∃ id later, Identifier.parse cursor = .ok id later ∧ cursor.Targets id later := by
  obtain ⟨token, rest, hahead, -, hkind⟩ := exists_ahead h TokenKind.noConfusion
  have hnames : token.Names name := .inl hkind
  have hfirst := identifier_ok h
  have hpass := Passes.advanced hahead
  have hadvanced : cursor.advanced.ahead = rest := by rw [advanced_of_ahead hahead]
  rcases RecordKey.parse?_cases cursor.advanced with
    ⟨colon, behind, key, later, hrun, hpass', hcolon, hread⟩ | ⟨hrun, hnot⟩
  · have hwritten : Segment.Written ⟨name, some key⟩ [token, colon, behind] :=
      .keyed hnames hcolon hread
    have hall := hpass.trans hpass'
    refine ⟨.record ⟨name, key⟩, later, ?_, ⟨name, h⟩, [⟨name, some key⟩],
      [token, colon, behind], ?_, .last hwritten, .single ⟨name, some key⟩, hall⟩
    · rw [Identifier.parse, bind_of_ok hfirst, bind_of_ok hrun]
      rfl
    · rw [hall.1]
      exact hwritten.longest_target (Option.some_ne_none key)
  · obtain ⟨segments, tokens, later, hmore, hpass', hgreedy⟩ :=
      nextName?_continues.repeatUpTo (Nat.le_refl _) (.plain hnames) (.inl ⟨rfl, rfl⟩)
    have hall := hpass.trans hpass'
    have hmakes := makesUp_ofNames name (List.forall_mem_cons.mp hgreedy.plain).2
    refine ⟨.ofNames name (segments.map Segment.name), later, ?_, ⟨name, h⟩, ⟨name, none⟩ :: segments,
      token :: tokens, ?_, hgreedy.chain, hmakes, hall⟩
    · rw [Identifier.parse, bind_of_ok hfirst, bind_of_ok hrun]
      exact bind_pure_of_ok (Identifier.ofNames name) hmore
    · rw [hall.1]
      refine hgreedy.longest_target hmakes ?_
      rw [hadvanced] at hnot
      rwa [show ([token] ++ tokens ++ later.ahead).tail = rest by
        rw [← hall.1, hahead, List.tail_cons]]

theorem Identifier.parse_iff {id : Identifier} :
    Identifier.parse cursor = .ok id later ↔ cursor.Targets id later := by
  constructor
  · intro h
    obtain ⟨name, hkind⟩ := Identifier.parse_starts h
    obtain ⟨other, last, hrun, htargets⟩ := Identifier.parse_run hkind
    cases hrun.symm.trans h
    exact htargets
  · intro h
    have hstart := h.1
    obtain ⟨name, hkind⟩ := hstart
    obtain ⟨other, last, hrun, htargets⟩ := Identifier.parse_run hkind
    obtain ⟨rfl, rfl⟩ := h.unique htargets
    exact hrun

end Identifiers

section Edges

variable {cursor mid later : Cursor} {direction : Direction}

theorem Cursor.arrow?_eq_none :
    cursor.arrow? = none ↔ ∀ direction, cursor.kind 0 ≠ .symbol (.arrow direction) := by
  rw [Option.eq_none_iff_forall_ne_some]
  exact forall_congr' fun direction => not_congr arrow?_eq_some

/-- What is left to be read behind the targets of an edge path. -/
def EdgePath.finish (direction : Direction) (first : Identifier) (second : Option Identifier) :
    Parse EdgePath := do
  if (← get).arrow?.isSome then expected [.endOfEdgePath]
  else return ⟨direction, first, second⟩

theorem EdgePath.parse_eq (direction : Direction) (cursor : Cursor) :
    EdgePath.parse direction cursor =
      (Identifier.parse >>= fun first =>
        onlyIf (eatSymbol (.arrow direction)) Identifier.parse >>= fun second =>
          finish direction first second) cursor.advanced := rfl

theorem EdgePath.finish_ok {first : Identifier} {second : Option Identifier} (h : cursor.arrow? = none) :
    finish direction first second cursor = .ok ⟨direction, first, second⟩ cursor := by
  rw [finish, bind_of_ok (get_run cursor), h]
  rfl

/-- Another arrow is neither a third hop nor a change of direction. -/
theorem EdgePath.finish_error {first : Identifier} {second : Option Identifier} {other : Direction}
    (h : cursor.kind 0 = .symbol (.arrow other)) :
    finish direction first second cursor =
      .error (.unexpected [.endOfEdgePath] (.symbol (.arrow other)) cursor.current.span)
        cursor := by
  have hfault : cursor.fault [.endOfEdgePath] =
      .unexpected [.endOfEdgePath] (.symbol (.arrow other)) cursor.current.span := by
    have hkind : cursor.current.kind = .symbol (.arrow other) := h
    rw [fault, hkind]
  rw [finish, bind_of_ok (get_run cursor), arrow?_eq_some.mpr h, ← hfault]
  rfl

theorem EdgePath.parse_one {first : Identifier} (hfirst : cursor.advanced.Targets first mid)
    (harrow : mid.kind 0 ≠ .symbol (.arrow direction)) :
    EdgePath.parse direction cursor = finish direction first none mid := by
  rw [parse_eq, bind_of_ok (Identifier.parse_iff.mpr hfirst),
    bind_of_ok (onlyIf_false (eatSymbol_false harrow))]

theorem EdgePath.parse_two {first second : Identifier} (hfirst : cursor.advanced.Targets first mid)
    (harrow : mid.kind 0 = .symbol (.arrow direction)) (hsecond : mid.advanced.Targets second later) :
    EdgePath.parse direction cursor = finish direction first (some second) later := by
  rw [parse_eq, bind_of_ok (Identifier.parse_iff.mpr hfirst),
    bind_of_ok (onlyIf_true (eatSymbol_true harrow) (Identifier.parse_iff.mpr hsecond))]

/-- What an edge path is accepted as, and up to where. -/
theorem EdgePath.parse_iff {path : EdgePath} :
    EdgePath.parse direction cursor = .ok path later ↔
      path.direction = direction ∧ (∀ other, later.kind 0 ≠ .symbol (.arrow other)) ∧
        ∃ mid, cursor.advanced.Targets path.first mid ∧
          (path.second = none ∧ later = mid ∨
            ∃ second, path.second = some second ∧ mid.kind 0 = .symbol (.arrow direction) ∧
              mid.advanced.Targets second later) := by
  constructor
  · intro h
    rw [parse_eq] at h
    obtain ⟨first, mid, hfirst, hrest⟩ := bind_ok h
    obtain ⟨second, last, hsecond, hfinish⟩ := bind_ok hrest
    have hnone : ∀ other, last.kind 0 ≠ .symbol (.arrow other) := by
      intro other harrow
      rw [finish_error harrow] at hfinish
      cases hfinish
    rw [finish_ok (arrow?_eq_none.mpr hnone)] at hfinish
    cases hfinish
    refine ⟨rfl, hnone, mid, Identifier.parse_iff.mp hfirst, ?_⟩
    by_cases harrow : mid.kind 0 = .symbol (.arrow direction)
    · rw [onlyIf, bind_of_ok (eatSymbol_true harrow)] at hsecond
      obtain ⟨target, mid', htarget, hpure⟩ := bind_ok hsecond
      cases hpure
      exact .inr ⟨target, rfl, harrow, Identifier.parse_iff.mp htarget⟩
    · rw [onlyIf_false (eatSymbol_false harrow)] at hsecond
      cases hsecond
      exact .inl ⟨rfl, rfl⟩
  · obtain ⟨_, first, second⟩ := path
    rintro ⟨rfl, hnone, mid, hfirst, hrest⟩
    have hend := arrow?_eq_none.mpr hnone
    rcases hrest with ⟨rfl, rfl⟩ | ⟨target, rfl, harrow, hsecond⟩
    · exact (parse_one hfirst (hnone _)).trans (finish_ok hend)
    · exact (parse_two hfirst harrow hsecond).trans (finish_ok hend)

end Edges

section Resolution

variable {cursor later : Cursor} {name : String} {segment : Segment} {segments : List Segment}

/-- What is made of the segments of a chain, and of an arrow behind them. -/
def FieldReference.resolve (first : Identifier) (more : List Identifier) : Parse FieldReference := do
  match Identifier.ofSegments? first more with
  | none => return .path (first :: more)
  | some origin =>
    match (← get).arrow? with
    | some direction => return .edge (some origin) (← EdgePath.parse direction)
    | none => return .identifier origin

theorem Segment.isRaw_identifier (segment : Segment) :
    segment.identifier.isRaw = true ↔ segment.key = none := by
  rcases segment with ⟨name, _ | key⟩ <;> simp [identifier, Identifier.isRaw]

theorem MakesUp.ofSegments? {origin : Identifier} (h : MakesUp (segment :: segments) origin) :
    Identifier.ofSegments? segment.identifier (segments.map Segment.identifier) = some origin := by
  cases h with
  | single => rfl
  | dotted hlength hnone =>
    have hraw {segment : Segment} (hkey : segment.key = none) :
        segment.identifier = .raw segment.name := by
      rcases segment with ⟨name, _ | key⟩
      · rfl
      · cases hkey
    cases segments with
    | nil => exact absurd hlength (by simp)
    | cons second more =>
      have hmap : (second :: more).map Segment.identifier =
          ((second :: more).map Segment.name).map fun name => .raw name := by
        rw [List.map_map]
        exact List.map_congr_left fun other hmem =>
          hraw (hnone other (List.mem_cons_of_mem segment hmem))
      rw [hmap, hraw (hnone segment List.mem_cons_self)]
      exact FieldReference.ofSegments?_raw segment.name second.name (more.map Segment.name)

/-- What makes up an identifier is the identifier, or the origin of an edge path. -/
theorem FieldReference.resolve_of_makesUp {origin : Identifier}
    (h : MakesUp (segment :: segments) origin) (cursor : Cursor) :
    resolve segment.identifier (segments.map Segment.identifier) cursor =
      match cursor.arrow? with
      | some direction =>
        (EdgePath.parse direction >>= fun path => pure (.edge (some origin) path)) cursor
      | none => .ok (.identifier origin) cursor := by
  rw [resolve, h.ofSegments?]
  dsimp only
  rw [bind_of_ok (get_run cursor)]
  cases cursor.arrow? <;> rfl

/-- A chain of several segments, of which one has a key, makes up no identifier. -/
theorem ofSegments?_eq_none (hlength : 2 ≤ (segment :: segments).length)
    (hkey : ∃ other ∈ segment :: segments, other.key ≠ none) :
    Identifier.ofSegments? segment.identifier (segments.map Segment.identifier) = none := by
  have hmore : (segments.map Segment.identifier).isEmpty = false := by
    cases segments with
    | nil => exact absurd hlength (by simp)
    | cons second more => rfl
  have hall : (segment.identifier :: segments.map Segment.identifier).all Identifier.isRaw =
      false := by
    rw [← List.map_cons, List.all_eq_false]
    obtain ⟨other, hmem, hother⟩ := hkey
    exact ⟨other.identifier, List.mem_map_of_mem hmem,
      fun hraw => hother (other.isRaw_identifier.mp hraw)⟩
  rw [Identifier.ofSegments?, hmore, hall]
  rfl

/-- A chain is read as far as it goes, and then what it makes up is settled. -/
theorem FieldReference.parse_run (h : cursor.kind 0 = .identifier name) :
    ∃ segment segments tokens later, Greedy true later.ahead (segment :: segments) tokens ∧
      cursor.Passes tokens later ∧
      FieldReference.parse cursor =
        resolve segment.identifier (segments.map Segment.identifier) later := by
  obtain ⟨token, rest, hahead, -, hkind⟩ := exists_ahead h TokenKind.noConfusion
  obtain ⟨segment, front, mid, hkey, hpass, hwritten, hsettled⟩ :=
    parseKey_run (.inl hkind) cursor.advanced
  obtain ⟨segments, tokens, later, hmore, hpass', hgreedy⟩ :=
    nextSegment?_continues.repeatUpTo (Nat.le_refl _) hwritten hsettled
  refine ⟨segment, segments, _, later, hgreedy,
    ((Passes.advanced hahead).trans hpass).trans hpass', ?_⟩
  rw [parse_of_identifier h, parseChain, bind_of_ok (identifier_ok h), bind_of_ok hkey]
  exact bind_of_ok hmore

end Resolution

/-- The reference at the cursor is the longest chain that stands there, and it is read as what its
segments make up, with the edge path behind it if an arrow follows; or as a path, if they make up no
identifier. -/
structure FieldReference.Extends (cursor : Cursor) (segments : List Segment) (tokens : List Token)
    (later : Cursor) : Prop where
  longest : Longest IsChain cursor.ahead tokens
  chain : Chain segments tokens
  passes : cursor.Passes tokens later
  identifier : ∀ origin, MakesUp segments origin →
    (∀ direction, later.kind 0 ≠ .symbol (.arrow direction)) →
      parse cursor = .ok (.identifier origin) later
  edge : ∀ origin direction, MakesUp segments origin → later.kind 0 = .symbol (.arrow direction) →
    parse cursor =
      (EdgePath.parse direction >>= fun path => pure (.edge (some origin) path)) later
  path : 2 ≤ segments.length → (∃ segment ∈ segments, segment.key ≠ none) →
    parse cursor = .ok (.path (segments.map Segment.identifier)) later

theorem FieldReference.exists_extends {cursor : Cursor} {name : String}
    (h : cursor.kind 0 = .identifier name) :
    ∃ segments tokens later, Extends cursor segments tokens later := by
  obtain ⟨segment, segments, tokens, later, hgreedy, hpass, hrun⟩ := parse_run h
  have hahead := hpass.1
  refine ⟨segment :: segments, tokens, later, hahead ▸ hgreedy.longest, hgreedy.chain, hpass,
    fun origin hmakes hnone => ?_, fun origin direction hmakes harrow => ?_, fun hlength hkey => ?_⟩
  · rw [hrun, resolve_of_makesUp hmakes, arrow?_eq_none.mpr hnone]
  · rw [hrun, resolve_of_makesUp hmakes, arrow?_eq_some.mpr harrow]
  · rw [hrun, resolve, ofSegments?_eq_none hlength hkey]
    rfl

/-- References are read as far as they go, and as what they are. Where an identifier stands, there is
exactly one longest chain, and the reference is that. An edge path is one or two targets behind
arrows of one direction, each as long as it can be; another arrow behind the last one is a fault,
whether it would be a third hop or one in the other direction. -/
theorem references_exact :
    (∀ (cursor : Cursor) (name : String), cursor.kind 0 = .identifier name →
      ∃ segments tokens later, FieldReference.Extends cursor segments tokens later ∧
        ∀ others others', Longest IsChain cursor.ahead others' → Chain others others' →
          others = segments ∧ others' = tokens) ∧
    (∀ (cursor later : Cursor) (direction : Direction) (path : EdgePath),
      EdgePath.parse direction cursor = .ok path later ↔
        path.direction = direction ∧ (∀ other, later.kind 0 ≠ .symbol (.arrow other)) ∧
          ∃ mid, cursor.advanced.Targets path.first mid ∧
            (path.second = none ∧ later = mid ∨
              ∃ second, path.second = some second ∧ mid.kind 0 = .symbol (.arrow direction) ∧
                mid.advanced.Targets second later)) ∧
    ∀ (cursor mid : Cursor) (direction other : Direction) (first : Identifier),
      cursor.advanced.Targets first mid →
        (other ≠ direction → mid.kind 0 = .symbol (.arrow other) →
          EdgePath.parse direction cursor =
            .error (.unexpected [.endOfEdgePath] (.symbol (.arrow other)) mid.current.span) mid) ∧
        (mid.kind 0 = .symbol (.arrow direction) → ∀ second later,
          mid.advanced.Targets second later → later.kind 0 = .symbol (.arrow other) →
            EdgePath.parse direction cursor =
              .error (.unexpected [.endOfEdgePath] (.symbol (.arrow other)) later.current.span)
                later) := by
  refine ⟨fun cursor name h => ?_, fun cursor later direction path => EdgePath.parse_iff,
    fun cursor mid direction other first hfirst => ⟨fun hother harrow => ?_, ?_⟩⟩
  · obtain ⟨segments, tokens, later, hextends⟩ := FieldReference.exists_extends h
    refine ⟨segments, tokens, later, hextends, fun others others' hlongest hchain => ?_⟩
    obtain rfl := hextends.longest.eq hlongest
    exact ⟨hextends.chain.unique hchain, rfl⟩
  · have hnot : mid.kind 0 ≠ .symbol (.arrow direction) := by
      rw [harrow]
      simpa using hother
    exact (EdgePath.parse_one hfirst hnot).trans (EdgePath.finish_error harrow)
  · intro hagain second later hsecond harrow
    exact (EdgePath.parse_two hfirst hagain hsecond).trans (EdgePath.finish_error harrow)

set_option maxRecDepth 8192 in
/-- A dotted name is the origin of the first hop behind it; an arrow in the other direction behind
the second hop is a fault. -/
theorem references_exact_hops :
    let cursor := Cursor.ofText "a.b->c->d<-e" .strict nestingLimit
    let origin := cursor.advanced.advanced.advanced
    let mid := origin.advanced.advanced
    let later := mid.advanced.advanced
    cursor.kind 0 = .identifier "a" ∧
      (∃ segments tokens last, FieldReference.Extends cursor segments tokens last ∧
        ∀ others others', Longest IsChain cursor.ahead others' → Chain others others' →
          others = segments ∧ others' = tokens) ∧
      origin.advanced.Targets (.raw "c") mid ∧ mid.kind 0 = .symbol (.arrow .out) ∧
      mid.advanced.Targets (.raw "d") later ∧ later.kind 0 = .symbol (.arrow .into) ∧
      EdgePath.parse .out origin =
        .error (.unexpected [.endOfEdgePath] (.symbol (.arrow .into)) later.current.span) later := by
  intro cursor origin mid later
  have hstart : cursor.kind 0 = .identifier "a" := by
    simp only [cursor]
    cbv
  have hfirst : origin.advanced.Targets (.raw "c") mid := by
    refine Identifier.parse_iff.mp ?_
    simp only [mid, origin, cursor]
    cbv
  have hout : mid.kind 0 = .symbol (.arrow .out) := by
    simp only [mid, origin, cursor]
    cbv
  have hsecond : mid.advanced.Targets (.raw "d") later := by
    refine Identifier.parse_iff.mp ?_
    simp only [later, mid, origin, cursor]
    cbv
  have hinto : later.kind 0 = .symbol (.arrow .into) := by
    simp only [later, mid, origin, cursor]
    cbv
  obtain ⟨hextends, -, hfaults⟩ := references_exact
  exact ⟨hstart, hextends cursor "a" hstart, hfirst, hout, hsecond, hinto,
    (hfaults origin mid .out .into (.raw "c") hfirst).2 hout (.raw "d") later hsecond hinto⟩

end EdgeQuery
