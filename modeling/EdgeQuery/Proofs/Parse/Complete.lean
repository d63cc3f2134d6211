import EdgeQuery.Proofs.Parse.Sound

/-!
Parsers that read back what is written. `Parse.Completes` says that a parse of tokens that spell the
pieces of a valid value comes to that value and stops right behind them, as long as what follows
does not go on with them. The rules are those of soundness, read the other way.
-/

namespace EdgeQuery

open Cursor Walk

namespace Cursor

/-- The pieces are written ahead of the cursor: tokens that spell them lead to the later one. -/
structure Faces (dialect : Dialect) (levels : Nat) (cursor : Cursor) (pieces : List Piece)
    (later : Cursor) : Prop where
  at_levels : cursor.At dialect levels
  spelled : ∃ tokens, cursor.Passes tokens later ∧ Spells pieces tokens

namespace Faces

variable {dialect : Dialect} {levels : Nat} {cursor later : Cursor}
  {pieces front back more : List Piece}

theorem eq_of_nil (h : cursor.Faces dialect levels [] later) : later = cursor := by
  obtain ⟨-, tokens, hpass, rfl⟩ := h
  exact hpass.eq_of_nil

/-- The cursor between two parts of what is written. -/
theorem split (h : cursor.Faces dialect levels (front ++ back) later) :
    ∃ mid, cursor.Faces dialect levels front mid ∧ mid.Faces dialect levels back later := by
  obtain ⟨hat, tokens, hpass, hspells⟩ := h
  obtain ⟨left, right, rfl, hleft, hright⟩ := spells_append.mp hspells
  obtain ⟨mid, hpass, hpass'⟩ := hpass.split
  exact ⟨mid, ⟨hat, left, hpass, hleft⟩, ⟨hat.passes hpass, right, hpass', hright⟩⟩

theorem mono (h : cursor.Faces dialect levels front later)
    (hspells : ∀ tokens, Spells front tokens → Spells back tokens) :
    cursor.Faces dialect levels back later := by
  obtain ⟨hat, tokens, hpass, hfront⟩ := h
  exact ⟨hat, tokens, hpass, hspells tokens hfront⟩

theorem space (h : cursor.Faces dialect levels (.space :: more) later) :
    cursor.Faces dialect levels more later :=
  h.mono fun _ => spells_space.mp

theorem optional {α : Type} {written : α → List Piece} {value : Option α}
    (h : cursor.Faces dialect levels (Piece.optional (value.map written)) later) :
    cursor.Faces dialect levels (value.elim [] written) later :=
  h.mono fun _ => spells_optional.mp

theorem length_le (h : cursor.Faces dialect levels pieces later) :
    later.ahead.length ≤ cursor.ahead.length := by
  obtain ⟨-, tokens, hpass, -⟩ := h
  rw [hpass.length_eq]
  exact Nat.le_add_left _ _

theorem length_lt (h : cursor.Faces dialect levels pieces later) (hne : ¬ Spells pieces []) :
    later.ahead.length < cursor.ahead.length := by
  obtain ⟨-, tokens, hpass, hspells⟩ := h
  have hpos : 0 < tokens.length := by
    refine List.length_pos_iff.mpr ?_
    rintro rfl
    exact hne hspells
  rw [hpass.length_eq]
  exact Nat.lt_add_of_pos_left hpos

/-- What is written does not depend on the level that the cursor is on. -/
theorem withLevels {room : Nat} (h : cursor.Faces dialect room pieces later) (levels : Nat) :
    Faces dialect levels { cursor with levels := levels } pieces
      { later with levels := levels } := by
  obtain ⟨hat, tokens, hpass, hspells⟩ := h
  exact ⟨⟨hat.genuine, rfl⟩, tokens, hpass.withLevels levels, hspells⟩

/-- A piece that is written as one token stands here, and the others behind it. -/
theorem step {p : Token → Prop} {piece : Piece}
    (hpiece : ∀ tokens, Spells (piece :: more) tokens →
      ∃ token back, tokens = token :: back ∧ p token ∧ Spells more back)
    (h : cursor.Faces dialect levels (piece :: more) later) :
    p cursor.current ∧ cursor.current.Genuine dialect ∧
      cursor.advanced.Faces dialect levels more later := by
  obtain ⟨hat, tokens, hpass, hspells⟩ := h
  obtain ⟨token, back, rfl, htoken, hback⟩ := hpiece tokens hspells
  rw [hpass.current_eq]
  exact ⟨htoken, hat.tokens_genuine hpass token (by simp),
    hat.passes (Passes.advanced hpass.1), back, hpass.tail, hback⟩

theorem symbol {s : Symbol} (h : cursor.Faces dialect levels (.symbol s :: more) later) :
    cursor.kind 0 = .symbol s ∧ cursor.advanced.Faces dialect levels more later := by
  obtain ⟨hkind, -, hmore⟩ := h.step fun _ => spells_symbol.mp
  exact ⟨hkind, hmore⟩

theorem keyword {k : Keyword} (hspelling : k.spellings = [[.keyword k]])
    (h : cursor.Faces dialect levels (.keyword k :: more) later) :
    cursor.kind 0 = .keyword k ∧ cursor.advanced.Faces dialect levels more later := by
  obtain ⟨hkind, -, hmore⟩ := h.step fun _ => (spells_keyword hspelling).mp
  exact ⟨hkind, hmore⟩

/-- A keyword that is always written as itself, and what is written behind it. -/
theorem after {k : Keyword} (hspelling : k.spellings = [[.keyword k]])
    (h : cursor.Faces dialect levels (Piece.after k more) later) :
    cursor.kind 0 = .keyword k ∧ cursor.advanced.Faces dialect levels more later := by
  obtain ⟨hkind, hmore⟩ := h.keyword hspelling
  exact ⟨hkind, hmore.space⟩

/-- Most keywords are written first wherever they are written. -/
theorem lead {k : Keyword} (h : cursor.Faces dialect levels (.keyword k :: more) later)
    (hk : ∀ spelling ∈ k.spellings, spelling.head? = some (.keyword k)) :
    cursor.kind 0 = .keyword k := by
  obtain ⟨-, tokens, hpass, hspells⟩ := h
  obtain ⟨token, back, rfl, htoken⟩ := hspells.exists_keyword hk
  exact hpass.kind_eq.trans htoken

theorem opening {delimiter : Delimiter}
    (h : cursor.Faces dialect levels (Piece.enclosed delimiter more) later) :
    cursor.kind 0 = .symbol (.opening delimiter) := by
  rw [Piece.enclosed, List.cons_append] at h
  exact h.symbol.1

end Faces
end Cursor

namespace Parse

/-- A valid value is read back from every spelling of its pieces that is followed by something
suitable. -/
def Completes {α : Type} (dialect : Dialect) (levels : Nat) (parser : Parse α)
    (written : α → List Piece) (valid : α → Prop) (follow : Cursor → Prop) : Prop :=
  ∀ (value : α) (cursor : Cursor) (tokens : List Token) (later : Cursor),
    cursor.At dialect levels → cursor.Passes tokens later → Spells (written value) tokens →
    valid value → follow later → parser cursor = .ok value later

section Faces

variable {α : Type} {dialect : Dialect} {levels : Nat} {parser : Parse α}
  {written : α → List Piece} {valid : α → Prop} {follow : Cursor → Prop}

theorem Completes.of_faces
    (h : ∀ (value : α) (cursor later : Cursor),
      cursor.Faces dialect levels (written value) later → valid value → follow later →
        parser cursor = .ok value later) :
    parser.Completes dialect levels written valid follow :=
  fun value cursor tokens later hat hpass hspells =>
    h value cursor later ⟨hat, tokens, hpass, hspells⟩

theorem Completes.run (h : parser.Completes dialect levels written valid follow) {value : α}
    {cursor later : Cursor} (hfaces : cursor.Faces dialect levels (written value) later)
    (hvalid : valid value) (hlater : follow later) : parser cursor = .ok value later := by
  obtain ⟨hat, tokens, hpass, hspells⟩ := hfaces
  exact h value cursor tokens later hat hpass hspells hvalid hlater

end Faces

section Steps

variable {cursor : Cursor}

theorem advance_run (cursor : Cursor) : advance cursor = .ok () cursor.advanced := rfl

theorem eatSymbol_true {s : Symbol} (h : cursor.kind 0 = .symbol s) :
    eatSymbol s cursor = .ok true cursor.advanced := by
  rw [eatSymbol, bind_of_ok (atSymbol_run s cursor), atSymbol_iff.mpr h]
  rfl

theorem eatSymbol_false {s : Symbol} (h : cursor.kind 0 ≠ .symbol s) :
    eatSymbol s cursor = .ok false cursor := by
  rw [eatSymbol, bind_of_ok (atSymbol_run s cursor), Bool.eq_false_iff.mpr (mt atSymbol_iff.mp h)]
  rfl

theorem eatKeyword_true {k : Keyword} (h : cursor.kind 0 = .keyword k) :
    eatKeyword k cursor = .ok true cursor.advanced := by
  rw [eatKeyword, bind_of_ok (atKeyword_run k cursor), atKeyword_iff.mpr h]
  rfl

theorem eatKeyword_false {k : Keyword} (h : cursor.kind 0 ≠ .keyword k) :
    eatKeyword k cursor = .ok false cursor := by
  rw [eatKeyword, bind_of_ok (atKeyword_run k cursor),
    Bool.eq_false_iff.mpr (mt atKeyword_iff.mp h)]
  rfl

/-- A keyword that may be left out is read back in front of anything but itself. -/
theorem eatKeyword_completes {dialect : Dialect} {levels : Nat} {k : Keyword}
    (hspelling : k.spellings = [[.keyword k]]) :
    (eatKeyword k).Completes dialect levels (Piece.flag k) (fun _ => True)
      (fun later => later.kind 0 ≠ .keyword k) := by
  refine .of_faces fun flag cursor later hfaces _ hlater => ?_
  cases flag with
  | false =>
    obtain rfl := hfaces.eq_of_nil
    exact eatKeyword_false hlater
  | true =>
    have hfaces : cursor.Faces dialect levels [.space, .keyword k] later := hfaces
    obtain ⟨hkind, hnothing⟩ := hfaces.space.keyword hspelling
    obtain rfl := hnothing.eq_of_nil
    exact eatKeyword_true hkind

theorem keyword_ok {k : Keyword} (h : cursor.kind 0 = .keyword k) :
    keyword k cursor = .ok () cursor.advanced := by
  rw [keyword, bind_of_ok (atKeyword_run k cursor), atKeyword_iff.mpr h]
  rfl

theorem identifier_ok {name : String} (h : cursor.kind 0 = .identifier name) :
    identifier cursor = .ok name cursor.advanced := by
  rw [identifier, bind_of_ok (kind_run 0 cursor), h]
  rfl

theorem name_ok {text : String} (h : cursor.name? 0 = some text) :
    name cursor = .ok text cursor.advanced := by
  rw [name, bind_of_ok (get_run cursor), h]
  rfl

theorem duration_ok {value : Duration} (h : cursor.kind 0 = .duration value) :
    duration cursor = .ok value cursor.advanced := by
  rw [duration, bind_of_ok (kind_run 0 cursor), h]
  rfl

theorem duration_completes {dialect : Dialect} {levels : Nat} :
    duration.Completes dialect levels (fun value => [.duration value]) (fun _ => True)
      (fun _ => True) := by
  refine .of_faces fun value cursor later hfaces _ _ => ?_
  obtain ⟨-, tokens, hpass, hspells⟩ := hfaces
  obtain ⟨token, rfl, htoken⟩ := spells_singleton.mp hspells
  rw [hpass.advanced_eq]
  exact duration_ok (hpass.kind_eq.trans htoken)

end Steps

section Combinations

variable {α : Type} {cursor mid : Cursor} {dialect : Dialect} {levels : Nat} {parser : Parse α}
  {written : α → List Piece} {valid : α → Prop} {follow : Cursor → Prop} {value : α}

theorem nested_ok (h : parser { cursor with levels := levels } = .ok value mid) :
    nested levels parser cursor = .ok value { mid with levels := levels + 1 } := by
  have hstart : (modify fun cursor : Cursor => { cursor with levels := levels } : Parse Unit) cursor =
      .ok () { cursor with levels := levels } := rfl
  rw [nested, bind_of_ok hstart, bind_of_ok h]
  rfl

/-- A parse one level down that reads back the pieces leaves the cursor on its own level behind
them. -/
theorem nested_of_faces {dialect : Dialect} {pieces : List Piece} {later : Cursor}
    (hfaces : cursor.Faces dialect (levels + 1) pieces later)
    (h : parser { cursor with levels := levels } = .ok value { later with levels := levels }) :
    nested levels parser cursor = .ok value later := by
  obtain ⟨hat, tokens, hpass, -⟩ := hfaces
  have hlevels : later.levels = levels + 1 := hpass.levels_eq.trans hat.levels_eq
  have hlater : { { later with levels := levels } with levels := levels + 1 } = later := by
    rw [← hlevels]
  rw [nested_ok h, hlater]

/-- What is read behind the token that stands here. -/
theorem advance_ok {β : Type} (make : α → β) (h : parser cursor.advanced = .ok value mid) :
    (advance >>= fun _ => parser >>= fun value => pure (make value)) cursor =
      .ok (make value) mid := by
  rw [bind_of_ok (advance_run cursor)]
  exact bind_pure_of_ok make h

theorem onlyIf_true {found : Parse Bool} {later : Cursor} (hfound : found cursor = .ok true mid)
    (hvalue : parser mid = .ok value later) :
    onlyIf found parser cursor = .ok (some value) later := by
  rw [onlyIf, bind_of_ok hfound]
  exact bind_pure_of_ok some hvalue

theorem onlyIf_false {found : Parse Bool} (hfound : found cursor = .ok false mid) :
    onlyIf found parser cursor = .ok none mid := by
  rw [onlyIf, bind_of_ok hfound]
  rfl

theorem Completes.mono {other : α → List Piece} {stronger : α → Prop} {ending : Cursor → Prop}
    (h : parser.Completes dialect levels written valid follow)
    (hwritten : ∀ value tokens, Spells (other value) tokens → Spells (written value) tokens)
    (hvalid : ∀ value, stronger value → valid value)
    (hfollow : ∀ cursor, ending cursor → follow cursor) :
    parser.Completes dialect levels other stronger ending :=
  fun value cursor tokens later hat hpass hspells hv hlater =>
    h value cursor tokens later hat hpass (hwritten value tokens hspells) (hvalid value hv)
      (hfollow later hlater)

/-- What is between delimiters is read back whatever follows them. -/
theorem Completes.within (delimiter : Delimiter)
    (h : parser.Completes dialect levels written valid follow)
    (hfollow : ∀ cursor : Cursor, cursor.kind 0 = .symbol (.closing delimiter) → follow cursor) :
    (within delimiter parser).Completes dialect levels
      (fun value => Piece.enclosed delimiter (written value)) valid (fun _ => True) := by
  intro value cursor tokens later hat hpass hspells hvalid _
  obtain ⟨opening, inner, closing, rfl, hopening, hinner, hclosing⟩ := spells_enclosed.mp hspells
  obtain ⟨mid, hfront, hback⟩ := hpass.split
  have hmid : mid.kind 0 = .symbol (.closing delimiter) := hback.kind_eq.trans hclosing
  have hentered := hfront.tail.withOpened ((delimiter, cursor.current.span) :: cursor.opened)
  have hat' : (cursor.entered delimiter).At dialect levels := by
    have htail := hat.passes (Passes.advanced hfront.1)
    exact ⟨htail.genuine, htail.levels_eq⟩
  rw [within_ok (h value _ inner _ hat' hentered hinner hvalid (hfollow _ hmid)) hmid]
  have hopened : later.opened = cursor.opened := hpass.opened_eq
  rw [advanced_withOpened, ← hback.advanced_eq]
  show EStateM.Result.ok value { later with opened := cursor.opened } = _
  rw [← hopened]

/-- A loop reads back its rounds, one value each. The induction is on the rounds that are left. -/
theorem repeatUpTo_completes {item? : Parse (Option α)} {stop : Cursor → Prop}
    (hitem : ∀ (value : α) (cursor later : Cursor),
      cursor.Faces dialect levels (written value) later → valid value → follow later →
        item? cursor = .ok (some value) later)
    (hne : ∀ value : α, ¬ Spells (written value) [])
    (hstart : ∀ (value : α) (cursor later : Cursor),
      cursor.Faces dialect levels (written value) later → follow cursor)
    (hstop : ∀ cursor : Cursor, stop cursor → item? cursor = .ok none cursor ∧ follow cursor)
    {rounds : Nat} {values : List α} {later : Cursor}
    (hfaces : cursor.Faces dialect levels (values.flatMap written) later)
    (hvalid : ∀ v ∈ values, valid v) (hlater : stop later)
    (hrounds : cursor.ahead.length ≤ later.ahead.length + rounds) :
    Walk.repeatUpTo item? rounds cursor = .ok values later := by
  induction rounds generalizing cursor values with
  | zero =>
    cases values with
    | nil =>
      obtain rfl := hfaces.eq_of_nil
      rfl
    | cons v values =>
      obtain ⟨mid, hfirst, hmore⟩ := hfaces.split
      have hpast := hfirst.length_lt (hne v)
      have hrest := hmore.length_le
      omega
  | succ rounds ih =>
    cases values with
    | nil =>
      obtain rfl := hfaces.eq_of_nil
      rw [Walk.repeatUpTo, bind_of_ok (hstop _ hlater).1]
      rfl
    | cons v values =>
      obtain ⟨mid, hfirst, hmore⟩ := hfaces.split
      have hpast := hfirst.length_lt (hne v)
      have hmid : follow mid := by
        cases values with
        | nil =>
          obtain rfl := hmore.eq_of_nil
          exact (hstop _ hlater).2
        | cons w values =>
          obtain ⟨_, hnext, -⟩ := hmore.split
          exact hstart w _ _ hnext
      have hrest := ih hmore (fun w hw => hvalid w (List.mem_cons_of_mem v hw)) (by omega)
      rw [Walk.repeatUpTo, bind_of_ok (hitem v _ _ hfirst (hvalid v (by simp)) hmid)]
      exact bind_pure_of_ok (fun values => v :: values) hrest

theorem repeated_none {item? : Parse (Option α)} (h : item? cursor = .ok none cursor) :
    Walk.repeated item? cursor = .ok [] cursor := by
  rw [Walk.repeated, bind_of_ok (get_run cursor)]
  cases cursor.ahead.length with
  | zero => rfl
  | succ rounds =>
    rw [Walk.repeatUpTo, bind_of_ok h]
    rfl

/-- A loop reads back one value each round, until none begins. -/
theorem repeated_completes {item? : Parse (Option α)} (follow : Cursor → Prop)
    {stop : Cursor → Prop}
    (hitem : ∀ (value : α) (cursor later : Cursor),
      cursor.Faces dialect levels (written value) later → valid value → follow later →
        item? cursor = .ok (some value) later)
    (hne : ∀ value : α, ¬ Spells (written value) [])
    (hstart : ∀ (value : α) (cursor later : Cursor),
      cursor.Faces dialect levels (written value) later → follow cursor)
    (hstop : ∀ cursor : Cursor, stop cursor → item? cursor = .ok none cursor ∧ follow cursor) :
    Completes dialect levels (Walk.repeated item?) (fun values => values.flatMap written)
      (fun values => ∀ v ∈ values, valid v) stop := by
  refine .of_faces fun values cursor later hfaces hvalid hlater => ?_
  rw [Walk.repeated, bind_of_ok (get_run cursor)]
  exact repeatUpTo_completes hitem hne hstart hstop hfaces hvalid hlater (Nat.le_add_left _ _)

/-- Something behind a keyword is read back, or left out where the keyword does not stand. -/
theorem Completes.onlyIf_eatKeyword {k : Keyword} {ending : Cursor → Prop}
    (hspelling : k.spellings = [[.keyword k]])
    (h : parser.Completes dialect levels written valid follow)
    (hending : ∀ cursor : Cursor, ending cursor → follow cursor ∧ cursor.kind 0 ≠ .keyword k) :
    (onlyIf (eatKeyword k) parser).Completes dialect levels
      (fun value => value.elim [] fun v => Piece.after k (written v))
      (fun value => ∀ v ∈ value, valid v) ending := by
  refine .of_faces fun value cursor later hfaces hvalid hlater => ?_
  cases value with
  | none =>
    obtain rfl := hfaces.eq_of_nil
    exact onlyIf_false (eatKeyword_false (hending _ hlater).2)
  | some v =>
    obtain ⟨hkind, hinner⟩ := hfaces.after hspelling
    exact onlyIf_true (eatKeyword_true hkind) (h.run hinner (hvalid v rfl) (hending _ hlater).1)

/-- Something behind a symbol is read back, or left out where the symbol does not stand. -/
theorem Completes.onlyIf_eatSymbol {s : Symbol} {ending : Cursor → Prop}
    (h : parser.Completes dialect levels written valid follow)
    (hending : ∀ cursor : Cursor, ending cursor → follow cursor ∧ cursor.kind 0 ≠ .symbol s) :
    (onlyIf (eatSymbol s) parser).Completes dialect levels
      (fun value => value.elim [] fun v => .symbol s :: written v)
      (fun value => ∀ v ∈ value, valid v) ending := by
  refine .of_faces fun value cursor later hfaces hvalid hlater => ?_
  cases value with
  | none =>
    obtain rfl := hfaces.eq_of_nil
    exact onlyIf_false (eatSymbol_false (hending _ hlater).2)
  | some v =>
    obtain ⟨hkind, hinner⟩ := hfaces.symbol
    exact onlyIf_true (eatSymbol_true hkind) (h.run hinner (hvalid v rfl) (hending _ hlater).1)

/-- A list is read back where each of its items is, in front of a comma as well as at the end. -/
theorem Completes.commaList (stop : Cursor → Prop)
    (h : parser.Completes dialect levels written valid follow)
    (hcomma : ∀ cursor : Cursor, cursor.kind 0 = .symbol .comma → follow cursor)
    (hstop : ∀ cursor : Cursor, stop cursor → follow cursor ∧ cursor.kind 0 ≠ .symbol .comma) :
    (commaList parser).Completes dialect levels
      (fun values => Piece.commaList (values.map written))
      (fun values => values ≠ [] ∧ ∀ v ∈ values, valid v) stop := by
  have hmore : Completes dialect levels (Walk.repeated (onlyIf (eatSymbol .comma) parser))
      (fun values => values.flatMap fun v => .symbol .comma :: .space :: written v)
      (fun values => ∀ v ∈ values, valid v) stop := by
    refine repeated_completes follow ?_ (by simp) ?_ ?_
    · intro v cursor later hfaces hv hlater
      obtain ⟨hkind, hitem⟩ := hfaces.symbol
      exact onlyIf_true (eatSymbol_true hkind) (h.run hitem.space hv hlater)
    · intro v cursor later hfaces
      exact hcomma cursor hfaces.symbol.1
    · intro cursor hcursor
      exact ⟨onlyIf_false (eatSymbol_false (hstop cursor hcursor).2), (hstop cursor hcursor).1⟩
  refine .of_faces fun values cursor later hfaces hvalid hlater => ?_
  obtain ⟨hne, hvalid⟩ := hvalid
  obtain ⟨first, more, rfl⟩ := List.exists_cons_of_ne_nil hne
  rw [commaList_map_cons] at hfaces
  obtain ⟨mid, hfirst, hrest⟩ := hfaces.split
  have hmid : follow mid := by
    cases more with
    | nil =>
      obtain rfl := hrest.eq_of_nil
      exact (hstop _ hlater).1
    | cons w more => exact hcomma mid hrest.symbol.1
  have hlast := hmore.run hrest (fun w hw => hvalid w (List.mem_cons_of_mem first hw)) hlater
  rw [Parse.commaList, bind_of_ok (h.run hfirst (hvalid first (by simp)) hmid)]
  exact bind_pure_of_ok (fun values => first :: values) hlast

/-- A list begins with an item. -/
theorem exists_first {values : List α} {later : Cursor}
    (h : Parse.commaList parser cursor = .ok values later) :
    ∃ value mid, parser cursor = .ok value mid := by
  cases hfirst : parser cursor with
  | ok value mid => exact ⟨value, mid, rfl⟩
  | error error mid =>
    rw [Parse.commaList, bind_of_error hfirst] at h
    cases h

/-- A delimited list is read back if none of its items begins like the end of the list. -/
theorem Completes.delimitedList (delimiter : Delimiter)
    (h : parser.Completes dialect levels written valid follow)
    (hbegins : ∀ (cursor later : Cursor) (value : α), parser cursor = .ok value later →
      cursor.kind 0 ≠ .symbol (.closing delimiter))
    (hcomma : ∀ cursor : Cursor, cursor.kind 0 = .symbol .comma → follow cursor)
    (hclosing : ∀ cursor : Cursor, cursor.kind 0 = .symbol (.closing delimiter) →
      follow cursor) :
    (delimitedList delimiter parser).Completes dialect levels
      (fun values => Piece.enclosed delimiter (Piece.commaList (values.map written)))
      (fun values => ∀ v ∈ values, valid v) (fun _ => True) := by
  have hlist := h.commaList (fun cursor => cursor.kind 0 = .symbol (.closing delimiter)) hcomma
    (fun cursor hcursor => ⟨hclosing cursor hcursor, by simp [hcursor]⟩)
  have hinner : Completes dialect levels
      (do if ← atSymbol (.closing delimiter) then return [] else Parse.commaList parser)
      (fun values => Piece.commaList (values.map written)) (fun values => ∀ v ∈ values, valid v)
      (fun cursor => cursor.kind 0 = .symbol (.closing delimiter)) := by
    refine .of_faces fun values cursor later hfaces hvalid hlater => ?_
    rw [bind_of_ok (atSymbol_run _ cursor)]
    cases values with
    | nil =>
      obtain rfl := hfaces.eq_of_nil
      rw [atSymbol_iff.mpr hlater]
      rfl
    | cons first more =>
      have hrun := hlist.run hfaces ⟨List.cons_ne_nil first more, hvalid⟩ hlater
      have hkind : cursor.kind 0 ≠ .symbol (.closing delimiter) := by
        obtain ⟨value, mid, hfirst⟩ := exists_first hrun
        exact hbegins cursor mid value hfirst
      rw [Bool.eq_false_iff.mpr (mt atSymbol_iff.mp hkind)]
      exact hrun
  exact hinner.within delimiter fun _ => id

end Combinations
end Parse
end EdgeQuery
