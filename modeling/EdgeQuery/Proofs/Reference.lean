import EdgeQuery.Proofs.Parse.Complete
import EdgeQuery.Reference.Parse

/-!
References are read as they are written. Every name that begins a reference is free in the dialect;
those behind a dot or a colon may be any. A reference is read back where neither a name that goes
on with it nor an arrow follows.
-/

namespace EdgeQuery

open Cursor Parse Walk

namespace Identifier

/-- A name, or a record: what a chain of segments is made of. -/
def IsSegment : Identifier → Prop
  | .raw _ | .record _ => True
  | _ => False

/-- An identifier that can be read where a reference begins. -/
def Valid (dialect : Dialect) : Identifier → Prop
  | .raw name => dialect.IsFree name
  | .dotted names => ∃ first second more, names = first :: second :: more ∧ dialect.IsFree first
  | .record id => dialect.IsFree id.table
  | .variable _ => False

/-- A chain of two segments or more, in which a record stands. -/
def IsPath (dialect : Dialect) (segments : List Identifier) : Prop :=
  ∃ first second more, segments = first :: second :: more ∧ first.Valid dialect ∧
    (∀ segment ∈ segments, segment.IsSegment) ∧ segments.all isRaw = false

end Identifier

def EdgePath.Valid (dialect : Dialect) (path : EdgePath) : Prop :=
  path.first.Valid dialect ∧ ∀ target ∈ path.second, target.Valid dialect

def FieldReference.Valid (dialect : Dialect) : FieldReference → Prop
  | .identifier id => id.Valid dialect
  | .path segments => Identifier.IsPath dialect segments
  | .edge origin hops => (∀ id ∈ origin, id.Valid dialect) ∧ hops.Valid dialect

section Strict

variable {dialect : Dialect}

theorem Identifier.Valid.strict {id : Identifier} (h : id.Valid dialect) : id.Valid .strict := by
  cases id with
  | raw name => exact Dialect.IsFree.strict h
  | record id => exact Dialect.IsFree.strict h
  | dotted names =>
    obtain ⟨first, second, more, hnames, hfree⟩ := h
    exact ⟨first, second, more, hnames, hfree.strict⟩
  | «variable» name => exact h

theorem Identifier.IsPath.strict {segments : List Identifier}
    (h : Identifier.IsPath dialect segments) : Identifier.IsPath .strict segments := by
  obtain ⟨first, second, more, hsegments, hfirst, hall⟩ := h
  exact ⟨first, second, more, hsegments, hfirst.strict, hall⟩

theorem EdgePath.Valid.strict {path : EdgePath} (h : path.Valid dialect) : path.Valid .strict :=
  ⟨h.1.strict, fun target hmem => (h.2 target hmem).strict⟩

theorem FieldReference.Valid.strict {target : FieldReference} (h : target.Valid dialect) :
    target.Valid .strict := by
  cases target with
  | identifier id => exact Identifier.Valid.strict h
  | path segments => exact Identifier.IsPath.strict h
  | edge origin path => exact ⟨fun id hmem => (h.1 id hmem).strict, h.2.strict⟩

end Strict

section Sound

variable {dialect : Dialect} {levels : Nat} {cursor : Cursor}

theorem peek_advanced (cursor : Cursor) (n : Nat) : cursor.advanced.peek n = cursor.peek (n + 1) := by
  rcases cursor with ⟨ahead⟩
  cases ahead <;> simp [advanced, peek]

/-- The token that a record key is read from is what the key can be written as. -/
theorem RecordKey.spelledBy_of_ofToken? {token : Token} {key : RecordKey}
    (h : RecordKey.ofToken? token = some key) :
    key.piece.SpelledBy [token] ∧ IsFlat token.kind ∧ token.kind ≠ .endOfInput := by
  unfold RecordKey.ofToken? at h
  split at h
  · next value hkind =>
    obtain rfl := Option.some.inj h
    exact ⟨⟨token, rfl, hkind⟩, isFlat_of_symbol? (by rw [hkind]; rfl), by simp [hkind]⟩
  · next content hkind =>
    obtain rfl := Option.some.inj h
    exact ⟨⟨token, rfl, hkind⟩, isFlat_of_symbol? (by rw [hkind]; rfl), by simp [hkind]⟩
  · next name hkind =>
    obtain rfl := Option.some.inj h
    exact ⟨⟨token, rfl, hkind⟩, isFlat_of_symbol? (by rw [hkind]; rfl), by simp [hkind]⟩
  · obtain ⟨name, hname, rfl⟩ := Option.map_eq_some_iff.mp h
    exact ⟨⟨token, rfl, hname⟩, isFlat_of_name? hname⟩

theorem RecordKey.parse?_sound :
    RecordKey.parse?.Sound dialect levels
      (fun key => key.elim [] fun k => [.symbol .colon, k.piece]) (fun _ => True) := by
  have hcolon : IsFlat (.symbol .colon) := isFlat_symbol (by simp) (by simp)
  intro cursor hat
  refine .look (get_run cursor) ?_
  split
  · next hkind =>
    have hkind := atSymbol_iff.mp hkind
    split
    · next key hkey =>
      obtain ⟨hspelled, hflat, hend⟩ := RecordKey.spelledBy_of_ofToken? hkey
      refine (advance_reads (by simp [hkind]) (hkind ▸ hcolon)).bind ?_
      rintro _ _ mid hpass ⟨rfl, rfl⟩
      rw [← peek_advanced] at hspelled hflat hend
      refine (advance_reads hend hflat).bind ?_
      rintro _ _ later - ⟨rfl, -⟩
      refine .pure ⟨?_, trivial⟩
      exact spells_symbol.mpr ⟨cursor.current, _, rfl, hkind, spells_singleton.mpr hspelled⟩
    · exact .pure ⟨rfl, trivial⟩
  · exact .pure ⟨rfl, trivial⟩

theorem nextName?_sound :
    nextName?.Sound dialect levels
      (fun name => name.elim [] fun n => [.symbol .dot, .word n])
      (fun name => ∀ n ∈ name, isName n) := by
  have hdot : IsFlat (.symbol .dot) := isFlat_symbol (by simp) (by simp)
  intro cursor hat
  refine .look (get_run cursor) ?_
  split
  · next hchain =>
    rw [atChainDot, Bool.and_eq_true] at hchain
    have hkind := atSymbol_iff.mp hchain.1
    refine (advance_reads (by simp [hkind]) (hkind ▸ hdot)).bind ?_
    rintro _ _ mid hpass ⟨rfl, -⟩
    refine (name_reads (hat.passes hpass)).bind ?_
    rintro name _ later - ⟨token, rfl, hname, hisName⟩
    refine .pure ⟨?_, by simpa using hisName⟩
    refine spells_symbol.mpr ⟨cursor.current, [token], rfl, hkind, ?_⟩
    exact spells_singleton.mpr ⟨token, rfl, hname⟩
  · exact .pure ⟨rfl, by simp⟩

namespace Identifier

theorem pieces_ofNames (first : String) (more : List String) :
    (ofNames first more).pieces =
      .word first :: more.flatMap fun name => [.symbol .dot, .word name] := by
  unfold ofNames
  split
  · next hempty => rw [List.isEmpty_iff.mp hempty]; rfl
  · rw [pieces, List.map_cons, Piece.dotted_cons, List.flatMap_map]
    rfl

theorem ofNames_valid {first : String} (h : dialect.IsFree first) (more : List String) :
    (ofNames first more).Valid dialect := by
  unfold ofNames
  cases more with
  | nil => exact h
  | cons second more => exact ⟨first, second, more, rfl, h⟩

theorem parse_sound : parse.Sound dialect levels pieces (Valid dialect) := by
  intro cursor hat
  refine (identifier_reads hat).bind ?_
  rintro name _ mid hpass ⟨token, rfl, hkind, hfree⟩
  have hname : token.name? = some name := by rw [Token.name?, hkind]
  have hat := hat.passes hpass
  refine (RecordKey.parse?_sound mid hat).bind ?_
  rintro key tokens mid' hpass ⟨hkey, -⟩
  cases key with
  | some key =>
    refine .pure ⟨?_, hfree⟩
    rw [List.append_nil]
    exact spells_word.mpr ⟨token, tokens, rfl, hname, hkey⟩
  | none =>
    obtain rfl : tokens = [] := hkey
    refine (Sound.repeated nextName?_sound mid' (hat.passes hpass)).bind ?_
    rintro more tokens later - ⟨hmore, -⟩
    refine .pure ⟨?_, ofNames_valid hfree more⟩
    rw [pieces_ofNames, List.append_nil]
    exact spells_word.mpr ⟨token, tokens, rfl, hname, hmore⟩

theorem parseKey_reads (name : String) (hat : cursor.At dialect levels) :
    (parseKey name).Reads cursor fun segment tokens _ =>
      (∃ key, segment.pieces = .word name :: key ∧ Spells key tokens) ∧ segment.IsSegment ∧
        (dialect.IsFree name → segment.Valid dialect) := by
  refine (RecordKey.parse?_sound cursor hat).bind ?_
  rintro key tokens mid hpass ⟨hkey, -⟩
  cases key with
  | some key =>
    refine .pure ⟨⟨[.symbol .colon, key.piece], rfl, ?_⟩, trivial, id⟩
    rw [List.append_nil]
    exact hkey
  | none => exact .pure ⟨⟨[], rfl, by rw [List.append_nil]; exact hkey⟩, trivial, id⟩

theorem nextSegment?_sound :
    nextSegment?.Sound dialect levels
      (fun segment => segment.elim [] fun s => .symbol .dot :: s.pieces)
      (fun segment => ∀ s ∈ segment, s.IsSegment) := by
  intro cursor hat
  refine (nextName?_sound cursor hat).bind ?_
  rintro name tokens mid hpass ⟨hname, -⟩
  cases name with
  | none =>
    obtain rfl : tokens = [] := hname
    exact .pure ⟨rfl, by simp⟩
  | some name =>
    obtain ⟨dot, back, rfl, hdot, hback⟩ := spells_symbol.mp hname
    obtain ⟨token, rfl, htoken⟩ := spells_singleton.mp hback
    refine (parseKey_reads name (hat.passes hpass)).bind ?_
    rintro segment more later - ⟨⟨key, hpieces, hkey⟩, hsegment, -⟩
    refine .pure ⟨?_, by simpa using hsegment⟩
    show Spells (.symbol .dot :: segment.pieces) _
    rw [hpieces, List.append_nil, spells_symbol]
    exact ⟨dot, token :: more, rfl, hdot, spells_word.mpr ⟨token, more, rfl, htoken, hkey⟩⟩

theorem parseNaming_sound :
    parseNaming.Sound dialect levels (fun name => name.elim [] fun id => Piece.after .AS id.pieces)
      (fun name => ∀ id ∈ name, id.Valid dialect) :=
  parse_sound.onlyIf_eatKeyword rfl

end Identifier

theorem EdgePath.pieces_mk (direction : Direction) (first : Identifier)
    (second : Option Identifier) :
    EdgePath.pieces ⟨direction, first, second⟩ = .symbol (.arrow direction) ::
      (first.pieces ++ second.elim [] fun id => .symbol (.arrow direction) :: id.pieces) := by
  cases second <;> rfl

theorem EdgePath.parse_reads {direction : Direction} (hat : cursor.At dialect levels)
    (hkind : cursor.kind 0 = .symbol (.arrow direction)) :
    (EdgePath.parse direction).Reads cursor fun path tokens _ =>
      Spells path.pieces tokens ∧ path.Valid dialect := by
  have harrow : IsFlat (.symbol (.arrow direction)) := isFlat_symbol (by simp) (by simp)
  refine (advance_reads (by simp [hkind]) (hkind ▸ harrow)).bind ?_
  rintro _ _ mid hpass ⟨rfl, -⟩
  have hat := hat.passes hpass
  refine (Identifier.parse_sound mid hat).bind ?_
  rintro first tokens mid' hpass ⟨hfirst, hvalid⟩
  have hat := hat.passes hpass
  refine (Identifier.parse_sound.onlyIf_eatSymbol harrow mid' hat).bind ?_
  rintro second tokens' later hpass ⟨hsecond, hvalids⟩
  refine .look (get_run later) ?_
  split
  · exact .expected _
  · refine .pure ⟨?_, hvalid, hvalids⟩
    rw [EdgePath.pieces_mk, List.append_nil]
    exact spells_symbol.mpr ⟨cursor.current, tokens ++ tokens', rfl, hkind, hfirst.append hsecond⟩

namespace Identifier

theorem eq_raw_of_isRaw {segment : Identifier} (h : segment.isRaw = true) :
    ∃ name, segment = .raw name := by
  cases segment with
  | raw name => exact ⟨name, rfl⟩
  | _ => cases h

theorem filterMap_rawName? {segments : List Identifier} (h : segments.all isRaw = true) :
    (segments.filterMap rawName?).map (fun name => Identifier.raw name) = segments := by
  induction segments with
  | nil => rfl
  | cons segment segments ih =>
    rw [List.all_cons, Bool.and_eq_true] at h
    obtain ⟨name, rfl⟩ := eq_raw_of_isRaw h.1
    exact congrArg (_ :: ·) (ih h.2)

/-- The pieces of a chain, which are those of its segments with dots between them. -/
def chainPieces (segments : List Identifier) : List Piece :=
  Piece.dotted (segments.map pieces)

theorem chainPieces_cons (first : Identifier) (more : List Identifier) :
    chainPieces (first :: more) =
      first.pieces ++ more.flatMap fun segment => .symbol .dot :: segment.pieces := by
  rw [chainPieces, List.map_cons, Piece.dotted_cons, List.flatMap_map]
  rfl

/-- The identifier that a chain makes up is written as the chain. -/
theorem ofSegments?_some {first : Identifier} {more : List Identifier} {origin : Identifier}
    (h : ofSegments? first more = some origin) (hvalid : first.Valid dialect) :
    origin.pieces = chainPieces (first :: more) ∧ origin.Valid dialect := by
  unfold ofSegments? at h
  split at h
  · next hempty =>
    obtain rfl := Option.some.inj h
    rw [List.isEmpty_iff.mp hempty, chainPieces_cons, List.flatMap_nil, List.append_nil]
    exact ⟨rfl, hvalid⟩
  · next hmore =>
    split at h
    · next hall =>
      obtain rfl := Option.some.inj h
      have hnames := filterMap_rawName? hall
      refine ⟨?_, ?_⟩
      · show Piece.dotted _ = _
        conv_rhs => rw [chainPieces, ← hnames, List.map_map]
        rfl
      · cases more with
        | nil => exact absurd rfl hmore
        | cons second more =>
          simp only [List.all_cons, Bool.and_eq_true] at hall
          obtain ⟨name, rfl⟩ := eq_raw_of_isRaw hall.1
          obtain ⟨name', rfl⟩ := eq_raw_of_isRaw hall.2.1
          exact ⟨name, name', more.filterMap rawName?, rfl, hvalid⟩
    · cases h

theorem ofSegments?_none {first : Identifier} {more : List Identifier}
    (h : ofSegments? first more = none) :
    ∃ second later, more = second :: later ∧ (first :: more).all isRaw = false := by
  unfold ofSegments? at h
  split at h
  · cases h
  · next hmore =>
    split at h
    · cases h
    · next hall =>
      cases more with
      | nil => exact absurd rfl hmore
      | cons second later => exact ⟨second, later, rfl, Bool.eq_false_iff.mpr hall⟩

end Identifier

namespace FieldReference

theorem parseChain_sound : parseChain.Sound dialect levels pieces (Valid dialect) := by
  intro cursor hat
  refine (identifier_reads hat).bind ?_
  rintro name _ mid hpass ⟨token, rfl, hkind, hfree⟩
  have hname : token.name? = some name := by rw [Token.name?, hkind]
  have hat := hat.passes hpass
  refine (Identifier.parseKey_reads name hat).bind ?_
  rintro first tokens mid' hpass ⟨⟨key, hpieces, hkey⟩, hsegment, hvalid⟩
  have hat := hat.passes hpass
  refine (Sound.repeated Identifier.nextSegment?_sound mid' hat).bind ?_
  rintro more tokens' mid'' hpass ⟨hmore, hsegments⟩
  have hat := hat.passes hpass
  have hvalid := hvalid hfree
  have hchain : Spells (Identifier.chainPieces (first :: more)) (token :: (tokens ++ tokens')) := by
    rw [Identifier.chainPieces_cons, hpieces, List.cons_append, spells_word]
    exact ⟨token, _, rfl, hname, hkey.append hmore⟩
  cases hsegments' : Identifier.ofSegments? first more with
  | none =>
    obtain ⟨second, more, rfl, hall⟩ := Identifier.ofSegments?_none hsegments'
    refine .pure ⟨?_, first, second, more, rfl, hvalid, ?_, hall⟩
    · rw [List.append_nil]
      exact hchain
    · intro segment hmem
      rcases List.mem_cons.mp hmem with rfl | hmem
      · exact hsegment
      · exact hsegments segment hmem
  | some origin =>
    obtain ⟨hwritten, horigin⟩ := Identifier.ofSegments?_some hsegments' hvalid
    rw [← hwritten] at hchain
    refine .look (get_run mid'') ?_
    split
    · next direction harrow =>
      have hkind : mid''.kind 0 = .symbol (.arrow direction) := by
        unfold arrow? at harrow
        split at harrow
        · next hkind => rw [hkind, Option.some.inj harrow]
        · cases harrow
      refine (EdgePath.parse_reads hat hkind).bind ?_
      rintro path tokens'' later - ⟨hpath, hvalidPath⟩
      refine .pure ⟨?_, by simpa using horigin, hvalidPath⟩
      have hall : Spells (FieldReference.edge (some origin) path).pieces
          (token :: (tokens ++ tokens') ++ tokens'') := hchain.append hpath
      rw [List.append_nil]
      simpa using hall
    · refine .pure ⟨?_, horigin⟩
      rw [List.append_nil]
      exact hchain

theorem parse_sound : parse.Sound dialect levels pieces (Valid dialect) := by
  intro cursor hat
  refine .look (kind_run 0 cursor) ?_
  split
  · next direction hkind =>
    refine (EdgePath.parse_reads hat hkind).bind ?_
    rintro path tokens later - ⟨hpath, hvalid⟩
    refine .pure ⟨?_, by simp, hvalid⟩
    rw [List.append_nil]
    exact hpath
  · exact parseChain_sound cursor hat
  · exact .expected _

end FieldReference
end Sound

namespace Cursor

/-- No name here goes on with the one before it. -/
def EndsName (cursor : Cursor) : Prop :=
  cursor.atChainDot = false ∧ cursor.kind 0 ≠ .symbol .colon

/-- Nothing here goes on with the reference before it. -/
def EndsReference (cursor : Cursor) : Prop :=
  cursor.EndsName ∧ cursor.arrow? = none

theorem atChainDot_eq_false {cursor : Cursor} (h : cursor.kind 0 ≠ .symbol .dot) :
    cursor.atChainDot = false := by
  rw [atChainDot, Bool.eq_false_iff.mpr (mt atSymbol_iff.mp h), Bool.false_and]

theorem EndsName.of_kind {cursor : Cursor} (hdot : cursor.kind 0 ≠ .symbol .dot)
    (hcolon : cursor.kind 0 ≠ .symbol .colon) : cursor.EndsName :=
  ⟨atChainDot_eq_false hdot, hcolon⟩

theorem arrow?_eq_some {cursor : Cursor} {direction : Direction} :
    cursor.arrow? = some direction ↔ cursor.kind 0 = .symbol (.arrow direction) := by
  unfold arrow?
  constructor
  · intro h
    split at h
    · next hkind => rw [hkind, Option.some.inj h]
    · cases h
  · intro h
    rw [h]

theorem EndsName.of_arrow {cursor : Cursor} {direction : Direction}
    (h : cursor.kind 0 = .symbol (.arrow direction)) : cursor.EndsName :=
  .of_kind (by simp [h]) (by simp [h])

end Cursor

section Complete

variable {dialect : Dialect} {levels : Nat} {cursor later : Cursor}

theorem kind_of_free {token : Token} {name : String} (hgenuine : token.Genuine dialect)
    (hname : token.name? = some name) (hfree : dialect.IsFree name) :
    token.kind = .identifier name := by
  rw [hgenuine.kind_of_name? hname, Dialect.wordKind, hfree.2]

namespace Cursor.Faces

variable {name : String} {more : List Piece}

theorem word (h : cursor.Faces dialect levels (.word name :: more) later) :
    cursor.name? 0 = some name ∧ cursor.advanced.Faces dialect levels more later := by
  obtain ⟨hname, -, hmore⟩ := h.step fun _ => spells_word.mp
  exact ⟨hname, hmore⟩

/-- A name that is free is written as an identifier. -/
theorem free (h : cursor.Faces dialect levels (.word name :: more) later)
    (hfree : dialect.IsFree name) :
    cursor.kind 0 = .identifier name ∧ cursor.advanced.Faces dialect levels more later := by
  obtain ⟨hname, hgenuine, hmore⟩ := h.step fun _ => spells_word.mp
  exact ⟨kind_of_free hgenuine hname hfree, hmore⟩

end Cursor.Faces

theorem RecordKey.ofToken?_of_spelledBy {token : Token} {key : RecordKey}
    (h : key.piece.SpelledBy [token]) : RecordKey.ofToken? token = some key := by
  cases key with
  | raw name =>
    obtain ⟨_, heq, hname⟩ := h
    obtain rfl := List.singleton_inj.mp heq
    unfold Token.name? at hname
    unfold RecordKey.ofToken? Token.name?
    split at hname <;> simp_all
  | number value =>
    obtain ⟨_, heq, hkind⟩ := h
    obtain rfl := List.singleton_inj.mp heq
    rw [RecordKey.ofToken?, hkind]
  | string content =>
    obtain ⟨_, heq, hkind⟩ := h
    obtain rfl := List.singleton_inj.mp heq
    rw [RecordKey.ofToken?, hkind]
  | «variable» name =>
    obtain ⟨_, heq, hkind⟩ := h
    obtain rfl := List.singleton_inj.mp heq
    rw [RecordKey.ofToken?, hkind]

theorem RecordKey.parse?_none (h : cursor.kind 0 ≠ .symbol .colon) :
    RecordKey.parse? cursor = .ok none cursor := by
  rw [RecordKey.parse?, bind_of_ok (get_run cursor),
    Bool.eq_false_iff.mpr (mt atSymbol_iff.mp h)]
  rfl

theorem RecordKey.parse?_some {key : RecordKey} {tokens : List Token}
    (hpass : cursor.Passes tokens later) (hspells : Spells [.symbol .colon, key.piece] tokens) :
    RecordKey.parse? cursor = .ok (some key) later := by
  obtain ⟨colon, back, rfl, hcolon, hback⟩ := spells_symbol.mp hspells
  have hkey := spells_singleton.mp hback
  obtain ⟨token, rfl⟩ : ∃ token, back = [token] := by
    cases key <;> exact ⟨hkey.choose, hkey.choose_spec.1⟩
  have hpeek : cursor.peek 1 = token := by
    rw [← peek_advanced]
    exact hpass.tail.current_eq
  rw [RecordKey.parse?, bind_of_ok (get_run cursor), atSymbol_iff.mpr (hpass.kind_eq.trans hcolon),
    hpeek, RecordKey.ofToken?_of_spelledBy hkey, hpass.tail.advanced_eq]
  rfl

theorem nextName?_none (h : cursor.atChainDot = false) :
    nextName? cursor = .ok none cursor := by
  rw [nextName?, bind_of_ok (get_run cursor), h]
  rfl

theorem nextName?_some {name : String} {dot token : Token} (hpass : cursor.Passes [dot, token] later)
    (hdot : dot.kind = .symbol .dot) (hname : token.name? = some name) :
    nextName? cursor = .ok (some name) later := by
  have hnext : cursor.name? 1 = some name := by
    have hpeek : cursor.peek 1 = token := by
      rw [← peek_advanced]
      exact hpass.tail.current_eq
    rw [Cursor.name?, hpeek, hname]
  have hchain : cursor.atChainDot = true := by
    rw [atChainDot, atSymbol_iff.mpr (hpass.kind_eq.trans hdot), hnext]
    rfl
  have hhere : cursor.advanced.name? 0 = some name := by
    rw [Cursor.name?, peek_advanced]
    exact hnext
  rw [nextName?, bind_of_ok (get_run cursor), hchain]
  show (advance >>= fun _ => Parse.name >>= fun text => pure (some text)) cursor = _
  rw [bind_of_ok (advance_run cursor), bind_of_ok (name_ok hhere), hpass.tail.advanced_eq]
  rfl

/-- Names behind dots are read back up to where no further one follows. -/
theorem nextNames_complete :
    Completes dialect levels (repeated nextName?)
      (fun names => names.flatMap fun name => [.symbol .dot, .word name]) (fun _ => True)
      (fun later => later.atChainDot = false) := by
  have hnames : Completes dialect levels (repeated nextName?)
      (fun names => names.flatMap fun name => [.symbol .dot, .word name])
      (fun names => ∀ name ∈ names, True) (fun later => later.atChainDot = false) := by
    refine repeated_completes (fun _ => True) ?_ (by simp) (fun _ _ _ _ => trivial) ?_
    · rintro name cursor later ⟨-, tokens, hpass, hspells⟩ _ _
      obtain ⟨dot, back, rfl, hdot, hback⟩ := spells_symbol.mp hspells
      obtain ⟨token, rfl, hname⟩ := spells_singleton.mp hback
      exact nextName?_some hpass hdot hname
    · intro cursor hcursor
      exact ⟨nextName?_none hcursor, trivial⟩
  exact hnames.mono (fun _ _ => id) (fun _ _ _ _ => trivial) (fun _ => id)

namespace Identifier

theorem parse_completes : parse.Completes dialect levels pieces (Valid dialect) EndsName := by
  refine .of_faces fun id cursor later hfaces hvalid hlater => ?_
  -- A name is an identifier token where it is free, and then the rest of the identifier is read.
  have hnames (first : String) (more : List String) (hid : id = ofNames first more)
      (hfree : dialect.IsFree first) : parse cursor = .ok id later := by
    rw [hid, pieces_ofNames] at hfaces
    obtain ⟨hkind, hmore⟩ := hfaces.free hfree
    have hcolon : cursor.advanced.kind 0 ≠ .symbol .colon := by
      cases more with
      | nil =>
        rw [← hmore.eq_of_nil]
        exact hlater.2
      | cons second more => simp [hmore.symbol.1]
    rw [parse, bind_of_ok (identifier_ok hkind), bind_of_ok (RecordKey.parse?_none hcolon)]
    show (repeated nextName? >>= fun more => pure (ofNames first more)) cursor.advanced = _
    rw [bind_of_ok (nextNames_complete.run hmore trivial hlater.1), hid]
    rfl
  cases id with
  | raw name => exact hnames name [] rfl hvalid
  | dotted names =>
    obtain ⟨first, second, more, rfl, hfree⟩ := hvalid
    exact hnames first (second :: more) rfl hfree
  | record id =>
    obtain ⟨hkind, -, tokens, hpass, hspells⟩ := hfaces.free hvalid
    rw [parse, bind_of_ok (identifier_ok hkind), bind_of_ok (RecordKey.parse?_some hpass hspells)]
    rfl
  | «variable» name => exact hvalid.elim

/-- An identifier begins with a token for one. -/
theorem parse_starts {id : Identifier} (h : parse cursor = .ok id later) :
    ∃ name, cursor.kind 0 = .identifier name := by
  rw [parse, Parse.identifier] at h
  cases hkind : cursor.kind 0 with
  | identifier name => exact ⟨name, rfl⟩
  | _ =>
    have hfails : Parse.identifier cursor = .error (cursor.fault [.identifier]) cursor := by
      rw [Parse.identifier, bind_of_ok (kind_run 0 cursor), hkind]
      rfl
    cases (bind_of_error hfails).symm.trans h

theorem parseNaming_completes :
    parseNaming.Completes dialect levels
      (fun name => name.elim [] fun id => Piece.after .AS id.pieces)
      (fun name => ∀ id ∈ name, id.Valid dialect)
      (fun later => later.EndsName ∧ later.kind 0 ≠ .keyword .AS) :=
  parse_completes.onlyIf_eatKeyword rfl fun _ => id

/-- The key of a segment, if it has one, is read back behind the segment's name. -/
theorem parseKey_complete {name : String} {segment : Identifier} {key : List Piece}
    (hsegment : segment.IsSegment) (hpieces : segment.pieces = .word name :: key)
    (hfaces : cursor.Faces dialect levels key later) (hlater : later.kind 0 ≠ .symbol .colon) :
    parseKey name cursor = .ok segment later := by
  cases segment with
  | raw other =>
    obtain ⟨hname, rfl⟩ := List.cons.inj hpieces
    obtain rfl := Piece.word.inj hname
    obtain rfl := hfaces.eq_of_nil
    rw [parseKey, bind_of_ok (RecordKey.parse?_none hlater)]
    rfl
  | record id =>
    obtain ⟨hname, rfl⟩ := List.cons.inj hpieces
    obtain rfl := Piece.word.inj hname
    obtain ⟨-, tokens, hpass, hspells⟩ := hfaces
    rw [parseKey, bind_of_ok (RecordKey.parse?_some hpass hspells)]
    rfl
  | dotted names => exact hsegment.elim
  | «variable» other => exact hsegment.elim

theorem exists_pieces_of_isSegment {segment : Identifier} (dialect : Dialect)
    (h : segment.IsSegment) :
    ∃ name key, segment.pieces = .word name :: key ∧
      (segment.Valid dialect → dialect.IsFree name) := by
  cases segment with
  | raw name => exact ⟨name, [], rfl, id⟩
  | record id => exact ⟨id.table, [.symbol .colon, id.key.piece], rfl, fun h => h⟩
  | dotted names => exact h.elim
  | «variable» name => exact h.elim

/-- Segments behind dots are read back up to where no further one follows. -/
theorem nextSegments_complete :
    Completes dialect levels (repeated nextSegment?)
      (fun segments => segments.flatMap fun segment => .symbol .dot :: segment.pieces)
      (fun segments => ∀ segment ∈ segments, segment.IsSegment) EndsName := by
  refine repeated_completes (fun later => later.kind 0 ≠ .symbol .colon) ?_ (by simp) ?_ ?_
  · intro segment cursor later hfaces hsegment hlater
    obtain ⟨name, key, hpieces, -⟩ := exists_pieces_of_isSegment dialect hsegment
    have hfaces : cursor.Faces dialect levels ([.symbol .dot, .word name] ++ key) later := by
      rw [hpieces] at hfaces
      exact hfaces
    obtain ⟨mid, ⟨-, tokens, hpass, hspells⟩, hkey⟩ := hfaces.split
    obtain ⟨dot, back, rfl, hdot, hback⟩ := spells_symbol.mp hspells
    obtain ⟨token, rfl, hname⟩ := spells_singleton.mp hback
    rw [nextSegment?, bind_of_ok (nextName?_some hpass hdot hname)]
    exact bind_pure_of_ok some (parseKey_complete hsegment hpieces hkey hlater)
  · intro segment cursor later hfaces
    simp [hfaces.symbol.1]
  · intro cursor hcursor
    refine ⟨?_, hcursor.2⟩
    rw [nextSegment?, bind_of_ok (nextName?_none hcursor.1)]
    rfl

end Identifier

theorem EdgePath.parse_completes (direction : Direction) :
    (EdgePath.parse direction).Completes dialect levels EdgePath.pieces
      (fun path => path.Valid dialect ∧ path.direction = direction) EndsReference := by
  refine .of_faces fun path cursor later hfaces hpath hlater => ?_
  obtain ⟨⟨hfirst, hsecond⟩, hdirection⟩ := hpath
  obtain ⟨other, first, second⟩ := path
  obtain rfl : other = direction := hdirection
  rw [EdgePath.pieces_mk] at hfaces
  obtain ⟨-, hhops⟩ := hfaces.symbol
  obtain ⟨mid, hfront, hback⟩ := hhops.split
  -- The second hop is there exactly where an arrow stands behind the first.
  have hmid : mid.EndsName := by
    cases second with
    | none =>
      obtain rfl := hback.eq_of_nil
      exact hlater.1
    | some target => exact .of_arrow hback.symbol.1
  have hnext : (onlyIf (eatSymbol (.arrow other)) Identifier.parse).Completes dialect levels _ _
      EndsReference :=
    Identifier.parse_completes.onlyIf_eatSymbol fun cursor hcursor => by
      refine ⟨hcursor.1, fun hkind => ?_⟩
      rw [← arrow?_eq_some, hcursor.2] at hkind
      cases hkind
  rw [EdgePath.parse, bind_of_ok (advance_run cursor),
    bind_of_ok (Identifier.parse_completes.run hfront hfirst hmid),
    bind_of_ok (hnext.run hback hsecond hlater), bind_of_ok (get_run later), hlater.2]
  rfl

namespace FieldReference

/-- The segments of a chain are read back one by one. -/
theorem segments_complete {first : Identifier} {more : List Identifier}
    (hfaces : cursor.Faces dialect levels (Identifier.chainPieces (first :: more)) later)
    (hvalid : first.Valid dialect)
    (hsegments : ∀ segment ∈ first :: more, segment.IsSegment) (hlater : later.EndsName) :
    ∃ name mid, cursor.kind 0 = .identifier name ∧
      Identifier.parseKey name cursor.advanced = .ok first mid ∧
      repeated Identifier.nextSegment? mid = .ok more later := by
  have hfirst := hsegments first (by simp)
  obtain ⟨name, key, hpieces, hfree⟩ :=
    Identifier.exists_pieces_of_isSegment dialect hfirst
  rw [Identifier.chainPieces_cons, hpieces, List.cons_append] at hfaces
  obtain ⟨hkind, hbehind⟩ := hfaces.free (hfree hvalid)
  obtain ⟨mid, hkey, hmore⟩ := hbehind.split
  have hmid : mid.kind 0 ≠ .symbol .colon := by
    cases more with
    | nil =>
      obtain rfl := hmore.eq_of_nil
      exact hlater.2
    | cons second more => simp [hmore.symbol.1]
  exact ⟨name, mid, hkind, Identifier.parseKey_complete hfirst hpieces hkey hmid,
    Identifier.nextSegments_complete.run hmore
      (fun segment hmem => hsegments segment (List.mem_cons_of_mem first hmem)) hlater⟩

theorem ofSegments?_raw (first second : String) (more : List String) :
    Identifier.ofSegments? (.raw first) ((second :: more).map fun name => .raw name) =
      some (.dotted (first :: second :: more)) := by
  have hnames (names : List String) :
      (names.map fun name => Identifier.raw name).all Identifier.isRaw = true ∧
        (names.map fun name => Identifier.raw name).filterMap Identifier.rawName? = names := by
    induction names with
    | nil => exact ⟨rfl, rfl⟩
    | cons name names ih => exact ⟨ih.1, congrArg (name :: ·) ih.2⟩
  obtain ⟨hall, hback⟩ := hnames (first :: second :: more)
  rw [List.map_cons] at hall hback
  rw [Identifier.ofSegments?, hall, hback]
  rfl

/-- An identifier is a chain of segments that make it up. -/
theorem exists_segments {id : Identifier} (h : id.Valid dialect) :
    ∃ first more, Identifier.ofSegments? first more = some id ∧ first.Valid dialect ∧
      ∀ segment ∈ first :: more, segment.IsSegment := by
  cases id with
  | raw name => exact ⟨.raw name, [], rfl, h, by simp [Identifier.IsSegment]⟩
  | record id => exact ⟨.record id, [], rfl, h, by simp [Identifier.IsSegment]⟩
  | «variable» name => exact h.elim
  | dotted names =>
    obtain ⟨first, second, more, rfl, hfree⟩ := h
    refine ⟨.raw first, _, ofSegments?_raw first second more, hfree, ?_⟩
    intro segment hmem
    rw [← List.map_cons (f := fun name => Identifier.raw name)] at hmem
    obtain ⟨name, -, rfl⟩ := List.mem_map.mp hmem
    trivial

theorem parse_of_identifier {name : String} (h : cursor.kind 0 = .identifier name) :
    parse cursor = parseChain cursor := by
  rw [parse, bind_of_ok (kind_run 0 cursor), h]

/-- An identifier is read back, with the edge path behind it if an arrow stands there. -/
theorem parse_origin {origin : Identifier}
    (hfaces : cursor.Faces dialect levels origin.pieces later) (hvalid : origin.Valid dialect)
    (hlater : later.EndsName) :
    parse cursor = match later.arrow? with
      | some direction =>
        (EdgePath.parse direction >>= fun path => pure (.edge (some origin) path)) later
      | none => .ok (.identifier origin) later := by
  obtain ⟨first, more, hsome, hfirst, hall⟩ := exists_segments hvalid
  rw [(Identifier.ofSegments?_some hsome hfirst).1] at hfaces
  obtain ⟨name, mid, hname, hkey, hmore⟩ := segments_complete hfaces hfirst hall hlater
  rw [parse_of_identifier hname, parseChain, bind_of_ok (identifier_ok hname), bind_of_ok hkey,
    bind_of_ok hmore, hsome]
  dsimp only
  rw [bind_of_ok (get_run later)]
  cases later.arrow? <;> rfl

theorem parse_completes : parse.Completes dialect levels pieces (Valid dialect) EndsReference := by
  refine .of_faces fun target cursor later hfaces hvalid hlater => ?_
  cases target with
  | identifier id => rw [parse_origin hfaces hvalid hlater.1, hlater.2]
  | path segments =>
    obtain ⟨first, second, more, rfl, hfirst, hall, hraw⟩ := hvalid
    obtain ⟨name, mid, hname, hkey, hmore⟩ := segments_complete hfaces hfirst hall hlater.1
    have hnone : Identifier.ofSegments? first (second :: more) = none := by
      rw [Identifier.ofSegments?, hraw]
      rfl
    rw [parse_of_identifier hname, parseChain, bind_of_ok (identifier_ok hname), bind_of_ok hkey,
      bind_of_ok hmore, hnone]
    rfl
  | edge origin path =>
    obtain ⟨horigin, hpath⟩ := hvalid
    have hrun {mid : Cursor} (hfaces : mid.Faces dialect levels path.pieces later) :=
      (EdgePath.parse_completes path.direction).run hfaces ⟨hpath, rfl⟩ hlater
    cases origin with
    | none =>
      have hfaces : cursor.Faces dialect levels path.pieces later := hfaces
      rw [parse, bind_of_ok (kind_run 0 cursor), hfaces.symbol.1]
      exact bind_pure_of_ok (edge none) (hrun hfaces)
    | some id =>
      obtain ⟨mid, hfront, hback⟩ := hfaces.split
      have hkind := hback.symbol.1
      rw [parse_origin hfront (horigin id rfl) (.of_arrow hkind), arrow?_eq_some.mpr hkind]
      dsimp only
      rw [bind_of_ok (hrun hback)]
      rfl

/-- A reference begins with an arrow or an identifier. Where the identifier is followed by two
colons, nothing more belongs to the reference. -/
theorem parse_starts {target : FieldReference} (h : parse cursor = .ok target later) :
    (∃ direction, cursor.kind 0 = .symbol (.arrow direction)) ∨
      ∃ name, cursor.kind 0 = .identifier name ∧
        (cursor.kind 1 = .symbol .doubleColon → later.kind 0 = .symbol .doubleColon) := by
  have hrun := h
  rw [parse, bind_of_ok (kind_run 0 cursor)] at h
  cases hkind : cursor.kind 0 with
  | identifier name =>
    refine .inr ⟨name, rfl, ?_⟩
    intro hcolons
    have hnext : cursor.advanced.kind 0 = .symbol .doubleColon := by
      rw [Cursor.kind, peek_advanced]
      exact hcolons
    have hnone : Identifier.nextSegment? cursor.advanced = .ok none cursor.advanced := by
      rw [Identifier.nextSegment?,
        bind_of_ok (nextName?_none (atChainDot_eq_false (by simp [hnext])))]
      rfl
    have hkey : Identifier.parseKey name cursor.advanced = .ok (.raw name) cursor.advanced := by
      rw [Identifier.parseKey, bind_of_ok (RecordKey.parse?_none (by simp [hnext]))]
      rfl
    have harrow : cursor.advanced.arrow? = none := by rw [arrow?, hnext]
    rw [parse_of_identifier hkind, parseChain, bind_of_ok (identifier_ok hkind), bind_of_ok hkey,
      bind_of_ok (repeated_none hnone)] at hrun
    dsimp only [Identifier.ofSegments?] at hrun
    rw [if_pos (by rfl)] at hrun
    dsimp only at hrun
    rw [bind_of_ok (get_run _), harrow] at hrun
    cases hrun
    exact hnext
  | symbol s =>
    rw [hkind] at h
    cases s with
    | arrow direction => exact .inl ⟨direction, rfl⟩
    | _ => cases h
  | _ =>
    rw [hkind] at h
    cases h

end FieldReference
end Complete
end EdgeQuery
