import EdgeQuery.Proofs.Expr.Sound
import EdgeQuery.Proofs.Parse.Prompt

/-!
References and expressions are given up at the first token that cannot stand where it stands. A name
and a number complete whatever has been begun: a key lacks its value, an operator its right operand,
a list its closing bracket, and none of them lacks more than that.
-/

namespace EdgeQuery

open Cursor Parse Walk

/-- A name that is free in every dialect. -/
theorem Dialect.isFree_a (dialect : Dialect) : dialect.IsFree "a" := by
  cases dialect <;> exact ⟨by decide, by decide⟩

section References

variable {dialect : Dialect} {levels : Nat} {cursor : Cursor}

theorem RecordKey.parse?_total : Total RecordKey.parse? := by
  intro cursor
  rw [RecordKey.parse?, bind_of_ok (get_run cursor)]
  split
  · cases RecordKey.ofToken? (cursor.peek 1) <;> exact ⟨_, _, rfl⟩
  · exact ⟨_, _, rfl⟩

/-- The name behind a dot has been seen before the dot is read. -/
theorem nextName?_total : Total nextName? := by
  intro cursor
  rw [nextName?, bind_of_ok (get_run cursor)]
  split
  · next hchain =>
    rw [atChainDot, Bool.and_eq_true] at hchain
    obtain ⟨name, hname⟩ := Option.isSome_iff_exists.mp hchain.2
    have hnext : cursor.advanced.name? 0 = some name := by
      rw [Cursor.name?, peek_advanced]
      exact hname
    have hread : Parse.name cursor.advanced = .ok name cursor.advanced.advanced := by
      rw [Parse.name, bind_of_ok (get_run _), hnext]
      rfl
    exact ⟨_, _, bind_pure_of_ok some hread⟩
  · exact ⟨_, _, rfl⟩

theorem Identifier.parseKey_total (name : String) : Total (Identifier.parseKey name) :=
  RecordKey.parse?_total.bind fun key => by cases key <;> exact .pure _

theorem Identifier.nextSegment?_total : Total Identifier.nextSegment? := by
  refine nextName?_total.bind fun name => ?_
  cases name with
  | none => exact .pure none
  | some name => exact (Identifier.parseKey_total name).bind fun segment => .pure (some segment)

theorem Identifier.parse_prompt :
    Identifier.parse.Prompt dialect levels Identifier.pieces (fun _ id => id.Valid dialect) := by
  intro cursor hat
  refine .bind (identifier_reads hat) (identifier_stops ?_) ?_
  · exact .ending [.word "a"] (by decide) fun more hmore =>
      ⟨levels + 1, .raw "a", Nat.lt_succ_self levels, dialect.isFree_a, hmore⟩
  · intro name tokens mid _ _
    refine Total.stops (RecordKey.parse?_total.bind fun key => ?_)
    cases key with
    | some key => exact .pure _
    | none => exact nextName?_total.repeated.bind fun names => .pure _

theorem EdgePath.parse_stops {direction : Direction} (hat : cursor.At dialect levels)
    (hkind : cursor.kind 0 = .symbol (.arrow direction)) :
    (EdgePath.parse direction).Stops dialect cursor
      (Spelled levels EdgePath.pieces (fun _ path => path.Valid dialect)) := by
  have harrow : IsFlat (.symbol (.arrow direction)) := isFlat_symbol (by simp) (by simp)
  have hpieces {first : Identifier} (second : Option Identifier) {tokens more : List Token}
      (hfirst : Spells first.pieces tokens)
      (hsecond : Spells (second.elim [] fun id => .symbol (.arrow direction) :: id.pieces) more) :
      Spells (EdgePath.pieces ⟨direction, first, second⟩) (cursor.current :: (tokens ++ more)) := by
    rw [EdgePath.pieces_mk]
    exact spells_symbol.mpr ⟨cursor.current, _, rfl, hkind, hfirst.append hsecond⟩
  refine .advance (by simp [hkind]) (hkind ▸ harrow) fun mid hpass => ?_
  have hat := hat.passes hpass
  refine .bind (Identifier.parse_sound mid hat) ((Identifier.parse_prompt mid hat).mono ?_) ?_
  · rintro tokens ⟨room, first, hlevels, hfirst, hspells⟩
    have hall := hpieces none hspells rfl
    rw [List.append_nil] at hall
    exact .whole ⟨room, ⟨direction, first, none⟩, hlevels, ⟨hfirst, by simp⟩, hall⟩
  rintro first tokens mid' hpass ⟨hfirst, hvalid⟩
  have hat := hat.passes hpass
  refine .bind (Identifier.parse_sound.onlyIf_eatSymbol harrow mid' hat)
    (.onlyIf_eatSymbol harrow fun hagain last hlast => ?_) ?_
  · refine (Identifier.parse_prompt last (hat.passes hlast)).mono ?_
    rintro more ⟨room, second, hlevels, hsecond, hspells⟩
    exact .whole ⟨room, ⟨direction, first, some second⟩, hlevels, ⟨hvalid, by simpa using hsecond⟩,
      hpieces (some second) hfirst (spells_symbol.mpr ⟨mid'.current, more, rfl, hagain, hspells⟩)⟩
  rintro second more later - ⟨hsecond, hvalids⟩
  refine .look (get_run later) ?_
  split
  · refine .expected_described rfl (.whole ?_)
    rw [List.append_nil]
    exact ⟨levels + 1, ⟨direction, first, second⟩, Nat.lt_succ_self levels, ⟨hvalid, hvalids⟩,
      hpieces second hfirst hsecond⟩
  · exact .pure

namespace FieldReference

theorem parseChain_prompt :
    parseChain.Prompt dialect levels pieces (fun _ target => target.Valid dialect) := by
  intro cursor hat
  refine .bind (identifier_reads hat) (identifier_stops ?_) ?_
  · exact .ending [.word "a"] (by decide) fun more hmore =>
      ⟨levels + 1, .identifier (.raw "a"), Nat.lt_succ_self levels, dialect.isFree_a, hmore⟩
  rintro name _ mid hpass ⟨token, rfl, hkind, hfree⟩
  have hname : token.name? = some name := by rw [Token.name?, hkind]
  have hat := hat.passes hpass
  refine .bind (Identifier.parseKey_reads name hat) (Identifier.parseKey_total name).stops ?_
  rintro first tokens mid' hpass ⟨⟨key, hpieces, hkey⟩, -, hvalid⟩
  have hat := hat.passes hpass
  refine .bind (Sound.repeated Identifier.nextSegment?_sound mid' hat)
    Identifier.nextSegment?_total.repeated.stops ?_
  rintro more tokens' mid'' hpass ⟨hmore, -⟩
  have hat := hat.passes hpass
  cases hsegments : Identifier.ofSegments? first more with
  | none => exact .pure
  | some origin =>
    refine .look (get_run mid'') ?_
    split
    · next direction harrow =>
      obtain ⟨hwritten, horigin⟩ := Identifier.ofSegments?_some hsegments (hvalid hfree)
      have hchain : Spells origin.pieces (token :: (tokens ++ tokens')) := by
        rw [hwritten, Identifier.chainPieces_cons, hpieces, List.cons_append, spells_word]
        exact ⟨token, _, rfl, hname, hkey.append hmore⟩
      refine .wrapped _ ((EdgePath.parse_stops hat (arrow?_eq_some.mp harrow)).mono ?_)
      rintro tokens'' ⟨room, path, hlevels, hpath, hspells⟩
      refine .whole ⟨room, .edge (some origin) path, hlevels, ⟨by simpa using horigin, hpath⟩, ?_⟩
      have hall := hchain.append hspells
      rw [List.cons_append, List.append_assoc] at hall
      exact hall
    · exact .pure

theorem parse_prompt :
    FieldReference.parse.Prompt dialect levels pieces (fun _ target => target.Valid dialect) := by
  intro cursor hat
  refine .look (kind_run 0 cursor) ?_
  split
  · next direction hkind =>
    refine .wrapped _ ((EdgePath.parse_stops hat hkind).mono ?_)
    rintro tokens ⟨room, path, hlevels, hpath, hspells⟩
    exact .whole ⟨room, .edge none path, hlevels, ⟨by simp, hpath⟩, hspells⟩
  · exact parseChain_prompt cursor hat
  · -- A name may stand here, or an arrow with a name behind it.
    have hedge (direction : Direction) (token : Token)
        (htoken : token.kind = .symbol (.arrow direction)) :
        Opens dialect (Spelled levels pieces fun _ target => target.Valid dialect) [token] := by
      refine .ending [.word "a"] (by decide) fun more hmore => ?_
      refine ⟨levels + 1, .edge none ⟨direction, .raw "a", none⟩, Nat.lt_succ_self levels,
        ⟨by simp, dialect.isFree_a, by simp⟩, ?_⟩
      exact spells_symbol.mpr ⟨token, more, rfl, htoken, hmore⟩
    refine .expected ?_ ?_
    · exact .ending [.word "a"] (by decide) fun more hmore =>
        ⟨levels + 1, .identifier (.raw "a"), Nat.lt_succ_self levels, dialect.isFree_a, hmore⟩
    · intro choice hmem token hkind
      simp only [List.mem_cons, List.not_mem_nil, or_false] at hmem
      rcases hmem with rfl | rfl | rfl
      · cases hkind
      · exact hedge .out token (Option.some.inj hkind).symm
      · exact hedge .into token (Option.some.inj hkind).symm

end FieldReference
end References

theorem ObjectKey.parse_prompt {dialect : Dialect} {levels : Nat} :
    ObjectKey.parse.Prompt dialect levels ObjectKey.pieces (fun _ key => key.Valid) := by
  intro cursor hat
  refine .look (kind_run 0 cursor) ?_
  split
  · exact .of_ok rfl
  · refine .look (get_run cursor) ?_
    split
    · refine .expected_described rfl (.ending [.word "a"] (by decide) fun more hmore => ?_)
      exact ⟨levels + 1, .raw "a", Nat.lt_succ_self levels, trivial, hmore⟩
    · next name _ =>
      have hrest : Total (Parse.advance >>= fun _ => repeated nextName? >>= fun more =>
          pure (if more.isEmpty then ObjectKey.raw name else .dotted (name :: more))) :=
        Total.bind (fun cursor => ⟨_, _, rfl⟩) fun _ =>
          nextName?_total.repeated.bind fun more => .pure _
      exact hrest.stops

namespace Expr

variable {dialect : Dialect} {levels : Nat}

/-- An expression that completes what lacks one. -/
def zero : Expr :=
  .literal (.number 0)

theorem zero_fits {room : Nat} (h : levels < room) : zero.Fits dialect room := by
  obtain ⟨below, rfl⟩ := Nat.exists_eq_succ_of_ne_zero (Nat.ne_zero_of_lt h)
  exact .of_children trivial trivial (List.forall_mem_nil _)

section Parts

variable {expression : Parse Expr} {cursor : Cursor}
  (hsound : expression.Sound dialect levels pieces (Fits dialect levels))
  (h : expression.Prompt dialect levels pieces fun room e => e.Fits dialect room)

/-- What is read with the levels that are left can be read with more. -/
theorem fits_room (e : Expr) (room : Nat) (he : e.Fits dialect levels) (hlevels : levels < room) :
    e.Fits dialect room :=
  he.mono (Nat.le_of_lt hlevels)

include hsound h

omit hsound in
theorem parseEntry_prompt :
    (parseEntry expression).Prompt dialect levels entryPiecesOf
      (fun room entry => entry.1.Valid ∧ entry.2.Fits dialect room) := by
  have hcolon : IsFlat (.symbol .colon) := isFlat_symbol (by simp) (by simp)
  intro cursor hat
  refine .bind (ObjectKey.parse_sound cursor hat) ((ObjectKey.parse_prompt cursor hat).mono ?_) ?_
  · rintro tokens ⟨room, key, hlevels, hkey, hspells⟩
    refine .ending [.symbol .colon, .space, .number 0] (by decide) fun more hmore => ?_
    exact ⟨room, (key, zero), hlevels, ⟨hkey, zero_fits hlevels⟩, hspells.append hmore⟩
  rintro key tokens mid hpass ⟨hkey, hvalid⟩
  have hat := hat.passes hpass
  refine .bind (symbol_reads hcolon mid) (symbol_stops fun colon hkind => ?_) ?_
  · refine .ending [.space, .number 0] (by decide) fun more hmore => ?_
    refine ⟨levels + 1, (key, zero), Nat.lt_succ_self levels,
      ⟨hvalid, zero_fits (Nat.lt_succ_self levels)⟩, ?_⟩
    exact hkey.append (spells_symbol.mpr ⟨colon, more, rfl, hkind, hmore⟩)
  rintro _ _ mid' hpass ⟨rfl, hkind⟩
  refine .wrapped _ ((h mid' (hat.passes hpass)).mono ?_)
  rintro more ⟨room, e, hlevels, hfits, hspells⟩
  refine .whole ⟨room, (key, e), hlevels, ⟨hvalid, hfits⟩, ?_⟩
  exact hkey.append (spells_symbol.mpr ⟨mid.current, more, rfl, hkind, spells_space.mpr hspells⟩)

theorem parseEntries_prompt :
    (parseEntries expression).Prompt dialect levels
      (fun entries => braced (entries.map entryPiecesOf))
      (fun room entries => ∀ entry ∈ entries, entry.1.Valid ∧ entry.2.Fits dialect room) := by
  intro cursor hat
  refine .look (atSymbol_run _ cursor) ?_
  split
  · next hkind =>
    refine (Prompt.delimitedList (parseEntry_sound hsound) (parseEntry_prompt h)
      (fun entry room hentry hlevels => ⟨hentry.1, fits_room _ room hentry.2 hlevels⟩) hat
      (atSymbol_iff.mp hkind)).mono ?_
    rintro tokens ⟨room, entries, hlevels, hfits, hspells⟩
    exact .whole ⟨room, entries, hlevels, hfits, spells_braced.mpr hspells⟩
  · refine .expected_one rfl fun token htoken => ?_
    refine .ending [.symbol (.closing .brace)] (by decide) fun more hmore => ?_
    refine ⟨levels + 1, [], Nat.lt_succ_self levels, List.forall_mem_nil _, ?_⟩
    exact spells_symbol.mpr ⟨token, more, rfl, htoken, hmore⟩

theorem parseItems_stops (hat : cursor.At dialect levels)
    (hkind : cursor.kind 0 = .symbol (.opening .bracket)) :
    (parseItems expression).Stops dialect cursor
      (Spelled levels (fun items => (Expr.array items).pieces)
        (fun room items => ∀ item ∈ items, item.Fits dialect room)) := by
  simp only [pieces_array]
  exact Prompt.delimitedList hsound h fits_room hat hkind

theorem parseArguments_stops (hat : cursor.At dialect levels)
    (hkind : cursor.kind 0 = .symbol (.opening .paren)) :
    (parseArguments expression).Stops dialect cursor
      (Spelled levels
        (fun args : List Expr => Piece.enclosed .paren (Piece.commaList (args.map pieces)))
        (fun room args => ∀ arg ∈ args, arg.Fits dialect room)) :=
  Prompt.delimitedList hsound h fits_room hat hkind

/-- What is completed to an operand of an expression that has a level more. -/
abbrev Operand (dialect : Dialect) (levels : Nat) : List Token → Prop :=
  Spelled levels pieces fun room e => e.IsPrimary ∧ e.Fits dialect (room + 1)

omit hsound h in
theorem Operand.of_children {room : Nat} {e : Expr} {tokens : List Token} (hlevels : levels < room)
    (hprimary : e.IsPrimary) (hnode : e.NodeValid dialect)
    (hchildren : ∀ child ∈ e.children, child.Fits dialect room) (hspells : Spells e.pieces tokens) :
    Operand dialect levels tokens :=
  ⟨room, e, hlevels, ⟨hprimary, .of_children hprimary hnode hchildren⟩, hspells⟩

/-- What can be read behind the name of a function of a namespace. -/
theorem callArguments_stops {space function : String} {front : List Token}
    (hat : cursor.At dialect levels)
    (hname : (⟨space, function, none⟩ : NamespaceCall Expr).Valid dialect)
    (hfront : ∀ (args : Option (List Expr)) tokens, Spells (args.elim [] fun args =>
        Piece.enclosed .paren (Piece.commaList (args.map pieces))) tokens →
      Spells (callPieces ⟨space, function, args⟩) (front ++ tokens)) :
    (onlyIf (atSymbol (.opening .paren)) (parseArguments expression) >>= fun args =>
      atSymbol (.opening .paren) >>= fun applied =>
        if applied then parseArguments expression >>= fun more =>
          pure (call (.namespaceCall ⟨space, function, args⟩) more)
        else pure (namespaceCall ⟨space, function, args⟩)).Stops dialect cursor
      fun tokens => Operand dialect levels (front ++ tokens) := by
  by_cases hopen : cursor.kind 0 = .symbol (.opening .paren)
  · refine .bind (ownArguments_reads hsound hat hopen) (.look (atSymbol_run _ cursor) ?_) ?_
    · rw [atSymbol_iff.mpr hopen]
      refine .wrapped some ((parseArguments_stops hsound h hat hopen).mono ?_)
      rintro tokens ⟨room, own, hlevels, hown, hspells⟩
      exact .whole (Operand.of_children (e := .namespaceCall ⟨space, function, some own⟩) hlevels
        trivial hname hown (hfront (some own) tokens hspells))
    rintro _ tokens later hpass ⟨own, rfl, hspells, hown⟩
    refine .look (atSymbol_run _ later) ?_
    split
    · next hagain =>
      refine .wrapped _ ((parseArguments_stops hsound h (hat.passes hpass)
        (atSymbol_iff.mp hagain)).mono ?_)
      rintro more ⟨room, args, hlevels, hargs, hmore⟩
      refine .whole (Operand.of_children
        (e := .call (.namespaceCall ⟨space, function, some own⟩) args) hlevels trivial
        ⟨hname, rfl⟩ ?_ ?_)
      · exact List.forall_mem_append.mpr
          ⟨fun arg hmem => fits_room arg room (hown arg hmem) hlevels, hargs⟩
      · rw [pieces_call, ← List.append_assoc]
        exact (hfront (some own) tokens hspells).append hmore
    · exact .pure
  · refine .look (noArguments_run hopen) (.look (atSymbol_run _ cursor) ?_)
    rw [Bool.eq_false_iff.mpr (mt atSymbol_iff.mp hopen)]
    exact .pure

theorem parseNamespaceCall_prompt (hat : cursor.At dialect levels) :
    (parseNamespaceCall expression).Stops dialect cursor (Operand dialect levels) := by
  have hcolon : IsFlat (.symbol .doubleColon) := isFlat_symbol (by simp) (by simp)
  refine .bind (identifier_reads hat) (identifier_stops ?_) ?_
  · exact .ending [.number 0] (by decide) fun more hmore =>
      ⟨levels + 1, zero, Nat.lt_succ_self levels,
        ⟨trivial, zero_fits (Nat.lt_succ_of_lt (Nat.lt_succ_self levels))⟩, hmore⟩
  rintro space _ mid hpass ⟨first, rfl, hfirst, hspace⟩
  have hat := hat.passes hpass
  -- The name of the function is missing, or the colons in front of it are as well.
  have hnamed {colons : Token} {more : List Token} (hcolons : colons.kind = .symbol .doubleColon)
      (hmore : Spells [.word "a"] more) : Operand dialect levels (first :: colons :: more) :=
    Operand.of_children (e := .namespaceCall ⟨space, "a", none⟩) (Nat.lt_succ_self levels) trivial
      ⟨hspace, dialect.isFree_a⟩ (List.forall_mem_nil _) (spells_callPieces hfirst hcolons hmore)
  refine .bind (symbol_reads hcolon mid) (symbol_stops fun colons hcolons => ?_) ?_
  · exact .ending [.word "a"] (by decide) fun more hmore => hnamed hcolons hmore
  rintro _ _ mid' hpass ⟨rfl, hcolons⟩
  have hat := hat.passes hpass
  refine .bind (identifier_reads hat) (identifier_stops ?_) ?_
  · exact .ending [.word "a"] (by decide) fun more hmore => hnamed hcolons hmore
  rintro function _ mid'' hpass ⟨last, rfl, hlast, hfunction⟩
  have hfront (args : Option (List Expr)) (tokens : List Token)
      (hspells : Spells (args.elim [] fun args =>
        Piece.enclosed .paren (Piece.commaList (args.map pieces))) tokens) :
      Spells (callPieces ⟨space, function, args⟩) ([first, mid.current, last] ++ tokens) :=
    spells_callPieces hfirst hcolons
      (spells_word.mpr ⟨last, tokens, rfl, by rw [Token.name?, hlast], hspells⟩)
  exact callArguments_stops hsound h (hat.passes hpass) ⟨hspace, hfunction⟩ hfront

theorem parseReference_prompt (hat : cursor.At dialect levels) :
    (parseReference expression).Stops dialect cursor (Operand dialect levels) := by
  refine .bind (FieldReference.parse_sound cursor hat)
    ((FieldReference.parse_prompt cursor hat).mono ?_) ?_
  · rintro tokens ⟨room, target, hlevels, hvalid, hspells⟩
    exact .whole (Operand.of_children (e := .reference target) hlevels trivial hvalid
      (List.forall_mem_nil _) hspells)
  rintro target tokens mid hpass ⟨htarget, hvalid⟩
  have hat := hat.passes hpass
  have hcall (callee : Callee Expr) (hspells : Spells (calleePieces callee) tokens)
      (hcallee : callee.Valid dialect) (hchildren : callee.children = [])
      (hkind : mid.kind 0 = .symbol (.opening .paren)) :
      (parseArguments expression >>= fun args => pure (call callee args)).Stops dialect mid
        fun more => Operand dialect levels (tokens ++ more) := by
    refine .wrapped _ ((parseArguments_stops hsound h hat hkind).mono ?_)
    rintro more ⟨room, args, hlevels, hargs, hmore⟩
    have hfits : ∀ child ∈ (Expr.call callee args).children, child.Fits dialect room := by
      rw [children, hchildren]
      exact hargs
    refine .whole ⟨room, .call callee args, hlevels,
      ⟨trivial, .of_children trivial hcallee hfits⟩, ?_⟩
    rw [pieces_call]
    exact hspells.append hmore
  refine .look (atSymbol_run _ mid) ?_
  split
  · next hkind =>
    have hkind := atSymbol_iff.mp hkind
    cases target with
    | identifier id => exact hcall (.identifier id) htarget hvalid rfl hkind
    | path segments => exact hcall (.path segments) htarget hvalid rfl hkind
    | edge origin path => exact .pure
  · exact .pure

theorem parseEnclosed_prompt {delimiter : Delimiter} (hat : cursor.At dialect levels)
    (hkind : cursor.kind 0 = .symbol (.opening delimiter)) :
    (parseEnclosed expression delimiter).Stops dialect cursor (Operand dialect levels) := by
  cases delimiter with
  | paren =>
    refine .wrapped paren (.within (Spelled levels pieces fun room e => e.Fits dialect room)
      hat hkind (fun mid hat => (hsound mid hat).mono ?_) h ?_)
    · rintro inner tokens later - ⟨hspells, hfits⟩
      exact ⟨levels + 1, inner, Nat.lt_succ_self levels, hfits.mono (Nat.le_succ levels), hspells⟩
    · rintro opening tokens closing hopening ⟨room, inner, hlevels, hfits, hspells⟩ hclosing
      refine .whole (Operand.of_children (e := .paren inner) hlevels trivial trivial
        (List.forall_mem_singleton.mpr hfits) ?_)
      exact spells_enclosed.mpr ⟨opening, tokens, closing, rfl, hopening, hspells, hclosing⟩
  | bracket =>
    refine .wrapped array ((parseItems_stops hsound h hat hkind).mono ?_)
    rintro tokens ⟨room, items, hlevels, hfits, hspells⟩
    exact .whole (Operand.of_children (e := .array items) hlevels trivial trivial hfits hspells)
  | brace =>
    refine .wrapped object ((parseEntries_prompt hsound h cursor hat).mono ?_)
    rintro tokens ⟨room, entries, hlevels, hentries, hspells⟩
    refine .whole (Operand.of_children (e := .object entries) hlevels trivial
      (fun entry hmem => (hentries entry hmem).1) ?_ ?_)
    · intro child hmem
      obtain ⟨entry, hentry, rfl⟩ := List.mem_map.mp hmem
      exact (hentries entry hentry).2
    · rwa [pieces_object]

theorem parsePrimary_prompt (hat : cursor.At dialect levels) :
    (parsePrimary expression).Stops dialect cursor (Operand dialect levels) := by
  refine .look (kind_run 0 cursor) ?_
  split
  · exact .of_ok rfl
  · exact .of_ok rfl
  · exact .of_ok rfl
  · exact .of_ok rfl
  · next delimiter hkind => exact parseEnclosed_prompt hsound h hat hkind
  · exact parseReference_prompt hsound h hat
  · refine .look (kind_run 1 cursor) ?_
    split
    · exact parseNamespaceCall_prompt hsound h hat
    · exact parseReference_prompt hsound h hat
  · refine .expected_described rfl (.ending [.number 0] (by decide) fun more hmore => ?_)
    exact ⟨levels + 1, zero, Nat.lt_succ_self levels,
      ⟨trivial, zero_fits (Nat.lt_succ_of_lt (Nat.lt_succ_self levels))⟩, hmore⟩

end Parts

/-- What a fault in an expression of ranked operators comes to. -/
def RankedPrompt (dialect : Dialect) (levels : Nat) : Prop :=
  ∀ (rank : Nat) (cursor : Cursor), cursor.At dialect levels →
    (parseRanked levels (2 * rank)).Stops dialect cursor fun tokens =>
      ∃ e : Expr, e.Valid dialect ∧ e.Binds rank ∧ Spells e.pieces tokens

/-- What a fault in the operators comes to behind an operand that the first of them does not
split. -/
def OperatorsPrompt (dialect : Dialect) (levels : Nat) : Prop :=
  ∀ (rank : Nat) (left : Expr) (front : List Token) (cursor : Cursor),
    cursor.At dialect levels → left.Valid dialect →
    (∀ op, BinaryOp.ofToken? (cursor.kind 0) = some op → left.Binds op.level.rank) →
    Spells left.pieces front →
    (parseOperators levels (2 * rank) left).Stops dialect cursor fun tokens =>
      ∃ e : Expr, e.Valid dialect ∧ e.Binds rank ∧ Spells e.pieces (front ++ tokens)

theorem prompt_of_ranked {levels : Nat} (h : RankedPrompt dialect levels) :
    (parseRanked levels 0).Prompt dialect levels pieces fun room e => e.Fits dialect room := by
  intro cursor hat
  refine (h 0 cursor hat).mono ?_
  rintro tokens ⟨e, hvalid, -, hspells⟩
  refine .whole ⟨max (levels + 1) e.levels, e, ?_, ⟨hvalid, Nat.le_max_right _ _⟩, hspells⟩
  exact Nat.le_max_left (levels + 1) e.levels

theorem ranked_prompt_succ {levels : Nat} (hranked : RankedPrompt dialect levels)
    (hoperators : OperatorsPrompt dialect levels) : RankedPrompt dialect (levels + 1) := by
  have hsound := parseRanked_zero_sound dialect levels
  intro rank cursor hat
  rw [parseRanked]
  have hat' : At dialect levels { cursor with levels := levels } := ⟨hat.genuine, rfl⟩
  refine .nested (.bind (parsePrimary_sound hsound _ hat')
    ((parsePrimary_prompt hsound (prompt_of_ranked hranked) hat').mono ?_) ?_)
  · rintro tokens ⟨room, e, -, ⟨hprimary, hfits⟩, hspells⟩
    exact .whole ⟨e, hfits.1, .of_isPrimary hprimary, hspells⟩
  · rintro left tokens mid hpass ⟨hspells, hprimary, hfits⟩
    exact hoperators rank left tokens mid (hat'.passes hpass) hfits.1
      (fun _ _ => .of_isPrimary hprimary) hspells

theorem operators_prompt_zero : OperatorsPrompt dialect 0 := by
  intro rank left front cursor hat hvalid hfirst hspells
  rw [parseOperators]
  rcases rank_cases rank cursor with hends | ⟨op, hop, hrank⟩
  · exact .look (operator?_none hends) .pure
  · have hbinds : left.Binds rank := Binds.mono (hfirst op hop) hrank
    exact .look (operator?_some hop hrank) (.tooDeep (.whole ⟨left, hvalid, hbinds, by
      rwa [List.append_nil]⟩))

theorem operators_prompt_succ {levels : Nat} (hranked : RankedPrompt dialect levels)
    (hoperators : OperatorsPrompt dialect levels) : OperatorsPrompt dialect (levels + 1) := by
  intro rank left front cursor hat hvalid hfirst hspells
  rw [parseOperators]
  rcases rank_cases rank cursor with hends | ⟨op, hop, hrank⟩
  · exact .look (operator?_none hends) .pure
  let inner : Cursor := { cursor with levels := levels }
  have hat' : inner.At dialect levels := ⟨hat.genuine, rfl⟩
  have hspelled : op.piece.SpelledBy [cursor.current] := BinaryOp.ofToken?_iff.mp hop
  obtain ⟨hflat, hend⟩ := BinaryOp.isFlat_of_ofToken? hop
  have hend : inner.kind 0 ≠ .endOfInput := hend
  have hleft := hfirst op hop
  -- The operator with any right operand that binds more tightly.
  have hwhole {right : Expr} {tokens : List Token} (hright : right.Valid dialect)
      (hbinds : right.Binds (op.level.rank + 1)) (hspells' : Spells right.pieces tokens) :
      (Expr.binary left op right).Valid dialect ∧
        Spells (Expr.binary left op right).pieces (front ++ (cursor.current :: tokens)) := by
    refine ⟨valid_binary.mpr ⟨⟨hleft, hbinds⟩, hvalid, hright⟩, ?_⟩
    rw [pieces_binary hleft hbinds]
    exact hspells.append (spells_space.mpr (Spells.cons hspelled (spells_space.mpr hspells')))
  refine .look (operator?_some hop hrank) (.nested (.advance hend hflat fun mid hpass => ?_))
  have hat'' := hat'.passes hpass
  refine .bind ((ranked_and_operators_sound dialect levels).1 (op.level.rank + 1) mid hat'')
    ((hranked (op.level.rank + 1) mid hat'').mono ?_) ?_
  · rintro tokens ⟨right, hright, hbinds, hspells'⟩
    obtain ⟨hbinary, hall⟩ := hwhole hright hbinds hspells'
    exact .whole ⟨.binary left op right, hbinary, hrank, hall⟩
  rintro right tokens mid' hpass' ⟨hright, hfits, hbinds, hends⟩
  obtain ⟨hbinary, hall⟩ := hwhole hfits.1 hbinds hright
  -- What follows the right operand binds no more tightly than the operator before it.
  have hnext (later : BinaryOp) (hlater : BinaryOp.ofToken? (mid'.kind 0) = some later) :
      (Expr.binary left op right).Binds later.level.rank :=
    Nat.le_of_lt_succ (hends later hlater)
  have hstops := hoperators rank (.binary left op right) _ mid' (hat''.passes hpass') hbinary hnext
    hall
  simp only [List.append_assoc, List.cons_append] at hstops
  exact hstops

theorem ranked_and_operators_prompt (dialect : Dialect) (levels : Nat) :
    RankedPrompt dialect levels ∧ OperatorsPrompt dialect levels := by
  induction levels with
  | zero =>
    refine ⟨fun rank cursor hat => ?_, operators_prompt_zero⟩
    rw [parseRanked]
    refine .tooDeep (.ending [.number 0] (by decide) fun more hmore => ?_)
    exact ⟨zero, (zero_fits Nat.zero_lt_one).1, .of_isPrimary trivial, hmore⟩
  | succ levels ih =>
    exact ⟨ranked_prompt_succ ih.1 ih.2, operators_prompt_succ ih.1 ih.2⟩

/-- Expressions are given up at the first token that cannot stand where it stands. -/
theorem parseRanked_zero_prompt (dialect : Dialect) (levels : Nat) :
    (parseRanked levels 0).Prompt dialect levels pieces fun room e => e.Fits dialect room :=
  prompt_of_ranked (ranked_and_operators_prompt dialect levels).1

end Expr
end EdgeQuery
