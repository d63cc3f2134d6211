import EdgeQuery.Proofs.Token.Place

/-!
The parts of a text. The scanner cuts a text into blanks, comments and the texts of tokens: joined,
these tiles are the text again, and the tokens and comments handed out are those of the tiles, each
at the place where its tile stands.
-/

namespace EdgeQuery

/-- A part of a text: a blank, a comment, or what was read as a token. -/
inductive Tile
  | blank (c : Char)
  | comment (chars : List Char)
  | token (kind : TokenKind) (chars : List Char)

namespace Tile

def chars : Tile → List Char
  | blank c => [c]
  | comment chars | token _ chars => chars

/-- The text that the tiles make up. -/
def joined (tiles : List Tile) : List Char :=
  tiles.flatMap chars

/-- The tiles with their places when the first one begins at the offset. -/
def placed : Nat → List Tile → List (Tile × Span)
  | _, [] => []
  | offset, tile :: tiles =>
    let stop := offset + width tile.chars
    (tile, ⟨offset, stop⟩) :: placed stop tiles

def token? : Tile × Span → Option Token
  | (token kind chars, span) => some ⟨kind, String.ofList chars, span⟩
  | _ => none

def comment? : Tile × Span → Option Comment
  | (comment chars, span) => some ⟨String.ofList chars, span⟩
  | _ => none

def tokens (offset : Nat) (tiles : List Tile) : List Token :=
  (placed offset tiles).filterMap token?

def comments (offset : Nat) (tiles : List Tile) : List Comment :=
  (placed offset tiles).filterMap comment?

/-- Whether the tile is one that the dialect cuts a text into. An open comment has no token that it
could be read as again: it takes all that is left of the text. -/
def Genuine (dialect : Dialect) : Tile → Prop
  | blank c => Text.isBlank c
  | comment chars => IsComment chars
  | token kind chars =>
    (∃ rest, Lexeme.Fronts dialect kind chars rest) ∨
      kind = .error .unterminatedComment ∧ chars ≠ []

/-- Whether the tile belongs to a gap. -/
def IsGap : Tile → Prop
  | blank _ | comment _ => True
  | token _ _ => False

section Join

variable (offset : Nat) (tile : Tile) (tiles more : List Tile)

@[simp]
theorem joined_nil : joined [] = [] := rfl

@[simp]
theorem joined_cons : joined (tile :: tiles) = tile.chars ++ joined tiles := rfl

@[simp]
theorem joined_append : joined (tiles ++ more) = joined tiles ++ joined more :=
  List.flatMap_append

theorem joined_blanks (text : List Char) : joined (text.map blank) = text := by
  induction text with
  | nil => rfl
  | cons c text ih => exact congrArg (c :: ·) ih

theorem placed_append :
    placed offset (tiles ++ more) =
      placed offset tiles ++ placed (offset + width (joined tiles)) more := by
  induction tiles generalizing offset with
  | nil => rfl
  | cons tile tiles ih =>
    rw [List.cons_append, placed, placed, joined_cons, width_append, ← Nat.add_assoc]
    exact congrArg _ (ih _)

theorem tokens_append :
    tokens offset (tiles ++ more) =
      tokens offset tiles ++ tokens (offset + width (joined tiles)) more := by
  rw [tokens, placed_append, List.filterMap_append]
  rfl

theorem comments_append :
    comments offset (tiles ++ more) =
      comments offset tiles ++ comments (offset + width (joined tiles)) more := by
  rw [comments, placed_append, List.filterMap_append]
  rfl

theorem comments_blanks (text : List Char) : comments offset (text.map blank) = [] := by
  induction text generalizing offset with
  | nil => rfl
  | cons c text ih => exact ih _

/-- A gap holds no tokens. -/
theorem tokens_of_isGap {tiles : List Tile} (h : ∀ tile ∈ tiles, tile.IsGap) :
    tokens offset tiles = [] := by
  induction tiles generalizing offset with
  | nil => rfl
  | cons tile tiles ih =>
    obtain ⟨hfirst, hlater⟩ := List.forall_mem_cons.mp h
    cases tile with
    | token => exact hfirst.elim
    | _ => exact ih _ hlater

end Join
end Tile

namespace Gap

open Tile

theorem forall_blanks {dialect : Dialect} (text : List Char) :
    ∀ tile ∈ (text.takeWhile Text.isBlank).map blank, tile.Genuine dialect ∧ tile.IsGap := by
  intro tile hmem
  obtain ⟨c, hc, rfl⟩ := List.mem_map.mp hmem
  exact ⟨List.all_eq_true.mp List.all_takeWhile c hc, trivial⟩

/-- The blanks and comments of a gap. -/
theorem exists_tiles (dialect : Dialect) (offset : Nat) (text : List Char) :
    ∃ tiles, (∀ tile ∈ tiles, tile.Genuine dialect ∧ tile.IsGap) ∧
      joined tiles ++ (Gap.scan offset text).rest = text ∧
      (Gap.scan offset text).offset = offset + width (joined tiles) ∧
      (Gap.scan offset text).comments = Tile.comments offset tiles := by
  fun_induction Gap.scan offset text with
  | case1 offset text start hscan =>
    refine ⟨(text.takeWhile Text.isBlank).map blank, forall_blanks text, ?_, ?_, ?_⟩
    · rw [joined_blanks, List.takeWhile_append_dropWhile]
    · rw [joined_blanks]
    · rw [comments_blanks]
  | case2 offset text start hscan =>
    refine ⟨(text.takeWhile Text.isBlank).map blank, forall_blanks text, ?_, ?_, ?_⟩
    · rw [joined_blanks, List.takeWhile_append_dropWhile]
    · rw [joined_blanks]
    · rw [comments_blanks]
  | case3 offset text start chars rest hscan stop gap ih =>
    obtain ⟨tiles, hall, hrest, hoffset, hcomments⟩ := ih
    have hwidth : offset + width (joined ((text.takeWhile Text.isBlank).map blank)) = start := by
      rw [joined_blanks]
    refine ⟨(text.takeWhile Text.isBlank).map blank ++ comment chars :: tiles, ?_, ?_, ?_, ?_⟩
    · intro tile hmem
      rcases List.mem_append.mp hmem with hmem | hmem
      · exact forall_blanks text tile hmem
      · rcases List.mem_cons.mp hmem with rfl | hmem
        · exact ⟨CommentScan.isComment_of_scan hscan, trivial⟩
        · exact hall tile hmem
    · show joined (_ ++ comment chars :: tiles) ++ gap.rest = text
      rw [joined_append, joined_cons, joined_blanks, List.append_assoc, List.append_assoc, hrest]
      show _ ++ (chars ++ rest) = text
      rw [CommentScan.scan_append hscan, List.takeWhile_append_dropWhile]
    · rw [joined_append, width_append, ← Nat.add_assoc, hwidth, joined_cons, width_append,
        ← Nat.add_assoc]
      exact hoffset
    · rw [comments_append, comments_blanks, hwidth]
      exact congrArg _ hcomments

/-- Behind a gap begins neither a blank nor a comment. -/
theorem scan_rest {offset : Nat} {text : List Char}
    (h : (Gap.scan offset text).unclosed = false) :
    CommentScan.scan (Gap.scan offset text).rest = .noComment ∧
      ∀ c ∈ (Gap.scan offset text).rest.head?, Text.isBlank c = false := by
  fun_induction Gap.scan offset text with
  | case1 offset text start hscan =>
    refine ⟨hscan, ?_⟩
    intro c hc
    have hhead := List.head?_dropWhile_not (p := Text.isBlank) (l := text)
    rw [show (text.dropWhile Text.isBlank).head? = some c from hc] at hhead
    exact Bool.eq_false_iff.mpr (by simpa using hhead)
  | case2 => cases h
  | case3 offset text start chars rest hscan stop gap ih => exact ih h

end Gap

/-- What the scanner reads at the front of a text stands at its front. -/
theorem Lexeme.scan_fronts {c : Char} {text : List Char} (dialect : Dialect)
    (hblank : Text.isBlank c = false) (hcomment : CommentScan.scan (c :: text) = .noComment) :
    Fronts dialect (scan dialect c text).kind (scan dialect c text).chars
      (scan dialect c text).rest := by
  have hchars := scan_append dialect c text
  obtain ⟨d, tail, hcons⟩ := List.exists_cons_of_ne_nil (chars_ne_nil dialect c text)
  have hfirst := hchars
  rw [hcons, List.cons_append] at hfirst
  obtain ⟨rfl, htail⟩ := List.cons.inj hfirst
  exact ⟨d, tail, hcons, hblank, by rw [hchars, hcomment], by rw [htail]⟩

theorem Lexeme.scan_kind_ne_endOfInput (dialect : Dialect) (c : Char) (text : List Char) :
    (scan dialect c text).kind ≠ .endOfInput := by
  intro hend
  have hgenuine := scan_genuine dialect c text
  rw [Lexeme.Genuine, hend] at hgenuine
  exact hgenuine

/-- What leads from one scanner to a later one: the tiles in between, and their tokens. -/
structure Tile.Between (scanner : Scanner) (tiles : List Tile) (tokens : List Token)
    (later : Scanner) : Prop where
  genuine : ∀ tile ∈ tiles, tile.Genuine scanner.dialect
  dialect : later.dialect = scanner.dialect
  rest : joined tiles ++ later.rest = scanner.rest
  offset : later.offset = scanner.offset + width (joined tiles)
  tokens : Tile.tokens scanner.offset tiles = tokens
  comments : later.comments = scanner.comments ++ Tile.comments scanner.offset tiles

theorem Tile.Between.append {scanner middle later : Scanner} {front back : List Tile}
    {left right : List Token} (hfront : Tile.Between scanner front left middle)
    (hback : Tile.Between middle back right later) :
    Tile.Between scanner (front ++ back) (left ++ right) later where
  genuine := by
    intro tile hmem
    rcases List.mem_append.mp hmem with hmem | hmem
    · exact hfront.genuine tile hmem
    · rw [← hfront.dialect]
      exact hback.genuine tile hmem
  dialect := hback.dialect.trans hfront.dialect
  rest := by rw [joined_append, List.append_assoc, hback.rest, hfront.rest]
  offset := by rw [joined_append, width_append, ← Nat.add_assoc, ← hfront.offset, hback.offset]
  tokens := by rw [Tile.tokens_append, hfront.tokens, ← hfront.offset, hback.tokens]
  comments := by
    rw [Tile.comments_append, ← List.append_assoc, ← hfront.comments, ← hfront.offset,
      hback.comments]

namespace Scanner

open Tile

theorem pastGap_between (scanner : Scanner) :
    ∃ tiles, Tile.Between scanner tiles [] scanner.pastGap := by
  obtain ⟨tiles, hall, hrest, hoffset, hcomments⟩ :=
    Gap.exists_tiles scanner.dialect scanner.offset scanner.rest
  refine ⟨tiles, fun tile hmem => (hall tile hmem).1, rfl, hrest, hoffset, ?_, ?_⟩
  · exact tokens_of_isGap _ fun tile hmem => (hall tile hmem).2
  · exact congrArg _ hcomments

theorem emit_between {scanner : Scanner} {kind : TokenKind} {chars rest : List Char}
    (htile : (token kind chars).Genuine scanner.dialect) (hchars : chars ++ rest = scanner.rest) :
    Tile.Between scanner [token kind chars] [(scanner.emit kind chars rest).1]
      (scanner.emit kind chars rest).2 where
  genuine := by
    rintro tile hmem
    obtain rfl := List.mem_singleton.mp hmem
    exact htile
  dialect := rfl
  rest := by rwa [joined_cons, joined_nil, List.append_nil]
  offset := by rw [joined_cons, joined_nil, List.append_nil]; rfl
  tokens := rfl
  comments := (List.append_nil _).symm

/-- A step passes a gap and takes a token, unless the text ends behind the gap. -/
theorem next_between (scanner : Scanner) :
    scanner.next.1.kind ≠ .endOfInput ∧
      (∃ tiles, Tile.Between scanner tiles [scanner.next.1] scanner.next.2) ∨
    scanner.next = (Token.atEnd scanner.extent, scanner.pastGap) := by
  obtain ⟨gap, hgap⟩ := pastGap_between scanner
  rcases next_cases scanner with
    ⟨hopen, hnext⟩ | ⟨-, hrest, hnext⟩ | ⟨c, text, hclosed, hrest, hnext⟩ <;> rw [hnext]
  · have hne : scanner.pastGap.rest ≠ [] := Gap.rest_ne_nil_of_unclosed hopen
    have htoken := emit_between (.inr ⟨rfl, hne⟩) (List.append_nil _)
    exact .inl ⟨nofun, _, hgap.append htoken⟩
  · have hextent : scanner.pastGap.extent = scanner.extent :=
      Gap.scan_extent scanner.offset scanner.rest
    rw [← hextent, extent, hrest]
    exact .inr rfl
  · have hpast : (Gap.scan scanner.offset scanner.rest).rest = c :: text := hrest
    obtain ⟨hcomment, hblank⟩ := Gap.scan_rest hclosed
    rw [hpast] at hcomment hblank
    have hfronts := Lexeme.scan_fronts scanner.pastGap.dialect (hblank c rfl) hcomment
    have hchars := (Lexeme.scan_append scanner.pastGap.dialect c text).trans hrest.symm
    have htoken := emit_between (.inl ⟨_, hfronts⟩) hchars
    exact .inl ⟨Lexeme.scan_kind_ne_endOfInput _ _ _, _, hgap.append htoken⟩

/-- The tiles of a text. The induction is on the tokens that are handed out. -/
theorem tokens_between (scanner : Scanner) :
    ∃ tiles tokens, scanner.tokens.1 = tokens ++ [Token.atEnd scanner.extent] ∧
      Tile.Between scanner tiles tokens scanner.tokens.2 := by
  fun_induction tokens scanner with
  | case1 scanner step hend =>
    obtain ⟨gap, hgap⟩ := pastGap_between scanner
    rcases next_between scanner with ⟨hne, -⟩ | hnext
    · exact absurd hend hne
    · have hstep : step = (Token.atEnd scanner.extent, scanner.pastGap) := hnext
      rw [hstep]
      exact ⟨gap, [], rfl, hgap⟩
  | case2 scanner step hne later ih =>
    obtain ⟨tiles, tokens, htokens, hlater⟩ := ih
    have hextent : step.2.extent = scanner.extent := (next_within scanner).2.2.2
    rcases next_between scanner with ⟨-, front, hfront⟩ | hnext
    · refine ⟨front ++ tiles, step.1 :: tokens, ?_, hfront.append hlater⟩
      rw [htokens, hextent]
      rfl
    · have hstep : step = (Token.atEnd scanner.extent, scanner.pastGap) := hnext
      rw [hstep] at hne
      exact absurd rfl hne

end Scanner
end EdgeQuery
