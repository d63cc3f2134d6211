import EdgeQuery.Proofs.Token.Origin
import EdgeQuery.Proofs.Token.Tiling
import Mathlib

/-!
Strings and comments are closed by the first mark behind their beginning that can close them: a
string by the quote that opened it, a line comment by a line feed or the end of the text, a block
comment by the first `*/`. Where no such mark follows, a string or a block comment takes all that is
left of the text, and is a fault.
-/

namespace EdgeQuery

/-- The characters of the text in the span. -/
def Span.chars? (span : Span) (text : String) : Option (List Char) :=
  Text.slice? text.toList span.start span.stop

/-- The part stands in the text at the offset. -/
def Text.HasAt (text part : List Char) (offset : Nat) : Prop :=
  ∃ rest, Text.Cut text offset (part ++ rest)

/-- Whether the token begins with a mark and lasts to another one that closes it. -/
def TokenKind.isDelimited : TokenKind → Bool
  | .string _ | .error .unterminatedString | .error .unterminatedComment => true
  | _ => false

/-- A line comment in front of the rest of a text. -/
structure IsLineComment (chars rest : List Char) : Prop where
  opened : ∃ opener ∈ [['/', '/'], ['-', '-'], ['#']], opener <+: chars
  oneLine : '\n' ∉ chars
  closed : ∀ c ∈ rest.head?, c = '\n'

/-- A block comment: of the marks behind its opener that can close it, it ends with the first. -/
structure IsBlockComment (chars : List Char) : Prop where
  enclosed : ∃ body, chars = ['/', '*'] ++ body ++ ['*', '/']
  closed : ∀ offset, 2 ≤ offset → Text.HasAt chars ['*', '/'] offset → offset + 2 = width chars

/-- A block comment that nothing closes. -/
structure IsOpenComment (chars : List Char) : Prop where
  opened : ['/', '*'] <+: chars
  notClosed : ∀ offset, 2 ≤ offset → ¬ Text.HasAt chars ['*', '/'] offset

namespace Lexeme

variable {c mark : Char} {text : List Char}

theorem scan_quote (dialect : Dialect) (text : List Char) (h : IsQuote mark) :
    scan dialect mark text = string mark text := by
  rcases h with rfl | rfl <;> rfl

/-- Only quotes begin lexemes that are closed by a mark. -/
theorem isQuote_of_isDelimited {dialect : Dialect}
    (h : (scan dialect c text).kind.isDelimited = true) : IsQuote c := by
  have hbegins := scan_begins dialect c text
  generalize (scan dialect c text).kind = kind at h hbegins
  cases hbegins with
  | string _ hquote => exact hquote
  | openString hquote => exact hquote
  | _ => cases h

end Lexeme

namespace CommentScan

/-- A block comment ends with the first `*/` that follows its opener. -/
theorem exists_body_of_blockEnd? {text chars rest : List Char}
    (h : blockEnd? text = some (chars, rest)) :
    ∃ body, chars = body ++ ['*', '/'] ∧ ¬ ['*', '/'] <:+: body := by
  fun_induction blockEnd? text generalizing chars rest with
  | case1 tail =>
    obtain ⟨rfl, -⟩ := Prod.mk.inj (Option.some.inj h)
    exact ⟨[], rfl, by simp⟩
  | case2 c text hopen ih =>
    obtain ⟨⟨front, later⟩, hfront, hpair⟩ := Option.map_eq_some_iff.mp h
    obtain ⟨rfl, rfl⟩ := Prod.mk.inj hpair
    obtain ⟨body, rfl, hbody⟩ := ih hfront
    refine ⟨c :: body, rfl, fun hpart => ?_⟩
    rcases List.infix_cons_iff.mp hpart with ⟨behind, hbehind⟩ | hpart
    · obtain ⟨rfl, rfl⟩ := List.cons.inj hbehind
      exact hopen _ rfl (blockEnd?_append hfront).symm
    · exact hbody hpart
  | case3 => cases h

theorem not_infix_of_blockEnd? {text : List Char} (h : blockEnd? text = none) :
    ¬ ['*', '/'] <:+: text := by
  fun_induction blockEnd? text with
  | case1 => cases h
  | case2 c text hopen ih =>
    rintro hpart
    rcases List.infix_cons_iff.mp hpart with ⟨behind, hbehind⟩ | hpart
    · obtain ⟨rfl, rfl⟩ := List.cons.inj hbehind
      exact hopen _ rfl rfl
    · exact ih (Option.map_eq_none_iff.mp h) hpart
  | case3 => simp

/-- What stands behind the opener of a comment stands in its body. -/
theorem exists_of_hasAt {body part : List Char} {offset : Nat}
    (h : Text.HasAt ('/' :: '*' :: body) part offset) (hle : 2 ≤ offset) :
    ∃ front rest, body = front ++ (part ++ rest) ∧ offset = 2 + width front := by
  obtain ⟨rest, front, htext, rfl⟩ := h
  match front with
  | [] => cases hle
  | [c] =>
    obtain ⟨rfl, -⟩ := List.cons.inj htext
    exact absurd hle (by decide)
  | c :: d :: front =>
    simp only [List.cons_append, List.cons.injEq] at htext
    obtain ⟨rfl, rfl, hbody⟩ := htext
    refine ⟨front, rest, hbody, ?_⟩
    rw [width_cons, width_cons, ← Nat.add_assoc]
    rfl

/-- The two characters of a closer stand in no text without them but at its end. -/
theorem eq_nil_of_closer {body front rest : List Char} (h : ¬ ['*', '/'] <:+: body)
    (heq : body ++ ['*', '/'] = front ++ (['*', '/'] ++ rest)) : rest = [] := by
  rcases List.append_eq_append_iff.mp heq with ⟨more, -, hmore⟩ | ⟨more, hbody, hmore⟩
  · have hlength := congrArg List.length hmore
    simp only [List.length_append, List.length_cons, List.length_nil] at hlength
    exact List.eq_nil_of_length_eq_zero (by omega)
  · match more with
    | [] => exact List.append_right_eq_self.mp hmore
    | [c] => cases hmore
    | c :: d :: more =>
      obtain ⟨rfl, rfl, -⟩ : '*' = c ∧ '/' = d ∧ rest = more ++ ['*', '/'] := by
        simpa using hmore
      exact absurd ⟨front, more, by rw [hbody]; simp⟩ h

theorem isBlockComment_of_blockEnd? {text chars rest : List Char}
    (h : blockEnd? text = some (chars, rest)) : IsBlockComment ('/' :: '*' :: chars) := by
  obtain ⟨body, rfl, hbody⟩ := exists_body_of_blockEnd? h
  refine ⟨⟨body, rfl⟩, fun offset hle hat => ?_⟩
  obtain ⟨front, rest, heq, rfl⟩ := exists_of_hasAt hat hle
  obtain rfl := eq_nil_of_closer hbody heq
  have hwidth : width ('/' :: '*' :: (body ++ ['*', '/'])) =
      width ['/', '*'] + (width front + width ['*', '/']) := by
    rw [heq, List.append_nil, ← width_append, ← width_append]
    rfl
  rw [hwidth, Nat.add_assoc]
  rfl

theorem isLineComment_of_line {opener body chars rest : List Char}
    (hmem : opener ∈ [['/', '/'], ['-', '-'], ['#']])
    (h : line (opener ++ body) = .closed chars rest) : IsLineComment chars rest := by
  obtain ⟨rfl, rfl⟩ := CommentScan.closed.inj h
  refine ⟨⟨opener, hmem, ?_⟩, not_mem_takeWhile_lineFeed _, fun c hc => ?_⟩
  · rw [takeWhile_opener hmem]
    exact List.prefix_append opener _
  · have hhead := List.head?_dropWhile_not (p := (· != '\n')) (l := opener ++ body)
    rw [hc] at hhead
    simpa using hhead

/-- A comment that is closed is a line comment or a block comment. -/
theorem isComment_of_closed {text chars rest : List Char} (h : scan text = .closed chars rest) :
    IsLineComment chars rest ∨ IsBlockComment chars := by
  rcases closed_cases h with ⟨body, front, rfl, rfl, hend⟩ | ⟨opener, hopener, body, rfl, hline⟩
  · exact .inr (isBlockComment_of_blockEnd? hend)
  · exact .inl (isLineComment_of_line hopener hline)

theorem isOpenComment_of_unclosed {text : List Char} (h : scan text = .unclosed) :
    IsOpenComment text := by
  obtain ⟨body, rfl, hend⟩ := exists_body_of_unclosed h
  refine ⟨⟨body, rfl⟩, fun offset hle hat => ?_⟩
  obtain ⟨front, rest, heq, -⟩ := exists_of_hasAt hat hle
  exact not_infix_of_blockEnd? hend ⟨front, rest, by rw [heq, List.append_assoc]⟩

end CommentScan

namespace Token.ReadFrom

variable {dialect : Dialect} {offset : Nat} {rest : List Char} {token : Token}

theorem exists_later (h : token.ReadFrom dialect offset rest) :
    ∃ later, rest = token.text.toList ++ later ∧
      token.span = ⟨offset, offset + width token.text.toList⟩ := by
  cases h with
  | lexeme c text =>
    rw [String.toList_ofList]
    exact ⟨_, (Lexeme.scan_append dialect c text).symm, rfl⟩
  | openComment _ hscan =>
    rw [String.toList_ofList]
    exact ⟨[], (List.append_nil rest).symm, rfl⟩
  | atEnd => exact ⟨[], rfl, rfl⟩

/-- Strings that are closed, strings that are not, and comments that are not. -/
theorem delimited_cases (h : token.ReadFrom dialect offset rest)
    (hkind : token.kind.isDelimited = true) :
    (∃ mark content, IsQuote mark ∧ mark ∉ content ∧
      token.text.toList = mark :: content ++ [mark] ∧
      token.kind = .string (String.ofList content)) ∨
    (∃ mark content, IsQuote mark ∧ mark ∉ content ∧
      token.text.toList = mark :: content ∧ token.text.toList = rest ∧
      token.kind = .error .unterminatedString) ∨
    IsOpenComment rest ∧ token.text.toList = rest ∧
      token.kind = .error .unterminatedComment := by
  cases h with
  | lexeme c text =>
    have hquote := Lexeme.isQuote_of_isDelimited hkind
    simp only [Lexeme.scan_quote dialect text hquote, String.toList_ofList]
    rcases Lexeme.string_cases c text with ⟨content, later, hnot, rfl, hstring⟩ | ⟨hnot, hstring⟩ <;>
      rw [hstring]
    · exact .inl ⟨c, content, hquote, hnot, rfl, rfl⟩
    · exact .inr (.inl ⟨c, text, hquote, hnot, rfl, rfl, rfl⟩)
  | openComment _ hscan =>
    exact .inr (.inr ⟨CommentScan.isOpenComment_of_unclosed hscan, String.toList_ofList, rfl⟩)
  | atEnd => cases hkind

/-- What begins like a string or a block comment is no other token. -/
theorem isDelimited_of_opener (h : token.ReadFrom dialect offset rest) {opener : List Char}
    (hmem : opener ∈ [['\''], ['"'], ['/', '*']]) (hopener : opener <+: token.text.toList) :
    token.kind.isDelimited = true := by
  cases h with
  | lexeme c text hblank hcomment =>
    rw [String.toList_ofList] at hopener
    have hfront : opener <+: c :: text := by
      rw [← Lexeme.scan_append dialect c text]
      exact hopener.trans (List.prefix_append _ _)
    have hstring (hquote : IsQuote c) :
        (Lexeme.scan dialect c text).kind.isDelimited = true := by
      rw [Lexeme.scan_quote dialect text hquote]
      rcases Lexeme.string_cases c text with ⟨_, _, -, -, hstring⟩ | ⟨-, hstring⟩ <;>
        rw [hstring] <;> rfl
    simp only [List.mem_cons, List.not_mem_nil, or_false] at hmem
    rcases hmem with rfl | rfl | rfl
    · exact hstring (.inl (List.cons_prefix_cons.mp hfront).1.symm)
    · exact hstring (.inr (List.cons_prefix_cons.mp hfront).1.symm)
    · obtain ⟨body, hbody⟩ := hfront
      rw [← hbody] at hcomment
      simp only [List.cons_append, List.nil_append, CommentScan.scan] at hcomment
      split at hcomment <;> cases hcomment
  | openComment => rfl
  | atEnd =>
    rw [List.prefix_nil.mp hopener] at hmem
    exact absurd hmem (by decide)

section Text

variable {text : String} (h : token.ReadFrom dialect token.span.start rest)
  (hcut : Text.Cut text.toList token.span.start rest)

include h hcut

/-- A token stands where its span says. -/
theorem chars?_eq : token.span.chars? text = some token.text.toList := by
  obtain ⟨later, rfl, hspan⟩ := h.exists_later
  have hstop : token.span.stop = token.span.start + width token.text.toList :=
    congrArg Span.stop hspan
  rw [Span.chars?, hstop]
  exact hcut.slice

/-- A token that takes all that is left ends where the text does. -/
theorem stop_eq (hall : token.text.toList = rest) : token.span.stop = text.utf8ByteSize := by
  obtain ⟨-, -, hspan⟩ := h.exists_later
  rw [utf8ByteSize_eq, hcut.width_eq, congrArg Span.stop hspan, hall]

theorem string_closed {content : String} (hkind : token.kind = .string content) :
    ∃ mark, IsQuote mark ∧ mark ∉ content.toList ∧
      token.span.chars? text = some (mark :: content.toList ++ [mark]) := by
  rcases h.delimited_cases (by rw [hkind]; rfl) with
    ⟨mark, chars, hquote, hnot, htext, hstring⟩ | ⟨_, _, -, -, -, -, herror⟩ | ⟨-, -, herror⟩
  · obtain rfl := TokenKind.string.inj (hkind.symm.trans hstring)
    rw [h.chars?_eq hcut, htext, String.toList_ofList]
    exact ⟨mark, hquote, hnot, rfl⟩
  · cases hkind.symm.trans herror
  · cases hkind.symm.trans herror

theorem string_open (hkind : token.kind = .error .unterminatedString) :
    ∃ mark content, IsQuote mark ∧ mark ∉ content ∧
      token.span.chars? text = some (mark :: content) ∧
      token.span.stop = text.utf8ByteSize := by
  rcases h.delimited_cases (by rw [hkind]; rfl) with
    ⟨_, _, -, -, -, hstring⟩ | ⟨mark, content, hquote, hnot, htext, hall, -⟩ | ⟨-, -, herror⟩
  · cases hkind.symm.trans hstring
  · refine ⟨mark, content, hquote, hnot, ?_, h.stop_eq hcut hall⟩
    rw [h.chars?_eq hcut, htext]
  · cases hkind.symm.trans herror

theorem comment_open (hkind : token.kind = .error .unterminatedComment) :
    (∃ chars, token.span.chars? text = some chars ∧ IsOpenComment chars) ∧
      token.span.stop = text.utf8ByteSize := by
  rcases h.delimited_cases (by rw [hkind]; rfl) with
    ⟨_, _, -, -, -, hstring⟩ | ⟨_, _, -, -, -, -, herror⟩ | ⟨hopen, hall, -⟩
  · cases hkind.symm.trans hstring
  · cases hkind.symm.trans herror
  · rw [h.chars?_eq hcut, hall]
    exact ⟨⟨rest, rfl, hopen⟩, h.stop_eq hcut hall⟩

end Text
end Token.ReadFrom

/-- A comment stands where its span says, and is closed there. -/
theorem Comment.ReadFrom.closed_at {text : String} {comment : Comment} {offset : Nat}
    {rest : List Char} (h : comment.ReadFrom offset rest)
    (hcut : Text.Cut text.toList offset rest) :
    ∃ chars later, comment.text = String.ofList chars ∧ comment.span.chars? text = some chars ∧
      Text.behind? text.toList comment.span.stop = some later ∧
      (IsLineComment chars later ∨ IsBlockComment chars) := by
  cases h with
  | closed chars later hscan =>
    rw [← CommentScan.scan_append hscan] at hcut
    exact ⟨chars, later, rfl, hcut.slice, hcut.skip.behind, CommentScan.isComment_of_closed hscan⟩

/-- Behind a token that reaches the end of the text there is no other. -/
theorem Tiling.eq_nil_of_stop {text : String} {front back : List Token} {token : Token}
    {comments : List Comment} (h : Tiling text (front ++ token :: back) comments)
    (hstop : token.span.stop = text.utf8ByteSize) : back = [] := by
  cases back with
  | nil => rfl
  | cons other back =>
    have hbefore : token.span.stop ≤ other.span.start :=
      List.rel_of_pairwise_cons (List.pairwise_append.mp h.tokens_inOrder).2.1 List.mem_cons_self
    have hextent := h.token_extent other (by simp)
    omega

namespace Scanner

variable {text : String} {dialect : Dialect}

/-- Behind a token that reaches the end of the text stands only the mark of the end. -/
theorem eq_atEnd_of_stop {front back : List Token} {token : Token}
    (h : (ofText text dialect).tokens.1 = front ++ token :: back)
    (hkind : token.kind ≠ .endOfInput) (hstop : token.span.stop = text.utf8ByteSize) :
    back = [Token.atEnd text.utf8ByteSize] := by
  obtain ⟨tokens, htokens, htiling⟩ := exists_tiling text dialect
  rw [h] at htokens
  rcases List.eq_nil_or_concat back with rfl | ⟨later, last, rfl⟩
  · obtain ⟨-, hlast⟩ := List.append_inj' htokens rfl
    obtain rfl := List.singleton_inj.mp hlast
    exact absurd rfl hkind
  · rw [List.concat_eq_append, ← List.cons_append, ← List.append_assoc] at htokens
    obtain ⟨rfl, hlast⟩ := List.append_inj' htokens rfl
    obtain rfl := htiling.eq_nil_of_stop hstop
    rw [List.concat_eq_append, hlast]
    rfl

/-- A string is closed by the first quote like the one that opened it, a line comment by a line
feed or the end of the text, a block comment by the first `*/` behind its opener. A string or block
comment that is not closed reaches the end of the text, and only the mark of the end stands behind
such a comment. No other token begins as these do. -/
theorem closed_at_first (text : String) (dialect : Dialect) :
    let tokens := (ofText text dialect).tokens.1
    let comments := (ofText text dialect).tokens.2.comments
    (∀ token ∈ tokens, ∀ content, token.kind = .string content →
      ∃ mark, IsQuote mark ∧ mark ∉ content.toList ∧
        token.span.chars? text = some (mark :: content.toList ++ [mark])) ∧
    (∀ token ∈ tokens, token.kind = .error .unterminatedString →
      ∃ mark content, IsQuote mark ∧ mark ∉ content ∧
        token.span.chars? text = some (mark :: content) ∧
        token.span.stop = text.utf8ByteSize) ∧
    (∀ comment ∈ comments, ∃ chars rest, comment.text = String.ofList chars ∧
      comment.span.chars? text = some chars ∧
      Text.behind? text.toList comment.span.stop = some rest ∧
      (IsLineComment chars rest ∨ IsBlockComment chars)) ∧
    (∀ front token back, tokens = front ++ token :: back →
      token.kind = .error .unterminatedComment →
      ((∃ chars, token.span.chars? text = some chars ∧ IsOpenComment chars) ∧
        token.span.stop = text.utf8ByteSize) ∧
      back = [Token.atEnd text.utf8ByteSize]) ∧
    ∀ token ∈ tokens, ∀ opener ∈ [['\''], ['"'], ['/', '*']], ∀ chars,
      token.span.chars? text = some chars → opener <+: chars →
      token.kind.isDelimited = true := by
  intro tokens comments
  have hread : ∀ token ∈ tokens, ∃ rest, Text.Cut text.toList token.span.start rest ∧
      token.ReadFrom dialect token.span.start rest :=
    tokens_readFrom (Text.Cut.start text.toList)
  refine ⟨fun token hmem content hkind => ?_, fun token hmem hkind => ?_, fun comment hmem => ?_,
    fun front token back htokens hkind => ?_,
    fun token hmem opener hopener chars hchars hfront => ?_⟩
  · obtain ⟨rest, hcut, hfrom⟩ := hread token hmem
    exact hfrom.string_closed hcut hkind
  · obtain ⟨rest, hcut, hfrom⟩ := hread token hmem
    exact hfrom.string_open hcut hkind
  · obtain ⟨rest, hcut, hfrom⟩ := ofText_commentsReadFrom text dialect comment hmem
    exact hfrom.closed_at hcut
  · obtain ⟨rest, hcut, hfrom⟩ := hread token (by rw [htokens]; simp)
    have hopen := hfrom.comment_open hcut hkind
    exact ⟨hopen, eq_atEnd_of_stop htokens (by rw [hkind]; nofun) hopen.2⟩
  · obtain ⟨rest, hcut, hfrom⟩ := hread token hmem
    obtain rfl := Option.some.inj ((hfrom.chars?_eq hcut).symm.trans hchars)
    exact hfrom.isDelimited_of_opener hopener hfront

/-- A comment opener in a string, a quote in a comment that begins as if it were closed at once, and
a string that a comment opener does not end; and such a comment that nothing closes. -/
theorem closed_at_first_mixed :
    let text := "'/*' /*/'*/ \"--"
    let string : Token := ⟨.string "/*", "'/*'", ⟨0, 4⟩⟩
    let comment : Comment := ⟨"/*/'*/", ⟨5, 11⟩⟩
    let openString : Token := ⟨.error .unterminatedString, "\"--", ⟨12, 15⟩⟩
    let openComment : Token := ⟨.error .unterminatedComment, "/*/", ⟨0, 3⟩⟩
    (string ∈ (ofText text .strict).tokens.1 ∧
      ∃ mark, IsQuote mark ∧ mark ∉ ['/', '*'] ∧
        string.span.chars? text = some (mark :: ['/', '*'] ++ [mark])) ∧
    (comment ∈ (ofText text .strict).tokens.2.comments ∧
      ∃ chars rest, comment.text = String.ofList chars ∧ comment.span.chars? text = some chars ∧
        Text.behind? text.toList comment.span.stop = some rest ∧
        (IsLineComment chars rest ∨ IsBlockComment chars)) ∧
    (openString ∈ (ofText text .strict).tokens.1 ∧
      ∃ mark content, IsQuote mark ∧ mark ∉ content ∧
        openString.span.chars? text = some (mark :: content) ∧
        openString.span.stop = text.utf8ByteSize) ∧
    (ofText "/*/" .strict).tokens.1 = [] ++ openComment :: [Token.atEnd 3] ∧
      ∃ chars, openComment.span.chars? "/*/" = some chars ∧ IsOpenComment chars := by
  intro text string comment openString openComment
  have htokens : (ofText text .strict).tokens.1 = [string, openString, Token.atEnd 15] := by cbv
  have hcomments : (ofText text .strict).tokens.2.comments = [comment] := by cbv
  have hopen : (ofText "/*/" .strict).tokens.1 = [] ++ openComment :: [Token.atEnd 3] := by cbv
  have hstring : string ∈ (ofText text .strict).tokens.1 := by simp [htokens]
  have hcomment : comment ∈ (ofText text .strict).tokens.2.comments := by simp [hcomments]
  have hopenString : openString ∈ (ofText text .strict).tokens.1 := by simp [htokens]
  obtain ⟨hstrings, hopenStrings, hclosed, -, -⟩ := closed_at_first text .strict
  obtain ⟨-, -, -, hopenComments, -⟩ := closed_at_first "/*/" .strict
  exact ⟨⟨hstring, hstrings string hstring "/*" rfl⟩, ⟨hcomment, hclosed comment hcomment⟩,
    ⟨hopenString, hopenStrings openString hopenString rfl⟩, hopen,
    (hopenComments [] openComment _ hopen rfl).1.1⟩

end Scanner
end EdgeQuery
