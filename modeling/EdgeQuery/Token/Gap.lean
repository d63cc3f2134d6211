import EdgeQuery.Text.Blank
import EdgeQuery.Token

/-!
Gaps: the blanks and comments in front of a token. A line comment runs to the end of its line, a
block comment to the first `*/`; a block comment that never ends is no gap but a faulty token.
-/

namespace EdgeQuery

/-- What a text that does not begin with a blank begins with. -/
inductive CommentScan
  | noComment
  | closed (chars rest : List Char)
  /-- A block comment to the end of the text. -/
  | unclosed

namespace CommentScan

/-- The part of a text up to and with the first `*/`, and the part after it. -/
def blockEnd? : List Char → Option (List Char × List Char)
  | '*' :: '/' :: rest => some (['*', '/'], rest)
  | c :: text => (blockEnd? text).map fun (chars, rest) => (c :: chars, rest)
  | [] => none

/-- A line comment with the text behind it. -/
def line (text : List Char) : CommentScan :=
  .closed (text.takeWhile (· != '\n')) (text.dropWhile (· != '\n'))

def scan (text : List Char) : CommentScan :=
  match text with
  | '/' :: '*' :: body =>
    match blockEnd? body with
    | some (chars, rest) => .closed ('/' :: '*' :: chars) rest
    | none => .unclosed
  | '/' :: '/' :: _ => line text
  | '-' :: '-' :: _ => line text
  | '#' :: _ => line text
  | _ => .noComment

theorem blockEnd?_append {text chars rest : List Char}
    (h : blockEnd? text = some (chars, rest)) : chars ++ rest = text := by
  fun_induction blockEnd? text generalizing chars rest with
  | case1 tail =>
    obtain ⟨rfl, rfl⟩ := Prod.mk.inj (Option.some.inj h)
    rfl
  | case2 c text _ ih =>
    obtain ⟨⟨front, tail⟩, hfront, hpair⟩ := Option.map_eq_some_iff.mp h
    obtain ⟨rfl, rfl⟩ := Prod.mk.inj hpair
    simp [ih hfront]
  | case3 => simp at h

theorem line_append {text chars rest : List Char} (h : line text = .closed chars rest) :
    chars ++ rest = text := by
  obtain ⟨rfl, rfl⟩ := CommentScan.closed.inj h
  exact List.takeWhile_append_dropWhile

/-- A text that begins like a line comment is one up to the end of the line. -/
theorem scan_opener {opener : List Char} (body : List Char)
    (h : opener ∈ [['/', '/'], ['-', '-'], ['#']]) :
    scan (opener ++ body) = line (opener ++ body) := by
  simp only [List.mem_cons, List.not_mem_nil, or_false] at h
  rcases h with rfl | rfl | rfl <;> rfl

/-- A comment is closed by a `*/`, or by the end of its line. -/
theorem closed_cases {text chars rest : List Char} (h : scan text = .closed chars rest) :
    (∃ body front, text = '/' :: '*' :: body ∧ chars = '/' :: '*' :: front ∧
      blockEnd? body = some (front, rest)) ∨
    ∃ opener ∈ [['/', '/'], ['-', '-'], ['#']], ∃ body, text = opener ++ body ∧
      line (opener ++ body) = .closed chars rest := by
  unfold scan at h
  split at h
  · next body =>
    split at h
    · next front later hend =>
      obtain ⟨rfl, rfl⟩ := CommentScan.closed.inj h
      exact .inl ⟨body, front, rfl, rfl, hend⟩
    · cases h
  · next body => exact .inr ⟨['/', '/'], by simp, body, rfl, h⟩
  · next body => exact .inr ⟨['-', '-'], by simp, body, rfl, h⟩
  · next body => exact .inr ⟨['#'], by simp, body, rfl, h⟩
  · cases h

theorem exists_body_of_unclosed {text : List Char} (h : scan text = .unclosed) :
    ∃ body, text = '/' :: '*' :: body ∧ blockEnd? body = none := by
  unfold scan at h
  split at h
  · next body =>
    split at h
    · cases h
    · next hend => exact ⟨body, rfl, hend⟩
  · cases h
  · cases h
  · cases h
  · cases h

theorem scan_append {text chars rest : List Char} (h : scan text = .closed chars rest) :
    chars ++ rest = text := by
  rcases closed_cases h with ⟨body, front, rfl, rfl, hend⟩ | ⟨opener, -, body, rfl, hline⟩
  · simp [blockEnd?_append hend]
  · exact line_append hline

/-- A comment takes at least one character. -/
theorem scan_rest_length {text chars rest : List Char} (h : scan text = .closed chars rest) :
    rest.length < text.length := by
  have hsum := congrArg List.length (scan_append h)
  have hpos : 0 < chars.length := by
    rcases closed_cases h with ⟨body, front, rfl, rfl, -⟩ | ⟨opener, hopener, body, rfl, hline⟩
    · exact Nat.zero_lt_succ _
    · obtain ⟨rfl, rfl⟩ := CommentScan.closed.inj hline
      simp only [List.mem_cons, List.not_mem_nil, or_false] at hopener
      rcases hopener with rfl | rfl | rfl <;> exact Nat.zero_lt_succ _
  rw [List.length_append] at hsum
  omega

end CommentScan

/-- The comments of a gap, and what begins where the gap ends: a token, the end of the text, or a
comment that is never closed. -/
structure Gap where
  comments : List Comment
  offset : Nat
  rest : List Char
  unclosed : Bool

/-- The gap at the front of a text that begins at `offset`. -/
def Gap.scan (offset : Nat) (text : List Char) : Gap :=
  let start := offset + width (text.takeWhile Text.isBlank)
  match _hscan : CommentScan.scan (text.dropWhile Text.isBlank) with
  | .noComment => ⟨[], start, text.dropWhile Text.isBlank, false⟩
  | .unclosed => ⟨[], start, text.dropWhile Text.isBlank, true⟩
  | .closed chars rest =>
    let stop := start + width chars
    let gap := Gap.scan stop rest
    { gap with comments := ⟨String.ofList chars, ⟨start, stop⟩⟩ :: gap.comments }
termination_by text.length
decreasing_by
  exact Nat.lt_of_lt_of_le (CommentScan.scan_rest_length _hscan)
    (List.dropWhile_sublist _).length_le

theorem Gap.scan_rest_length (offset : Nat) (text : List Char) :
    (Gap.scan offset text).rest.length ≤ text.length := by
  fun_induction Gap.scan offset text with
  | case1 => exact (List.dropWhile_sublist _).length_le
  | case2 => exact (List.dropWhile_sublist _).length_le
  | case3 offset text start chars rest hscan stop gap ih =>
    have hlt := CommentScan.scan_rest_length hscan
    exact Nat.le_trans ih (Nat.le_trans (Nat.le_of_lt hlt) (List.dropWhile_sublist _).length_le)

/-- An unclosed comment is not empty. -/
theorem Gap.rest_ne_nil_of_unclosed {offset : Nat} {text : List Char}
    (h : (Gap.scan offset text).unclosed = true) : (Gap.scan offset text).rest ≠ [] := by
  fun_induction Gap.scan offset text with
  | case1 => simp at h
  | case2 offset text start hscan =>
    intro hnil
    rw [show text.dropWhile Text.isBlank = [] from hnil] at hscan
    simp [CommentScan.scan] at hscan
  | case3 offset text start chars rest hscan stop gap ih => exact ih h

end EdgeQuery
