import Mathlib
import EdgeQuery.Proofs.SourceFile.Complete

/-!
Reading a file, writing it in its canonical form and reading that again. The second reading finds
the file of the first one; the canonical text has the comments of the original and its tokens, apart
from those that mean nothing.
-/

namespace EdgeQuery
namespace SourceFile

section RoundTrip

variable {text : String} {dialect : Dialect} {file : SourceFile}

/-- All items of a file that has been read can be read back, past faults or not. -/
theorem valid_of_read (h : ofText text dialect = .ok file ∨ (recoverText text dialect).1 = file) :
    ∀ item ∈ file.items, item.Valid dialect nestingLimit := by
  rcases h with h | rfl
  · exact (ofText_account h).valid
  · exact recoverText_valid text dialect

/-- A file that has been read is found again in its canonical text, in the dialect that it was read
in and in the strict one. Only the comments have other places. -/
theorem round_trip {again : Dialect}
    (h : ofText text dialect = .ok file ∨ (recoverText text dialect).1 = file)
    (hagain : again = .strict ∨ again = dialect) :
    ∃ reread, ofText file.text again = .ok reread ∧
      List.Forall₂ SourceItem.Same file.items reread.items ∧ reread.text = file.text := by
  have hvalid : ∀ item ∈ file.items, item.Valid again nestingLimit := by
    intro item hmem
    rcases hagain with rfl | rfl
    · exact (valid_of_read h item hmem).strict
    · exact valid_of_read h item hmem
  have hsame := SourceItem.forall₂_same_placed 0 file.items
  exact ⟨_, ofText_complete hvalid, hsame, SourceItem.text_eq_of_same hsame⟩

set_option maxRecDepth 8192 in
/-- A keyword in small letters is written in capitals, and the comment is kept. -/
theorem round_trip_small_letters :
    let file : SourceFile := ⟨[.comment ⟨"-- both", ⟨0, 7⟩⟩,
      .statement (.value (.binary (.literal (.number 1)) .and (.literal (.number 2))))]⟩
    ofText "-- both\n1 and 2" .relaxed = .ok file ∧
      ∃ reread, ofText file.text .strict = .ok reread ∧
        List.Forall₂ SourceItem.Same file.items reread.items ∧ reread.text = file.text := by
  intro file
  have hread : ofText "-- both\n1 and 2" .relaxed = .ok file := by cbv
  exact ⟨hread, round_trip (.inl hread) (.inl rfl)⟩

end RoundTrip

section Tokens

variable {text : String} {dialect : Dialect} {file : SourceFile}

/-- The tokens of a text, as far as they mean something, with the mark of the end. -/
theorem essentials_ofText (text : String) (dialect : Dialect) (limit : Nat) :
    essentials (Scanner.ofText text dialect).tokens.1 =
      essentials (Cursor.ofText text dialect limit).ahead ++ [.endOfInput] := by
  obtain ⟨ahead, htokens, -⟩ := Scanner.tokens_eq (Scanner.ofText text dialect)
  have hahead : (Cursor.ofText text dialect limit).ahead = ahead := by
    show (Scanner.ofText text dialect).tokens.1.dropLast = ahead
    rw [htokens, List.dropLast_concat]
  rw [htokens, hahead, essentials_append]
  rfl

/-- Nothing is lost and nothing is made up: the canonical text of a file has the tokens of the text
that it was read from, apart from those that mean nothing, and the same comments. -/
theorem text_keeps_tokens (h : ofText text dialect = .ok file) :
    essentials (Scanner.ofText file.text dialect).tokens.1 =
        essentials (Scanner.ofText text dialect).tokens.1 ∧
      (Scanner.ofText file.text dialect).tokens.2.comments.map Comment.text =
        (Scanner.ofText text dialect).tokens.2.comments.map Comment.text := by
  have haccount := ofText_account h
  have hholds := Cursor.ofText_holds haccount.valid
  constructor
  · rw [essentials_ofText _ _ nestingLimit, essentials_ofText _ _ nestingLimit, hholds.ahead_eq,
      Piece.essentials_tokens, haccount.essentials_eq]
  · show (Cursor.ofText file.text dialect nestingLimit).comments.map Comment.text =
      (Cursor.ofText text dialect nestingLimit).comments.map Comment.text
    rw [hholds.comments_eq, SourceItem.comments_texts haccount.valid 0, haccount.comments_eq]

set_option maxRecDepth 8192 in
/-- The word behind a limit means nothing, and neither does the missing semicolon. -/
theorem text_keeps_tokens_of_limit :
    let file : SourceFile := ⟨[.statement (.select ⟨.fields (some .wildcard) none,
      ⟨false, [.reference (.identifier (.raw "a"))], none⟩, [.limit (.literal (.number 2))]⟩),
      .comment ⟨"# few", ⟨27, 32⟩⟩]⟩
    ofText "SELECT * FROM a LIMIT BY 2 # few" .strict = .ok file ∧
      essentials (Scanner.ofText file.text .strict).tokens.1 =
        essentials (Scanner.ofText "SELECT * FROM a LIMIT BY 2 # few" .strict).tokens.1 ∧
      (Scanner.ofText file.text .strict).tokens.2.comments.map Comment.text =
        (Scanner.ofText "SELECT * FROM a LIMIT BY 2 # few" .strict).tokens.2.comments.map
          Comment.text := by
  intro file
  have hread : ofText "SELECT * FROM a LIMIT BY 2 # few" .strict = .ok file := by cbv
  exact ⟨hread, text_keeps_tokens hread⟩

end Tokens
end SourceFile
end EdgeQuery
