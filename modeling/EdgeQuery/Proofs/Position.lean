import EdgeQuery.Position
import EdgeQuery.Proofs.Text.Slice
import Mathlib.Data.List.Induction

/-!
Positions are found by counting: the line feeds up to an offset give the line, and the characters
behind the last of them the column. A table of the offsets at which lines begin, searched by
halving, finds the same; it is asked of every offset, index and difference on the way whether it
exists.
-/

namespace EdgeQuery

open Text

namespace Position

def first : Position := ⟨1, 1⟩

/-- The position behind a character. -/
def after (position : Position) (c : Char) : Position :=
  if c = '\n' then ⟨position.line + 1, 1⟩ else ⟨position.line, position.column + 1⟩

/-- The position behind some characters. -/
def behind (position : Position) (chars : List Char) : Position :=
  chars.foldl after position

theorem behind_cons (position : Position) (c : Char) (chars : List Char) :
    position.behind (c :: chars) = (position.after c).behind chars := rfl

theorem behind_concat (position : Position) (chars : List Char) (c : Char) :
    position.behind (chars ++ [c]) = (position.behind chars).after c :=
  List.foldl_append

theorem behind_append (position : Position) (front back : List Char) :
    position.behind (front ++ back) = (position.behind front).behind back :=
  List.foldl_append

theorem after_feed (position : Position) : position.after '\n' = ⟨position.line + 1, 1⟩ := rfl

theorem after_of_ne {c : Char} (h : c ≠ '\n') (position : Position) :
    position.after c = ⟨position.line, position.column + 1⟩ :=
  if_neg h

/-- The position comes first: it is on an earlier line, or further to the left on the same one. -/
def Precedes (position other : Position) : Prop :=
  position.line < other.line ∨ position.line = other.line ∧ position.column < other.column

theorem Precedes.trans {position middle other : Position} (hfront : position.Precedes middle)
    (hback : middle.Precedes other) : position.Precedes other := by
  unfold Precedes at *
  omega

theorem not_precedes_self (position : Position) : ¬ position.Precedes position := by
  unfold Precedes
  omega

theorem precedes_after (position : Position) (c : Char) : position.Precedes (position.after c) := by
  by_cases h : c = '\n'
  · rw [h]
    exact .inl (Nat.lt_succ_self _)
  · rw [after_of_ne h]
    exact .inr ⟨rfl, Nat.lt_succ_self _⟩

theorem precedes_behind (position : Position) {chars : List Char} (h : chars ≠ []) :
    position.Precedes (position.behind chars) := by
  induction chars generalizing position with
  | nil => exact absurd rfl h
  | cons c chars ih =>
    rw [behind_cons]
    cases chars with
    | nil => exact position.precedes_after c
    | cons d chars =>
      exact (position.precedes_after c).trans (ih (position.after c) (List.cons_ne_nil d chars))

end Position

namespace LineIndex

section Counting

variable {chars line : List Char} {offset start room target : Nat}

/-- The characters that fit into the given number of bytes. -/
def fittingChars (room : Nat) (chars : List Char) : List Char :=
  chars.take (fitting room chars)

theorem fitting_append (h : width line ≤ room) :
    fitting room (line ++ chars) = line.length + fitting (room - width line) chars := by
  induction line generalizing room with
  | nil => exact (Nat.zero_add _).symm
  | cons c line ih =>
    rw [width_cons] at h
    have hroom : room - c.utf8Size - width line = room - width (c :: line) := by
      rw [width_cons]
      omega
    rw [List.cons_append, fitting, if_pos (by omega), ih (by omega), hroom, List.length_cons]
    omega

theorem fitting_of_width_le (h : width line ≤ room) : fitting room line = line.length := by
  have hline : fitting room (line ++ []) = line.length + 0 := fitting_append h
  rwa [List.append_nil] at hline

theorem fittingChars_cons {c : Char} (h : c.utf8Size ≤ room) :
    fittingChars room (c :: chars) = c :: fittingChars (room - c.utf8Size) chars := by
  rw [fittingChars, fitting, if_pos h, List.take_succ_cons]
  rfl

theorem fittingChars_of_lt {c : Char} (h : room < c.utf8Size) :
    fittingChars room (c :: chars) = [] := by
  rw [fittingChars, fitting, if_neg (by omega), List.take_zero]

/-- The characters fit, and the next one would not fit any more. -/
theorem fittingChars_spec (room : Nat) (chars : List Char) :
    width (fittingChars room chars) ≤ room ∧
      ∃ rest, chars = fittingChars room chars ++ rest ∧
        ∀ c ∈ rest.head?, room < width (fittingChars room chars) + c.utf8Size := by
  induction chars generalizing room with
  | nil => exact ⟨Nat.zero_le room, [], rfl, nofun⟩
  | cons c chars ih =>
    by_cases hroom : c.utf8Size ≤ room
    · obtain ⟨hfits, rest, hrest, hnext⟩ := ih (room - c.utf8Size)
      rw [fittingChars_cons hroom, width_cons]
      refine ⟨by omega, rest, congrArg (c :: ·) hrest, fun d hd => ?_⟩
      have hlt := hnext d hd
      omega
    · rw [fittingChars_of_lt (by omega)]
      refine ⟨Nat.zero_le room, c :: chars, rfl, fun d hd => ?_⟩
      cases Option.some.inj hd
      rw [width_nil]
      omega

theorem ofChars_first_start (offset : Nat) (chars : List Char) :
    (ofChars offset chars).first.start = offset := by
  cases chars with
  | nil => rfl
  | cons c chars =>
    rw [ofChars]
    split <;> rfl

theorem lt_start_of_mem {next : Line} (h : next ∈ (ofChars offset chars).more) :
    offset < next.start := by
  induction chars generalizing offset with
  | nil => cases h
  | cons c chars ih =>
    have hpos := c.utf8Size_pos
    rw [ofChars] at h
    split at h
    · rcases List.mem_cons.mp h with rfl | h
      · rw [ofChars_first_start]
        omega
      · have hlater := ih h
        omega
    · have hlater := ih h
      omega

theorem le_start_of_mem {c : Char} {next : Line} (h : next ∈ (ofChars offset (c :: chars)).more) :
    offset + c.utf8Size ≤ next.start := by
  rw [ofChars] at h
  split at h
  · rcases List.mem_cons.mp h with rfl | h
    · exact Nat.le_of_eq (ofChars_first_start _ _).symm
    · exact Nat.le_of_lt (lt_start_of_mem h)
  · exact Nat.le_of_lt (lt_start_of_mem h)

theorem first_eq (offset : Nat) (chars : List Char) :
    (ofChars offset chars).first = ⟨offset, (ofChars offset chars).first.chars⟩ :=
  congrArg (Line.mk · (ofChars offset chars).first.chars) (ofChars_first_start offset chars)

/-- An offset inside the first character behind `line` is the offset where the character begins. -/
theorem locate_of_inside {c : Char} (number : Nat) (hoffset : offset = start + width line)
    (htarget : offset ≤ target) (hinside : target < offset + c.utf8Size) :
    locate target number ⟨start, line ++ (ofChars offset (c :: chars)).first.chars⟩
        (ofChars offset (c :: chars)).more = ⟨number, line.length + 1⟩ := by
  have hfirst : fitting (target - start - width line)
      (ofChars offset (c :: chars)).first.chars = 0 := by
    rw [ofChars]
    split
    · rfl
    · exact if_neg (by omega)
  have hcolumn : column ⟨start, line ++ (ofChars offset (c :: chars)).first.chars⟩ target =
      line.length + 1 := by
    have hroom : width line ≤ target - start := by omega
    rw [column, fitting_append hroom, hfirst]
  cases hmore : (ofChars offset (c :: chars)).more with
  | nil => rw [locate, hcolumn]
  | cons next more =>
    have hlt := le_start_of_mem (hmore ▸ List.mem_cons_self : next ∈ _)
    rw [locate, if_neg (by omega), hcolumn]

/-- The search among the lines counts the characters. The induction is on those behind the offset;
those in front of it, on the same line, have been counted. -/
theorem locate_ofChars (number : Nat) (hoffset : offset = start + width line)
    (htarget : offset ≤ target) :
    locate target number ⟨start, line ++ (ofChars offset chars).first.chars⟩
        (ofChars offset chars).more =
      Position.behind ⟨number, line.length + 1⟩ (fittingChars (target - offset) chars) := by
  induction chars generalizing number line offset start with
  | nil =>
    show locate target number ⟨start, line ++ []⟩ [] = ⟨number, line.length + 1⟩
    rw [List.append_nil, locate, column, fitting_of_width_le (by dsimp only; omega)]
  | cons c chars ih =>
    by_cases hfits : c.utf8Size ≤ target - offset
    · have hpos := c.utf8Size_pos
      have hroom : target - offset - c.utf8Size = target - (offset + c.utf8Size) := by omega
      rw [fittingChars_cons hfits, Position.behind_cons, hroom, ofChars]
      split
      · next hfeed =>
        have hstart := ofChars_first_start (offset + c.utf8Size) chars
        have hlater : locate target (number + 1) (ofChars (offset + c.utf8Size) chars).first
            (ofChars (offset + c.utf8Size) chars).more =
              Position.behind ⟨number + 1, 1⟩
                (fittingChars (target - (offset + c.utf8Size)) chars) := by
          rw [first_eq]
          exact @ih [] (offset + c.utf8Size) (offset + c.utf8Size) (number + 1) rfl (by omega)
        rw [locate, if_pos (by omega), hlater, hfeed]
        rfl
      · next hfeed =>
        have hwidth : offset + c.utf8Size = start + width (line ++ [c]) := by
          rw [width_append, width_cons, width_nil]
          omega
        have hlater := ih number hwidth (by omega)
        rw [List.append_assoc, List.length_append] at hlater
        rw [Position.after_of_ne hfeed]
        exact hlater
    · rw [fittingChars_of_lt (by omega)]
      exact locate_of_inside number hoffset htarget (by omega)

/-- The position of an offset is the one behind the characters that fit in front of it. -/
theorem position_eq (text : String) (offset : Nat) :
    (ofText text).position offset = Position.first.behind (fittingChars offset text.toList) := by
  show locate offset 1 (ofChars 0 text.toList).first (ofChars 0 text.toList).more = _
  rw [first_eq]
  exact @locate_ofChars text.toList [] 0 0 offset 1 rfl (Nat.zero_le offset)

theorem fittingChars_append (h : width line ≤ room) :
    fittingChars room (line ++ chars) = line ++ fittingChars (room - width line) chars := by
  rw [fittingChars, fitting_append h, List.take_length_add_append]
  rfl

/-- A position before the end of a character comes before every position behind it. -/
theorem position_precedes {text : String} {front back : List Char} {earlier later : Nat}
    (htext : text.toList = front ++ back) (hearlier : earlier < width front)
    (hlater : width front ≤ later) :
    ((ofText text).position earlier).Precedes ((ofText text).position later) := by
  rw [position_eq, position_eq]
  obtain ⟨hfits, rest, hrest, -⟩ := fittingChars_spec earlier text.toList
  generalize fittingChars earlier text.toList = fits at hfits hrest
  rw [htext] at hrest ⊢
  rw [fittingChars_append hlater]
  obtain ⟨more, rfl, hmore⟩ : ∃ more, front = fits ++ more ∧ more ≠ [] := by
    rcases List.append_eq_append_iff.mp hrest with ⟨more, hfits', -⟩ | ⟨more, hfront, -⟩
    · rw [hfits', width_append] at hfits
      omega
    · refine ⟨more, hfront, fun hnil => ?_⟩
      rw [hfront, hnil, List.append_nil] at hearlier
      omega
  rw [List.append_assoc, Position.behind_append]
  exact Position.precedes_behind _ (List.append_ne_nil_of_left_ne_nil hmore _)

end Counting
end LineIndex

/-- A text and the offsets at which its lines begin. -/
structure LineTable where
  text : List Char
  starts : List Nat

namespace LineTable

/-- The offsets behind the line feeds of a text that begins at the offset. -/
def feeds (offset : Nat) : List Char → List Nat
  | [] => []
  | c :: chars =>
    if c = '\n' then (offset + 1) :: feeds (offset + c.utf8Size) chars
    else feeds (offset + c.utf8Size) chars

def ofText (text : String) : LineTable :=
  ⟨text.toList, 0 :: feeds 0 text.toList⟩

/-- The last offset between characters that does not lie beyond the given one. -/
def floor? (text : List Char) : Nat → Option Nat
  | 0 => if isBoundary text 0 then some 0 else none
  | offset + 1 => if isBoundary text (offset + 1) then some (offset + 1) else floor? text offset

/-- The index of an offset in a table, or if there is none the index at which it could be put in.
Only in a table that is in order does a search by halving find them. -/
def search? (starts : List Nat) (offset : Nat) : Option (Except Nat Nat) :=
  if starts.Pairwise (· < ·) then
    match starts.idxOf? offset with
    | some index => some (.ok index)
    | none => some (.error (starts.countP (· < offset)))
  else none

/-- The index of the line in which an offset lies. -/
def line? (starts : List Nat) (offset : Nat) : Option Nat := do
  match ← search? starts offset with
  | .ok index => return index
  | .error index => sub? index 1

def position? (table : LineTable) (offset : Nat) : Option Position := do
  let offset ← floor? table.text (min offset (width table.text))
  let line ← line? table.starts offset
  let chars ← slice? table.text (← table.starts[line]?) offset
  return ⟨line + 1, chars.length + 1⟩

section Starts

variable {text front rest : List Char} {c : Char} {offset start : Nat} {starts later : List Nat}

theorem feeds_append (offset : Nat) (front rest : List Char) :
    feeds offset (front ++ rest) = feeds offset front ++ feeds (offset + width front) rest := by
  induction front generalizing offset with
  | nil => rfl
  | cons c front ih =>
    rw [List.cons_append, feeds, feeds, ih, width_cons, Nat.add_assoc]
    split <;> rfl

theorem lt_of_mem_feeds {feed : Nat} (h : feed ∈ feeds offset rest) :
    offset < feed ∧ feed ≤ offset + width rest := by
  induction rest generalizing offset with
  | nil => cases h
  | cons c rest ih =>
    have hpos := c.utf8Size_pos
    rw [width_cons]
    rw [feeds] at h
    split at h
    · rcases List.mem_cons.mp h with rfl | h
      · omega
      · have hbounds := ih h
        omega
    · have hbounds := ih h
      omega

/-- The lines of a text begin one behind the other. -/
theorem pairwise_feeds (offset : Nat) (rest : List Char) :
    (feeds offset rest).Pairwise (· < ·) := by
  induction rest generalizing offset with
  | nil => exact .nil
  | cons c rest ih =>
    rw [feeds]
    split
    · next hfeed =>
      refine List.pairwise_cons.mpr ⟨fun feed hmem => ?_, ih _⟩
      have hsize : c.utf8Size = 1 := by
        rw [hfeed]
        rfl
      have hlt := (lt_of_mem_feeds hmem).1
      omega
    · exact ih _

theorem pairwise_starts (text : String) : (ofText text).starts.Pairwise (· < ·) :=
  List.pairwise_cons.mpr ⟨fun _ hmem => (lt_of_mem_feeds hmem).1, pairwise_feeds 0 text.toList⟩

/-- What stands behind the last line feed of a text is its last line, which begins where the table
says last. The induction is on the text, from its end. -/
theorem exists_line (front : List Char) :
    ∃ before line starts, front = before ++ line ∧ 0 :: feeds 0 front = starts ++ [width before] ∧
      Position.first.behind front = ⟨starts.length + 1, line.length + 1⟩ := by
  induction front using List.reverseRecOn with
  | nil => exact ⟨[], [], [], rfl, rfl, rfl⟩
  | append_singleton front c ih =>
    obtain ⟨before, line, starts, hfront, hstarts, hposition⟩ := ih
    rw [Position.behind_concat, hposition, feeds_append, Nat.zero_add, feeds]
    by_cases hfeed : c = '\n'
    · refine ⟨front ++ [c], [], 0 :: feeds 0 front, (List.append_nil _).symm, ?_, ?_⟩
      · rw [if_pos hfeed, width_append, hfeed]
        rfl
      · rw [hfeed, Position.after_feed, hstarts, List.length_append]
        rfl
    · refine ⟨before, line ++ [c], starts, ?_, ?_, ?_⟩
      · rw [hfront, List.append_assoc]
      · rw [if_neg hfeed, feeds, List.append_nil, hstarts]
      · rw [Position.after_of_ne hfeed, List.length_append]
        rfl

/-- The line found is the last one that does not begin beyond the offset. -/
theorem line?_eq (hsorted : (starts ++ start :: later).Pairwise (· < ·)) (hstart : start ≤ offset)
    (hlater : ∀ next ∈ later, offset < next) :
    line? (starts ++ start :: later) offset = some starts.length := by
  have hearlier : ∀ earlier ∈ starts, earlier < start := fun earlier hmem =>
    (List.pairwise_append.mp hsorted).2.2 earlier hmem start List.mem_cons_self
  rcases Nat.eq_or_lt_of_le hstart with rfl | hstart
  · have hindex : (starts ++ start :: later).idxOf? start = some starts.length := by
      have hnone : starts.idxOf? start = none :=
        List.idxOf?_eq_none_iff.mpr fun hmem => Nat.lt_irrefl start (hearlier start hmem)
      rw [List.idxOf?] at hnone ⊢
      rw [List.findIdx?_append, hnone, List.findIdx?_cons, if_pos BEq.rfl]
      simp
    rw [line?, search?, if_pos hsorted, hindex]
    rfl
  · have hindex : (starts ++ start :: later).idxOf? offset = none := by
      refine List.idxOf?_eq_none_iff.mpr fun hmem => ?_
      rcases List.mem_append.mp hmem with hmem | hmem
      · have hlt := hearlier offset hmem
        omega
      · rcases List.mem_cons.mp hmem with rfl | hmem
        · exact Nat.lt_irrefl _ hstart
        · exact Nat.lt_irrefl _ (hlater offset hmem)
    have hcount : (starts ++ start :: later).countP (· < offset) = starts.length + 1 := by
      have hfront : starts.countP (· < offset) = starts.length :=
        List.countP_eq_length.mpr fun earlier hmem =>
          decide_eq_true (Nat.lt_trans (hearlier earlier hmem) hstart)
      have hback : later.countP (· < offset) = 0 := by
        refine List.countP_eq_zero.mpr fun next hmem => ?_
        have hlt := hlater next hmem
        simp only [decide_eq_true_iff]
        omega
      rw [List.countP_append, hfront, List.countP_cons_of_pos (by simpa using hstart), hback]
    rw [line?, search?, if_pos hsorted, hindex, hcount]
    exact sub?_add_right starts.length 1

end Starts

section Floors

variable {text front rest : List Char} {c : Char} {offset : Nat}

/-- Inside a character there is no boundary. -/
theorem isBoundary_eq_false (hfront : width front < offset)
    (hinside : offset < width front + c.utf8Size) :
    isBoundary (front ++ c :: rest) offset = false := by
  rw [isBoundary, Option.isSome_eq_false_iff, Option.isNone_iff_eq_none,
    Option.eq_none_iff_forall_ne_some]
  intro behind hbehind
  obtain ⟨other, htext, hoffset⟩ := behind?_eq_some_iff.mp hbehind
  rcases List.append_eq_append_iff.mp htext with ⟨more, hother, hrest⟩ | ⟨more, hother, hrest⟩
  · -- what lies in front of a later boundary is longer by the character at least
    cases more with
    | nil =>
      rw [hother, List.append_nil] at hoffset
      omega
    | cons d more =>
      rw [List.cons_append] at hrest
      have hsize : c.utf8Size = d.utf8Size := congrArg Char.utf8Size (List.cons.inj hrest).1
      rw [hother, width_append, width_cons] at hoffset
      omega
  · rw [hother, width_append] at hfront
    omega

theorem floor?_boundary (front rest : List Char) :
    floor? (front ++ rest) (width front) = some (width front) := by
  have hcut : Cut (front ++ rest) (width front) rest := ⟨front, rfl, rfl⟩
  have hboundary := hcut.isBoundary
  cases hwidth : width front with
  | zero => rw [floor?, if_pos (hwidth ▸ hboundary)]
  | succ offset => rw [floor?, if_pos (hwidth ▸ hboundary)]

/-- From inside a character the search goes back to where it begins. The induction is on how far. -/
theorem floor?_inside (distance : Nat) (hinside : distance < c.utf8Size) :
    floor? (front ++ c :: rest) (width front + distance) = some (width front) := by
  induction distance with
  | zero => exact floor?_boundary front (c :: rest)
  | succ distance ih =>
    have hboundary : isBoundary (front ++ c :: rest) (width front + (distance + 1)) = false :=
      isBoundary_eq_false (by omega) (by omega)
    rw [← Nat.add_assoc] at hboundary ⊢
    rw [floor?, hboundary, if_neg Bool.false_ne_true]
    exact ih (by omega)

end Floors

/-- The search goes back to behind the characters that fit. -/
theorem floor?_eq (text : List Char) (offset : Nat) :
    floor? text (min offset (width text)) = some (width (LineIndex.fittingChars offset text)) := by
  obtain ⟨hfits, rest, htext, hnext⟩ := LineIndex.fittingChars_spec offset text
  generalize LineIndex.fittingChars offset text = front at hfits htext hnext
  subst htext
  cases rest with
  | nil =>
    have hmin : min offset (width (front ++ [])) = width front := by
      rw [List.append_nil]
      omega
    rw [hmin]
    exact floor?_boundary front []
  | cons c rest =>
    have hlt := hnext c rfl
    have hmin : min offset (width (front ++ c :: rest)) = width front + (offset - width front) := by
      rw [width_append, width_cons]
      omega
    rw [hmin]
    exact floor?_inside _ (by omega)

/-- A table finds the position of every offset, and it is the one that the lines give. -/
theorem position?_eq (text : String) (offset : Nat) :
    (ofText text).position? offset = some ((LineIndex.ofText text).position offset) := by
  rw [LineIndex.position_eq]
  have hsorted := pairwise_starts text
  obtain ⟨-, rest, htext, -⟩ := LineIndex.fittingChars_spec offset text.toList
  have hfloor := floor?_eq text.toList offset
  generalize LineIndex.fittingChars offset text.toList = front at htext hfloor
  obtain ⟨before, line, starts, hfront, hstarts, hposition⟩ := exists_line front
  have hlines : (ofText text).starts =
      starts ++ width before :: feeds (width front) rest := by
    show 0 :: feeds 0 text.toList = _
    rw [htext, feeds_append, Nat.zero_add, ← List.cons_append, hstarts, List.append_assoc]
    rfl
  have hline : line? (ofText text).starts (width front) = some starts.length := by
    rw [hlines] at hsorted ⊢
    refine line?_eq hsorted ?_ fun next hmem => (lt_of_mem_feeds hmem).1
    rw [hfront, width_append]
    exact Nat.le_add_right _ _
  have hstart : (ofText text).starts[starts.length]? = some (width before) := by
    rw [hlines, List.getElem?_append_right (Nat.le_refl _), Nat.sub_self]
    rfl
  have hslice : slice? text.toList (width before) (width front) = some line := by
    rw [htext, hfront, slice?_eq_some_iff]
    exact ⟨before, rest, rfl, rfl, rfl⟩
  rw [position?, show (ofText text).text = text.toList from rfl, hfloor]
  simp only [Option.bind_eq_bind, Option.bind_some, hline, hstart, hslice, hposition]
  rfl

end LineTable
end EdgeQuery
