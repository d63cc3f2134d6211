import EdgeQuery.Text.Quoted

/-!
Texts on one line: numbers, and texts and characters that are quoted, whatever is in them.
-/

namespace EdgeQuery.Text

/-- There is neither a line feed nor a carriage return. -/
def OnOneLine (chars : List Char) : Prop :=
  '\n' ∉ chars ∧ '\r' ∉ chars

instance (chars : List Char) : Decidable (OnOneLine chars) :=
  inferInstanceAs (Decidable ('\n' ∉ chars ∧ '\r' ∉ chars))

@[simp]
theorem onOneLine_nil : OnOneLine [] := by decide

@[simp]
theorem onOneLine_append {front back : List Char} :
    OnOneLine (front ++ back) ↔ OnOneLine front ∧ OnOneLine back := by
  simp only [OnOneLine, List.mem_append, not_or]
  exact and_and_and_comm

theorem OnOneLine.concat {front back : String} (hfront : OnOneLine front.toList)
    (hback : OnOneLine back.toList) : OnOneLine (front ++ back).toList := by
  rw [String.toList_append]
  exact onOneLine_append.mpr ⟨hfront, hback⟩

theorem onOneLine_iff {chars : List Char} :
    OnOneLine chars ↔ ∀ c ∈ chars, OnOneLine [c] := by
  induction chars with
  | nil => simp
  | cons c chars ih =>
    rw [← List.singleton_append, onOneLine_append, ih, List.forall_mem_append,
      List.forall_mem_singleton]

theorem onOneLine_flatMap {α : Type} {list : List α} {write : α → List Char} :
    OnOneLine (list.flatMap write) ↔ ∀ a ∈ list, OnOneLine (write a) := by
  induction list with
  | nil => simp
  | cons a list ih => rw [List.flatMap_cons, onOneLine_append, ih, List.forall_mem_cons]

/-- The digits of a number. The induction is on the number without its last digit. -/
theorem toDigits_onOneLine {base : Nat} (hlow : 1 < base) (hhigh : base ≤ 16) (n : Nat) :
    OnOneLine (Nat.toDigits base n) := by
  have hdigit : ∀ digit < 16, OnOneLine [digit.digitChar] := by decide
  induction n using Nat.strongRecOn with
  | _ n ih =>
    by_cases hsmall : n < base
    · rw [Nat.toDigits_of_lt_base hsmall]
      exact hdigit n (Nat.lt_of_lt_of_le hsmall hhigh)
    · have hle := Nat.not_lt.mp hsmall
      have hlast := Nat.mod_lt n (Nat.zero_lt_of_lt hlow)
      rw [Nat.toDigits_of_base_le hlow hle, onOneLine_append]
      exact ⟨ih (n / base) (Nat.div_lt_self (by omega) hlow),
        hdigit _ (Nat.lt_of_lt_of_le hlast hhigh)⟩

@[simp]
theorem onOneLine_toString (n : Nat) : OnOneLine (toString n).toList := by
  rw [Nat.toString_eq_ofList_toDigits, String.toList_ofList]
  exact toDigits_onOneLine (by decide) (by decide) n

/-- How a character is written between quotes. -/
theorem escape_onOneLine (quote c : Char) : OnOneLine (escape quote c) := by
  unfold escape
  split
  · decide
  split
  · decide
  split
  · decide
  next hreturn =>
  split
  · decide
  next hfeed =>
  have hself : OnOneLine [c] := by simp [OnOneLine, Ne.symm hreturn, Ne.symm hfeed]
  split
  · exact onOneLine_append.mpr ⟨show OnOneLine ['\\'] by decide, hself⟩
  split
  · simp only [onOneLine_append]
    exact ⟨⟨by decide, toDigits_onOneLine (by decide) (by decide) c.toNat⟩, by decide⟩
  · exact hself

theorem quote_onOneLine {mark : Char} (hmark : OnOneLine [mark]) (content : List Char) :
    OnOneLine (quote mark content).toList := by
  rw [quote, String.toList_ofList, ← List.singleton_append, onOneLine_append, onOneLine_append,
    onOneLine_flatMap]
  exact ⟨⟨hmark, fun c _ => escape_onOneLine mark c⟩, hmark⟩

@[simp]
theorem onOneLine_quoted (content : String) : OnOneLine (quoted content).toList :=
  quote_onOneLine (by decide) content.toList

@[simp]
theorem onOneLine_quotedChar (c : Char) : OnOneLine (quotedChar c).toList :=
  quote_onOneLine (by decide) [c]

set_option maxRecDepth 8192 in
-- A line feed in a quoted text is written as a backslash and a letter.
example : quoted "a\nb" = "\"a\\nb\"" := by cbv

end EdgeQuery.Text
