import BellaLang.Proofs.Grammar.Slices
import BellaLang.Text.Rows

/-!
The rows of a text are its lines.

Lines are counted in two ways.  The cursor goes up by one line at every line feed, and the excerpts
split a text into rows, which carriage returns end as well.  In a text without carriage returns both
come to the same: a row is what lies from one line feed to the next (`IsLineAt`).

  1. The first line of a text is its first row (`rows_of_mem`, `rows_of_notMem`).
  2. Walking down the rows comes to the line of an offset, and counts the line feeds in front of it
     (`exists_line`).
  3. The line and the column of an offset are told by its line, too (`IsLineAt.lineAt_eq`,
     `IsLineAt.columnAt_eq`).
-/

namespace BellaLang.Text

/-! ## Lines -/

/-- The text is cut in three, and in the middle is the line that an offset lies on: all of it, with
    the line feed that ends it. -/
structure IsLineAt (text : List Char) (offset : Nat) (before own behind : List Char) : Prop where
  parts : text = before ++ (own ++ behind)
  begins : before = [] ∨ before.getLast? = some '\n'
  ends : behind = [] ∨ own.getLast? = some '\n'
  single : '\n' ∉ own.dropLast
  le : before.length ≤ offset
  lt : offset < before.length + own.length

namespace IsLineAt

variable {text before own behind : List Char} {offset : Nat}

/-- In front of the offset are the lines before its own, and characters of its line. -/
theorem take_eq (h : IsLineAt text offset before own behind) :
    text.take offset = before ++ own.take (offset - before.length) := by
  have hlt := h.lt
  rw [h.parts, List.take_append, List.take_of_length_le h.le,
    List.take_append_of_le_length (by omega)]

/-- None of these is a line feed. -/
theorem notMem_take (h : IsLineAt text offset before own behind) :
    '\n' ∉ own.take (offset - before.length) := by
  have hlt := h.lt
  have hle := h.le
  refine fun hmem => h.single ?_
  rw [List.dropLast_eq_take]
  exact (List.take_subset_take_left own (by omega)) hmem

/-- The line of an offset is one more than the line feeds before. -/
theorem lineAt_eq (h : IsLineAt text offset before own behind) :
    lineAt text offset = before.count '\n' + 1 := by
  rw [lineAt, h.take_eq, List.count_append, List.count_eq_zero.mpr h.notMem_take, Nat.add_zero,
    Nat.add_comm]

/-- The column of an offset is one more than its distance from the start of its line. -/
theorem columnAt_eq (h : IsLineAt text offset before own behind) :
    columnAt text offset = offset - before.length + 1 := by
  have hlt := h.lt
  have hkept : ∀ c ∈ (own.take (offset - before.length)).reverse, decide (c ≠ '\n') = true :=
    fun c hc => decide_eq_true fun heq => h.notMem_take (heq ▸ List.mem_reverse.mp hc)
  have hstop : before.reverse.takeWhile (· ≠ '\n') = [] := by
    rcases h.begins with rfl | hlast
    · rfl
    · rw [List.getLast?_eq_head?_reverse] at hlast
      obtain ⟨tail, htail⟩ := List.head?_eq_some_iff.mp hlast
      rw [htail]
      rfl
  rw [columnAt, h.take_eq, List.reverse_append, List.takeWhile_append_of_pos hkept, hstop,
    List.append_nil, List.length_reverse, List.length_take]
  omega

/-- The character at an offset stands on its line. -/
theorem getElem?_eq (h : IsLineAt text offset before own behind) :
    own[offset - before.length]? = text[offset]? := by
  have hlt := h.lt
  have hle := h.le
  rw [h.parts, List.getElem?_append_right hle, List.getElem?_append_left (by omega)]

end IsLineAt

/-! ## Rows -/

theorem rows_ne_nil (text : List Char) : rows text ≠ [] := by
  fun_cases rows text <;> simp_all

/-- The first row of a text goes up to the first line feed. -/
theorem rows_of_mem {body : List Char} (hfeed : '\n' ∉ body) (hreturn : '\r' ∉ body)
    (rest : List Char) : rows (body ++ '\n' :: rest) = (body ++ ['\n']) :: rows rest := by
  induction body with
  | nil => simp [rows]
  | cons c body ih =>
    obtain ⟨hc, hfeed⟩ := not_or.mp (mt List.mem_cons.mpr hfeed)
    obtain ⟨hc', hreturn⟩ := not_or.mp (mt List.mem_cons.mpr hreturn)
    rw [List.cons_append, rows, if_neg (by tauto), ih hfeed hreturn]
    · rfl
    · exact fun _ h => absurd h.symm hc'

/-- Without a line feed a text is a single row. -/
theorem rows_of_notMem {text : List Char} (hfeed : '\n' ∉ text) (hreturn : '\r' ∉ text) :
    rows text = [text] := by
  induction text with
  | nil => rfl
  | cons c text ih =>
    obtain ⟨hc, hfeed⟩ := not_or.mp (mt List.mem_cons.mpr hfeed)
    obtain ⟨hc', hreturn⟩ := not_or.mp (mt List.mem_cons.mpr hreturn)
    rw [rows, if_neg (by tauto), ih hfeed hreturn]
    exact fun _ h => absurd h.symm hc'

/-! ## Finding the line of an offset -/

theorem placeFrom_cons {others : List (List Char)} (h : others ≠ []) (row offset : Nat)
    (content : List Char) :
    placeFrom row offset (content :: others) =
      if offset < content.length then ⟨row, offset, content⟩
      else placeFrom (row + 1) (offset - content.length) others := by
  cases others with
  | nil => exact absurd rfl h
  | cons other others => rfl

/-- **Rows are lines.**  In a text without carriage returns, walking down the rows comes to the line
    of the offset, and the number of its row counts the line feeds before. -/
theorem exists_line {text : List Char} (hreturn : '\r' ∉ text) {offset : Nat}
    (h : offset < text.length) (row : Nat) :
    ∃ before own behind, IsLineAt text offset before own behind ∧
      placeFrom row offset (rows text) =
        ⟨row + before.count '\n', offset - before.length, own⟩ := by
  induction hlength : text.length using Nat.strongRecOn generalizing text offset row with
  | ind length ih =>
    by_cases hfeed : '\n' ∈ text
    · obtain ⟨body, rest, rfl, hbody⟩ := List.eq_append_cons_of_mem hfeed
      have hother : '\r' ∉ body ∧ '\r' ∉ rest := by simp_all
      rw [rows_of_mem hbody hother.1, placeFrom_cons (rows_ne_nil rest)]
      rw [List.length_append, List.length_cons] at hlength h
      by_cases hfirst : offset < (body ++ ['\n']).length
      · refine ⟨[], body ++ ['\n'], rest, ⟨?_, .inl rfl, .inr List.getLast?_concat, ?_,
          Nat.zero_le _, by simpa using hfirst⟩, if_pos hfirst⟩
        · rw [List.nil_append, ← List.append_cons]
        · rw [List.dropLast_concat]
          exact hbody
      · -- The offset lies behind the first line, so the rest of the text is looked at.
        rw [if_neg hfirst]
        rw [List.length_append, List.length_singleton] at hfirst ⊢
        have hrest : offset - (body.length + 1) < rest.length := by omega
        obtain ⟨before, own, behind, hline, hplace⟩ :=
          ih rest.length (by omega) hother.2 hrest (row + 1) rfl
        refine ⟨body ++ '\n' :: before, own, behind, ⟨?_, ?_, hline.ends, hline.single, ?_, ?_⟩, ?_⟩
        · rw [List.append_assoc, List.cons_append, ← hline.parts]
        · right
          rcases hline.begins with rfl | hlast
          · exact List.getLast?_concat
          · rw [List.getLast?_append, List.getLast?_cons, hlast]
            rfl
        · have hle := hline.le
          rw [List.length_append, List.length_cons]
          omega
        · have hlt := hline.lt
          rw [List.length_append, List.length_cons]
          omega
        · rw [hplace, List.count_append, List.count_cons_self, List.count_eq_zero.mpr hbody,
            List.length_append, List.length_cons]
          congr 1 <;> omega
    · refine ⟨[], text, [], ⟨(List.append_nil text).symm, .inl rfl, .inl rfl,
        fun hmem => hfeed (List.mem_of_mem_dropLast hmem), Nat.zero_le _, by simpa using h⟩, ?_⟩
      rw [rows_of_notMem hfeed hreturn]
      rfl

end BellaLang.Text
