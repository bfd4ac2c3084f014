import Mathlib

/-! # Files of lines

A file to which lines are appended.  Its lines are what a separator ends; what follows the last
separator is its tail, which nothing has ended yet.  The lines of a file are the first lines of every
file that goes on from it.  A tail counts as a copy of a line, since the next separator makes it one. -/

namespace LineLog

variable {α : Type} [DecidableEq α] (sep : α)

/-- One more element behind the lines and the tail. -/
def feed (w : List (List α) × List α) (b : α) : List (List α) × List α :=
  if b = sep then (w.1 ++ [w.2], []) else (w.1, w.2 ++ [b])

def split (log : List α) : List (List α) × List α := log.foldl (feed sep) ([], [])

def lines (log : List α) : List (List α) := (split sep log).1

def tail (log : List α) : List α := (split sep log).2

/-- How often a line is there, or is the tail. -/
def copies (line log : List α) : ℕ := (lines sep log ++ [tail sep log]).count line

/-- What is appended to a file for a line that it does not have: a torn tail is ended first, and one
that is the line itself is only ended. -/
def ending (line log : List α) : List α :=
  if tail sep log = line then [sep]
  else (if tail sep log = [] then [] else [sep]) ++ line ++ [sep]

variable {sep} {line log p t : List α}

theorem foldl_feed (hp : sep ∉ p) (w : List (List α) × List α) :
    p.foldl (feed sep) w = (w.1, w.2 ++ p) := by
  induction p generalizing w with
  | nil => rw [List.append_nil]; rfl
  | cons b p ih =>
      have hb : b ≠ sep := fun h => hp (h ▸ List.mem_cons_self)
      rw [List.foldl_cons, ih (fun h => hp (List.mem_cons_of_mem b h))]
      simp [feed, hb]

theorem prefix_foldl (t : List α) (w : List (List α) × List α) : w.1 <+: (t.foldl (feed sep) w).1 := by
  induction t generalizing w with
  | nil => exact List.prefix_rfl
  | cons b t ih =>
      refine List.IsPrefix.trans ?_ (ih (feed sep w b))
      unfold feed
      split
      · exact List.prefix_append _ _
      · exact List.prefix_rfl

theorem split_append : split sep (log ++ t) = t.foldl (feed sep) (split sep log) := List.foldl_append

/-- The lines of a file stay the first ones. -/
theorem lines_prefix (log t : List α) : lines sep log <+: lines sep (log ++ t) := by
  unfold lines
  rw [split_append]
  exact prefix_foldl t _

theorem lines_append (hp : sep ∉ p) : lines sep (log ++ p) = lines sep log := by
  rw [lines, split_append, foldl_feed hp]
  rfl

theorem tail_append (hp : sep ∉ p) : tail sep (log ++ p) = tail sep log ++ p := by
  rw [tail, split_append, foldl_feed hp]
  rfl

@[simp] theorem lines_snoc : lines sep (log ++ [sep]) = lines sep log ++ [tail sep log] := by
  rw [lines, split_append]
  simp only [List.foldl_cons, List.foldl_nil, feed, if_pos]
  rfl

@[simp] theorem tail_snoc : tail sep (log ++ [sep]) = [] := by
  rw [tail, split_append]
  simp only [List.foldl_cons, List.foldl_nil, feed, if_pos]

/-- A file has no tail when it is empty or ends in a separator. -/
theorem tail_eq_nil : tail sep log = [] ↔ log = [] ∨ log.getLast? = some sep := by
  rcases log.eq_nil_or_concat with rfl | ⟨log, b, rfl⟩
  · simp [tail, split]
  · rw [List.concat_eq_append, List.getLast?_concat]
    by_cases hb : b = sep
    · subst hb
      simp
    · rw [tail_append (by simpa using Ne.symm hb)]
      simp [hb]

/-! ### Copies -/

/-- Ending the tail makes no copy of a line. -/
theorem copies_snoc (hline : line ≠ []) : copies sep line (log ++ [sep]) = copies sep line log := by
  unfold copies
  rw [lines_snoc, tail_snoc, List.count_append, List.count_singleton, beq_false_of_ne hline.symm]
  rfl

/-- What is written behind an ended line is one copy of itself. -/
theorem copies_append (htail : tail sep log = []) (hp : sep ∉ p) (hline : line ≠ []) :
    copies sep line (log ++ p) = copies sep line log + if p = line then 1 else 0 := by
  unfold copies
  rw [lines_append hp, tail_append hp, htail, List.nil_append, List.count_append, List.count_append,
    List.count_singleton, List.count_singleton, beq_false_of_ne hline.symm]
  simp

theorem count_le_copies : (lines sep log).count line ≤ copies sep line log := by
  rw [copies, List.count_append]
  exact Nat.le_add_right _ _

/-- A file without the line and another tail has no copy of it. -/
theorem copies_eq_zero (hline : line ∉ lines sep log) (htail : tail sep log ≠ line) :
    copies sep line log = 0 := by
  rw [copies, List.count_eq_zero, List.mem_append, List.mem_singleton, not_or]
  exact ⟨hline, Ne.symm htail⟩

/-- A line is written behind an ended one, as far as it gets. -/
theorem copies_append_take {n : ℕ} (htail : tail sep log = []) (hp : sep ∉ p) (hline : line ≠ []) :
    copies sep line (log ++ (p ++ [sep]).take n) =
      copies sep line log + if p.take n = line then 1 else 0 := by
  by_cases hn : n ≤ p.length
  · rw [List.take_append_of_le_length hn]
    exact copies_append htail (fun h => hp (List.mem_of_mem_take h)) hline
  · have hlen : p.length ≤ n := by omega
    rw [List.take_of_length_le (by simp; omega), List.take_of_length_le hlen, ← List.append_assoc,
      copies_snoc hline]
    exact copies_append htail hp hline

/-- However far the ending of a file gets, it makes no second copy of its line when the file does not
have it, and none of a line that its line does not begin with. -/
theorem copies_ending_take {n : ℕ} {other : List α} (hp : sep ∉ p) (hother : other ≠ [])
    (hnew : other = p → p ∉ lines sep log) (hapart : other <+: p → other = p) :
    copies sep other (log ++ (ending sep p log).take n) ≤ max 1 (copies sep other log) := by
  have hbehind : ∀ file n, tail sep file = [] → copies sep other file = copies sep other log →
      tail sep log ≠ p →
      copies sep other (file ++ (p ++ [sep]).take n) ≤ max 1 (copies sep other log) := by
    intro file n htail hsame hdiffers
    rw [copies_append_take htail hp hother, hsame]
    split
    · next heq =>
        have hself : other = p := hapart (heq ▸ List.take_prefix n p)
        rw [hself, copies_eq_zero (hnew hself) hdiffers]
        exact le_max_left _ _
    · exact le_max_right _ _
  unfold ending
  split
  · rcases n with - | n
    · exact le_max_of_le_right (by simp)
    · rw [List.take_of_length_le (by simp), copies_snoc hother]
      exact le_max_right _ _
  · next hdiffers =>
      split
      · next htail => exact hbehind log n htail rfl hdiffers
      · rcases n with - | n
        · exact le_max_of_le_right (by simp)
        · rw [List.append_assoc, List.singleton_append, List.take_succ_cons, ← List.singleton_append,
            ← List.append_assoc]
          exact hbehind _ n tail_snoc (copies_snoc hother) hdiffers

/-- A file that its ending was appended to has the line. -/
theorem mem_lines_ending (hp : sep ∉ p) : p ∈ lines sep (log ++ ending sep p log) := by
  have hbehind : ∀ file, tail sep file = [] → p ∈ lines sep (file ++ (p ++ [sep])) := by
    intro file htail
    rw [← List.append_assoc, lines_snoc, tail_append hp, htail, List.nil_append]
    exact List.mem_append_right _ (List.mem_singleton_self p)
  unfold ending
  split
  · next htail =>
      rw [lines_snoc, htail]
      exact List.mem_append_right _ (List.mem_singleton_self p)
  · split
    · next htail => exact hbehind log htail
    · rw [List.append_assoc, ← List.append_assoc log]
      exact hbehind _ tail_snoc

end LineLog
