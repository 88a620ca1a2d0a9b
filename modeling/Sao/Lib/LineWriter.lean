import Mathlib.Data.List.DropRight

/-!
# A line-buffered writer

What is written is passed on up to its last line break, and the rest is held back in a buffer of bounded
size. A buffer that is too small for what comes is emptied first, and what is as long as the buffer goes
past it. Whoever ends with something held back flushes it, and is not told if that fails.

* `Holds.write` — what is held back is the end of what was written, fits the buffer and has no line break.
* `passed_isPrefix`, `Holds.lost` — so, whatever becomes of the last flush, the receiver gets what was written but
  for such an end.
-/

namespace LineWriter

variable {α : Type} [DecidableEq α] (eol : α) (capacity : Nat)

/-- What is in the buffer when `new` has been written behind `held`. -/
def fill (held new : List α) : List α :=
  if new.length < capacity then
    if held.length + new.length ≤ capacity then held ++ new else new
  else []

/-- Lines are passed on, together with what was held. -/
def keep (held new : List α) : List α :=
  if eol ∈ new then fill capacity [] (new.rtakeWhile (· ≠ eol)) else fill capacity held new

/-- What the receiver has when `n` elements of what is held have been flushed. -/
def passed (written held : List α) (n : Nat) : List α := written.take (written.length - held.length + n)

/-- What a writer holds back of what was written. -/
structure Holds (written held : List α) : Prop where
  suffix : held <:+ written
  fits : held.length ≤ capacity
  unended : eol ∉ held

variable {eol capacity} {written held : List α}

omit [DecidableEq α] in
theorem fill_suffix (held new : List α) : fill capacity held new <:+ held ++ new := by
  unfold fill
  split
  · split
    · exact List.suffix_refl _
    · exact List.suffix_append _ _
  · exact List.nil_suffix

omit [DecidableEq α] in
theorem length_fill_le (held new : List α) : (fill capacity held new).length ≤ capacity := by
  unfold fill
  split
  · split
    · rw [List.length_append]
      assumption
    · exact Nat.le_of_lt ‹_›
  · exact Nat.zero_le _

theorem keep_suffix (held new : List α) : keep eol capacity held new <:+ held ++ new := by
  unfold keep
  split
  · have htail : new.rtakeWhile (· ≠ eol) <:+ new := List.rtakeWhile_suffix _ _
    exact ((fill_suffix [] _).trans htail).trans (List.suffix_append _ _)
  · exact fill_suffix held new

theorem length_keep_le (held new : List α) : (keep eol capacity held new).length ≤ capacity := by
  unfold keep
  split
  · exact length_fill_le _ _
  · exact length_fill_le _ _

theorem eol_not_mem_keep (h : eol ∉ held) (new : List α) : eol ∉ keep eol capacity held new := by
  unfold keep
  split
  · intro hm
    have htail := (fill_suffix [] _).subset hm
    rw [List.nil_append] at htail
    simpa using List.mem_rtakeWhile_imp htail
  · rename_i hnew
    intro hm
    rcases List.mem_append.1 ((fill_suffix held new).subset hm) with hm | hm
    · exact h hm
    · exact hnew hm

omit [DecidableEq α] in
theorem holds_nil (written : List α) : Holds eol capacity written [] :=
  ⟨List.nil_suffix, Nat.zero_le _, List.not_mem_nil⟩

/-- **One write.** -/
theorem Holds.write (h : Holds eol capacity written held) (new : List α) :
    Holds eol capacity (written ++ new) (keep eol capacity held new) := by
  obtain ⟨before, rfl⟩ := h.suffix
  refine ⟨?_, length_keep_le _ _, eol_not_mem_keep h.unended _⟩
  rw [List.append_assoc]
  exact (keep_suffix held new).trans (List.suffix_append _ _)

omit [DecidableEq α] in
theorem passed_isPrefix (written held : List α) (n : Nat) : passed written held n <+: written := List.take_prefix _ _

omit [DecidableEq α] in
/-- **What a failing flush loses.** -/
theorem Holds.lost (h : Holds eol capacity written held) (n : Nat) :
    ∃ lost, written = passed written held n ++ lost ∧ lost.length ≤ capacity ∧ eol ∉ lost := by
  obtain ⟨before, rfl⟩ := h.suffix
  have hdrop : (before ++ held).drop ((before ++ held).length - held.length + n) = held.drop n := by
    rw [List.length_append, Nat.add_sub_cancel, List.drop_append, List.drop_eq_nil_of_le (by omega),
      List.nil_append, Nat.add_sub_cancel_left]
  refine ⟨held.drop n, ?_, ?_, fun hm => h.unended (List.mem_of_mem_drop hm)⟩
  · rw [passed, ← hdrop, List.take_append_drop]
  · rw [List.length_drop]
    exact (Nat.sub_le _ _).trans h.fits

end LineWriter
