import ClusterPlan.Text.Blank
import Mathlib.Data.List.DropRight

/-!
# Blanks around a text

`Trims` says what a text is without the blanks around it, and trimming finds just that (`trim_eq_iff`).
-/

namespace ClusterPlan.Text

/-- A text is another one without the blanks around it. -/
structure Trims (cs core : List Char) : Prop where
  around : ∃ before after, cs = before ++ core ++ after ∧ (∀ c ∈ before, isBlank c = true) ∧ ∀ c ∈ after, isBlank c = true
  head : ∀ c ∈ core.head?, isBlank c = false
  last : ∀ c ∈ core.getLast?, isBlank c = false

/-- Trimming drops blanks in front, then those behind. -/
theorem trim_eq (cs : List Char) : trim cs = (cs.dropWhile isBlank).rdropWhile isBlank := rfl

/-- What starts with no blank loses nothing in front. -/
theorem dropWhile_eq_self {core : List Char} (h : ∀ c ∈ core.head?, isBlank c = false) : core.dropWhile isBlank = core := by
  cases core with
  | nil => rfl
  | cons c core => exact List.dropWhile_cons_of_neg (Bool.eq_false_iff.1 (h c rfl))

/-- What ends with no blank loses nothing behind. -/
theorem rdropWhile_eq_self {core : List Char} (h : ∀ c ∈ core.getLast?, isBlank c = false) : core.rdropWhile isBlank = core :=
  List.rdropWhile_eq_self_iff.2 fun hne => Bool.eq_false_iff.1 (h _ (List.getLast_mem_getLast? hne))

/-- Blanks behind a text are dropped with those that it ends with. -/
theorem rdropWhile_append_of_blank (core : List Char) {after : List Char} (h : ∀ c ∈ after, isBlank c = true) :
    (core ++ after).rdropWhile isBlank = core.rdropWhile isBlank := by
  rw [List.rdropWhile, List.reverse_append, List.dropWhile_append_of_pos fun c hc => h c (List.mem_reverse.1 hc), List.rdropWhile]

/-- Nothing is left of a text of blanks. -/
theorem trim_of_blank {cs : List Char} (h : ∀ c ∈ cs, isBlank c = true) : trim cs = [] := by
  rw [trim_eq, List.dropWhile_eq_nil_iff.2 h, List.rdropWhile_nil]

/-- Trimming gives what is left without the blanks around. -/
theorem Trims.trim_eq {cs core : List Char} (h : Trims cs core) : trim cs = core := by
  obtain ⟨⟨before, after, rfl, hbefore, hafter⟩, hhead, hlast⟩ := h
  obtain rfl | hne := eq_or_ne core []
  · refine trim_of_blank fun c hc => ?_
    rw [List.append_nil, List.mem_append] at hc
    exact hc.elim (hbefore c) (hafter c)
  · have hfront : ∀ c ∈ (core ++ after).head?, isBlank c = false := by
      rwa [List.head?_append, List.head?_eq_some_head hne, Option.some_or, ← List.head?_eq_some_head hne]
    rw [Text.trim_eq, List.append_assoc, List.dropWhile_append_of_pos hbefore, dropWhile_eq_self hfront,
      rdropWhile_append_of_blank core hafter, rdropWhile_eq_self hlast]

/-- What trimming leaves is the text without the blanks around it. -/
theorem trims_trim (cs : List Char) : Trims cs (trim cs) where
  around := by
    refine ⟨cs.takeWhile isBlank, (cs.dropWhile isBlank).rtakeWhile isBlank, ?_, fun c => List.mem_takeWhile_imp,
      fun c => List.mem_rtakeWhile_imp⟩
    rw [trim_eq, List.append_assoc, List.rdropWhile_append_rtakeWhile, List.takeWhile_append_dropWhile]
  head := by
    intro c hc
    have hprefix : trim cs <+: cs.dropWhile isBlank := List.rdropWhile_prefix _ _
    have hnot := List.head?_dropWhile_not isBlank cs
    obtain ⟨rest, hrest⟩ := hprefix
    rw [← hrest, List.head?_append, hc, Option.some_or] at hnot
    exact hnot
  last := by
    intro c hc
    obtain ⟨hne, rfl⟩ := List.mem_getLast?_eq_getLast hc
    exact Bool.eq_false_iff.2 (List.rdropWhile_last_not isBlank _ hne)

/-- Trimming leaves out the blanks around a text, and no others. -/
theorem trim_eq_iff {cs core : List Char} : trim cs = core ↔ Trims cs core :=
  ⟨fun h => h ▸ trims_trim cs, Trims.trim_eq⟩

end ClusterPlan.Text
