import Mathlib.Data.List.DropRight
import ViewCache.Text.Split

namespace ViewCache.Text

section

variable {α : Type} [DecidableEq α] {sep : α}

theorem splitOn_eq (sep : α) (s : List α) : splitOn sep s = s.splitOn sep := by
  induction s with
  | nil => rfl
  | cons c rest ih =>
      rw [List.splitOn_eq_splitOnP, List.splitOnP_cons_eq_if_modifyHead, ← List.splitOn_eq_splitOnP, ← ih, splitOn]
      cases parts : splitOn sep rest with
      | nil => exact absurd parts (splitOn_ne_nil sep rest)
      | cons part more => simp

theorem splitOn_append (before after : List α) :
    splitOn sep (before ++ sep :: after) = splitOn sep before ++ splitOn sep after := by
  simp only [splitOn_eq, List.splitOn_eq_splitOnP]
  exact List.splitOnP_append_cons before after (beq_self_eq_true sep)

theorem splitOn_of_not_mem {s : List α} (absent : sep ∉ s) : splitOn sep s = [s] := by
  rw [splitOn_eq, List.splitOn_eq_splitOnP]
  apply List.splitOnP_eq_singleton
  intro c member
  exact beq_false_of_ne fun same => absent (same ▸ member)

theorem not_mem_of_mem_splitOn {s part : List α} (member : part ∈ splitOn sep s) : sep ∉ part := by
  induction s generalizing part with
  | nil =>
      cases List.mem_singleton.mp member
      exact List.not_mem_nil
  | cons c rest ih =>
      rw [splitOn] at member
      split at member
      case isTrue =>
        rcases List.mem_cons.mp member with rfl | later
        · exact List.not_mem_nil
        · exact ih later
      case isFalse different =>
        split at member
        case h_1 none => exact absurd none (splitOn_ne_nil sep rest)
        case h_2 first parts cut =>
          rcases List.mem_cons.mp member with rfl | later
          · exact List.not_mem_cons_of_ne_of_not_mem (Ne.symm different) (ih (by simp [cut]))
          · exact ih (by simp [cut, later])

end

theorem cutOnce_eq_some {sep : Char} {s before after : List Char} :
    cutOnce sep s = some (before, after) ↔ s = before ++ sep :: after ∧ sep ∉ before := by
  induction s generalizing before with
  | nil => simp [cutOnce]
  | cons c rest ih =>
      rw [cutOnce]
      by_cases here : c = sep
      · rw [if_pos here]
        constructor
        · rintro ⟨⟩
          exact ⟨by rw [here, List.nil_append], List.not_mem_nil⟩
        · rintro ⟨whole, first⟩
          cases before with
          | nil =>
              cases whole
              rfl
          | cons d before =>
              cases whole
              exact absurd (here ▸ List.mem_cons_self) first
      · rw [if_neg here, Option.map_eq_some_iff]
        constructor
        · rintro ⟨⟨front, back⟩, cut, ⟨⟩⟩
          obtain ⟨whole, first⟩ := ih.mp cut
          exact ⟨congrArg (c :: ·) whole, List.not_mem_cons_of_ne_of_not_mem (Ne.symm here) first⟩
        · rintro ⟨whole, first⟩
          cases before with
          | nil =>
              cases whole
              exact absurd rfl here
          | cons d before =>
              cases whole
              exact ⟨(before, after), ih.mpr ⟨rfl, List.not_mem_of_not_mem_cons first⟩, rfl⟩

theorem cons_joinWith {α : Type} {sep : α} {parts : List (List α)} (some : parts ≠ []) :
    sep :: joinWith sep parts = parts.flatMap (sep :: ·) := by
  induction parts with
  | nil => exact absurd rfl some
  | cons part rest ih =>
      cases rest with
      | nil => simp [joinWith]
      | cons next more =>
          have later := ih (List.cons_ne_nil next more)
          rw [joinWith] at later ⊢
          rw [List.intercalate_cons_cons, List.flatMap_cons, ← later]
          simp

theorem joinWith_append {α : Type} {sep : α} {parts more : List (List α)} (some : parts ≠ []) (others : more ≠ []) :
    joinWith sep (parts ++ more) = joinWith sep parts ++ sep :: joinWith sep more := by
  have all : parts ++ more ≠ [] := List.append_ne_nil_of_left_ne_nil some more
  apply List.cons_injective (a := sep)
  rw [cons_joinWith all, List.flatMap_append, ← cons_joinWith some, ← cons_joinWith others]
  rfl

/-- A part that is put behind the text is a part of its own. -/
def OpenEnded (sep : Char) (s : List Char) : Prop := ∀ c ∈ s.getLast?, c = sep

variable {sep : Char} {s : List Char}

theorem splitLast_snd (sep : Char) (s : List Char) : (splitLast sep s).2 = s.rtakeWhile (· ≠ sep) := rfl

theorem splitLast_fst (sep : Char) (s : List Char) : (splitLast sep s).1 = s.rdropWhile (· ≠ sep) := by
  have whole : s.rdropWhile (· ≠ sep) ++ s.rtakeWhile (· ≠ sep) = s := List.rdropWhile_append_rtakeWhile
  have length : s.length - (splitLast sep s).2.length = (s.rdropWhile (· ≠ sep)).length := by
    rw [splitLast_snd, Nat.sub_eq_iff_eq_add, ← List.length_append, whole]
    exact (List.rtakeWhile_suffix _ s).length_le
  calc (splitLast sep s).1
    _ = s.take (s.length - (splitLast sep s).2.length) := rfl
    _ = (s.rdropWhile (· ≠ sep) ++ s.rtakeWhile (· ≠ sep)).take (s.rdropWhile (· ≠ sep)).length := by
      rw [length, whole]
    _ = s.rdropWhile (· ≠ sep) := List.take_left

theorem splitLast_append (sep : Char) (s : List Char) : (splitLast sep s).1 ++ (splitLast sep s).2 = s := by
  rw [splitLast_fst, splitLast_snd, List.rdropWhile_append_rtakeWhile]

theorem not_mem_splitLast : sep ∉ (splitLast sep s).2 := by
  rw [splitLast_snd]
  intro member
  have passed := List.mem_rtakeWhile_imp member
  simp at passed

theorem openEnded_splitLast : OpenEnded sep (splitLast sep s).1 := by
  rw [splitLast_fst]
  intro c last
  obtain ⟨some, rfl⟩ := List.mem_getLast?_eq_getLast last
  have stopped := List.rdropWhile_last_not (· ≠ sep) s some
  simpa using stopped

/-- A text is cut behind its last separator in one way only. -/
theorem splitLast_of_append {dir file : List Char} (open_ : OpenEnded sep dir) (plain : sep ∉ file) :
    splitLast sep (dir ++ file) = (dir, file) := by
  have passed : ∀ c ∈ file.reverse, (decide (c ≠ sep)) = true := by
    intro c member
    exact decide_eq_true (ne_of_mem_of_not_mem (List.mem_reverse.mp member) plain)
  have stops : dir.reverse.takeWhile (· ≠ sep) = [] := by
    rcases List.eq_nil_or_concat' dir with rfl | ⟨above, c, rfl⟩
    · rfl
    · have ends : c = sep := open_ c (by simp)
      simp [ends]
  have tail : ((dir ++ file).reverse.takeWhile (· ≠ sep)).reverse = file := by
    rw [List.reverse_append, List.takeWhile_append_of_pos passed, stops, List.append_nil, List.reverse_reverse]
  rw [splitLast, tail]
  simp

end ViewCache.Text
