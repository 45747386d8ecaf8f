import Mathlib.Data.List.DropRight
import ViewCache.Text.Blank

namespace ViewCache.Text

def IsTrimmed (s : List Char) : Prop :=
  (∀ c ∈ s.head?, isBlank c = false) ∧ ∀ c ∈ s.getLast?, isBlank c = false

def Padded (s padded : List Char) : Prop :=
  ∃ before after, padded = before ++ (s ++ after) ∧
    (∀ c ∈ before, isBlank c = true) ∧ ∀ c ∈ after, isBlank c = true

variable {s : List Char}

theorem trimEnd_eq (s : List Char) : trimEnd s = s.rdropWhile isBlank := rfl

theorem last_of_trimEnd {c : Char} (last : c ∈ (trimEnd s).getLast?) : isBlank c = false := by
  obtain ⟨some, rfl⟩ := List.mem_getLast?_eq_getLast last
  exact eq_false_of_ne_true (List.rdropWhile_last_not isBlank s some)

theorem head_of_trimStart {c : Char} (first : c ∈ (trimStart s).head?) : isBlank c = false := by
  have stopped := List.head?_dropWhile_not isBlank s
  rwa [show (s.dropWhile isBlank).head? = some c from first] at stopped

theorem head?_trimEnd {c : Char} (first : s.head? = some c) (visible : isBlank c = false) :
    (trimEnd s).head? = some c := by
  have whole : trimEnd s ++ s.rtakeWhile isBlank = s := List.rdropWhile_append_rtakeWhile
  cases kept : trimEnd s with
  | nil =>
      have blank := List.rdropWhile_eq_nil_iff.mp kept c (List.mem_of_mem_head? first)
      rw [visible] at blank
      cases blank
  | cons d rest =>
      rw [kept] at whole
      rw [← whole] at first
      exact first

theorem head?_trim {c : Char} (first : s.head? = some c) (visible : isBlank c = false) :
    (trim s).head? = some c := by
  obtain ⟨rest, rfl⟩ := List.head?_eq_some_iff.mp first
  have unmoved : trimStart (c :: rest) = c :: rest := List.dropWhile_cons_of_neg (by simp [visible])
  rw [trim, unmoved]
  exact head?_trimEnd rfl visible

theorem trim_of_last (last : ∀ c ∈ s.getLast?, isBlank c = false) : trim s = trimStart s := by
  have tail : trimStart s <:+ s := List.dropWhile_suffix isBlank
  rw [trim, trimEnd_eq, List.rdropWhile_eq_self_iff]
  intro some blank
  rw [tail.getLast some] at blank
  have visible := last _ (List.getLast_mem_getLast? (tail.ne_nil some))
  rw [visible] at blank
  cases blank

theorem trimStart_append (some : trimStart s ≠ []) (more : List Char) :
    trimStart (s ++ more) = trimStart s ++ more := by
  rw [trimStart, List.dropWhile_append]
  exact if_neg (mt List.isEmpty_iff.mp some)

theorem isTrimmed_trim (s : List Char) : IsTrimmed (trim s) := by
  refine ⟨?_, fun c last => last_of_trimEnd last⟩
  intro c first
  have whole : trimEnd (trimStart s) ++ (trimStart s).rtakeWhile isBlank = trimStart s :=
    List.rdropWhile_append_rtakeWhile
  apply head_of_trimStart (s := s)
  rw [← whole, List.head?_append]
  exact Option.or_eq_some_iff.mpr (.inl first)

theorem trim_of_isTrimmed (trimmed : IsTrimmed s) : trim s = s := by
  rw [trim_of_last trimmed.2]
  cases s with
  | nil => rfl
  | cons c rest => exact List.dropWhile_cons_of_neg (by simp [trimmed.1 c rfl])

theorem trimEnd_append {after : List Char} (s : List Char) (blank : ∀ c ∈ after, isBlank c = true) :
    trimEnd (s ++ after) = trimEnd s := by
  have unseen : ∀ c ∈ after.reverse, isBlank c = true := fun c member => blank c (List.mem_reverse.mp member)
  rw [trimEnd, trimEnd, List.reverse_append, List.dropWhile_append_of_pos unseen]

theorem trimStart_eq_nil (blank : ∀ c ∈ s, isBlank c = true) : trimStart s = [] :=
  List.dropWhile_eq_nil_iff.mpr blank

theorem trim_of_padded {padded : List Char} (pads : Padded s padded) : trim padded = trim s := by
  obtain ⟨before, after, rfl, front, back⟩ := pads
  have led : trimStart (before ++ (s ++ after)) = trimStart (s ++ after) := List.dropWhile_append_of_pos front
  rw [trim, trim, led, trimStart, List.dropWhile_append]
  split
  case isTrue none =>
    have nothing : trimStart s = [] := List.isEmpty_iff.mp none
    rw [nothing, ← trimStart, trimStart_eq_nil back]
  case isFalse => exact trimEnd_append _ back

end ViewCache.Text
