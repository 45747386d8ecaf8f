import Mathlib.Data.List.Infix
import ViewCache.Proofs.Text.Split
import ViewCache.Uri

/-!
How a canonical URI is made up: directories and a last part, each a plain name behind a slash.
-/
namespace ViewCache.Uri

open Text

structure IsName (part : List Char) : Prop where
  nonempty : part ≠ []
  noDot : part ≠ ['.']
  noClimb : part ≠ ['.', '.']
  plain : '/' ∉ part

theorem segments_append (before after : List Char) :
    segments (before ++ '/' :: after) = segments before ++ segments after := by
  simp only [segments, splitOn_append, List.filter_append]

theorem segments_of_plain {part : List Char} (plain : '/' ∉ part) :
    segments part = if part = [] ∨ part = ['.'] then [] else [part] := by
  rw [segments, splitOn_of_not_mem plain]
  by_cases skipped : part = [] ∨ part = ['.']
  · rcases skipped with rfl | rfl <;> simp
  · obtain ⟨some, noDot⟩ := not_or.mp skipped
    simp [some, noDot]

theorem segments_of_name {part : List Char} (name : IsName part) : segments part = [part] := by
  rw [segments_of_plain name.plain]
  exact if_neg (not_or.mpr ⟨name.nonempty, name.noDot⟩)

theorem segments_of_open {dir : List Char} (open_ : OpenEnded '/' dir) (rest : List Char) :
    segments (dir ++ rest) = segments dir ++ segments rest := by
  rcases List.eq_nil_or_concat' dir with rfl | ⟨above, c, rfl⟩
  · rfl
  · have slash : c = '/' := open_ c (by simp)
    have whole := segments_append above rest
    have front := segments_append above []
    rw [slash, List.append_assoc, List.singleton_append, whole, front]
    simp [segments_of_plain]

theorem mem_segments {path part : List Char} (member : part ∈ segments path) :
    part ≠ [] ∧ part ≠ ['.'] ∧ '/' ∉ part := by
  obtain ⟨cut, counts⟩ := List.mem_filter.mp member
  have counts : part ≠ [] ∧ part ≠ ['.'] := by simpa using counts
  exact ⟨counts.1, counts.2, not_mem_of_mem_splitOn cut⟩

theorem isName_of_mem_segments {path part : List Char} (descends : ['.', '.'] ∉ segments path)
    (member : part ∈ segments path) : IsName part := by
  obtain ⟨some, noDot, plain⟩ := mem_segments member
  exact ⟨some, noDot, fun climbs => descends (climbs ▸ member), plain⟩

theorem extension_suffix (s : List Char) : extension <:+ withExtension s := by
  rw [withExtension]
  split
  case isTrue present => exact List.isSuffixOf_iff_suffix.mp present
  case isFalse => exact List.suffix_append s extension

theorem withExtension_of_suffix {s : List Char} (present : extension <:+ s) : withExtension s = s :=
  if_pos (List.isSuffixOf_iff_suffix.mpr present)

theorem withExtension_idem (s : List Char) : withExtension (withExtension s) = withExtension s :=
  withExtension_of_suffix (extension_suffix s)

theorem slash_not_mem_extension : '/' ∉ extension := by decide

theorem extension_suffix_append {dir : List Char} (open_ : OpenEnded '/' dir) (rest : List Char) :
    extension <:+ dir ++ rest ↔ extension <:+ rest := by
  refine ⟨fun present => ?_, fun present => present.trans (List.suffix_append dir rest)⟩
  rcases List.suffix_or_suffix_of_suffix present (List.suffix_append dir rest) with within | beyond
  · exact within
  rcases List.eq_nil_or_concat' dir with rfl | ⟨above, c, rfl⟩
  · exact present
  have slash : c = '/' := open_ c (by simp)
  have behind : c :: rest <:+ (above ++ [c]) ++ rest := ⟨above, by simp⟩
  rcases List.suffix_or_suffix_of_suffix present behind with short | long
  · rcases List.suffix_cons_iff.mp short with same | within
    · have starts : c ∈ extension := by simp [same]
      exact absurd (slash ▸ starts) slash_not_mem_extension
    · exact within
  · have inside : c ∈ extension := long.subset List.mem_cons_self
    exact absurd (slash ▸ inside) slash_not_mem_extension

theorem withExtension_append {dir : List Char} (open_ : OpenEnded '/' dir) (rest : List Char) :
    withExtension (dir ++ rest) = dir ++ withExtension rest := by
  by_cases present : extension <:+ rest
  · rw [withExtension_of_suffix present, withExtension_of_suffix]
    exact (extension_suffix_append open_ rest).mpr present
  · have absent : ¬ extension <:+ dir ++ rest := mt (extension_suffix_append open_ rest).mp present
    rw [withExtension, withExtension, if_neg (mt List.isSuffixOf_iff_suffix.mp absent),
      if_neg (mt List.isSuffixOf_iff_suffix.mp present), List.append_assoc]

theorem slash_not_mem_withExtension {part : List Char} (plain : '/' ∉ part) : '/' ∉ withExtension part := by
  rw [withExtension]
  split
  · exact plain
  · exact fun member => (List.mem_append.mp member).elim plain slash_not_mem_extension

theorem isName_withExtension {part : List Char} (plain : '/' ∉ part) : IsName (withExtension part) := by
  have long : extension.length ≤ (withExtension part).length := (extension_suffix part).length_le
  have length : extension.length = 4 := by decide
  refine ⟨?_, ?_, ?_, slash_not_mem_withExtension plain⟩ <;> intro short
  all_goals
    rw [short, length] at long
    simp at long

theorem ofSegments_concat (dirs : List (List Char)) (last : List Char) :
    ofSegments (dirs ++ [last]) = dirs.flatMap ('/' :: ·) ++ '/' :: withExtension last := by
  have some : dirs ++ [last] ≠ [] := by simp
  have open_ : OpenEnded '/' (dirs.flatMap ('/' :: ·) ++ ['/']) := by simp [OpenEnded]
  calc ofSegments (dirs ++ [last])
    _ = withExtension ((dirs ++ [last]).flatMap ('/' :: ·)) := by rw [ofSegments, cons_joinWith some]
    _ = withExtension ((dirs.flatMap ('/' :: ·) ++ ['/']) ++ last) := by simp
    _ = dirs.flatMap ('/' :: ·) ++ '/' :: withExtension last := by
      rw [withExtension_append open_, List.append_assoc, List.singleton_append]

theorem ofSegments_withExtension (dirs : List (List Char)) (last : List Char) :
    ofSegments (dirs ++ [withExtension last]) = ofSegments (dirs ++ [last]) := by
  rw [ofSegments_concat, ofSegments_concat, withExtension_idem]

def front (context : Option (List Char)) (path : List Char) : List Char :=
  match context.map trim with
  | none | some [] => []
  | some context => if path.head? = some '/' then [] else context ++ ['/']

theorem below_eq (context : Option (List Char)) (path : List Char) :
    below context path = front context path ++ path := by
  simp only [below, front]
  rcases context.map trim with _ | _ | ⟨c, rest⟩
  · rfl
  · rfl
  · by_cases absolute : path.head? = some '/' <;> simp [absolute]

theorem openEnded_front (context : Option (List Char)) (path : List Char) : OpenEnded '/' (front context path) := by
  have nothing : OpenEnded '/' [] := by simp [OpenEnded]
  simp only [front]
  rcases context.map trim with _ | _ | ⟨c, rest⟩
  · exact nothing
  · exact nothing
  · change OpenEnded '/' (if path.head? = some '/' then [] else c :: rest ++ ['/'])
    split
    · exact nothing
    · intro last found
      rw [List.getLast?_concat] at found
      exact (Option.some.inj found).symm

theorem front_congr {context : Option (List Char)} {path other : List Char} (same : path.head? = other.head?) :
    front context path = front context other := by
  simp only [front, same]

theorem front_of_absolute {context : Option (List Char)} {path : List Char} (absolute : path.head? = some '/') :
    front context path = [] := by
  simp only [front]
  rcases context.map trim with _ | _ | ⟨c, rest⟩
  · rfl
  · rfl
  · exact if_pos absolute

def uriOf? (parts : List (List Char)) : Option (List Char) :=
  if parts = [] ∨ parts.contains ['.', '.'] then none else some (ofSegments parts)

theorem uriOf?_eq (parts : List (List Char)) :
    uriOf? parts = if parts = [] ∨ ['.', '.'] ∈ parts then none else some (ofSegments parts) := by
  simp only [uriOf?, List.contains_iff_mem]

theorem uriOf?_of_climbs {parts : List (List Char)} (climbs : ['.', '.'] ∈ parts) : uriOf? parts = none := by
  rw [uriOf?_eq]
  exact if_pos (.inr climbs)

theorem toOption_canonical (path : List Char) (context : Option (List Char)) :
    (canonical path context).toOption =
      if trim path = [] then none else uriOf? (segments (below context (trim path))) := by
  simp only [canonical, uriOf?_eq]
  split
  · rfl
  · split <;> rfl

/-- A part that no slash is in either is a name or one of the three that lead nowhere. -/
theorem isName_iff {part : List Char} (plain : '/' ∉ part) :
    IsName part ↔ part ∉ [[], ['.'], ['.', '.']] := by
  simp only [List.mem_cons, List.not_mem_nil, or_false, not_or]
  exact ⟨fun name => ⟨name.nonempty, name.noDot, name.noClimb⟩,
    fun ⟨nonempty, noDot, noClimb⟩ => ⟨nonempty, noDot, noClimb, plain⟩⟩

theorem ofSegments_concat_ne {dirs : List (List Char)} {last : List Char} (some : dirs ≠ [])
    (plain : ∀ dir ∈ dirs, '/' ∉ dir) : ofSegments (dirs ++ [last]) ≠ ofSegments dirs := by
  obtain ⟨above, dir, rfl⟩ := (List.eq_nil_or_concat' dirs).resolve_left some
  intro same
  rw [ofSegments_concat, ofSegments_concat, List.flatMap_append, List.append_assoc] at same
  have tails := List.append_cancel_left same
  have within : dir ++ '/' :: withExtension last = withExtension dir := by simpa using tails
  apply slash_not_mem_withExtension (plain dir (by simp))
  rw [← within]
  simp

theorem uriOf?_of_name {dir part : List Char} (descends : ['.', '.'] ∉ segments dir) (named : IsName part) :
    uriOf? (segments dir ++ [part]) = some (ofSegments (segments dir ++ [part])) := by
  rw [uriOf?_eq]
  apply if_neg
  simpa [descends] using Ne.symm named.noClimb

/-- With the extension, the last part always counts; without it, it has to be a name. -/
theorem uriOf?_withExtension_iff {dir last : List Char} (plain : '/' ∉ last) :
    uriOf? (segments dir ++ [withExtension last]) = uriOf? (segments dir ++ segments last) ↔
      IsName last ∨ ['.', '.'] ∈ segments dir := by
  have name : IsName (withExtension last) := isName_withExtension plain
  by_cases climbs : ['.', '.'] ∈ segments dir
  · have refused (rest : List (List Char)) : uriOf? (segments dir ++ rest) = none :=
      uriOf?_of_climbs (List.mem_append_left rest climbs)
    simp [refused, climbs]
  rw [uriOf?_of_name climbs name, ofSegments_withExtension]
  by_cases named : IsName last
  · simp [segments_of_name named, uriOf?_of_name climbs named, named]
  simp only [named, climbs, or_self, iff_false]
  intro same
  by_cases up : last = ['.', '.']
  · have refused : uriOf? (segments dir ++ segments last) = none :=
      uriOf?_of_climbs (by simp [up, segments_of_plain])
    rw [refused] at same
    cases same
  have skipped : segments last = [] := by
    have leads : last ∈ [[], ['.'], ['.', '.']] := not_not.mp (mt (isName_iff plain).mpr named)
    rw [segments_of_plain plain]
    exact if_pos (by simpa [up] using leads)
  rw [skipped, List.append_nil, uriOf?_eq] at same
  split at same
  · cases same
  case isFalse good =>
    apply ofSegments_concat_ne (not_or.mp good).1 (fun part member => (mem_segments member).2.2)
    exact Option.some.inj same

theorem toOption_normalize (path : String) (context : Option String) :
    (normalize path context).toOption =
      (canonical path.toList (context.map String.toList)).toOption.map String.ofList := by
  rw [normalize]
  cases canonical path.toList (context.map String.toList) <;> rfl

/-- A URI is made of names, the last of which has the extension. -/
theorem names_of_canonical {path uri : List Char} {context : Option (List Char)}
    (accepted : canonical path context = .ok uri) :
    ∃ names ≠ [], (∀ name ∈ names, IsName name) ∧ uri = '/' :: joinWith '/' names := by
  simp only [canonical] at accepted
  split at accepted
  · cases accepted
  split at accepted
  · cases accepted
  case isFalse good =>
    obtain ⟨nonempty, descends⟩ := not_or.mp good
    obtain ⟨dirs, last, parts⟩ := (List.eq_nil_or_concat' _).resolve_left nonempty
    have named : ∀ part ∈ dirs ++ [last], IsName part := by
      rw [← parts]
      exact fun part => isName_of_mem_segments descends
    have names : dirs ++ [withExtension last] ≠ [] := by simp
    refine ⟨dirs ++ [withExtension last], names, ?_, ?_⟩
    · intro name member
      rcases List.mem_append.mp member with dir | file
      · exact named name (List.mem_append_left _ dir)
      · rw [List.mem_singleton.mp file]
        exact isName_withExtension (named last (by simp)).plain
    · calc uri
        _ = ofSegments (dirs ++ [last]) := by
          rw [← parts]
          exact (Except.ok.inj accepted).symm
        _ = (dirs ++ [withExtension last]).flatMap ('/' :: ·) := by simp [ofSegments_concat]
        _ = '/' :: joinWith '/' (dirs ++ [withExtension last]) := (cons_joinWith names).symm

theorem names_of_normalize {path uri : String} {context : Option String}
    (accepted : normalize path context = .ok uri) :
    ∃ names ≠ [], (∀ name ∈ names, IsName name) ∧ uri.toList = '/' :: joinWith '/' names := by
  rw [normalize] at accepted
  cases canonical_eq : canonical path.toList (context.map String.toList) with
  | error fault =>
      rw [canonical_eq] at accepted
      cases accepted
  | ok s =>
      obtain ⟨names, nonempty, named, whole⟩ := names_of_canonical canonical_eq
      rw [canonical_eq] at accepted
      cases accepted
      exact ⟨names, nonempty, named, by rw [String.toList_ofList, whole]⟩

end ViewCache.Uri
