import ViewCache.Path
import ViewCache.Proofs.Uri.Canonical

namespace ViewCache.Path

open Text Uri

/-- The directory, with a slash where one is missing. -/
def opened (dir : List Char) : List Char := if dir.getLast?.all (· == '/') then dir else dir ++ ['/']

def below (dir : String) (names : List (List Char)) : String :=
  String.ofList (opened dir.toList ++ joinWith '/' names)

theorem opened_append {dir name : List Char} (named : IsName name) : opened (dir ++ name) = dir ++ name ++ ['/'] := by
  apply if_neg
  rw [List.getLast?_append_of_ne_nil dir named.nonempty, List.getLast?_eq_some_getLast named.nonempty]
  intro slash
  have last : name.getLast named.nonempty = '/' := by simpa using slash
  exact named.plain (last ▸ List.getLast_mem named.nonempty)

variable (dir : String) {names more : List (List Char)} {name : List Char}

theorem head?_joinWith (nonempty : names ≠ []) (named : ∀ name ∈ names, IsName name) :
    ∃ c ≠ '/', (joinWith '/' names).head? = some c := by
  obtain ⟨first, rest, rfl⟩ := List.exists_cons_of_ne_nil nonempty
  have good : IsName first := named first List.mem_cons_self
  obtain ⟨c, tail, rfl⟩ := List.exists_cons_of_ne_nil good.nonempty
  have different : c ≠ '/' := fun same => good.plain (same ▸ List.mem_cons_self)
  refine ⟨c, different, ?_⟩
  cases rest with
  | nil => simp [joinWith]
  | cons => simp [joinWith]

theorem join_names (nonempty : names ≠ []) (named : ∀ name ∈ names, IsName name) :
    join dir (String.ofList (joinWith '/' names)) = below dir names := by
  obtain ⟨c, different, head⟩ := head?_joinWith nonempty named
  have relative : isAbsolute (String.ofList (joinWith '/' names)) = false := by
    rw [isAbsolute, String.toList_ofList, head]
    exact beq_false_of_ne fun same => different (Option.some.inj same)
  rw [join_of_relative relative, below, opened]
  split <;> simp [String.ofList_append, String.append_assoc]

theorem join_below (names : List (List Char)) (named : IsName name) (nonempty : more ≠ [])
    (others : ∀ name ∈ more, IsName name) :
    join (below dir (names ++ [name])) (String.ofList (joinWith '/' more)) = below dir (names ++ [name] ++ more) := by
  have ends : ∃ front, joinWith '/' (names ++ [name]) = front ++ name := by
    cases names with
    | nil => exact ⟨[], by simp [joinWith]⟩
    | cons first rest =>
        have split : joinWith '/' (first :: rest ++ [name]) =
            joinWith '/' (first :: rest) ++ '/' :: joinWith '/' [name] :=
          joinWith_append (List.cons_ne_nil first rest) (List.cons_ne_nil name [])
        exact ⟨joinWith '/' (first :: rest) ++ ['/'], by simpa [joinWith] using split⟩
  obtain ⟨front, ends⟩ := ends
  have some : names ++ [name] ≠ [] := by simp
  have slash : opened (below dir (names ++ [name])).toList =
      opened dir.toList ++ joinWith '/' (names ++ [name]) ++ ['/'] := by
    rw [below, String.toList_ofList, ends, ← List.append_assoc, opened_append named]
  calc join (below dir (names ++ [name])) (String.ofList (joinWith '/' more))
    _ = below (below dir (names ++ [name])) more := join_names _ nonempty others
    _ = String.ofList (opened dir.toList ++ joinWith '/' (names ++ [name]) ++ ['/'] ++ joinWith '/' more) := by
      rw [below, slash]
    _ = below dir (names ++ [name] ++ more) := by
      rw [below, joinWith_append some nonempty]
      simp

end ViewCache.Path
