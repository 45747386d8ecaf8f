namespace ViewCache

variable {K α : Type} [BEq K] [LawfulBEq K]

theorem lookup_filter (keeps : K → Bool) (pairs : List (K × α)) (key : K) :
    (pairs.filter fun pair => keeps pair.1).lookup key = if keeps key then pairs.lookup key else none := by
  induction pairs with
  | nil => simp
  | cons pair pairs ih =>
      obtain ⟨held, value⟩ := pair
      by_cases same : key = held
      · subst same
        cases kept : keeps key with
        | true => simp [kept]
        | false => simpa [kept] using ih
      · have different : (key == held) = false := beq_false_of_ne same
        cases kept : keeps held <;> simp [List.lookup_cons, kept, different, ih]

theorem mem_iff_lookup {pairs : List (K × α)} (keys : (pairs.map Prod.fst).Nodup) (key : K) (value : α) :
    (key, value) ∈ pairs ↔ pairs.lookup key = some value := by
  induction pairs with
  | nil => simp
  | cons pair pairs ih =>
      obtain ⟨held, first⟩ := pair
      obtain ⟨unlisted, keys⟩ := List.nodup_cons.mp keys
      by_cases same : key = held
      · subst same
        have gone : (key, value) ∉ pairs := fun member => unlisted (List.mem_map.mpr ⟨_, member, rfl⟩)
        simp [gone, eq_comm]
      · have different : (key == held) = false := beq_false_of_ne same
        simp [List.lookup_cons, same, different, ih keys]

end ViewCache
