import ViewCache.Proofs.Uri.Canonical

namespace ViewCache.Uri

def Qualifies (qualifier : Option String) : Prop := ∀ name ∈ qualifier, isPlainName name = true

theorem isName_of_isPlainName {name : String} (plain : isPlainName name = true) : IsName name.toList := by
  simp only [isPlainName, Bool.and_eq_true, decide_eq_true_eq, Bool.not_eq_true', List.contains_eq_mem,
    decide_eq_false_iff_not] at plain
  obtain ⟨⟨⟨⟨nonempty, noDot⟩, noClimb⟩, noSlash⟩, -⟩ := plain
  exact ⟨nonempty, noDot, noClimb, noSlash⟩

theorem mapM_checkNamespace {qualifier : Option String} (qualifies : Qualifies qualifier) :
    qualifier.mapM checkNamespace = .ok qualifier := by
  cases qualifier with
  | none => rfl
  | some name =>
      have accepted : checkNamespace name = .ok name := if_pos (qualifies name rfl)
      rw [Option.mapM_some, accepted]
      rfl

theorem qualifies_of_checked {qualifier checked : Option String}
    (accepted : qualifier.mapM checkNamespace = .ok checked) : Qualifies qualifier := by
  rintro name ⟨⟩
  rw [Option.mapM_some, checkNamespace] at accepted
  by_contra bad
  rw [if_neg bad] at accepted
  cases accepted

theorem checked_eq {qualifier checked : Option String} (accepted : qualifier.mapM checkNamespace = .ok checked) :
    checked = qualifier := by
  rw [mapM_checkNamespace (qualifies_of_checked accepted)] at accepted
  exact (Except.ok.inj accepted).symm

theorem qualified_eq_ok {normal : Except PathFault String} {qualifier checked : Option String} {uri : String} :
    (do let uri ← normal
        let qualifier ← qualifier.mapM checkNamespace
        return (uri, qualifier)) = .ok (uri, checked) ↔
      normal = .ok uri ∧ Qualifies qualifier ∧ checked = qualifier := by
  cases normal with
  | error fault =>
      constructor
      · intro accepted
        cases accepted
      · rintro ⟨⟨⟩, _⟩
  | ok u =>
      constructor
      · intro accepted
        cases names : qualifier.mapM checkNamespace with
        | error fault =>
            rw [names] at accepted
            cases accepted
        | ok q =>
            rw [names] at accepted
            cases accepted
            exact ⟨rfl, qualifies_of_checked names, checked_eq names⟩
      · rintro ⟨⟨⟩, qualifies, rfl⟩
        rw [mapM_checkNamespace qualifies]
        rfl

end ViewCache.Uri
