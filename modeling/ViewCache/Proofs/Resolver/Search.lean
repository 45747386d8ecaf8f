import ViewCache.Proofs.Uri.Namespace
import ViewCache.Resolver

namespace ViewCache

def Probe.isSkipped : Probe → Bool
  | .other | .fault .notFound => true
  | _ => false

namespace Resolver

def verdict (uri path : String) : Probe → Except Failure (Option Page)
  | .file modified => .ok (some (.resource uri path modified))
  | .fault fault => .error (.file fault)
  | .other => .ok none

/-- The paths that are looked at, up to the one that decides. -/
def inspectedOf (files : String → Probe) : List String → List String
  | [] => []
  | path :: rest => path :: if (files path).isSkipped then inspectedOf files rest else []

def inspected (resolver : Resolver) (files : String → Probe) (key : Key) : List String :=
  match target key with
  | .error _ => []
  | .ok (uri, qualifier) =>
    match resolver.registry.typeOf? uri qualifier with
    | some _ => []
    | none => inspectedOf files (candidates resolver.roots uri qualifier)

theorem target_eq_ok {key : Key} {uri : String} {qualifier : Option String} :
    target key = .ok (uri, qualifier) ↔
      (∃ path ∈ key.path, Uri.normalize path key.context = .ok uri) ∧ Uri.Qualifies key.qualifier ∧
        qualifier = key.qualifier := by
  rw [target]
  cases key.path with
  | none =>
      constructor
      · intro aimed
        cases aimed
      · rintro ⟨⟨_, ⟨⟩, _⟩, _⟩
  | some path =>
      rw [Uri.qualified_eq_ok]
      apply and_congr_left'
      constructor
      · exact fun normal => ⟨path, Option.mem_some_self path, normal⟩
      · rintro ⟨_, ⟨⟩, normal⟩
        exact normal

variable {files other : String → Probe} {uri path : String} {paths rest : List String}

theorem firstFile_cons (files : String → Probe) (uri path : String) (rest : List String) :
    firstFile files uri (path :: rest) =
      if (files path).isSkipped then firstFile files uri rest else verdict uri path (files path) := by
  rw [firstFile]
  cases files path with
  | file modified => rfl
  | other => rfl
  | fault fault => cases fault <;> rfl

theorem inspectedOf_subset (files : String → Probe) (paths : List String) : inspectedOf files paths ⊆ paths := by
  induction paths with
  | nil => exact List.Subset.refl []
  | cons path rest ih =>
      apply List.cons_subset_cons
      split
      · exact ih
      · exact List.nil_subset rest

theorem firstFile_congr (same : ∀ path ∈ inspectedOf files paths, other path = files path) :
    firstFile other uri paths = firstFile files uri paths := by
  induction paths with
  | nil => rfl
  | cons path rest ih =>
      have here : other path = files path := same path List.mem_cons_self
      rw [firstFile_cons, firstFile_cons, here]
      by_cases skipped : (files path).isSkipped
      · rw [if_pos skipped, if_pos skipped]
        apply ih
        intro later member
        exact same later (by simp [inspectedOf, skipped, member])
      · rw [if_neg skipped, if_neg skipped]

theorem mem_inspectedOf_of_found {page : Page} (found : firstFile files uri paths = .ok (some page)) :
    ∃ path ∈ inspectedOf files paths, page.path? = some path := by
  induction paths with
  | nil => cases found
  | cons path rest ih =>
      rw [firstFile_cons] at found
      by_cases skipped : (files path).isSkipped
      · rw [if_pos skipped] at found
        obtain ⟨later, member, stands⟩ := ih found
        exact ⟨later, by simp [inspectedOf, skipped, member], stands⟩
      · rw [if_neg skipped] at found
        refine ⟨path, List.mem_cons_self, ?_⟩
        cases shown : files path with
        | file modified =>
            rw [shown] at found
            cases found
            rfl
        | other =>
            rw [shown] at found
            cases found
        | fault fault =>
            rw [shown] at found
            cases found

theorem not_precompiled_of_found {page : Page} (found : firstFile files uri paths = .ok (some page)) :
    page.isPrecompiled = false := by
  obtain ⟨path, -, stands⟩ := mem_inspectedOf_of_found found
  cases page with
  | precompiled => cases stands
  | resource => rfl

variable {resolver : Resolver} {key : Key}

theorem resolve_congr (same : ∀ path ∈ resolver.inspected files key, other path = files path) :
    resolver.resolve other key = resolver.resolve files key := by
  rw [inspected] at same
  rw [resolve, resolve]
  cases aimed : target key with
  | error fault => rfl
  | ok goal =>
      rw [aimed] at same
      dsimp only at same ⊢
      cases registered : resolver.registry.typeOf? goal.1 goal.2 with
      | some typeName => rfl
      | none =>
          rw [registered] at same
          exact firstFile_congr same

theorem mem_inspected_of_found {page : Page} (found : resolver.resolve files key = .ok (some page)) (path : String)
    (stands : page.path? = some path) : path ∈ resolver.inspected files key := by
  rw [resolve] at found
  rw [inspected]
  cases aimed : target key with
  | error fault =>
      rw [aimed] at found
      cases found
  | ok goal =>
      rw [aimed] at found
      dsimp only at found ⊢
      cases registered : resolver.registry.typeOf? goal.1 goal.2 with
      | some typeName =>
          rw [registered] at found
          cases found
          cases stands
      | none =>
          rw [registered] at found
          obtain ⟨there, member, same⟩ := mem_inspectedOf_of_found found
          rw [stands] at same
          cases same
          exact member

end Resolver

end ViewCache
