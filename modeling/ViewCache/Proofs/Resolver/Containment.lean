import ViewCache.Proofs.Path
import ViewCache.Proofs.Resolver.Search

namespace ViewCache.Resolver

open Text Uri

/-- A path that names spell below the view directory of a root, or below that of the plugin which the key
is qualified by. -/
inductive Placed (roots : List String) (key : Key) : String → Prop
  | inViews {root : String} {names : List (List Char)} (rooted : root ∈ roots) (nonempty : names ≠ [])
      (named : ∀ name ∈ names, IsName name) :
      Placed roots key (Path.below root (Convention.viewsDir.toList :: names))
  | inPlugin {root plugin : String} {names : List (List Char)} (rooted : root ∈ roots)
      (qualified : key.qualifier = some plugin) (plain : IsName plugin.toList) (nonempty : names ≠ [])
      (named : ∀ name ∈ names, IsName name) :
      Placed roots key
        (Path.below root (Convention.pluginsDir.toList :: plugin.toList :: Convention.viewsDir.toList :: names))

theorem isName_views : IsName Convention.viewsDir.toList := by
  constructor <;> decide

theorem isName_plugins : IsName Convention.pluginsDir.toList := by
  constructor <;> decide

variable {names : List (List Char)}

theorem relative_of_names (nonempty : names ≠ []) (named : ∀ name ∈ names, IsName name) :
    ('/' :: joinWith '/' names).dropWhile (· = '/') = joinWith '/' names := by
  obtain ⟨c, different, head⟩ := Path.head?_joinWith nonempty named
  obtain ⟨rest, whole⟩ := List.head?_eq_some_iff.mp head
  rw [whole, List.dropWhile_cons_of_pos (by simp), List.dropWhile_cons_of_neg (by simpa using different)]

theorem join_name {root part : String} (front : List (List Char)) {name : List Char} (named : IsName name)
    (good : IsName part.toList) :
    Path.join (Path.below root (front ++ [name])) part = Path.below root (front ++ [name] ++ [part.toList]) := by
  have joined := Path.join_below root front named (List.cons_ne_nil part.toList [])
    (by simpa using good)
  simpa [joinWith] using joined

theorem join_first {root part : String} (good : IsName part.toList) :
    Path.join root part = Path.below root [part.toList] := by
  have joined := Path.join_names root (List.cons_ne_nil part.toList []) (by simpa using good)
  simpa [joinWith] using joined

theorem views_eq (root : String) (nonempty : names ≠ []) (named : ∀ name ∈ names, IsName name) :
    Path.join (Path.join root Convention.viewsDir) (String.ofList (joinWith '/' names)) =
      Path.below root (Convention.viewsDir.toList :: names) := by
  rw [join_first isName_views]
  exact Path.join_below root [] isName_views nonempty named

theorem plugin_views_eq (root : String) {plugin : String} (plain : IsName plugin.toList) (nonempty : names ≠ [])
    (named : ∀ name ∈ names, IsName name) :
    Path.join (Path.join (Path.join (Path.join root Convention.pluginsDir) plugin) Convention.viewsDir)
        (String.ofList (joinWith '/' names)) =
      Path.below root (Convention.pluginsDir.toList :: plugin.toList :: Convention.viewsDir.toList :: names) := by
  have inPlugins : Path.join (Path.join root Convention.pluginsDir) plugin =
      Path.below root [Convention.pluginsDir.toList, plugin.toList] := by
    rw [join_first isName_plugins]
    exact join_name [] isName_plugins plain
  have inViews : Path.join (Path.below root [Convention.pluginsDir.toList, plugin.toList]) Convention.viewsDir =
      Path.below root [Convention.pluginsDir.toList, plugin.toList, Convention.viewsDir.toList] :=
    join_name [_] plain isName_views
  rw [inPlugins, inViews]
  exact Path.join_below root [_, _] isName_views nonempty named

theorem placed_of_candidate {roots : List String} {key : Key} {uri path : String} {qualifier : Option String}
    (aimed : target key = .ok (uri, qualifier)) (candidate : path ∈ candidates roots uri qualifier) :
    Placed roots key path := by
  obtain ⟨⟨asked, -, normal⟩, qualifies, rfl⟩ := target_eq_ok.mp aimed
  obtain ⟨names, nonempty, named, spelled⟩ := names_of_normalize normal
  rw [candidates, spelled, relative_of_names nonempty named] at candidate
  rcases List.mem_append.mp candidate with inPlugin | inViews
  · cases qualified : key.qualifier with
    | none => simp [qualified] at inPlugin
    | some plugin =>
        have plain : IsName plugin.toList := isName_of_isPlainName (qualifies plugin qualified)
        rw [qualified] at inPlugin
        obtain ⟨root, rooted, rfl⟩ := List.mem_map.mp inPlugin
        rw [plugin_views_eq root plain nonempty named]
        exact .inPlugin rooted qualified plain nonempty named
  · obtain ⟨root, rooted, rfl⟩ := List.mem_map.mp inViews
    rw [views_eq root nonempty named]
    exact .inViews rooted nonempty named

theorem placed_of_inspected {resolver : Resolver} {files : String → Probe} {key : Key} {path : String}
    (member : path ∈ resolver.inspected files key) : Placed resolver.roots key path := by
  rw [inspected] at member
  cases aimed : target key with
  | error fault =>
      rw [aimed] at member
      cases member
  | ok goal =>
      rw [aimed] at member
      dsimp only at member
      split at member
      · cases member
      · exact placed_of_candidate aimed (inspectedOf_subset _ _ member)

/-- All that is looked at lies there, and so does every file that is found; and nothing that is not looked
at has a say in the answer. -/
theorem resolution_is_contained (resolver : Resolver) (files : String → Probe) (key : Key) :
    (∀ path ∈ resolver.inspected files key, Placed resolver.roots key path) ∧
      (∀ page path, resolver.resolve files key = .ok (some page) → page.path? = some path →
        Placed resolver.roots key path) ∧
      ∀ other : String → Probe, (∀ path ∈ resolver.inspected files key, other path = files path) →
        resolver.resolve other key = resolver.resolve files key := by
  refine ⟨fun path => placed_of_inspected, ?_, fun other => resolve_congr⟩
  intro page path found stands
  exact placed_of_inspected (mem_inspected_of_found found path stands)

end ViewCache.Resolver
