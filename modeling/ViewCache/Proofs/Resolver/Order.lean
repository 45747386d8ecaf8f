import ViewCache.Proofs.Resolver.Containment

namespace ViewCache.Resolver

open Text Uri

inductive Aimless (key : Key) : Prop
  | unnamed (missing : key.path = none)
  | abnormal {path : String} {fault : PathFault} (asked : key.path = some path)
      (refused : normalize path key.context = .error fault)
  | misplaced {name : String} (qualified : key.qualifier = some name) (refused : isPlainName name = false)

/-- The page of this type is registered for the URI: it stands under the namespace, a colon and the URI, or under
the URI alone where nothing stands under the namespace. -/
inductive Registered (pages : List (String × String)) (uri : String) (qualifier : Option String) (typeName : String) :
    Prop
  | qualified {name : String} (given : qualifier = some name)
      (entry : pages.lookup (name ++ ":" ++ uri) = some typeName)
  | plain (absent : ∀ name, qualifier = some name → pages.lookup (name ++ ":" ++ uri) = none)
      (entry : pages.lookup uri = some typeName)

/-- Where a view of these names is looked for: for every root in the directory of the plugin, and then for
every root in that of the application. -/
def places (roots : List String) (qualifier : Option String) (names : List (List Char)) : List String :=
  (qualifier.toList.flatMap fun plugin => roots.map fun root =>
    Path.below root (Convention.pluginsDir.toList :: plugin.toList :: Convention.viewsDir.toList :: names)) ++
  roots.map fun root => Path.below root (Convention.viewsDir.toList :: names)

/-- What a search through the paths comes to, and which of them it looks at: the first that is a file or
cannot be inspected decides, and all before it are directories or missing. -/
inductive Search (files : String → Probe) (uri : String) (paths : List String) :
    List String → Except Failure (Option Page) → Prop
  | nothing (skipped : ∀ path ∈ paths, (files path).isSkipped = true) : Search files uri paths paths (.ok none)
  | found {before after : List String} {path : String} {modified : Int} (split : paths = before ++ path :: after)
      (skipped : ∀ path ∈ before, (files path).isSkipped = true) (file : files path = .file modified) :
      Search files uri paths (before ++ [path]) (.ok (some (.resource uri path modified)))
  | failed {before after : List String} {path : String} {fault : FileFault} (split : paths = before ++ path :: after)
      (skipped : ∀ path ∈ before, (files path).isSkipped = true) (faulty : files path = .fault fault)
      (there : fault ≠ .notFound) : Search files uri paths (before ++ [path]) (.error (.file fault))

theorem aimed_of_not_aimless {key : Key} (aimed : ¬ Aimless key) :
    ∃ path uri, key.path = some path ∧ normalize path key.context = .ok uri ∧ Qualifies key.qualifier := by
  cases asked : key.path with
  | none => exact absurd (.unnamed asked) aimed
  | some path =>
      cases normal : normalize path key.context with
      | error fault => exact absurd (.abnormal asked normal) aimed
      | ok uri =>
          refine ⟨path, uri, rfl, normal, ?_⟩
          intro name qualified
          by_contra refused
          exact aimed (.misplaced qualified (by simpa using refused))

theorem not_aimless_of_target {key : Key} {uri : String} {qualifier : Option String}
    (aimed : target key = .ok (uri, qualifier)) : ¬ Aimless key := by
  obtain ⟨⟨path, asked, normal⟩, qualifies, -⟩ := target_eq_ok.mp aimed
  intro aimless
  cases aimless with
  | unnamed missing =>
      rw [missing] at asked
      cases asked
  | abnormal asked' refused =>
      cases asked'.symm.trans asked
      rw [normal] at refused
      cases refused
  | misplaced qualified refused =>
      rw [qualifies _ qualified] at refused
      cases refused

theorem aimless_iff {key : Key} : Aimless key ↔ ∃ fault, target key = .error fault := by
  cases aimed : target key with
  | ok goal => simpa using not_aimless_of_target aimed
  | error fault =>
      refine iff_of_true ?_ ⟨fault, rfl⟩
      by_contra whole
      obtain ⟨path, uri, asked, normal, qualifies⟩ := aimed_of_not_aimless whole
      have accepted : target key = .ok (uri, key.qualifier) :=
        target_eq_ok.mpr ⟨⟨path, asked, normal⟩, qualifies, rfl⟩
      rw [accepted] at aimed
      cases aimed

theorem candidates_eq_places {roots : List String} {uri : String} {qualifier : Option String}
    {names : List (List Char)} (qualifies : Qualifies qualifier) (nonempty : names ≠ [])
    (named : ∀ name ∈ names, IsName name) (spelled : uri.toList = '/' :: joinWith '/' names) :
    candidates roots uri qualifier = places roots qualifier names := by
  rw [candidates, spelled, relative_of_names nonempty named, places]
  congr 1
  · cases qualifier with
    | none => rfl
    | some plugin =>
        -- the plugin is one more name on the way
        have plain : IsName plugin.toList := isName_of_isPlainName (qualifies plugin rfl)
        simp [plugin_views_eq _ plain nonempty named]
  · simp [views_eq _ nonempty named]

variable {files : String → Probe} {uri path : String} {paths looked : List String}
  {answer : Except Failure (Option Page)}

theorem Search.cons (skipped : (files path).isSkipped = true) (search : Search files uri paths looked answer) :
    Search files uri (path :: paths) (path :: looked) answer := by
  cases search with
  | nothing rest => exact .nothing (List.forall_mem_cons.mpr ⟨skipped, rest⟩)
  | found split rest file =>
      exact .found (congrArg (path :: ·) split) (List.forall_mem_cons.mpr ⟨skipped, rest⟩) file
  | failed split rest faulty there =>
      exact .failed (congrArg (path :: ·) split) (List.forall_mem_cons.mpr ⟨skipped, rest⟩) faulty there

variable (files uri paths) in
theorem search_firstFile : Search files uri paths (inspectedOf files paths) (firstFile files uri paths) := by
  induction paths with
  | nil => exact .nothing (by simp)
  | cons path rest ih =>
      rw [firstFile_cons, inspectedOf]
      cases shown : files path with
      | file modified => exact .found (List.nil_append (path :: rest)).symm (by simp) shown
      | other => exact .cons (by rw [shown]; rfl) ih
      | fault fault =>
          by_cases missing : fault = .notFound
          · subst missing
            exact .cons (by rw [shown]; rfl) ih
          · have decides : (Probe.fault fault).isSkipped = false := by
              cases fault <;> first | rfl | exact absurd rfl missing
            rw [decides]
            exact .failed (List.nil_append (path :: rest)).symm (by simp) shown missing

theorem Search.nothing_iff (search : Search files uri paths looked answer) :
    answer = .ok none ↔ ∀ path ∈ paths, (files path).isSkipped = true := by
  have decisive {before after : List String} {path : String} (split : paths = before ++ path :: after)
      (decides : (files path).isSkipped = false) : ¬ ∀ path ∈ paths, (files path).isSkipped = true := by
    intro skipped
    rw [skipped path (by simp [split])] at decides
    cases decides
  cases search with
  | nothing skipped => exact iff_of_true rfl skipped
  | found split _ file => exact iff_of_false (by simp) (decisive split (by rw [file]; rfl))
  | @failed _ _ _ fault split _ faulty there =>
      refine iff_of_false (by simp) (decisive split ?_)
      rw [faulty]
      cases fault <;> first | rfl | exact absurd rfl there

theorem Search.answer_ne (search : Search files uri paths looked answer) (fault : PathFault) :
    answer ≠ .error (.invalidPath fault) := by
  cases search <;> simp

variable {resolver : Resolver} {key : Key}

theorem resolve_of_target {qualifier : Option String} (aimed : target key = .ok (uri, qualifier)) :
    resolver.resolve files key =
        (match resolver.registry.typeOf? uri qualifier with
        | some typeName => .ok (some (.precompiled uri typeName))
        | none => firstFile files uri (candidates resolver.roots uri qualifier)) ∧
      resolver.inspected files key =
        match resolver.registry.typeOf? uri qualifier with
        | some _ => []
        | none => inspectedOf files (candidates resolver.roots uri qualifier) := by
  rw [resolve, inspected, aimed]
  exact ⟨rfl, rfl⟩

theorem refused_iff : (∃ fault, resolver.resolve files key = .error (.invalidPath fault)) ↔ Aimless key := by
  rw [aimless_iff]
  cases aimed : target key with
  | error fault =>
      refine iff_of_true ⟨fault, ?_⟩ ⟨fault, rfl⟩
      rw [resolve, aimed]
  | ok goal =>
      obtain ⟨uri, qualifier⟩ := goal
      refine iff_of_false ?_ (by simp)
      rintro ⟨fault, refused⟩
      rw [(resolve_of_target aimed).1] at refused
      split at refused
      · cases refused
      · exact (search_firstFile files uri (candidates resolver.roots uri qualifier)).answer_ne fault refused

theorem typeOf?_eq_some {registry : Registry} {qualifier : Option String} {typeName : String} :
    registry.typeOf? uri qualifier = some typeName ↔ Registered registry.pages uri qualifier typeName := by
  rw [Registry.typeOf?, Option.or_eq_some_iff]
  constructor
  · rintro (named | ⟨missing, entry⟩)
    · obtain ⟨name, given, entry⟩ := Option.bind_eq_some_iff.mp named
      exact .qualified given entry
    · refine .plain ?_ entry
      intro name given
      rw [given] at missing
      exact missing
  · rintro (⟨given, entry⟩ | ⟨absent, entry⟩)
    · exact .inl (Option.bind_eq_some_iff.mpr ⟨_, given, entry⟩)
    · exact .inr ⟨Option.bind_eq_none_iff.mpr absent, entry⟩

theorem typeOf?_eq_none {registry : Registry} {qualifier : Option String}
    (unregistered : ∀ typeName, ¬ Registered registry.pages uri qualifier typeName) :
    registry.typeOf? uri qualifier = none := by
  rw [Option.eq_none_iff_forall_ne_some]
  exact fun typeName found => unregistered typeName (typeOf?_eq_some.mp found)

section

variable (resolver : Resolver) (files : String → Probe) (key : Key)

structure Decides (uri : String) (names : List (List Char)) : Prop where
  asked : ∃ path, key.path = some path ∧ normalize path key.context = .ok uri
  filled : names ≠ []
  named : ∀ name ∈ names, IsName name
  spelled : uri.toList = '/' :: joinWith '/' names
  registered : ∀ typeName, Registered resolver.registry.pages uri key.qualifier typeName →
    resolver.inspected files key = [] ∧ ∀ other, resolver.resolve other key = .ok (some (.precompiled uri typeName))
  searched : (∀ typeName, ¬ Registered resolver.registry.pages uri key.qualifier typeName) →
    Search files uri (places resolver.roots key.qualifier names) (resolver.inspected files key)
      (resolver.resolve files key)
  nothing : (∀ typeName, ¬ Registered resolver.registry.pages uri key.qualifier typeName) →
    (resolver.resolve files key = .ok none ↔
      ∀ path ∈ places resolver.roots key.qualifier names, (files path).isSkipped = true)
  /-- what has not been inspected might as well be anything -/
  behind : ∀ other, (∀ path ∈ resolver.inspected files key, other path = files path) →
    resolver.resolve other key = resolver.resolve files key

structure GoesInOrder : Prop where
  refused : (∃ fault, resolver.resolve files key = .error (.invalidPath fault)) ↔ Aimless key
  blind : Aimless key → resolver.inspected files key = [] ∧
    ∀ other, resolver.resolve other key = resolver.resolve files key
  decided : ¬ Aimless key → ∃ uri names, Decides resolver files key uri names

end

/-- What has no aim is refused without a look at the files; a registered page is the answer whatever the
files are; and all else is decided by the first of the places that is not skipped. -/
theorem resolution_goes_in_order (resolver : Resolver) (files : String → Probe) (key : Key) :
    GoesInOrder resolver files key := by
  constructor
  case refused => exact refused_iff
  case blind =>
    intro aimless
    obtain ⟨fault, refused⟩ := aimless_iff.mp aimless
    refine ⟨by rw [inspected, refused], ?_⟩
    intro other
    rw [resolve, resolve, refused]
  case decided =>
    intro whole
    obtain ⟨path, uri, asked, normal, qualifies⟩ := aimed_of_not_aimless whole
    obtain ⟨names, filled, named, spelled⟩ := names_of_normalize normal
    have aimed : target key = .ok (uri, key.qualifier) :=
      target_eq_ok.mpr ⟨⟨path, asked, normal⟩, qualifies, rfl⟩
    have search (unregistered : ∀ typeName, ¬ Registered resolver.registry.pages uri key.qualifier typeName) :
        Search files uri (places resolver.roots key.qualifier names) (resolver.inspected files key)
          (resolver.resolve files key) := by
      have goesOn := @resolve_of_target files uri resolver key _ aimed
      simp only [typeOf?_eq_none unregistered] at goesOn
      rw [goesOn.1, goesOn.2, candidates_eq_places qualifies filled named spelled]
      exact search_firstFile ..
    refine ⟨uri, names, ⟨path, asked, normal⟩, filled, named, spelled, ?_, search, ?_, fun other => resolve_congr⟩
    · intro typeName page
      have registered := typeOf?_eq_some.mpr page
      refine ⟨by rw [(resolve_of_target aimed).2, registered], ?_⟩
      intro other
      rw [(resolve_of_target aimed).1, registered]
    · exact fun unregistered => (search unregistered).nothing_iff

def blogOnly : Resolver := ⟨["app"], ⟨[("blog:/show.gsp", "BlogShow")]⟩⟩

theorem blog_page_comes_first :
    blogOnly.inspected (fun _ => .file 3) ⟨some "show", some "blog", none⟩ = [] ∧
      blogOnly.resolve (fun _ => .file 3) ⟨some "show", some "blog", none⟩ =
        .ok (some (.precompiled "/show.gsp" "BlogShow")) := by
  have order := resolution_goes_in_order blogOnly (fun _ => .file 3) ⟨some "show", some "blog", none⟩
  have aimed : target ⟨some "show", some "blog", none⟩ = .ok ("/show.gsp", some "blog") := rfl
  obtain ⟨uri, names, decides⟩ := order.decided (not_aimless_of_target aimed)
  obtain ⟨path, asked, normal⟩ := decides.asked
  cases asked
  cases normal
  obtain ⟨unseen, found⟩ := decides.registered "BlogShow" (.qualified rfl rfl)
  exact ⟨unseen, found _⟩

end ViewCache.Resolver
