import ViewCache.Command.Locate
import ViewCache.Proofs.Json.Document

namespace ViewCache.Command

inductive LineFor (view : String) : Option Page → String → Prop
  | precompiled (uri typeName : String) :
      LineFor view (some (.precompiled uri typeName)) s!"✓ {view} -> {uri} [{typeName}]\n"
  | resource (uri path : String) (modified : Int) :
      LineFor view (some (.resource uri path modified)) s!"✓ {view} -> {path}\n"
  | missing : LineFor view none s!"✗ {view} not found\n"

/-- Members stand in order of their names. -/
def pageForm : Option Page → Json
  | some (.precompiled uri typeName) =>
    .obj [("kind", .str "precompiled"), ("type_name", .str typeName), ("uri", .str uri)]
  | some (.resource uri path modified) =>
    .obj [("kind", .str "resource"), ("last_modified_millis", .int modified), ("path", .str path), ("uri", .str uri)]
  | none => .null

def rowForm (view : String) (page : Option Page) : Json := .obj [("page", pageForm page), ("view", .str view)]

def counterLines (stats : CacheStats) : String :=
  s!"\nCache:\n   Entries: {stats.entries}\n   Resolutions: {stats.counters.computed}\n" ++
    s!"   Hits: {stats.counters.fresh}\n"

def counterForm (stats : CacheStats) : Json :=
  .obj [("coalesced", .int stats.counters.coalesced), ("computations", .int stats.counters.computed),
    ("entries", .int stats.entries), ("failures", .int stats.counters.failed),
    ("fresh_hits", .int stats.counters.fresh), ("initialized_entries", .int stats.initializedEntries),
    ("stale_hits", .int stats.counters.stale)]

/-- What is printed for the views, as lines or as JSON: for each of them, in this order, what the resolver finds,
and then the counters. -/
inductive Prints (direct : String → Resolution) (views : List String) (stats : CacheStats) : Bool → String → Prop
  | lines {lines : List String}
      (each : List.Forall₂ (fun view line => ∃ page, direct view = .ok page ∧ LineFor view page line) views lines) :
      Prints direct views stats false (String.join lines ++ counterLines stats)
  | document {rows : List Json} {text : List Char}
      (each : List.Forall₂ (fun view row => ∃ page, direct view = .ok page ∧ row = rowForm view page) views rows)
      (written : Json.Writes (.obj [("results", .arr rows), ("stats", counterForm stats)]) text) :
      Prints direct views stats true (String.ofList (text ++ ['\n']))

theorem lineFor_resultLine (view : String) (page : Option Page) : LineFor view page (resultLine view page) := by
  match page with
  | none => exact .missing
  | some (.precompiled uri typeName) => exact .precompiled uri typeName
  | some (.resource uri path modified) => exact .resource uri path modified

theorem sorted_page (page : Option Page) : (page.elim .null Page.toJson).sorted = pageForm page := by
  match page with
  | none => rfl
  | some (.precompiled uri typeName) =>
      refine Json.sorted_obj ["kind", "type_name", "uri"] rfl (by decide) (by simp) fun m => ?_
      simp only [Json.sorted, List.map_cons, List.map_nil, List.mem_cons, List.not_mem_nil, or_false]
      tauto
  | some (.resource uri path modified) =>
      refine Json.sorted_obj ["kind", "last_modified_millis", "path", "uri"] rfl (by decide) (by simp) fun m => ?_
      simp only [Json.sorted, List.map_cons, List.map_nil, List.mem_cons, List.not_mem_nil, or_false]
      tauto

theorem sorted_row (view : String) (page : Option Page) :
    (Json.obj [("view", .str view), ("page", page.elim .null Page.toJson)]).sorted = rowForm view page := by
  refine Json.sorted_obj ["page", "view"] rfl (by decide) (by simp) fun m => ?_
  simp only [Json.sorted, sorted_page, List.map_cons, List.map_nil, List.mem_cons, List.not_mem_nil, or_false]
  tauto

theorem sorted_stats (stats : CacheStats) : (statsJson stats).sorted = counterForm stats := by
  refine Json.sorted_obj ["coalesced", "computations", "entries", "failures", "fresh_hits", "initialized_entries",
    "stale_hits"] rfl (by decide) (by simp) fun m => ?_
  simp only [Json.sorted, List.map_cons, List.map_nil, List.mem_cons, List.not_mem_nil, or_false]
  tauto

theorem sorted_located (located : Located) : located.json.sorted =
    .obj [("results", .arr (located.results.map fun result => rowForm result.1 result.2)),
      ("stats", counterForm located.stats)] := by
  refine Json.sorted_obj ["results", "stats"] rfl (by decide) (by simp) ?_
  simp [Json.sorted_arr, sorted_row, sorted_stats, Function.comp_def]

variable {direct : String → Resolution} {views : List String} {located : Located}

theorem prints_results (each : List.Forall₂ (fun view result => result.1 = view ∧ direct view = .ok result.2) views
      located.results)
    (others : located.stats.counters.stale = 0 ∧ located.stats.counters.coalesced = 0 ∧
      located.stats.counters.failed = 0) (json : Bool) :
    Prints direct views located.stats json
      (if json then located.json.sorted.indented ++ "\n" else located.report) := by
  obtain ⟨stale, coalesced, failed⟩ := others
  cases json with
  | false =>
      have report : located.report = String.join (located.results.map fun result => resultLine result.1 result.2) ++
          counterLines located.stats := by
        simp only [Located.report, CacheStats.hits, stale, coalesced, failed, Nat.add_zero, if_true,
          String.append_empty]
        exact String.append_assoc ..
      rw [if_neg Bool.false_ne_true, report]
      refine .lines (List.forall₂_map_right_iff.mpr (each.imp ?_))
      rintro view ⟨_, page⟩ ⟨rfl, answer⟩
      exact ⟨page, answer, lineFor_resultLine _ page⟩
  | true =>
      have printed : located.json.sorted.indented ++ "\n" =
          String.ofList (Json.pretty 0 located.json.sorted ++ ['\n']) := by
        rw [String.ofList_append]
        rfl
      rw [if_pos rfl, printed, sorted_located]
      refine .document (List.forall₂_map_right_iff.mpr (each.imp ?_)) (Json.writes_pretty _ 0)
      rintro view ⟨_, page⟩ ⟨rfl, answer⟩
      exact ⟨page, answer, rfl⟩

end ViewCache.Command
