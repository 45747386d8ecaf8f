import ViewCache.Proofs.Store.History

/-!
One entry of a map, seen alone. What is done to it, through whatever handle, is a run on that entry from the
state in which its maker handed it in.
-/
namespace ViewCache.Store

variable {K V C E : Type}

def entryLog (entry : EntryId) (log : List (Event K V C E)) : List (Entry.Event V C E) :=
  log.filterMap fun
    | .acted id event => if id = entry then some event else none
    | _ => none

def Task.on? (entry : EntryId) : Task K V C E → Option (ViewCache.Call V C E)
  | call (.within id inner) => if id = entry then some inner else none
  | _ => none

def Run.view (run : Run K V C E) (entry : EntryId) (shown : Entry V C) : Entry.Run V C E :=
  ⟨shown, fun id => (run.tasks id).bind (Task.on? entry), entryLog entry run.log⟩

theorem entryLog_append (entry : EntryId) (newer older : List (Event K V C E)) :
    entryLog entry (newer ++ older) = entryLog entry newer ++ entryLog entry older :=
  List.filterMap_append

theorem mem_entryLog {entry : EntryId} {log : List (Event K V C E)} {event : Entry.Event V C E}
    (member : event ∈ entryLog entry log) : .acted entry event ∈ log := by
  obtain ⟨found, listed, same⟩ := List.mem_filterMap.mp member
  cases found with
  | acted id done =>
      simp only [Option.ite_none_right_eq_some, Option.some.injEq] at same
      obtain ⟨rfl, rfl⟩ := same
      exact listed
  | _ => cases same

theorem on?_of_entryId? {task : Task K V C E} {entry : EntryId} (elsewhere : task.entryId? ≠ some entry) :
    task.on? entry = none := by
  cases task with
  | call call =>
      cases call with
      | within id inner => exact if_neg fun same => elsewhere (congrArg some same)
      | find | build | insert | got => rfl
  | removing | removed => rfl

namespace Run

variable {run : Run K V C E} {id : CallId} {store : Store K V C} {task : Task K V C E}
  {news : List (Event K V C E)} {entry : EntryId} {shown after made : Entry V C}

theorem view_put_away (away : task.on? entry = (run.tasks id).bind (Task.on? entry))
    (silent : entryLog entry news = []) :
    (run.put id store task news).view entry shown = run.view entry shown := by
  have calls : (fun other => ((run.put id store task news).tasks other).bind (Task.on? entry)) =
      fun other => (run.tasks other).bind (Task.on? entry) := by
    funext other
    by_cases same : other = id
    · subst same
      simpa [put] using away
    · simp [put, same]
  have log : entryLog entry (run.put id store task news).log = entryLog entry run.log := by
    rw [put, entryLog_append, silent, List.nil_append]
  rw [view, view, calls, log]

theorem view_put_on {call : ViewCache.Call V C E} {event : Entry.Event V C E} (shown : Entry V C)
    (on : task.on? entry = some call) (told : entryLog entry news = [event]) :
    (run.put id store task news).view entry after = (run.view entry shown).put id call after event := by
  have calls : (fun other => ((run.put id store task news).tasks other).bind (Task.on? entry)) =
      Function.update (run.view entry shown).calls id (some call) := by
    funext other
    by_cases same : other = id
    · subst same
      simpa [put] using on
    · simp [put, view, same]
  have log : entryLog entry (run.put id store task news).log = event :: entryLog entry run.log := by
    rw [put, entryLog_append, told, List.singleton_append]
  rw [view, calls, log]
  rfl

section

variable (reaches : (Entry.Run.start made).Reaches (run.view entry shown))

include reaches

theorem reaches_away (away : task.on? entry = (run.tasks id).bind (Task.on? entry))
    (silent : entryLog entry news = []) :
    (Entry.Run.start made).Reaches ((run.put id store task news).view entry shown) := by
  rw [view_put_away away silent]
  exact reaches

theorem reaches_on {call : ViewCache.Call V C E} {event : Entry.Event V C E}
    (step : Entry.Run.Step (run.view entry shown) event ((run.view entry shown).put id call after event))
    (on : task.on? entry = some call) (told : entryLog entry news = [event]) :
    (Entry.Run.start made).Reaches ((run.put id store task news).view entry after) := by
  rw [view_put_on shown on told]
  exact reaches.step step

theorem reaches_arrival {other : EntryId} {goal : Goal C} {access : Event K V C E}
    (unknown : (run.tasks id).bind (Task.on? entry) = none) (silent : entryLog entry [access] = []) :
    (Entry.Run.start made).Reaches
      ((run.put id store (.call (.arrive other goal)) (arrival id other goal ++ [access])).view entry shown) := by
  have only (told : entryLog entry (arrival id other goal : List (Event K V C E)) = []) :
      entryLog entry (arrival id other goal ++ [access]) = [] := by
    rw [entryLog_append, told, silent]
    rfl
  cases goal with
  | entry => exact reaches_away reaches unknown.symm (only rfl)
  | lookup q =>
      by_cases same : other = entry
      · subst same
        refine reaches_on reaches (.began unknown) (if_pos rfl) ?_
        rw [entryLog_append, silent]
        simp [arrival, entryLog]
      · refine reaches_away reaches ?_ (only (by simp [arrival, entryLog, same]))
        rw [unknown]
        exact if_neg same

end

variable [DecidableEq K]

theorem Turn.view (turn : Turn run.store id (run.tasks id) store task news)
    (known : run.store.entry? entry = some shown)
    (reaches : (Entry.Run.start made).Reaches (run.view entry shown)) :
    ∃ after, store.entry? entry = some after ∧
      (Entry.Run.start made).Reaches ((run.put id store task news).view entry after) := by
  generalize running : run.tasks id = before at turn
  cases turn with
  | sought | remove | missed | supplied | removed =>
      exact ⟨shown, known, reaches_away reaches (by rw [running]; rfl) rfl⟩
  | @held other request _ =>
      refine ⟨shown, known, ?_⟩
      by_cases same : other = entry
      · subst same
        exact reaches_on reaches (.began (by simp [Run.view, running])) (if_pos rfl) (by simp [entryLog])
      · exact reaches_away reaches (by rw [running]; exact if_neg same) (by simp [entryLog, same])
  | found | yielded => exact ⟨shown, known, reaches_arrival reaches (by rw [running]; rfl) rfl⟩
  | inserted =>
      -- the entry that is put in is a new one
      have old : run.store.entries.size ≠ entry := by
        rintro rfl
        simp [Store.entry?] at known
      refine ⟨shown, ?_, reaches_arrival reaches (by rw [running]; rfl) rfl⟩
      unfold Store.entry? at known ⊢
      simpa [Array.getElem?_push, old.symm] using known
  | @stepped other request phase seen now following next found advance =>
      by_cases same : other = entry
      · subst same
        cases found.symm.trans known
        refine ⟨following, entry?_set_self known, ?_⟩
        have moving : (run.view other shown).calls id = some ⟨request, phase⟩ := by
          simp [Run.view, running, Task.on?]
        exact reaches_on reaches (.stepped moving advance) (if_pos rfl) (by simp [entryLog, Run.view])
      · refine ⟨shown, (entry?_set_of_ne _ _ (Ne.symm same)).trans known, ?_⟩
        exact reaches_away reaches (by rw [running]; exact (if_neg same).trans (if_neg same).symm)
          (by simp [entryLog, same])
  | @returned other q outcome =>
      refine ⟨shown, known, ?_⟩
      by_cases same : other = entry
      · subst same
        exact reaches_on reaches (.returned (by simp [Run.view, running, Task.on?])) (if_pos rfl)
          (by simp [entryLog])
      · exact reaches_away reaches (by rw [running]; exact (if_neg same).trans (if_neg same).symm)
          (by simp [entryLog, same])

theorem view_fresh (recorded : run.Recorded) (fresh : Entry V C) :
    run.view run.store.entries.size fresh = Entry.Run.start fresh := by
  have idle : (fun id => (run.tasks id).bind (Task.on? run.store.entries.size)) =
      fun _ => (none : Option (ViewCache.Call V C E)) := by
    funext id
    cases running : run.tasks id with
    | none => rfl
    | some task =>
        refine on?_of_entryId? ?_
        intro come
        exact Nat.lt_irrefl _ (recorded.reached running come)
  have silent : entryLog run.store.entries.size run.log = [] := by
    refine List.eq_nil_iff_forall_not_mem.mpr ?_
    intro event member
    exact Nat.lt_irrefl _ (recorded.acted (mem_entryLog member))
  rw [view, idle, silent]
  rfl

theorem viewed (reaches : new.Reaches run) {key : K} {fresh : Entry V C}
    (inserted : .inserted id key entry fresh ∈ run.log) :
    ∃ shown, run.store.entry? entry = some shown ∧ (Entry.Run.start fresh).Reaches (run.view entry shown) := by
  revert inserted
  refine reaches.rule (P := fun run => .inserted id key entry fresh ∈ run.log →
    ∃ shown, run.store.entry? entry = some shown ∧ (Entry.Run.start fresh).Reaches (run.view entry shown))
    (by simp [new]) ?_
  intro run mover store task news reached known turn inserted
  have recorded := recorded_of_new reached
  rcases List.mem_append.mp inserted with now | earlier
  · -- the entry's own run begins with the step that puts it in
    generalize running : run.tasks mover = before at turn
    cases turn with
    | @inserted sought goal own absent =>
        have same : (.inserted id key entry fresh : Event K V C E) =
            .inserted mover sought run.store.entries.size own := by
          cases goal <;> simpa [arrival] using now
        cases same
        have early : (Entry.Run.start fresh).Reaches (run.view run.store.entries.size fresh) :=
          view_fresh recorded fresh ▸ .refl _
        exact ⟨fresh, Array.getElem?_push_size, reaches_arrival early (by rw [running]; rfl) rfl⟩
    | @found _ goal | @yielded _ goal => cases goal <;> simp [arrival] at now
    | _ => simp at now
  · obtain ⟨shown, at_entry, early⟩ := known earlier
    exact turn.view at_entry early

end Run

end ViewCache.Store
