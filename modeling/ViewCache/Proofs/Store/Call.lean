import ViewCache.Proofs.Assoc
import ViewCache.Proofs.Entry.Step
import ViewCache.Store.Call

namespace ViewCache

variable {K V C E : Type}

namespace Store

theorem ext_entry? {first second : Store K V C} (index : first.index = second.index)
    (entries : ∀ id, first.entry? id = second.entry? id) : first = second := by
  obtain ⟨firstEntries, firstIndex⟩ := first
  obtain ⟨secondEntries, secondIndex⟩ := second
  have same : firstEntries = secondEntries := Array.ext_getElem? entries
  simp only at index
  rw [same, index]

theorem entry?_modify (store : Store K V C) (id other : EntryId) (f : Entry V C → Entry V C) :
    Store.entry? (store.modify id f) other =
      if id = other then (store.entry? other).map f else store.entry? other :=
  Array.getElem?_modify

@[simp]
theorem size_set (store : Store K V C) (id : EntryId) (entry : Entry V C) :
    (store.set id entry).entries.size = store.entries.size := Array.size_modify

theorem entry?_set_self {store : Store K V C} {id : EntryId} {entry after : Entry V C}
    (known : store.entry? id = some entry) : Store.entry? (store.set id after) id = some after := by
  rw [set, entry?_modify, if_pos rfl, known]
  rfl

theorem entry?_set_of_ne (store : Store K V C) {id other : EntryId} (after : Entry V C) (different : other ≠ id) :
    Store.entry? (store.set id after) other = store.entry? other := by
  rw [set, entry?_modify, if_neg (Ne.symm different)]

theorem set_eq_modify {store : Store K V C} {id : EntryId} {entry : Entry V C}
    (known : store.entry? id = some entry) (f : Entry V C → Entry V C) :
    store.set id (f entry) = store.modify id f := by
  refine ext_entry? rfl fun other => ?_
  rw [set, entry?_modify, entry?_modify]
  by_cases here : id = other
  · rw [← here, known]
    rfl
  · rw [if_neg here, if_neg here]

theorem set_self {store : Store K V C} {id : EntryId} {entry : Entry V C}
    (known : store.entry? id = some entry) : store.set id entry = store := by
  refine ext_entry? rfl fun other => ?_
  by_cases here : other = id
  · rw [here, entry?_set_self known, known]
  · exact entry?_set_of_ne store entry here

theorem set_set (store : Store K V C) (id : EntryId) (first second : Entry V C) :
    (store.set id first).set id second = store.set id second := by
  refine ext_entry? rfl fun other => ?_
  rw [set, entry?_modify, set, entry?_modify, set, entry?_modify]
  by_cases here : id = other
  · simp only [here, if_true, Option.map_map, Function.comp_def]
  · simp only [here, if_false]

theorem mem_index_of_find? [DecidableEq K] {store : Store K V C} {key : K} {id : EntryId}
    (found : store.find? key = some id) : (key, id) ∈ store.index := by
  obtain ⟨before, after, split, _⟩ := List.lookup_eq_some_iff.mp found
  simp [split]

theorem find?_set [DecidableEq K] (store : Store K V C) (id : EntryId) (entry : Entry V C) (key : K) :
    Store.find? (store.set id entry) key = store.find? key := rfl

theorem find?_insert [DecidableEq K] (entries : Array (Entry V C)) (index : List (K × EntryId)) (key other : K)
    (id : EntryId) : (⟨entries, (key, id) :: index⟩ : Store K V C).find? other =
      if key = other then some id else index.lookup other := by
  by_cases same : key = other
  · simp [find?, same]
  · have different : (other == key) = false := by simpa using fun here => same here.symm
    simp [find?, List.lookup_cons, same, different]

theorem find?_remove [DecidableEq K] (store : Store K V C) (key other : K) :
    Store.find? (store.remove key) other = if key = other then none else store.find? other := by
  refine (lookup_filter (· != key) store.index other).trans ?_
  by_cases same : key = other
  · simp [same]
  · simp [same, Ne.symm same, find?]

theorem find?_expire [DecidableEq K] (store : Store K V C) (key other : K) :
    Store.find? (store.expire key).1 other = store.find? other := by
  cases found : store.find? key with
  | none => simp only [expire, found]
  | some id =>
      simp only [expire, found]
      rfl

theorem entry?_expire [DecidableEq K] (store : Store K V C) (key : K) (id : EntryId) :
    Store.entry? (store.expire key).1 id =
      if store.find? key = some id then (store.entry? id).map Entry.expire else store.entry? id := by
  cases found : store.find? key with
  | none => simp [expire, found]
  | some held => simp [expire, found, entry?_modify]

/-- The entries are expired one after another; one that is listed twice is none the worse for it. -/
theorem expire_listed (listed : List (K × EntryId)) (store : Store K V C) :
    let after := listed.foldl (fun store (_, id) => store.modify id Entry.expire) store
    after.index = store.index ∧ ∀ id, Store.entry? after id =
      if id ∈ listed.map Prod.snd then (store.entry? id).map Entry.expire else store.entry? id := by
  induction listed generalizing store with
  | nil => simp
  | cons pair listed ih =>
      obtain ⟨index, entries⟩ := ih (store.modify pair.2 Entry.expire)
      refine ⟨index, ?_⟩
      intro id
      rw [List.foldl_cons, entries, entry?_modify]
      by_cases here : pair.2 = id
      · by_cases later : id ∈ listed.map Prod.snd <;> cases store.entry? id <;> simp [here, later, Entry.expire]
      · by_cases later : id ∈ listed.map Prod.snd <;> simp [here, later, Ne.symm here]

theorem find?_expireAll [DecidableEq K] (store : Store K V C) (key : K) :
    Store.find? store.expireAll key = store.find? key := by
  rw [find?, expireAll, (expire_listed store.index store).1]
  rfl

theorem entry?_expireAll (store : Store K V C) (id : EntryId) : Store.entry? store.expireAll id =
    if id ∈ store.index.map Prod.snd then (store.entry? id).map Entry.expire else store.entry? id :=
  (expire_listed store.index store).2 id

end Store

namespace Store.Call

def seeks? : Store.Call K V C E → Option (K × Goal C)
  | find key goal | build key goal | insert key goal _ => some (key, goal)
  | got _ | within .. => none

theorem entryId?_arrive (entry : EntryId) (goal : Goal C) :
    (arrive entry goal : Store.Call K V C E).entryId? = some entry := by
  cases goal <;> rfl

variable [DecidableEq K]

inductive Advance (me : CallId) (clock : Clock) (store : Store K V C) :
    Store.Call K V C E → Store K V C → Store.Call K V C E → Prop
  | hit {key goal id} (found : store.find? key = some id) :
      Advance me clock store (.find key goal) store (.arrive id goal)
  | missed {key goal} (absent : store.find? key = none) :
      Advance me clock store (.find key goal) store (.build key goal)
  | lost {key goal fresh id} (found : store.find? key = some id) :
      Advance me clock store (.insert key goal fresh) store (.arrive id goal)
  | inserted {key goal fresh} (absent : store.find? key = none) :
      Advance me clock store (.insert key goal fresh)
        ⟨store.entries.push fresh, (key, store.entries.size) :: store.index⟩
        (.arrive store.entries.size goal)
  | within {id request phase entry after next} (known : store.entry? id = some entry)
      (advance : ViewCache.Call.Advance me (clock.now entry.source) request entry phase after next) :
      Advance me clock store (.within id ⟨request, phase⟩) (store.set id after)
        (.within id ⟨request, next⟩)

theorem advance_cases {me : CallId} {clock : Clock} {store after : Store K V C}
    {call next : Store.Call K V C E} (advances : call.step me clock store = some (after, next)) :
    Advance me clock store call after next := by
  cases call with
  | find key goal =>
      cases found : store.find? key <;> simp [step, found] at advances <;> obtain ⟨rfl, rfl⟩ := advances
      · exact .missed found
      · exact .hit found
  | insert key goal fresh =>
      cases found : store.find? key <;> simp [step, insertIfAbsent, found] at advances <;>
        obtain ⟨rfl, rfl⟩ := advances
      · exact .inserted found
      · exact .lost found
  | within id call =>
      obtain ⟨request, phase⟩ := call
      simp only [step, Option.bind_eq_bind, Option.bind_eq_some_iff, ViewCache.Call.step,
        Option.map_eq_some_iff, Option.pure_def, Option.some.injEq] at advances
      obtain ⟨entry, known, ⟨_, _⟩, ⟨⟨_, _⟩, advance, moved⟩, same⟩ := advances
      cases moved
      cases same
      exact .within known (ViewCache.Call.advance_cases advance)
  | build | got => simp [step] at advances

end Store.Call

end ViewCache
