import Mathlib.Data.Finset.Card
import ViewCache.Proofs.Locator.History

namespace ViewCache

/-! ### How lookups are counted -/

/-- These keys have been looked up, the last one first, with this timeout, and counted so. A key that is there is
computed again only where values may become too old, and is found fresh only where they are kept at all. -/
inductive Tallied (timeout : Int) : List Key → Counters → Prop
  | nil : Tallied timeout [] {}
  | computed {key : Key} {looked : List Key} {counters : Counters} (due : key ∈ looked → 0 ≤ timeout)
      (before : Tallied timeout looked counters) :
      Tallied timeout (key :: looked) { counters with computed := counters.computed + 1 }
  | fresh {key : Key} {looked : List Key} {counters : Counters} (held : key ∈ looked) (kept : timeout ≠ 0)
      (before : Tallied timeout looked counters) :
      Tallied timeout (key :: looked) { counters with fresh := counters.fresh + 1 }

namespace Tallied

variable {timeout : Int} {looked : List Key} {counters : Counters}

theorem total (tallied : Tallied timeout looked counters) :
    counters.fresh + counters.computed = looked.length ∧ counters.stale = 0 ∧ counters.coalesced = 0 ∧
      counters.failed = 0 := by
  induction tallied with
  | nil => simp
  | computed due before ih => exact ⟨by simp only [List.length_cons]; omega, ih.2⟩
  | fresh held kept before ih => exact ⟨by simp only [List.length_cons]; omega, ih.2⟩

theorem distinct_le (tallied : Tallied timeout looked counters) : looked.toFinset.card ≤ counters.computed := by
  induction tallied with
  | nil => simp
  | @computed key looked counters due before ih =>
      rw [List.toFinset_cons]
      exact (Finset.card_insert_le key looked.toFinset).trans (Nat.succ_le_succ ih)
  | @fresh key looked counters held kept before ih =>
      rwa [List.toFinset_cons, Finset.insert_eq_of_mem (List.mem_toFinset.mpr held)]

theorem once (tallied : Tallied timeout looked counters) (forever : timeout < 0) :
    counters.computed = looked.toFinset.card := by
  induction tallied with
  | nil => simp
  | @computed key looked counters due before ih =>
      -- under such a timeout no value becomes too old
      have missing : key ∉ looked.toFinset := fun held => by
        have old := due (List.mem_toFinset.mp held)
        omega
      rw [List.toFinset_cons, Finset.card_insert_of_notMem missing, ih]
  | @fresh key looked counters held kept before ih =>
      rwa [List.toFinset_cons, Finset.insert_eq_of_mem (List.mem_toFinset.mpr held)]

theorem always (tallied : Tallied timeout looked counters) (never : timeout = 0) :
    counters.computed = looked.length := by
  induction tallied with
  | nil => rfl
  | computed due before ih => exact congrArg (· + 1) ih
  | fresh held kept before ih => exact absurd never kept

end Tallied

/-! ### Lookups of a resolver that keeps to its answers -/

namespace Locator

def keys (locator : Locator) : List Key := locator.cache.store.index.map Prod.fst

section

variable (config : LocatorConfig) (resolve : Key → Resolution)

structure Remembers (looked : List Key) (cached : Key → Option (Entry.Standing (Option Page))) : Prop where
  told : ∀ key ∈ looked, ∃ page reading, resolve key = .ok page ∧ cached key = some ⟨page, reading, false⟩
  missing : ∀ key, key ∉ looked → cached key = none

structure Answered (looked : List Key) (locator : Locator) : Prop where
  cached : ∃ cached, Shows config .wall locator cached ∧ Remembers resolve looked cached
  single : locator.keys.Nodup
  same : locator.keys.toFinset = looked.toFinset
  tallied : Tallied config.effectiveTimeout looked locator.cache.counters

end

variable {config : LocatorConfig} {resolve : Key → Resolution} {looked : List Key} {locator : Locator}

theorem Answered.of_new : Answered config resolve [] (.new config .wall) where
  cached := ⟨_, .of_new, by simp, fun _ _ => rfl⟩
  single := .nil
  same := rfl
  tallied := .nil

theorem find?_eq_none_iff {key : Key} : locator.cache.store.find? key = none ↔ key ∉ locator.keys := by
  simp only [Store.find?, List.lookup_eq_none_iff, bne_iff_ne, keys, List.mem_map]
  constructor
  · rintro other ⟨pair, member, rfl⟩
    exact other pair member rfl
  · rintro absent pair member rfl
    exact absent ⟨pair, member, rfl⟩

theorem keys_of_entered {key : Key} {store : Store Key (Option Page) Unit} {id : EntryId}
    (entered : locator.cache.store.insertIfAbsent key locator.cache.newEntry = (store, id)) :
    store.index.map Prod.fst = if key ∈ locator.keys then locator.keys else key :: locator.keys := by
  cases found : locator.cache.store.find? key with
  | none =>
      simp only [Store.insertIfAbsent, found, Prod.mk.injEq] at entered
      rw [if_neg (find?_eq_none_iff.mp found), ← entered.1]
      rfl
  | some held =>
      have present : key ∈ locator.keys := by
        by_contra absent
        rw [find?_eq_none_iff.mpr absent] at found
        cases found
      simp only [Store.insertIfAbsent, found, Prod.mk.injEq] at entered
      rw [if_pos present, ← entered.1]
      rfl

theorem not_due (forever : config.effectiveTimeout < 0) (page : Option Page) (reading now : Int) :
    ¬ Due config (some ⟨page, reading, false⟩) now := by
  rintro (never | unserved)
  · omega
  · have old := (unserved _ rfl).2
    simp at old
    omega

theorem Remembers.updated {cached : Key → Option (Entry.Standing (Option Page))}
    (remembers : Remembers resolve looked cached) {key : Key} {page : Option Page} (answer : resolve key = .ok page)
    (reading : Int) :
    Remembers resolve (key :: looked) (Function.update cached key (some ⟨page, reading, false⟩)) := by
  constructor
  · intro other seen
    by_cases same : other = key
    · subst same
      exact ⟨page, reading, answer, Function.update_self ..⟩
    · rw [Function.update_of_ne same]
      exact remembers.told other (List.mem_of_ne_of_mem same seen)
  · intro other unseen
    obtain ⟨different, unseen⟩ := List.ne_and_not_mem_of_not_mem_cons unseen
    rw [Function.update_of_ne different]
    exact remembers.missing other unseen

theorem Remembers.outcome {cached : Key → Option (Entry.Standing (Option Page))}
    (remembers : Remembers resolve looked cached) {counters : Counters}
    (tallied : Tallied config.effectiveTimeout looked counters) {key : Key} {page : Option Page}
    (answer : resolve key = .ok page) {now later : Int} {next? : Option (Entry.Standing (Option Page))}
    {reply : Reply (Option Page) Failure}
    (outcome : (Due config (cached key) now ∧ reply = Entry.ownReply (resolve key) ∧
        next? = refreshed (cached key) later (resolve key)) ∨
      ∃ last, cached key = some last ∧ ¬ Due config (cached key) now ∧ reply = .answered last.value .fresh ∧
        next? = cached key) :
    resolutionOf reply = .ok page ∧ (∃ reading, next? = some ⟨page, reading, false⟩) ∧
      Tallied config.effectiveTimeout (key :: looked) (counters.record reply) := by
  rcases outcome with ⟨due, rfl, rfl⟩ | ⟨last, held, served, rfl, rfl⟩
  · rw [answer]
    refine ⟨rfl, ⟨later, rfl⟩, .computed ?_ tallied⟩
    intro seen
    obtain ⟨other, reading, -, old⟩ := remembers.told key seen
    rw [old] at due
    by_contra negative
    exact not_due (Int.not_le.mp negative) other reading now due
  · have seen : key ∈ looked := by
      by_contra unseen
      rw [remembers.missing key unseen] at held
      cases held
    obtain ⟨other, reading, sameAnswer, old⟩ := remembers.told key seen
    cases answer.symm.trans sameAnswer
    cases held.symm.trans old
    exact ⟨rfl, ⟨reading, held⟩, .fresh seen (fun never => served (.inl never)) tallied⟩

theorem Answered.lookup (answered : Answered config resolve looked locator) {key : Key} {page : Option Page}
    (answer : resolve key = .ok page) (clock later : Clock) :
    (locator.lookup key (resolve key) clock later).2.1 = .ok page ∧
      Answered config resolve (key :: looked) (locator.lookup key (resolve key) clock later).1 := by
  obtain ⟨cached, shows, remembers⟩ := answered.cached
  obtain ⟨store, id, next?, reply, entered, run, outcome⟩ := shows.lookup_eq key (resolve key) clock later
  obtain ⟨inside, found⟩ := shows.entered entered
  obtain ⟨told, ⟨reading, rfl⟩, tallied⟩ := remembers.outcome answered.tallied answer outcome
  have keys := keys_of_entered entered
  rw [run]
  refine ⟨told, ⟨⟨_, inside.answered found _ reply, remembers.updated answer reading⟩, ?_, ?_, tallied⟩⟩
  · show (store.index.map Prod.fst).Nodup
    rw [keys]
    split
    case isTrue => exact answered.single
    case isFalse absent => exact List.nodup_cons.mpr ⟨absent, answered.single⟩
  · show (store.index.map Prod.fst).toFinset = (key :: looked).toFinset
    rw [keys, List.toFinset_cons, ← answered.same]
    split
    case isTrue present => exact (Finset.insert_eq_of_mem (List.mem_toFinset.mpr present)).symm
    case isFalse => exact List.toFinset_cons

theorem Answered.lookup_failed (answered : Answered config resolve looked locator) {key : Key} {failure : Failure}
    (answer : resolve key = .error failure) (clock later : Clock) :
    (locator.lookup key (resolve key) clock later).2.1 = .error failure := by
  obtain ⟨cached, shows, remembers⟩ := answered.cached
  rcases shows.lookup key (resolve key) clock later with ⟨-, asked, -⟩ | ⟨last, held, -⟩
  · rw [asked, answer]
  · have unseen : key ∉ looked := by
      intro seen
      obtain ⟨page, reading, other, -⟩ := remembers.told key seen
      cases answer.symm.trans other
    rw [remembers.missing key unseen] at held
    cases held

theorem Answered.stats (answered : Answered config resolve looked locator) :
    locator.stats = ⟨looked.toFinset.card, looked.toFinset.card, locator.cache.counters⟩ := by
  have entries : locator.cache.store.index.length = looked.toFinset.card := by
    rw [← answered.same, List.toFinset_card_of_nodup answered.single, keys, List.length_map]
  have initialized : locator.cache.store.initializedCount = locator.cache.store.index.length := by
    refine List.countP_eq_length.mpr ?_
    rintro ⟨key, id⟩ member
    obtain ⟨cached, shows, remembers⟩ := answered.cached
    have seen : key ∈ looked := by
      rw [← List.mem_toFinset, ← answered.same, List.mem_toFinset]
      exact List.mem_map_of_mem member
    obtain ⟨page, reading, -, old⟩ := remembers.told key seen
    have shown := shows.shown ((mem_iff_lookup answered.single key id).mp member)
    rw [old] at shown
    simp [shown, Entry.showing]
  rw [Locator.stats, Cache.stats, Store.size, initialized, entries]

end Locator

end ViewCache
