import ViewCache.Proofs.Locator.History

namespace ViewCache.Locator

section

variable (config : LocatorConfig) (source : TimeSource)

def replies : List Turn → List (Option (Resolution × Bool))
  | [] => []
  | turn :: earlier => (turn.play (afterTurns config source earlier)).2 :: replies earlier

/-- The clock shows positive times and does not go back. -/
def Chronological : List Turn → Prop
  | [] => True
  | turn :: earlier => 0 < turn.clock.now source ∧ turn.clock.now source ≤ turn.later.now source ∧
      (∀ before ∈ earlier, before.later.now source ≤ turn.clock.now source) ∧ Chronological earlier

instance decidableChronological : (turns : List Turn) → Decidable (Chronological source turns)
  | [] => .isTrue trivial
  | _ :: earlier =>
    haveI := decidableChronological earlier
    inferInstanceAs (Decidable (_ ∧ _ ∧ _ ∧ _))

/-- One of the turns got this page for the key from the resolver, and the key was not removed since. That was not
longer before `now` than the timeout, or the page is precompiled. -/
def Given (now : Int) (turns : List Turn) (key : Key) (page : Option Page) : Prop :=
  ∃ since teller before, turns = since ++ teller :: before ∧
    teller.asks key (afterTurns config source before) = true ∧ teller.answers key = .ok page ∧
    (∀ turn ∈ since, turn.removes key = false) ∧
    (now - teller.later.now source ≤ config.timeout ∨ page.any Page.isPrecompiled = true)

structure Reloaded (turn : Turn) (earlier : List Turn) (key : Key) : Prop where
  found : ∀ page asked, (turn.play (afterTurns config source earlier)).2 = some (.ok page, asked) →
    Given config source (turn.clock.now source) (turn :: earlier) key page
  failed : ∀ failure asked, (turn.play (afterTurns config source earlier)).2 = some (.error failure, asked) →
    asked = true ∧ turn.answers key = .error failure
  forgotten : ∀ failure asked, (turn.play (afterTurns config source earlier)).2 = some (.error failure, asked) →
    ∀ newer, (replies config source (newer ++ turn :: earlier)).take newer.length =
      (replies config source (newer ++ earlier)).take newer.length
  /-- the cache in front of a resolver that never changes its answers is not noticed -/
  transparent : ∀ answers, (∀ other ∈ turn :: earlier, other.answers = answers) →
    (turn.play (afterTurns config source earlier)).2.map Prod.fst = some (answers key)
  /-- an answer that has changed for good is given once the timeout has gone by -/
  renewed : ∀ answer moment,
    (∀ other ∈ turn :: earlier, moment < other.later.now source → other.answers key = answer) →
    config.timeout < turn.clock.now source - moment →
    (∀ page, (afterTurns config source earlier).cache.peek key = some page → page.any Page.isPrecompiled = false) →
    (turn.play (afterTurns config source earlier)).2.map Prod.fst = some answer

end

variable {config : LocatorConfig} {source : TimeSource}

theorem Chronological.bounds {turns : List Turn} (chronological : Chronological source turns) {turn : Turn}
    (member : turn ∈ turns) : 0 < turn.later.now source := by
  induction turns with
  | nil => cases member
  | cons newest earlier ih =>
      obtain ⟨positive, ordered, _, older⟩ := chronological
      rcases List.mem_cons.mp member with rfl | earlier
      · omega
      · exact ih older earlier

theorem peek_eq_standing (turns : List Turn) (key : Key) :
    (afterTurns config source turns).cache.peek key = (standing config source key turns).map Entry.Standing.value := by
  have shows := shows_standing config source turns
  cases found : (afterTurns config source turns).cache.store.find? key with
  | none => simp [Cache.peek, Store.peek, found, shows.missing found]
  | some id =>
      have shown := shows.shown found
      cases held : standing config source key turns <;>
        simp [Cache.peek, Store.peek, found, shown, held, Entry.showing, Entry.value?]

theorem young_of_not_due (reload : config.reload = true) (positive : 0 < config.timeout)
    {last : Entry.Standing (Option Page)} {now : Int} (started : 0 < last.reading)
    (served : ¬ Due config (some last) now) :
    now - last.reading ≤ config.timeout ∨ last.value.any Page.isPrecompiled = true := by
  have timeout : config.effectiveTimeout = config.timeout := by simp [LocatorConfig.effectiveTimeout, reload]
  cases precompiled : last.value.any Page.isPrecompiled with
  | true => exact .inr rfl
  | false =>
      refine .inl (Int.not_lt.mp fun old => served (.inr ?_))
      rintro _ ⟨⟩
      have since : max 1 last.reading = last.reading := by omega
      refine ⟨precompiled, .inr ⟨by simpa [timeout] using positive, ?_⟩⟩
      simpa [timeout, since] using old

theorem asked_or_cached (reload : config.reload = true) (positive : 0 < config.timeout) {turn : Turn}
    {earlier : List Turn} (chronological : Chronological source (turn :: earlier)) {wanted : Wanted}
    (looksUp : turn.action = .lookup wanted) :
    (turn.play (afterTurns config source earlier)).2 = some (turn.answers wanted.cacheKey, true) ∨
      ∃ page, (turn.play (afterTurns config source earlier)).2 = some (.ok page, false) ∧
        (afterTurns config source earlier).cache.peek wanted.cacheKey = some page ∧
        Given config source (turn.clock.now source) earlier wanted.cacheKey page := by
  obtain ⟨_, _, _, older⟩ := chronological
  rcases lookup_reply looksUp earlier with ⟨_, told⟩ | ⟨last, held, served, told⟩
  · exact .inl told
  · obtain ⟨since, teller, before, split, asks, answer, dated, kept⟩ := source_of_standing held
    have read : last.reading = teller.later.now source := congrArg Entry.Standing.reading dated
    have started : 0 < last.reading := by
      rw [read]
      exact older.bounds (by simp [split])
    have young := young_of_not_due reload positive started (held ▸ served)
    rw [read] at young
    exact .inr ⟨last.value, told, by simp [peek_eq_standing, held], since, teller, before, split, asks, answer, kept,
      young⟩

theorem asks_of_told {turn : Turn} {wanted : Wanted} (looksUp : turn.action = .lookup wanted) {locator : Locator}
    {told : Resolution} (asked : (turn.play locator).2 = some (told, true)) :
    turn.asks wanted.cacheKey locator = true := by
  simp only [Turn.asks, looksUp, asked]
  simp

theorem play_congr {first second : List Turn} (turn : Turn)
    (same : ∀ key, standing config source key first = standing config source key second) :
    (turn.play (afterTurns config source first)).2 = (turn.play (afterTurns config source second)).2 ∧
      ∀ key, standing config source key (turn :: first) = standing config source key (turn :: second) := by
  have answer : (turn.play (afterTurns config source first)).2 = (turn.play (afterTurns config source second)).2 := by
    cases action : turn.action with
    | lookup wanted =>
        have cached := same wanted.cacheKey
        rcases lookup_reply action first with ⟨due, told⟩ | ⟨last, held, served, told⟩ <;>
          rcases lookup_reply action second with ⟨dueToo, toldToo⟩ | ⟨other, heldToo, servedToo, toldToo⟩
        · rw [told, toldToo]
        · exact absurd (cached ▸ due) servedToo
        · exact absurd (cached ▸ dueToo) served
        · cases held.symm.trans (cached.trans heldToo)
          rw [told, toldToo]
    | invalidate | clear => simp only [Turn.play, action]
  refine ⟨answer, fun key => ?_⟩
  have asks : turn.asks key (afterTurns config source first) = turn.asks key (afterTurns config source second) := by
    simp only [Turn.asks, answer]
  rw [standing, standing, asks, same key]

theorem append_congr (newer : List Turn) {first second : List Turn}
    (same : ∀ key, standing config source key first = standing config source key second) :
    (∀ key, standing config source key (newer ++ first) = standing config source key (newer ++ second)) ∧
      (replies config source (newer ++ first)).take newer.length =
        (replies config source (newer ++ second)).take newer.length := by
  induction newer with
  | nil => exact ⟨same, rfl⟩
  | cons turn newer ih =>
      obtain ⟨before, answers⟩ := ih
      obtain ⟨answer, after⟩ := play_congr turn before
      refine ⟨after, ?_⟩
      simp only [List.cons_append, replies, List.length_cons, List.take_succ_cons, answer, answers]

theorem standing_of_failure {turn : Turn} {wanted : Wanted} (looksUp : turn.action = .lookup wanted)
    {earlier : List Turn} {failure : Failure} {asked : Bool}
    (told : (turn.play (afterTurns config source earlier)).2 = some (.error failure, asked))
    (answer : turn.answers wanted.cacheKey = .error failure) (key : Key) :
    standing config source key (turn :: earlier) = standing config source key earlier := by
  rw [standing_of_lookup looksUp told]
  split
  case isTrue here => rw [here.1, answer, refreshed]
  case isFalse => rfl

theorem reload_correct (reload : config.reload = true) (positive : 0 < config.timeout) {turn : Turn}
    {earlier : List Turn} (chronological : Chronological source (turn :: earlier)) {wanted : Wanted}
    (looksUp : turn.action = .lookup wanted) : Reloaded config source turn earlier wanted.cacheKey := by
  have ordered : turn.clock.now source ≤ turn.later.now source := chronological.2.1
  have reply := asked_or_cached reload positive chronological looksUp
  have failed (failure : Failure) (asked : Bool)
      (told : (turn.play (afterTurns config source earlier)).2 = some (.error failure, asked)) :
      asked = true ∧ turn.answers wanted.cacheKey = .error failure := by
    rcases reply with toldToo | ⟨page, toldToo, _⟩
    · have same := told.symm.trans toldToo
      simp only [Option.some.injEq, Prod.mk.injEq] at same
      exact ⟨same.2, same.1.symm⟩
    · cases told.symm.trans toldToo
  constructor
  case found =>
    intro page asked told
    rcases reply with toldToo | ⟨_, toldToo, _, since, teller, before, split, asks, answer, kept, young⟩
    · have same := told.symm.trans toldToo
      simp only [Option.some.injEq, Prod.mk.injEq] at same
      refine ⟨[], turn, earlier, rfl, asks_of_told looksUp toldToo, same.1.symm, by simp, .inl ?_⟩
      omega
    · cases told.symm.trans toldToo
      refine ⟨turn :: since, teller, before, by rw [split]; rfl, asks, answer, ?_, young⟩
      exact List.forall_mem_cons.mpr ⟨by simp [Turn.removes, looksUp], kept⟩
  case failed => exact failed
  case forgotten =>
    intro failure asked told newer
    have answer := (failed failure asked told).2
    exact (append_congr newer (standing_of_failure looksUp told answer)).2
  case transparent =>
    intro answers constant
    rcases reply with told | ⟨page, told, _, since, teller, before, split, _, answer, _⟩
    · rw [told, constant turn List.mem_cons_self]
      rfl
    · have member : teller ∈ turn :: earlier := by simp [split]
      rw [told, ← constant teller member, answer]
      rfl
  case renewed =>
    intro answer moment changed waited unpinned
    rcases reply with told | ⟨page, told, peeked, since, teller, before, split, _, given, _, young⟩
    · rw [told, changed turn List.mem_cons_self (by omega)]
      rfl
    · have member : teller ∈ turn :: earlier := by simp [split]
      have recent : turn.clock.now source - teller.later.now source ≤ config.timeout := by
        simpa [unpinned page peeked] using young
      rw [told, ← changed teller member (by omega), given]
      rfl

/-- A view is found, another fails to resolve, and the first is looked up again under its full name ten
milliseconds after it was found, when there is no such view any more. -/
def vanishedView : List Turn :=
  [⟨.lookup (.page "show.gsp" none), fun _ => .ok none, { manual := 111 }, { manual := 112 }⟩,
    ⟨.lookup (.view (some "book") "show" none), fun _ => .error (.invalidPath .missing), { manual := 105 },
      { manual := 105 }⟩,
    ⟨.lookup (.page "show" none), fun _ => .ok (some (.resource "/show.gsp" "views/show.gsp" 7)), { manual := 100 },
      { manual := 101 }⟩]

theorem vanished_view_reloaded : ∃ turn earlier, vanishedView = turn :: earlier ∧
    (turn.play (afterTurns { timeout := 10 } .manual earlier)).2 =
      some (.ok (some (.resource "/show.gsp" "views/show.gsp" 7)), false) ∧
    Reloaded { timeout := 10 } .manual turn earlier (.ofPage "show.gsp" none) := by
  have chronological : Chronological .manual vanishedView := by decide
  exact ⟨_, _, rfl, rfl, reload_correct rfl (by decide) chronological rfl⟩

end ViewCache.Locator
