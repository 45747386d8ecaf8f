import ViewCache.Proofs.Entry.Outcome
import ViewCache.Proofs.Entry.Pinning

/-!
Values that settle an entry. While all calls are lookups under the lock, nobody expires the entry and the clock
does not go back, a value that is pinned for every caller, or that no caller's timeout ever elapses for, is
the last one that is published.
-/
namespace ViewCache.Entry

variable {V C E : Type}

def Event.succeeds : Event V C E → Bool
  | .returned _ (.ok _) => true
  | _ => false

def isUpdating : Phase V E → Bool
  | .updating | .writeSlot _ | .writeFlag _ | .readClock _ | .writeStamp .. => true
  | _ => false

/-- All calls are lookups under the lock, for which the value does not expire once it is published. -/
def Settles (policy : RefreshPolicy V C) (v : V) (log : List (Event V C E)) : Prop :=
  ∀ id request, .began id request ∈ log → ∃ q : Query C, request = .lookup q ∧ q.isUnlocked = false ∧
    (policy.isPinned v q.context = true ∨ q.timeout < 0)

def Published (v : V) (log : List (Event V C E)) : Prop :=
  ∃ writer stamp, (writer, stamp) ∈ publishes log ∧ .returned writer (.ok v) ∈ log

theorem Published.later {v : V} {log : List (Event V C E)} (published : Published v log) (newer : List (Event V C E)) :
    Published v (newer ++ log) := by
  obtain ⟨writer, stamp, complete, returned⟩ := published
  refine ⟨writer, stamp, ?_, List.mem_append_right newer returned⟩
  rw [publishes, List.filterMap_append]
  exact List.mem_append_right _ complete

theorem Settles.of_cons {policy : RefreshPolicy V C} {v : V} {event : Event V C E} {log : List (Event V C E)}
    (settles : Settles policy v (event :: log)) : Settles policy v log :=
  fun id request began => settles id request (List.mem_cons_of_mem event began)

theorem Settles.unexpired {policy : RefreshPolicy V C} {v : V} {log : List (Event V C E)}
    (settles : Settles policy v log) : Unexpired log := by
  intro event member
  cases event with
  | began id request =>
      obtain ⟨q, rfl, -⟩ := settles id request member
      rfl
  | stepped | returned => rfl

def Forever (log : List (Event V C E)) : Prop :=
  ∀ id request, .began id request ∈ log → ∃ q : Query C, request = .lookup q ∧ q.timeout < 0

theorem Forever.of_cons {event : Event V C E} {log : List (Event V C E)} (forever : Forever (event :: log)) :
    Forever log :=
  fun id request began => forever id request (List.mem_cons_of_mem event began)

theorem locked_of_negative {q : Query C} (negative : q.timeout < 0) : q.isUnlocked = false := by
  simp only [Query.isUnlocked, Timeout.never, beq_eq_false_iff_ne]
  omega

theorem Forever.settles {log : List (Event V C E)} (forever : Forever log) (policy : RefreshPolicy V C) (v : V) :
    Settles policy v log := by
  intro id request began
  obtain ⟨q, lookup, negative⟩ := forever id request began
  exact ⟨q, lookup, locked_of_negative negative, .inr negative⟩

namespace Run

open Call (Advance holds Fits)

variable {policy : RefreshPolicy V C} {source : TimeSource} {run : Run V C E} {v : V}

structure Settled (run : Run V C E) (v : V) : Prop where
  slot : run.entry.slot = some v
  quiet : ∀ {id request phase}, run.calls id = some ⟨request, phase⟩ → isUpdating phase = false

theorem refresher_of_settles (reaches : (new policy source).Reaches run) (settles : Settles policy v run.log)
    {publish : CallId × Int} (published : publish ∈ publishes run.log) : Refresher publish.1 run.log := by
  obtain ⟨request, phase, running, -⟩ := over_of_published reaches published
  have began := began_of_running reaches running
  obtain ⟨q, rfl, locked, -⟩ := settles _ _ began
  exact ⟨q, began, locked⟩

theorem calls_no_updater (reaches : (new policy source).Reaches run) (steady : Steady run.log)
    (settles : Settles policy v run.log) (published : publishes run.log ≠ []) (held : run.entry.slot = some v)
    {id : CallId} {request : Request V C} (running : run.calls id = some ⟨request, .callUpdater⟩) : False := by
  obtain ⟨q, rfl, locked, lasts⟩ := settles id request (began_of_running reaches running)
  rcases lasts with pinned | negative
  · have overtaken : publishes (since id run.log) ≠ [] :=
      (overtaken_of_pinned reaches running locked held pinned).2
    obtain ⟨publish, recent⟩ := List.exists_mem_of_ne_nil _ overtaken
    apply unrefreshed_of_callUpdater reaches steady settles.unexpired running locked publish recent
    exact refresher_of_settles reaches settles (mem_publishes_since recent)
  · obtain ⟨publish, member⟩ := List.exists_mem_of_ne_nil _ published
    have due := due_of_refreshing reaches steady settles.unexpired running locked rfl
    have positive : 0 < q.timeout := (due publish member).1
    omega

theorem Settled.stepped {id : CallId} {now : Int} {request : Request V C} {phase next : Phase V E}
    {entry : Entry V C} (settled : run.Settled v) (reaches : (new policy source).Reaches run)
    (steady : Steady run.log) (settles : Settles policy v run.log) (published : publishes run.log ≠ [])
    (running : run.calls id = some ⟨request, phase⟩) (advance : Advance id now request run.entry phase entry next) :
    (run.put id ⟨request, next⟩ entry (.stepped id now run.entry phase next)).Settled v := by
  have fits := (disciplined_of_new reaches).fits _ _ _ running
  obtain ⟨q, rfl, locked, -⟩ := settles id request (began_of_running reaches running)
  have quiet : isUpdating phase = false := settled.quiet running
  have after : entry.slot = run.entry.slot ∧ isUpdating next = false := by
    cases advance with
    | callUpdater => exact (calls_no_updater reaches steady settles published settled.slot running).elim
    | publishFree => simp [Fits, Call.LookupFits, locked] at fits
    | storeLocked store => cases store
    | writeSlot | writeFlag | readClock => cases quiet
    | flagDown | slotEmpty | unstamped | old => exact ⟨rfl, Call.map_contend rfl rfl⟩
    | _ => exact ⟨rfl, rfl⟩
  refine ⟨after.1.trans settled.slot, ?_⟩
  intro other asked current found
  rcases calls_put found with ⟨rfl, same⟩ | ⟨_, found⟩
  · cases same
    exact after.2
  · exact settled.quiet found

theorem settled_of_publish {id : CallId} {now : Int} {q : Query C} {w : V} {stamp : Int}
    (reaches : (new policy source).Reaches run) (settles : Settles policy v run.log)
    (running : run.calls id = some ⟨.lookup q, .writeStamp w stamp⟩) (returned : .returned id (.ok v) ∈ run.log) :
    (run.put id ⟨.lookup q, .unlock (Call.published (.lookup q) w)⟩ { run.entry with stamp }
      (.stepped id now run.entry (.writeStamp w stamp) (.unlock (Call.published (.lookup q) w)))).Settled v := by
  have disciplined := disciplined_of_new reaches
  have same : w = v := by
    simpa [outcome?] using come_of_returned reaches running returned
  have held : run.entry.slot = some w := (disciplined.outline _ _ _ running).1
  refine ⟨same ▸ held, ?_⟩
  intro other request phase found
  rcases calls_put found with ⟨rfl, same⟩ | ⟨different, found⟩
  · cases same
    rfl
  · obtain ⟨asked, rfl, locked, -⟩ := settles other request (began_of_running reaches found)
    -- it would have the lock, which the one that publishes has
    by_contra updating
    have owning : holds (.lookup asked : Request V C) phase = true := by
      cases phase <;> simp_all [isUpdating, holds]
    exact different (disciplined.alone found owning running rfl)

theorem settled_of_published (reaches : (new policy source).Reaches run) (steady : Steady run.log)
    (settles : Settles policy v run.log) (published : Published v run.log) : run.Settled v := by
  refine reaches.rule (P := fun run => Steady run.log → Settles policy v run.log → Published v run.log →
    run.Settled v) (by simp [new, start, Published, publishes]) ?_ steady settles published
  intro run event next reached known step steady settles published
  rw [step.log] at steady settles published
  have before := known (steady_of_cons steady) settles.of_cons
  obtain ⟨writer, stamp, complete, returned⟩ := published
  rw [publishes_cons, List.mem_append] at complete
  cases step with
  | began unused =>
      -- a lookup that has just begun has called no updater
      have settled := before ⟨writer, stamp, by simpa [Event.publish?] using complete, by simpa using returned⟩
      refine ⟨settled.slot, ?_⟩
      intro other asked phase found
      rcases calls_put found with ⟨rfl, same⟩ | ⟨_, found⟩
      · obtain ⟨q, rfl, locked, -⟩ := settles _ _ List.mem_cons_self
        rw [Call.start, locked] at same
        cases same
        rfl
      · exact settled.quiet found
  | @returned id q outcome running =>
      -- whoever waits for its updater has not published, and nobody waits once the value is published
      have earlier : (writer, stamp) ∈ publishes run.log := by simpa [Event.publish?] using complete
      rcases List.mem_cons.mp returned with same | told
      · cases same
        obtain ⟨_, _, finished, ended⟩ := over_of_published reached earlier
        rw [running] at finished
        cases finished
        cases ended
      · have quiet := (before ⟨writer, stamp, earlier, told⟩).quiet running
        cases quiet
  | @stepped id now request phase entry after running advance =>
      have value : .returned writer (.ok v) ∈ run.log := by simpa using returned
      rcases complete with now | earlier
      · cases advance with
        | writeStamp =>
            obtain ⟨rfl, rfl⟩ : writer = id ∧ stamp = _ := by simpa [Event.publish?] using now
            obtain ⟨q, rfl, -⟩ := settles.of_cons _ _ (began_of_running reached running)
            exact settled_of_publish reached settles.of_cons running value
        | _ => simp [Event.publish?] at now
      · exact (before ⟨writer, stamp, earlier, value⟩).stepped reached (steady_of_cons steady) settles.of_cons
          (List.ne_nil_of_mem earlier) running advance

theorem shown_of_published (reaches : (new policy source).Reaches run) (steady : Steady run.log)
    (settles : Settles policy v run.log) (published : Published v run.log) :
    run.entry.slot = some v ∧ run.entry.initialized = true ∧ run.entry.stamp ≠ neverPublished := by
  have settled : run.Settled v := settled_of_published reaches steady settles published
  obtain ⟨writer, stamp, complete, -⟩ := published
  refine ⟨settled.slot, initialized_of_published reaches (List.ne_nil_of_mem complete), ?_⟩
  intro zero
  rw [stamp_kept reaches settles.unexpired zero] at complete
  cases complete

theorem published_of_outcome (reaches : (new policy source).Reaches run) {id : CallId} {q : Query C}
    {phase : Phase V E} (running : run.calls id = some ⟨.lookup q, phase⟩) (locked : q.isUnlocked = false)
    (come : outcome? phase = some (.ok v)) :
    publishing? phase = some v ∨ ∃ stamp, (id, stamp) ∈ publishes run.log := by
  refine reaches.each (P := fun run id request phase => request = .lookup q → outcome? phase = some (.ok v) →
    publishing? phase = some v ∨ ∃ stamp, (id, stamp) ∈ publishes run.log) (by simp [new, start])
    ?_ ?_ ?_ ?_ running rfl come
  · intro run id request _ _ lookup come
    subst lookup
    simp [outcome_start q] at come
  · intro run id now request phase entry next reached moving advance known lookup come
    subst lookup
    have fits := (disciplined_of_new reached).fits _ _ _ moving
    simp only [put, publishes_cons, List.mem_append]
    rcases known rfl ((advance.outcome_next fits).symm.trans come) with publishing | ⟨stamp, published⟩
    · cases advance with
      | writeSlot | writeFlag | readClock => exact .inl publishing
      | @writeStamp _ stamp => exact .inr ⟨stamp, .inl (by simp [Event.publish?])⟩
      | _ => cases publishing
    · exact .inr ⟨stamp, .inr published⟩
  · intro run id asked outcome _ _ _ lookup come
    cases lookup
    rw [outcome_resumed] at come
    cases come
    exact .inl (by simp [Call.resumed, locked, publishing?])
  · intro run event next other request phase _ step _ _ known lookup come
    rw [step.log, publishes_cons]
    refine (known lookup come).imp_right ?_
    rintro ⟨stamp, published⟩
    exact ⟨stamp, List.mem_append_right _ published⟩

/-- While an updater runs for a lookup whose timeout never elapses, none has come to a value. -/
theorem unsuccessful_of_updating (reaches : (new policy source).Reaches run) (steady : Steady run.log)
    (forever : Forever run.log) {id : CallId} {q : Query C}
    (running : run.calls id = some ⟨.lookup q, .updating⟩) : ∀ event ∈ run.log, event.succeeds = false := by
  obtain ⟨_, lookup, negative⟩ := forever id _ (began_of_running reaches running)
  cases lookup
  have locked : q.isUnlocked = false := locked_of_negative negative
  intro event member
  by_contra succeeds
  cases event with
  | began | stepped => simp [Event.succeeds] at succeeds
  | returned writer outcome =>
      cases outcome with
      | error cause => simp [Event.succeeds] at succeeds
      | ok v =>
          obtain ⟨asked, phase, writing, come⟩ := outcome_of_returned reaches member
          obtain ⟨_, lookup, below⟩ := forever writer _ (began_of_running reaches writing)
          cases lookup
          rcases published_of_outcome reaches writing (locked_of_negative below) come with
            publishing | ⟨stamp, published⟩
          · have holding : holds (.lookup q : Request V C) (.updating : Phase V E) = true := by simp [holds, locked]
            have same : writer = id := (disciplined_of_new reaches).alone writing (holds_of_publishing? publishing)
              running holding
            subst same
            rw [running] at writing
            cases writing
            cases come
          · have unexpired := (forever.settles policy v).unexpired
            have positive := (due_of_refreshing reaches steady unexpired running locked rfl _ published).1
            omega

/-- With such lookups alone, at most one run of an updater comes to a value. -/
theorem succeeds_once (reaches : (new policy source).Reaches run) (steady : Steady run.log)
    (forever : Forever run.log) : run.log.countP Event.succeeds ≤ 1 := by
  refine reaches.rule (P := fun run => Steady run.log → Forever run.log → run.log.countP Event.succeeds ≤ 1)
    (by simp [new, start]) ?_ steady forever
  intro run event next reached known step steady forever
  rw [step.log] at steady forever ⊢
  have before := known (steady_of_cons steady) forever.of_cons
  cases succeeded : event.succeeds with
  | false => simpa [List.countP_cons, succeeded] using before
  | true =>
      cases step with
      | began | stepped => cases succeeded
      | returned running =>
          have none := unsuccessful_of_updating reached (steady_of_cons steady) forever.of_cons running
          have zero : run.log.countP Event.succeeds = 0 := by simpa [List.countP_eq_zero] using none
          rw [List.countP_cons, zero]
          simp [succeeded]

end Run

end ViewCache.Entry
