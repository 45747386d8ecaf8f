import ViewCache.Proofs.Entry.Account

namespace ViewCache.Entry

variable {V C E : Type}

theorem one_le_ceiling (log : List (Event V C E)) : 1 ≤ ceiling log := by
  unfold ceiling
  induction readings log with
  | nil => simp
  | cons time times ih => simp only [List.foldr_cons]; omega

theorem ceiling_mono (event : Event V C E) (log : List (Event V C E)) :
    ceiling log ≤ ceiling (event :: log) := by
  rw [ceiling_cons]
  cases event.reading? with
  | none => simp
  | some now => simp only [Option.elim_some]; omega

theorem reading_le_ceiling {event : Event V C E} {now : Int} (log : List (Event V C E))
    (reads : event.reading? = some now) : stampAt now ≤ ceiling (event :: log) := by
  have low := one_le_ceiling log
  rw [ceiling_cons, reads]
  simp only [stampAt, Option.elim_some]
  omega

theorem mem_publishes_since {id : CallId} {log : List (Event V C E)} {publish : CallId × Int}
    (member : publish ∈ publishes (since id log)) : publish ∈ publishes log :=
  ((List.takeWhile_prefix _).sublist.filterMap _).subset member

namespace Run

open Call (Advance holds Fits Outline)

variable {policy : RefreshPolicy V C} {source : TimeSource} {run : Run V C E}

theorem pending_le (reaches : (new policy source).Reaches run) {id : CallId} {request : Request V C}
    {v : V} {stamp : Int} (running : run.calls id = some ⟨request, .writeStamp v stamp⟩) :
    stamp ≤ ceiling run.log := by
  refine reaches.inside (X := fun phase => phase = .writeStamp v stamp) (P := fun run _ _ => stamp ≤ ceiling run.log)
    rfl (fun same => same ▸ rfl) ?_ ?_ running rfl
  · intro run id now request phase entry next _ _ _ advance _ pending
    obtain ⟨rfl, _, rfl⟩ := advance.clock_read pending
    exact reading_le_ceiling _ rfl
  · intro run event next other request phase _ _ step _ _ _ bound
    rw [step.log]
    exact Int.le_trans bound (ceiling_mono event run.log)

theorem publish_bounds (reaches : (new policy source).Reaches run) :
    ∀ publish ∈ publishes run.log, 1 ≤ publish.2 ∧ publish.2 ≤ ceiling run.log := by
  refine reaches.rule (P := fun run => ∀ publish ∈ publishes run.log,
    1 ≤ publish.2 ∧ publish.2 ≤ ceiling run.log) (by simp [new, start, publishes]) ?_
  intro run event next reached known step publish member
  rw [step.log, publishes_cons, List.mem_append] at member
  rw [step.log]
  rcases member with now | earlier
  · cases step with
    | began | returned => simp [Event.publish?] at now
    | stepped running advance =>
        cases advance <;> simp [Event.publish?] at now
        subst now
        have outline := (disciplined_of_new reached).outline _ _ _ running
        exact ⟨outline.2.2, Int.le_trans (pending_le reached running) (ceiling_mono _ run.log)⟩
  · obtain ⟨low, high⟩ := known publish earlier
    exact ⟨low, Int.le_trans high (ceiling_mono event run.log)⟩

/-- What a lookup has loaded is the timestamp of a publish, or says that there is none to go by. -/
theorem snapshot_published (reaches : (new policy source).Reaches run) {id : CallId}
    {request : Request V C} {phase : Phase V E} {snapshot : Int}
    (running : run.calls id = some ⟨request, phase⟩) (loaded : snapshot? phase = some snapshot)
    (stamped : snapshot ≠ neverPublished) : ∃ publish ∈ publishes run.log, publish.2 = snapshot := by
  refine reaches.inside (X := fun phase => snapshot? phase = some snapshot)
    (P := fun run _ _ => ∃ publish ∈ publishes run.log, publish.2 = snapshot)
    rfl inner_of_snapshot ?_ ?_ running loaded
  · intro run id now request phase entry next reached _ _ advance known loaded
    simp only [put, publishes_cons, List.mem_append]
    obtain ⟨_, ⟨_, rfl⟩ | ⟨before, _⟩⟩ := snapshot_of_next advance loaded
    · obtain ⟨publisher, last⟩ := stamp_current reached stamped
      exact ⟨_, .inr (List.mem_of_mem_head? last), rfl⟩
    · obtain ⟨publish, member, same⟩ := known before
      exact ⟨publish, .inr member, same⟩
  · intro run event next other request phase _ _ step _ _ _ known
    obtain ⟨publish, member, same⟩ := known
    exact ⟨publish, by rw [step.log, publishes_cons]; exact List.mem_append_right _ member, same⟩

theorem timeout_pos_of_checkAge (reaches : (new policy source).Reaches run) {id : CallId} {q : Query C}
    {snapshot : Int} {v : V} (running : run.calls id = some ⟨.lookup q, .checkAge snapshot v⟩) :
    0 < q.timeout := by
  refine reaches.inside (X := fun phase => phase = .checkAge snapshot v)
    (P := fun _ _ request => request = .lookup q → 0 < q.timeout) rfl (fun same => same ▸ rfl) ?_ ?_
    running rfl rfl
  · intro run id now request phase entry next reached _ running advance _ checking lookup
    obtain ⟨asked, same, rfl, _, _, _, elapses⟩ := advance.slot_read checking
    subst lookup
    cases same
    have unlocked : q.isUnlocked = false := (disciplined_of_new reached).fits _ _ _ running
    simp only [Query.isUnlocked, Timeout.never, beq_eq_false_iff_ne] at unlocked
    omega
  · intro run event next other request phase _ _ _ _ _ _ known
    exact known

/-- A publish under way will not be stamped earlier than those before it. -/
theorem pending_latest (reaches : (new policy source).Reaches run) (steady : Steady run.log) {id : CallId}
    {request : Request V C} {v : V} {stamp : Int}
    (running : run.calls id = some ⟨request, .writeStamp v stamp⟩) :
    ∀ publish ∈ publishes run.log, publish.2 ≤ stamp := by
  revert steady
  refine reaches.inside (X := fun phase => phase = .writeStamp v stamp)
    (P := fun run _ _ => Steady run.log → ∀ publish ∈ publishes run.log, publish.2 ≤ stamp)
    rfl (fun same => same ▸ rfl) ?_ ?_ running rfl
  · intro run id now request phase entry next reached _ _ advance _ pending steady publish member
    obtain ⟨rfl, _, rfl⟩ := advance.clock_read pending
    subst pending
    exact Int.le_trans (publish_bounds reached publish member).2 (ceiling_le_of_steady steady rfl)
  · intro run event next other request phase reached _ step different running pending known steady
    subst pending
    have idle := (step.idle_of_holds reached running rfl different).2
    rw [step.log] at steady
    rw [step.log, publishes_cons, idle]
    exact known (steady_of_cons steady)

theorem publishes_sorted (reaches : (new policy source).Reaches run) (steady : Steady run.log) :
    (publishes run.log).Pairwise fun newer older => older.2 ≤ newer.2 := by
  revert steady
  refine reaches.rule (P := fun run => Steady run.log →
    (publishes run.log).Pairwise fun newer older => older.2 ≤ newer.2)
    (by simp [new, start, publishes]) ?_
  intro run event next reached known step steady
  rw [step.log] at steady
  have sorted := known (steady_of_cons steady)
  rw [step.log, publishes_cons]
  cases step with
  | began | returned => exact sorted
  | stepped running advance =>
      cases advance with
      | writeStamp =>
          exact List.pairwise_cons.mpr
            ⟨pending_latest reached (steady_of_cons steady) running, sorted⟩
      | _ => exact sorted

theorem publishes_le_newest (reaches : (new policy source).Reaches run) (steady : Steady run.log)
    {newest : CallId × Int} (last : (publishes run.log).head? = some newest) :
    ∀ publish ∈ publishes run.log, publish.2 ≤ newest.2 := by
  intro publish member
  obtain ⟨older, all⟩ := List.head?_eq_some_iff.mp last
  have sorted := publishes_sorted reaches steady
  rw [all] at sorted member
  rcases List.mem_cons.mp member with rfl | earlier
  · exact Int.le_refl _
  · exact (List.pairwise_cons.mp sorted).1 publish earlier

theorem publishes_le_stamp (reaches : (new policy source).Reaches run) (steady : Steady run.log)
    (stamped : run.entry.stamp ≠ neverPublished) :
    ∀ publish ∈ publishes run.log, publish.2 ≤ run.entry.stamp := by
  obtain ⟨publisher, last⟩ := stamp_current reaches stamped
  exact publishes_le_newest reaches steady last

end Run

end ViewCache.Entry
