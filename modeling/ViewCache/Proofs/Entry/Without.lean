import Mathlib.Data.List.Induction
import ViewCache.Proofs.Entry.Representation

/-!
Runs with one of the calls left out. If no step of a call changes the entry, the lock included, the others are none
the wiser: without it the same moves are possible, and they see and answer the same.
-/
namespace ViewCache.Entry

variable {V C E : Type}

def Move.id : Move V C E → CallId
  | invoke id _ | step id _ | resume id _ => id

def Event.touches (event : Event V C E) : Bool :=
  event.write?.isSome || event.acquires event.id || event.releases event.id

end ViewCache.Entry

namespace ViewCache.Call

open Entry

theorem Advance.entry_of_untouched {V C E : Type} {me : CallId} {now : Int} {request : Request V C}
    {entry after : Entry V C} {phase next : Phase V E} (advance : Advance me now request entry phase after next)
    (untouched : (Event.stepped me now entry phase next : Event V C E).touches = false) : after = entry := by
  cases advance with
  | tryFree free | locked free | publishFree free | storeLocked _ free =>
      simp [Event.touches, Event.acquires, Event.id, free] at untouched
  | writeSlot | writeFlag | writeStamp | clearStamp => simp [Event.touches, Event.write?] at untouched
  | unlock => simp [Event.touches, Event.releases, Event.id] at untouched
  | _ => rfl

end ViewCache.Call

namespace ViewCache.Entry.Run

open Call (Advance)

variable {V C E : Type} {policy : RefreshPolicy V C} {source : TimeSource} {first run next last : Run V C E}
  {id : CallId} {move : Move V C E} {moves : List (Move V C E)}

/-- The run as it is without the call: the entry and the other calls stay as they are. -/
def without (run : Run V C E) (id : CallId) : Run V C E :=
  ⟨run.entry, Function.update run.calls id none, run.log.filter (·.id != id)⟩

theorem Step.entry_of_untouched {event : Event V C E} (step : Step run event next)
    (untouched : event.touches = false) : next.entry = run.entry := by
  cases step with
  | began | returned => rfl
  | stepped _ advance => exact advance.entry_of_untouched untouched

theorem put_of_next (moved : run.next? move = some next) : ∃ call entry event, Step run event next ∧
    event.id = move.id ∧ next = run.put move.id call entry event ∧
    ∀ other : Run V C E, other.entry = run.entry → other.calls move.id = run.calls move.id →
      other.next? move = some (other.put move.id call entry event) := by
  cases move with
  | invoke id request =>
      cases running : run.calls id with
      | some call => simp [next?, running] at moved
      | none =>
          simp only [next?, running, Option.some.injEq] at moved
          subst moved
          refine ⟨_, _, _, .began running, rfl, rfl, ?_⟩
          intro other entry call
          have unused : other.calls id = none := call.trans running
          simp [next?, Move.id, unused, entry]
  | step id now =>
      obtain ⟨request, phase, entry, after, running, advance, rfl⟩ := advance_of_next moved
      refine ⟨_, _, _, .stepped running advance, rfl, rfl, ?_⟩
      intro other same call
      rw [← same] at advance ⊢
      exact next_of_advance (call.trans running) advance
  | resume id outcome =>
      obtain ⟨q, running, rfl⟩ := returned_of_next moved
      refine ⟨_, _, _, .returned running, rfl, rfl, ?_⟩
      intro other same call
      have updating : other.calls id = some ⟨.lookup q, .updating⟩ := call.trans running
      simp [next?, Move.id, updating, Call.resume, same]

theorem without_of_own (moved : run.next? move = some next) (own : move.id = id) (still : next.entry = run.entry) :
    next.without id = run.without id := by
  obtain ⟨call, entry, event, _, mine, rfl, _⟩ := put_of_next moved
  rw [own] at mine
  simp only [put] at still
  subst own still
  simp [without, put, mine]

theorem next_without (moved : run.next? move = some next) (other : move.id ≠ id) :
    (run.without id).next? move = some (next.without id) := by
  obtain ⟨call, entry, event, _, mine, rfl, possible⟩ := put_of_next moved
  have unseen : (run.without id).calls move.id = run.calls move.id := Function.update_of_ne other ..
  rw [possible (run.without id) rfl unseen]
  have kept : event.id ≠ id := mine ▸ other
  simp [without, put, kept, Function.update_comm other]

theorem without_of_unused (reaches : (new policy source).Reaches run) (unused : run.calls id = none) :
    run.without id = run := by
  have calls : Function.update run.calls id none = run.calls := by rw [← unused, Function.update_eq_self]
  have log : run.log.filter (·.id != id) = run.log := by
    rw [List.filter_eq_self]
    intro event member
    have running := silent reaches event member
    simp only [bne_iff_ne]
    rintro rfl
    exact running unused
  rw [without, calls, log]

theorem follow_without (reaches : (new policy source).Reaches first) (unused : first.calls id = none)
    (followed : first.follow? moves = some last)
    (untouched : ∀ event ∈ last.log, event.id = id → event.touches = false) :
    first.follow? (moves.filter (·.id != id)) = some (last.without id) := by
  -- from the last move back, so that what the log says of all steps is there for the earlier ones
  induction moves using List.reverseRecOn generalizing last with
  | nil =>
      cases followed
      rw [without_of_unused reaches unused]
      rfl
  | append_singleton moves move ih =>
      rw [follow?, List.foldlM_append] at followed
      obtain ⟨run, before, rest⟩ := Option.bind_eq_some_iff.mp followed
      have moved : run.next? move = some last := by simpa using rest
      obtain ⟨_, _, event, step, mine, _, _⟩ := put_of_next moved
      have earlier : first.follow? (moves.filter (·.id != id)) = some (run.without id) := by
        apply ih before
        intro found member
        exact untouched found (step.log ▸ List.mem_cons_of_mem event member)
      rw [List.filter_append, follow?, List.foldlM_append]
      apply Option.bind_eq_some_iff.mpr
      by_cases own : move.id = id
      · have here : event ∈ last.log := step.log ▸ List.mem_cons_self
        have still := step.entry_of_untouched (untouched event here (mine.trans own))
        have skipped : [move].filter (·.id != id) = [] := by simp [own]
        rw [skipped]
        exact ⟨run.without id, earlier, congrArg some (without_of_own moved own still).symm⟩
      · have kept : [move].filter (·.id != id) = [move] := by simp [own]
        rw [kept]
        exact ⟨run.without id, earlier, by simpa using next_without moved own⟩

end ViewCache.Entry.Run
