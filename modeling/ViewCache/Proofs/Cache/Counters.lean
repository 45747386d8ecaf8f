import Mathlib.Algebra.GroupWithZero.Nat
import Mathlib.Data.Finset.Card
import ViewCache.Proofs.Cache.Ledger
import ViewCache.Proofs.Entry.Outcome
import ViewCache.Proofs.Store.History

/-!
The counters account for the lookups by key that were over since the cache was last cleared, each of which was
answered or failed as its own updater, or the entry, would have it; the sizes account for the keys.
-/
namespace ViewCache

variable {K V C E : Type}

namespace Reply

def how? : Reply V E → Option Served
  | answered _ how => some how
  | failed _ | stored | expired | found _ => none

def hasFailed : Reply V E → Bool
  | failed _ => true
  | answered .. | stored | expired | found _ => false

def isLookup : Reply V E → Bool
  | answered .. | failed _ => true
  | stored | expired | found _ => false

theorem ran_answered (v : V) (how : Served) : (answered v how : Reply V E).ran = decide (how = .computed) := by
  cases how <;> rfl

theorem ran_failed (failure : UpdateFailure E) : (failed failure : Reply V E).ran = true := rfl

end Reply

namespace Cache

def tally (calls : List (CallId × Reply V E)) : Counters :=
  calls.foldr (fun (_, reply) counters => counters.record reply) {}

section

variable {calls : List (CallId × Reply V E)}

theorem tally_eq (calls : List (CallId × Reply V E)) : tally calls = {
    fresh := calls.countP fun (_, reply) => reply.how? == some .fresh
    stale := calls.countP fun (_, reply) => reply.how? == some .stale
    coalesced := calls.countP fun (_, reply) => reply.how? == some .coalesced
    computed := calls.countP fun (_, reply) => reply.how? == some .computed
    failed := calls.countP fun (_, reply) => reply.hasFailed } := by
  induction calls with
  | nil => rfl
  | cons call calls ih =>
      obtain ⟨id, reply⟩ := call
      rw [tally, List.foldr_cons, ← tally, ih]
      cases reply with
      | answered v how => cases how <;> simp [Counters.record, Reply.how?, Reply.hasFailed]
      | failed | stored | expired | found => simp [Counters.record, Reply.how?, Reply.hasFailed]

theorem tally_sums (lookups : ∀ call ∈ calls, call.2.isLookup = true) :
    (tally calls).computed + (tally calls).failed = (calls.map fun call => call.2.ran.toNat).sum ∧
    (tally calls).fresh + (tally calls).stale + (tally calls).coalesced =
      calls.countP (fun call => !call.2.ran) ∧
    (tally calls).fresh + (tally calls).stale + (tally calls).coalesced + (tally calls).computed +
      (tally calls).failed = calls.length := by
  induction calls with
  | nil => exact ⟨rfl, rfl, rfl⟩
  | cons call calls ih =>
      obtain ⟨id, reply⟩ := call
      obtain ⟨here, rest⟩ := List.forall_mem_cons.mp lookups
      obtain ⟨ran, hits, all⟩ := ih rest
      have step : tally ((id, reply) :: calls) = (tally calls).record reply := rfl
      rw [step, List.map_cons, List.sum_cons, List.countP_cons, List.length_cons]
      cases reply with
      | answered v how => cases how <;> simp [Counters.record, Reply.ran_answered] <;> omega
      | failed failure =>
          simp [Counters.record, Reply.ran_failed]
          omega
      | stored | expired | found => cases here

end

namespace Ledger

/-- Lookups by key that were over since the last clear, the last one first. -/
def settled : List (Event K V C E) → List (CallId × Reply V E)
  | [] | .cleared :: _ => []
  | .finished id reply :: older => (id, reply) :: settled older
  | .asked _ :: older | .stored _ :: older => settled older

def Event.over? : Event K V C E → Option CallId
  | .finished id _ => some id
  | .asked _ | .stored _ | .cleared => none

def Event.updates (id : CallId) : Event K V C E → Bool
  | .stored (.acted _ event) => event.starts id
  | _ => false

def updates (id : CallId) (log : List (Event K V C E)) : Nat := log.countP (Event.updates id)

def Returned (id : CallId) (outcome : Except E V) (log : List (Event K V C E)) : Prop :=
  ∃ entry, .stored (.acted entry (.returned id outcome)) ∈ log

def Event.publishes (entry : EntryId) : Event K V C E → Bool
  | .stored (.inserted _ _ id fresh) => id == entry && fresh.initialized
  | .stored (.acted id (.stepped _ _ _ (.writeFlag _) _)) => id == entry
  | _ => false

def Published (entry : EntryId) (log : List (Event K V C E)) : Prop := ∃ event ∈ log, event.publishes entry = true

def Event.caller? : Event K V C E → Option CallId
  | .stored (.acted _ event) => some event.id
  | .stored _ | .asked _ | .finished .. | .cleared => none

section

variable {news log : List (Event K V C E)} {id : CallId} {outcome : Except E V}

theorem settled_append_stored (news : List (Store.Event K V C E)) (log : List (Event K V C E)) :
    settled (news.map .stored ++ log) = settled log := by
  induction news with
  | nil => rfl
  | cons event news ih => exact ih

theorem over_stored (news : List (Store.Event K V C E)) :
    (news.map Event.stored).filterMap Event.over? = ([] : List CallId) := by
  simp [List.filterMap_map, Function.comp_def, Event.over?]

theorem finished_of_settled {reply : Reply V E}
    (counts : (id, reply) ∈ settled log) : .finished id reply ∈ log := by
  induction log with
  | nil => cases counts
  | cons event log ih =>
      cases event with
      | cleared => cases counts
      | finished other answer =>
          rcases List.mem_cons.mp counts with same | earlier
          · cases same
            exact List.mem_cons_self
          · exact List.mem_cons_of_mem _ (ih earlier)
      | asked | stored => exact List.mem_cons_of_mem _ (ih counts)

theorem updates_append : updates id (news ++ log) = updates id news + updates id log := List.countP_append

theorem returned_append :
    Returned id outcome (news ++ log) ↔ Returned id outcome news ∨ Returned id outcome log := by
  simp [Returned, exists_or]

theorem published_append {entry : EntryId} :
    Published entry (news ++ log) ↔ Published entry news ∨ Published entry log := by
  simp [Published, or_and_right, exists_or]

theorem published_stepped {at_entry entry : EntryId} {me : CallId} {now : Int} {seen : Entry V C}
    {phase next : Phase V E} :
    Published entry [(.stored (.acted at_entry (.stepped me now seen phase next)) : Event K V C E)] ↔
      at_entry = entry ∧ ∃ v, phase = .writeFlag v := by
  cases phase <;> simp [Published, Event.publishes]

end

structure Account (log : List (Event K V C E)) (id : CallId) (started : Nat) (come : Option (Except E V)) : Prop where
  updates : updates id log = started
  returned : ∀ outcome, Returned id outcome log ↔ come = some outcome

section

variable {news log : List (Event K V C E)} {id : CallId} {n more : Nat} {come : Option (Except E V)}

theorem Account.quiet (account : Account log id n come) (others : ∀ event ∈ news, event.caller? ≠ some id) :
    Account (news ++ log) id n come := by
  have idle : Ledger.updates id news = 0 := by
    refine List.countP_eq_zero.mpr ?_
    intro event member starts
    refine others event member ?_
    cases event with
    | stored event =>
        cases event with
        | acted entry event => exact congrArg some (Entry.Event.id_of_starts starts)
        | _ => cases starts
    | asked | finished | cleared => cases starts
  have silent (outcome : Except E V) : ¬ Returned id outcome news :=
    fun returned => others _ returned.choose_spec rfl
  refine ⟨?_, ?_⟩
  · rw [updates_append, idle, Nat.zero_add, account.updates]
  · intro outcome
    rw [returned_append, account.returned]
    exact or_iff_right (silent outcome)

theorem Account.go (account : Account log id n come) (starts : Ledger.updates id news = more)
    (none : ∀ outcome, ¬ Returned id outcome news) : Account (news ++ log) id (n + more) come := by
  refine ⟨?_, ?_⟩
  · rw [updates_append, starts, account.updates, Nat.add_comm]
  · intro outcome
    rw [returned_append, account.returned]
    exact or_iff_right (none outcome)

theorem Account.return {entry : EntryId} {outcome : Except E V} (account : Account log id n none) :
    Account (.stored (.acted entry (.returned id outcome)) :: log) id n (some outcome) := by
  refine ⟨?_, ?_⟩
  · rw [← account.updates]
    simp [Ledger.updates, Event.updates, Entry.Event.starts]
  · intro other
    have before := account.returned other
    simp only [reduceCtorEq, iff_false] at before
    rw [← List.singleton_append, returned_append, or_iff_left before]
    simp [Returned, eq_comm]

end

def started (phase : Phase V E) : Nat := (!Entry.isUnstarted phase).toNat

section

variable {me : CallId} {now : Int} {q : Query C} {entry after : Entry V C} {phase next : Phase V E}

theorem started_contend (snapshot : Int) : started (Call.contend q snapshot : Phase V E) = 0 :=
  Call.map_contend rfl rfl

theorem started_start (q : Query C) : started (Call.start (.lookup q) : ViewCache.Call V C E).phase = 0 := by
  cases unlocked : q.isUnlocked <;> simp [Call.start, unlocked, started, Entry.isUnstarted]

theorem started_resumed (q : Query C) (outcome : Except E V) : started (Call.resumed q outcome) = 1 := by
  cases outcome <;> cases unlocked : q.isUnlocked <;>
    simp [Call.resumed, unlocked, started, Entry.isUnstarted, Entry.shared?]

theorem started_next (advance : Call.Advance me now (.lookup q) entry phase after next)
    (fits : Call.LookupFits q phase) :
    started next = started phase + ((Entry.Event.stepped me now entry phase next).starts me).toNat := by
  cases advance with
  | flagDown | slotEmpty | unstamped | old =>
      rw [started_contend]
      simp [started, Entry.isUnstarted, Entry.Event.starts]
  | _ => simp_all [started, Entry.isUnstarted, Entry.shared?, Entry.Event.starts, Call.published, Call.LookupFits]

theorem started_done {reply : Reply V E} (fits : Call.ReplyFits q reply) : started (.done reply) = reply.ran.toNat := by
  cases reply with
  | answered v how => cases how <;> rfl
  | failed => rfl
  | stored | expired | found => cases fits

end

/-- The log accounts for a lookup by key at every point of it, and says nothing of a call before it begins. -/
inductive Standing (log : List (Event K V C E)) (id : CallId) : Option (Call K V C E) → Prop
  | absent (account : Account log id 0 none) : Standing log id none
  | uncounted {call} : Standing log id (some (.uncounted call))
  | seeking {call key q} (seeks : call.seeks? = some (key, .lookup q)) (account : Account log id 0 none) :
      Standing log id (some (.counted call))
  | inside {entry q phase} (fits : Call.LookupFits q phase)
      (account : Account log id (started phase) (Entry.outcome? phase)) :
      Standing log id (some (.counted (.within entry ⟨.lookup q, phase⟩)))
  | recorded {entry reply} {q : Query C} (fits : Call.ReplyFits q reply)
      (account : Account log id reply.ran.toNat (Entry.replyOutcome? reply)) :
      Standing log id (some (.recorded entry reply))

theorem Standing.quiet {news log : List (Event K V C E)} {id : CallId} {call : Option (Call K V C E)}
    (standing : Standing log id call) (others : ∀ event ∈ news, event.caller? ≠ some id) :
    Standing (news ++ log) id call := by
  cases standing with
  | absent account => exact .absent (account.quiet others)
  | uncounted => exact .uncounted
  | seeking seeks account => exact .seeking seeks (account.quiet others)
  | inside fits account => exact .inside fits (account.quiet others)
  | recorded fits account => exact .recorded fits (account.quiet others)

section

variable {log : List (Event K V C E)} {store after : Store K V C} {cache next : Cache K V C} {id : CallId}
  {before : Option (Call K V C E)} {call : Call K V C E} {news : List (Event K V C E)}

theorem Standing.arrive {entry : EntryId} {q : Query C} {looked : Store.Event K V C E} (account : Account log id 0 none)
    (quiet : (Event.stored looked : Event K V C E).caller? = none) :
    Standing ((Store.arrival id entry (.lookup q) ++ [looked]).map .stored ++ log) id
      (some (.counted (.arrive entry (.lookup q)))) := by
  have looking : Account ([.stored looked] ++ log) id 0 none := account.quiet (by simp [quiet])
  have begun : Account ([.stored (.acted entry (.began id (.lookup q)))] ++ ([.stored looked] ++ log)) id 0 none :=
    looking.go rfl (by simp [Returned])
  rw [Store.Call.arrive, Call.start_request]
  refine .inside (Call.start_fits (.lookup q : Request V C)).1 ?_
  rw [started_start, Entry.outcome_start]
  exact begun

variable [DecidableEq K]

theorem Standing.onward {inner moved : Store.Call K V C E} {news : List (Store.Event K V C E)}
    (standing : Standing log id (some (.counted inner)))
    (turn : Store.Run.Turn store id (some (.call inner)) after (.call moved) news) :
    Standing (news.map .stored ++ log) id (some (.counted moved)) := by
  cases standing with
  | @seeking _ key q seeks account =>
      cases turn with
      | found =>
          cases seeks
          exact .arrive account rfl
      | missed =>
          cases seeks
          exact .seeking rfl (account.quiet (by simp [Event.caller?]))
      | supplied =>
          cases seeks
          exact .seeking rfl (account.quiet (by simp [Event.caller?]))
      | yielded =>
          cases seeks
          exact .arrive account rfl
      | inserted =>
          cases seeks
          exact .arrive account rfl
      | stepped | returned => cases seeks
  | @inside entry q phase fits account =>
      cases turn with
      | stepped known advance =>
          -- the account counts a call of the updater in the step that makes it
          refine .inside (advance.fits_next fits) ?_
          rw [started_next advance fits, advance.outcome_next fits]
          refine account.go ?_ (by simp [Returned])
          cases starts : Entry.Event.starts id _ <;> simp [Ledger.updates, Event.updates, starts]
      | returned =>
          refine .inside (Call.resumed_fits _ _).1 ?_
          rw [started_resumed, Entry.outcome_resumed]
          exact account.return

theorem Turn.standing (turn : Turn cache id before next call news) (standing : Standing log id before) :
    Standing (news ++ log) id (some call) := by
  cases turn with
  | asked =>
      cases standing with
      | absent account => exact .seeking rfl (account.quiet (by simp [Event.caller?]))
  | begun | uncounted => exact .uncounted
  | counted turn => exact standing.onward turn
  | recorded =>
      cases standing with
      | seeking seeks => cases seeks
      | inside fits account =>
          refine .recorded fits ?_
          rw [← started_done fits]
          exact account.quiet (by simp [Event.caller?])

theorem caller_of_turn {task : Option (Store.Task K V C E)} {moved : Store.Task K V C E} {event : Store.Event K V C E}
    {news : List (Store.Event K V C E)} (turn : Store.Run.Turn store id task after moved news) (member : event ∈ news)
    {other : CallId} (called : (Event.stored event : Event K V C E).caller? = some other) : other = id := by
  have arriving {entry : EntryId} {goal : Store.Goal C} {looked : Store.Event K V C E}
      (quiet : (Event.stored looked : Event K V C E).caller? = none)
      (member : event ∈ Store.arrival id entry goal ++ [looked]) : other = id := by
    rcases List.mem_append.mp member with here | here
    · cases goal with
      | entry => cases here
      | lookup q =>
          cases List.mem_singleton.mp here
          exact (Option.some.inj called).symm
    · cases List.mem_singleton.mp here
      rw [quiet] at called
      cases called
  cases turn with
  | found | yielded | inserted => exact arriving rfl member
  | remove => cases member
  | held | stepped | returned =>
      cases List.mem_singleton.mp member
      exact (Option.some.inj called).symm
  | sought | missed | supplied | removed =>
      cases List.mem_singleton.mp member
      cases called

theorem Turn.caller (turn : Turn cache id before next call news) {event : Event K V C E} (member : event ∈ news)
    {other : CallId} (called : event.caller? = some other) : other = id := by
  cases turn with
  | asked | recorded =>
      cases List.mem_singleton.mp member
      cases called
  | begun turn | uncounted turn | counted turn =>
      obtain ⟨inner, inside, rfl⟩ := List.mem_map.mp member
      exact caller_of_turn turn inside called

/-! ### Flags -/

theorem flag_next {me : CallId} {now : Int} {request : Request V C} {entry after : Entry V C} {phase next : Phase V E}
    (advance : Call.Advance me now request entry phase after next) :
    after.initialized = true ↔ (∃ v, phase = .writeFlag v) ∨ entry.initialized = true := by
  cases advance <;> simp [Call.take, Entry.expire]

theorem flag_of_turn {task : Option (Store.Task K V C E)} {moved : Store.Call K V C E}
    {news : List (Store.Event K V C E)} (turn : Store.Run.Turn store id task after (.call moved) news)
    (entry : EntryId) : ((after.entry? entry).any (·.initialized) = true ↔
      Published entry (news.map Event.stored) ∨ (store.entry? entry).any (·.initialized) = true) := by
  have arriving {held : EntryId} {goal : Store.Goal C} {looked : Store.Event K V C E} :
      Published entry ((Store.arrival id held goal ++ [looked]).map Event.stored) ↔
        (Event.stored looked).publishes entry = true := by
    cases goal <;> simp [Published, Store.arrival, Event.publishes]
  cases turn with
  | sought | held | missed | supplied | returned => simp [Published, Event.publishes]
  | found | yielded =>
      rw [arriving]
      simp [Event.publishes]
  | @inserted key goal fresh absent =>
      rw [arriving, Store.entry?, Array.getElem?_push]
      by_cases here : entry = store.entries.size
      · subst here
        simp [Event.publishes, Store.entry?]
      · simp [Event.publishes, here, Ne.symm here, Store.entry?]
  | @stepped at_entry request phase seen now next _ known advance =>
      rw [List.map_singleton, published_stepped]
      by_cases here : entry = at_entry
      · subst here
        rw [Store.entry?_set_self known, known]
        simpa using flag_next advance
      · rw [Store.entry?_set_of_ne _ _ here]
        simp [Ne.symm here]

theorem Turn.flag (turn : Turn cache id before next call news) (entry : EntryId) :
    ((next.store.entry? entry).any (·.initialized) = true ↔
      Published entry news ∨ (cache.store.entry? entry).any (·.initialized) = true) := by
  cases turn with
  | asked | recorded => simp [Published, Event.publishes]
  | begun turn | uncounted turn | counted turn => exact flag_of_turn turn entry

theorem Turn.keys (turn : Turn cache id before next call news) (keys : (cache.store.index.map Prod.fst).Nodup) :
    (next.store.index.map Prod.fst).Nodup := by
  cases turn with
  | asked | recorded => exact keys
  | begun turn | uncounted turn | counted turn => exact Store.Run.Turn.keys turn keys

theorem Whole.flag (whole : Whole K V C) (cache : Cache K V C) (entry : EntryId) :
    (Store.entry? (whole.on cache).store entry).any (·.initialized) =
      (cache.store.entry? entry).any (·.initialized) := by
  have expired (seen : Option (Entry V C)) :
      (seen.map Entry.expire).any (·.initialized) = seen.any (·.initialized) := by
    cases seen <;> rfl
  cases whole with
  | expire key =>
      refine (congrArg _ (Store.entry?_expire cache.store key entry)).trans ?_
      split
      · exact expired _
      · rfl
  | expireAll =>
      refine (congrArg _ (Store.entry?_expireAll cache.store entry)).trans ?_
      split
      · exact expired _
      · rfl
  | peek | invalidate | clear | withPolicy => rfl

theorem Whole.keys (whole : Whole K V C) {cache : Cache K V C} (keys : (cache.store.index.map Prod.fst).Nodup) :
    ((whole.on cache).store.index.map Prod.fst).Nodup := by
  cases whole with
  | invalidate key => exact keys.sublist (List.filter_sublist.map _)
  | expire key =>
      cases found : cache.store.find? key <;> simp only [Whole.on, Cache.expire, Store.expire, found] <;> exact keys
  | expireAll =>
      have same : cache.store.expireAll.index = cache.store.index := (Store.expire_listed _ _).1
      simpa [Whole.on, Cache.expireAll, same] using keys
  | clear => exact List.nodup_nil
  | peek | withPolicy => exact keys

end

/-! ### Runs -/

def isByKey : Call K V C E → Bool
  | .counted _ | .recorded .. => true
  | .uncounted _ => false

def UnderWay (run : Ledger K V C E) (id : CallId) : Prop := ∃ call, run.calls id = some (.counted call)

structure Balanced [DecidableEq K] (run : Ledger K V C E) : Prop where
  standing : ∀ id, Standing run.log id (run.calls id)
  counted : run.cache.counters = tally (settled run.log)
  asked : ∀ id, .asked id ∈ run.log ↔ ∃ call, run.calls id = some call ∧ isByKey call = true
  finished : ∀ id reply, .finished id reply ∈ run.log ↔ ∃ entry, run.calls id = some (.recorded entry reply)
  once : (run.log.filterMap Event.over?).Nodup
  keys : (run.cache.store.index.map Prod.fst).Nodup
  flags : ∀ entry, (run.cache.store.entry? entry).any (·.initialized) = true ↔ Published entry run.log

section

variable [DecidableEq K] {run : Ledger K V C E} {cache : Cache K V C} {id : CallId} {call : Call K V C E}
  {before : Option (Call K V C E)} {news : List (Event K V C E)}

theorem Balanced.not_finished (balanced : Balanced run) {inner : Store.Call K V C E}
    (running : run.calls id = some (.counted inner)) (reply : Reply V E) : .finished id reply ∉ run.log := by
  intro ended
  obtain ⟨entry, recorded⟩ := (balanced.finished id reply).mp ended
  rw [running] at recorded
  cases recorded

theorem Balanced.turned (balanced : Balanced run) (running : run.calls id = before)
    (turn : Turn run.cache id before cache call news) : Balanced (run.put id cache call news) := by
  constructor
  case standing =>
    intro other
    rw [calls_put]
    by_cases same : other = id
    · rw [if_pos same, same]
      exact turn.standing (running ▸ balanced.standing id)
    · rw [if_neg same]
      -- what a call does goes to its own account
      refine (balanced.standing other).quiet ?_
      exact fun event member called => same (turn.caller member called)
  case counted =>
    cases turn with
    | asked => exact balanced.counted
    | begun | uncounted | counted => exact balanced.counted.trans (congrArg tally (settled_append_stored _ _).symm)
    | recorded => exact congrArg (Counters.record · _) balanced.counted
  case asked =>
    intro other
    rw [calls_put]
    have known := balanced.asked other
    by_cases same : other = id
    · subst same
      cases turn <;> simp_all [put, isByKey, Call.lookup]
    · cases turn <;> simp_all [put, isByKey, Call.lookup]
  case finished =>
    intro other reply
    rw [calls_put]
    have known := balanced.finished other reply
    by_cases same : other = id
    · subst same
      cases turn with
      | asked | begun | uncounted | counted => simp_all [put, Call.lookup]
      | recorded => simp_all [put, eq_comm]
    · cases turn <;> simp_all [put, Call.lookup]
  case once =>
    cases turn with
    | asked => exact balanced.once
    | begun | uncounted | counted =>
        rw [put, List.filterMap_append, over_stored]
        exact balanced.once
    | recorded =>
        refine List.nodup_cons.mpr ⟨?_, balanced.once⟩
        intro member
        obtain ⟨event, earlier, ended⟩ := List.mem_filterMap.mp member
        cases event with
        | finished other reply =>
            cases ended
            exact balanced.not_finished running reply earlier
        | asked | stored | cleared => cases ended
  case keys => exact turn.keys balanced.keys
  case flags =>
    intro entry
    refine (turn.flag entry).trans ?_
    rw [balanced.flags, ← published_append]
    rfl

theorem Balanced.performed (balanced : Balanced run) (whole : Whole K V C) : Balanced (run.perform whole) := by
  have cleared : ∀ event ∈ (Whole.news whole : List (Event K V C E)), event = .cleared := by
    cases whole <;> simp [Whole.news]
  constructor
  case standing =>
    intro id
    refine (balanced.standing id).quiet ?_
    intro event member called
    rw [cleared event member] at called
    cases called
  case counted =>
    cases whole with
    | clear => rfl
    | peek | invalidate | expire | expireAll | withPolicy => exact balanced.counted
  case asked =>
    intro id
    refine Iff.trans ?_ (balanced.asked id)
    cases whole <;> simp [perform, Whole.news]
  case finished =>
    intro id reply
    refine Iff.trans ?_ (balanced.finished id reply)
    cases whole <;> simp [perform, Whole.news]
  case once =>
    cases whole <;> exact balanced.once
  case keys => exact Whole.keys whole balanced.keys
  case flags =>
    intro entry
    rw [perform, Whole.flag, balanced.flags]
    cases whole <;> simp [Published, Whole.news, Event.publishes]

theorem balanced_of_new {config : CacheConfig} {policy : RefreshPolicy V C} {source : TimeSource}
    (reaches : (new config policy source).Reaches run) : Balanced run := by
  refine reaches.rule ?_ ?_
  · constructor
    case standing => exact fun id => .absent ⟨rfl, by simp [Returned, new]⟩
    case counted => rfl
    case asked => simp [new]
    case finished => simp [new]
    case once => exact List.nodup_nil
    case keys => exact List.nodup_nil
    case flags => simp [new, Store.entry?, Published]
  · intro run next balanced step
    cases step with
    | turned turn => exact balanced.turned rfl turn
    | performed whole => exact balanced.performed whole

theorem counters_of_next {next : Ledger K V C E} {move : Move K V C E} (moved : run.next? move = some next) :
    next.cache.counters = run.cache.counters ∨ move = .perform .clear ∨
      ∃ id clock, move = .step id clock ∧ UnderWay run id := by
  cases move with
  | invoke id operation =>
      simp only [next?, Option.ite_none_right_eq_some] at moved
      obtain ⟨-, begun⟩ := moved
      cases operation with
      | lookup | entry =>
          cases begun
          exact .inl rfl
      | held entry request =>
          simp only [begin?, Option.ite_none_right_eq_some, Option.some.injEq] at begun
          obtain ⟨-, rfl⟩ := begun
          exact .inl rfl
  | step id clock =>
      simp only [next?, Option.bind_eq_some_iff, Option.map_eq_some_iff] at moved
      obtain ⟨call, running, ⟨cache, after⟩, advances, rfl⟩ := moved
      cases call with
      | uncounted call =>
          obtain ⟨_, _, same⟩ := Option.map_eq_some_iff.mp advances
          cases same
          exact .inl rfl
      | counted call => exact .inr (.inr ⟨id, clock, rfl, call, running⟩)
      | recorded => cases advances
  | supply id fresh =>
      simp only [next?, Option.bind_eq_some_iff, Option.map_eq_some_iff] at moved
      obtain ⟨_, _, _, _, rfl⟩ := moved
      exact .inl rfl
  | resume id outcome =>
      simp only [next?, Option.bind_eq_some_iff, Option.map_eq_some_iff] at moved
      obtain ⟨_, _, _, _, rfl⟩ := moved
      exact .inl rfl
  | perform whole =>
      cases moved
      cases whole with
      | clear => exact .inr (.inl rfl)
      | peek | invalidate | expire | expireAll | withPolicy => exact .inl rfl

end

/-- What the counters and sizes of the cache stand for. They do so at every moment; while no lookup by key is
under way, the lookups that are over are all that were ever begun. -/
structure Accounted [DecidableEq K] (run : Ledger K V C E) : Prop where
  asked : ∀ id, .asked id ∈ run.log ↔ UnderWay run id ∨ ∃ reply, .finished id reply ∈ run.log
  once : (run.log.filterMap Event.over?).Nodup
  unfinished : ∀ id reply, .finished id reply ∈ run.log → ¬ UnderWay run id
  /-- a lookup calls its updater once, and then answers what that came to, or not at all -/
  own : ∀ id reply, .finished id reply ∈ run.log → reply.isLookup = true ∧ updates id run.log = reply.ran.toNat ∧
    ∀ outcome, Returned id outcome run.log ↔ Entry.replyOutcome? reply = some outcome
  lookups : run.cache.stats.lookups = (settled run.log).length
  failed : run.cache.counters.failed = (settled run.log).countP fun (_, reply) => reply.hasFailed
  computed : run.cache.counters.computed = (settled run.log).countP fun (_, reply) => reply.how? == some .computed
  fresh : run.cache.counters.fresh = (settled run.log).countP fun (_, reply) => reply.how? == some .fresh
  stale : run.cache.counters.stale = (settled run.log).countP fun (_, reply) => reply.how? == some .stale
  coalesced : run.cache.counters.coalesced =
    (settled run.log).countP fun (_, reply) => reply.how? == some .coalesced
  runs : run.cache.counters.computed + run.cache.counters.failed =
    ((settled run.log).map fun (id, _) => updates id run.log).sum
  hits : run.cache.stats.hits = (settled run.log).countP fun (id, _) => updates id run.log == 0
  /-- only a clear, or a step of a lookup by key, moves a counter -/
  unmoved : ∀ move next, run.next? move = some next → next.cache.counters = run.cache.counters ∨
    move = .perform .clear ∨ ∃ id clock, move = .step id clock ∧ UnderWay run id
  sizes : ∃ present published : Finset K, (∀ key, key ∈ present ↔ (run.cache.store.find? key).isSome) ∧
    (∀ key, key ∈ published ↔ ∃ entry, run.cache.store.find? key = some entry ∧ Published entry run.log) ∧
    run.cache.stats.entries = present.card ∧ run.cache.stats.initializedEntries = published.card

section

variable [DecidableEq K] {run : Ledger K V C E}

theorem Balanced.asked_iff (balanced : Balanced run) (id : CallId) :
    .asked id ∈ run.log ↔ UnderWay run id ∨ ∃ reply, .finished id reply ∈ run.log := by
  rw [balanced.asked]
  constructor
  · rintro ⟨call, running, byKey⟩
    cases call with
    | uncounted => cases byKey
    | counted call => exact .inl ⟨call, running⟩
    | recorded entry reply => exact .inr ⟨reply, (balanced.finished id reply).mpr ⟨entry, running⟩⟩
  · rintro (⟨call, running⟩ | ⟨reply, ended⟩)
    · exact ⟨_, running, rfl⟩
    · obtain ⟨entry, recorded⟩ := (balanced.finished id reply).mp ended
      exact ⟨_, recorded, rfl⟩

theorem Balanced.own (balanced : Balanced run) {id : CallId} {reply : Reply V E}
    (ended : .finished id reply ∈ run.log) : reply.isLookup = true ∧ updates id run.log = reply.ran.toNat ∧
      ∀ outcome, Returned id outcome run.log ↔ Entry.replyOutcome? reply = some outcome := by
  obtain ⟨entry, recorded⟩ := (balanced.finished id reply).mp ended
  have standing := balanced.standing id
  rw [recorded] at standing
  cases standing with
  | recorded fits account =>
      refine ⟨?_, account.updates, account.returned⟩
      cases reply with
      | answered | failed => rfl
      | stored | expired | found => cases fits

theorem Balanced.sizes (balanced : Balanced run) : ∃ present published : Finset K,
    (∀ key, key ∈ present ↔ (run.cache.store.find? key).isSome) ∧
    (∀ key, key ∈ published ↔ ∃ entry, run.cache.store.find? key = some entry ∧ Published entry run.log) ∧
    run.cache.stats.entries = present.card ∧ run.cache.stats.initializedEntries = published.card := by
  have held (key : K) (entry : EntryId) : (key, entry) ∈ run.cache.store.index ↔
      run.cache.store.find? key = some entry := mem_iff_lookup balanced.keys key entry
  let shown := run.cache.store.index.filter fun pair => (run.cache.store.entry? pair.2).any (·.initialized)
  have fewer : (shown.map Prod.fst).Nodup := balanced.keys.sublist (List.filter_sublist.map _)
  refine ⟨(run.cache.store.index.map Prod.fst).toFinset, (shown.map Prod.fst).toFinset, ?_, ?_, ?_, ?_⟩
  · intro key
    simp [held, Option.isSome_iff_exists]
  · intro key
    simp [shown, held, balanced.flags]
  · rw [List.toFinset_card_of_nodup balanced.keys, List.length_map]
    rfl
  · rw [List.toFinset_card_of_nodup fewer, List.length_map]
    exact List.countP_eq_length_filter

theorem counters_account_for_lookups {config : CacheConfig} {policy : RefreshPolicy V C} {source : TimeSource}
    (reaches : (new config policy source).Reaches run) : Accounted run := by
  have balanced := balanced_of_new reaches
  have own {id : CallId} {reply : Reply V E} (counts : (id, reply) ∈ settled run.log) :=
    balanced.own (finished_of_settled counts)
  have ran : ∀ call ∈ settled run.log, updates call.1 run.log = call.2.ran.toNat :=
    fun call counts => (own counts).2.1
  obtain ⟨runs, hits, all⟩ := tally_sums fun call counts => (own counts).1
  have counters := balanced.counted
  have parts := counters.trans (tally_eq _)
  rw [← counters] at runs hits all
  constructor
  case asked => exact balanced.asked_iff
  case once => exact balanced.once
  case unfinished => exact fun id reply ended ⟨call, running⟩ => balanced.not_finished running reply ended
  case own => exact fun id reply ended => balanced.own ended
  case lookups => exact all
  case failed => rw [parts]
  case computed => rw [parts]
  case fresh => rw [parts]
  case stale => rw [parts]
  case coalesced => rw [parts]
  case runs =>
    rw [runs]
    exact congrArg List.sum (List.map_congr_left fun call counts => (ran call counts).symm)
  case hits =>
    refine hits.trans (List.countP_congr ?_)
    intro call counts
    simp only [ran call counts]
    cases call.2.ran <;> simp
  case unmoved => exact fun move next moved => counters_of_next moved
  case sizes => exact balanced.sizes

end

def emptyEntry : Store.Unshared Nat Unit := ⟨{}, Entry.Run.sound_new .timed .wall, rfl⟩

def lookUpMissing (id : CallId) (key : Nat) : List (Move Nat Nat Unit Unit) :=
  [.invoke id (.lookup key ()), .step id {}, .supply id emptyEntry] ++ List.replicate 6 (.step id {})

/-- Key 7 is looked up twice; the cache is cleared in the updater of a lookup of key 8; the entry of key 7 is looked
up through a handle; the entry of key 9 is asked for, looked up in vain, filled directly, and looked up. -/
def mixedCalls : List (Move Nat Nat Unit Unit) :=
  List.flatten [lookUpMissing 1 7, .resume 1 (.ok 5) :: List.replicate 6 (.step 1 {}),
    .invoke 2 (.lookup 7 ()) :: List.replicate 5 (.step 2 {}),
    lookUpMissing 3 8, [.perform .clear], .resume 3 (.ok 6) :: List.replicate 6 (.step 3 {}),
    .invoke 4 (.held 0 (.lookup ⟨(), -1, false⟩)) :: List.replicate 3 (.step 4 {}),
    [.invoke 5 (.entry 9), .step 5 {}, .supply 5 emptyEntry, .step 5 {}],
    .invoke 6 (.lookup 9 ()) :: List.replicate 6 (.step 6 {}),
    .resume 6 (.error ()) :: List.replicate 2 (.step 6 {}),
    .invoke 7 (.held 2 (.store 4)) :: List.replicate 6 (.step 7 {}),
    .invoke 8 (.lookup 9 ()) :: List.replicate 5 (.step 8 {})]

theorem mixed_calls_are_accounted : ∃ run : Ledger Nat Nat Unit Unit,
    (new { timeout := -1 } .timed .wall).follow? mixedCalls = some run ∧
      run.cache.stats = ⟨1, 1, { fresh := 1, computed := 1, failed := 1 }⟩ ∧ Accounted run := by
  have computed : ((new { timeout := -1 } .timed .wall).follow? mixedCalls).map
      (fun run : Ledger Nat Nat Unit Unit => run.cache.stats) =
        some ⟨1, 1, { fresh := 1, computed := 1, failed := 1 }⟩ := by
    rfl
  obtain ⟨run, followed, stats⟩ := Option.map_eq_some_iff.mp computed
  exact ⟨run, followed, stats, counters_account_for_lookups (.of_follow followed)⟩

end Ledger

end Cache

end ViewCache
