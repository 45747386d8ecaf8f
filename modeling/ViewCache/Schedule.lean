/-!
Threads over shared memory under a deterministic scheduler: of the threads that can move, the oldest
moves, one step at a time.
-/
namespace ViewCache.Schedule

abbrev ThreadId := Nat

inductive Move (σ τ α : Type)
  | finish (memory : σ) (answer : α)
  /-- it cannot move until another thread has changed the memory -/
  | wait
  | go (memory : σ) (next : τ)
  | fork (child : τ) (next : ThreadId → τ)
  /-- goes on once the child has ended, or, if that is enough, once the child waits -/
  | watch (child : ThreadId) (untilParked : Bool) (next : τ)
  | join (children : List (List ThreadId)) (next : List (List α) → τ)

abbrev Program (σ τ α : Type) := ThreadId → τ → σ → Move σ τ α

inductive Thread (τ α : Type)
  | live (state : τ)
  | ended (answer : α)

structure Run (σ τ α : Type) where
  memory : σ
  threads : Array (Thread τ α)
  watched : List ThreadId := []

namespace Run

variable {σ τ α : Type}

def start (memory : σ) (state : τ) : Run σ τ α := { memory, threads := #[.live state] }

def answer? (run : Run σ τ α) (id : ThreadId) : Option α :=
  match run.threads[id]? with
  | some (.ended answer) => some answer
  | _ => none

/-- The thread waits, or it waits for the end of a thread that does. A child is younger than the thread
that waits for it, so that `depth` need not exceed the number of threads. -/
def isParked (program : Program σ τ α) (run : Run σ τ α) : Nat → ThreadId → Bool
  | 0, _ => false
  | depth + 1, id =>
    match run.threads[id]? with
    | some (.live state) =>
      match program id state run.memory with
      | .wait => true
      | .watch child untilParked _ => !untilParked && isParked program run depth child
      | .join children _ => children.any fun group => group.any (isParked program run depth)
      | _ => false
    | _ => false

def put (run : Run σ τ α) (id : ThreadId) (thread : Thread τ α) : Run σ τ α :=
  { run with threads := run.threads.modify id fun _ => thread }

def moveThread? (program : Program σ τ α) (run : Run σ τ α) (id : ThreadId) : Option (Run σ τ α) :=
  match run.threads[id]? with
  | some (.live state) =>
    match program id state run.memory with
    | .wait => none
    | .finish memory answer => some ({ run with memory }.put id (.ended answer))
    | .go memory next => some ({ run with memory }.put id (.live next))
    | .fork child next =>
      let run := run.put id (.live (next run.threads.size))
      some { run with threads := run.threads.push (.live child) }
    | .watch child untilParked next =>
      if (run.answer? child).isSome ||
          (untilParked && run.isParked program run.threads.size child) then
        some ({ run with watched := run.watched ++ [child] }.put id (.live next))
      else none
    | .join children next =>
      (children.mapM fun (group : List ThreadId) => group.mapM run.answer?).map fun answers =>
        run.put id (.live (next answers))
  | _ => none

def step? (program : Program σ τ α) (run : Run σ τ α) : Option (Run σ τ α) :=
  (List.range run.threads.size).findSome? (run.moveThread? program)

def settle (program : Program σ τ α) : Nat → Run σ τ α → Run σ τ α
  | 0, run => run
  | fuel + 1, run =>
    match run.step? program with
    | some run => settle program fuel run
    | none => run

end Run

end ViewCache.Schedule
