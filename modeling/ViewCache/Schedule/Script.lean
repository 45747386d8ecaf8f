import ViewCache.Schedule

/-!
Scripted threads. A step is either done at once, or it is a call that goes on step by step and now and
then hands control to code of the caller; while that code runs it starts further steps, each on a thread
of its own.
-/
namespace ViewCache.Schedule

inductive Progress
  | going
  | callingOut
  | finished
  deriving DecidableEq

structure Started (S : Type) where
  step : S
  /-- it waits for a lock, and is waited for only until it does -/
  untilParked : Bool := false

structure Script (σ S γ α : Type) where
  enter : S → σ → (σ × α) ⊕ γ
  progress : γ → Progress
  step : ThreadId → γ → σ → Option (σ × γ)
  callOut : γ → σ → σ × List (Started S) × γ
  /-- a call that is finished waits for all steps that its callbacks started -/
  gathers : Bool
  answer : γ → List (List α) → σ → σ × α

inductive Frame (S γ α : Type)
  | start (s : S)
  | running (call : γ) (groups : List (List ThreadId))
  | calling (call : γ) (todo : List (Started S)) (children : List ThreadId)
      (groups : List (List ThreadId))
  | watching (child : ThreadId) (untilParked : Bool) (call : γ) (todo : List (Started S))
      (children : List ThreadId) (groups : List (List ThreadId))
  | closing (call : γ) (answers : List (List α))

namespace Script

variable {σ S γ α : Type}

def move (script : Script σ S γ α) : Program σ (Frame S γ α) α := fun me frame memory =>
  match frame with
  | .start s =>
    match script.enter s memory with
    | .inl (memory, answer) => .finish memory answer
    | .inr call => .go memory (.running call [])
  | .running call groups =>
    match script.progress call with
    | .going =>
      match script.step me call memory with
      | some (memory, call) => .go memory (.running call groups)
      | none => .wait
    | .callingOut =>
      let (memory, todo, call) := script.callOut call memory
      .go memory (.calling call todo [] groups)
    | .finished => if script.gathers then .join groups (.closing call) else .go memory (.closing call [])
  | .calling call [] children groups => .go memory (.running call (groups ++ [children]))
  | .calling call (started :: todo) children groups =>
    .fork (.start started.step) fun child =>
      .watching child started.untilParked call todo (children ++ [child]) groups
  | .watching child untilParked call todo children groups =>
    .watch child untilParked (.calling call todo children groups)
  | .closing call answers =>
    let (memory, answer) := script.answer call answers memory
    .finish memory answer

/-- Runs a step and everything it starts, for `fuel` moves. Besides the memory this gives the answer of
the step, and those of the steps that callbacks started, in the order in which they were no longer waited
for. There is none if a thread has not ended. -/
def run? (script : Script σ S γ α) (fuel : Nat) (memory : σ) (s : S) : Option (σ × α × List α) := do
  let run := (Run.start memory (.start s)).settle script.move fuel
  let answer ← run.answer? 0
  let others ← run.watched.mapM run.answer?
  return (run.memory, answer, others)

end Script

end ViewCache.Schedule
