import Mathlib.Logic.Function.Basic
import ViewCache.Entry.Call
import ViewCache.Proofs.Reach

/-!
Any number of calls on one entry, their steps in any order. A run keeps a log of what happened; all
that is said about the order of events is said about the log.
-/
namespace ViewCache.Entry

inductive Event (V C E : Type)
  | began (id : CallId) (request : Request V C)
  /-- `seen` is the entry as the step found it -/
  | stepped (id : CallId) (now : Int) (seen : Entry V C) (before after : Phase V E)
  | returned (id : CallId) (outcome : Except E V)

def Event.id {V C E : Type} : Event V C E → CallId
  | began id _ | stepped id .. | returned id _ => id

inductive Move (V C E : Type)
  | invoke (id : CallId) (request : Request V C)
  | step (id : CallId) (now : Int)
  | resume (id : CallId) (outcome : Except E V)

structure Run (V C E : Type) where
  entry : Entry V C
  calls : CallId → Option (Call V C E) := fun _ => none
  log : List (Event V C E) := []

variable {V C E : Type}

namespace Run

def start (entry : Entry V C) : Run V C E := { entry }

def new (policy : RefreshPolicy V C) (source : TimeSource) : Run V C E := start { policy, source }

def put (run : Run V C E) (id : CallId) (call : Call V C E) (entry : Entry V C) (event : Event V C E) :
    Run V C E :=
  ⟨entry, Function.update run.calls id (some call), event :: run.log⟩

def next? (run : Run V C E) : Move V C E → Option (Run V C E)
  | .invoke id request =>
    match run.calls id with
    | none => some (run.put id (Call.start request) run.entry (.began id request))
    | some _ => none
  | .step id now =>
    match run.calls id with
    | none => none
    | some call => (call.step id now run.entry).map fun (entry, next) =>
        run.put id next entry (.stepped id now run.entry call.phase next.phase)
  | .resume id outcome =>
    match run.calls id with
    | none => none
    | some call => (call.resume outcome).map fun next =>
        run.put id next run.entry (.returned id outcome)

def follow? (run : Run V C E) (moves : List (Move V C E)) : Option (Run V C E) := moves.foldlM next? run

def Reaches (first last : Run V C E) : Prop := Leads next? first last

theorem Reaches.refl (run : Run V C E) : run.Reaches run := Relation.ReflTransGen.refl

theorem Reaches.trans {first middle last : Run V C E} (front : first.Reaches middle)
    (back : middle.Reaches last) : first.Reaches last :=
  Relation.ReflTransGen.trans front back

theorem Reaches.of_next {run next : Run V C E} (move : Move V C E) (moved : run.next? move = some next) :
    run.Reaches next := Relation.ReflTransGen.single ⟨move, moved⟩

theorem Reaches.of_follow {first last : Run V C E} {moves : List (Move V C E)}
    (followed : first.follow? moves = some last) : first.Reaches last := leads_of_foldlM followed

end Run

end ViewCache.Entry
