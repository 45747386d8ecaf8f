import ViewCache.Cache.Call
import ViewCache.Schedule.Script

namespace ViewCache.Session

abbrev Value := Option Int

abbrev Context := Int

inductive PinRule
  | always
  | never
  | negative
  | missing
  | positiveContext
  | atMostContext
  deriving DecidableEq, Repr

def PinRule.pins : PinRule → Value → Context → Bool
  | always, _, _ => true
  | never, _, _ => false
  | negative, v, _ => v.any (· < 0)
  | missing, v, _ => v.isNone
  | positiveContext, _, c => 0 < c
  | atMostContext, v, c => v.any (· ≤ c)

def policyOf : Option PinRule → RefreshPolicy Value Context
  | none => .timed
  | some rule => .pinWhen rule.pins

inductive Question
  | hasExpired (timeout : Int)
  | initialized
  | isPinned (v : Value) (context : Context)
  | display
  | policy

inductive CacheAction
  | peek (key : String)
  | invalidate (key : String)
  | expire (key : String)
  | expireAll
  | clear
  | size
  | isEmpty
  | config
  | withPolicy (rule : Option PinRule)

inductive MapAction
  | peek (key : String)
  | expire (key : String)
  | remove (key : String)

inductive Target
  | held (handle : String) (request : Request Value Context)
  | cacheLookup (key : String) (context : Context)
  | cacheEntry (key : String)
  | mapLookup (key : String) (q : Query Context)
  | mapEntry (key : String)

/-- How a missing entry is made: as the cache or map makes them, or with a policy of its own. -/
inductive Maker
  | standard
  | own (rule : Option PinRule)

inductive Report
  | reply (how built factory : Bool)
  | state
  | hold (handle : String)
  | same (handle : String)
  | entryFound

structure CallSpec where
  target : Target
  report : Report
  maker : Maker := .standard
  outcome : Except String Value := .ok none

inductive Step
  | clock (move : Clock.Move)
  | ask (handle : String) (question : Question)
  | tend (action : CacheAction)
  | tendMap (action : MapAction)
  | call (spec : CallSpec) (making : List Step) (during : List (Schedule.Started Step))
  /-- a step on an entry that is held, told with the entry's state after it -/
  | shown (handle : String) (step : Step)

mutual

def Step.weight : Step → Nat
  | .clock _ | .ask .. | .tend _ | .tendMap _ => 4
  | .call _ making during => 64 + weights making + startedWeights during
  | .shown _ step => 4 + step.weight

def weights : List Step → Nat
  | [] => 0
  | step :: rest => step.weight + 4 + weights rest

def startedWeights : List (Schedule.Started Step) → Nat
  | [] => 0
  | ⟨step, _⟩ :: rest => step.weight + 4 + startedWeights rest

end

structure EntryView where
  stamp : Int
  initialized : Bool
  value : Option Value

def EntryView.of (entry : Entry Value Context) : EntryView :=
  ⟨entry.stamp, entry.initialized, entry.value?⟩

inductive Answer
  | ok
  | reading (millis : Int)
  | flag (b : Bool)
  | count (n : Nat)
  | published (v : Option Value)
  | text (s : String)
  | settings (config : CacheConfig)
  | state (view : EntryView)
  | looked (outcome : Except (UpdateFailure String) Value) (ran : Bool) (how : Option Served)
      (built : Option Bool) (factory during : List Answer)
  | entryFound (built : Bool) (view : EntryView)
  | shown (answer : Answer) (view : EntryView)
  | unknownHandle

end ViewCache.Session
