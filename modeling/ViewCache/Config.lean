import ViewCache.Failure
import ViewCache.Text.Blank
import ViewCache.Text.Integer

namespace ViewCache

structure CacheConfig where
  /-- milliseconds; negative caches forever, zero recomputes on every call -/
  timeout : Int := Timeout.standard
  tolerant : Bool := true
  deriving DecidableEq, Repr

namespace CacheConfig

def forever : CacheConfig := { timeout := Timeout.forever }

def never : CacheConfig := { timeout := Timeout.never }

def withTimeout (timeout : Int) : CacheConfig := { timeout }

end CacheConfig

structure LocatorConfig where
  reload : Bool := true
  timeout : Int := Timeout.standard
  tolerant : Bool := true
  deriving DecidableEq, Repr

namespace LocatorConfig

def production : LocatorConfig := { reload := false }

def effectiveTimeout (config : LocatorConfig) : Int :=
  if config.reload then config.timeout else Timeout.forever

def cacheConfig (config : LocatorConfig) : CacheConfig := ⟨config.effectiveTimeout, config.tolerant⟩

def trueWords : List String := ["1", "true", "yes", "on"]

def falseWords : List String := ["0", "false", "no", "off"]

def flag? (raw : String) : Option Bool :=
  let word := String.ofList ((Text.trim raw.toList).map Char.toLower)
  if word ∈ trueWords then some true else if word ∈ falseWords then some false else none

def timeout? (raw : String) : Option Int := Text.signed? (Text.trim raw.toList)

/-- The two variables are read in this order; the first bad one is reported. -/
def withEnvironment (config : LocatorConfig) (envText? : String → Option String) :
    Except ConfigFault LocatorConfig := do
  let config ← match envText? Convention.reloadVariable with
    | none => pure config
    | some raw => match flag? raw with
      | some reload => pure { config with reload }
      | none => throw (.notFlag raw)
  match envText? Convention.timeoutVariable with
    | none => pure config
    | some raw => match timeout? raw with
      | some timeout => pure { config with timeout }
      | none => throw (.notTimeout raw)

end LocatorConfig

end ViewCache
