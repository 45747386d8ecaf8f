import ViewCache.Cache.Alone
import ViewCache.Page
import ViewCache.ViewName

/-!
Views looked up through a cache in front of a resolver. A view that was not found is cached like one
that was; a precompiled page is kept for good.
-/
namespace ViewCache

abbrev PageCache := Cache Key (Option Page) Unit

abbrev Resolution := Except Failure (Option Page)

def pagePolicy : RefreshPolicy (Option Page) Unit := .pinWhen fun page _ => page.any Page.isPrecompiled

structure Locator where
  cache : PageCache
  config : LocatorConfig

namespace Locator

def new (config : LocatorConfig) (source : TimeSource) : Locator :=
  ⟨{ config := config.cacheConfig, policy := pagePolicy, source }, config⟩

def resolutionOf : Reply (Option Page) Failure → Resolution
  | .answered page _ => .ok page
  | .failed failure => .error failure.cause
  | .stored | .expired | .found _ => .ok none

/-- Looks a key up; `answer` is what the resolver says if it is asked, which takes the clocks from
`clock` to `later`. Also tells whether it was asked. -/
def lookup (locator : Locator) (key : Key) (answer : Resolution) (clock later : Clock) :
    Locator × Resolution × Bool :=
  let (cache, reply) := locator.cache.lookup key () answer clock later
  ({ locator with cache }, resolutionOf reply, reply.ran)

def invalidate (locator : Locator) (key : Key) : Locator × Bool :=
  let (cache, removed) := locator.cache.invalidate key
  ({ locator with cache }, removed)

def clear (locator : Locator) : Locator := { locator with cache := locator.cache.clear }

def stats (locator : Locator) : CacheStats := locator.cache.stats

end Locator

end ViewCache
