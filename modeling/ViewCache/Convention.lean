namespace ViewCache

namespace Timeout

/-- A published value is kept until it is expired by force. -/
def forever : Int := -1

/-- Every lookup recomputes. -/
def never : Int := 0

def standard : Int := 5000

end Timeout

/-- The timestamp of an entry that was never published, or was expired by force. -/
def neverPublished : Int := 0

namespace Convention

def pageExtension : String := ".gsp"

def templateMark : Char := '_'

def viewsDir : String := "views"

def pluginsDir : String := "plugins"

def reloadVariable : String := "GRACE_RELOAD_ENABLED"

def timeoutVariable : String := "GRACE_CACHE_TIMEOUT_MS"

def configVariable : String := "GRACE_VIEWS_CONFIG"

def namespaceSeparator : Char := ':'

end Convention

end ViewCache
