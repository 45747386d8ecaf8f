import ViewCache.Config
import ViewCache.Proofs.Text.Integer
import ViewCache.Proofs.Text.Trim

/-!
What the text of an environment variable stands for: a flag is one of eight words, whatever the case of its
letters, and a timeout is an integer. Blanks around either do not count.
-/
namespace ViewCache

open Text

namespace Text

end Text

namespace LocatorConfig

end LocatorConfig

end ViewCache
