import ViewCache.Key
import ViewCache.Uri

namespace ViewCache

open Text

namespace ViewName

/-- Marks the last segment as a template: `book/row` becomes `book/_row`. -/
def template (name : String) : String :=
  let (dir, file) := splitLast '/' name.toList
  if file.head? = some Convention.templateMark then name
  else String.ofList (dir ++ Convention.templateMark :: file)

/-- Trims the name and appends the page extension when it is missing, so that both spellings share
an entry. A blank name stays empty. -/
def page (name : String) : String :=
  let name := trim name.toList
  String.ofList (if name = [] then [] else Uri.withExtension name)

end ViewName

namespace Key

def ofPage (uri : String) (qualifier : Option String) : Key :=
  { path := some (ViewName.page uri), qualifier }

def ofView (controller : Option String) (view : String) (qualifier : Option String) : Key :=
  { path := some (ViewName.page view), qualifier,
    context := if view.toList.head? = some '/' then none else controller }

def ofTemplate (controller : Option String) (name : String) (qualifier : Option String) : Key :=
  ofView controller (ViewName.template name) qualifier

end Key

end ViewCache
