/-!
The composite key of a lookup. A part that is absent differs from one that is empty.
-/
namespace ViewCache

structure Key where
  path : Option String := none
  qualifier : Option String := none
  context : Option String := none
  deriving DecidableEq, Repr, Inhabited

namespace Key

def ofPath (path : String) : Key := { path := some path }

def withQualifier (key : Key) (name : String) : Key := { key with qualifier := some name }

def withContext (key : Key) (context : String) : Key := { key with context := some context }

def display (key : Key) : String :=
  let part (p : Option String) := p.getD "-"
  s!"{part key.path}[namespace={part key.qualifier}, context={part key.context}]"

/-- An absent part comes before every present one; texts are ordered by code point. -/
def comparePart : Option String → Option String → Ordering
  | none, none => .eq
  | none, some _ => .lt
  | some _, none => .gt
  | some a, some b => compareOfLessAndEq a b

def compare (a b : Key) : Ordering :=
  (comparePart a.path b.path).then <|
    (comparePart a.qualifier b.qualifier).then (comparePart a.context b.context)

theorem comparePart_eq {a b : Option String} : comparePart a b = .eq ↔ a = b := by
  cases a with
  | none => cases b <;> simp [comparePart]
  | some a =>
    cases b with
    | none => simp [comparePart]
    | some b =>
      simp only [comparePart, compareOfLessAndEq, Option.some.injEq]
      by_cases before : a < b
      · have different : a ≠ b := fun same => String.lt_irrefl b (same ▸ before)
        simp [before, different]
      · by_cases same : a = b
        · simp [same]
        · simp [before, same]

theorem compare_eq {a b : Key} : compare a b = .eq ↔ a = b := by
  cases a; cases b
  simp [compare, Ordering.then_eq_eq, comparePart_eq]

end Key

end ViewCache
