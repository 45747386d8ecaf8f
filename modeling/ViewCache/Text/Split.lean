namespace ViewCache.Text

variable {α : Type}

def joinWith (sep : α) (parts : List (List α)) : List α := [sep].intercalate parts

variable [DecidableEq α]

/-- The parts of `s` between the occurrences of `sep`; one more than there are occurrences. -/
def splitOn (sep : α) : List α → List (List α)
  | [] => [[]]
  | c :: rest =>
    if c = sep then [] :: splitOn sep rest
    else
      match splitOn sep rest with
      | [] => [[c]]
      | part :: parts => (c :: part) :: parts

def cutOnce (sep : Char) : List Char → Option (List Char × List Char)
  | [] => none
  | c :: rest =>
    if c = sep then some ([], rest)
    else (cutOnce sep rest).map fun (before, after) => (c :: before, after)

def splitLast (sep : Char) (s : List Char) : List Char × List Char :=
  let tail := (s.reverse.takeWhile (· ≠ sep)).reverse
  (s.take (s.length - tail.length), tail)

theorem splitOn_ne_nil (sep : α) (s : List α) : splitOn sep s ≠ [] := by
  induction s with
  | nil => simp [splitOn]
  | cons c rest ih =>
    simp only [splitOn]
    split
    · simp
    · split <;> simp

end ViewCache.Text
