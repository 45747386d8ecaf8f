import ViewCache.Proofs.Text.Trim
import ViewCache.Proofs.Uri.Canonical

namespace ViewCache.Uri

open Text

/-- Any slashes of the path are replaced, each by a run of slashes or by slashes with a dot between. -/
inductive Respelled : List Char → List Char → Prop
  | nil : Respelled [] []
  | keep {s t} (c : Char) (rest : Respelled s t) : Respelled (c :: s) (c :: t)
  | slashes {s t} (more : Nat) (rest : Respelled s t) :
      Respelled ('/' :: s) (List.replicate more '/' ++ '/' :: t)
  | dot {s t} (rest : Respelled s t) : Respelled ('/' :: s) ('/' :: '.' :: '/' :: t)

variable {s t : List Char}

theorem segments_nil : segments [] = [] := rfl

theorem segments_replicate (path : List Char) (count : Nat) :
    segments (path ++ List.replicate count '/') = segments path := by
  induction count with
  | zero => simp
  | succ count ih =>
      calc segments (path ++ List.replicate (count + 1) '/')
        _ = segments ((path ++ List.replicate count '/') ++ '/' :: []) := by
          rw [List.replicate_succ', List.append_assoc]
        _ = segments path := by rw [segments_append, ih, segments_nil, List.append_nil]

theorem segments_of_respelled (respelled : Respelled s t) (front : List Char) :
    segments (front ++ t) = segments (front ++ s) := by
  induction respelled generalizing front with
  | nil => rfl
  | keep c _ ih => simpa using ih (front ++ [c])
  | @slashes s t more _ ih =>
      have behind : segments t = segments s := ih []
      rw [← List.append_assoc, segments_append, segments_append, segments_replicate, behind]
  | @dot s t _ ih =>
      have behind : segments t = segments s := ih []
      have skipped : segments ('.' :: '/' :: t) = segments t := segments_append ['.'] t
      rw [segments_append, segments_append, skipped, behind]

theorem Respelled.append {more rest : List Char} (first : Respelled s t) (second : Respelled more rest) :
    Respelled (s ++ more) (t ++ rest) := by
  induction first with
  | nil => exact second
  | keep c _ ih => exact .keep c ih
  | slashes count _ ih =>
      rw [List.append_assoc]
      exact .slashes count ih
  | dot _ ih => exact .dot ih

theorem Respelled.reverse (respelled : Respelled s t) : Respelled s.reverse t.reverse := by
  induction respelled with
  | nil => exact .nil
  | keep c _ ih =>
      rw [List.reverse_cons, List.reverse_cons]
      exact ih.append (.keep c .nil)
  | slashes count _ ih =>
      have run : Respelled ['/'] ('/' :: List.replicate count '/') := by
        rw [← List.replicate_succ, List.replicate_succ']
        exact .slashes count .nil
      rw [List.reverse_append, List.reverse_cons, List.reverse_cons, List.append_assoc, List.reverse_replicate]
      exact ih.append run
  | dot _ ih =>
      have dotted : Respelled ['/'] ['/', '.', '/'] := .dot .nil
      simpa using ih.append dotted

theorem trimStart_slash (s : List Char) : trimStart ('/' :: s) = '/' :: s :=
  List.dropWhile_cons_of_neg (by decide)

/-- A slash is not blank, so that trimming takes the same away from both. -/
theorem trimStart_of_respelled (respelled : Respelled s t) : Respelled (trimStart s) (trimStart t) := by
  induction respelled with
  | nil => exact .nil
  | keep c rest ih =>
      cases blank : isBlank c with
      | true => simpa [trimStart, blank] using ih
      | false => simpa [trimStart, blank] using Respelled.keep c rest
  | @slashes s t count rest _ =>
      have begins : trimStart (List.replicate count '/' ++ '/' :: t) = List.replicate count '/' ++ '/' :: t := by
        cases count <;> exact trimStart_slash _
      rw [trimStart_slash, begins]
      exact .slashes count rest
  | dot rest _ =>
      rw [trimStart_slash, trimStart_slash]
      exact .dot rest

theorem trim_of_respelled (respelled : Respelled s t) : Respelled (trim s) (trim t) := by
  have front := trimStart_of_respelled respelled
  exact (trimStart_of_respelled front.reverse).reverse

theorem head?_of_respelled (respelled : Respelled s t) : t.head? = s.head? := by
  cases respelled with
  | slashes count => cases count <;> rfl
  | nil | keep | dot => rfl

theorem canonical_of_respelled (respelled : Respelled s t) (context : Option (List Char)) :
    (canonical t context).toOption = (canonical s context).toOption := by
  have trimmed := trim_of_respelled respelled
  have head := head?_of_respelled trimmed
  have empty : trim t = [] ↔ trim s = [] := by
    rw [← List.head?_eq_none_iff, head, List.head?_eq_none_iff]
  -- the context stays in front, since both begin with a slash or neither does
  have parts : segments (below context (trim t)) = segments (below context (trim s)) := by
    rw [below_eq, below_eq, front_congr head]
    exact segments_of_respelled trimmed _
  simp only [toOption_canonical, empty, parts]

theorem canonical_congr {path other : List Char} {context given : Option (List Char)}
    (paths : trim path = trim other) (contexts : context.map trim = given.map trim) :
    canonical path context = canonical other given := by
  have places : below context = below given := by
    funext path
    rw [below_eq, below_eq, front, front, contexts]
  rw [canonical, canonical, paths, places]

theorem segments_flatMap {names : List (List Char)} (named : ∀ name ∈ names, IsName name) :
    segments (names.flatMap ('/' :: ·)) = names := by
  induction names using List.reverseRecOn with
  | nil => rfl
  | append_singleton dirs last ih =>
      have dirsNamed : ∀ name ∈ dirs, IsName name := fun name member => named name (List.mem_append_left _ member)
      have lastNamed : IsName last := named last (by simp)
      rw [List.flatMap_append, List.flatMap_singleton, segments_append, ih dirsNamed, segments_of_name lastNamed]

theorem splitOn_names {names : List (List Char)} (some : names ≠ []) (named : ∀ name ∈ names, IsName name) :
    splitOn '/' (joinWith '/' names) = names := by
  rw [splitOn_eq]
  exact List.splitOn_intercalate '/' (fun name member => (named name member).plain) some

theorem extension_suffix_of_canonical {path uri : List Char} {context : Option (List Char)}
    (accepted : canonical path context = .ok uri) : extension <:+ uri := by
  simp only [canonical] at accepted
  split at accepted
  · cases accepted
  split at accepted
  · cases accepted
  · cases accepted
    exact extension_suffix _

theorem isTrimmed_of_extension {rest : List Char} (ends : extension <:+ '/' :: rest) : IsTrimmed ('/' :: rest) := by
  obtain ⟨front, whole⟩ := ends
  constructor
  · rintro c ⟨⟩
    decide
  · intro c last
    rw [← whole, List.getLast?_append_of_ne_nil front (by decide)] at last
    cases last
    decide

theorem canonical_of_names {names : List (List Char)} (some : names ≠ []) (named : ∀ name ∈ names, IsName name)
    (ends : extension <:+ '/' :: joinWith '/' names) (context : Option (List Char)) :
    canonical ('/' :: joinWith '/' names) context = .ok ('/' :: joinWith '/' names) := by
  have trimmed := trim_of_isTrimmed (isTrimmed_of_extension ends)
  have parts : segments (below context ('/' :: joinWith '/' names)) = names := by
    rw [below_eq, front_of_absolute rfl, List.nil_append, cons_joinWith some, segments_flatMap named]
  have descends : ['.', '.'] ∉ names := fun climbs => (named _ climbs).noClimb rfl
  have whole : ofSegments names = '/' :: joinWith '/' names := withExtension_of_suffix ends
  simp [canonical, trimmed, parts, some, descends, whole]

theorem normalize_eq_ok {path uri : String} {context : Option String} :
    normalize path context = .ok uri ↔ canonical path.toList (context.map String.toList) = .ok uri.toList := by
  rw [normalize]
  cases canonical path.toList (context.map String.toList) with
  | error fault => simp [Except.map]
  | ok made =>
      constructor
      · rintro ⟨⟩
        rw [String.toList_ofList]
      · rintro ⟨⟩
        exact congrArg Except.ok String.ofList_toList

theorem normalize_error {path : String} {context : Option String} :
    (∃ fault, normalize path context = .error fault) ↔
      (canonical path.toList (context.map String.toList)).toOption = none := by
  rw [normalize]
  cases canonical path.toList (context.map String.toList) <;> simp [Except.map, Except.toOption]

theorem segments_eq_nil_iff (path : List Char) :
    segments path = [] ↔ ∀ part ∈ splitOn '/' path, part = [] ∨ part = ['.'] := by
  rw [segments, List.filter_eq_nil_iff]
  refine forall₂_congr fun part _ => ?_
  by_cases empty : part = [] <;> simp [empty]

theorem climbs_iff (path : List Char) : ['.', '.'] ∈ segments path ↔ ['.', '.'] ∈ splitOn '/' path := by
  rw [segments, List.mem_filter]
  exact and_iff_left (by decide)

theorem uriOf?_eq_none (parts : List (List Char)) :
    uriOf? parts = none ↔ parts = [] ∨ ['.', '.'] ∈ parts := by
  rw [uriOf?_eq]
  by_cases refused : parts = [] ∨ ['.', '.'] ∈ parts
  · rw [if_pos refused]
    exact iff_of_true rfl refused
  · rw [if_neg refused]
    exact iff_of_false nofun refused

/-- The text whose parts are looked at. A relative path stands in its context, unless that is blank. -/
inductive Whole (path : String) (context : Option String) : List Char → Prop
  | within {name : String} (given : context = some name) (filled : trim name.toList ≠ [])
      (relative : (trim path.toList).head? ≠ some '/') :
      Whole path context (trim name.toList ++ '/' :: trim path.toList)
  | alone (bare : (trim path.toList).head? = some '/' ∨ ∀ name, context = some name → trim name.toList = []) :
      Whole path context (trim path.toList)

theorem whole_below (path : String) (context : Option String) :
    Whole path context (below (context.map String.toList) (trim path.toList)) := by
  cases context with
  | none => exact .alone (.inr nofun)
  | some name =>
      simp only [below, Option.map_some]
      cases named : trim name.toList with
      | nil =>
          refine .alone (.inr ?_)
          rintro other ⟨⟩
          exact named
      | cons c rest =>
          dsimp only
          split
          case isTrue absolute => exact .alone (.inl absolute)
          case isFalse relative =>
            rw [← named]
            exact .within rfl (by simp [named]) relative

theorem Whole.unique {path : String} {context : Option String} {one other : List Char} (first : Whole path context one)
    (second : Whole path context other) : one = other := by
  cases first with
  | within given filled relative =>
      cases second with
      | within given' _ _ =>
          cases given.symm.trans given'
          rfl
      | alone bare => exact absurd (bare.resolve_left relative _ given) filled
  | alone bare =>
      cases second with
      | within given filled relative => exact absurd (bare.resolve_left relative _ given) filled
      | alone => rfl

structure Canonicalizes (path : String) (context : Option String) : Prop where
  refused_iff : (∃ fault, normalize path context = .error fault) ↔
    trim path.toList = [] ∨ ∃ text, Whole path context text ∧
      (['.', '.'] ∈ splitOn '/' text ∨ ∀ part ∈ splitOn '/' text, part = [] ∨ part = ['.'])
  spelled : ∀ uri, normalize path context = .ok uri → ∃ rest, uri.toList = '/' :: rest ∧
    ".gsp".toList <:+ uri.toList ∧ ∀ part ∈ splitOn '/' rest, part ≠ [] ∧ part ≠ ['.'] ∧ part ≠ ['.', '.']
  settled : ∀ uri other, normalize path context = .ok uri → normalize uri other = .ok uri
  blanks : ∀ padded : String, Padded path.toList padded.toList → normalize padded context = normalize path context
  contextBlanks : ∀ name padded : String, context = some name → Padded name.toList padded.toList →
    normalize path (some padded) = normalize path context
  /-- the two agree but for the text of a refusal -/
  slashes : ∀ respelled : String, Respelled path.toList respelled.toList →
    (normalize respelled context).toOption = (normalize path context).toOption

theorem normalize_canonicalizes (path : String) (context : Option String) : Canonicalizes path context := by
  constructor
  case refused_iff =>
    have placed := whole_below path context
    -- `below` makes the whole text, and there is no other
    rw [normalize_error, toOption_canonical]
    by_cases blank : trim path.toList = []
    · simp [blank]
    · rw [if_neg blank, uriOf?_eq_none, or_iff_right blank, segments_eq_nil_iff, climbs_iff, or_comm]
      constructor
      · exact fun refused => ⟨_, placed, refused⟩
      · rintro ⟨text, whole, refused⟩
        rwa [whole.unique placed] at refused
  case spelled =>
    intro uri accepted
    obtain ⟨names, some, named, whole⟩ := names_of_normalize accepted
    have ends := extension_suffix_of_canonical (normalize_eq_ok.mp accepted)
    refine ⟨joinWith '/' names, whole, ends, ?_⟩
    intro part member
    rw [splitOn_names some named] at member
    exact ⟨(named part member).nonempty, (named part member).noDot, (named part member).noClimb⟩
  case settled =>
    intro uri other accepted
    obtain ⟨names, some, named, whole⟩ := names_of_normalize accepted
    have ends := extension_suffix_of_canonical (normalize_eq_ok.mp accepted)
    rw [normalize_eq_ok]
    rw [whole] at ends ⊢
    exact canonical_of_names some named ends _
  case blanks =>
    intro padded pads
    rw [normalize, normalize, canonical_congr (trim_of_padded pads) rfl]
  case contextBlanks =>
    rintro name padded rfl pads
    have contexts : ((some padded).map String.toList).map trim = ((some name).map String.toList).map trim :=
      congrArg some (trim_of_padded pads)
    rw [normalize, normalize, canonical_congr rfl contexts]
  case slashes =>
    intro respelled respells
    rw [toOption_normalize, toOption_normalize, canonical_of_respelled respells]

example : normalize " ./show//" (some " book ") = .ok "/book/show.gsp" ∧
    normalize "show" (some "../secret") = .error (.rejected "show") := by decide

end ViewCache.Uri
