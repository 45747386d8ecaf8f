import ViewCache.Proofs.Text.Trim
import ViewCache.Proofs.Uri.Canonical
import ViewCache.ViewName

/-!
What the keys of view lookups denote. A key's path has the extension before the resolver takes the path
apart; a request that leads to a directory is thereby turned into a file that has no name of its own.
-/
namespace ViewCache

open Text

def Key.uri? (key : Key) : Option String :=
  key.path.bind fun path => (Uri.normalize path key.context).toOption

namespace ViewName

def cut (controller : Option String) (view : String) : List Char × List Char :=
  splitLast '/' (Uri.below (controller.map String.toList) (trim view.toList))

/-- A request whose last part leads nowhere: it is empty or made of dots, and nothing climbs before it. -/
structure Dangling (controller : Option String) (view : String) : Prop where
  named : trim view.toList ≠ []
  last : (cut controller view).2 ∈ [[], ['.'], ['.', '.']]
  descends : ['.', '.'] ∉ Uri.segments (cut controller view).1

variable {controller : Option String} {view : String}

theorem cut_append : (cut controller view).1 ++ (cut controller view).2 =
    Uri.below (controller.map String.toList) (trim view.toList) := splitLast_append '/' _

theorem openEnded_cut : OpenEnded '/' (cut controller view).1 := openEnded_splitLast

theorem slash_not_mem_cut : '/' ∉ (cut controller view).2 := not_mem_splitLast

theorem dangling_iff (named : trim view.toList ≠ []) :
    Dangling controller view ↔
      ¬ (Uri.IsName (cut controller view).2 ∨ ['.', '.'] ∈ Uri.segments (cut controller view).1) := by
  rw [Uri.isName_iff slash_not_mem_cut, not_or, not_not]
  exact ⟨fun dangling => ⟨dangling.last, dangling.descends⟩, fun ⟨last, descends⟩ => ⟨named, last, descends⟩⟩

theorem head?_withExtension {s : List Char} (nonempty : s ≠ []) : (Uri.withExtension s).head? = s.head? := by
  rw [Uri.withExtension]
  split
  · rfl
  · exact List.head?_append_of_ne_nil s nonempty

theorem trim_withExtension {s : List Char} (trimmed : IsTrimmed s) (nonempty : s ≠ []) :
    trim (Uri.withExtension s) = Uri.withExtension s := by
  apply trim_of_isTrimmed
  constructor
  · intro c first
    rw [head?_withExtension nonempty] at first
    exact trimmed.1 c first
  · intro c last
    obtain ⟨before, whole⟩ := Uri.extension_suffix s
    rw [← whole, List.getLast?_append_of_ne_nil before (by decide)] at last
    cases last
    decide

/-- A request that starts with a slash has no context for the same reason that its key has none. -/
theorem front_of_key (named : trim view.toList ≠ []) :
    Uri.front ((if view.toList.head? = some '/' then none else controller).map String.toList)
        (Uri.withExtension (trim view.toList)) =
      Uri.front (controller.map String.toList) (trim view.toList) := by
  have head := head?_withExtension named
  split
  case isTrue absolute =>
    have first : (trim view.toList).head? = some '/' := head?_trim absolute (by decide)
    rw [Uri.front_of_absolute first, Uri.front_of_absolute (head.trans first)]
  case isFalse => exact Uri.front_congr head

theorem below_of_key (named : trim view.toList ≠ []) :
    Uri.below ((if view.toList.head? = some '/' then none else controller).map String.toList)
        (Uri.withExtension (trim view.toList)) =
      (cut controller view).1 ++ Uri.withExtension (cut controller view).2 := by
  have whole : Uri.front (controller.map String.toList) (trim view.toList) ++ trim view.toList =
      (cut controller view).1 ++ (cut controller view).2 := by
    rw [← Uri.below_eq, cut_append]
  calc Uri.below _ (Uri.withExtension (trim view.toList))
    _ = Uri.front (controller.map String.toList) (trim view.toList) ++ Uri.withExtension (trim view.toList) := by
      rw [Uri.below_eq, front_of_key named]
    _ = Uri.withExtension ((cut controller view).1 ++ (cut controller view).2) := by
      rw [← whole, Uri.withExtension_append (Uri.openEnded_front _ _)]
    _ = (cut controller view).1 ++ Uri.withExtension (cut controller view).2 :=
      Uri.withExtension_append openEnded_cut _

theorem uri?_of_request (named : trim view.toList ≠ []) :
    (Uri.normalize view controller).toOption =
      (Uri.uriOf? (Uri.segments (cut controller view).1 ++ Uri.segments (cut controller view).2)).map
        String.ofList := by
  rw [Uri.toOption_normalize, Uri.toOption_canonical, if_neg named, ← Uri.segments_of_open openEnded_cut, cut_append]

theorem uri?_ofView (qualifier : Option String) :
    (Key.ofView controller view qualifier).uri? =
      (Uri.normalize (page view) (if view.toList.head? = some '/' then none else controller)).toOption := by
  simp only [Key.uri?, Key.ofView, Option.bind_some]

theorem toList_page (named : trim view.toList ≠ []) :
    (page view).toList = Uri.withExtension (trim view.toList) := by
  simp [page, named]

theorem uri?_of_key (named : trim view.toList ≠ []) (qualifier : Option String) :
    (Key.ofView controller view qualifier).uri? =
      (Uri.uriOf? (Uri.segments (cut controller view).1 ++ [Uri.withExtension (cut controller view).2])).map
        String.ofList := by
  have same : trim (page view).toList = Uri.withExtension (trim view.toList) := by
    rw [toList_page named, trim_withExtension (isTrimmed_trim _) named]
  have nonempty : Uri.withExtension (trim view.toList) ≠ [] := by
    intro empty
    have head := head?_withExtension named
    rw [empty] at head
    exact named (List.head?_eq_none_iff.mp head.symm)
  have name : Uri.IsName (Uri.withExtension (cut controller view).2) := Uri.isName_withExtension slash_not_mem_cut
  rw [uri?_ofView, Uri.toOption_normalize, Uri.toOption_canonical, same, if_neg nonempty, below_of_key named,
    Uri.segments_of_open openEnded_cut, Uri.segments_of_name name]

/-- A key denotes what was asked for, unless the request dangles: then it is accepted all the same, and
denotes a page that the request does not denote. -/
theorem key_denotes_request_iff (controller : Option String) (view : String) (qualifier : Option String) :
    Key.ofPage view qualifier = Key.ofView none view qualifier ∧
      ((Key.ofView controller view qualifier).uri? = (Uri.normalize view controller).toOption ↔
        ¬ Dangling controller view) ∧
      (Dangling controller view → (Key.ofView controller view qualifier).uri?.isSome) := by
  refine ⟨by simp [Key.ofPage, Key.ofView], ?_, ?_⟩
  · by_cases named : trim view.toList = []
    · have asked : (Uri.normalize view controller).toOption = none := by
        rw [Uri.toOption_normalize, Uri.toOption_canonical, if_pos named]
        rfl
      have kept : (Key.ofView controller view qualifier).uri? = none := by
        have blank : page view = "" := by simp [page, named]
        rw [uri?_ofView, blank, Uri.toOption_normalize, Uri.toOption_canonical, if_pos (by decide)]
        rfl
      rw [asked, kept]
      exact ⟨fun _ dangling => dangling.named named, fun _ => rfl⟩
    · rw [uri?_of_key named, uri?_of_request named, dangling_iff named, not_not,
        ← Uri.uriOf?_withExtension_iff slash_not_mem_cut]
      exact (Option.map_injective fun _ _ => String.ofList_injective).eq_iff
  · intro dangling
    rw [uri?_of_key dangling.named, Uri.uriOf?_of_name dangling.descends (Uri.isName_withExtension slash_not_mem_cut)]
    rfl

theorem directory_request_dangles :
    Dangling none "book/" ∧ (Key.ofView none "book/" none).uri?.isSome := by
  have dangling : Dangling none "book/" := ⟨by decide, by decide, by decide⟩
  exact ⟨dangling, (key_denotes_request_iff none "book/" none).2.2 dangling⟩

theorem climbing_request_is_accepted :
    Uri.normalize ".." none = .error (.rejected "..") ∧ (Key.ofPage ".." none).uri? = some "/...gsp" ∧
      Uri.normalize "book/" none = .ok "/book.gsp" ∧ (Key.ofPage "book/" none).uri? = some "/book/.gsp" := by
  decide

end ViewName

end ViewCache
