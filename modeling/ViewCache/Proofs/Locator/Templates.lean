import ViewCache.Proofs.Locator.Names

namespace ViewCache.ViewName

open Text

def marked (file : List Char) : List Char :=
  if file.head? = some Convention.templateMark then file else Convention.templateMark :: file

theorem head?_marked (file : List Char) : (marked file).head? = some Convention.templateMark := by
  rw [marked]
  split
  case isTrue present => exact present
  case isFalse => rfl

theorem marked_eq (file : List Char) : marked file = file ∨ marked file = Convention.templateMark :: file := by
  rw [marked]
  split
  · exact .inl rfl
  · exact .inr rfl

theorem marked_idem (file : List Char) : marked (marked file) = marked file := if_pos (head?_marked file)

theorem slash_not_mem_marked {file : List Char} (plain : '/' ∉ file) : '/' ∉ marked file := by
  rcases marked_eq file with same | added
  · rwa [same]
  · rw [added]
    exact List.not_mem_cons_of_ne_of_not_mem (by decide) plain

theorem marked_append_extension (file : List Char) :
    marked (file ++ Uri.extension) = marked file ++ Uri.extension := by
  cases file with
  | nil => decide
  | cons c rest =>
      rw [marked, marked, List.cons_append, List.head?_cons, List.head?_cons]
      split
      · rfl
      · rfl

theorem exists_cut (name : String) :
    ∃ dir file, name.toList = dir ++ file ∧ OpenEnded '/' dir ∧ '/' ∉ file :=
  ⟨_, _, (splitLast_append '/' name.toList).symm, openEnded_splitLast, not_mem_splitLast⟩

theorem toList_template {name : String} {dir file : List Char} (whole : name.toList = dir ++ file)
    (open_ : OpenEnded '/' dir) (plain : '/' ∉ file) : (template name).toList = dir ++ marked file := by
  have cut : splitLast '/' name.toList = (dir, file) := by rw [whole, splitLast_of_append open_ plain]
  simp only [template, cut, marked]
  split
  case isTrue => exact whole
  case isFalse => exact String.toList_ofList

theorem template_idem (name : String) : template (template name) = template name := by
  obtain ⟨dir, file, whole, open_, plain⟩ := exists_cut name
  have once := toList_template whole open_ plain
  have twice := toList_template once open_ (slash_not_mem_marked plain)
  apply String.toList_inj.mp
  rw [twice, once, marked_idem]

theorem template_append_extension (name : String) :
    template (name ++ Convention.pageExtension) = template name ++ Convention.pageExtension := by
  obtain ⟨dir, file, whole, open_, plain⟩ := exists_cut name
  have longer : (name ++ Convention.pageExtension).toList = dir ++ (file ++ Uri.extension) := by
    rw [String.toList_append, whole, List.append_assoc, Uri.extension]
  have still : '/' ∉ file ++ Uri.extension :=
    fun member => (List.mem_append.mp member).elim plain Uri.slash_not_mem_extension
  apply String.toList_inj.mp
  calc (template (name ++ Convention.pageExtension)).toList
    _ = dir ++ marked (file ++ Uri.extension) := toList_template longer open_ still
    _ = (dir ++ marked file) ++ Uri.extension := by rw [marked_append_extension, List.append_assoc]
    _ = (template name ++ Convention.pageExtension).toList := by
      rw [String.toList_append, toList_template whole open_ plain, Uri.extension]

theorem head?_template_eq_slash (name : String) :
    (template name).toList.head? = some '/' ↔ name.toList.head? = some '/' := by
  obtain ⟨dir, file, whole, open_, plain⟩ := exists_cut name
  rw [toList_template whole open_ plain, whole]
  cases dir with
  | cons c rest => rfl
  | nil =>
      have bare : file.head? ≠ some '/' := fun slash => plain (List.mem_of_mem_head? slash)
      rw [List.nil_append, List.nil_append, head?_marked]
      exact iff_of_false (by decide) bare

theorem head?_trim_template {name : String} (absolute : (trim name.toList).head? = some '/') :
    (trim (template name).toList).head? = some '/' := by
  obtain ⟨dir, file, whole, open_, plain⟩ := exists_cut name
  have first : (trimStart (dir ++ file)).head? = some '/' := by
    have front : trim (dir ++ file) <+: trimStart (dir ++ file) := List.rdropWhile_prefix _ _
    rw [← whole] at front ⊢
    obtain ⟨rest, kept⟩ := List.head?_eq_some_iff.mp absolute
    obtain ⟨behind, all⟩ := front
    rw [← all, kept]
    rfl
  have named : trimStart dir ≠ [] := by
    intro blank
    have within : trimStart (dir ++ file) = trimStart file := by
      rw [trimStart, List.dropWhile_append]
      exact if_pos (List.isEmpty_iff.mpr blank)
    rw [within] at first
    exact plain ((List.dropWhile_subset _) (List.mem_of_mem_head? first))
  rw [toList_template whole open_ plain, trim]
  apply head?_trimEnd _ (by decide)
  rw [trimStart_append named] at first ⊢
  rwa [List.head?_append_of_ne_nil _ named] at first ⊢

theorem page_append_extension {view : String} (named : trimStart view.toList ≠ [])
    (last : ∀ c ∈ view.toList.getLast?, isBlank c = false) (bare : ¬ Uri.extension <:+ view.toList) :
    page (view ++ Convention.pageExtension) = page view := by
  have shorter : trim view.toList = trimStart view.toList := trim_of_last last
  have longer : trim (view ++ Convention.pageExtension).toList = trimStart view.toList ++ Uri.extension := by
    rw [String.toList_append, trim_of_last, trimStart_append named, Uri.extension]
    intro c ends
    rw [List.getLast?_append_of_ne_nil _ (by decide)] at ends
    cases ends
    decide
  have absent : ¬ Uri.extension <:+ trimStart view.toList :=
    fun present => bare (present.trans (List.dropWhile_suffix isBlank))
  have added : Uri.withExtension (trimStart view.toList) = trimStart view.toList ++ Uri.extension :=
    if_neg (mt List.isSuffixOf_iff_suffix.mp absent)
  have kept : Uri.withExtension (trimStart view.toList ++ Uri.extension) = trimStart view.toList ++ Uri.extension :=
    Uri.withExtension_of_suffix (List.suffix_append _ _)
  have some : trimStart view.toList ++ Uri.extension ≠ [] := List.append_ne_nil_of_left_ne_nil named _
  apply String.toList_inj.mp
  rw [toList_page (longer ▸ some), toList_page (shorter ▸ named), longer, shorter, kept, added]

/-- The mark keeps a name from being blank, and does not make an extension of what is none. -/
theorem template_takes_extension {name : String} (last : ∀ c ∈ name.toList.getLast?, isBlank c = false)
    (bare : ¬ Uri.extension <:+ name.toList) :
    trimStart (template name).toList ≠ [] ∧ (∀ c ∈ (template name).toList.getLast?, isBlank c = false) ∧
      ¬ Uri.extension <:+ (template name).toList := by
  obtain ⟨dir, file, whole, open_, plain⟩ := exists_cut name
  rw [toList_template whole open_ plain]
  rw [whole] at last bare
  have some : marked file ≠ [] := by
    intro empty
    have head := head?_marked file
    rw [empty] at head
    cases head
  refine ⟨?_, ?_, ?_⟩
  · intro blank
    have visible : Convention.templateMark ∈ dir ++ marked file :=
      List.mem_append_right dir (List.mem_of_mem_head? (head?_marked file))
    have passed := List.dropWhile_eq_nil_iff.mp blank _ visible
    exact absurd passed (by decide)
  · intro c ends
    rw [List.getLast?_append_of_ne_nil _ some] at ends
    cases file with
    | nil =>
        cases ends
        decide
    | cons d rest =>
        apply last c
        rw [List.getLast?_append_of_ne_nil _ (List.cons_ne_nil d rest)]
        rcases marked_eq (d :: rest) with same | added
        · rwa [same] at ends
        · rwa [added, List.getLast?_cons_cons] at ends
  · rw [Uri.extension_suffix_append open_] at bare ⊢
    rcases marked_eq file with same | added
    · rwa [same]
    · rw [added, List.suffix_cons_iff, not_or]
      refine ⟨fun same => ?_, bare⟩
      have head := congrArg List.head? same
      rw [List.head?_cons] at head
      exact absurd head (by decide)

end ViewCache.ViewName
