import Mathlib.Data.List.Nodup
import ViewCache.Proofs.Json.Object
import ViewCache.Proofs.Text.Split

/-!
JSON values and the texts that are JSON for them. To a reader the line breaks and the indentation of the printer
are blanks.
-/
namespace ViewCache.Json

open Text (joinWith)

structure Slot where
  lead : List Char
  text : List Char
  value : Json

def Slot.whole (slot : Slot) : List Char := slot.lead ++ slot.text

inductive NameLead (name : String) : List Char → Prop
  | mk {gap spelling space : List Char} (blank : Blank gap) (spells : Spells spelling name.toList)
      (blankToo : Blank space) : NameLead name (gap ++ '"' :: (spelling ++ '"' :: ':' :: space))

/-- The text is JSON for the value: items and members in this order, with commas between them. -/
inductive Writes : Json → List Char → Prop
  | null : Writes .null "null".toList
  | bool (b : Bool) : Writes (.bool b) (toString b).toList
  | int (n : Int) : Writes (.int n) (toString n).toList
  | real (literal : String) : Writes (.real literal) literal.toList
  | str {s : String} {spelling : List Char} (spells : Spells spelling s.toList) :
      Writes (.str s) ('"' :: (spelling ++ ['"']))
  | arr {slots : List Slot} {gap : List Char} (leads : ∀ slot ∈ slots, Blank slot.lead)
      (written : ∀ slot ∈ slots, Writes slot.value slot.text) (blank : Blank gap) :
      Writes (.arr (slots.map Slot.value)) ('[' :: (joinWith ',' (slots.map Slot.whole) ++ (gap ++ [']'])))
  | obj {members : List (String × Slot)} {gap : List Char} (leads : ∀ m ∈ members, NameLead m.1 m.2.lead)
      (written : ∀ m ∈ members, Writes m.2.value m.2.text) (blank : Blank gap) :
      Writes (.obj (members.map fun m => (m.1, m.2.value)))
        ('\x7b' :: (joinWith ',' (members.map fun m => m.2.whole) ++ (gap ++ ['\x7d'])))

def itemLine (depth : Nat) (v : Json) : Slot := ⟨newline depth, pretty depth v, v⟩

def memberLine (depth : Nat) (m : String × Json) : String × Slot :=
  (m.1, ⟨newline depth ++ quote m.1 ++ [':', ' '], pretty depth m.2, m.2⟩)

theorem nameLead_memberLine (depth : Nat) (m : String × Json) : NameLead m.1 (memberLine depth m).2.lead := by
  have space : Blank [' '] := by simp [Blank, isSpace]
  simpa [memberLine, quote] using NameLead.mk (blank_newline depth) (spells_escaped m.1.toList) space

theorem prettyItems_eq (depth : Nat) (items : List Json) :
    prettyItems depth items = joinWith ',' (items.map fun v => (itemLine depth v).whole) := by
  induction items with
  | nil => rfl
  | cons v rest ih =>
      cases rest with
      | nil => simp [prettyItems, joinWith, itemLine, Slot.whole]
      | cons => simp_all [prettyItems, joinWith, List.intercalate_cons_cons, itemLine, Slot.whole]

theorem prettyMembers_eq (depth : Nat) (members : List (String × Json)) :
    prettyMembers depth members = joinWith ',' (members.map fun m => (memberLine depth m).2.whole) := by
  induction members with
  | nil => rfl
  | cons m rest ih =>
      cases rest with
      | nil => simp [prettyMembers, joinWith, memberLine, Slot.whole]
      | cons => simp_all [prettyMembers, joinWith, List.intercalate_cons_cons, memberLine, Slot.whole]

theorem writes_arr {depth : Nat} {items : List Json} (written : ∀ v ∈ items, Writes v (pretty (depth + 1) v)) :
    Writes (.arr items) (pretty depth (.arr items)) := by
  cases items with
  | nil => exact .arr (List.forall_mem_nil _) (List.forall_mem_nil _) blank_nil
  | cons first rest =>
      -- to a reader the line breaks are blanks
      have leads : ∀ slot ∈ (first :: rest).map (itemLine (depth + 1)), Blank slot.lead :=
        List.forall_mem_map.mpr fun _ _ => blank_newline (depth + 1)
      have whole := Writes.arr leads (List.forall_mem_map.mpr written) (blank_newline depth)
      rw [List.map_map, List.map_map] at whole
      simpa [pretty, prettyItems_eq, Function.comp_def, itemLine] using whole

theorem writes_obj {depth : Nat} {members : List (String × Json)}
    (written : ∀ m ∈ members, Writes m.2 (pretty (depth + 1) m.2)) :
    Writes (.obj members) (pretty depth (.obj members)) := by
  cases members with
  | nil => exact .obj (List.forall_mem_nil _) (List.forall_mem_nil _) blank_nil
  | cons first rest =>
      have leads : ∀ m ∈ (first :: rest).map (memberLine (depth + 1)), NameLead m.1 m.2.lead :=
        List.forall_mem_map.mpr fun m _ => nameLead_memberLine (depth + 1) m
      have whole := Writes.obj leads (List.forall_mem_map.mpr written) (blank_newline depth)
      rw [List.map_map, List.map_map] at whole
      simpa [pretty, prettyMembers_eq, Function.comp_def, memberLine] using whole

theorem writes_pretty : ∀ (v : Json) (depth : Nat), Writes v (pretty depth v)
  | .null, _ => .null
  | .bool true, _ => .bool true
  | .bool false, _ => .bool false
  | .int n, _ => .int n
  | .real literal, _ => .real literal
  | .str s, _ => .str (spells_escaped s.toList)
  | .arr items, depth => writes_arr fun v _ => writes_pretty v (depth + 1)
  | .obj members, depth => writes_obj fun (_, v) _ => writes_pretty v (depth + 1)
termination_by v => v
decreasing_by
  all_goals
    have smaller := List.sizeOf_lt_of_mem ‹_ ∈ _›
    simp only [Prod.mk.sizeOf_spec, Json.arr.sizeOf_spec, Json.obj.sizeOf_spec] at *
    omega

/-! ### Members in order of their names -/

theorem sortedItems_eq (items : List Json) : sorted.sortedItems items = items.map sorted := by
  induction items with
  | nil => rfl
  | cons v rest ih => rw [sorted.sortedItems, ih, List.map_cons]

theorem sortedMembers_eq (members : List (String × Json)) :
    sorted.sortedMembers members = members.map fun m => (m.1, m.2.sorted) := by
  induction members with
  | nil => rfl
  | cons m rest ih => rw [sorted.sortedMembers, ih, List.map_cons]

theorem sorted_arr (items : List Json) : (arr items).sorted = arr (items.map sorted) := by
  rw [sorted, sortedItems_eq]

theorem mergeSort_members {members ordered : List (String × Json)} (distinct : (members.map Prod.fst).Nodup)
    (same : ∀ m, m ∈ members ↔ m ∈ ordered) (increasing : (ordered.map Prod.fst).Pairwise (· < ·)) :
    (members.mergeSort fun a b => decide (a.1 ≤ b.1)) = ordered := by
  have distinctToo : (ordered.map Prod.fst).Nodup := increasing.imp String.ne_of_lt
  have order : members.Perm ordered :=
    (List.perm_ext_iff_of_nodup (.of_map Prod.fst distinct) (.of_map Prod.fst distinctToo)).mpr same
  have sorted : (members.mergeSort fun a b => decide (a.1 ≤ b.1)).Perm ordered :=
    (List.mergeSort_perm members _).trans order
  have least : ordered.Pairwise fun a b => decide (a.1 ≤ b.1) = true := by
    refine (List.pairwise_map.mp increasing).imp ?_
    exact fun before => decide_eq_true (Std.le_of_lt before)
  -- of members with different names there is only one sorted list
  refine List.Perm.eq_of_pairwise ?_ (List.pairwise_mergeSort ?_ ?_ members) least sorted
  · intro a b member memberToo before after
    have names : a.1 = b.1 := String.le_antisymm (of_decide_eq_true before) (of_decide_eq_true after)
    exact List.inj_on_of_nodup_map distinctToo (sorted.subset member) memberToo names
  · intro a b c before after
    exact decide_eq_true (String.le_trans (of_decide_eq_true before) (of_decide_eq_true after))
  · intro a b
    simpa only [Bool.or_eq_true, decide_eq_true_eq] using String.le_total a.1 b.1

theorem sorted_obj {members ordered : List (String × Json)} (names : List String)
    (named : ordered.map Prod.fst = names) (increasing : names.Pairwise (· < ·))
    (distinct : (members.map Prod.fst).Nodup)
    (same : ∀ m, m ∈ members.map (fun m => (m.1, m.2.sorted)) ↔ m ∈ ordered) :
    (obj members).sorted = obj ordered := by
  rw [sorted, sortedMembers_eq, mergeSort_members _ same (named ▸ increasing)]
  rwa [List.map_map]

end ViewCache.Json
