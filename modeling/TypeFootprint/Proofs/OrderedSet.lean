import Mathlib.Data.List.Induction
import TypeFootprint.Insertion

/-!
# The order in an ordered set

An ordered set lists first occurrences: what is put in again stays where it was put in first.  So
the list of a set that was built in several passes is that of one pass over everything.

* `toList_ofList` and `toList_insertMany` — the list after insertions, said with `List.eraseDups`,
  which keeps the first occurrence of each element;
* `insertMany_flatMap_toList` — removing repetitions before a step that works on single elements
  makes no difference to the repetitions removed after it;
* `ofInsertions_eq_ofList` — insertions of whatever sort fill a set with what they hand over.

The inductions go along the end of the list, because that is where elements are put in.
-/

set_option autoImplicit false

namespace TypeFootprint

variable {α β : Type}

/-- A set is what it lists. -/
theorem OrderedSet.ext_toList {s t : OrderedSet α} (h : s.toList = t.toList) : s = t := by
  cases s; cases t; cases h; rfl

theorem OrderedSet.toList_filter (s : OrderedSet α) (p : α → Bool) :
    (s.filter p).toList = s.toList.filter p := rfl

variable [DecidableEq α] [DecidableEq β]

/-! ## First occurrences -/

/-- A list without repetitions loses nothing. -/
theorem eraseDups_eq_self {l : List α} (h : l.Nodup) : l.eraseDups = l := by
  induction l with
  | nil => rfl
  | cons a l ih =>
    obtain ⟨ha, hl⟩ := List.nodup_cons.1 h
    have hfilter : (l.filter fun b ↦ !b == a) = l := by
      rw [List.filter_eq_self]
      rintro b hb
      simp only [Bool.not_eq_true', beq_eq_false_iff_ne]
      rintro rfl
      exact ha hb
    rw [List.eraseDups_cons, hfilter, ih hl]

theorem eraseDups_concat_of_mem {l : List α} {a : α} (h : a ∈ l) :
    (l ++ [a]).eraseDups = l.eraseDups := by
  have hremove : [a].removeAll l = [] := by simp [List.removeAll, h]
  rw [List.eraseDups_append, hremove, List.eraseDups_nil, List.append_nil]

theorem eraseDups_concat_of_not_mem {l : List α} {a : α} (h : a ∉ l) :
    (l ++ [a]).eraseDups = l.eraseDups ++ [a] := by
  have hremove : [a].removeAll l = [a] := by simp [List.removeAll, h]
  rw [List.eraseDups_append, hremove, eraseDups_eq_self (List.pairwise_singleton _ a)]

/-! ## Insertions -/

namespace OrderedSet

variable {s : OrderedSet α} {l m : List α}

theorem insert_of_mem {a : α} (h : a ∈ s) : s.insert a = s := ext_toList (toList_insert_of_mem h)

theorem insertMany_append : s.insertMany (l ++ m) = (s.insertMany l).insertMany m :=
  List.foldl_append

theorem insertMany_concat {a : α} : s.insertMany (l ++ [a]) = (s.insertMany l).insert a :=
  insertMany_append

theorem ofList_append : ofList (l ++ m) = (ofList l).insertMany m := insertMany_append

theorem insertMany_of_subset (h : ∀ a ∈ l, a ∈ s) : s.insertMany l = s := by
  induction l with
  | nil => rfl
  | cons a l ih =>
    rw [insertMany, List.foldl_cons, insert_of_mem (h a List.mem_cons_self)]
    exact ih fun b hb ↦ h b (List.mem_cons_of_mem a hb)

/-- **What is put in goes to the end, in order**, if it is new. -/
theorem toList_insertMany :
    (s.insertMany l).toList = s.toList ++ l.eraseDups.filter fun a ↦ decide (a ∉ s) := by
  induction l using List.reverseRecOn with
  | nil => simp [insertMany]
  | append_singleton l a ih =>
    rw [insertMany_concat]
    by_cases hl : a ∈ l
    · have hmem : a ∈ s.insertMany l := mem_insertMany.2 (.inr hl)
      rw [toList_insert_of_mem hmem, eraseDups_concat_of_mem hl, ih]
    · rw [eraseDups_concat_of_not_mem hl, List.filter_append]
      by_cases hs : a ∈ s
      · have hmem : a ∈ s.insertMany l := mem_insertMany.2 (.inl hs)
        rw [toList_insert_of_mem hmem, ih]
        simp [hs]
      · have hmem : a ∉ s.insertMany l := by simp [hs, hl]
        rw [toList_insert_of_not_mem hmem, ih]
        simp [hs]

/-- The list of a set that is made from a list: first occurrences only. -/
theorem toList_ofList : (ofList l).toList = l.eraseDups := by
  have hall : (l.eraseDups.filter fun a ↦ decide (a ∉ (empty : OrderedSet α))) = l.eraseDups :=
    List.filter_eq_self.2 fun a _ ↦ decide_eq_true (not_mem_empty a)
  rw [ofList, toList_insertMany, hall]
  rfl

theorem ofList_toList : ofList s.toList = s := by
  refine ext_toList ?_
  rw [toList_ofList, eraseDups_eq_self s.nodup]

/-- **Repetitions may be removed before a step or after it.** -/
theorem insertMany_flatMap_toList (s : OrderedSet β) (l : List α) (f : α → List β) :
    s.insertMany ((ofList l).toList.flatMap f) = s.insertMany (l.flatMap f) := by
  induction l using List.reverseRecOn with
  | nil => rfl
  | append_singleton l a ih =>
    rw [List.flatMap_append, List.flatMap_singleton]
    by_cases ha : a ∈ l
    · have hsame : ofList (l ++ [a]) = ofList l := by
        rw [ofList_append, insertMany_of_subset]
        simpa using ha
      have hsub : ∀ b ∈ f a, b ∈ s.insertMany (l.flatMap f) := by
        intro b hb
        rw [mem_insertMany]
        exact .inr (List.mem_flatMap.2 ⟨a, ha, hb⟩)
      rw [hsame, ih, insertMany_append, insertMany_of_subset hsub]
    · have hlast : (ofList (l ++ [a])).toList = (ofList l).toList ++ [a] := by
        rw [toList_ofList, toList_ofList, eraseDups_concat_of_not_mem ha]
      rw [hlast, List.flatMap_append, List.flatMap_singleton, insertMany_append, ih,
        insertMany_append]

theorem ofList_map_toList (l : List α) (f : α → β) :
    ofList ((ofList l).toList.map f) = ofList (l.map f) := by
  rw [List.map_eq_flatMap, List.map_eq_flatMap]
  exact insertMany_flatMap_toList empty l _

/-! ## Insertions of all sorts -/

/-- An insertion puts in what it hands over, one after the other. -/
theorem apply_eq_insertMany (i : Insertion α) : i.apply s = s.insertMany i.elements := by
  cases i with
  | one a => rfl
  | optional a? => cases a? <;> rfl
  | many as => rfl

theorem foldl_apply (insertions : List (Insertion α)) :
    insertions.foldl Insertion.apply s = s.insertMany (insertions.flatMap Insertion.elements) := by
  induction insertions generalizing s with
  | nil => rfl
  | cons i insertions ih =>
    rw [List.foldl_cons, ih, apply_eq_insertMany, List.flatMap_cons, insertMany_append]

/-- **A set has what insertions handed over**, in the order of the first time. -/
theorem ofInsertions_eq_ofList (insertions : List (Insertion α)) :
    ofInsertions insertions = ofList (insertions.flatMap Insertion.elements) :=
  foldl_apply insertions

@[simp] theorem mem_ofInsertions {insertions : List (Insertion α)} {a : α} :
    a ∈ ofInsertions insertions ↔ ∃ i ∈ insertions, a ∈ i.elements := by
  rw [ofInsertions_eq_ofList, mem_ofList, List.mem_flatMap]

end OrderedSet
end TypeFootprint
