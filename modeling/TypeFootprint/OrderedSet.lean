/-!
# Sets that keep the order of insertion

An `OrderedSet` lists each of its elements once, in the order in which they were first put in.
Its view is the field `toList`, and the absence of duplicates is part of the type.

* `mem_insert` and `mem_insertMany` say which elements an insertion leaves in the set.
* `toList_insert_of_mem` and `toList_insert_of_not_mem` say where a new element goes: to the end,
  and only if it was not there before.
* `SameElements` is equality of sets: the order does not count.
-/

set_option autoImplicit false

namespace TypeFootprint

/-- Elements without repetition, in the order of their first insertion. -/
structure OrderedSet (α : Type) where
  toList : List α
  nodup : toList.Nodup

namespace OrderedSet

variable {α : Type}

instance : Membership α (OrderedSet α) := ⟨fun s a ↦ a ∈ s.toList⟩

theorem mem_def {a : α} {s : OrderedSet α} : a ∈ s ↔ a ∈ s.toList := Iff.rfl

theorem nodup_concat {l : List α} {a : α} (h : l.Nodup) (ha : a ∉ l) : (l ++ [a]).Nodup := by
  rw [List.nodup_append]
  refine ⟨h, by simp, ?_⟩
  intro x hx y hy
  rw [List.mem_singleton] at hy
  rintro rfl
  exact ha (hy ▸ hx)

/-- The set without elements. -/
def empty : OrderedSet α := ⟨[], List.nodup_nil⟩

instance : Inhabited (OrderedSet α) := ⟨empty⟩

/-- The number of elements. -/
def size (s : OrderedSet α) : Nat := s.toList.length

/-- The elements that satisfy a test, in the same order. -/
def filter (s : OrderedSet α) (p : α → Bool) : OrderedSet α :=
  ⟨s.toList.filter p, s.nodup.filter p⟩

@[simp] theorem not_mem_empty (a : α) : a ∉ (empty : OrderedSet α) := by
  simp [mem_def, empty]

@[simp] theorem mem_filter {s : OrderedSet α} {p : α → Bool} {a : α} :
    a ∈ s.filter p ↔ a ∈ s ∧ p a = true := by
  rw [mem_def, filter, List.mem_filter, ← mem_def]

variable [DecidableEq α]

instance (a : α) (s : OrderedSet α) : Decidable (a ∈ s) :=
  inferInstanceAs (Decidable (a ∈ s.toList))

/-- Puts an element at the end, unless the set has it already. -/
def insert (s : OrderedSet α) (a : α) : OrderedSet α :=
  if h : a ∈ s.toList then s else ⟨s.toList ++ [a], nodup_concat s.nodup h⟩

/-- Puts in the elements of a list, one after the other. -/
def insertMany (s : OrderedSet α) (as : List α) : OrderedSet α := as.foldl insert s

/-- The elements of a list, first occurrences only. -/
def ofList (as : List α) : OrderedSet α := empty.insertMany as

/-- Whether two sets have the same elements, in whatever order. -/
def sameElements (s t : OrderedSet α) : Bool :=
  s.toList.all (fun a ↦ decide (a ∈ t)) && t.toList.all (fun a ↦ decide (a ∈ s))

theorem toList_insert_of_mem {s : OrderedSet α} {a : α} (h : a ∈ s) :
    (s.insert a).toList = s.toList := by
  rw [insert, dif_pos (mem_def.1 h)]

theorem toList_insert_of_not_mem {s : OrderedSet α} {a : α} (h : a ∉ s) :
    (s.insert a).toList = s.toList ++ [a] := by
  rw [insert, dif_neg (fun h' ↦ h (mem_def.2 h'))]

@[simp] theorem mem_insert {s : OrderedSet α} {a b : α} : b ∈ s.insert a ↔ b ∈ s ∨ b = a := by
  by_cases h : a ∈ s
  · rw [mem_def, toList_insert_of_mem h, ← mem_def]
    constructor
    · exact Or.inl
    · rintro (hb | rfl)
      · exact hb
      · exact h
  · rw [mem_def, toList_insert_of_not_mem h, List.mem_append, List.mem_singleton, ← mem_def]

@[simp] theorem mem_insertMany {s : OrderedSet α} {as : List α} {b : α} :
    b ∈ s.insertMany as ↔ b ∈ s ∨ b ∈ as := by
  induction as generalizing s with
  | nil => simp [insertMany]
  | cons a as ih =>
    rw [insertMany, List.foldl_cons, ← insertMany, ih, mem_insert, List.mem_cons, or_assoc]

@[simp] theorem mem_ofList {as : List α} {b : α} : b ∈ ofList as ↔ b ∈ as := by
  simp [ofList]

theorem sameElements_iff {s t : OrderedSet α} :
    s.sameElements t = true ↔ ∀ a, a ∈ s ↔ a ∈ t := by
  simp only [sameElements, Bool.and_eq_true, List.all_eq_true, decide_eq_true_eq]
  constructor
  · rintro ⟨hst, hts⟩ a
    exact ⟨hst a, hts a⟩
  · intro h
    exact ⟨fun a ha ↦ (h a).1 ha, fun a ha ↦ (h a).2 ha⟩

end OrderedSet
end TypeFootprint
