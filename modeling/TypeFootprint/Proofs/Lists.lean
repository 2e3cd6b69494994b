import Mathlib.Data.List.Forall2
import Mathlib.Data.List.Nodup

/-!
# Lists side by side

`List.Forall₂` relates two lists member by member.  Here is what is used of it about all sorts of
lists: two lists that are both made from a third one, the results of choices, and a list beside two
that have been joined.

Besides, there is what is used of lists of entries with keys, and of the parts of a list between
separators.
-/

set_option autoImplicit false

namespace TypeFootprint

variable {α β γ δ : Type}

/-- The same list, seen in two ways. -/
theorem forall₂_map_map {R : β → γ → Prop} {f : α → β} {g : α → γ} {xs : List α}
    (h : ∀ x ∈ xs, R (f x) (g x)) : List.Forall₂ R (xs.map f) (xs.map g) := by
  rw [List.forall₂_map_left_iff, List.forall₂_map_right_iff, List.forall₂_same]
  exact h

theorem forall₂_of_map_eq_map {f : α → β} {xs ys : List α} (h : xs.map f = ys.map f) :
    List.Forall₂ (fun x y ↦ f x = f y) xs ys := by
  have heq : List.Forall₂ (· = ·) (xs.map f) (ys.map f) := by rwa [List.forall₂_eq_eq_eq]
  rwa [List.forall₂_map_left_iff, List.forall₂_map_right_iff] at heq

/-- A choice for every member of a list, made at once. -/
theorem exists_forall₂ {R : α → β → Prop} {P : γ → β → Prop} {f : α → γ} {xs : List α}
    (h : ∀ x ∈ xs, ∃ b, R x b ∧ P (f x) b) :
    ∃ bs, List.Forall₂ R xs bs ∧ List.Forall₂ P (xs.map f) bs := by
  induction xs with
  | nil => exact ⟨[], .nil, .nil⟩
  | cons x xs ih =>
    obtain ⟨b, hR, hP⟩ := h x (.head _)
    obtain ⟨bs, hRs, hPs⟩ := ih fun y hy ↦ h y (.tail _ hy)
    exact ⟨b :: bs, .cons hR hRs, .cons hP hPs⟩

/-- A list beside two that have been joined falls into two parts as well. -/
theorem exists_append_of_forall₂ {R : α → β → Prop} {xs : List α} {ys zs : List β}
    (h : List.Forall₂ R xs (ys ++ zs)) :
    ∃ us vs, xs = us ++ vs ∧ List.Forall₂ R us ys ∧ List.Forall₂ R vs zs :=
  ⟨xs.take ys.length, xs.drop ys.length, (List.take_append_drop _ _).symm,
    List.forall₂_take_append xs ys zs h, List.forall₂_drop_append xs ys zs h⟩

/-! ## Values by their keys -/

/-- With distinct keys, the value that is found under a key is the one that is listed with it. -/
theorem find?_map_eq_some_iff [DecidableEq α] {entries : List (α × β)}
    (h : (entries.map Prod.fst).Nodup) {a : α} {b : β} :
    (entries.find? fun e ↦ e.1 == a).map Prod.snd = some b ↔ (a, b) ∈ entries := by
  rw [Option.map_eq_some_iff]
  constructor
  · rintro ⟨⟨a', b'⟩, hfind, rfl⟩
    obtain rfl : a' = a := by simpa using List.find?_some hfind
    exact List.mem_of_find?_eq_some hfind
  · intro hmem
    have hfound : (entries.find? fun e ↦ e.1 == a).isSome := by
      rw [List.find?_isSome]
      exact ⟨_, hmem, by simp⟩
    obtain ⟨e, he⟩ := Option.isSome_iff_exists.1 hfound
    have ha : e.1 = a := by simpa using List.find?_some he
    refine ⟨e, he, ?_⟩
    rw [List.inj_on_of_nodup_map h (List.mem_of_find?_eq_some he) hmem ha]

/-! ## Parts between separators -/

theorem not_mem_of_mem_splitOn [DecidableEq α] {a : α} {xs part : List α}
    (h : part ∈ xs.splitOn a) : a ∉ part := by
  induction xs generalizing part with
  | nil =>
    obtain rfl : part = [] := by simpa using h
    exact List.not_mem_nil
  | cons x xs ih =>
    rw [List.splitOn_cons_eq_if_modifyHead] at h
    obtain ⟨first, rest, hparts⟩ := List.exists_cons_of_ne_nil (List.splitOn_ne_nil a xs)
    rw [hparts] at h ih
    by_cases hx : x = a
    · rw [if_pos (by simpa using hx)] at h
      obtain rfl | h := List.mem_cons.1 h
      · exact List.not_mem_nil
      · exact ih h
    · rw [if_neg (by simpa using hx), List.modifyHead_cons] at h
      obtain rfl | h := List.mem_cons.1 h
      · rintro (_ | ⟨_, hmem⟩)
        · exact hx rfl
        · exact ih (.head _) hmem
      · exact ih (.tail _ h)

/-! ## Properties side by side with what has them -/

/-- Whatever has the properties of being these is these. -/
theorem eq_of_forall₂ {xs ys : List α}
    (h : List.Forall₂ (fun x P ↦ P x) xs (ys.map fun y ↦ (· = y))) : xs = ys := by
  rw [List.forall₂_map_right_iff] at h
  exact List.forall₂_eq_eq_eq ▸ h

/-- Whatever has the properties of being made from something that is shown like this is made from a
list that is shown like that. -/
theorem exists_map_of_forall₂ {make : β → α} {shown : β → δ} {g : γ → δ} {xs : List α}
    {ys : List γ}
    (h : List.Forall₂ (fun x P ↦ P x) xs (ys.map fun y x ↦ ∃ w, x = make w ∧ shown w = g y)) :
    ∃ ws : List β, xs = ws.map make ∧ ws.map shown = ys.map g := by
  rw [List.forall₂_map_right_iff] at h
  induction h with
  | nil => exact ⟨[], rfl, rfl⟩
  | cons hx hxs ih =>
    obtain ⟨w, rfl, hw⟩ := hx
    obtain ⟨ws, rfl, hws⟩ := ih
    exact ⟨w :: ws, rfl, by rw [List.map_cons, List.map_cons, hw, hws]⟩

end TypeFootprint
