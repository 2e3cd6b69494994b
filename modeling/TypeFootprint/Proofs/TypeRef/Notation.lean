import TypeFootprint.Proofs.Token.Spelling
import TypeFootprint.TypeRef

/-!
# The notation of type references

A reference has one notation, `TypeRef.render`, and `TypeRef.parse?` reads notations and nothing
else.

* `parse?_eq_some_iff` — a text is read as a reference exactly if it is the notation of it;
* `render_injective` — two references look alike only if they are the same, however their lists and
  marks are nested.

The induction for the first half goes along the reference, with whatever may follow it behind it,
because an item is followed by a bracket.  The one for the second half goes along the reader.
-/

set_option autoImplicit false

namespace TypeFootprint
namespace TypeRef

/-! ## Type references are read as they are written -/

theorem readMark_append (required : Bool) {rest : List Char} (h : rest.head? ≠ some '!') :
    readMark (mark required ++ rest) = (required, rest) := by
  cases required with
  | true => rfl
  | false =>
    cases rest with
    | nil => rfl
    | cons c rest =>
      have hc : c ≠ '!' := by simpa using h
      rw [mark, if_neg Bool.false_ne_true, List.nil_append, readMark]
      rintro _ ⟨⟩
      exact hc rfl

/-- Whether a reference may be over before this text: neither its name nor its mark goes on. -/
def EndsBefore (rest : List Char) : Prop :=
  ∀ c ∈ rest.head?, isNameContinue c = false ∧ c ≠ '!'

theorem EndsBefore.head?_ne {rest : List Char} (h : EndsBefore rest) : rest.head? ≠ some '!' :=
  fun hc ↦ (h '!' hc).2 rfl

/-- Behind a name stands nothing that the name goes on with. -/
theorem span_name (n : Name) (required : Bool) {rest : List Char} (h : EndsBefore rest) :
    (n.toList ++ (mark required ++ rest)).takeWhile isNameContinue = n.toList ∧
      (n.toList ++ (mark required ++ rest)).dropWhile isNameContinue = mark required ++ rest := by
  have hname : ∀ c ∈ n.toList, isNameContinue c = true := by
    obtain ⟨c, cs, hn, hc, hcs⟩ := n.exists_toList_eq_cons
    rw [hn]
    exact List.forall_mem_cons.2 ⟨isNameContinue_of_isNameStart hc, List.all_eq_true.1 hcs⟩
  have hbehind : ∀ c ∈ (mark required ++ rest).head?, isNameContinue c = false := by
    cases required with
    | true =>
      rintro c ⟨⟩
      rfl
    | false => exact fun c hc ↦ (h c hc).1
  rw [List.takeWhile_append_of_pos hname, List.dropWhile_append_of_pos hname]
  cases hrest : mark required ++ rest with
  | nil => simp
  | cons c cs =>
    have hc : ¬isNameContinue c = true := by
      rw [hbehind c (by rw [hrest]; rfl)]
      exact Bool.false_ne_true
    rw [List.takeWhile_cons_of_neg hc, List.dropWhile_cons_of_neg hc, List.append_nil]
    exact ⟨rfl, rfl⟩

/-- A reference is read back in front of every text that it may be over before. -/
theorem read?_chars_append (t : TypeRef) {rest : List Char} (h : EndsBefore rest) :
    read? (t.chars ++ rest) = some (t, rest) := by
  induction t generalizing rest with
  | named n required =>
    obtain ⟨htake, hdrop⟩ := span_name n required h
    obtain ⟨c, cs, hn, hstart, -⟩ := n.exists_toList_eq_cons
    have hc : c ≠ '[' := by
      rintro rfl
      cases hstart
    have hcons : n.toList ++ (mark required ++ rest) = c :: (cs ++ (mark required ++ rest)) := by
      rw [hn, List.cons_append]
    have hread : Name.ofText? (String.ofList n.toList) = some n := by
      rw [Name.toList, String.ofList_toList, Name.ofText?_text]
    rw [chars, List.append_assoc, hcons, read?, if_neg hc, ← hcons, htake, hdrop, hread,
      readMark_append required h.head?_ne]
    rfl
  | list item required ih =>
    have hclose : EndsBefore (']' :: (mark required ++ rest)) := by
      rintro c ⟨⟩
      exact ⟨rfl, by decide⟩
    rw [chars, List.cons_append, List.append_assoc, List.cons_append, read?, if_pos rfl, ih hclose]
    simp only [readMark_append required h.head?_ne]

/-- What has been written is read back. -/
theorem parse?_of_toList_eq_chars {text : String} {t : TypeRef} (h : text.toList = t.chars) :
    parse? text = some t := by
  have hnil : EndsBefore [] := nofun
  have hread := read?_chars_append t hnil
  rw [List.append_nil] at hread
  rw [parse?, h, hread]

theorem parse?_render (t : TypeRef) : parse? t.render = some t :=
  parse?_of_toList_eq_chars String.toList_ofList

theorem chars_injective : Function.Injective chars := by
  intro t u h
  have hread : parse? t.render = some u :=
    parse?_of_toList_eq_chars (String.toList_ofList.trans h)
  rw [parse?_render] at hread
  exact Option.some.inj hread

/-- **References that look alike are the same.** -/
theorem render_injective : Function.Injective render :=
  fun _ _ h ↦ chars_injective (String.ofList_injective h)

/-! ## Nothing else is read -/

theorem eq_of_readMark {cs rest : List Char} {required : Bool}
    (h : readMark cs = (required, rest)) : cs = mark required ++ rest := by
  unfold readMark at h
  split at h
  · cases h
    rfl
  · cases h
    rfl

/-- What has been read is what is written for the reference. -/
theorem eq_append_of_read? {cs rest : List Char} {t : TypeRef} (h : read? cs = some (t, rest)) :
    cs = t.chars ++ rest := by
  fun_induction read? cs generalizing t rest with
  | case1 => cases h
  | case2 cs item behind hitem required rest hmark ih =>
    cases h
    rw [ih hitem, eq_of_readMark hmark, chars, List.cons_append, List.append_assoc,
      List.cons_append]
  | case3 cs hread => cases h
  | case4 c cs hc =>
    obtain ⟨n, hn, h⟩ := Option.bind_eq_some_iff.1 h
    cases hmark : readMark ((c :: cs).dropWhile isNameContinue) with
    | mk required behind =>
      rw [hmark] at h
      cases h
      have hname : (c :: cs).takeWhile isNameContinue = n.toList := by
        rw [Name.toList, Name.text_of_ofText? hn, String.toList_ofList]
      calc c :: cs
        _ = (c :: cs).takeWhile isNameContinue ++ (c :: cs).dropWhile isNameContinue :=
          List.takeWhile_append_dropWhile.symm
        _ = n.toList ++ (mark required ++ rest) := by rw [hname, eq_of_readMark hmark]
        _ = chars (named n required) ++ rest := by rw [chars, List.append_assoc]

/-- **A text is read as a reference exactly if it is the notation of it.** -/
theorem parse?_eq_some_iff {text : String} {t : TypeRef} :
    parse? text = some t ↔ t.render = text := by
  refine ⟨fun h ↦ ?_, fun h ↦ h ▸ parse?_render t⟩
  rw [parse?] at h
  split at h
  · next u hread =>
    obtain rfl := Option.some.inj h
    rw [render, ← List.append_nil u.chars, ← eq_append_of_read? hread, String.ofList_toList]
  · cases h

theorem parse?_eq_none_iff {text : String} :
    parse? text = none ↔ ∀ t : TypeRef, t.render ≠ text := by
  simp only [Option.eq_none_iff_forall_ne_some, ne_eq, parse?_eq_some_iff]

end TypeRef
end TypeFootprint
