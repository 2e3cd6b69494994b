import Mathlib.Data.List.Lex
import Mathlib.Data.String.Basic

/-!
# The order of texts is the order of their bytes

Texts are compared character by character, by code point.  A file system compares names byte by
byte, in UTF-8.  The two orders are the same (`bytes_lt_iff`): a larger code point has a larger
first byte, or as many bytes with the first difference in the same direction, so what comes behind
the two characters does not matter.
-/

set_option autoImplicit false

namespace TypeFootprint.Text

/-- The bytes of a character in UTF-8, as numbers. -/
def charBytes (c : Char) : List Nat := (String.utf8EncodeChar c).map UInt8.toNat

/-- The bytes of a text in UTF-8, as numbers. -/
def bytes (s : String) : List Nat := s.toUTF8.data.toList.map UInt8.toNat

theorem bytes_eq_flatMap (s : String) : bytes s = s.toList.flatMap charBytes := by
  rw [bytes, String.toUTF8_eq_toByteArray, ← String.utf8Encode_toList, List.utf8Encode,
    List.toList_data_toByteArray, List.map_flatMap]
  rfl

/-! ## Bytes of two characters -/

/-- The bytes that are made from a number below a limit increase with it, whatever stands behind
them. -/
def IncreasesBelow (limit : Nat) (f : Nat → List Nat) : Prop :=
  ∀ m n, m < n → n < limit → ∀ x y, f m ++ x < f n ++ y

theorem increasesBelow_leading (limit mark : Nat) (h : limit + mark ≤ 256) :
    IncreasesBelow limit fun n ↦ [(n % limit + mark) % 256] := by
  intro m n hmn hn x y
  refine List.cons_lt_cons_iff.2 (.inl ?_)
  rw [Nat.mod_eq_of_lt hn, Nat.mod_eq_of_lt (hmn.trans hn)]
  omega

/-- One more byte for the last six bits: it decides if the bytes before it do not. -/
theorem IncreasesBelow.continued {limit : Nat} {f : Nat → List Nat} (h : IncreasesBelow limit f) :
    IncreasesBelow (limit * 64) fun n ↦ f (n / 64) ++ [(n % 64 + 128) % 256] := by
  intro m n hmn hn x y
  rw [List.append_assoc, List.append_assoc]
  rcases Nat.lt_or_ge (m / 64) (n / 64) with hlt | hge
  · exact h _ _ hlt (by omega) _ _
  · have heq : m / 64 = n / 64 := by omega
    rw [heq]
    exact List.append_left_lt (List.cons_lt_cons_iff.2 (.inl (by omega)))

/-- The larger one of two characters has the larger bytes. -/
theorem charBytes_append_lt {c d : Char} (h : c < d) (x y : List Nat) :
    charBytes c ++ x < charBytes d ++ y := by
  have hlt : c.val.toNat < d.val.toNat := h
  have hd : d.val.toNat < 0x110000 := by
    rcases d.valid with hd | hd <;> omega
  have hdiv (k : Nat) : k / 4096 = k / 64 / 64 ∧ k / 262144 = k / 64 / 64 / 64 := by omega
  simp only [charBytes, String.utf8EncodeChar, (hdiv _).1, (hdiv _).2]
  generalize c.val.toNat = m at *
  generalize d.val.toNat = n at *
  have htwo := (increasesBelow_leading 32 192 (by decide)).continued
  have hthree := (increasesBelow_leading 16 224 (by decide)).continued.continued
  have hfour := (increasesBelow_leading 8 240 (by decide)).continued.continued.continued
  split_ifs <;> simp only [List.map, UInt8.toNat_ofNat']
  -- The first byte decides, unless the characters have the same number of bytes, more than one.
  all_goals first | omega | exact List.cons_lt_cons_iff.2 (.inl (by omega)) | skip
  · exact htwo m n hlt (by omega) x y
  · exact hthree m n hlt (by omega) x y
  · exact hfour m n hlt (by omega) x y

theorem charBytes_ne_nil (c : Char) : charBytes c ≠ [] :=
  List.map_eq_nil_iff.not.2 String.utf8EncodeChar_ne_nil

/-! ## Bytes of two texts -/

theorem flatMap_charBytes_lt {cs ds : List Char} (h : cs < ds) :
    cs.flatMap charBytes < ds.flatMap charBytes := by
  induction h with
  | @nil d ds =>
    obtain ⟨b, bs, hd⟩ := List.exists_cons_of_ne_nil (charBytes_ne_nil d)
    rw [List.flatMap_cons, hd]
    exact List.nil_lt_cons _ _
  | cons hrest ih => exact List.append_left_lt ih
  | rel hc => exact charBytes_append_lt hc _ _

/-- **Texts are in the order of their bytes.** -/
theorem bytes_lt_iff {s t : String} : bytes s < bytes t ↔ s < t := by
  have hlt {s t : String} (h : s < t) : bytes s < bytes t := by
    rw [bytes_eq_flatMap, bytes_eq_flatMap]
    exact flatMap_charBytes_lt (String.lt_iff_toList_lt.1 h)
  refine ⟨fun h ↦ ?_, hlt⟩
  rcases lt_trichotomy s t with hst | rfl | hts
  · exact hst
  · exact absurd h (lt_irrefl _)
  · exact absurd (hlt hts) (lt_asymm h)

theorem bytes_inj {s t : String} (h : bytes s = bytes t) : s = t := by
  rcases lt_trichotomy s t with hst | rfl | hts
  · exact absurd h (bytes_lt_iff.2 hst).ne
  · rfl
  · exact absurd h (bytes_lt_iff.2 hts).ne'

end TypeFootprint.Text
