import TypeFootprint.Proofs.CommandLine.Rearranging
import TypeFootprint.Proofs.Footprint.Idempotence

/-!
# The exceptions of a run

Names are denied and forced by the configuration, or else by the standard policy, and by options of
the command line.  What is denied is taken away first, wherever it comes from, and then what is
forced is added; so it matters neither where a name is denied or forced, nor when.

* `mem_denied_buildPolicy` — where denied names come from, beside `mem_forced_buildPolicy`;
* `mem_canonicalizeTexts_buildPolicy` — the result in terms of the words of the command line, and
  that rearranging its options does not change it.
-/

set_option autoImplicit false

namespace TypeFootprint

open Arguments (Gives Rearranges SameExceptions)

variable {a b : Arguments} {c : Config} {words words' names : List String} {n : String}

/-! ## Denied names -/

theorem mem_denied_foldl_deny (names : List String) (p : Policy) :
    n ∈ (names.foldl Policy.deny p).denied ↔ n ∈ p.denied ∨ n ∈ names := by
  induction names generalizing p with
  | nil => simp
  | cons m names ih => rw [List.foldl_cons, ih, Policy.deny, OrderedSet.mem_insert, or_assoc,
      List.mem_cons]

theorem denied_foldl_force (names : List String) (p : Policy) :
    (names.foldl Policy.force p).denied = p.denied := by
  induction names generalizing p with
  | nil => rfl
  | cons m names ih => rw [List.foldl_cons, ih, Policy.force]

/-- The names that are denied before the command line denies any. -/
def baseDenied (a : Arguments) (c : Config) : List String :=
  match c.policy with
  | some p => p.denylist
  | none => if a.noDefaultPolicy then [] else Policy.standard.denied.toList

/-- **A name is denied by the command line, or by the configuration or the standard policy.** -/
theorem mem_denied_buildPolicy :
    n ∈ (buildPolicy a c).denied ↔ n ∈ baseDenied a c ∨ n ∈ a.deny := by
  rw [buildPolicy, denied_foldl_force, mem_denied_foldl_deny, baseDenied]
  refine or_congr_left ?_
  cases c.policy with
  | some p => exact OrderedSet.mem_ofList
  | none => cases a.noDefaultPolicy <;> exact Iff.rfl

/-! ## The result -/

/-- The exceptions that are made before the command line adds its own: those of the configuration,
or else none or the standard ones. -/
def baseExceptions (words : List String) (c : Config) : PolicyConfig :=
  match c.policy with
  | some p => p
  | none =>
    if "--no-default-policy" ∈ words.takeWhile (· != "--") then ⟨[], []⟩
    else ⟨["_VInputParsingError_"], ["Common_GovernmentId"]⟩

theorem baseExceptions_eq (h : Arguments.parse words = .ok a) (c : Config) :
    baseExceptions words c = ⟨baseDenied a c, baseForced a c⟩ := by
  rw [baseExceptions, baseDenied, baseForced]
  cases c.policy with
  | some p => rfl
  | none =>
    by_cases hword : "--no-default-policy" ∈ words.takeWhile (· != "--")
    · simp only [hword, (Arguments.noDefaultPolicy_iff h).2 hword, if_true]
    · simp only [hword, mt (Arguments.noDefaultPolicy_iff h).1 hword, if_false]
      rfl

theorem mem_canonicalizeTexts_of_parse (h : Arguments.parse words = .ok a) :
    n ∈ canonicalizeTexts (buildPolicy a c) names ↔
      ((∃ text ∈ names, canonicalText? text = some n) ∧ n ∉ (baseExceptions words c).denylist ∧
        ¬ Gives "--deny" n words) ∨
      n ∈ (baseExceptions words c).forcedInclude ∨ Gives "--include" n words := by
  have hdeny : n ∈ a.deny ↔ Gives "--deny" n words :=
    Arguments.mem_values_iff (o := .deny) h nofun
  have hinclude : n ∈ a.includes ↔ Gives "--include" n words :=
    Arguments.mem_values_iff (o := .includes) h nofun
  rw [mem_canonicalizeTexts, mem_denied_buildPolicy, mem_forced_buildPolicy, not_or, hdeny,
    hinclude, baseExceptions_eq h]

/-- The result does not depend on the order of the exceptions, nor on their number. -/
theorem sameElements_of_sameExceptions (h : SameExceptions a b) (c : Config)
    (names : List String) :
    (canonicalizeTexts (buildPolicy b c) names).sameElements
      (canonicalizeTexts (buildPolicy a c) names) = true := by
  have hdeny (n : String) : n ∈ b.deny ↔ n ∈ a.deny := h.values .deny nofun n
  have hinclude (n : String) : n ∈ b.includes ↔ n ∈ a.includes := h.values .includes nofun n
  have hbase : b.noDefaultPolicy = a.noDefaultPolicy := by rw [h.rest]
  refine OrderedSet.sameElements_iff.2 fun n ↦ ?_
  rw [mem_canonicalizeTexts, mem_canonicalizeTexts, mem_denied_buildPolicy,
    mem_denied_buildPolicy, mem_forced_buildPolicy, mem_forced_buildPolicy, hdeny, hinclude,
    baseDenied, baseDenied, baseForced, baseForced, hbase]

/-- **The exceptions of a run.**  The result has the reduced forms of the names, without those that
are denied by the configuration, or else the standard policy, or by a word of the command line; and
then the names that are forced, from wherever.  A command line whose options for exceptions have
been moved, mixed or repeated is accepted too, and has the same result. -/
theorem mem_canonicalizeTexts_buildPolicy (h : Arguments.parse words = .ok a) :
    (∀ c names n, n ∈ canonicalizeTexts (buildPolicy a c) names ↔
      ((∃ text ∈ names, canonicalText? text = some n) ∧ n ∉ (baseExceptions words c).denylist ∧
        ¬ Gives "--deny" n words) ∨
      n ∈ (baseExceptions words c).forcedInclude ∨ Gives "--include" n words) ∧
    ∀ words', Relation.EqvGen Rearranges words words' →
      ∃ b, Arguments.parse words' = .ok b ∧ ∀ c names,
        (canonicalizeTexts (buildPolicy b c) names).sameElements
          (canonicalizeTexts (buildPolicy a c) names) = true := by
  refine ⟨fun c names n ↦ mem_canonicalizeTexts_of_parse h, fun words' hwords ↦ ?_⟩
  obtain ⟨b, hb, hsame⟩ := (Arguments.sameExceptions_of_rearranges hwords).1 a h
  exact ⟨b, hb, fun c names ↦ sameElements_of_sameExceptions hsame c names⟩

/-- The arguments of a command line that denies and forces one name. -/
def deniedAndForced : Arguments :=
  { Arguments.empty with
    schema := some "s", documents := some "d", deny := ["A"], includes := ["A"] }

/-- The option that denies the name is moved to another place, and the name is forced still. -/
theorem mem_canonicalizeTexts_buildPolicy_moved :
    "A" ∈ canonicalizeTexts (buildPolicy deniedAndForced .empty) ["B2"] ∧
    ∃ b, Arguments.parse ["s", "d", "--deny", "A", "--include=A"] = .ok b ∧
      (canonicalizeTexts (buildPolicy b .empty) ["B2"]).sameElements
        (canonicalizeTexts (buildPolicy deniedAndForced .empty) ["B2"]) = true := by
  have hparse : Arguments.parse ["s", "--deny", "A", "d", "--include=A"] = .ok deniedAndForced := by
    decide +kernel
  have hs : Arguments.IsComplete ["s"] :=
    ⟨by decide, { Arguments.empty with schema := some "s" }, by decide +kernel⟩
  have hsd : Arguments.IsComplete ["s", "d"] :=
    ⟨by decide, { Arguments.empty with schema := some "s", documents := some "d" },
      by decide +kernel⟩
  have hmove : Rearranges (["s"] ++ ["--deny", "A"] ++ ["d"] ++ ["--include=A"])
      (["s"] ++ ["d"] ++ ["--deny", "A"] ++ ["--include=A"]) :=
    .move (o := .deny) hs hsd nofun (.next (by simp [Arguments.IsPlain]))
  have hgives : Gives "--include" "A" ["s", "--deny", "A", "d", "--include=A"] :=
    .later (by decide) (.later (by decide) (.later (by decide) (.later (by decide) (.own []))))
  obtain ⟨hmem, hsame⟩ := mem_canonicalizeTexts_buildPolicy hparse
  obtain ⟨b, hb, hsame⟩ := hsame _ (.rel _ _ hmove)
  exact ⟨(hmem _ _ _).2 (.inr (.inr hgives)), b, hb, hsame _ _⟩

end TypeFootprint
