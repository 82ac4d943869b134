import DeclaredSchema.CommandLine.Run
import DeclaredSchema.Proofs.Compilation.Defaults
import DeclaredSchema.Proofs.Compilation.Names
import DeclaredSchema.Proofs.Declaration.Numerals
import DeclaredSchema.Proofs.Extraction.Ending

/-!
# Which errors are reported

An error of a compilation is reported as a fault of the file, and then a command ends with its
message and an exit code. Three things in a file lead to an error that is not: a number that is
scanned and cannot be read, a name for a type that is no name, and an array of itself. Whatever the
file is, nothing else in it does, if the factory of scalars does not fail. What is left out is that
calls can only be nested so deep: a text that is nested deeper still can end any step from outside.

## Main definitions

* `Escapes` — the errors that are not reported, with what leads to them

## Main results

* `error_boundary` — what a compilation ends with, and what a command says then
* `escapes_superscriptText` — a digit that is no decimal one escapes
-/

namespace DeclaredSchema

open Synthesis Extraction CommandLine

/-- The errors that are not reported, each with what there is in the text that leads to it. -/
inductive Escapes (source : String) (options : CompileOptions) : CompileError → Prop
  | numeral {ts : List Token} {t : Token} {f : NumeralFault} (hscan : scan source = .ok ts)
      (ht : t ∈ ts) (hunread : OfTokens.IsUnread f t) : Escapes source options (.numeral f)
  | name {file : SourceUnit} {given : String} {mode : Mode} {f : NameFault}
      (hparse : SourceUnit.parse source = .ok file)
      (hgiven : IsGiven ⟨file.declarations, options.unionsAsEnums⟩ given)
      (hname : isName given = false) (hcheck : checkName (given ++ ending mode) = .error f) :
      Escapes source options (.synthesis (.name f))
  | array {file : SourceUnit} (hparse : SourceUnit.parse source = .ok file)
      (harray : HasEndlessArray ⟨file.declarations, options.unionsAsEnums⟩) :
      Escapes source options (.extraction .endless)

variable {label source : String} {options : CompileOptions} {e : CompileError} {file : SourceUnit}

/-- An extraction that does not end has an array that does not. -/
theorem hasEndlessArray_of_extract {unionsAsEnums : Bool}
    (h : extract unionsAsEnums file = .error .endless) :
    HasEndlessArray ⟨file.declarations, unionsAsEnums⟩ := by
  by_contra hends
  rw [extract_eq_extractWithin] at h
  exact extractWithin_ne_endless hends (Nat.le_refl _) h

/-- **Every error** is reported, or it is one of those that escape. -/
theorem isReported_or_escapes
    (hfactory : ∀ make, options.factory = some make → ∀ p f, make p ≠ .error f)
    (h : compile label source options = .error e) :
    e.isReported = true ∨ Escapes source options e := by
  cases hparse : SourceUnit.parse source with
  | error fault =>
    rw [compile, compilation, hparse] at h
    obtain rfl := Except.error.inj h
    cases fault with
    | scan | parse => exact .inl rfl
    | numeral f =>
      obtain ⟨ts, t, hscan, ht, hunread⟩ := isUnread_of_parse hparse
      exact .inr (.numeral hscan ht hunread)
  | ok file =>
    rw [compile_of_parse hparse] at h
    cases hextract : extract options.unionsAsEnums file with
    | error fault =>
      rw [hextract] at h
      obtain rfl := Except.error.inj h
      cases fault with
      | declaration => exact .inl rfl
      | endless => exact .inr (.array hparse (hasEndlessArray_of_extract hextract))
    | ok g =>
      obtain ⟨outcome, d, hsynthesis, -, hend⟩ :=
        synthesis_traced g ((List.range g.length).map .node) options (Nat.le_refl _)
      simp only [hextract, hsynthesis] at h
      cases outcome with
      | ok schema => cases h
      | error fault =>
        obtain rfl := Except.error.inj h
        cases fault with
        | descriptor => exact .inl rfl
        | name f =>
          obtain ⟨given, mode, hgiven, hname, hcheck⟩ :=
            exists_isGiven_of_refused hextract hfactory (hend.refused rfl)
          exact .inr (.name hparse hgiven hname hcheck)
        | endless => exact absurd rfl hend.ends

/-! ### Commands -/

section Run

variable {m : Type → Type} [Monad m] [LawfulMonad m] {access : FileAccess m} {command : Command}

/-- A command whose file cannot be compiled ends with the error. -/
theorem runCommand_of_error (verbose : Bool)
    (hread : access.read (Path.ofText command.file) = pure (.ok source))
    (hoptions : loadOptions access command.config? = pure (.ok options))
    (h : compile (Path.ofText command.file).text source options = .error e) :
    ∃ log, runCommand access verbose command = pure (CommandLine.failure log (.compile e)) := by
  refine ⟨logOf verbose (.compiling (Path.ofText command.file).text ::
    (compilation (Path.ofText command.file).text source options).events), ?_⟩
  have houtcome : (compilation (Path.ofText command.file).text source options).outcome =
    .error e := h
  simp [runCommand, hoptions, compileFile, hread, houtcome, Except.mapError]

end Run

/-- **The boundary of errors.** Whatever the text is and whatever the options are, if the factory of
scalars does not fail: a compilation gives a schema, or an error that is reported, or one of those
that escape. And a command whose file has this text gets the schema, or ends with exit code 1 after
it has written the message of the error, or the error escapes from it too. -/
theorem error_boundary (source : String) (options : CompileOptions)
    (hfactory : ∀ make, options.factory = some make → ∀ p f, make p ≠ .error f) :
    (∀ label, (∃ schema, compile label source options = .ok schema) ∨
      ∃ e, compile label source options = .error e ∧
        (e.isReported = true ∨ Escapes source options e)) ∧
    ∀ {m : Type → Type} [Monad m] [LawfulMonad m] (access : FileAccess m) (verbose : Bool)
      (command : Command), access.read (Path.ofText command.file) = pure (.ok source) →
      loadOptions access command.config? = pure (.ok options) →
      (∃ schema, compile (Path.ofText command.file).text source options = .ok schema) ∨
      ∃ e log, compile (Path.ofText command.file).text source options = .error e ∧
        (runCommand access verbose command =
            pure ⟨.exit 1, "", log ++ "Error: " ++ e.message ++ "\n"⟩ ∨
          Escapes source options e ∧
            runCommand access verbose command = pure ⟨.raised (.compile e), "", log⟩) := by
  have hboundary : ∀ label, (∃ schema, compile label source options = .ok schema) ∨
      ∃ e, compile label source options = .error e ∧
        (e.isReported = true ∨ Escapes source options e) := by
    intro label
    cases h : compile label source options with
    | ok schema => exact .inl ⟨schema, rfl⟩
    | error e => exact .inr ⟨e, rfl, isReported_or_escapes hfactory h⟩
  refine ⟨hboundary, fun access verbose command hread hoptions => ?_⟩
  refine (hboundary (Path.ofText command.file).text).imp_right ?_
  rintro ⟨e, h, hends⟩
  obtain ⟨log, hrun⟩ := runCommand_of_error verbose hread hoptions h
  refine ⟨e, log, h, ?_⟩
  by_cases hreported : (RunError.compile e).isReported = true
  · refine .inl ?_
    rw [hrun, CommandLine.failure, if_pos hreported]
    rfl
  · refine .inr ⟨hends.resolve_left hreported, ?_⟩
    rw [hrun, CommandLine.failure, if_neg hreported]

/-- A declaration that breaks off. -/
def brokenText : String := "type A"

/-- A directory in which all files break off. -/
def brokenAccess : FileAccess Id := ⟨fun _ => .ok brokenText, fun _ _ => .ok ()⟩

theorem error_boundary_brokenText :
    (∀ make, CompileOptions.standard.factory = some make → ∀ p f, make p ≠ .error f) ∧
    ∃ e log, compile "a.ts" brokenText .standard = .error e ∧
      runCommand brokenAccess false (.check "a.ts" none) =
        ⟨.exit 1, "", log ++ "Error: " ++ e.message ++ "\n"⟩ := by
  have hfactory : ∀ make, CompileOptions.standard.factory = some make → ∀ p f, make p ≠ .error f :=
    nofun
  have hpath : (Path.ofText "a.ts").text = "a.ts" := by decide +kernel
  have hcompile : compile "a.ts" brokenText .standard =
    .error (.parse "a.ts" ⟨.expected [.symbol .equals] "", ⟨1, 7⟩⟩) := by cbv
  refine ⟨hfactory, ?_⟩
  have hrun := (error_boundary brokenText .standard hfactory).2 brokenAccess false
    (.check "a.ts" none) rfl rfl
  rw [show (Command.check "a.ts" none).file = "a.ts" from rfl, hpath] at hrun
  rcases hrun with ⟨schema, hok⟩ | ⟨e, log, herror, hexit | ⟨hescapes, -⟩⟩
  · cases hcompile.symm.trans hok
  · exact ⟨e, log, herror, hexit⟩
  · cases hcompile.symm.trans herror
    cases hescapes

/-- An alias of a digit that is no decimal one. -/
def superscriptText : String := "type A = ²"

/-- An interface that has a name with a letter that is not among those of schemas. -/
def accentText : String := "interface Query { a: Été }\ninterface Été { b: string }"

set_option maxRecDepth 4000 in
theorem compile_accentText :
    compile "a.ts" accentText .standard = .error (.synthesis (.name (.badPart "Été"))) := by
  cbv

/-- The digit is scanned as a number, and the name is only checked after a type is made with it. The
errors of both are not reported, and a command ends without a message. -/
theorem escapes_superscriptText :
    compile "a.ts" superscriptText .standard = .error (.numeral (.notInteger 10 "²")) ∧
    CompileError.isReported (.numeral (.notInteger 10 "²")) = false ∧
    runCommand (m := Id) ⟨fun _ => .ok superscriptText, fun _ _ => .ok ()⟩ false
      (.check "a.ts" none) = ⟨.raised (.compile (.numeral (.notInteger 10 "²"))), "", ""⟩ ∧
    compile "a.ts" accentText .standard = .error (.synthesis (.name (.badPart "Été"))) ∧
    CompileError.isReported (.synthesis (.name (.badPart "Été"))) = false :=
  ⟨by cbv, rfl, by cbv, compile_accentText, rfl⟩

end DeclaredSchema
