import DeclaredSchema.CommandLine.Run
import Mathlib

/-!
# A command leaves nothing half done

Printing reads two files, compiles, and prints to a text before the one moment at which something
leaves the command: the text is written to a file, or it becomes the output. So a failure at any
earlier moment leaves all files as they were and the output empty, and what is delivered is the
whole text of the schema.

What is asked of the files is that reading changes nothing, and that the writing of the text
succeeds completely or changes nothing. A table of files is like that, unless the path leads to a
device, or the text has a half of a surrogate pair in it: then the file is emptied before the
writing fails.

## Main definitions

* `FileSystem` — files as commands use them, and as others see them
* `FileSystem.Compiles` — what a command finds in its files
* `FileSystem.Holds`, `FileSystem.WritesWhole` — what it is to write a text completely
* `PrintEnds` — how printing ends

## Main results

* `writesWhole_files` — when a table of files is written completely
* `print_whole_or_nothing` — printing delivers the whole text, or leaves everything as it was
-/

namespace DeclaredSchema

/-! ### Tables of files -/

namespace Files

variable {fs : Files} {p : Path} {l l' : Location} {text : String}

/-- A file that is put into a table is found there, and all other entries are found as before. -/
theorem lookup_put (entries : List (Location × Entry)) :
    (put l text entries).lookup l' =
      if l' = l then some (.file text) else entries.lookup l' := by
  induction entries with
  | nil =>
    by_cases h : l' = l
    · simp [put, h]
    · simp [put, h, List.lookup_cons, beq_eq_false_iff_ne.mpr h]
  | cons entry rest ih =>
    obtain ⟨place, old⟩ := entry
    by_cases hplace : place = l
    · by_cases h : l' = l
      · simp [put, hplace, h]
      · simp [put, hplace, h, List.lookup_cons, beq_eq_false_iff_ne.mpr h]
    · by_cases h : l' = place
      · have hne : l' ≠ l := h ▸ hplace
        simp [put, hplace, h]
      · simp [put, hplace, List.lookup_cons, beq_eq_false_iff_ne.mpr h, ih]

end Files

namespace CommandLine

/-! ### What stands in the files -/

/-- A system of files: how they are read and written, which place a path leads to, and what the file
at a place holds. -/
structure FileSystem (σ : Type) where
  access : FileAccess (StateM σ)
  place? : σ → Path → Option Location
  content? : σ → Location → Option String

/-- A table of files as a system. -/
def fileTable : FileSystem Files where
  access := Files.access
  place? fs p := (fs.locate p).toOption
  content? := Files.content?

namespace FileSystem

variable {σ : Type} (S : FileSystem σ) (fs : σ)

/-- The declaration file compiles to the schema, with the options of the configuration. -/
def Compiles (file : String) (config : Option OptionValue) (s : Schema) : Prop :=
  ∃ options source, ((loadOptions S.access config).run fs).1 = .ok options ∧
    ((S.access.read (Path.ofText file)).run fs).1 = .ok source ∧
    compile (Path.ofText file).text source options = .ok s

/-- In `fs'`, the file that the path leads to holds the text, and all others hold what they do in
`fs`. -/
def Holds (fs' : σ) (p : Path) (text : CodeText) : Prop :=
  ∃ l s, S.place? fs p = some l ∧ text.encode = .ok s ∧ S.content? fs' l = some s ∧
    ∀ l', l' ≠ l → S.content? fs' l' = S.content? fs l'

/-- Writing the text succeeds completely, or it fails and has no effect. -/
def WritesWhole (p : Path) (text : CodeText) : Prop :=
  ∀ outcome fs', (S.access.write p text).run fs = (outcome, fs') →
    outcome = .ok () ∧ S.Holds fs fs' p text ∨ (∃ fault, outcome = .error fault) ∧ fs' = fs

end FileSystem

theorem content?_replace {fs : Files} {l l' : Location} {text : String}
    (hdevice : ∀ full, fs.entry? l ≠ some (.device full)) :
    (fs.replace l text).content? l' = if l' = l then some text else fs.content? l' := by
  have hreplace : fs.replace l text = { fs with entries := Files.put l text fs.entries } := by
    unfold Files.replace
    split
    · next full hentry => exact absurd hentry (hdevice full)
    · rfl
  rw [hreplace, Files.content?, Files.entry?, Files.lookup_put]
  by_cases h : l' = l
  · simp [h]
  · simp [h, Files.content?, Files.entry?]

/-- **A table of files** is written completely or not at all, if the text can be encoded and the
path leads to no device. -/
theorem writesWhole_files {fs : Files} {p : Path} {text : CodeText} {s : String}
    (htext : text.encode = .ok s)
    (hdevice : ∀ l full, fs.locate p = .ok l → fs.entry? l ≠ some (.device full)) :
    fileTable.WritesWhole fs p text := by
  intro outcome fs' hwrite
  have hwrite : fs.write p text = (outcome, fs') := hwrite
  unfold Files.write at hwrite
  split at hwrite
  · next fault hlocate =>
    obtain ⟨rfl, rfl⟩ := Prod.mk.inj hwrite
    exact .inr ⟨⟨fault, rfl⟩, rfl⟩
  · next l hlocate =>
    have hnone := fun full => hdevice l full hlocate
    rw [htext] at hwrite
    simp only [if_neg (hnone true)] at hwrite
    obtain ⟨rfl, rfl⟩ := Prod.mk.inj hwrite
    have hplace : fileTable.place? fs p = some l := by
      simp only [fileTable, hlocate, Except.toOption]
    refine .inl ⟨rfl, l, s, hplace, htext, ?_, fun l' hl' => ?_⟩
    · exact (content?_replace hnone).trans (if_pos rfl)
    · exact (content?_replace hnone).trans (if_neg hl')

/-- A text that cannot be encoded is no such text: a file is emptied before its writing fails. -/
theorem not_writesWhole_files {fs : Files} {p : Path} {text : CodeText} {fault : EncodingFault}
    {l : Location} {old : String} (htext : text.encode = .error fault) (hl : fs.locate p = .ok l)
    (hold : fs.content? l = some old) (hne : old ≠ "") : ¬fileTable.WritesWhole fs p text := by
  intro h
  have hdevice : ∀ full, fs.entry? l ≠ some (.device full) := by
    intro full hentry
    rw [Files.content?, hentry] at hold
    cases hold
  have hwrite : fs.write p text = (.error (.unencodable fault), fs.replace l "") := by
    simp only [Files.write, hl, htext]
  rcases h _ _ hwrite with ⟨hok, -⟩ | ⟨-, hsame⟩
  · cases hok
  · have hempty : (fs.replace l "").content? l = some "" :=
      (content?_replace hdevice).trans (if_pos rfl)
    rw [hsame, hold] at hempty
    exact hne (Option.some.inj hempty)

/-! ### What commands do before they deliver -/

section Run

variable {σ : Type} {S : FileSystem σ} {fs : σ} {s : Schema}

/-- The first step of a run, when its end is known. -/
theorem run_bind_of_run {α β : Type} {x : StateM σ α} {f : α → StateM σ β} {a : α} {fs' : σ}
    (h : x.run fs = (a, fs')) : (x >>= f).run fs = (f a).run fs' := by
  rw [StateT.run_bind, h]
  rfl

theorem run_compileFile {p : Path} {source : String} (options : CompileOptions)
    (h : (S.access.read p).run fs = (.ok source, fs)) :
    (compileFile S.access p options).run fs =
      (((compile p.text source options).mapError .compile,
        .compiling p.text :: (compilation p.text source options).events), fs) := by
  rw [compileFile, run_bind_of_run h]
  rfl

theorem run_compileFile_of_fault {p : Path} {fault : FileFault} (options : CompileOptions)
    (h : (S.access.read p).run fs = (.error fault, fs)) :
    (compileFile S.access p options).run fs = ((.error (.unreadable p fault), []), fs) := by
  rw [compileFile, run_bind_of_run h]
  rfl

variable (verbose : Bool) (command : Command) (hread : ∀ p, ((S.access.read p).run fs).2 = fs)

include hread

theorem run_loadOptions (config : Option OptionValue) :
    ((loadOptions S.access config).run fs).2 = fs := by
  match config with
  | none | some .nothing => rfl
  | some (.text file) =>
    have hfile := hread (Path.ofText file)
    rcases hrun : (S.access.read (Path.ofText file)).run fs with ⟨r, fs'⟩
    rw [hrun] at hfile
    obtain rfl : fs' = fs := hfile
    rw [loadOptions, loadConfig, run_bind_of_run hrun]
    split <;> rfl

/-- A command whose files compile goes on with the schema. -/
theorem runCommand_of_compiles (h : S.Compiles fs command.file command.config? s) :
    ∃ log, (runCommand S.access verbose command).run fs =
      (finish S.access log command s).run fs := by
  obtain ⟨options, source, hoptions, hsource, hcompile⟩ := h
  have hload : (loadOptions S.access command.config?).run fs = (.ok options, fs) :=
    Prod.ext hoptions (run_loadOptions hread _)
  have hfile : (S.access.read (Path.ofText command.file)).run fs = (.ok source, fs) :=
    Prod.ext hsource (hread _)
  have hcompiled := run_compileFile options hfile
  rw [hcompile] at hcompiled
  rw [runCommand, run_bind_of_run hload]
  exact ⟨_, run_bind_of_run hcompiled⟩

/-- A command whose files do not compile ends with an error. -/
theorem runCommand_of_not_compiles (h : ∀ s, ¬S.Compiles fs command.file command.config? s) :
    ∃ log e, (runCommand S.access verbose command).run fs = (failure log e, fs) := by
  cases hoptions : ((loadOptions S.access command.config?).run fs).1 with
  | error e =>
    have hload : (loadOptions S.access command.config?).run fs = (.error e, fs) :=
      Prod.ext hoptions (run_loadOptions hread _)
    exact ⟨"", e, by rw [runCommand, run_bind_of_run hload]; rfl⟩
  | ok options =>
    have hload : (loadOptions S.access command.config?).run fs = (.ok options, fs) :=
      Prod.ext hoptions (run_loadOptions hread _)
    -- whatever ends the compilation ends the command
    have hfailed : ∀ e events, (compileFile S.access (Path.ofText command.file) options).run fs =
        ((.error e, events), fs) →
        ∃ log e, (runCommand S.access verbose command).run fs = (failure log e, fs) := by
      intro e events he
      rw [runCommand, run_bind_of_run hload]
      exact ⟨_, e, run_bind_of_run he⟩
    cases hsource : ((S.access.read (Path.ofText command.file)).run fs).1 with
    | error fault =>
      exact hfailed _ _ (run_compileFile_of_fault options (Prod.ext hsource (hread _)))
    | ok source =>
      have hcompiled := run_compileFile options (Prod.ext hsource (hread _))
      cases hcompile : compile (Path.ofText command.file).text source options with
      | error e =>
        rw [hcompile] at hcompiled
        exact hfailed _ _ hcompiled
      | ok s => exact absurd ⟨options, source, hoptions, hsource, hcompile⟩ (h s)

end Run

/-! ### How printing ends -/

/-- How printing ends: it fails, and leaves no output and all files as they were; it shows the text
of the schema, and changes no file; or it writes the text to a file, and changes no other one. -/
inductive PrintEnds {σ : Type} (S : FileSystem σ) (fs : σ) (file : String)
    (config output : Option OptionValue) : Outcome → σ → Prop
  | failed {ending : Ending} {errors : CodeText}
      (hending : ending = .exit 1 ∨ ∃ e, ending = .raised e) :
      PrintEnds S fs file config output ⟨ending, "", errors⟩ fs
  | shown {s : Schema} {text errors : CodeText} (hcompiles : S.Compiles fs file config s)
      (hprint : s.print = .ok text) (houtput : output = none) :
      PrintEnds S fs file config output ⟨.exit 0, text ++ "\n", errors⟩ fs
  | written {s : Schema} {text report errors : CodeText} {name : String} {fs' : σ}
      (hcompiles : S.Compiles fs file config s) (hprint : s.print = .ok text)
      (houtput : output = some (.text name))
      (hholds : S.Holds fs fs' (Path.ofText name) (text ++ "\n")) :
      PrintEnds S fs file config output ⟨.exit 0, report, errors⟩ fs'

section Ends

variable {σ : Type} {S : FileSystem σ} {fs fs' : σ} {file : String}
  {config output : Option OptionValue} {s : Schema} {text : CodeText} {outcome : Outcome}

theorem printEnds_failure (log : String) (e : RunError) :
    PrintEnds S fs file config output (failure log e) fs := by
  unfold failure
  split
  · exact .failed (.inl rfl)
  · exact .failed (.inr ⟨e, rfl⟩)

theorem PrintEnds.compiles (h : PrintEnds S fs file config output outcome fs')
    (hexit : outcome.ending = .exit 0) : ∃ s, S.Compiles fs file config s := by
  cases h with
  | failed hending =>
    rcases hending with rfl | ⟨e, rfl⟩ <;> cases hexit
  | shown hcompiles | written hcompiles => exact ⟨_, hcompiles⟩

theorem run_deliver_of_write {log : String} {name : String}
    (h : (S.access.write (Path.ofText name) text).run fs = (.ok (), fs')) :
    (deliver S.access log text (some (.text name))).run fs =
      (success log s!"Wrote schema to '{(Path.ofText name).text}'.\n", fs') :=
  run_bind_of_run h

/-- A text that is delivered is delivered completely. -/
theorem printEnds_deliver (log : String) (hcompiles : S.Compiles fs file config s)
    (hprint : s.print = .ok text)
    (hwrite : ∀ name, output = some (.text name) →
      S.WritesWhole fs (Path.ofText name) (text ++ "\n")) :
    ∃ outcome fs', (deliver S.access log (text ++ "\n") output).run fs = (outcome, fs') ∧
      PrintEnds S fs file config output outcome fs' := by
  match output with
  | none => exact ⟨_, fs, rfl, .shown hcompiles hprint rfl⟩
  | some .nothing => exact ⟨_, fs, rfl, printEnds_failure log .noPath⟩
  | some (.text name) =>
    rcases hrun : (S.access.write (Path.ofText name) (text ++ "\n")).run fs with ⟨r, fs'⟩
    rcases hwrite name rfl r fs' hrun with ⟨rfl, hholds⟩ | ⟨⟨fault, rfl⟩, rfl⟩
    · exact ⟨_, fs', run_deliver_of_write hrun, .written hcompiles hprint rfl hholds⟩
    · exact ⟨_, fs', run_bind_of_run hrun, printEnds_failure log _⟩

end Ends

/-- **Printing delivers the whole text, or leaves everything as it was.** Whatever the files are, if
reading them has no effect, and if the writing that the command comes to succeeds completely or has
no effect. And a command that checks the same files succeeds if printing does. -/
theorem print_whole_or_nothing {σ : Type} (S : FileSystem σ) (fs : σ) (args : List String)
    (verbose : Bool) (file : String) (config output : Option OptionValue)
    (hargs : Invocation.ofArguments args = .run verbose (.print file config output))
    (hread : ∀ p, ((S.access.read p).run fs).2 = fs)
    (hwrite : ∀ name s text, output = some (.text name) → S.Compiles fs file config s →
      s.print = .ok text → S.WritesWhole fs (Path.ofText name) (text ++ "\n")) :
    ∃ outcome fs', (runProgram S.access args).run fs = (outcome, fs') ∧
      PrintEnds S fs file config output outcome fs' ∧
      (outcome.ending = .exit 0 → ∀ args' verbose',
        Invocation.ofArguments args' = .run verbose' (.check file config) →
        ∃ checked, (runProgram S.access args').run fs = (checked, fs) ∧
          checked.ending = .exit 0) := by
  have hchecks : (∃ s, S.Compiles fs file config s) → ∀ args' verbose',
      Invocation.ofArguments args' = .run verbose' (.check file config) →
      ∃ checked, (runProgram S.access args').run fs = (checked, fs) ∧
        checked.ending = .exit 0 := by
    rintro ⟨s, hcompiles⟩ args' verbose' hargs'
    obtain ⟨log, hrun⟩ := runCommand_of_compiles verbose' (.check file config) hread hcompiles
    simp only [runProgram, hargs', hrun]
    exact ⟨_, rfl, rfl⟩
  simp only [runProgram, hargs]
  by_cases hcompiles : ∃ s, S.Compiles fs file config s
  · obtain ⟨s, hs⟩ := hcompiles
    obtain ⟨log, hrun⟩ := runCommand_of_compiles verbose (.print file config output) hread hs
    rw [hrun]
    cases hprint : s.print with
    | error fault =>
      refine ⟨failure log (.value fault), fs, ?_, printEnds_failure log _, fun _ => hchecks ⟨s, hs⟩⟩
      simp only [finish, hprint]
      rfl
    | ok text =>
      obtain ⟨outcome, fs', hdeliver, hends⟩ := printEnds_deliver log hs hprint
        fun name houtput => hwrite name s text houtput hs hprint
      refine ⟨outcome, fs', ?_, hends, fun _ => hchecks ⟨s, hs⟩⟩
      simp only [finish, hprint]
      exact hdeliver
  · obtain ⟨log, e, hrun⟩ := runCommand_of_not_compiles verbose (.print file config output) hread
      fun s hs => hcompiles ⟨s, hs⟩
    have hends : PrintEnds S fs file config output (failure log e) fs := printEnds_failure log e
    exact ⟨failure log e, fs, hrun, hends, fun hexit => hchecks (hends.compiles hexit)⟩

/-- A directory with one declaration file. -/
def pointFiles : Files :=
  .ofList ["home"] [(["home", "api.ts"], "interface Query { a: Int }")]

/-- The schema of that file. -/
def pointSchema : Schema where
  query := some "Query"
  mutation := none
  types := [⟨"Query", none, .object [⟨"a", .nonNull (.named "Int"), [], none⟩]⟩]

/-- The text of that schema. -/
def pointText : String := "type Query \x7b\n  a: Int!\n\x7d"

set_option maxRecDepth 4000 in
theorem compile_pointFiles :
    compile "api.ts" "interface Query { a: Int }" .standard = .ok pointSchema := by
  cbv

theorem print_pointSchema : pointSchema.print = .ok (CodeText.ofString pointText) := by
  cbv

theorem encode_pointText :
    (CodeText.ofString pointText ++ CodeText.ofString "\n").encode = .ok (pointText ++ "\n") := by
  decide +kernel

theorem compiles_pointFiles (s : Schema) :
    fileTable.Compiles pointFiles "api.ts" none s ↔ s = pointSchema := by
  have hpath : (Path.ofText "api.ts").text = "api.ts" := by decide +kernel
  have hsource : ((fileTable.access.read (Path.ofText "api.ts")).run pointFiles).1 =
      .ok "interface Query { a: Int }" :=
    show pointFiles.read (Path.ofText "api.ts") = _ by decide +kernel
  constructor
  · rintro ⟨options, source, hoptions, hread, hcompile⟩
    obtain rfl : CompileOptions.standard = options := Except.ok.inj hoptions
    obtain rfl : "interface Query { a: Int }" = source := Except.ok.inj (hsource.symm.trans hread)
    rw [hpath, compile_pointFiles] at hcompile
    exact (Except.ok.inj hcompile).symm
  · rintro rfl
    exact ⟨.standard, _, rfl, hsource, hpath ▸ compile_pointFiles⟩

theorem locate_pointFiles :
    pointFiles.locate (Path.ofText "out.graphql") = .ok ["home", "out.graphql"] ∧
      pointFiles.entry? ["home", "out.graphql"] = none := by
  decide +kernel

theorem write_pointText :
    (fileTable.access.write (Path.ofText "out.graphql") (pointText ++ "\n")).run pointFiles =
      (.ok (), pointFiles.replace ["home", "out.graphql"] (pointText ++ "\n")) := by
  have h : pointFiles.write (Path.ofText "out.graphql") (pointText ++ "\n") =
      (.ok (), pointFiles.replace ["home", "out.graphql"] (pointText ++ "\n")) := by
    simp [Files.write, locate_pointFiles, encode_pointText]
  exact h

theorem writesWhole_pointFiles {name : String} {s : Schema} {text : CodeText}
    (hname : some (OptionValue.text "out.graphql") = some (.text name))
    (hs : fileTable.Compiles pointFiles "api.ts" none s) (hprint : s.print = .ok text) :
    fileTable.WritesWhole pointFiles (Path.ofText name) (text ++ "\n") := by
  cases hname
  obtain rfl := (compiles_pointFiles s).mp hs
  obtain rfl := Except.ok.inj (print_pointSchema.symm.trans hprint)
  refine writesWhole_files encode_pointText fun l full hl hdevice => ?_
  cases locate_pointFiles.1.symm.trans hl
  cases locate_pointFiles.2.symm.trans hdevice

/-- The text of the schema is written to a file, and checking the declarations succeeds as well. -/
theorem print_whole_or_nothing_pointFiles :
    ∃ outcome fs', (runProgram fileTable.access ["print", "api.ts", "-o", "out.graphql"]).run
        pointFiles = (outcome, fs') ∧
      PrintEnds fileTable pointFiles "api.ts" none (some (.text "out.graphql")) outcome fs' ∧
      outcome.ending = .exit 0 ∧
      ∃ checked, (runProgram fileTable.access ["check", "api.ts"]).run pointFiles =
        (checked, pointFiles) ∧ checked.ending = .exit 0 := by
  have hargs : Invocation.ofArguments ["print", "api.ts", "-o", "out.graphql"] =
      .run false (.print "api.ts" none (some (.text "out.graphql"))) := by decide +kernel
  have hcheck : Invocation.ofArguments ["check", "api.ts"] = .run false (.check "api.ts" none) := by
    decide +kernel
  obtain ⟨outcome, fs', hrun, hends, hchecks⟩ :=
    print_whole_or_nothing fileTable pointFiles _ _ _ _ _ hargs (fun _ => rfl)
      fun _ _ _ => writesWhole_pointFiles
  have hexit : outcome.ending = .exit 0 := by
    have hcompiles := (compiles_pointFiles pointSchema).mpr rfl
    obtain ⟨log, hcommand⟩ := runCommand_of_compiles false
      (.print "api.ts" none (some (.text "out.graphql"))) (fun _ => rfl) hcompiles
    have hfinish : (finish fileTable.access log
        (.print "api.ts" none (some (.text "out.graphql"))) pointSchema) =
        deliver fileTable.access log (pointText ++ "\n") (some (.text "out.graphql")) := by
      simp only [finish, print_pointSchema]
    rw [hfinish, run_deliver_of_write write_pointText] at hcommand
    rw [runProgram, hargs] at hrun
    exact congrArg (fun ended => ended.1.ending) (hrun.symm.trans hcommand)
  exact ⟨outcome, fs', hrun, hends, hexit, hchecks hexit _ false hcheck⟩

end CommandLine

end DeclaredSchema
