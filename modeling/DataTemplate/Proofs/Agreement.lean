/-
Checking a document and building it agree.  A check reads under the policy that goes on, and a build
that is asked to fail reads under the policy that fails; otherwise the two tasks take the same
options from the same files.  A verbose check writes one line of its log in front of its diagnostics,
and a verbose build that is refused writes none.  Main statement: `Desk.check_agrees_with_build`.
-/
import DataTemplate.Proofs.DeskRuns
import DataTemplate.Proofs.Policies
import DataTemplate.Proofs.ProblemOrder

namespace DataTemplate

variable {σ : Type}

/-! ### One text under two policies -/

/-- The problems of a document stand in the order of the text. -/
theorem readDocument_problems_sorted {options : ReadOptions} {hooks : Hooks σ} {state : σ}
    {source : List Char} {document : Document}
    (h : (readDocument options hooks state source).1 = .ok document) :
    document.problems.Pairwise fun p q => p.position ≤ q.position := by
  have hnoted := notedSession_reported options hooks state source
  have hread := readDocument_read options hooks state source
  generalize readDocument options hooks state source = outcome at hread h
  cases hread with
  | asValue =>
    obtain rfl := Except.ok.inj h
    refine hnoted.ordered.imp ?_
    rintro p q (hlt | ⟨hp, hq⟩)
    · exact Nat.le_of_lt hlt
    · exact Nat.le_of_eq (hp.trans hq.symm)
  | asString =>
    obtain rfl := Except.ok.inj h
    exact .nil
  | failed => simp at h

/-- A text either compiles, and is then read without problems, or has problems of which the first is
why it does not compile. -/
theorem compile_or_parse (options : ReadOptions) (rendering : RenderOptions) (source : String) :
    ∃ document, parse (options.under .recover) source = .ok document ∧
      ((document.problems = [] ∧
          ∃ body, compile ⟨options.under .fail, rendering⟩ source = .ok ⟨document, body⟩) ∨
        ∃ problem more, document.problems = problem :: more ∧
          compile ⟨options.under .fail, rendering⟩ source = .error problem) := by
  have hverdict := readDocument_verdict options ({} : Hooks Unit) () source.toList
  unfold parse compile compileWith
  cases hverdict with
  | agree document hclean hrun =>
    have hfail := hrun .fail
    refine ⟨document, hrun .recover, .inl ⟨hclean, ?_⟩⟩
    generalize readDocument (options.under .fail) ({} : Hooks Unit) () source.toList = outcome
      at hfail
    obtain ⟨answer, read⟩ := outcome
    obtain rfl := hfail
    exact ⟨_, rfl⟩
  | @differ problem stopped recovered string text hfail hstop hstopped hrecover hrecovered =>
    obtain ⟨more, hproblems⟩ := List.head?_eq_some_iff.mp hrecovered
    refine ⟨recovered, hrecover, .inr ⟨problem, more, hproblems, ?_⟩⟩
    generalize readDocument (options.under .fail) ({} : Hooks Unit) () source.toList = outcome
      at hfail
    obtain ⟨answer, read⟩ := outcome
    obtain rfl := hfail
    rfl

namespace Command

/-! ### The log of one text -/

section Events

variable {options : ReadOptions} {source : List Char}

/-- A reading that comes to nothing but a problem logs nothing. -/
theorem readingEvents_of_error {problem : Problem}
    (h : (readDocument options ({} : Hooks Unit) () source).1 = .error problem) :
    readingEvents options source = [] := by
  have hread := readDocument_read options ({} : Hooks Unit) () source
  unfold readingEvents
  generalize readDocument options ({} : Hooks Unit) () source = outcome at hread h ⊢
  cases hread with
  | asValue | asString => cases h
  | failed hkeeps => simp [hkeeps]

/-- A reading that leaves problems in its document logs how many, and nothing else. -/
theorem readingEvents_of_problems {document : Document}
    (h : (readDocument options ({} : Hooks Unit) () source).1 = .ok document)
    (hproblems : document.problems ≠ []) : readingEvents options source =
      [.partialResult document.problems.length options.onError] := by
  have hread := readDocument_read options ({} : Hooks Unit) () source
  unfold readingEvents
  generalize readDocument options ({} : Hooks Unit) () source = outcome at hread h ⊢
  cases hread with
  | asValue hkeeps =>
    obtain rfl := Except.ok.inj h
    have hsome := List.isEmpty_eq_false_iff.mpr hproblems
    simp [hkeeps, hsome]
  | asString =>
    obtain rfl := Except.ok.inj h
    exact absurd rfl hproblems
  | failed => cases h

/-- A compilation that is refused logs nothing. -/
theorem compilingLog_of_error {options : CompileOptions} {source : String} {problem : Problem}
    (h : compile options source = .error problem) : compilingLog options source = [] := by
  have hread : (readDocument options.reading ({} : Hooks Unit) () source.toList).1 =
      .error problem := by
    unfold compile compileWith at h
    split at h
    · rename_i other read hread
      rw [hread]
      exact congrArg Except.error (Except.error.inj h)
    · cases h
  simp [compilingLog, readingLog, readingEvents_of_error hread, h]

end Events

variable {desk : Desk} {task check build : Task} {options : CompileOptions} {source : String}

/-! ### Tasks on a desk -/

namespace Desk

theorem fail_eq (desk : Desk) (lines : List String) :
    Desk.console.fail lines desk = (1, desk.told (linesText lines)) :=
  desk.fail_under {} lines

/-- The options that a task finds on a desk. -/
def optionsOf (desk : Desk) (task : Task) : Except Failure CompileOptions :=
  (task.readOptions Desk.console desk).1

/-- The source that a task finds on a desk. -/
def sourceOf (desk : Desk) (task : Task) : Except Failure String :=
  (task.readSource Desk.console desk).1

theorem optionsOf_eq_under (desk : Desk) (task : Task) :
    desk.optionsOf task = desk.optionsUnder {} task :=
  congrArg Prod.fst (desk.readOptions_under {} task)

theorem sourceOf_eq_under (desk : Desk) (task : Task) :
    desk.sourceOf task = desk.sourceUnder {} task :=
  congrArg Prod.fst (desk.readSource_under {} task)

theorem readOptions_eq (desk : Desk) (task : Task) :
    task.readOptions Desk.console desk = (desk.optionsOf task, desk) := by
  rw [optionsOf_eq_under]
  exact desk.readOptions_under {} task

theorem readSource_eq (desk : Desk) (task : Task) :
    task.readSource Desk.console desk = (desk.sourceOf task, desk) := by
  rw [sourceOf_eq_under]
  exact desk.readSource_under {} task

theorem runTask_eq (desk : Desk) (task : Task) : task.run Desk.console desk =
    match desk.optionsOf task, desk.sourceOf task with
    | .error failure, _ | .ok _, .error failure => (1, desk.told (linesText [failure.line]))
    | .ok options, .ok source => task.perform Desk.console options source desk := by
  rw [optionsOf_eq_under, sourceOf_eq_under]
  exact desk.runTask_under {} task

/-- A task can write the file that it is to write. -/
def Writes (desk : Desk) (task : Task) : Prop :=
  ∀ path, task.value? .output = some path → ∀ text, (desk.writeText path text).1 = .ok ()

theorem Writes.told (h : desk.Writes task) (text : String) : (desk.told text).Writes task := by
  intro path hpath body
  have hwrite := h path hpath body
  unfold writeText at hwrite ⊢
  rw [place_told]
  cases hplace : desk.place path <;> simp_all

theorem deliver_eq (h : desk.Writes task) (body : String) :
    (task.deliver Desk.console body desk).1 = 0 := by
  unfold Task.deliver
  cases hpath : task.value? .output with
  | none => rfl
  | some path =>
    have hwrite : Desk.console.writeText path (body ++ "\n") desk =
        (.ok (), (desk.writeText path (body ++ "\n")).2) :=
      Prod.ext (h path hpath (body ++ "\n")) rfl
    simp only
    rw [bind_eq hwrite]
    rfl

end Desk

/-! ### Checking and building -/

/-- A task that checks a document, and one that builds it under the policy that fails.  They have
the same path, and all other settings but the output file are the same too. -/
structure Task.SameButPolicy (check build : Task) : Prop where
  checks : check.verb = .check
  builds : build.verb = .build
  path_eq : build.path = check.path
  policy : build.value? .onError = some "throw"
  setting_eq : ∀ setting, setting ≠ .onError → setting ≠ .output →
    build.value? setting = check.value? setting

/-- The same options under the policy that fails. -/
def failing (options : CompileOptions) : CompileOptions :=
  ⟨options.reading.under .fail, options.rendering⟩

namespace Task.SameButPolicy

theorem override_eq (h : SameButPolicy check build) (options : CompileOptions) :
    build.override options = failing (check.override options) := by
  have hpolicy : (build.value? .onError).bind (fun name => ErrorPolicy.names.lookup name) =
      some .fail := by
    rw [h.policy]
    rfl
  simp only [Task.override, failing, ReadOptions.under, Task.has, hpolicy, Option.getD_some,
    h.setting_eq .loose (by decide) (by decide),
    h.setting_eq .emptyAsString (by decide) (by decide),
    h.setting_eq .ignoreRemainder (by decide) (by decide),
    h.setting_eq .stringFunction (by decide) (by decide),
    h.setting_eq .compact (by decide) (by decide), h.setting_eq .indent (by decide) (by decide)]
  rfl

theorem optionsOf_eq (h : SameButPolicy check build) (desk : Desk) :
    desk.optionsOf build = (desk.optionsOf check).map failing := by
  unfold Desk.optionsOf Task.readOptions
  rw [h.setting_eq .optionsFile (by decide) (by decide)]
  cases check.value? .optionsFile with
  | none => exact congrArg Except.ok (h.override_eq {})
  | some path =>
    have hbytes : Desk.console.readBytes path desk = (desk.readBytes path, desk) := rfl
    simp only
    rw [Desk.bind_eq hbytes, Desk.bind_eq hbytes]
    cases textOf (desk.readBytes path) with
    | error error => rfl
    | ok text =>
      show (optionsOfText path text).map build.override =
        ((optionsOfText path text).map check.override).map failing
      cases optionsOfText path text with
      | error failure => rfl
      | ok options => exact congrArg Except.ok (h.override_eq options)

theorem sourceOf_eq (h : SameButPolicy check build) (desk : Desk) :
    desk.sourceOf build = desk.sourceOf check := by
  unfold Desk.sourceOf Task.readSource
  rw [h.path_eq]

end Task.SameButPolicy

namespace Desk

theorem check_eq {document : Document}
    (h : parse (options.reading.under .recover) source = .ok document) :
    task.check Desk.console options source desk = if document.problems.isEmpty then
      (0, desk.told s!"OK: {task.path}\n") else
      (1, desk.told (linesText (task.diagnostics source document.problems))) := by
  have hparse : parse { options.reading with onError := .recover } source = .ok document := h
  unfold Task.check
  rw [hparse]
  cases hclean : document.problems.isEmpty with
  | true => simp only [hclean]; rfl
  | false => simp only [hclean]; exact fail_eq desk _

theorem build_refused {problem : Problem} (h : compile options source = .error problem) :
    task.build Desk.console options source desk =
      (1, desk.told (task.refusal source problem ++ "\n")) := by
  unfold Task.build
  rw [h]
  exact (fail_eq desk _).trans (by simp [linesText])

theorem build_clean {compiled : Compiled} (h : compile options source = .ok compiled)
    (hclean : compiled.document.problems = []) : task.build Desk.console options source desk =
      task.deliver Desk.console compiled.body desk := by
  unfold Task.build
  rw [h]
  simp only [hclean]
  rfl

/-- What a check on a desk logs of a source with problems. -/
def checkLog (desk : Desk) (check : Task) (source : String) (problems : List Problem) :
    List String :=
  if check.has .verbose then
    [desk.logLine ⟨[.reading source.utf8ByteSize], .partialResult problems.length .recover⟩]
  else []

theorem logged_check (hchecks : check.verb = .check) {document : Document}
    (h : parse (options.reading.under .recover) source = .ok document)
    (hproblems : document.problems ≠ []) : desk.logged check options source =
      desk.told (linesText (desk.checkLog check source document.problems)) := by
  have hevents := readingEvents_of_problems h hproblems
  have hreading : readingLog [] { options.reading with onError := .recover } source =
      [⟨[.reading source.utf8ByteSize], .partialResult document.problems.length .recover⟩] := by
    rw [readingLog]
    exact congrArg (List.map _) hevents
  rw [logged, Task.log, checkLog, hchecks]
  cases check.has .verbose with
  | true => simp only [if_true, hreading]; rfl
  | false => rfl

theorem logged_refused (hbuilds : build.verb = .build) {problem : Problem}
    (h : compile options source = .error problem) : desk.logged build options source = desk := by
  have hnothing : desk.told (linesText []) = desk := by simp [told, linesText]
  rw [logged, Task.log, hbuilds]
  simp [compilingLog_of_error h, hnothing]

/-- What the two tasks come to on one source: both succeed, or the document has problems.  The check
shows them all behind its log, and the build the first of them. -/
theorem perform_agree (h : check.SameButPolicy build) (hwrites : desk.Writes build)
    (options : CompileOptions) (source : String) :
    ∃ document, parse (options.reading.under .recover) source = .ok document ∧
      ((document.problems = [] ∧ (check.perform Desk.console options source desk).1 = 0 ∧
          (build.perform Desk.console (failing options) source desk).1 = 0) ∨
        ∃ problem more, document.problems = problem :: more ∧
          check.perform Desk.console options source desk = (1, desk.told (linesText
            (desk.checkLog check source document.problems ++
              check.diagnostics source document.problems))) ∧
          build.perform Desk.console (failing options) source desk = (1, desk.told
            ("Parse error: " ++ diagnostic check.path source.toList problem ++ "\n"))) := by
  obtain ⟨document, hparse, hcompile⟩ :=
    compile_or_parse options.reading options.rendering source
  have hcheck : check.perform Desk.console options source desk =
      check.check Desk.console options source (desk.logged check options source) := by
    have hperform := desk.perform_under {} check options source
    rwa [h.checks] at hperform
  have hbuild : build.perform Desk.console (failing options) source desk =
      build.build Desk.console (failing options) source
        (desk.logged build (failing options) source) := by
    have hperform := desk.perform_under {} build (failing options) source
    rwa [h.builds] at hperform
  refine ⟨document, hparse, ?_⟩
  rw [hcheck, hbuild, check_eq hparse]
  rcases hcompile with ⟨hclean, body, hbody⟩ | ⟨problem, more, hproblems, herror⟩
  · left
    refine ⟨hclean, ?_, ?_⟩
    · rw [hclean]
      rfl
    · have hbody' : compile (failing options) source = .ok ⟨document, body⟩ := hbody
      rw [build_clean hbody' hclean]
      exact deliver_eq (hwrites.told _) body
  · right
    have hsome : document.problems ≠ [] := by simp [hproblems]
    refine ⟨problem, more, hproblems, ?_, ?_⟩
    · rw [if_neg (by simp [hproblems]), logged_check h.checks hparse hsome, told_told,
        ← linesText_append]
    · have herror' : compile (failing options) source = .error problem := herror
      rw [logged_refused h.builds herror', build_refused herror', Task.refusal, h.path_eq]

theorem run_of_arguments {arguments : List String}
    (h : Request.ofArguments arguments = .ok (.run task)) (desk : Desk) :
    desk.run arguments = task.run Desk.console desk := by
  unfold run runArguments
  rw [h]

/-- Checking a document and building it under the policy that fails agree: one succeeds just if the
other does, if the output can be written.  Where they find options and a source and do not succeed,
the check reports one line for each problem of the reading that goes on, in the order of the text,
and the build reports the first of these lines.  In front of its lines a verbose check has logged that
there are problems; the build has logged nothing. -/
theorem check_agrees_with_build {checking building : List String}
    (hchecking : Request.ofArguments checking = .ok (.run check))
    (hbuilding : Request.ofArguments building = .ok (.run build))
    (hsame : check.SameButPolicy build) (hwrites : desk.Writes build) :
    ((desk.run checking).1 = 0 ↔ (desk.run building).1 = 0) ∧
      ∀ options source, check.readOptions Desk.console desk = (.ok options, desk) →
        check.readSource Desk.console desk = (.ok source, desk) → (desk.run checking).1 ≠ 0 →
        ∃ document problem more, parse (options.reading.under .recover) source = .ok document ∧
          document.problems = problem :: more ∧
          document.problems.Pairwise (fun p q => p.position ≤ q.position) ∧
          desk.run checking = (1, desk.told (linesText
            (desk.checkLog check source document.problems ++
              check.diagnostics source document.problems))) ∧
          desk.run building = (1, desk.told
            ("Parse error: " ++ diagnostic check.path source.toList problem ++ "\n")) := by
  rw [run_of_arguments hchecking, run_of_arguments hbuilding, runTask_eq, runTask_eq,
    hsame.optionsOf_eq, hsame.sourceOf_eq]
  constructor
  · cases desk.optionsOf check with
    | error failure => rfl
    | ok options =>
      cases desk.sourceOf check with
      | error failure => rfl
      | ok source =>
        obtain ⟨document, -, ⟨-, hcheck, hbuild⟩ | ⟨problem, more, -, hcheck, hbuild⟩⟩ :=
          perform_agree hsame hwrites options source
        · simp [Except.map, hcheck, hbuild]
        · simp [Except.map, hcheck, hbuild]
  · intro options source hoptions hsource hfails
    rw [readOptions_eq] at hoptions
    rw [readSource_eq] at hsource
    obtain ⟨hoptions, -⟩ := Prod.mk.inj hoptions
    obtain ⟨hsource, -⟩ := Prod.mk.inj hsource
    simp only [hoptions, hsource, Except.map] at hfails ⊢
    obtain ⟨document, hparse, ⟨-, hcheck, -⟩ | ⟨problem, more, hproblems, hcheck, hbuild⟩⟩ :=
      perform_agree hsame hwrites options source
    · exact absurd hcheck hfails
    · exact ⟨document, problem, more, hparse, hproblems, readDocument_problems_sorted hparse,
        hcheck, hbuild⟩

/-- A desk with one document, in which a comma and the last bracket are missing. -/
def unclosedDesk : Desk where
  files := [("a.txt", "[1 2".toUTF8)]
  input := .empty

theorem check_agrees_with_build_unclosed :
    ∃ document problem,
      parse { onError := .recover, loose := true } "[1 2" = .ok document ∧
      document.problems.head? = some problem ∧
      unclosedDesk.run ["--verbose", "check", "a.txt", "--on-error", "recover", "--loose"] =
        (1, unclosedDesk.told (linesText
          (LogEntry.line ⟨[.reading 4], .partialResult document.problems.length .recover⟩ ::
            document.problems.map (diagnostic "a.txt" "[1 2".toList)))) ∧
      unclosedDesk.run ["build", "--loose", "a.txt", "--on-error=throw", "-oa.js", "--verbose"] =
        (1, unclosedDesk.told
          ("Parse error: " ++ diagnostic "a.txt" "[1 2".toList problem ++ "\n")) := by
  let check : Task := ⟨.check, "a.txt", [(.verbose, ""), (.onError, "recover"), (.loose, "")]⟩
  let build : Task :=
    ⟨.build, "a.txt", [(.loose, ""), (.onError, "throw"), (.output, "a.js"), (.verbose, "")]⟩
  have hchecking : Request.ofArguments
      ["--verbose", "check", "a.txt", "--on-error", "recover", "--loose"] =
      .ok (.run check) := by rfl
  have hbuilding : Request.ofArguments
      ["build", "--loose", "a.txt", "--on-error=throw", "-oa.js", "--verbose"] =
      .ok (.run build) := by rfl
  have hsame : check.SameButPolicy build := {
    checks := rfl
    builds := rfl
    path_eq := rfl
    policy := rfl
    setting_eq := fun setting hpolicy houtput => by
      cases setting <;> first | rfl | contradiction }
  have hwrites : unclosedDesk.Writes build := by
    intro path hpath text
    obtain rfl : "a.js" = path := Option.some.inj hpath
    rfl
  have hsource : check.readSource Desk.console unclosedDesk = (.ok "[1 2", unclosedDesk) := by
    have hbytes : String.fromUTF8? "[1 2".toUTF8 = some "[1 2" := by decide +kernel
    have htext : textOf (unclosedDesk.readBytes "a.txt") = .ok "[1 2" := by
      show textOf (.ok "[1 2".toUTF8) = _
      rw [textOf, hbytes]
    have hread : Desk.console.readBytes check.path unclosedDesk =
        (unclosedDesk.readBytes "a.txt", unclosedDesk) := rfl
    rw [Task.readSource, if_neg (by decide), bind_eq hread, htext]
    rfl
  obtain ⟨-, hlines⟩ := check_agrees_with_build hchecking hbuilding hsame hwrites
  obtain ⟨document, problem, more, hparse, hproblems, -, hcheck, hbuild⟩ :=
    hlines (check.override {}) "[1 2" rfl hsource (by decide +kernel)
  refine ⟨document, problem, hparse, ?_, hcheck, hbuild⟩
  rw [hproblems]
  rfl

/-- The first line of a verbose check is one of its log, and no diagnostic. -/
theorem check_verbose_logs_first :
    (unclosedDesk.run ["check", "a.txt", "--verbose"]).1 = 1 ∧
    (unclosedDesk.run ["check", "a.txt", "--verbose"]).2.reported =
      "DEBUG parse\x7blen=4\x7d: returning partial result errors=2 policy=Recover\n" ++
        "a.txt:1:4: expect comma or right square bracket\n" ++
        "a.txt:1:5: expect right square bracket\n" ∧
    (unclosedDesk.run ["build", "a.txt", "--on-error", "throw", "--verbose"]).2.reported =
      "Parse error: a.txt:1:4: expect comma or right square bracket\n" := by
  refine ⟨?_, ?_, ?_⟩ <;> decide +kernel

end Desk

end Command

end DataTemplate
