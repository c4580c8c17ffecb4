/-
What a command line changes on a desk.  A build has read its options and compiled its source before it
writes, so its output may be one of these two files: either it ends and leaves all files as they are,
or it puts the code of what was on the desk into the output.  No other run changes a file.  Main
statement: `Desk.runUnder_effects`.
-/
import DataTemplate.Proofs.DeskRuns

namespace DataTemplate.Command

variable {desk after : Desk} {faults : Faults} {task : Task}

/-- Bytes hold a text just if they are its UTF-8. -/
theorem textOf_eq_ok {bytes : Except FileError ByteArray} {text : String} :
    textOf bytes = .ok text ↔ bytes = .ok text.toUTF8 := by
  cases bytes with
  | error error => simp [textOf]
  | ok bytes =>
    by_cases hvalid : bytes.IsValidUTF8
    · have hread : textOf (.ok bytes) = .ok (String.fromUTF8 bytes hvalid) := by
        simp only [textOf, String.fromUTF8?, dif_pos hvalid]
      rw [hread, Except.ok.injEq, Except.ok.injEq, ← String.toByteArray_inj]
      rfl
    · have hread : textOf (.ok bytes) = .error .invalidUtf8 := by
        simp only [textOf, String.fromUTF8?, dif_neg hvalid]
      rw [hread]
      constructor
      · intro h
        cases h
      · intro h
        rw [Except.ok.inj h] at hvalid
        exact absurd text.isValidUTF8 hvalid

namespace Desk

/-! ### The files of a folder -/

theorem lookup_cons_eq (files : List (String × ByteArray)) (first name : String)
    (bytes : ByteArray) : ((first, bytes) :: files).lookup name =
      if name = first then some bytes else files.lookup name := by
  rw [List.lookup_cons]
  by_cases hname : name = first
  · rw [if_pos hname, beq_iff_eq.mpr hname]
  · rw [if_neg hname, beq_eq_false_iff_ne.mpr hname]

theorem lookup_replace (files : List (String × ByteArray)) (name other : String)
    (bytes : ByteArray) :
    (files.map fun file => if file.1 == name then (name, bytes) else file).lookup other =
      (files.lookup other).map fun old => if other = name then bytes else old := by
  induction files with
  | nil => rfl
  | cons file files ih =>
    obtain ⟨first, old⟩ := file
    rw [List.map_cons, lookup_cons_eq]
    by_cases hfirst : first = name
    · rw [if_pos (beq_iff_eq.mpr hfirst), lookup_cons_eq, ih, hfirst]
      by_cases hother : other = name <;> simp [hother]
    · have hkeep : (if first == name then (name, bytes) else (first, old)) = (first, old) :=
        if_neg (by simp [hfirst])
      rw [hkeep, lookup_cons_eq, ih]
      by_cases hother : other = first
      · simp [hother, hfirst]
      · simp [hother]

theorem any_name_eq (files : List (String × ByteArray)) (name : String) :
    files.any (·.1 == name) = (files.lookup name).isSome := by
  induction files with
  | nil => rfl
  | cons file files ih =>
    obtain ⟨first, bytes⟩ := file
    rw [List.any_cons, lookup_cons_eq, ih]
    by_cases hname : name = first
    · simp [hname]
    · simp [hname, Ne.symm hname]

/-- A put changes the file of its name, and no other. -/
theorem lookup_put (desk : Desk) (name other : String) (bytes : ByteArray) :
    (desk.put name bytes).files.lookup other =
      if other = name then some bytes else desk.files.lookup other := by
  unfold put
  rw [any_name_eq]
  cases hold : desk.files.lookup name with
  | some old =>
    rw [if_pos Option.isSome_some, lookup_replace]
    by_cases hother : other = name
    · simp [hother, hold]
    · simp [hother]
  | none =>
    rw [if_neg (by simp), List.lookup_append, lookup_cons_eq]
    by_cases hother : other = name
    · simp [hother, hold]
    · simp [hother]

/-! ### Places -/

/-- Once a file has been put where a path leads to, the path leads to that file. -/
theorem follow_put {name : String} (bytes : ByteArray) {outside : Nat} {parts : List (List Char)}
    (h : (desk.follow outside parts).name? = some name) :
    (desk.put name bytes).follow outside parts = .file name := by
  induction parts generalizing outside with
  | nil => cases outside <;> cases h
  | cons part parts ih =>
    cases outside with
    | zero =>
      unfold follow at h ⊢
      by_cases hstay : (part.isEmpty || part = ['.']) = true
      · rw [if_pos hstay] at h ⊢
        exact ih h
      rw [if_neg hstay] at h ⊢
      by_cases hup : part = ['.', '.']
      · rw [if_pos hup] at h ⊢
        exact ih h
      rw [if_neg hup] at h ⊢
      -- only the last part of a path names a file that can be written
      cases parts with
      | nil =>
        have hname : String.ofList part = name := by
          cases hany : desk.files.any (·.1 == String.ofList part) <;>
            simpa [hany, Place.name?] using h
        simp [any_name_eq, lookup_put, hname]
      | cons next more =>
        cases hany : desk.files.any (·.1 == String.ofList part) <;> cases next <;> cases more <;>
          simp [hany, Place.name?] at h
    | succ outside =>
      unfold follow at h ⊢
      split at h
      · rename_i hstay
        rw [if_pos hstay]
        exact ih h
      · rename_i hstay
        rw [if_neg hstay]
        split at h
        · rename_i hup
          rw [if_pos hup]
          exact ih h
        · cases h

theorem place_put {name path : String} (bytes : ByteArray)
    (h : (desk.place path).name? = some name) : (desk.put name bytes).place path = .file name := by
  unfold place at h ⊢
  split at h
  · cases h
  · exact follow_put bytes h
  · exact follow_put bytes h

theorem readBytes_put {name path : String} (bytes : ByteArray)
    (h : (desk.place path).name? = some name) : (desk.put name bytes).readBytes path = .ok bytes := by
  have hfile : (desk.put name bytes).files.lookup name = some bytes := by
    rw [lookup_put, if_pos rfl]
  unfold readBytes
  rw [place_put bytes h]
  simp only [hfile]

/-! ### Writing -/

/-- Between two desks nothing differs but the file that a path leads to, and what was reported. -/
structure DiffersAt (desk : Desk) (path : String) (after : Desk) : Prop where
  printed_eq : after.printed = desk.printed
  lookup_eq : ∀ name, (desk.place path).name? ≠ some name →
    after.files.lookup name = desk.files.lookup name

theorem differsAt_put {name path : String} (bytes : ByteArray)
    (h : (desk.place path).name? = some name) : desk.DiffersAt path (desk.put name bytes) where
  printed_eq := by
    unfold put
    split <;> rfl
  lookup_eq other hother := by
    rw [lookup_put, if_neg]
    rintro rfl
    exact hother h

theorem DiffersAt.told {path : String} (h : desk.DiffersAt path after) (text : String) :
    desk.DiffersAt path (after.told text) :=
  ⟨h.printed_eq, h.lookup_eq⟩

theorem DiffersAt.of_told {path text : String} (h : (desk.told text).DiffersAt path after) :
    desk.DiffersAt path after where
  printed_eq := h.printed_eq
  lookup_eq name hname := h.lookup_eq name (by rwa [place_told])

theorem DiffersAt.refl (desk : Desk) (path : String) : desk.DiffersAt path desk :=
  ⟨rfl, fun _ _ => rfl⟩

theorem differsAt_spoil (desk : Desk) (path : String) (rest : Option ByteArray) :
    desk.DiffersAt path (desk.spoil path rest) := by
  unfold spoil
  split
  · rename_i name bytes hname
    exact differsAt_put bytes hname
  · exact .refl desk path

/-- A file can be written at a path: it leads to a file or to where one can be made, and the system
does not fail. -/
structure CanWrite (faults : Faults) (desk : Desk) (path : String) : Prop where
  faultless : faults.writing path = none
  leads : ∃ name, (desk.place path).name? = some name

/-- A write puts just the text into the file, or fails. -/
theorem writeTextUnder_cases (faults : Faults) (desk : Desk) (path text : String) :
    (desk.CanWrite faults path ∧ ∃ written, desk.writeTextUnder faults path text = (.ok (), written) ∧
        written.readBytes path = .ok text.toUTF8 ∧ desk.DiffersAt path written) ∨
      ¬ desk.CanWrite faults path ∧ ∃ error left,
        desk.writeTextUnder faults path text = (.error error, left) ∧ desk.DiffersAt path left := by
  unfold writeTextUnder
  cases hfault : faults.writing path with
  | some fault =>
    right
    refine ⟨fun hcan => ?_, fault.1, _, rfl, differsAt_spoil desk path fault.2⟩
    rw [hcan.faultless] at hfault
    cases hfault
  | none =>
    simp only [writeText]
    cases hplace : desk.place path with
    | file name | free name =>
      have hname : (desk.place path).name? = some name := by rw [hplace]; rfl
      exact .inl ⟨⟨hfault, name, hname⟩, _, rfl, readBytes_put _ hname, differsAt_put _ hname⟩
    | folder | unreachable error =>
      right
      refine ⟨fun hcan => ?_, _, _, rfl, .refl desk path⟩
      obtain ⟨name, hname⟩ := hcan.leads
      rw [hplace] at hname
      cases hname

/-! ### What a task reads -/

/-- The options of a task: the usual ones or those in its options file, and what its settings say
instead. -/
inductive HasOptions (faults : Faults) (desk : Desk) (task : Task) : CompileOptions → Prop where
  | usual (hnone : task.value? .optionsFile = none) :
      HasOptions faults desk task (task.override {})
  | file {path text : String} {options : CompileOptions}
      (hpath : task.value? .optionsFile = some path)
      (htext : desk.readBytesUnder faults path = .ok text.toUTF8)
      (hoptions : optionsOfText path text = .ok options) :
      HasOptions faults desk task (task.override options)

/-- The source of a task: the text on the standard input or in its file. -/
inductive HasSource (faults : Faults) (desk : Desk) (task : Task) : String → Prop where
  | input {text : String} (hdash : task.path = "-")
      (htext : desk.readInputUnder faults = .ok text.toUTF8) : HasSource faults desk task text
  | file {text : String} (hpath : task.path ≠ "-")
      (htext : desk.readBytesUnder faults task.path = .ok text.toUTF8) :
      HasSource faults desk task text

/-- A task has options and a source, and the source compiles. -/
def Compiles (faults : Faults) (desk : Desk) (task : Task) (compiled : Compiled) : Prop :=
  ∃ options source, desk.HasOptions faults task options ∧ desk.HasSource faults task source ∧
    compile options source = .ok compiled

theorem optionsUnder_eq_ok {options : CompileOptions} :
    desk.optionsUnder faults task = .ok options ↔ desk.HasOptions faults task options := by
  unfold optionsUnder
  cases hpath : task.value? .optionsFile with
  | none =>
    constructor
    · intro h
      rw [← Except.ok.inj h]
      exact .usual hpath
    · rintro (hnone | hsome)
      · rfl
      · rw [hpath] at hsome
        cases hsome
  | some path =>
    simp only
    constructor
    · intro h
      cases htext : textOf (desk.readBytesUnder faults path) with
      | error error =>
        rw [htext] at h
        cases h
      | ok text =>
        rw [htext] at h
        change (optionsOfText path text).map task.override = .ok options at h
        cases hgiven : optionsOfText path text with
        | error failure =>
          rw [hgiven] at h
          cases h
        | ok given =>
          rw [hgiven] at h
          obtain rfl := Except.ok.inj h
          exact .file hpath (textOf_eq_ok.mp htext) hgiven
    · rintro (hnone | ⟨hsome, htext, hgiven⟩)
      · rw [hpath] at hnone
        cases hnone
      · obtain rfl := Option.some.inj (hpath.symm.trans hsome)
        rw [textOf_eq_ok.mpr htext]
        exact congrArg (Except.map task.override) hgiven

theorem mapError_textOf_eq_ok {bytes : Except FileError ByteArray} {failure : FileError → Failure}
    {text : String} : (textOf bytes).mapError failure = .ok text ↔ bytes = .ok text.toUTF8 := by
  rw [← textOf_eq_ok]
  cases textOf bytes with
  | error error =>
    constructor
    · intro h
      cases h
    · intro h
      cases h
  | ok found =>
    constructor
    · intro h
      rw [← Except.ok.inj h]
    · intro h
      rw [← Except.ok.inj h]
      rfl

theorem sourceUnder_eq_ok {source : String} :
    desk.sourceUnder faults task = .ok source ↔ desk.HasSource faults task source := by
  unfold sourceUnder
  by_cases hdash : task.path = "-"
  · rw [if_pos hdash, mapError_textOf_eq_ok]
    constructor
    · exact .input hdash
    · rintro (⟨-, htext⟩ | ⟨hpath, -⟩)
      · exact htext
      · exact absurd hdash hpath
  · rw [if_neg hdash, mapError_textOf_eq_ok]
    constructor
    · exact .file hdash
    · rintro (⟨hpath, -⟩ | ⟨-, htext⟩)
      · exact absurd hpath hdash
      · exact htext

theorem compiles_iff {options : CompileOptions} {source : String} {compiled : Compiled}
    (hoptions : desk.optionsUnder faults task = .ok options)
    (hsource : desk.sourceUnder faults task = .ok source) :
    desk.Compiles faults task compiled ↔ compile options source = .ok compiled := by
  constructor
  · rintro ⟨found, text, hfound, htext, hcompiled⟩
    obtain rfl := Except.ok.inj (hoptions.symm.trans (optionsUnder_eq_ok.mpr hfound))
    obtain rfl := Except.ok.inj (hsource.symm.trans (sourceUnder_eq_ok.mpr htext))
    exact hcompiled
  · intro hcompiled
    exact ⟨options, source, optionsUnder_eq_ok.mp hoptions, sourceUnder_eq_ok.mp hsource, hcompiled⟩

/-! ### Building into a file -/

/-- What a build into a file comes to.  Without options, source or code it ends before it writes;
otherwise it puts the code of what was on the desk into the file, or cannot write it. -/
structure BuildsInto (faults : Faults) (desk : Desk) (task : Task) (out : String)
    (outcome : UInt32 × Desk) : Prop extends desk.DiffersAt out outcome.2 where
  stopped : (¬ ∃ compiled, desk.Compiles faults task compiled) →
    outcome.1 = 1 ∧ outcome.2.files = desk.files
  code_eq_zero_iff : outcome.1 = 0 ↔
    (∃ compiled, desk.Compiles faults task compiled) ∧ desk.CanWrite faults out
  written : ∀ compiled, desk.Compiles faults task compiled → outcome.1 = 0 →
    outcome.2.readBytes out = .ok (compiled.body ++ "\n").toUTF8

theorem readBytes_told (desk : Desk) (text path : String) :
    (desk.told text).readBytes path = desk.readBytes path := by
  unfold readBytes
  rw [place_told]
  rfl

theorem canWrite_told {path text : String} :
    (desk.told text).CanWrite faults path ↔ desk.CanWrite faults path := by
  constructor
  · rintro ⟨hfaultless, hleads⟩
    exact ⟨hfaultless, by rwa [place_told] at hleads⟩
  · rintro ⟨hfaultless, hleads⟩
    exact ⟨hfaultless, by rwa [place_told]⟩

theorem deliver_cases {out : String} (hout : task.value? .output = some out) (desk : Desk)
    (body : String) :
    (desk.CanWrite faults out ∧ ∃ written,
        task.deliver (consoleUnder faults) body desk = (0, written) ∧
        written.readBytes out = .ok (body ++ "\n").toUTF8 ∧ desk.DiffersAt out written) ∨
      ¬ desk.CanWrite faults out ∧ ∃ left,
        task.deliver (consoleUnder faults) body desk = (1, left) ∧ desk.DiffersAt out left := by
  unfold Task.deliver
  rw [hout]
  rcases desk.writeTextUnder_cases faults out (body ++ "\n") with
    ⟨hcan, written, hwrite, hholds, hdiffers⟩ | ⟨hcan, error, left, hwrite, hdiffers⟩
  · have hstep : (consoleUnder faults).writeText out (body ++ "\n") desk = (.ok (), written) := hwrite
    simp only
    rw [bind_eq hstep]
    exact .inl ⟨hcan, _, rfl, (readBytes_told ..).trans hholds, hdiffers.told _⟩
  · have hstep : (consoleUnder faults).writeText out (body ++ "\n") desk = (.error error, left) :=
      hwrite
    simp only
    rw [bind_eq hstep]
    exact .inr ⟨hcan, _, left.fail_under faults _, hdiffers.told _⟩

theorem BuildsInto.of_stop {out : String} (h : ¬ ∃ compiled, desk.Compiles faults task compiled)
    (text : String) : desk.BuildsInto faults task out (1, desk.told text) where
  toDiffersAt := (DiffersAt.refl desk out).told text
  stopped := fun _ => ⟨rfl, rfl⟩
  code_eq_zero_iff :=
    have hfails : (1 : UInt32) ≠ 0 := by decide
    iff_of_false hfails fun hgoes => h hgoes.1
  written := fun compiled hcompiles => absurd ⟨compiled, hcompiles⟩ h

theorem Compiles.unique {compiled other : Compiled} (h : desk.Compiles faults task compiled)
    (hother : desk.Compiles faults task other) : compiled = other := by
  obtain ⟨options, source, hoptions, hsource, hcompile⟩ := h
  have hother := (compiles_iff (optionsUnder_eq_ok.mpr hoptions)
    (sourceUnder_eq_ok.mpr hsource)).mp hother
  exact Except.ok.inj (hcompile.symm.trans hother)

theorem BuildsInto.of_deliver {out : String} {compiled : Compiled}
    (hout : task.value? .output = some out) (h : desk.Compiles faults task compiled)
    (text : String) : desk.BuildsInto faults task out
      (task.deliver (consoleUnder faults) compiled.body (desk.told text)) := by
  rcases deliver_cases hout (desk.told text) compiled.body with
    ⟨hcan, written, hdeliver, hholds, hdiffers⟩ | ⟨hcan, left, hdeliver, hdiffers⟩
  · rw [hdeliver]
    exact {
      toDiffersAt := hdiffers.of_told
      stopped := fun hnone => absurd ⟨compiled, h⟩ hnone
      code_eq_zero_iff := iff_of_true rfl ⟨⟨compiled, h⟩, canWrite_told.mp hcan⟩
      written := fun other hother _ => by rw [← h.unique hother, hholds] }
  · rw [hdeliver]
    have hfails : (1 : UInt32) ≠ 0 := by decide
    exact {
      toDiffersAt := hdiffers.of_told
      stopped := fun hnone => absurd ⟨compiled, h⟩ hnone
      code_eq_zero_iff := iff_of_false hfails fun hgoes => hcan (canWrite_told.mpr hgoes.2)
      written := fun other _ hzero => absurd hzero hfails }

theorem build_buildsInto {out : String} {options : CompileOptions} {source : String}
    (hout : task.value? .output = some out) (hoptions : desk.optionsUnder faults task = .ok options)
    (hsource : desk.sourceUnder faults task = .ok source) (text : String) :
    desk.BuildsInto faults task out
      (task.build (consoleUnder faults) options source (desk.told text)) := by
  unfold Task.build
  cases hcompile : compile options source with
  | error problem =>
    have hnone : ¬ ∃ compiled, desk.Compiles faults task compiled := by
      rintro ⟨compiled, hcompiles⟩
      rw [(compiles_iff hoptions hsource).mp hcompiles] at hcompile
      cases hcompile
    show desk.BuildsInto faults task out ((consoleUnder faults).fail _ (desk.told text))
    rw [fail_under, told_told]
    exact .of_stop hnone _
  | ok compiled =>
    -- the warnings are told in front of the write, and leave all files as they are
    simp only
    rw [bind_eq ((desk.told text).reportLines_under faults _), told_told]
    exact .of_deliver hout ((compiles_iff hoptions hsource).mpr hcompile) _

theorem run_buildsInto {out : String} (hbuild : task.verb = .build)
    (hout : task.value? .output = some out) (faults : Faults) (desk : Desk) :
    desk.BuildsInto faults task out (task.run (consoleUnder faults) desk) := by
  rw [runTask_under]
  cases hoptions : desk.optionsUnder faults task with
  | error failure =>
    refine .of_stop ?_ _
    rintro ⟨compiled, options, source, hfound, -⟩
    rw [optionsUnder_eq_ok.mpr hfound] at hoptions
    cases hoptions
  | ok options =>
    cases hsource : desk.sourceUnder faults task with
    | error failure =>
      refine .of_stop ?_ _
      rintro ⟨compiled, options, source, -, htext, -⟩
      rw [sourceUnder_eq_ok.mpr htext] at hsource
      cases hsource
    | ok source =>
      simp only [perform_under, hbuild]
      exact build_buildsInto hout hoptions hsource _

/-! ### Runs that change no file -/

theorem fail_files (faults : Faults) (desk : Desk) (lines : List String) :
    ((consoleUnder faults).fail lines desk).2.files = desk.files := by
  rw [fail_under, told_files]

theorem check_files (faults : Faults) (desk : Desk) (task : Task) (options : CompileOptions)
    (source : String) :
    (task.check (consoleUnder faults) options source desk).2.files = desk.files := by
  unfold Task.check
  cases parse { options.reading with onError := .recover } source with
  | error problem => exact fail_files faults desk _
  | ok document =>
    cases hclean : document.problems.isEmpty with
    | true =>
      simp only [hclean]
      rfl
    | false =>
      simp only [hclean]
      exact fail_files faults desk _

theorem printDocument_files (faults : Faults) (desk : Desk) (task : Task)
    (options : CompileOptions) (source : String) :
    (task.printDocument (consoleUnder faults) options source desk).2.files = desk.files := by
  unfold Task.printDocument
  cases parse options.reading source with
  | error problem => exact fail_files faults desk _
  | ok document => rfl

theorem build_files (hout : task.value? .output = none) (faults : Faults) (desk : Desk)
    (options : CompileOptions) (source : String) :
    (task.build (consoleUnder faults) options source desk).2.files = desk.files := by
  unfold Task.build
  cases compile options source with
  | error problem => exact fail_files faults desk _
  | ok compiled =>
    simp only
    rw [bind_eq (desk.reportLines_under faults _)]
    unfold Task.deliver
    rw [hout]
    rfl

theorem runTask_files (h : task.verb = .build → task.value? .output = none) (faults : Faults)
    (desk : Desk) : (task.run (consoleUnder faults) desk).2.files = desk.files := by
  rw [runTask_under]
  cases desk.optionsUnder faults task with
  | error failure => rfl
  | ok options =>
    cases desk.sourceUnder faults task with
    | error failure => rfl
    | ok source =>
      have hlog : (desk.logged task options source).files = desk.files := rfl
      simp only [perform_under]
      cases hverb : task.verb with
      | build => exact (build_files (h hverb) faults _ options source).trans hlog
      | check => exact (check_files faults _ task options source).trans hlog
      | ast => exact (printDocument_files faults _ task options source).trans hlog

end Desk

/-- A command line asks to build a document into a file. -/
structure AsksToBuild (arguments : List String) (task : Task) (out : String) : Prop where
  asks : Request.ofArguments arguments = .ok (.run task)
  builds : task.verb = .build
  output : task.value? .output = some out

namespace Desk

/-- A desk is one flat folder of files.  Whatever is on it and whatever the system fails to do, a build into a file changes at most
that file, prints nothing, and does not touch the file either unless its options and its source were
read and compiled; it succeeds just if they were and the file can be written, and then the file holds
the code and a line feed.  No other command line changes a file, and a wrong one prints nothing. -/
theorem runUnder_effects (faults : Faults) (desk : Desk) (arguments : List String) :
    (∀ task out, AsksToBuild arguments task out →
      desk.BuildsInto faults task out (desk.runUnder faults arguments)) ∧
    ((¬ ∃ task out, AsksToBuild arguments task out) →
      (desk.runUnder faults arguments).2.files = desk.files) ∧
    ∀ error, Request.ofArguments arguments = .error error →
      (desk.runUnder faults arguments).1 = 2 ∧
        (desk.runUnder faults arguments).2.printed = desk.printed := by
  unfold runUnder runArguments
  refine ⟨?_, ?_, ?_⟩
  · rintro task out ⟨hasks, hbuilds, hout⟩
    rw [hasks]
    exact run_buildsInto hbuilds hout faults desk
  · intro hnever
    cases hrequest : Request.ofArguments arguments with
    | error error =>
      simp only
      rw [bind_eq (desk.reportLines_under faults _)]
      rfl
    | ok request =>
      cases request with
      | help | version => rfl
      | run task =>
        refine runTask_files (fun hbuilds => ?_) faults desk
        refine Option.eq_none_iff_forall_ne_some.mpr fun out hout => ?_
        exact hnever ⟨task, out, hrequest, hbuilds, hout⟩
  · intro error herror
    rw [herror]
    simp only
    rw [bind_eq (desk.reportLines_under faults _)]
    exact ⟨rfl, rfl⟩

/-- A desk with two documents; in the first the last bracket is missing. -/
def draftDesk : Desk where
  files := [("a.txt", "[1, \x7b\x7bx\x7d\x7d".toUTF8), ("b.txt", "[2]".toUTF8)]
  input := .empty

/-- A command line that builds a document into the file that it stands in. -/
def buildInPlace : List String :=
  ["build", "a.txt", "--compact", "--on-error", "recover", "-o", "./a.txt"]

theorem runUnder_effects_inPlace :
    (draftDesk.run buildInPlace).1 = 0 ∧
      (draftDesk.run buildInPlace).2.readBytes "./a.txt" = .ok "[ 1, (x), ]\n".toUTF8 ∧
      (draftDesk.run buildInPlace).2.files.lookup "b.txt" = draftDesk.files.lookup "b.txt" ∧
      (draftDesk.run buildInPlace).2.printed = "" := by
  let task : Task :=
    ⟨.build, "a.txt", [(.compact, ""), (.onError, "recover"), (.output, "./a.txt")]⟩
  let options : CompileOptions := task.override {}
  have hsource : draftDesk.HasSource {} task "[1, \x7b\x7bx\x7d\x7d" := by
    have htext : draftDesk.readBytesUnder {} "a.txt" =
        .ok "[1, \x7b\x7bx\x7d\x7d".toUTF8 := rfl
    exact .file (by decide) htext
  have hcompiled : ∃ compiled, draftDesk.Compiles {} task compiled ∧
      compiled.body = "[ 1, (x), ]" := by
    have hbody : (compile options "[1, \x7b\x7bx\x7d\x7d").toOption.map (·.body) =
        some "[ 1, (x), ]" := by decide +kernel
    cases hcompile : compile options "[1, \x7b\x7bx\x7d\x7d" with
    | error problem =>
      rw [hcompile] at hbody
      cases hbody
    | ok compiled =>
      rw [hcompile] at hbody
      exact ⟨compiled, ⟨options, _, .usual rfl, hsource, hcompile⟩, Option.some.inj hbody⟩
  obtain ⟨compiled, hcompiles, hbody⟩ := hcompiled
  have hbuilds : draftDesk.BuildsInto {} task "./a.txt" (draftDesk.run buildInPlace) := by
    rw [← runUnder_none]
    exact (runUnder_effects {} draftDesk buildInPlace).1 task "./a.txt" ⟨rfl, rfl, rfl⟩
  have hplace : (draftDesk.place "./a.txt").name? = some "a.txt" := by decide +kernel
  have hzero := hbuilds.code_eq_zero_iff.mpr ⟨⟨compiled, hcompiles⟩, rfl, "a.txt", hplace⟩
  refine ⟨hzero, ?_, hbuilds.lookup_eq "b.txt" (by rw [hplace]; decide), hbuilds.printed_eq⟩
  rw [hbuilds.written compiled hcompiles hzero, hbody]
  rfl

end Desk

end DataTemplate.Command
