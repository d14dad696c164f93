/-
  File:      CMinusMinus/Proofs/Delivery.lean
  Subject:   Where the code of a run goes.

  A run that has made code delivers it once, on whatever file system it works. Without an output file
  the code is all that stands on standard output, and the diagnostics are on the other stream; with
  one, the file holds the code and nothing else, and standard output has the diagnostics only. No
  other file is touched, and none at all by a run that fails or only checks, not even the file that
  it was to write.

  * `LowersTo` -- the code that a source is lowered to, and the diagnostics on the way;
  * `Ends`, `compileFile_ends` -- the ways for a build to end, and what each does to the files;
  * `code_delivered_once` -- **what a run has delivered.**
-/
import CMinusMinus.Proofs.FailureReports
import CMinusMinus.Proofs.SourceFiles
import CMinusMinus.Proofs.WrittenFiles

namespace CMinusMinus

variable {σ : Type} [FileSystem σ]

/-! ## 1. Ways to end -/

/-- What a compilation without errors tells its user: the diagnostics and their sums. -/
def toldLines (items : List Diagnostic) : List String :=
  items.map Diagnostic.text ++ [Diagnostic.summary items]

/-- **The source is lowered to the code**, and the items are the diagnostics on the way. -/
def LowersTo (files : σ) (source : String) (items : List Diagnostic) (code : List Instr) : Prop :=
  ∃ text p after r, FileSystem.read files source = .ok (textBytes text) ∧
    Program.ofSource? (Text.normaliseLineEnds text.toList) = some p ∧
    Lower.result p {} = .ok (code, after) ∧
    (compile source false (Text.normaliseLineEnds text.toList)).report = .ok r ∧
    r.diagnostics = some items

/-- **The ways for a build to end**: its report, what happened, and the files. -/
inductive Ends (files : σ) (source : String) (output : Option String) (checkOnly : Bool) :
    Build σ → Prop where
  | faulted (f : Fault) (journal : Journal) :
      Ends files source output checkOnly ⟨.error f, journal, files⟩
  | failed {r : Report} (journal : Journal) (hfailed : r.success = false) :
      Ends files source output checkOnly ⟨.ok r, journal, files⟩
  | checked {r : Report} (journal : Journal) (hchecks : checkOnly = true)
      (hsuccess : r.success = true) : Ends files source output checkOnly ⟨.ok r, journal, files⟩
  | shown {r : Report} {journal : Journal} {items : List Diagnostic} {code : List Instr}
      (hfull : checkOnly = false) (hlowered : LowersTo files source items code)
      (hsuccess : r.success = true) (hcode : r.code = some (programText code))
      (hlines : journal.userLines = toldLines items)
      (hunnamed : CommandLine.isNamed output = false) :
      Ends files source output checkOnly ⟨.ok r, journal, files⟩
  | saved {r : Report} {journal : Journal} {items : List Diagnostic} {code : List Instr}
      {name : String} {files' : σ}
      (hfull : checkOnly = false) (hlowered : LowersTo files source items code)
      (hsuccess : r.success = true)
      (hlines : journal.userLines = toldLines items)
      (hnamed : output = some name) (hname : name ≠ "")
      (hwrote : FileSystem.write files name (textBytes (programText code)) = .ok files') :
      Ends files source output checkOnly ⟨.ok r, journal, files'⟩

/-- A build with code and without an output file. -/
theorem Attempt.finish_unnamed {a : Attempt} {r : Report} (h : a.report = .ok r)
    {output : Option String} (houtput : CommandLine.isNamed output = false) (files : σ) :
    ∃ r', a.finish files output = ⟨.ok r', a.journal, files⟩ ∧ r'.success = r.success ∧
      r'.code = r.code := by
  cases output with
  | none =>
    refine ⟨r, ?_, rfl, rfl⟩
    unfold finish wanted settle
    rw [h]
  | some name =>
    have hname : name = "" := by simpa [CommandLine.isNamed] using houtput
    subst hname
    unfold finish wanted settle
    rw [h]
    dsimp only
    by_cases hcode : r.code.isNone = true
    · exact ⟨r, by simp [hcode], rfl, rfl⟩
    · exact ⟨{ r with outputFile := some "" }, by simp [hcode, hasZero], rfl, rfl⟩

section Named

variable {a : Attempt} {r : Report} {text name : String} {files files' : σ}
  (hreport : a.report = .ok r) (hcode : r.code = some text)

include hreport hcode

/-- A build with code, and an output path that no path can be. -/
theorem Attempt.finish_impossible (hzero : hasZero name = true) :
    a.finish files (some name) = ⟨.error .zeroInPath, a.journal, files⟩ := by
  unfold finish wanted settle
  rw [hreport]
  simp [hcode, hzero]

variable (hname : name ≠ "") (hzero : hasZero name = false)

include hname hzero

/-- A build with code that is written. -/
theorem Attempt.finish_saved (hwrite : FileSystem.write files name (textBytes text) = .ok files') :
    a.finish files (some name) =
      ⟨.ok { r with outputFile := some name }, a.journal, files'⟩ := by
  unfold finish wanted settle
  rw [hreport]
  simp [hcode, hname, hzero, hwrite]

/-- A build with code that cannot be written. -/
theorem Attempt.finish_unsaved {e : FileProblem}
    (hwrite : FileSystem.write files name (textBytes text) = .error e) :
    a.finish files (some name) = ⟨.ok
      { success := false, errors := ["Failed to write output file: " ++ e.describe name],
        warnings := r.warnings, diagnostics := r.diagnostics }, a.journal, files⟩ := by
  unfold finish wanted settle
  rw [hreport]
  simp [hcode, hname, hzero, hwrite]

end Named

/-! ## 2. A build ends so -/

section Builds

variable {files : σ} {source : String} {output : Option String} {checkOnly : Bool}

/-- A build whose code is known ends by showing it, writing it, or failing to. -/
theorem Attempt.finish_ends {a : Attempt} {r : Report} {items : List Diagnostic}
    {code : List Instr} (hfull : checkOnly = false) (hlowered : LowersTo files source items code)
    (hreport : a.report = .ok r) (hsuccess : r.success = true)
    (hcode : r.code = some (programText code)) (hlines : a.journal.userLines = toldLines items) :
    Ends files source output checkOnly (a.finish files output) := by
  by_cases houtput : CommandLine.isNamed output = true
  · obtain ⟨name, rfl, hname⟩ : ∃ name, output = some name ∧ name ≠ "" := by
      simpa [CommandLine.isNamed, Option.any_eq_true] using houtput
    cases hzero : hasZero name with
    | true =>
      rw [Attempt.finish_impossible hreport hcode hzero]
      exact .faulted _ _
    | false =>
      cases hwrite : FileSystem.write files name (textBytes (programText code)) with
      | ok files' =>
        rw [Attempt.finish_saved hreport hcode hname hzero hwrite]
        exact .saved hfull hlowered hsuccess hlines rfl hname hwrite
      | error e =>
        rw [Attempt.finish_unsaved hreport hcode hname hzero hwrite]
        exact .failed _ rfl
  · have hunnamed : CommandLine.isNamed output = false := Bool.eq_false_iff.mpr houtput
    obtain ⟨r', hfinish, hsuccess', hcode'⟩ := Attempt.finish_unnamed hreport hunnamed files
    rw [hfinish]
    exact .shown hfull hlowered (hsuccess'.trans hsuccess) (hcode'.trans hcode) hlines hunnamed

/-- A build from a text ends in one of the ways. -/
theorem compileText_ends {text : String} (hread : FileSystem.read files source = .ok (textBytes text)) :
    Ends files source output checkOnly
      (compileText files source output checkOnly (Text.normaliseLineEnds text.toList)) := by
  unfold compileText
  dsimp only
  cases hscan : scan (Text.normaliseLineEnds text.toList) with
  | error fault =>
    have hreport : (compile source checkOnly (Text.normaliseLineEnds text.toList)).report =
        .error (.numeral fault) := compile_of_scan_error hscan
    rw [Attempt.finish_of_no_code]
    · rw [hreport]
      exact .faulted _ _
    · intro r hr
      rw [hreport] at hr
      cases hr
  | ok s =>
    obtain ⟨items, closing, ending, hcourse, htells⟩ := compile_course hscan
    have htold := htells source checkOnly
    -- a compilation with errors has no code
    have hrefused : ∀ line, ending checkOnly = .refused line →
        Ends files source output checkOnly (Attempt.finish
          ⟨(compile source checkOnly (Text.normaliseLineEnds text.toList)).report,
            (compile source checkOnly (Text.normaliseLineEnds text.toList)).journal⟩
          files output) := by
      intro line hending
      rw [hending] at htold
      rw [Attempt.finish_of_no_code]
      · rw [htold.report_refused]
        exact .failed _ rfl
      · intro r hr
        rw [htold.report_refused] at hr
        cases hr
        rfl
    cases hcourse with
    | lexical => exact hrefused _ rfl
    | syntactic => exact hrefused _ rfl
    | semantic => exact hrefused _ rfl
    | @accepted p herrors hparse hproper haccepted =>
      cases checkOnly with
      | true =>
        have hreport := Compilation.Tells.report_checked htold
        rw [Attempt.finish_of_no_code]
        · rw [hreport]
          exact .checked _ rfl rfl
        · intro r hr
          rw [hreport] at hr
          cases hr
          rfl
      | false =>
        have hreport := Compilation.Tells.report_lowered htold
        have hsource : Program.ofSource? (Text.normaliseLineEnds text.toList) = some p := by
          unfold Program.ofSource?
          rw [hscan]
          dsimp only
          rw [hparse]
          rfl
        have hresult := (Lower.result_of_wellTyped (s := {}) hproper (hproper.wellTyped haccepted)
          ⟨Journal.faultless_nil, rfl⟩).1
        refine Attempt.finish_ends rfl ⟨text, p, _, _, hread, hsource, hresult, hreport, rfl⟩ hreport
          rfl rfl ?_
        rw [toldLines, (Scan.sums herrors hproper).2.1]
        exact htold.userLines

/-- **Every build ends in one of the ways.** -/
theorem compileFile_ends (files : σ) (source : String) (output : Option String)
    (checkOnly : Bool) :
    Ends files source output checkOnly (compileFile files source output checkOnly) := by
  by_cases hpath : hasZero source = true
  · have hattempt : attempt source checkOnly (FileSystem.read files source) = ⟨.error .zeroInPath, []⟩ := by
      unfold attempt
      rw [if_pos hpath]
    rw [compileFile, hattempt, Attempt.finish_of_no_code]
    · exact .faulted _ _
    · intro r hr
      cases hr
  · have hpath : hasZero source = false := Bool.eq_false_iff.mpr hpath
    cases hread : FileSystem.read files source with
    | error problem =>
      rw [compileFile_unread hpath hread]
      exact .failed _ rfl
    | ok bytes =>
      by_cases hbytes : ∃ text, textBytes text = bytes
      · obtain ⟨text, rfl⟩ := hbytes
        rw [compileFile_written hpath hread]
        exact compileText_ends hread
      · obtain ⟨fault, -, hbuild⟩ :=
          @compileFile_unwritten σ _ files source output checkOnly hpath bytes hread
            (not_exists.mp hbytes)
        rw [hbuild]
        exact .faulted _ _

end Builds

/-! ## 3. Sessions -/

namespace CommandLine

/-- A run of a build shows what the build has left. -/
theorem run_of_build {files : σ} {level : Option String} {arguments : List String}
    {source : String} {output : Option String} {checkOnly verbose : Bool}
    (h : Command.ofArguments arguments = .ok (.build source output checkOnly verbose)) :
    run files level arguments =
      ⟨display output checkOnly (verbose || showsTraces level)
        (compileFile files source output checkOnly).journal
        (compileFile files source output checkOnly).report,
        (compileFile files source output checkOnly).files⟩ := by
  unfold run
  rw [h]

/-- **The session has delivered the code**: it is all of standard output, or all of the file. -/
structure Delivers (files : σ) (output : Option String) (traced : Bool)
    (items : List Diagnostic) (code : List Instr) (s : Session σ) : Prop where
  shown : isNamed output = false →
    s.display.stdout = programText code ∧ s.files = files ∧
      ∃ lines, s.display.stderr = unlines lines ∧ (toldLines items).Sublist lines ∧
        (traced = false → lines = toldLines items)
  saved : ∀ name, output = some name → name ≠ "" →
    FileSystem.write files name (textBytes (programText code)) = .ok s.files ∧
      s.display.stdout = unlines (toldLines items)

section Displays

variable {r : Report} {journal : Journal} {items : List Diagnostic} {code : List Instr}
  {files files' : σ} {output : Option String} (traced : Bool) (hsuccess : r.success = true)
  (hlines : journal.userLines = toldLines items)

include hsuccess hlines

/-- Without an output file, a success shows its code alone. -/
theorem delivers_shown (hcode : r.code = some (programText code))
    (hunnamed : isNamed output = false) :
    Delivers files output traced items code
      ⟨display output false traced journal (.ok r), files⟩ where
  shown := by
    intro
    have hclosing : closing output r = programText code := by
      unfold closing
      simp [hsuccess, hunnamed, hcode]
    rw [display_ok, hunnamed, hclosing]
    refine ⟨String.empty_append, rfl, if traced then journal.allLines else journal.userLines, rfl,
      ?_, ?_⟩
    · rw [← hlines]
      cases traced with
      | true => exact userLines_sublist_allLines journal
      | false => exact List.Sublist.refl _
    · rintro rfl
      exact hlines
  saved := by
    rintro name rfl hname
    simp [isNamed, hname] at hunnamed

/-- With an output file, a success shows its diagnostics alone. -/
theorem delivers_saved {name : String} (hname : name ≠ "")
    (hwrote : FileSystem.write files name (textBytes (programText code)) = .ok files') :
    Delivers files (some name) traced items code
      ⟨display (some name) false traced journal (.ok r), files'⟩ where
  shown := by
    intro hunnamed
    simp [isNamed, hname] at hunnamed
  saved := by
    rintro name' heq -
    cases heq
    have hnamed : isNamed (some name) = true := by simp [isNamed, hname]
    have hclosing : closing (some name) r = "" := by
      unfold closing
      simp [hsuccess, hnamed]
    rw [display_ok, hnamed, hclosing]
    refine ⟨hwrote, ?_⟩
    rw [← hlines]
    exact String.append_empty

end Displays

end CommandLine

open CommandLine in
/-- **The code is delivered once, and a run that has none to deliver leaves the files alone.** A run
    with exit code zero that does more than check has lowered its source to code. Without a name for
    the output, or with an empty one, the code is standard output, the diagnostics are on the other
    stream, and the files are as they were. With a name, the files are as writing the code under this
    name leaves them, and standard output is the diagnostics. All other runs, whether they check or
    fail, leave the files as they were. In a tree of files, what is written is all that the file
    holds, and no other file differs. -/
theorem code_delivered_once {files : σ} {level : Option String} {arguments : List String}
    {source : String} {output : Option String} {checkOnly verbose : Bool} {status : Nat}
    (hcommand : Command.ofArguments arguments = .ok (.build source output checkOnly verbose))
    (hexit : (run files level arguments).display.exit = .ok status) :
    (status = 0 → checkOnly = false → ∃ items code, LowersTo files source items code ∧
      Delivers files output (verbose || showsTraces level) items code
        (run files level arguments)) ∧
    (status = 0 → checkOnly = true → (run files level arguments).files = files) ∧
    (status ≠ 0 → status = 1 ∧ (run files level arguments).files = files) ∧
    (∀ (tree tree' : Files) (name : String) (bytes : List UInt8),
      FileSystem.write tree name bytes = .ok tree' → tree.Wrote name bytes tree') := by
  rw [run_of_build hcommand] at hexit ⊢
  have htrees : ∀ (tree tree' : Files) (name : String) (bytes : List UInt8),
      FileSystem.write tree name bytes = .ok tree' → tree.Wrote name bytes tree' :=
    fun _ _ _ _ => Files.wrote_of_write
  have hends := compileFile_ends files source output checkOnly
  generalize compileFile files source output checkOnly = build at hends hexit
  cases hends with
  | faulted => cases hexit
  | failed journal hfailed =>
    rw [display_ok, hfailed] at hexit
    cases hexit
    exact ⟨nofun, nofun, fun _ => ⟨rfl, rfl⟩, htrees⟩
  | checked journal hchecks hsuccess =>
    rw [display_ok, hsuccess] at hexit
    cases hexit
    subst hchecks
    exact ⟨nofun, fun _ _ => rfl, fun hstatus => absurd rfl hstatus, htrees⟩
  | shown hfull hlowered hsuccess hcode hlines hunnamed =>
    rw [display_ok, hsuccess] at hexit
    cases hexit
    subst hfull
    refine ⟨fun _ _ => ⟨_, _, hlowered, ?_⟩, nofun, fun hstatus => absurd rfl hstatus, htrees⟩
    exact delivers_shown _ hsuccess hlines hcode hunnamed
  | saved hfull hlowered hsuccess hlines hnamed hname hwrote =>
    rw [display_ok, hsuccess] at hexit
    cases hexit
    subst hfull hnamed
    refine ⟨fun _ _ => ⟨_, _, hlowered, ?_⟩, nofun, fun hstatus => absurd rfl hstatus, htrees⟩
    exact delivers_saved _ hsuccess hlines hname hwrote

theorem loneSource_rewrite (bytes : List UInt8) :
    ∃ files', FileSystem.write loneSource "a" bytes = .ok files' := by
  have htarget : loneSource.target "a" = .ok ["a"] := ok_of_toOption (by decide +kernel)
  change ∃ files', loneSource.write "a" bytes = .ok files'
  unfold Files.write
  rw [htarget]
  exact ⟨_, rfl⟩

open CommandLine in
/-- The code may be written over its own source. -/
theorem code_delivered_once_overSource :
    (run loneSource none ["a", "-o", "a"]).display.exit = .ok 0 ∧
      ∃ items code, LowersTo loneSource "a" items code ∧
        loneSource.Wrote "a" (textBytes (programText code))
          (run loneSource none ["a", "-o", "a"]).files ∧
        (run loneSource none ["a", "-o", "a"]).display.stdout = unlines (toldLines items) := by
  have hcommand : Command.ofArguments ["a", "-o", "a"] =
      .ok (.build "a" (some "a") false false) := rfl
  have hread : FileSystem.read loneSource "a" = .ok (textBytes "") := loneSource_read
  have hexit : (run loneSource none ["a", "-o", "a"]).display.exit = .ok 0 := by
    obtain ⟨r, code, hreport, hcode⟩ := code_of_nothing "a"
    obtain ⟨files', hwrite⟩ := loneSource_rewrite (textBytes code)
    have hsuccess := Compilation.success_of_code hreport (hcode ▸ Option.some_ne_none code)
    have hfinish : compileFile loneSource "a" (some "a") false =
        ⟨.ok { r with outputFile := some "a" }, (compile "a" false []).journal, files'⟩ := by
      rw [compileFile_written (by decide) hread]
      exact Attempt.finish_saved (a := ⟨(compile "a" false []).report, _⟩) hreport hcode (by decide)
        (by decide) hwrite
    rw [run_of_build hcommand, hfinish, display_ok, hsuccess]
    rfl
  obtain ⟨hdelivered, -, -, htrees⟩ := code_delivered_once hcommand hexit
  obtain ⟨items, code, hlowered, hdelivers⟩ := hdelivered rfl rfl
  obtain ⟨hwrite, hout⟩ := hdelivers.saved "a" rfl (by decide)
  exact ⟨hexit, items, code, hlowered, htrees _ _ _ _ hwrite, hout⟩

end CMinusMinus
