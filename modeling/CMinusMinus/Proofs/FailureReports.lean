/-
  File:      CMinusMinus/Proofs/FailureReports.lean
  Subject:   What a failed run has told its user.

  A run that fails, with exit code one, has errors in its report. Nearly always each of them stands
  in a line of one of the two streams: a source that cannot be read is told behind the word Error,
  the errors of a program are told as they are found, and the abort behind them. The one exception
  is an output file that cannot be written. Its error is in the report, but on no stream.

  * `Told` -- a text is part of a line of a stream;
  * `Fails`, `compileFile_fails` -- the three ways for a build to fail;
  * `Unwritable` -- the build has code and cannot write it;
  * `failures_told` -- **a failed run has told its errors unless it could not write its output**, and
    then it has not.
-/
import CMinusMinus.CommandLine.Session
import CMinusMinus.Proofs.CompilationFaults

namespace CMinusMinus

/-! ## 1. Lines of a stream -/

theorem unlines_append (front back : List String) :
    unlines (front ++ back) = unlines front ++ unlines back := by
  simp [unlines]

/-- The text is part of a line of the stream. -/
def Told (text stream : String) : Prop :=
  ∃ before lead after, stream = unlines before ++ (lead ++ text ++ "\n") ++ after ∧
    '\n' ∉ lead.toList

/-- What a line ends with is told. -/
theorem told_of_mem {text lead : String} {lines : List String} (h : lead ++ text ∈ lines)
    (hlead : '\n' ∉ lead.toList) (more : String) : Told text (unlines lines ++ more) := by
  obtain ⟨front, back, rfl⟩ := List.append_of_mem h
  refine ⟨front, lead, unlines back ++ more, ?_, hlead⟩
  rw [unlines_append]
  simp [unlines, String.append_assoc]

/-! ## 2. The ways to fail -/

section Builds

variable {σ : Type} [FileSystem σ] {files : σ} {source : String} {output : Option String} {checkOnly : Bool}

/-- **The build has code, and the file for it cannot be written.** -/
def Unwritable (files : σ) (source : String) (output : Option String) (checkOnly : Bool) : Prop :=
  ∃ name bytes problem,
    (attempt source checkOnly (FileSystem.read files source)).wanted output = some (name, bytes) ∧
      FileSystem.write files name bytes = .error problem

/-- **The ways for a build to fail**: its report, and what happened. -/
inductive Fails (files : σ) (source : String) (output : Option String) (checkOnly : Bool) :
    Report → Journal → Prop where
  | unread {problem : FileProblem} (hwritable : ¬ Unwritable files source output checkOnly) :
      Fails files source output checkOnly
        { success := false, errors := ["Failed to read source file: " ++ problem.describe source] }
        []
  | refused {text : List Char} {r : Report}
      (hwritable : ¬ Unwritable files source output checkOnly)
      (hreport : (compile source checkOnly text).report = .ok r) (hfailed : r.success = false) :
      Fails files source output checkOnly r (compile source checkOnly text).journal
  | unwritten {text : List Char} {r : Report} {name : String} {problem : FileProblem}
      (hunwritable : Unwritable files source output checkOnly)
      (hreport : (compile source checkOnly text).report = .ok r) (hcode : r.code ≠ none)
      (hnamed : CommandLine.isNamed output = true) :
      Fails files source output checkOnly
        { success := false, errors := ["Failed to write output file: " ++ problem.describe name],
          warnings := r.warnings, diagnostics := r.diagnostics }
        (compile source checkOnly text).journal

/-- An attempt that has a report could not read its source, or compiled it. -/
theorem attempt_cases {opened : Except FileProblem (List UInt8)} {r : Report}
    (h : (attempt source checkOnly opened).report = .ok r) :
    (∃ problem : FileProblem, attempt source checkOnly opened = ⟨.ok
      { success := false, errors := ["Failed to read source file: " ++ problem.describe source] },
      []⟩) ∨
    ∃ text, attempt source checkOnly opened =
      ⟨(compile source checkOnly text).report, (compile source checkOnly text).journal⟩ := by
  unfold attempt at h ⊢
  split at h
  · cases h
  · rename_i hzero
    rw [if_neg hzero]
    cases opened with
    | error problem => exact .inl ⟨problem, rfl⟩
    | ok bytes =>
      cases htext : sourceText bytes with
      | error f =>
        dsimp only at h
        rw [htext] at h
        cases h
      | ok text =>
        refine .inr ⟨text, ?_⟩
        dsimp only
        rw [htext]

/-- Only a success has code. -/
theorem Compilation.success_of_code {c : Compilation} {r : Report} (h : c.report = .ok r)
    (hcode : r.code ≠ none) : r.success = true := by
  unfold Compilation.report at h
  dsimp only at h
  split at h <;> cases h
  · exact absurd rfl hcode
  · exact absurd rfl hcode
  · rfl

theorem attempt_success_of_code {opened : Except FileProblem (List UInt8)} {r : Report}
    (h : (attempt source checkOnly opened).report = .ok r) (hcode : r.code ≠ none) :
    r.success = true := by
  rcases attempt_cases h with ⟨problem, heq⟩ | ⟨text, heq⟩
  · rw [heq] at h
    cases h
    exact absurd rfl hcode
  · rw [heq] at h
    exact Compilation.success_of_code h hcode

/-- What is to be written is the code of a report, and if that fails, the build does. -/
theorem Attempt.settle_unwritten {a : Attempt} {name : String} {bytes : List UInt8}
    (h : a.wanted output = some (name, bytes)) (problem : FileProblem) :
    ∃ r, a.report = .ok r ∧ r.code ≠ none ∧ CommandLine.isNamed output = true ∧
      a.settle output (some problem) = .ok
        { success := false, errors := ["Failed to write output file: " ++ problem.describe name],
          warnings := r.warnings, diagnostics := r.diagnostics } := by
  unfold Attempt.wanted at h
  split at h
  · rename_i r name' hreport
    split at h
    · cases h
    · rename_i hname
      rw [Bool.or_eq_true, not_or, decide_eq_true_eq, Bool.not_eq_true] at hname
      obtain ⟨text, htext, heq⟩ := Option.map_eq_some_iff.mp h
      cases heq
      refine ⟨r, hreport, htext ▸ Option.some_ne_none text, ?_, ?_⟩
      · simp [CommandLine.isNamed, hname.1]
      · unfold Attempt.settle
        rw [hreport]
        simp [htext, hname.2]
  · cases h

/-- A failure of an attempt whose file was written, or that had none to write, is its own. -/
theorem Attempt.report_of_settle {a : Attempt} {r : Report} (h : a.settle output none = .ok r)
    (hfailed : r.success = false)
    (hcode : ∀ r', a.report = .ok r' → r'.code ≠ none → r'.success = true) : a.report = .ok r := by
  unfold Attempt.settle at h
  split at h
  · rename_i r' name hreport
    split at h
    · rw [hreport, h]
    · rename_i hsome
      split at h
      · cases h
      · cases h
        have hsuccess := hcode r' hreport fun hnone => hsome (by rw [hnone]; rfl)
        exact absurd (hsuccess.symm.trans hfailed) Bool.true_eq_false.mp
  · exact h

/-- **A build fails in one of the three ways.** -/
theorem compileFile_fails {r : Report}
    (h : (compileFile files source output checkOnly).report = .ok r) (hfailed : r.success = false) :
    Fails files source output checkOnly r
      (compileFile files source output checkOnly).journal := by
  have hsettled : ¬ Unwritable files source output checkOnly →
      (attempt source checkOnly (FileSystem.read files source)).settle output none = .ok r →
      Fails files source output checkOnly r
        (attempt source checkOnly (FileSystem.read files source)).journal := by
    intro hwritable hsettle
    have hreport := Attempt.report_of_settle hsettle hfailed fun _ => attempt_success_of_code
    rcases attempt_cases hreport with ⟨problem, heq⟩ | ⟨text, heq⟩
    · rw [heq] at hreport ⊢
      cases hreport
      exact .unread hwritable
    · rw [heq] at hreport ⊢
      exact .refused hwritable hreport hfailed
  unfold compileFile Attempt.finish at h ⊢
  cases hwanted : (attempt source checkOnly (FileSystem.read files source)).wanted output with
  | none =>
    rw [hwanted] at h
    refine hsettled ?_ h
    rintro ⟨name, bytes, problem, hsome, -⟩
    rw [hwanted] at hsome
    cases hsome
  | some target =>
    obtain ⟨name, bytes⟩ := target
    rw [hwanted] at h
    cases hwrite : FileSystem.write files name bytes with
    | ok files' =>
      simp only [hwrite] at h ⊢
      refine hsettled ?_ h
      rintro ⟨name', bytes', problem, hsome, herror⟩
      rw [hwanted] at hsome
      cases hsome
      rw [hwrite] at herror
      cases herror
    | error problem =>
      simp only [hwrite] at h ⊢
      obtain ⟨r', hreport, hcode, hnamed, hsettle⟩ := Attempt.settle_unwritten hwanted problem
      rw [hsettle] at h
      cases h
      have hunwritable : Unwritable files source output checkOnly :=
        ⟨name, bytes, problem, hwanted, hwrite⟩
      rcases attempt_cases hreport with ⟨problem', heq⟩ | ⟨text, heq⟩
      · rw [heq] at hreport
        cases hreport
        exact absurd rfl hcode
      · rw [heq] at hreport ⊢
        exact .unwritten hunwritable hreport hcode hnamed

end Builds

/-! ## 3. A compilation tells its errors -/

/-- The errors of a report are among the lines for the user. -/
theorem Upshot.errors_told {items : List Diagnostic} {closing : List String} {ending : Bool → Ending}
    (h : Upshot items closing ending) {c : Compilation} {checkOnly : Bool}
    (htold : c.Tells items closing (ending checkOnly)) {r : Report} (hreport : c.report = .ok r) :
    ∀ e ∈ r.errors, e ∈ c.journal.userLines := by
  obtain ⟨r', hr⟩ := h.concludes htold
  rw [hr.report] at hreport
  cases hreport
  intro e he
  rw [hr.errors] at he
  rw [htold.userLines]
  split at he
  · cases he
  · rename_i hfailed
    rcases List.mem_append.mp he with herror | habort
    · obtain ⟨d, hd, rfl⟩ := List.mem_map.mp herror
      exact List.mem_append_left _ (List.mem_map_of_mem (List.mem_of_mem_filter hd))
    · rw [List.mem_singleton.mp habort]
      refine List.mem_append_right _ ?_
      cases h with
      | fatal hfatal => simp [abortLine, hfatal]
      | semantic hfatal => simp [abortLine, hfatal]
      | clean code hfatal herrors =>
        have hnone := Diagnostic.hasFatal_eq_false_iff.mp hfatal
        exact absurd (hr.success.mpr fun d hd => ⟨fun hf => hnone ⟨d, hd, hf⟩,
          Diagnostic.count_eq_zero_iff.mp herrors d hd⟩) hfailed

/-- A compilation that has a report took one of the courses. -/
theorem compile_course_of_report {path : String} {checkOnly : Bool} {text : List Char} {r : Report}
    (h : (compile path checkOnly text).report = .ok r) :
    ∃ s items closing ending, scan text = .ok s ∧ Course s items closing ending ∧
      (compile path checkOnly text).Tells items closing (ending checkOnly) := by
  cases hscan : scan text with
  | error fault =>
    rw [compile_of_scan_error hscan] at h
    cases h
  | ok s =>
    obtain ⟨items, closing, ending, hcourse, htells⟩ := compile_course hscan
    exact ⟨s, items, closing, ending, rfl, hcourse, htells path checkOnly⟩

/-- The report of a refused compilation has errors. -/
theorem Upshot.errors_ne_nil {items : List Diagnostic} {closing : List String}
    {ending : Bool → Ending} (h : Upshot items closing ending) {c : Compilation} {checkOnly : Bool}
    (htold : c.Tells items closing (ending checkOnly)) {r : Report} (hreport : c.report = .ok r)
    (hfailed : r.success = false) : r.errors ≠ [] := by
  obtain ⟨r', hr⟩ := h.concludes htold
  rw [hr.report] at hreport
  cases hreport
  rw [hr.errors, hfailed]
  exact List.append_ne_nil_of_right_ne_nil _ (List.cons_ne_nil _ _)

/-- A report shows the diagnostics of its compilation. -/
theorem Compilation.report_diagnostics {c : Compilation} {r : Report} (h : c.report = .ok r) :
    r.diagnostics = some c.journal.diagnostics := by
  unfold Compilation.report at h
  dsimp only at h
  split at h <;> cases h <;> rfl

theorem Compilation.diagnostics_ne_none {c : Compilation} {r : Report} (h : c.report = .ok r) :
    r.diagnostics ≠ none := by
  rw [Compilation.report_diagnostics h]
  exact Option.some_ne_none _

/-! ## 4. What a success tells has no bracket in it -/

/-- The text has no opening bracket in it. -/
def Unbracketed (text : String) : Prop := '[' ∉ text.toList

instance (text : String) : Decidable (Unbracketed text) :=
  inferInstanceAs (Decidable ('[' ∉ text.toList))

@[simp] theorem unbracketed_append {a b : String} :
    Unbracketed (a ++ b) ↔ Unbracketed a ∧ Unbracketed b := by
  simp [Unbracketed, String.toList_append]

theorem unbracketed_of_isDecimal {text : String} (h : Text.IsDecimal text) : Unbracketed text :=
  h.not_mem (by decide)

theorem IsName.unbracketed {name : String} (h : IsName name) : Unbracketed name := by
  obtain ⟨c, rest, htext, hstart, hrest⟩ := h.word
  unfold Unbracketed
  rw [htext]
  intro hmem
  rcases List.mem_cons.mp hmem with hhead | htail
  · rw [← hhead] at hstart
    exact absurd hstart (by decide)
  · exact absurd (hrest _ htail) (by decide)

theorem unbracketed_unlines : ∀ {lines : List String}, (∀ line ∈ lines, Unbracketed line) →
    Unbracketed (unlines lines)
  | [], _ => by decide
  | line :: lines, h => by
      obtain ⟨hline, hlines⟩ := List.forall_mem_cons.mp h
      rw [show unlines (line :: lines) = (line ++ "\n") ++ unlines lines from
        unlines_append [line] lines]
      exact unbracketed_append.mpr
        ⟨unbracketed_append.mpr ⟨hline, by decide⟩, unbracketed_unlines hlines⟩

theorem Diagnostic.unbracketed_text {d : Diagnostic} (h : Unbracketed d.message) :
    Unbracketed d.text := by
  have hline := unbracketed_of_isDecimal (Text.isDecimal_int d.pos.line)
  have hcolumn := unbracketed_of_isDecimal (Text.isDecimal_int d.pos.column)
  have hseverity : Unbracketed d.severity.name := by cases d.severity <;> decide
  have hcolon : Unbracketed ":" := by decide
  have hopen : Unbracketed " **" := by decide
  have hclose : Unbracketed "** " := by decide
  unfold Diagnostic.text Position.text
  exact unbracketed_append.mpr ⟨unbracketed_append.mpr ⟨unbracketed_append.mpr ⟨unbracketed_append.mpr
    ⟨unbracketed_append.mpr ⟨unbracketed_append.mpr ⟨hline, hcolon⟩, hcolumn⟩, hopen⟩, hseverity⟩,
    hclose⟩, h⟩

theorem Diagnostic.unbracketed_summary (ds : List Diagnostic) : Unbracketed (summary ds) := by
  have herrors := unbracketed_of_isDecimal (Text.isDecimal_nat (count ds .semanticError))
  have hwarnings := unbracketed_of_isDecimal (Text.isDecimal_nat (count ds .semanticWarning))
  unfold summary
  simp only [unbracketed_append]
  exact ⟨⟨⟨by decide, herrors⟩, by decide⟩, ⟨⟨by decide, hwarnings⟩, by decide⟩⟩

theorem FileProblem.bracketed_describe (problem : FileProblem) (path : String) :
    ¬ Unbracketed (problem.describe path) := by
  intro h
  simp only [FileProblem.describe, unbracketed_append] at h
  exact absurd h.1.1.1.1.1 (by decide)

/-- Lexing warns of large numbers only. -/
theorem scan_warnings {source : List Char} {s : Scan} (h : scan source = .ok s) :
    ∀ i ∈ s.warnings, i.problem = .integerTooLarge := by
  unfold scan at h
  dsimp only at h
  split at h <;> cases h
  intro i hi
  obtain ⟨p, -, hp⟩ := List.mem_filterMap.mp hi
  unfold Piece.warning? at hp
  split at hp <;> cases hp
  rfl

/-- The only defect that is no error is a variable of type void. -/
theorem Defect.eq_voidVariable {d : Defect} (h : d.kind.severity ≠ .semanticError) :
    ∃ name, d = .voidVariable name := by
  cases d with
  | voidVariable name => exact ⟨name, rfl⟩
  | _ => exact absurd rfl h

/-- What the check says of a program without errors has no bracket in it. -/
theorem Check.unbracketed_of_accepted {p : Program} (hp : p.Proper) (h : p.Accepted) :
    ∀ d ∈ (Check.program p).diagnostics, Unbracketed d.text := by
  intro d hd
  have hblameless := Journal.blameless_iff.mpr h d hd
  obtain ⟨defect, hnamed, pos, rfl⟩ := (Check.program_findings hp).of_mem_diagnostics hd
  obtain ⟨name, rfl⟩ := Defect.eq_voidVariable hblameless
  have hname : Unbracketed name := IsName.unbracketed hnamed
  refine Diagnostic.unbracketed_text ?_
  exact unbracketed_append.mpr ⟨unbracketed_append.mpr ⟨by decide, hname⟩, by decide⟩

/-- **A compilation that has code has told its user nothing with a bracket in it.** -/
theorem unbracketed_of_code {path : String} {checkOnly : Bool} {text : List Char} {r : Report}
    (h : (compile path checkOnly text).report = .ok r) (hcode : r.code ≠ none) :
    ∀ line ∈ (compile path checkOnly text).journal.userLines, Unbracketed line := by
  obtain ⟨s, items, closing, ending, hscan, hcourse, htold⟩ := compile_course_of_report h
  have hrefused : ∀ {line : String}, ending checkOnly = .refused line → False := by
    intro line hending
    rw [hending] at htold
    rw [htold.report_refused] at h
    cases h
    exact hcode rfl
  rw [htold.userLines]
  cases hcourse with
  | lexical => exact (hrefused rfl).elim
  | syntactic => exact (hrefused rfl).elim
  | semantic => exact (hrefused rfl).elim
  | accepted herrors hparse hproper haccepted =>
    rw [List.map_append]
    refine List.forall_mem_append.mpr ⟨List.forall_mem_append.mpr ⟨?_, ?_⟩, ?_⟩
    · -- there are no errors, and the warnings are about large numbers
      unfold Scan.diagnostics
      rw [herrors, List.map_nil, List.append_nil, List.map_map]
      intro line hline
      obtain ⟨i, hi, rfl⟩ := List.mem_map.mp hline
      refine Diagnostic.unbracketed_text ?_
      change Unbracketed i.problem.message
      rw [scan_warnings hscan i hi]
      decide
    · intro line hline
      obtain ⟨d, hd, rfl⟩ := List.mem_map.mp hline
      exact Check.unbracketed_of_accepted hproper haccepted d hd
    · exact List.forall_mem_singleton.mpr (Diagnostic.unbracketed_summary _)

/-! ## 5. Sessions -/

namespace CommandLine

variable {σ : Type} [FileSystem σ] {files : σ} {level : Option String} {arguments : List String}

/-- A run with exit code one is a build that failed, and shows what the build has left. -/
theorem run_failed (h : (run files level arguments).display.exit = .ok 1) :
    ∃ source output checkOnly verbose r,
      Command.ofArguments arguments = .ok (.build source output checkOnly verbose) ∧
      (compileFile files source output checkOnly).report = .ok r ∧ r.success = false ∧
      (run files level arguments).display = display output checkOnly (verbose || showsTraces level)
        (compileFile files source output checkOnly).journal (.ok r) := by
  unfold run at h ⊢
  split at h
  · cases h
  · cases h
  · rename_i source output checkOnly verbose hcommand
    dsimp only at h
    cases hreport : (compileFile files source output checkOnly).report with
    | error f =>
      rw [hreport] at h
      cases h
    | ok r =>
      rw [hreport] at h
      have hfailed : r.success = false := by
        cases hsuccess : r.success with
        | false => rfl
        | true =>
          unfold display at h
          simp [hsuccess] at h
      refine ⟨source, output, checkOnly, verbose, r, hcommand, hreport, hfailed, ?_⟩
      dsimp only
      rw [hreport]

/-- A run that cannot write its output fails. -/
theorem exit_of_unwritable {source : String} {output : Option String} {checkOnly verbose : Bool}
    (hcommand : Command.ofArguments arguments = .ok (.build source output checkOnly verbose))
    (h : Unwritable files source output checkOnly) :
    (run files level arguments).display.exit = .ok 1 := by
  obtain ⟨name, bytes, problem, hwanted, hwrite⟩ := h
  obtain ⟨r, -, -, -, hsettle⟩ := Attempt.settle_unwritten hwanted problem
  have hreport : (compileFile files source output checkOnly).report = .ok
      { success := false, errors := ["Failed to write output file: " ++ problem.describe name],
        warnings := r.warnings, diagnostics := r.diagnostics } := by
    simp only [compileFile, Attempt.finish, hwanted, hwrite, hsettle]
  unfold run
  rw [hcommand]
  dsimp only
  rw [hreport]
  rfl

theorem userLines_sublist_allLines (j : Journal) : j.userLines.Sublist j.allLines := by
  induction j with
  | nil => exact List.Sublist.slnil
  | cons e j ih =>
    cases e with
    | trace t => exact ih.cons _
    | fault f => exact ih
    | diagnostic d => exact ih.cons_cons _
    | notice line => exact ih.cons_cons _

theorem display_ok (output : Option String) (checkOnly traced : Bool) (j : Journal) (r : Report) :
    display output checkOnly traced j (.ok r) =
      { exit := .ok (if r.success then 0 else 1),
        stdout := (streams (isNamed output || checkOnly) traced j).1 ++ closing output r,
        stderr := (streams (isNamed output || checkOnly) traced j).2 } := rfl

/-- A line for the user is told on one of the streams. -/
theorem told_display {output : Option String} {checkOnly traced : Bool} {j : Journal} {r : Report}
    {line : String} (h : line ∈ j.userLines) :
    Told line (display output checkOnly traced j (.ok r)).stdout ∨
      Told line (display output checkOnly traced j (.ok r)).stderr := by
  have hline : ∀ {lines : List String} (more : String), line ∈ lines →
      Told line (unlines lines ++ more) := by
    intro lines more hmem
    rw [← String.empty_append (s := line)] at hmem
    exact told_of_mem hmem (by decide) more
  rw [display_ok]
  cases isNamed output || checkOnly with
  | true => exact .inl (hline _ h)
  | false =>
    refine .inr ?_
    rw [← String.append_empty (s := (streams false traced j).2)]
    cases traced with
    | false => exact hline "" h
    | true => exact hline "" ((userLines_sublist_allLines j).subset h)

/-- A source that could not be read is told on standard output. -/
theorem told_unread (output : Option String) (checkOnly traced : Bool) (e : String) :
    Told e (display output checkOnly traced [] (.ok { success := false, errors := [e] })).stdout := by
  have hquiet : (streams (isNamed output || checkOnly) traced []).1 = "" := by
    unfold streams
    split <;> rfl
  have htold : Told e (unlines ["Error: " ++ e] ++ "") :=
    told_of_mem List.mem_cons_self (by decide) ""
  rw [display_ok, hquiet, String.empty_append]
  rwa [String.append_empty] at htold

/-- With an output file, a build whose diagnostics are known shows nothing but them. -/
theorem display_named {output : Option String} (h : isNamed output = true) (checkOnly traced : Bool)
    (j : Journal) {r : Report} (hfailed : r.success = false) (hitems : r.diagnostics ≠ none) :
    (display output checkOnly traced j (.ok r)).stdout = unlines j.userLines ∧
      (display output checkOnly traced j (.ok r)).stderr =
        if traced then unlines j.traceLines else "" := by
  have hclosing : closing output r = "" := by
    unfold closing
    rw [hfailed, Option.isNone_eq_false_iff.mpr (Option.isSome_iff_ne_none.mpr hitems)]
    rfl
  rw [display_ok, hclosing, h]
  exact ⟨String.append_empty, rfl⟩

end CommandLine

open CommandLine in
/-- **Failures are told, all but one.** A run with exit code one is a build that failed with errors.
    Unless the build has code and cannot write it, each of its errors is part of a line on one of
    the streams. If it cannot write its code, its only error is not on standard output, and on the
    other stream there is nothing but traces, if those were asked for. -/
theorem failures_told {σ : Type} [FileSystem σ] {files : σ} {level : Option String}
    {arguments : List String}
    (h : (run files level arguments).display.exit = .ok 1) :
    ∃ source output checkOnly verbose r,
      Command.ofArguments arguments = .ok (.build source output checkOnly verbose) ∧
      (compileFile files source output checkOnly).report = .ok r ∧ r.success = false ∧
      r.errors ≠ [] ∧
      (¬ Unwritable files source output checkOnly → ∀ e ∈ r.errors,
        Told e (run files level arguments).display.stdout ∨
          Told e (run files level arguments).display.stderr) ∧
      (Unwritable files source output checkOnly → ∃ e, r.errors = [e] ∧
        ¬ e.toList <:+: (run files level arguments).display.stdout.toList ∧
        (run files level arguments).display.stderr =
          if verbose || showsTraces level then
            unlines (compileFile files source output checkOnly).journal.traceLines
          else "") := by
  obtain ⟨source, output, checkOnly, verbose, r, hcommand, hreport, hfailed, hdisplay⟩ :=
    run_failed h
  refine ⟨source, output, checkOnly, verbose, r, hcommand, hreport, hfailed, ?_⟩
  rw [hdisplay]
  have hfails := compileFile_fails hreport hfailed
  generalize (compileFile files source output checkOnly).journal = journal at hfails
  cases hfails with
  | unread hwritable =>
    refine ⟨List.cons_ne_nil _ _, fun _ e he => .inl ?_, fun hun => absurd hun hwritable⟩
    rw [List.mem_singleton.mp he]
    exact told_unread output checkOnly _ _
  | refused hwritable hreport hfailed =>
    obtain ⟨s, items, closing, ending, -, hcourse, htold⟩ := compile_course_of_report hreport
    have herrors := hcourse.upshot.errors_told htold hreport
    refine ⟨?_, fun _ e he => told_display (herrors e he), fun hun => absurd hun hwritable⟩
    exact hcourse.upshot.errors_ne_nil htold hreport hfailed
  | @unwritten text r' name problem hunwritable hcompiled hcode hnamed =>
    refine ⟨List.cons_ne_nil _ _, fun hwritable => absurd hunwritable hwritable,
      fun _ => ⟨_, rfl, ?_⟩⟩
    have hitems : r'.diagnostics ≠ none := Compilation.diagnostics_ne_none hcompiled
    obtain ⟨hout, herr⟩ := display_named hnamed checkOnly (verbose || showsTraces level)
      (compile source checkOnly text).journal hfailed hitems
    have hplain := unbracketed_unlines (unbracketed_of_code hcompiled hcode)
    rw [← hout] at hplain
    refine ⟨fun hpart => ?_, herr⟩
    have herror : Unbracketed ("Failed to write output file: " ++ problem.describe name) :=
      fun hmem => hplain (hpart.subset hmem)
    exact problem.bracketed_describe name (unbracketed_append.mp herror).2

/-- An empty source file, and no directory beside it. -/
def loneSource : Files := ⟨[(["a"], .file [])]⟩

theorem loneSource_read : FileSystem.read loneSource "a" = .ok [] :=
  ok_of_toOption (by decide +kernel)

theorem loneSource_write (bytes : List UInt8) :
    ∃ problem, FileSystem.write loneSource "d/x" bytes = .error problem := by
  have htarget : (loneSource.target "d/x").toOption = none := by decide +kernel
  change ∃ problem, loneSource.write "d/x" bytes = .error problem
  unfold Files.write
  cases hplace : loneSource.target "d/x" with
  | error problem => exact ⟨problem, rfl⟩
  | ok names =>
    rw [hplace] at htarget
    cases htarget

/-- A text without declarations is compiled to code. -/
theorem code_of_nothing (path : String) :
    ∃ r code, (compile path false []).report = .ok r ∧ r.code = some code := by
  have hscan : scan [] = .ok ⟨[⟨.eof, "", .start⟩], [], []⟩ := by
    with_unfolding_all rfl
  have hparse : Parse.program [⟨.eof, "", .start⟩] = .ok ⟨[]⟩ := by with_unfolding_all rfl
  unfold compile
  rw [hscan]
  dsimp only
  unfold compileTokens
  rw [hparse]
  exact ⟨_, _, rfl, rfl⟩

theorem loneSource_unwritable : Unwritable loneSource "a" (some "d/x") false := by
  have htext : sourceText [] = .ok [] := by with_unfolding_all rfl
  have hattempt : attempt "a" false (.ok []) =
      ⟨(compile "a" false []).report, (compile "a" false []).journal⟩ := by
    unfold attempt
    rw [if_neg (by decide)]
    dsimp only
    rw [htext]
  obtain ⟨r, code, hreport, hcode⟩ := code_of_nothing "a"
  obtain ⟨problem, hwrite⟩ := loneSource_write (textBytes code)
  refine ⟨"d/x", textBytes code, problem, ?_, hwrite⟩
  have hname : ("d/x" = "" || hasZero "d/x") = false := by decide
  rw [loneSource_read, hattempt, hreport]
  unfold Attempt.wanted
  dsimp only
  rw [hname, hcode]
  rfl

open CommandLine in
/-- The output file is in a directory that does not exist. -/
theorem failures_told_noDirectory :
    (run loneSource none ["a", "-o", "d/x"]).display.exit = .ok 1 ∧
      ∃ r e, (compileFile loneSource "a" (some "d/x") false).report = .ok r ∧ r.errors = [e] ∧
        ¬ e.toList <:+: (run loneSource none ["a", "-o", "d/x"]).display.stdout.toList ∧
        (run loneSource none ["a", "-o", "d/x"]).display.stderr = "" := by
  have hcommand : Command.ofArguments ["a", "-o", "d/x"] =
      .ok (.build "a" (some "d/x") false false) := rfl
  have hexit : (run loneSource none ["a", "-o", "d/x"]).display.exit = .ok 1 :=
    exit_of_unwritable hcommand loneSource_unwritable
  obtain ⟨source, output, checkOnly, verbose, r, hbuild, hreport, -, -, -, htold⟩ :=
    failures_told hexit
  rw [hcommand] at hbuild
  cases hbuild
  obtain ⟨e, herrors, hout, herr⟩ := htold loneSource_unwritable
  exact ⟨hexit, r, e, hreport, herrors, hout, herr⟩

end CMinusMinus
