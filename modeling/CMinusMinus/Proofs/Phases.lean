/-
  File:      CMinusMinus/Proofs/Phases.lean
  Subject:   The phases of a compilation, and what its user is told.

  A compilation of a text that could be lexed takes one of four courses: it stops at lexical errors,
  at a syntax error, or at semantic errors, or it runs to its end. Which one it takes, and what it
  says on the way, does not depend on whether the program is only checked. All that a report shows
  can be read off the list of diagnostics.

  * `Course` -- the four courses: the diagnostics, the lines behind them, and the ending;
  * `compile_course` -- every compilation takes one of them;
  * `Concludes` -- what the diagnostics say about the report and the output;
  * `compile_concludes` -- **every compilation concludes so**, whether it only checks or not.
-/
import CMinusMinus.Compilation
import CMinusMinus.Proofs.Agreement
import CMinusMinus.Proofs.ParserTotality

namespace CMinusMinus

/-! ## 1. What a compilation tells -/

namespace Journal

variable {j : Journal}

@[simp] theorem userLines_append (i j : Journal) :
    (i ++ j).userLines = i.userLines ++ j.userLines := List.filterMap_append

theorem Faultless.beforeFault_eq (h : j.Faultless) : j.beforeFault = j := by
  refine List.takeWhile_eq_self_iff.mpr fun e he => ?_
  cases e with
  | fault f => exact absurd he (h f)
  | _ => rfl

theorem diagnostics_map_diagnostic (ds : List Diagnostic) :
    Journal.diagnostics (ds.map .diagnostic) = ds := by
  rw [Journal.diagnostics, List.filterMap_map]
  exact List.filterMap_some

theorem diagnostics_map_trace (ts : List Trace) : Journal.diagnostics (ts.map .trace) = [] := by
  simp [Journal.diagnostics, List.filterMap_map]

end Journal

namespace Compilation

variable {c : Compilation} {items : List Diagnostic} {closing : List String} {ending : Ending}

/-- A compilation tells its user the items, then the closing lines, and has the ending. -/
structure Tells (c : Compilation) (items : List Diagnostic) (closing : List String)
    (ending : Ending) : Prop where
  diagnostics : c.journal.diagnostics = items
  userLines : c.journal.userLines = items.map Diagnostic.text ++ closing
  ending_eq : c.ending = ending

theorem tells_refuse (line : String) : (refuse line).Tells [] [line] (.refused line) :=
  ⟨rfl, rfl, rfl⟩

/-- What was told before stands in front. -/
theorem Tells.behind (h : c.Tells items closing ending) (earlier : Journal)
    (he : earlier.Noticeless) :
    (after earlier c).Tells (earlier.diagnostics ++ items) closing ending where
  diagnostics := by rw [after, Journal.diagnostics_append, h.diagnostics]
  userLines := by
    rw [after, Journal.userLines_append, h.userLines, he.userLines_eq, List.map_append,
      List.append_assoc]
  ending_eq := h.ending_eq

theorem Tells.behind_trace (h : c.Tells items closing ending) (t : Trace) :
    (after [.trace t] c).Tells items closing ending :=
  h.behind [.trace t] (by simp [Journal.Noticeless])

theorem Tells.behind_notice (h : c.Tells [] closing ending) (line : String) :
    (after [.notice line] c).Tells [] (line :: closing) ending where
  diagnostics := h.diagnostics
  userLines := congrArg (line :: ·) h.userLines
  ending_eq := h.ending_eq

end Compilation

/-! ## 2. The courses -/

/-- **The course of a compilation** after lexing: its diagnostics, the lines behind them, and the
    ending, which depends on whether the program is only checked. -/
inductive Course (s : Scan) : List Diagnostic → List String → (Bool → Ending) → Prop where
  | lexical (herrors : s.errors ≠ []) :
      Course s s.diagnostics [fatalAbort] fun _ => .refused fatalAbort
  | syntactic {problem : SyntaxProblem} {t : Token} (herrors : s.errors = [])
      (hparse : Parse.program s.tokens = .error (.unexpected problem (some t))) :
      Course s (s.diagnostics ++ [⟨t.pos, .fatal, problem.message⟩]) [fatalAbort]
        fun _ => .refused fatalAbort
  | semantic {p : Program} (herrors : s.errors = []) (hparse : Parse.program s.tokens = .ok p)
      (hproper : p.Proper) (hrefused : ¬ p.Accepted) :
      Course s (s.diagnostics ++ (Check.program p).diagnostics)
        [Diagnostic.summary (Check.program p).diagnostics, semanticAbort]
        fun _ => .refused semanticAbort
  | accepted {p : Program} (herrors : s.errors = []) (hparse : Parse.program s.tokens = .ok p)
      (hproper : p.Proper) (haccepted : p.Accepted) :
      Course s (s.diagnostics ++ (Check.program p).diagnostics)
        [Diagnostic.summary (Check.program p).diagnostics]
        fun checkOnly => if checkOnly then .checked else .lowered (Lower.program p {}).code

section Program

variable {p : Program} (path : String) (checkOnly : Bool) (hp : p.Proper)

include hp

/-- Lowering a program without errors tells its user nothing. -/
theorem lowerProgram_tells (h : p.Accepted) :
    (lowerProgram path p).Tells [] [] (.lowered (Lower.program p {}).code) := by
  obtain ⟨n, ⟨ts, htraces⟩, -⟩ := Lower.program_traces {} hp (hp.wellTyped h)
  have hjournal : (Lower.program p {}).after.journal = ts.map .trace := htraces
  have hfaultless : Journal.Faultless (ts.map .trace) := by simp [Journal.Faultless]
  unfold lowerProgram
  dsimp only
  rw [hjournal, Journal.faultless_iff.mp hfaultless, hfaultless.beforeFault_eq]
  have htold : Compilation.Tells ⟨[], .lowered (Lower.program p {}).code⟩ [] []
      (.lowered (Lower.program p {}).code) := ⟨rfl, rfl, rfl⟩
  have hbehind := htold.behind (.trace (.lowering path) :: ts.map .trace)
    (by simp [Journal.Noticeless])
  rwa [show Journal.diagnostics (.trace (.lowering path) :: ts.map .trace) = [] from
    Journal.diagnostics_map_trace ts] at hbehind

/-- The check tells what it found and sums it up. -/
theorem checkProgram_tells {closing : List String} {ending : Ending}
    (h : Compilation.Tells
      (if Diagnostic.count (Check.program p).diagnostics .semanticError ≠ 0 then
        Compilation.refuse semanticAbort
      else if checkOnly then ⟨[], .checked⟩ else lowerProgram path p) [] closing ending) :
    (checkProgram path checkOnly p).Tells (Check.program p).diagnostics
      (Diagnostic.summary (Check.program p).diagnostics :: closing) ending := by
  have hfindings := Check.program_findings hp
  have hquiet : Journal.Noticeless (.trace (.checking path) :: Check.program p) :=
    Journal.Findings.noticeless
      (List.forall_mem_cons.mpr ⟨.trace (.checking path), hfindings⟩)
  unfold checkProgram
  dsimp only
  rw [Journal.faultless_iff.mp hfindings.faultless, hfindings.faultless.beforeFault_eq]
  have htold := (h.behind_notice (Diagnostic.summary (Check.program p).diagnostics)).behind _ hquiet
  rwa [List.append_nil] at htold

theorem checkProgram_refused (h : ¬ p.Accepted) :
    (checkProgram path checkOnly p).Tells (Check.program p).diagnostics
      [Diagnostic.summary (Check.program p).diagnostics, semanticAbort]
      (.refused semanticAbort) := by
  have hcount : Diagnostic.count (Check.program p).diagnostics .semanticError ≠ 0 := h
  refine checkProgram_tells path checkOnly hp ?_
  rw [if_pos hcount]
  exact Compilation.tells_refuse semanticAbort

theorem checkProgram_accepted (h : p.Accepted) :
    (checkProgram path checkOnly p).Tells (Check.program p).diagnostics
      [Diagnostic.summary (Check.program p).diagnostics]
      (if checkOnly then .checked else .lowered (Lower.program p {}).code) := by
  have hcount : Diagnostic.count (Check.program p).diagnostics .semanticError = 0 := h
  refine checkProgram_tells path checkOnly hp ?_
  rw [if_neg (not_not.mpr hcount)]
  cases checkOnly with
  | true => exact ⟨rfl, rfl, rfl⟩
  | false => exact lowerProgram_tells path hp h

end Program

/-- On the tokens of a scan the parser makes a program or tells of a problem at a token. -/
theorem Complete.program {tokens : List Token} (h : Complete tokens) :
    (∃ p, Parse.program tokens = .ok p) ∨
      ∃ problem t, Parse.program tokens = .error (.unexpected problem (some t)) := by
  have houtcome := Parse.declarations_outcome _ h.stream
  unfold Parse.program
  cases hread : Parse.declarations (.ofTokens tokens) with
  | ok p => exact .inl ⟨_, rfl⟩
  | error f =>
    rw [hread] at houtcome
    obtain ⟨problem, t, rfl, -⟩ := h.fault houtcome
    exact .inr ⟨problem, t, rfl⟩

section Compile

variable {source : List Char} {s : Scan}

/-- Lexing tells its warnings and errors before anything else. -/
theorem compile_tells (h : scan source = .ok s) {path : String} {checkOnly : Bool}
    {items : List Diagnostic} {closing : List String} {ending : Ending}
    (htold : Compilation.Tells
      (if s.errors.isEmpty then compileTokens path checkOnly s.tokens
       else Compilation.refuse fatalAbort) items closing ending) :
    (compile path checkOnly source).Tells (s.diagnostics ++ items) closing ending := by
  unfold compile
  rw [h]
  refine .behind_trace ?_ _
  have hbehind := htold.behind (.trace (.lexed path s.tokens.length s.errors.length) ::
    s.diagnostics.map .diagnostic) (by simp [Journal.Noticeless])
  rwa [show Journal.diagnostics (.trace _ :: s.diagnostics.map .diagnostic) = s.diagnostics from
    Journal.diagnostics_map_diagnostic _] at hbehind

/-- **Every compilation of a text that can be lexed takes one of the courses**, and the same one
    whether it only checks or not. -/
theorem compile_course (h : scan source = .ok s) :
    ∃ items closing ending, Course s items closing ending ∧ ∀ path checkOnly,
      (compile path checkOnly source).Tells items closing (ending checkOnly) := by
  by_cases herrors : s.errors = []
  · have htokens : ∀ {path checkOnly items closing ending},
        (compileTokens path checkOnly s.tokens).Tells items closing ending →
        (compile path checkOnly source).Tells (s.diagnostics ++ items) closing ending := by
      intro path checkOnly items closing ending htold
      refine compile_tells h ?_
      rwa [herrors]
    unfold compileTokens at htokens
    rcases (scan_complete h).program with ⟨p, hparse⟩ | ⟨problem, t, hparse⟩
    · have hproper := Parse.parse_proper (scan_wellSpelled h) hparse
      rw [hparse] at htokens
      by_cases haccepted : p.Accepted
      · refine ⟨_, _, _, .accepted herrors hparse hproper haccepted, fun path checkOnly => ?_⟩
        have htold := checkProgram_accepted path checkOnly hproper haccepted
        exact htokens ((htold.behind_trace _).behind_trace _)
      · refine ⟨_, _, _, .semantic herrors hparse hproper haccepted, fun path checkOnly => ?_⟩
        have htold := checkProgram_refused path checkOnly hproper haccepted
        exact htokens ((htold.behind_trace _).behind_trace _)
    · rw [hparse] at htokens
      refine ⟨_, _, _, .syntactic herrors hparse, fun path checkOnly => ?_⟩
      have htold := (Compilation.tells_refuse fatalAbort).behind
        [.diagnostic ⟨t.pos, .fatal, problem.message⟩] (by simp [Journal.Noticeless])
      exact htokens (htold.behind_trace _)
  · refine ⟨_, _, _, .lexical herrors, fun path checkOnly => ?_⟩
    have hrefused : Compilation.Tells
        (if s.errors.isEmpty then compileTokens path checkOnly s.tokens
         else Compilation.refuse fatalAbort) [] [fatalAbort] (.refused fatalAbort) := by
      rw [if_neg (by simpa using herrors)]
      exact Compilation.tells_refuse fatalAbort
    have htold := compile_tells h hrefused
    rwa [List.append_nil] at htold

end Compile

/-! ## 3. What a course comes to -/

namespace Diagnostic

variable {ds : List Diagnostic}

theorem hasFatal_iff : hasFatal ds = true ↔ ∃ d ∈ ds, d.severity = .fatal := by
  simp [hasFatal]

theorem hasFatal_eq_false_iff : hasFatal ds = false ↔ ¬ ∃ d ∈ ds, d.severity = .fatal := by
  rw [← hasFatal_iff, Bool.not_eq_true]

theorem count_eq_zero_iff {severity : Severity} :
    count ds severity = 0 ↔ ∀ d ∈ ds, d.severity ≠ severity := by
  simp [count]

/-- Diagnostics that are neither semantic errors nor semantic warnings do not change the sums. -/
theorem summary_append {front : List Diagnostic}
    (h : ∀ d ∈ front, d.severity ≠ .semanticError ∧ d.severity ≠ .semanticWarning) :
    summary (front ++ ds) = summary ds := by
  have hnone : ∀ severity, (∀ d ∈ front, d.severity ≠ severity) →
      count (front ++ ds) severity = count ds severity := by
    intro severity hfront
    have hzero : front.countP (fun d => d.severity == severity) = 0 := count_eq_zero_iff.mpr hfront
    unfold count
    rw [List.countP_append, hzero, Nat.zero_add]
  unfold summary
  rw [hnone .semanticError fun d hd => (h d hd).1, hnone .semanticWarning fun d hd => (h d hd).2]

end Diagnostic

/-- Lexing gives warnings and errors of its own, never semantic ones. -/
theorem Scan.severity_of_mem {s : Scan} {d : Diagnostic} (h : d ∈ s.diagnostics) :
    d.severity = .warning ∨ d.severity = .fatal ∧ s.errors ≠ [] := by
  rcases List.mem_append.mp h with hwarning | herror
  · obtain ⟨i, -, rfl⟩ := List.mem_map.mp hwarning
    exact .inl rfl
  · obtain ⟨i, hi, rfl⟩ := List.mem_map.mp herror
    exact .inr ⟨rfl, List.ne_nil_of_mem hi⟩

theorem Scan.not_semantic_of_mem {s : Scan} {d : Diagnostic} (h : d ∈ s.diagnostics) :
    d.severity ≠ .semanticError ∧ d.severity ≠ .semanticWarning := by
  rcases Scan.severity_of_mem h with hd | ⟨hd, -⟩ <;> simp [hd]

theorem Scan.not_fatal_of_mem {s : Scan} (herrors : s.errors = []) {d : Diagnostic}
    (h : d ∈ s.diagnostics) : d.severity ≠ .fatal := by
  rcases Scan.severity_of_mem h with hd | ⟨-, hne⟩
  · simp [hd]
  · exact absurd herrors hne

/-- A defect is never fatal. -/
theorem Defect.severity_ne_fatal (d : Defect) (pos : Position) :
    (d.diagnostic pos).severity ≠ .fatal := by
  cases d <;> exact Severity.noConfusion

theorem Journal.Findings.not_fatal {j : Journal} (h : j.Findings) {d : Diagnostic}
    (hd : d ∈ j.diagnostics) : d.severity ≠ .fatal := by
  obtain ⟨defect, -, pos, rfl⟩ := h.of_mem_diagnostics hd
  exact defect.severity_ne_fatal pos

/-- **What a course comes to**, read off its diagnostics alone. -/
inductive Upshot (items : List Diagnostic) : List String → (Bool → Ending) → Prop where
  | fatal (hfatal : Diagnostic.hasFatal items = true)
      (hapart : ∀ d ∈ items, d.severity ≠ .semanticError ∧ d.severity ≠ .semanticWarning) :
      Upshot items [fatalAbort] fun _ => .refused fatalAbort
  | semantic (hfatal : Diagnostic.hasFatal items = false)
      (herrors : Diagnostic.count items .semanticError ≠ 0) :
      Upshot items [Diagnostic.summary items, semanticAbort] fun _ => .refused semanticAbort
  | clean (code : List Instr) (hfatal : Diagnostic.hasFatal items = false)
      (herrors : Diagnostic.count items .semanticError = 0) :
      Upshot items [Diagnostic.summary items]
        fun checkOnly => if checkOnly then .checked else .lowered code

/-- The findings of the check, behind the warnings of lexing, hold nothing fatal, and the warnings
    play no part in the sums. -/
theorem Scan.sums {s : Scan} {p : Program} (herrors : s.errors = []) (hp : p.Proper) :
    Diagnostic.hasFatal (s.diagnostics ++ (Check.program p).diagnostics) = false ∧
    Diagnostic.summary (s.diagnostics ++ (Check.program p).diagnostics) =
      Diagnostic.summary (Check.program p).diagnostics ∧
    (Diagnostic.count (s.diagnostics ++ (Check.program p).diagnostics) .semanticError = 0 ↔
      p.Accepted) := by
  refine ⟨Diagnostic.hasFatal_eq_false_iff.mpr ?_,
    Diagnostic.summary_append fun d => Scan.not_semantic_of_mem, ?_⟩
  · rintro ⟨d, hd, hfatal⟩
    rcases List.mem_append.mp hd with hlexical | hfound
    · exact Scan.not_fatal_of_mem herrors hlexical hfatal
    · exact (Check.program_findings hp).not_fatal hfound hfatal
  · unfold Program.Accepted
    rw [Diagnostic.count_eq_zero_iff, Diagnostic.count_eq_zero_iff, List.forall_mem_append]
    exact and_iff_right fun d hd => (Scan.not_semantic_of_mem hd).1

theorem Course.upshot {s : Scan} {items : List Diagnostic} {closing : List String}
    {ending : Bool → Ending} (h : Course s items closing ending) : Upshot items closing ending := by
  cases h with
  | lexical herrors =>
    obtain ⟨i, rest, hi⟩ := List.exists_cons_of_ne_nil herrors
    refine .fatal (Diagnostic.hasFatal_iff.mpr ⟨i.diagnostic .fatal, ?_, rfl⟩)
      fun d => Scan.not_semantic_of_mem
    exact List.mem_append_right _ (List.mem_map_of_mem (hi ▸ List.mem_cons_self))
  | syntactic herrors hparse =>
    refine .fatal (Diagnostic.hasFatal_iff.mpr ⟨_, List.mem_append_right _ List.mem_cons_self, rfl⟩)
      fun d hd => ?_
    rcases List.mem_append.mp hd with hlexical | hsyntax
    · exact Scan.not_semantic_of_mem hlexical
    · rw [List.mem_singleton.mp hsyntax]
      exact ⟨Severity.noConfusion, Severity.noConfusion⟩
  | semantic herrors hparse hproper hrefused =>
    obtain ⟨hfatal, hsummary, hcount⟩ := Scan.sums herrors hproper
    rw [← hsummary]
    exact .semantic hfatal fun hzero => hrefused (hcount.mp hzero)
  | accepted herrors hparse hproper haccepted =>
    obtain ⟨hfatal, hsummary, hcount⟩ := Scan.sums herrors hproper
    rw [← hsummary]
    exact .clean _ hfatal (hcount.mpr haccepted)

/-! ## 4. Reports -/

namespace Compilation

variable {c : Compilation} {items : List Diagnostic} {closing : List String}

theorem Tells.report_refused {line : String} (h : c.Tells items closing (.refused line)) :
    c.report = .ok
      { success := false, errors := Diagnostic.errors items ++ [line],
        warnings := Diagnostic.warnings items, diagnostics := some items } := by
  unfold Compilation.report
  rw [h.ending_eq, h.diagnostics]

theorem Tells.report_checked (h : c.Tells items closing .checked) :
    c.report = .ok
      { success := true, warnings := Diagnostic.warnings items, diagnostics := some items } := by
  unfold Compilation.report
  rw [h.ending_eq, h.diagnostics]

theorem Tells.report_lowered {code : List Instr} (h : c.Tells items closing (.lowered code)) :
    c.report = .ok
      { success := true, warnings := Diagnostic.warnings items, code := some (programText code),
        diagnostics := some items } := by
  unfold Compilation.report
  rw [h.ending_eq, h.diagnostics]

end Compilation

/-- The line that ends a compilation with errors. -/
def abortLine (items : List Diagnostic) : String :=
  if Diagnostic.hasFatal items then fatalAbort else semanticAbort

/-- **What the diagnostics say** about the report of a compilation and about its output. -/
structure Concludes (checkOnly : Bool) (items : List Diagnostic) (c : Compilation) (r : Report) :
    Prop where
  report : c.report = .ok r
  diagnostics : r.diagnostics = some items
  /-- Fatal diagnostics and semantic ones never come together. -/
  apart : (∃ d ∈ items, d.severity = .fatal) →
    ∀ d ∈ items, d.severity ≠ .semanticError ∧ d.severity ≠ .semanticWarning
  success : r.success = true ↔
    ∀ d ∈ items, d.severity ≠ .fatal ∧ d.severity ≠ .semanticError
  code : r.code.isSome = true ↔ r.success = true ∧ checkOnly = false
  errors : r.errors = if r.success then [] else Diagnostic.errors items ++ [abortLine items]
  warnings : r.warnings = Diagnostic.warnings items
  /-- The diagnostics, the sums unless something is fatal, and the abort unless it succeeded. -/
  output : unlines c.journal.userLines = unlines (items.map Diagnostic.text ++
    (if Diagnostic.hasFatal items then [] else [Diagnostic.summary items]) ++
    (if r.success then [] else [abortLine items]))

/-- A compilation that comes to something concludes so. -/
theorem Upshot.concludes {items : List Diagnostic} {closing : List String} {ending : Bool → Ending}
    (h : Upshot items closing ending) {c : Compilation} {checkOnly : Bool}
    (htold : c.Tells items closing (ending checkOnly)) : ∃ r, Concludes checkOnly items c r := by
  cases h with
  | fatal hfatal hapart =>
    obtain ⟨d, hd, hseverity⟩ := Diagnostic.hasFatal_iff.mp hfatal
    refine ⟨_, htold.report_refused, rfl, fun _ => hapart, ?_, by simp, ?_, rfl, ?_⟩
    · exact iff_of_false Bool.false_ne_true fun hall => (hall d hd).1 hseverity
    · simp [abortLine, hfatal]
    · simp [htold.userLines, abortLine, hfatal]
  | semantic hfatal herrors =>
    have hnone := Diagnostic.hasFatal_eq_false_iff.mp hfatal
    refine ⟨_, htold.report_refused, rfl, fun hsome => absurd hsome hnone, ?_, by simp, ?_, rfl, ?_⟩
    · refine iff_of_false Bool.false_ne_true fun hall => herrors ?_
      exact Diagnostic.count_eq_zero_iff.mpr fun d hd => (hall d hd).2
    · simp [abortLine, hfatal]
    · simp [htold.userLines, abortLine, hfatal]
  | clean code hfatal herrors =>
    have hnone := Diagnostic.hasFatal_eq_false_iff.mp hfatal
    have hclean : ∀ d ∈ items, d.severity ≠ .fatal ∧ d.severity ≠ .semanticError :=
      fun d hd => ⟨fun hf => hnone ⟨d, hd, hf⟩, Diagnostic.count_eq_zero_iff.mp herrors d hd⟩
    have hlines : c.journal.userLines =
        items.map Diagnostic.text ++ [Diagnostic.summary items] := htold.userLines
    cases checkOnly with
    | true =>
      refine ⟨_, htold.report_checked, rfl, fun hsome => absurd hsome hnone,
        iff_of_true rfl hclean, by simp, rfl, rfl, ?_⟩
      simp [hlines, hfatal]
    | false =>
      refine ⟨_, htold.report_lowered, rfl, fun hsome => absurd hsome hnone,
        iff_of_true rfl hclean, by simp, rfl, rfl, ?_⟩
      simp [hlines, hfatal]

theorem ok_of_toOption {ε α : Type} {x : Except ε α} {a : α} (h : x.toOption = some a) :
    x = .ok a := by
  cases x with
  | error e => cases h
  | ok b => exact congrArg Except.ok (Option.some.inj h)

/-- The scan of a text whose characters are known. -/
theorem exists_scan_of_text {Q : Scan → Prop} [DecidablePred Q] {text : String} {cs : List Char}
    (htext : text = String.ofList cs)
    (h : (scan cs).toOption.any (fun s => decide (Q s)) = true) :
    ∃ s, scan text.toList = .ok s ∧ Q s := by
  obtain ⟨s, hs, hQ⟩ := (Option.any_eq_true _ _).mp h
  rw [htext, String.toList_ofList]
  exact ⟨s, ok_of_toOption hs, of_decide_eq_true hQ⟩

/-- **The phases of a compilation.** Of every text that can be lexed there is a report, both of the
    check alone and of the whole compilation. Each is what the diagnostics say, and the two agree in
    all but the code. -/
theorem compile_concludes {source : List Char} {s : Scan} (h : scan source = .ok s)
    (path : String) :
    ∃ items checked full,
      Concludes true items (compile path true source) checked ∧
      Concludes false items (compile path false source) full ∧
      checked.success = full.success ∧ checked.errors = full.errors ∧
      checked.warnings = full.warnings ∧ checked.diagnostics = full.diagnostics ∧
      unlines (compile path true source).journal.userLines =
        unlines (compile path false source).journal.userLines := by
  obtain ⟨items, closing, ending, hcourse, htells⟩ := compile_course h
  obtain ⟨checked, hchecked⟩ := hcourse.upshot.concludes (htells path true)
  obtain ⟨full, hfull⟩ := hcourse.upshot.concludes (htells path false)
  have hsuccess : checked.success = full.success :=
    Bool.eq_iff_iff.mpr (hchecked.success.trans hfull.success.symm)
  refine ⟨items, checked, full, hchecked, hfull, hsuccess, ?_, ?_, ?_, ?_⟩
  · rw [hchecked.errors, hfull.errors, hsuccess]
  · rw [hchecked.warnings, hfull.warnings]
  · rw [hchecked.diagnostics, hfull.diagnostics]
  · rw [hchecked.output, hfull.output, hsuccess]

/-- A number that is too large, a variable of type void, and a name that nothing declares. -/
def threeKinds : String := "void v; int f() \x7b return 2147483648 + x; \x7d"

theorem compile_concludes_threeKinds :
    ∃ s, scan threeKinds.toList = .ok s ∧ s.warnings.length = 1 ∧
      ∃ items checked full,
        Concludes true items (compile inputPath true threeKinds.toList) checked ∧
        Concludes false items (compile inputPath false threeKinds.toList) full ∧
        checked.success = full.success ∧ checked.errors = full.errors ∧
        checked.warnings = full.warnings ∧ checked.diagnostics = full.diagnostics ∧
        unlines (compile inputPath true threeKinds.toList).journal.userLines =
          unlines (compile inputPath false threeKinds.toList).journal.userLines := by
  have hscan : ∃ s, scan threeKinds.toList = .ok s ∧ s.warnings.length = 1 := by
    set_option maxRecDepth 2000 in
    exact exists_scan_of_text rfl (by decide +kernel)
  obtain ⟨s, hs, hwarnings⟩ := hscan
  exact ⟨s, hs, hwarnings, compile_concludes hs inputPath⟩

end CMinusMinus
