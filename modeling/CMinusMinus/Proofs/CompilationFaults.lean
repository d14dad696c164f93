/-
  File:      CMinusMinus/Proofs/CompilationFaults.lean
  Subject:   Which texts make a compilation end without a report.

  Nearly everything that can be wrong with a text is told to the user. What is not told are digits
  that denote no number: a run of digits with a figure in it that has no decimal value, or with too
  many digits. Lexing stops there, and so does the compilation. This is the only way for a
  compilation to end without a report.

  * `Unreadable` -- the texts with such digits;
  * `scan_faults_iff` -- lexing stops at these texts only;
  * `compile_reports_iff` -- **a compilation reports on every other text, and on no such text.**
-/
import CMinusMinus.Proofs.ExactLexing
import CMinusMinus.Proofs.Numerals
import CMinusMinus.Proofs.Phases

namespace CMinusMinus

/-! ## 1. Digits that denote no number -/

/-- **Digits of the text denote no number**, and all that stands before them is told: one of the
    digits has no decimal value, or there are too many. -/
def Unreadable (source : List Char) : Prop :=
  ∃ texts tokens errors warnings run rest, source = texts.flatten ++ (run ++ rest) ∧
    Lexes (run ++ rest) [] texts tokens errors warnings ∧ DigitRun run rest ∧
    ((∃ c ∈ run, Text.decimal? c = none) ∨ Text.digitLimit < run.length)

theorem DigitRun.refused_iff {run rest : List Char} (h : DigitRun run rest) :
    (∃ fault, NoNumber fault run rest) ↔
      (∃ c ∈ run, Text.decimal? c = none) ∨ Text.digitLimit < run.length := by
  have hread := Text.readInt_isOk_iff h.digit h.nonempty
  constructor
  · rintro ⟨fault, hno⟩
    by_contra hall
    rw [not_or, Nat.not_lt] at hall
    have hvalues : ∀ c ∈ run, (Text.decimal? c).isSome = true := fun c hc =>
      Option.isSome_iff_ne_none.mpr fun hnone => hall.1 ⟨c, hc, hnone⟩
    obtain ⟨v, hv⟩ := hread.mpr ⟨hvalues, hall.2⟩
    rw [hno.refused] at hv
    cases hv
  · intro hbad
    cases hrun : Text.readInt run with
    | error fault => exact ⟨fault, h, hrun⟩
    | ok v =>
      obtain ⟨hvalues, hlength⟩ := hread.mp ⟨v, hrun⟩
      rcases hbad with ⟨c, hc, hnone⟩ | hlong
      · have hsome := hvalues c hc
        rw [hnone] at hsome
        cases hsome
      · exact absurd hlong (Nat.not_lt.mpr hlength)

/-- **Lexing stops at such digits only.** -/
theorem scan_faults_iff {source : List Char} :
    (∃ fault, scan source = .error fault) ↔ Unreadable source := by
  constructor
  · rintro ⟨fault, hscan⟩
    obtain ⟨texts, tokens, errors, warnings, run, rest, hsource, hlexes, hno⟩ :=
      scan_eq_error_iff.mp hscan
    exact ⟨texts, tokens, errors, warnings, run, rest, hsource, hlexes, hno.digits,
      hno.digits.refused_iff.mp ⟨fault, hno⟩⟩
  · rintro ⟨texts, tokens, errors, warnings, run, rest, hsource, hlexes, hdigits, hbad⟩
    obtain ⟨fault, hno⟩ := hdigits.refused_iff.mpr hbad
    exact ⟨fault, scan_eq_error_iff.mpr
      ⟨texts, tokens, errors, warnings, run, rest, hsource, hlexes, hno⟩⟩

theorem scan_ends_iff {source : List Char} :
    (∃ s, scan source = .ok s) ↔ ¬ Unreadable source := by
  rw [← scan_faults_iff]
  cases hscan : scan source with
  | ok s => simp
  | error fault => simp

/-! ## 2. Compilations -/

section Compile

variable {source : List Char} {path : String} {checkOnly : Bool}

/-- Where lexing stops, the compilation does. -/
theorem compile_of_scan_error {fault : Text.NumeralFault} (h : scan source = .error fault) :
    (compile path checkOnly source).report = .error (.numeral fault) := by
  unfold compile
  rw [h]
  rfl

/-- The issues that lexing met come first in the diagnostics. -/
theorem Course.issues_first {s : Scan} {items : List Diagnostic} {closing : List String}
    {ending : Bool → Ending} (h : Course s items closing ending) : s.diagnostics <+: items := by
  cases h with
  | lexical => exact List.prefix_rfl
  | syntactic => exact List.prefix_append _ _
  | semantic => exact List.prefix_append _ _
  | accepted => exact List.prefix_append _ _

/-- Where lexing ends, there is a report, and it tells what lexing met. -/
theorem compile_of_scan_ok {s : Scan} (h : scan source = .ok s) :
    ∃ r items, (compile path checkOnly source).report = .ok r ∧ r.diagnostics = some items ∧
      s.diagnostics <+: items := by
  obtain ⟨items, closing, ending, hcourse, htells⟩ := compile_course h
  obtain ⟨r, hr⟩ := hcourse.upshot.concludes (htells path checkOnly)
  exact ⟨r, items, hr.report, hr.diagnostics, hcourse.issues_first⟩

end Compile

/-- **Lexical problems are reported, all but one.** Exactly at the texts with digits that denote no
    number a new scanner fails and the compilation ends without a report. On every other text the
    scanner tells of each piece as it should, and the compilation has a report that begins with the
    warnings and errors of the scanner. -/
theorem compile_reports_iff (path : String) (checkOnly : Bool) (source : List Char) :
    (Unreadable source ↔ ∃ fault, (Scanner.ofText source).tokenize.1 = .error fault ∧
      (compile path checkOnly source).report = .error (.numeral fault)) ∧
    (¬ Unreadable source ↔ ∃ tokens scanner texts pieceTokens r items,
      (Scanner.ofText source).tokenize = (.ok tokens, scanner) ∧ source = texts.flatten ∧
      Lexes [] [] texts pieceTokens scanner.errors scanner.warnings ∧
      (compile path checkOnly source).report = .ok r ∧ r.diagnostics = some items ∧
      scanner.warnings.map (·.diagnostic .warning) ++ scanner.errors.map (·.diagnostic .fatal) <+:
        items) := by
  refine ⟨⟨fun hbad => ?_, ?_⟩, fun hgood => ?_, ?_⟩
  · obtain ⟨fault, hscan⟩ := scan_faults_iff.mpr hbad
    exact ⟨fault, Scanner.tokenize_ofText_error hscan, compile_of_scan_error hscan⟩
  · rintro ⟨fault, -, hreport⟩
    by_contra hgood
    obtain ⟨s, hscan⟩ := scan_ends_iff.mpr hgood
    obtain ⟨r, -, hr, -⟩ := compile_of_scan_ok hscan
    rw [hreport] at hr
    cases hr
  · obtain ⟨s, hscan⟩ := scan_ends_iff.mpr hgood
    obtain ⟨texts, pieceTokens, hsource, hlexes, -⟩ := scan_eq_ok_iff.mp hscan
    obtain ⟨r, items, hr, hitems, hfirst⟩ := compile_of_scan_ok hscan
    exact ⟨s.tokens, _, texts, pieceTokens, r, items, Scanner.tokenize_ofText hscan, hsource, hlexes,
      hr, hitems, hfirst⟩
  · rintro ⟨tokens, scanner, texts, pieceTokens, r, items, -, -, -, hr, -⟩ hbad
    obtain ⟨fault, hscan⟩ := scan_faults_iff.mpr hbad
    rw [compile_of_scan_error hscan] at hr
    cases hr

/-- A superscript two is read as a digit, and no number can be made of it. -/
theorem compile_reports_iff_superscript :
    (compile inputPath false ['²']).report = .error (.numeral (.malformed ['²'])) ∧
      Unreadable ['²'] := by
  have hscan : scan ['²'] = .error (.malformed ['²']) := by with_unfolding_all rfl
  exact ⟨compile_of_scan_error hscan, (compile_reports_iff inputPath false ['²']).1.mpr
    ⟨_, Scanner.tokenize_ofText_error hscan, compile_of_scan_error hscan⟩⟩

end CMinusMinus
