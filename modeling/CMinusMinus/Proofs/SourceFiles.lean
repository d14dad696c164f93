/-
  File:      CMinusMinus/Proofs/SourceFiles.lean
  Subject:   What becomes of a source file.

  A source file is opened, decoded and compiled, on whatever file system it is. If it cannot be opened, the build fails with one
  error and no diagnostics. If its bytes are written from a text, the build is that of the text. But
  if they are written from no text, the build ends by a fault: this failure to read a source is no
  error of a report. It is the only way for the reading of a source to end without one.

  * `compileText` -- a build from a text that is known;
  * `compileText_fault` -- the faults of such a build;
  * `source_read_or_refused` -- **a source is compiled or refused, unless its bytes are no text.**
-/
import CMinusMinus.Proofs.CompilationFaults
import CMinusMinus.Proofs.Encoding

namespace CMinusMinus

/-! ## 1. Builds from a text -/

variable {σ : Type} [FileSystem σ]

/-- Compiles a source text into an output file. -/
def compileText (files : σ) (path : String) (output : Option String) (checkOnly : Bool)
    (text : List Char) : Build σ :=
  let c := compile path checkOnly text
  Attempt.finish ⟨c.report, c.journal⟩ files output

/-- The report of a build is that of its attempt, given how the writing went. -/
theorem Attempt.finish_report (a : Attempt) (files : σ) (output : Option String) :
    ∃ problem, (a.finish files output).report = a.settle output problem := by
  unfold finish
  split
  · exact ⟨none, rfl⟩
  · split
    · exact ⟨none, rfl⟩
    · exact ⟨some _, rfl⟩

/-- An attempt without code leaves everything as it is. -/
theorem Attempt.finish_of_no_code {a : Attempt} (h : ∀ r, a.report = .ok r → r.code = none)
    (files : σ) (output : Option String) :
    a.finish files output = ⟨a.report, a.journal, files⟩ := by
  have hwanted : a.wanted output = none := by
    unfold wanted
    split
    · rename_i r name hreport
      split
      · rfl
      · rw [h r hreport]
        rfl
    · rfl
  have hsettle : a.settle output none = a.report := by
    unfold settle
    split
    · rename_i r name hreport
      rw [h r hreport, hreport]
      rfl
    · rfl
  unfold finish
  rw [hwanted, hsettle]

/-! ## 2. Faults -/

/-- A compilation faults only at digits that denote no number. -/
theorem numeral_of_compile_fault {path : String} {checkOnly : Bool} {text : List Char} {f : Fault}
    (h : (compile path checkOnly text).report = .error f) : ∃ n, f = .numeral n := by
  cases hscan : scan text with
  | error fault =>
    rw [compile_of_scan_error hscan] at h
    cases h
    exact ⟨fault, rfl⟩
  | ok s =>
    obtain ⟨r, -, hreport, -⟩ := @compile_of_scan_ok text path checkOnly s hscan
    rw [hreport] at h
    cases h

/-- Writing adds one fault only: an output path that no path can be. -/
theorem Attempt.settle_fault {a : Attempt} {output : Option String} {problem : Option FileProblem}
    {f : Fault} (h : a.settle output problem = .error f) : a.report = .error f ∨ f = .zeroInPath := by
  unfold settle at h
  split at h
  · split at h
    · cases h
    · split at h
      · cases h
        exact .inr rfl
      · split at h <;> cases h
  · exact .inl h

theorem compileText_fault {files : σ} {path : String} {output : Option String}
    {checkOnly : Bool} {text : List Char} {f : Fault}
    (h : (compileText files path output checkOnly text).report = .error f) :
    (∃ n, f = .numeral n) ∨ f = .zeroInPath := by
  unfold compileText at h
  obtain ⟨problem, hsettle⟩ := Attempt.finish_report ⟨(compile path checkOnly text).report,
    (compile path checkOnly text).journal⟩ files output
  exact (Attempt.settle_fault (hsettle.symm.trans h)).imp_left numeral_of_compile_fault

/-! ## 3. Reading a source -/

theorem sourceText_written (text : String) :
    sourceText (textBytes text) = .ok (Text.normaliseLineEnds text.toList) := by
  unfold sourceText
  rw [Text.decode_eq_ok_iff.mpr (textBytes_eq text)]
  rfl

/-- Bytes that are written from no text are refused where they break. -/
theorem sourceText_unwritten {bytes : List UInt8} (h : ∀ text, textBytes text ≠ bytes) :
    ∃ fault, sourceText bytes = .error fault ∧ Text.Breaks bytes fault.offset := by
  unfold sourceText
  cases hdecode : Text.decode bytes with
  | error fault => exact ⟨fault, rfl, Text.breaks_of_decode hdecode⟩
  | ok text =>
    refine absurd ?_ (h (String.ofList text))
    rw [textBytes_eq, String.toList_ofList]
    exact (Text.decode_eq_ok_iff.mp hdecode).symm

section Reading

variable {files : σ} {path : String} {output : Option String} {checkOnly : Bool}
  (hpath : hasZero path = false)

include hpath

theorem compileFile_unread {problem : FileProblem} (h : FileSystem.read files path = .error problem) :
    compileFile files path output checkOnly =
      ⟨.ok { success := false,
             errors := ["Failed to read source file: " ++ problem.describe path] }, [], files⟩ := by
  have hattempt : attempt path checkOnly (FileSystem.read files path) = ⟨.ok { success := false, errors :=
      ["Failed to read source file: " ++ problem.describe path] }, []⟩ := by
    unfold attempt
    rw [hpath, h]
    rfl
  rw [compileFile, hattempt]
  refine Attempt.finish_of_no_code (fun r hr => ?_) files output
  cases hr
  rfl

theorem compileFile_written {text : String} (h : FileSystem.read files path = .ok (textBytes text)) :
    compileFile files path output checkOnly =
      compileText files path output checkOnly (Text.normaliseLineEnds text.toList) := by
  rw [compileFile, h]
  unfold attempt
  rw [hpath]
  dsimp only
  rw [sourceText_written]
  rfl

theorem compileFile_unwritten {bytes : List UInt8} (h : FileSystem.read files path = .ok bytes)
    (hbytes : ∀ text, textBytes text ≠ bytes) :
    ∃ fault, Text.Breaks bytes fault.offset ∧
      compileFile files path output checkOnly = ⟨.error (.encoding fault), [], files⟩ := by
  obtain ⟨fault, hfault, hbreaks⟩ := sourceText_unwritten hbytes
  refine ⟨fault, hbreaks, ?_⟩
  have hattempt : attempt path checkOnly (FileSystem.read files path) = ⟨.error (.encoding fault), []⟩ := by
    unfold attempt
    rw [hpath, h]
    dsimp only
    rw [hfault]
    rfl
  rw [compileFile, hattempt]
  refine Attempt.finish_of_no_code (fun r hr => ?_) files output
  cases hr

end Reading

/-- **A source is compiled or refused, unless its bytes are no text.** A source that cannot be opened
    makes the build fail with one error, without diagnostics and code. A source whose bytes are
    written from a text is compiled as this text with its line ends made uniform. But bytes that are
    written from no text end the build by a fault, at the first place where no character is
    written; and no other source does. In each case but the second the files stay as they are. -/
theorem source_read_or_refused {path : String} (hpath : hasZero path = false) (files : σ)
    (output : Option String) (checkOnly : Bool) :
    (∀ problem, FileSystem.read files path = .error problem →
      compileFile files path output checkOnly =
        ⟨.ok { success := false,
               errors := ["Failed to read source file: " ++ problem.describe path] }, [], files⟩) ∧
    (∀ text, FileSystem.read files path = .ok (textBytes text) →
      compileFile files path output checkOnly =
        compileText files path output checkOnly (Text.normaliseLineEnds text.toList)) ∧
    (∀ bytes, FileSystem.read files path = .ok bytes → (∀ text, textBytes text ≠ bytes) →
      ∃ fault, Text.Breaks bytes fault.offset ∧
        compileFile files path output checkOnly = ⟨.error (.encoding fault), [], files⟩) ∧
    ((∃ fault, (compileFile files path output checkOnly).report = .error (.encoding fault)) ↔
      ∃ bytes, FileSystem.read files path = .ok bytes ∧ ∀ text, textBytes text ≠ bytes) := by
  refine ⟨fun _ => compileFile_unread hpath, fun _ => compileFile_written hpath,
    fun _ => compileFile_unwritten hpath, ?_, ?_⟩
  · rintro ⟨fault, hfault⟩
    cases hread : FileSystem.read files path with
    | error problem =>
      rw [compileFile_unread hpath hread] at hfault
      cases hfault
    | ok bytes =>
      refine ⟨bytes, rfl, ?_⟩
      rintro text rfl
      rw [compileFile_written hpath hread] at hfault
      rcases compileText_fault hfault with ⟨n, hn⟩ | hzero
      · cases hn
      · cases hzero
  · rintro ⟨bytes, hread, hbytes⟩
    obtain ⟨fault, -, hbuild⟩ :=
      @compileFile_unwritten σ _ files path output checkOnly hpath bytes hread hbytes
    exact ⟨fault, by rw [hbuild]⟩

/-- A source file of one byte that starts no character. -/
def strayByte : Files := ⟨[(["a"], .file [0xFF])]⟩

/-- There is no report about it. -/
theorem source_read_or_refused_strayByte :
    strayByte.read "a" = .ok [0xFF] ∧ (∀ text, textBytes text ≠ [0xFF]) ∧
      ∃ fault, compileFile strayByte "a" none false = ⟨.error (.encoding fault), [], strayByte⟩ := by
  have hread : strayByte.read "a" = .ok [0xFF] := ok_of_toOption (by decide +kernel)
  have hbytes : ∀ text, textBytes text ≠ [0xFF] := by
    intro text htext
    have hdecode := Text.decode_eq_ok_iff.mpr (htext.symm.trans (textBytes_eq text))
    have hrefused : Text.decode [0xFF] = .error ⟨0, [0xFF], .badStart⟩ := by
      with_unfolding_all rfl
    rw [hrefused] at hdecode
    cases hdecode
  have hpath : hasZero "a" = false := by decide
  obtain ⟨fault, -, hbuild⟩ :=
    (source_read_or_refused hpath strayByte none false).2.2.1 [0xFF] hread hbytes
  exact ⟨hread, hbytes, fault, hbuild⟩

end CMinusMinus
