/-
  File:      CMinusMinus/Proofs/LinesApart.lean
  Subject:   A line feed sets what is in front of it apart from what is behind it.

  To whatever is being read, the end of a line is the end of the text: a run goes on over neither, a
  sign finds no second half, a string is cut short at both, even behind a backslash, and a comment
  to the end of the line ends. Only a block comment goes on over the end of a line, so a text must
  not leave one open. Blanks are the other pieces that go on there, but they are told nowhere. Hence
  two texts with a line feed between them are lexed as each of them alone, the second one moved
  down by the lines of the first.

  * `TokenForm.before_line`, `Comment.before_line` and the like -- forms at the end of a text are
    forms at the end of a line;
  * `Position.down`, `Lexes.down` -- a reading moved down by lines;
  * `Lexes.behind_blanks` -- blanks in front of a reading;
  * `Lexes.join` -- two readings with a line feed between them;
  * `lines_lexed_apart` -- **two texts with a line feed between them are lexed apart.**
-/
import CMinusMinus.Proofs.ExactLexing
import CMinusMinus.Proofs.Phases
import CMinusMinus.Proofs.Relexing

namespace CMinusMinus

/-! ## 1. The end of a line is as good as the end of the text -/

section LineEnds

variable {rest : List Char} (more : List Char)

/-- A run that has ended does not go on over a line feed. -/
theorem EndsRun.before_line {p : Char → Bool} (h : EndsRun p rest) (hp : p '\n' = false) :
    EndsRun p (rest ++ '\n' :: more) := by
  cases rest with
  | nil =>
    intro c hc
    cases hc
    exact hp
  | cons d rest => exact fun c hc => h c hc

theorem AtLineEnd.before_line (h : AtLineEnd rest) : AtLineEnd (rest ++ '\n' :: more) :=
  endsRun_iff_atLineEnd.mp ((endsRun_iff_atLineEnd.mpr h).before_line more rfl)

/-- No character but a line feed is new at the head. -/
theorem head_before_line {c : Char} (h : rest.head? ≠ some c) (hc : isGap c = false) :
    (rest ++ '\n' :: more).head? ≠ some c := by
  cases rest with
  | nil =>
    rintro ⟨⟩
    cases hc
  | cons d rest => exact h

theorem DigitRun.before_line {text : List Char} (h : DigitRun text rest) :
    DigitRun text (rest ++ '\n' :: more) :=
  ⟨h.nonempty, h.digit, h.stop.before_line more (by decide)⟩

theorem WordRun.before_line {text : List Char} (h : WordRun text rest) :
    WordRun text (rest ++ '\n' :: more) := by
  obtain ⟨hdigit, hstart, hmore, hstop⟩ := h
  exact .mk hdigit hstart hmore (hstop.before_line more (by decide))

theorem Comment.before_line {text : List Char} (h : Comment text rest) :
    Comment text (rest ++ '\n' :: more) := by
  cases h with
  | hash hline hstop => exact .hash hline (hstop.before_line more)
  | slashes hline hstop => exact .slashes hline (hstop.before_line more)
  | block hfirst => exact .block hfirst

theorem TokenForm.before_line {kind : TokenKind} {text : List Char}
    (h : TokenForm kind text rest) : TokenForm kind text (rest ++ '\n' :: more) := by
  cases h with
  | number hdigits hread hsmall => exact .number (hdigits.before_line more) hread hsmall
  | string hbody => exact .string hbody
  | keyword hword hkeyword => exact .keyword (hword.before_line more) hkeyword
  | identifier hword hfree => exact .identifier (hword.before_line more) hfree
  | pair hpair => exact .pair hpair
  | first hpair hstop =>
    exact .first hpair (head_before_line more hstop (pairedKind?_second hpair))
  | single hsingle hslash =>
    refine .single hsingle fun hc => ?_
    obtain ⟨hline, hblock⟩ := hslash hc
    exact ⟨head_before_line more hline rfl, head_before_line more hblock rfl⟩

theorem LargeNumber.before_line {text : List Char} (h : LargeNumber text rest) :
    LargeNumber text (rest ++ '\n' :: more) :=
  ⟨h.digits.before_line more, h.large⟩

/-- What is refused at the end of a text is refused at the end of a line, but for an open comment. -/
theorem Rejected.before_line {problem : LexicalProblem} {text : List Char}
    (h : Rejected problem text rest) (hclosed : problem ≠ .unterminatedComment) :
    Rejected problem text (rest ++ '\n' :: more) := by
  cases h with
  | openComment => exact absurd rfl hclosed
  | openString hbody hstop => exact .openString hbody (hstop.before_line more)
  | openEscape hbody hstop => exact .openEscape hbody (hstop.before_line more)
  | badString hbody => exact .badString hbody
  | half hpair hstop => exact .half hpair (head_before_line more hstop (pairedKind?_second hpair))
  | stray hstray => exact .stray hstray

end LineEnds

/-! ## 2. Moving down -/

/-- The position so many lines below, in the same column. -/
def Position.down (n : Nat) (p : Position) : Position := ⟨p.line + n, p.column⟩

/-- The same token so many lines below. -/
def Token.down (n : Nat) (t : Token) : Token := { t with pos := t.pos.down n }

/-- The same issue so many lines below. -/
def LexicalIssue.down (n : Nat) (i : LexicalIssue) : LexicalIssue := { i with pos := i.pos.down n }

/-- What stands in front up to a line feed only adds lines. -/
theorem Position.behind_lines (lines before : List Char) :
    Position.behind (lines ++ '\n' :: before) =
      (Position.behind before).down (1 + lines.count '\n') := by
  unfold Position.behind Position.down
  rw [List.count_append, List.count_cons_self, List.reverse_append, List.reverse_cons,
    List.append_assoc, List.singleton_append, List.takeWhile_append]
  congr 1
  · push_cast
    omega
  · split
    · rename_i hall
      simp [hall]
    · rfl

/-- **A reading moved down** behind lines that end in a line feed. -/
theorem Lexes.down {rest before : List Char} {texts : List (List Char)} {tokens : List Token}
    {errors warnings : List LexicalIssue} (h : Lexes rest before texts tokens errors warnings)
    (lines : List Char) :
    let n := 1 + lines.count '\n'
    Lexes rest (lines ++ '\n' :: before) texts (tokens.map (·.down n)) (errors.map (·.down n))
      (warnings.map (·.down n)) := by
  intro n
  have hplace : ∀ before, (Position.behind before).down n =
      .behind (lines ++ '\n' :: before) := fun before => (Position.behind_lines lines before).symm
  induction h with
  | nil => exact .nil
  | blanks hform _ ih => exact .blanks hform (by simpa using ih)
  | comment hform _ ih => exact .comment hform (by simpa using ih)
  | token hform _ ih =>
    rw [List.map_cons, Token.down, hplace]
    exact .token hform (by simpa using ih)
  | largeNumber hform _ ih =>
    rw [List.map_cons, List.map_cons, Token.down, LexicalIssue.down, hplace]
    exact .largeNumber hform (by simpa using ih)
  | rejected hform _ ih =>
    rw [List.map_cons, LexicalIssue.down, hplace]
    exact .rejected hform (by simpa using ih)

/-! ## 3. Blanks in front -/

theorem LexicalProblem.pieceKind_ne_blank (problem : LexicalProblem) :
    problem.pieceKind ≠ .blank := by
  cases problem <;> exact PieceKind.noConfusion

/-- **Blanks in front of a reading** are told nowhere: they are a piece, or they belong to the blanks
    that it begins with. -/
theorem Lexes.behind_blanks {before gap : List Char} {texts : List (List Char)}
    {tokens : List Token} {errors warnings : List LexicalIssue} (hne : gap ≠ [])
    (hblank : ∀ c ∈ gap, isGap c = true)
    (h : Lexes [] (before ++ gap) texts tokens errors warnings) :
    ∃ all, all.flatten = gap ++ texts.flatten ∧ Lexes [] before all tokens errors warnings := by
  -- a piece of its own, in front of anything that does not begin with a blank
  have happart : EndsRun isGap (texts.flatten ++ []) →
      ∃ all, all.flatten = gap ++ texts.flatten ∧ Lexes [] before all tokens errors warnings :=
    fun hstop => ⟨gap :: texts, rfl, .blanks ⟨hne, hblank, hstop⟩ h⟩
  have hfirst : ∀ {kind : PieceKind} {text rest : List Char} {others : List (List Char)},
      CutAs kind text rest → kind ≠ .blank → EndsRun isGap ((text :: others).flatten ++ []) := by
    intro kind text rest others hcut hkind
    rw [List.flatten_cons, List.append_assoc]
    exact hcut.endsRun_isGap hkind _
  cases h with
  | nil => exact happart fun _ hc => by cases hc
  | @blanks _ text others _ _ _ hform hrest =>
    rw [List.append_assoc] at hrest
    have hrun : BlankRun (gap ++ text) (others.flatten ++ []) :=
      ⟨List.append_ne_nil_of_left_ne_nil hne text, List.forall_mem_append.mpr ⟨hblank, hform.blank⟩,
        hform.stop⟩
    exact ⟨(gap ++ text) :: others, by simp, .blanks hrun hrest⟩
  | comment hform => exact happart (hfirst hform.cut PieceKind.noConfusion)
  | token hform => exact happart (hfirst hform.cut PieceKind.noConfusion)
  | largeNumber hform => exact happart (hfirst hform.cut PieceKind.noConfusion)
  | rejected hform => exact happart (hfirst hform.cut (LexicalProblem.pieceKind_ne_blank _))

/-! ## 4. Two texts with a line feed between them -/

/-- **Two readings with a line feed between them** make one, if the first leaves no comment open. -/
theorem Lexes.join {before : List Char} {texts : List (List Char)} {tokens : List Token}
    {errors warnings : List LexicalIssue} (h : Lexes [] before texts tokens errors warnings) :
    (∀ e ∈ errors, e.problem ≠ .unterminatedComment) →
      ∀ {next : List (List Char)} {tokens' : List Token} {errors' warnings' : List LexicalIssue},
        Lexes [] (before ++ texts.flatten ++ ['\n']) next tokens' errors' warnings' →
          ∃ all, all.flatten = texts.flatten ++ '\n' :: next.flatten ∧
            Lexes [] before all (tokens ++ tokens') (errors ++ errors') (warnings ++ warnings') := by
  -- each piece stands before the pieces of both texts as it stood before those of the first
  induction h with
  | nil =>
    intro _ next tokens' errors' warnings' hnext
    rw [List.flatten_nil, List.append_nil] at hnext
    exact hnext.behind_blanks (by decide) (List.forall_mem_singleton.mpr rfl)
  | @blanks before text texts _ _ _ hform _ ih =>
    intro hclosed next tokens' errors' warnings' hnext
    obtain ⟨all, hall, hlexes⟩ := ih hclosed (by simpa using hnext)
    obtain ⟨all', hall', hlexes'⟩ := hlexes.behind_blanks hform.nonempty hform.blank
    exact ⟨all', by rw [hall', hall]; simp, hlexes'⟩
  | @comment before text texts _ _ _ hform _ ih =>
    intro hclosed next tokens' errors' warnings' hnext
    obtain ⟨all, hall, hlexes⟩ := ih hclosed (by simpa using hnext)
    have hform' := hform.before_line next.flatten
    exact ⟨text :: all, by simp [hall], .comment (by simpa [hall] using hform') hlexes⟩
  | @token before text texts _ _ _ kind hform _ ih =>
    intro hclosed next tokens' errors' warnings' hnext
    obtain ⟨all, hall, hlexes⟩ := ih hclosed (by simpa using hnext)
    have hform' := hform.before_line next.flatten
    exact ⟨text :: all, by simp [hall], .token (by simpa [hall] using hform') hlexes⟩
  | @largeNumber before text texts _ _ _ hform _ ih =>
    intro hclosed next tokens' errors' warnings' hnext
    obtain ⟨all, hall, hlexes⟩ := ih hclosed (by simpa using hnext)
    have hform' := hform.before_line next.flatten
    exact ⟨text :: all, by simp [hall], .largeNumber (by simpa [hall] using hform') hlexes⟩
  | @rejected before text texts _ _ _ problem hform _ ih =>
    intro hclosed next tokens' errors' warnings' hnext
    obtain ⟨hproblem, hclosed⟩ := List.forall_mem_cons.mp hclosed
    obtain ⟨all, hall, hlexes⟩ := ih hclosed (by simpa using hnext)
    have hform' := hform.before_line next.flatten hproblem
    exact ⟨text :: all, by simp [hall], .rejected (by simpa [hall] using hform') hlexes⟩

/-- **Lexing starts anew at every line end.** Two texts that can be lexed, the first of which leaves
    no comment open, are lexed with a line feed between them to the tokens of the first without its
    end of input, then those of the second, moved down by the lines of the first; and so are errors
    and warnings. -/
theorem lines_lexed_apart {upper lower : List Char} {a b : Scan} (ha : scan upper = .ok a)
    (hb : scan lower = .ok b) (hclosed : ∀ e ∈ a.errors, e.problem ≠ .unterminatedComment) :
    let n := 1 + upper.count '\n'
    ∃ tokens, a.tokens = tokens ++ [⟨.eof, "", .behind upper⟩] ∧
      scan (upper ++ '\n' :: lower) = .ok
        { tokens := tokens ++ b.tokens.map (·.down n)
          errors := a.errors ++ b.errors.map (·.down n)
          warnings := a.warnings ++ b.warnings.map (·.down n) } := by
  intro n
  obtain ⟨texts, tokens, rfl, hlexes, htokens⟩ := scan_eq_ok_iff.mp ha
  obtain ⟨texts', tokens', rfl, hlexes', htokens'⟩ := scan_eq_ok_iff.mp hb
  obtain ⟨all, hall, hboth⟩ := hlexes.join hclosed (hlexes'.down texts.flatten)
  refine ⟨tokens, htokens, ?_⟩
  rw [← hall, hboth.scan_ok, htokens', List.map_append, List.map_singleton, Token.down, hall,
    Position.behind_lines, List.append_assoc]

/-- The second line has a number that is too large, and ends within an escape of a string. -/
def cutShort : String := "x\n99999999999 \"a\\"

/-- Blanks come first, and a comment is left open at the end. -/
def leftOpen : String := " \n\"b\" /*"

theorem lines_lexed_apart_cutShort :
    ∃ a b, scan cutShort.toList = .ok a ∧ scan leftOpen.toList = .ok b ∧
      a.errors = [⟨.unterminatedString, ⟨2, 13⟩⟩] ∧ b.errors = [⟨.unterminatedComment, ⟨2, 5⟩⟩] ∧
      ∃ tokens, a.tokens = tokens ++ [⟨.eof, "", .behind cutShort.toList⟩] ∧
        scan (cutShort.toList ++ '\n' :: leftOpen.toList) = .ok
          { tokens := tokens ++ b.tokens.map (·.down 2)
            errors := [⟨.unterminatedString, ⟨2, 13⟩⟩, ⟨.unterminatedComment, ⟨4, 5⟩⟩]
            warnings := a.warnings ++ b.warnings.map (·.down 2) } := by
  have hupper : ∃ a, scan cutShort.toList = .ok a ∧
      a.errors = [⟨.unterminatedString, ⟨2, 13⟩⟩] := by
    set_option maxRecDepth 2000 in
    exact exists_scan_of_text rfl (by decide +kernel)
  have hlower : ∃ b, scan leftOpen.toList = .ok b ∧
      b.errors = [⟨.unterminatedComment, ⟨2, 5⟩⟩] := by
    set_option maxRecDepth 2000 in
    exact exists_scan_of_text rfl (by decide +kernel)
  obtain ⟨a, ha, haerrors⟩ := hupper
  obtain ⟨b, hb, hberrors⟩ := hlower
  have hclosed : ∀ e ∈ a.errors, e.problem ≠ .unterminatedComment := by
    rw [haerrors]
    exact List.forall_mem_singleton.mpr LexicalProblem.noConfusion
  obtain ⟨tokens, htokens, hscan⟩ := lines_lexed_apart ha hb hclosed
  have hcount : 1 + cutShort.toList.count '\n' = 2 := by decide
  rw [hcount, haerrors, hberrors] at hscan
  exact ⟨a, b, ha, hb, haerrors, hberrors, tokens, htokens, hscan⟩

end CMinusMinus
