/-
  File:      CMinusMinus/Proofs/ExactLexing.lean
  Subject:   Lexing loses nothing, and positions are exact.

  A source text is a sequence of pieces. Blanks and comments say nothing, a token is told as it is
  spelled, refused text is told as an error, and a number beyond the greatest integer as that integer
  and with a warning. Each is told at the place of its piece: lines are counted by the line feeds
  before it, columns by the characters since the last one. A scan gives exactly this, and comes to no
  end only at digits that denote no number.

  * `Position.behind` -- the place behind a text;
  * `Lexes` -- what is told of a sequence of pieces;
  * `exists_lexes` -- every text is a sequence of pieces, up to its end or to digits that denote none;
  * `scan_eq_ok_iff`, `scan_eq_error_iff` -- a scan tells what the pieces say;
  * `lexing_exact` -- scans and readings of the pieces are the same.
-/
import CMinusMinus.Proofs.LexicalForms
import CMinusMinus.Token.Scanner

namespace CMinusMinus

/-! ## 1. Positions -/

/-- **The place behind a text**: one line for each line feed in it, and one column for each character
    since the last of them, both counted from one. -/
def Position.behind (before : List Char) : Position where
  line := 1 + before.count '\n'
  column := 1 + (before.reverse.takeWhile (· != '\n')).length

theorem Position.behind_concat (before : List Char) (c : Char) :
    Position.behind (before ++ [c]) = (Position.behind before).step c := by
  unfold behind step
  rw [List.count_append, List.reverse_concat]
  by_cases hc : c = '\n'
  · subst hc
    simp [Int.add_assoc]
  · simp [hc, Int.add_assoc]

/-- Moving over a text leads behind it. -/
theorem Position.behind_append (before text : List Char) :
    Position.behind (before ++ text) = (Position.behind before).past text := by
  induction text generalizing before with
  | nil => simp
  | cons c text ih =>
    rw [Position.past_cons, ← Position.behind_concat, ← ih, List.append_assoc]
    rfl

theorem Position.start_past (text : List Char) : Position.start.past text = .behind text :=
  (Position.behind_append [] text).symm

/-! ## 2. Readings -/

/-- **What is told of a sequence of pieces** that stands behind `before` and in front of `rest`: the
    tokens, the errors and the warnings, each at the place where its piece begins. -/
inductive Lexes (rest : List Char) : (before : List Char) → (texts : List (List Char)) →
    (tokens : List Token) → (errors warnings : List LexicalIssue) → Prop where
  | nil {before : List Char} : Lexes rest before [] [] [] []
  | blanks {before text : List Char} {texts : List (List Char)} {tokens : List Token}
      {errors warnings : List LexicalIssue} (h : BlankRun text (texts.flatten ++ rest))
      (hrest : Lexes rest (before ++ text) texts tokens errors warnings) :
      Lexes rest before (text :: texts) tokens errors warnings
  | comment {before text : List Char} {texts : List (List Char)} {tokens : List Token}
      {errors warnings : List LexicalIssue} (h : Comment text (texts.flatten ++ rest))
      (hrest : Lexes rest (before ++ text) texts tokens errors warnings) :
      Lexes rest before (text :: texts) tokens errors warnings
  | token {before text : List Char} {texts : List (List Char)} {tokens : List Token}
      {errors warnings : List LexicalIssue} {kind : TokenKind}
      (h : TokenForm kind text (texts.flatten ++ rest))
      (hrest : Lexes rest (before ++ text) texts tokens errors warnings) :
      Lexes rest before (text :: texts) (⟨kind, String.ofList text, .behind before⟩ :: tokens)
        errors warnings
  | largeNumber {before text : List Char} {texts : List (List Char)} {tokens : List Token}
      {errors warnings : List LexicalIssue} (h : LargeNumber text (texts.flatten ++ rest))
      (hrest : Lexes rest (before ++ text) texts tokens errors warnings) :
      Lexes rest before (text :: texts) (⟨.number, "2147483647", .behind before⟩ :: tokens)
        errors (⟨.integerTooLarge, .behind before⟩ :: warnings)
  | rejected {before text : List Char} {texts : List (List Char)} {tokens : List Token}
      {errors warnings : List LexicalIssue} {problem : LexicalProblem}
      (h : Rejected problem text (texts.flatten ++ rest))
      (hrest : Lexes rest (before ++ text) texts tokens errors warnings) :
      Lexes rest before (text :: texts) tokens (⟨problem, .behind before⟩ :: errors) warnings

/-- Why a reading goes no further: the text has ended, or digits denote no number. -/
inductive Halts : Option Text.NumeralFault → List Char → Prop where
  | ended : Halts none []
  | refused {fault : Text.NumeralFault} {run rest : List Char} (h : NoNumber fault run rest) :
      Halts (some fault) (run ++ rest)

/-- **Every text is a sequence of pieces** up to where a reading goes no further. -/
theorem exists_lexes : ∀ source before : List Char, ∃ texts rest fault? tokens errors warnings,
    source = texts.flatten ++ rest ∧ Halts fault? rest ∧
      Lexes rest before texts tokens errors warnings
  | [], before => ⟨[], [], none, [], [], [], rfl, .ended, .nil⟩
  | c :: cs, before => by
      have hfits := shape_fits c cs
      generalize Shape.at c cs = shape at hfits
      obtain ⟨kind, n⟩ := shape
      unfold Shape.Fits at hfits
      dsimp only at hfits
      obtain ⟨texts, rest, fault?, tokens, errors, warnings, hcut, hhalts, hlexes⟩ :=
        exists_lexes (cs.drop n) (before ++ c :: cs.take n)
      have hsource : c :: cs = ((c :: cs.take n) :: texts).flatten ++ rest := by
        rw [List.flatten_cons, List.append_assoc, ← hcut, List.cons_append, List.take_append_drop]
      rw [hcut] at hfits
      cases kind with
      | blank => exact ⟨_, _, _, _, _, _, hsource, hhalts, .blanks hfits hlexes⟩
      | comment => exact ⟨_, _, _, _, _, _, hsource, hhalts, .comment hfits hlexes⟩
      | token kind => exact ⟨_, _, _, _, _, _, hsource, hhalts, .token hfits hlexes⟩
      | largeNumber => exact ⟨_, _, _, _, _, _, hsource, hhalts, .largeNumber hfits hlexes⟩
      | openComment => exact ⟨_, _, _, _, _, _, hsource, hhalts, .rejected hfits hlexes⟩
      | openString => exact ⟨_, _, _, _, _, _, hsource, hhalts, .rejected hfits hlexes⟩
      | badString => exact ⟨_, _, _, _, _, _, hsource, hhalts, .rejected hfits hlexes⟩
      | illegal d => exact ⟨_, _, _, _, _, _, hsource, hhalts, .rejected hfits hlexes⟩
      | noNumber fault =>
        -- nothing behind these digits is read
        refine ⟨[], c :: cs, some fault, [], [], [], rfl, ?_, .nil⟩
        rw [hsource, List.flatten_cons, List.append_assoc]
        exact .refused hfits
termination_by source => source.length
decreasing_by simp only [List.length_drop, List.length_cons]; omega

/-! ## 3. A scan tells what the pieces say -/

theorem CutAs.ne_nil {kind : PieceKind} {text rest : List Char} (h : CutAs kind text rest) :
    text ≠ [] := by
  obtain ⟨c, more, rfl, -⟩ := h
  exact List.cons_ne_nil c more

theorem CutAs.pieces_eq {kind : PieceKind} {text rest : List Char} (h : CutAs kind text rest)
    (pos : Position) :
    pieces pos (text ++ rest) = ⟨kind, text, pos⟩ :: pieces (pos.past text) rest := by
  obtain ⟨c, more, rfl, hshape⟩ := h
  rw [List.cons_append, pieces, hshape]
  dsimp only
  rw [List.take_left, List.drop_left]

/-- What pieces give when all of them can be read. -/
structure Yields (ps : List Piece) (tokens : List Token) (errors warnings : List LexicalIssue) :
    Prop where
  tokens : ps.filterMap Piece.token? = tokens
  errors : ps.filterMap Piece.error? = errors
  warnings : ps.filterMap Piece.warning? = warnings
  faultless : ps.findSome? Piece.fault? = none

/-- One more piece in front. -/
theorem Yields.cons {p : Piece} {ps : List Piece} {tokens : List Token}
    {errors warnings : List LexicalIssue} (h : Yields ps tokens errors warnings)
    (hfault : p.fault? = none) :
    Yields (p :: ps) (p.token?.toList ++ tokens) (p.error?.toList ++ errors)
      (p.warning?.toList ++ warnings) := by
  obtain ⟨rfl, rfl, rfl, hnone⟩ := h
  have hlist : ∀ {α : Type} (f : Piece → Option α),
      (p :: ps).filterMap f = (f p).toList ++ ps.filterMap f := fun f => by
    cases hp : f p with
    | none => rw [List.filterMap_cons_none hp]; rfl
    | some a => rw [List.filterMap_cons_some hp]; rfl
  exact ⟨hlist _, hlist _, hlist _, by rw [List.findSome?_cons_of_isNone (by simp [hfault]), hnone]⟩

/-- A number that is too large is not refused. -/
theorem Rejected.ne_integerTooLarge {problem : LexicalProblem} {text rest : List Char}
    (h : Rejected problem text rest) : problem ≠ .integerTooLarge := by
  cases h <;> exact LexicalProblem.noConfusion

/-- **The pieces of a text are those of the reading**, and then the pieces of what follows. -/
theorem Lexes.pieces_eq {rest before : List Char} {texts : List (List Char)} {tokens : List Token}
    {errors warnings : List LexicalIssue} (h : Lexes rest before texts tokens errors warnings) :
    ∃ ps, pieces (.behind before) (texts.flatten ++ rest) =
        ps ++ pieces (.behind (before ++ texts.flatten)) rest ∧
      Yields ps tokens errors warnings := by
  -- a piece of any kind in front of those that are known
  have hfront : ∀ {kind : PieceKind} {before text : List Char} {texts : List (List Char)}
      {ps : List Piece}, CutAs kind text (texts.flatten ++ rest) →
      pieces (.behind (before ++ text)) (texts.flatten ++ rest) =
        ps ++ pieces (.behind (before ++ text ++ texts.flatten)) rest →
      pieces (.behind before) ((text :: texts).flatten ++ rest) =
        ⟨kind, text, .behind before⟩ :: ps ++
          pieces (.behind (before ++ (text :: texts).flatten)) rest := by
    intro kind before text texts ps hcut hps
    rw [List.flatten_cons, List.append_assoc, hcut.pieces_eq, ← Position.behind_append, hps,
      List.append_assoc]
    rfl
  induction h with
  | nil => exact ⟨[], by simp, rfl, rfl, rfl, rfl⟩
  | blanks hform _ ih =>
    obtain ⟨ps, hps, hyields⟩ := ih
    exact ⟨_, hfront hform.cut hps, hyields.cons rfl⟩
  | comment hform _ ih =>
    obtain ⟨ps, hps, hyields⟩ := ih
    exact ⟨_, hfront hform.cut hps, hyields.cons rfl⟩
  | token hform _ ih =>
    obtain ⟨ps, hps, hyields⟩ := ih
    exact ⟨_, hfront hform.cut hps, hyields.cons rfl⟩
  | largeNumber hform _ ih =>
    obtain ⟨ps, hps, hyields⟩ := ih
    exact ⟨_, hfront hform.cut hps, hyields.cons rfl⟩
  | rejected hform _ ih =>
    obtain ⟨ps, hps, hyields⟩ := ih
    refine ⟨_, hfront hform.cut hps, ?_⟩
    rename_i problem _
    cases problem with
    | integerTooLarge => exact absurd rfl hform.ne_integerTooLarge
    | _ => exact hyields.cons rfl

section Scans

variable {texts : List (List Char)} {tokens : List Token} {errors warnings : List LexicalIssue}

/-- A text that is read to its end. -/
theorem Lexes.scan_ok (h : Lexes [] [] texts tokens errors warnings) : scan texts.flatten =
    .ok ⟨tokens ++ [⟨.eof, "", .behind texts.flatten⟩], errors, warnings⟩ := by
  obtain ⟨ps, hps, hyields⟩ := h.pieces_eq
  have hall : pieces .start texts.flatten = ps := by
    rw [List.append_nil] at hps
    rw [show Position.start = .behind [] from rfl, hps, pieces, List.append_nil]
  unfold scan
  rw [hall, Position.start_past]
  dsimp only
  rw [hyields.faultless]
  unfold Scan.ofPieces
  rw [hyields.tokens, hyields.errors, hyields.warnings]

/-- A text that is read up to digits that denote no number. -/
theorem Lexes.scan_error {run rest : List Char} {fault : Text.NumeralFault}
    (h : Lexes (run ++ rest) [] texts tokens errors warnings) (hno : NoNumber fault run rest) :
    scan (texts.flatten ++ (run ++ rest)) = .error fault := by
  obtain ⟨ps, hps, hyields⟩ := h.pieces_eq
  unfold scan
  rw [show Position.start = .behind [] from rfl, hps, hno.cut.pieces_eq]
  dsimp only
  rw [List.findSome?_append, hyields.faultless, Option.none_or]
  rfl

end Scans

/-- **A scan that comes to its end** tells what the pieces of the text say. -/
theorem scan_eq_ok_iff {source : List Char} {s : Scan} : scan source = .ok s ↔
    ∃ texts tokens, source = texts.flatten ∧ Lexes [] [] texts tokens s.errors s.warnings ∧
      s.tokens = tokens ++ [⟨.eof, "", .behind source⟩] := by
  constructor
  · intro hscan
    obtain ⟨texts, rest, fault?, tokens, errors, warnings, rfl, hhalts, hlexes⟩ :=
      exists_lexes source []
    cases hhalts with
    | ended =>
      rw [List.append_nil] at hscan ⊢
      rw [hlexes.scan_ok] at hscan
      cases hscan
      exact ⟨texts, tokens, rfl, hlexes, rfl⟩
    | refused hno =>
      rw [hlexes.scan_error hno] at hscan
      cases hscan
  · rintro ⟨texts, tokens, rfl, hlexes, htokens⟩
    rw [hlexes.scan_ok, ← htokens]

/-- **A scan that comes to no end** has met digits that denote no number. -/
theorem scan_eq_error_iff {source : List Char} {fault : Text.NumeralFault} :
    scan source = .error fault ↔ ∃ texts tokens errors warnings run rest,
      source = texts.flatten ++ (run ++ rest) ∧
      Lexes (run ++ rest) [] texts tokens errors warnings ∧ NoNumber fault run rest := by
  constructor
  · intro hscan
    obtain ⟨texts, rest, fault?, tokens, errors, warnings, rfl, hhalts, hlexes⟩ :=
      exists_lexes source []
    cases hhalts with
    | ended =>
      rw [List.append_nil, hlexes.scan_ok] at hscan
      cases hscan
    | @refused _ run rest hno =>
      rw [hlexes.scan_error hno] at hscan
      cases hscan
      exact ⟨texts, tokens, errors, warnings, run, rest, rfl, hlexes, hno⟩
  · rintro ⟨texts, tokens, errors, warnings, run, rest, rfl, hlexes, hno⟩
    exact hlexes.scan_error hno

/-! ## 4. Pieces are not empty, and the end of input is told once -/

theorem Lexes.ne_nil {rest before : List Char} {texts : List (List Char)} {tokens : List Token}
    {errors warnings : List LexicalIssue} (h : Lexes rest before texts tokens errors warnings) :
    ∀ text ∈ texts, text ≠ [] := by
  induction h with
  | nil => exact fun _ htext => absurd htext List.not_mem_nil
  | blanks hform _ ih => exact List.forall_mem_cons.mpr ⟨hform.cut.ne_nil, ih⟩
  | comment hform _ ih => exact List.forall_mem_cons.mpr ⟨hform.cut.ne_nil, ih⟩
  | token hform _ ih => exact List.forall_mem_cons.mpr ⟨hform.cut.ne_nil, ih⟩
  | largeNumber hform _ ih => exact List.forall_mem_cons.mpr ⟨hform.cut.ne_nil, ih⟩
  | rejected hform _ ih => exact List.forall_mem_cons.mpr ⟨hform.cut.ne_nil, ih⟩

/-- The end of input has no characters, so no sign of the text is one. -/
theorem ne_eof_of_sign? {kind : TokenKind} {c : Char} {more : List Char}
    (h : kind.sign? = some (String.ofList (c :: more))) : kind ≠ .eof := by
  rintro rfl
  have htext : "" = String.ofList (c :: more) := Option.some.inj h
  rw [String.ofList_cons] at htext
  have hlist := congrArg String.toList htext
  simp at hlist

theorem TokenForm.ne_eof {kind : TokenKind} {text rest : List Char}
    (h : TokenForm kind text rest) : kind ≠ .eof := by
  cases h with
  | number => decide
  | string => decide
  | keyword => decide
  | identifier => decide
  | pair hpair => exact ne_eof_of_sign? (pairedKind?_sign hpair).1
  | first hpair => exact ne_eof_of_sign? ((pairedKind?_sign hpair).2 _ rfl)
  | single hsingle => exact ne_eof_of_sign? (singleKind?_sign hsingle)

theorem Lexes.ne_eof {rest before : List Char} {texts : List (List Char)} {tokens : List Token}
    {errors warnings : List LexicalIssue} (h : Lexes rest before texts tokens errors warnings) :
    ∀ t ∈ tokens, t.kind ≠ .eof := by
  induction h with
  | nil => exact fun _ ht => absurd ht List.not_mem_nil
  | blanks _ _ ih => exact ih
  | comment _ _ ih => exact ih
  | token hform _ ih => exact List.forall_mem_cons.mpr ⟨hform.ne_eof, ih⟩
  | largeNumber _ _ ih => exact List.forall_mem_cons.mpr ⟨TokenKind.noConfusion, ih⟩
  | rejected _ _ ih => exact ih

/-! ## 5. The scanner -/

namespace Scanner

theorem findSome?_throughFault (ps : List Piece) :
    (throughFault ps).findSome? Piece.fault? = ps.findSome? Piece.fault? := by
  induction ps with
  | nil => rfl
  | cons p ps ih =>
    unfold throughFault
    cases hp : p.fault? with
    | some fault => simp [hp]
    | none => simp [hp, ih]

theorem throughFault_eq {ps : List Piece} (h : ps.findSome? Piece.fault? = none) :
    throughFault ps = ps := by
  induction ps with
  | nil => rfl
  | cons p ps ih =>
    rw [List.findSome?_eq_none_iff] at h
    obtain ⟨hp, hps⟩ := List.forall_mem_cons.mp h
    rw [throughFault, hp, ih (List.findSome?_eq_none_iff.mpr hps)]
    rfl

/-- A scanner at the start of a text lexes it as a scan does. -/
theorem tokenize_ofText {source : List Char} {s : Scan} (h : scan source = .ok s) :
    (ofText source).tokenize =
      (.ok s.tokens, ⟨⟨source.reverse, [], .behind source⟩, s.errors, s.warnings⟩) := by
  have hend : Cursor.move ⟨[], source, .start⟩ source.length =
      ⟨source.reverse, [], .behind source⟩ := by
    simp [Cursor.move, Position.start_past]
  unfold scan at h
  dsimp only at h
  split at h
  · cases h
  · rename_i hfault
    cases h
    unfold tokenize
    rw [show (ofText source).cursor = ⟨[], source, .start⟩ from rfl]
    dsimp only
    rw [throughFault_eq hfault, hfault, pieces_text, hend, Position.start_past]

/-- It fails where a scan does. -/
theorem tokenize_ofText_error {source : List Char} {fault : Text.NumeralFault}
    (h : scan source = .error fault) : (ofText source).tokenize.1 = .error fault := by
  unfold scan at h
  dsimp only at h
  split at h
  · rename_i hfault
    cases h
    unfold tokenize
    rw [show (ofText source).cursor = ⟨[], source, .start⟩ from rfl]
    dsimp only
    rw [findSome?_throughFault, hfault]
  · cases h

end Scanner

/-! ## 6. Lexing is exact -/

/-- **Lexing loses nothing, and positions are exact.** A scan comes to its end with these tokens,
    errors and warnings if and only if the source is a sequence of non-empty pieces of which they are
    told, the end of input behind all of them; and a new scanner tells the same. -/
theorem lexing_exact (source : List Char) (s : Scan) :
    (scan source = .ok s ↔ ∃ texts tokens, source = texts.flatten ∧ (∀ text ∈ texts, text ≠ []) ∧
      Lexes [] [] texts tokens s.errors s.warnings ∧ (∀ t ∈ tokens, t.kind ≠ .eof) ∧
      s.tokens = tokens ++ [⟨.eof, "", .behind source⟩]) ∧
    ((Scanner.ofText source).tokenize =
        (.ok s.tokens, ⟨⟨source.reverse, [], .behind source⟩, s.errors, s.warnings⟩) ↔
      scan source = .ok s) := by
  constructor
  · rw [scan_eq_ok_iff]
    constructor
    · rintro ⟨texts, tokens, hsource, hlexes, htokens⟩
      exact ⟨texts, tokens, hsource, hlexes.ne_nil, hlexes, hlexes.ne_eof, htokens⟩
    · rintro ⟨texts, tokens, hsource, -, hlexes, -, htokens⟩
      exact ⟨texts, tokens, hsource, hlexes, htokens⟩
  · refine ⟨fun h => ?_, Scanner.tokenize_ofText⟩
    cases hscan : scan source with
    | ok s' =>
      rw [Scanner.tokenize_ofText hscan] at h
      obtain ⟨tokens, errors, warnings⟩ := s
      obtain ⟨tokens', errors', warnings'⟩ := s'
      cases h
      rfl
    | error fault =>
      have hfailed := Scanner.tokenize_ofText_error hscan
      rw [h] at hfailed
      cases hfailed

end CMinusMinus
