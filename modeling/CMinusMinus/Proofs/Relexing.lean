/-
  File:      CMinusMinus/Proofs/Relexing.lean
  Subject:   The texts of tokens, set apart by blanks, are lexed to the same tokens.

  Where a token ends depends on what stands behind it: a word or a number goes on as far as it can,
  a sign may be the first half of a longer one, a slash may begin a comment. Blanks go on with none
  of these. So a token that was found anywhere is found again, with the same kind and text, before a
  blank or at the end of a text; and what a number that is too large was replaced by is a number as
  well. Hence lexing undoes the writing of tokens with blanks between them.

  * `AtGap`, `TokenForm.before_gap` -- a token is found again before a blank;
  * `Token.FreeStanding`, `Lexes.freeStanding` -- all tokens of a scan are;
  * `Spaced` -- texts with blanks between them;
  * `relexing_identity` -- **the texts of a scan's tokens are lexed to the same tokens.**
-/
import CMinusMinus.Proofs.ExactLexing
import CMinusMinus.Proofs.Phases
import CMinusMinus.Proofs.Printing

namespace CMinusMinus

/-! ## 1. Tokens before a blank -/

/-- A blank follows, or nothing. -/
def AtGap (rest : List Char) : Prop := ∀ c, rest.head? = some c → isGap c = true

theorem atGap_nil : AtGap [] := fun _ h => by cases h

theorem atGap_append {gap : List Char} (hne : gap ≠ []) (hblank : ∀ c ∈ gap, isGap c = true)
    (rest : List Char) : AtGap (gap ++ rest) := by
  obtain ⟨c, more, rfl⟩ := List.exists_cons_of_ne_nil hne
  intro d hd
  exact Option.some.inj hd ▸ hblank c List.mem_cons_self

section Gaps

variable {rest : List Char} (h : AtGap rest)

include h

/-- A class of characters that no blank is in ends there. -/
theorem AtGap.endsRun {p : Char → Bool} (hnone : openers.all (fun d => !p d) = true) :
    EndsRun p rest := by
  intro c hc
  by_contra hp
  rw [Bool.not_eq_false] at hp
  exact not_mem_openers hnone hp (isGap_mem_openers (h c hc))

/-- A character that is no blank does not follow. -/
theorem AtGap.head_ne {c : Char} (hc : isGap c = false) : rest.head? ≠ some c := by
  intro hhead
  rw [h c hhead] at hc
  cases hc

end Gaps

/-- The second character of a sign is no blank. -/
theorem pairedKind?_second {c second : Char} {pair : TokenKind} {single? : Option TokenKind}
    (h : pairedKind? c = some (second, pair, single?)) : isGap second = false := by
  unfold pairedKind? at h
  split at h <;> cases h <;> rfl

/-- **A token is found again before a blank**, whatever stood behind it. -/
theorem TokenForm.before_gap {kind : TokenKind} {text behind rest : List Char}
    (h : TokenForm kind text behind) (hrest : AtGap rest) : TokenForm kind text rest := by
  cases h with
  | number hdigits hread hsmall =>
    exact .number ⟨hdigits.nonempty, hdigits.digit, hrest.endsRun (by decide)⟩ hread hsmall
  | string hbody => exact .string hbody
  | keyword hword hkeyword =>
    obtain ⟨hdigit, hstart, hmore, -⟩ := hword
    exact .keyword (.mk hdigit hstart hmore (hrest.endsRun (by decide))) hkeyword
  | identifier hword hfree =>
    obtain ⟨hdigit, hstart, hmore, -⟩ := hword
    exact .identifier (.mk hdigit hstart hmore (hrest.endsRun (by decide))) hfree
  | pair hpair => exact .pair hpair
  | first hpair => exact .first hpair (hrest.head_ne (pairedKind?_second hpair))
  | single hsingle => exact .single hsingle fun _ => ⟨hrest.head_ne rfl, hrest.head_ne rfl⟩

/-- What is cut off as anything but blanks begins with none. -/
theorem CutAs.endsRun_isGap {kind : PieceKind} {text rest : List Char} (h : CutAs kind text rest)
    (hkind : kind ≠ .blank) (more : List Char) : EndsRun isGap (text ++ more) := by
  obtain ⟨c, tail, rfl, hshape⟩ := h
  intro d hd
  cases hd
  by_contra hgap
  rw [Bool.not_eq_false] at hgap
  unfold Shape.at at hshape
  rw [if_pos hgap] at hshape
  exact hkind (congrArg Shape.kind hshape).symm

/-- A token begins with no blank. -/
theorem TokenForm.endsRun_isGap {kind : TokenKind} {text rest : List Char}
    (h : TokenForm kind text rest) (more : List Char) : EndsRun isGap (text ++ more) :=
  h.cut.endsRun_isGap PieceKind.noConfusion more

/-- The greatest number is a token before a blank. -/
theorem largestInt_form {rest : List Char} (hrest : AtGap rest) :
    TokenForm .number "2147483647".toList rest := by
  have hdigits : ∀ c ∈ "2147483647".toList, Text.isDigit c = true :=
    List.all_eq_true.mp (by decide)
  exact .number ⟨by decide, hdigits, hrest.endsRun (by decide)⟩ readInt_largestInt (Int.le_refl _)

/-! ## 2. Tokens that stand by themselves -/

/-- The text of the token is a token of its kind before every blank. -/
def Token.FreeStanding (t : Token) : Prop :=
  ∀ rest, AtGap rest → TokenForm t.kind t.text.toList rest

theorem Lexes.freeStanding {rest before : List Char} {texts : List (List Char)}
    {tokens : List Token} {errors warnings : List LexicalIssue}
    (h : Lexes rest before texts tokens errors warnings) : ∀ t ∈ tokens, t.FreeStanding := by
  induction h with
  | nil => exact fun _ ht => absurd ht List.not_mem_nil
  | blanks _ _ ih => exact ih
  | comment _ _ ih => exact ih
  | rejected _ _ ih => exact ih
  | largeNumber _ _ ih =>
    exact List.forall_mem_cons.mpr ⟨fun _ hrest => largestInt_form hrest, ih⟩
  | token hform _ ih =>
    refine List.forall_mem_cons.mpr ⟨fun rest hrest => ?_, ih⟩
    rw [String.toList_ofList]
    exact hform.before_gap hrest

/-! ## 3. Texts with blanks between them -/

/-- **The words one after the other**, with one blank at least between any two of them. -/
inductive Spaced : (words : List (List Char)) → (text : List Char) → Prop where
  | none : Spaced [] []
  | last (word : List Char) : Spaced [word] word
  | more {word gap next text : List Char} {words : List (List Char)} (hne : gap ≠ [])
      (hblank : ∀ c ∈ gap, isGap c = true) (h : Spaced (next :: words) text) :
      Spaced (word :: next :: words) (word ++ (gap ++ text))

/-- What begins with a word begins with the word's first character. -/
theorem Spaced.head {word text : List Char} {words : List (List Char)}
    (h : Spaced (word :: words) text) : ∃ more, text = word ++ more := by
  cases h with
  | last => exact ⟨[], (List.append_nil _).symm⟩
  | more => exact ⟨_, rfl⟩

/-- **Tokens that stand by themselves are read again** from their texts with blanks between them. -/
theorem Spaced.lexes {words : List (List Char)} {text : List Char} (h : Spaced words text) :
    ∀ (tokens : List Token) (before : List Char), words = tokens.map (·.text.toList) →
      (∀ t ∈ tokens, t.FreeStanding) →
      ∃ texts tokens', text = texts.flatten ∧ Lexes [] before texts tokens' [] [] ∧
        tokens'.map Token.lexeme = tokens.map Token.lexeme := by
  induction h with
  | none =>
    intro tokens before hwords _
    obtain rfl := List.map_eq_nil_iff.mp hwords.symm
    exact ⟨[], [], rfl, .nil, rfl⟩
  | last word =>
    intro tokens before hwords hfree
    obtain ⟨t, ts, rfl, rfl, hts⟩ := List.map_eq_cons_iff.mp hwords.symm
    obtain rfl := List.map_eq_nil_iff.mp hts
    have hform := hfree t List.mem_cons_self [] atGap_nil
    refine ⟨[t.text.toList], [⟨t.kind, _, _⟩], by simp, .token hform .nil, ?_⟩
    simp [Token.lexeme]
  | @more word gap next text words hne hblank hspaced ih =>
    intro tokens before hwords hfree
    obtain ⟨t, ts, rfl, rfl, hts⟩ := List.map_eq_cons_iff.mp hwords.symm
    obtain ⟨ht, hfree⟩ := List.forall_mem_cons.mp hfree
    obtain ⟨texts, tokens', rfl, hlexes, hlexemes⟩ :=
      ih ts (before ++ t.text.toList ++ gap) hts.symm hfree
    -- the blanks end where the next token begins
    have hstop : EndsRun isGap (texts.flatten ++ []) := by
      obtain ⟨u, us, rfl, rfl, -⟩ := List.map_eq_cons_iff.mp hts
      obtain ⟨more, hmore⟩ := hspaced.head
      rw [List.append_nil, hmore]
      exact (hfree u List.mem_cons_self [] atGap_nil).endsRun_isGap more
    have hform := ht (gap ++ (texts.flatten ++ [])) (atGap_append hne hblank _)
    refine ⟨t.text.toList :: gap :: texts, ⟨t.kind, _, _⟩ :: tokens', by simp,
      .token (by simpa using hform) (.blanks ⟨hne, hblank, hstop⟩ hlexes), ?_⟩
    simp [Token.lexeme, ← hlexemes]

/-! ## 4. Scans -/

/-- The texts of a scan's tokens, without the end of input. -/
def Scan.words (s : Scan) : List (List Char) :=
  (s.tokens.filter (·.kind ≠ .eof)).map (·.text.toList)

/-- **Lexing the texts of tokens again gives the same tokens.** If the tokens of a scan, all but the
    end of input, are written with any blanks between them, then the text is lexed without errors
    and without warnings to tokens of the same kinds and texts. -/
theorem relexing_identity {source text : List Char} {s : Scan} (h : scan source = .ok s)
    (htext : Spaced s.words text) :
    ∃ t, scan text = .ok t ∧ t.errors = [] ∧ t.warnings = [] ∧
      t.tokens.map Token.lexeme = s.tokens.map Token.lexeme := by
  obtain ⟨texts, tokens, -, hlexes, htokens⟩ := scan_eq_ok_iff.mp h
  have hwords : s.words = tokens.map (·.text.toList) := by
    have hall : tokens.filter (·.kind ≠ .eof) = tokens :=
      List.filter_eq_self.mpr fun t ht => decide_eq_true (hlexes.ne_eof t ht)
    unfold Scan.words
    rw [htokens, List.filter_append, hall]
    simp
  obtain ⟨texts', tokens', rfl, hagain, hlexemes⟩ :=
    htext.lexes tokens [] hwords hlexes.freeStanding
  refine ⟨_, hagain.scan_ok, rfl, rfl, ?_⟩
  rw [htokens, List.map_append, List.map_append, hlexemes]
  rfl

/-- A text without blanks, in which comments, a string with a comment's mark, a number that is too
    large and digits of another script stand side by side. -/
def crowded : String := "x/**/=99999999999/\u0663-\"/*\\\"\";#x"

/-- The texts of its tokens. -/
def crowdedWords : List (List Char) :=
  [['x'], ['='], ['2', '1', '4', '7', '4', '8', '3', '6', '4', '7'], ['/'], ['\u0663'], ['-'],
    ['\x22', '/', '*', '\\', '\x22', '\x22'], [';']]

/-- The same texts with blanks of all kinds between them. -/
def spread : List Char :=
  ['x'] ++ (['\t'] ++ (['='] ++ (['\r', '\n'] ++
    (['2', '1', '4', '7', '4', '8', '3', '6', '4', '7'] ++ ([' '] ++ (['/'] ++ (['\n', '\n'] ++
      (['\u0663'] ++ (['\x0c'] ++ (['-'] ++ ([' ', '\t'] ++
        (['\x22', '/', '*', '\\', '\x22', '\x22'] ++ (['\r'] ++ [';'])))))))))))))

theorem relexing_identity_crowded :
    ∃ s, scan crowded.toList = .ok s ∧ s.words = crowdedWords ∧ s.warnings.length = 1 ∧
      Spaced s.words spread ∧ ∃ t, scan spread = .ok t ∧ t.errors = [] ∧ t.warnings = [] ∧
        t.tokens.map Token.lexeme = s.tokens.map Token.lexeme := by
  have hscan : ∃ s, scan crowded.toList = .ok s ∧ s.words = crowdedWords ∧
      s.warnings.length = 1 := by
    set_option maxRecDepth 4000 in
    exact exists_scan_of_text rfl (by decide +kernel)
  have hblank : ∀ {gap : List Char}, gap.all isGap = true → ∀ c ∈ gap, isGap c = true :=
    List.all_eq_true.mp
  have hspread : Spaced crowdedWords spread :=
    .more (by decide) (hblank rfl) (.more (by decide) (hblank rfl) (.more (by decide) (hblank rfl)
      (.more (by decide) (hblank rfl) (.more (by decide) (hblank rfl)
        (.more (by decide) (hblank rfl) (.more (by decide) (hblank rfl) (.last _)))))))
  obtain ⟨s, hs, hwords, hwarnings⟩ := hscan
  rw [← hwords] at hspread
  exact ⟨s, hs, hwords, hwarnings, hspread, relexing_identity hs hspread⟩

end CMinusMinus
