/-
  File:      CMinusMinus/Proofs/Spelling.lean
  Subject:   The tokens of a scan are spelled as their kinds say.

  An operator or a bracket has one spelling. An identifier is a word that is no keyword: it starts
  with a letter or an underscore and goes on with letters, numeric characters and underscores. The
  text of a string is at least its quote.

  * `Token.WellSpelled` -- the text of a token suits its kind;
  * `scan_wellSpelled` -- all tokens of a scan are well spelled.
-/
import CMinusMinus.Token.Scan

namespace CMinusMinus

/-! ## 1. Spellings -/

/-- The spelling of a kind that has only one. -/
def TokenKind.sign? : TokenKind → Option String
  | .plus => some "+"
  | .minus => some "-"
  | .star => some "*"
  | .slash => some "/"
  | .percent => some "%"
  | .assign => some "="
  | .eq => some "=="
  | .neq => some "!="
  | .lt => some "<"
  | .gt => some ">"
  | .lte => some "<="
  | .gte => some ">="
  | .ampersand => some "&"
  | .land => some "&&"
  | .lor => some "||"
  | .bang => some "!"
  | .lparen => some "("
  | .rparen => some ")"
  | .lbrace => some "\x7b"
  | .rbrace => some "\x7d"
  | .lbracket => some "["
  | .rbracket => some "]"
  | .semicolon => some ";"
  | .comma => some ","
  | .eof => some ""
  | .number | .string | .identifier | .keyword => none

/-- A word that is no keyword. -/
structure IsName (text : String) : Prop where
  word : ∃ c rest, text.toList = c :: rest ∧ Text.startsWord c = true ∧
    ∀ d ∈ rest, Text.continuesWord d = true
  free : text ∉ keywords

/-- The text of a token suits its kind. -/
structure Token.WellSpelled (t : Token) : Prop where
  sign : ∀ text, t.kind.sign? = some text → t.text = text
  name : t.kind = .identifier → IsName t.text
  string : t.kind = .string → t.text ≠ ""

/-! ## 2. Pieces -/

/-- A piece is the shape of some text's head. -/
theorem pieces_shape {pos : Position} {source : List Char} {p : Piece}
    (h : p ∈ pieces pos source) :
    ∃ c rest, p.kind = (Shape.at c rest).kind ∧ p.text = c :: rest.take (Shape.at c rest).tail := by
  fun_induction pieces pos source with
  | case1 => simp at h
  | case2 pos c rest shape text ih =>
    rcases List.mem_cons.mp h with rfl | hm
    · exact ⟨c, rest, rfl, rfl⟩
    · exact ih hm

theorem take_length_takeWhile (p : Char → Bool) (l : List Char) :
    l.take (l.takeWhile p).length = l.takeWhile p :=
  (List.prefix_iff_eq_take.mp (List.takeWhile_prefix p)).symm

/-- The kinds of words have no sign. -/
theorem wordKind_sign (word : List Char) : (wordKind word).sign? = none := by
  unfold wordKind
  split <;> rfl

/-- A word of the kind of identifiers is a name. -/
theorem isName_of_wordKind {c : Char} {more : List Char} (hc : Text.startsWord c = true)
    (hmore : ∀ d ∈ more, Text.continuesWord d = true) (h : wordKind (c :: more) = .identifier) :
    IsName (String.ofList (c :: more)) := by
  refine ⟨⟨c, more, by simp, hc, hmore⟩, fun hk => ?_⟩
  unfold wordKind at h
  rw [if_pos (List.contains_iff_mem.mpr hk)] at h
  cases h

/-- A token of one character that begins no longer token is spelled as that character. -/
theorem singleKind?_sign {c : Char} {kind : TokenKind} (h : singleKind? c = some kind) :
    kind.sign? = some (String.ofList [c]) := by
  unfold singleKind? at h
  split at h <;> cases h <;> rfl

/-- A token of two characters is spelled as the pair, its first character alone as itself. -/
theorem pairedKind?_sign {c second : Char} {pair : TokenKind} {single? : Option TokenKind}
    (h : pairedKind? c = some (second, pair, single?)) :
    pair.sign? = some (String.ofList [c, second]) ∧
      ∀ kind, single? = some kind → kind.sign? = some (String.ofList [c]) := by
  unfold pairedKind? at h
  split at h <;> cases h <;> refine ⟨rfl, fun kind hk => ?_⟩ <;> cases hk <;> rfl

/-- A sign's shape has the spelling of its kind. -/
theorem signShape_spelled {c : Char} {rest : List Char} {kind : TokenKind}
    (h : (signShape c rest).kind = .token kind) :
    kind.sign? = some (String.ofList (c :: rest.take (signShape c rest).tail)) := by
  unfold signShape at h ⊢
  cases hp : pairedKind? c with
  | some entry =>
    obtain ⟨second, pair, single?⟩ := entry
    obtain ⟨hpair, hsingle⟩ := pairedKind?_sign hp
    simp only [hp] at h ⊢
    by_cases hhead : rest.head? = some second
    · obtain ⟨tail, rfl⟩ := List.head?_eq_some_iff.mp hhead
      rw [if_pos hhead] at h ⊢
      cases h
      exact hpair
    · rw [if_neg hhead] at h ⊢
      cases hs : single? with
      | some single =>
        simp only [hs] at h ⊢
        cases h
        exact hsingle _ hs
      | none => simp only [hs] at h; cases h
  | none =>
    simp only [hp] at h ⊢
    cases hs : singleKind? c with
    | some single =>
      simp only [hs] at h ⊢
      cases h
      exact singleKind?_sign hs
    | none => simp only [hs] at h; cases h

/-- A run of digits is no sign and no name. -/
theorem numberKind_token {run : List Char} {kind : TokenKind}
    (h : numberKind run = .token kind) : kind = .number := by
  unfold numberKind at h
  split at h
  · split at h <;> cases h
    rfl
  · cases h

/-- A string literal is no sign and no name. -/
theorem stringShape_token {t : StringTail} {kind : TokenKind} (h : t.shape.kind = .token kind) :
    kind = .string := by
  unfold StringTail.shape at h
  dsimp only at h
  split at h
  · cases h
  · split at h <;> cases h
    rfl

/-- **The head of a text is spelled as the kind of its shape says.** -/
theorem shape_wellSpelled {c : Char} {rest : List Char} {kind : TokenKind} (pos : Position)
    (h : (Shape.at c rest).kind = .token kind) :
    Token.WellSpelled ⟨kind, String.ofList (c :: rest.take (Shape.at c rest).tail), pos⟩ := by
  unfold Shape.at at h ⊢
  by_cases hgap : isGap c = true
  · rw [if_pos hgap] at h
    cases h
  rw [if_neg hgap] at h ⊢
  by_cases hline : c = '#' ∨ (c = '/' ∧ rest.head? = some '/')
  · rw [if_pos hline] at h
    cases h
  rw [if_neg hline] at h ⊢
  by_cases hblock : c = '/' ∧ rest.head? = some '*'
  · rw [if_pos hblock] at h
    dsimp only at h
    split at h <;> cases h
  rw [if_neg hblock] at h ⊢
  by_cases hquote : c = '\x22'
  · rw [if_pos hquote] at h
    obtain rfl := stringShape_token h
    exact ⟨fun _ hs => (by cases hs), fun hk => (by cases hk), fun _ => by simp⟩
  rw [if_neg hquote] at h ⊢
  by_cases hdigit : Text.isDigit c = true
  · rw [if_pos hdigit] at h
    obtain rfl := numberKind_token h
    exact ⟨fun _ hs => (by cases hs), fun hk => (by cases hk), fun hk => (by cases hk)⟩
  rw [if_neg hdigit] at h ⊢
  by_cases hword : Text.startsWord c = true
  · rw [if_pos hword] at h ⊢
    cases h
    refine ⟨fun text hs => ?_, fun hk => ?_, fun _ => by simp⟩
    · rw [wordKind_sign] at hs
      cases hs
    · dsimp only
      rw [take_length_takeWhile]
      exact isName_of_wordKind hword (fun d hd => List.all_eq_true.mp List.all_takeWhile d hd) hk
  · rw [if_neg hword] at h ⊢
    have hsign := signShape_spelled h
    refine ⟨fun text hs => ?_, fun hk => ?_, fun _ => by simp⟩
    · exact Option.some.inj (hsign.symm.trans hs)
    · dsimp only at hk
      rw [hk] at hsign
      cases hsign

/-! ## 3. Scans -/

/-- The token that a piece of a text is, is well spelled. -/
theorem piece_wellSpelled {pos : Position} {source : List Char} {p : Piece} {t : Token}
    (hp : p ∈ pieces pos source) (ht : p.token? = some t) : t.WellSpelled := by
  obtain ⟨c, rest, hkind, htext⟩ := pieces_shape hp
  unfold Piece.token? at ht
  split at ht
  · rename_i kind hk
    cases ht
    rw [htext]
    exact shape_wellSpelled p.pos (hkind.symm.trans hk)
  · cases ht
    exact ⟨fun _ hs => (by cases hs), fun hk => (by cases hk), fun hk => (by cases hk)⟩
  · cases ht

/-- **All tokens of a scan are well spelled.** -/
theorem scan_wellSpelled {source : List Char} {s : Scan} (h : scan source = .ok s) :
    ∀ t ∈ s.tokens, t.WellSpelled := by
  unfold scan at h
  dsimp only at h
  split at h
  · cases h
  · cases h
    intro t ht
    rcases List.mem_append.mp ht with hpiece | heof
    · obtain ⟨p, hp, hpt⟩ := List.mem_filterMap.mp hpiece
      exact piece_wellSpelled hp hpt
    · rw [List.mem_singleton.mp heof]
      exact ⟨fun _ hs => Option.some.inj hs, fun hk => (by cases hk), fun hk => (by cases hk)⟩

end CMinusMinus
