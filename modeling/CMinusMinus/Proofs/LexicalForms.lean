/-
  File:      CMinusMinus/Proofs/LexicalForms.lean
  Subject:   What stands at the head of a text, told from its characters.

  A source text is made of blanks, comments, tokens, text that is refused, and digits that denote no
  number. Each of these forms is described here by its characters and by what may follow it, with no
  word on how it is found: a run goes as far as it can, a comment ends at the first mark that ends
  it, a string at its first bare quotation mark. Every text begins with exactly one of the forms, and
  that is where it is cut.

  * `BlankRun`, `Comment`, `TokenForm`, `LargeNumber`, `Rejected`, `NoNumber` -- the forms;
  * `PieceKind.Fits` -- the form that belongs to a kind of piece;
  * `shape_fits` -- what is cut off at the head of a text has the form of its kind;
  * `TokenForm.cut`, `Rejected.cut` and the like -- a text that begins with a form is cut behind it.
-/
import CMinusMinus.Proofs.Spelling
import Mathlib.Data.List.Infix
import Mathlib.Data.List.TakeWhile

namespace CMinusMinus

/-! ## 1. Runs -/

/-- The text does not go on with a character of the class. -/
def EndsRun (p : Char → Bool) (rest : List Char) : Prop := ∀ c, rest.head? = some c → p c = false

/-- The text is at the end of a line. -/
def AtLineEnd (rest : List Char) : Prop := ∀ c, rest.head? = some c → c = '\n'

theorem endsRun_dropWhile (p : Char → Bool) (cs : List Char) : EndsRun p (cs.dropWhile p) := by
  intro c hc
  have h := List.head?_dropWhile_not p cs
  rw [hc] at h
  exact h

theorem drop_length_takeWhile (p : Char → Bool) (cs : List Char) :
    cs.drop (cs.takeWhile p).length = cs.dropWhile p := by
  have hcut : (cs.takeWhile p ++ cs.dropWhile p).drop (cs.takeWhile p).length = cs.dropWhile p :=
    List.drop_left
  rwa [List.takeWhile_append_dropWhile] at hcut

/-- A run that cannot go on is what is taken. -/
theorem takeWhile_run {p : Char → Bool} {run rest : List Char} (hrun : ∀ c ∈ run, p c = true)
    (hstop : EndsRun p rest) : (run ++ rest).takeWhile p = run := by
  rw [List.takeWhile_append_of_pos hrun]
  cases rest with
  | nil => simp
  | cons c rest => simp [hstop c rfl]

theorem endsRun_iff_atLineEnd {rest : List Char} : EndsRun (· != '\n') rest ↔ AtLineEnd rest := by
  unfold EndsRun AtLineEnd
  simp only [bne_eq_false_iff_eq]

/-! ## 2. The forms -/

/-- A run of blanks. -/
structure BlankRun (text rest : List Char) : Prop where
  nonempty : text ≠ []
  blank : ∀ c ∈ text, isGap c = true
  stop : EndsRun isGap rest

/-- A run of digits. -/
structure DigitRun (text rest : List Char) : Prop where
  nonempty : text ≠ []
  digit : ∀ c ∈ text, Text.isDigit c = true
  stop : EndsRun Text.isDigit rest

/-- A run of word characters, the first of which can start a word. -/
inductive WordRun : List Char → List Char → Prop where
  | mk {c : Char} {more rest : List Char} (hdigit : Text.isDigit c = false)
      (hstart : Text.startsWord c = true) (hmore : ∀ d ∈ more, Text.continuesWord d = true)
      (hstop : EndsRun Text.continuesWord rest) : WordRun (c :: more) rest

/-- The mark that ends a block comment. -/
def commentEnd : List Char := ['*', '/']

/-- A comment: to the end of its line, or to the first mark that ends it. -/
inductive Comment : List Char → List Char → Prop where
  | hash {body rest : List Char} (hline : '\n' ∉ body) (hstop : AtLineEnd rest) :
      Comment ('#' :: body) rest
  | slashes {body rest : List Char} (hline : '\n' ∉ body) (hstop : AtLineEnd rest) :
      Comment ('/' :: '/' :: body) rest
  /-- An earlier end would lie within the body and the first character of the mark. -/
  | block {body rest : List Char} (hfirst : ¬ commentEnd <:+: body ++ ['*']) :
      Comment ('/' :: '*' :: (body ++ commentEnd)) rest

/-- The characters between the marks of a string literal, and whether all escapes are known. -/
inductive StringBody : Bool → List Char → Prop where
  | nil : StringBody true []
  | plain {clean : Bool} {c : Char} {body : List Char} (hmark : c ≠ '\x22') (hslash : c ≠ '\\')
      (hline : c ≠ '\n') (hbody : StringBody clean body) : StringBody clean (c :: body)
  | escape {clean : Bool} {e : Char} {body : List Char} (hline : e ≠ '\n')
      (hbody : StringBody clean body) : StringBody (isEscape e && clean) ('\\' :: e :: body)

/-- **A token**, given the text after it. -/
inductive TokenForm : TokenKind → List Char → List Char → Prop where
  | number {text rest : List Char} {v : Int} (hdigits : DigitRun text rest)
      (hread : Text.readInt text = .ok v) (hsmall : v ≤ largestInt) : TokenForm .number text rest
  | string {body rest : List Char} (hbody : StringBody true body) :
      TokenForm .string ('\x22' :: (body ++ ['\x22'])) rest
  | keyword {text rest : List Char} (hword : WordRun text rest)
      (hkeyword : String.ofList text ∈ keywords) : TokenForm .keyword text rest
  | identifier {text rest : List Char} (hword : WordRun text rest)
      (hfree : String.ofList text ∉ keywords) : TokenForm .identifier text rest
  /-- Two characters are taken whenever the second one follows. -/
  | pair {c second : Char} {pair : TokenKind} {single? : Option TokenKind} {rest : List Char}
      (hpair : pairedKind? c = some (second, pair, single?)) : TokenForm pair [c, second] rest
  | first {c second : Char} {pair single : TokenKind} {rest : List Char}
      (hpair : pairedKind? c = some (second, pair, some single))
      (hstop : rest.head? ≠ some second) : TokenForm single [c] rest
  /-- A slash does not begin a comment. -/
  | single {c : Char} {kind : TokenKind} {rest : List Char} (hsingle : singleKind? c = some kind)
      (hslash : c = '/' → rest.head? ≠ some '/' ∧ rest.head? ≠ some '*') : TokenForm kind [c] rest

/-- A number beyond the greatest integer. -/
structure LargeNumber (text rest : List Char) : Prop where
  digits : DigitRun text rest
  large : ∃ v, Text.readInt text = .ok v ∧ (largestInt : Int) < v

/-- Digits that denote no number. -/
structure NoNumber (fault : Text.NumeralFault) (text rest : List Char) : Prop where
  digits : DigitRun text rest
  refused : Text.readInt text = .error fault

/-- A character that no other form begins with. -/
structure Stray (c : Char) : Prop where
  gap : isGap c = false
  hash : c ≠ '#'
  mark : c ≠ '\x22'
  digit : Text.isDigit c = false
  word : Text.startsWord c = false
  paired : pairedKind? c = none
  single : singleKind? c = none

/-- **Text that is refused**, given the text after it. -/
inductive Rejected : LexicalProblem → List Char → List Char → Prop where
  | openComment {body : List Char} (hopen : ¬ commentEnd <:+: body) :
      Rejected .unterminatedComment ('/' :: '*' :: body) []
  | openString {clean : Bool} {body rest : List Char} (hbody : StringBody clean body)
      (hstop : AtLineEnd rest) : Rejected .unterminatedString ('\x22' :: body) rest
  /-- A backslash that nothing on its line follows. -/
  | openEscape {clean : Bool} {body rest : List Char} (hbody : StringBody clean body)
      (hstop : AtLineEnd rest) : Rejected .unterminatedString ('\x22' :: (body ++ ['\\'])) rest
  | badString {body rest : List Char} (hbody : StringBody false body) :
      Rejected .badEscape ('\x22' :: (body ++ ['\x22'])) rest
  /-- The first character of a pair that is no token by itself. -/
  | half {c second : Char} {pair : TokenKind} {rest : List Char}
      (hpair : pairedKind? c = some (second, pair, none)) (hstop : rest.head? ≠ some second) :
      Rejected (.illegalCharacter c) [c] rest
  | stray {c : Char} {rest : List Char} (hstray : Stray c) : Rejected (.illegalCharacter c) [c] rest

/-- The form that belongs to a kind of piece. -/
def PieceKind.Fits : PieceKind → List Char → List Char → Prop
  | .blank => BlankRun
  | .comment => Comment
  | .openComment => Rejected .unterminatedComment
  | .token kind => TokenForm kind
  | .largeNumber => LargeNumber
  | .openString => Rejected .unterminatedString
  | .badString => Rejected .badEscape
  | .illegal c => Rejected (.illegalCharacter c)
  | .noNumber fault => NoNumber fault

/-! ## 3. Block comments -/

theorem commentEnd_infix_cons {c : Char} {cs : List Char} :
    commentEnd <:+: c :: cs ↔ (c = '*' ∧ ∃ tail, cs = '/' :: tail) ∨ commentEnd <:+: cs := by
  rw [List.infix_cons_iff]
  refine or_congr_left ⟨fun ⟨tail, htail⟩ => ?_, ?_⟩
  · cases htail
    exact ⟨rfl, tail, rfl⟩
  · rintro ⟨rfl, tail, rfl⟩
    exact ⟨tail, rfl⟩

/-- Where the mark does not stand, reading goes on. -/
theorem commentTail_cons {c : Char} {cs : List Char} (h : ¬ (c = '*' ∧ ∃ tail, cs = '/' :: tail)) :
    commentTail (c :: cs) = ((commentTail cs).1 + 1, (commentTail cs).2) :=
  commentTail.eq_3 c cs fun tail hc hcs => h ⟨hc, tail, hcs⟩

/-- The body of a comment goes on up to the mark. -/
theorem commentTail_block {body : List Char} (h : ¬ commentEnd <:+: body ++ ['*'])
    (rest : List Char) : commentTail (body ++ commentEnd ++ rest) = (body.length + 2, true) := by
  induction body with
  | nil => rfl
  | cons c body ih =>
    rw [List.cons_append, commentEnd_infix_cons, not_or] at h
    have hhere : ¬ (c = '*' ∧ ∃ tail, body ++ commentEnd ++ rest = '/' :: tail) := by
      rintro ⟨rfl, tail, htail⟩
      cases body with
      | nil => cases htail
      | cons d body =>
        cases htail
        exact h.1 ⟨rfl, _, rfl⟩
    rw [List.cons_append, List.cons_append, commentTail_cons hhere, ih h.2]
    rfl

/-- A comment without the mark goes on to the end of the text. -/
theorem commentTail_open {cs : List Char} (h : ¬ commentEnd <:+: cs) :
    commentTail cs = (cs.length, false) := by
  induction cs with
  | nil => rfl
  | cons c cs ih =>
    rw [commentEnd_infix_cons, not_or] at h
    rw [commentTail_cons h.1, ih h.2]
    rfl

/-- A text that holds the mark holds a first one. -/
theorem exists_first_commentEnd {cs : List Char} (h : commentEnd <:+: cs) :
    ∃ body rest, cs = body ++ commentEnd ++ rest ∧ ¬ commentEnd <:+: body ++ ['*'] := by
  induction cs with
  | nil => exact absurd h (by decide)
  | cons c cs ih =>
    by_cases hhere : c = '*' ∧ ∃ tail, cs = '/' :: tail
    · obtain ⟨rfl, tail, rfl⟩ := hhere
      exact ⟨[], tail, rfl, by decide⟩
    · obtain ⟨body, rest, rfl, hfirst⟩ := ih ((commentEnd_infix_cons.mp h).resolve_left hhere)
      refine ⟨c :: body, rest, rfl, fun hearlier => ?_⟩
      rcases commentEnd_infix_cons.mp hearlier with ⟨rfl, tail, htail⟩ | hlater
      · cases body with
        | nil => cases htail
        | cons d body =>
          cases htail
          exact hhere ⟨rfl, _, rfl⟩
      · exact hfirst hlater

/-! ## 4. String literals -/

theorem stringTail_plain {c : Char} (hmark : c ≠ '\x22') (hslash : c ≠ '\\') (hline : c ≠ '\n')
    (rest : List Char) : stringTail (c :: rest) =
      ⟨(stringTail rest).size + 1, (stringTail rest).closed, (stringTail rest).clean⟩ :=
  stringTail.eq_7 c rest hline hmark (fun h => absurd h hslash) (fun _ h => absurd h hslash)
    fun _ _ h => absurd h hslash

theorem stringTail_escape {e : Char} (hline : e ≠ '\n') (rest : List Char) :
    stringTail ('\\' :: e :: rest) =
      ⟨(stringTail rest).size + 2, (stringTail rest).closed, isEscape e && (stringTail rest).clean⟩ :=
  stringTail.eq_6 e rest hline

/-- Reading goes over the body of a literal; what is found behind it decides how it ends. -/
theorem stringTail_body {clean : Bool} {body : List Char} (h : StringBody clean body)
    (rest : List Char) : stringTail (body ++ rest) =
      ⟨body.length + (stringTail rest).size, (stringTail rest).closed,
        clean && (stringTail rest).clean⟩ := by
  induction h with
  | nil => simp
  | plain hmark hslash hline _ ih =>
    rw [List.cons_append, stringTail_plain hmark hslash hline, ih, List.length_cons]
    simp only [StringTail.mk.injEq, and_self, and_true]
    omega
  | escape hline _ ih =>
    rw [List.cons_append, List.cons_append, stringTail_escape hline, ih, List.length_cons,
      List.length_cons, Bool.and_assoc]
    simp only [StringTail.mk.injEq, and_self, and_true]
    omega

theorem stringTail_closed {clean : Bool} {body : List Char} (h : StringBody clean body)
    (rest : List Char) : stringTail (body ++ '\x22' :: rest) = ⟨body.length + 1, true, clean⟩ := by
  rw [stringTail_body h, stringTail.eq_3, Bool.and_true]

theorem stringTail_lineEnd {rest : List Char} (h : AtLineEnd rest) :
    stringTail rest = ⟨0, false, true⟩ := by
  cases rest with
  | nil => rfl
  | cons c rest => rw [h c rfl, stringTail.eq_2]

theorem stringTail_slash {rest : List Char} (h : AtLineEnd rest) :
    stringTail ('\\' :: rest) = ⟨1, false, true⟩ := by
  cases rest with
  | nil => rfl
  | cons c rest => rw [h c rfl, stringTail.eq_5]

/-- How a string literal can end behind its body: by a mark, or where its line ends, perhaps after a
    backslash. -/
inductive StringEnd : List Char → Prop where
  | mark {rest : List Char} : StringEnd ('\x22' :: rest)
  | line {rest : List Char} (h : AtLineEnd rest) : StringEnd rest
  | slash {rest : List Char} (h : AtLineEnd rest) : StringEnd ('\\' :: rest)

/-- Every text is the body of a literal up to an end. -/
theorem exists_stringBody (cs : List Char) :
    ∃ clean body rest, cs = body ++ rest ∧ StringBody clean body ∧ StringEnd rest := by
  fun_induction stringTail cs with
  | case1 => exact ⟨true, [], [], rfl, .nil, .line fun _ h => by cases h⟩
  | case2 rest => exact ⟨true, [], _, rfl, .nil, .line fun _ h => (Option.some.inj h).symm⟩
  | case3 rest => exact ⟨true, [], _, rfl, .nil, .mark⟩
  | case4 => exact ⟨true, [], _, rfl, .nil, .slash fun _ h => by cases h⟩
  | case5 rest => exact ⟨true, [], _, rfl, .nil, .slash fun _ h => (Option.some.inj h).symm⟩
  | case6 e rest hline t ih =>
    obtain ⟨clean, body, after, rfl, hbody, hend⟩ := ih
    exact ⟨_, _, after, rfl, .escape hline hbody, hend⟩
  | case7 c rest hline hmark hlast hbreak hescape t ih =>
    obtain ⟨clean, body, after, rfl, hbody, hend⟩ := ih
    -- a backslash would have been taken with what follows it
    have hslash : c ≠ '\\' := by
      rintro rfl
      cases hrest : body ++ after with
      | nil => exact hlast rfl hrest
      | cons e tail => exact hescape e tail rfl hrest
    exact ⟨_, _, after, rfl, .plain hmark hslash hline hbody, hend⟩

/-! ## 5. The first character -/

/-- The characters that begin blanks, comments and strings. -/
def openers : List Char := [' ', '\t', '\r', '\n', '\x0c', '#', '/', '\x22']

theorem isGap_mem_openers {c : Char} (h : isGap c = true) : c ∈ openers := by
  simp only [isGap, Bool.or_eq_true, beq_iff_eq] at h
  rcases h with (((rfl | rfl) | rfl) | rfl) | rfl <;> decide

/-- A text that begins with none of these characters begins with a number, a word or a sign. -/
theorem shape_of_not_opener {c : Char} (h : c ∉ openers) (rest : List Char) : Shape.at c rest =
    if Text.isDigit c then
      ⟨numberKind (c :: rest.takeWhile Text.isDigit), (rest.takeWhile Text.isDigit).length⟩
    else if Text.startsWord c then
      ⟨.token (wordKind (c :: rest.takeWhile Text.continuesWord)),
        (rest.takeWhile Text.continuesWord).length⟩
    else signShape c rest := by
  have hgap : ¬ isGap c = true := fun hgap => h (isGap_mem_openers hgap)
  have hhash : c ≠ '#' := fun he => h (he ▸ by decide)
  have hslash : c ≠ '/' := fun he => h (he ▸ by decide)
  have hmark : c ≠ '\x22' := fun he => h (he ▸ by decide)
  unfold Shape.at
  rw [if_neg hgap, if_neg (by simp [hhash, hslash]), if_neg (by simp [hslash]), if_neg hmark]

/-- A class of characters that none of these characters is in. -/
theorem not_mem_openers {p : Char → Bool} (hnone : openers.all (fun d => !p d) = true) {c : Char}
    (h : p c = true) : c ∉ openers := by
  intro hc
  have hfalse : (!p c) = true := List.all_eq_true.mp hnone c hc
  rw [h] at hfalse
  cases hfalse

theorem isDigit_not_opener {c : Char} (h : Text.isDigit c = true) : c ∉ openers :=
  not_mem_openers (by decide) h

theorem startsWord_not_opener {c : Char} (h : Text.startsWord c = true) : c ∉ openers :=
  not_mem_openers (by decide) h

theorem pairedKind?_not_opener {c : Char} {entry : Char × TokenKind × Option TokenKind}
    (h : pairedKind? c = some entry) : c ∉ openers :=
  not_mem_openers (p := fun d => (pairedKind? d).isSome) (by decide) (by rw [h]; rfl)

/-- A slash is the only sign that may begin something else. -/
theorem singleKind?_not_opener {c : Char} {kind : TokenKind} (h : singleKind? c = some kind)
    (hslash : c ≠ '/') : c ∉ openers :=
  not_mem_openers (p := fun d => (singleKind? d).isSome && d != '/') (by decide)
    (by simp [h, hslash])

theorem Stray.not_opener {c : Char} (h : Stray c) : c ∉ openers := by
  have hslash : c ≠ '/' := by
    rintro rfl
    cases h.single
  exact not_mem_openers (p := fun d => !(isGap d || d == '#' || d == '\x22' || d == '/')) (by decide)
    (by simp [h.gap, h.hash, h.mark, hslash])

/-- The characters of the signs are neither digits nor letters. -/
theorem pairedKind?_plain {c : Char} {entry : Char × TokenKind × Option TokenKind}
    (h : pairedKind? c = some entry) :
    Text.isDigit c = false ∧ Text.startsWord c = false := by
  unfold pairedKind? at h
  split at h
  case h_7 => cases h
  all_goals decide

theorem singleKind?_plain {c : Char} {kind : TokenKind} (h : singleKind? c = some kind) :
    Text.isDigit c = false ∧ Text.startsWord c = false ∧ pairedKind? c = none := by
  unfold singleKind? at h
  split at h
  case h_14 => cases h
  all_goals decide

/-- A text that begins with a sign. -/
theorem shape_of_sign {c : Char} (h : c ∉ openers) (hdigit : Text.isDigit c = false)
    (hword : Text.startsWord c = false) (rest : List Char) :
    Shape.at c rest = signShape c rest := by
  rw [shape_of_not_opener h, if_neg (Bool.eq_false_iff.mp hdigit),
    if_neg (Bool.eq_false_iff.mp hword)]

/-- A slash that begins no comment. -/
theorem shape_of_slash {rest : List Char} (hline : rest.head? ≠ some '/')
    (hblock : rest.head? ≠ some '*') : Shape.at '/' rest = ⟨.token .slash, 0⟩ := by
  unfold Shape.at
  rw [if_neg (by decide), if_neg (by simp [hline]), if_neg (by simp [hblock]), if_neg (by decide),
    if_neg (by decide), if_neg (by decide)]
  rfl

/-! ## 6. What is cut off has the form of its kind -/

/-- What is cut off at the head of `c :: rest` by a shape has the form of the shape's kind. -/
def Shape.Fits (shape : Shape) (c : Char) (rest : List Char) : Prop :=
  shape.kind.Fits (c :: rest.take shape.tail) (rest.drop shape.tail)

/-- A run is cut off whole. -/
theorem Shape.fits_run {kind : PieceKind} {p : Char → Bool} {c : Char} {rest : List Char}
    (h : kind.Fits (c :: rest.takeWhile p) (rest.dropWhile p)) :
    Shape.Fits ⟨kind, (rest.takeWhile p).length⟩ c rest := by
  unfold Shape.Fits
  rwa [take_length_takeWhile, drop_length_takeWhile]

/-- What is cut off is given by the text in two parts. -/
theorem Shape.fits_append (kind : PieceKind) {c : Char} (more : List Char) {rest : List Char}
    (h : kind.Fits (c :: more) rest) : Shape.Fits ⟨kind, more.length⟩ c (more ++ rest) := by
  unfold Shape.Fits
  rwa [List.take_left, List.drop_left]

theorem mem_takeWhile_class {p : Char → Bool} {cs : List Char} : ∀ c ∈ cs.takeWhile p, p c = true :=
  fun _ h => List.all_eq_true.mp List.all_takeWhile _ h

theorem newline_not_mem_takeWhile (cs : List Char) : '\n' ∉ cs.takeWhile (· != '\n') := fun h => by
  simpa using mem_takeWhile_class _ h

theorem blank_fits {c : Char} (h : isGap c = true) (rest : List Char) :
    Shape.Fits ⟨.blank, (rest.takeWhile isGap).length⟩ c rest :=
  Shape.fits_run ⟨List.cons_ne_nil _ _, List.forall_mem_cons.mpr ⟨h, mem_takeWhile_class⟩,
    endsRun_dropWhile _ _⟩

theorem lineComment_fits {c : Char} {rest : List Char}
    (h : c = '#' ∨ (c = '/' ∧ rest.head? = some '/')) :
    Shape.Fits ⟨.comment, (rest.takeWhile (· != '\n')).length⟩ c rest := by
  refine Shape.fits_run ?_
  have hstop := endsRun_iff_atLineEnd.mp (endsRun_dropWhile (· != '\n') rest)
  have hline := newline_not_mem_takeWhile rest
  rcases h with rfl | ⟨rfl, hhead⟩
  · exact .hash hline hstop
  · obtain ⟨tail, rfl⟩ := List.head?_eq_some_iff.mp hhead
    rw [List.takeWhile_cons_of_pos (by decide)] at hline ⊢
    rw [List.dropWhile_cons_of_pos (by decide)] at hstop ⊢
    exact .slashes (List.not_mem_of_not_mem_cons hline) hstop

theorem blockComment_fits {rest : List Char} (h : rest.head? = some '*') :
    Shape.Fits ⟨if (commentTail (rest.drop 1)).2 then .comment else .openComment,
      (commentTail (rest.drop 1)).1 + 1⟩ '/' rest := by
  obtain ⟨cs, rfl⟩ := List.head?_eq_some_iff.mp h
  rw [List.drop_succ_cons, List.drop_zero]
  by_cases hend : commentEnd <:+: cs
  · obtain ⟨body, after, rfl, hfirst⟩ := exists_first_commentEnd hend
    rw [commentTail_block hfirst]
    have hlength : body.length + 2 + 1 = ('*' :: (body ++ commentEnd)).length := by simp [commentEnd]
    rw [hlength]
    exact Shape.fits_append .comment _ (.block hfirst)
  · rw [commentTail_open hend]
    have hall := Shape.fits_append .openComment ('*' :: cs) (.openComment hend)
    rwa [List.append_nil] at hall

theorem string_fits (rest : List Char) : (stringTail rest).shape.Fits '\x22' rest := by
  obtain ⟨clean, body, after, rfl, hbody, hend⟩ := exists_stringBody rest
  unfold StringTail.shape
  cases hend with
  | mark =>
    rename_i after
    rw [stringTail_closed hbody]
    have hlength : body.length + 1 = (body ++ ['\x22']).length := by simp
    rw [hlength, show body ++ '\x22' :: after = (body ++ ['\x22']) ++ after by simp]
    cases clean with
    | true => exact Shape.fits_append (.token .string) _ (.string hbody)
    | false => exact Shape.fits_append .badString _ (.badString hbody)
  | line hline =>
    rw [stringTail_body hbody, stringTail_lineEnd hline]
    exact Shape.fits_append .openString _ (.openString hbody hline)
  | slash hline =>
    rename_i after
    rw [stringTail_body hbody, stringTail_slash hline]
    have hlength : body.length + 1 = (body ++ ['\\']).length := by simp
    rw [hlength, show body ++ '\\' :: after = (body ++ ['\\']) ++ after by simp]
    exact Shape.fits_append .openString _ (.openEscape hbody hline)

theorem number_fits {c : Char} (h : Text.isDigit c = true) (rest : List Char) :
    Shape.Fits ⟨numberKind (c :: rest.takeWhile Text.isDigit), (rest.takeWhile Text.isDigit).length⟩
      c rest := by
  refine Shape.fits_run ?_
  have hdigits : DigitRun (c :: rest.takeWhile Text.isDigit) (rest.dropWhile Text.isDigit) :=
    ⟨List.cons_ne_nil _ _, List.forall_mem_cons.mpr ⟨h, mem_takeWhile_class⟩, endsRun_dropWhile _ _⟩
  unfold numberKind
  split
  · rename_i v hread
    split
    · rename_i hlarge
      exact ⟨hdigits, v, hread, hlarge⟩
    · rename_i hsmall
      exact .number hdigits hread (Int.not_lt.mp hsmall)
  · rename_i fault hread
    exact ⟨hdigits, hread⟩

theorem word_fits {c : Char} (hdigit : Text.isDigit c = false) (h : Text.startsWord c = true)
    (rest : List Char) :
    Shape.Fits ⟨.token (wordKind (c :: rest.takeWhile Text.continuesWord)),
      (rest.takeWhile Text.continuesWord).length⟩ c rest := by
  refine Shape.fits_run ?_
  have hword : WordRun (c :: rest.takeWhile Text.continuesWord) (rest.dropWhile Text.continuesWord) :=
    .mk hdigit h mem_takeWhile_class (endsRun_dropWhile _ _)
  unfold wordKind
  split
  · rename_i hkeyword
    exact .keyword hword (List.contains_iff_mem.mp hkeyword)
  · rename_i hfree
    exact .identifier hword fun hkeyword => hfree (List.contains_iff_mem.mpr hkeyword)

/-- A sign, or a character that begins nothing; a slash begins no comment here. -/
theorem sign_fits {c : Char} {rest : List Char} (hgap : isGap c = false) (hhash : c ≠ '#')
    (hmark : c ≠ '\x22') (hslash : c = '/' → rest.head? ≠ some '/' ∧ rest.head? ≠ some '*')
    (hdigit : Text.isDigit c = false) (hword : Text.startsWord c = false) :
    (signShape c rest).Fits c rest := by
  unfold signShape
  cases hpair : pairedKind? c with
  | some entry =>
    obtain ⟨second, pair, single?⟩ := entry
    dsimp only
    by_cases hhead : rest.head? = some second
    · obtain ⟨tail, rfl⟩ := List.head?_eq_some_iff.mp hhead
      rw [if_pos hhead]
      exact Shape.fits_append (.token pair) [second] (.pair hpair)
    · rw [if_neg hhead]
      cases single? with
      | some single =>
        exact Shape.fits_append (.token single) [] (.first hpair hhead)
      | none => exact Shape.fits_append (.illegal c) [] (.half hpair hhead)
  | none =>
    dsimp only
    cases hsingle : singleKind? c with
    | some kind => exact Shape.fits_append (.token kind) [] (.single hsingle hslash)
    | none =>
      have hstray : Stray c := ⟨hgap, hhash, hmark, hdigit, hword, hpair, hsingle⟩
      exact Shape.fits_append (.illegal c) [] (.stray hstray)

/-- **What is cut off at the head of a text has the form of its kind.** -/
theorem shape_fits (c : Char) (rest : List Char) : (Shape.at c rest).Fits c rest := by
  unfold Shape.at
  by_cases hgap : isGap c = true
  · rw [if_pos hgap]
    exact blank_fits hgap rest
  rw [if_neg hgap]
  by_cases hline : c = '#' ∨ (c = '/' ∧ rest.head? = some '/')
  · rw [if_pos hline]
    exact lineComment_fits hline
  rw [if_neg hline]
  by_cases hblock : c = '/' ∧ rest.head? = some '*'
  · obtain ⟨rfl, hstar⟩ := hblock
    rw [if_pos ⟨rfl, hstar⟩]
    exact blockComment_fits hstar
  rw [if_neg hblock]
  by_cases hmark : c = '\x22'
  · subst hmark
    rw [if_pos rfl]
    exact string_fits rest
  rw [if_neg hmark]
  by_cases hdigit : Text.isDigit c = true
  · rw [if_pos hdigit]
    exact number_fits hdigit rest
  rw [if_neg hdigit]
  rw [Bool.not_eq_true] at hgap hdigit
  by_cases hword : Text.startsWord c = true
  · rw [if_pos hword]
    exact word_fits hdigit hword rest
  · rw [if_neg hword]
    rw [not_or, not_and] at hline
    rw [not_and] at hblock
    exact sign_fits hgap hline.1 hmark (fun hc => ⟨hline.2 hc, hblock hc⟩) hdigit
      (Bool.eq_false_iff.mpr hword)

/-! ## 7. A text is cut behind its first form -/

/-- The text is cut off at the head of what it stands before, as a piece of the kind. -/
def CutAs (kind : PieceKind) (text rest : List Char) : Prop :=
  ∃ c more, text = c :: more ∧ Shape.at c (more ++ rest) = ⟨kind, more.length⟩

theorem BlankRun.cut {text rest : List Char} (h : BlankRun text rest) : CutAs .blank text rest := by
  obtain ⟨hne, hblank, hstop⟩ := h
  obtain ⟨c, more, rfl⟩ := List.exists_cons_of_ne_nil hne
  obtain ⟨hc, hmore⟩ := List.forall_mem_cons.mp hblank
  refine ⟨c, more, rfl, ?_⟩
  unfold Shape.at
  rw [if_pos hc, takeWhile_run hmore hstop]

/-- A line is taken to its end. -/
theorem takeWhile_line {body rest : List Char} (hline : '\n' ∉ body) (hstop : AtLineEnd rest) :
    (body ++ rest).takeWhile (· != '\n') = body :=
  takeWhile_run (fun _ hc => bne_iff_ne.mpr fun he => hline (he ▸ hc))
    (endsRun_iff_atLineEnd.mpr hstop)

theorem Comment.cut {text rest : List Char} (h : Comment text rest) :
    CutAs .comment text rest := by
  cases h with
  | @hash body _ hline hstop =>
    refine ⟨'#', body, rfl, ?_⟩
    unfold Shape.at
    rw [if_neg (by decide), if_pos (.inl rfl), takeWhile_line hline hstop]
  | @slashes body _ hline hstop =>
    refine ⟨'/', '/' :: body, rfl, ?_⟩
    have hbody : '\n' ∉ '/' :: body := List.not_mem_cons_of_ne_of_not_mem (by decide) hline
    unfold Shape.at
    rw [if_neg (by decide), if_pos (.inr ⟨rfl, rfl⟩), takeWhile_line hbody hstop]
  | @block body _ hfirst =>
    refine ⟨'/', '*' :: (body ++ commentEnd), rfl, ?_⟩
    unfold Shape.at
    rw [if_neg (by decide), if_neg (by simp), if_pos ⟨rfl, rfl⟩]
    have htail := commentTail_block hfirst rest
    rw [List.cons_append, List.drop_succ_cons, List.drop_zero, htail]
    simp [commentEnd]

theorem shape_of_mark (rest : List Char) : Shape.at '\x22' rest = (stringTail rest).shape := by
  unfold Shape.at
  rw [if_neg (by decide), if_neg (by simp), if_neg (by simp), if_pos rfl]

/-- A closed literal is a token if all its escapes are known. -/
theorem StringBody.cut {clean : Bool} {body : List Char} (h : StringBody clean body)
    (rest : List Char) :
    CutAs (if clean then .token .string else .badString) ('\x22' :: (body ++ ['\x22'])) rest := by
  refine ⟨'\x22', body ++ ['\x22'], rfl, ?_⟩
  rw [shape_of_mark, List.append_assoc, List.singleton_append, stringTail_closed h,
    List.length_append, List.length_singleton]
  rfl

theorem DigitRun.cut {text rest : List Char} (h : DigitRun text rest) :
    CutAs (numberKind text) text rest := by
  obtain ⟨hne, hdigit, hstop⟩ := h
  obtain ⟨c, more, rfl⟩ := List.exists_cons_of_ne_nil hne
  obtain ⟨hc, hmore⟩ := List.forall_mem_cons.mp hdigit
  refine ⟨c, more, rfl, ?_⟩
  rw [shape_of_not_opener (isDigit_not_opener hc), if_pos hc, takeWhile_run hmore hstop]

theorem WordRun.cut {text rest : List Char} (h : WordRun text rest) :
    CutAs (.token (wordKind text)) text rest := by
  obtain ⟨hdigit, hstart, hmore, hstop⟩ := h
  refine ⟨_, _, rfl, ?_⟩
  rw [shape_of_not_opener (startsWord_not_opener hstart), if_neg (Bool.eq_false_iff.mp hdigit),
    if_pos hstart, takeWhile_run hmore hstop]

section Pairs

variable {c second : Char} {pair : TokenKind} {single? : Option TokenKind} {rest : List Char}
  (hpair : pairedKind? c = some (second, pair, single?))

include hpair

theorem shape_of_pair (h : rest.head? = some second) : Shape.at c rest = ⟨.token pair, 1⟩ := by
  obtain ⟨hdigit, hword⟩ := pairedKind?_plain hpair
  rw [shape_of_sign (pairedKind?_not_opener hpair) hdigit hword]
  simp only [signShape, hpair, if_pos h]

/-- The first character of a pair without the second one. -/
theorem shape_of_half (h : rest.head? ≠ some second) :
    Shape.at c rest = ⟨single?.elim (.illegal c) .token, 0⟩ := by
  obtain ⟨hdigit, hword⟩ := pairedKind?_plain hpair
  rw [shape_of_sign (pairedKind?_not_opener hpair) hdigit hword]
  simp only [signShape, hpair, if_neg h]
  cases single? <;> rfl

end Pairs

theorem TokenForm.cut {kind : TokenKind} {text rest : List Char} (h : TokenForm kind text rest) :
    CutAs (.token kind) text rest := by
  cases h with
  | number hdigits hread hsmall =>
    have hkind : numberKind text = .token .number := by
      unfold numberKind
      rw [hread]
      exact if_neg (Int.not_lt.mpr hsmall)
    exact hkind ▸ hdigits.cut
  | string hbody => exact hbody.cut rest
  | keyword hword hkeyword =>
    have hkind : wordKind text = .keyword := if_pos (List.contains_iff_mem.mpr hkeyword)
    exact hkind ▸ hword.cut
  | identifier hword hfree =>
    have hkind : wordKind text = .identifier :=
      if_neg fun hkeyword => hfree (List.contains_iff_mem.mp hkeyword)
    exact hkind ▸ hword.cut
  | @pair c second _ _ _ hpair => exact ⟨c, [second], rfl, shape_of_pair hpair rfl⟩
  | @first c _ _ _ _ hpair hstop => exact ⟨c, [], rfl, shape_of_half hpair hstop⟩
  | @single c _ _ hsingle hslash =>
    refine ⟨c, [], rfl, ?_⟩
    by_cases hc : c = '/'
    · subst hc
      cases hsingle
      exact shape_of_slash (hslash rfl).1 (hslash rfl).2
    · obtain ⟨hdigit, hword, hpair⟩ := singleKind?_plain hsingle
      rw [shape_of_sign (singleKind?_not_opener hsingle hc) hdigit hword, signShape, hpair, hsingle]
      rfl

/-- The kind of piece that a lexical error is. -/
def LexicalProblem.pieceKind : LexicalProblem → PieceKind
  | .unterminatedComment => .openComment
  | .unterminatedString => .openString
  | .badEscape => .badString
  | .illegalCharacter c => .illegal c
  | .integerTooLarge => .largeNumber

theorem Rejected.cut {problem : LexicalProblem} {text rest : List Char}
    (h : Rejected problem text rest) : CutAs problem.pieceKind text rest := by
  cases h with
  | @openComment body hopen =>
    refine ⟨'/', '*' :: body, rfl, ?_⟩
    unfold Shape.at
    rw [if_neg (by decide), if_neg (by simp), if_pos ⟨rfl, rfl⟩]
    rw [List.append_nil, List.drop_succ_cons, List.drop_zero, commentTail_open hopen]
    rfl
  | @openString _ body _ hbody hstop =>
    refine ⟨'\x22', body, rfl, ?_⟩
    rw [shape_of_mark, stringTail_body hbody, stringTail_lineEnd hstop]
    rfl
  | @openEscape _ body _ hbody hstop =>
    refine ⟨'\x22', body ++ ['\\'], rfl, ?_⟩
    rw [shape_of_mark, List.append_assoc, List.singleton_append, stringTail_body hbody,
      stringTail_slash hstop, List.length_append, List.length_singleton]
    rfl
  | badString hbody => exact hbody.cut rest
  | @half c _ _ _ hpair hstop => exact ⟨c, [], rfl, shape_of_half hpair hstop⟩
  | @stray c _ hstray =>
    refine ⟨c, [], rfl, ?_⟩
    rw [shape_of_sign hstray.not_opener hstray.digit hstray.word, signShape, hstray.paired,
      hstray.single]
    rfl

theorem LargeNumber.cut {text rest : List Char} (h : LargeNumber text rest) :
    CutAs .largeNumber text rest := by
  obtain ⟨v, hread, hlarge⟩ := h.large
  have hkind : numberKind text = .largeNumber := by
    unfold numberKind
    rw [hread]
    exact if_pos hlarge
  exact hkind ▸ h.digits.cut

theorem NoNumber.cut {fault : Text.NumeralFault} {text rest : List Char}
    (h : NoNumber fault text rest) : CutAs (.noNumber fault) text rest := by
  have hkind : numberKind text = .noNumber fault := by
    unfold numberKind
    rw [h.refused]
  exact hkind ▸ h.digits.cut

end CMinusMinus
