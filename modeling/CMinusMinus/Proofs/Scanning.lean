/-
  File:      CMinusMinus/Proofs/Scanning.lean
  Subject:   Lexing as rounds of a scanner.

  The readers of a scanner can be driven by hand, each wherever the scanner stands. Lexing drives
  them itself: in each round the next character chooses a reader, and the reader moves on. A round
  takes exactly the piece that the text ahead begins with, so that a scanner lexes the rest of its
  text by rounds, one for each piece, up to its end or to a fault.

  * `Scanner.round`, `Scanner.rounds` -- one round of lexing, and all of them;
  * `Scanner.took`, `Scanner.round_eq` -- a round takes one piece;
  * `Scanner.tokenize_eq_rounds` -- **lexing is rounds of the readers.**
-/
import CMinusMinus.Token.Scanner

namespace CMinusMinus

/-! ## 1. Moving -/

namespace Cursor

theorem peek_one {c : Cursor} {first : Char} {rest : List Char} (h : c.ahead = first :: rest) :
    c.peek 1 = .ok rest.head? := by
  have hsize : c.source.length = c.offset + (rest.length + 1) := by
    simp [source, offset, h]
  have hnext : c.source[c.offset + 1]? = rest.head? := by
    rw [source, List.getElem?_append_right (by simp [offset]), h, List.head?_eq_getElem?]
    simp [offset]
  unfold peek
  dsimp only
  by_cases hend : rest = []
  · subst hend
    rw [if_pos (by simp [hsize])]
    rfl
  · have hpos := List.length_pos_iff.mpr hend
    rw [if_neg (by omega), if_pos (by omega), ← hnext]
    rfl

theorem move_move (c : Cursor) (m n : Nat) : (c.move m).move n = c.move (m + n) := by
  simp [move, List.take_add, Position.past_append]

/-- A move over as many characters as there are among the next ones is a move over these. -/
theorem move_length_take (c : Cursor) (n : Nat) : c.move (c.ahead.take n).length = c.move n := by
  rcases Nat.le_total n c.ahead.length with hle | hle
  · rw [List.length_take_of_le hle]
  · unfold move
    rw [List.take_of_length_le hle, List.take_length, List.drop_length, List.drop_of_length_le hle]

end Cursor

namespace Scanner

variable {s : Scanner} {c : Char} {rest : List Char}

theorem move_move (s : Scanner) (m n : Nat) : (s.move m).move n = s.move (m + n) :=
  congrArg (fun cursor => { s with cursor := cursor }) (s.cursor.move_move m n)

/-! ## 2. Rounds -/

/-- The character behind the next one. -/
def next? (s : Scanner) : Option Char := (s.cursor.peek 1).toOption.join

theorem next?_eq (h : s.cursor.ahead = c :: rest) : s.next? = rest.head? := by
  rw [next?, Cursor.peek_one h]
  rfl

/-- Reads an operator, or a character that begins no token. -/
def readSign (s : Scanner) (c : Char) : Option Token × Scanner :=
  let after := s.advance.2
  let illegal := (none, after.withError (.illegalCharacter c) s.cursor.pos)
  match pairedKind? c with
  | some (second, pair, single?) =>
      if after.current? = some second then
        (some ⟨pair, String.ofList [c, second], s.cursor.pos⟩, after.advance.2)
      else match single? with
        | some single => (some ⟨single, String.ofList [c], s.cursor.pos⟩, after)
        | none => illegal
  | none =>
      match singleKind? c with
      | some single => (some ⟨single, String.ofList [c], s.cursor.pos⟩, after)
      | none => illegal

/-- **One round of lexing** at the character `c`, which chooses the reader. -/
def round (s : Scanner) (c : Char) : Except Text.NumeralFault (Option Token) × Scanner :=
  let pos := s.cursor.pos
  if isGap c then (.ok none, s.skipBlanks)
  else if c = '#' ∨ (c = '/' ∧ s.next? = some '/') then (.ok none, s.skipLine)
  else if c = '/' ∧ s.next? = some '*' then (.ok none, s.skipBlockComment)
  else if c = '\x22' then
    let literal := s.readString pos
    (.ok (literal.1.map fun text => ⟨.string, String.ofList text, pos⟩), literal.2)
  else if Text.isDigit c then
    let number := s.readNumber pos
    (number.1.map fun text => some ⟨.number, String.ofList text, pos⟩, number.2)
  else if Text.startsWord c then
    let word := s.readWord
    (.ok (some ⟨wordKind word.1, String.ofList word.1, pos⟩), word.2)
  else
    let sign := s.readSign c
    (.ok sign.1, sign.2)

/-! ## 3. A round takes one piece -/

/-- The piece of a shape at the place of a scanner. -/
def piece (s : Scanner) (shape : Shape) : Piece :=
  ⟨shape.kind, s.cursor.ahead.take (shape.tail + 1), s.cursor.pos⟩

/-- **What a scanner makes of a piece**: the token or the fault, and where it stands then. -/
def took (s : Scanner) (shape : Shape) : Except Text.NumeralFault (Option Token) × Scanner :=
  let p := s.piece shape
  (match p.fault? with
    | some fault => .error fault
    | none => .ok p.token?,
    ⟨s.cursor.move (shape.tail + 1), s.errors ++ p.error?.toList,
      s.warnings ++ p.warning?.toList⟩)

theorem fault?_of_took {shape : Shape} {fault : Text.NumeralFault}
    (h : (s.took shape).1 = .error fault) : (s.piece shape).fault? = some fault := by
  unfold took at h
  cases hfault : (s.piece shape).fault? with
  | some fault' =>
    simp only [hfault] at h
    cases h
    rfl
  | none =>
    simp only [hfault] at h
    cases h

theorem token?_of_took {shape : Shape} {token? : Option Token}
    (h : (s.took shape).1 = .ok token?) :
    (s.piece shape).fault? = none ∧ (s.piece shape).token? = token? := by
  unfold took at h
  cases hfault : (s.piece shape).fault? with
  | some fault =>
    simp only [hfault] at h
    cases h
  | none =>
    simp only [hfault] at h
    exact ⟨rfl, Except.ok.inj h⟩

theorem took_skipped (s : Scanner) {kind : PieceKind} (h : kind = .blank ∨ kind = .comment)
    (n : Nat) : s.took ⟨kind, n⟩ = (.ok none, s.move (n + 1)) := by
  rcases h with rfl | rfl <;>
    simp [took, piece, Piece.fault?, Piece.token?, Piece.error?, Piece.warning?, move]

theorem took_token (s : Scanner) (kind : TokenKind) (n : Nat) : s.took ⟨.token kind, n⟩ =
    (.ok (some ⟨kind, String.ofList (s.cursor.ahead.take (n + 1)), s.cursor.pos⟩),
      s.move (n + 1)) := by
  simp [took, piece, Piece.fault?, Piece.token?, Piece.error?, Piece.warning?, move]

/-- A piece that is an error has no token. -/
theorem took_error (s : Scanner) {kind : PieceKind} {problem : LexicalProblem} (n : Nat)
    (hfault : (s.piece ⟨kind, n⟩).fault? = none) (htoken : (s.piece ⟨kind, n⟩).token? = none)
    (herror : (s.piece ⟨kind, n⟩).error? = some ⟨problem, s.cursor.pos⟩)
    (hwarning : (s.piece ⟨kind, n⟩).warning? = none) :
    s.took ⟨kind, n⟩ = (.ok none, (s.move (n + 1)).withError problem s.cursor.pos) := by
  simp [took, hfault, htoken, herror, hwarning, move, withError]

section Readers

variable (h : s.cursor.ahead = c :: rest)

include h

/-- A run of characters of a class, from the next one on. -/
theorem takeWhile_ahead {p : Char → Bool} (hc : p c = true) :
    s.cursor.ahead.takeWhile p = c :: rest.takeWhile p := by
  rw [h, List.takeWhile_cons_of_pos hc]

theorem take_run {p : Char → Bool} :
    s.cursor.ahead.take ((rest.takeWhile p).length + 1) = c :: rest.takeWhile p := by
  rw [h, List.take_succ_cons, ← List.prefix_iff_eq_take.mp (List.takeWhile_prefix p)]

theorem skipWhile_eq {p : Char → Bool} (hc : p c = true) :
    s.skipWhile p = s.move ((rest.takeWhile p).length + 1) := by
  rw [skipWhile, takeWhile_ahead h hc]
  rfl

theorem skipBlockComment_took : (.ok none, s.skipBlockComment) =
    s.took ⟨if (commentTail (rest.drop 1)).2 then .comment else .openComment,
      (commentTail (rest.drop 1)).1 + 1⟩ := by
  have htail : s.cursor.ahead.drop 2 = rest.drop 1 := by rw [h, List.drop_succ_cons]
  unfold skipBlockComment
  rw [htail]
  dsimp only
  rw [move_move, Nat.add_comm 2]
  cases (commentTail (rest.drop 1)).2 with
  | true => exact (took_skipped s (.inr rfl) _).symm
  | false => exact (took_error s _ rfl rfl rfl rfl).symm

theorem readString_took : (.ok ((s.readString s.cursor.pos).1.map fun text =>
      ⟨.string, String.ofList text, s.cursor.pos⟩), (s.readString s.cursor.pos).2) =
    s.took (stringTail rest).shape := by
  unfold readString StringTail.shape
  rw [h]
  dsimp only
  cases (stringTail rest).closed with
  | false => exact (took_error s _ rfl rfl rfl rfl).symm
  | true =>
    cases (stringTail rest).clean with
    | false => exact (took_error s _ rfl rfl rfl rfl).symm
    | true =>
      have htoken := took_token s .string (stringTail rest).size
      rw [h] at htoken
      exact htoken.symm

theorem readNumber_took (hc : Text.isDigit c = true) :
    ((s.readNumber s.cursor.pos).1.map fun text =>
      some ⟨.number, String.ofList text, s.cursor.pos⟩, (s.readNumber s.cursor.pos).2) =
    s.took ⟨numberKind (c :: rest.takeWhile Text.isDigit),
      (rest.takeWhile Text.isDigit).length⟩ := by
  unfold readNumber
  rw [takeWhile_ahead h hc]
  dsimp only
  unfold numberKind
  cases Text.readInt (c :: rest.takeWhile Text.isDigit) with
  | error fault =>
    simp [took, piece, Piece.fault?, Piece.error?, Piece.warning?, move, Except.map]
  | ok n =>
    by_cases hlarge : (largestInt : Int) < n
    · have htext : String.ofList (toString largestInt).toList = toString largestInt :=
        String.ofList_toList
      simp only [if_pos hlarge, Except.map, htext]
      simp [took, piece, Piece.fault?, Piece.token?, Piece.error?, Piece.warning?, move]
    · have htoken := took_token s .number (rest.takeWhile Text.isDigit).length
      rw [take_run h] at htoken
      simp only [if_neg hlarge]
      exact htoken.symm

theorem readWord_took (hc : Text.continuesWord c = true) :
    (.ok (some ⟨wordKind s.readWord.1, String.ofList s.readWord.1, s.cursor.pos⟩), s.readWord.2) =
      s.took ⟨.token (wordKind (c :: rest.takeWhile Text.continuesWord)),
        (rest.takeWhile Text.continuesWord).length⟩ := by
  unfold readWord
  rw [takeWhile_ahead h hc, took_token, take_run h]
  rfl

theorem readSign_took : (.ok (s.readSign c).1, (s.readSign c).2) = s.took (signShape c rest) := by
  have hnext : (s.move 1).current? = rest.head? := by
    simp [move, current?, Cursor.move, h]
  have hone : ∀ kind, s.took ⟨.token kind, 0⟩ =
      (.ok (some ⟨kind, String.ofList [c], s.cursor.pos⟩), s.move 1) := by
    intro kind
    rw [took_token, h]
    rfl
  have hillegal : s.took ⟨.illegal c, 0⟩ =
      (.ok none, (s.move 1).withError (.illegalCharacter c) s.cursor.pos) :=
    took_error s 0 rfl rfl rfl rfl
  unfold readSign signShape advance
  dsimp only
  rw [hnext]
  cases pairedKind? c with
  | none =>
    dsimp only
    cases singleKind? c with
    | none => exact hillegal.symm
    | some single => exact (hone single).symm
  | some pair =>
    obtain ⟨second, pair, single?⟩ := pair
    dsimp only
    by_cases hsecond : rest.head? = some second
    · obtain ⟨more, rfl⟩ : ∃ more, rest = second :: more := List.head?_eq_some_iff.mp hsecond
      rw [if_pos hsecond, if_pos hsecond, took_token, h, move_move]
      rfl
    · rw [if_neg hsecond, if_neg hsecond]
      cases single? with
      | none => exact hillegal.symm
      | some single => exact (hone single).symm

/-- **A round takes the piece that the text ahead begins with.** -/
theorem round_eq : s.round c = s.took (Shape.at c rest) := by
  unfold round Shape.at
  dsimp only
  rw [next?_eq h]
  by_cases hgap : isGap c = true
  · rw [if_pos hgap, if_pos hgap, took_skipped s (.inl rfl)]
    exact congrArg _ (skipWhile_eq h hgap)
  rw [if_neg hgap, if_neg hgap]
  by_cases hline : c = '#' ∨ (c = '/' ∧ rest.head? = some '/')
  · have hc : (c != '\n') = true := by
      rcases hline with rfl | ⟨rfl, -⟩ <;> rfl
    rw [if_pos hline, if_pos hline, took_skipped s (.inr rfl)]
    exact congrArg _ (skipWhile_eq h hc)
  rw [if_neg hline, if_neg hline]
  by_cases hblock : c = '/' ∧ rest.head? = some '*'
  · rw [if_pos hblock, if_pos hblock]
    exact skipBlockComment_took h
  rw [if_neg hblock, if_neg hblock]
  by_cases hmark : c = '\x22'
  · rw [if_pos hmark, if_pos hmark]
    exact readString_took h
  rw [if_neg hmark, if_neg hmark]
  by_cases hdigit : Text.isDigit c = true
  · rw [if_pos hdigit, if_pos hdigit]
    exact readNumber_took h hdigit
  rw [if_neg hdigit, if_neg hdigit]
  by_cases hword : Text.startsWord c = true
  · rw [if_pos hword, if_pos hword]
    exact readWord_took h (Text.continuesWord_of_startsWord c hword)
  · rw [if_neg hword, if_neg hword]
    exact readSign_took h

end Readers

/-! ## 4. All rounds -/

/-- A round leaves less ahead. -/
theorem length_round (h : s.current? = some c) :
    (s.round c).2.cursor.ahead.length < s.cursor.ahead.length := by
  obtain ⟨rest, hahead⟩ := List.head?_eq_some_iff.mp h
  rw [round_eq hahead, took, Cursor.move, hahead]
  simp only [List.drop_succ_cons, List.length_drop, List.length_cons]
  omega

/-- **Rounds up to the end of the text**, or to a fault: all tokens, and the end of input. -/
def rounds (s : Scanner) : Except Text.NumeralFault (List Token) × Scanner :=
  match _h : s.current? with
  | none => (.ok [⟨.eof, "", s.cursor.pos⟩], s)
  | some c =>
      match (s.round c).1 with
      | .error fault => (.error fault, (s.round c).2)
      | .ok token? =>
          ((s.round c).2.rounds.1.map (token?.toList ++ ·), (s.round c).2.rounds.2)
termination_by s.cursor.ahead.length
decreasing_by all_goals exact length_round ‹_›

/-- What a scanner tells of pieces that it goes over, behind what it has told. -/
def told (s : Scanner) (ps : List Piece) : Except Text.NumeralFault (List Token) × Scanner :=
  let cursor := s.cursor.move (ps.flatMap Piece.text).length
  let result := Scan.ofPieces ps cursor.pos
  let after : Scanner := ⟨cursor, s.errors ++ result.errors, s.warnings ++ result.warnings⟩
  match ps.findSome? Piece.fault? with
  | some fault => (.error fault, after)
  | none => (.ok result.tokens, after)

/-- The scanner with its complaints forgotten. -/
def fresh (s : Scanner) : Scanner := { cursor := s.cursor }

theorem tokenize_eq_told (s : Scanner) :
    s.tokenize = s.fresh.told (throughFault (pieces s.cursor.pos s.cursor.ahead)) := rfl

theorem told_nil (s : Scanner) : s.told [] = (.ok [⟨.eof, "", s.cursor.pos⟩], s) := by
  have hcursor : s.cursor.move 0 = s.cursor := rfl
  simp [told, Scan.ofPieces, hcursor]

/-- The scanner after a piece and others is the scanner after the others, from behind the piece. -/
theorem move_piece (s : Scanner) (shape : Shape) (ps : List Piece) :
    s.cursor.move ((s.piece shape :: ps).flatMap Piece.text).length =
      (s.took shape).2.cursor.move (ps.flatMap Piece.text).length := by
  rw [List.flatMap_cons, List.length_append, ← Cursor.move_move]
  exact congrArg (Cursor.move · _) (s.cursor.move_length_take (shape.tail + 1))

theorem filterMap_cons_eq {α β : Type} (f : α → Option β) (a : α) (as : List α) :
    (a :: as).filterMap f = (f a).toList ++ as.filterMap f := by
  rw [List.filterMap_cons]
  cases f a <;> rfl

theorem told_fault {shape : Shape} {fault : Text.NumeralFault}
    (h : (s.piece shape).fault? = some fault) :
    s.told [s.piece shape] = (.error fault, (s.took shape).2) := by
  have hmove : s.cursor.move ([s.piece shape].flatMap Piece.text).length =
      (s.took shape).2.cursor := s.move_piece shape []
  unfold told
  rw [hmove, List.findSome?_cons, h]
  simp only [Scan.ofPieces, filterMap_cons_eq, List.filterMap_nil, List.append_nil]
  rfl

theorem told_cons {shape : Shape} (h : (s.piece shape).fault? = none) (ps : List Piece) :
    s.told (s.piece shape :: ps) =
      (((s.took shape).2.told ps).1.map ((s.piece shape).token?.toList ++ ·),
        ((s.took shape).2.told ps).2) := by
  unfold told
  rw [move_piece, List.findSome?_cons, h]
  simp only [Scan.ofPieces, filterMap_cons_eq, List.append_assoc]
  cases ps.findSome? Piece.fault? with
  | none => simp [took, Except.map]
  | some fault => simp [took, Except.map]

theorem pieces_ahead (h : s.cursor.ahead = c :: rest) : pieces s.cursor.pos s.cursor.ahead =
    s.piece (Shape.at c rest) :: pieces (s.took (Shape.at c rest)).2.cursor.pos
      (s.took (Shape.at c rest)).2.cursor.ahead := by
  simp only [took, Cursor.move, piece]
  rw [h, pieces]
  rfl

/-- **All rounds tell what the pieces say**, up to the first fault. -/
theorem rounds_eq_told (s : Scanner) :
    s.rounds = s.told (throughFault (pieces s.cursor.pos s.cursor.ahead)) := by
  fun_induction rounds s with
  | case1 s h =>
    rw [List.head?_eq_none_iff.mp h, pieces]
    exact s.told_nil.symm
  | case2 s c h fault hround =>
    obtain ⟨rest, hahead⟩ := List.head?_eq_some_iff.mp h
    rw [round_eq hahead] at hround ⊢
    have hfault := fault?_of_took hround
    rw [pieces_ahead hahead, throughFault, hfault]
    exact (told_fault hfault).symm
  | case3 s c h token? hround ih =>
    obtain ⟨rest, hahead⟩ := List.head?_eq_some_iff.mp h
    rw [round_eq hahead] at hround ih ⊢
    obtain ⟨hfault, htoken⟩ := token?_of_took hround
    rw [pieces_ahead hahead, throughFault, hfault]
    have hrest := told_cons hfault (throughFault (pieces
      (s.took (Shape.at c rest)).2.cursor.pos (s.took (Shape.at c rest)).2.cursor.ahead))
    rw [htoken, ← ih] at hrest
    exact hrest.symm

/-- **Lexing is rounds of the readers.** A scanner lexes the rest of its text as the rounds do, from
    where it stands and with earlier complaints forgotten. -/
theorem tokenize_eq_rounds (s : Scanner) : s.tokenize = s.fresh.rounds := by
  rw [rounds_eq_told, tokenize_eq_told]
  rfl

end Scanner

end CMinusMinus
