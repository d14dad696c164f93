/-
  File:      CMinusMinus/Proofs/ParserTotality.lean
  Subject:   The parser comes to an end on every complete token list.

  A token list is COMPLETE when it ends with the end of input and its numbers denote numbers, which
  holds of every list that a scan gives. On such a list the parser either makes a program and stands
  at the first end of input, or tells of a problem at a token of the list. It does not run off the
  list, and no number lets it down.

  * `scan_complete` -- the tokens of a scan are complete;
  * `parser_total` -- the two outcomes on a complete list.
-/
import CMinusMinus.Proofs.Numerals
import CMinusMinus.Proofs.Outcomes
import CMinusMinus.Proofs.Spelling

namespace CMinusMinus

/-! ## 1. Complete token lists -/

/-- The list ends with the end of input, and the text of each number denotes one. -/
structure Complete (tokens : List Token) : Prop where
  ended : ∃ e, tokens.getLast? = some e ∧ e.kind = .eof
  numbers : ∀ t ∈ tokens, t.kind = .number → ∃ v, Text.readInt t.text.toList = .ok v

/-- A run of digits that is a token denotes a number. -/
theorem readInt_of_numberKind {run : List Char} {kind : TokenKind}
    (h : numberKind run = .token kind) : ∃ v, Text.readInt run = .ok v := by
  unfold numberKind at h
  split at h
  · rename_i v hread
    exact ⟨v, hread⟩
  · cases h

/-- A number at the head of a text denotes one. -/
theorem readInt_of_shape {c : Char} {rest : List Char}
    (h : (Shape.at c rest).kind = .token .number) :
    ∃ v, Text.readInt (c :: rest.take (Shape.at c rest).tail) = .ok v := by
  unfold Shape.at at h ⊢
  by_cases hgap : isGap c = true
  · rw [if_pos hgap] at h
    cases h
  rw [if_neg hgap] at h ⊢
  by_cases hline : c = '#' ∨ (c = '/' ∧ rest.head? = some '/')
  · rw [if_pos hline] at h
    cases h
  rw [if_neg hline] at h ⊢
  by_cases hblock : c = '/' ∧ rest.head? = some '*'
  · rw [if_pos hblock] at h
    dsimp only at h
    split at h <;> cases h
  rw [if_neg hblock] at h ⊢
  by_cases hquote : c = '\x22'
  · rw [if_pos hquote] at h
    cases stringShape_token h
  rw [if_neg hquote] at h ⊢
  by_cases hdigit : Text.isDigit c = true
  · rw [if_pos hdigit] at h ⊢
    dsimp only
    rw [take_length_takeWhile]
    exact readInt_of_numberKind h
  rw [if_neg hdigit] at h ⊢
  by_cases hword : Text.startsWord c = true
  · -- a word is a keyword or a name
    rw [if_pos hword] at h
    dsimp only at h
    unfold wordKind at h
    split at h <;> cases h
  · rw [if_neg hword] at h
    cases signShape_spelled h

/-- The number that stands for all greater ones is read as itself. -/
theorem readInt_largestInt : Text.readInt (toString largestInt).toList = .ok largestInt :=
  Text.readInt_repr (by decide)

/-- The number that a piece of a text is, denotes one. -/
theorem readInt_of_piece {pos : Position} {source : List Char} {p : Piece} {t : Token}
    (hp : p ∈ pieces pos source) (ht : p.token? = some t) (hnumber : t.kind = .number) :
    ∃ v, Text.readInt t.text.toList = .ok v := by
  obtain ⟨c, rest, hkind, htext⟩ := pieces_shape hp
  unfold Piece.token? at ht
  split at ht
  · rename_i kind hk
    cases ht
    obtain rfl : kind = .number := hnumber
    rw [String.toList_ofList, htext]
    exact readInt_of_shape (hkind.symm.trans hk)
  · cases ht
    exact ⟨largestInt, readInt_largestInt⟩
  · cases ht

/-- **The tokens of a scan are complete.** -/
theorem scan_complete {source : List Char} {s : Scan} (h : scan source = .ok s) :
    Complete s.tokens := by
  unfold scan at h
  dsimp only at h
  split at h
  · cases h
  · cases h
    refine ⟨⟨_, List.getLast?_concat, rfl⟩, fun t ht hnumber => ?_⟩
    rcases List.mem_append.mp ht with hpiece | heof
    · obtain ⟨p, hp, hpt⟩ := List.mem_filterMap.mp hpiece
      exact readInt_of_piece hp hpt hnumber
    · rw [List.mem_singleton.mp heof] at hnumber
      cases hnumber

/-! ## 2. The two outcomes -/

theorem Complete.stream {tokens : List Token} (h : Complete tokens) :
    (Stream.ofTokens tokens).Ended := h.ended

/-- On a complete list a fault is a problem at one of its tokens. -/
theorem Complete.fault {tokens : List Token} (h : Complete tokens) {f : ParseFault}
    (hf : f.Names tokens) :
    ∃ problem t, f = .unexpected problem (some t) ∧ problem ≠ .inputEnded ∧ t ∈ tokens := by
  cases f with
  | unexpected problem t? =>
    cases t? with
    | some t => exact ⟨problem, t, rfl, hf⟩
    | none => exact hf.elim
  | numeral f =>
    obtain ⟨t, ht, hnumber, hread⟩ := hf
    obtain ⟨v, hv⟩ := h.numbers t ht hnumber
    rw [hread] at hv
    cases hv

/-- The stream stands at the first end of input of the list. -/
structure Stream.AtEnd (s : Stream) (tokens : List Token) : Prop where
  here : s.here = tokens.find? fun t => t.kind == .eof
  isEof : s.isAt .eof = true
  position : s.position tokens.length = tokens.findIdx fun t => t.kind == .eof

/-- What is passed over without an end of input, up to one, leads to the first one. -/
theorem Stream.atEnd_of_past {s : Stream} {tokens ts rest : List Token} {e : Token}
    (hs : s.ahead = e :: rest) (he : e.kind = .eof) (h : tokens = ts ++ s.ahead)
    (hts : ∀ t ∈ ts, t.kind ≠ .eof) : s.AtEnd tokens := by
  have hmiss : ∀ t ∈ ts, ¬ (t.kind == .eof) = true := fun t ht => by simpa using hts t ht
  refine ⟨?_, ?_, ?_⟩
  · rw [Stream.here_of_ahead hs, h, hs, List.find?_append,
      List.find?_eq_none.mpr hmiss, Option.none_or, List.find?_cons_of_pos (by simpa using he)]
  · rw [Stream.isAt_of_ahead hs, decide_eq_true he]
  · have hlength : tokens.length = ts.length + (rest.length + 1) := by
      rw [h, hs, List.length_append, List.length_cons]
    have hfind : tokens.findIdx (fun t => t.kind == .eof) = ts.length := by
      have hpassed : ts.findIdx (fun t => t.kind == .eof) = ts.length :=
        List.findIdx_eq_length.mpr fun t ht => by simpa using hts t ht
      rw [h, hs, List.findIdx_append, hpassed, List.findIdx_cons, he]
      simp
    unfold Stream.position Stream.size
    rw [hfind, hs, hlength, List.length_cons]
    omega

/-- **Parsing comes to an end.** The tokens of a scan are complete, and on a complete list the parser
    either makes a program and stands at the first end of input, or tells of a problem at a token of
    the list, never of an input that ended. -/
theorem parser_total :
    (∀ source s, scan source = .ok s → Complete s.tokens) ∧
    ∀ tokens, Complete tokens →
      (∃ p, Parse.declarations (.ofTokens tokens) = .ok p ∧
        Parse.program tokens = .ok ⟨p.value⟩ ∧ p.rest.AtEnd tokens) ∨
      ∃ problem t, Parse.program tokens = .error (.unexpected problem (some t)) ∧
        problem ≠ .inputEnded ∧ t ∈ tokens := by
  refine ⟨fun _ _ h => scan_complete h, fun tokens hcomplete => ?_⟩
  have houtcome := Parse.declarations_outcome _ hcomplete.stream
  have hstop := Parse.declarations_stop (.ofTokens tokens)
  unfold Parse.program
  cases hread : Parse.declarations (.ofTokens tokens) with
  | error f =>
    rw [hread] at houtcome
    obtain ⟨problem, t, rfl, hrest⟩ := hcomplete.fault houtcome
    exact .inr ⟨problem, t, rfl, hrest⟩
  | ok p =>
    rw [hread] at houtcome
    obtain ⟨ts, hpast, hts, -⟩ := houtcome
    -- the end of input is still ahead, and the parser stopped because it was next
    obtain ⟨e, rest, hahead⟩ := (hcomplete.stream.past hpast hts).head
    have heof : (p.rest.here.isNone || p.rest.isAt .eof) = true := hstop p hread
    rw [Stream.here_of_ahead hahead, Stream.isAt_of_ahead hahead] at heof
    exact .inl ⟨p, rfl, rfl, Stream.atEnd_of_past hahead (by simpa using heof) hpast hts⟩

/-- A declaration, an end of input, and tokens after it that are never looked at. -/
def endedTwice : List Token :=
  [⟨.keyword, "int", ⟨1, 1⟩⟩, ⟨.identifier, "x", ⟨1, 5⟩⟩, ⟨.lbracket, "[", ⟨1, 6⟩⟩,
   ⟨.number, "07", ⟨1, 7⟩⟩, ⟨.rbracket, "]", ⟨1, 9⟩⟩, ⟨.semicolon, ";", ⟨1, 10⟩⟩,
   ⟨.eof, "", ⟨1, 11⟩⟩, ⟨.minus, "-", ⟨1, 12⟩⟩, ⟨.eof, "", ⟨1, 13⟩⟩]

/-- Stars that nothing follows. -/
def openStars : List Token :=
  [⟨.keyword, "int", ⟨1, 1⟩⟩, ⟨.star, "*", ⟨1, 5⟩⟩, ⟨.star, "*", ⟨1, 6⟩⟩, ⟨.eof, "", ⟨1, 7⟩⟩]

theorem parser_total_endedTwice_openStars :
    (Complete endedTwice ∧ ∃ p, Parse.declarations (.ofTokens endedTwice) = .ok p ∧
      Parse.program endedTwice = .ok ⟨p.value⟩ ∧ p.rest.AtEnd endedTwice) ∧
    Complete openStars ∧ ∃ problem t,
      Parse.program openStars = .error (.unexpected problem (some t)) ∧ t ∈ openStars := by
  have hended : Complete endedTwice := by
    refine ⟨⟨_, rfl, rfl⟩, fun t ht hnumber => ?_⟩
    have hseven : t = ⟨.number, "07", ⟨1, 7⟩⟩ := by
      revert t
      decide
    exact ⟨7, hseven ▸ rfl⟩
  have hopen : Complete openStars := by
    have hnone : ∀ t ∈ openStars, t.kind ≠ .number := by decide
    exact ⟨⟨_, rfl, rfl⟩, fun t ht hnumber => absurd hnumber (hnone t ht)⟩
  refine ⟨⟨hended, ?_⟩, hopen, ?_⟩
  · rcases parser_total.2 endedTwice hended with hread | ⟨problem, t, hfault, -⟩
    · exact hread
    · have hok : (Parse.program endedTwice).isOk = true := by decide +kernel
      rw [hfault] at hok
      cases hok
  · rcases parser_total.2 openStars hopen with ⟨p, -, hread, -⟩ | ⟨problem, t, hfault, -, ht⟩
    · have hnot : (Parse.program openStars).isOk = false := by decide +kernel
      rw [hread] at hnot
      cases hnot
    · exact ⟨problem, t, hfault, ht⟩

end CMinusMinus
