/-
  File:      CMinusMinus/Proofs/Layout.lean
  Subject:   The layout of a text does not matter.

  Blanks and comments only move tokens about, and a number that is too large becomes the largest one.
  Two texts whose tokens have the same kinds and texts are therefore compiled alike: what the user
  is told differs in positions only, and the code is the same.

  * `scan_tokens_ordered` -- the tokens of a text stand one behind the other;
  * `ReadAlike` -- what it means that two token lists are read alike;
  * `scans_read_alike` -- token lists with the same kinds and texts are;
  * `layout_irrelevant` -- **two texts with such tokens are compiled alike**.
-/
import CMinusMinus.Proofs.ParallelReading
import CMinusMinus.Proofs.Phases
import CMinusMinus.Proofs.Placeless

namespace CMinusMinus

/-! ## 1. Tokens stand one behind the other -/

namespace Position

/-- One position stands before another one. -/
def Before (p q : Position) : Prop := p.line < q.line ∨ p.line = q.line ∧ p.column < q.column

theorem Before.trans {p q r : Position} (h : p.Before q) (h' : q.Before r) : p.Before r := by
  unfold Before at *
  omega

theorem not_before_self (p : Position) : ¬ p.Before p := by
  unfold Before
  omega

theorem before_step (p : Position) (c : Char) : p.Before (p.step c) := by
  unfold step Before
  split <;> dsimp only <;> omega

/-- A position that is reached by going on from another one. -/
def Reached (p q : Position) : Prop := q = p ∨ p.Before q

theorem reached_past (p : Position) (text : List Char) : p.Reached (p.past text) := by
  induction text generalizing p with
  | nil => exact .inl rfl
  | cons c text ih =>
    have hstep := p.before_step c
    rcases ih (p.step c) with heq | hbefore
    · exact .inr (heq ▸ hstep)
    · exact .inr (hstep.trans hbefore)

theorem Reached.behind {p q : Position} {c : Char} {text : List Char}
    (h : (p.past (c :: text)).Reached q) : p.Before q := by
  have hpiece : p.Before (p.past (c :: text)) := by
    rcases reached_past (p.step c) text with heq | hbefore
    · exact heq ▸ p.before_step c
    · exact (p.before_step c).trans hbefore
  rcases h with rfl | hbefore
  · exact hpiece
  · exact hpiece.trans hbefore

end Position

/-- The places where the pieces of a text begin, and its end. -/
def piecePlaces (pos : Position) (source : List Char) : List Position :=
  (pieces pos source).map Piece.pos ++ [pos.past source]

theorem piecePlaces_nil (pos : Position) : piecePlaces pos [] = [pos] := by
  rw [piecePlaces, pieces]
  rfl

theorem piecePlaces_cons (pos : Position) (c : Char) (rest : List Char) :
    piecePlaces pos (c :: rest) = pos ::
      piecePlaces (pos.past (c :: rest.take (Shape.at c rest).tail))
        (rest.drop (Shape.at c rest).tail) := by
  have hend : pos.past (c :: rest) = (pos.past (c :: rest.take (Shape.at c rest).tail)).past
      (rest.drop (Shape.at c rest).tail) := by
    rw [← Position.past_append, List.cons_append, List.take_append_drop]
  unfold piecePlaces
  rw [pieces, hend]
  rfl

theorem piecePlaces_reached (pos : Position) (source : List Char) :
    ∀ q ∈ piecePlaces pos source, pos.Reached q := by
  fun_induction pieces pos source with
  | case1 pos =>
    intro q hq
    rw [piecePlaces_nil] at hq
    exact .inl (List.mem_singleton.mp hq)
  | case2 pos c rest shape text ih =>
    intro q hq
    rw [piecePlaces_cons] at hq
    rcases List.mem_cons.mp hq with heq | hlater
    · exact .inl heq
    · exact .inr (ih q hlater).behind

/-- The pieces of a text begin one behind the other, and the text ends behind all of them. -/
theorem piecePlaces_ordered (pos : Position) (source : List Char) :
    (piecePlaces pos source).Pairwise Position.Before := by
  fun_induction pieces pos source with
  | case1 pos =>
    rw [piecePlaces_nil]
    exact List.pairwise_singleton _ _
  | case2 pos c rest shape text ih =>
    rw [piecePlaces_cons]
    exact List.pairwise_cons.mpr ⟨fun q hq => (piecePlaces_reached _ _ q hq).behind, ih⟩

theorem Piece.token?_pos {p : Piece} {t : Token} (h : p.token? = some t) : t.pos = p.pos := by
  unfold token? at h
  split at h
  · exact (Option.some.inj h) ▸ rfl
  · exact (Option.some.inj h) ▸ rfl
  · cases h

section Scans

variable {source : List Char} {s : Scan}

/-- **The tokens of a text stand one behind the other.** -/
theorem scan_tokens_ordered (h : scan source = .ok s) :
    s.tokens.Pairwise fun t u => t.pos.Before u.pos := by
  have hplaces := piecePlaces_ordered .start source
  unfold piecePlaces at hplaces
  rw [List.pairwise_append, List.pairwise_map] at hplaces
  obtain ⟨hpieces, -, hend⟩ := hplaces
  unfold scan at h
  dsimp only at h
  split at h
  · cases h
  · cases h
    refine List.pairwise_append.mpr ⟨?_, List.pairwise_singleton _ _, ?_⟩
    · refine List.Pairwise.filterMap _ ?_ hpieces
      intro p q hpq t ht u hu
      rw [Piece.token?_pos ht, Piece.token?_pos hu]
      exact hpq
    · intro t ht u hu
      obtain ⟨p, hp, htoken⟩ := List.mem_filterMap.mp ht
      rw [List.mem_singleton.mp hu, Piece.token?_pos htoken]
      exact hend p.pos (List.mem_map_of_mem hp) _ List.mem_cons_self

theorem scan_tokens_nodup (h : scan source = .ok s) : s.tokens.Nodup := by
  refine (scan_tokens_ordered h).imp ?_
  intro t u htu heq
  exact Position.not_before_self _ (heq ▸ htu)

end Scans

/-! ## 2. Token lists that are read alike -/

/-- The token stands at the index and nowhere else. -/
def OnlyAt (ts : List Token) (i : Nat) (t : Token) : Prop := ∀ j, ts[j]? = some t ↔ j = i

theorem onlyAt_of_nodup {ts : List Token} (h : ts.Nodup) {i : Nat} {t : Token}
    (ht : ts[i]? = some t) : OnlyAt ts i t := by
  intro j
  constructor
  · intro hj
    obtain ⟨hlt, -⟩ := List.getElem?_eq_some_iff.mp hj
    exact (List.getElem?_inj hlt h).mp (hj.trans ht.symm)
  · rintro rfl
    exact ht

/-- The severity and the wording of a diagnostic. -/
def Diagnostic.saying (d : Diagnostic) : Severity × String := (d.severity, d.message)

/-- **Token lists that are read alike**: both as programs, with trees that differ in positions only
    and checks that run to their ends and say the same; or neither, for the same problem at the same
    index. -/
inductive ReadAlike (ts ts' : List Token) : Prop where
  | programs {p p' : Program} (hread : Parse.program ts = .ok p) (hread' : Parse.program ts' = .ok p')
      (htrees : p.placeless = p'.placeless)
      (hfaultless : (Check.program p).Faultless ∧ (Check.program p').Faultless)
      (hsayings : (Check.program p).diagnostics.map Diagnostic.saying =
        (Check.program p').diagnostics.map Diagnostic.saying) : ReadAlike ts ts'
  | problems {problem : SyntaxProblem} {t t' : Token} {i : Nat}
      (hread : Parse.program ts = .error (.unexpected problem (some t)))
      (hread' : Parse.program ts' = .error (.unexpected problem (some t')))
      (hindex : OnlyAt ts i t) (hindex' : OnlyAt ts' i t') : ReadAlike ts ts'

/-- Two tokens with the same kind and text at one index. -/
def Abreast (ts ts' : List Token) (t t' : Token) : Prop :=
  t.lexeme = t'.lexeme ∧ ∃ i : Nat, ts[i]? = some t ∧ ts'[i]? = some t'

theorem forall₂_abreast {ts ts' : List Token}
    (h : ts.map Token.lexeme = ts'.map Token.lexeme) : List.Forall₂ (Abreast ts ts') ts ts' := by
  have hlength : ts.length = ts'.length := by
    simpa using congrArg List.length h
  refine List.forall₂_iff_get.mpr ⟨hlength, ?_⟩
  intro i hi hi'
  refine ⟨?_, i, List.getElem?_eq_getElem hi, List.getElem?_eq_getElem hi'⟩
  have hat := congrArg (·[i]?) h
  simpa [hi, hi'] using hat

section Programs

variable {p p' : Program}

/-- Programs that differ in positions only are checked with the same findings. -/
theorem sayings_eq (h : p.placeless = p'.placeless) :
    (Check.program p).diagnostics.map Diagnostic.saying =
      (Check.program p').diagnostics.map Diagnostic.saying := by
  have hplaceless : ∀ q : Program, (Check.program q).diagnostics.map Diagnostic.saying =
      (Check.program q.placeless).diagnostics.map Diagnostic.saying := by
    intro q
    rw [Check.program_placeless, Journal.diagnostics_placeless, List.map_map]
    rfl
  rw [hplaceless p, hplaceless p', h]

theorem accepted_iff (h : p.placeless = p'.placeless) : p.Accepted ↔ p'.Accepted := by
  have hplaceless : ∀ q : Program, q.placeless.Accepted ↔ q.Accepted := by
    intro q
    unfold Program.Accepted
    rw [Check.program_placeless, Journal.diagnostics_placeless, Diagnostic.count_placeless]
  rw [← hplaceless p, ← hplaceless p', h]

theorem code_eq (h : p.placeless = p'.placeless) :
    (Lower.program p {}).code = (Lower.program p' {}).code := by
  rw [← Lower.program_code_placeless p, ← Lower.program_code_placeless p', h]

end Programs

section Texts

variable {a b : List Char} {s t : Scan} (ha : scan a = .ok s) (hb : scan b = .ok t)
  (hsame : s.tokens.map Token.lexeme = t.tokens.map Token.lexeme)

include ha hb hsame

/-- **The tokens of two texts are read alike** if they have the same kinds and texts. -/
theorem scans_read_alike : ReadAlike s.tokens t.tokens := by
  have hfaultless : ∀ {c : List Char} {u : Scan} {p : Program}, scan c = .ok u →
      Parse.program u.tokens = .ok p → (Check.program p).Faultless := by
    intro c u p hscan hread
    exact (Check.program_findings (Parse.parse_proper (scan_wellSpelled hscan) hread)).faultless
  rcases Parse.program_alike (fun _ _ h => h.1) (forall₂_abreast hsame) with
    ⟨p, p', hread, hread', htrees⟩ | ⟨f, f', hread, hread', hbeside⟩
  · exact .programs hread hread' htrees ⟨hfaultless ha hread, hfaultless hb hread'⟩
      (sayings_eq htrees)
  · -- on the tokens of a scan a fault is a problem at a token
    rcases (scan_complete ha).program with ⟨p, hread₂⟩ | ⟨problem, u, hread₂⟩
    · rw [hread] at hread₂
      cases hread₂
    · rw [hread] at hread₂
      cases hread₂
      cases hbeside with
      | unexpected htokens =>
        cases htokens with
        | some habreast =>
          obtain ⟨-, i, hi, hi'⟩ := habreast
          exact .problems hread hread' (onlyAt_of_nodup (scan_tokens_nodup ha) hi)
            (onlyAt_of_nodup (scan_tokens_nodup hb) hi')

end Texts

/-! ## 3. Compilations -/

namespace Course

variable {s : Scan} {items : List Diagnostic} {closing : List String} {ending : Bool → Ending}

/-- How the compilation of a program ends depends on what its check finds and on its code. -/
theorem ending_of_program (h : Course s items closing ending) (herrors : s.errors = [])
    {p : Program} (hread : Parse.program s.tokens = .ok p) (checkOnly : Bool) :
    ending checkOnly = if p.Accepted then
      (if checkOnly then .checked else .lowered (Lower.program p {}).code)
      else .refused semanticAbort := by
  cases h with
  | lexical hlexical => exact absurd herrors hlexical
  | syntactic _ hparse =>
    rw [hread] at hparse
    cases hparse
  | semantic _ hparse _ hrefused =>
    rw [hread] at hparse
    cases hparse
    rw [if_neg hrefused]
  | accepted _ hparse _ haccepted =>
    rw [hread] at hparse
    cases hparse
    rw [if_pos haccepted]

theorem ending_of_problem (h : Course s items closing ending) (herrors : s.errors = [])
    {f : ParseFault} (hread : Parse.program s.tokens = .error f) (checkOnly : Bool) :
    ending checkOnly = .refused fatalAbort := by
  cases h with
  | lexical hlexical => exact absurd herrors hlexical
  | syntactic _ hparse => rfl
  | semantic _ hparse _ _ | accepted _ hparse _ _ =>
    rw [hread] at hparse
    cases hparse

/-- Compilations whose tokens are read alike end in the same way. -/
theorem ending_alike {t : Scan} {items' : List Diagnostic} {closing' : List String}
    {ending' : Bool → Ending} (h : Course s items closing ending)
    (h' : Course t items' closing' ending') (hs : s.errors = []) (ht : t.errors = [])
    (hread : ReadAlike s.tokens t.tokens) : ending = ending' := by
  funext checkOnly
  cases hread with
  | programs hp hp' htrees _ _ =>
    rw [h.ending_of_program hs hp, h'.ending_of_program ht hp', code_eq htrees]
    simp only [accepted_iff htrees]
  | problems hp hp' _ _ => rw [h.ending_of_problem hs hp, h'.ending_of_problem ht hp']

/-- No course leads to a fault. -/
theorem ending_ne_faulted (h : Course s items closing ending) (checkOnly : Bool) (f : Fault) :
    ending checkOnly ≠ .faulted f := by
  cases h <;> cases checkOnly <;> exact Ending.noConfusion

end Course

/-- Compilations that end in the same way, and not with a fault, report the same success and the same
    code. -/
theorem Compilation.reports_alike {c c' : Compilation} (h : c.ending = c'.ending)
    (hfault : ∀ f, c.ending ≠ .faulted f) :
    ∃ r r', c.report = .ok r ∧ c'.report = .ok r' ∧ r.success = r'.success ∧ r.code = r'.code := by
  unfold Compilation.report
  rw [← h]
  cases hending : c.ending with
  | faulted f => exact absurd hending (hfault f)
  | _ => exact ⟨_, _, rfl, rfl, rfl, rfl⟩

/-- **The layout of a text does not matter.** If two texts are lexed without errors to tokens with the
    same kinds and texts, then the tokens are read alike, and the compilations of the texts, under
    any names, report the same success and the same code. -/
theorem layout_irrelevant {a b : List Char} {s t : Scan} (ha : scan a = .ok s)
    (hb : scan b = .ok t) (hs : s.errors = []) (ht : t.errors = [])
    (hsame : s.tokens.map Token.lexeme = t.tokens.map Token.lexeme) :
    ReadAlike s.tokens t.tokens ∧ ∀ (path path' : String) (checkOnly : Bool), ∃ r r',
      (compile path checkOnly a).report = .ok r ∧ (compile path' checkOnly b).report = .ok r' ∧
      r.success = r'.success ∧ r.code = r'.code := by
  have hread := scans_read_alike ha hb hsame
  obtain ⟨_, _, ending, hcourse, htells⟩ := compile_course ha
  obtain ⟨_, _, ending', hcourse', htells'⟩ := compile_course hb
  have hending := hcourse.ending_alike hcourse' hs ht hread
  refine ⟨hread, fun path path' checkOnly => ?_⟩
  have htold := (htells path checkOnly).ending_eq
  have htold' := (htells' path' checkOnly).ending_eq
  refine Compilation.reports_alike ?_ ?_
  · rw [htold, htold', hending]
  · intro f
    rw [htold]
    exact hcourse.ending_ne_faulted checkOnly f

/-- A program in one line. -/
def narrow : String := "void f()\x7bprintf(2147483647);\x7d"

/-- The same tokens with comments, other blanks and a number that is too large. -/
def wide : String := "# prints\nvoid f ( ) \x7b\n  printf(99999999999); // a lot\n\x7d\n"

/-- The kinds and texts of their tokens. -/
def narrowLexemes : List Lexeme :=
  [word "void", ⟨.identifier, "f"⟩, sign .lparen, sign .rparen, sign .lbrace,
    ⟨.identifier, "printf"⟩, sign .lparen, ⟨.number, "2147483647"⟩, sign .rparen, sign .semicolon,
    sign .rbrace, ⟨.eof, ""⟩]

theorem layout_irrelevant_wide :
    ∃ s t, scan narrow.toList = .ok s ∧ scan wide.toList = .ok t ∧
      s.tokens.map Token.lexeme = narrowLexemes ∧ t.warnings.length = 1 ∧
      ReadAlike s.tokens t.tokens ∧ ∃ r r',
        (compile inputPath false narrow.toList).report = .ok r ∧
        (compile "wide.cmm" false wide.toList).report = .ok r' ∧
        r.success = r'.success ∧ r.code = r'.code := by
  have hnarrow : ∃ s, scan narrow.toList = .ok s ∧ s.errors = [] ∧
      s.tokens.map Token.lexeme = narrowLexemes := by
    set_option maxRecDepth 2000 in
    exact exists_scan_of_text rfl (by decide +kernel)
  have hwide : ∃ t, scan wide.toList = .ok t ∧ t.errors = [] ∧
      t.tokens.map Token.lexeme = narrowLexemes ∧ t.warnings.length = 1 := by
    set_option maxRecDepth 2000 in
    exact exists_scan_of_text rfl (by decide +kernel)
  obtain ⟨s, hs, hserrors, hslexemes⟩ := hnarrow
  obtain ⟨t, ht, hterrors, htlexemes, hwarnings⟩ := hwide
  obtain ⟨hread, hreports⟩ :=
    layout_irrelevant hs ht hserrors hterrors (hslexemes.trans htlexemes.symm)
  exact ⟨s, t, hs, ht, hslexemes, hwarnings, hread, hreports inputPath "wide.cmm" false⟩

end CMinusMinus
