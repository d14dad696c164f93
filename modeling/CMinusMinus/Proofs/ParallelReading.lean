/-
  File:      CMinusMinus/Proofs/ParallelReading.lean
  Subject:   Token lists that differ in positions only are read alike.

  Two token lists stand SIDE BY SIDE when their tokens are paired, place by place, and the two of a
  pair have the same kind and the same text. The parser copies positions into trees and into faults,
  and nothing else depends on them: side by side it takes the same turns on both lists, makes trees
  that differ in positions only, or fails with the same problem at two paired tokens.

  * `Stream.Beside`, `ParseFault.Beside` -- streams and faults side by side;
  * `Reading.Alike` -- readings that come out alike, with one rule for each way in which readings
    are put together;
  * `Parse.expression_alike`, `Parse.statement_alike`, `Parse.declaration_alike` -- the parsers;
  * `Parse.program_alike` -- whole programs.
-/
import CMinusMinus.Proofs.Printing
import Mathlib.Data.List.Forall2

namespace CMinusMinus

/-! ## 1. Streams -/

/-- **Streams side by side**: the tokens that they can still show are paired, and tokens that are
    paired are spelled alike. -/
structure Stream.Beside (R : Token → Token → Prop) (s s' : Stream) : Prop where
  spelled : ∀ t t', R t t' → t.lexeme = t'.lexeme
  last : Option.Rel R s.last s'.last
  ahead : List.Forall₂ R s.ahead s'.ahead

namespace Stream.Beside

variable {R : Token → Token → Prop} {s s' : Stream}

theorem ofTokens {ts ts' : List Token} (hR : ∀ t t', R t t' → t.lexeme = t'.lexeme)
    (h : List.Forall₂ R ts ts') : (Stream.ofTokens ts).Beside R (Stream.ofTokens ts') :=
  ⟨hR, .none, h⟩

theorem here (h : s.Beside R s') : Option.Rel R s.here s'.here := by
  obtain ⟨last, ahead⟩ := s
  obtain ⟨last', ahead'⟩ := s'
  cases h.ahead with
  | nil => exact h.last
  | cons ht _ => exact .some ht

theorem next (h : s.Beside R s') : s.next.Beside R s'.next := by
  obtain ⟨last, ahead⟩ := s
  obtain ⟨last', ahead'⟩ := s'
  cases h.ahead with
  | nil => exact h
  | cons ht hrest => exact ⟨h.spelled, .some ht, hrest⟩

/-- A question about the kind and the text of the current token. -/
theorem here_any (h : s.Beside R s') (ask : TokenKind → String → Bool) :
    (s.here.any fun t => ask t.kind t.text) = s'.here.any fun t => ask t.kind t.text := by
  have hhere := h.here
  generalize s.here = t? at hhere
  generalize s'.here = t'? at hhere
  cases hhere with
  | none => rfl
  | @some t t' ht =>
    obtain ⟨hkind, htext⟩ := Lexeme.mk.inj (h.spelled t t' ht)
    rw [Option.any_some, Option.any_some, hkind, htext]

theorem isAt (h : s.Beside R s') (kind : TokenKind) :
    s.isAt kind = s'.isAt kind := h.here_any fun k _ => k == kind

theorem isAtType (h : s.Beside R s') : s.isAtType = s'.isAtType :=
  h.here_any fun k text => k == .keyword && Ty.names.contains text

theorem isNone_here (h : s.Beside R s') : s.here.isNone = s'.here.isNone := by
  have hhere := h.here
  generalize s.here = t? at hhere
  generalize s'.here = t'? at hhere
  cases hhere <;> rfl

/-- Nothing is ahead of both, or two tokens are that are spelled alike. -/
theorem take? (h : s.Beside R s') : s.take? = none ∧ s'.take? = none ∨
    ∃ kind text pos pos' next hnext next' hnext',
      s.take? = some (⟨kind, text, pos⟩, ⟨next, hnext⟩) ∧
      s'.take? = some (⟨kind, text, pos'⟩, ⟨next', hnext'⟩) ∧
      R ⟨kind, text, pos⟩ ⟨kind, text, pos'⟩ ∧ next.Beside R next' := by
  have hnext := h.next
  obtain ⟨last, ahead⟩ := s
  obtain ⟨last', ahead'⟩ := s'
  cases h.ahead with
  | nil => exact Or.inl ⟨rfl, rfl⟩
  | @cons t t' rest rest' ht hrest =>
    obtain ⟨kind, text, pos⟩ := t
    obtain ⟨kind', text', pos'⟩ := t'
    obtain ⟨hkind, htext⟩ := Lexeme.mk.inj (h.spelled _ _ ht)
    cases hkind
    cases htext
    exact Or.inr ⟨kind, text, pos, pos', _, _, _, _, rfl, rfl, ht, hnext⟩

/-- A token that is accepted if it passes a test of its kind and text. -/
theorem accept? (h : s.Beside R s') (kind : TokenKind) :
    s.accept? kind = none ∧ s'.accept? kind = none ∨
      ∃ next hnext next' hnext', s.accept? kind = some ⟨next, hnext⟩ ∧
        s'.accept? kind = some ⟨next', hnext'⟩ ∧ next.Beside R next' := by
  unfold Stream.accept?
  rcases h.take? with ⟨htake, htake'⟩ |
    ⟨k, text, pos, pos', next, hnext, next', hnext', htake, htake', -, hrest⟩
  · rw [htake, htake']
    exact Or.inl ⟨rfl, rfl⟩
  · rw [htake, htake']
    by_cases hk : k = kind
    · exact Or.inr ⟨next, hnext, next', hnext', if_pos hk, if_pos hk, hrest⟩
    · exact Or.inl ⟨if_neg hk, if_neg hk⟩

theorem acceptKeyword? (h : s.Beside R s') (word : String) :
    s.acceptKeyword? word = none ∧ s'.acceptKeyword? word = none ∨
      ∃ next hnext next' hnext', s.acceptKeyword? word = some ⟨next, hnext⟩ ∧
        s'.acceptKeyword? word = some ⟨next', hnext'⟩ ∧ next.Beside R next' := by
  unfold Stream.acceptKeyword?
  rcases h.take? with ⟨htake, htake'⟩ |
    ⟨k, text, pos, pos', next, hnext, next', hnext', htake, htake', -, hrest⟩
  · rw [htake, htake']
    exact Or.inl ⟨rfl, rfl⟩
  · rw [htake, htake']
    by_cases hk : k = .keyword ∧ text = word
    · exact Or.inr ⟨next, hnext, next', hnext', if_pos hk, if_pos hk, hrest⟩
    · exact Or.inl ⟨if_neg hk, if_neg hk⟩

end Stream.Beside

/-! ## 2. Readings -/

/-- **Faults side by side**: the same problem at two paired tokens, or the same bad numeral. -/
inductive ParseFault.Beside (R : Token → Token → Prop) : ParseFault → ParseFault → Prop where
  | unexpected {problem : SyntaxProblem} {t t' : Option Token} (ht : Option.Rel R t t') :
      ParseFault.Beside R (.unexpected problem t) (.unexpected problem t')
  | numeral (f : Text.NumeralFault) : ParseFault.Beside R (.numeral f) (.numeral f)

/-- **Readings that come out alike**: both succeed, with related values and with rests side by side,
    or both fail, with faults side by side. -/
inductive Reading.Alike (R : Token → Token → Prop) {α β : Type} {m n : Nat} (V : α → β → Prop) :
    Reading α m → Reading β n → Prop where
  | ok {a : α} {b : β} {s s' : Stream} {h : s.size < m} {h' : s'.size < n} (hv : V a b)
      (hs : s.Beside R s') : Reading.Alike R V (.ok ⟨a, s, h⟩) (.ok ⟨b, s', h'⟩)
  | error {f f' : ParseFault} (hf : f.Beside R f') : Reading.Alike R V (.error f) (.error f')

namespace Reading.Alike

variable {R : Token → Token → Prop} {α α' β β' : Type} {m m' n n' : Nat} {V : α → α' → Prop}
  {W : β → β' → Prop}

theorem done {a : α} {b : α'} {s s' : Stream} (hv : V a b) (hs : s.Beside R s') :
    Alike R V (Reading.done a s) (Reading.done b s') := .ok hv hs

theorem andThen {r : Reading α n} {r' : Reading α' n'}
    {f : (a : α) → (s : Stream) → s.size < n → Reading β n}
    {g : (a : α') → (s : Stream) → s.size < n' → Reading β' n'} (hr : r.Alike R V r')
    (hf : ∀ a s h b s' h', V a b → s.Beside R s' → (f a s h).Alike R W (g b s' h')) :
    (r.andThen f).Alike R W (r'.andThen g) := by
  cases hr with
  | ok hv hs => exact hf _ _ _ _ _ _ hv hs
  | error he => exact .error he

theorem within {r : Reading α m} {r' : Reading α' m'} (hr : r.Alike R V r') (h : m < n)
    (h' : m' < n') : (r.within h).Alike R V (r'.within h') := by
  cases hr with
  | ok hv hs => exact .ok hv hs
  | error he => exact .error he

theorem follow {r : Reading α (m + 1)} {r' : Reading α' (m' + 1)} (hr : r.Alike R V r')
    (h : m < n) (h' : m' < n') : (r.follow h).Alike R V (r'.follow h') := by
  cases hr with
  | ok hv hs => exact .ok hv hs
  | error he => exact .error he

theorem loosen {r : Reading α n} {r' : Reading α' n'} (hr : r.Alike R V r') :
    r.loosen.Alike R V r'.loosen := hr.within _ _

end Reading.Alike

namespace Parse

open Reading (Alike)

section Alike

variable {R : Token → Token → Prop}

/-- Two values that are the same once their positions are taken away. -/
abbrev SameBut {α : Type} (placeless : α → α) (a b : α) : Prop := placeless a = placeless b

theorem expect_alike {s s' : Stream} (hs : s.Beside R s') (kind : TokenKind)
    (problem : SyntaxProblem) :
    (s.expect kind problem).Alike R (fun t t' => t.text = t'.text) (s'.expect kind problem) := by
  have hhere := hs.here
  have hnext := hs.next
  unfold Stream.expect
  generalize s.here = t? at hhere
  generalize s'.here = t'? at hhere
  cases hhere with
  | none => exact .error (.unexpected .none)
  | @some t t' ht =>
    obtain ⟨hkind, htext⟩ := Lexeme.mk.inj (hs.spelled t t' ht)
    dsimp only
    rw [← hkind]
    split
    · exact .ok htext hnext
    · exact .error (.unexpected (.some ht))

theorem noExpression_beside {s s' : Stream} (hs : s.Beside R s') :
    s.noExpression.Beside R s'.noExpression := by
  have hhere := hs.here
  unfold Stream.noExpression
  generalize s.here = t? at hhere
  generalize s'.here = t'? at hhere
  cases hhere with
  | none => exact .unexpected .none
  | some ht => exact .unexpected (.some ht)

/-! ## 3. Expressions -/

mutual

theorem primary_alike (s s' : Stream) (hs : s.Beside R s') :
    (primary s).Alike R (SameBut Expr.placeless) (primary s') := by
  rw [primary, primary]
  rcases hs.take? with ⟨htake, htake'⟩ |
    ⟨kind, text, pos, pos', next, hnext, next', hnext', htake, htake', ht, hrest⟩
  · rw [htake, htake']
    exact .error (noExpression_beside hs)
  · rw [htake, htake']
    cases kind with
    | identifier =>
      dsimp only
      rcases hrest.accept? .lparen with ⟨haccept, haccept'⟩ |
        ⟨inner, hinner, inner', hinner', haccept, haccept', hin⟩
      · rw [haccept, haccept']
        exact .ok rfl hrest
      · rw [haccept, haccept']
        refine Alike.within (Alike.andThen
          ((arguments_alike inner inner' hin).follow hinner hinner') ?_) hnext hnext'
        intro args rest hr args' rest' hr' hargs hrest
        refine Alike.andThen ((expect_alike hrest _ _).follow hr hr') ?_
        intro _ after h _ after' h' _ hafter
        exact .ok (congrArg (Expr.call {} text) hargs) hafter
    | number =>
      dsimp only
      cases Text.readInt text.toList with
      | error f => exact .error (.numeral f)
      | ok n => exact .ok rfl hrest
    | string => exact .ok rfl hrest
    | lparen =>
      refine Alike.andThen ((expression_alike next next' hrest).within hnext hnext') ?_
      intro e rest hr e' rest' hr' he hrest
      refine Alike.andThen ((expect_alike hrest _ _).follow hr hr') ?_
      intro _ after h _ after' h' _ hafter
      exact .ok he hafter
    | _ => exact .error (noExpression_beside hs)
termination_by weight s 0
decreasing_by all_goals simp only [weight]; omega

theorem arguments_alike (s s' : Stream) (hs : s.Beside R s') :
    (arguments s).Alike R (SameBut Expr.allPlaceless) (arguments s') := by
  rw [arguments, arguments, hs.isAt]
  split
  · exact .done rfl hs
  · refine Alike.loosen (Alike.andThen (expression_alike s s' hs) ?_)
    intro e rest hr e' rest' hr' he hrest
    refine Alike.andThen ((moreArguments_alike rest rest' hrest).follow hr hr') ?_
    intro es after h es' after' h' hes hafter
    exact .ok (congrArg₂ List.cons he hes) hafter
termination_by weight s 12
decreasing_by all_goals simp only [weight]; omega

theorem moreArguments_alike (s s' : Stream) (hs : s.Beside R s') :
    (moreArguments s).Alike R (SameBut Expr.allPlaceless) (moreArguments s') := by
  rw [moreArguments, moreArguments]
  rcases hs.accept? .comma with ⟨haccept, haccept'⟩ |
    ⟨inner, hinner, inner', hinner', haccept, haccept', hin⟩
  · rw [haccept, haccept']
    exact .done rfl hs
  · rw [haccept, haccept']
    refine Alike.loosen (Alike.andThen
      ((expression_alike inner inner' hin).within hinner hinner') ?_)
    intro e rest hr e' rest' hr' he hrest
    refine Alike.andThen ((moreArguments_alike rest rest' hrest).follow hr hr') ?_
    intro es after h es' after' h' hes hafter
    exact .ok (congrArg₂ List.cons he hes) hafter
termination_by weight s 0
decreasing_by all_goals simp only [weight]; omega

theorem postfixed_alike (s s' : Stream) (hs : s.Beside R s') :
    (postfixed s).Alike R (SameBut Expr.placeless) (postfixed s') := by
  rw [postfixed, postfixed]
  refine Alike.andThen (primary_alike s s' hs) ?_
  intro e rest hr e' rest' hr' he hrest
  exact (subscripts_alike e e' rest rest' he hrest).follow hr hr'
termination_by weight s 1
decreasing_by all_goals simp only [weight]; omega

theorem subscripts_alike (e e' : Expr) (s s' : Stream) (he : SameBut Expr.placeless e e')
    (hs : s.Beside R s') :
    (subscripts e s).Alike R (SameBut Expr.placeless) (subscripts e' s') := by
  rw [subscripts, subscripts]
  rcases hs.accept? .lbracket with ⟨haccept, haccept'⟩ |
    ⟨inner, hinner, inner', hinner', haccept, haccept', hin⟩
  · rw [haccept, haccept']
    exact .done he hs
  · rw [haccept, haccept']
    refine Alike.loosen (Alike.andThen
      ((expression_alike inner inner' hin).within hinner hinner') ?_)
    intro i rest hr i' rest' hr' hi hrest
    refine Alike.andThen ((expect_alike hrest _ _).follow hr hr') ?_
    intro _ after h _ after' h' _ hafter
    have hindex : SameBut Expr.placeless (.index e.pos e i) (.index e'.pos e' i') :=
      congrArg₂ (Expr.index {}) he hi
    exact (subscripts_alike _ _ after after' hindex hafter).follow h h'
termination_by weight s 0
decreasing_by all_goals simp only [weight]; omega

theorem unary_alike (s s' : Stream) (hs : s.Beside R s') :
    (unary s).Alike R (SameBut Expr.placeless) (unary s') := by
  rw [unary, unary]
  rcases hs.take? with ⟨htake, htake'⟩ |
    ⟨kind, text, pos, pos', next, hnext, next', hnext', htake, htake', ht, hrest⟩
  · rw [htake, htake']
    exact .error (noExpression_beside hs)
  · rw [htake, htake']
    dsimp only
    split
    · refine Alike.andThen ((unary_alike next next' hrest).within hnext hnext') ?_
      intro e rest hr e' rest' hr' he hrest
      exact .ok (congrArg (Expr.unary {} (.ofText text)) he) hrest
    · exact postfixed_alike s s' hs
termination_by weight s 2
decreasing_by all_goals simp only [weight]; omega

theorem binary_alike (n : Nat) (s s' : Stream) (hs : s.Beside R s') :
    (binary n s).Alike R (SameBut Expr.placeless) (binary n s') := by
  cases n with
  | zero =>
    rw [binary, binary]
    exact unary_alike s s' hs
  | succ n =>
    rw [binary, binary]
    refine Alike.andThen (binary_alike n s s' hs) ?_
    intro e rest hr e' rest' hr' he hrest
    exact (operands_alike (n + 1) e e' rest rest' he hrest).follow hr hr'
termination_by weight s 3 + n
decreasing_by all_goals simp only [weight]; omega

theorem operands_alike (n : Nat) (left left' : Expr) (s s' : Stream)
    (hleft : SameBut Expr.placeless left left') (hs : s.Beside R s') :
    (operands n left s).Alike R (SameBut Expr.placeless) (operands n left' s') := by
  rw [operands, operands]
  rcases hs.take? with ⟨htake, htake'⟩ |
    ⟨kind, text, pos, pos', next, hnext, next', hnext', htake, htake', ht, hrest⟩
  · rw [htake, htake']
    exact .done hleft hs
  · rw [htake, htake']
    dsimp only
    split
    · rename_i hlevel
      have hloose := TokenKind.level?_le hlevel
      refine Alike.loosen (Alike.andThen
        ((binary_alike (n - 1) next next' hrest).within hnext hnext') ?_)
      intro right rest hr right' rest' hr' hright hrest
      have hbinary : SameBut Expr.placeless (.binary left.pos (.ofText text) left right)
          (.binary left'.pos (.ofText text) left' right') :=
        congrArg₂ (Expr.binary {} (.ofText text)) hleft hright
      exact (operands_alike n _ _ rest rest' hbinary hrest).follow hr hr'
    · exact .done hleft hs
termination_by weight s 0
decreasing_by all_goals simp only [weight, loosest] at *; omega

theorem expression_alike (s s' : Stream) (hs : s.Beside R s') :
    (expression s).Alike R (SameBut Expr.placeless) (expression s') := by
  rw [expression, expression]
  exact binary_alike loosest s s' hs
termination_by weight s 11
decreasing_by all_goals simp only [weight, loosest]; omega

end

/-! ## 4. Types and declarations of variables -/

theorem stars_alike (s s' : Stream) (hs : s.Beside R s') :
    (stars s).Alike R (· = ·) (stars s') := by
  rw [stars, stars]
  rcases hs.accept? .star with ⟨haccept, haccept'⟩ |
    ⟨next, hnext, next', hnext', haccept, haccept', hrest⟩
  · rw [haccept, haccept']
    exact .done rfl hs
  · rw [haccept, haccept']
    refine Alike.loosen (Alike.andThen ((stars_alike next next' hrest).follow hnext hnext') ?_)
    intro n rest hr n' rest' hr' hn hrest
    exact .ok (congrArg (· + 1) hn) hrest
termination_by s.size

theorem type_alike (s s' : Stream) (hs : s.Beside R s') :
    (type s).Alike R (· = ·) (type s') := by
  unfold type
  rcases hs.take? with ⟨htake, htake'⟩ |
    ⟨kind, text, pos, pos', next, hnext, next', hnext', htake, htake', ht, hrest⟩
  · rw [htake, htake']
    exact .error (.unexpected hs.here)
  · rw [htake, htake', hs.isAtType]
    dsimp only
    split
    · refine Alike.andThen ((stars_alike next next' hrest).follow hnext hnext') ?_
      intro n rest hr n' rest' hr' hn hrest
      exact .ok (by rw [hn]) hrest
    · exact .error (.unexpected hs.here)

theorem extent_alike (s s' : Stream) (hs : s.Beside R s') :
    (extent s).Alike R (· = ·) (extent s') := by
  unfold extent
  rcases hs.accept? .lbracket with ⟨haccept, haccept'⟩ |
    ⟨inner, hinner, inner', hinner', haccept, haccept', hin⟩
  · rw [haccept, haccept']
    exact .done rfl hs
  · rw [haccept, haccept']
    refine Alike.loosen (Alike.andThen ((expect_alike hin _ _).follow hinner hinner') ?_)
    intro size rest hr size' rest' hr' hsize hrest
    refine Alike.andThen ((expect_alike hrest _ _).follow hr hr') ?_
    intro _ after h _ after' h' _ hafter
    rw [hsize]
    cases Text.readInt size'.text.toList with
    | error f => exact .error (.numeral f)
    | ok n => exact .ok rfl hafter

theorem varRest_alike (pos pos' : Position) (ty : Ty) (name : String) (s s' : Stream)
    (hs : s.Beside R s') :
    (varRest pos ty name s).Alike R (SameBut Decl.placeless) (varRest pos' ty name s') := by
  unfold varRest
  refine Alike.andThen (extent_alike s s' hs) ?_
  intro size? rest hr size'? rest' hr' hsize hrest
  refine Alike.andThen ((expect_alike hrest _ _).follow hr hr') ?_
  intro _ after h _ after' h' _ hafter
  refine .ok ?_ hafter
  rw [hsize]
  rfl

/-- The position is that of the type; the type and the name are the same. -/
theorem typedName_alike (problem : SyntaxProblem) (s s' : Stream) (hs : s.Beside R s') :
    (typedName problem s).Alike R (fun v v' => v.2 = v'.2) (typedName problem s') := by
  unfold typedName
  refine Alike.andThen (type_alike s s' hs) ?_
  intro ty rest hr ty' rest' hr' hty hrest
  refine Alike.andThen ((expect_alike hrest _ _).follow hr hr') ?_
  intro name after h name' after' h' hname hafter
  exact .ok (congrArg₂ Prod.mk hty hname) hafter

theorem locals_alike (s s' : Stream) (hs : s.Beside R s') :
    (locals s).Alike R (SameBut Decl.allPlaceless) (locals s') := by
  rw [locals, locals, hs.isAtType]
  split
  · refine Alike.loosen (Alike.andThen (typedName_alike _ s s' hs) ?_)
    rintro ⟨pos, ty, name⟩ s₁ h₁ ⟨pos', _, _⟩ s₁' h₁' ⟨rfl, rfl⟩ hs₁
    refine Alike.andThen ((varRest_alike pos pos' ty name s₁ s₁' hs₁).follow h₁ h₁') ?_
    intro d s₂ h₂ d' s₂' h₂' hd hs₂
    refine Alike.andThen ((locals_alike s₂ s₂' hs₂).follow h₂ h₂') ?_
    intro ds after h ds' after' h' hds hafter
    exact .ok (congrArg₂ List.cons hd hds) hafter
  · exact .done rfl hs
termination_by s.size

theorem params_alike (s s' : Stream) (hs : s.Beside R s') :
    (params s).Alike R (SameBut Decl.allPlaceless) (params s') := by
  rw [params, params]
  refine Alike.andThen (typedName_alike _ s s' hs) ?_
  rintro ⟨pos, ty, name⟩ rest hr ⟨pos', _, _⟩ rest' hr' ⟨rfl, rfl⟩ hrest
  dsimp only
  rcases hrest.accept? .comma with ⟨haccept, haccept'⟩ |
    ⟨inner, hinner, inner', hinner', haccept, haccept', hin⟩
  · rw [haccept, haccept']
    exact .ok rfl hrest
  · rw [haccept, haccept']
    refine Alike.andThen
      (((params_alike inner inner' hin).within hinner hinner').within hr hr') ?_
    intro ps after h ps' after' h' hps hafter
    exact .ok (congrArg (Decl.parameter {} name ty :: ·) hps) hafter
termination_by s.size

theorem formals_alike (s s' : Stream) (hs : s.Beside R s') :
    (formals s).Alike R (SameBut Decl.allPlaceless) (formals s') := by
  unfold formals
  rw [hs.isAt]
  split
  · exact .done rfl hs
  · exact (params_alike s s' hs).loosen

/-! ## 5. Statements -/

/-- Whether the target is a call or a location does not depend on its positions. -/
theorem simple_alike (s s' : Stream) (hs : s.Beside R s') :
    (simple s).Alike R (SameBut Stmt.placeless) (simple s') := by
  unfold simple
  refine Alike.andThen (unary_alike s s' hs) ?_
  intro target s₁ h₁ target' s₁' h₁' htarget hs₁
  have hcall : target.isCall = target'.isCall := by
    rw [← target.isCall_placeless, htarget, target'.isCall_placeless]
  have hlocation : target.isLocation = target'.isLocation := by
    rw [← target.isLocation_placeless, htarget, target'.isLocation_placeless]
  rw [hcall, hlocation, hs₁.isAt]
  split
  · exact .ok (congrArg (Stmt.call {}) htarget) hs₁
  · split
    · refine Alike.andThen ((expect_alike hs₁ _ _).follow h₁ h₁') ?_
      intro _ s₂ h₂ _ s₂' h₂' _ hs₂
      refine Alike.andThen ((expression_alike s₂ s₂' hs₂).within h₂ h₂') ?_
      intro value after h value' after' h' hvalue hafter
      exact .ok (congrArg₂ (Stmt.assign {}) htarget hvalue) hafter
    · exact .error (.unexpected hs.here)

theorem condition_alike (start finish : SyntaxProblem) (s s' : Stream) (hs : s.Beside R s') :
    (condition start finish s).Alike R (SameBut Expr.placeless) (condition start finish s') := by
  unfold condition
  refine Alike.andThen (expect_alike hs _ _) ?_
  intro _ s₁ h₁ _ s₁' h₁' _ hs₁
  refine Alike.andThen ((expression_alike s₁ s₁' hs₁).within h₁ h₁') ?_
  intro cond s₂ h₂ cond' s₂' h₂' hcond hs₂
  refine Alike.andThen ((expect_alike hs₂ _ _).follow h₂ h₂') ?_
  intro _ after h _ after' h' _ hafter
  exact .ok hcond hafter

theorem returned_alike (pos pos' : Position) (s s' : Stream) (hs : s.Beside R s') :
    (returned pos s).Alike R (SameBut Stmt.placeless) (returned pos' s') := by
  unfold returned
  rcases hs.accept? .semicolon with ⟨haccept, haccept'⟩ |
    ⟨after, h, after', h', haccept, haccept', hafter⟩
  · rw [haccept, haccept']
    refine Alike.loosen (Alike.andThen (expression_alike s s' hs) ?_)
    intro value rest hr value' rest' hr' hvalue hrest
    refine Alike.andThen ((expect_alike hrest _ _).follow hr hr') ?_
    intro _ after h _ after' h' _ hafter
    exact .ok (congrArg (fun e => Stmt.ret {} (some e)) hvalue) hafter
  · rw [haccept, haccept']
    exact Alike.loosen (.ok rfl hafter)

/-- The clauses of a `for` differ in positions only. -/
def SameClauses (c c' : Stmt × Expr × Stmt) : Prop :=
  SameBut Stmt.placeless c.1 c'.1 ∧ SameBut Expr.placeless c.2.1 c'.2.1 ∧
    SameBut Stmt.placeless c.2.2 c'.2.2

theorem clauses_alike (s s' : Stream) (hs : s.Beside R s') :
    (clauses s).Alike R SameClauses (clauses s') := by
  unfold clauses
  refine Alike.andThen (expect_alike hs _ _) ?_
  intro _ s₁ h₁ _ s₁' h₁' _ hs₁
  refine Alike.andThen ((simple_alike s₁ s₁' hs₁).within h₁ h₁') ?_
  intro init s₂ h₂ init' s₂' h₂' hinit hs₂
  refine Alike.andThen ((expect_alike hs₂ _ _).follow h₂ h₂') ?_
  intro _ s₃ h₃ _ s₃' h₃' _ hs₃
  refine Alike.andThen ((expression_alike s₃ s₃' hs₃).within h₃ h₃') ?_
  intro cond s₄ h₄ cond' s₄' h₄' hcond hs₄
  refine Alike.andThen ((expect_alike hs₄ _ _).follow h₄ h₄') ?_
  intro _ s₅ h₅ _ s₅' h₅' _ hs₅
  refine Alike.andThen ((simple_alike s₅ s₅' hs₅).within h₅ h₅') ?_
  intro step s₆ h₆ step' s₆' h₆' hstep hs₆
  refine Alike.andThen ((expect_alike hs₆ _ _).follow h₆ h₆') ?_
  intro _ after h _ after' h' _ hafter
  exact .ok ⟨hinit, hcond, hstep⟩ hafter

mutual

theorem body_alike (s s' : Stream) (hs : s.Beside R s') :
    (body s).Alike R (SameBut Block.placeless) (body s') := by
  rw [body, body]
  rcases hs.take? with ⟨htake, htake'⟩ |
    ⟨kind, text, pos, pos', next, hnext, next', hnext', htake, htake', ht, hrest⟩
  · rw [htake, htake']
    exact .error (.unexpected hs.here)
  · rw [htake, htake']
    dsimp only
    split
    · refine Alike.andThen ((locals_alike next next' hrest).follow hnext hnext') ?_
      intro ds s₁ h₁ ds' s₁' h₁' hds hs₁
      refine Alike.andThen ((statements_alike s₁ s₁' hs₁).follow h₁ h₁') ?_
      intro sts s₂ h₂ sts' s₂' h₂' hsts hs₂
      refine Alike.andThen ((expect_alike hs₂ _ _).follow h₂ h₂') ?_
      intro _ after h _ after' h' _ hafter
      exact .ok (congrArg₂ (Block.mk {}) hds hsts) hafter
    · exact .error (.unexpected (.some ht))
termination_by weight s 0
decreasing_by all_goals simp only [weight]; omega

theorem statements_alike (s s' : Stream) (hs : s.Beside R s') :
    (statements s).Alike R (SameBut Stmt.allPlaceless) (statements s') := by
  rw [statements, statements, hs.isAt, hs.isAt]
  split
  · exact .done rfl hs
  · split
    · exact .error (.unexpected hs.here)
    · refine Alike.loosen (Alike.andThen (statement_alike s s' hs) ?_)
      intro st rest hr st' rest' hr' hst hrest
      refine Alike.andThen ((statements_alike rest rest' hrest).follow hr hr') ?_
      intro sts after h sts' after' h' hsts hafter
      exact .ok (congrArg₂ List.cons hst hsts) hafter
termination_by weight s 2
decreasing_by all_goals simp only [weight]; omega

theorem statement_alike (s s' : Stream) (hs : s.Beside R s') :
    (statement s).Alike R (SameBut Stmt.placeless) (statement s') := by
  rw [statement, statement]
  rcases hs.take? with ⟨htake, htake'⟩ |
    ⟨kind, text, pos, pos', next, hnext, next', hnext', htake, htake', ht, hrest⟩
  · rw [htake, htake']
    exact .error (noExpression_beside hs)
  · rw [htake, htake']
    dsimp only
    split
    · split
      · exact (returned_alike pos pos' next next' hrest).follow hnext hnext'
      · refine Alike.andThen ((condition_alike _ _ next next' hrest).follow hnext hnext') ?_
        intro cond s₁ h₁ cond' s₁' h₁' hcond hs₁
        refine Alike.andThen ((body_alike s₁ s₁' hs₁).within h₁ h₁') ?_
        intro yes s₂ h₂ yes' s₂' h₂' hyes hs₂
        rcases hs₂.acceptKeyword? "else" with ⟨haccept, haccept'⟩ |
          ⟨s₃, h₃, s₃', h₃', haccept, haccept', hs₃⟩
        · rw [haccept, haccept']
          exact .ok (congrArg₂ (Stmt.ifThen {}) hcond hyes) hs₂
        · rw [haccept, haccept']
          refine Alike.andThen (((body_alike s₃ s₃' hs₃).within h₃ h₃').within h₂ h₂') ?_
          intro no after h no' after' h' hno hafter
          refine .ok ?_ hafter
          simp only [SameBut, Stmt.placeless] at *
          rw [hcond, hyes, hno]
      · refine Alike.andThen ((condition_alike _ _ next next' hrest).follow hnext hnext') ?_
        intro cond s₁ h₁ cond' s₁' h₁' hcond hs₁
        refine Alike.andThen ((body_alike s₁ s₁' hs₁).within h₁ h₁') ?_
        intro b after h b' after' h' hb hafter
        exact .ok (congrArg₂ (Stmt.whileLoop {}) hcond hb) hafter
      · refine Alike.andThen ((clauses_alike next next' hrest).follow hnext hnext') ?_
        rintro ⟨init, cond, step⟩ s₁ h₁ ⟨init', cond', step'⟩ s₁' h₁' ⟨hinit, hcond, hstep⟩ hs₁
        refine Alike.andThen ((body_alike s₁ s₁' hs₁).within h₁ h₁') ?_
        intro b after h b' after' h' hb hafter
        refine .ok ?_ hafter
        simp only [SameBut, Stmt.placeless] at *
        rw [hinit, hcond, hstep, hb]
      · exact .error (.unexpected (.some ht))
    · refine Alike.andThen (simple_alike s s' hs) ?_
      intro st rest hr st' rest' hr' hst hrest
      refine Alike.andThen ((expect_alike hrest _ _).follow hr hr') ?_
      intro _ after h _ after' h' _ hafter
      exact .ok hst hafter
termination_by weight s 1
decreasing_by all_goals simp only [weight]; omega

end

/-! ## 6. Programs -/

theorem functionRest_alike (pos pos' : Position) (name : String) (ty : Ty)
    {params params' : List Decl} (hparams : SameBut Decl.allPlaceless params params')
    (s s' : Stream) (hs : s.Beside R s') :
    (functionRest ⟨pos, name, ty⟩ params s).Alike R (SameBut Decl.placeless)
      (functionRest ⟨pos', name, ty⟩ params' s') := by
  unfold functionRest
  rcases hs.accept? .semicolon with ⟨haccept, haccept'⟩ |
    ⟨after, h, after', h', haccept, haccept', hafter⟩
  · rw [haccept, haccept']
    refine Alike.loosen (Alike.andThen (body_alike s s' hs) ?_)
    intro b after h b' after' h' hb hafter
    exact .ok (congrArg₂ (Decl.function ⟨{}, name, ty⟩) hparams hb) hafter
  · rw [haccept, haccept']
    exact Alike.loosen (.ok (congrArg (Decl.prototype ⟨{}, name, ty⟩) hparams) hafter)

theorem declaration_alike (s s' : Stream) (hs : s.Beside R s') :
    (declaration s).Alike R (SameBut Decl.placeless) (declaration s') := by
  unfold declaration
  refine Alike.andThen (typedName_alike _ s s' hs) ?_
  rintro ⟨pos, ty, name⟩ rest hr ⟨pos', _, _⟩ rest' hr' ⟨rfl, rfl⟩ hrest
  dsimp only
  rcases hrest.accept? .lparen with ⟨haccept, haccept'⟩ |
    ⟨inner, hinner, inner', hinner', haccept, haccept', hin⟩
  · rw [haccept, haccept']
    exact (varRest_alike pos pos' ty name rest rest' hrest).follow hr hr'
  · rw [haccept, haccept']
    refine Alike.within (Alike.andThen
      ((formals_alike inner inner' hin).follow hinner hinner') ?_) hr hr'
    intro ps s₁ h₁ ps' s₁' h₁' hps hs₁
    refine Alike.andThen ((expect_alike hs₁ _ _).follow h₁ h₁') ?_
    intro _ s₂ h₂ _ s₂' h₂' _ hs₂
    exact (functionRest_alike pos pos' name ty hps s₂ s₂' hs₂).follow h₂ h₂'

theorem declarations_alike (s s' : Stream) (hs : s.Beside R s') :
    (declarations s).Alike R (SameBut Decl.allPlaceless) (declarations s') := by
  rw [declarations, declarations, hs.isAt, hs.isNone_here]
  split
  · exact .done rfl hs
  · refine Alike.loosen (Alike.andThen (declaration_alike s s' hs) ?_)
    intro d rest hr d' rest' hr' hd hrest
    refine Alike.andThen ((declarations_alike rest rest' hrest).follow hr hr') ?_
    intro ds after h ds' after' h' hds hafter
    exact .ok (congrArg₂ List.cons hd hds) hafter
termination_by s.size

/-- **Two token lists side by side are read alike**: as programs that differ in positions only, or
    not at all, with the same problem at paired tokens. -/
theorem program_alike {ts ts' : List Token} (hR : ∀ t t', R t t' → t.lexeme = t'.lexeme)
    (h : List.Forall₂ R ts ts') :
    (∃ p p', program ts = .ok p ∧ program ts' = .ok p' ∧ p.placeless = p'.placeless) ∨
      ∃ f f', program ts = .error f ∧ program ts' = .error f' ∧ f.Beside R f' := by
  have hread := declarations_alike _ _ (Stream.Beside.ofTokens hR h)
  unfold program
  generalize declarations (.ofTokens ts) = r at hread
  generalize declarations (.ofTokens ts') = r' at hread
  cases hread with
  | ok hds _ =>
    refine Or.inl ⟨_, _, rfl, rfl, congrArg Program.mk ?_⟩
    rw [← Decl.allPlaceless_eq, ← Decl.allPlaceless_eq]
    exact hds
  | error hf => exact Or.inr ⟨_, _, rfl, rfl, hf⟩

end Alike

end Parse

end CMinusMinus
