/-
  File:      CMinusMinus/Proofs/ParserGrammar.lean
  Subject:   The parser accepts exactly what the second grammar derives.

  What the grammar derives is a phrase, and phrases are what the parser reads. Here the other
  direction is shown, form by form, and the two are put together. Rules that both grammars have are
  used for any grammar that has them.

  * `phrase_derives`, `stmt_derives`, `decl_derives` -- phrases can be derived;
  * `parser_accepts_iff` -- **the parser accepts exactly what the second grammar derives.**
-/
import CMinusMinus.Proofs.Grammar

namespace CMinusMinus

/-! ## 1. Derivations -/

namespace Derives

variable {g : Grammar} {f f' : Form} {ts us : List Token}

/-- A token first. -/
theorem token {a : Terminal} {t : Token} (h : a.Matches t) (h' : Derives g f us) :
    Derives g (.seq (.terminal a) f) (t :: us) := .seq (.terminal h) h'

theorem of_rule {n : Nonterminal} (h : Derives g (.nonterminal n) ts) : Derives g (g n) ts := by
  cases h with
  | rule h => exact h

theorem of_seq (h : Derives g (.seq f f') ts) :
    ∃ us vs, ts = us ++ vs ∧ Derives g f us ∧ Derives g f' vs := by
  cases h with
  | seq h h' => exact ⟨_, _, rfl, h, h'⟩

/-- Nothing after the first part. -/
theorem alone (h : Derives g f ts) : Derives g (.seq f (.many f')) ts := by
  have hseq := Derives.seq h (.none (f := f'))
  rwa [List.append_nil] at hseq

theorem anyOf : ∀ {as : List Terminal} {a : Terminal}, a ∈ as → ∀ {t : Token}, a.Matches t →
    Derives g (Form.anyOf as) [t]
  | [b], a, ha, t, h => by
      obtain rfl := List.mem_singleton.mp ha
      exact .terminal h
  | b :: c :: as, a, ha, t, h => by
      rcases List.mem_cons.mp ha with rfl | hmem
      · exact .left (.terminal h)
      · exact .right (anyOf hmem h)

end Derives

/-- Both grammars have the same rule for the nonterminal. -/
def Nonterminal.isShared : Nonterminal → Bool
  | .simple | .loc | .element | .pointer | .grouped => false
  | _ => true

/-- The grammar has the documented rules, apart from those for targets and calls. -/
def SharesRules (g : Grammar) : Prop := ∀ n : Nonterminal, n.isShared = true → g n = documented n

theorem sharesRules_accepted : SharesRules accepted := by
  intro n hn
  cases n <;> first | rfl | cases hn

namespace SharesRules

variable {g : Grammar} {n : Nonterminal} {ts : List Token}

theorem rule (hg : SharesRules g) (hn : n.isShared = true) (h : Derives g (documented n) ts) :
    Derives g (.nonterminal n) ts := .rule (hg n hn ▸ h)

theorem of_rule (hg : SharesRules g) (hn : n.isShared = true)
    (h : Derives g (.nonterminal n) ts) : Derives g (documented n) ts := hg n hn ▸ h.of_rule

end SharesRules

/-! ## 2. Expressions -/

/-- The nonterminal of a rank. -/
def Nonterminal.ofRank : Nat → Nonterminal
  | 0 => .primary
  | 1 => .subscripted
  | n + 2 => .level n

section Shared

variable {g : Grammar} (hg : SharesRules g)

include hg

theorem exp_derives {ts : List Token} (h : Derives g (.nonterminal (.ofRank wholeRank)) ts) :
    Derives g (.nonterminal .exp) ts := hg.rule rfl h

/-- A phrase of one rank is derived from the nonterminal of the next one. -/
theorem looser_derives {n : Nat} {ts : List Token} (h : Derives g (.nonterminal (.ofRank n)) ts) :
    Derives g (.nonterminal (.ofRank (n + 1))) ts := by
  match n with
  | 0 => exact hg.rule rfl h.alone
  | 1 => exact hg.rule rfl (hg.rule rfl (.right h))
  | n + 2 => exact hg.rule rfl h.alone

theorem index_derives {l r : Token} {ts us : List Token}
    (ha : Derives g (.nonterminal .subscripted) ts) (hl : l.kind = .lbracket)
    (hi : Derives g (.nonterminal .exp) us) (hr : r.kind = .rbracket) :
    Derives g (.nonterminal .subscripted) (ts ++ l :: (us ++ [r])) := by
  obtain ⟨first, rest, rfl, hfirst, hrest⟩ := (hg.of_rule rfl ha).of_seq
  have hmore := hrest.snoc (.token hl (.seq hi (.terminal hr)))
  rw [List.append_assoc]
  exact hg.rule rfl (.seq hfirst hmore)

theorem unary_derives {t : Token} {ts : List Token} (ht : t.kind.isUnary = true)
    (h : Derives g (.nonterminal (.level 0)) ts) :
    Derives g (.nonterminal (.level 0)) (t :: ts) := by
  have hsigns : Terminal.sign t.kind ∈ [Terminal.sign .minus, .sign .bang, .sign .ampersand,
      .sign .star] := by
    simpa using TokenKind.isUnary_iff.mp ht
  have hunary := hg.rule (n := .unary) rfl (.left (.seq (.anyOf hsigns rfl) (hg.of_rule rfl h)))
  exact hg.rule rfl hunary

theorem binary_derives {n : Nat} {t : Token} {ts us : List Token}
    (hleft : Derives g (.nonterminal (.ofRank (n + 2))) ts) (ht : t.kind.level? = some n)
    (hright : Derives g (.nonterminal (.ofRank (n + 1))) us) :
    Derives g (.nonterminal (.ofRank (n + 2))) (ts ++ t :: us) := by
  obtain ⟨k, rfl⟩ :=
    Nat.exists_eq_succ_of_ne_zero (Nat.pos_iff_ne_zero.mp (TokenKind.level?_pos ht))
  have hsign : Terminal.sign t.kind ∈ (signsOf (k + 1)).map Terminal.sign :=
    List.mem_map_of_mem (TokenKind.level?_eq_some_iff.mp ht)
  obtain ⟨first, rest, rfl, hfirst, hrest⟩ := (hg.of_rule rfl hleft).of_seq
  have hmore := hrest.snoc (.seq (.anyOf hsign rfl) hright)
  rw [List.append_assoc]
  exact hg.rule rfl (.seq hfirst hmore)

mutual

/-- **A phrase of a rank is derived from the nonterminal of the rank.** -/
theorem phrase_derives : ∀ {n : Nat} {ts : List Token} {e : Expr}, Phrase n ts e →
    Derives g (.nonterminal (.ofRank n)) ts
  | _, _, _, .name ht => hg.rule rfl (.right (.right (.left (.terminal ht))))
  | _, _, _, .number ht hv => hg.rule rfl (.left (.terminal ⟨ht, _, hv⟩))
  | _, _, _, .string ht => hg.rule rfl (.right (.left (.terminal ht)))
  | _, _, _, .call ht hl hargs hr => by
      have hcall := hg.rule (n := .call) rfl
        (.token ht (.token hl (.seq (arguments_derive hargs) (.terminal hr))))
      exact hg.rule rfl (.right (.right (.right (.left hcall))))
  | _, _, _, .group hl he hr => by
      have hexp := exp_derives hg (phrase_derives he)
      exact hg.rule rfl (.right (.right (.right (.right (.token hl (.seq hexp (.terminal hr)))))))
  | _, _, _, .index ha hl hi hr =>
      index_derives hg (phrase_derives ha) hl (exp_derives hg (phrase_derives hi)) hr
  | _, _, _, .unary ht he => unary_derives hg ht (phrase_derives he)
  | _, _, _, .binary hleft ht hright =>
      binary_derives hg (phrase_derives hleft) ht (phrase_derives hright)
  | _, _, _, .looser h => looser_derives hg (phrase_derives h)

theorem arguments_derive : ∀ {ts : List Token} {es : List Expr}, Arguments ts es →
    Derives g (.opt (.commas (.nonterminal .exp))) ts
  | _, _, .none => .left .empty
  | _, _, .some he hes =>
      .right (.seq (exp_derives hg (phrase_derives he)) (moreArguments_derive hes))

theorem moreArguments_derive : ∀ {ts : List Token} {es : List Expr}, MoreArguments ts es →
    Derives g (.many (.all [.sym .comma, .nonterminal .exp])) ts
  | _, _, .none => .none
  | _, _, .some hc he hes => by
      have hfirst := Derives.token (a := .sign .comma) hc (exp_derives hg (phrase_derives he))
      exact .more hfirst (moreArguments_derive hes)

end

theorem expression_derives {ts : List Token} {e : Expr} (h : Phrase wholeRank ts e) :
    Derives g (.nonterminal .exp) ts := exp_derives hg (phrase_derives hg h)

/-! ## 3. Declarations of variables and parameters -/

omit hg in
theorem stars_derive : ∀ {ts : List Token}, (∀ t ∈ ts, t.kind = .star) →
    Derives g (.many (.sym .star)) ts
  | [], _ => .none
  | t :: ts, h => by
      obtain ⟨ht, hts⟩ := List.forall_mem_cons.mp h
      have hstar : Derives g (.sym .star) [t] := .terminal ht
      exact .more hstar (stars_derive hts)

theorem type_derives {ts : List Token} {pos : Position} {ty : Ty} (h : Ty.Phrase ts pos ty) :
    Derives g (.nonterminal .type) ts := by
  obtain @⟨t, stars, hkeyword, hname, hstars⟩ := h
  have hword : Terminal.word t.text ∈ [Terminal.word "int", .word "bool", .word "string",
      .word "void"] := by
    simpa [Ty.names] using hname
  exact hg.rule rfl (.seq (.anyOf hword ⟨hkeyword, rfl⟩) (stars_derive hstars))

theorem formal_derives {ts : List Token} {pos : Position} {ty : Ty} {name : String}
    (h : TypedName ts (pos, ty, name)) : Derives g (.nonterminal .formal) ts := by
  obtain ⟨hty, hx⟩ := h
  exact hg.rule rfl (.seq (type_derives hg hty) (.terminal hx))

theorem varDecl_derives {ts : List Token} {d : Decl} (h : Variable.Phrase ts d) :
    Derives g (.nonterminal .varDecl) ts := by
  obtain ⟨⟨hty, hx⟩, hsize, hsemi⟩ := h
  rw [List.append_assoc]
  cases hsize with
  | none => exact hg.rule rfl (.left (.seq (type_derives hg hty) (.token hx (.terminal hsemi))))
  | some hl hv hn hr =>
    have hrest := Derives.token (a := .int) ⟨hv, _, hn⟩ (.token (a := .sign .rbracket) hr
      (.terminal (g := g) (a := .sign .semicolon) hsemi))
    exact hg.rule rfl (.right (.seq (type_derives hg hty) (.token hx (.token hl hrest))))

theorem params_derive {ts : List Token} {ps : List Decl} (h : Params ts ps) :
    Derives g (.commas (.nonterminal .formal)) ts := by
  induction h with
  | one hname => exact (formal_derives hg hname).alone
  | more hname hc _ ih =>
    obtain ⟨first, rest, rfl, hfirst, hrest⟩ := ih.of_seq
    have hnext := Derives.token (a := .sign .comma) hc hfirst
    exact .seq (formal_derives hg hname) (.more hnext hrest)

theorem formals_derive {ts : List Token} {ps : List Decl} (h : Formals ts ps) :
    Derives g (.nonterminal .formals) ts := by
  cases h with
  | none => exact hg.rule rfl (.left .empty)
  | some hps => exact hg.rule rfl (.right (params_derive hg hps))

theorem variables_derive {ts : List Token} {ds : List Decl} (h : Series Variable.Phrase ts ds) :
    Derives g (.many (.nonterminal .varDecl)) ts := by
  induction h with
  | nil => exact .none
  | cons hd _ ih => exact .more (varDecl_derives hg hd) ih

/-- A function with a body is derived if its body is. -/
theorem function_derives {l r : Token} {ts us vs : List Token} {pos : Position} {ty : Ty}
    {name : String} {params : List Decl} (hname : TypedName ts (pos, ty, name))
    (hl : l.kind = .lparen) (hparams : Formals us params) (hr : r.kind = .rparen)
    (hbody : Derives g (.nonterminal .fnBody) vs) :
    Derives g (.nonterminal .decl) (ts ++ l :: (us ++ r :: vs)) := by
  obtain ⟨hty, hx⟩ := hname
  have hrest := Derives.token (a := .sign .lparen) hl
    (.seq (formals_derive hg hparams) (.token (a := .sign .rparen) hr hbody))
  rw [List.append_assoc]
  exact hg.rule rfl (.right (.right (.seq (type_derives hg hty) (.token hx hrest))))

theorem prototype_derives {l r semi : Token} {ts us : List Token} {pos : Position} {ty : Ty}
    {name : String} {params : List Decl} (hname : TypedName ts (pos, ty, name))
    (hl : l.kind = .lparen) (hparams : Formals us params) (hr : r.kind = .rparen)
    (hsemi : semi.kind = .semicolon) :
    Derives g (.nonterminal .decl) (ts ++ l :: (us ++ [r, semi])) := by
  obtain ⟨hty, hx⟩ := hname
  have hrest := Derives.token (a := .sign .lparen) hl
    (.seq (formals_derive hg hparams) (.token (a := .sign .rparen) hr
      (.terminal (a := .sign .semicolon) hsemi)))
  rw [List.append_assoc]
  exact hg.rule rfl (.right (.left (.seq (type_derives hg hty) (.token hx hrest))))

end Shared

/-! ## 4. What may be assigned to, and calls -/

theorem pointer_derives : ∀ {n : Nat} {ts : List Token} {e : Expr}, Phrase n ts e →
    e.isVar = true → Derives accepted (.nonterminal .pointer) ts
  | _, _, _, .name ht, _ => .rule (.left (.terminal ht))
  | _, _, _, .group hl he hr, h =>
      .rule (.right (.token hl (.seq (pointer_derives he h) (.terminal hr))))
  | _, _, _, .looser he, h => pointer_derives he h
  | _, _, _, .number _ _, h | _, _, _, .string _, h | _, _, _, .call _ _ _ _, h
  | _, _, _, .index _ _ _ _, h | _, _, _, .unary _ _, h | _, _, _, .binary _ _ _, h => by cases h

theorem grouped_derives : ∀ {n : Nat} {ts : List Token} {e : Expr}, Phrase n ts e →
    e.isCall = true → Derives accepted (.nonterminal .grouped) ts
  | _, _, _, .call ht hl hargs hr, _ => by
      have hcall := sharesRules_accepted.rule (n := .call) rfl
        (.token ht (.token hl (.seq (arguments_derive sharesRules_accepted hargs) (.terminal hr))))
      exact .rule (.left hcall)
  | _, _, _, .group hl he hr, h =>
      .rule (.right (.token hl (.seq (grouped_derives he h) (.terminal hr))))
  | _, _, _, .looser he, h => grouped_derives he h
  | _, _, _, .name _, h | _, _, _, .number _ _, h | _, _, _, .string _, h
  | _, _, _, .index _ _ _ _, h | _, _, _, .unary _ _, h | _, _, _, .binary _ _ _, h => by cases h

/-- The only unary operator in front of a location is a star before a variable. -/
theorem isLocation_unary {pos : Position} {text : String} {e : Expr}
    (h : (Expr.unary pos (.ofText text) e).isLocation = true) : text = "*" ∧ e.isVar = true := by
  have htext := UnaryOp.text_ofText text
  cases hop : UnaryOp.ofText text with
  | deref =>
    rw [hop] at h htext
    exact ⟨htext.symm, h⟩
  | _ =>
    rw [hop] at h
    cases h

/-- A location is derived as one, and as an element if no star stands in front of it. -/
theorem location_derives : ∀ {n : Nat} {ts : List Token} {e : Expr}, Phrase n ts e →
    e.isLocation = true → Derives accepted (.nonterminal .loc) ts ∧
      (n ≤ 1 → Derives accepted (.nonterminal .element) ts)
  | _, _, _, .name ht, _ => by
      have helement : Derives accepted (.nonterminal .element) _ := .rule (.left (.terminal ht))
      exact ⟨.rule (.left helement), fun _ => helement⟩
  | _, _, _, .group hl he hr, h => by
      have helement : Derives accepted (.nonterminal .element) _ :=
        .rule (.right (.left (.token hl (.seq (location_derives he h).1 (.terminal hr)))))
      exact ⟨.rule (.left helement), fun _ => helement⟩
  | _, _, _, .index ha hl hi hr, h => by
      have hindex := expression_derives sharesRules_accepted hi
      have helement : Derives accepted (.nonterminal .element) _ :=
        .rule (.right (.right (.seq ((location_derives ha h).2 (Nat.le_refl 1))
          (.token hl (.seq hindex (.terminal hr))))))
      exact ⟨.rule (.left helement), fun _ => helement⟩
  | _, _, _, .unary ht he, h => by
      obtain ⟨htext, hvar⟩ := isLocation_unary h
      refine ⟨.rule (.right (.token ⟨ht, htext⟩ (pointer_derives he hvar))), fun hn => ?_⟩
      exact absurd hn (by decide)
  | _, _, _, .looser he, h => by
      obtain ⟨hloc, helement⟩ := location_derives he h
      exact ⟨hloc, fun hn => helement (by omega)⟩
  | _, _, _, .number _ _, h | _, _, _, .string _, h | _, _, _, .call _ _ _ _, h
  | _, _, _, .binary _ _ _, h => by cases h

theorem clause_derives {ts : List Token} {st : Stmt} (h : Clause ts st) :
    Derives accepted (.nonterminal .simple) ts := by
  cases h with
  | assign htarget hlocation ha hvalue =>
    have hexp := expression_derives sharesRules_accepted hvalue
    exact .rule (.left (.seq (location_derives htarget hlocation).1 (.token ha hexp)))
  | call he hcall => exact .rule (.right (grouped_derives he hcall))

/-! ## 5. Statements and programs -/

mutual

/-- **A statement can be derived.** -/
theorem stmt_derives : ∀ {ts : List Token} {st : Stmt}, Stmt.Phrase ts st →
    Derives accepted (.nonterminal .stmt) ts
  | _, _, .clause h hsemi => .rule (.left (.seq (clause_derives h) (.terminal hsemi)))
  | _, _, .retNone ht hsemi =>
      .rule (.right (.left (.token ht (.seq (.left .empty) (.terminal hsemi)))))
  | _, _, .retSome ht he hsemi => by
      have hexp := expression_derives sharesRules_accepted he
      exact .rule (.right (.left (.token ht (.seq (.right hexp) (.terminal hsemi)))))
  | _, _, .ifThen ht (.mk hl he hr) hyes => by
      have hexp := expression_derives sharesRules_accepted he
      have hbody : Derives accepted (.seq (.nonterminal .fnBody)
          (.opt (.all [.key "else", .nonterminal .fnBody]))) _ :=
        .seq (block_derives hyes) (.left .empty)
      rw [List.append_nil] at hbody
      simp only [List.cons_append, List.append_assoc, List.nil_append]
      exact .rule (.right (.right (.left (.token ht (.token hl (.seq hexp (.token hr hbody)))))))
  | _, _, .ifElse ht (.mk hl he hr) hyes hw hno => by
      have hexp := expression_derives sharesRules_accepted he
      have helse := Derives.token (a := .word "else") hw (block_derives hno)
      simp only [List.cons_append, List.append_assoc, List.nil_append]
      exact .rule (.right (.right (.left (.token ht (.token hl (.seq hexp (.token hr
        (.seq (block_derives hyes) (.right helse)))))))))
  | _, _, .whileLoop ht (.mk hl he hr) hbody => by
      have hexp := expression_derives sharesRules_accepted he
      simp only [List.cons_append, List.append_assoc, List.nil_append]
      exact .rule (.right (.right (.right (.left (.token ht (.token hl (.seq hexp (.token hr
        (block_derives hbody)))))))))
  | _, _, .forLoop ht (.mk hl hinit h₁ he h₂ hstep hr) hbody => by
      have hexp := expression_derives sharesRules_accepted he
      simp only [List.cons_append, List.append_assoc, List.nil_append]
      exact .rule (.right (.right (.right (.right (.token ht (.token hl (.seq (clause_derives hinit)
        (.token h₁ (.seq hexp (.token h₂ (.seq (clause_derives hstep) (.token hr
          (block_derives hbody)))))))))))))

theorem block_derives : ∀ {ts : List Token} {b : Block}, Block.Phrase ts b →
    Derives accepted (.nonterminal .fnBody) ts
  | _, _, .mk hl hds hsts hr =>
      .rule (.token hl (.seq (variables_derive sharesRules_accepted hds)
        (.seq (stmts_derive hsts) (.terminal hr))))

theorem stmts_derive : ∀ {ts : List Token} {sts : List Stmt}, Stmt.Phrases ts sts →
    Derives accepted (.many (.nonterminal .stmt)) ts
  | _, _, .nil => .none
  | _, _, .cons hst hsts => .more (stmt_derives hst) (stmts_derive hsts)

end

theorem decl_derives {ts : List Token} {d : Decl} (h : Decl.Phrase ts d) :
    Derives accepted (.nonterminal .decl) ts := by
  cases h with
  | var hvar => exact .rule (.left (varDecl_derives sharesRules_accepted hvar))
  | prototype hname hl hparams hr hsemi =>
    exact prototype_derives sharesRules_accepted hname hl hparams hr hsemi
  | function hname hl hparams hr hbody =>
    exact function_derives sharesRules_accepted hname hl hparams hr (block_derives hbody)

theorem program_derives {ts : List Token} {ds : List Decl} (h : Series Decl.Phrase ts ds) :
    Derives accepted (.nonterminal .program) ts := by
  refine .rule ?_
  induction h with
  | nil => exact .none
  | cons hd _ ih => exact .more (decl_derives hd) ih

/-- **What the parser accepts.** Of the tokens before an end of input, the parser makes a program
    if and only if the grammar with the rules of its own for targets derives them. -/
theorem parser_accepts_iff {ts : List Token} {e : Token} (hts : ∀ t ∈ ts, t.kind ≠ .eof)
    (he : e.kind = .eof) :
    (∃ p, Parse.program (ts ++ [e]) = .ok p) ↔ Derives accepted (.nonterminal .program) ts := by
  constructor
  · intro h
    obtain ⟨p, hp⟩ := h
    exact program_derives ((Parse.program_eq_ok_iff hts he).mp hp)
  · intro h
    obtain ⟨p, hp⟩ := h.holds Nonterminal.means_of_holds
    exact ⟨p, (Parse.program_eq_ok_iff hts he).mpr hp⟩

/-- A token at no particular place. -/
def unplaced (kind : TokenKind) (text : String) : Token := ⟨kind, text, {}⟩

/-- The body of `void f(int *p) { *p[0] = 1; }`. -/
def starElementBody : List Token :=
  [unplaced .lbrace "\x7b", unplaced .star "*", unplaced .identifier "p", unplaced .lbracket "[",
   unplaced .number "0", unplaced .rbracket "]", unplaced .assign "=", unplaced .number "1",
   unplaced .semicolon ";", unplaced .rbrace "\x7d"]

/-- The tokens of `void f(int *p) { *p[0] = 1; }`. -/
def starElement : List Token :=
  [unplaced .keyword "void", unplaced .identifier "f"] ++ unplaced .lparen "(" ::
    ([unplaced .keyword "int", unplaced .star "*", unplaced .identifier "p"] ++
      unplaced .rparen ")" :: starElementBody)

/-- A numeral is an expression of the documented grammar. -/
theorem documented_number {t : Token} {v : Int} (ht : t.kind = .number)
    (hv : Text.readInt t.text.toList = .ok v) : Derives documented (.nonterminal .exp) [t] :=
  expression_derives (fun _ _ => rfl) ((Phrase.number ht hv).of_le (Nat.zero_le _))

theorem documented_starElementBody :
    Derives documented (.nonterminal .fnBody) starElementBody := by
  have hstar : Derives documented (.nonterminal .loc)
      [unplaced .star "*", unplaced .identifier "p"] :=
    .rule (.right (.right (.token rfl (.terminal rfl))))
  have hzero : Derives documented (.nonterminal .exp) [unplaced .number "0"] :=
    documented_number rfl rfl
  have hone : Derives documented (.nonterminal .exp) [unplaced .number "1"] :=
    documented_number rfl rfl
  have hloc := Derives.rule (n := .loc) (g := documented) (.right (.left (.seq hstar
    (.token (t := unplaced .lbracket "[") rfl
      (.seq hzero (.terminal (t := unplaced .rbracket "]") rfl))))))
  have hstmt := Derives.rule (n := .stmt) (g := documented) (.left (.seq
    (.rule (.left (.seq hloc (.token (t := unplaced .assign "=") rfl hone))))
    (.terminal (t := unplaced .semicolon ";") rfl)))
  exact .rule (.token rfl (.seq .none (.seq (.more hstmt .none) (.terminal rfl))))

set_option maxRecDepth 2000 in
/-- A star in front of an element: the documented grammar derives it, the parser refuses it. -/
theorem parser_accepts_iff_starElement :
    Derives documented (.nonterminal .program) starElement ∧
      ¬ (∃ p, Parse.program (starElement ++ [unplaced .eof ""]) = .ok p) ∧
      ¬ Derives accepted (.nonterminal .program) starElement := by
  have hresult := @Ty.Phrase.mk (unplaced .keyword "void") [] rfl (by decide) (by decide)
  have hstars : ∀ t ∈ [unplaced .star "*"], t.kind = .star := by decide
  have hparam := @Ty.Phrase.mk (unplaced .keyword "int") [unplaced .star "*"] rfl (by decide) hstars
  have hfunction := function_derives (g := documented) (fun _ _ => rfl)
    (l := unplaced .lparen "(") (r := unplaced .rparen ")")
    (.mk (x := unplaced .identifier "f") hresult rfl) rfl
    (.some (.one (.mk (x := unplaced .identifier "p") hparam rfl))) rfl documented_starElementBody
  have hrefused : ¬ ∃ p, Parse.program (starElement ++ [unplaced .eof ""]) = .ok p := by
    intro h
    obtain ⟨p, hp⟩ := h
    have hfails : (Parse.program (starElement ++ [unplaced .eof ""])).isOk = false := by
      decide +kernel
    rw [hp] at hfails
    cases hfails
  have hts : ∀ t ∈ starElement, t.kind ≠ .eof := by decide
  have hprogram := Derives.rule (n := .program) (g := documented) (.more hfunction .none)
  exact ⟨hprogram, hrefused, mt (parser_accepts_iff hts rfl).mpr hrefused⟩

end CMinusMinus
