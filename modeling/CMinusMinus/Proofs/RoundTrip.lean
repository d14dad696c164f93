/-
  File:      CMinusMinus/Proofs/RoundTrip.lean
  Subject:   A printed program is read back, and nothing shorter is.

  What is printed stands for its tree, and the parser reads every phrase; so reading undoes
  printing. That the printer writes no parentheses in vain is said by length: whatever stands for
  the same tree has at least as many tokens.

  * `Program.print_placeless` -- the printer does not look at positions;
  * `Phrase.print_length`, `Stmt.Phrase.print_length`, `Decl.Phrase.print_length` -- no phrase is
    shorter than what is printed;
  * `parse_print` -- **reading undoes printing.**
-/
import CMinusMinus.Proofs.Printing
import CMinusMinus.Proofs.Recognition

namespace CMinusMinus

/-! ## 1. What is printed does not depend on positions -/

theorem Expr.rank_placeless (e : Expr) : e.placeless.rank = e.rank := by
  cases e <;> rfl

mutual

theorem Expr.plain_placeless : ∀ e : Expr, e.placeless.plain = e.plain
  | .int _ _ | .str _ _ | .var _ _ | .nameless _ _ | .misplaced _ => rfl
  | .index _ a i => by
      simp only [Expr.placeless, Expr.plain, Expr.rank_placeless, a.plain_placeless,
        i.plain_placeless]
  | .call _ _ args => by simp only [Expr.placeless, Expr.plain, Expr.printArgs_placeless args]
  | .unary _ _ e => by
      simp only [Expr.placeless, Expr.plain, Expr.rank_placeless, e.plain_placeless]
  | .binary _ _ left right => by
      simp only [Expr.placeless, Expr.plain, Expr.rank_placeless, left.plain_placeless,
        right.plain_placeless]

theorem Expr.printArgs_placeless : ∀ es : List Expr,
    Expr.printArgs (Expr.allPlaceless es) = Expr.printArgs es
  | [] => rfl
  | e :: es => by
      simp only [Expr.allPlaceless, Expr.printArgs, Expr.rank_placeless, e.plain_placeless,
        Expr.printMore_placeless es]

theorem Expr.printMore_placeless : ∀ es : List Expr,
    Expr.printMore (Expr.allPlaceless es) = Expr.printMore es
  | [] => rfl
  | e :: es => by
      simp only [Expr.allPlaceless, Expr.printMore, Expr.rank_placeless, e.plain_placeless,
        Expr.printMore_placeless es]

end

theorem Expr.print_placeless (place : Nat) (e : Expr) : e.placeless.print place = e.print place := by
  rw [Expr.print, Expr.rank_placeless, Expr.plain_placeless, Expr.print]

theorem Decl.printVariable_placeless (d : Decl) : d.placeless.printVariable = d.printVariable := by
  cases d <;> rfl

theorem Decl.printParameter_placeless (d : Decl) :
    d.placeless.printParameter = d.printParameter := by
  cases d <;> rfl

theorem printParams_placeless : ∀ ds : List Decl,
    printParams (ds.map Decl.placeless) = printParams ds
  | [] => rfl
  | [d] => d.printParameter_placeless
  | d :: d' :: ds => by
      show d.placeless.printParameter ++ sign .comma :: printParams ((d' :: ds).map Decl.placeless) =
        d.printParameter ++ sign .comma :: printParams (d' :: ds)
      rw [d.printParameter_placeless, printParams_placeless (d' :: ds)]

theorem Stmt.printClause_placeless (st : Stmt) : st.placeless.printClause = st.printClause := by
  cases st <;> simp only [Stmt.placeless, Stmt.printClause, Expr.print_placeless]

mutual

theorem Stmt.print_placeless : ∀ st : Stmt, st.placeless.print = st.print
  | .assign pos target value => by
      have h := (Stmt.assign pos target value).printClause_placeless
      simp only [Stmt.placeless] at h
      simp only [Stmt.placeless, Stmt.print, h]
  | .call pos e => by
      have h := (Stmt.call pos e).printClause_placeless
      simp only [Stmt.placeless] at h
      simp only [Stmt.placeless, Stmt.print, h]
  | .ret _ none => rfl
  | .ret _ (some e) => by
      simp only [Stmt.placeless, Option.map_some, Stmt.print, Expr.print_placeless]
  | .ifThen _ cond yes => by
      simp only [Stmt.placeless, Stmt.print, printCondition, Expr.print_placeless,
        yes.print_placeless]
  | .ifElse _ cond yes no => by
      simp only [Stmt.placeless, Stmt.print, printCondition, Expr.print_placeless,
        yes.print_placeless, no.print_placeless]
  | .whileLoop _ cond body => by
      simp only [Stmt.placeless, Stmt.print, printCondition, Expr.print_placeless,
        body.print_placeless]
  | .forLoop _ init cond step body => by
      simp only [Stmt.placeless, Stmt.print, printClauses, Stmt.printClause_placeless,
        Expr.print_placeless, body.print_placeless]
  | .misplaced _ | .missing _ _ => rfl

theorem Block.print_placeless : ∀ b : Block, b.placeless.print = b.print
  | .mk _ ds sts => by
      have hds : (ds.map Decl.placeless).flatMap Decl.printVariable =
          ds.flatMap Decl.printVariable := by
        simp only [List.flatMap_map, Decl.printVariable_placeless]
      simp only [Block.placeless, Block.print, Decl.allPlaceless_eq, hds,
        Stmt.printAll_placeless sts]

theorem Stmt.printAll_placeless : ∀ sts : List Stmt,
    Stmt.printAll (Stmt.allPlaceless sts) = Stmt.printAll sts
  | [] => rfl
  | st :: sts => by
      simp only [Stmt.allPlaceless, Stmt.printAll, st.print_placeless,
        Stmt.printAll_placeless sts]

end

theorem Decl.print_placeless (d : Decl) : d.placeless.print = d.print := by
  cases d with
  | prototype head params =>
    simp only [Decl.placeless, Decl.print, Decl.allPlaceless_eq, printParams_placeless,
      FnHead.placeless]
  | function head params body =>
    simp only [Decl.placeless, Decl.print, Decl.allPlaceless_eq, printParams_placeless,
      FnHead.placeless, Block.print_placeless]
  | _ => rfl

theorem Program.print_placeless (p : Program) : p.placeless.print = p.print := by
  simp only [Program.print, Program.placeless, List.flatMap_map, Decl.print_placeless]

/-! ## 2. Nothing shorter stands for the tree -/

theorem length_enclose (rank place : Nat) (ls : List Lexeme) :
    (enclose rank place ls).length = ls.length + if rank ≤ place then 0 else 2 := by
  unfold enclose
  split
  · rfl
  · rw [List.length_cons, List.length_append, List.length_singleton]

/-- Parentheses cost two tokens. -/
theorem Expr.length_print_le (e : Expr) (m n : Nat) :
    (e.print m).length ≤ (e.print n).length + 2 := by
  simp only [Expr.print, length_enclose]
  split <;> split <;> omega

/-- A looser place never needs more of them. -/
theorem Expr.length_print_succ (e : Expr) (n : Nat) :
    (e.print (n + 1)).length ≤ (e.print n).length := by
  simp only [Expr.print, length_enclose]
  split <;> split <;> omega

namespace Expr

variable (pos : Position)

theorem print_call (name : String) (args : List Expr) : (Expr.call pos name args).print 0 =
    ⟨.identifier, name⟩ :: sign .lparen :: (Expr.printArgs args ++ [sign .rparen]) := by
  rw [Expr.print, Expr.plain]
  rfl

theorem print_index (a i : Expr) : (Expr.index pos a i).print 1 =
    a.print 1 ++ sign .lbracket :: (i.print wholeRank ++ [sign .rbracket]) := by
  rw [Expr.print, Expr.plain]
  rfl

theorem print_unary (op : UnaryOp) (e : Expr) : (Expr.unary pos op e).print 2 =
    ⟨op.kind?.getD .eof, op.text⟩ :: e.print 2 := by
  rw [Expr.print, Expr.plain]
  rfl

theorem print_binary {op : BinaryOp} {n : Nat} (h : op.level = n) (left right : Expr) :
    (Expr.binary pos op left right).print (n + 2) =
      left.print (n + 2) ++ ⟨op.kind?.getD .eof, op.text⟩ :: right.print (n + 1) := by
  subst h
  rw [Expr.print, Expr.plain, Expr.rank]
  exact if_pos (Nat.le_refl _)

end Expr

/-- A well-spelled operator has the level of its kind. -/
theorem Token.WellSpelled.level {t : Token} (ht : t.WellSpelled) {n : Nat}
    (h : t.kind.level? = some n) : (BinaryOp.ofText t.text).level = n := by
  cases hk : t.kind <;> rw [hk] at h <;> cases h <;>
    rw [ht.sign _ (congrArg TokenKind.sign? hk)] <;> rfl

/-- All tokens of the list are well spelled. -/
abbrev WellSpelled (ts : List Token) : Prop := ∀ t ∈ ts, t.WellSpelled

mutual

/-- **No phrase is shorter than what is printed.** -/
theorem Phrase.print_length : ∀ {n : Nat} {ts : List Token} {e : Expr}, Phrase n ts e →
    WellSpelled ts → (e.print n).length ≤ ts.length
  | _, _, _, .name _, _ => Nat.le_refl 1
  | _, _, _, .number _ _, _ => Nat.le_refl 1
  | _, _, _, .string _, _ => Nat.le_refl 1
  | _, _, _, .call _ _ hargs _, hws => by
      have hlength := hargs.print_length fun t ht => hws t (by simp [ht])
      simp only [Expr.print_call, List.length_cons, List.length_append, List.length_nil]
      omega
  | _, _, _, .group _ he _, hws => by
      have hlength := he.print_length fun t ht => hws t (by simp [ht])
      refine Nat.le_trans (Expr.length_print_le _ 0 wholeRank) ?_
      simp only [List.length_cons, List.length_append, List.length_nil]
      omega
  | _, _, _, .index ha _ hi _, hws => by
      obtain ⟨hts, hrest⟩ := List.forall_mem_append.mp hws
      have hus := (List.forall_mem_append.mp (List.forall_mem_cons.mp hrest).2).1
      have hbase := ha.print_length hts
      have hindex := hi.print_length hus
      simp only [Expr.print_index, List.length_cons, List.length_append, List.length_nil]
      omega
  | _, _, _, .unary _ he, hws => by
      have hlength := he.print_length (List.forall_mem_cons.mp hws).2
      simp only [Expr.print_unary, List.length_cons]
      omega
  | _, _, _, .binary hleft ht hright, hws => by
      obtain ⟨hts, hrest⟩ := List.forall_mem_append.mp hws
      obtain ⟨hsign, hus⟩ := List.forall_mem_cons.mp hrest
      have hlength := hleft.print_length hts
      have hlength' := hright.print_length hus
      simp only [Expr.print_binary _ (hsign.level ht), List.length_cons, List.length_append]
      omega
  | _, _, _, .looser h, hws => Nat.le_trans (Expr.length_print_succ _ _) (h.print_length hws)

theorem Arguments.print_length : ∀ {ts : List Token} {es : List Expr}, Arguments ts es →
    WellSpelled ts → (Expr.printArgs es).length ≤ ts.length
  | _, _, .none, _ => Nat.le_refl 0
  | _, _, .some he hes, hws => by
      obtain ⟨hts, hus⟩ := List.forall_mem_append.mp hws
      rw [Expr.printArgs, List.length_append, List.length_append]
      exact Nat.add_le_add (he.print_length hts) (hes.print_length hus)

theorem MoreArguments.print_length : ∀ {ts : List Token} {es : List Expr}, MoreArguments ts es →
    WellSpelled ts → (Expr.printMore es).length ≤ ts.length
  | _, _, .none, _ => Nat.le_refl 0
  | _, _, .some _ he hes, hws => by
      obtain ⟨hts, hus⟩ := List.forall_mem_append.mp (List.forall_mem_cons.mp hws).2
      rw [Expr.printMore, List.length_cons, List.length_cons, List.length_append,
        List.length_append]
      exact Nat.succ_le_succ (Nat.add_le_add (he.print_length hts) (hes.print_length hus))

end

theorem TypedName.print_length {ts : List Token} {pos : Position} {ty : Ty} {name : String}
    (h : TypedName ts (pos, ty, name)) : (printTyped ty name).length = ts.length := by
  obtain ⟨hty, -⟩ := h
  obtain ⟨-, -, -⟩ := hty
  simp [printTyped, Ty.print]

theorem Extent.print_length {ts : List Token} {size? : Option Int} (h : Extent ts size?) :
    (printExtent size?).length = ts.length := by
  cases h <;> rfl

theorem Variable.Phrase.print_length {ts : List Token} {d : Decl} (h : Variable.Phrase ts d) :
    d.printVariable.length = ts.length := by
  obtain @⟨semi, ts, us, pos, ty, name, size?, hname, hsize, -⟩ := h
  have htyped : (printTyped { ty with extent := size? } name).length = ts.length :=
    hname.print_length
  rw [Decl.printVariable, List.length_append, List.length_append, htyped, hsize.print_length,
    List.length_append, List.length_append]
  rfl

theorem Params.print_length {ts : List Token} {ps : List Decl} (h : Params ts ps) :
    (printParams ps).length = ts.length := by
  induction h with
  | one hname => exact hname.print_length
  | @more c ts us pos ty name ps hname _ hps ih =>
    -- there is one more parameter after the comma
    obtain ⟨d, ds, rfl⟩ : ∃ d ds, ps = d :: ds := by
      cases hps <;> exact ⟨_, _, rfl⟩
    rw [printParams, List.length_append, List.length_cons, ih, List.length_append,
      List.length_cons, Decl.printParameter, hname.print_length]
    exact fun h => by cases h

theorem Formals.print_length {ts : List Token} {ps : List Decl} (h : Formals ts ps) :
    (printParams ps).length = ts.length := by
  cases h with
  | none => rfl
  | some hps => exact hps.print_length

/-- What holds of the parts of a series holds of the whole. -/
theorem Series.print_length {P : List Token → Decl → Prop} {print : Decl → List Lexeme}
    (hP : ∀ ts d, P ts d → WellSpelled ts → (print d).length ≤ ts.length) {ts : List Token}
    {ds : List Decl} (h : Series P ts ds) (hws : WellSpelled ts) :
    (ds.flatMap print).length ≤ ts.length := by
  induction h with
  | nil => exact Nat.le_refl 0
  | cons hd _ ih =>
    obtain ⟨hts, hus⟩ := List.forall_mem_append.mp hws
    rw [List.flatMap_cons, List.length_append, List.length_append]
    exact Nat.add_le_add (hP _ _ hd hts) (ih hus)

theorem Clause.print_length {ts : List Token} {st : Stmt} (h : Clause ts st)
    (hws : WellSpelled ts) : st.printClause.length ≤ ts.length := by
  cases h with
  | assign htarget _ _ hvalue =>
    obtain ⟨hts, hrest⟩ := List.forall_mem_append.mp hws
    have hlength := htarget.print_length hts
    have hlength' := hvalue.print_length (List.forall_mem_cons.mp hrest).2
    simp only [Stmt.printClause, List.length_append, List.length_cons]
    omega
  | call he _ => exact he.print_length hws

theorem Condition.print_length {ts : List Token} {e : Expr} (h : Condition ts e)
    (hws : WellSpelled ts) : (printCondition e).length ≤ ts.length := by
  obtain ⟨-, he, -⟩ := h
  have hlength := he.print_length fun t ht => hws t (by simp [ht])
  simp only [printCondition, List.length_cons, List.length_append, List.length_nil]
  omega

theorem ForClauses.print_length {ts : List Token} {init step : Stmt} {cond : Expr}
    (h : ForClauses ts (init, cond, step)) (hws : WellSpelled ts) :
    (printClauses init cond step).length ≤ ts.length := by
  obtain ⟨-, hinit, -, hcond, -, hstep, -⟩ := h
  have hlength := hinit.print_length fun t ht => hws t (by simp [ht])
  have hlength' := hcond.print_length fun t ht => hws t (by simp [ht])
  have hlength'' := hstep.print_length fun t ht => hws t (by simp [ht])
  simp only [printClauses, List.length_cons, List.length_append, List.length_nil]
  omega

/-- A clause with a semicolon after it. -/
theorem Clause.print_length_stmt {ts : List Token} {st : Stmt} (h : Clause ts st)
    (hws : WellSpelled ts) : st.print.length ≤ ts.length + 1 := by
  have hlength := h.print_length hws
  cases h <;> rw [Stmt.print, List.length_append, List.length_singleton] <;> omega

mutual

theorem Stmt.Phrase.print_length : ∀ {ts : List Token} {st : Stmt}, Stmt.Phrase ts st →
    WellSpelled ts → st.print.length ≤ ts.length
  | _, _, .clause h _, hws => by
      rw [List.length_append, List.length_singleton]
      exact h.print_length_stmt (List.forall_mem_append.mp hws).1
  | _, _, .retNone _ _, _ => Nat.le_refl 2
  | _, _, .retSome _ he _, hws => by
      have hlength := he.print_length fun t ht => hws t (by simp [ht])
      simp only [Stmt.print, List.length_cons, List.length_append, List.length_nil]
      omega
  | _, _, .ifThen _ hcond hyes, hws => by
      obtain ⟨hts, hus⟩ := List.forall_mem_append.mp (List.forall_mem_cons.mp hws).2
      have hlength := hcond.print_length hts
      have hlength' := hyes.print_length hus
      simp only [Stmt.print, List.length_cons, List.length_append]
      omega
  | _, _, .ifElse _ hcond hyes _ hno, hws => by
      obtain ⟨hts, hrest⟩ := List.forall_mem_append.mp (List.forall_mem_cons.mp hws).2
      obtain ⟨hus, hrest⟩ := List.forall_mem_append.mp hrest
      have hlength := hcond.print_length hts
      have hlength' := hyes.print_length hus
      have hlength'' := hno.print_length (List.forall_mem_cons.mp hrest).2
      simp only [Stmt.print, List.length_cons, List.length_append]
      omega
  | _, _, .whileLoop _ hcond hbody, hws => by
      obtain ⟨hts, hus⟩ := List.forall_mem_append.mp (List.forall_mem_cons.mp hws).2
      have hlength := hcond.print_length hts
      have hlength' := hbody.print_length hus
      simp only [Stmt.print, List.length_cons, List.length_append]
      omega
  | _, _, .forLoop _ hclauses hbody, hws => by
      obtain ⟨hts, hus⟩ := List.forall_mem_append.mp (List.forall_mem_cons.mp hws).2
      have hlength := hclauses.print_length hts
      have hlength' := hbody.print_length hus
      simp only [Stmt.print, List.length_cons, List.length_append]
      omega

theorem Block.Phrase.print_length : ∀ {ts : List Token} {b : Block}, Block.Phrase ts b →
    WellSpelled ts → b.print.length ≤ ts.length
  | _, _, .mk _ hds hsts _, hws => by
      obtain ⟨hts, hrest⟩ := List.forall_mem_append.mp (List.forall_mem_cons.mp hws).2
      have hlength := hds.print_length (fun _ _ hd _ => Nat.le_of_eq hd.print_length) hts
      have hlength' := hsts.print_length (List.forall_mem_append.mp hrest).1
      simp only [Block.print, List.length_cons, List.length_append, List.length_nil]
      omega

theorem Stmt.Phrases.print_length : ∀ {ts : List Token} {sts : List Stmt}, Stmt.Phrases ts sts →
    WellSpelled ts → (Stmt.printAll sts).length ≤ ts.length
  | _, _, .nil, _ => Nat.le_refl 0
  | _, _, .cons hst hsts, hws => by
      obtain ⟨hts, hus⟩ := List.forall_mem_append.mp hws
      rw [Stmt.printAll, List.length_append, List.length_append]
      exact Nat.add_le_add (hst.print_length hts) (hsts.print_length hus)

end

theorem Decl.Phrase.print_length (ts : List Token) (d : Decl) (h : Decl.Phrase ts d)
    (hws : WellSpelled ts) : d.print.length ≤ ts.length := by
  cases h with
  | var hvar =>
    have hlength := hvar.print_length
    obtain ⟨-, -, -⟩ := hvar
    exact Nat.le_of_eq hlength
  | prototype hname _ hparams _ _ =>
    simp only [Decl.print, List.length_append, List.length_cons, hname.print_length,
      hparams.print_length, List.length_nil]
    omega
  | function hname _ hparams _ hbody =>
    obtain ⟨-, hrest⟩ := List.forall_mem_append.mp hws
    obtain ⟨-, hrest⟩ := List.forall_mem_append.mp (List.forall_mem_cons.mp hrest).2
    have hlength := hbody.print_length (List.forall_mem_cons.mp hrest).2
    simp only [Decl.print, List.length_append, List.length_cons, hname.print_length,
      hparams.print_length]
    omega

/-! ## 3. Reading back -/

/-- **Reading undoes printing.** A program of the parser's shapes, written as tokens at any
    positions, is read as itself up to positions; and no well-spelled token list that is read as
    this program is shorter, so that all parentheses of the printer are needed. -/
theorem parse_print {p : Program} (hp : p.writable = true) :
    (∀ tokens : List Token, tokens.map Token.lexeme = p.print →
      ∃ q, Parse.program tokens = .ok q ∧ q.placeless = p.placeless) ∧
    ∀ (ts : List Token) (e : Token) (q : Program),
      (∀ t ∈ ts, t.WellSpelled ∧ t.kind ≠ .eof) → e.kind = .eof →
      Parse.program (ts ++ [e]) = .ok q → q.placeless = p.placeless →
        p.print.length ≤ (ts ++ [e]).length := by
  constructor
  · intro tokens htokens
    obtain ⟨ts, rest, rfl, hts, hrest⟩ := List.map_eq_append_iff.mp htokens
    obtain ⟨e, rfl, he⟩ := List.map_eq_singleton_iff.mp hrest
    have hdecls : ∀ d ∈ p.decls, Stands Decl.Phrase Decl.placeless d.print d :=
      fun d hd => Decl.print_stands (List.all_eq_true.mp hp d hd)
    obtain ⟨ds, hphrase, hsame⟩ := flatMap_stands hdecls ts hts
    have hread : Parse.program (ts ++ [e]) = .ok ⟨ds⟩ :=
      Parse.program_of_phrase hphrase (congrArg Lexeme.kind he)
    exact ⟨⟨ds⟩, hread, congrArg Program.mk hsame⟩
  · intro ts e q hts he hread hsame
    have hphrase := (Parse.program_eq_ok_iff (fun t ht => (hts t ht).2) he).mp hread
    have hlength := Series.print_length Decl.Phrase.print_length hphrase fun t ht => (hts t ht).1
    rw [← p.print_placeless, ← hsame, q.print_placeless, Program.print, List.length_append,
      List.length_append]
    exact Nat.add_le_add_right hlength 1

/-- A function whose tree needs parentheses of all kinds:

        int mix(int a, int *p) {
          int t[3];
          t[a - (a - 1)] = -(a + 1) * *p;
          if (!(a < 1 || a == 1 && a > 1)) { return (*p)[a]; } else { mix(a - 1 - 1, &a); }
          return t[1];
        } -/
def mixture : Program :=
  let a : Expr := .var {} "a"
  let one : Expr := .int {} 1
  let minus : Expr → Expr → Expr := .binary {} (.arith .sub)
  ⟨[.function ⟨{}, "mix", .int⟩
    [.parameter {} "a" .int, .parameter {} "p" { Ty.int with pointers := 1 }]
    (.mk {} [.variable {} "t" { Ty.int with extent := some 3 }]
      [.assign {} (.index {} (.var {} "t") (minus a (minus a one)))
          (.binary {} (.arith .mul) (.unary {} .neg (.binary {} (.arith .add) a one))
            (.unary {} .deref (.var {} "p"))),
       .ifElse {} (.unary {} .not (.binary {} .or (.binary {} (.rel .lt) a one)
            (.binary {} .and (.binary {} (.rel .eq) a one) (.binary {} (.rel .gt) a one))))
          (.mk {} [] [.ret {} (some (.index {} (.unary {} .deref (.var {} "p")) a))])
          (.mk {} [] [.call {} (.call {} "mix" [minus (minus a one) one, .unary {} .address a])]),
       .ret {} (some (.index {} (.var {} "t") one))])]⟩

set_option maxRecDepth 2000 in
theorem parse_print_mixture : mixture.writable = true ∧
    ∃ q, Parse.program (mixture.print.mapIdx fun i l => ⟨l.kind, l.text, ⟨1, i⟩⟩) = .ok q ∧
      q.placeless = mixture.placeless :=
  ⟨by decide +kernel, (parse_print (by decide +kernel)).1 _ (by decide +kernel)⟩

end CMinusMinus
