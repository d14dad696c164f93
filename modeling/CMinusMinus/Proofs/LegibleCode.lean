/-
  File:      CMinusMinus/Proofs/LegibleCode.lean
  Subject:   The text of a program's code determines the code.

  What lowering writes can be read back. The labels of functions are made of a name and names of types,
  none of which holds a comma; a string is a literal of the source, and a literal does not go on over
  the end of a line. All other operands are numbers, addresses and labels. So two programs whose codes
  have the same text have the same code, whatever their strings and names look like.

  * `Lower.modes_legible`, `Lower.block_legible`, `Lower.decls_legible` -- what lowering writes;
  * `Program.token_of_literal`, `Lexes.newline_not_mem` -- literals are tokens, and tokens are on one
    line;
  * `text_determines_code` -- the text determines the code.
-/
import CMinusMinus.Proofs.Arrivals
import CMinusMinus.Proofs.CodeReading
import CMinusMinus.Proofs.DiagnosticPlaces
import CMinusMinus.Proofs.ExactLexing

namespace CMinusMinus

/-! ## 1. Expressions -/

/-- Code that can be read back. -/
def LegibleCode (code : List Instr) : Prop := ∀ i ∈ code, i.Legible

@[simp] theorem legibleCode_nil : LegibleCode [] := fun _ h => absurd h List.not_mem_nil

@[simp] theorem legibleCode_cons {i : Instr} {code : List Instr} :
    LegibleCode (i :: code) ↔ i.Legible ∧ LegibleCode code := List.forall_mem_cons

@[simp] theorem legibleCode_append {c₁ c₂ : List Instr} :
    LegibleCode (c₁ ++ c₂) ↔ LegibleCode c₁ ∧ LegibleCode c₂ := List.forall_mem_append

/-- The functions of a proper frame have parameters of proper types. -/
theorem Frame.Proper.params {frame : Frame} (h : Frame.Proper frame) {name : String}
    {tys : List Ty} {f : Signature} (hf : frame.function? name tys = some f) :
    ∀ ty ∈ f.params, ty.Proper := by
  unfold Frame.function? at hf
  obtain ⟨⟨n, e⟩, hb, he⟩ := List.exists_of_findSome?_eq_some hf
  rcases e with w | g
  · cases he
  · dsimp only at he
    split at he
    · cases he
      exact (h _ hb).2
    · cases he

namespace Lower

/-- Both modes of an expression write legible code. -/
structure Modes.Legible (m : Modes) : Prop where
  value : ∀ s, LegibleCode (m.value s).code
  branch : ∀ t s, LegibleCode (m.branch t s).code

namespace Modes

variable {left right operand : Modes}

theorem legible_ofValue {value : State → Emitted} (h : ∀ s, LegibleCode (value s).code) :
    (ofValue value).Legible where
  value := h
  branch t s := by simp [ofValue, test, h, Instr.Legible]

theorem legible_ofBranch {branch : Targets Target → State → Lowered}
    (h : ∀ t s, LegibleCode (branch t s).code) : (ofBranch branch).Legible where
  value s := by simp [ofBranch, materialise, ends, h, Instr.Legible]
  branch := h

theorem legible_ofVar (Γ : Scope) (name : String) : (ofVar Γ name).Legible := by
  unfold ofVar
  split
  · exact legible_ofValue fun _ => legibleCode_nil
  · exact legible_ofValue fun _ => legibleCode_nil

theorem legible_compute (hl : left.Legible) (hr : right.Legible)
    {instr : Operand → Operand → Operand → Instr} (hinstr : ∀ d l r, (instr d l r).Legible) :
    (compute left right instr).Legible :=
  legible_ofValue fun s => by simp [hl.value, hr.value, hinstr]

theorem legible_compare (hl : left.Legible) (hr : right.Legible) (op : RelOp) :
    (compare op left right).Legible := by
  refine legible_ofBranch fun t s => ?_
  cases op <;> simp [comparison, hl.value, hr.value, Instr.Legible]

theorem legible_conjunction (hl : left.Legible) (hr : right.Legible) :
    (conjunction left right).Legible :=
  legible_ofBranch fun t s => by simp [hl.branch, hr.branch, Instr.Legible]

theorem legible_disjunction (hl : left.Legible) (hr : right.Legible) :
    (disjunction left right).Legible :=
  legible_ofBranch fun t s => by simp [hl.branch, hr.branch, Instr.Legible]

theorem legible_negative (h : operand.Legible) : (negative operand).Legible :=
  legible_ofValue fun s => by simp [h.value, Instr.Legible]

theorem sequence_legible : ∀ {ms : List Modes}, (∀ m ∈ ms, Legible m) → ∀ s,
    LegibleCode (sequence ms s).1
  | [], _, _ => legibleCode_nil
  | m :: _, h, s => by
      obtain ⟨hm, hms⟩ := List.forall_mem_cons.mp h
      exact legibleCode_append.mpr ⟨hm.value s, sequence_legible hms (m.value s).after⟩

theorem legible_systemCall (name : String) {args : List Modes} (h : ∀ m ∈ args, Legible m) :
    (systemCall name args).Legible := by
  refine legible_ofValue fun s => legibleCode_append.mpr ⟨sequence_legible h s, ?_⟩
  split
  · split <;> simp [Instr.Legible]
  · exact legibleCode_nil

theorem handOver_legible : ∀ {ms : List Modes} (place : Nat), (∀ m ∈ ms, Legible m) → ∀ s,
    LegibleCode (handOver place ms s).code
  | [], _, _, _ => legibleCode_nil
  | m :: _, place, h, s => by
      obtain ⟨hm, hms⟩ := List.forall_mem_cons.mp h
      have hothers := handOver_legible (place + 1) hms (m.value s).after
      simp [handOver, hm.value, hothers, Instr.Legible]

theorem legible_functionCall {Γ : Scope} (hΓ : Frame.Proper Γ.globals) {name : String}
    (hname : IsName name) (types : Check.Verdicts) {args : List Modes} (h : ∀ m ∈ args, Legible m) :
    (functionCall Γ name types args).Legible := by
  refine legible_ofValue fun s => ?_
  dsimp only
  split
  · exact legibleCode_nil
  · rename_i f hf
    have hlabel : Unbroken (codeLabel name f.params) := unbroken_codeLabel hname (hΓ.params hf)
    have hargs := handOver_legible 0 h (s.overhear types.journal)
    split
    · exact legibleCode_append.mpr ⟨hargs, legibleCode_cons.mpr ⟨hlabel, legibleCode_nil⟩⟩
    · exact legibleCode_append.mpr ⟨hargs, legibleCode_cons.mpr ⟨hlabel, legibleCode_nil⟩⟩

end Modes

mutual

/-- **The code of a proper expression is legible**, in both modes. -/
theorem modes_legible {Γ : Scope} (hΓ : Frame.Proper Γ.globals) : ∀ e : Expr, e.Proper →
    (modes Γ e).Legible
  | .int _ _, _ | .str _ _, _ => Modes.legible_ofValue fun _ => legibleCode_nil
  | .var _ name, _ => Modes.legible_ofVar Γ name
  | .index _ array i, he =>
      Modes.legible_compute (modes_legible hΓ array he.1) (modes_legible hΓ i he.2)
        fun _ _ _ => trivial
  | .call _ name args, he => by
      have hargs := modesOf_legible hΓ args he.2
      rw [modes, Modes.call]
      split
      · exact Modes.legible_systemCall name hargs
      · exact Modes.legible_functionCall hΓ he.1 _ hargs
  | .unary _ op operand, he => by
      have h := modes_legible hΓ operand he.2
      cases op with
      | neg => exact Modes.legible_negative h
      | not => exact Modes.legible_ofBranch fun t s => h.branch t.swap s
      | address => exact Modes.legible_ofValue h.value
      | deref => exact Modes.legible_ofValue h.value
      | other text => exact Modes.legible_ofValue h.value
  | .binary _ op left right, he => by
      have hl := modes_legible hΓ left he.2.1
      have hr := modes_legible hΓ right he.2.2
      cases op with
      | arith op => exact Modes.legible_compute hl hr fun _ _ _ => trivial
      | rel op => exact Modes.legible_compare hl hr op
      | and => exact Modes.legible_conjunction hl hr
      | or => exact Modes.legible_disjunction hl hr
      | other text => exact Modes.legible_ofValue fun _ => legibleCode_nil
  | .nameless _ _, he => he.elim
  | .misplaced _, he => he.elim

theorem modesOf_legible {Γ : Scope} (hΓ : Frame.Proper Γ.globals) : ∀ es : List Expr,
    Expr.AllProper es → ∀ m ∈ modesOf Γ es, Modes.Legible m
  | [], _ => fun _ h => absurd h List.not_mem_nil
  | e :: es, he => List.forall_mem_cons.mpr ⟨modes_legible hΓ e he.1, modesOf_legible hΓ es he.2⟩

end

/-! ## 2. Statements -/

section Statements

variable {label : String} {Γ : Scope} (hΓ : Frame.Proper Γ.globals)

include hΓ

theorem assignment_legible {target exp : Expr} (htarget : target.Proper) (hexp : exp.Proper)
    (s : State) : LegibleCode (assignment Γ target exp s).code := by
  have hv := (modes_legible hΓ exp hexp).value
  unfold assignment
  split
  · rename_i array i
    have hbase := (modes_legible hΓ array htarget.1).value
    have hi := (modes_legible hΓ i htarget.2).value
    simp [value, hbase, hi, hv, Instr.Legible]
  · have hdest := (modes_legible hΓ target htarget).value
    simp [value, hdest, hv, Instr.Legible]

variable (label) in
/-- A clause of a `for` is an assignment or a call. -/
theorem clause_legible {st : Stmt} (h : st.IsClause) (next : Target) (s : State) :
    LegibleCode (stmt label Γ st next s).code := by
  cases h with
  | assign _ htarget hvalue => exact assignment_legible hΓ htarget hvalue s
  | call hcall he =>
    rw [stmt, effect, if_pos hcall]
    exact (modes_legible hΓ _ he).value s

theorem returned_legible (hlabel : Unbroken label) {exp : Option Expr}
    (hexp : ∀ e, exp = some e → e.Proper) (s : State) :
    LegibleCode (returned label Γ exp s).code := by
  cases exp with
  | none => simpa [returned, Instr.Legible] using hlabel
  | some e =>
    have hv := (modes_legible hΓ e (hexp e rfl)).value s
    simpa [returned, value, hv, Instr.Legible] using hlabel

end Statements

mutual

/-- **The code of a proper statement is legible**, in a function with a label that is. -/
theorem stmt_legible {label : String} (hlabel : Unbroken label) {Γ : Scope}
    (hΓ : Frame.Proper Γ.globals) : ∀ st : Stmt, st.Proper → ∀ next s,
      LegibleCode (stmt label Γ st next s).code
  | .assign _ _ _, hst, next, s => clause_legible label hΓ hst next s
  | .ifThen _ cond body, hst, next, s => by
      have hc := (modes_legible hΓ cond hst.1).branch
      have hb := block_legible hlabel hΓ [] body hst.2
      simp [stmt, branch, hc, hb, Instr.Legible]
  | .ifElse _ cond thenBody elseBody, hst, next, s => by
      have hc := (modes_legible hΓ cond hst.1).branch
      have ha := block_legible hlabel hΓ [] thenBody hst.2.1
      have hb := block_legible hlabel hΓ [] elseBody hst.2.2
      simp [stmt, branch, hc, ha, hb, Instr.Legible]
  | .whileLoop _ cond body, hst, next, s => by
      have hc := (modes_legible hΓ cond hst.1).branch
      have hb := block_legible hlabel hΓ [] body hst.2
      simp [stmt, branch, hc, hb, Instr.Legible]
  | .forLoop _ init cond step body, hst, next, s => by
      have hi := fun s => clause_legible label hΓ hst.1 none s
      have hc := (modes_legible hΓ cond hst.2.1).branch
      have hn := fun s => clause_legible label hΓ hst.2.2.1 none s
      have hb := block_legible hlabel hΓ [] body hst.2.2.2
      simp [stmt, branch, hi, hc, hn, hb, Instr.Legible]
  | .call _ _, hst, next, s => clause_legible label hΓ hst next s
  | .ret _ _, hst, _, s => returned_legible hΓ hlabel hst s
  | .misplaced _, hst, _, _ => hst.elim
  | .missing _ _, hst, _, _ => hst.elim

theorem block_legible {label : String} (hlabel : Unbroken label) {Γ : Scope}
    (hΓ : Frame.Proper Γ.globals) (frame : Frame) : ∀ b : Block, b.Proper → ∀ s,
      LegibleCode (block label Γ frame b s).code
  | .mk _ ds sts, hb, s =>
      stmts_legible (Γ := Γ.push (placeDecls .local frame ds s).1) hlabel hΓ sts hb.2 _

theorem stmts_legible {label : String} (hlabel : Unbroken label) {Γ : Scope}
    (hΓ : Frame.Proper Γ.globals) : ∀ sts : List Stmt, Stmt.AllProper sts → ∀ s,
      LegibleCode (stmts label Γ sts s).code
  | [], _, _ => legibleCode_nil
  | st :: sts, hsts, s => by
      have hfirst := stmt_legible hlabel hΓ st hsts.1 (some s.label) s.afterLabel
      have hothers := stmts_legible hlabel hΓ sts hsts.2
        (stmt label Γ st (some s.label) s.afterLabel).after
      refine legibleCode_append.mpr ⟨legibleCode_append.mpr ⟨hfirst, ?_⟩, hothers⟩
      split <;> simp [Instr.Legible]

end

/-! ## 3. Declarations -/

theorem declare_proper {frame : Frame} (hframe : Frame.Proper frame) (name : String) (entry : Entry)
    (hentry : entry.Proper) (s : State) : Frame.Proper (declare frame name entry s).1 := by
  unfold declare
  split
  · next hadd => exact Frame.proper_add hadd hframe hentry
  · exact hframe

/-- **A declaration writes legible code**, and the globals behind it are proper. -/
theorem decl_legible {globals : Frame} (hglobals : Frame.Proper globals) {d : Decl} (hd : d.Proper)
    (s : State) :
    Frame.Proper (decl globals d s).1 ∧ LegibleCode (decl globals d s).2.code := by
  cases hd with
  | var h =>
    obtain ⟨-, hty⟩ := h
    exact ⟨declare_proper hglobals _ (.variable ⟨_, _⟩) hty _, legibleCode_nil⟩
  | prototype hhead hparams =>
    obtain ⟨tys, htys, hproper⟩ := paramTypes_ok hparams
    rw [decl, htys]
    exact ⟨declare_proper hglobals _ (.function _) ⟨hhead.ret, hproper⟩ _, legibleCode_nil⟩
  | @function head params body hhead hparams hbody =>
    obtain ⟨tys, htys, hproper⟩ := paramTypes_ok hparams
    have hlabel : Unbroken (codeLabel head.name tys) := unbroken_codeLabel hhead.name hproper
    rw [decl, htys]
    have hdeclared := declare_proper hglobals head.name (.function ⟨head.ret, tys, false⟩)
      ⟨hhead.ret, hproper⟩ { s with alloc := s.alloc.resetFunction }
    refine ⟨hdeclared, ?_⟩
    have hblock := block_legible (Γ := { globals := (declare globals head.name
      (.function ⟨head.ret, tys, false⟩) { s with alloc := s.alloc.resetFunction }).1 })
      hlabel hdeclared
    simpa [function, hblock _ body hbody, Instr.Legible] using hlabel

theorem decls_legible : ∀ {ds : List Decl} {globals : Frame}, Frame.Proper globals →
    (∀ d ∈ ds, d.Proper) → ∀ s, LegibleCode (decls globals ds s).code
  | [], _, _, _, _ => legibleCode_nil
  | _ :: _, _, hglobals, hds, s => by
      obtain ⟨hd, hrest⟩ := List.forall_mem_cons.mp hds
      obtain ⟨hnext, hcode⟩ := decl_legible hglobals hd s
      exact legibleCode_append.mpr ⟨hcode, decls_legible hnext hrest _⟩

end Lower

/-! ## 4. Literals -/

theorem StringBody.newline_not_mem {clean : Bool} {body : List Char} (h : StringBody clean body) :
    '\n' ∉ body := by
  induction h with
  | nil => exact List.not_mem_nil
  | plain _ _ hline _ ih => exact List.not_mem_cons_of_ne_of_not_mem hline.symm ih
  | escape hline _ ih =>
    refine List.not_mem_cons_of_ne_of_not_mem (by decide) ?_
    exact List.not_mem_cons_of_ne_of_not_mem hline.symm ih

/-- A string token is on one line. -/
theorem TokenForm.newline_not_mem {text rest : List Char} (h : TokenForm .string text rest) :
    '\n' ∉ text := by
  generalize hkind : TokenKind.string = kind at h
  cases h with
  | string hbody =>
    refine List.not_mem_cons_of_ne_of_not_mem (by decide) ?_
    exact List.not_mem_append hbody.newline_not_mem (by decide)
  | pair hpair => unfold pairedKind? at hpair; split at hpair <;> cases hpair <;> cases hkind
  | first hpair _ => unfold pairedKind? at hpair; split at hpair <;> cases hpair <;> cases hkind
  | single hsingle _ =>
    unfold singleKind? at hsingle
    split at hsingle <;> cases hsingle <;> cases hkind
  | _ => cases hkind

theorem Lexes.newline_not_mem {rest before : List Char} {texts : List (List Char)}
    {tokens : List Token} {errors warnings : List LexicalIssue}
    (h : Lexes rest before texts tokens errors warnings) :
    ∀ t ∈ tokens, t.kind = .string → '\n' ∉ t.text.toList := by
  induction h with
  | nil => exact fun _ ht => absurd ht List.not_mem_nil
  | blanks _ _ ih => exact ih
  | comment _ _ ih => exact ih
  | token hform _ ih =>
    refine List.forall_mem_cons.mpr ⟨fun hkind => ?_, ih⟩
    cases hkind
    rw [String.toList_ofList]
    exact hform.newline_not_mem
  | largeNumber _ _ ih => exact List.forall_mem_cons.mpr ⟨fun hkind => TokenKind.noConfusion hkind, ih⟩
  | rejected _ _ ih => exact ih

/-- The literal that a tree is. -/
def Tree.literal? : Tree → Option String
  | .expr (.str _ text) => some text
  | _ => none

/-- The literals among trees. -/
def literalsAmong (trees : List Tree) : List String := trees.filterMap Tree.literal?

theorem literalsAmong_append (trees trees' : List Tree) :
    literalsAmong (trees ++ trees') = literalsAmong trees ++ literalsAmong trees' :=
  List.filterMap_append

theorem mem_literalsAmong_cons {text : String} {tree : Tree} {trees : List Tree}
    (h : text ∈ literalsAmong trees) : text ∈ literalsAmong (tree :: trees) :=
  ((List.sublist_cons_self tree trees).filterMap _).subset h

mutual

/-- The literals of an expression are among its trees. -/
theorem Expr.literals_subset : ∀ e : Expr, e.literals ⊆ literalsAmong e.trees
  | .str _ _ => List.Subset.refl _
  | .index _ array i => by
      have harray := array.literals_subset
      have hi := i.literals_subset
      grind [Expr.literals, Expr.trees, mem_literalsAmong_cons, literalsAmong_append]
  | .call _ _ args => by
      have hargs := Expr.literalsOf_subset args
      grind [Expr.literals, Expr.trees, mem_literalsAmong_cons]
  | .unary _ _ e => by
      have he := e.literals_subset
      grind [Expr.literals, Expr.trees, mem_literalsAmong_cons]
  | .binary _ _ left right => by
      have hl := left.literals_subset
      have hr := right.literals_subset
      grind [Expr.literals, Expr.trees, mem_literalsAmong_cons, literalsAmong_append]
  | .int _ _ | .var _ _ | .nameless _ _ | .misplaced _ => List.nil_subset _

theorem Expr.literalsOf_subset : ∀ es : List Expr,
    Expr.literalsOf es ⊆ literalsAmong (Expr.allTrees es)
  | [] => List.nil_subset _
  | e :: es => by
      have he := e.literals_subset
      have hes := Expr.literalsOf_subset es
      grind [Expr.literalsOf, Expr.allTrees, literalsAmong_append]

end

mutual

/-- The literals of a statement are among its trees. -/
theorem Stmt.literals_subset : ∀ st : Stmt,
    st.exprs.flatMap Expr.literals ⊆ literalsAmong st.trees
  | .assign _ target value => by
      have htarget := target.literals_subset
      have hvalue := value.literals_subset
      grind [Stmt.exprs, Stmt.trees, mem_literalsAmong_cons, literalsAmong_append]
  | .ifThen _ cond body => by
      have hcond := cond.literals_subset
      have hbody := body.literals_subset
      grind [Stmt.exprs, Stmt.trees, Block.literals, mem_literalsAmong_cons, literalsAmong_append]
  | .ifElse _ cond yes no => by
      have hcond := cond.literals_subset
      have hyes := yes.literals_subset
      have hno := no.literals_subset
      grind [Stmt.exprs, Stmt.trees, Block.literals, mem_literalsAmong_cons, literalsAmong_append]
  | .whileLoop _ cond body => by
      have hcond := cond.literals_subset
      have hbody := body.literals_subset
      grind [Stmt.exprs, Stmt.trees, Block.literals, mem_literalsAmong_cons, literalsAmong_append]
  | .forLoop _ init cond step body => by
      have hinit := init.literals_subset
      have hcond := cond.literals_subset
      have hstep := step.literals_subset
      have hbody := body.literals_subset
      grind [Stmt.exprs, Stmt.trees, Block.literals, mem_literalsAmong_cons, literalsAmong_append]
  | .call _ e => by
      have he := e.literals_subset
      grind [Stmt.exprs, Stmt.trees, mem_literalsAmong_cons]
  | .ret _ none => List.nil_subset _
  | .ret _ (some e) => by
      have he := e.literals_subset
      grind [Stmt.exprs, Stmt.trees, mem_literalsAmong_cons]
  | .misplaced _ | .missing _ _ => List.nil_subset _

theorem Block.literals_subset : ∀ b : Block, b.literals ⊆ literalsAmong b.trees
  | .mk _ ds sts => by
      have hsts := Stmt.literalsOf_subset sts
      grind [Block.literals, Block.exprs, Block.trees, mem_literalsAmong_cons, literalsAmong_append]

theorem Stmt.literalsOf_subset : ∀ sts : List Stmt,
    (Stmt.exprsOf sts).flatMap Expr.literals ⊆ literalsAmong (Stmt.allTrees sts)
  | [] => List.nil_subset _
  | st :: sts => by
      have hst := st.literals_subset
      have hsts := Stmt.literalsOf_subset sts
      grind [Stmt.exprsOf, Stmt.allTrees, literalsAmong_append]

end

theorem Decl.literals_subset (d : Decl) : d.literals ⊆ literalsAmong d.trees := by
  cases d with
  | function head params body =>
    have hbody := body.literals_subset
    grind [Decl.literals, Decl.trees, mem_literalsAmong_cons, literalsAmong_append]
  | _ => exact List.nil_subset _

theorem literalsIn_subset (ds : List Decl) : literalsIn ds ⊆ literalsAmong (Decl.allTrees ds) := by
  induction ds with
  | nil => exact List.nil_subset _
  | cons d ds ih =>
    have hd := d.literals_subset
    grind [literalsIn, Decl.allTrees, literalsAmong_append]

/-- **The literals of a program are tokens that it was read from.** -/
theorem Program.token_of_literal {tokens : List Token} {p : Program}
    (hended : ∃ e, tokens.getLast? = some e ∧ e.kind = .eof) (h : Parse.program tokens = .ok p)
    {text : String} (htext : text ∈ p.literals) : ∃ t ∈ tokens, t.kind = .string ∧ t.text = text := by
  obtain ⟨tree, htree, hliteral⟩ := List.mem_filterMap.mp (literalsIn_subset p.decls htext)
  obtain ⟨ss, -, hsited⟩ := (Parse.phrase_of_program hended h).sited
  have hmem : tree ∈ ss.map Site.tree := hsited.trees_eq ▸ htree
  obtain ⟨⟨_, span⟩, hsite, rfl⟩ := List.mem_map.mp hmem
  have hpoints := hsited.points _ hsite
  unfold Tree.literal? at hliteral
  split at hliteral
  · next pos s heq =>
    cases hliteral
    dsimp only at heq
    subst heq
    obtain ⟨t, hfind, -, hkind, hspelled⟩ := hpoints
    have ht := (hsited.inside _ hsite).subset (List.mem_of_find?_eq_some hfind)
    exact ⟨t, (List.takeWhile_sublist _).subset ht, hkind, hspelled⟩
  · cases hliteral

/-- The literals of a program that was read from a source text are on one line. -/
theorem Program.newline_not_mem_literals {source : List Char} {p : Program}
    (h : Program.ofSource? source = some p) : ∀ text ∈ p.literals, '\n' ∉ text.toList := by
  intro text htext
  obtain ⟨s, hscan, hread⟩ := Program.exists_scan_of_source h
  obtain ⟨texts, tokens, -, hlexes, htokens⟩ := scan_eq_ok_iff.mp hscan
  have hended : ∃ e, s.tokens.getLast? = some e ∧ e.kind = .eof := by
    rw [htokens]
    exact ⟨_, List.getLast?_concat, rfl⟩
  obtain ⟨t, ht, hkind, rfl⟩ := Program.token_of_literal hended hread htext
  rw [htokens] at ht
  rcases List.mem_append.mp ht with ht | ht
  · exact hlexes.newline_not_mem t ht hkind
  · rw [List.mem_singleton.mp ht] at hkind
    cases hkind

/-! ## 5. Programs -/

/-- **The code of a source text is legible.** -/
theorem legible_codeOfSource? {source : List Char} {code : List Instr}
    (h : codeOfSource? source = some code) : LegibleCode code := by
  obtain ⟨p, after, hp, hresult⟩ := exists_of_codeOfSource? h
  have hproper := Program.proper_ofSource? hp
  have hbody := Lower.decls_legible Frame.proper_nil hproper {}
  have hliterals := Program.newline_not_mem_literals hp
  obtain ⟨hcode, -, -⟩ := Lower.result_met hproper hresult
  rw [← Lower.decls_code] at hcode
  rw [hcode]
  refine legibleCode_append.mpr ⟨legibleCode_append.mpr ⟨?_, ?_⟩, hbody⟩
  · exact List.forall_mem_map.mpr hliterals
  · exact legibleCode_cons.mpr ⟨⟨by decide, by decide⟩, legibleCode_nil⟩

/-- **The text of a program's code determines the code.** Each instruction is one line, ended by a line
    feed; the lines are read back from the text; so programs whose codes have the same text have the
    same code. -/
theorem text_determines_code {source source' : List Char} {code code' : List Instr}
    (h : codeOfSource? source = some code) (h' : codeOfSource? source' = some code') :
    (programText code).toList = code.flatMap (fun i => i.line.text.toList ++ ['\n']) ∧
      (∀ i ∈ code, '\n' ∉ i.line.text.toList) ∧
      readCode (programText code) = code.map Instr.line ∧
      (programText code = programText code' ↔ code = code') := by
  have hlegible := legible_codeOfSource? h
  have hread := readCode_programText hlegible
  refine ⟨?_, fun i hi => (hlegible i hi).line.newline, hread, fun htext => ?_, congrArg programText⟩
  · rw [programText, codeText, unlines, String.toList_join, List.map_map, List.map_map,
      List.flatMap_map]
    exact List.flatMap_congr fun i _ => String.toList_append
  · have hread' := readCode_programText (legible_codeOfSource? h')
    have hlines : code.map Instr.line = code'.map Instr.line := by
      rw [← hread, ← hread', htext]
    exact List.map_injective_iff.mpr (fun _ _ => Instr.line_inj.mp) hlines

/-- A string that looks like a label and two operands. -/
def labelLike : String :=
  "void main() \x7b printf(\"~0: a, b\"); \x7d"

/-- The same program in another layout. -/
def labelLikeSpread : String :=
  "# a comment
void main ( ) \x7b
  printf (\"~0: a, b\") ;
\x7d"

/-- The code of both. -/
def labelLikeCode : List Instr :=
  [.string "\"~0: a, b\"", .entry "main" 0, .func "main", .frame 0 0,
    .write (.address ⟨.constant, 0⟩), .endFunc "main"]

theorem codeOfSource?_of_text {text : String} {cs : List Char} {code : List Instr}
    (htext : text = String.ofList cs) (h : codeOfSource? cs = some code) :
    codeOfSource? text.toList = some code := by
  rwa [htext, String.toList_ofList]

theorem text_determines_code_labelLike :
    ∃ code code', codeOfSource? labelLike.toList = some code ∧
      codeOfSource? labelLikeSpread.toList = some code' ∧
      programText code = unlines ["str \"~0: a, b\"", "entry main, 0", "func main", "funci 0, 0",
        "write ?0", "efunc main"] ∧
      readCode (programText code) = code.map Instr.line ∧ programText code = programText code' ∧
      code = code' := by
  have hcode : codeOfSource? labelLike.toList = some labelLikeCode := by
    set_option maxRecDepth 2000 in
    exact codeOfSource?_of_text rfl (by decide +kernel)
  have hcode' : codeOfSource? labelLikeSpread.toList = some labelLikeCode := by
    set_option maxRecDepth 2000 in
    exact codeOfSource?_of_text rfl (by decide +kernel)
  obtain ⟨-, -, hread, hiff⟩ := text_determines_code hcode hcode'
  exact ⟨_, _, hcode, hcode', by decide +kernel, hread, rfl, hiff.mp rfl⟩

end CMinusMinus
