/-
  File:      CMinusMinus/Proofs/DiagnosticPlaces.lean
  Subject:   Where diagnostics point.

  What the checker complains about is a tree, and the complaint has the position of the tree. A tree
  that was read points to one of its tokens (Spans.lean), a token has the position of its first
  character, and so does what lexing complains about. So all that a report shows points into the
  source: to a token, at the end of the source if it is the end of input, or to the first character
  of a text that is no token or a number that is too large.

  * `Journal.About` -- diagnostics with the positions of trees;
  * `Check.program_about` -- those of the checker;
  * `Token.FoundIn`, `LexicalIssue.FoundIn` -- where lexing found what it tells of;
  * `positions_point_at_tokens` -- **every tree and every diagnostic points to the right place.**
-/
import CMinusMinus.Proofs.FailureReports
import CMinusMinus.Proofs.Spans

namespace CMinusMinus

/-! ## 1. What the checker complains about -/

namespace Journal

variable {trees trees' : List Tree} {i j : Journal}

/-- Each diagnostic has the position of one of the trees. -/
def About (trees : List Tree) (j : Journal) : Prop :=
  ∀ d ∈ j.diagnostics, ∃ tree ∈ trees, d.pos = tree.pos

@[simp] theorem about_append : (i ++ j).About trees ↔ i.About trees ∧ j.About trees := by
  simp only [About, diagnostics_append, List.forall_mem_append]

theorem about_nil (trees : List Tree) : About trees [] := fun _ h => absurd h List.not_mem_nil

theorem about_trace (trees : List Tree) (t : Trace) : About trees [.trace t] :=
  fun _ h => absurd h List.not_mem_nil

theorem about_fault (trees : List Tree) (f : Fault) : About trees [.fault f] :=
  fun _ h => absurd h List.not_mem_nil

theorem About.mono (h : j.About trees) (hsub : trees ⊆ trees') : j.About trees' := by
  intro d hd
  obtain ⟨tree, htree, hpos⟩ := h d hd
  exact ⟨tree, hsub htree, hpos⟩

/-- A complaint is about the tree whose position it names. -/
theorem about_complain {tree : Tree} (h : tree ∈ trees) (d : Defect) :
    (complain tree.pos d).About trees :=
  fun _ hfound => ⟨tree, h, congrArg Diagnostic.pos (List.mem_singleton.mp hfound)⟩

theorem about_complainIf {tree : Tree} (h : tree ∈ trees) (c : Bool) (d : Defect) :
    (complainIf c tree.pos d).About trees := by
  cases c with
  | false => exact about_nil trees
  | true => exact about_complain h d

theorem about_report {tree : Tree} (h : tree ∈ trees) (d : Defect) :
    (report tree.pos d).About trees := about_complain h d

end Journal

/-- An expression is the first tree within itself. -/
theorem Expr.mem_trees (e : Expr) : .expr e ∈ e.trees := by
  cases e <;> exact List.mem_cons_self

theorem Stmt.mem_trees (st : Stmt) : .stmt st ∈ st.trees := by
  cases st with
  | ret _ value => cases value <;> exact List.mem_cons_self
  | _ => exact List.mem_cons_self

theorem Decl.mem_trees (d : Decl) : .decl d ∈ d.trees := by
  cases d <;> exact List.mem_cons_self

namespace Check

open Journal

section Operators

variable {trees : List Tree} {tree : Tree} (h : tree ∈ trees)

include h

theorem element_about {array index : Verdict} (ha : array.journal.About trees)
    (hi : index.journal.About trees) : (element tree.pos array index).journal.About trees :=
  about_append.mpr ⟨about_append.mpr ⟨ha, hi⟩, about_complainIf h _ _⟩

theorem call_about (Γ : Scope) (name : String) {args : Verdicts}
    (hargs : args.journal.About trees) : (call Γ tree.pos name args).journal.About trees := by
  unfold call
  split
  · exact about_append.mpr ⟨hargs, about_complainIf h _ _⟩
  · split
    · exact hargs
    · split
      · exact hargs
      · exact about_append.mpr ⟨hargs, about_report h _⟩

theorem unary_about (op : UnaryOp) (isVar : Bool) {operand : Verdict}
    (ho : operand.journal.About trees) :
    (unary tree.pos op isVar operand).journal.About trees := by
  cases op with
  | other text => exact about_append.mpr ⟨ho, about_fault _ _⟩
  | _ => exact about_append.mpr ⟨ho, about_complainIf h _ _⟩

theorem binary_about (op : BinaryOp) {left right : Verdict} (hl : left.journal.About trees)
    (hr : right.journal.About trees) :
    (binary tree.pos op left right).journal.About trees := by
  unfold binary
  dsimp only
  split
  · exact about_append.mpr ⟨about_append.mpr ⟨hl, hr⟩, about_fault _ _⟩
  · exact about_append.mpr ⟨about_append.mpr ⟨hl, hr⟩, about_complainIf h _ _⟩

end Operators

mutual

/-- **What is found in an expression is about the expressions within it.** -/
theorem typeOf_about (Γ : Scope) : ∀ e : Expr, (typeOf Γ e).journal.About e.trees
  | .int _ _ | .str _ _ => about_nil _
  | .var pos name => by
      rw [typeOf, varUse]
      split
      · exact about_nil _
      · exact about_report (Expr.mem_trees (.var pos name)) _
  | .index pos array i => by
      have ha : (typeOf Γ array).journal.About (Expr.index pos array i).trees :=
        (typeOf_about Γ array).mono fun _ h => by simp [Expr.trees, h]
      have hi : (typeOf Γ i).journal.About (Expr.index pos array i).trees :=
        (typeOf_about Γ i).mono fun _ h => by simp [Expr.trees, h]
      exact element_about (Expr.mem_trees (.index pos array i)) ha hi
  | .call pos name args => by
      have hargs : (typesOf Γ args).journal.About (Expr.call pos name args).trees :=
        (typesOf_about Γ args).mono fun _ h => by simp [Expr.trees, h]
      exact call_about (Expr.mem_trees (.call pos name args)) Γ name hargs
  | .unary pos op e => by
      have he : (typeOf Γ e).journal.About (Expr.unary pos op e).trees :=
        (typeOf_about Γ e).mono fun _ h => by simp [Expr.trees, h]
      exact unary_about (Expr.mem_trees (.unary pos op e)) op _ he
  | .binary pos op l r => by
      have hl : (typeOf Γ l).journal.About (Expr.binary pos op l r).trees :=
        (typeOf_about Γ l).mono fun _ h => by simp [Expr.trees, h]
      have hr : (typeOf Γ r).journal.About (Expr.binary pos op l r).trees :=
        (typeOf_about Γ r).mono fun _ h => by simp [Expr.trees, h]
      exact binary_about (Expr.mem_trees (.binary pos op l r)) op hl hr
  | .nameless kind args => about_append.mpr
      ⟨(typesOf_about Γ args).mono (fun _ h => by simp [Expr.trees, h]), about_fault _ _⟩
  | .misplaced _ => about_fault _ _

theorem typesOf_about (Γ : Scope) : ∀ es : List Expr,
    (typesOf Γ es).journal.About (Expr.allTrees es)
  | [] => about_nil _
  | e :: es => about_append.mpr
      ⟨(typeOf_about Γ e).mono (List.subset_append_left _ _),
        (typesOf_about Γ es).mono (List.subset_append_right _ _)⟩

end

section Declarations

variable {trees : List Tree} {tree : Tree} (h : tree ∈ trees) (Γ : Scope)

include h

theorem declare_about (name : String) (entry : Entry) :
    (declare Γ tree.pos name entry).2.About trees := by
  unfold declare
  split
  · exact about_trace _ _
  · exact about_report h _

theorem variableDecl_about (name : String) (ty : Ty) :
    (variableDecl Γ tree.pos name ty).2.About trees := by
  refine about_append.mpr ⟨?_, declare_about h Γ name _⟩
  split
  · exact about_report h _
  · exact about_nil _

theorem parameterDecl_about (name : String) (ty : Ty) :
    (parameterDecl Γ tree.pos name ty).2.About trees :=
  about_append.mpr ⟨about_complainIf h _ _, declare_about h Γ name _⟩

end Declarations

theorem functionDecl_about {trees : List Tree} {d : Decl} (h : .decl d ∈ trees) (Γ : Scope)
    {head : FnHead} (hhead : d.pos = head.pos) (params : List Decl) (forward : Bool) :
    (functionDecl Γ head params forward).2.About trees := by
  unfold functionDecl
  split
  · rw [← hhead]
    exact declare_about h Γ head.name _
  · exact about_fault _ _

section Clauses

variable (Γ : Scope)

theorem condition_about (e : Expr) : (condition Γ e).About e.trees :=
  about_append.mpr ⟨typeOf_about Γ e, about_complainIf e.mem_trees _ _⟩

theorem assignment_about (target value : Expr) :
    (assignment Γ target value).About (target.trees ++ value.trees) := by
  have hleft := (typeOf_about Γ target).mono (List.subset_append_left _ value.trees)
  have hright := (typeOf_about Γ value).mono (List.subset_append_right target.trees _)
  exact about_append.mpr ⟨about_append.mpr ⟨hleft, hright⟩,
    about_complainIf (List.mem_append_left _ target.mem_trees) _ _⟩

theorem returned_about (ret : Ty) (pos : Position) (value : Option Expr) :
    (returned ret Γ pos value).About (Stmt.ret pos value).trees := by
  cases value with
  | none => exact about_complainIf (Stmt.mem_trees (.ret pos none)) _ _
  | some e =>
    exact about_append.mpr ⟨(typeOf_about Γ e).mono (List.subset_cons_self _ _),
      about_complainIf (Stmt.mem_trees (.ret pos (some e))) _ _⟩

end Clauses

mutual

theorem decl_about (Γ : Scope) : ∀ d : Decl, (decl Γ d).2.About d.trees
  | .variable pos name ty =>
      variableDecl_about (Decl.mem_trees (.variable pos name ty)) Γ name ty
  | .parameter pos name ty =>
      parameterDecl_about (Decl.mem_trees (.parameter pos name ty)) Γ name ty
  | .prototype head params => about_append.mpr
      ⟨(decls_about {} params).mono (List.subset_cons_self _ _),
        functionDecl_about (Decl.mem_trees (.prototype head params)) Γ rfl params true⟩
  | .function head params body => by
      refine about_append.mpr ⟨about_append.mpr ⟨?_, ?_⟩, ?_⟩
      · exact (decls_about _ params).mono fun _ h => by simp [Decl.trees, h]
      · exact functionDecl_about (Decl.mem_trees (.function head params body)) Γ rfl params false
      · exact (block_about head.ret _ body).mono fun _ h => by simp [Decl.trees, h]
  | .misplaced _ => about_fault _ _

theorem decls_about (Γ : Scope) : ∀ ds : List Decl, (decls Γ ds).2.About (Decl.allTrees ds)
  | [] => about_nil _
  | d :: ds => about_append.mpr
      ⟨(decl_about Γ d).mono (List.subset_append_left _ _),
        (decls_about _ ds).mono (List.subset_append_right _ _)⟩

/-- **What is found in a statement is about the trees within it.** -/
theorem stmt_about (ret : Ty) (Γ : Scope) : ∀ st : Stmt, (stmt ret Γ st).About st.trees
  | .assign _ target value => (assignment_about Γ target value).mono (List.subset_cons_self _ _)
  | .ifThen pos cond body => about_append.mpr
      ⟨(condition_about Γ cond).mono (fun _ h => by simp [Stmt.trees, h]),
        (block_about ret _ body).mono (fun _ h => by simp [Stmt.trees, h])⟩
  | .ifElse _ cond yes no => by
      refine about_append.mpr ⟨about_append.mpr ⟨?_, ?_⟩, ?_⟩
      · exact (condition_about Γ cond).mono fun _ h => by simp [Stmt.trees, h]
      · exact (block_about ret _ yes).mono fun _ h => by simp [Stmt.trees, h]
      · exact (block_about ret _ no).mono fun _ h => by simp [Stmt.trees, h]
  | .whileLoop _ cond body => about_append.mpr
      ⟨(condition_about Γ cond).mono (fun _ h => by simp [Stmt.trees, h]),
        (block_about ret _ body).mono (fun _ h => by simp [Stmt.trees, h])⟩
  | .forLoop _ init cond step body => by
      refine about_append.mpr ⟨about_append.mpr ⟨about_append.mpr ⟨?_, ?_⟩, ?_⟩, ?_⟩
      · exact (stmt_about ret Γ init).mono fun _ h => by simp [Stmt.trees, h]
      · exact (condition_about Γ cond).mono fun _ h => by simp [Stmt.trees, h]
      · exact (stmt_about ret Γ step).mono fun _ h => by simp [Stmt.trees, h]
      · exact (block_about ret _ body).mono fun _ h => by simp [Stmt.trees, h]
  | .call _ e => (typeOf_about Γ e).mono (List.subset_cons_self _ _)
  | .ret pos value => returned_about Γ ret pos value
  | .misplaced _ | .missing _ _ => about_fault _ _

theorem block_about (ret : Ty) (Γ : Scope) : ∀ b : Block, (block ret Γ b).About b.trees
  | .mk _ ds sts => about_append.mpr
      ⟨(decls_about Γ ds).mono (fun _ h => by simp [Block.trees, h]),
        (stmts_about ret _ sts).mono (fun _ h => by simp [Block.trees, h])⟩

theorem stmts_about (ret : Ty) (Γ : Scope) : ∀ sts : List Stmt,
    (stmts ret Γ sts).About (Stmt.allTrees sts)
  | [] => about_nil _
  | st :: sts => about_append.mpr
      ⟨(stmt_about ret Γ st).mono (List.subset_append_left _ _),
        (stmts_about ret Γ sts).mono (List.subset_append_right _ _)⟩

end

/-- **What is found in a program is about the trees within it.** -/
theorem program_about (p : Program) : (program p).About p.trees :=
  about_append.mpr ⟨decls_about {} p.decls, about_trace _ _⟩

end Check

/-! ## 2. What lexing found -/

/-- The token was found in the source: where its text begins, or at the end of the source if it is
    the end of input. -/
inductive Token.FoundIn : List Char → Token → Prop where
  | form {front text back : List Char} {kind : TokenKind} (h : TokenForm kind text back) :
      Token.FoundIn (front ++ (text ++ back)) ⟨kind, String.ofList text, .behind front⟩
  | largeNumber {front text back : List Char} (h : LargeNumber text back) :
      Token.FoundIn (front ++ (text ++ back)) ⟨.number, "2147483647", .behind front⟩
  | eof {source : List Char} : Token.FoundIn source ⟨.eof, "", .behind source⟩

/-- The issue was found in the source: where the text begins that is no token or a number that is
    too large. -/
inductive LexicalIssue.FoundIn : List Char → LexicalIssue → Prop where
  | rejected {front text back : List Char} {problem : LexicalProblem}
      (h : Rejected problem text back) :
      LexicalIssue.FoundIn (front ++ (text ++ back)) ⟨problem, .behind front⟩
  | largeNumber {front text back : List Char} (h : LargeNumber text back) :
      LexicalIssue.FoundIn (front ++ (text ++ back)) ⟨.integerTooLarge, .behind front⟩

/-- Tokens and issues that were all found in a source. -/
structure AllFound (source : List Char) (tokens : List Token)
    (errors warnings : List LexicalIssue) : Prop where
  tokens : ∀ t ∈ tokens, t.FoundIn source
  errors : ∀ i ∈ errors, i.FoundIn source
  warnings : ∀ i ∈ warnings, i.FoundIn source

/-- What is told of pieces was found where they stand. -/
theorem Lexes.allFound {rest before : List Char} {texts : List (List Char)} {tokens : List Token}
    {errors warnings : List LexicalIssue} (h : Lexes rest before texts tokens errors warnings) :
    AllFound (before ++ (texts.flatten ++ rest)) tokens errors warnings := by
  have hpast : ∀ (before text : List Char) (texts : List (List Char)),
      before ++ ((text :: texts).flatten ++ rest) =
        before ++ text ++ (texts.flatten ++ rest) := by
    intro before text texts
    rw [List.flatten_cons, List.append_assoc, List.append_assoc]
  induction h with
  | nil => exact ⟨by simp, by simp, by simp⟩
  | blanks _ _ ih => exact hpast _ _ _ ▸ ih
  | comment _ _ ih => exact hpast _ _ _ ▸ ih
  | token hform _ ih =>
    rw [hpast]
    refine { ih with tokens := List.forall_mem_cons.mpr ⟨?_, ih.tokens⟩ }
    rw [List.append_assoc]
    exact .form hform
  | largeNumber hlarge _ ih =>
    rw [hpast]
    refine { ih with
      tokens := List.forall_mem_cons.mpr ⟨?_, ih.tokens⟩
      warnings := List.forall_mem_cons.mpr ⟨?_, ih.warnings⟩ }
    · rw [List.append_assoc]
      exact .largeNumber hlarge
    · rw [List.append_assoc]
      exact .largeNumber hlarge
  | rejected hrejected _ ih =>
    rw [hpast]
    refine { ih with errors := List.forall_mem_cons.mpr ⟨?_, ih.errors⟩ }
    rw [List.append_assoc]
    exact .rejected hrejected

/-- **All that a scan tells of was found in the source.** -/
theorem scan_allFound {source : List Char} {s : Scan} (h : scan source = .ok s) :
    AllFound source s.tokens s.errors s.warnings := by
  obtain ⟨texts, tokens, hsource, hlexes, htokens⟩ := scan_eq_ok_iff.mp h
  have hfound := hlexes.allFound
  rw [List.append_nil, List.nil_append, ← hsource] at hfound
  refine { hfound with tokens := ?_ }
  rw [htokens]
  exact List.forall_mem_append.mpr ⟨hfound.tokens, List.forall_mem_singleton.mpr .eof⟩

/-- A diagnostic of lexing has the position of what was found. -/
theorem AllFound.diagnostic {source : List Char} {s : Scan}
    (h : AllFound source s.tokens s.errors s.warnings) :
    ∀ d ∈ s.diagnostics, ∃ i, LexicalIssue.FoundIn source i ∧ d.pos = i.pos ∧
      d.message = i.problem.message := by
  intro d hd
  rcases List.mem_append.mp hd with hd | hd
  · obtain ⟨i, hi, rfl⟩ := List.mem_map.mp hd
    exact ⟨i, h.warnings i hi, rfl, rfl⟩
  · obtain ⟨i, hi, rfl⟩ := List.mem_map.mp hd
    exact ⟨i, h.errors i hi, rfl, rfl⟩

/-! ## 3. Reports -/

/-- A tree that points has the position of a token of its span. -/
theorem Site.Points.token {site : Site} (h : site.Points) :
    ∃ t ∈ site.span, site.tree.pos = t.pos := by
  unfold Site.Points at h
  split at h
  · next e hexpr =>
    obtain ⟨t, hfind, hstarts⟩ := h
    rw [hexpr]
    exact ⟨t, List.mem_of_find?_eq_some hfind, hstarts.pos_eq⟩
  · obtain ⟨t, hhead, hpos⟩ := h
    exact ⟨t, List.mem_of_mem_head? hhead, hpos⟩

/-- The trees of a program that was read have the positions of tokens. -/
theorem Program.token_of_tree {tokens : List Token} {p : Program}
    (hended : ∃ e, tokens.getLast? = some e ∧ e.kind = .eof) (h : Parse.program tokens = .ok p)
    {tree : Tree} (htree : tree ∈ p.trees) : ∃ t ∈ tokens, tree.pos = t.pos := by
  obtain ⟨ss, -, hsited⟩ := (Parse.phrase_of_program hended h).sited
  rw [← hsited.trees_eq] at htree
  obtain ⟨site, hsite, rfl⟩ := List.mem_map.mp htree
  obtain ⟨t, ht, hpos⟩ := (hsited.points site hsite).token
  exact ⟨t, (List.takeWhile_sublist _).subset ((hsited.inside site hsite).subset ht), hpos⟩

/-- The parser complains about a token. -/
theorem Complete.mem_of_unexpected {tokens : List Token} (h : Complete tokens)
    {problem : SyntaxProblem} {t : Token}
    (herror : Parse.program tokens = .error (.unexpected problem (some t))) : t ∈ tokens := by
  have houtcome := Parse.declarations_outcome _ h.stream
  unfold Parse.program at herror
  cases hread : Parse.declarations (.ofTokens tokens) with
  | ok p =>
    rw [hread] at herror
    cases herror
  | error f =>
    rw [hread] at herror houtcome
    obtain ⟨_, u, rfl, -, hu⟩ := h.fault houtcome
    cases herror
    exact hu

/-- Behind the diagnostics of lexing, those of a course have the positions of tokens. -/
theorem Course.places {source : List Char} {s : Scan} (h : scan source = .ok s)
    {items : List Diagnostic} {closing : List String} {ending : Bool → Ending}
    (hcourse : Course s items closing ending) :
    ∃ others, items = s.diagnostics ++ others ∧ ∀ d ∈ others, ∃ t ∈ s.tokens, d.pos = t.pos := by
  have hcomplete := scan_complete h
  have hchecked : ∀ {p : Program}, Parse.program s.tokens = .ok p →
      ∀ d ∈ (Check.program p).diagnostics, ∃ t ∈ s.tokens, d.pos = t.pos := by
    intro p hparse d hd
    obtain ⟨tree, htree, hpos⟩ := Check.program_about p d hd
    rw [hpos]
    exact Program.token_of_tree hcomplete.ended hparse htree
  cases hcourse with
  | lexical _ => exact ⟨[], (List.append_nil _).symm, by simp⟩
  | syntactic _ hparse =>
    exact ⟨_, rfl, List.forall_mem_singleton.mpr ⟨_, hcomplete.mem_of_unexpected hparse, rfl⟩⟩
  | semantic _ hparse _ _ => exact ⟨_, rfl, hchecked hparse⟩
  | accepted _ hparse _ _ => exact ⟨_, rfl, hchecked hparse⟩

/-- **Every tree and every diagnostic points to the right place.** In every program that is read
    from a list with the end of input at its end, each tree has a span among the tokens, and its
    position is that of the first token of the span, for an expression of the first one that is no
    opening parenthesis. So what a report shows behind the diagnostics of lexing has the positions
    of tokens of the source, and those of lexing have the position of the text that was found. -/
theorem positions_point_at_tokens :
    (∀ (tokens : List Token) (p : Program), (∃ e, tokens.getLast? = some e ∧ e.kind = .eof) →
      Parse.program tokens = .ok p →
      ∃ sites, p.Spans (tokens.takeWhile fun t => decide (t.kind ≠ .eof)) sites ∧
        sites.map Site.tree = p.trees ∧
        ∀ site ∈ sites, site.span <:+: tokens ∧ site.Points) ∧
    ∀ (path : String) (checkOnly : Bool) (source : List Char) (report : Report),
      (compile path checkOnly source).report = .ok report →
      ∃ s others, scan source = .ok s ∧ report.diagnostics = some (s.diagnostics ++ others) ∧
        (∀ d ∈ s.diagnostics, ∃ i, LexicalIssue.FoundIn source i ∧ d.pos = i.pos ∧
          d.message = i.problem.message) ∧
        ∀ d ∈ others, ∃ t ∈ s.tokens, d.pos = t.pos ∧ t.FoundIn source := by
  constructor
  · intro tokens p hended hread
    obtain ⟨sites, hspans, hsited⟩ := (Parse.phrase_of_program hended hread).sited
    refine ⟨sites, hspans, hsited.trees_eq, fun site hsite => ⟨?_, hsited.points site hsite⟩⟩
    exact (hsited.inside site hsite).trans (List.takeWhile_prefix _).isInfix
  · intro path checkOnly source report hreport
    obtain ⟨s, items, closing, ending, hscan, hcourse, htells⟩ :=
      compile_course_of_report hreport
    obtain ⟨others, rfl, hothers⟩ := hcourse.places hscan
    have hfound := scan_allFound hscan
    refine ⟨s, others, hscan, ?_, hfound.diagnostic, fun d hd => ?_⟩
    · rw [Compilation.report_diagnostics hreport, htells.diagnostics]
    · obtain ⟨t, ht, hpos⟩ := hothers d hd
      exact ⟨t, ht, hpos, hfound.tokens t ht⟩

/-- A function with two mistakes: the first one is told of the array, behind its parenthesis. -/
def twoMistakes : String := "int f(int x) \x7b return -(x)[1 < 2] + y; \x7d"

theorem positions_point_at_tokens_twoMistakes :
    ∃ s p, scan twoMistakes.toList = .ok s ∧ Parse.program s.tokens = .ok p ∧
      (Check.program p).diagnostics.map Diagnostic.pos = [⟨1, 25⟩, ⟨1, 37⟩] ∧
      (∃ sites, p.Spans (s.tokens.takeWhile fun t => decide (t.kind ≠ .eof)) sites ∧
        sites.map Site.tree = p.trees ∧
        ∀ site ∈ sites, site.span <:+: s.tokens ∧ site.Points) ∧
      ∃ report others, (compile inputPath true twoMistakes.toList).report = .ok report ∧
        report.diagnostics = some (s.diagnostics ++ others) ∧
        ∀ d ∈ others, ∃ t ∈ s.tokens, d.pos = t.pos ∧ t.FoundIn twoMistakes.toList := by
  have hsource : ∃ p, Program.ofSource? twoMistakes.toList = some p ∧
      (Check.program p).diagnostics.map Diagnostic.pos = [⟨1, 25⟩, ⟨1, 37⟩] := by
    set_option maxRecDepth 2000 in
    exact Program.exists_of_text rfl (by decide +kernel)
  obtain ⟨p, hp, hpositions⟩ := hsource
  obtain ⟨s, hscan, hread⟩ := Program.exists_scan_of_source hp
  obtain ⟨report, -, hreport, -, -⟩ : ∃ r items,
      (compile inputPath true twoMistakes.toList).report = .ok r ∧ r.diagnostics = some items ∧
        s.diagnostics <+: items := compile_of_scan_ok hscan
  obtain ⟨hsites, hreports⟩ := positions_point_at_tokens
  obtain ⟨s', others, hscan', hdiagnostics, -, hothers⟩ := hreports _ _ _ _ hreport
  obtain rfl : s = s' := Except.ok.inj (hscan.symm.trans hscan')
  exact ⟨s, p, hscan, hread, hpositions, hsites _ _ (scan_complete hscan).ended hread, report,
    others, hreport, hdiagnostics, hothers⟩

end CMinusMinus
