/-
  File:      CMinusMinus/Proofs/IsolatedBodies.lean
  Subject:   What the body of a function cannot change.

  A program is checked declaration by declaration, and a function's formals and name come before
  its body. So the diagnostics of a program are those of its declarations one after the other, and
  the body of a function has a part in its own declaration's, after those of the formals and the
  name:

  * `Program.findings` -- the diagnostics of each declaration at the top;
  * `Program.findings_around` -- those of a program with one function picked out;
  * `Forest.Stays` -- older scopes are the same, also for what is looked up in them;
  * **`bodies_isolated`** -- another body leaves all findings but its own as they are, and if scopes
    are shared and changed in place, no scope older than its own is touched.
-/
import CMinusMinus.Proofs.Arrivals
import CMinusMinus.Proofs.SharedScopes
import CMinusMinus.Proofs.SingleDefect

namespace CMinusMinus

/-! ## 1. Findings declaration by declaration -/

namespace Check

/-- What is found of each declaration. -/
def each (scope : Scope) : List Decl → List Journal
  | [] => []
  | d :: ds => (decl scope d).2 :: each (decl scope d).1 ds

theorem length_each (Γ : Scope) (ds : List Decl) : (each Γ ds).length = ds.length := by
  induction ds generalizing Γ with
  | nil => rfl
  | cons d ds ih => exact congrArg (· + 1) (ih (decl Γ d).1)

theorem flatten_each (Γ : Scope) (ds : List Decl) : (each Γ ds).flatten = (decls Γ ds).2 := by
  induction ds generalizing Γ with
  | nil => rw [each, decls, List.flatten_nil]
  | cons d ds ih => rw [each, decls, List.flatten_cons, ih]

theorem each_append (Γ : Scope) (ds es : List Decl) :
    each Γ (ds ++ es) = each Γ ds ++ each (decls Γ ds).1 es := by
  induction ds generalizing Γ with
  | nil => rw [decls, each, List.nil_append, List.nil_append]
  | cons d ds ih => rw [decls, each, List.cons_append, each, ih, List.cons_append]

/-- What is found of a function before its body: of its formals, then of its name. -/
def heading (scope : Scope) (head : FnHead) (params : List Decl) : Journal :=
  (decls (scope.push []) params).2 ++ (functionDecl scope head params false).2

/-- The scope that the body of a function is checked in. -/
def bodyScope (scope : Scope) (head : FnHead) (params : List Decl) : Scope :=
  (functionDecl scope head params false).1.push (decls (scope.push []) params).1.top

/-- **A function is its heading and its body**, and only the heading has a part in the scope after
    it. -/
theorem decl_function (Γ : Scope) (head : FnHead) (params : List Decl) (body : Block) :
    decl Γ (.function head params body) = ((functionDecl Γ head params false).1,
      heading Γ head params ++ block head.ret (bodyScope Γ head params) body) := by
  rw [decl]
  rfl

end Check

namespace Program

/-- The diagnostics of each declaration at the top of a program. -/
def findings (p : Program) : List (List Diagnostic) :=
  (Check.each {} p.decls).map Journal.diagnostics

theorem flatten_findings (p : Program) : p.findings.flatten = (Check.program p).diagnostics := by
  rw [Check.diagnostics_program, ← Check.flatten_each]
  unfold findings Journal.diagnostics
  rw [List.filterMap_flatten]

/-- A program with a function between other declarations. -/
def around (before : List Decl) (head : FnHead) (params after : List Decl) (body : Block) :
    Program :=
  ⟨before ++ .function head params body :: after⟩

/-- **The body has a part in one place**: after the formals and the name of its own function. -/
theorem findings_around (before : List Decl) (head : FnHead) (params after : List Decl)
    (body : Block) : (around before head params after body).findings =
      findings ⟨before⟩ ++
        ((Check.heading (Check.decls {} before).1 head params).diagnostics ++
          (Check.block head.ret (Check.bodyScope (Check.decls {} before).1 head params)
            body).diagnostics) ::
        (Check.each (Check.functionDecl (Check.decls {} before).1 head params false).1 after).map
          Journal.diagnostics := by
  unfold findings around
  rw [Check.each_append, Check.each, Check.decl_function, List.map_append, List.map_cons,
    Journal.diagnostics_append]

/-- Another proper body makes another proper program. -/
theorem Proper.around {before : List Decl} {head : FnHead} {params after : List Decl}
    {body other : Block} (h : (around before head params after body).Proper) (ho : other.Proper) :
    (Program.around before head params after other).Proper := by
  obtain ⟨hbefore, hown⟩ := List.forall_mem_append.mp h
  obtain ⟨hfunction, hafter⟩ := List.forall_mem_cons.mp hown
  refine List.forall_mem_append.mpr ⟨hbefore, List.forall_mem_cons.mpr ⟨?_, hafter⟩⟩
  cases hfunction with
  | var h => cases h
  | function hhead hparams _ => exact .function hhead hparams ho

end Program

/-! ## 2. Scopes that stay -/

/-- The scopes older than a number are the same trees, and the same is seen from them, so each name
    means what it meant. -/
structure Forest.Stays (old : Nat) (f g : Forest) : Prop where
  ordered : g.Ordered
  trees : ∀ k < old, g.trees[k]? = f.trees[k]?
  scopes : ∀ k < old, g.scope k = f.scope k

theorem Forest.Keeps.stays {kept : Nat → Prop} {f g : Forest} {old : Nat} (h : Keeps kept f g)
    (hf : f.Ordered) (hold : old ≤ f.trees.length) (hkept : ∀ k < old, kept k) :
    Stays old f g where
  ordered := h.ordered hf
  trees k hk := h.tree_eq (hk.trans_le hold) (hkept k hk)
  scopes k hk := h.scope_eq hf k (hk.trans_le hold) fun m hm => hkept m (hm.trans_lt hk)

theorem Forest.ordered_single : Forest.single.Ordered := by
  intro n p hp
  cases n with
  | zero => cases hp
  | succ n => cases hp

namespace InPlace

/-- Formals and name of a function, in place. -/
def heading (n : Nat) (head : FnHead) (params : List Decl) (f : Forest) : Forest × Journal :=
  let made := f.grow (some n)
  let formals := decls made.1 params made.2
  let declared := functionDecl n head params false formals.1
  (declared.1, formals.2 ++ declared.2)

/-- The checker in place, on a program. -/
def program (p : Program) : Journal :=
  let found := (decls 0 p.decls .single).2
  let diagnostics := found.diagnostics
  found ++ [.trace (.checked (Diagnostic.count diagnostics .semanticError)
    (Diagnostic.count diagnostics .semanticWarning))]

/-- **In place, the same is found of a program.** -/
theorem program_checks (p : Program) : program p = Check.program p := by
  have hfound := (decls_checks 0 p.decls Forest.ordered_single (by decide)).journal
  unfold program Check.program
  rw [hfound]
  rfl

section Stays

variable {f : Forest} (hf : f.Ordered) {n : Nat} (hn : n < f.trees.length)

include hf hn

/-- The function's own scope is there before its body is checked. -/
theorem heading_made (head : FnHead) (params : List Decl) :
    (heading n head params f).1.Ordered ∧
      f.trees.length < (heading n head params f).1.trees.length := by
  have hmade := Forest.Keeps.grow_inside hn
  have hformals := decls_keeps f.trees.length params (f.lt_length_grow (some n))
  have hn' := (hn.trans (f.lt_length_grow (some n))).trans_le hformals.length_le
  have hdeclared := functionDecl_keeps hn' head params false
  exact ⟨hdeclared.ordered (hformals.ordered (hmade.ordered hf)),
    ((f.lt_length_grow (some n)).trans_le hformals.length_le).trans_le hdeclared.length_le⟩

/-- **A body leaves older scopes as the heading of its function left them.** -/
theorem body_stays (head : FnHead) (params : List Decl) (body : Block) :
    Forest.Stays f.trees.length (heading n head params f).1
      (decl n (.function head params body) f).1 := by
  obtain ⟨hordered, hlt⟩ := heading_made hf hn head params
  exact (block_keeps head.ret f.trees.length body hlt).stays hordered hlt.le fun _ hk => hk.ne

theorem block_stays (ret : Ty) (b : Block) : Forest.Stays n f (block ret n b f).1 :=
  (block_keeps ret n b hn).stays hf hn.le fun _ hk => hk.ne

theorem within_stays (ret : Ty) (b : Block) :
    Forest.Stays f.trees.length f (within n f fun m g => block ret m b g).1 :=
  (within_keeps hn fun m _ hm => block_keeps ret m b hm).stays hf (Nat.le_refl _) fun _ _ => trivial

theorem stmt_stays (ret : Ty) (st : Stmt) :
    Forest.Stays f.trees.length f (stmt ret n st f).1 :=
  (stmt_keeps ret n st hn).stays hf (Nat.le_refl _) fun _ _ => trivial

end Stays

end InPlace

/-! ## 3. Bodies are isolated -/

/-- **The body of a function is isolated.** Put any other body into a function of a program: what is
    reported of every other declaration, and of the function's own formals and name, is the same and
    in the same order. Only the body's own diagnostics come from it, and it is checked in a scope
    that it has no part in. The checker that changes shared scopes in place finds the same, from one
    root on, and there a body, a block inside another one and a statement leave every older scope
    untouched. -/
theorem bodies_isolated {source : List Char} {p : Program} {before params after : List Decl}
    {head : FnHead} {body : Block} (hp : Program.ofSource? source = some p)
    (hbody : p = .around before head params after body) :
    (∃ (earlier later : List (List Diagnostic)) (inside : Scope),
      earlier.length = before.length ∧ later.length = after.length ∧
      ∀ other : Block,
        (Program.around before head params after other).findings =
          earlier ++ ((Check.heading (Check.decls {} before).1 head params).diagnostics ++
            (Check.block head.ret inside other).diagnostics) :: later ∧
        (Check.program (.around before head params after other)).diagnostics =
          (Program.around before head params after other).findings.flatten ∧
        (other.Proper → (Check.program (.around before head params after other)).Faultless)) ∧
    (∀ q : Program, InPlace.program q = Check.program q) ∧ Forest.single.Ordered ∧
    ∀ (f : Forest) (n : Nat), f.Ordered → n < f.trees.length →
      (∀ d : Decl, InPlace.Shows n (InPlace.decl n d f) (Check.decl (f.scope n) d)) ∧
      (∀ other : Block, Forest.Stays f.trees.length (InPlace.heading n head params f).1
        (InPlace.decl n (.function head params other) f).1) ∧
      ∀ ret : Ty,
        (∀ b : Block, (InPlace.block ret n b f).2 = Check.block ret (f.scope n) b ∧
          Forest.Stays n f (InPlace.block ret n b f).1 ∧
          Forest.Stays f.trees.length f (InPlace.within n f fun m g => InPlace.block ret m b g).1) ∧
        ∀ st : Stmt, (InPlace.stmt ret n st f).2 = Check.stmt ret (f.scope n) st ∧
          Forest.Stays f.trees.length f (InPlace.stmt ret n st f).1 := by
  have hproper := Program.proper_ofSource? hp
  subst hbody
  refine ⟨⟨_, _, _, ?_, ?_, fun other => ⟨Program.findings_around before head params after other,
    (Program.flatten_findings _).symm,
    fun ho => Check.program_faultless (hproper.around ho)⟩⟩, InPlace.program_checks,
    Forest.ordered_single, fun f n hf hn => ⟨fun d => InPlace.decl_checks n d hf hn,
      InPlace.body_stays hf hn head params, fun ret => ⟨fun b => ?_, fun st => ?_⟩⟩⟩
  · exact (List.length_map _).trans (Check.length_each _ _)
  · exact (List.length_map _).trans (Check.length_each _ _)
  · exact ⟨InPlace.block_checks ret n b hf hn, InPlace.block_stays hf hn ret b,
      InPlace.within_stays hf hn ret b⟩
  · exact ⟨InPlace.stmt_checks ret n st hf hn, InPlace.stmt_stays hf hn ret st⟩

/-- A function with a mistake in its formals and two in its body, between others with mistakes. -/
def mistaken : String :=
  "int total;
bool total;
void tally(int n, bool n) \x7b int total; while (total) \x7b int k; k = lost; \x7d \x7d
void main() \x7b tally(total, 1 < 2); k = total; \x7d"

/-- Without its body, the function has the mistake in its formals left, and what is reported of the
    others is what it was. -/
theorem bodies_isolated_mistaken :
    ∃ p before head params after body, Program.ofSource? mistaken.toList = some p ∧
      p = .around before head params after body ∧
      (Program.around before head params after (.mk {} [] [])).findings.map List.length =
        [0, 1, 1, 1] ∧
      p.findings.map List.length = [0, 1, 3, 1] ∧
      (Program.around before head params after (.mk {} [] [])).findings.eraseIdx 2 =
        p.findings.eraseIdx 2 := by
  have hread : ∃ p, Program.ofSource? mistaken.toList = some p ∧
      p.findings.map List.length = [0, 1, 3, 1] ∧ p.decls.length = 4 ∧
      ∃ f ∈ p.definitions, f.before.length = 2 ∧
        (Check.heading (Check.decls {} f.before).1 f.head f.params).diagnostics.length = 1 := by
    set_option maxRecDepth 2000 in
    exact Program.exists_of_text rfl (by decide +kernel)
  obtain ⟨p, hp, hcounts, hlength, f, hf, htwo, hone⟩ := hread
  obtain ⟨mid, after, hmid, hdecls⟩ := exists_of_mem_definitionsFrom hf
  rw [List.nil_append] at hmid
  subst hmid
  have hbody : p = .around f.before f.head f.params after f.body := congrArg Program.mk hdecls
  obtain ⟨⟨earlier, later, inside, hearlier, hlater, hfindings⟩, -⟩ := bodies_isolated hp hbody
  have hafter : after.length = 1 := by
    rw [hdecls, List.length_append, List.length_cons] at hlength
    omega
  obtain ⟨x, y, rfl⟩ := List.length_eq_two.mp (hearlier.trans htwo)
  obtain ⟨z, rfl⟩ := List.length_eq_one_iff.mp (hlater.trans hafter)
  have hown := (hfindings f.body).1
  have hother := (hfindings (.mk {} [] [])).1
  have hnothing : (Check.block f.head.ret inside (.mk {} [] [])).diagnostics = [] := rfl
  rw [← hbody] at hown
  rw [hnothing, List.append_nil] at hother
  refine ⟨p, _, _, _, _, _, hp, hbody, ?_, hcounts, ?_⟩
  · rw [hown] at hcounts
    obtain ⟨hx, hy, -, hz⟩ : x.length = 0 ∧ y.length = 1 ∧ _ ∧ z.length = 1 := by
      simpa only [List.cons_append, List.nil_append, List.map_cons, List.map_nil, List.cons.injEq,
        and_true] using hcounts
    rw [hother]
    simp only [List.cons_append, List.nil_append, List.map_cons, List.map_nil, hx, hy, hz, hone]
  · rw [hother, hown]
    rfl

end CMinusMinus
