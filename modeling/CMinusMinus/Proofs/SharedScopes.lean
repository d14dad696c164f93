/-
  File:      CMinusMinus/Proofs/SharedScopes.lean
  Subject:   Checking with scopes that are shared and changed in place.

  `Check` hands scopes on as values: what a block declares cannot reach the scope around it, since
  nobody hands it back. A checker may as well keep all scopes in one FOREST, make a scope inside
  another one for each function and each block, declare in place, and ask the forest whenever a name
  is looked up. Then nothing but its own care keeps a block from changing a scope that others see.
  The checker IN PLACE below is that one. It is careful:

  * `Forest.Keeps` -- scopes that were there are still there, all or all but one of them unchanged;
  * `InPlace.stmt_keeps` -- a statement changes no scope that was there, with all blocks in it;
  * `InPlace.decl_keeps`, `InPlace.block_keeps` -- a declaration changes the scope it stands in, and
    a block the one that its declarations go into;
  * `InPlace.decls_checks`, `InPlace.stmt_checks` -- **it finds what `Check` finds.**
-/
import CMinusMinus.Proofs.SymbolTables

namespace CMinusMinus

/-! ## 1. Scopes of a forest -/

/-- There is one way out to the root. -/
theorem Chain.unique {parents : List (Option Nat)} {n root root' : Nat} {path path' : List Nat}
    (h : Chain parents n path root) (h' : Chain parents n path' root') :
    path = path' ∧ root = root' := by
  induction h generalizing path' root' with
  | root h =>
    cases h' with
    | root _ => exact ⟨rfl, rfl⟩
    | inside h' _ =>
      rw [h] at h'
      cases h'
  | inside h _ ih =>
    cases h' with
    | root h' =>
      rw [h] at h'
      cases h'
    | inside h' hp' =>
      rw [h] at h'
      cases h'
      obtain ⟨rfl, rfl⟩ := ih hp'
      exact ⟨rfl, rfl⟩

namespace Forest

variable {f g : Forest} {n p : Nat}

/-- Scopes are inside older ones. -/
def Ordered (f : Forest) : Prop := ∀ n p : Nat, f.parents[n]? = some (some p) → p < n

theorem length_parents (f : Forest) : f.parents.length = f.trees.length := List.length_map _

theorem lt_of_parents {q : Option Nat} (h : f.parents[n]? = some q) : n < f.trees.length := by
  rw [← f.length_parents]
  exact (List.getElem?_eq_some_iff.mp h).1

theorem chain_path (hf : f.Ordered) (hn : n < f.trees.length) :
    ∃ root, Chain f.parents n (f.path n) root :=
  chain_ancestors hf n n (Nat.le_refl n) (f.length_parents.symm ▸ hn)

theorem scope_of_path {front : List Nat} {root : Nat} (h : f.path n = front ++ [root]) :
    f.scope n = ⟨front.map f.frame, f.frame root⟩ := by
  unfold scope Forest.root
  rw [h]
  simp

/-- **The scope of a root** is its frame. -/
theorem scope_root (hf : f.Ordered) (h : f.parents[n]? = some none) :
    f.scope n = ⟨[], f.frame n⟩ := by
  obtain ⟨root, hchain⟩ := chain_path hf (lt_of_parents h)
  have hpath : f.path n = [] ++ [n] := (hchain.unique (.root h)).1
  exact scope_of_path hpath

/-- **The scope of any other number** is its frame inside the scope of its parent. -/
theorem scope_inside (hf : f.Ordered) (h : f.parents[n]? = some (some p)) :
    f.scope n = (f.scope p).push (f.frame n) := by
  obtain ⟨root, hchain⟩ := chain_path hf (lt_of_parents h)
  obtain ⟨root', hchain'⟩ := chain_path hf ((hf n p h).trans (lt_of_parents h))
  obtain ⟨front, hfront⟩ := hchain'.path_eq
  have hpath : f.path n = n :: front ++ [root'] := by
    rw [(hchain.unique (.inside h hchain')).1, hfront]
    rfl
  rw [scope_of_path hpath, scope_of_path hfront]
  rfl

/-- Each number is that of a root or inside an older one. -/
theorem parents_cases (hf : f.Ordered) (hn : n < f.trees.length) :
    f.parents[n]? = some none ∨ ∃ p, p < n ∧ f.parents[n]? = some (some p) := by
  rw [← f.length_parents] at hn
  cases hparent : f.parents[n]? with
  | none => exact absurd hn (List.getElem?_eq_none_iff.mp hparent).not_gt
  | some q =>
    cases q with
    | none => exact .inl rfl
    | some p => exact .inr ⟨p, hf n p hparent, rfl⟩

theorem top_scope (hf : f.Ordered) (hn : n < f.trees.length) : (f.scope n).top = f.frame n := by
  rcases parents_cases hf hn with hroot | ⟨p, -, hinside⟩
  · rw [scope_root hf hroot]
    rfl
  · rw [scope_inside hf hinside]
    rfl

theorem lt_length_grow (f : Forest) (parent : Option Nat) :
    f.trees.length < (f.grow parent).2.trees.length := by
  simp [grow]

theorem parents_made (f : Forest) (parent : Option Nat) :
    (f.grow parent).2.parents[f.trees.length]? = some parent := by
  rw [parents_grow, ← f.length_parents, List.getElem?_concat_length]

/-- A scope that was just made declares nothing. -/
theorem frame_made (f : Forest) (parent : Option Nat) :
    (f.grow parent).2.frame f.trees.length = [] := by
  rw [frame_grow]
  unfold frame
  rw [List.getElem?_eq_none (Nat.le_refl _)]

/-! ## 2. What a forest keeps -/

/-- All scopes of the first forest are in the second one, inside the same scopes, and those that are
    kept declare the same. -/
structure Keeps (kept : Nat → Prop) (f g : Forest) : Prop where
  parents : f.parents <+: g.parents
  frames : ∀ k, k < f.trees.length → kept k → g.frame k = f.frame k
  ordered : f.Ordered → g.Ordered

namespace Keeps

variable {kept kept' : Nat → Prop} {e f g : Forest} {k n : Nat}

theorem refl (kept : Nat → Prop) (f : Forest) : Keeps kept f f :=
  ⟨List.prefix_rfl, fun _ _ _ => rfl, id⟩

theorem length_le (h : Keeps kept f g) : f.trees.length ≤ g.trees.length := by
  rw [← f.length_parents, ← g.length_parents]
  exact h.parents.length_le

/-- The second step need only keep what the first one did. -/
theorem trans (h : Keeps kept e f) (h' : Keeps kept' f g)
    (hkept : ∀ k, k < e.trees.length → kept k → kept' k) : Keeps kept e g where
  parents := h.parents.trans h'.parents
  frames k hk hkeep := by
    rw [h'.frames k (hk.trans_le h.length_le) (hkept k hk hkeep), h.frames k hk hkeep]
  ordered := h'.ordered ∘ h.ordered

theorem weaken (h : Keeps kept f g) (hkept : ∀ k, k < f.trees.length → kept' k → kept k) :
    Keeps kept' f g :=
  ⟨h.parents, fun k hk hkeep => h.frames k hk (hkept k hk hkeep), h.ordered⟩

theorem getElem?_parents (h : Keeps kept f g) (hk : k < f.trees.length) :
    g.parents[k]? = f.parents[k]? := by
  obtain ⟨more, hmore⟩ := h.parents
  rw [← hmore, List.getElem?_append_left (f.length_parents.symm ▸ hk)]

/-- A scope that is made changes none that was there. -/
theorem grow (f : Forest) {parent : Option Nat}
    (hparent : ∀ p, parent = some p → p < f.trees.length) :
    Keeps (fun _ => True) f (f.grow parent).2 where
  parents := by
    rw [parents_grow]
    exact List.prefix_append _ _
  frames k _ _ := f.frame_grow parent k
  ordered hf := by
    intro n p hp
    rw [parents_grow] at hp
    rcases Nat.lt_trichotomy n f.parents.length with hlt | heq | hgt
    · rw [List.getElem?_append_left hlt] at hp
      exact hf n p hp
    · subst heq
      rw [List.getElem?_concat_length, Option.some.injEq] at hp
      exact f.length_parents.symm ▸ hparent p hp
    · rw [List.getElem?_eq_none (by simp; omega)] at hp
      cases hp

theorem grow_root (f : Forest) : Keeps (fun _ => True) f (f.grow none).2 :=
  .grow f fun p hp => by cases hp

/-- A scope inside an older one. -/
theorem grow_inside {f : Forest} (hn : n < f.trees.length) :
    Keeps (fun _ => True) f (f.grow (some n)).2 :=
  .grow f fun p hp => by
    cases hp
    exact hn

/-- A declaration changes the scope that it is made in. -/
theorem add {name : String} {entry : Entry} (h : f.add n name entry = .ok g)
    (hn : n < f.trees.length) : Keeps (· ≠ n) f g := by
  obtain ⟨-, hothers, hparents⟩ := add_ok h (f.length_parents.symm ▸ hn)
  exact ⟨hparents ▸ List.prefix_rfl, fun k _ hk => hothers k hk, fun hf => by
    unfold Ordered
    rw [hparents]
    exact hf⟩

/-- **A scope is unchanged** if it and all older ones are kept. -/
theorem scope_eq (h : Keeps kept f g) (hf : f.Ordered) : ∀ k, k < f.trees.length →
    (∀ m, m ≤ k → kept m) → g.scope k = f.scope k := by
  intro k
  induction k using Nat.strong_induction_on with
  | _ k ih =>
    intro hk hkept
    have hframe := h.frames k hk (hkept k (Nat.le_refl k))
    rcases parents_cases hf hk with hroot | ⟨p, hp, hinside⟩
    · rw [scope_root hf hroot, scope_root (h.ordered hf) (h.getElem?_parents hk ▸ hroot), hframe]
    · have houter := ih p hp (hp.trans hk) fun m hm => hkept m (hm.trans hp.le)
      rw [scope_inside hf hinside, scope_inside (h.ordered hf) (h.getElem?_parents hk ▸ hinside),
        hframe, houter]

/-- If all but one number are kept, that scope may have another innermost frame. -/
theorem scope_own (h : Keeps (· ≠ n) f g) (hf : f.Ordered) (hn : n < f.trees.length) :
    g.scope n = (f.scope n).withTop (g.frame n) := by
  rcases parents_cases hf hn with hroot | ⟨p, hp, hinside⟩
  · rw [scope_root hf hroot, scope_root (h.ordered hf) (h.getElem?_parents hn ▸ hroot)]
    rfl
  · have houter := h.scope_eq hf p (hp.trans hn) fun m hm => (hm.trans_lt hp).ne
    rw [scope_inside hf hinside, scope_inside (h.ordered hf) (h.getElem?_parents hn ▸ hinside),
      houter]
    rfl

/-- A scope inside it sees the change, and keeps its own frame. -/
theorem scope_child (h : Keeps (· ≠ n) f g) (hf : f.Ordered) (hk : f.parents[k]? = some (some n)) :
    g.scope k = (g.scope n).push (f.scope k).top := by
  have hlt := lt_of_parents hk
  rw [scope_inside (h.ordered hf) (h.getElem?_parents hlt ▸ hk), top_scope hf hlt,
    h.frames k hlt (hf k n hk).ne']

/-- What is kept is the same tree. -/
theorem tree_eq (h : Keeps kept f g) (hk : k < f.trees.length) (hkept : kept k) :
    g.trees[k]? = f.trees[k]? := by
  have hparent := h.getElem?_parents hk
  have hframe := h.frames k hk hkept
  unfold Forest.parents at hparent
  unfold Forest.frame at hframe
  rw [List.getElem?_map, List.getElem?_map] at hparent
  cases hg : g.trees[k]? with
  | none => exact absurd (hk.trans_le h.length_le) (List.getElem?_eq_none_iff.mp hg).not_gt
  | some b =>
    rw [hg, List.getElem?_eq_getElem hk] at hparent hframe
    rw [List.getElem?_eq_getElem hk]
    exact congrArg some (Tree.mk.injEq .. ▸ ⟨Option.some.inj hparent, hframe⟩)

end Keeps

theorem scope_made_root (hf : f.Ordered) : (f.grow none).2.scope f.trees.length = {} := by
  rw [scope_root ((Keeps.grow_root f).ordered hf) (f.parents_made none), frame_made]

theorem scope_made_inside (hf : f.Ordered) (hn : n < f.trees.length) :
    (f.grow (some n)).2.scope f.trees.length = (f.scope n).push [] := by
  have hmade := Keeps.grow_inside hn
  rw [scope_inside (hmade.ordered hf) (f.parents_made (some n)), frame_made,
    hmade.scope_eq hf n hn fun _ _ => trivial]

end Forest

/-! ## 3. The checker in place -/

namespace InPlace

open Check (declarationTrace condition assignment returned typeOf)

/-- Work in a scope that is made for it, inside another one. -/
def within (n : Nat) (f : Forest) (work : Nat → Forest → Forest × Journal) : Forest × Journal :=
  work (f.grow (some n)).1 (f.grow (some n)).2

/-- A declaration in the scope of a number. -/
def declare (n : Nat) (pos : Position) (name : String) (entry : Entry) (f : Forest) :
    Forest × Journal :=
  match f.add n name entry with
  | .ok g => (g, [.trace (declarationTrace (f.frame n) name entry)])
  | .error d => (f, .report pos d)

/-- A function with its parameters, `forward` if only by a prototype. -/
def functionDecl (n : Nat) (head : FnHead) (params : List Decl) (forward : Bool) (f : Forest) :
    Forest × Journal :=
  match paramTypes params with
  | .ok tys => declare n head.pos head.name (.function ⟨head.ret, tys, forward⟩) f
  | .error fault => (f, [.fault fault])

mutual

/-- A declaration in the scope of a number. The formals of a function go into a scope inside it,
    where the body's own declarations will go; those of a prototype into a root of their own. -/
def decl (n : Nat) : Decl → Forest → Forest × Journal
  | .variable pos name ty, f =>
      let advice : Journal := if ty.name == "void" then .report pos (.voidVariable name) else []
      let declared := declare n pos name (.variable { ty := ty }) f
      (declared.1, advice ++ declared.2)
  | .parameter pos name ty, f =>
      let bare := ty.name == "void" && ty.pointers == 0
      let declared := declare n pos name (.variable { ty := ty }) f
      (declared.1, .complainIf bare pos (.voidParameter name) ++ declared.2)
  | .prototype head params, f =>
      let made := f.grow none
      let formals := decls made.1 params made.2
      let declared := functionDecl n head params true formals.1
      (declared.1, formals.2 ++ declared.2)
  | .function head params body, f =>
      let made := f.grow (some n)
      let formals := decls made.1 params made.2
      let declared := functionDecl n head params false formals.1
      let found := block head.ret made.1 body declared.1
      (found.1, formals.2 ++ declared.2 ++ found.2)
  | .misplaced kind, f => (f, [.fault (.misplaced .declaration kind)])

/-- Declarations one after the other. -/
def decls (n : Nat) : List Decl → Forest → Forest × Journal
  | [], f => (f, [])
  | d :: ds, f =>
      let first := decl n d f
      let others := decls n ds first.1
      (others.1, first.2 ++ others.2)

/-- A statement in the scope of a number. -/
def stmt (ret : Ty) (n : Nat) : Stmt → Forest → Forest × Journal
  | .assign _ target value, f => (f, assignment (f.scope n) target value)
  | .ifThen _ cond body, f =>
      let b := within n f fun m g => block ret m body g
      (b.1, condition (f.scope n) cond ++ b.2)
  | .ifElse _ cond thenBody elseBody, f =>
      let a := within n f fun m g => block ret m thenBody g
      let b := within n a.1 fun m g => block ret m elseBody g
      (b.1, condition (f.scope n) cond ++ a.2 ++ b.2)
  | .whileLoop _ cond body, f =>
      let b := within n f fun m g => block ret m body g
      (b.1, condition (f.scope n) cond ++ b.2)
  | .forLoop _ init cond step body, f =>
      let i := stmt ret n init f
      let s := stmt ret n step i.1
      let b := within n s.1 fun m g => block ret m body g
      (b.1, i.2 ++ condition (i.1.scope n) cond ++ s.2 ++ b.2)
  | .call _ e, f => (f, (typeOf (f.scope n) e).journal)
  | .ret pos value, f => (f, returned ret (f.scope n) pos value)
  | .misplaced kind, f => (f, [.fault (.misplaced .statement kind)])
  | .missing kind part, f => (f, [.fault (.noPart kind part)])

/-- A block whose declarations go into the scope of the number. -/
def block (ret : Ty) (n : Nat) : Block → Forest → Forest × Journal
  | .mk _ ds sts, f =>
      let declared := decls n ds f
      let found := stmts ret n sts declared.1
      (found.1, declared.2 ++ found.2)

/-- Statements one after the other. -/
def stmts (ret : Ty) (n : Nat) : List Stmt → Forest → Forest × Journal
  | [], f => (f, [])
  | st :: sts, f =>
      let first := stmt ret n st f
      let others := stmts ret n sts first.1
      (others.1, first.2 ++ others.2)

end

/-! ## 4. What it keeps -/

open Forest (Keeps Ordered)

section Keeps

variable {f : Forest} {n : Nat} (hn : n < f.trees.length)

include hn

theorem declare_keeps (pos : Position) (name : String) (entry : Entry) :
    Keeps (· ≠ n) f (declare n pos name entry f).1 := by
  unfold declare
  split
  · next hadd => exact .add hadd hn
  · exact .refl _ f

theorem functionDecl_keeps (head : FnHead) (params : List Decl) (forward : Bool) :
    Keeps (· ≠ n) f (functionDecl n head params forward f).1 := by
  unfold functionDecl
  split
  · exact declare_keeps hn _ _ _
  · exact .refl _ f

/-- Work that changes its own scope changes none that was there before it was made. -/
theorem within_keeps {work : Nat → Forest → Forest × Journal}
    (hwork : ∀ m g, m < g.trees.length → Keeps (· ≠ m) g (work m g).1) :
    Keeps (fun _ => True) f (within n f work).1 :=
  (Keeps.grow_inside hn).trans (hwork _ _ (f.lt_length_grow (some n))) fun _ hk _ => hk.ne

end Keeps

mutual

/-- **A declaration changes the scope that it stands in**, and no other one. -/
theorem decl_keeps (n : Nat) : ∀ (d : Decl) {f : Forest}, n < f.trees.length →
    Keeps (· ≠ n) f (decl n d f).1
  | .variable _ _ _, _, hn => declare_keeps hn _ _ _
  | .parameter _ _ _, _, hn => declare_keeps hn _ _ _
  | .prototype head params, f, hn => by
      have hmade := Keeps.grow_root f
      have hnew := f.lt_length_grow none
      have hformals := hmade.trans (decls_keeps f.trees.length params hnew) fun k hk _ => hk.ne
      have hdeclared := functionDecl_keeps (hn.trans_le hformals.length_le) head params true
      exact (hformals.weaken fun _ _ _ => trivial).trans hdeclared fun _ _ hk => hk
  | .function head params body, f, hn => by
      have hmade := Keeps.grow_inside hn
      have hnew := f.lt_length_grow (some n)
      have hformals := decls_keeps f.trees.length params hnew
      have hbefore := hmade.trans hformals fun k hk _ => hk.ne
      have hdeclared := functionDecl_keeps (hn.trans_le hbefore.length_le) head params false
      have hown := (hnew.trans_le hformals.length_le).trans_le hdeclared.length_le
      have hthen := (hbefore.weaken fun _ _ _ => trivial).trans hdeclared fun _ _ hk => hk
      exact hthen.trans (block_keeps head.ret f.trees.length body hown) fun k hk _ => hk.ne
  | .misplaced _, f, _ => .refl _ f

theorem decls_keeps (n : Nat) : ∀ (ds : List Decl) {f : Forest}, n < f.trees.length →
    Keeps (· ≠ n) f (decls n ds f).1
  | [], f, _ => .refl _ f
  | d :: ds, _, hn => by
      have hfirst := decl_keeps n d hn
      exact hfirst.trans (decls_keeps n ds (hn.trans_le hfirst.length_le)) fun _ _ hk => hk

/-- **A statement changes no scope that was there.** -/
theorem stmt_keeps (ret : Ty) (n : Nat) : ∀ (st : Stmt) {f : Forest}, n < f.trees.length →
    Keeps (fun _ => True) f (stmt ret n st f).1
  | .assign _ _ _, f, _ | .call _ _, f, _ | .ret _ _, f, _ | .misplaced _, f, _
  | .missing _ _, f, _ => .refl _ f
  | .ifThen _ _ body, _, hn | .whileLoop _ _ body, _, hn =>
      within_keeps hn fun m _ hm => block_keeps ret m body hm
  | .ifElse _ _ yes no, _, hn => by
      have hyes := within_keeps hn fun m _ hm => block_keeps ret m yes hm
      have hno := within_keeps (hn.trans_le hyes.length_le) fun m _ hm => block_keeps ret m no hm
      exact hyes.trans hno fun _ _ hk => hk
  | .forLoop _ init _ step body, _, hn => by
      have hinit := stmt_keeps ret n init hn
      have hstep := stmt_keeps ret n step (hn.trans_le hinit.length_le)
      have hboth := hinit.trans hstep fun _ _ hk => hk
      have hbody := within_keeps (hn.trans_le hboth.length_le) fun m _ hm =>
        block_keeps ret m body hm
      exact hboth.trans hbody fun _ _ hk => hk

/-- **A block changes the scope that its declarations go into**, and no other one. -/
theorem block_keeps (ret : Ty) (n : Nat) : ∀ (b : Block) {f : Forest}, n < f.trees.length →
    Keeps (· ≠ n) f (block ret n b f).1
  | .mk _ ds sts, _, hn => by
      have hdeclared := decls_keeps n ds hn
      have hfound := stmts_keeps ret n sts (hn.trans_le hdeclared.length_le)
      exact hdeclared.trans hfound fun _ _ _ => trivial

theorem stmts_keeps (ret : Ty) (n : Nat) : ∀ (sts : List Stmt) {f : Forest}, n < f.trees.length →
    Keeps (fun _ => True) f (stmts ret n sts f).1
  | [], f, _ => .refl _ f
  | st :: sts, _, hn => by
      have hfirst := stmt_keeps ret n st hn
      exact hfirst.trans (stmts_keeps ret n sts (hn.trans_le hfirst.length_le)) fun _ _ hk => hk

end

/-! ## 5. What it finds -/

/-- The scope of a number is the one that was handed back, and the same was found. -/
structure Shows (n : Nat) (r : Forest × Journal) (r' : Scope × Journal) : Prop where
  scope : r.1.scope n = r'.1
  journal : r.2 = r'.2

section Checks

variable {f : Forest} {n : Nat} (hf : f.Ordered) (hn : n < f.trees.length)

include hf hn

theorem declare_checks (pos : Position) (name : String) (entry : Entry) :
    Shows n (declare n pos name entry f) (Check.declare (f.scope n) pos name entry) := by
  unfold declare Check.declare
  rw [Forest.top_scope hf hn]
  cases hframe : (f.frame n).add name entry with
  | error d =>
    have hadd : f.add n name entry = .error d := by
      unfold Forest.add
      rw [hframe]
    rw [hadd]
    exact ⟨rfl, rfl⟩
  | ok frame =>
    obtain ⟨g, hadd⟩ := Forest.add_ok_iff.mpr ⟨frame, hframe⟩
    have hown := (Forest.add_ok hadd (f.length_parents.symm ▸ hn)).1
    rw [hframe] at hown
    cases hown
    rw [hadd]
    exact ⟨(Keeps.add hadd hn).scope_own hf hn, rfl⟩

theorem functionDecl_checks (head : FnHead) (params : List Decl) (forward : Bool) :
    Shows n (functionDecl n head params forward f)
      (Check.functionDecl (f.scope n) head params forward) := by
  unfold functionDecl Check.functionDecl
  cases paramTypes params with
  | ok tys => exact declare_checks hf hn _ _ _
  | error fault => exact ⟨rfl, rfl⟩

/-- A block in a scope that is made for it sees one more frame, with nothing in it. -/
theorem within_checks {ret : Ty} {b : Block} (hb : ∀ m g, g.Ordered → m < g.trees.length →
      (block ret m b g).2 = Check.block ret (g.scope m) b) :
    (within n f fun m g => block ret m b g).2 = Check.block ret ((f.scope n).push []) b := by
  rw [← Forest.scope_made_inside hf hn]
  exact hb _ _ ((Keeps.grow_inside hn).ordered hf) (f.lt_length_grow (some n))

end Checks

mutual

/-- **A declaration** leaves the scope that `Check` hands back. -/
theorem decl_checks (n : Nat) : ∀ (d : Decl) {f : Forest}, f.Ordered → n < f.trees.length →
    Shows n (decl n d f) (Check.decl (f.scope n) d)
  | .variable pos name ty, f, hf, hn | .parameter pos name ty, f, hf, hn => by
      have hdeclared := declare_checks hf hn pos name (.variable { ty := ty })
      exact ⟨hdeclared.scope, congrArg (_ ++ ·) hdeclared.journal⟩
  | .prototype head params, f, hf, hn => by
      have hmade := Keeps.grow_root f
      have hnew := f.lt_length_grow none
      have hformals := decls_checks f.trees.length params (hmade.ordered hf) hnew
      rw [Forest.scope_made_root hf] at hformals
      have hkeeps := hmade.trans (decls_keeps f.trees.length params hnew) fun k hk _ => hk.ne
      have hdeclared := functionDecl_checks (hkeeps.ordered hf) (hn.trans_le hkeeps.length_le)
        head params true
      rw [hkeeps.scope_eq hf n hn fun _ _ => trivial] at hdeclared
      exact ⟨hdeclared.scope, congrArg₂ (· ++ ·) hformals.journal hdeclared.journal⟩
  | .function head params body, f, hf, hn => by
      have hmade := Keeps.grow_inside hn
      have hnew := f.lt_length_grow (some n)
      have hformals := decls_checks f.trees.length params (hmade.ordered hf) hnew
      rw [Forest.scope_made_inside hf hn] at hformals
      have hkeeps := decls_keeps f.trees.length params hnew
      have hbefore := hmade.trans hkeeps fun k hk _ => hk.ne
      have hordered := hbefore.ordered hf
      have hn' := hn.trans_le hbefore.length_le
      have hdeclared := functionDecl_checks hordered hn' head params false
      rw [hbefore.scope_eq hf n hn fun _ _ => trivial] at hdeclared
      -- the body's scope: the formals, inside the scope that has the function in it by now
      have hkeeps' := functionDecl_keeps hn' head params false
      have hordered' := hkeeps'.ordered hordered
      have hparent := (hkeeps.getElem?_parents hnew).trans (f.parents_made (some n))
      have hinside := hkeeps'.scope_child hordered hparent
      rw [hformals.scope, hdeclared.scope] at hinside
      have hlt := (hnew.trans_le hkeeps.length_le).trans_le hkeeps'.length_le
      have hbody := block_checks head.ret f.trees.length body hordered' hlt
      rw [hinside] at hbody
      have hafter := (block_keeps head.ret f.trees.length body hlt).scope_eq hordered' n
        (hn'.trans_le hkeeps'.length_le) fun m hm => (hm.trans_lt hn).ne
      exact ⟨hafter.trans hdeclared.scope, congrArg₂ (· ++ ·)
        (congrArg₂ (· ++ ·) hformals.journal hdeclared.journal) hbody⟩
  | .misplaced _, _, _, _ => ⟨rfl, rfl⟩

/-- **So do declarations one after the other.** -/
theorem decls_checks (n : Nat) : ∀ (ds : List Decl) {f : Forest}, f.Ordered →
    n < f.trees.length → Shows n (decls n ds f) (Check.decls (f.scope n) ds)
  | [], _, _, _ => ⟨rfl, rfl⟩
  | d :: ds, f, hf, hn => by
      have hkeeps := decl_keeps n d hn
      have hfirst := decl_checks n d hf hn
      have hothers := decls_checks n ds (hkeeps.ordered hf) (hn.trans_le hkeeps.length_le)
      rw [hfirst.scope] at hothers
      exact ⟨hothers.scope, congrArg₂ (· ++ ·) hfirst.journal hothers.journal⟩

/-- **Of a statement** the same is found. -/
theorem stmt_checks (ret : Ty) (n : Nat) : ∀ (st : Stmt) {f : Forest}, f.Ordered →
    n < f.trees.length → (stmt ret n st f).2 = Check.stmt ret (f.scope n) st
  | .assign _ _ _, _, _, _ | .call _ _, _, _, _ | .ret _ _, _, _, _ | .misplaced _, _, _, _
  | .missing _ _, _, _, _ => rfl
  | .ifThen _ _ body, _, hf, hn | .whileLoop _ _ body, _, hf, hn =>
      congrArg (_ ++ ·) (within_checks hf hn fun m _ hg hm => block_checks ret m body hg hm)
  | .ifElse _ cond yes no, f, hf, hn => by
      have hkeeps := within_keeps hn fun m _ hm => block_keeps ret m yes hm
      have hyes := within_checks hf hn fun m _ hg hm => block_checks ret m yes hg hm
      have hno := within_checks (hkeeps.ordered hf) (hn.trans_le hkeeps.length_le)
        fun m _ hg hm => block_checks ret m no hg hm
      rw [hkeeps.scope_eq hf n hn fun _ _ => trivial] at hno
      exact congrArg₂ (· ++ ·) (congrArg (_ ++ ·) hyes) hno
  | .forLoop _ init cond step body, f, hf, hn => by
      have hinit := stmt_keeps ret n init hn
      have hstep := stmt_keeps ret n step (hn.trans_le hinit.length_le)
      have hboth := hinit.trans hstep fun _ _ hk => hk
      have hfirst := stmt_checks ret n init hf hn
      have hsecond := stmt_checks ret n step (hinit.ordered hf) (hn.trans_le hinit.length_le)
      have hlast := within_checks (hboth.ordered hf) (hn.trans_le hboth.length_le)
        fun m _ hg hm => block_checks ret m body hg hm
      have hscope := hinit.scope_eq hf n hn fun _ _ => trivial
      rw [hscope] at hsecond
      rw [hboth.scope_eq hf n hn fun _ _ => trivial] at hlast
      exact congrArg₂ (· ++ ·) (congrArg₂ (· ++ ·) (congrArg₂ (· ++ ·) hfirst
        (congrArg (Check.condition · cond) hscope)) hsecond) hlast

theorem block_checks (ret : Ty) (n : Nat) : ∀ (b : Block) {f : Forest}, f.Ordered →
    n < f.trees.length → (block ret n b f).2 = Check.block ret (f.scope n) b
  | .mk _ ds sts, f, hf, hn => by
      have hkeeps := decls_keeps n ds hn
      have hdeclared := decls_checks n ds hf hn
      have hfound := stmts_checks ret n sts (hkeeps.ordered hf) (hn.trans_le hkeeps.length_le)
      rw [hdeclared.scope] at hfound
      exact congrArg₂ (· ++ ·) hdeclared.journal hfound

theorem stmts_checks (ret : Ty) (n : Nat) : ∀ (sts : List Stmt) {f : Forest}, f.Ordered →
    n < f.trees.length → (stmts ret n sts f).2 = Check.stmts ret (f.scope n) sts
  | [], _, _, _ => rfl
  | st :: sts, f, hf, hn => by
      have hkeeps := stmt_keeps ret n st hn
      have hothers := stmts_checks ret n sts (hkeeps.ordered hf) (hn.trans_le hkeeps.length_le)
      rw [hkeeps.scope_eq hf n hn fun _ _ => trivial] at hothers
      exact congrArg₂ (· ++ ·) (stmt_checks ret n st hf hn) hothers

end

end InPlace

end CMinusMinus
