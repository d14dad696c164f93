/-
  File:      CMinusMinus/Proofs/Uses.lean
  Subject:   What a body uses: its identifiers and its string literals.

  An identifier means the innermost declaration of its name, and is used at the place where that
  declaration is stored. A string literal is used under its number: how many literals come before
  it. Declarations are numbered through a whole function, literals through a whole program.

  A USE is one occurrence in the source together with its address. The uses of a body are listed
  twice: as they are written, and in the order in which code takes them. The two differ, since the
  code of all operands comes before the instruction that takes them.

  * `Use`, `Env.home` -- an occurrence and where it is stored;
  * `Scene`, `Block.scenes` -- a body as its expressions, each with what names mean there;
  * `spotsOf` -- its uses as they are written;
  * `usesOf` -- its uses in the order of the code;
  * `usesOf_perm` -- in a well-typed body the same uses, each once.
-/
import CMinusMinus.Proofs.Evaluation
import CMinusMinus.Proofs.Literals
import Mathlib.Data.List.Nodup

namespace CMinusMinus

/-! ## 1. Uses -/

/-- An identifier or a string literal of the source, and where it is stored. -/
inductive Use where
  | name (x : String) (home : Option Address)
  | text (s : String) (number : Nat)
  deriving DecidableEq

/-- Where what is used is stored. -/
def Use.address? : Use → Option Address
  | .name _ home => home
  | .text _ number => some ⟨.constant, number⟩

/-- The string literal that is used, with its number. -/
def Use.text? : Use → Option (String × Nat)
  | .name _ _ => none
  | .text s number => some (s, number)

/-- Where the innermost declaration of a name is stored. -/
def Env.home (ρ : Env) (x : String) : Option Address := (ρ.lookup x).map fun b => b.cell.address

mutual

/-- The uses of an expression as they are written; `n` literals come before it. -/
def Expr.spots (ρ : Env) (n : Nat) : Expr → List Use
  | .var _ x => [.name x (ρ.home x)]
  | .str _ s => [.text s n]
  | .index _ array i => array.spots ρ n ++ i.spots ρ (n + array.literals.length)
  | .call _ _ args => Expr.spotsIn ρ n args
  | .unary _ _ e => e.spots ρ n
  | .binary _ _ l r => l.spots ρ n ++ r.spots ρ (n + l.literals.length)
  | .int _ _ | .nameless _ _ | .misplaced _ => []

/-- The uses of expressions one after the other. -/
def Expr.spotsIn (ρ : Env) (n : Nat) : List Expr → List Use
  | [] => []
  | e :: es => e.spots ρ n ++ Expr.spotsIn ρ (n + e.literals.length) es

end

/-- The use that stands for an expression where its value is taken; none if the value has to be
    computed first. -/
def Expr.own (ρ : Env) (n : Nat) : Expr → List Use
  | .var _ x => [.name x (ρ.home x)]
  | .str _ s => [.text s n]
  | .unary _ .address e | .unary _ .deref e => e.own ρ n
  | _ => []

/-- The use that stands for the last one of several expressions. -/
def Expr.ownOfLast (ρ : Env) (n : Nat) : List Expr → List Use
  | [] => []
  | [e] => e.own ρ n
  | e :: es => Expr.ownOfLast ρ (n + e.literals.length) es

mutual

/-- The uses in the code that computes an expression, in the order of the code. Both sides of an
    operator are computed before it takes them; `>` and `>=` take them in reverse. Arguments of
    functions are handed over one by one, a call that the system answers takes its last argument. -/
def Expr.uses (ρ : Env) (n : Nat) : Expr → List Use
  | .index _ array i =>
      let m := n + array.literals.length
      array.uses ρ n ++ i.uses ρ m ++ (array.own ρ n ++ i.own ρ m)
  | .call _ name args =>
      if isSystemCall name then Expr.usesInTurn ρ n args ++ Expr.ownOfLast ρ n args
      else Expr.usesHandedOver ρ n args
  | .unary _ op e =>
      match op with
      | .neg | .not => e.uses ρ n ++ e.own ρ n
      | .address | .deref | .other _ => e.uses ρ n
  | .binary _ op l r =>
      let m := n + l.literals.length
      match op with
      | .and | .or => (l.uses ρ n ++ l.own ρ n) ++ (r.uses ρ m ++ r.own ρ m)
      | .rel .gt | .rel .ge => l.uses ρ n ++ r.uses ρ m ++ (r.own ρ m ++ l.own ρ n)
      | .rel _ | .arith _ | .other _ => l.uses ρ n ++ r.uses ρ m ++ (l.own ρ n ++ r.own ρ m)
  | .int _ _ | .str _ _ | .var _ _ | .nameless _ _ | .misplaced _ => []

/-- The uses in the code of expressions that are computed one after the other. -/
def Expr.usesInTurn (ρ : Env) (n : Nat) : List Expr → List Use
  | [] => []
  | e :: es => e.uses ρ n ++ Expr.usesInTurn ρ (n + e.literals.length) es

/-- The uses in the code of expressions each of which is taken when it is computed. -/
def Expr.usesHandedOver (ρ : Env) (n : Nat) : List Expr → List Use
  | [] => []
  | e :: es => (e.uses ρ n ++ e.own ρ n) ++ Expr.usesHandedOver ρ (n + e.literals.length) es

end

/-! ## 2. Bodies -/

/-- What a statement does with its expressions. -/
inductive Act where
  | assign (target exp : Expr)
  /-- The value is taken: a condition, or a value that is returned. -/
  | ask (e : Expr)
  /-- There is no value: a call for its effect. -/
  | run (e : Expr)

namespace Act

/-- The expressions of an act. -/
def exprs : Act → List Expr
  | .assign target exp => [target, exp]
  | .ask e | .run e => [e]

@[simp] theorem exprs_ask (e : Expr) : (Act.ask e).exprs = [e] := rfl

/-- The uses of an act as they are written. -/
def spots (ρ : Env) (n : Nat) (a : Act) : List Use := Expr.spotsIn ρ n a.exprs

/-- The string literals of an act. -/
def literals (a : Act) : List String := Expr.literalsOf a.exprs

/-- The uses of an act in the order of its code. An element that is assigned to is not computed:
    its array, its index and the value are taken together. -/
def uses (ρ : Env) (n : Nat) : Act → List Use
  | .assign (.index _ array i) exp =>
      let m := n + array.literals.length
      let k := m + i.literals.length
      array.uses ρ n ++ i.uses ρ m ++ exp.uses ρ k ++ (array.own ρ n ++ i.own ρ m ++ exp.own ρ k)
  | .assign target exp =>
      let m := n + target.literals.length
      target.uses ρ n ++ exp.uses ρ m ++ (target.own ρ n ++ exp.own ρ m)
  | .ask e => e.uses ρ n ++ e.own ρ n
  | .run e => e.uses ρ n

end Act

/-- An act, and what names mean where it stands. -/
structure Scene where
  env : Env
  act : Act

mutual

/-- The acts of a statement in the order of its code; `k` locals are declared before it. -/
def Stmt.scenes (ρ : Env) (k : Nat) : Stmt → List Scene
  | .assign _ target exp => [⟨ρ, .assign target exp⟩]
  | .ifThen _ cond body | .whileLoop _ cond body => ⟨ρ, .ask cond⟩ :: body.scenes ρ k
  | .ifElse _ cond thenBody elseBody =>
      ⟨ρ, .ask cond⟩ :: (thenBody.scenes ρ k ++ elseBody.scenes ρ (k + thenBody.slots))
  | .forLoop _ init cond step body =>
      init.scenes ρ k ++ ⟨ρ, .ask cond⟩ ::
        (body.scenes ρ (k + init.slots) ++ step.scenes ρ (k + init.slots + body.slots))
  | .call _ e => [⟨ρ, .run e⟩]
  | .ret _ value => value.toList.map fun e => ⟨ρ, .ask e⟩
  | .misplaced _ | .missing _ _ => []

/-- **The acts of a block.** Its declarations come first and hide those of their names outside. -/
def Block.scenes (ρ : Env) (k : Nat) : Block → List Scene
  | .mk _ ds sts => Stmt.scenesOf (Env.declare .local k ρ ds) (k + ds.length) sts

/-- The acts of statements one after the other. -/
def Stmt.scenesOf (ρ : Env) (k : Nat) : List Stmt → List Scene
  | [] => []
  | st :: sts => st.scenes ρ k ++ Stmt.scenesOf ρ (k + st.slots) sts

end

/-- The string literals of acts one after the other. -/
def literalsOf (scenes : List Scene) : List String := scenes.flatMap fun c => c.act.literals

/-- **The uses of acts as they are written.** -/
def spotsOf (n : Nat) : List Scene → List Use
  | [] => []
  | c :: cs => c.act.spots c.env n ++ spotsOf (n + c.act.literals.length) cs

/-- **The uses of acts in the order of their code.** -/
def usesOf (n : Nat) : List Scene → List Use
  | [] => []
  | c :: cs => c.act.uses c.env n ++ usesOf (n + c.act.literals.length) cs

@[simp] theorem literalsOf_append (cs₁ cs₂ : List Scene) :
    literalsOf (cs₁ ++ cs₂) = literalsOf cs₁ ++ literalsOf cs₂ := List.flatMap_append

theorem usesOf_append : ∀ (n : Nat) (cs₁ cs₂ : List Scene),
    usesOf n (cs₁ ++ cs₂) = usesOf n cs₁ ++ usesOf (n + (literalsOf cs₁).length) cs₂
  | _, [], _ => rfl
  | n, c :: cs₁, cs₂ => by
      have hlength : (literalsOf (c :: cs₁)).length =
          c.act.literals.length + (literalsOf cs₁).length := by
        rw [literalsOf, List.flatMap_cons, List.length_append]
        rfl
      rw [List.cons_append, usesOf, usesOf_append, usesOf, hlength, List.append_assoc,
        Nat.add_assoc]


mutual

/-- The acts of a statement have its expressions. -/
theorem Stmt.exprs_scenes (ρ : Env) (k : Nat) : ∀ st : Stmt,
    (st.scenes ρ k).flatMap (fun c => c.act.exprs) = st.exprs
  | .assign _ _ _ | .call _ _ => rfl
  | .ifThen _ _ body | .whileLoop _ _ body => by
      simp [Stmt.scenes, Stmt.exprs, Block.exprs_scenes ρ k body]
  | .ifElse _ _ thenBody elseBody => by
      simp [Stmt.scenes, Stmt.exprs, Block.exprs_scenes _ _ thenBody,
        Block.exprs_scenes _ _ elseBody]
  | .forLoop _ init _ step body => by
      simp [Stmt.scenes, Stmt.exprs, Stmt.exprs_scenes _ _ init,
        Block.exprs_scenes _ _ body, Stmt.exprs_scenes _ _ step]
  | .ret _ none | .ret _ (some _) => rfl
  | .misplaced _ | .missing _ _ => rfl

theorem Block.exprs_scenes (ρ : Env) (k : Nat) : ∀ b : Block,
    (b.scenes ρ k).flatMap (fun c => c.act.exprs) = b.exprs
  | .mk _ _ sts => Stmt.exprsOf_scenes _ _ sts

theorem Stmt.exprsOf_scenes (ρ : Env) (k : Nat) : ∀ sts : List Stmt,
    (Stmt.scenesOf ρ k sts).flatMap (fun c => c.act.exprs) = Stmt.exprsOf sts
  | [] => rfl
  | st :: sts => by
      simp [Stmt.scenesOf, Stmt.exprsOf, Stmt.exprs_scenes _ _ st, Stmt.exprsOf_scenes _ _ sts]

end

theorem Expr.literalsOf_eq (es : List Expr) :
    Expr.literalsOf es = es.flatMap Expr.literals := by
  induction es with
  | nil => rfl
  | cons e es ih => rw [Expr.literalsOf, ih, List.flatMap_cons]

/-- The literals of a block's acts are the literals of the block. -/
theorem Block.literals_scenes (ρ : Env) (k : Nat) (b : Block) :
    literalsOf (b.scenes ρ k) = b.literals := by
  unfold literalsOf Block.literals Act.literals
  rw [← b.exprs_scenes ρ k, List.flatMap_assoc]
  simp only [Expr.literalsOf_eq]

/-! ## 3. What holds of all uses -/

/-- The texts stand in a list from the place on. -/
def StandsAt (pool : List String) (n : Nat) (texts : List String) : Prop :=
  ∀ i s, texts[i]? = some s → pool[n + i]? = some s

section StandsAt

variable {pool : List String} {n : Nat}

theorem getElem?_append_of_some {a : List String} {i : Nat} {s : String} (hi : a[i]? = some s)
    (b : List String) : (a ++ b)[i]? = some s :=
  (List.getElem?_append_left (List.getElem?_eq_some_iff.mp hi).1).trans hi

theorem standsAt_append {a b : List String} (h : StandsAt pool n (a ++ b)) :
    StandsAt pool n a ∧ StandsAt pool (n + a.length) b := by
  refine ⟨fun i s hi => h i s (getElem?_append_of_some hi b), fun i s hi => ?_⟩
  have hplace : (a ++ b)[a.length + i]? = some s := by
    rw [List.getElem?_append_right (Nat.le_add_right _ _), Nat.add_sub_cancel_left, hi]
  rw [Nat.add_assoc]
  exact h _ s hplace

theorem standsAt_inside (front texts back : List String) :
    StandsAt (front ++ texts ++ back) front.length texts := by
  intro i s hi
  rw [List.append_assoc, List.getElem?_append_right (Nat.le_add_right _ _),
    Nat.add_sub_cancel_left]
  exact getElem?_append_of_some hi back

end StandsAt

section Forall

variable {P : Use → Prop} {pool : List String} {ρ : Env} (hname : ∀ x, P (.name x (ρ.home x)))
  (htext : ∀ s n, pool[n]? = some s → P (.text s n))

include hname htext

theorem Expr.forall_own : ∀ {e : Expr} {n : Nat}, StandsAt pool n e.literals →
    ∀ u ∈ e.own ρ n, P u
  | .var _ x, _, _ => List.forall_mem_singleton.mpr (hname x)
  | .str _ s, n, h => List.forall_mem_singleton.mpr (htext s n (h 0 s rfl))
  | .unary _ op e, _, h => by
      cases op with
      | address => exact Expr.forall_own (e := e) h
      | deref => exact Expr.forall_own (e := e) h
      | _ => exact fun _ hu => absurd hu List.not_mem_nil
  | .int _ _, _, _ | .index _ _ _, _, _ | .call _ _ _, _, _ | .binary _ _ _ _, _, _
  | .nameless _ _, _, _ | .misplaced _, _, _ => fun _ hu => absurd hu List.not_mem_nil

theorem Expr.forall_ownOfLast : ∀ (es : List Expr) {n : Nat},
    StandsAt pool n (Expr.literalsOf es) → ∀ u ∈ Expr.ownOfLast ρ n es, P u
  | [], _, _ => fun _ hu => absurd hu List.not_mem_nil
  | [_], _, h => Expr.forall_own hname htext (standsAt_append h).1
  | _ :: e :: es, _, h => Expr.forall_ownOfLast (e :: es) (standsAt_append h).2

mutual

/-- **What holds of the identifiers, and of the literals in their places, holds of all uses** in the
    code of an expression. -/
theorem Expr.forall_uses : ∀ (e : Expr) {n : Nat}, StandsAt pool n e.literals →
    ∀ u ∈ e.uses ρ n, P u
  | .index _ array i, n, h => by
      obtain ⟨harray, hi⟩ := standsAt_append h
      simp only [Expr.uses, List.forall_mem_append]
      exact ⟨⟨Expr.forall_uses array harray, Expr.forall_uses i hi⟩,
        Expr.forall_own hname htext harray, Expr.forall_own hname htext hi⟩
  | .call _ name args, n, h => by
      obtain ⟨hturn, hover⟩ := Expr.forall_usesOf args h
      rw [Expr.uses]
      split
      · exact List.forall_mem_append.mpr ⟨hturn, Expr.forall_ownOfLast hname htext args h⟩
      · exact hover
  | .unary _ op e, n, h => by
      have huses := Expr.forall_uses e h
      have hboth := List.forall_mem_append.mpr ⟨huses, Expr.forall_own hname htext (e := e) h⟩
      cases op with
      | neg => exact hboth
      | not => exact hboth
      | _ => exact huses
  | .binary _ op l r, n, h => by
      obtain ⟨hl, hr⟩ := standsAt_append h
      have hlUses := Expr.forall_uses l hl
      have hrUses := Expr.forall_uses r hr
      have hlOwn := Expr.forall_own hname htext hl
      have hrOwn := Expr.forall_own hname htext hr
      unfold Expr.uses
      dsimp only
      split
      all_goals
        simp only [List.forall_mem_append]
        refine ⟨⟨?_, ?_⟩, ?_, ?_⟩ <;> assumption
  | .int _ _, _, _ | .str _ _, _, _ | .var _ _, _, _ | .nameless _ _, _, _
  | .misplaced _, _, _ => fun _ hu => absurd hu List.not_mem_nil

theorem Expr.forall_usesOf : ∀ (es : List Expr) {n : Nat}, StandsAt pool n (Expr.literalsOf es) →
    (∀ u ∈ Expr.usesInTurn ρ n es, P u) ∧ ∀ u ∈ Expr.usesHandedOver ρ n es, P u
  | [], _, _ => ⟨fun _ hu => absurd hu List.not_mem_nil, fun _ hu => absurd hu List.not_mem_nil⟩
  | e :: es, n, h => by
      obtain ⟨he, hes⟩ := standsAt_append h
      have huses := Expr.forall_uses e he
      have hboth := List.forall_mem_append.mpr ⟨huses, Expr.forall_own hname htext he⟩
      obtain ⟨hturn, hover⟩ := Expr.forall_usesOf es hes
      exact ⟨List.forall_mem_append.mpr ⟨huses, hturn⟩, List.forall_mem_append.mpr ⟨hboth, hover⟩⟩

end

theorem Act.forall_uses {n : Nat} (a : Act) (h : StandsAt pool n a.literals) :
    ∀ u ∈ a.uses ρ n, P u := by
  have huses := fun e {n} => Expr.forall_uses hname htext e (n := n)
  have hown := fun e {n} => Expr.forall_own hname htext (e := e) (n := n)
  unfold Act.uses
  split
  · obtain ⟨htarget, hrest⟩ := standsAt_append h
    obtain ⟨harray, hi⟩ := standsAt_append htarget
    have hexp := (standsAt_append hrest).1
    rw [Expr.literals, List.length_append, ← Nat.add_assoc] at hexp
    simp only [List.forall_mem_append]
    exact ⟨⟨⟨huses _ harray, huses _ hi⟩, huses _ hexp⟩, ⟨hown _ harray, hown _ hi⟩, hown _ hexp⟩
  · obtain ⟨htarget, hrest⟩ := standsAt_append h
    have hexp := (standsAt_append hrest).1
    simp only [List.forall_mem_append]
    exact ⟨⟨huses _ htarget, huses _ hexp⟩, hown _ htarget, hown _ hexp⟩
  · have he := (standsAt_append h).1
    exact List.forall_mem_append.mpr ⟨huses _ he, hown _ he⟩
  · exact huses _ (standsAt_append h).1

end Forall

/-- The same for acts one after the other. -/
theorem forall_usesOf {P : Use → Prop} {pool : List String}
    (htext : ∀ s n, pool[n]? = some s → P (.text s n)) :
    ∀ {cs : List Scene} {n : Nat}, (∀ c ∈ cs, ∀ x, P (.name x (c.env.home x))) →
      StandsAt pool n (literalsOf cs) → ∀ u ∈ usesOf n cs, P u
  | [], _, _, _ => fun _ hu => absurd hu List.not_mem_nil
  | c :: cs, _, hname, h => by
      obtain ⟨hc, hcs⟩ := List.forall_mem_cons.mp hname
      obtain ⟨hact, hrest⟩ := standsAt_append h
      exact List.forall_mem_append.mpr
        ⟨c.act.forall_uses hc htext hact, forall_usesOf htext hcs hrest⟩

/-! ## 4. Each use once -/

mutual

/-- The literals among the uses as they are written are those of the expression, numbered. -/
theorem Expr.texts_spots (ρ : Env) : ∀ (n : Nat) (e : Expr),
    (e.spots ρ n).filterMap Use.text? = e.literals.zipIdx n
  | n, .index _ array i => by
      rw [Expr.spots, Expr.literals, List.filterMap_append, Expr.texts_spots, Expr.texts_spots,
        List.zipIdx_append, Nat.add_comm]
  | n, .call _ _ args => Expr.texts_spotsIn ρ n args
  | n, .unary _ _ e => Expr.texts_spots ρ n e
  | n, .binary _ _ l r => by
      rw [Expr.spots, Expr.literals, List.filterMap_append, Expr.texts_spots, Expr.texts_spots,
        List.zipIdx_append, Nat.add_comm]
  | _, .var _ _ | _, .str _ _ | _, .int _ _ | _, .nameless _ _ | _, .misplaced _ => rfl

theorem Expr.texts_spotsIn (ρ : Env) : ∀ (n : Nat) (es : List Expr),
    (Expr.spotsIn ρ n es).filterMap Use.text? = (Expr.literalsOf es).zipIdx n
  | _, [] => rfl
  | n, e :: es => by
      rw [Expr.spotsIn, Expr.literalsOf, List.filterMap_append, Expr.texts_spots,
        Expr.texts_spotsIn, List.zipIdx_append, Nat.add_comm]

end

theorem texts_spotsOf : ∀ (n : Nat) (cs : List Scene),
    (spotsOf n cs).filterMap Use.text? = (literalsOf cs).zipIdx n
  | _, [] => rfl
  | n, c :: cs => by
      have hact : (c.act.spots c.env n).filterMap Use.text? = c.act.literals.zipIdx n :=
        Expr.texts_spotsIn c.env n c.act.exprs
      rw [spotsOf, List.filterMap_append, hact, texts_spotsOf]
      unfold literalsOf
      rw [List.flatMap_cons, List.zipIdx_append, Nat.add_comm]

section Counts

variable {Γ : Scope} (ρ : Env) (u : Use)

mutual

/-- In a well-typed expression what is written is used once: within its code, or for its value. -/
theorem HasType.count_uses : ∀ (n : Nat) {e : Expr} {τ : Ty}, HasType Γ e τ →
    (e.uses ρ n).count u + (e.own ρ n).count u = (e.spots ρ n).count u
  | _, _, _, .int => rfl
  | _, _, _, .str => Nat.zero_add _
  | _, _, _, .var _ => Nat.zero_add _
  | n, .index _ array i, _, .index harray hi _ => by
      have h₁ := HasType.count_uses n harray
      have h₂ := HasType.count_uses (n + array.literals.length) hi
      simp only [Expr.uses, Expr.own, Expr.spots, List.count_append, List.count_nil]
      omega
  | n, .call _ name args, _, .system hname hargs hone => by
      rw [Expr.uses, if_pos hname, Expr.spots]
      cases hargs with
      | nil => rfl
      | @cons e _ _ _ he hes =>
        cases hes with
        | nil =>
          have h₁ := HasType.count_uses n he
          simp only [Expr.usesInTurn, Expr.ownOfLast, Expr.own, Expr.spotsIn, List.append_nil,
            List.count_append, List.count_nil]
          omega
        | cons => simp at hone
  | n, .call _ name args, _, .call hname hargs _ => by
      rw [Expr.uses, if_neg (Bool.eq_false_iff.mp hname), Expr.spots]
      exact HaveTypes.count_uses n hargs
  | n, .unary _ _ e, _, .neg he _ | n, .unary _ _ e, _, .not he _ => by
      have h₁ := HasType.count_uses n he
      simp only [Expr.uses, Expr.own, Expr.spots, List.count_append, List.count_nil]
      omega
  | n, .unary _ _ e, _, .address he _ | n, .unary _ _ e, _, .deref he _ => by
      simp only [Expr.uses, Expr.own, Expr.spots]
      exact HasType.count_uses n he
  | n, .binary _ _ l r, _, .arith hl hr _ _ | n, .binary _ _ l r, _, .and hl hr _ _
  | n, .binary _ _ l r, _, .or hl hr _ _ => by
      have h₁ := HasType.count_uses n hl
      have h₂ := HasType.count_uses (n + l.literals.length) hr
      simp only [Expr.uses, Expr.own, Expr.spots, List.count_append, List.count_nil]
      omega
  | n, .binary _ (.rel op) l r, _, .rel hl hr _ _ => by
      have h₁ := HasType.count_uses n hl
      have h₂ := HasType.count_uses (n + l.literals.length) hr
      cases op
      all_goals
        simp only [Expr.uses, Expr.own, Expr.spots, List.count_append, List.count_nil]
        omega

theorem HaveTypes.count_uses : ∀ (n : Nat) {es : List Expr} {τs : List Ty}, HaveTypes Γ es τs →
    (Expr.usesHandedOver ρ n es).count u = (Expr.spotsIn ρ n es).count u
  | _, _, _, .nil => rfl
  | n, e :: es, _, .cons he hes => by
      have h₁ := HasType.count_uses n he
      have h₂ := HaveTypes.count_uses (n + e.literals.length) hes
      simp only [Expr.usesHandedOver, Expr.spotsIn, List.count_append]
      omega

end

end Counts

/-- Each use of an act, as it is written, is a use in its code. -/
def Act.UsesOnce (a : Act) : Prop :=
  ∀ (ρ : Env) (n : Nat) (u : Use), (a.uses ρ n).count u = (a.spots ρ n).count u

section Once

variable {Γ : Scope} {ret : Ty}

theorem HasType.ask_usesOnce {e : Expr} {τ : Ty} (h : HasType Γ e τ) : (Act.ask e).UsesOnce := by
  intro ρ n u
  simp only [Act.uses, Act.spots, Act.exprs, Expr.spotsIn, List.append_nil, List.count_append]
  exact h.count_uses ρ u n

theorem HasType.run_usesOnce {e : Expr} {τ : Ty} (h : HasType Γ e τ) (hcall : e.isCall = true) :
    (Act.run e).UsesOnce := by
  intro ρ n u
  have hown : e.own ρ n = [] := by
    cases h with
    | system _ _ _ => rfl
    | call _ _ _ => rfl
    | _ => cases hcall
  have hcount := h.count_uses ρ u n
  rw [hown, List.count_nil, Nat.add_zero] at hcount
  simpa only [Act.uses, Act.spots, Act.exprs, Expr.spotsIn, List.append_nil] using hcount

theorem HasType.assign_usesOnce {target exp : Expr} {α β : Ty} (htarget : HasType Γ target α)
    (hexp : HasType Γ exp β) : (Act.assign target exp).UsesOnce := by
  intro ρ n u
  have hvalue := hexp.count_uses ρ u (n + target.literals.length)
  unfold Act.uses
  split
  · rename_i heq
    cases heq
    rename_i array i
    cases htarget with
    | index harray hi _ =>
      have h₁ := harray.count_uses ρ u n
      have h₂ := hi.count_uses ρ u (n + array.literals.length)
      rw [Expr.literals, List.length_append, ← Nat.add_assoc] at hvalue
      simp only [Act.spots, Act.exprs, Expr.spotsIn, Expr.spots, Expr.literals, List.append_nil,
        List.count_append, List.length_append, ← Nat.add_assoc]
      omega
  · rename_i heq
    cases heq
    have h₁ := htarget.count_uses ρ u n
    simp only [Act.spots, Act.exprs, Expr.spotsIn, List.append_nil, List.count_append]
    omega
  · rename_i heq
    cases heq
  · rename_i heq
    cases heq

theorem Stmt.IsClause.usesOnce {st : Stmt} (hst : st.IsClause) (h : st.WellTyped ret Γ) (ρ : Env)
    (k : Nat) : ∀ c ∈ st.scenes ρ k, c.act.UsesOnce := by
  cases hst with
  | assign _ _ _ =>
    cases h with
    | assign htarget hvalue _ =>
      exact List.forall_mem_singleton.mpr (htarget.assign_usesOnce hvalue)
  | call hcall _ =>
    cases h with
    | call he => exact List.forall_mem_singleton.mpr (he.run_usesOnce hcall)

theorem IsTruth.ask_usesOnce {e : Expr} (h : IsTruth Γ e) : (Act.ask e).UsesOnce := by
  obtain ⟨τ, hτ, -⟩ := h
  exact hτ.ask_usesOnce

end Once

mutual

theorem Stmt.Proper.usesOnce {ret : Ty} {Γ : Scope} (ρ : Env) : ∀ (st : Stmt) (k : Nat), st.Proper →
    st.WellTyped ret Γ → ∀ c ∈ st.scenes ρ k, c.act.UsesOnce
  | .assign _ _ _, k, hst, h | .call _ _, k, hst, h => Stmt.IsClause.usesOnce hst h ρ k
  | .ifThen _ _ body, k, hst, h => by
      cases h with
      | ifThen hcond hbody =>
        have hb := Block.Proper.usesOnce ρ body k hst.2 hbody
        exact List.forall_mem_cons.mpr ⟨hcond.ask_usesOnce, hb⟩
  | .ifElse _ _ thenBody elseBody, k, hst, h => by
      cases h with
      | ifElse hcond hthen helse =>
        have ha := Block.Proper.usesOnce ρ thenBody k hst.2.1 hthen
        have hb := Block.Proper.usesOnce ρ elseBody (k + thenBody.slots) hst.2.2 helse
        exact List.forall_mem_cons.mpr ⟨hcond.ask_usesOnce, List.forall_mem_append.mpr ⟨ha, hb⟩⟩
  | .whileLoop _ _ body, k, hst, h => by
      cases h with
      | whileLoop hcond hbody =>
        have hb := Block.Proper.usesOnce ρ body k hst.2 hbody
        exact List.forall_mem_cons.mpr ⟨hcond.ask_usesOnce, hb⟩
  | .forLoop _ init _ step body, k, hst, h => by
      cases h with
      | forLoop hinit hcond hstep hbody =>
        have hi := hst.1.usesOnce hinit ρ k
        have hb := Block.Proper.usesOnce ρ body (k + init.slots) hst.2.2.2 hbody
        have hn := hst.2.2.1.usesOnce hstep ρ (k + init.slots + body.slots)
        exact List.forall_mem_append.mpr ⟨hi, List.forall_mem_cons.mpr
          ⟨hcond.ask_usesOnce, List.forall_mem_append.mpr ⟨hb, hn⟩⟩⟩
  | .ret _ none, _, _, _ => fun _ hc => absurd hc List.not_mem_nil
  | .ret _ (some e), _, _, h => by
      cases h with
      | retSome he _ => exact List.forall_mem_singleton.mpr he.ask_usesOnce
  | .misplaced _, _, hst, _ | .missing _ _, _, hst, _ => hst.elim

theorem Block.Proper.usesOnce {ret : Ty} {Γ : Scope} {frame : Frame} (ρ : Env) :
    ∀ (b : Block) (k : Nat), b.Proper → b.WellTyped ret Γ frame →
      ∀ c ∈ b.scenes ρ k, c.act.UsesOnce
  | .mk _ ds sts, k, hb, h => by
      cases h with
      | mk _ hstmts => exact Stmt.AllProper.usesOnce _ sts _ hb.2 hstmts

theorem Stmt.AllProper.usesOnce {ret : Ty} {Γ : Scope} (ρ : Env) : ∀ (sts : List Stmt) (k : Nat),
    Stmt.AllProper sts → Stmt.AllWellTyped ret Γ sts → ∀ c ∈ Stmt.scenesOf ρ k sts, c.act.UsesOnce
  | [], _, _, _ => fun _ hc => absurd hc List.not_mem_nil
  | st :: sts, k, hsts, h => by
      cases h with
      | cons hst hrest =>
        exact List.forall_mem_append.mpr ⟨Stmt.Proper.usesOnce ρ st k hsts.1 hst,
          Stmt.AllProper.usesOnce ρ sts (k + st.slots) hsts.2 hrest⟩

end

/-- **What is written is used once**: the two lists hold the same uses. -/
theorem usesOf_perm : ∀ {cs : List Scene} (n : Nat), (∀ c ∈ cs, c.act.UsesOnce) →
    (usesOf n cs).Perm (spotsOf n cs)
  | [], _, _ => .nil
  | c :: cs, n, h => by
      obtain ⟨hc, hcs⟩ := List.forall_mem_cons.mp h
      exact (List.perm_iff_count.mpr (hc c.env n)).append (usesOf_perm _ hcs)

/-! ## 5. Where names are stored -/

theorem length_placedIn : ∀ {ds : List Decl}, (∀ d ∈ ds, d.IsBinding) →
    (placedIn ds).length = ds.length
  | [], _ => rfl
  | d :: ds, h => by
      obtain ⟨hd, hds⟩ := List.forall_mem_cons.mp h
      obtain ⟨x, hx⟩ := hd.placed?
      rw [placedIn, List.filterMap_cons_some hx, List.length_cons, List.length_cons,
        ← length_placedIn hds]
      rfl

namespace Env

variable {cell : Nat → Cell}

/-- One declaration: a binding of the next number, or nothing. -/
theorem declare_cons (cell : Nat → Cell) (k : Nat) (ρ : Env) (d : Decl) :
    (d.placed? = none ∧ ∀ ds, Env.declare cell k ρ (d :: ds) = Env.declare cell k ρ ds) ∨
      ∃ x array, d.placed? = some x ∧ ∀ ds,
        Env.declare cell k ρ (d :: ds) = Env.declare cell (k + 1) (⟨x, cell k, array⟩ :: ρ) ds := by
  cases d with
  | «variable» _ x ty => exact .inr ⟨x, _, rfl, fun _ => rfl⟩
  | parameter _ x ty => exact .inr ⟨x, _, rfl, fun _ => rfl⟩
  | _ => exact .inl ⟨rfl, fun _ => rfl⟩

/-- A binding stood there before, or it is one of those numbered from `k` on. -/
theorem mem_declare : ∀ {ds : List Decl} {k : Nat} {ρ : Env}, ∀ b ∈ Env.declare cell k ρ ds,
    b ∈ ρ ∨ ∃ j, k ≤ j ∧ j < k + (placedIn ds).length ∧ b.cell = cell j
  | [], _, _, _, hb => .inl hb
  | d :: ds, k, ρ, b, hb => by
      rcases declare_cons cell k ρ d with ⟨hnone, heq⟩ | ⟨x, array, hsome, heq⟩
      · rw [heq] at hb
        rw [placedIn, List.filterMap_cons_none hnone]
        exact mem_declare b hb
      · rw [heq] at hb
        rw [placedIn, List.filterMap_cons_some hsome, List.length_cons]
        rcases mem_declare b hb with hb | ⟨j, hle, hlt, hj⟩
        · rcases List.mem_cons.mp hb with hb | hb
          · exact .inr ⟨k, Nat.le_refl k, by omega, hb ▸ rfl⟩
          · exact .inl hb
        · exact .inr ⟨j, by omega, by unfold placedIn at hlt; omega, hj⟩

/-- Bindings to different cells, and the next ones numbered with other cells. -/
theorem nodup_declare (hcell : ∀ i j, cell i = cell j → i = j) :
    ∀ {ds : List Decl} {k : Nat} {ρ : Env}, (ρ.map Binding.cell).Nodup →
      (∀ b ∈ ρ, ∀ j, k ≤ j → b.cell ≠ cell j) →
      ((Env.declare cell k ρ ds).map Binding.cell).Nodup
  | [], _, _, h, _ => h
  | d :: ds, k, ρ, h, hnext => by
      rcases declare_cons cell k ρ d with ⟨-, heq⟩ | ⟨x, array, -, heq⟩
      · rw [heq]
        exact nodup_declare hcell h hnext
      · rw [heq]
        have hfresh : cell k ∉ ρ.map Binding.cell := by
          intro hmem
          obtain ⟨b, hb, hbk⟩ := List.mem_map.mp hmem
          exact hnext b hb k (Nat.le_refl k) hbk
        refine nodup_declare hcell (List.nodup_cons.mpr ⟨hfresh, h⟩) fun b hb j hj => ?_
        rcases List.mem_cons.mp hb with hb | hb
        · rw [hb]
          intro hkj
          have := hcell k j hkj
          omega
        · exact hnext b hb j (by omega)

end Env

/-- The cell is one of so many globals, parameters and locals. -/
def Cell.Within (globals params locals : Nat) : Cell → Prop
  | .global k => k < globals
  | .param k => k < params
  | .local k => k < locals

/-- **Names are stored apart**: each declaration has a cell of its own, among so many globals,
    parameters and locals. -/
structure Env.Apart (globals params locals : Nat) (ρ : Env) : Prop where
  nodup : (ρ.map Binding.cell).Nodup
  within : ∀ b ∈ ρ, b.cell.Within globals params locals

namespace Env.Apart

variable {ρ : Env} {globals params locals : Nat}

theorem widen {l : Nat} (h : ρ.Apart globals params locals) (hle : locals ≤ l) :
    ρ.Apart globals params l := by
  refine ⟨h.nodup, fun b hb => ?_⟩
  have hwithin := h.within b hb
  cases hb : b.cell with
  | «local» k =>
    rw [hb] at hwithin
    exact Nat.lt_of_lt_of_le hwithin hle
  | _ =>
    rw [hb] at hwithin
    exact hwithin

/-- The locals of one more block. -/
theorem declare (h : ρ.Apart globals params locals) (ds : List Decl) :
    (Env.declare .local locals ρ ds).Apart globals params (locals + (placedIn ds).length) := by
  refine ⟨Env.nodup_declare (fun _ _ => Cell.local.inj) h.nodup fun b hb j hj hcell => ?_,
    fun b hb => ?_⟩
  · have hwithin := h.within b hb
    rw [hcell] at hwithin
    exact absurd hwithin (Nat.not_lt.mpr hj)
  · rcases Env.mem_declare b hb with hb | ⟨j, -, hlt, hj⟩
    · exact (h.widen (Nat.le_add_right _ _)).within b hb
    · rw [hj]
      exact hlt

theorem ofFunction (before params : List Decl) :
    (Env.ofFunction before params).Apart (placedIn before).length (placedIn params).length 0 := by
  have hglobal : ∀ b ∈ Env.declare .global 0 [] before,
      ∃ j, j < (placedIn before).length ∧ b.cell = .global j := by
    intro b hb
    rcases Env.mem_declare b hb with hb | ⟨j, -, hlt, hj⟩
    · exact absurd hb List.not_mem_nil
    · exact ⟨j, by omega, hj⟩
  refine ⟨?_, fun b hb => ?_⟩
  · refine Env.nodup_declare (fun _ _ => Cell.param.inj) ?_ fun b hb j _ hcell => ?_
    · exact Env.nodup_declare (fun _ _ => Cell.global.inj) List.nodup_nil
        fun _ hb => absurd hb List.not_mem_nil
    · obtain ⟨i, -, hi⟩ := hglobal b hb
      rw [hi] at hcell
      cases hcell
  · rcases Env.mem_declare b hb with hb | ⟨j, -, hlt, hj⟩
    · obtain ⟨i, hlt, hi⟩ := hglobal b hb
      rw [hi]
      exact hlt
    · rw [hj]
      show j < (placedIn params).length
      omega

/-- **Different names are stored in different places.** -/
theorem home_inj (h : ρ.Apart globals params locals) {x y : String} {a : Address}
    (hx : ρ.home x = some a) (hy : ρ.home y = some a) : x = y := by
  obtain ⟨b, hb, hba⟩ := Option.map_eq_some_iff.mp hx
  obtain ⟨c, hc, hca⟩ := Option.map_eq_some_iff.mp hy
  have hcell : b.cell = c.cell := Cell.address_inj (hba.trans hca.symm)
  have hbc : b = c := List.inj_on_of_nodup_map h.nodup (List.mem_of_find?_eq_some hb)
    (List.mem_of_find?_eq_some hc) hcell
  have hbx := List.find?_some hb
  have hcy := List.find?_some hc
  rw [beq_iff_eq] at hbx hcy
  rw [← hbx, ← hcy, hbc]

end Env.Apart

theorem Stmt.IsClause.env_scenes {st : Stmt} (h : st.IsClause) (ρ : Env) (k : Nat) :
    ∀ c ∈ st.scenes ρ k, c.env = ρ := by
  cases h with
  | assign _ _ _ => exact List.forall_mem_singleton.mpr rfl
  | call _ _ => exact List.forall_mem_singleton.mpr rfl

mutual

/-- At each act of a statement names are stored apart. -/
theorem Stmt.Proper.apart {globals params : Nat} : ∀ (st : Stmt) {ρ : Env} {k : Nat}, st.Proper →
    ρ.Apart globals params k → ∀ c ∈ st.scenes ρ k, c.env.Apart globals params (k + st.slots)
  | .assign _ _ _, _, _, _, h | .call _ _, _, _, _, h => List.forall_mem_singleton.mpr h
  | .ifThen _ _ body, ρ, k, hst, h | .whileLoop _ _ body, ρ, k, hst, h => by
      have hb := Block.Proper.apart body hst.2 h
      exact List.forall_mem_cons.mpr ⟨h.widen (Nat.le_add_right _ _), hb⟩
  | .ifElse _ _ thenBody elseBody, ρ, k, hst, h => by
      have ha := Block.Proper.apart thenBody hst.2.1 h
      have hb := Block.Proper.apart elseBody hst.2.2 (h.widen (Nat.le_add_right k thenBody.slots))
      refine List.forall_mem_cons.mpr ⟨h.widen (Nat.le_add_right _ _),
        List.forall_mem_append.mpr ⟨fun c hc => (ha c hc).widen ?_, fun c hc => ?_⟩⟩
      · rw [Stmt.slots]
        omega
      · rw [Stmt.slots, ← Nat.add_assoc]
        exact hb c hc
  | .forLoop pos init cond step body, ρ, k, hst, h => by
      have hwide := h.widen (Nat.le_add_right k (Stmt.forLoop pos init cond step body).slots)
      have hi : ∀ c ∈ init.scenes ρ k, c.env = ρ := hst.1.env_scenes ρ k
      have hb := Block.Proper.apart body hst.2.2.2 (h.widen (Nat.le_add_right k init.slots))
      have hn : ∀ c ∈ step.scenes ρ (k + init.slots + body.slots), c.env = ρ :=
        hst.2.2.1.env_scenes ρ _
      refine List.forall_mem_append.mpr ⟨fun c hc => hi c hc ▸ hwide, List.forall_mem_cons.mpr
        ⟨hwide, List.forall_mem_append.mpr ⟨fun c hc => ?_, fun c hc => hn c hc ▸ hwide⟩⟩⟩
      refine (hb c hc).widen ?_
      rw [Stmt.slots]
      omega
  | .ret _ none, _, _, _, _ => fun _ hc => absurd hc List.not_mem_nil
  | .ret _ (some e), _, _, _, h => List.forall_mem_singleton.mpr h
  | .misplaced _, _, _, hst, _ | .missing _ _, _, _, hst, _ => hst.elim

theorem Block.Proper.apart {globals params : Nat} : ∀ (b : Block) {ρ : Env} {k : Nat}, b.Proper →
    ρ.Apart globals params k → ∀ c ∈ b.scenes ρ k, c.env.Apart globals params (k + b.slots)
  | .mk _ ds sts, ρ, k, hb, h => by
      have hdeclared := h.declare ds
      rw [length_placedIn (binding_of_variables hb.1)] at hdeclared
      rw [Block.slots, ← Nat.add_assoc]
      exact Stmt.AllProper.apart sts hb.2 hdeclared

theorem Stmt.AllProper.apart {globals params : Nat} : ∀ (sts : List Stmt) {ρ : Env} {k : Nat},
    Stmt.AllProper sts → ρ.Apart globals params k →
      ∀ c ∈ Stmt.scenesOf ρ k sts, c.env.Apart globals params (k + Stmt.slotsOf sts)
  | [], _, _, _, _ => fun _ hc => absurd hc List.not_mem_nil
  | st :: sts, ρ, k, hsts, h => by
      have hfirst := Stmt.Proper.apart st hsts.1 h
      have hrest := Stmt.AllProper.apart sts hsts.2 (h.widen (Nat.le_add_right k st.slots))
      rw [Stmt.slotsOf, ← Nat.add_assoc]
      exact List.forall_mem_append.mpr
        ⟨fun c hc => (hfirst c hc).widen (Nat.le_add_right _ _), hrest⟩

end

end CMinusMinus
