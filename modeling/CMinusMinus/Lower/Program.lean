/-
  File:      CMinusMinus/Lower/Program.lean
  Subject:   The code of statements, functions and programs.

  Lowering builds its own scopes, this time with addresses: globals at the top, parameters
  and the declarations of all blocks within a function in the function's own spaces. Each
  statement is given a label for what follows it, and that label is defined after the statement
  only if its code uses it.
-/
import CMinusMinus.Lower.Expr

namespace CMinusMinus.Lower

/-! ## 1. Declarations -/

/-- A frame after a declaration. A refused one is a fault. -/
def declare (frame : Frame) (name : String) (entry : Entry) (s : State) : Frame × State :=
  match frame.add name entry with
  | .ok frame' => (frame', s.note (.trace (Check.declarationTrace frame name entry)))
  | .error d => (frame, s.fail (.defect d))

/-- A variable gets the next slot of a space. -/
def place (space : Space) (frame : Frame) (name : String) (ty : Ty) (s : State) : Frame × State :=
  let home := s.alloc.nextAddress space
  declare frame name (.variable ⟨ty, some home⟩) { s with alloc := s.alloc.bump space }

/-- What keeps a node from being placed: it has no name or, if it has one, no type. -/
def unplaceable (kind : String) : Fault := .noPart kind (if hasName kind then .type else .name)

/-- A declaration of a block or a parameter list: it must be a variable or a parameter. -/
def placeDecl (space : Space) (frame : Frame) (d : Decl) (s : State) : Frame × State :=
  match d with
  | .variable _ name ty | .parameter _ name ty => place space frame name ty s
  | d => (frame, s.fail (unplaceable d.kind))

/-- The declarations of a block or a parameter list one after the other. -/
def placeDecls (space : Space) (frame : Frame) : List Decl → State → Frame × State
  | [], s => (frame, s)
  | d :: ds, s =>
      let first := placeDecl space frame d s
      placeDecls space first.1 ds first.2

/-! ## 2. Statements -/

/-- An assignment: the target's parts, then the value. -/
def assignment (scope : Scope) (target exp : Expr) (s : State) : Lowered :=
  match target with
  | .index _ array index =>
      let base := value scope array s
      let i := value scope index base.after
      let v := value scope exp i.after
      ⟨base.code ++ i.code ++ v.code ++ [.store base.operand i.operand v.operand], v.after⟩
  | _ =>
      let dest := value scope target s
      let v := value scope exp dest.after
      ⟨dest.code ++ v.code ++ [.move dest.operand v.operand], v.after⟩

/-- A return from the function with the code label. -/
def returned (label : String) (scope : Scope) (exp : Option Expr) (s : State) : Lowered :=
  match exp with
  | none => ⟨[.ret label], s⟩
  | some e =>
      let v := value scope e s
      ⟨v.code ++ [.retValue label v.operand], v.after⟩

/-- An expression evaluated for its effect. Only a call has one; of anything else the name is
    asked in vain, or the name of its name. -/
def effect (scope : Scope) (e : Expr) (s : State) : Lowered :=
  if e.isCall then
    let v := value scope e s
    ⟨v.code, v.after⟩
  else ⟨[], s.fail (.noPart (if hasName e.kind then textKind else e.kind) .name)⟩

/-- The targets of a condition. -/
def targets (onTrue : Label) (onFalse : Target) : Targets Target := ⟨some onTrue, onFalse, none⟩

mutual

/-- A statement of the function with the code label; `next` is where it goes on. -/
def stmt (label : String) (scope : Scope) : Stmt → Target → State → Lowered
  | .assign _ target exp, _, s => assignment scope target exp s
  | .ifThen _ cond body, next, s =>
      let yes := s.label
      let c := branch scope cond (targets yes next) s.afterLabel
      let b := block label scope [] body c.after
      ⟨c.code ++ [.label yes] ++ b.code, b.after⟩
  | .ifElse _ cond thenBody elseBody, next, s =>
      let yes := s.label
      let s₁ := s.afterLabel
      let no := s₁.label
      let c := branch scope cond (targets yes (some no)) s₁.afterLabel
      let a := block label scope [] thenBody c.after
      let b := block label scope [] elseBody a.after
      ⟨c.code ++ [.label yes] ++ a.code ++ [.jump next, .label no] ++ b.code, b.after⟩
  | .whileLoop _ cond body, next, s =>
      let top := s.label
      let s₁ := s.afterLabel
      let yes := s₁.label
      let c := branch scope cond (targets yes next) s₁.afterLabel
      let b := block label scope [] body c.after
      ⟨[.label top] ++ c.code ++ [.label yes] ++ b.code ++ [.jump (some top)], b.after⟩
  | .forLoop _ init cond step body, next, s =>
      let top := s.label
      let s₁ := s.afterLabel
      let yes := s₁.label
      let i := stmt label scope init none s₁.afterLabel
      let c := branch scope cond (targets yes next) i.after
      let b := block label scope [] body c.after
      let n := stmt label scope step none b.after
      ⟨i.code ++ [.label top] ++ c.code ++ [.label yes] ++ b.code ++ n.code ++
        [.jump (some top)], n.after⟩
  | .call _ e, _, s => effect scope e s
  | .ret _ exp, _, s => returned label scope exp s
  | .misplaced kind, _, s => ⟨[], s.fail (.misplaced .statement kind)⟩
  | .missing kind part, _, s => ⟨[], s.fail (.noPart kind part)⟩

/-- A block whose frame already holds `frame`. -/
def block (label : String) (scope : Scope) (frame : Frame) : Block → State → Lowered
  | .mk _ decls body, s =>
      let declared := placeDecls .local frame decls s
      stmts label (scope.push declared.1) body declared.2

/-- Statements one after the other, each with a label for what follows it. -/
def stmts (label : String) (scope : Scope) : List Stmt → State → Lowered
  | [], s => ⟨[], s⟩
  | st :: sts, s =>
      let next := s.label
      let first := stmt label scope st (some next) s.afterLabel
      let others := stmts label scope sts first.after
      let mark : List Instr := if first.code.any (·.uses next) then [.label next] else []
      ⟨first.code ++ mark ++ others.code, others.after⟩

end

/-! ## 3. Programs -/

/-- A function with parameters of known types: they share one frame with the declarations of its
    body. -/
def function (globals : Frame) (head : FnHead) (params : List Decl) (tys : List Ty) (body : Block)
    (s : State) : Frame × Lowered :=
  let label := codeLabel head.name tys
  let s₀ : State := { s with alloc := s.alloc.resetFunction }
  let declared := declare globals head.name (.function ⟨head.ret, tys, false⟩) s₀
  let s₁ := declared.2.note (.trace (.loweringFunction label))
  let formals := placeDecls .param [] params s₁
  let b := block label { globals := declared.1 } formals.1 body formals.2
  let counts := b.after.alloc
  (declared.1,
    ⟨[.func label, .frame counts.locals counts.temporaries] ++ b.code ++ [.endFunc label],
      b.after⟩)

/-- A declaration at the top of a program: the globals after it, its code, the state after it. -/
def decl (globals : Frame) (d : Decl) (s : State) : Frame × Lowered :=
  match d with
  | .variable _ name ty =>
      let placed := place .global globals name ty s
      (placed.1, ⟨[], placed.2⟩)
  | .prototype head params =>
      match paramTypes params with
      | .ok tys =>
          let declared := declare globals head.name (.function ⟨head.ret, tys, true⟩) s
          (declared.1, ⟨[], declared.2⟩)
      | .error f => (globals, ⟨[], s.fail f⟩)
  | .function head params body =>
      match paramTypes params with
      | .ok tys => function globals head params tys body s
      | .error f => (globals, ⟨[], s.fail f⟩)
  | d => (globals, ⟨[], s.fail (.misplaced .declaration d.kind)⟩)

/-- Declarations one after the other. -/
def decls (globals : Frame) : List Decl → State → Lowered
  | [], s => ⟨[], s⟩
  | d :: ds, s =>
      let first := decl globals d s
      let others := decls first.1 ds first.2.after
      ⟨first.2.code ++ others.code, others.after⟩

/-- The function that a program starts with. -/
def entryName : String := "main"

/-- Lowers a program: its string constants, its entry, its functions. -/
def program (p : Program) (s : State) : Lowered :=
  let body := decls [] p.decls s
  let alloc := body.after.alloc
  ⟨alloc.pool.map .string ++ [.entry (codeLabel entryName []) alloc.globals] ++ body.code,
    body.after⟩

/-- The code of a lowered program, or the first fault met. -/
def result (p : Program) (s : State) : Except Fault (List Instr × State) :=
  let lowered := program p s
  match lowered.after.journal.fault? with
  | some f => .error f
  | none => .ok (lowered.code, lowered.after)

end CMinusMinus.Lower
