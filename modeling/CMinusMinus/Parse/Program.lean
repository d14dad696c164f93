/-
  File:      CMinusMinus/Parse/Program.lean
  Subject:   Reading types, declarations, statements and programs.

  Each construct is recognised by its first token and read from left to right without going back.
  A statement that does not start with a keyword is an assignment or a call. What stands left of
  `=` is read as a unary expression and then checked to be a location.
-/
import CMinusMinus.Parse.Expr
import CMinusMinus.Program

namespace CMinusMinus.Parse

/-! ## 1. Types and variable declarations -/

/-- The stars ahead, which are counted and passed over. -/
def stars (s : Stream) : Reading Nat (s.size + 1) :=
  match s.accept? .star with
  | none => .done 0 s
  | some ⟨next, hnext⟩ =>
      Reading.loosen (((stars next).follow hnext).andThen fun n rest h => .ok ⟨n + 1, rest, h⟩)
termination_by s.size

/-- A base type and its stars. -/
def type (s : Stream) : Reading Ty s.size :=
  match s.take? with
  | none => .error (.unexpected .typeExpected s.here)
  | some (t, ⟨next, hnext⟩) =>
      if s.isAtType then
        ((stars next).follow hnext).andThen fun n rest h =>
          .ok ⟨{ name := t.text, pointers := n }, rest, h⟩
      else .error (.unexpected .typeExpected s.here)

/-- The size of an array in brackets, if there is one. -/
def extent (s : Stream) : Reading (Option Int) (s.size + 1) :=
  match s.accept? .lbracket with
  | none => .done none s
  | some ⟨inner, hinner⟩ =>
      Reading.loosen (((inner.expect .number .sizeExpected).follow hinner).andThen
        fun size rest hrest =>
          ((rest.expect .rbracket .sizeEndExpected).follow hrest).andThen fun _ after h =>
            match Text.readInt size.text.toList with
            | .error f => .error (.numeral f)
            | .ok n => .ok ⟨some n, after, h⟩)

/-- What follows the name in a variable declaration. -/
def varRest (pos : Position) (ty : Ty) (name : String) (s : Stream) :
    Reading Decl (s.size + 1) :=
  (extent s).andThen fun size? rest hrest =>
    ((rest.expect .semicolon .declEndExpected).follow hrest).andThen fun _ after h =>
      .ok ⟨.variable pos name { ty with extent := size? }, after, h⟩

/-- A type and a name; the position is that of the type. -/
def typedName (problem : SyntaxProblem) (s : Stream) : Reading (Position × Ty × String) s.size :=
  (type s).andThen fun ty rest hrest =>
    ((rest.expect .identifier problem).follow hrest).andThen fun name after h =>
      .ok ⟨(s.pos, ty, name.text), after, h⟩

/-- The variable declarations at the start of a block. -/
def locals (s : Stream) : Reading (List Decl) (s.size + 1) :=
  if s.isAtType then
    Reading.loosen ((typedName .nameExpected s).andThen fun (pos, ty, name) s₁ h₁ =>
      ((varRest pos ty name s₁).follow h₁).andThen fun d s₂ h₂ =>
        ((locals s₂).follow h₂).andThen fun ds after h => .ok ⟨d :: ds, after, h⟩)
  else .done [] s
termination_by s.size

/-- One parameter and those after it. -/
def params (s : Stream) : Reading (List Decl) s.size :=
  (typedName .paramNameExpected s).andThen fun (pos, ty, name) rest hrest =>
    match rest.accept? .comma with
    | none => .ok ⟨[.parameter pos name ty], rest, hrest⟩
    | some ⟨inner, hinner⟩ =>
        (((params inner).within hinner).within hrest).andThen fun ps after h =>
          .ok ⟨.parameter pos name ty :: ps, after, h⟩
termination_by s.size

/-- The parameters of a function, up to the closing parenthesis. -/
def formals (s : Stream) : Reading (List Decl) (s.size + 1) :=
  if s.isAt .rparen then .done [] s else (params s).loosen

/-! ## 2. Statements -/

/-- An assignment or a call, without the semicolon. -/
def simple (s : Stream) : Reading Stmt s.size :=
  (unary s).andThen fun target s₁ h₁ =>
    if target.isCall && !s₁.isAt .assign then .ok ⟨.call s.pos target, s₁, h₁⟩
    else if target.isLocation then
      ((s₁.expect .assign .assignExpected).follow h₁).andThen fun _ s₂ h₂ =>
        ((expression s₂).within h₂).andThen fun value after h =>
          .ok ⟨.assign s.pos target value, after, h⟩
    else .error (.unexpected .locationExpected s.here)

/-- A condition between parentheses. -/
def condition (start finish : SyntaxProblem) (s : Stream) : Reading Expr (s.size + 1) :=
  (s.expect .lparen start).andThen fun _ s₁ h₁ =>
    ((expression s₁).within h₁).andThen fun cond s₂ h₂ =>
      ((s₂.expect .rparen finish).follow h₂).andThen fun _ after h => .ok ⟨cond, after, h⟩

/-- What follows `return`. -/
def returned (pos : Position) (s : Stream) : Reading Stmt (s.size + 1) :=
  match s.accept? .semicolon with
  | some ⟨after, h⟩ => Reading.loosen (.ok ⟨.ret pos none, after, h⟩)
  | none =>
      Reading.loosen ((expression s).andThen fun value rest hrest =>
        ((rest.expect .semicolon .returnEndExpected).follow hrest).andThen fun _ after h =>
          .ok ⟨.ret pos (some value), after, h⟩)

/-- The three clauses of a `for` between parentheses. -/
def clauses (s : Stream) : Reading (Stmt × Expr × Stmt) (s.size + 1) :=
  (s.expect .lparen .forStartExpected).andThen fun _ s₁ h₁ =>
    ((simple s₁).within h₁).andThen fun init s₂ h₂ =>
      ((s₂.expect .semicolon .forInitEndExpected).follow h₂).andThen fun _ s₃ h₃ =>
        ((expression s₃).within h₃).andThen fun cond s₄ h₄ =>
          ((s₄.expect .semicolon .forConditionEndExpected).follow h₄).andThen fun _ s₅ h₅ =>
            ((simple s₅).within h₅).andThen fun step s₆ h₆ =>
              ((s₆.expect .rparen .forEndExpected).follow h₆).andThen fun _ after h =>
                .ok ⟨(init, cond, step), after, h⟩

mutual

/-- A block: its declarations and statements between braces. -/
def body (s : Stream) : Reading Block s.size :=
  match s.take? with
  | none => .error (.unexpected .bodyExpected s.here)
  | some (t, ⟨next, hnext⟩) =>
      if t.kind = .lbrace then
        ((locals next).follow hnext).andThen fun ds s₁ h₁ =>
          ((statements s₁).follow h₁).andThen fun ss s₂ h₂ =>
            ((s₂.expect .rbrace .bodyOpen).follow h₂).andThen fun _ after h =>
              .ok ⟨.mk t.pos ds ss, after, h⟩
      else .error (.unexpected .bodyExpected (some t))
termination_by weight s 0
decreasing_by all_goals simp only [weight]; omega

/-- The statements of a block, up to its closing brace. -/
def statements (s : Stream) : Reading (List Stmt) (s.size + 1) :=
  if s.isAt .rbrace then .done [] s
  else if s.isAt .eof then .error (.unexpected .bodyOpen s.here)
  else
    Reading.loosen ((statement s).andThen fun st rest hrest =>
      ((statements rest).follow hrest).andThen fun sts after h => .ok ⟨st :: sts, after, h⟩)
termination_by weight s 2
decreasing_by all_goals simp only [weight]; omega

/-- A statement. -/
def statement (s : Stream) : Reading Stmt s.size :=
  match s.take? with
  | none => .error s.noExpression
  | some (t, ⟨next, hnext⟩) =>
      if t.kind = .keyword then
        match t.text with
        | "return" => (returned t.pos next).follow hnext
        | "if" =>
            ((condition .ifStartExpected .ifEndExpected next).follow hnext).andThen
              fun cond s₁ h₁ =>
                ((body s₁).within h₁).andThen fun yes s₂ h₂ =>
                  match s₂.acceptKeyword? "else" with
                  | none => .ok ⟨.ifThen t.pos cond yes, s₂, h₂⟩
                  | some ⟨s₃, h₃⟩ =>
                      (((body s₃).within h₃).within h₂).andThen fun no after h =>
                        .ok ⟨.ifElse t.pos cond yes no, after, h⟩
        | "while" =>
            ((condition .whileStartExpected .whileEndExpected next).follow hnext).andThen
              fun cond s₁ h₁ =>
                ((body s₁).within h₁).andThen fun b after h =>
                  .ok ⟨.whileLoop t.pos cond b, after, h⟩
        | "for" =>
            ((clauses next).follow hnext).andThen fun (init, cond, step) s₁ h₁ =>
              ((body s₁).within h₁).andThen fun b after h =>
                .ok ⟨.forLoop t.pos init cond step b, after, h⟩
        | text => .error (.unexpected (.strayKeyword text) (some t))
      else
        (simple s).andThen fun st rest hrest =>
          ((rest.expect .semicolon .stmtEndExpected).follow hrest).andThen fun _ after h =>
            .ok ⟨st, after, h⟩
termination_by weight s 1
decreasing_by all_goals simp only [weight]; omega

end

/-! ## 3. Programs -/

/-- What follows the parameters of a function: a semicolon or a body. -/
def functionRest (head : FnHead) (params : List Decl) (s : Stream) : Reading Decl (s.size + 1) :=
  match s.accept? .semicolon with
  | some ⟨after, h⟩ => Reading.loosen (.ok ⟨.prototype head params, after, h⟩)
  | none =>
      Reading.loosen ((body s).andThen fun b after h => .ok ⟨.function head params b, after, h⟩)

/-- A declaration at the top of a program. -/
def declaration (s : Stream) : Reading Decl s.size :=
  (typedName .nameExpected s).andThen fun (pos, ty, name) rest hrest =>
    match rest.accept? .lparen with
    | none => (varRest pos ty name rest).follow hrest
    | some ⟨inner, hinner⟩ =>
        Reading.within (((formals inner).follow hinner).andThen fun ps s₁ h₁ =>
          ((s₁.expect .rparen .paramsEndExpected).follow h₁).andThen fun _ s₂ h₂ =>
            (functionRest ⟨pos, name, ty⟩ ps s₂).follow h₂) hrest

/-- The declarations up to the end of input. -/
def declarations (s : Stream) : Reading (List Decl) (s.size + 1) :=
  if s.here.isNone || s.isAt .eof then .done [] s
  else
    Reading.loosen ((declaration s).andThen fun d rest hrest =>
      ((declarations rest).follow hrest).andThen fun ds after h => .ok ⟨d :: ds, after, h⟩)
termination_by s.size

/-- Reads a program from a token list. -/
def program (tokens : List Token) : Except ParseFault Program :=
  match declarations (.ofTokens tokens) with
  | .error f => .error f
  | .ok p => .ok ⟨p.value⟩

end CMinusMinus.Parse
