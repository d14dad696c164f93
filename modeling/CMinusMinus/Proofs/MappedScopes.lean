/-
  File:      CMinusMinus/Proofs/MappedScopes.lean
  Subject:   Scopes with their variables replaced one by one.

  Declaring looks at names and at the parameters of functions, a lookup finds an entry by its name.
  Neither looks into a variable. So replacing each variable of a scope by another one commutes with
  both; and if the types of the variables stay, so do the types of expressions and all that is found
  in them.

  * `Frame.mapVars`, `Scope.mapVars` -- the variables replaced;
  * `Frame.mapVars_add` -- declaring;
  * `Scope.mapVars_var?`, `Scope.mapVars_function?`, `Scope.mapVars_soundVar?` -- lookups;
  * `Check.typeOf_mapVars` -- the types of expressions.
-/
import CMinusMinus.Check.Expr
import CMinusMinus.Scope

namespace CMinusMinus

variable {f : Variable → Variable}

/-! ## 1. Replacing variables -/

/-- The entry with another variable. -/
def Entry.mapVar (f : Variable → Variable) : Entry → Entry
  | .variable v => .variable (f v)
  | .function g => .function g

/-- The frame with other variables under the same names. -/
def Frame.mapVars (f : Variable → Variable) (frame : Frame) : Frame :=
  frame.map fun b => (b.1, b.2.mapVar f)

/-- The scope with other variables under the same names. -/
def Scope.mapVars (f : Variable → Variable) (Γ : Scope) : Scope :=
  ⟨Γ.inner.map (Frame.mapVars f), Frame.mapVars f Γ.globals⟩

@[simp] theorem Scope.mapVars_push (Γ : Scope) (frame : Frame) :
    (Γ.push frame).mapVars f = (Γ.mapVars f).push (Frame.mapVars f frame) := rfl

theorem Scope.frames_mapVars (Γ : Scope) :
    (Γ.mapVars f).frames = Γ.frames.map (Frame.mapVars f) := by
  simp [frames, mapVars]

/-! ## 2. Lookups -/

theorem Frame.mapVars_var? (name : String) : ∀ frame : Frame,
    (Frame.mapVars f frame).var? name = (frame.var? name).map f
  | [] => rfl
  | (n, .variable v) :: rest => by
      have ih := Frame.mapVars_var? name rest
      unfold Frame.mapVars Frame.var? at ih ⊢
      rw [List.map_cons, List.findSome?_cons, List.findSome?_cons]
      by_cases hn : n = name
      · simp [Entry.mapVar, hn]
      · simp only [Entry.mapVar, hn, ↓reduceIte]
        exact ih
  | (_, .function _) :: rest => Frame.mapVars_var? name rest

theorem Frame.mapVars_function? (name : String) (params : List Ty) : ∀ frame : Frame,
    (Frame.mapVars f frame).function? name params = frame.function? name params
  | [] => rfl
  | (_, .variable _) :: rest => Frame.mapVars_function? name params rest
  | (n, .function g) :: rest => by
      have ih := Frame.mapVars_function? name params rest
      unfold Frame.mapVars Frame.function? at ih ⊢
      rw [List.map_cons, List.findSome?_cons, List.findSome?_cons, ih]
      rfl

/-- The first frame with an answer has the answer replaced. -/
theorem findSome?_mapVars {answer : Frame → Option Variable}
    (h : ∀ frame, answer (Frame.mapVars f frame) = (answer frame).map f) : ∀ frames : List Frame,
    (frames.map (Frame.mapVars f)).findSome? answer = (frames.findSome? answer).map f
  | [] => rfl
  | frame :: frames => by
      rw [List.map_cons, List.findSome?_cons, List.findSome?_cons, h]
      cases answer frame with
      | none => exact findSome?_mapVars h frames
      | some v => rfl

theorem Scope.mapVars_var? (Γ : Scope) (name : String) :
    (Γ.mapVars f).var? name = (Γ.var? name).map f := by
  unfold Scope.var?
  rw [Scope.frames_mapVars]
  exact findSome?_mapVars (Frame.mapVars_var? name) Γ.frames

theorem Scope.mapVars_function? (Γ : Scope) (name : String) (args : List Ty) :
    (Γ.mapVars f).function? name args = Γ.function? name args :=
  Frame.mapVars_function? name args Γ.globals

/-- Variables that are passed over for their types still are, if the types stay. -/
theorem Scope.mapVars_soundVar? (hf : ∀ v, (f v).ty = v.ty) (Γ : Scope) (name : String) :
    (Γ.mapVars f).soundVar? name = (Γ.soundVar? name).map f := by
  unfold Scope.soundVar?
  rw [Scope.frames_mapVars]
  refine findSome?_mapVars (fun frame => ?_) Γ.frames
  rw [Frame.mapVars_var?]
  cases frame.var? name with
  | none => rfl
  | some v =>
    simp only [Option.map_some, Option.filter_some, hf]
    split <;> rfl

/-! ## 3. Declarations -/

theorem Frame.mapVars_binds (frame : Frame) (name : String) :
    (Frame.mapVars f frame).binds name = frame.binds name := by
  simp [Frame.mapVars, Frame.binds, List.any_map, Function.comp_def]

theorem Frame.mapVars_addFunction (name : String) (g : Signature) : ∀ frame : Frame,
    Frame.addFunction name g (Frame.mapVars f frame) =
      (Frame.addFunction name g frame).map (Frame.mapVars f)
  | [] => rfl
  | (n, e) :: rest => by
      have ih := Frame.mapVars_addFunction name g rest
      -- past an entry that does not decide, the function is added to the rest
      have hpast : (Frame.addFunction name g (Frame.mapVars f rest)).map ((n, e.mapVar f) :: ·) =
          ((Frame.addFunction name g rest).map ((n, e) :: ·)).map (Frame.mapVars f) := by
        rw [ih]
        cases Frame.addFunction name g rest with
        | error d => rfl
        | ok rest' => rfl
      change Frame.addFunction name g ((n, e.mapVar f) :: Frame.mapVars f rest) = _
      unfold Frame.addFunction
      by_cases hn : n = name
      · rw [if_pos hn, if_pos hn]
        rcases e with v | g'
        · rfl
        · dsimp only [Entry.mapVar] at hpast ⊢
          split
          · split <;> rfl
          · exact hpast
      · rw [if_neg hn, if_neg hn]
        exact hpast

/-- **A frame takes a declaration in exactly if it does so with other variables.** -/
theorem Frame.mapVars_add (frame : Frame) (name : String) (entry : Entry) :
    (Frame.mapVars f frame).add name (entry.mapVar f) =
      (frame.add name entry).map (Frame.mapVars f) := by
  rcases entry with v | g
  · unfold Frame.add Frame.addVariable
    simp only [Entry.mapVar, Frame.mapVars_binds]
    split
    · rfl
    · simp [Frame.mapVars, Entry.mapVar, Except.map]
  · exact Frame.mapVars_addFunction name g frame

/-! ## 4. Types -/

namespace Check

theorem varUse_mapVars (hf : ∀ v, (f v).ty = v.ty) (Γ : Scope) (pos : Position) (name : String) :
    varUse (Γ.mapVars f) pos name = varUse Γ pos name := by
  unfold varUse
  rw [Scope.mapVars_var?]
  cases Γ.var? name with
  | none => rfl
  | some v => exact congrArg (Verdict.mk · []) (hf v)

theorem call_mapVars (Γ : Scope) (pos : Position) (name : String) (args : Verdicts) :
    call (Γ.mapVars f) pos name args = call Γ pos name args := by
  unfold call
  rw [Scope.mapVars_function?]

mutual

/-- **Types depend on the types of variables only**, and so does what is found. -/
theorem typeOf_mapVars (hf : ∀ v, (f v).ty = v.ty) (Γ : Scope) : ∀ e : Expr,
    typeOf (Γ.mapVars f) e = typeOf Γ e
  | .int _ _ | .str _ _ | .misplaced _ => rfl
  | .var pos name => varUse_mapVars hf Γ pos name
  | .index _ array i => by
      simp only [typeOf]
      rw [typeOf_mapVars hf Γ array, typeOf_mapVars hf Γ i]
  | .call _ name args => by
      simp only [typeOf]
      rw [typesOf_mapVars hf Γ args, call_mapVars]
  | .unary _ op e => by
      simp only [typeOf]
      rw [typeOf_mapVars hf Γ e]
  | .binary _ op l r => by
      simp only [typeOf]
      rw [typeOf_mapVars hf Γ l, typeOf_mapVars hf Γ r]
  | .nameless kind args => by
      simp only [typeOf]
      rw [typesOf_mapVars hf Γ args]

theorem typesOf_mapVars (hf : ∀ v, (f v).ty = v.ty) (Γ : Scope) : ∀ es : List Expr,
    typesOf (Γ.mapVars f) es = typesOf Γ es
  | [] => rfl
  | e :: es => by
      simp only [typesOf]
      rw [typeOf_mapVars hf Γ e, typesOf_mapVars hf Γ es]

end

end Check

end CMinusMinus
