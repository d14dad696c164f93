/-
  File:      CMinusMinus/Proofs/BareScopes.lean
  Subject:   Scopes with the addresses taken away.

  The checker builds scopes without addresses, lowering builds scopes with addresses. Taking the
  addresses away (`bare`) is how the two compare: it commutes with declaring and with both lookups,
  and no type depends on an address.
-/
import CMinusMinus.Proofs.MappedScopes
import CMinusMinus.Proofs.Typing

namespace CMinusMinus

/-! ## 1. Taking addresses away -/

/-- The variable without its address. -/
def Variable.bare (v : Variable) : Variable := { ty := v.ty }

/-- What a name is bound to, without an address. -/
def Entry.bare : Entry → Entry
  | .variable v => .variable v.bare
  | .function f => .function f

/-- The frame without addresses. -/
def Frame.bare (frame : Frame) : Frame := frame.map fun b => (b.1, b.2.bare)

/-- The scope without addresses. -/
def Scope.bare (Γ : Scope) : Scope := ⟨Γ.inner.map Frame.bare, Frame.bare Γ.globals⟩

@[simp] theorem Scope.bare_push (Γ : Scope) (frame : Frame) :
    (Γ.push frame).bare = Γ.bare.push (Frame.bare frame) := rfl

/-! ## 2. Lookups -/

theorem Scope.frames_bare (Γ : Scope) : Γ.bare.frames = Γ.frames.map Frame.bare :=
  Γ.frames_mapVars

theorem Scope.bare_var? (Γ : Scope) (name : String) :
    Γ.bare.var? name = (Γ.var? name).map Variable.bare := Γ.mapVars_var? name

theorem Scope.bare_function? (Γ : Scope) (name : String) (args : List Ty) :
    Γ.bare.function? name args = Γ.function? name args := Γ.mapVars_function? name args

/-! ## 3. Declarations -/

theorem Frame.bare_binds (frame : Frame) (name : String) :
    (Frame.bare frame).binds name = frame.binds name := Frame.mapVars_binds frame name

/-- **A frame takes a declaration in exactly if it does so without addresses.** -/
theorem Frame.bare_add (frame : Frame) (name : String) (entry : Entry) :
    (Frame.bare frame).add name entry.bare = (frame.add name entry).map Frame.bare :=
  Frame.mapVars_add frame name entry

/-! ## 4. Types -/

theorem Entry.proper_bare (e : Entry) : e.bare.Proper ↔ e.Proper := by
  rcases e with v | f <;> rfl

theorem Frame.proper_bare (frame : Frame) : Frame.Proper (Frame.bare frame) ↔ Frame.Proper frame := by
  unfold Frame.Proper Frame.bare
  rw [List.forall_mem_map]
  exact forall₂_congr fun b _ => b.2.proper_bare

theorem Scope.proper_bare (Γ : Scope) : Γ.bare.Proper ↔ Γ.Proper := by
  unfold Scope.Proper
  rw [Scope.frames_bare, List.forall_mem_map]
  exact forall₂_congr fun frame _ => Frame.proper_bare frame

/-- In a proper scope no variable is passed over for its type. -/
theorem Scope.Proper.soundVar? {Γ : Scope} (hΓ : Γ.Proper) (name : String) :
    Γ.soundVar? name = Γ.var? name := by
  unfold Scope.soundVar? Scope.var?
  unfold Scope.Proper at hΓ
  revert hΓ
  induction Γ.frames with
  | nil => exact fun _ => rfl
  | cons frame frames ih =>
    intro hΓ
    obtain ⟨hframe, hframes⟩ := List.forall_mem_cons.mp hΓ
    rw [List.findSome?_cons, List.findSome?_cons, ih hframes]
    cases hv : frame.var? name with
    | none => rfl
    | some v => simp [Option.filter, (hframe.var? hv).isError_eq]

mutual

/-- **Types do not depend on addresses.** -/
theorem HasType.of_bare {Γ : Scope} : ∀ {e : Expr} {τ : Ty}, HasType Γ.bare e τ → HasType Γ e τ
  | _, _, .int => .int
  | _, _, .str => .str
  | _, _, .var hv => by
      rw [Scope.bare_var?] at hv
      obtain ⟨w, hw, hbare⟩ := Option.map_eq_some_iff.mp hv
      subst hbare
      exact HasType.var (v := w) hw
  | _, _, .index ha hi hint => .index ha.of_bare hi.of_bare hint
  | _, _, .system hname hargs hone => .system hname hargs.of_bare hone
  | _, _, .call hname hargs hf => .call hname hargs.of_bare (Γ.bare_function? _ _ ▸ hf)
  | _, _, .neg he hint => .neg he.of_bare hint
  | _, _, .not he hbool => .not he.of_bare hbool
  | _, _, .address he hvar => .address he.of_bare hvar
  | _, _, .deref he hvar => .deref he.of_bare hvar
  | _, _, .arith hl hr hα hβ => .arith hl.of_bare hr.of_bare hα hβ
  | _, _, .rel hl hr hα hβ => .rel hl.of_bare hr.of_bare hα hβ
  | _, _, .and hl hr hα hβ => .and hl.of_bare hr.of_bare hα hβ
  | _, _, .or hl hr hα hβ => .or hl.of_bare hr.of_bare hα hβ

theorem HaveTypes.of_bare {Γ : Scope} : ∀ {es : List Expr} {τs : List Ty},
    HaveTypes Γ.bare es τs → HaveTypes Γ es τs
  | _, _, .nil => .nil
  | _, _, .cons he hes => .cons he.of_bare hes.of_bare

end

end CMinusMinus
