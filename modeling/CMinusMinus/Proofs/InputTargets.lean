/-
  File:      CMinusMinus/Proofs/InputTargets.lean
  Subject:   Where a value that is read goes to.

  A call of `scanf` reads into the operand of its argument as a value. For a variable, and for a
  variable behind a star, this operand is the address of the variable, so the value arrives where an
  assignment would put it. An element is different: assigning to it ends in a `store`, but as a
  value it is loaded into a temporary first. The `read` fills the temporary, and nothing puts it
  back.

  * `Storage`, `InputPoint.Reaches` -- whether a value gets to the place that an assignment to the
    argument would write;
  * `Lower.modes_storeless` -- expressions store nothing into elements;
  * `InputPoint.At.isVariable_operand` -- which arguments get a value into a variable;
  * `input_reaches_iff` -- input in accepted programs.
-/
import CMinusMinus.Proofs.Inputs

namespace CMinusMinus

/-! ## 1. Places -/

/-- The variable that an expression names as a place: it stands alone or behind a star. -/
def Expr.target? : Expr → Option String
  | .var _ x | .unary _ .deref (.var _ x) => some x
  | _ => none

/-- The variable whose address is the value of the expression. -/
def Expr.addressed? : Expr → Option String
  | .unary _ .address (.var _ x) => some x
  | e => e.target?

/-- The operand is the address of a variable: a global, a local or a parameter. -/
def Operand.isVariable : Operand → Bool
  | .address ⟨.global, _⟩ | .address ⟨.local, _⟩ | .address ⟨.param, _⟩ => true
  | _ => false

/-- The instruction writes an element. -/
def Instr.isStore : Instr → Bool
  | .store _ _ _ => true
  | _ => false

/-- Where a value can be put. -/
inductive Storage where
  | cell (v : Operand)
  | element (base index : Operand)
  deriving DecidableEq

/-- Where an instruction puts a value. -/
def Instr.storage? : Instr → Option Storage
  | .move dest _ => some (.cell dest)
  | .store base index _ => some (.element base index)
  | _ => none

/-- **Code delivers a value from outside**: it reads straight into the variable, or it stores what
    it has read into the element. -/
def Delivers (code : List Instr) : Storage → Prop
  | .cell v => v.isVariable = true ∧ .read v ∈ code
  | .element base index => ∃ v, .read v ∈ code ∧ .store base index v ∈ code

namespace InputPoint

variable (x : InputPoint)

/-- The code of an assignment to the argument in the place of the call. -/
def assigned (e : Expr) : List Instr := (Lower.assignment x.scope x.arg e x.start).code

/-- Every assignment to the argument would end in writing this place. -/
def Writes (place : Storage) : Prop :=
  ∀ e, (x.assigned e).getLast?.bind Instr.storage? = some place

/-- **Input reaches its target**: the argument is a location, and the code of the call delivers the
    value to the place that an assignment to the argument would write. -/
def Reaches : Prop := x.arg.isLocation = true ∧ ∃ place, x.Writes place ∧ Delivers x.code place

end InputPoint

/-! ## 2. Expressions store nothing -/

namespace Lower

namespace Modes

/-- The code of an expression writes no element, in either mode. -/
structure Storeless (m : Modes) : Prop where
  value : ∀ s, ∀ i ∈ (m.value s).code, i.isStore = false
  branch : ∀ t s, ∀ i ∈ (m.branch t s).code, i.isStore = false

section Storeless

variable {left right operand : Modes}

theorem storeless_ofValue {value : State → Emitted}
    (h : ∀ s, ∀ i ∈ (value s).code, i.isStore = false) : (ofValue value).Storeless := by
  refine ⟨h, fun t s => ?_⟩
  exact List.forall_mem_append.mpr ⟨h s, by simp [Instr.isStore]⟩

theorem storeless_ofBranch {branch : Targets Target → State → Lowered}
    (h : ∀ t s, ∀ i ∈ (branch t s).code, i.isStore = false) : (ofBranch branch).Storeless := by
  refine ⟨fun s => ?_, h⟩
  exact List.forall_mem_append.mpr ⟨h _ _, by simp [ends, Instr.isStore]⟩

/-- An expression without code. -/
theorem storeless_codeless {value : State → Emitted} (h : ∀ s, (value s).code = []) :
    (ofValue value).Storeless := by
  refine storeless_ofValue fun s i hi => ?_
  rw [h s] at hi
  exact absurd hi List.not_mem_nil

theorem storeless_compute {instr : Operand → Operand → Operand → Instr}
    (hinstr : ∀ d l r, (instr d l r).isStore = false) (hl : left.Storeless)
    (hr : right.Storeless) : (compute left right instr).Storeless := by
  refine storeless_ofValue fun s => ?_
  simp only [List.forall_mem_append, List.forall_mem_singleton]
  exact ⟨⟨hl.value s, hr.value _⟩, hinstr _ _ _⟩

theorem storeless_compare (op : RelOp) (hl : left.Storeless) (hr : right.Storeless) :
    (compare op left right).Storeless := by
  refine storeless_ofBranch fun t s => ?_
  simp only [List.forall_mem_append]
  refine ⟨⟨hl.value s, hr.value _⟩, ?_⟩
  cases (comparison op).2 <;> simp [Instr.isStore]

/-- Two conditions, with a label between them. -/
theorem storeless_branches (hl : left.Storeless) (hr : right.Storeless) (t₁ t₂ : Targets Target)
    (mid : Label) (s s' : State) :
    ∀ i ∈ (left.branch t₁ s).code ++ [.label mid] ++ (right.branch t₂ s').code,
      i.isStore = false := by
  simp only [List.forall_mem_append, List.forall_mem_singleton]
  exact ⟨⟨hl.branch t₁ s, rfl⟩, hr.branch t₂ s'⟩

theorem storeless_negative (h : operand.Storeless) : (negative operand).Storeless := by
  refine storeless_ofValue fun s => ?_
  exact List.forall_mem_append.mpr ⟨h.value s, by simp [Instr.isStore]⟩

theorem sequence_storeless : ∀ {ms : List Modes}, (∀ m ∈ ms, m.Storeless) → ∀ s,
    ∀ i ∈ (sequence ms s).1, i.isStore = false
  | [], _, _ => fun _ hi => absurd hi List.not_mem_nil
  | m :: ms, h, s => by
      obtain ⟨hm, hms⟩ := List.forall_mem_cons.mp h
      exact List.forall_mem_append.mpr ⟨hm.value s, sequence_storeless hms _⟩

theorem handOver_storeless : ∀ {ms : List Modes}, (∀ m ∈ ms, m.Storeless) → ∀ place s,
    ∀ i ∈ (handOver place ms s).code, i.isStore = false
  | [], _, _, _ => fun _ hi => absurd hi List.not_mem_nil
  | m :: ms, h, place, s => by
      obtain ⟨hm, hms⟩ := List.forall_mem_cons.mp h
      simp only [handOver, List.forall_mem_append, List.forall_mem_singleton]
      exact ⟨⟨hm.value s, rfl⟩, handOver_storeless hms _ _⟩

theorem storeless_systemCall (name : String) {ms : List Modes} (h : ∀ m ∈ ms, m.Storeless) :
    (systemCall name ms).Storeless := by
  refine storeless_ofValue fun s => ?_
  refine List.forall_mem_append.mpr ⟨sequence_storeless h s, ?_⟩
  cases (sequence ms s).2.1 with
  | none => exact fun _ hi => absurd hi List.not_mem_nil
  | some v => by_cases hname : name = readCall <;> simp [hname, Instr.isStore]

theorem storeless_functionCall (Γ : Scope) (name : String) (types : Check.Verdicts)
    {ms : List Modes} (h : ∀ m ∈ ms, m.Storeless) :
    (functionCall Γ name types ms).Storeless := by
  refine storeless_ofValue fun s => ?_
  cases Γ.function? name types.tys with
  | none => exact fun _ hi => absurd hi List.not_mem_nil
  | some f =>
    have hgiven := handOver_storeless h 0 (s.overhear types.journal)
    by_cases hvoid : f.ret.name = "void"
    · simp only [hvoid, if_true]
      exact List.forall_mem_append.mpr ⟨hgiven, by simp [Instr.isStore]⟩
    · simp only [hvoid, if_false]
      exact List.forall_mem_append.mpr ⟨hgiven, by simp [Instr.isStore]⟩

theorem storeless_ofVar (Γ : Scope) (x : String) : (ofVar Γ x).Storeless := by
  unfold ofVar
  split
  · exact storeless_codeless fun _ => rfl
  · exact storeless_codeless fun _ => rfl

end Storeless

end Modes

mutual

/-- **The code of an expression writes no element.** -/
theorem modes_storeless (Γ : Scope) : ∀ e : Expr, (modes Γ e).Storeless
  | .int _ _ | .str _ _ | .nameless _ _ | .misplaced _ => Modes.storeless_codeless fun _ => rfl
  | .var _ x => Modes.storeless_ofVar Γ x
  | .index _ array i =>
      Modes.storeless_compute (fun _ _ _ => rfl) (modes_storeless Γ array) (modes_storeless Γ i)
  | .call _ name args => by
      have hargs := modesOf_storeless Γ args
      rw [modes, Modes.call]
      split
      · exact Modes.storeless_systemCall name hargs
      · exact Modes.storeless_functionCall Γ name _ hargs
  | .unary _ op e => by
      have he := modes_storeless Γ e
      cases op with
      | neg => exact Modes.storeless_negative he
      | not => exact Modes.storeless_ofBranch fun t s => he.branch t.swap s
      | address => exact Modes.storeless_ofValue he.value
      | deref => exact Modes.storeless_ofValue he.value
      | other _ => exact Modes.storeless_ofValue he.value
  | .binary _ op l r => by
      have hl := modes_storeless Γ l
      have hr := modes_storeless Γ r
      cases op with
      | arith op => exact Modes.storeless_compute (fun _ _ _ => rfl) hl hr
      | rel op => exact Modes.storeless_compare op hl hr
      | and => exact Modes.storeless_ofBranch fun _ _ => Modes.storeless_branches hl hr _ _ _ _ _
      | or => exact Modes.storeless_ofBranch fun _ _ => Modes.storeless_branches hl hr _ _ _ _ _
      | other _ => exact Modes.storeless_codeless fun _ => rfl

theorem modesOf_storeless (Γ : Scope) : ∀ es : List Expr, ∀ m ∈ modesOf Γ es, m.Storeless
  | [] => fun _ hm => absurd hm List.not_mem_nil
  | e :: es => List.forall_mem_cons.mpr ⟨modes_storeless Γ e, modesOf_storeless Γ es⟩

end

end Lower

/-! ## 3. Where the value goes -/

/-- A variable is stored among the globals, the locals or the parameters. -/
theorem Env.isVariable_home {ρ : Env} {x : String} {a : Address} (h : ρ.home x = some a) :
    (Operand.address a).isVariable = true := by
  obtain ⟨b, -, rfl⟩ := Option.map_eq_some_iff.mp h
  cases b.cell <;> rfl

/-- The address of a variable stands for a use, and not for that of a literal. -/
theorem Operand.leaf?_of_isVariable {v : Operand} (h : v.isVariable = true) :
    ∃ a, v.leaf? = some a ∧ a.space ≠ .constant := by
  unfold Operand.isVariable at h
  split at h
  · exact ⟨_, rfl, Space.noConfusion⟩
  · exact ⟨_, rfl, Space.noConfusion⟩
  · exact ⟨_, rfl, Space.noConfusion⟩
  · cases h

section Takes

variable {v : Operand}

/-- An operand that stands for string literals, or for nothing, is no variable. -/
theorem Takes.isVariable_eq_false {us : List Use} (h : Takes [v] us)
    (hus : ∀ u ∈ us, ∃ s n, u = .text s n) : v.isVariable = false := by
  refine Bool.eq_false_iff.mpr fun hv => ?_
  obtain ⟨a, hleaf, hspace⟩ := Operand.leaf?_of_isVariable hv
  have hmem : some a ∈ us.map Use.address? := by
    rw [← h]
    simp [hleaf]
  obtain ⟨u, hu, haddress⟩ := List.mem_map.mp hmem
  obtain ⟨s, n, rfl⟩ := hus u hu
  cases haddress
  exact hspace rfl

/-- An operand that stands for an identifier is the address of its variable. -/
theorem Takes.eq_of_name {x : String} {home : Option Address} (h : Takes [v] [.name x home]) :
    ∃ a, home = some a ∧ v = .address a := by
  cases hleaf : v.leaf? with
  | none => simp [Takes, hleaf] at h
  | some a =>
    refine ⟨a, ?_, ?_⟩
    · simpa [Takes, hleaf, Use.address?, eq_comm] using h
    · unfold Operand.leaf? at hleaf
      split at hleaf
      · cases hleaf
      · cases hleaf
        rfl
      · cases hleaf
      · cases hleaf

end Takes

/-- A location names a variable or is an element. -/
theorem Expr.target?_or_index {e : Expr} (h : e.isLocation = true) :
    e.target?.isSome = true ∨ ∃ pos array i, e = .index pos array i := by
  unfold Expr.isLocation at h
  split at h
  · exact .inl rfl
  · exact .inr ⟨_, _, _, rfl⟩
  · rename_i pos e
    cases e with
    | var _ _ => exact .inl rfl
    | _ => cases h
  · cases h

theorem Expr.isLocation_of_target? {e : Expr} {x : String} (h : e.target? = some x) :
    e.isLocation = true := by
  unfold Expr.target? at h
  split at h
  · rfl
  · rfl
  · cases h

theorem Expr.addressed?_of_target? {e : Expr} {x : String} (h : e.target? = some x) :
    e.addressed? = some x := by
  unfold Expr.addressed?
  split
  · cases h
  · exact h

/-- What stands for a well-typed expression where its value is taken: the variable that it
    addresses; or a string literal or nothing, if it addresses none. -/
theorem HasType.own_cases {Γ : Scope} {e : Expr} {τ : Ty} (h : HasType Γ e τ) (ρ : Env) (n : Nat) :
    (∃ x, e.addressed? = some x ∧ e.own ρ n = [.name x (ρ.home x)]) ∨
      e.addressed? = none ∧ ∀ u ∈ e.own ρ n, ∃ s n, u = .text s n := by
  cases h with
  | var _ => exact .inl ⟨_, rfl, rfl⟩
  | str => exact .inr ⟨rfl, List.forall_mem_singleton.mpr ⟨_, _, rfl⟩⟩
  | @address _ e _ _ hvar | @deref _ e _ _ hvar =>
    cases e with
    | var _ x => exact .inl ⟨x, rfl, rfl⟩
    | _ => cases hvar
  | _ => exact .inr ⟨rfl, List.forall_mem_nil _⟩

namespace InputPoint

variable {x : InputPoint} {c : Input} {code : List Instr}

namespace At

/-- The operand stands for the argument. -/
theorem takes (h : x.At code c) : Takes [x.operand] (c.arg.own c.env x.start.alloc.pool.length) := by
  have hserves := Lower.modes_serves x.scope c.env c.arg h.proper
  rw [← h.arg] at hserves ⊢
  exact hserves.operand x.start h.faultless h.names

/-- The value of the argument is the address of the variable that it addresses. -/
theorem operand_eq (h : x.At code c) {n : String} (hn : c.arg.addressed? = some n) :
    ∃ a, c.env.home n = some a ∧ x.operand = .address a := by
  obtain ⟨Γ, τ, htyped⟩ := h.typed
  have htakes := h.takes
  rcases htyped.own_cases c.env x.start.alloc.pool.length with ⟨m, hm, hown⟩ | ⟨hnone, -⟩
  · rw [hn] at hm
    cases hm
    rw [hown] at htakes
    exact htakes.eq_of_name
  · rw [hn] at hnone
    cases hnone

/-- **Which arguments get the value into a variable**: those that address one. -/
theorem isVariable_operand (h : x.At code c) :
    x.operand.isVariable = c.arg.addressed?.isSome := by
  obtain ⟨Γ, τ, htyped⟩ := h.typed
  rcases htyped.own_cases c.env x.start.alloc.pool.length with ⟨n, hn, -⟩ | ⟨hnone, hown⟩
  · obtain ⟨a, ha, hoperand⟩ := h.operand_eq hn
    rw [hoperand, hn, Env.isVariable_home ha]
    rfl
  · rw [hnone]
    exact h.takes.isVariable_eq_false hown

end At

/-- The argument that names a variable as a place needs no code. -/
theorem given_code_of_target? {n : String} (h : x.arg.target? = some n) : x.given.code = [] := by
  have hvar : ∀ y, ((Lower.Modes.ofVar x.scope y).value x.start).code = [] := by
    intro y
    unfold Lower.Modes.ofVar
    split <;> rfl
  unfold given
  unfold Expr.target? at h
  split at h
  · rename_i heq
    rw [heq]
    exact hvar _
  · rename_i heq
    rw [heq]
    exact hvar _
  · cases h

/-- An assignment to anything but an element writes the operand that the call reads into. -/
theorem writes_cell {n : String} (h : x.arg.target? = some n) : x.Writes (.cell x.operand) := by
  intro e
  unfold assigned operand given Lower.assignment
  split
  · rename_i heq
    rw [heq] at h
    cases h
  · rw [List.getLast?_concat]
    rfl

/-- An assignment to an element writes the element. -/
theorem writes_element {pos : Position} {array i : Expr} (h : x.arg = .index pos array i) :
    x.Writes (.element (Lower.value x.scope array x.start).operand
      (Lower.value x.scope i (Lower.value x.scope array x.start).after).operand) := by
  intro e
  unfold assigned
  rw [h]
  simp [Lower.assignment, Instr.storage?]

/-- The code of a call writes no element. -/
theorem code_storeless (x : InputPoint) : ∀ i ∈ x.code, i.isStore = false := by
  rw [x.code_eq]
  refine List.forall_mem_append.mpr ⟨(Lower.modes_storeless x.scope x.arg).value x.start, ?_⟩
  simp [Instr.isStore]

/-- **What a call does with the value that it reads.** -/
structure Serves (code : List Instr) (x : InputPoint) (c : Input) : Prop where
  arg : x.arg = c.arg
  names : x.scope.Names c.env
  inside : x.code <:+: code
  /-- The argument is made as a value, and its operand is read into. -/
  ends : x.code = x.given.code ++ [.read x.operand]
  /-- The value reaches its target just if the argument is a variable or `*` of one. -/
  reaches_iff : x.Reaches ↔ c.arg.target?.isSome = true
  /-- Then the call is one instruction, with the address of the variable. -/
  named : ∀ n, c.arg.target? = some n →
    ∃ a, c.env.home n = some a ∧ x.code = [.read (.address a)]
  /-- An element is loaded, and the temporary is read into. An assignment would write the element,
      at the same base and index. -/
  element : ∀ pos array i, c.arg = .index pos array i → ∃ front base index n,
    x.code = front ++ [.load (.temporary n) base index, .read (.temporary n)] ∧
      x.Writes (.element base index)
  /-- No call writes an element; and a variable gets the value only if the argument is the variable,
      or `*` or `&` of it. -/
  storeless : ∀ i ∈ x.code, i.isStore = false
  variable_iff : x.operand.isVariable = true ↔ c.arg.addressed?.isSome = true

namespace At

/-- **Input reaches variables, and nothing else.** -/
theorem reaches_iff (h : x.At code c) : x.Reaches ↔ c.arg.target?.isSome = true := by
  constructor
  · rintro ⟨hlocation, place, hwrites, hdelivers⟩
    rw [← h.arg]
    rcases Expr.target?_or_index hlocation with hsome | ⟨pos, array, i, harg⟩
    · exact hsome
    · -- the place is an element, and nothing is stored
      have hplace := (hwrites (.int {} 0)).symm.trans (writes_element harg (.int {} 0))
      cases hplace
      obtain ⟨v, -, hstore⟩ := hdelivers
      cases x.code_storeless _ hstore
  · intro hsome
    obtain ⟨n, hn⟩ := Option.isSome_iff_exists.mp hsome
    obtain ⟨a, ha, hoperand⟩ := h.operand_eq (Expr.addressed?_of_target? hn)
    rw [← h.arg] at hn
    refine ⟨Expr.isLocation_of_target? hn, .cell x.operand, writes_cell hn, ?_, ?_⟩
    · rw [hoperand]
      exact Env.isVariable_home ha
    · rw [x.code_eq]
      exact List.mem_append_right _ List.mem_cons_self

/-- The call with a variable as its argument. -/
theorem code_eq_read (h : x.At code c) {n : String} (hn : c.arg.target? = some n) :
    ∃ a, c.env.home n = some a ∧ x.code = [.read (.address a)] := by
  obtain ⟨a, ha, hoperand⟩ := h.operand_eq (Expr.addressed?_of_target? hn)
  rw [← h.arg] at hn
  refine ⟨a, ha, ?_⟩
  rw [x.code_eq, given_code_of_target? hn, hoperand]
  rfl

/-- The call with an element as its argument. -/
theorem code_eq_load (h : x.At code c) {pos : Position} {array i : Expr}
    (hindex : c.arg = .index pos array i) : ∃ front base index n,
      x.code = front ++ [.load (.temporary n) base index, .read (.temporary n)] ∧
        x.Writes (.element base index) := by
  have harg := h.arg.trans hindex
  let base := Lower.value x.scope array x.start
  let index := Lower.value x.scope i base.after
  refine ⟨base.code ++ index.code, base.operand, index.operand, index.after.alloc.temporaries, ?_,
    writes_element harg⟩
  rw [x.code_eq, operand, given, harg]
  exact List.append_assoc (base.code ++ index.code) [.load _ _ _] [.read _]

theorem serves (h : x.At code c) : x.Serves code c where
  arg := h.arg
  names := h.names
  inside := h.inside
  ends := x.code_eq
  reaches_iff := h.reaches_iff
  named _ hn := h.code_eq_read hn
  element _ _ _ hindex := h.code_eq_load hindex
  storeless := x.code_storeless
  variable_iff := by rw [h.isVariable_operand]

end At

end InputPoint

/-! ## 4. Programs -/

/-- **Where input goes in an accepted program.** Its code reads once for every call of `scanf` with
    an argument, in their order. The value gets to where an assignment to the argument would put it
    just if the argument is a variable or `*` of one. An element never gets it, and the argument
    need not be a location at all. -/
theorem input_reaches_iff {source : List Char} {p : Program}
    (hp : Program.ofSource? source = some p) (haccepted : p.Accepted) :
    ∃ code after points, Lower.result p {} = .ok (code, after) ∧
      readsOf code = points.map InputPoint.operand ∧
      List.Forall₂ (InputPoint.Serves code) points p.inputs := by
  have hproper := Program.proper_ofSource? hp
  have hwell := hproper.wellTyped haccepted
  have hresult := (Lower.result_of_wellTyped hproper hwell (s := {}) ⟨Journal.faultless_nil, rfl⟩).1
  obtain ⟨hcode, hmet, -⟩ := Lower.result_met hproper hresult
  -- string constants and the entry read nothing
  have hfront : Reads [] (p.literals.map .string ++ [.entry "main" p.globals.length]) := by
    refine .quiet ?_
    simp [readsOf, List.filterMap_append, Instr.input?]
  obtain ⟨points, hreads, hat⟩ := hfront.append (Lower.reads_of_met hmet hwell.bodies)
  rw [← hcode] at hreads hat
  exact ⟨_, _, points, hresult, hreads, hat.imp fun _ _ h => h.serves⟩

/-- Calls with arguments of all forms: variables of all spaces, a variable behind a star, elements,
    an address, a number and a computed value. -/
def readAll : String :=
  "int g;
void f(int p, int *q) \x7b
  int x; int a[3];
  scanf(g); scanf(p); scanf(x); scanf(*q);
  scanf(a[1]); scanf(a[x]);
  scanf(&x); scanf(3); scanf(x + a[2]);
\x7d"

/-- Its arguments: whether each is a location, and the variable that it names as a place. -/
def readAllArgs : List (Bool × Option String) :=
  [(true, some "g"), (true, some "p"), (true, some "x"), (true, some "q"), (true, none),
    (true, none), (false, none), (false, none), (false, none)]

/-- The operands that its code reads into. -/
def readAllOperands : List Operand :=
  [.address ⟨.global, 0⟩, .address ⟨.param, 0⟩, .address ⟨.local, 0⟩, .address ⟨.param, 1⟩,
    .temporary 0, .temporary 1, .address ⟨.local, 0⟩, .literal 3, .temporary 3]

theorem input_reaches_iff_readAll :
    ∃ p code after points, Program.ofSource? readAll.toList = some p ∧ p.Accepted ∧
      Lower.result p {} = .ok (code, after) ∧
      readsOf code = points.map InputPoint.operand ∧
      List.Forall₂ (InputPoint.Serves code) points p.inputs ∧
      p.inputs.map (fun c => (c.arg.isLocation, c.arg.target?)) = readAllArgs ∧
      readsOf code = readAllOperands := by
  have hread : ∃ p, Program.ofSource? readAll.toList = some p ∧ p.Accepted ∧
      p.inputs.map (fun c => (c.arg.isLocation, c.arg.target?)) = readAllArgs ∧
      (Lower.result p {}).toOption.map (fun r => readsOf r.1) = some readAllOperands := by
    set_option maxRecDepth 2000 in
    exact Program.exists_of_text rfl (by decide +kernel)
  obtain ⟨p, hp, haccepted, hargs, hoperands⟩ := hread
  obtain ⟨code, after, points, hresult, hreads, hserves⟩ := input_reaches_iff hp haccepted
  rw [hresult] at hoperands
  exact ⟨p, code, after, points, hp, haccepted, hresult, hreads, hserves, hargs,
    Option.some.inj hoperands⟩

end CMinusMinus
