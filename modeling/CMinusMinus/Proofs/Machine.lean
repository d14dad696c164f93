/-
  File:      CMinusMinus/Proofs/Machine.lean
  Subject:   What code means: a machine that runs three-address code.

  The machine has a memory that is indexed by addresses, what is still to be read and what was
  written, and a place in the code. A jump goes to the place where its label is defined. The code of
  one function runs without calls here: a call stops the machine, and so does whatever reads a place
  that holds nothing, divides by 0 or reads past the end of the input.

  * `Machine.step` -- one instruction;
  * `Machine.Reaches` -- any number of them;
  * `Machine.exit?` -- the machine has come to the end of a function, and how;
  * `Placed` -- a piece of code stands at a place in the whole.
-/
import CMinusMinus.Proofs.Meaning
import CMinusMinus.Proofs.TidyCode

namespace CMinusMinus

/-! ## 1. The machine -/

/-- The comparison of a jump holds of two integers. -/
def Comparison.holds : Comparison → Int → Int → Bool
  | .lt, a, b => a < b
  | .le, a, b => a ≤ b
  | .eq, a, b => a = b
  | .ne, a, b => a ≠ b

/-- The value of an operand. -/
def Operand.read (m : Contents Address) : Operand → Option Int
  | .absent => none
  | .literal n => some n
  | .address a => m (.scalar a)

/-- The address that an operand stands for. -/
def Operand.address? : Operand → Option Address
  | .address a => some a
  | .absent | .literal _ => none

namespace Machine

/-- The machine between two instructions. -/
structure Config where
  pc : Nat
  memory : Contents Address
  input : List Int
  output : List Int

namespace Config

/-- On to the next instruction. -/
def next (c : Config) : Config := { c with pc := c.pc + 1 }

/-- A value goes to a place, then on to the next instruction. -/
def put (c : Config) (p : Location Address) (v : Int) : Config :=
  { c.next with memory := c.memory.set p v }

/-- A value goes to the address of an operand. -/
def write (c : Config) (dest : Operand) (v : Int) : Option Config :=
  dest.address?.map fun a => c.put (.scalar a) v

/-- On to the definition of a target. -/
def goTo (c : Config) (code : List Instr) (t : Target) : Option Config :=
  t.bind fun l => (code.findIdx? fun i => i == .label l).map fun q => { c with pc := q }

end Config

/-- What an instruction does. -/
def exec (code : List Instr) (c : Config) : Instr → Option Config
  | .func _ | .frame _ _ | .label _ => some c.next
  | .move dest source => (source.read c.memory).bind (c.write dest)
  | .arith op dest left right =>
      (left.read c.memory).bind fun a => (right.read c.memory).bind fun b =>
        (op.apply a b).bind (c.write dest)
  | .load dest base index =>
      base.address?.bind fun a => (index.read c.memory).bind fun j =>
        (c.memory (.element a j)).bind (c.write dest)
  | .store base index source =>
      base.address?.bind fun a => (index.read c.memory).bind fun j =>
        (source.read c.memory).map fun v => c.put (.element a j) v
  | .jump t => c.goTo code t
  | .branch test left right t =>
      (left.read c.memory).bind fun a => (right.read c.memory).bind fun b =>
        if test.holds a b then c.goTo code t else some c.next
  | .read dest =>
      match c.input with
      | [] => none
      | v :: rest => { c with input := rest }.write dest v
  | .write value => (value.read c.memory).map fun v => { c.next with output := c.output ++ [v] }
  | _ => none

/-- **One step of the machine.** -/
def step (code : List Instr) (c : Config) : Option Config := code[c.pc]?.bind (exec code c)

/-- The end of a function that the machine has come to: the function's code label, and how. -/
def exit? (code : List Instr) (c : Config) : Option (String × Exit) :=
  match code[c.pc]? with
  | some (.endFunc name) => some (name, .falls)
  | some (.ret name) => some (name, .returns none)
  | some (.retValue name value) => (value.read c.memory).map fun v => (name, .returns (some v))
  | _ => none

/-- **Any number of steps.** -/
inductive Reaches (code : List Instr) : Config → Config → Prop where
  | refl (c : Config) : Reaches code c c
  | step {c c₁ c₂ : Config} (h : step code c = some c₁) (hrest : Reaches code c₁ c₂) :
      Reaches code c c₂

variable {code : List Instr} {c c₁ c₂ : Config}

theorem Reaches.trans (h₁ : Reaches code c c₁) (h₂ : Reaches code c₁ c₂) : Reaches code c c₂ := by
  induction h₁ with
  | refl => exact h₂
  | step h _ ih => exact .step h (ih h₂)

theorem Reaches.one (h : Machine.step code c = some c₁) : Reaches code c c₁ := .step h (.refl c₁)

/-- At the end of a function the machine stops. -/
theorem step_of_exit {e : String × Exit} (h : exit? code c = some e) :
    step code c = none := by
  unfold exit? at h
  unfold step
  split at h
  · rename_i hi; rw [hi]; rfl
  · rename_i hi; rw [hi]; rfl
  · rename_i hi; rw [hi]; rfl
  · cases h

/-! ## 2. Pieces of code -/

/-- A piece of code stands at a place in the whole. -/
def Placed (code : List Instr) (pc : Nat) (piece : List Instr) : Prop :=
  ∀ j, j < piece.length → code[pc + j]? = piece[j]?

namespace Placed

variable {pc : Nat} {i : Instr} {piece piece₁ piece₂ : List Instr}

theorem left (h : Placed code pc (piece₁ ++ piece₂)) : Placed code pc piece₁ := by
  intro j hj
  rw [h j (by rw [List.length_append]; omega), List.getElem?_append_left hj]

theorem right (h : Placed code pc (piece₁ ++ piece₂)) :
    Placed code (pc + piece₁.length) piece₂ := by
  intro j hj
  rw [Nat.add_assoc, h (piece₁.length + j) (by rw [List.length_append]; omega),
    List.getElem?_append_right (Nat.le_add_right _ _), Nat.add_sub_cancel_left]

theorem head (h : Placed code pc (i :: piece)) : code[pc]? = some i := h 0 (Nat.zero_lt_succ _)

theorem tail (h : Placed code pc (i :: piece)) : Placed code (pc + 1) piece := by
  have hsplit : Placed code pc ([i] ++ piece) := h
  exact hsplit.right

theorem of_append (front piece back : List Instr) :
    Placed (front ++ piece ++ back) front.length piece := by
  intro j hj
  rw [List.append_assoc, List.getElem?_append_right (Nat.le_add_right _ _), Nat.add_sub_cancel_left,
    List.getElem?_append_left hj]

end Placed

/-- **A label that is defined once is found where it is defined.** -/
theorem findIdx?_label (hcode : (labelsOf code).Nodup) {q : Nat} {l : Label}
    (h : code[q]? = some (.label l)) : code.findIdx? (fun i => i == .label l) = some q := by
  induction code generalizing q with
  | nil => cases h
  | cons i rest ih =>
    rw [List.findIdx?_cons]
    cases q with
    | zero =>
      cases h
      rw [if_pos (beq_self_eq_true _)]
    | succ q =>
      rw [List.getElem?_cons_succ] at h
      -- the label stands in the rest, so the first instruction does not define it
      have hmem : l ∈ labelsOf rest := List.mem_filterMap.mpr ⟨_, List.mem_of_getElem? h, rfl⟩
      have hi : (i == .label l) = false := by
        rw [beq_eq_false_iff_ne]
        intro heq
        rw [heq] at hcode
        exact (List.nodup_cons.mp hcode).1 hmem
      have hrest : (labelsOf rest).Nodup := by
        change (labelsOf ([i] ++ rest)).Nodup at hcode
        rw [labelsOf_append] at hcode
        exact (List.nodup_append.mp hcode).2.1
      rw [hi, if_neg Bool.false_ne_true, ih hrest h]
      rfl

/-! ## 3. Single instructions -/

section Instructions

variable {pc q : Nat} {m : Contents Address} {input output : List Int} {a : Address}
  {left right source index : Operand} {u v w : Int} {l : Label}

theorem step_label (h : code[pc]? = some (.label l)) :
    step code ⟨pc, m, input, output⟩ = some ⟨pc + 1, m, input, output⟩ := by
  simp [step, h, exec, Config.next]

theorem step_move (h : code[pc]? = some (.move (.address a) source))
    (hv : source.read m = some v) :
    step code ⟨pc, m, input, output⟩ = some ⟨pc + 1, m.set (.scalar a) v, input, output⟩ := by
  simp [step, h, exec, hv, Config.write, Operand.address?, Config.put, Config.next]

theorem step_arith {op : ArithOp} (h : code[pc]? = some (.arith op (.address a) left right))
    (hu : left.read m = some u) (hv : right.read m = some v) (hw : op.apply u v = some w) :
    step code ⟨pc, m, input, output⟩ = some ⟨pc + 1, m.set (.scalar a) w, input, output⟩ := by
  simp [step, h, exec, hu, hv, hw, Config.write, Operand.address?, Config.put, Config.next]

theorem step_load {base : Address}
    (h : code[pc]? = some (.load (.address a) (.address base) index))
    (hu : index.read m = some u) (hv : m (.element base u) = some v) :
    step code ⟨pc, m, input, output⟩ = some ⟨pc + 1, m.set (.scalar a) v, input, output⟩ := by
  simp [step, h, exec, hu, hv, Config.write, Operand.address?, Config.put, Config.next]

theorem step_store (h : code[pc]? = some (.store (.address a) index source))
    (hu : index.read m = some u) (hv : source.read m = some v) :
    step code ⟨pc, m, input, output⟩ = some ⟨pc + 1, m.set (.element a u) v, input, output⟩ := by
  simp [step, h, exec, hu, hv, Operand.address?, Config.put, Config.next]

theorem step_read (h : code[pc]? = some (.read (.address a))) :
    step code ⟨pc, m, v :: input, output⟩ = some ⟨pc + 1, m.set (.scalar a) v, input, output⟩ := by
  simp [step, h, exec, Config.write, Operand.address?, Config.put, Config.next]

theorem step_write (h : code[pc]? = some (.write source)) (hv : source.read m = some v) :
    step code ⟨pc, m, input, output⟩ = some ⟨pc + 1, m, input, output ++ [v]⟩ := by
  simp [step, h, exec, hv, Config.next]

theorem goTo_label (hcode : (labelsOf code).Nodup) (hq : code[q]? = some (.label l)) :
    Config.goTo ⟨pc, m, input, output⟩ code (some l) = some ⟨q, m, input, output⟩ := by
  simp [Config.goTo, findIdx?_label hcode hq]

theorem step_jump (hcode : (labelsOf code).Nodup) (h : code[pc]? = some (.jump (some l)))
    (hq : code[q]? = some (.label l)) :
    step code ⟨pc, m, input, output⟩ = some ⟨q, m, input, output⟩ := by
  simp [step, h, exec, goTo_label hcode hq]

/-- A comparison that holds jumps, one that does not goes on. -/
theorem step_branch_true {test : Comparison} (hcode : (labelsOf code).Nodup)
    (h : code[pc]? = some (.branch test left right (some l))) (hq : code[q]? = some (.label l))
    (hu : left.read m = some u) (hv : right.read m = some v) (htest : test.holds u v = true) :
    step code ⟨pc, m, input, output⟩ = some ⟨q, m, input, output⟩ := by
  simp [step, h, exec, hu, hv, htest, goTo_label hcode hq]

theorem step_branch_false {test : Comparison} {t : Target}
    (h : code[pc]? = some (.branch test left right t)) (hu : left.read m = some u)
    (hv : right.read m = some v) (htest : test.holds u v = false) :
    step code ⟨pc, m, input, output⟩ = some ⟨pc + 1, m, input, output⟩ := by
  simp [step, h, exec, hu, hv, htest, Config.next]

end Instructions

end Machine

end CMinusMinus
