/-
  File:      CMinusMinus/Proofs/CallDiscipline.lean
  Subject:   Arguments are handed over as on a stack.

  The arguments of a call are handed over one by one, and between two of them may stand the whole
  code of the next one: other calls with their own arguments, and conditions with their jumps. On
  every walk a call still finds its own arguments on top, all of them and in order, and takes as
  many as the function that it was resolved to has parameters; whichever way a walk comes to a
  place, the same arguments wait there; and none waits when the function is left.

  * `StackDiscipline` -- what holds on all walks through a body;
  * `arguments_meet_their_calls` -- it holds of every function of an accepted program.
-/
import CMinusMinus.Proofs.Marks

namespace CMinusMinus

/-- **On all walks through the code arguments are handed over as on a stack.** -/
structure StackDiscipline (code : List Instr) : Prop where
  /-- The top entries at a call carry the places of its arguments, the last one first. -/
  takes : ∀ {met pc i n}, Walk code met pc → code[pc]? = some i → i.takes? = some n →
    ((handedOver met).take n).map Prod.snd = (List.range n).reverse
  /-- Walks that come to the same place have handed over the same. -/
  joins : ∀ {met₁ met₂ pc}, Walk code met₁ pc → Walk code met₂ pc →
    handedOver met₁ = handedOver met₂
  returns : ∀ {met pc i}, Walk code met pc → code[pc]? = some i → i.returns = true →
    handedOver met = []
  ends : ∀ {met}, Walk code met code.length → handedOver met = []

/-- The body of a function keeps the discipline. -/
theorem Setting.stackDiscipline (c : Setting) : StackDiscipline c.segment.body := by
  obtain ⟨F, hend, hadmits, hholds⟩ :=
    Lower.block_facts c.label c.scope_stored c.frame_stored c.body c.start
  constructor
  · intro met pc i n hwalk hi htakes
    rw [(hholds hwalk).waiting]
    exact (hadmits pc i hi).takes n htakes
  · intro met₁ met₂ pc hwalk₁ hwalk₂
    rw [(hholds hwalk₁).waiting, (hholds hwalk₂).waiting]
  · intro met pc i hwalk hi hreturns
    rw [(hholds hwalk).waiting]
    exact (hadmits pc i hi).returns hreturns
  · intro met hwalk
    rw [(hholds hwalk).waiting]
    exact hend

/-- **Every call of an accepted program meets its own arguments.** The calls of a function's segment
    are those of its body, in order, each with the label of the overload that it is resolved to and
    with as many arguments as this one has parameters; and on all walks through the segment
    arguments are handed over as on a stack. -/
theorem arguments_meet_their_calls {source : List Char} {p : Program}
    (h : Program.ofSource? source = some p) (haccepted : p.Accepted) :
    ∃ code after fs, Lower.result p {} = .ok (code, after) ∧ p.Layout code fs ∧
      ∀ f ∈ fs, callsOf f.2.body = (f.1.body.calls f.1.scope).map Overload.called ∧
        StackDiscipline f.2.body :=
  Program.exists_layout
    (P := fun f g => callsOf g.body = (f.body.calls f.scope).map Overload.called ∧
      StackDiscipline g.body)
    (fun c => ⟨c.callsOf_body, c.stackDiscipline⟩) h haccepted

/-- Calls among the arguments of calls, with conditions between them. -/
def nestedCalls : String :=
  "int pick(bool c, int a, int b) \x7b if (c) \x7b return a; \x7d return b; \x7d " ++
  "int main() \x7b int x; x = 3; while (pick(x < 4 && 0 < x, x, 0) > 0) " ++
  "\x7b x = pick(!(x == 2), pick(x > 1, 5, 6), x - 1); \x7d " ++
  "return pick(x < 1 || 1 < x, 7, x); \x7d"

theorem arguments_meet_their_calls_nestedCalls :
    ∃ p, Program.ofSource? nestedCalls.toList = some p ∧ p.Accepted ∧
      ∃ code after fs, Lower.result p {} = .ok (code, after) ∧ p.Layout code fs ∧
        ∀ f ∈ fs, callsOf f.2.body = (f.1.body.calls f.1.scope).map Overload.called ∧
          StackDiscipline f.2.body := by
  obtain ⟨p, hp, haccepted⟩ := Program.exists_accepted nestedCalls.toList (by decide +kernel)
  exact ⟨p, hp, haccepted, arguments_meet_their_calls hp haccepted⟩

end CMinusMinus
