/-
  File:      CMinusMinus/Proofs/JumpClosure.lean
  Subject:   Within a function, every jump has a place to go and every place is jumped to.

  Labels are drawn from one counter for the whole program. In the code of a program that was read
  from a source text, the labels that stand in the segment of a function are exactly those that its
  jumps go to, and none of them stands anywhere else.

  * `jumps_closed` -- the closure of jumps.
-/
import CMinusMinus.Proofs.Segments

namespace CMinusMinus

/-- **Jump closure.** In each function's segment of the code the labels defined are the labels
    jumped to, no jump goes nowhere, and no label is defined a second time in the whole code. -/
theorem jumps_closed {source : List Char} {p : Program} (hp : Program.ofSource? source = some p)
    {s after : Lower.State} {code segment : List Instr}
    (hcode : Lower.result p s = .ok (code, after)) (hsegment : IsSegment code segment) :
    (∀ l, l ∈ labelsOf segment ↔ some l ∈ targetsOf segment) ∧ none ∉ targetsOf segment ∧
      ∀ l ∈ labelsOf segment, (labelsOf code).count l = 1 := by
  obtain ⟨gs, hgs, -, htidy⟩ := Lower.decls_segments [] s (Program.proper_ofSource? hp)
  have hprogram : code = (Lower.program p s).code := by
    unfold Lower.result at hcode
    dsimp only at hcode
    split at hcode
    · cases hcode
    · cases hcode
      rfl
  rw [Lower.program, hgs] at hprogram
  obtain ⟨hheader, hnone⟩ := Lower.header_plain (Lower.decls [] p.decls s).after.alloc.pool
    (codeLabel Lower.entryName []) (Lower.decls [] p.decls s).after.alloc.globals
  have hinner : ∀ g ∈ gs, ∀ i ∈ g.body, i.Inner := by
    intro g hg
    obtain ⟨m, n, hbody⟩ := htidy.tidy g hg
    exact hbody.inner
  rw [hprogram] at hsegment
  obtain ⟨g, hg, heq⟩ := hsegment.of_code hinner hheader
  obtain ⟨m, n, hbody⟩ := htidy.tidy g hg
  have hlabels : labelsOf segment = labelsOf g.body := by rw [heq]; rfl
  have htargets : targetsOf segment = targetsOf g.body := by rw [heq]; rfl
  rw [hlabels, htargets]
  -- nothing is handed down to the body of a function
  have hknown : ∀ t ∈ targetsOf g.body, ∃ l ∈ labelsOf g.body, t = some l := by
    intro t ht
    rcases hbody.known t ht with hout | hdefined
    · exact absurd hout List.not_mem_nil
    · exact hdefined
  refine ⟨fun l => ⟨hbody.used l, fun ht => ?_⟩, fun ht => ?_, fun l hl => ?_⟩
  · obtain ⟨m, hm, hlm⟩ := hknown _ ht
    rw [Option.some.inj hlm]
    exact hm
  · obtain ⟨m, -, hnone⟩ := hknown _ ht
    cases hnone
  · have hall : labelsOf code = labelsOf (gs.flatMap Segment.code) := by
      rw [hprogram, labelsOf_append, hnone, List.nil_append]
    have hmem : l ∈ labelsOf (gs.flatMap Segment.code) := by
      unfold labelsOf at hl ⊢
      rw [List.filterMap_flatMap]
      refine List.mem_flatMap.mpr ⟨g, hg, ?_⟩
      have hcode := g.labelsOf_code
      unfold labelsOf at hcode
      rw [hcode]
      exact hl
    rw [hall]
    exact htidy.labels.2.1.count.trans (if_pos hmem)

/-- A loop with a conjunction and a negation for its condition. -/
def countToThree : String :=
  "void main() \x7b int i; while (i < 3 && !(i == 1)) \x7b i = i + 1; \x7d \x7d"

/-- What its function holds. -/
def countToThreeSegment : List Instr :=
  let i : Operand := .address ⟨.local, 0⟩
  let next : Operand := .address ⟨.temporary, 0⟩
  [.frame 1 1, .label ⟨1⟩, .branch .lt i (.literal 3) (some ⟨3⟩), .jump (some ⟨0⟩), .label ⟨3⟩,
    .branch .eq i (.literal 1) (some ⟨0⟩), .jump (some ⟨2⟩), .label ⟨2⟩,
    .arith .add next i (.literal 1), .move i next, .jump (some ⟨1⟩), .label ⟨0⟩]

theorem jumps_closed_countToThree :
    ∃ p code after, Program.ofSource? countToThree.toList = some p ∧
      Lower.result p {} = .ok (code, after) ∧ IsSegment code countToThreeSegment ∧
      (∀ l, l ∈ labelsOf countToThreeSegment ↔ some l ∈ targetsOf countToThreeSegment) ∧
      none ∉ targetsOf countToThreeSegment ∧
      ∀ l ∈ labelsOf countToThreeSegment, (labelsOf code).count l = 1 := by
  have hcode : codeOfSource? countToThree.toList =
      some ([.entry "main" 0] ++ .func "main" :: countToThreeSegment ++ [.endFunc "main"]) := by
    decide +kernel
  obtain ⟨p, after, hp, hresult⟩ := exists_of_codeOfSource? hcode
  have hsegment : IsSegment ([.entry "main" 0] ++ .func "main" :: countToThreeSegment ++
      [.endFunc "main"]) countToThreeSegment :=
    ⟨[.entry "main" 0], "main", "main", [], rfl, by decide⟩
  exact ⟨p, _, after, hp, hresult, hsegment, jumps_closed hp hresult hsegment⟩

end CMinusMinus
