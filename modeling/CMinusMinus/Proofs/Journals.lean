/-
  File:      CMinusMinus/Proofs/Journals.lean
  Subject:   Journals without faults and without blame, and journals of findings.

  A journal is FAULTLESS when the work it tells of ran to its end, and BLAMELESS when it holds no
  semantic error; warnings do not count. It is a journal of FINDINGS when it holds nothing but
  traces and the diagnostics of defects. All three are facts about its parts: a journal that was put
  together has them exactly when all its parts do. Findings are NOTICELESS: a user who reads them
  reads diagnostics.
-/
import CMinusMinus.Journal
import CMinusMinus.Proofs.Spelling

namespace CMinusMinus

namespace Journal

variable {i j : Journal}

/-! ## 1. Faults -/

/-- No fault is written down. -/
def Faultless (j : Journal) : Prop := ∀ f, Event.fault f ∉ j

theorem faultless_iff : j.Faultless ↔ j.fault? = none := by
  unfold Faultless fault?
  rw [List.findSome?_eq_none_iff]
  constructor
  · intro h e he
    cases e with
    | fault f => exact absurd he (h f)
    | trace _ => rfl
    | diagnostic _ => rfl
    | notice _ => rfl
  · intro h f hf
    exact absurd (h _ hf) (by simp)

@[simp] theorem faultless_nil : Faultless [] := fun _ h => absurd h List.not_mem_nil

@[simp] theorem faultless_append : (i ++ j).Faultless ↔ i.Faultless ∧ j.Faultless := by
  simp only [Faultless, List.mem_append, not_or]
  exact ⟨fun h => ⟨fun f => (h f).1, fun f => (h f).2⟩, fun h f => ⟨h.1 f, h.2 f⟩⟩

@[simp] theorem faultless_trace (t : Trace) : Faultless [.trace t] := by
  intro f hf
  cases List.mem_singleton.mp hf

@[simp] theorem not_faultless_fault (f : Fault) : ¬ Faultless [.fault f] :=
  fun h => h f List.mem_cons_self

@[simp] theorem faultless_report (pos : Position) (d : Defect) : (report pos d).Faultless := by
  intro f hf
  simp [report] at hf

/-! ## 2. Semantic errors -/

/-- No semantic error is written down. -/
def Blameless (j : Journal) : Prop := ∀ d ∈ j.diagnostics, d.severity ≠ .semanticError

theorem blameless_iff : j.Blameless ↔ Diagnostic.count j.diagnostics .semanticError = 0 := by
  unfold Blameless Diagnostic.count
  rw [List.countP_eq_zero]
  simp only [beq_iff_eq, ne_eq]

@[simp] theorem blameless_nil : Blameless [] := fun _ h => absurd h List.not_mem_nil

@[simp] theorem blameless_append : (i ++ j).Blameless ↔ i.Blameless ∧ j.Blameless := by
  simp only [Blameless, diagnostics_append, List.mem_append, or_imp, forall_and]

@[simp] theorem blameless_trace (t : Trace) : Blameless [.trace t] :=
  fun _ h => absurd h List.not_mem_nil

/-- A report of an error is to blame. -/
theorem not_blameless_report {pos : Position} {d : Defect}
    (hd : d.kind.severity = .semanticError) : ¬ (report pos d).Blameless :=
  fun h => h (d.diagnostic pos) (by simp [report, diagnostics]) hd

/-- A complaint about an error is to blame. -/
theorem blameless_complainIf {c : Bool} {pos : Position} {d : Defect}
    (hd : d.kind.severity = .semanticError) : (complainIf c pos d).Blameless ↔ c = false := by
  unfold complainIf
  cases c with
  | false => simp
  | true =>
    exact ⟨fun h => absurd hd (h (d.diagnostic pos) (by simp [complain, diagnostics])),
      fun h => by cases h⟩

@[simp] theorem complainIf_false (pos : Position) (d : Defect) : complainIf false pos d = [] := rfl

end Journal

/-! ## 3. Findings -/

/-- What a defect names is a name, or a base type of the language. -/
def Defect.Named : Defect → Prop
  | .variableRedeclared name | .functionRedeclared name | .variableUndeclared name
  | .functionUndeclared name | .voidVariable name | .voidParameter name => IsName name
  | .operandsNot typeName => typeName ∈ Ty.names
  | _ => True

/-- A trace, or the diagnostic of a defect. -/
inductive Event.IsFinding : Event → Prop where
  | trace (t : Trace) : Event.IsFinding (.trace t)
  | defect {d : Defect} (pos : Position) (h : d.Named) :
      Event.IsFinding (.diagnostic (d.diagnostic pos))

namespace Journal

variable {i j : Journal} {pos : Position} {d : Defect}

/-- Nothing but traces and the diagnostics of defects is written down. -/
def Findings (j : Journal) : Prop := ∀ e ∈ j, e.IsFinding

@[simp] theorem findings_nil : Findings [] := fun _ h => absurd h List.not_mem_nil

@[simp] theorem findings_append : (i ++ j).Findings ↔ i.Findings ∧ j.Findings :=
  List.forall_mem_append

@[simp] theorem findings_trace (t : Trace) : Findings [.trace t] :=
  List.forall_mem_singleton.mpr (.trace t)

theorem findings_report (h : d.Named) : (report pos d).Findings :=
  List.forall_mem_cons.mpr ⟨.trace _, List.forall_mem_singleton.mpr (.defect pos h)⟩

theorem findings_complainIf {c : Bool} (h : d.Named) : (complainIf c pos d).Findings := by
  cases c with
  | false => exact findings_nil
  | true => exact List.forall_mem_singleton.mpr (.defect pos h)

theorem Findings.faultless (h : j.Findings) : j.Faultless :=
  fun f hf => nomatch h (.fault f) hf

/-- The diagnostics of a journal of findings are those of defects. -/
theorem Findings.of_mem_diagnostics (h : j.Findings) {found : Diagnostic}
    (hfound : found ∈ j.diagnostics) : ∃ d : Defect, d.Named ∧ ∃ pos, found = d.diagnostic pos := by
  obtain ⟨e, he, hshown⟩ := List.mem_filterMap.mp hfound
  cases h e he with
  | trace t => cases hshown
  | defect pos hd =>
    cases hshown
    exact ⟨_, hd, pos, rfl⟩

/-- No line for the user is written down but by a diagnostic. -/
def Noticeless (j : Journal) : Prop := ∀ line, Event.notice line ∉ j

theorem Findings.noticeless (h : j.Findings) : j.Noticeless :=
  fun line hline => nomatch h (.notice line) hline

/-- The lines for the user are those of the diagnostics. -/
theorem Noticeless.userLines_eq : ∀ {j : Journal}, j.Noticeless →
    j.userLines = j.diagnostics.map Diagnostic.text
  | [], _ => rfl
  | e :: j, h => by
      have hrest := Noticeless.userLines_eq fun line hline => h line (List.mem_cons_of_mem _ hline)
      cases e with
      | trace t => exact hrest
      | fault f => exact hrest
      | diagnostic d => exact congrArg (_ :: ·) hrest
      | notice line => exact absurd List.mem_cons_self (h line)

end Journal

end CMinusMinus
