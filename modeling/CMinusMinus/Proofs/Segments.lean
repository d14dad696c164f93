/-
  File:      CMinusMinus/Proofs/Segments.lean
  Subject:   The code of a program: a header, then one segment for each function.

  The string constants and the entry come first. Behind them stands, in the order of the program,
  one segment for each function that it defines: a begin with the function's code label, the size of
  its frame, the code of its body, and an end. Between a begin and the next end there is nothing but
  one such segment.

  * `Segment` -- the code of one function;
  * `Fn`, `Program.fns` -- the functions of a program, in order;
  * `Lower.Arrival`, `Lower.arrivals` -- the functions as lowering comes to them: with scope, frame
    and state at the body;
  * `Lower.decls_code`, `Lower.decls_segments` -- the segments of a program's code, in order;
  * `IsSegment`, `IsSegment.of_code` -- what stands between a begin and the next end.
-/
import CMinusMinus.Proofs.TidyCode
import CMinusMinus.Proofs.WellTyped

namespace CMinusMinus

/-! ## 1. Segments -/

/-- The code of one function. -/
structure Segment where
  label : String
  locals : Nat
  temporaries : Nat
  body : List Instr

namespace Segment

/-- What stands between begin and end. -/
def inside (g : Segment) : List Instr := .frame g.locals g.temporaries :: g.body

/-- All instructions of a segment. -/
def code (g : Segment) : List Instr := .func g.label :: g.inside ++ [.endFunc g.label]

end Segment

/-- Segments one after the other with tidy bodies, made while the label counter goes from `lo` to
    `hi`. -/
inductive TidySegments : List Segment → Nat → Nat → Prop where
  | nil {n : Nat} : TidySegments [] n n
  | cons {g : Segment} {gs : List Segment} {lo mid hi : Nat} (hbody : TidyCode g.body lo mid [])
      (hgs : TidySegments gs mid hi) : TidySegments (g :: gs) lo hi

theorem TidySegments.append {gs₁ gs₂ : List Segment} {lo mid hi : Nat}
    (h₁ : TidySegments gs₁ lo mid) (h₂ : TidySegments gs₂ mid hi) :
    TidySegments (gs₁ ++ gs₂) lo hi := by
  induction h₁ with
  | nil => exact h₂
  | cons hbody _ ih => exact .cons hbody (ih h₂)

theorem TidySegments.tidy {gs : List Segment} {lo hi : Nat} (h : TidySegments gs lo hi) :
    ∀ g ∈ gs, ∃ m n, TidyCode g.body m n [] := by
  induction h with
  | nil => exact fun _ hg => absurd hg List.not_mem_nil
  | cons hbody _ ih => exact List.forall_mem_cons.mpr ⟨⟨_, _, hbody⟩, ih⟩

theorem Segment.labelsOf_code (g : Segment) : labelsOf g.code = labelsOf g.body := by
  unfold Segment.code Segment.inside
  rw [labelsOf_append]
  exact List.append_nil _

/-- The labels of segments one after the other: each drawn meanwhile, none defined twice. -/
theorem TidySegments.labels {gs : List Segment} {lo hi : Nat} (h : TidySegments gs lo hi) :
    lo ≤ hi ∧ (labelsOf (gs.flatMap Segment.code)).Nodup ∧
      ∀ l ∈ labelsOf (gs.flatMap Segment.code), lo ≤ l.number ∧ l.number < hi := by
  induction h with
  | nil => exact ⟨Nat.le_refl _, List.nodup_nil, fun _ hl => absurd hl List.not_mem_nil⟩
  | @cons g gs lo mid hi hbody _ ih =>
    obtain ⟨hle, hnodup, hrange⟩ := ih
    have hle' := hbody.le
    rw [List.flatMap_cons, labelsOf_append, Segment.labelsOf_code]
    refine ⟨Nat.le_trans hle' hle, List.nodup_append.mpr ⟨hbody.nodup, hnodup, ?_⟩, ?_⟩
    · intro l hl m hm heq
      have hlt := hbody.fresh l hl
      have hge := hrange m hm
      rw [← heq] at hge
      omega
    · intro l hl
      rcases List.mem_append.mp hl with hl | hl
      · have hfresh := hbody.fresh l hl
        omega
      · have hfresh := hrange l hl
        omega

/-! ## 2. Functions -/

/-- A function that a program defines. -/
structure Fn where
  head : FnHead
  params : List Decl
  body : Block

/-- What a function is known by. -/
structure FnKey where
  name : String
  params : List Ty
  deriving DecidableEq

/-- The code label of a function. -/
def FnKey.label (k : FnKey) : String := codeLabel k.name k.params

/-- The name of a function, and the types of its parameters. -/
def Fn.key (f : Fn) : FnKey := ⟨f.head.name, f.params.filterMap Decl.ty?⟩

/-- The code label of a function. -/
def Fn.label (f : Fn) : String := f.key.label

/-- The function that a declaration defines. -/
def Decl.fn? : Decl → Option Fn
  | .function head params body => some ⟨head, params, body⟩
  | _ => none

/-- **The functions that a program defines**, in order. -/
def Program.fns (p : Program) : List Fn := p.decls.filterMap Decl.fn?

/-- What the function of a declaration is known by. -/
def Decl.key? (d : Decl) : Option FnKey := d.fn?.map Fn.key

/-- What the functions of a program are known by, in order. -/
def Program.keys (p : Program) : List FnKey := p.decls.filterMap Decl.key?

theorem paramTypes_eq : ∀ {params : List Decl} {tys : List Ty}, paramTypes params = .ok tys →
    tys = params.filterMap Decl.ty?
  | [], _, h => by
      cases h
      rfl
  | d :: ds, tys, h => by
      rw [paramTypes] at h
      cases hty : d.ty? with
      | none => rw [hty] at h; cases h
      | some ty =>
        rw [hty] at h
        cases hds : paramTypes ds with
        | error f => rw [hds] at h; cases h
        | ok rest =>
          rw [hds] at h
          cases h
          rw [List.filterMap_cons, hty, paramTypes_eq hds]

namespace Lower

/-- **How lowering comes to the body of a function**: with a scope, a frame and a state. -/
structure Arrival extends Fn where
  scope : Scope
  frame : Frame
  start : State

namespace Arrival

/-- What becomes of the body. -/
def lowered (a : Arrival) : Lowered := block a.label a.scope a.frame a.body a.start

/-- The code of the function. -/
def segment (a : Arrival) : Segment :=
  ⟨a.label, a.lowered.after.alloc.locals, a.lowered.after.alloc.temporaries, a.lowered.code⟩

end Arrival

/-- How lowering comes to the body of a function when it has come to its head. -/
def arrive (globals : Frame) (f : Fn) (s : State) : Arrival :=
  let declared := declare globals f.head.name (.function ⟨f.head.ret, f.key.params, false⟩)
    { s with alloc := s.alloc.resetFunction }
  let formals := placeDecls .param [] f.params
    (declared.2.note (.trace (.loweringFunction f.label)))
  { f with scope := { globals := declared.1 }, frame := formals.1, start := formals.2 }

theorem function_arrive (globals : Frame) (f : Fn) (s : State) :
    function globals f.head f.params f.key.params f.body s =
      ((arrive globals f s).scope.globals,
        ⟨(arrive globals f s).segment.code, (arrive globals f s).lowered.after⟩) := by
  simp [function, arrive, Arrival.segment, Arrival.lowered, Segment.code, Segment.inside, Fn.label,
    FnKey.label, Fn.key]

/-- How lowering comes to the function that a declaration defines. -/
def arrival? (globals : Frame) (d : Decl) (s : State) : Option Arrival :=
  d.fn?.bind fun f => (paramTypes f.params).toOption.map fun _ => arrive globals f s

/-- **How lowering comes to the functions that declarations define**, one after the other. -/
def arrivals (globals : Frame) : List Decl → State → List Arrival
  | [], _ => []
  | d :: ds, s =>
      let first := decl globals d s
      (arrival? globals d s).toList ++ arrivals first.1 ds first.2.after

theorem arrival?_function (globals : Frame) {f : Fn} {tys : List Ty} (s : State)
    (htys : paramTypes f.params = .ok tys) :
    arrival? globals (.function f.head f.params f.body) s = some (arrive globals f s) := by
  simp [arrival?, Decl.fn?, htys, Except.toOption]

theorem decl_arrive (globals : Frame) {f : Fn} {tys : List Ty} (s : State)
    (htys : paramTypes f.params = .ok tys) :
    decl globals (.function f.head f.params f.body) s =
      ((arrive globals f s).scope.globals,
        ⟨(arrive globals f s).segment.code, (arrive globals f s).lowered.after⟩) := by
  rw [decl, htys, ← function_arrive, paramTypes_eq htys]
  rfl

theorem decl_code (globals : Frame) (d : Decl) (s : State) :
    (decl globals d s).2.code = (arrival? globals d s).toList.flatMap fun a => a.segment.code := by
  cases d with
  | function head params body =>
    cases htys : paramTypes params with
    | error f => simp [decl, arrival?, Decl.fn?, htys, Except.toOption]
    | ok tys =>
      have hdecl := decl_arrive globals (f := ⟨head, params, body⟩) s htys
      have harrival := arrival?_function globals (f := ⟨head, params, body⟩) s htys
      rw [hdecl, harrival]
      exact (List.append_nil _).symm
  | prototype head params => cases htys : paramTypes params <;> simp [decl, arrival?, Decl.fn?, htys]
  | _ => rfl

/-- **The code of declarations**: the segments of the functions that lowering comes to. -/
theorem decls_code (globals : Frame) : ∀ (ds : List Decl) (s : State),
    (decls globals ds s).code = (arrivals globals ds s).flatMap fun a => a.segment.code
  | [], _ => rfl
  | d :: ds, s => by
      rw [decls, arrivals, List.flatMap_append, decl_code, decls_code]

/-- Lowering comes to the function that a proper declaration defines, and its code is tidy. -/
theorem arrival?_tidy (globals : Frame) {d : Decl} (hd : d.Proper) (s : State) :
    (arrival? globals d s).map Arrival.toFn = d.fn? ∧
      TidySegments ((arrival? globals d s).toList.map Arrival.segment) s.alloc.labels
        (decl globals d s).2.after.alloc.labels := by
  cases hd with
  | var h =>
    obtain ⟨-, -⟩ := h
    exact ⟨rfl, (place_labels .global globals _ _ s).symm ▸ TidySegments.nil⟩
  | prototype _ hparams =>
    obtain ⟨tys, htys, -⟩ := paramTypes_ok hparams
    rw [decl, htys]
    exact ⟨rfl, (declare_labels globals _ _ s).symm ▸ TidySegments.nil⟩
  | @function head params body hhead hparams hbody =>
    obtain ⟨tys, htys, -⟩ := paramTypes_ok hparams
    let f : Fn := ⟨head, params, body⟩
    have hdecl := decl_arrive globals (f := f) s htys
    have harrival := arrival?_function globals (f := f) s htys
    have htidy := block_tidy (isCodeLabel_codeLabel hhead.name f.key.params)
      (arrive globals f s).scope (arrive globals f s).frame body hbody (arrive globals f s).start
    -- up to the body no label is drawn
    have hlabels : (arrive globals f s).start.alloc.labels = s.alloc.labels :=
      (placeDecls_labels .param params [] _).trans (declare_labels globals _ _ _)
    rw [hlabels] at htidy
    rw [hdecl, harrival]
    exact ⟨rfl, .cons htidy .nil⟩

/-- **Lowering comes to the functions of proper declarations**, and their code is tidy. -/
theorem arrivals_tidy : ∀ {ds : List Decl} (globals : Frame) (s : State), (∀ d ∈ ds, d.Proper) →
    (arrivals globals ds s).map Arrival.toFn = ds.filterMap Decl.fn? ∧
      TidySegments ((arrivals globals ds s).map Arrival.segment) s.alloc.labels
        (decls globals ds s).after.alloc.labels
  | [], _, _, _ => ⟨rfl, .nil⟩
  | d :: ds, globals, s, h => by
      obtain ⟨hd, hds⟩ := List.forall_mem_cons.mp h
      obtain ⟨hfirst, htidy⟩ := arrival?_tidy globals hd s
      obtain ⟨hothers, htidies⟩ :=
        arrivals_tidy (decl globals d s).1 (decl globals d s).2.after hds
      rw [arrivals, List.map_append, List.map_append, hothers, ← Option.toList_map, hfirst,
        List.filterMap_cons]
      refine ⟨?_, htidy.append htidies⟩
      cases d.fn? <;> rfl

/-- The code of proper declarations: one segment for each function that they define. -/
theorem decls_segments {ds : List Decl} (globals : Frame) (s : State) (h : ∀ d ∈ ds, d.Proper) :
    ∃ gs : List Segment, (decls globals ds s).code = gs.flatMap Segment.code ∧
      gs.map Segment.label = (ds.filterMap Decl.key?).map FnKey.label ∧
      TidySegments gs s.alloc.labels (decls globals ds s).after.alloc.labels := by
  obtain ⟨hfns, htidy⟩ := arrivals_tidy globals s h
  refine ⟨(arrivals globals ds s).map Arrival.segment, ?_, ?_, htidy⟩
  · rw [decls_code, List.flatMap_map]
  · have hlabels := congrArg (List.map Fn.label) hfns
    rw [List.map_map, List.map_filterMap] at hlabels
    rw [List.map_map, List.map_filterMap]
    simp only [Decl.key?, Option.map_map]
    exact hlabels

end Lower

/-! ## 3. Between begin and end -/

/-- The instruction begins or ends a function. -/
def Instr.isBoundary : Instr → Bool
  | .func _ | .endFunc _ => true
  | _ => false

/-- The instruction begins a function. -/
def Instr.begins : Instr → Bool
  | .func _ => true
  | _ => false

/-- **What stands between the begin of a function and the next end.** -/
def IsSegment (code segment : List Instr) : Prop :=
  ∃ before start stop after, code = before ++ .func start :: segment ++ .endFunc stop :: after ∧
    ∀ i ∈ segment, i.isBoundary = false

theorem Instr.Inner.isBoundary_eq {i : Instr} (h : i.Inner) : i.isBoundary = false := by
  cases i with
  | func _ => exact h.elim
  | endFunc _ => exact h.elim
  | _ => rfl

theorem Instr.begins_eq {i : Instr} (h : i.isBoundary = false) : i.begins = false := by
  cases i with
  | func _ => cases h
  | _ => rfl

theorem Segment.inside_isBoundary {g : Segment} (h : ∀ i ∈ g.body, i.Inner) :
    ∀ i ∈ g.inside, i.isBoundary = false :=
  List.forall_mem_cons.mpr ⟨rfl, fun i hi => (h i hi).isBoundary_eq⟩

/-- Code up to the next boundary is determined by the code. -/
theorem eq_of_boundary {c₁ c₂ r₁ r₂ : List Instr} {i₁ i₂ : Instr}
    (h₁ : ∀ i ∈ c₁, i.isBoundary = false) (h₂ : ∀ i ∈ c₂, i.isBoundary = false)
    (hi₁ : i₁.isBoundary = true) (hi₂ : i₂.isBoundary = true)
    (h : c₁ ++ i₁ :: r₁ = c₂ ++ i₂ :: r₂) : c₁ = c₂ := by
  have htake : ∀ {c r : List Instr} {j : Instr}, (∀ i ∈ c, i.isBoundary = false) →
      j.isBoundary = true → (c ++ j :: r).takeWhile (fun i => !i.isBoundary) = c := by
    intro c r j hc hj
    rw [List.takeWhile_append_of_pos (by simpa using hc), List.takeWhile_cons_of_neg (by simp [hj]),
      List.append_nil]
  rw [← htake h₁ hi₁ (r := r₁), h, htake h₂ hi₂]

/-- A begin that stands in code behind instructions that are none stands behind all of these. -/
theorem exists_of_begins {front rest before tail : List Instr} {start : String}
    (hfront : ∀ i ∈ front, i.begins = false)
    (h : front ++ rest = before ++ .func start :: tail) :
    ∃ before', before = front ++ before' ∧ rest = before' ++ .func start :: tail := by
  rcases List.append_eq_append_iff.mp h with ⟨m, hbefore, hrest⟩ | ⟨m, hf, htail⟩
  · exact ⟨m, hbefore, hrest⟩
  · cases m with
    | nil =>
      rw [List.append_nil] at hf
      exact ⟨[], by rw [hf, List.append_nil], htail.symm⟩
    | cons i m =>
      -- the begin would stand among the instructions in front
      have hi : i = .func start := (List.cons.inj htail).1.symm
      have hmem : i ∈ front := hf ▸ List.mem_append_right _ List.mem_cons_self
      have hbegins := hfront i hmem
      rw [hi] at hbegins
      cases hbegins

/-- The header of a program's code begins no function and defines no label. -/
theorem Lower.header_plain (pool : List String) (label : String) (globals : Nat) :
    (∀ i ∈ pool.map Instr.string ++ [.entry label globals], i.begins = false) ∧
      labelsOf (pool.map Instr.string ++ [.entry label globals]) = [] := by
  constructor
  · intro i hi
    rcases List.mem_append.mp hi with hi | hi
    · obtain ⟨text, -, heq⟩ := List.mem_map.mp hi
      rw [← heq]
      rfl
    · rw [List.mem_singleton.mp hi]
      rfl
  · rw [labelsOf_append, labelsOf, List.filterMap_map]
    simp [labelsOf, Instr.label?, Function.comp_def]

/-- **Between a begin and the next end of a program's code stands one of its segments.** -/
theorem IsSegment.of_code {gs : List Segment} (hgs : ∀ g ∈ gs, ∀ i ∈ g.body, i.Inner) :
    ∀ {front : List Instr} {segment : List Instr}, (∀ i ∈ front, i.begins = false) →
      IsSegment (front ++ gs.flatMap Segment.code) segment → ∃ g ∈ gs, segment = g.inside := by
  induction gs with
  | nil =>
    intro front segment hfront h
    obtain ⟨before, start, stop, after, hcode, -⟩ := h
    rw [List.append_assoc, List.cons_append] at hcode
    obtain ⟨before', -, hrest⟩ := exists_of_begins hfront hcode
    exact absurd hrest (by simp)
  | cons g gs ih =>
    intro front segment hfront h
    obtain ⟨before, start, stop, after, hcode, hsegment⟩ := h
    obtain ⟨hg, hgs⟩ := List.forall_mem_cons.mp hgs
    have hinside := Segment.inside_isBoundary hg
    rw [List.append_assoc, List.cons_append] at hcode
    obtain ⟨before', -, hrest⟩ := exists_of_begins hfront hcode
    rw [List.flatMap_cons, Segment.code, List.cons_append, List.cons_append,
      List.append_assoc] at hrest
    cases before' with
    | nil =>
      have htail := (List.cons.inj hrest).2
      exact ⟨g, List.mem_cons_self, (eq_of_boundary hinside hsegment rfl rfl htail).symm⟩
    | cons i before' =>
      -- the begin stands further behind, in front of it the rest of this segment
      have htail := (List.cons.inj hrest).2
      have hfront' : ∀ i ∈ g.inside ++ [.endFunc g.label], i.begins = false := by
        intro j hj
        rcases List.mem_append.mp hj with hj | hj
        · exact Instr.begins_eq (hinside j hj)
        · rw [List.mem_singleton.mp hj]
          rfl
      have hcode' : g.inside ++ [.endFunc g.label] ++ gs.flatMap Segment.code =
          before' ++ .func start :: segment ++ .endFunc stop :: after := by
        rw [List.append_assoc, List.append_assoc, List.cons_append]
        exact htail
      obtain ⟨g', hg', heq⟩ := ih hgs hfront' ⟨before', start, stop, after, hcode', hsegment⟩
      exact ⟨g', List.mem_cons_of_mem _ hg', heq⟩

/-! ## 4. The code of a source text -/

/-- The code of a source text, unless something ends the work. -/
def codeOfSource? (source : List Char) : Option (List Instr) :=
  (Program.ofSource? source).bind fun p => (Lower.result p {}).toOption.map Prod.fst

theorem exists_of_codeOfSource? {source : List Char} {code : List Instr}
    (h : codeOfSource? source = some code) :
    ∃ p after, Program.ofSource? source = some p ∧ Lower.result p {} = .ok (code, after) := by
  obtain ⟨p, hp, hcode⟩ := Option.bind_eq_some_iff.mp h
  obtain ⟨⟨code', after⟩, hresult, heq⟩ := Option.map_eq_some_iff.mp hcode
  refine ⟨p, after, hp, ?_⟩
  cases hlowered : Lower.result p {} with
  | error f => rw [hlowered] at hresult; cases hresult
  | ok r =>
    rw [hlowered] at hresult
    cases hresult
    rw [← heq]

end CMinusMinus
