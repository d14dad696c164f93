/-
  File:      CMinusMinus/Proofs/FunctionLabels.lean
  Subject:   When two functions have the same code label.

  Functions are told apart by their names and the types of their parameters, pointers included. A
  code label joins the name and the base names of the types by underscores. That loses two things:
  how many pointers a type has, and where the name ends, since a name may hold underscores itself.
  The labels of two functions are the same exactly if the name of one SPELLS the other's name and
  some of its parameters, and their other parameters have the same base names.

  * `FnKey.Separate` -- functions that are told apart;
  * `FnKey.Spells`, `FnKey.spells_of_label_eq` -- which functions have the same label;
  * `funcLabels_nodup_iff` -- the labels of an accepted program's functions.
-/
import CMinusMinus.Proofs.Agreement
import CMinusMinus.Proofs.Segments

namespace CMinusMinus

/-! ## 1. Joining by underscores -/

/-- A name and base names behind it, the last one first. -/
def joined (name : String) : List String → String
  | [] => name
  | base :: bases => joined name bases ++ "_" ++ base

theorem joined_append (name : String) : ∀ front back : List String,
    joined name (back ++ front) = joined (joined name front) back
  | _, [] => rfl
  | front, base :: back => by
      rw [List.cons_append, joined, joined, joined_append name front back]

theorem intercalate_eq_joined (name : String) : ∀ bases : List String,
    String.intercalate "_" (name :: bases.reverse) = joined name bases
  | [] => by simp [joined]
  | base :: bases => by
      have hsplit : name :: (base :: bases).reverse = (name :: bases.reverse) ++ [base] := by simp
      rw [hsplit, String.intercalate_append_of_ne_nil (by simp) (by simp),
        intercalate_eq_joined name bases, joined]
      simp

/-- Texts are the same in front of and behind their last underscore. -/
theorem last_underscore {x₁ x₂ y₁ y₂ : List Char} (h₁ : '_' ∉ y₁) (h₂ : '_' ∉ y₂)
    (h : x₁ ++ '_' :: y₁ = x₂ ++ '_' :: y₂) : x₁ = x₂ ∧ y₁ = y₂ := by
  rcases List.append_eq_append_iff.mp h with ⟨m, hx, hy⟩ | ⟨m, hx, hy⟩
  · cases m with
    | nil => exact ⟨by rw [hx, List.append_nil], (List.cons.inj hy).2⟩
    | cons c m =>
      have htail := (List.cons.inj hy).2
      exact absurd (htail ▸ List.mem_append_right _ List.mem_cons_self) h₁
  · cases m with
    | nil => exact ⟨by rw [hx, List.append_nil], (List.cons.inj hy).2.symm⟩
    | cons c m =>
      have htail := (List.cons.inj hy).2
      exact absurd (htail ▸ List.mem_append_right _ List.mem_cons_self) h₂

/-- Base names joined to two names give the same text only if they are the same as far as both
    reach, and the rest of them is spelled by the other name. -/
theorem joined_eq : ∀ {bases₁ bases₂ : List String} {name₁ name₂ : String},
    (∀ b ∈ bases₁, '_' ∉ b.toList) → (∀ b ∈ bases₂, '_' ∉ b.toList) →
    joined name₁ bases₁ = joined name₂ bases₂ →
      (∃ front, bases₁ = bases₂ ++ front ∧ name₂ = joined name₁ front) ∨
        ∃ front, bases₂ = bases₁ ++ front ∧ name₁ = joined name₂ front
  | bases₁, [], _, _, _, _, h => Or.inl ⟨bases₁, rfl, h.symm⟩
  | [], bases₂, _, _, _, _, h => Or.inr ⟨bases₂, rfl, h⟩
  | base₁ :: bases₁, base₂ :: bases₂, name₁, name₂, h₁, h₂, h => by
      obtain ⟨hb₁, hbs₁⟩ := List.forall_mem_cons.mp h₁
      obtain ⟨hb₂, hbs₂⟩ := List.forall_mem_cons.mp h₂
      have hlist := congrArg String.toList h
      rw [joined, joined, String.toList_append, String.toList_append, String.toList_append,
        String.toList_append, List.append_assoc, List.append_assoc] at hlist
      obtain ⟨hfront, hbase⟩ := last_underscore hb₁ hb₂ hlist
      rw [String.toList_inj.mp hbase]
      rcases joined_eq hbs₁ hbs₂ (String.toList_inj.mp hfront) with
        ⟨front, hbs, hname⟩ | ⟨front, hbs, hname⟩
      · exact Or.inl ⟨front, by rw [hbs, List.cons_append], hname⟩
      · exact Or.inr ⟨front, by rw [hbs, List.cons_append], hname⟩

/-! ## 2. Keys of functions -/

namespace FnKey

/-- The base names of the parameters. -/
def bases (k : FnKey) : List String := k.params.map Ty.name

/-- Two functions are told apart: by their names, or by the types of their parameters. -/
def Separate (f g : FnKey) : Prop := f.name ≠ g.name ∨ Ty.allAgree f.params g.params = false

/-- The name of `g` is that of `f` with the base names of its first parameters, and the others have
    the base names of the parameters of `g`. -/
def Spells (f g : FnKey) : Prop :=
  ∃ front, f.bases = front ++ g.bases ∧ g.name = String.intercalate "_" (f.name :: front)

theorem label_eq_joined (k : FnKey) : k.label = joined k.name k.bases.reverse := by
  rw [← intercalate_eq_joined, List.reverse_reverse]
  rfl

theorem Spells.label_eq {f g : FnKey} (h : f.Spells g) : f.label = g.label := by
  obtain ⟨front, hbases, hname⟩ := h
  have hjoined := intercalate_eq_joined f.name front.reverse
  rw [List.reverse_reverse] at hjoined
  rw [label_eq_joined, label_eq_joined, hbases, hname, hjoined, List.reverse_append, joined_append]

/-- Functions whose bases hold no underscore have the same label only if one spells the other. -/
theorem spells_of_label_eq {f g : FnKey} (hf : ∀ b ∈ f.bases, '_' ∉ b.toList)
    (hg : ∀ b ∈ g.bases, '_' ∉ b.toList) (h : f.label = g.label) : f.Spells g ∨ g.Spells f := by
  rw [label_eq_joined, label_eq_joined] at h
  have hspells : ∀ {f g : FnKey} {front : List String}, f.bases.reverse = g.bases.reverse ++ front →
      g.name = joined f.name front → f.Spells g := by
    intro f g front hbases hname
    refine ⟨front.reverse, ?_, ?_⟩
    · have hreverse := congrArg List.reverse hbases
      rw [List.reverse_reverse, List.reverse_append, List.reverse_reverse] at hreverse
      exact hreverse
    · rw [intercalate_eq_joined]
      exact hname
  rcases joined_eq (by simpa using hf) (by simpa using hg) h with
    ⟨front, hbases, hname⟩ | ⟨front, hbases, hname⟩
  · exact Or.inl (hspells hbases hname)
  · exact Or.inr (hspells hbases hname)

end FnKey

theorem Ty.Proper.underscore_not_mem {t : Ty} (h : t.Proper) : '_' ∉ t.name.toList := by
  have hall : ∀ name ∈ Ty.names, '_' ∉ name.toList := by decide
  exact hall t.name h

/-- The base names of a proper program's parameters hold no underscore. -/
theorem Program.Proper.bases {p : Program} (hp : p.Proper) :
    ∀ k ∈ p.keys, ∀ b ∈ k.bases, '_' ∉ b.toList := by
  intro k hk b hb
  obtain ⟨d, hd, hkey⟩ := List.mem_filterMap.mp hk
  obtain ⟨ty, hty, heq⟩ := List.mem_map.mp hb
  cases hp d hd with
  | var h => cases h; cases hkey
  | prototype _ _ => cases hkey
  | function _ hparams _ =>
    cases hkey
    obtain ⟨param, hparam, hparamTy⟩ := List.mem_filterMap.mp hty
    obtain ⟨-, hproper⟩ := hparams param hparam
    cases hparamTy
    rw [← heq]
    exact hproper.underscore_not_mem

/-! ## 3. Definitions of an accepted program -/

/-- What a type is told apart by. -/
def Ty.identity (t : Ty) : String × Int := (t.name, t.pointers)

theorem Ty.allAgree_iff : ∀ as bs : List Ty,
    Ty.allAgree as bs = true ↔ as.map Ty.identity = bs.map Ty.identity
  | [], [] => by simp [Ty.allAgree]
  | [], b :: bs => by simp [Ty.allAgree]
  | a :: as, [] => by simp [Ty.allAgree]
  | a :: as, b :: bs => by
      rw [Ty.allAgree, Bool.and_eq_true, Ty.agrees_iff, Ty.allAgree_iff as bs, List.map_cons,
        List.map_cons, List.cons.injEq, Ty.identity, Ty.identity, Prod.mk.injEq]

/-- What a function is told apart by. -/
def FnKey.identity (k : FnKey) : String × List (String × Int) :=
  (k.name, k.params.map Ty.identity)

theorem FnKey.separate_iff (f g : FnKey) : f.Separate g ↔ f.identity ≠ g.identity := by
  unfold FnKey.Separate FnKey.identity
  simp only [Bool.eq_false_iff, ne_eq, Ty.allAgree_iff, Prod.mk.injEq,
    Classical.not_and_iff_not_or_not]

/-- The function of a declaration in a frame. -/
def Entry.key? (name : String) : Entry → Option FnKey
  | .function f => some ⟨name, f.params⟩
  | .variable _ => none

/-- The function of a declaration in a frame, if it is a definition. -/
def Entry.definition? (name : String) : Entry → Option FnKey
  | .function f => if f.forward then none else some ⟨name, f.params⟩
  | .variable _ => none

namespace Frame

/-- The identities of a frame's functions. -/
def identities (frame : Frame) : List (String × List (String × Int)) :=
  frame.filterMap fun b => (b.2.key? b.1).map FnKey.identity

/-- The identities of a frame's definitions. -/
def definitions (frame : Frame) : List (String × List (String × Int)) :=
  frame.filterMap fun b => (b.2.definition? b.1).map FnKey.identity

theorem identities_append (a b : Frame) : identities (a ++ b) = identities a ++ identities b :=
  List.filterMap_append

theorem definitions_append (a b : Frame) :
    definitions (a ++ b) = definitions a ++ definitions b := List.filterMap_append

/-- A definition is a function. -/
theorem definitions_subset (frame : Frame) : ∀ k ∈ definitions frame, k ∈ identities frame := by
  intro k hk
  obtain ⟨⟨name, e⟩, hb, hkey⟩ := List.mem_filterMap.mp hk
  refine List.mem_filterMap.mpr ⟨(name, e), hb, ?_⟩
  rcases e with v | f
  · cases hkey
  · cases hforward : f.forward with
    | true => simp [Entry.definition?, hforward] at hkey
    | false =>
      simp only [Entry.definition?, hforward] at hkey
      exact hkey

/-- A variable is neither a function nor a definition. -/
theorem addVariable_identities {frame frame' : Frame} {name : String} {v : Variable}
    (h : frame.add name (.variable v) = .ok frame') :
    identities frame' = identities frame ∧ definitions frame' = definitions frame := by
  unfold add addVariable at h
  dsimp only at h
  split at h
  · cases h
  · cases h
    exact ⟨(identities_append _ _).trans (List.append_nil _),
      (definitions_append _ _).trans (List.append_nil _)⟩

section AddFunction

variable {frame frame' : Frame} {name : String} {f : Signature}
  (h : Frame.addFunction name f frame = .ok frame')

include h

/-- The functions of a frame stay told apart. -/
theorem addFunction_nodup (hnodup : (identities frame).Nodup) : (identities frame').Nodup := by
  rcases Frame.addFunction_cases h with ⟨hnew, hall⟩ | ⟨front, g, back, hold, hnew, hagree, -⟩
  · rw [hnew, identities_append]
    refine List.nodup_append.mpr ⟨hnodup, List.nodup_cons.mpr ⟨List.not_mem_nil, List.nodup_nil⟩, ?_⟩
    intro k hk k' hk' heq
    rw [heq, List.mem_singleton.mp hk'] at hk
    obtain ⟨⟨n, e⟩, hb, hkey⟩ := List.mem_filterMap.mp hk
    rcases e with v | g
    · cases hkey
    · -- a function of the frame with the same identity would agree
      have hidentity := Prod.mk.inj (Option.some.inj hkey)
      have hname : n = name := hidentity.1
      rw [hname] at hb
      have hdisagree := hall g hb
      rw [(Ty.allAgree_iff _ _).mpr hidentity.2] at hdisagree
      cases hdisagree
  · have hsame : identities frame' = identities frame := by
      have hkey : (⟨name, g.params⟩ : FnKey).identity = (⟨name, f.params⟩ : FnKey).identity :=
        congrArg (Prod.mk name) ((Ty.allAgree_iff _ _).mp hagree)
      rw [hold, hnew, identities_append, identities_append]
      exact congrArg (fun k => identities front ++ k :: identities back) hkey.symm
    rw [hsame]
    exact hnodup

/-- A prototype adds no definition. -/
theorem addFunction_forward (hf : f.forward = true) : definitions frame' = definitions frame := by
  rcases Frame.addFunction_cases h with ⟨hnew, -⟩ | ⟨front, g, back, -, -, -, -, hnot⟩
  · rw [hnew, definitions_append]
    simp [definitions, Entry.definition?, hf]
  · rw [hf] at hnot
    cases hnot

/-- **A definition is told apart from all earlier ones**, and added to them. -/
theorem addFunction_definition (hnodup : (identities frame).Nodup) (hf : f.forward = false) :
    FnKey.identity ⟨name, f.params⟩ ∉ definitions frame ∧
      ∀ k, k ∈ definitions frame' ↔ k = FnKey.identity ⟨name, f.params⟩ ∨ k ∈ definitions frame := by
  have hone : ∀ n, definitions [(n, .function f)] = [FnKey.identity ⟨n, f.params⟩] := by
    intro n
    simp [definitions, Entry.definition?, hf]
  have hnodup' := addFunction_nodup h hnodup
  rcases Frame.addFunction_cases h with ⟨hnew, -⟩ | ⟨front, g, back, hold, hnew, hagree, hg, -⟩
  · rw [hnew, identities_append] at hnodup'
    have hdisjoint := (List.nodup_append.mp hnodup').2.2
    constructor
    · intro hmem
      exact hdisjoint _ (definitions_subset frame _ hmem) _ List.mem_cons_self rfl
    · intro k
      rw [hnew, definitions_append, hone, List.mem_append, List.mem_singleton, or_comm]
  · -- the definition takes the place of a prototype, which is none
    have hold' : definitions frame = definitions front ++ definitions back := by
      have hnone : definitions [(name, .function g)] = [] := by
        simp [definitions, Entry.definition?, hg]
      rw [hold, ← List.singleton_append, definitions_append, definitions_append, hnone,
        List.nil_append]
    have hmiddle : identities frame' = identities front ++ FnKey.identity ⟨name, f.params⟩ ::
        identities back := by
      rw [hnew, identities_append]
      rfl
    rw [hmiddle] at hnodup'
    obtain ⟨-, hback, hdisjoint⟩ := List.nodup_append.mp hnodup'
    constructor
    · intro hmem
      rw [hold'] at hmem
      rcases List.mem_append.mp hmem with hmem | hmem
      · exact hdisjoint _ (definitions_subset front _ hmem) _ List.mem_cons_self rfl
      · exact (List.nodup_cons.mp hback).1 (definitions_subset back _ hmem)
    · intro k
      rw [hnew, hold', ← List.singleton_append, definitions_append, definitions_append, hone]
      simp only [List.mem_append, List.mem_singleton]
      exact or_left_comm

end AddFunction

end Frame

/-- **The definitions of a well-typed program are told apart.** -/
theorem Decl.AllWellTyped.identities_nodup : ∀ {ds : List Decl} {globals globals' : Frame},
    Decl.AllWellTyped globals ds globals' → (Frame.identities globals).Nodup →
      ((ds.filterMap Decl.key?).map FnKey.identity).Nodup ∧
        ∀ k ∈ (ds.filterMap Decl.key?).map FnKey.identity, k ∉ Frame.definitions globals
  | [], _, _, _, _ => ⟨List.nodup_nil, fun _ hk => absurd hk List.not_mem_nil⟩
  | d :: ds, globals, globals', h, hnodup => by
      cases h with
      | cons hd hds =>
        cases hd with
        | var hadd =>
          obtain ⟨hidentities, hdefinitions⟩ := Frame.addVariable_identities hadd
          obtain ⟨hrest, hfresh⟩ := hds.identities_nodup (hidentities ▸ hnodup)
          exact ⟨hrest, fun k hk => hdefinitions ▸ hfresh k hk⟩
        | prototype htys _ hadd =>
          have hdefinitions := Frame.addFunction_forward hadd rfl
          obtain ⟨hrest, hfresh⟩ := hds.identities_nodup (Frame.addFunction_nodup hadd hnodup)
          exact ⟨hrest, fun k hk => hdefinitions ▸ hfresh k hk⟩
        | @function _ formals head params tys body htys _ hadd _ =>
          obtain ⟨hnew, hmem⟩ := Frame.addFunction_definition hadd hnodup rfl
          obtain ⟨hrest, hfresh⟩ := hds.identities_nodup (Frame.addFunction_nodup hadd hnodup)
          have hkey : Decl.key? (.function head params body) = some ⟨head.name, tys⟩ := by
            rw [paramTypes_eq htys]
            rfl
          rw [List.filterMap_cons, hkey]
          refine ⟨List.nodup_cons.mpr ⟨fun hk => ?_, hrest⟩, List.forall_mem_cons.mpr ⟨hnew, ?_⟩⟩
          · exact hfresh _ hk ((hmem _).mpr (Or.inl rfl))
          · exact fun k hk hdefined => hfresh k hk ((hmem k).mpr (Or.inr hdefined))

/-! ## 4. Labels in code -/

/-- The code label that an instruction begins a function with. -/
def Instr.func? : Instr → Option String
  | .func name => some name
  | _ => none

/-- The code labels of the functions in code, in order. -/
def funcLabels (code : List Instr) : List String := code.filterMap Instr.func?

theorem funcLabels_eq_nil {code : List Instr} (h : ∀ i ∈ code, i.begins = false) :
    funcLabels code = [] := by
  refine List.filterMap_eq_nil_iff.mpr fun i hi => ?_
  cases i with
  | func label => cases h _ hi
  | _ => rfl

theorem funcLabels_code {g : Segment} (h : ∀ i ∈ g.body, i.Inner) :
    funcLabels g.code = [g.label] := by
  have hrest : funcLabels (g.inside ++ [.endFunc g.label]) = [] := by
    refine funcLabels_eq_nil fun i hi => ?_
    rcases List.mem_append.mp hi with hi | hi
    · exact Instr.begins_eq (Segment.inside_isBoundary h i hi)
    · rw [List.mem_singleton.mp hi]
      rfl
  exact congrArg (g.label :: ·) hrest

/-- The functions in the code of a proper program are those that it defines. -/
theorem funcLabels_program {p : Program} (hp : p.Proper) (s : Lower.State) :
    funcLabels (Lower.program p s).code = p.keys.map FnKey.label := by
  obtain ⟨gs, hcode, hlabels, htidy⟩ := Lower.decls_segments [] s hp
  have hsegments : ∀ gs : List Segment, (∀ g ∈ gs, ∀ i ∈ g.body, i.Inner) →
      funcLabels (gs.flatMap Segment.code) = gs.map Segment.label := by
    intro gs
    induction gs with
    | nil => exact fun _ => rfl
    | cons g gs ih =>
      intro h
      obtain ⟨hg, hgs⟩ := List.forall_mem_cons.mp h
      have hfirst := funcLabels_code hg
      have hothers := ih hgs
      unfold funcLabels at hfirst hothers ⊢
      rw [List.flatMap_cons, List.filterMap_append, hfirst, hothers]
      rfl
  have hinner : ∀ g ∈ gs, ∀ i ∈ g.body, i.Inner := by
    intro g hg
    obtain ⟨m, n, hbody⟩ := htidy.tidy g hg
    exact hbody.inner
  have hbody := hsegments gs hinner
  have hheader := funcLabels_eq_nil (Lower.header_plain (Lower.decls [] p.decls s).after.alloc.pool
    (codeLabel Lower.entryName []) (Lower.decls [] p.decls s).after.alloc.globals).1
  unfold funcLabels at hbody hheader ⊢
  rw [Lower.program, hcode, List.filterMap_append, hheader, hbody, hlabels]
  rfl

/-- **The code labels of an accepted program.** Its functions are told apart, and the code begins one
    function for each of them, in order. Their code labels are pairwise different exactly if the name
    of none spells another one with some of its parameters. -/
theorem funcLabels_nodup_iff {source : List Char} {p : Program}
    (hp : Program.ofSource? source = some p) (haccepted : p.Accepted) :
    ∃ code after, Lower.result p {} = .ok (code, after) ∧
      p.keys.Pairwise FnKey.Separate ∧ funcLabels code = p.keys.map FnKey.label ∧
      ((funcLabels code).Nodup ↔ p.keys.Pairwise fun f g => ¬ f.Spells g ∧ ¬ g.Spells f) := by
  have hproper := Program.proper_ofSource? hp
  have htyped := hproper.wellTyped haccepted
  obtain ⟨hresult, -⟩ :=
    Lower.result_of_wellTyped (s := {}) hproper htyped ⟨Journal.faultless_nil, rfl⟩
  have hlabels := funcLabels_program hproper {}
  obtain ⟨globals, hdecls⟩ := htyped
  refine ⟨_, _, hresult, ?_, hlabels, ?_⟩
  · have hnodup := (hdecls.identities_nodup List.nodup_nil).1
    exact (List.pairwise_map.mp hnodup).imp fun h => (FnKey.separate_iff _ _).mpr h
  · rw [hlabels, List.Nodup, List.pairwise_map]
    refine List.Pairwise.iff_of_mem fun {f g} hf hg => ?_
    have hbases := hproper.bases
    constructor
    · intro hne
      exact ⟨fun h => hne h.label_eq, fun h => hne h.label_eq.symm⟩
    · intro h heq
      rcases FnKey.spells_of_label_eq (hbases f hf) (hbases g hg) heq with hspells | hspells
      · exact h.1 hspells
      · exact h.2 hspells

/-- Two functions that differ in a pointer only. -/
def pointerOverloads : String :=
  "int f(int a) \x7b return a; \x7d int f(int *a) \x7b return 1; \x7d"

/-- Their code: both begin with the same label. -/
def pointerOverloadsCode : List Instr :=
  [.entry "main" 0,
    .func "f_int", .frame 0 0, .retValue "f_int" (.address ⟨.param, 0⟩), .endFunc "f_int",
    .func "f_int", .frame 0 0, .retValue "f_int" (.literal 1), .endFunc "f_int"]

theorem funcLabels_nodup_iff_pointers :
    ∃ p code after, Program.ofSource? pointerOverloads.toList = some p ∧ p.Accepted ∧
      Lower.result p {} = .ok (code, after) ∧ p.keys.Pairwise FnKey.Separate ∧
      funcLabels code = ["f_int", "f_int"] ∧
      ¬ p.keys.Pairwise fun f g => ¬ f.Spells g ∧ ¬ g.Spells f := by
  obtain ⟨p, hp, haccepted⟩ := Program.exists_accepted pointerOverloads.toList (by decide +kernel)
  have hcode : codeOfSource? pointerOverloads.toList = some pointerOverloadsCode := by
    decide +kernel
  obtain ⟨q, after', hq, hlowered⟩ := exists_of_codeOfSource? hcode
  obtain ⟨code, after, hresult, hseparate, -, hiff⟩ := funcLabels_nodup_iff hp haccepted
  -- the two ways to the code are one
  rw [hp] at hq
  cases hq
  rw [hresult] at hlowered
  cases hlowered
  have hlabels : funcLabels pointerOverloadsCode = ["f_int", "f_int"] := by decide
  refine ⟨p, _, _, hp, haccepted, hresult, hseparate, hlabels, fun h => ?_⟩
  have hnodup := hiff.mpr h
  rw [hlabels] at hnodup
  exact absurd hnodup (by decide)

-- a name that spells another one with its parameter gives the same label, too
example :
    (codeOfSource? "int f(int a) \x7b return a; \x7d int f_int() \x7b return 1; \x7d".toList).map
      funcLabels = some ["f_int", "f_int"] := by decide +kernel

end CMinusMinus
