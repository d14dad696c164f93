/-
  File:      CMinusMinus/Proofs/CodeLayout.lean
  Subject:   The layout of code, and the sizes that it states.

  Code begins with the string literals of the program and its entry; then comes one segment for each
  function that is defined. The entry states how many globals there are, the frame of a segment how
  many locals and temporaries. These sizes are exact: the locals are the declarations in the body,
  nested ones included, each temporary below the stated number is written somewhere in the body, and
  no operand lies beyond the size of its space. All this holds as soon as lowering runs to its end.
  In a program without semantic errors each string literal is besides an operand of one instruction.

  * `Operand.Within` -- an operand within the sizes of the spaces;
  * `Definition.Fits`, `Lower.Met.fits` -- a function and its segment;
  * `constantsOf`, `constants_perm` -- the literals among the operands of code;
  * `code_layout` -- the layout of the code of a program.
-/
import CMinusMinus.Proofs.Arrivals
import Mathlib.Data.List.Perm.Basic

namespace CMinusMinus

/-! ## 1. Sizes -/

/-- The address is one of the first ones of its space. -/
def Address.Within (size : Space → Nat) (a : Address) : Prop :=
  ∃ n : Nat, a.slot = n ∧ n < size a.space

/-- **An operand within the sizes of the spaces**: if it is an address, then one of the first ones
    of its space. -/
def Operand.Within (size : Space → Nat) (v : Operand) : Prop :=
  ∀ a, v = .address a → a.Within size

/-- The instruction belongs around the body of a function. -/
def Instr.isOuter : Instr → Bool
  | .string _ | .entry _ _ | .func _ | .frame _ _ | .endFunc _ => true
  | _ => false

theorem Instr.Inner.isOuter_eq {i : Instr} (h : i.Inner) : i.isOuter = false := by
  cases i with
  | string _ => exact h.elim
  | entry _ _ => exact h.elim
  | func _ => exact h.elim
  | frame _ _ => exact h.elim
  | endFunc _ => exact h.elim
  | _ => rfl

/-- The sizes of the spaces in a function. -/
def Segment.size (globals constants : Nat) (params : List Decl) (g : Segment) : Space → Nat
  | .global => globals
  | .local => g.locals
  | .param => params.length
  | .temporary => g.temporaries
  | .constant => constants

/-- **A function and its segment**, in a program with so many globals and with these literals. -/
structure Definition.Fits (globals : Nat) (literals : List String) (f : Definition) (g : Segment) :
    Prop where
  label : g.label = f.label
  /-- One local for each declaration in the body. -/
  locals : g.locals = f.body.slots
  inner : ∀ i ∈ g.body, i.isOuter = false
  /-- The temporaries are those that are written. -/
  temporaries : ∀ n, (∃ i ∈ g.body, i.dest? = some (.temporary n)) ↔ n < g.temporaries
  within : ∀ i ∈ g.body, ∀ v ∈ i.operands, v.Within (g.size globals literals.length f.params)
  /-- The other operands stand for what the body uses, literals for their texts. -/
  takes : Takes (operandsOf g.body) f.uses
  texts : ∀ s n, Use.text s n ∈ f.uses → literals[n]? = some s

theorem Filled.exists_mem {n : Nat} {code : List Instr} (h : Filled n (writersOf n code)) :
    ∃ i ∈ code, i.dest? = some (.temporary n) := by
  have hmem : ∃ i, i ∈ writersOf n code := by
    generalize writersOf n code = ws at h
    cases h with
    | computed _ => exact ⟨_, List.mem_cons_self⟩
    | called => exact ⟨_, List.mem_cons_self⟩
    | decided => exact ⟨_, List.mem_cons_self⟩
  obtain ⟨i, hi⟩ := hmem
  obtain ⟨hcode, hfills⟩ := List.mem_filter.mp hi
  rw [Instr.fills, Bool.and_eq_true, decide_eq_true_eq] at hfills
  exact ⟨i, hcode, hfills.1⟩

/-- An address is a temporary by its number, or one that stands for a use. -/
theorem Operand.leaf?_address (a : Address) :
    (∃ n, Operand.address a = .temporary n) ∨ (Operand.address a).leaf? = some a := by
  obtain ⟨space, slot⟩ := a
  cases space <;> cases slot <;> first | exact .inr rfl | exact .inl ⟨_, rfl⟩

theorem Takes.mem {vs : List Operand} {us : List Use} (h : Takes vs us) {a : Address}
    (hv : .address a ∈ vs) :
    (∃ n, Operand.address a = .temporary n) ∨ ∃ u ∈ us, u.address? = some a := by
  rcases Operand.leaf?_address a with htemp | hleaf
  · exact .inl htemp
  · have hmem : some a ∈ (vs.filterMap Operand.leaf?).map some :=
      List.mem_map_of_mem (List.mem_filterMap.mpr ⟨_, hv, hleaf⟩)
    rw [h] at hmem
    exact .inr (List.mem_map.mp hmem)

/-- Where names are stored apart, they are stored within the sizes. -/
theorem Env.Apart.home_within {ρ : Env} {globals params locals : Nat}
    (h : ρ.Apart globals params locals) {size : Space → Nat} (hglobal : globals ≤ size .global)
    (hparam : params ≤ size .param) (hlocal : locals ≤ size .local) {x : String} {a : Address}
    (hx : ρ.home x = some a) : a.Within size := by
  obtain ⟨b, hb, hba⟩ := Option.map_eq_some_iff.mp hx
  have hwithin := h.within b (List.mem_of_find?_eq_some hb)
  rw [← hba]
  cases hcell : b.cell with
  | global k =>
    rw [hcell] at hwithin
    exact ⟨k, rfl, Nat.lt_of_lt_of_le hwithin hglobal⟩
  | param k =>
    rw [hcell] at hwithin
    exact ⟨k, rfl, Nat.lt_of_lt_of_le hwithin hparam⟩
  | «local» k =>
    rw [hcell] at hwithin
    exact ⟨k, rfl, Nat.lt_of_lt_of_le hwithin hlocal⟩

/-! ## 2. A function and its segment -/

namespace Lower.Met

variable {f : Definition} {a : Arrival}

theorem fills (h : Met f a) : FillsOwn 0 a.segment.temporaries a.segment.body := by
  have hfills := block_fills a.label h.scope_stored h.frame_stored a.body (h.body ▸ h.body_proper)
    a.start
  rw [h.temporaries] at hfills
  exact hfills

theorem temporaries_iff (h : Met f a) (n : Nat) :
    (∃ i ∈ a.segment.body, i.dest? = some (.temporary n)) ↔ n < a.segment.temporaries := by
  constructor
  · intro ⟨i, hi, hdest⟩
    exact h.fills.below i hi _ (List.mem_append_left _ (hdest ▸ List.mem_cons_self)) n rfl
  · intro hn
    exact (h.fills.filled n (Nat.zero_le n) hn).exists_mem

theorem inner (h : Met f a) : ∀ i ∈ a.segment.body, i.isOuter = false := by
  have hlabel : IsCodeLabel a.label := by
    rw [h.label]
    exact isCodeLabel_codeLabel h.head_proper.name _
  have htidy := block_tidy hlabel a.scope a.frame a.body (h.body ▸ h.body_proper) a.start
  exact fun i hi => (htidy.inner i hi).isOuter_eq

theorem locals_eq (h : Met f a) : a.segment.locals = f.body.slots := by
  have hgrows := a.grows (h.body ▸ h.body_proper)
  show a.lowered.after.alloc.locals = _
  rw [hgrows.locals, h.locals, h.body, Nat.zero_add]

theorem stands (h : Met f a) {P : Use → Prop} {literals : List String}
    (hliterals : StandsAt literals (literalsIn f.before).length f.body.literals)
    (hname : ∀ ρ : Env, ρ.Apart (placedIn f.before).length (placedIn f.params).length f.body.slots →
      ∀ x, P (.name x (ρ.home x)))
    (htext : ∀ s n, literals[n]? = some s → P (.text s n)) : ∀ u ∈ f.uses, P u := by
  refine forall_usesOf htext (fun c hc => hname c.env (h.apart c hc)) ?_
  rw [Block.literals_scenes]
  exact hliterals

/-- **A function that lowering has come to fits its segment**, in the program that it is part of. -/
theorem fits (h : Met f a) {ds : List Decl} (hf : f ∈ definitionsFrom [] ds) :
    f.Fits (placedIn ds).length (literalsIn ds) a.segment := by
  obtain ⟨mid, rest, hbefore, hds⟩ := exists_of_mem_definitionsFrom hf
  rw [List.nil_append] at hbefore
  rw [← hbefore] at hds
  -- the literals of the function stand in the pool behind those of the functions before it
  have hpool : StandsAt (literalsIn ds) (literalsIn f.before).length f.body.literals := by
    rw [hds, literalsIn_append]
    exact List.append_assoc .. ▸ standsAt_inside _ f.body.literals (literalsIn rest)
  have hglobals : (placedIn f.before).length ≤ (placedIn ds).length := by
    rw [hds, placedIn_append, List.length_append]
    exact Nat.le_add_right _ _
  have hparams := length_placedIn (binding_of_params h.params_proper)
  refine ⟨h.label, h.locals_eq, h.inner, h.temporaries_iff, ?_, h.takes, ?_⟩
  · rintro i hi _ hv b rfl
    rcases h.takes.mem (List.mem_flatMap.mpr ⟨i, hi, hv⟩) with ⟨n, hn⟩ | ⟨u, hu, hub⟩
    · have hlt := h.fills.below i hi _ hv n hn
      cases hn
      exact ⟨n, rfl, hlt⟩
    · have hall := h.stands (P := fun u => ∀ b, u.address? = some b →
          b.Within (a.segment.size (placedIn ds).length (literalsIn ds).length f.params)) hpool
        (fun ρ hρ x b hb => hρ.home_within hglobals (Nat.le_of_eq hparams)
          (Nat.le_of_eq h.locals_eq.symm) hb)
        (fun s n hs b hb => by cases hb; exact ⟨n, rfl, (List.getElem?_eq_some_iff.mp hs).1⟩)
      exact hall u hu b hub
  · intro s n hmem
    have hall := h.stands (P := fun u => ∀ s n, u = .text s n → (literalsIn ds)[n]? = some s) hpool
      (fun _ _ _ _ _ heq => by cases heq) (fun s n hs s' n' heq => by cases heq; exact hs)
    exact hall _ hmem s n rfl

end Lower.Met

/-! ## 3. Literals as operands -/

/-- The number of an address in the space of constants. -/
def Address.constant? : Address → Option Nat
  | ⟨.constant, .ofNat n⟩ => some n
  | _ => none

/-- The number of a literal as an operand. -/
def Operand.constant? (v : Operand) : Option Nat := v.leaf?.bind Address.constant?

theorem Address.constant?_eq_some {a : Address} {n : Nat} :
    a.constant? = some n ↔ a = ⟨.constant, n⟩ := by
  constructor
  · intro h
    unfold Address.constant? at h
    split at h
    · cases h
      rfl
    · cases h
  · rintro rfl
    rfl

theorem Operand.constant?_eq_some {v : Operand} {n : Nat} :
    v.constant? = some n ↔ v = .address ⟨.constant, n⟩ := by
  constructor
  · intro h
    obtain ⟨a, hleaf, hconstant⟩ := Option.bind_eq_some_iff.mp h
    rw [← Address.constant?_eq_some.mp hconstant]
    unfold Operand.leaf? at hleaf
    split at hleaf <;> cases hleaf
    rfl
  · rintro rfl
    rfl

/-- The numbers of the literals among the operands of code, in order. -/
def constantsOf (code : List Instr) : List Nat := (operandsOf code).filterMap Operand.constant?

@[simp] theorem constantsOf_append (c₁ c₂ : List Instr) :
    constantsOf (c₁ ++ c₂) = constantsOf c₁ ++ constantsOf c₂ := by
  unfold constantsOf
  rw [operandsOf_append, List.filterMap_append]

theorem Takes.constants {vs : List Operand} {us : List Use} (h : Takes vs us) :
    vs.filterMap Operand.constant? = us.filterMap fun u => u.address?.bind Address.constant? := by
  calc vs.filterMap Operand.constant?
    _ = (vs.filterMap Operand.leaf?).filterMap Address.constant? := List.filterMap_filterMap.symm
    _ = ((vs.filterMap Operand.leaf?).map some).filterMap fun o => o.bind Address.constant? := by
        rw [List.filterMap_map]
        rfl
    _ = us.filterMap fun u => u.address?.bind Address.constant? := by
        rw [h, List.filterMap_map]
        rfl

theorem Env.constant?_home (ρ : Env) (x : String) : (ρ.home x).bind Address.constant? = none := by
  unfold Env.home
  cases ρ.lookup x with
  | none => rfl
  | some b => cases hb : b.cell <;> simp [hb, Cell.address, Address.constant?]

/-- The functions of declarations number their literals one after the other. -/
theorem range_definitionsFrom : ∀ (before ds : List Decl), (definitionsFrom before ds).flatMap
    (fun f => List.range' (literalsIn f.before).length f.body.literals.length) =
      List.range' (literalsIn before).length (literalsIn ds).length
  | _, [] => rfl
  | before, d :: ds => by
      have hrest := range_definitionsFrom (before ++ [d]) ds
      have hfirst : (definitionsFrom before [d]).flatMap
          (fun f => List.range' (literalsIn f.before).length f.body.literals.length) =
            List.range' (literalsIn before).length d.literals.length := by
        cases d with
        | function head params body => exact List.append_nil _
        | _ => rfl
      have hsplit : literalsIn (d :: ds) = d.literals ++ literalsIn ds := rfl
      have hsnoc : literalsIn (before ++ [d]) = literalsIn before ++ d.literals := by
        rw [literalsIn_append]
        exact congrArg (_ ++ ·) (List.append_nil _)
      rw [definitionsFrom_cons, List.flatMap_append, hfirst, hrest, hsplit, hsnoc,
        List.length_append, List.length_append, List.range'_append_1]

/-- **In a well-typed function each literal is an operand once.** -/
theorem Lower.Met.constants {f : Definition} {a : Arrival} (h : Met f a) {ret : Ty} {Γ : Scope}
    {frame : Frame} (hbody : f.body.WellTyped ret Γ frame) :
    (constantsOf a.segment.body).Perm
      (List.range' (literalsIn f.before).length f.body.literals.length) := by
  let n := (literalsIn f.before).length
  let scenes := f.body.scenes f.env 0
  have hpool : StandsAt (literalsIn f.before ++ f.body.literals ++ []) n f.body.literals :=
    standsAt_inside _ _ _
  have hnumber : ∀ u ∈ f.uses, u.address?.bind Address.constant? = u.text?.map Prod.snd :=
    h.stands hpool (fun ρ _ x => ρ.constant?_home x) fun _ _ _ => rfl
  have hperm : f.uses.Perm (spotsOf n scenes) := h.uses_perm hbody
  have htexts : (spotsOf n scenes).filterMap Use.text? = f.body.literals.zipIdx n := by
    rw [texts_spotsOf, Block.literals_scenes]
  have hcode : constantsOf a.segment.body = (f.uses.filterMap Use.text?).map Prod.snd := by
    rw [constantsOf, h.takes.constants, List.filterMap_congr hnumber, List.map_filterMap]
  have hspots := (hperm.filterMap Use.text?).map Prod.snd
  rw [htexts, List.zipIdx_map_snd] at hspots
  rw [hcode]
  exact hspots

/-- An operand that stands in code once stands in one instruction. -/
theorem countP_operand {code : List Instr} {n : Nat} (h : (constantsOf code).count n = 1) :
    code.countP (fun i => .address ⟨.constant, n⟩ ∈ i.operands) = 1 := by
  suffices hboth : ∀ code : List Instr,
      code.countP (fun i => .address ⟨.constant, n⟩ ∈ i.operands) ≤ (constantsOf code).count n ∧
        (0 < (constantsOf code).count n →
          0 < code.countP fun i => .address ⟨.constant, n⟩ ∈ i.operands) by
    have hcode := hboth code
    omega
  intro code
  induction code with
  | nil => exact ⟨Nat.le_refl 0, id⟩
  | cons i code ih =>
    obtain ⟨hle, hpos⟩ := ih
    have hmem : .address ⟨.constant, n⟩ ∈ i.operands ↔
        0 < (i.operands.filterMap Operand.constant?).count n := by
      rw [List.count_pos_iff, List.mem_filterMap]
      simp only [Operand.constant?_eq_some, exists_eq_right]
    have hcount : (constantsOf (i :: code)).count n =
        (i.operands.filterMap Operand.constant?).count n + (constantsOf code).count n := by
      unfold constantsOf
      rw [operandsOf_cons, List.filterMap_append, List.count_append]
    rw [List.countP_cons, hcount]
    by_cases hi : .address ⟨.constant, n⟩ ∈ i.operands
    · have hone := hmem.mp hi
      simp only [hi, decide_true, if_true]
      omega
    · have hnone := mt hmem.mpr hi
      simp only [hi, decide_false, Bool.false_eq_true, if_false]
      omega

/-! ## 4. Programs -/

theorem Segment.constantsOf_code (g : Segment) : constantsOf g.code = constantsOf g.body := by
  show constantsOf (g.body ++ [.endFunc g.label]) = _
  rw [constantsOf_append]
  exact List.append_nil _

theorem constantsOf_header (texts : List String) (globals : Nat) :
    constantsOf (texts.map .string ++ [.entry "main" globals]) = [] := by
  have htexts : operandsOf (texts.map .string) = [] := by
    unfold operandsOf
    rw [List.flatMap_map]
    exact List.flatMap_eq_nil_iff.mpr fun _ _ => rfl
  rw [constantsOf, operandsOf_append, htexts]
  rfl

/-- **In a well-typed program each literal is an operand once.** -/
theorem constants_perm {fs : List Definition} {as : List Lower.Arrival}
    (h : List.Forall₂ Lower.Met fs as)
    (hbody : ∀ f ∈ fs, ∃ ret Γ frame, f.body.WellTyped ret Γ frame) :
    (constantsOf (as.flatMap fun a => a.segment.code)).Perm
      (fs.flatMap fun f => List.range' (literalsIn f.before).length f.body.literals.length) := by
  induction h with
  | nil => exact .nil
  | cons hmet _ ih =>
    obtain ⟨hfirst, hrest⟩ := List.forall_mem_cons.mp hbody
    obtain ⟨ret, Γ, frame, htyped⟩ := hfirst
    rw [List.flatMap_cons, List.flatMap_cons, constantsOf_append, Segment.constantsOf_code]
    exact (hmet.constants htyped).append (ih hrest)

/-- **The layout of code.** The string literals, the entry with the number of globals, and for each
    function that is defined, in order, a segment that fits it. Without semantic errors each literal
    is an operand of exactly one instruction. -/
theorem code_layout {source : List Char} {p : Program} {code : List Instr} {after : Lower.State}
    (hp : Program.ofSource? source = some p) (h : Lower.result p {} = .ok (code, after)) :
    ∃ gs : List Segment,
      code = p.literals.map .string ++ [.entry "main" p.globals.length] ++
        gs.flatMap Segment.code ∧
      List.Forall₂ (Definition.Fits p.globals.length p.literals) p.definitions gs ∧
      (p.Accepted → ∀ n < p.literals.length,
        code.countP (fun i => .address ⟨.constant, n⟩ ∈ i.operands) = 1) := by
  have hproper := Program.proper_ofSource? hp
  obtain ⟨hcode, hmet, -⟩ := Lower.result_met hproper h
  refine ⟨(Lower.arrivals [] p.decls {}).map Lower.Arrival.segment, ?_, ?_,
    fun haccepted n hn => ?_⟩
  · rw [hcode, List.flatMap_map]
  · rw [List.forall₂_map_right_iff]
    have hboth := (List.forall₂_and_left _ _).mpr ⟨fun f hf => hf, hmet⟩
    exact hboth.imp fun f a h => h.2.fits h.1
  · refine countP_operand ?_
    have hperm := constants_perm hmet (hproper.wellTyped haccepted).bodies
    rw [Program.definitions, range_definitionsFrom] at hperm
    rw [hcode, constantsOf_append, constantsOf_header, List.nil_append, hperm.count_eq]
    exact List.count_eq_one_of_mem List.nodup_range' (List.mem_range'_1.mpr ⟨Nat.zero_le n, by
      show n < 0 + p.literals.length
      omega⟩)

/-- Two functions, one of them with a prototype and with declarations in a nested block; one text is
    written twice. -/
def tellLevel : String :=
  "int g; void tell(int a);
void tell(int a) \x7b
  int x; x = a + g;
  if (x < 3) \x7b int y; y = x; printf(\"low\"); \x7d else \x7b printf(\"high\"); \x7d
\x7d
int main() \x7b printf(\"low\"); tell(g); return 0; \x7d"

theorem code_layout_tellLevel :
    ∃ p code after gs, Program.ofSource? tellLevel.toList = some p ∧ p.Accepted ∧
      Lower.result p {} = .ok (code, after) ∧
      code = [.string "\"low\"", .string "\"high\"", .string "\"low\"", .entry "main" 1] ++
        gs.flatMap Segment.code ∧
      List.Forall₂ (Definition.Fits 1 ["\"low\"", "\"high\"", "\"low\""]) p.definitions gs ∧
      ∀ n : Nat, n < 3 → code.countP (fun i => .address ⟨.constant, n⟩ ∈ i.operands) = 1 := by
  have hread : ∃ p, Program.ofSource? tellLevel.toList = some p ∧ p.Accepted ∧
      p.literals = ["\"low\"", "\"high\"", "\"low\""] ∧ p.globals = ["g"] := by
    set_option maxRecDepth 2000 in
    exact Program.exists_of_text rfl (by decide +kernel)
  obtain ⟨p, hp, haccepted, hliterals, hglobals⟩ := hread
  have hproper := Program.proper_ofSource? hp
  have hresult := (Lower.result_of_wellTyped hproper (hproper.wellTyped haccepted)
    (s := {}) ⟨Journal.faultless_nil, rfl⟩).1
  obtain ⟨gs, hcode, hfits, honce⟩ := code_layout hp hresult
  rw [hliterals, hglobals] at hcode hfits
  rw [hliterals] at honce
  exact ⟨p, _, _, gs, hp, haccepted, hresult, hcode, hfits, honce haccepted⟩

end CMinusMinus
