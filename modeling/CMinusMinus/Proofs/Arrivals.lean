/-
  File:      CMinusMinus/Proofs/Arrivals.lean
  Subject:   How lowering comes to the functions of a program.

  Lowering goes through the declarations of a program one after the other. When it comes to the
  body of a function, the globals declared so far stand in its scope and the parameters in its
  frame, each at the address that its place in the text gives it; the counters of the function's own
  spaces are at zero, and the pool holds the literals of the functions before. This is so whenever
  lowering runs to its end, also in a program that the checker would refuse.

  * `Definition`, `Program.definitions` -- the functions of a program, each with what is declared
    before it;
  * `Lower.Reached` -- where lowering stands between two declarations;
  * `Lower.Met`, `Lower.decls_met` -- what it finds at each function.
-/
import CMinusMinus.Proofs.Segments
import CMinusMinus.Proofs.UsesOfCode
import Mathlib.Data.List.Forall2

namespace CMinusMinus

/-! ## 1. Definitions -/

/-- A function of a program, and the declarations before it. -/
structure Definition extends Fn where
  before : List Decl

/-- What names mean in a function, apart from the declarations of its body. -/
def Definition.env (f : Definition) : Env := Env.ofFunction f.before f.params

/-- The functions that declarations define, in order, with what comes before each of them. -/
def definitionsFrom (before : List Decl) : List Decl → List Definition
  | [] => []
  | d :: ds =>
      (d.fn?.map fun f => { f with before := before }).toList ++ definitionsFrom (before ++ [d]) ds

theorem definitionsFrom_cons (before : List Decl) (d : Decl) (ds : List Decl) :
    definitionsFrom before (d :: ds) =
      definitionsFrom before [d] ++ definitionsFrom (before ++ [d]) ds := by
  simp [definitionsFrom]

/-- **The functions of a program**, in order. -/
def Program.definitions (p : Program) : List Definition := definitionsFrom [] p.decls

theorem definitionsFrom_fns : ∀ before ds : List Decl,
    (definitionsFrom before ds).map Definition.toFn = ds.filterMap Decl.fn?
  | _, [] => rfl
  | before, d :: ds => by
      rw [definitionsFrom, List.map_append, definitionsFrom_fns (before ++ [d]) ds,
        List.filterMap_cons]
      cases d.fn? <;> simp

/-- **The definitions of a program are its sites**, each with what comes before it in place of the
    checker's scope. -/
theorem Program.definitions_sites (p : Program) :
    p.definitions.map Definition.toFn = p.sites.map FnSite.toFn :=
  (definitionsFrom_fns [] p.decls).trans p.sites_fns.symm

/-- A function stands in a program behind the declarations before it. -/
theorem exists_of_mem_definitionsFrom {f : Definition} : ∀ {ds before : List Decl},
    f ∈ definitionsFrom before ds → ∃ mid rest, f.before = before ++ mid ∧
      ds = mid ++ .function f.head f.params f.body :: rest
  | [], _, h => absurd h List.not_mem_nil
  | d :: ds, before, h => by
      rw [definitionsFrom_cons] at h
      rcases List.mem_append.mp h with h | h
      · cases d with
        | function head params body =>
          cases List.mem_singleton.mp h
          exact ⟨[], ds, (List.append_nil before).symm, rfl⟩
        | _ => exact absurd h List.not_mem_nil
      · obtain ⟨mid, rest, hbefore, hds⟩ := exists_of_mem_definitionsFrom h
        refine ⟨d :: mid, rest, ?_, congrArg (d :: ·) hds⟩
        rw [hbefore, List.append_assoc]
        rfl

/-- The uses in the body of a function, in the order of its code. -/
def Definition.uses (f : Definition) : List Use :=
  usesOf (literalsIn f.before).length (f.body.scenes f.env 0)

@[simp] theorem placedIn_append (ds₁ ds₂ : List Decl) :
    placedIn (ds₁ ++ ds₂) = placedIn ds₁ ++ placedIn ds₂ := List.filterMap_append

theorem Env.declare_append (cell : Nat → Cell) : ∀ (ds₁ ds₂ : List Decl) (k : Nat) (ρ : Env),
    Env.declare cell k ρ (ds₁ ++ ds₂) =
      Env.declare cell (k + (placedIn ds₁).length) (Env.declare cell k ρ ds₁) ds₂
  | [], _, _, _ => rfl
  | d :: ds₁, ds₂, k, ρ => by
      rcases Env.declare_cons cell k ρ d with ⟨hnone, heq⟩ | ⟨x, array, hsome, heq⟩
      · rw [List.cons_append, heq, heq, Env.declare_append cell ds₁ ds₂, placedIn, placedIn,
          List.filterMap_cons_none hnone]
      · rw [List.cons_append, heq, heq, Env.declare_append cell ds₁ ds₂, placedIn, placedIn,
          List.filterMap_cons_some hsome, List.length_cons, Nat.add_right_comm, Nat.add_assoc]

/-! ## 2. Addresses in frames -/

/-- The address that a frame gives to a name. -/
def Frame.home? (frame : Frame) (x : String) : Option Address := (frame.var? x).bind Variable.home

/-- The names have the addresses of a space from a number on, one after the other. -/
def Frame.Numbers (frame : Frame) (space : Space) (k : Nat) (names : List String) : Prop :=
  names.map frame.home? = (List.range' k names.length).map fun i => some ⟨space, (i : Nat)⟩

theorem Frame.home?_snoc {frame : Frame} {x : String} (h : frame.binds x = false) (v : Variable)
    (y : String) : Frame.home? (frame ++ [(x, .variable v)]) y =
      if y = x then v.home else frame.home? y := by
  unfold Frame.home?
  rw [Frame.var?_snoc v h]
  split <;> rfl

theorem Frame.binds_of_home? {frame : Frame} {x : String} {a : Address}
    (h : frame.home? x = some a) : frame.binds x = true := by
  cases hbinds : frame.binds x with
  | true => rfl
  | false =>
    rw [Frame.home?, Frame.var?_eq_none hbinds] at h
    cases h

/-- A name that has an address keeps it when another name is added. -/
theorem Frame.home?_kept {frame : Frame} {x y : String} {a : Address} (hx : frame.binds x = false)
    (v : Variable) (hy : frame.home? y = some a) :
    Frame.home? (frame ++ [(x, .variable v)]) y = some a := by
  have hne : y ≠ x := by
    intro heq
    rw [heq] at hy
    rw [Frame.binds_of_home? hy] at hx
    cases hx
  rw [Frame.home?_snoc hx, if_neg hne]
  exact hy

theorem Frame.Numbers.exists_home {frame : Frame} {space : Space} {k : Nat} {names : List String}
    (h : frame.Numbers space k names) : ∀ y ∈ names, ∃ a, frame.home? y = some a := by
  intro y hy
  have hmem : frame.home? y ∈ names.map frame.home? := List.mem_map_of_mem hy
  rw [h] at hmem
  obtain ⟨i, -, hi⟩ := List.mem_map.mp hmem
  exact ⟨_, hi.symm⟩

/-- One more name, at the next address. -/
theorem Frame.Numbers.snoc {frame : Frame} {space : Space} {k : Nat} {names : List String}
    (h : frame.Numbers space k names) {x : String} (hx : frame.binds x = false) (ty : Ty) :
    Frame.Numbers (frame ++ [(x, .variable ⟨ty, some ⟨space, (k + names.length : Nat)⟩⟩)]) space k
      (names ++ [x]) := by
  have hold : names.map (Frame.home?
      (frame ++ [(x, .variable ⟨ty, some ⟨space, (k + names.length : Nat)⟩⟩)])) =
      names.map frame.home? := by
    refine List.map_congr_left fun y hy => ?_
    obtain ⟨a, ha⟩ := h.exists_home y hy
    rw [ha, Frame.home?_kept hx _ ha]
  unfold Frame.Numbers
  rw [List.map_append, hold, h, List.length_append, List.length_singleton, List.range'_concat,
    List.map_append, List.map_singleton, List.map_singleton, Frame.home?_snoc hx, if_pos rfl,
    Nat.one_mul]

namespace Lower

variable {space : Space}

theorem placeDecls_kept : ∀ {ds : List Decl} {frame : Frame} {s : State} {y : String} {a : Address},
    (∀ d ∈ ds, d.IsBinding) → (placeDecls space frame ds s).2.journal.Faultless →
      frame.home? y = some a → (placeDecls space frame ds s).1.home? y = some a
  | [], _, _, _, _, _, _, hy => hy
  | d :: ds, frame, s, y, a, hds, hj, hy => by
      obtain ⟨hd, hrest⟩ := List.forall_mem_cons.mp hds
      obtain ⟨x, ty, -, -, hplace, -⟩ := hd.places
      rw [placeDecls, hplace] at hj ⊢
      obtain ⟨hbinds, hadded⟩ := place_added (placeDecls_before hrest hj)
      refine placeDecls_kept hrest hj ?_
      rw [hadded]
      exact Frame.home?_kept hbinds _ hy

/-- **Declarations that are placed without a fault get the next addresses of their space.** -/
theorem placeDecls_numbers : ∀ {ds : List Decl} {frame : Frame} {s : State},
    (∀ d ∈ ds, d.IsBinding) → (placeDecls space frame ds s).2.journal.Faultless →
      (placeDecls space frame ds s).1.Numbers space (s.alloc.count space) (placedIn ds)
  | [], _, _, _, _ => rfl
  | d :: ds, frame, s, hds, hj => by
      obtain ⟨hd, hrest⟩ := List.forall_mem_cons.mp hds
      obtain ⟨x, ty, -, hx, hplace, -⟩ := hd.places
      rw [placeDecls, hplace] at hj ⊢
      obtain ⟨hbinds, hadded⟩ := place_added (placeDecls_before hrest hj)
      have hfirst : (place space frame x ty s).1.home? x = some (s.alloc.nextAddress space) := by
        rw [hadded, Frame.home?_snoc hbinds, if_pos rfl]
      have hnext : (place space frame x ty s).2.alloc.count space = s.alloc.count space + 1 := by
        rw [place_alloc]
        cases space <;> rfl
      have ih := placeDecls_numbers hrest hj
      rw [hnext] at ih
      unfold Frame.Numbers at ih ⊢
      rw [placedIn, List.filterMap_cons_some hx, List.map_cons, placeDecls_kept hrest hj hfirst,
        List.length_cons, List.range'_succ, List.map_cons]
      exact congrArg (_ :: ·) ih

end Lower

/-! ## 3. Between declarations -/

theorem Scope.names_globals {globals : Frame} {ρ : Env} :
    Scope.Names { globals := globals } ρ ↔ (Scope.push {} globals).Names ρ := by
  have heq : ∀ x, Scope.soundVar? { globals := globals } x =
      (Scope.push {} globals).soundVar? x := by
    intro x
    rw [Scope.soundVar?_push]
    change [globals].findSome? _ = _
    rw [List.findSome?_cons]
    cases (globals.var? x).filter fun v => !v.ty.isError <;> rfl
  unfold Scope.Names
  simp only [heq]

/-- An empty frame hides nothing. -/
theorem Scope.Names.push_nil {Γ : Scope} {ρ : Env} (h : Γ.Names ρ) : (Γ.push []).Names ρ := h

namespace Lower

/-- The frame of globals behind declarations. -/
def globalsAfter (globals : Frame) : List Decl → State → Frame
  | [], _ => globals
  | d :: ds, s => globalsAfter (decl globals d s).1 ds (decl globals d s).2.after

/-- **Where lowering stands after declarations**: their variables are found at the addresses of the
    global space, in order, and the pool holds their literals. -/
structure Reached (globals : Frame) (before : List Decl) (s : State) : Prop where
  names : Scope.Names { globals := globals } (Env.declare .global 0 [] before)
  numbers : globals.Numbers .global 0 (placedIn before)
  stored : Frame.Stored globals
  count : s.alloc.globals = (placedIn before).length
  pool : s.alloc.pool = literalsIn before

/-- What lowering finds when it comes to a function. -/
structure Met (f : Definition) (a : Arrival) : Prop where
  same : a.toFn = f.toFn
  head_proper : f.head.Proper
  params_proper : ∀ d ∈ f.params, d.IsParameter
  body_proper : f.body.Proper
  scope_stored : a.scope.Stored
  frame_stored : Frame.Stored a.frame
  locals : a.start.alloc.locals = 0
  temporaries : a.start.alloc.temporaries = 0
  pool : a.start.alloc.pool = literalsIn f.before
  names : (a.scope.push a.frame).Names f.env
  globals : a.scope.globals.Numbers .global 0 (placedIn f.before)
  params : a.frame.Numbers .param 0 (placedIn f.params)
  faultless : a.lowered.after.journal.Faultless

theorem Met.label {f : Definition} {a : Arrival} (h : Met f a) : a.label = f.label :=
  congrArg Fn.label h.same

theorem Met.body {f : Definition} {a : Arrival} (h : Met f a) : a.body = f.body :=
  congrArg Fn.body h.same

theorem reached_start : Reached [] [] {} :=
  ⟨fun _ _ hv => (by cases hv), rfl, Frame.stored_nil, rfl, rfl⟩

namespace Reached

variable {globals globals' : Frame} {before : List Decl} {s s' : State}

/-- One more variable. -/
theorem place (h : Reached globals before s) {d : Decl} (hd : d.IsVariable)
    (hj : (decl globals d s).2.after.journal.Faultless) :
    Reached (decl globals d s).1 (before ++ [d]) (decl globals d s).2.after := by
  obtain ⟨hname, hty⟩ := hd
  rename_i pos x ty
  obtain ⟨hbinds, hadded⟩ := place_added hj
  have hhome : s.alloc.nextAddress .global = (Cell.global (placedIn before).length).address :=
    congrArg (fun k : Nat => (⟨.global, k⟩ : Address)) h.count
  have hplaced : placedIn (before ++ [.variable pos x ty]) = placedIn before ++ [x] :=
    placedIn_append before [.variable pos x ty]
  have halloc : (decl globals (.variable pos x ty) s).2.after.alloc = s.alloc.bump .global :=
    place_alloc .global globals x ty s
  refine ⟨?_, ?_, place_stored Space.noConfusion h.stored x ty s, ?_, ?_⟩
  · rw [Env.declare_append, Nat.zero_add, Scope.names_globals]
    show (Scope.push {} (Lower.place .global globals x ty s).1).Names _
    rw [hadded, hhome]
    exact (Scope.names_globals.mp h.names).cons hty hbinds _ _
  · show (Lower.place .global globals x ty s).1.Numbers _ _ _
    have hnumbers := h.numbers.snoc hbinds ty
    rw [Nat.zero_add] at hnumbers
    rw [hadded, hplaced, hhome]
    exact hnumbers
  · rw [halloc, hplaced, List.length_append, ← h.count]
    rfl
  · rw [halloc, literalsIn_append]
    exact h.pool.trans (List.append_nil _).symm

/-- One more function, which leaves the variables where they are. -/
theorem declare (h : Reached globals before s) (name : String) (f : Signature) (t : State)
    (hcount : s'.alloc.globals = s.alloc.globals) (hpool : s'.alloc.pool = s.alloc.pool) :
    Reached (Lower.declare globals name (.function f) t).1 before s' := by
  have hvar := declare_function_var? globals name f t
  refine ⟨?_, ?_, declare_function_stored h.stored name f t, hcount.trans h.count,
    hpool.trans h.pool⟩
  · intro x v hv
    refine h.names x v ?_
    rw [← hv]
    change [globals].findSome? _ = [_].findSome? _
    simp only [List.findSome?_cons, hvar]
  · have hhome : (Lower.declare globals name (.function f) t).1.home? = globals.home? := by
      funext x
      unfold Frame.home?
      rw [hvar]
    unfold Frame.Numbers
    rw [hhome]
    exact h.numbers

/-- A declaration that places nothing. -/
theorem snoc (h : Reached globals before s) {d : Decl} (hd : d.placed? = none)
    (hcount : s'.alloc.globals = s.alloc.globals)
    (hpool : s'.alloc.pool = s.alloc.pool ++ d.literals) : Reached globals (before ++ [d]) s' := by
  have henv : Env.declare .global 0 [] (before ++ [d]) = Env.declare .global 0 [] before := by
    rw [Env.declare_append]
    rcases Env.declare_cons .global (0 + (placedIn before).length)
      (Env.declare .global 0 [] before) d with ⟨-, heq⟩ | ⟨x, array, hsome, -⟩
    · exact heq []
    · rw [hd] at hsome
      cases hsome
  have hplaced : placedIn (before ++ [d]) = placedIn before := by
    unfold placedIn
    rw [List.filterMap_append, List.filterMap_cons_none hd, List.filterMap_nil, List.append_nil]
  refine ⟨henv ▸ h.names, hplaced ▸ h.numbers, h.stored, ?_, ?_⟩
  · rw [hcount, hplaced, h.count]
  · rw [hpool, h.pool, literalsIn_append]
    exact congrArg (_ ++ ·) (List.append_nil _).symm

end Reached

/-! ## 4. At the functions -/

/-- What the body of a function does to the counters. -/
theorem Arrival.grows (a : Arrival) (hb : a.body.Proper) :
    Grows a.body.slots a.body.literals a.start a.lowered.after := by
  have hplays := block_plays a.label a.scope [] a.frame a.body hb a.start rfl
  rw [← a.body.literals_scenes [] a.start.alloc.locals]
  exact hplays.grows

section Arrive

variable {globals : Frame} {before : List Decl} {s : State} {f : Fn}

theorem arrive_before (hparams : ∀ d ∈ f.params, d.IsParameter)
    (hj : (arrive globals f s).start.journal.Faultless) : s.journal.Faultless := by
  have hnoted := placeDecls_before (binding_of_params hparams) hj
  exact declare_before (s := { s with alloc := s.alloc.resetFunction })
    (Journal.faultless_append.mp hnoted).1

/-- **What lowering finds when it comes to a function.** -/
theorem Reached.arrive (h : Reached globals before s) (hhead : f.head.Proper)
    (hparams : ∀ d ∈ f.params, d.IsParameter) (hbody : f.body.Proper)
    (hj : (arrive globals f s).lowered.after.journal.Faultless) :
    Met { f with before := before } (arrive globals f s) := by
  have hformals := binding_of_params hparams
  have hj' := ((Lower.arrive globals f s).grows hbody).before hj
  have hdeclared : Reached (Lower.arrive globals f s).scope.globals before s :=
    h.declare _ _ _ rfl rfl
  -- the parameters are counted from 0
  have hzero : ∀ t : State, t.alloc = s.alloc.resetFunction → t.alloc.count .param = 0 := by
    intro t ht
    rw [ht]
    rfl
  have hcount := hzero ((Lower.declare globals f.head.name
    (.function ⟨f.head.ret, f.key.params, false⟩) { s with alloc := s.alloc.resetFunction }).2.note
      (.trace (.loweringFunction f.label))) (declare_alloc ..)
  exact {
    same := rfl
    head_proper := hhead
    params_proper := hparams
    body_proper := hbody
    scope_stored := Scope.stored_globals hdeclared.stored
    frame_stored := placeDecls_stored Space.noConfusion f.params _ Frame.stored_nil
    locals := arrive_start (π := Allocator.locals) (fun _ => rfl) globals f s
    temporaries := arrive_start (π := Allocator.temporaries) (fun _ => rfl) globals f s
    pool := (arrive_start (π := Allocator.pool) (fun _ => rfl) globals f s).trans h.pool
    names := by
      have hcell : ∀ k : Nat, (Cell.param k).address = ⟨.param, k⟩ := fun _ => rfl
      have hplaced := Scope.Names.placeDecls hcell hformals hj' hdeclared.names.push_nil
      rw [hcount] at hplaced
      exact hplaced
    globals := hdeclared.numbers
    params := by
      have hplaced := placeDecls_numbers hformals hj'
      rw [hcount] at hplaced
      exact hplaced
    faultless := hj }

end Arrive

/-- **The body of a function stands for its uses.** -/
theorem Met.takes {f : Definition} {a : Arrival} (h : Met f a) :
    Takes (operandsOf a.segment.body) f.uses := by
  have hplays := block_plays a.label a.scope f.env a.frame a.body (h.body ▸ h.body_proper) a.start
    h.locals
  unfold Definition.uses
  rw [← h.pool, ← h.body]
  exact hplays.takes h.faultless h.names

/-- Wherever names are used in the function, they are stored apart. -/
theorem Met.apart {f : Definition} {a : Arrival} (h : Met f a) : ∀ c ∈ f.body.scenes f.env 0,
    c.env.Apart (placedIn f.before).length (placedIn f.params).length f.body.slots := by
  intro c hc
  have hapart := Block.Proper.apart f.body h.body_proper
    (Env.Apart.ofFunction f.before f.params) c hc
  rwa [Nat.zero_add] at hapart

/-- In a well-typed function each use is taken once. -/
theorem Met.uses_perm {f : Definition} {a : Arrival} (h : Met f a) {ret : Ty} {Γ : Scope}
    {frame : Frame} (hbody : f.body.WellTyped ret Γ frame) :
    f.uses.Perm (spotsOf (literalsIn f.before).length (f.body.scenes f.env 0)) :=
  usesOf_perm _ (Block.Proper.usesOnce f.env f.body 0 h.body_proper hbody)

theorem decl_before {globals : Frame} {d : Decl} {s : State} (hd : d.Proper)
    (hj : (decl globals d s).2.after.journal.Faultless) : s.journal.Faultless := by
  cases hd with
  | var h =>
    obtain ⟨-, -⟩ := h
    exact place_before hj
  | prototype _ hparams =>
    obtain ⟨tys, htys, -⟩ := paramTypes_ok hparams
    rw [decl, htys] at hj
    exact declare_before hj
  | @function head params body _ hparams hbody =>
    obtain ⟨tys, htys, -⟩ := paramTypes_ok hparams
    have hdecl := decl_arrive globals (f := ⟨head, params, body⟩) s htys
    rw [hdecl] at hj
    exact arrive_before hparams ((Arrival.grows _ hbody).before hj)

theorem decls_before : ∀ {ds : List Decl} {globals : Frame} {s : State}, (∀ d ∈ ds, d.Proper) →
    (decls globals ds s).after.journal.Faultless → s.journal.Faultless
  | [], _, _, _, hj => hj
  | _ :: _, _, _, hds, hj => by
      obtain ⟨hd, hrest⟩ := List.forall_mem_cons.mp hds
      exact decl_before hd (decls_before hrest hj)

/-- **One declaration**: lowering stands behind it, and has come to the function that it defines. -/
theorem Reached.decl {globals : Frame} {before : List Decl} {s : State}
    (h : Reached globals before s) {d : Decl} (hd : d.Proper)
    (hj : (decl globals d s).2.after.journal.Faultless) :
    Reached (decl globals d s).1 (before ++ [d]) (decl globals d s).2.after ∧
      List.Forall₂ Met (definitionsFrom before [d]) (arrival? globals d s).toList := by
  cases hd with
  | var hvar =>
    refine ⟨h.place hvar hj, ?_⟩
    obtain ⟨-, -⟩ := hvar
    exact .nil
  | @prototype head params _ hparams =>
    obtain ⟨tys, htys, -⟩ := paramTypes_ok hparams
    have halloc := declare_alloc globals head.name (.function ⟨head.ret, tys, true⟩) s
    refine ⟨?_, .nil⟩
    rw [Lower.decl, htys]
    have hdeclared : Reached (Lower.declare globals head.name (.function ⟨head.ret, tys, true⟩) s).1
        before s := h.declare _ _ s rfl rfl
    exact hdeclared.snoc rfl (congrArg Allocator.globals halloc)
      ((congrArg Allocator.pool halloc).trans (List.append_nil _).symm)
  | @function head params body hhead hparams hbody =>
    obtain ⟨tys, htys, -⟩ := paramTypes_ok hparams
    let f : Fn := ⟨head, params, body⟩
    have hdecl := decl_arrive globals (f := f) s htys
    have harrival := arrival?_function globals (f := f) s htys
    rw [hdecl] at hj ⊢
    have hgrows := (Lower.arrive globals f s).grows hbody
    have hdeclared : Reached (Lower.arrive globals f s).scope.globals before s :=
      h.declare _ _ _ rfl rfl
    refine ⟨hdeclared.snoc rfl ?_ ?_, ?_⟩
    · exact hgrows.globals.trans (arrive_start (π := Allocator.globals) (fun _ => rfl) globals f s)
    · rw [hgrows.pool hj]
      exact congrArg (· ++ body.literals)
        (arrive_start (π := Allocator.pool) (fun _ => rfl) globals f s)
    · rw [harrival]
      exact .cons (h.arrive hhead hparams hbody hj) .nil

/-- **What lowering finds at the functions of declarations**, and where it stands behind them. -/
theorem decls_met : ∀ {ds : List Decl} {globals : Frame} {before : List Decl} {s : State},
    (∀ d ∈ ds, d.Proper) → (decls globals ds s).after.journal.Faultless →
    Reached globals before s →
      List.Forall₂ Met (definitionsFrom before ds) (arrivals globals ds s) ∧
        Reached (globalsAfter globals ds s) (before ++ ds) (decls globals ds s).after
  | [], _, before, _, _, _, h => by
      rw [List.append_nil]
      exact ⟨.nil, h⟩
  | d :: ds, globals, before, s, hds, hj, h => by
      obtain ⟨hd, hrest⟩ := List.forall_mem_cons.mp hds
      obtain ⟨hnext, hfirst⟩ := h.decl hd (decls_before hrest hj)
      obtain ⟨hothers, hreached⟩ := decls_met hrest hj hnext
      rw [List.append_assoc] at hreached
      rw [definitionsFrom_cons, arrivals]
      exact ⟨List.rel_append hfirst hothers, hreached⟩

end Lower

/-! ## 5. Programs -/

/-- The globals of a program, in order. -/
def Program.globals (p : Program) : List String := placedIn p.decls

theorem Decl.AllWellTyped.body {head : FnHead} {params : List Decl} {body : Block} :
    ∀ {globals globals' : Frame} {ds : List Decl}, Decl.AllWellTyped globals ds globals' →
      .function head params body ∈ ds → ∃ Γ frame, body.WellTyped head.ret Γ frame
  | _, _, _, .nil, h => absurd h List.not_mem_nil
  | _, _, _, .cons hd hds, h => by
      rcases List.mem_cons.mp h with heq | h
      · subst heq
        cases hd with
        | function _ _ _ hbody => exact ⟨_, _, hbody⟩
      · exact hds.body h

/-- The bodies of a well-typed program are well typed. -/
theorem Program.WellTyped.bodies {p : Program} (h : p.WellTyped) :
    ∀ f ∈ p.definitions, ∃ ret Γ frame, f.body.WellTyped ret Γ frame := by
  intro f hf
  obtain ⟨globals, hdecls⟩ := h
  obtain ⟨mid, rest, -, hds⟩ := exists_of_mem_definitionsFrom hf
  exact ⟨_, hdecls.body (hds ▸ List.mem_append_right _ List.mem_cons_self)⟩

/-- A program that has been lowered: its code, what lowering found at its functions, and its
    globals. -/
theorem Lower.result_met {p : Program} {code : List Instr} {after : State} (hp : p.Proper)
    (h : result p {} = .ok (code, after)) :
    code = p.literals.map .string ++ [.entry "main" p.globals.length] ++
        (arrivals [] p.decls {}).flatMap (fun a => a.segment.code) ∧
      List.Forall₂ Met p.definitions (arrivals [] p.decls {}) ∧
      (globalsAfter [] p.decls {}).Numbers .global 0 p.globals := by
  unfold result at h
  dsimp only at h
  split at h
  · cases h
  · rename_i hfault
    cases h
    have hj : (decls [] p.decls {}).after.journal.Faultless := Journal.faultless_iff.mpr hfault
    obtain ⟨hmet, hreached⟩ := decls_met hp hj reached_start
    refine ⟨?_, hmet, hreached.numbers⟩
    have hentry : codeLabel entryName [] = "main" := by decide
    rw [program, hentry, hreached.count, hreached.pool, decls_code]
    rfl

end CMinusMinus
