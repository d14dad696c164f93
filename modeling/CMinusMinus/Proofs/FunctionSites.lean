/-
  File:      CMinusMinus/Proofs/FunctionSites.lean
  Subject:   The functions of a program, each with the scope of its body and its segment of code.

  The checker comes to the body of a function with a scope of its own making, lowering with another
  one. For an accepted program both are the same apart from addresses, so what is said about a body
  in the checker's scope can be compared with the code of its segment.

  * `FnSite`, `Program.sites` -- the functions of a program in order, with the checker's scopes;
  * `Setting` -- an arrival of lowering at the body of such a function;
  * `Program.Layout`, `Program.exists_layout` -- the code of an accepted program: a header with its
    string literals, then the segments of its functions in order.
-/
import CMinusMinus.Proofs.Agreement
import CMinusMinus.Proofs.FactsOfCode
import CMinusMinus.Proofs.Literals
import CMinusMinus.Proofs.Segments

namespace CMinusMinus

/-! ## 1. Functions and their scopes -/

/-- A function of a program, and the scope in which the checker comes to its body. -/
structure FnSite extends Fn where
  scope : Scope

/-- The function that a declaration at the top defines. -/
def Decl.site? (Γ : Scope) (d : Decl) : Option FnSite :=
  d.fn?.map fun f =>
    let formals := (Check.decls (Γ.push []) f.params).1.top
    { f with scope := (Check.functionDecl Γ f.head f.params false).1.push formals }

/-- The functions that declarations one after the other define. -/
def Decl.sites (Γ : Scope) : List Decl → List FnSite
  | [] => []
  | d :: ds => (d.site? Γ).toList ++ Decl.sites (Check.decl Γ d).1 ds

/-- **The functions of a program, in order.** -/
def Program.sites (p : Program) : List FnSite := Decl.sites {} p.decls

theorem Decl.sites_fns : ∀ (Γ : Scope) (ds : List Decl),
    (Decl.sites Γ ds).map FnSite.toFn = ds.filterMap Decl.fn?
  | _, [] => rfl
  | Γ, d :: ds => by
      rw [Decl.sites, List.map_append, Decl.sites_fns (Check.decl Γ d).1 ds, List.filterMap_cons]
      cases hfn : d.fn? <;> simp [Decl.site?, hfn]

/-- The sites are the functions that the program defines. -/
theorem Program.sites_fns (p : Program) : p.sites.map FnSite.toFn = p.fns :=
  Decl.sites_fns {} p.decls

namespace Check

theorem declare_ok {Γ : Scope} {name : String} {entry : Entry} {frame : Frame}
    (h : Γ.top.add name entry = .ok frame) (pos : Position) :
    (declare Γ pos name entry).1 = Γ.withTop frame := by
  unfold declare
  rw [h]

/-- The scope after declarations of a block or a parameter list. -/
theorem decls_scope {frame frame' : Frame} {ds : List Decl} (h : Declares frame ds frame') :
    ∀ Γ : Scope, (decls (Γ.push frame) ds).1 = Γ.push frame' := by
  induction h with
  | nil => exact fun _ => rfl
  | @var frame middle frame' pos name ty ds hadd _ ih =>
    intro Γ
    have hfirst : (decl (Γ.push frame) (.variable pos name ty)).1 = Γ.push middle :=
      declare_ok (Γ := Γ.push frame) hadd pos
    rw [decls, hfirst]
    exact ih Γ
  | @param frame middle frame' pos name ty ds _ hadd _ ih =>
    intro Γ
    have hfirst : (decl (Γ.push frame) (.parameter pos name ty)).1 = Γ.push middle :=
      declare_ok (Γ := Γ.push frame) hadd pos
    rw [decls, hfirst]
    exact ih Γ

theorem functionDecl_scope {globals globals' : Frame} {head : FnHead} {params : List Decl}
    {tys : List Ty} {forward : Bool} (htys : paramTypes params = .ok tys)
    (hadd : globals.add head.name (.function ⟨head.ret, tys, forward⟩) = .ok globals') :
    (functionDecl { globals := globals } head params forward).1 = { globals := globals' } := by
  unfold functionDecl
  rw [htys]
  exact declare_ok (Γ := { globals := globals }) hadd head.pos

/-- The checker comes to the body of a well-typed function with the globals and the parameters. -/
theorem site?_function {globals globals' formals : Frame} {f : Fn} {tys : List Ty}
    (htys : paramTypes f.params = .ok tys) (hparams : Declares [] f.params formals)
    (hadd : globals.add f.head.name (.function ⟨f.head.ret, tys, false⟩) = .ok globals') :
    Decl.site? { globals := globals } (.function f.head f.params f.body) =
      some { f with scope := Scope.push { globals := globals' } formals } := by
  rw [Decl.site?, Decl.fn?, Option.map_some, functionDecl_scope htys hadd, decls_scope hparams]
  rfl

/-- The scope after a well-typed declaration at the top. -/
theorem decl_scope {globals globals' : Frame} {d : Decl} (h : d.WellTyped globals globals') :
    (decl { globals := globals } d).1 = { globals := globals' } := by
  cases h with
  | var hadd => exact declare_ok (Γ := { globals := globals }) hadd _
  | prototype htys _ hadd => exact functionDecl_scope htys hadd
  | function htys _ hadd _ => exact functionDecl_scope htys hadd

end Check

/-! ## 2. How lowering comes to a body -/

/-- **How lowering comes to the body of a well-typed function**: with the globals and the parameters
    at their addresses, and with no temporary drawn. -/
structure Setting extends Lower.Arrival where
  scope_proper : scope.bare.Proper
  frame_proper : Frame.Proper (Frame.bare frame)
  scope_stored : scope.Stored
  frame_stored : Frame.Stored frame
  head_proper : head.Proper
  body_proper : body.Proper
  typed : body.WellTyped head.ret scope.bare (Frame.bare frame)
  no_temporaries : start.alloc.temporaries = 0

/-- The function as the checker comes to it: with the same scope apart from addresses. -/
def Setting.site (c : Setting) : FnSite := { c.toFn with scope := (c.scope.push c.frame).bare }

namespace Lower

theorem arrive_start {α : Type} {π : Allocator → α} (hπ : ∀ a : Allocator, π (a.bump .param) = π a)
    (globals : Frame) (f : Fn) (s : State) :
    π (arrive globals f s).start.alloc = π s.alloc.resetFunction :=
  (placeDecls_keeps hπ f.params [] _).trans (congrArg π (declare_alloc ..))

/-- Lowering comes to a body with the checker's scope and frame, apart from addresses. -/
theorem arrive_bare {globals globals' formals : Frame} {f : Fn}
    (hparams : Declares [] f.params formals) (hadd : (Frame.bare globals).add f.head.name
      (.function ⟨f.head.ret, f.key.params, false⟩) = .ok globals') (s : State) :
    (arrive globals f s).scope.bare = { globals := globals' } ∧
      Frame.bare (arrive globals f s).frame = formals := by
  constructor
  · obtain ⟨declared, t, hbare, hdeclare⟩ :=
      declare_function_bare { s with alloc := s.alloc.resetFunction } hadd
    have hglobals : (arrive globals f s).scope = { globals := declared } := by
      unfold arrive
      rw [hdeclare]
    rw [hglobals, ← hbare]
    rfl
  · exact placeDecls_bare .param (show Declares (Frame.bare []) f.params formals from hparams) _

/-- **The arrival at the function of a well-typed declaration is a setting**, and the checker comes
    to the same site. The pool grows by the function's literals. -/
theorem decl_settings {globals globals' : Frame} {d : Decl} (s : State) (hd : d.Proper)
    (hglobals : Frame.Proper (Frame.bare globals)) (hstored : Frame.Stored globals)
    (h : d.WellTyped (Frame.bare globals) globals') :
    Frame.Stored (decl globals d s).1 ∧ ∃ cs : List Setting,
      cs.map Setting.toArrival = (arrival? globals d s).toList ∧
      cs.map Setting.site = (d.site? { globals := Frame.bare globals }).toList ∧
      (decl globals d s).2.after.alloc.pool = s.alloc.pool ++ d.literals := by
  have hglobals' := h.proper hd hglobals
  cases h with
  | var hadd =>
    refine ⟨place_stored Space.noConfusion hstored _ _ s, [], rfl, rfl, ?_⟩
    rw [decl, place_alloc]
    exact (List.append_nil _).symm
  | prototype htys _ hadd =>
    rw [decl, htys]
    refine ⟨declare_function_stored hstored _ _ s, [], rfl, rfl, ?_⟩
    rw [declare_alloc]
    exact (List.append_nil _).symm
  | @function _ formals head params tys body htys hparams hadd hbody =>
    cases hd with
    | var hvar => cases hvar
    | function hhead hps hproper =>
      obtain rfl := paramTypes_eq htys
      have hformals := hparams.proper (binding_of_params hps) Frame.proper_nil
      let f : Fn := ⟨head, params, body⟩
      let a := arrive globals f s
      obtain ⟨hscope, hframe⟩ : a.scope.bare = { globals := globals' } ∧ Frame.bare a.frame = formals :=
        arrive_bare (f := f) hparams hadd s
      have hdeclared : Frame.Stored a.scope.globals := declare_function_stored hstored _ _ _
      let c : Setting := {
        a with
        scope_proper := hscope ▸ Scope.proper_globals hglobals'
        frame_proper := hframe ▸ hformals
        scope_stored := Scope.stored_globals hdeclared
        frame_stored := placeDecls_stored Space.noConfusion params _ Frame.stored_nil
        head_proper := hhead
        body_proper := hproper
        typed := hscope ▸ hframe ▸ hbody
        no_temporaries := arrive_start (π := Allocator.temporaries) (fun _ => rfl) globals f s }
      have hdecl := decl_arrive globals (f := f) s htys
      rw [hdecl]
      refine ⟨hdeclared, [c], ?_, ?_, ?_⟩
      · exact (congrArg Option.toList (arrival?_function globals (f := f) s htys)).symm
      · have hsame : (a.scope.push a.frame).bare = Scope.push { globals := globals' } formals := by
          rw [Scope.bare_push, hscope, hframe]
        have hsite := Check.site?_function (f := f) htys hparams hadd
        rw [hsite, ← hsame]
        rfl
      · have hpool : a.start.alloc.pool = s.alloc.pool :=
          arrive_start (π := Allocator.pool) (fun _ => rfl) globals f s
        rw [← hpool]
        exact block_pool _ c.scope_proper a.frame c.frame_proper body hproper c.typed _

/-- **The arrivals at the functions of well-typed declarations are settings**, at the sites to which
    the checker comes. -/
theorem decls_settings : ∀ {ds : List Decl} {globals globals' : Frame} {s : State},
    (∀ d ∈ ds, d.Proper) → Frame.Proper (Frame.bare globals) → Frame.Stored globals →
    Decl.AllWellTyped (Frame.bare globals) ds globals' → s.Calm → ∃ cs : List Setting,
      cs.map Setting.toArrival = arrivals globals ds s ∧
      cs.map Setting.site = Decl.sites { globals := Frame.bare globals } ds ∧
      (decls globals ds s).after.alloc.pool = s.alloc.pool ++ literalsIn ds
  | [], _, _, _, _, _, _, _, _ => ⟨[], rfl, rfl, (List.append_nil _).symm⟩
  | d :: ds, globals, globals', s, hproper, hglobals, hstored, h, hs => by
      obtain ⟨hd, hds⟩ := List.forall_mem_cons.mp hproper
      cases h with
      | cons hfirst hrest =>
        obtain ⟨hbare, hcalm⟩ := decl_calm hd hglobals hfirst hs
        obtain ⟨hstored', cs₁, harrivals₁, hsites₁, hpool₁⟩ :=
          decl_settings s hd hglobals hstored hfirst
        have hmiddle := hfirst.proper hd hglobals
        have hscope := Check.decl_scope hfirst
        rw [← hbare] at hrest hmiddle hscope
        obtain ⟨cs₂, harrivals₂, hsites₂, hpool₂⟩ :=
          decls_settings hds hmiddle hstored' hrest hcalm
        refine ⟨cs₁ ++ cs₂, ?_, ?_, ?_⟩
        · rw [List.map_append, harrivals₁, harrivals₂, arrivals]
        · rw [List.map_append, hsites₁, hsites₂, Decl.sites, hscope]
        · rw [decls, hpool₂, hpool₁, List.append_assoc]
          rfl

end Lower

/-! ## 3. The code of a program -/

/-- The instructions in front of the functions: the string literals, and the entry with the number
    of globals. -/
def Program.header (p : Program) (globals : Nat) : List Instr :=
  p.literals.map .string ++ [.entry (codeLabel Lower.entryName []) globals]

/-- **Code is laid out**: the header, then one segment for each function of the program, in order
    and with its label. -/
structure Program.Layout (p : Program) (code : List Instr) (fs : List (FnSite × Segment)) :
    Prop where
  sites : fs.map Prod.fst = p.sites
  labels : ∀ f ∈ fs, f.2.label = f.1.label
  code_eq : ∃ globals, code = p.header globals ++ fs.flatMap fun f => f.2.code

/-- **The code of an accepted program is laid out**, and what holds of each setting holds of each
    function of the program and its segment. -/
theorem Program.exists_layout {P : FnSite → Segment → Prop}
    (hP : ∀ c : Setting, P c.site c.segment) {source : List Char} {p : Program}
    (h : Program.ofSource? source = some p) (haccepted : p.Accepted) :
    ∃ code after fs, Lower.result p {} = .ok (code, after) ∧ p.Layout code fs ∧
      ∀ f ∈ fs, P f.1 f.2 := by
  have hp := Program.proper_ofSource? h
  have htyped := hp.wellTyped haccepted
  have hcalm : Lower.State.Calm {} := ⟨Journal.faultless_nil, rfl⟩
  obtain ⟨hresult, -⟩ := Lower.result_of_wellTyped hp htyped hcalm
  obtain ⟨globals, hdecls⟩ := htyped
  have hnil : Frame.Proper (Frame.bare []) := Frame.proper_nil
  obtain ⟨cs, harrivals, hsites, hpool⟩ :=
    Lower.decls_settings hp hnil Frame.stored_nil hdecls hcalm
  have hsites' : cs.map Setting.site = p.sites := hsites
  have hcode : (Lower.decls [] p.decls {}).code = cs.flatMap fun c => c.segment.code := by
    rw [Lower.decls_code, ← harrivals, List.flatMap_map]
  refine ⟨_, _, cs.map fun c => (c.site, c.segment), hresult, ⟨?_, ?_, ?_⟩, ?_⟩
  · rw [List.map_map, ← hsites']
    rfl
  · rw [List.forall_mem_map]
    exact fun _ _ => rfl
  · refine ⟨(Lower.decls [] p.decls {}).after.alloc.globals, ?_⟩
    have hliterals : p.literals = (Lower.decls [] p.decls {}).after.alloc.pool := hpool.symm
    rw [Program.header, hliterals, List.flatMap_map, ← hcode]
    rfl
  · rw [List.forall_mem_map]
    exact fun c _ => hP c

end CMinusMinus
