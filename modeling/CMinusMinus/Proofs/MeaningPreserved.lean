/-
  File:      CMinusMinus/Proofs/MeaningPreserved.lean
  Subject:   The code of every function runs as its body does.

  A program that was read from a source text and has no semantic error is lowered to code in which
  each function has a segment of its own. Started at the beginning of that segment, on a memory that
  agrees with the cells, the machine does what the body does: it reads and writes the same, comes to
  the end of the same function in the same way, with the same value if there is one, and leaves the
  same in the globals, the parameters and all variables.

  * `Lower.Ready` -- globals that mean in the code what they mean in the text;
  * `Lower.function_runs` -- one function;
  * `lowering_preserves_meaning` -- every function of every such program.
-/
import CMinusMinus.Proofs.Agreement
import CMinusMinus.Proofs.Execution
import CMinusMinus.Proofs.Segments

namespace CMinusMinus

open Machine

/-! ## 1. Globals -/

theorem Scope.var?_globals (globals : Frame) (x : String) :
    Scope.var? { globals := globals } x = globals.var? x := by
  change List.findSome? _ [globals] = _
  rw [List.findSome?_singleton]

theorem Scope.Follows.globals {globals globals' : Frame} {ρ : Env}
    (h : Scope.Follows { globals := globals } ρ) (hvar : ∀ x, globals'.var? x = globals.var? x) :
    Scope.Follows { globals := globals' } ρ := by
  intro x b hb
  rw [Scope.var?_globals, hvar, ← Scope.var?_globals]
  exact h x b hb

/-! ## 2. Segments -/

/-- The body stands behind the first two instructions of its segment. -/
theorem Machine.Placed.inside {g : Segment} {code : List Instr} {pc : Nat}
    (h : Placed code pc g.code) : Placed code (pc + 1 + 1) g.body := h.left.tail.tail

/-- From the begin of a segment through its body to an end of it. -/
theorem Arrives.segment {g : Segment} {code : List Instr} {pc : Nat} {m : Contents Address}
    {w w' : World} {o : Exit}
    (h : Arrives code g.label (w.config (pc + 1 + 1) m) (pc + 1 + 1 + g.body.length) w' o)
    (hplaced : Placed code pc g.code) :
    ∃ pc' m', Reaches code (w.config pc m) (w'.config pc' m') ∧
      exit? code (w'.config pc' m') = some (g.label, o) ∧ Agrees m' w'.store := by
  have hfunc : step code (w.config pc m) = some (w.config (pc + 1) m) := by
    have hinstr : code[pc]? = some (.func g.label) := hplaced.left.head
    simp [step, World.config, hinstr, exec, Config.next]
  have hframe : step code (w.config (pc + 1) m) = some (w.config (pc + 1 + 1) m) := by
    have hinstr : code[pc + 1]? = some (.frame g.locals g.temporaries) := hplaced.left.tail.head
    simp [step, World.config, hinstr, exec, Config.next]
  have hstart : Reaches code (w.config pc m) (w.config (pc + 1 + 1) m) := .step hfunc (.one hframe)
  cases o with
  | falls =>
    obtain ⟨m', hreach, hm'⟩ := h
    have hend : code[pc + 1 + 1 + g.body.length]? = some (.endFunc g.label) := by
      have hlast := hplaced.right.head
      rw [show pc + (Instr.func g.label :: g.inside).length = pc + 1 + 1 + g.body.length by
        simp only [Segment.inside, List.length_cons]; omega] at hlast
      exact hlast
    refine ⟨_, m', hstart.trans hreach, ?_, hm'⟩
    simp [exit?, World.config, hend]
  | returns v =>
    obtain ⟨pc', m', hreach, hexit, hm'⟩ := h
    exact ⟨pc', m', hstart.trans hreach, hexit, hm'⟩

/-! ## 3. Declarations -/

namespace Lower

/-- Lowering has come to globals that mean what they mean in the text. -/
structure Ready (globals : Frame) (s : State) (ρ : Env) : Prop where
  calm : s.Calm
  proper : Frame.Proper (Frame.bare globals)
  follows : Scope.Follows { globals := globals } ρ

/-- Placing parameters leaves the other counters alone. -/
theorem placeDecls_param {formals : Frame} {params : List Decl} (s : State)
    (h : Declares [] params formals) :
    (placeDecls .param [] params s).2.alloc.globals = s.alloc.globals ∧
      (placeDecls .param [] params s).2.alloc.locals = s.alloc.locals :=
  (placeDecls_along
    (R := fun _ s s' => s'.alloc.globals = s.alloc.globals ∧ s'.alloc.locals = s.alloc.locals)
    (fun _ => ⟨rfl, rfl⟩) (fun h₁ h₂ => ⟨h₂.1.trans h₁.1, h₂.2.trans h₁.2⟩)
    (fun _ _ => ⟨rfl, rfl⟩) h rfl s).2

/-- **A declaration at the top leaves the globals meaning what they mean in the text.** -/
theorem decl_ready {globals globals' : Frame} {d : Decl} {s : State} {ρ : Env} (hd : d.Proper)
    (h : d.WellTyped (Frame.bare globals) globals') (hready : Ready globals s ρ) :
    Frame.bare (decl globals d s).1 = globals' ∧
      ∃ ρ', Ready (decl globals d s).1 (decl globals d s).2.after ρ' ∧
        ∀ ds, Env.declare .global s.alloc.globals ρ (d :: ds) =
          Env.declare .global (decl globals d s).2.after.alloc.globals ρ' ds := by
  obtain ⟨hbare, hcalm⟩ := decl_calm hd hready.proper h hready.calm
  have hproper : Frame.Proper (Frame.bare (decl globals d s).1) := by
    rw [hbare]
    exact h.proper hd hready.proper
  -- what is left to say is what the names mean
  suffices hnames : ∃ ρ', Scope.Follows { globals := (decl globals d s).1 } ρ' ∧
      ∀ ds, Env.declare .global s.alloc.globals ρ (d :: ds) =
        Env.declare .global (decl globals d s).2.after.alloc.globals ρ' ds by
    obtain ⟨ρ', hfollows, hdeclare⟩ := hnames
    exact ⟨hbare, ρ', ⟨hcalm, hproper, hfollows⟩, hdeclare⟩
  have hglobals' := h.proper hd hready.proper
  cases h with
  | @var _ pos name ty hadd =>
    obtain ⟨hbinds, -, t, hplace⟩ := place_eq .global s hadd
    rw [decl, hplace]
    refine ⟨⟨name, .global s.alloc.globals, ty.extent.isSome⟩ :: ρ, ?_, fun ds => rfl⟩
    refine hready.follows.cons (v := ⟨ty, some (s.alloc.nextAddress .global)⟩) rfl fun x => ?_
    rw [Scope.var?_globals, Scope.var?_globals]
    exact Frame.var?_snoc _ hbinds x
  | @prototype _ _ head params tys htys hparams hadd =>
    rw [decl, htys]
    obtain ⟨frame, t, -, hdeclare⟩ := declare_function_bare s hadd
    have hvar := declare_function_var? globals head.name ⟨head.ret, tys, true⟩ s
    dsimp only
    rw [hdeclare] at hvar ⊢
    exact ⟨ρ, hready.follows.globals hvar, fun ds => rfl⟩
  | @function _ formals head params tys body htys hparams hadd hbody =>
    cases hd with
    | var hvar => cases hvar
    | function _ hps hproper =>
      have hformals := hparams.proper (binding_of_params hps) Frame.proper_nil
      obtain ⟨declared, t, heq, -, hvar, hΓ, hframe, hwell⟩ :=
        function_eq s hparams hadd hglobals' hformals hbody
      rw [decl, htys]
      dsimp only
      rw [heq]
      refine ⟨ρ, hready.follows.globals hvar, fun ds => ?_⟩
      have hlater := block_along passage_later (codeLabel head.name tys) hΓ _ hframe body hproper
        hwell (placeDecls .param [] params (s.entered t (codeLabel head.name tys))).2
      have hplaced := placeDecls_param (s.entered t (codeLabel head.name tys)) hparams
      dsimp only
      rw [hlater.globals, hplaced.1]
      rfl

/-- Up to a declaration among others: the code before it, and the globals that it finds. -/
theorem decls_split {d : Decl} {rest : List Decl} : ∀ {before : List Decl}
    {globals final : Frame} {s : State} {ρ : Env}, (∀ e ∈ before, e.Proper) →
    Decl.AllWellTyped (Frame.bare globals) (before ++ d :: rest) final → Ready globals s ρ →
    ∃ front back globals₁ s₁ middle,
      (decls globals (before ++ d :: rest) s).code =
        front ++ (decl globals₁ d s₁).2.code ++ back ∧
      Ready globals₁ s₁ (Env.declare .global s.alloc.globals ρ before) ∧
      d.WellTyped (Frame.bare globals₁) middle
  | [], globals, final, s, ρ, _, h, hready => by
      cases h with
      | cons hd _ => exact ⟨[], _, globals, s, _, rfl, hready, hd⟩
  | e :: before, globals, final, s, ρ, hproper, h, hready => by
      obtain ⟨he, hbefore⟩ := List.forall_mem_cons.mp hproper
      cases h with
      | cons hfirst hothers =>
        obtain ⟨hbare, ρ', hready', hdeclare⟩ := decl_ready he hfirst hready
        rw [← hbare] at hothers
        obtain ⟨front, back, globals₁, s₁, middle, hcode, hready₁, hd⟩ :=
          decls_split hbefore hothers hready'
        refine ⟨(decl globals e s).2.code ++ front, back, globals₁, s₁, middle, ?_, ?_, hd⟩
        · rw [List.cons_append, decls]
          dsimp only
          rw [hcode, List.append_assoc, List.append_assoc, List.append_assoc]
        · rw [hdeclare]
          exact hready₁

/-! ## 4. Functions -/

/-- No label is defined twice in the code of a program. -/
theorem program_labels {p : Program} (hp : p.Proper) (s : State) :
    (labelsOf (program p s).code).Nodup := by
  obtain ⟨gs, hgs, -, htidy⟩ := decls_segments [] s hp
  have hnone := (header_plain (decls [] p.decls s).after.alloc.pool (codeLabel entryName [])
    (decls [] p.decls s).after.alloc.globals).2
  rw [program, hgs, labelsOf_append, hnone]
  exact htidy.labels.2.1

/-- **The code of a function runs as its body does**, from the begin of its segment to one of its
    ends. -/
theorem function_runs {globals globals' : Frame} {head : FnHead} {params : List Decl} {body : Block}
    {s : State} {ρ : Env} (hd : (Decl.function head params body).Proper)
    (h : (Decl.function head params body).WellTyped (Frame.bare globals) globals')
    (hready : Ready globals s ρ) : ∃ g : Segment,
      (decl globals (.function head params body) s).2.code = g.code ∧
      g.label = codeLabel head.name (params.filterMap Decl.ty?) ∧
      ∀ {code : List Instr} {pc : Nat} {m : Contents Address} {w w' : World} {o : Exit},
        (labelsOf code).Nodup → Placed code pc g.code →
        body.Runs (Env.declare .param 0 ρ params) 0 w o w' → Agrees m w.store →
        ∃ pc' m', Reaches code (w.config pc m) (w'.config pc' m') ∧
          exit? code (w'.config pc' m') = some (g.label, o) ∧ Agrees m' w'.store := by
  have hglobals' := h.proper hd hready.proper
  cases h with
  | @function _ formals _ _ tys _ htys hparams hadd hbody =>
    cases hd with
    | var hvar => cases hvar
    | function hhead hps hproper =>
      have hformals := hparams.proper (binding_of_params hps) Frame.proper_nil
      obtain ⟨declared, t, heq, -, hvar, hΓ, hframe, hwell⟩ :=
        function_eq s hparams hadd hglobals' hformals hbody
      let label := codeLabel head.name tys
      let placed := placeDecls .param [] params (s.entered t label)
      let Γ : Scope := { globals := declared }
      let b := block label Γ placed.1 body placed.2
      refine ⟨⟨label, b.after.alloc.locals, b.after.alloc.temporaries, b.code⟩, ?_, ?_, ?_⟩
      · rw [decl, htys]
        dsimp only
        rw [heq]
        rfl
      · exact congrArg (codeLabel head.name) (paramTypes_eq htys)
      · intro code pc m w w' o hcode hplaced hruns hm
        -- the body's scope means what the text's names mean
        have hcell : ∀ k, (Cell.param k).address = ⟨.param, k⟩ := fun _ => rfl
        have hρ : (Γ.push placed.1).Follows (Env.declare .param 0 ρ params) :=
          Scope.Follows.placeDecls hcell hparams (s := s.entered t label) rfl
            (hready.follows.globals hvar).push_nil
        have hlocals : placed.2.alloc.locals = 0 :=
          (placeDecls_param (s.entered t label) hparams).2
        have hlabel : IsCodeLabel label := isCodeLabel_codeLabel hhead.name tys
        have harrives := block_matches hcode hlabel hruns hΓ hframe hρ hproper hwell hlocals
          hplaced.inside hm
        exact harrives.segment hplaced

end Lower

/-! ## 5. The meaning of programs -/

/-- **Lowering preserves meaning.** In a program that was read from a source text and has no
    semantic error, take any function. The code of the program holds a segment for it, and whenever
    its body runs to an end, the machine that is started at this segment on a memory that agrees with
    the cells comes to an end of this function in the same way, having read and written the same,
    with a memory that agrees with the cells, and stops. -/
theorem lowering_preserves_meaning {source : List Char} {p : Program} {before rest : List Decl}
    {head : FnHead} {params : List Decl} {body : Block} (hp : Program.ofSource? source = some p)
    (haccepted : p.Accepted) (hdecls : p.decls = before ++ .function head params body :: rest) :
    ∃ code after front g back, Lower.result p {} = .ok (code, after) ∧
      code = front ++ Segment.code g ++ back ∧
      g.label = codeLabel head.name (params.filterMap Decl.ty?) ∧
      ∀ (w w' : World) (o : Exit) (m : Contents Address),
        body.Runs (Env.ofFunction before params) 0 w o w' → Agrees m w.store →
        ∃ pc m', Reaches code (w.config front.length m) (w'.config pc m') ∧
          exit? code (w'.config pc m') = some (g.label, o) ∧ step code (w'.config pc m') = none ∧
          Agrees m' w'.store := by
  have hproper := Program.proper_ofSource? hp
  have hwell := hproper.wellTyped haccepted
  have hcalm : Lower.State.Calm {} := ⟨Journal.faultless_nil, rfl⟩
  obtain ⟨hresult, -⟩ := Lower.result_of_wellTyped hproper hwell hcalm
  have hlabels := Lower.program_labels hproper {}
  obtain ⟨final, hall⟩ := hwell
  have hbefore : ∀ d ∈ before, d.Proper := fun d hd =>
    hproper d (hdecls ▸ List.mem_append_left _ hd)
  have hd : (Decl.function head params body).Proper :=
    hproper _ (hdecls ▸ List.mem_append_right _ List.mem_cons_self)
  have hready : Lower.Ready [] {} [] := ⟨hcalm, Frame.proper_nil, fun _ _ hb => by cases hb⟩
  rw [hdecls] at hall
  obtain ⟨front, back, globals, s, middle, hcode, hready', hwell⟩ :=
    Lower.decls_split hbefore (show Decl.AllWellTyped (Frame.bare []) _ final from hall) hready
  obtain ⟨g, hg, hlabel, hruns⟩ := Lower.function_runs hd hwell hready'
  let lowered := Lower.decls [] p.decls {}
  let header : List Instr := lowered.after.alloc.pool.map .string ++
    [.entry (codeLabel Lower.entryName []) lowered.after.alloc.globals]
  have hwhole : (Lower.program p {}).code = header ++ front ++ g.code ++ back := by
    have hbody : lowered.code = front ++ g.code ++ back := by
      rw [← hg, ← hcode, ← hdecls]
    change header ++ lowered.code = _
    rw [hbody, List.append_assoc header, List.append_assoc header, List.append_assoc front]
  refine ⟨_, _, header ++ front, g, back, hresult, hwhole, hlabel, ?_⟩
  intro w w' o m hrun hm
  have hplaced : Placed (Lower.program p {}).code (header ++ front).length g.code := by
    rw [hwhole]
    exact .of_append _ _ _
  obtain ⟨pc, m', hreach, hexit, hm'⟩ := hruns hlabels hplaced hrun hm
  exact ⟨pc, m', hreach, hexit, step_of_exit hexit, hm'⟩

/-- A global, a parameter, an array, and a loop whose own variable hides the global. -/
def takeAway : String :=
  "int g; int f(int n) \x7b int a[2]; a[1] = 0; while (0 < n && !(n == 9)) \x7b int g; " ++
  "scanf(g); a[1] = a[1] - g; n = n - 1; \x7d g = g + a[1]; printf(g); return g; \x7d"

/-- The body of its function. -/
def takeAwayBody : Block :=
  let col : Int → Position := fun c => ⟨1, c⟩
  let loop : Block := .mk (col 70) [.variable (col 72) "g" .int]
    [.call (col 79) (.call (col 79) readCall [.var (col 85) "g"]),
      .assign (col 89) (.index (col 89) (.var (col 89) "a") (.int (col 91) 1))
        (.binary (col 96) (.arith .sub) (.index (col 96) (.var (col 96) "a") (.int (col 98) 1))
          (.var (col 103) "g")),
      .assign (col 106) (.var (col 106) "n")
        (.binary (col 110) (.arith .sub) (.var (col 110) "n") (.int (col 114) 1))]
  .mk (col 21) [.variable (col 23) "a" ⟨"int", 0, some 2⟩]
    [.assign (col 33) (.index (col 33) (.var (col 33) "a") (.int (col 35) 1)) (.int (col 40) 0),
      .whileLoop (col 43)
        (.binary (col 50) .and
          (.binary (col 50) (.rel .lt) (.int (col 50) 0) (.var (col 54) "n"))
          (.unary (col 59) .not
            (.binary (col 61) (.rel .eq) (.var (col 61) "n") (.int (col 66) 9))))
        loop,
      .assign (col 119) (.var (col 119) "g")
        (.binary (col 123) (.arith .add) (.var (col 123) "g")
          (.index (col 127) (.var (col 127) "a") (.int (col 129) 1))),
      .call (col 133) (.call (col 133) writeCall [.var (col 140) "g"]),
      .ret (col 144) (some (.var (col 151) "g"))]

/-- The program. -/
def takeAwayProgram : Program :=
  ⟨[.variable ⟨1, 1⟩ "g" .int,
    .function ⟨⟨1, 8⟩, "f", .int⟩ [.parameter ⟨1, 14⟩ "n" .int] takeAwayBody]⟩

/-- The function is called with 1 while the global is 5, and there are 4 and 6 to be read. -/
def takeAwayStart : World :=
  ⟨Contents.set (Contents.set (fun _ => none) (.scalar (.global 0)) 5) (.scalar (.param 0)) 1,
    [4, 6], []⟩

theorem lowering_preserves_meaning_takeAway :
    Program.ofSource? takeAway.toList = some takeAwayProgram ∧ takeAwayProgram.Accepted ∧
      ∃ code after front g back m pc m', Lower.result takeAwayProgram {} = .ok (code, after) ∧
        code = front ++ Segment.code g ++ back ∧ g.label = "f_int" ∧ Agrees m takeAwayStart.store ∧
        Reaches code ⟨front.length, m, [4, 6], []⟩ ⟨pc, m', [6], [1]⟩ ∧
        exit? code ⟨pc, m', [6], [1]⟩ = some ("f_int", .returns (some 1)) ∧
        m' (.scalar ⟨.global, 0⟩) = some 1 := by
  have hread : Program.ofSource? takeAway.toList = some takeAwayProgram := by
    set_option maxRecDepth 2000 in
    exact Program.ofSource?_of_text String.ofList_append.symm (by with_unfolding_all rfl)
  have haccepted : takeAwayProgram.Accepted := by decide +kernel
  -- one turn of the loop, which reads 4 into its own `g`
  obtain ⟨w', hruns, hinput, houtput, hglobal⟩ : ∃ w', takeAwayBody.Runs
      (Env.ofFunction [.variable ⟨1, 1⟩ "g" .int] [.parameter ⟨1, 14⟩ "n" .int]) 0 takeAwayStart
        (.returns (some 1)) w' ∧ w'.input = [6] ∧ w'.output = [1] ∧
        w'.store (.scalar (.global 0)) = some 1 := by
    exact ⟨_, .mk (.cons (.assignElement rfl rfl rfl)
      (.cons (.whileLoop (.again (v := 1) rfl (by decide)
        (.mk (.cons (.scan rfl)
          (.cons (.assignElement rfl rfl rfl) (.cons (.assign rfl rfl) .nil))))
        (.stop rfl)))
      (.cons (.assign rfl rfl) (.cons (.print rfl) (.leave (.retSome rfl)))))), rfl, rfl, rfl⟩
  have hempty : Agrees (fun _ => none) fun _ => none := fun _ => rfl
  have hm := (hempty.set (.scalar (.global 0)) 5).set (.scalar (.param 0)) 1
  have hdecls : takeAwayProgram.decls = [.variable ⟨1, 1⟩ "g" .int] ++
    .function ⟨⟨1, 8⟩, "f", .int⟩ [.parameter ⟨1, 14⟩ "n" .int] takeAwayBody :: [] := rfl
  obtain ⟨code, after, front, g, back, hresult, hcode, hlabel, hmeaning⟩ :=
    lowering_preserves_meaning hread haccepted hdecls
  have hname : g.label = "f_int" := hlabel.trans (by decide +kernel)
  obtain ⟨pc, m', hreach, hexit, -, hm'⟩ := hmeaning takeAwayStart w' (.returns (some 1)) _ hruns hm
  rw [World.config, World.config, hinput, houtput] at hreach
  rw [World.config, hinput, houtput, hname] at hexit
  exact ⟨hread, haccepted, code, after, front, g, back, _, pc, m', hresult, hcode, hname, hm,
    hreach, hexit, (hm' (.scalar (.global 0))).trans hglobal⟩

end CMinusMinus
