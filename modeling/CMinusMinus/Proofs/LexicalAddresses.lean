/-
  File:      CMinusMinus/Proofs/LexicalAddresses.lean
  Subject:   Addresses follow the text of a program.

  Parameters, locals and globals are numbered in the order of their declarations: the parameters of
  a function and the globals of the program from left to right, the locals of a body block by block,
  a block's own declarations before those of the blocks inside it. A slot is never used again, not
  even in a block beside the one that it was taken for. An identifier is translated to the address
  of the innermost declaration of its name around it; so names that mean different variables at one
  place have different addresses there.

  * `Lower.blockHomes`, `Lower.block_homes` -- the addresses of all declarations in a body;
  * `Definition.Addressed` -- the addresses in a function;
  * `lexical_addresses` -- the addresses in accepted programs.
-/
import CMinusMinus.Proofs.Agreement
import CMinusMinus.Proofs.Arrivals

namespace CMinusMinus

namespace Lower

/-! ## 1. The declarations of a body -/

mutual

/-- The addresses that lowering gives to the declarations in a statement, in order. -/
def stmtHomes (label : String) (Γ : Scope) : Stmt → Target → State → List (Option Address)
  | .ifThen _ cond body, next, s =>
      let c := branch Γ cond (targets s.label next) s.afterLabel
      blockHomes label Γ [] body c.after
  | .ifElse _ cond thenBody elseBody, _, s =>
      let no := s.afterLabel.label
      let c := branch Γ cond (targets s.label (some no)) s.afterLabel.afterLabel
      let a := block label Γ [] thenBody c.after
      blockHomes label Γ [] thenBody c.after ++ blockHomes label Γ [] elseBody a.after
  | .whileLoop _ cond body, next, s =>
      let c := branch Γ cond (targets s.afterLabel.label next) s.afterLabel.afterLabel
      blockHomes label Γ [] body c.after
  | .forLoop _ init cond _ body, next, s =>
      let i := stmt label Γ init none s.afterLabel.afterLabel
      let c := branch Γ cond (targets s.afterLabel.label next) i.after
      blockHomes label Γ [] body c.after
  | _, _, _ => []

/-- **The addresses that lowering gives to the declarations in a block**: its own, as its frame has
    them, then those in its statements. -/
def blockHomes (label : String) (Γ : Scope) (frame : Frame) : Block → State → List (Option Address)
  | .mk _ ds sts, s =>
      let declared := placeDecls .local frame ds s
      (placedIn ds).map declared.1.home? ++ stmtsHomes label (Γ.push declared.1) sts declared.2

/-- The addresses of the declarations in statements one after the other. -/
def stmtsHomes (label : String) (Γ : Scope) : List Stmt → State → List (Option Address)
  | [], _ => []
  | st :: sts, s =>
      let first := stmt label Γ st (some s.label) s.afterLabel
      stmtHomes label Γ st (some s.label) s.afterLabel ++ stmtsHomes label Γ sts first.after

end

/-- So many addresses of locals from a number on. -/
def localsFrom (k n : Nat) : List (Option Address) :=
  (List.range' k n).map fun i => some ⟨.local, (i : Nat)⟩

theorem localsFrom_append (k m n : Nat) :
    localsFrom k m ++ localsFrom (k + m) n = localsFrom k (m + n) := by
  unfold localsFrom
  rw [← List.map_append, List.range'_append_1]

mutual

/-- In a statement the declarations get the next locals. -/
theorem stmt_homes (label : String) (Γ : Scope) : ∀ st : Stmt, st.Proper → ∀ {k : Nat}
    (next : Target) (s : State), s.alloc.locals = k →
    (stmt label Γ st next s).after.journal.Faultless →
      stmtHomes label Γ st next s = localsFrom k st.slots
  | .assign _ _ _, hst, _, next, s, _, _ | .call _ _, hst, _, next, s, _, _ => rfl
  | .ifThen _ cond body, hst, k, next, s, hk, hj => by
      have hc := condition_plays Γ [] hst.1 (targets s.label next) s.afterLabel
      exact block_homes label Γ [] body hst.2 _ (hc.grows.locals.trans hk) hj
  | .ifElse _ cond thenBody elseBody, hst, k, next, s, hk, hj => by
      have hc := condition_plays Γ [] hst.1 (targets s.label (some s.afterLabel.label))
        s.afterLabel.afterLabel
      have hlocals := hc.grows.locals.trans hk
      have ha := block_plays label Γ [] [] thenBody hst.2.1 _ hlocals
      have hb := block_plays label Γ [] [] elseBody hst.2.2 _
        (ha.grows.locals.trans (congrArg (· + thenBody.slots) hlocals))
      have hthen := block_homes label Γ [] thenBody hst.2.1 _ hlocals (hb.grows.before hj)
      have helse := block_homes label Γ [] elseBody hst.2.2 _
        (ha.grows.locals.trans (congrArg (· + thenBody.slots) hlocals)) hj
      rw [Stmt.slots, ← localsFrom_append, ← hthen, ← helse]
      rfl
  | .whileLoop _ cond body, hst, k, next, s, hk, hj => by
      have hc := condition_plays Γ [] hst.1 (targets s.afterLabel.label next)
        s.afterLabel.afterLabel
      exact block_homes label Γ [] body hst.2 _ (hc.grows.locals.trans hk) hj
  | .forLoop _ init cond step body, hst, k, next, s, hk, hj => by
      have hi := clause_plays Γ [] label hst.1 none k s.afterLabel.afterLabel
      have hc := condition_plays Γ [] hst.2.1 (targets s.afterLabel.label next)
        (stmt label Γ init none s.afterLabel.afterLabel).after
      have hlocals := hc.grows.locals.trans (hi.grows.locals.trans hk)
      have hn := clause_plays Γ [] label hst.2.2.1 none 0
        (block label Γ [] body (branch Γ cond (targets s.afterLabel.label next)
          (stmt label Γ init none s.afterLabel.afterLabel).after).after).after
      rw [Stmt.slots, hst.1.slots_eq, hst.2.2.1.slots_eq, Nat.zero_add, Nat.add_zero]
      exact block_homes label Γ [] body hst.2.2.2 _ hlocals (hn.grows.before hj)
  | .ret _ _, _, _, _, _, _, _ => rfl
  | .misplaced _, hst, _, _, _, _, _ | .missing _ _, hst, _, _, _, _, _ => hst.elim

/-- **In a block the declarations get the next locals**, in order and without a gap. -/
theorem block_homes (label : String) (Γ : Scope) (frame : Frame) : ∀ b : Block, b.Proper →
    ∀ {k : Nat} (s : State), s.alloc.locals = k →
    (block label Γ frame b s).after.journal.Faultless →
      blockHomes label Γ frame b s = localsFrom k b.slots
  | .mk _ ds sts, hb, k, s, hk, hj => by
      have hds := binding_of_variables hb.1
      have hgrows := placeDecls_grows hds frame s
      have hlocals := hgrows.locals.trans (congrArg (· + ds.length) hk)
      have hstmts := stmts_plays label (Γ.push (placeDecls .local frame ds s).1) [] sts hb.2
        (placeDecls .local frame ds s).2 hlocals
      have hnested := stmts_homes label (Γ.push (placeDecls .local frame ds s).1) sts hb.2
        (placeDecls .local frame ds s).2 hlocals hj
      have hown := placeDecls_numbers hds (hstmts.grows.before hj)
      have hcount : s.alloc.count .local = k := hk
      unfold Frame.Numbers at hown
      rw [length_placedIn hds, hcount] at hown
      rw [blockHomes, Block.slots, hown, hnested]
      exact localsFrom_append k ds.length (Stmt.slotsOf sts)

theorem stmts_homes (label : String) (Γ : Scope) : ∀ sts : List Stmt, Stmt.AllProper sts →
    ∀ {k : Nat} (s : State), s.alloc.locals = k →
    (stmts label Γ sts s).after.journal.Faultless →
      stmtsHomes label Γ sts s = localsFrom k (Stmt.slotsOf sts)
  | [], _, _, _, _, _ => rfl
  | st :: sts, hsts, k, s, hk, hj => by
      have hfirst := stmt_plays label Γ [] st hsts.1 (some s.label) s.afterLabel hk
      have hlocals := hfirst.grows.locals.trans (congrArg (· + st.slots) hk)
      have hrest := stmts_plays label Γ [] sts hsts.2 _ hlocals
      have hhead := stmt_homes label Γ st hsts.1 (some s.label) s.afterLabel hk
        (hrest.grows.before hj)
      have htail := stmts_homes label Γ sts hsts.2 _ hlocals hj
      rw [Stmt.slotsOf, ← localsFrom_append, ← hhead, ← htail]
      rfl

end

end Lower

/-! ## 2. Functions -/

/-- **The addresses in a function**, as lowering gives them when it comes to it. -/
structure Definition.Addressed (f : Definition) (a : Lower.Arrival) : Prop where
  label : a.label = f.label
  body : a.body = f.body
  /-- The globals before the function, the parameters, and the declarations of the body with those
      in nested blocks are numbered in order, each from 0. -/
  globals : a.scope.globals.Numbers .global 0 (placedIn f.before)
  params : a.frame.Numbers .param 0 (placedIn f.params)
  locals : Lower.blockHomes a.label a.scope a.frame a.body a.start =
    Lower.localsFrom 0 f.body.slots
  /-- The operands of the code are the uses of the body, each occurrence once. -/
  takes : Takes (operandsOf a.segment.body) f.uses
  each : f.uses.Perm (spotsOf (literalsIn f.before).length (f.body.scenes f.env 0))
  /-- Two names that mean something at one place mean it at different addresses. -/
  apart : ∀ c ∈ f.body.scenes f.env 0, ∀ x y home,
    c.env.home x = some home → c.env.home y = some home → x = y

/-- **A well-typed function is addressed as it is written.** -/
theorem Lower.Met.addressed {f : Definition} {a : Lower.Arrival} (h : Lower.Met f a) {ret : Ty}
    {Γ : Scope} {frame : Frame} (hbody : f.body.WellTyped ret Γ frame) : f.Addressed a where
  label := h.label
  body := h.body
  globals := h.globals
  params := h.params
  locals := by
    rw [← h.body]
    exact Lower.block_homes a.label a.scope a.frame a.body (h.body ▸ h.body_proper) a.start h.locals
      h.faultless
  takes := h.takes
  each := h.uses_perm hbody
  apart := by
    intro c hc x y home hx hy
    exact (h.apart c hc).home_inj hx hy

/-! ## 3. Programs -/

/-- **Addresses follow the text.** A program without semantic errors is lowered to code in which the
    globals are numbered in order, and each function is addressed as it is written. -/
theorem lexical_addresses {source : List Char} {p : Program}
    (hp : Program.ofSource? source = some p) (haccepted : p.Accepted) :
    ∃ code after, Lower.result p {} = .ok (code, after) ∧
      code = p.literals.map .string ++ [.entry "main" p.globals.length] ++
        (Lower.arrivals [] p.decls {}).flatMap (fun a => a.segment.code) ∧
      (Lower.globalsAfter [] p.decls {}).Numbers .global 0 p.globals ∧
      List.Forall₂ Definition.Addressed p.definitions (Lower.arrivals [] p.decls {}) := by
  have hproper := Program.proper_ofSource? hp
  have hwell := hproper.wellTyped haccepted
  have hresult := (Lower.result_of_wellTyped hproper hwell (s := {}) ⟨Journal.faultless_nil, rfl⟩).1
  obtain ⟨hcode, hmet, hglobals⟩ := Lower.result_met hproper hresult
  have hboth := (List.forall₂_and_left _ _).mpr ⟨fun f hf => hf, hmet⟩
  refine ⟨_, _, hresult, hcode, hglobals, hboth.imp fun f a h => ?_⟩
  obtain ⟨ret, Γ, frame, hbody⟩ := hwell.bodies f h.1
  exact h.2.addressed hbody

/-- A local hidden by another one in a nested block, with a third one in the block beside it, and a
    parameter and a global that are hidden in a loop. -/
def hideInBlocks : String :=
  "int g; int h;
int f(int a, int b) \x7b
  int x; x = g;
  if (x < b) \x7b int x; x = h; \x7d else \x7b int y; y = x; \x7d
  while (x < a) \x7b int a; int g; a = g; x = a; \x7d
  return x;
\x7d"

/-- Where its identifiers are stored, in the order of the code. -/
def hideInBlocksHomes : List Address :=
  [⟨.local, 0⟩, ⟨.global, 0⟩, ⟨.local, 0⟩, ⟨.param, 1⟩, ⟨.local, 1⟩, ⟨.global, 1⟩, ⟨.local, 2⟩,
    ⟨.local, 0⟩, ⟨.local, 0⟩, ⟨.param, 0⟩, ⟨.local, 3⟩, ⟨.local, 4⟩, ⟨.local, 0⟩, ⟨.local, 3⟩,
    ⟨.local, 0⟩]

theorem lexical_addresses_hideInBlocks :
    ∃ p code after, Program.ofSource? hideInBlocks.toList = some p ∧ p.Accepted ∧
      Lower.result p {} = .ok (code, after) ∧
      code = [.entry "main" 2] ++
        (Lower.arrivals [] p.decls {}).flatMap (fun a => a.segment.code) ∧
      (Lower.globalsAfter [] p.decls {}).Numbers .global 0 ["g", "h"] ∧
      List.Forall₂ Definition.Addressed p.definitions (Lower.arrivals [] p.decls {}) ∧
      p.definitions.map (fun f => f.uses.map Use.address?) = [hideInBlocksHomes.map some] := by
  have hread : ∃ p, Program.ofSource? hideInBlocks.toList = some p ∧ p.Accepted ∧
      p.literals = [] ∧ p.globals = ["g", "h"] ∧
      p.definitions.map (fun f => f.uses.map Use.address?) = [hideInBlocksHomes.map some] := by
    set_option maxRecDepth 2000 in
    exact Program.exists_of_text rfl (by decide +kernel)
  obtain ⟨p, hp, haccepted, hliterals, hglobals, huses⟩ := hread
  obtain ⟨code, after, hresult, hcode, hnumbers, haddressed⟩ := lexical_addresses hp haccepted
  rw [hliterals, hglobals] at hcode
  rw [hglobals] at hnumbers
  exact ⟨p, code, after, hp, haccepted, hresult, hcode, hnumbers, haddressed, huses⟩

end CMinusMinus
