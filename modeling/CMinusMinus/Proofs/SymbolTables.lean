/-
  File:      CMinusMinus/Proofs/SymbolTables.lean
  Subject:   Symbol tables answer as a map of declarations does.

  Scopes are made one inside the other, and declarations go into them in any order. Some are
  refused. A CHRONICLE holds the tables and, beside them, nothing but the accepted declarations of
  each scope as they came. The tables answer as these lists do: a variable is the first one that was
  accepted, a function the last one of its signature.

  * `Frame.Holding` -- what a name can be bound to;
  * `Frame.Admits`, `Frame.add_ok_iff` -- which declarations are accepted;
  * `Records`, `Records.add` -- a table answers as a list, and goes on to;
  * `Chronicle.Sound.step`, `Chronicle.Sound.run` -- all tables do, in every history;
  * `Chronicle.Extends.run` -- what is bound stays bound;
  * `tables_refine_declarations` -- **the tables of every history.**
-/
import CMinusMinus.Scope.Forest
import CMinusMinus.Proofs.Tables
import Mathlib.Data.List.Nodup

namespace CMinusMinus

/-! ## 1. What a name is bound to -/

/-- What tells the functions of one name apart; the sizes of arrays do not. -/
def Signature.key (f : Signature) : List (String × Int) := f.params.map Ty.identity

/-- The defect of a declaration that is refused. -/
def Entry.conflict (name : String) : Entry → Defect
  | .variable _ => .variableRedeclared name
  | .function _ => .functionRedeclared name

namespace Frame

variable {frame frame' : Frame} {name x : String} {entry e : Entry} {f g : Signature}

/-- What a name is bound to. -/
def entries (frame : Frame) (name : String) : List Entry :=
  (frame.filter fun b => b.1 = name).map Prod.snd

/-- **A name is bound** to nothing, to one variable, or to functions that are told apart. -/
inductive Holding : List Entry → Prop where
  | unbound : Holding []
  | single (v : Variable) : Holding [.variable v]
  | functions {fs : List Signature} (hsome : fs ≠ []) (hapart : (fs.map Signature.key).Nodup) :
      Holding (fs.map .function)

/-- **The declaration is admitted.** A variable needs a name that is not bound. A function needs
    one that is bound to no variable, and it may have the signature of a prototype that it
    completes. -/
def Admits (frame : Frame) (name : String) : Entry → Prop
  | .variable _ => frame.entries name = []
  | .function f => (∀ v, .variable v ∉ frame.entries name) ∧
      ∀ g, .function g ∈ frame.entries name → g.key = f.key →
        g.forward = true ∧ f.forward = false

theorem mem_entries : e ∈ frame.entries name ↔ (name, e) ∈ frame := by
  unfold entries
  simp

theorem entries_append (front back : Frame) (x : String) :
    entries (front ++ back) x = entries front x ++ entries back x := by
  simp [entries]

theorem entries_cons_self (name : String) (e : Entry) (frame : Frame) :
    entries ((name, e) :: frame) name = e :: frame.entries name := by
  simp [entries]

theorem entries_cons_of_ne (h : x ≠ name) (e : Entry) (frame : Frame) :
    entries ((name, e) :: frame) x = frame.entries x := by
  simp [entries, h.symm]

theorem binds_eq_false_iff : frame.binds name = false ↔ frame.entries name = [] := by
  simp [binds, entries]

/-- Functions of one signature in one table are the same. -/
theorem Holding.eq_of_key {es : List Entry} (h : Holding es) (hf : .function f ∈ es)
    (hg : .function g ∈ es) (hkey : f.key = g.key) : f = g := by
  cases h with
  | unbound => cases hf
  | single v => cases List.mem_singleton.mp hf
  | functions hsome hapart =>
    obtain ⟨f', hf', heq⟩ := List.mem_map.mp hf
    cases heq
    obtain ⟨g', hg', heq⟩ := List.mem_map.mp hg
    cases heq
    exact List.inj_on_of_nodup_map hapart hf' hg' hkey

/-- A name that is bound to a variable is bound to nothing else. -/
theorem Holding.of_variable {es : List Entry} (h : Holding es) {v : Variable}
    (hv : .variable v ∈ es) : es = [.variable v] := by
  cases h with
  | unbound => cases hv
  | single w => rw [List.mem_singleton.mp hv]
  | functions hsome hapart =>
    obtain ⟨f, -, heq⟩ := List.mem_map.mp hv
    cases heq

/-- A function is found exactly if it is there. -/
theorem function?_eq_some_iff (h : Holding (frame.entries x)) {τs : List Ty} :
    frame.function? x τs = some g ↔
      .function g ∈ frame.entries x ∧ g.key = τs.map Ty.identity := by
  have hfound : ∀ k, frame.function? x τs = some k →
      .function k ∈ frame.entries x ∧ k.key = τs.map Ty.identity := by
    intro k hk
    obtain ⟨⟨n, e⟩, hb, hmatch⟩ := List.exists_of_findSome?_eq_some hk
    rcases e with v | k'
    · cases hmatch
    · dsimp only at hmatch
      split at hmatch
      · rename_i hcond
        cases hmatch
        rw [Bool.and_eq_true, decide_eq_true_eq, Ty.allAgree_iff] at hcond
        exact ⟨mem_entries.mpr (hcond.1 ▸ hb), hcond.2⟩
      · cases hmatch
  constructor
  · exact hfound g
  · intro hthere
    obtain ⟨hmem, hkey⟩ := hthere
    have hagree : Ty.allAgree g.params τs = true := (Ty.allAgree_iff _ _).mpr hkey
    have hsome : (frame.function? x τs).isSome = true :=
      List.findSome?_isSome_iff.mpr ⟨_, mem_entries.mp hmem, by simp [hagree]⟩
    obtain ⟨k, hk⟩ := Option.isSome_iff_exists.mp hsome
    obtain ⟨hmem', hkey'⟩ := hfound k hk
    rw [hk, h.eq_of_key hmem hmem' (hkey.trans hkey'.symm)]

/-! ## 2. One more declaration -/

/-- A table that takes a function in has no variable of its name. -/
theorem not_variable_of_ok (h : Holding (frame.entries name))
    (hadd : addFunction name f frame = .ok frame') : ∀ v, .variable v ∉ frame.entries name := by
  intro v hv
  have honly := h.of_variable hv
  refine not_variable_of_addFunction hadd ?_ v (mem_entries.mp hv)
  intro g hg
  have hmem := mem_entries.mpr hg
  rw [honly] at hmem
  cases List.mem_singleton.mp hmem

/-- **A table takes in exactly what it admits.** -/
theorem add_ok_iff (h : Holding (frame.entries name)) :
    (∃ frame', frame.add name entry = .ok frame') ↔ frame.Admits name entry := by
  rcases entry with v | f
  · show (∃ frame', frame.addVariable name v = .ok frame') ↔ frame.entries name = []
    rw [← binds_eq_false_iff]
    unfold addVariable
    cases frame.binds name with
    | true => simp
    | false => simp
  · have hiff : (∀ v, .variable v ∉ frame.entries name) →
        ((∃ frame', addFunction name f frame = .ok frame') ↔
          ∀ g, .function g ∈ frame.entries name → g.key = f.key →
            g.forward = true ∧ f.forward = false) := by
      intro hvar
      rw [addFunction_ok_iff fun v hv => hvar v (mem_entries.mpr hv)]
      constructor
      · intro hall g hmem hkey
        exact hall g ((function?_eq_some_iff h).mpr ⟨hmem, hkey⟩)
      · intro hall g hg
        obtain ⟨hmem, hkey⟩ := (function?_eq_some_iff h).mp hg
        exact hall g hmem hkey
    constructor
    · intro hok
      obtain ⟨frame', hadd⟩ := hok
      have hvar := not_variable_of_ok h hadd
      exact ⟨hvar, (hiff hvar).mp ⟨frame', hadd⟩⟩
    · intro hadmits
      exact (hiff hadmits.1).mpr hadmits.2

/-- What a table refuses is a conflict. -/
theorem conflict_of_add {d : Defect} (h : frame.add name entry = .error d) :
    d = entry.conflict name := by
  rcases entry with v | f
  · unfold add addVariable at h
    dsimp only at h
    split at h
    · cases h
      rfl
    · cases h
  · exact addFunction_error h

/-- **What one more declaration does to a name**: it is the first, comes last, or takes the place of
    a prototype that it completes. -/
inductive Takes : Entry → List Entry → List Entry → Prop where
  | first (v : Variable) : Takes (.variable v) [] [.variable v]
  | another {f : Signature} {es : List Entry} (hvar : ∀ v, .variable v ∉ es)
      (hnew : ∀ g, .function g ∈ es → g.key ≠ f.key) : Takes (.function f) es (es ++ [.function f])
  | completes {f g : Signature} {front back : List Entry} (hsame : g.key = f.key)
      (hforward : g.forward = true) (hfull : f.forward = false) :
      Takes (.function f) (front ++ .function g :: back) (front ++ .function f :: back)

/-- **One more declaration** changes its own name only. -/
theorem takes_of_add (h : Holding (frame.entries name)) (hadd : frame.add name entry = .ok frame') :
    Takes entry (frame.entries name) (frame'.entries name) ∧
      ∀ x, x ≠ name → frame'.entries x = frame.entries x := by
  rcases entry with v | f
  · unfold add addVariable at hadd
    dsimp only at hadd
    split at hadd
    · cases hadd
    · rename_i hbinds
      cases hadd
      have hnone := binds_eq_false_iff.mp (Bool.eq_false_iff.mpr hbinds)
      constructor
      · rw [entries_append, entries_cons_self, hnone]
        exact .first v
      · intro x hx
        rw [entries_append, entries_cons_of_ne hx]
        exact List.append_nil _
  · have hvar := not_variable_of_ok h hadd
    rcases addFunction_cases hadd with ⟨rfl, hother⟩ | ⟨front, g, back, rfl, rfl, hagree, hg, hf⟩
    · constructor
      · rw [entries_append, entries_cons_self]
        refine .another hvar ?_
        intro g hg hkey
        have hdisagree := hother g (mem_entries.mp hg)
        rw [(Ty.allAgree_iff _ _).mpr hkey] at hdisagree
        cases hdisagree
      · intro x hx
        rw [entries_append, entries_cons_of_ne hx]
        exact List.append_nil _
    · constructor
      · rw [entries_append, entries_append, entries_cons_self, entries_cons_self]
        exact .completes ((Ty.allAgree_iff _ _).mp hagree) hg hf
      · intro x hx
        rw [entries_append, entries_append, entries_cons_of_ne hx, entries_cons_of_ne hx]

/-- What a name is bound to stays in order. -/
theorem Takes.holding {es es' : List Entry} (h : Takes entry es es') (hes : Holding es) :
    Holding es' := by
  cases h with
  | first v => exact .single v
  | @another f _ hvar hnew =>
    cases hes with
    | unbound => exact .functions (List.cons_ne_nil f []) (List.nodup_singleton _)
    | single v => exact absurd List.mem_cons_self (hvar v)
    | @functions fs hsome hapart =>
      have hnodup : ((fs ++ [f]).map Signature.key).Nodup := by
        rw [List.map_append]
        refine List.nodup_append.mpr ⟨hapart, List.nodup_singleton _, ?_⟩
        intro k hk k' hk' heq
        obtain ⟨g, hg, hgk⟩ := List.mem_map.mp hk
        refine hnew g (List.mem_map_of_mem hg) ?_
        rw [hgk, heq]
        exact List.mem_singleton.mp hk'
      have hjoin : (fs ++ [f]).map Entry.function = fs.map Entry.function ++ [.function f] :=
        List.map_append
      rw [← hjoin]
      exact .functions (List.append_ne_nil_of_left_ne_nil hsome _) hnodup
  | @completes f g front back hsame hforward hfull =>
    generalize hold : front ++ Entry.function g :: back = old at hes
    cases hes with
    | unbound => exact absurd hold (List.append_ne_nil_of_right_ne_nil _ (List.cons_ne_nil _ _))
    | single v =>
      have hmem : Entry.function g ∈ [Entry.variable v] := hold ▸ by simp
      cases List.mem_singleton.mp hmem
    | functions hsome hapart =>
      obtain ⟨fs, rest, rfl, rfl, hrest⟩ := List.map_eq_append_iff.mp hold.symm
      obtain ⟨g', gs, rfl, hg', rfl⟩ := List.map_eq_cons_iff.mp hrest
      cases hg'
      have hjoin : (fs ++ f :: gs).map Entry.function =
          fs.map Entry.function ++ .function f :: gs.map Entry.function := by simp
      rw [← hjoin]
      refine .functions (List.append_ne_nil_of_right_ne_nil _ (List.cons_ne_nil _ _)) ?_
      rw [List.map_append, List.map_cons, hsame] at hapart
      rw [List.map_append, List.map_cons]
      exact hapart

/-- What a name is bound to stays bound: variables and definitions as they are, prototypes at
    least by their signature. -/
theorem Takes.keeps {es es' : List Entry} (h : Takes entry es es') :
    (∀ v, .variable v ∈ es → .variable v ∈ es') ∧
      ∀ k, .function k ∈ es →
        ∃ k', .function k' ∈ es' ∧ k'.key = k.key ∧ (k.forward = false → k' = k) := by
  cases h with
  | first v =>
    exact ⟨fun _ hv => absurd hv List.not_mem_nil, fun _ hk => absurd hk List.not_mem_nil⟩
  | another hvar hnew =>
    exact ⟨fun v hv => List.mem_append_left _ hv,
      fun k hk => ⟨k, List.mem_append_left _ hk, rfl, fun _ => rfl⟩⟩
  | @completes f g front back hsame hforward hfull =>
    constructor
    · intro v hv
      simpa using hv
    · intro k hk
      by_cases hkg : k = g
      · -- the prototype gives way to a definition of its signature
        subst hkg
        refine ⟨f, by simp, hsame.symm, ?_⟩
        intro hkfull
        rw [hforward] at hkfull
        cases hkfull
      · have hk' : Entry.function k ∈ front ∨ Entry.function k ∈ back := by
          simpa [hkg] using hk
        refine ⟨k, ?_, rfl, fun _ => rfl⟩
        rcases hk' with hk' | hk'
        · exact List.mem_append_left _ hk'
        · exact List.mem_append_right _ (List.mem_cons_of_mem _ hk')

end Frame

/-! ## 3. A table answers as a list -/

/-- The variables of a name among the declarations, as they came. -/
def variablesOf (log : List (String × Entry)) (name : String) : List Variable :=
  log.filterMap fun b =>
    match b with
    | (n, .variable v) => if n = name then some v else none
    | (_, .function _) => none

/-- The functions of a name and of the parameter types among the declarations, as they came. -/
def functionsOf (log : List (String × Entry)) (name : String) (τs : List Ty) : List Signature :=
  log.filterMap fun b =>
    match b with
    | (n, .function f) => if n = name ∧ f.key = τs.map Ty.identity then some f else none
    | (_, .variable _) => none

/-- **A table records declarations**: it finds the first variable of a name and the last function
    of a signature. -/
structure Records (log : List (String × Entry)) (frame : Frame) : Prop where
  holding : ∀ x, Frame.Holding (frame.entries x)
  var : ∀ x, frame.var? x = (variablesOf log x).head?
  function : ∀ x τs, frame.function? x τs = (functionsOf log x τs).getLast?

namespace Records

variable {log : List (String × Entry)} {frame frame' : Frame} {name : String}

theorem nil : Records [] [] where
  holding _ := .unbound
  var _ := rfl
  function _ _ := rfl

theorem addVariable (h : Records log frame) {v : Variable}
    (hadd : frame.add name (.variable v) = .ok frame') (x : String) :
    frame'.var? x = (variablesOf (log ++ [(name, .variable v)]) x).head? ∧
      ∀ τs, frame'.function? x τs =
        (functionsOf (log ++ [(name, .variable v)]) x τs).getLast? := by
  unfold Frame.add Frame.addVariable at hadd
  dsimp only at hadd
  split at hadd
  · cases hadd
  rename_i hbinds
  cases hadd
  have hnew : frame.binds name = false := Bool.eq_false_iff.mpr hbinds
  constructor
  · rw [Frame.var?_snoc v hnew, variablesOf, List.filterMap_append, List.head?_append]
    have hold : frame.var? x = (variablesOf log x).head? := h.var x
    rw [show List.filterMap _ log = variablesOf log x from rfl, ← hold]
    by_cases hx : x = name
    · subst hx
      rw [if_pos rfl, Frame.var?_eq_none hnew]
      simp
    · simp [hx, Ne.symm hx]
  · intro τs
    have hsame : functionsOf (log ++ [(name, .variable v)]) x τs = functionsOf log x τs := by
      simp [functionsOf]
    rw [hsame, ← h.function]
    unfold Frame.function?
    rw [List.findSome?_append]
    exact Option.or_none

theorem addFunction (h : Records log frame) {f : Signature}
    (hadd : frame.add name (.function f) = .ok frame') (x : String) :
    frame'.var? x = (variablesOf (log ++ [(name, .function f)]) x).head? ∧
      ∀ τs, frame'.function? x τs =
        (functionsOf (log ++ [(name, .function f)]) x τs).getLast? := by
  constructor
  · have hsame : variablesOf (log ++ [(name, .function f)]) x = variablesOf log x := by
      simp [variablesOf]
    rw [hsame, ← h.var]
    exact Frame.var?_addFunction hadd x
  · intro τs
    rw [Frame.function?_addFunction hadd x τs, h.function]
    simp only [Ty.allAgree_iff]
    by_cases hx : name = x ∧ f.params.map Ty.identity = τs.map Ty.identity
    · simp [functionsOf, Signature.key, hx]
    · simp [functionsOf, Signature.key, hx]

/-- **A table that has taken a declaration in** records one more. -/
theorem add (h : Records log frame) {entry : Entry} (hadd : frame.add name entry = .ok frame') :
    Records (log ++ [(name, entry)]) frame' := by
  obtain ⟨htakes, hothers⟩ := Frame.takes_of_add (h.holding name) hadd
  have hanswers : ∀ x, frame'.var? x = (variablesOf (log ++ [(name, entry)]) x).head? ∧
      ∀ τs, frame'.function? x τs = (functionsOf (log ++ [(name, entry)]) x τs).getLast? := by
    intro x
    rcases entry with v | f
    · exact h.addVariable hadd x
    · exact h.addFunction hadd x
  refine ⟨?_, fun x => (hanswers x).1, fun x => (hanswers x).2⟩
  intro x
  by_cases hx : x = name
  · rw [hx]
    exact htakes.holding (h.holding name)
  · rw [hothers x hx]
    exact h.holding x

end Records

/-! ## 4. Scopes inside scopes -/

/-- **The scopes from one out to its root**, where the parent of each scope is given. -/
inductive Chain (parents : List (Option Nat)) : Nat → List Nat → Nat → Prop where
  | root {n : Nat} (h : parents[n]? = some none) : Chain parents n [n] n
  | inside {n p root : Nat} {path : List Nat} (h : parents[n]? = some (some p))
      (hp : Chain parents p path root) : Chain parents n (n :: path) root

theorem Chain.path_eq {parents : List (Option Nat)} {n root : Nat} {path : List Nat}
    (h : Chain parents n path root) : ∃ front, path = front ++ [root] := by
  induction h with
  | root h => exact ⟨[], rfl⟩
  | inside h hp ih =>
    obtain ⟨front, rfl⟩ := ih
    exact ⟨_ :: front, rfl⟩

namespace Forest

variable {forest forest' : Forest} {n : Nat}

/-- The parents of the scopes. -/
def parents (forest : Forest) : List (Option Nat) := forest.trees.map Tree.parent

theorem parent?_eq (forest : Forest) (n : Nat) : forest.parent? n = forest.parents[n]?.join := by
  unfold parent? parents
  rw [List.getElem?_map]
  cases forest.trees[n]? with
  | none => rfl
  | some tree => rfl

/-- Where parents are older, the numbers out to the root are found. -/
theorem chain_ancestors (holder : ∀ n p : Nat, forest.parents[n]? = some (some p) → p < n) :
    ∀ fuel n, n ≤ fuel → n < forest.parents.length →
      ∃ root, Chain forest.parents n (forest.ancestors fuel n) root := by
  intro fuel
  induction fuel with
  | zero =>
    intro n hn hlength
    have hsome := List.getElem?_eq_getElem hlength
    cases hparent : forest.parents[n] with
    | none => exact ⟨n, .root (hsome.trans (congrArg some hparent))⟩
    | some p =>
      have hlt := holder n p (hsome.trans (congrArg some hparent))
      omega
  | succ fuel ih =>
    intro n hn hlength
    have hsome := List.getElem?_eq_getElem hlength
    unfold ancestors
    rw [parent?_eq, hsome]
    cases hparent : forest.parents[n] with
    | none => exact ⟨n, .root (hsome.trans (congrArg some hparent))⟩
    | some p =>
      have hinside := hsome.trans (congrArg some hparent)
      have hlt := holder n p hinside
      obtain ⟨root, hroot⟩ := ih p (by omega) (by omega)
      exact ⟨root, .inside hinside hroot⟩

/-- The scope of a number is its chain of tables. -/
theorem scope_of_chain {root : Nat} (h : Chain forest.parents n (forest.path n) root) :
    (forest.scope n).frames = (forest.path n).map forest.frame ∧
      (forest.scope n).globals = forest.frame root := by
  obtain ⟨front, hpath⟩ := h.path_eq
  have hroot : forest.root n = root := by
    unfold Forest.root
    rw [hpath]
    simp
  unfold Scope.frames Forest.scope
  dsimp only
  rw [hroot, hpath]
  simp

theorem parents_grow (forest : Forest) (parent : Option Nat) :
    (forest.grow parent).2.parents = forest.parents ++ [parent] :=
  List.map_append

/-- A scope that is made declares nothing. -/
theorem frame_grow (forest : Forest) (parent : Option Nat) (n : Nat) :
    (forest.grow parent).2.frame n = forest.frame n := by
  unfold grow frame
  rcases Nat.lt_trichotomy n forest.trees.length with hlt | heq | hgt
  · rw [List.getElem?_append_left hlt]
  · subst heq
    simp
  · rw [List.getElem?_eq_none (by simp; omega), List.getElem?_eq_none (by omega)]

/-- A forest accepts what the table of the number does. -/
theorem add_ok_iff {name : String} {entry : Entry} :
    (∃ forest', forest.add n name entry = .ok forest') ↔
      ∃ frame', (forest.frame n).add name entry = .ok frame' := by
  unfold add
  cases (forest.frame n).add name entry with
  | error d => simp
  | ok frame' => simp

/-- What a forest refuses is a conflict. -/
theorem conflict_of_add {name : String} {entry : Entry} {d : Defect}
    (h : forest.add n name entry = .error d) : d = entry.conflict name := by
  unfold add at h
  split at h
  · rename_i d' hadd
    cases h
    exact Frame.conflict_of_add hadd
  · cases h

/-- One more declaration in a forest is one in the table of its number. -/
theorem add_ok {name : String} {entry : Entry} (h : forest.add n name entry = .ok forest')
    (hn : n < forest.parents.length) :
    (forest.frame n).add name entry = .ok (forest'.frame n) ∧
      (∀ m, m ≠ n → forest'.frame m = forest.frame m) ∧ forest'.parents = forest.parents := by
  have hn : n < forest.trees.length := by simpa [parents] using hn
  unfold Forest.add at h
  split at h
  · cases h
  rename_i frame' hadd
  cases h
  refine ⟨?_, ?_, ?_⟩
  · rw [hadd]
    unfold frame
    simp [List.getElem?_eq_getElem hn]
  · intro m hm
    unfold frame
    simp [hm.symm]
  · unfold parents
    refine List.ext_getElem? fun m => ?_
    rw [List.getElem?_map, List.getElem?_map, List.getElem?_modify]
    cases forest.trees[m]? with
    | none => rfl
    | some tree =>
      by_cases hm : n = m
      · simp [hm]
      · simp [hm]

end Forest

/-! ## 5. Histories -/

/-- What can be asked of the tables. -/
inductive Request where
  | root
  | child (parent : Nat)
  | declare (place : Nat) (name : String) (entry : Entry)

/-- **The tables**, and beside them the parent of each scope that was made and the declarations that
    it accepted, as they came. -/
structure Chronicle where
  forest : Forest := .single
  parents : List (Option Nat) := [none]
  accepted : Nat → List (String × Entry) := fun _ => []

namespace Chronicle

/-- One more scope. -/
def grow (s : Chronicle) (parent : Option Nat) : Chronicle :=
  { s with forest := (s.forest.grow parent).2, parents := s.parents ++ [parent] }

/-- One more declaration, with the tables that have taken it in. -/
def accept (s : Chronicle) (place : Nat) (name : String) (entry : Entry) (forest : Forest) :
    Chronicle :=
  { s with
    forest := forest
    accepted := Function.update s.accepted place (s.accepted place ++ [(name, entry)]) }

/-- What a request does. There is none about a scope that has not been made, and a declaration that
    is refused does nothing. -/
def step (s : Chronicle) : Request → Chronicle
  | .root => s.grow none
  | .child parent => if parent < s.parents.length then s.grow (some parent) else s
  | .declare place name entry =>
      if place < s.parents.length then
        match s.forest.add place name entry with
        | .ok forest => s.accept place name entry forest
        | .error _ => s
      else s

/-- The tables after the requests. -/
def run (requests : List Request) : Chronicle := requests.foldl step {}

/-- **What a request can do**: nothing, make a scope, or add a declaration that is accepted. -/
theorem step_cases (s : Chronicle) (r : Request) :
    s.step r = s ∨
    (∃ parent, (∀ p, parent = some p → p < s.parents.length) ∧ s.step r = s.grow parent) ∨
    ∃ n name entry forest, n < s.parents.length ∧ s.forest.add n name entry = .ok forest ∧
      s.step r = s.accept n name entry forest := by
  cases r with
  | root =>
    refine .inr (.inl ⟨none, ?_, rfl⟩)
    intro p hp
    cases hp
  | child parent =>
    by_cases hparent : parent < s.parents.length
    · refine .inr (.inl ⟨some parent, ?_, if_pos hparent⟩)
      intro p hp
      cases hp
      exact hparent
    · exact .inl (if_neg hparent)
  | declare n name entry =>
    unfold step
    dsimp only
    by_cases hn : n < s.parents.length
    · rw [if_pos hn]
      cases hadd : s.forest.add n name entry with
      | error d => exact .inl rfl
      | ok forest => exact .inr (.inr ⟨n, name, entry, forest, hn, hadd, rfl⟩)
    · exact .inl (if_neg hn)

/-! ## 6. What every history keeps -/

/-- **The tables record what was accepted**, and scopes are inside older ones. -/
structure Sound (s : Chronicle) : Prop where
  parents : s.forest.parents = s.parents
  older : ∀ n p : Nat, s.parents[n]? = some (some p) → p < n
  records : ∀ n, Records (s.accepted n) (s.forest.frame n)

section Steps

variable {s t u : Chronicle}

theorem Sound.start : Sound {} where
  parents := rfl
  older n p hp := by
    cases n with
    | zero => cases hp
    | succ n => cases hp
  records n := by
    have hempty : Forest.single.frame n = [] := Forest.frame_grow ⟨[]⟩ none n
    show Records [] (Forest.single.frame n)
    rw [hempty]
    exact .nil

theorem Sound.grow (h : s.Sound) {parent : Option Nat}
    (hparent : ∀ p, parent = some p → p < s.parents.length) : (s.grow parent).Sound where
  parents := by
    show (s.forest.grow parent).2.parents = s.parents ++ [parent]
    rw [Forest.parents_grow, h.parents]
  older := by
    intro n p hp
    replace hp : (s.parents ++ [parent])[n]? = some (some p) := hp
    rcases Nat.lt_trichotomy n s.parents.length with hlt | heq | hgt
    · rw [List.getElem?_append_left hlt] at hp
      exact h.older n p hp
    · subst heq
      rw [List.getElem?_concat_length, Option.some.injEq] at hp
      exact hparent p hp
    · rw [List.getElem?_eq_none (by simp; omega)] at hp
      cases hp
  records n := (s.forest.frame_grow parent n).symm ▸ h.records n

/-- An accepted declaration changes one name of one scope. -/
theorem Sound.changed (h : s.Sound) {n : Nat} {name : String} {entry : Entry} {forest : Forest}
    (hn : n < s.parents.length) (hadd : s.forest.add n name entry = .ok forest) :
    Frame.Takes entry ((s.forest.frame n).entries name) ((forest.frame n).entries name) ∧
      ∀ m x, ¬ (m = n ∧ x = name) → (forest.frame m).entries x = (s.forest.frame m).entries x := by
  obtain ⟨hframe, hothers, -⟩ := Forest.add_ok hadd (h.parents ▸ hn)
  obtain ⟨htakes, hsame⟩ := Frame.takes_of_add ((h.records n).holding name) hframe
  refine ⟨htakes, ?_⟩
  intro m x hmx
  by_cases hm : m = n
  · subst hm
    exact hsame x fun hx => hmx ⟨rfl, hx⟩
  · rw [hothers m hm]

theorem Sound.accept (h : s.Sound) {n : Nat} {name : String} {entry : Entry} {forest : Forest}
    (hn : n < s.parents.length) (hadd : s.forest.add n name entry = .ok forest) :
    (s.accept n name entry forest).Sound := by
  obtain ⟨hframe, hothers, hparents⟩ := Forest.add_ok hadd (h.parents ▸ hn)
  refine ⟨hparents.trans h.parents, h.older, ?_⟩
  intro m
  unfold Chronicle.accept
  dsimp only
  by_cases hm : m = n
  · rw [hm, Function.update_self]
    exact (h.records n).add hframe
  · rw [Function.update_of_ne hm, hothers m hm]
    exact h.records m

/-- A request keeps the tables sound. -/
theorem Sound.step (h : s.Sound) (r : Request) : (s.step r).Sound := by
  rcases s.step_cases r with hnone | ⟨parent, hparent, hgrown⟩ |
    ⟨n, name, entry, forest, hn, hadd, haccepted⟩
  · rw [hnone]
    exact h
  · rw [hgrown]
    exact h.grow hparent
  · rw [haccepted]
    exact h.accept hn hadd

theorem Sound.foldl : ∀ (requests : List Request) {s : Chronicle}, s.Sound →
    (requests.foldl Chronicle.step s).Sound
  | [], _, h => h
  | r :: requests, _, h => Sound.foldl requests (h.step r)

/-- **In every history the tables are sound.** -/
theorem Sound.run (requests : List Request) : (run requests).Sound := .foldl requests .start

/-- **What is bound stays bound**: variables and definitions as they are, prototypes at least by
    their signature. And scopes stay where they are. -/
structure Extends (s t : Chronicle) : Prop where
  parents : s.parents <+: t.parents
  singles : ∀ n x v, .variable v ∈ (s.forest.frame n).entries x →
    .variable v ∈ (t.forest.frame n).entries x
  functions : ∀ n x f, .function f ∈ (s.forest.frame n).entries x →
    ∃ g, .function g ∈ (t.forest.frame n).entries x ∧ g.key = f.key ∧
      (f.forward = false → g = f)

theorem Extends.refl (s : Chronicle) : s.Extends s where
  parents := List.prefix_refl _
  singles _ _ _ hv := hv
  functions _ _ f hf := ⟨f, hf, rfl, fun _ => rfl⟩

theorem Extends.trans (h : s.Extends t) (h' : t.Extends u) : s.Extends u where
  parents := h.parents.trans h'.parents
  singles n x v hv := h'.singles n x v (h.singles n x v hv)
  functions := by
    intro n x f hf
    obtain ⟨g, hg, hkey, hfull⟩ := h.functions n x f hf
    obtain ⟨k, hk, hkey', hfull'⟩ := h'.functions n x g hg
    refine ⟨k, hk, hkey'.trans hkey, ?_⟩
    intro hf
    have hgf := hfull hf
    subst hgf
    exact hfull' hf

theorem Extends.grow (s : Chronicle) (parent : Option Nat) : s.Extends (s.grow parent) where
  parents := List.prefix_append _ _
  singles n _ _ hv := (s.forest.frame_grow parent n).symm ▸ hv
  functions n _ f hf := ⟨f, (s.forest.frame_grow parent n).symm ▸ hf, rfl, fun _ => rfl⟩

theorem Extends.accept (h : s.Sound) {n : Nat} {name : String} {entry : Entry} {forest : Forest}
    (hn : n < s.parents.length) (hadd : s.forest.add n name entry = .ok forest) :
    s.Extends (s.accept n name entry forest) := by
  obtain ⟨htakes, helse⟩ := h.changed hn hadd
  obtain ⟨hvariables, hfunctions⟩ := htakes.keeps
  refine ⟨List.prefix_refl _, ?_, ?_⟩
  · intro m x v hv
    by_cases hmx : m = n ∧ x = name
    · obtain ⟨rfl, rfl⟩ := hmx
      exact hvariables v hv
    · exact (helse m x hmx).symm ▸ hv
  · intro m x f hf
    by_cases hmx : m = n ∧ x = name
    · obtain ⟨rfl, rfl⟩ := hmx
      exact hfunctions f hf
    · exact ⟨f, (helse m x hmx).symm ▸ hf, rfl, fun _ => rfl⟩

/-- A request unbinds nothing. -/
theorem Extends.step (h : s.Sound) (r : Request) : s.Extends (s.step r) := by
  rcases s.step_cases r with hnone | ⟨parent, -, hgrown⟩ |
    ⟨n, name, entry, forest, hn, hadd, haccepted⟩
  · rw [hnone]
    exact .refl s
  · rw [hgrown]
    exact .grow s parent
  · rw [haccepted]
    exact .accept h hn hadd

theorem Extends.foldl : ∀ (more : List Request) {s : Chronicle}, s.Sound →
    s.Extends (more.foldl Chronicle.step s)
  | [], s, _ => .refl s
  | r :: more, _, h => (Extends.step h r).trans (Extends.foldl more (h.step r))

/-- **Longer histories unbind nothing.** -/
theorem Extends.run (requests more : List Request) :
    (run requests).Extends (run (requests ++ more)) := by
  have hjoin : Chronicle.run (requests ++ more) =
      more.foldl Chronicle.step (Chronicle.run requests) := List.foldl_append
  rw [hjoin]
  exact .foldl more (.run requests)

end Steps

/-! ## 7. The answers -/

/-- **The tables refine the declarations.**

    * `holding`: a name is bound to nothing, one variable, or functions that are told apart;
    * `accepts`: a declaration is accepted exactly if it is admitted;
    * `refused`: a declaration that is not is a conflict, and changes nothing;
    * `changed`: one that is accepted changes one name of one scope;
    * `here`, `lookups`: a variable is the first one that was accepted, in a scope or in the nearest
      one out to the root that has any, and a function the last one of its signature in the root. -/
structure Faithful (s : Chronicle) : Prop where
  holding : ∀ n x, Frame.Holding ((s.forest.frame n).entries x)
  accepts : ∀ n x e, (∃ forest, s.forest.add n x e = .ok forest) ↔
    (s.forest.frame n).Admits x e
  refused : ∀ n x e d, s.forest.add n x e = .error d →
    d = e.conflict x ∧ s.step (.declare n x e) = s
  changed : ∀ n x e forest, n < s.parents.length → s.forest.add n x e = .ok forest →
    Frame.Takes e ((s.forest.frame n).entries x) ((forest.frame n).entries x) ∧
      ∀ m y, ¬ (m = n ∧ y = x) → (forest.frame m).entries y = (s.forest.frame m).entries y
  here : ∀ n x, (s.forest.frame n).var? x = (variablesOf (s.accepted n) x).head?
  lookups : ∀ n, n < s.parents.length → ∃ path root, Chain s.parents n path root ∧
    (∀ x, (s.forest.scope n).var? x =
      path.findSome? fun m => (variablesOf (s.accepted m) x).head?) ∧
    ∀ x τs, (s.forest.scope n).function? x τs = (functionsOf (s.accepted root) x τs).getLast?

/-- The lookups in sound tables. -/
theorem Sound.lookups {s : Chronicle} (h : s.Sound) {n : Nat} (hn : n < s.parents.length) :
    ∃ path root, Chain s.parents n path root ∧
      (∀ x, (s.forest.scope n).var? x =
        path.findSome? fun m => (variablesOf (s.accepted m) x).head?) ∧
      ∀ x τs, (s.forest.scope n).function? x τs =
        (functionsOf (s.accepted root) x τs).getLast? := by
  have holder := h.older
  rw [← h.parents] at holder hn ⊢
  obtain ⟨root, hchain⟩ := Forest.chain_ancestors holder n n (Nat.le_refl n) hn
  obtain ⟨hframes, hglobals⟩ := Forest.scope_of_chain hchain
  refine ⟨s.forest.path n, root, hchain, ?_, ?_⟩
  · intro x
    unfold Scope.var?
    rw [hframes, List.findSome?_map]
    exact congrArg (List.findSome? · _) (funext fun m => (h.records m).var x)
  · intro x τs
    unfold Scope.function?
    rw [hglobals]
    exact (h.records root).function x τs

end Chronicle

/-- **Symbol tables refine the declarations that they accepted**, in every history of scopes and of
    declarations, refused ones included; and nothing that was bound is unbound later, nor is a
    definition or a variable ever replaced. -/
theorem tables_refine_declarations (requests more : List Request) :
    (Chronicle.run requests).Faithful ∧
      (Chronicle.run requests).Extends (Chronicle.run (requests ++ more)) := by
  have hsound := Chronicle.Sound.run requests
  refine ⟨?_, Chronicle.Extends.run requests more⟩
  generalize Chronicle.run requests = s at hsound
  constructor
  case holding => exact fun n => (hsound.records n).holding
  case accepts =>
    intro n x e
    rw [Forest.add_ok_iff]
    exact Frame.add_ok_iff ((hsound.records n).holding x)
  case refused =>
    intro n x e d hadd
    refine ⟨Forest.conflict_of_add hadd, ?_⟩
    unfold Chronicle.step
    dsimp only
    rw [hadd]
    exact ite_self s
  case changed => exact fun n x e forest hn hadd => hsound.changed hn hadd
  case here => exact fun n => (hsound.records n).var
  case lookups => exact fun n hn => hsound.lookups hn

end CMinusMinus
