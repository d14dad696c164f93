/-
  File:      CMinusMinus/Proofs/Tables.lean
  Subject:   Symbol tables reflect the declarations of the source.

  A table takes declarations in one after the other. A definition takes the place of its prototype;
  names are looked for from the front. A table REFLECTS a list of declarations when it gives the
  same answers as the list does under the law. It takes in exactly the declarations that are
  admissible after the list, and goes on to reflect the longer list.

  * `Frame.function?_addFunction`, `Frame.addFunction_ok_iff` -- functions in a table;
  * `Reflects` -- a table gives the answers of a list;
  * `Reflects.addVariable_ok_iff`, `Reflects.addFunction_ok_iff` -- what is taken in;
  * `Reflects.addVariable`, `Reflects.addFunction` -- the table after it.
-/
import CMinusMinus.Proofs.Execution
import CMinusMinus.Proofs.Law

namespace CMinusMinus

/-! ## 1. What a table finds -/

namespace Frame

variable {name : String} {f : Signature}

theorem function?_cons (n : String) (e : Entry) (frame : Frame) (x : String) (τs : List Ty) :
    Frame.function? ((n, e) :: frame) x τs =
      match e with
      | .function g =>
          if n = x ∧ Ty.allAgree g.params τs = true then some g else frame.function? x τs
      | .variable _ => frame.function? x τs := by
  unfold Frame.function?
  rw [List.findSome?_cons]
  rcases e with v | g
  · rfl
  · by_cases h : n = x ∧ Ty.allAgree g.params τs = true
    · simp [h]
    · have hno : (decide (n = x) && Ty.allAgree g.params τs) = false := by simpa using h
      simp [h, hno]

/-- A function that is taken in is found from then on, and nothing else changes. -/
theorem function?_addFunction : ∀ {frame frame' : Frame},
    Frame.addFunction name f frame = .ok frame' → ∀ x τs, frame'.function? x τs =
      if name = x ∧ Ty.allAgree f.params τs = true then some f else frame.function? x τs
  | [], _, h, x, τs => by
      cases h
      exact function?_cons name (.function f) [] x τs
  | (n, e) :: rest, frame', h, x, τs => by
      -- past an entry of another signature
      have hpast : (∀ g, e = .function g → n = name → Ty.allAgree g.params f.params = false) →
          (Frame.addFunction name f rest).map ((n, e) :: ·) = .ok frame' → frame'.function? x τs =
            if name = x ∧ Ty.allAgree f.params τs = true then some f
            else Frame.function? ((n, e) :: rest) x τs := by
        intro hother hmap
        cases hrest : Frame.addFunction name f rest with
        | error d => rw [hrest] at hmap; cases hmap
        | ok rest' =>
          rw [hrest] at hmap
          cases hmap
          have ih := function?_addFunction hrest x τs
          rw [function?_cons, function?_cons, ih]
          rcases e with v | g
          · rfl
          · by_cases hg : n = x ∧ Ty.allAgree g.params τs = true
            · -- this entry answers, so the new function does not
              have hf : ¬ (name = x ∧ Ty.allAgree f.params τs = true) := by
                intro hf
                have hsame : Ty.allAgree g.params f.params = true :=
                  (Ty.allAgree_iff _ _).mpr
                    (((Ty.allAgree_iff _ _).mp hg.2).trans ((Ty.allAgree_iff _ _).mp hf.2).symm)
                rw [hother g rfl (hg.1.trans hf.1.symm)] at hsame
                cases hsame
              simp only [hg, hf, and_self, if_true, if_false]
            · simp only [hg, if_false]
      unfold Frame.addFunction at h
      split at h
      · rename_i hname
        split at h
        · cases h
        · rename_i g
          split at h
          · rename_i hagree
            split at h
            · cases h
              -- the prototype answered where the definition does now
              have hsame : Ty.allAgree g.params τs = true ↔ Ty.allAgree f.params τs = true := by
                rw [Ty.allAgree_iff, Ty.allAgree_iff, (Ty.allAgree_iff _ _).mp hagree]
              rw [function?_cons, function?_cons, ← hname]
              simp only [hsame]
              split <;> rfl
            · cases h
          · rename_i hagree
            refine hpast (fun k hk _ => ?_) h
            cases hk
            exact Bool.eq_false_iff.mpr hagree
      · rename_i hname
        exact hpast (fun _ _ hn => absurd hn hname) h

/-- A function is taken in, where no variable has its name, exactly if the one of its signature
    is a prototype that it completes. -/
theorem addFunction_ok_iff : ∀ {frame : Frame}, (∀ v, (name, .variable v) ∉ frame) →
    ((∃ frame', Frame.addFunction name f frame = .ok frame') ↔
      ∀ g, frame.function? name f.params = some g → g.forward = true ∧ f.forward = false)
  | [], _ => by simp [Frame.addFunction, Frame.function?]
  | (n, e) :: rest, hvar => by
      have hrest : ∀ v, (name, Entry.variable v) ∉ rest := fun v hv =>
        hvar v (List.mem_cons_of_mem _ hv)
      have ih := addFunction_ok_iff hrest
      have hpast : (∃ frame', (Frame.addFunction name f rest).map ((n, e) :: ·) = .ok frame') ↔
          ∃ frame', Frame.addFunction name f rest = .ok frame' := by
        cases Frame.addFunction name f rest <;> simp [Except.map]
      unfold Frame.addFunction
      rw [function?_cons]
      split
      · rename_i hname
        rcases e with v | g
        · exact absurd (hname ▸ List.mem_cons_self) (hvar v)
        · by_cases hagree : Ty.allAgree g.params f.params = true
          · simp only [hagree, if_true, hname, and_self, Option.some.injEq, forall_eq']
            split
            · rename_i hforward
              simpa using hforward
            · rename_i hforward
              simpa using hforward
          · simp only [hagree, Bool.false_eq_true, and_false, if_false]
            exact hpast.trans ih
      · rename_i hname
        rcases e with v | g
        · exact hpast.trans ih
        · simp only [hname, false_and, if_false]
          exact hpast.trans ih

/-- A table that takes a function in has no variable of its name, if it has no function. -/
theorem not_variable_of_addFunction : ∀ {frame frame' : Frame},
    Frame.addFunction name f frame = .ok frame' → (∀ g, (name, .function g) ∉ frame) →
      ∀ v, (name, .variable v) ∉ frame
  | [], _, _, _ => fun _ h => absurd h List.not_mem_nil
  | (n, e) :: rest, frame', h, hfn => by
      have hrest : n ≠ name → ∀ v, (name, .variable v) ∉ rest := by
        intro hname
        unfold Frame.addFunction at h
        rw [if_neg hname] at h
        cases hadd : Frame.addFunction name f rest with
        | error d => rw [hadd] at h; cases h
        | ok rest' =>
          exact not_variable_of_addFunction hadd fun g hg => hfn g (List.mem_cons_of_mem _ hg)
      intro v hv
      by_cases hname : n = name
      · rcases e with w | g
        · unfold Frame.addFunction at h
          rw [if_pos hname] at h
          cases h
        · exact hfn g (hname ▸ List.mem_cons_self)
      · rcases List.mem_cons.mp hv with heq | hv
        · exact hname (Prod.mk.inj heq).1.symm
        · exact hrest hname v hv

theorem binds_addFunction {frame frame' : Frame} (h : Frame.addFunction name f frame = .ok frame')
    (x : String) : frame'.binds x = true ↔ frame.binds x = true ∨ name = x := by
  rcases Frame.addFunction_cases h with ⟨hnew, -⟩ | ⟨front, g, back, hold, hnew, -⟩
  · simp [hnew, Frame.binds]
  · simp only [hold, hnew, Frame.binds, List.any_append, List.any_cons, Bool.or_eq_true,
      beq_iff_eq]
    exact ⟨.inl, fun hor => hor.elim id fun hx => .inr (.inl hx)⟩

/-- A table has a variable of a name exactly if it finds one. -/
theorem exists_var?_iff {frame : Frame} {x : String} :
    (∃ v, frame.var? x = some v) ↔ ∃ v, (x, .variable v) ∈ frame := by
  constructor
  · intro ⟨v, hv⟩
    obtain ⟨⟨n, e⟩, hb, hf⟩ := List.exists_of_findSome?_eq_some hv
    rcases e with w | g
    · dsimp only at hf
      split at hf
      · rename_i hn
        exact ⟨w, hn ▸ hb⟩
      · cases hf
    · cases hf
  · intro ⟨v, hv⟩
    rw [← Option.isSome_iff_exists]
    exact List.findSome?_isSome_iff.mpr ⟨_, hv, by simp⟩

end Frame

/-! ## 2. What a declaration says -/

theorem Decl.Binds.name? {x : String} {τ : Ty} {d : Decl} (h : d.Binds x τ) :
    d.name? = some x := by
  cases h <;> rfl

theorem Decl.Binds.unique {x y : String} {τ σ : Ty} {d : Decl} (h : d.Binds x τ)
    (h' : d.Binds y σ) : x = y ∧ τ = σ := by
  cases h <;> cases h' <;> exact ⟨rfl, rfl⟩

theorem Decl.Binds.signature? {x : String} {τ : Ty} {d : Decl} (h : d.Binds x τ) :
    d.signature? = none := by
  cases h <;> rfl

theorem Decl.not_binds_of_signature? {d : Decl} {b : String × Signature}
    (h : d.signature? = some b) (x : String) (τ : Ty) : ¬ d.Binds x τ := by
  intro hx
  rw [hx.signature?] at h
  cases h

theorem Decl.name?_of_signature? {d : Decl} {name : String} {f : Signature}
    (h : d.signature? = some (name, f)) : d.name? = some name := by
  cases d <;> simp only [Decl.signature?, Option.some.injEq, Prod.mk.injEq, reduceCtorEq] at h
  · exact congrArg some h.1
  · exact congrArg some h.1

theorem exists_mem_snoc {α : Type} {P : α → Prop} {as : List α} {a : α} :
    (∃ b ∈ as ++ [a], P b) ↔ (∃ b ∈ as, P b) ∨ P a := by
  simp [or_and_right, exists_or]

/-- The function that a call means, after one more declaration. -/
theorem resolves_snoc {ds : List Decl} {d : Decl} {name : String} {τs : List Ty} {f : Signature} :
    Resolves (ds ++ [d]) name τs f ↔
      d.Offers name τs f ∨ (∀ g, ¬ d.Offers name τs g) ∧ Resolves ds name τs f := by
  constructor
  · intro ⟨before, e, after, hds, he, hlast⟩
    rcases List.eq_nil_or_concat after with rfl | ⟨after, e', rfl⟩
    · have hd := (List.append_inj' hds rfl).2
      exact .inl (List.singleton_inj.mp hd ▸ he)
    · rw [List.concat_eq_append] at hds hlast
      have hsplit : ds ++ [d] = (before ++ e :: after) ++ [e'] := by simpa using hds
      obtain ⟨hinit, hend⟩ := List.append_inj' hsplit rfl
      rw [List.singleton_inj.mp hend]
      refine .inr ⟨hlast e' (by simp), before, e, after, hinit, he, fun d' hd' => ?_⟩
      exact hlast d' (List.mem_append_left _ hd')
  · intro h
    rcases h with hd | ⟨hd, before, e, after, hds, he, hlast⟩
    · exact ⟨ds, d, [], rfl, hd, fun _ h => absurd h List.not_mem_nil⟩
    · refine ⟨before, e, after ++ [d], by simp [hds], he, fun d' hd' => ?_⟩
      rcases List.mem_append.mp hd' with hd' | hd'
      · exact hlast d' hd'
      · exact List.mem_singleton.mp hd' ▸ hd

/-- What is offered is resolved: by the last one that offers it. -/
theorem exists_resolves {name : String} {τs : List Ty} : ∀ {ds : List Decl},
    (∃ d ∈ ds, ∃ g, d.Offers name τs g) → ∃ f, Resolves ds name τs f
  | [], h => by
      obtain ⟨d, hd, -⟩ := h
      exact absurd hd List.not_mem_nil
  | e :: ds, h => by
      by_cases hlater : ∃ d ∈ ds, ∃ g, d.Offers name τs g
      · obtain ⟨f, before, d, after, hds, hrest⟩ := exists_resolves hlater
        exact ⟨f, e :: before, d, after, congrArg (e :: ·) hds, hrest⟩
      · obtain ⟨d, hd, g, hg⟩ := h
        rcases List.mem_cons.mp hd with rfl | hd
        · exact ⟨g, [], d, ds, rfl, hg, fun d' hd' k hk => hlater ⟨d', hd', k, hk⟩⟩
        · exact absurd ⟨d, hd, g, hg⟩ hlater

theorem Resolves.offered {name : String} {τs : List Ty} {ds : List Decl} {f : Signature}
    (h : Resolves ds name τs f) : ∃ d ∈ ds, d.Offers name τs f := by
  obtain ⟨before, d, after, rfl, hd, -⟩ := h
  exact ⟨d, by simp, hd⟩

/-! ## 3. Tables reflect declarations -/

/-- **A table reflects declarations**: it gives the same answers. -/
structure Reflects (ds : List Decl) (frame : Frame) : Prop where
  name : ∀ x, frame.binds x = true ↔ ∃ d ∈ ds, d.name? = some x
  var : ∀ x τ, (∃ v, frame.var? x = some v ∧ v.ty = τ) ↔ ∃ d ∈ ds, d.Binds x τ
  function : ∀ x τs f, frame.function? x τs = some f ↔ Resolves ds x τs f
  /-- What a definition completes is defined for good. -/
  defined : ∀ x τs, (∃ f, frame.function? x τs = some f ∧ f.forward = false) ↔
    ∃ d ∈ ds, ∃ g, d.Offers x τs g ∧ g.forward = false
  /-- No name is a variable and a function. -/
  apart : ∀ x v g, (x, .variable v) ∈ frame → (x, .function g) ∉ frame

namespace Reflects

variable {ds : List Decl} {frame frame' : Frame}

theorem nil : Reflects [] [] where
  name x := by simp [Frame.binds]
  var x τ := by simp [Frame.var?]
  function x τs f := by simp [Frame.function?, Resolves]
  defined x τs := by simp [Frame.function?]
  apart x v g h := absurd h List.not_mem_nil

/-- A table takes a variable in exactly if its name is new. -/
theorem addVariable_ok_iff (h : Reflects ds frame) (x : String) (v : Variable) :
    (∃ frame', frame.addVariable x v = .ok frame') ↔ ∀ d ∈ ds, d.name? ≠ some x := by
  unfold Frame.addVariable
  by_cases hx : frame.binds x = true
  · rw [if_pos hx]
    obtain ⟨d, hd, hname⟩ := (h.name x).mp hx
    exact ⟨fun ⟨_, hok⟩ => (nomatch hok), fun hall => absurd hname (hall d hd)⟩
  · rw [if_neg hx]
    exact ⟨fun _ d hd hname => hx ((h.name x).mpr ⟨d, hd, hname⟩), fun _ => ⟨_, rfl⟩⟩

/-- A table that has taken a variable in. -/
theorem addVariable (h : Reflects ds frame) {d : Decl} {x : String} {τ : Ty} (hd : d.Binds x τ)
    (hadd : frame.addVariable x { ty := τ } = .ok frame') : Reflects (ds ++ [d]) frame' := by
  unfold Frame.addVariable at hadd
  by_cases hx : frame.binds x = true
  · rw [if_pos hx] at hadd
    cases hadd
  rw [if_neg hx] at hadd
  cases hadd
  have hnew : frame.binds x = false := Bool.eq_false_iff.mpr hx
  have hfn : ∀ y τs, Frame.function? (frame ++ [(x, .variable { ty := τ })]) y τs =
      frame.function? y τs := fun y τs => by
    unfold Frame.function?
    rw [List.findSome?_append]
    exact Option.or_none
  have hno : ∀ y τs f, ¬ d.Offers y τs f := fun y τs f hf => by
    rw [Decl.Offers, hd.signature?] at hf
    cases hf.1
  refine ⟨fun y => ?_, fun y σ => ?_, fun y τs f => ?_, fun y τs => ?_, fun y v g hv hg => ?_⟩
  · have hold := h.name y
    simp only [Frame.binds, List.any_append, List.any_cons, List.any_nil, Bool.or_false,
      Bool.or_eq_true, beq_iff_eq, exists_mem_snoc, hd.name?, Option.some.injEq] at hold ⊢
    rw [hold]
  · rw [Frame.var?_snoc _ hnew, exists_mem_snoc, ← h.var y σ]
    by_cases hy : y = x
    · subst hy
      rw [if_pos rfl, Frame.var?_eq_none hnew]
      constructor
      · intro hfound
        obtain ⟨v, hv, hσ⟩ := hfound
        cases hv
        exact .inr (hσ ▸ hd)
      · intro hor
        rcases hor with ⟨v, hv, -⟩ | hσ
        · cases hv
        · exact ⟨_, rfl, (hd.unique hσ).2⟩
    · rw [if_neg hy]
      exact ⟨.inl, fun hor => hor.elim id fun hσ => absurd (hσ.unique hd).1 hy⟩
  · rw [hfn, resolves_snoc, h.function]
    exact ⟨fun hold => .inr ⟨hno y τs, hold⟩,
      fun hnew => hnew.elim (absurd · (hno y τs f)) And.right⟩
  · simp only [hfn, h.defined, exists_mem_snoc, hno, false_and, exists_false, or_false]
  · rcases List.mem_append.mp hv with hv | hv
    · rcases List.mem_append.mp hg with hg | hg
      · exact h.apart y v g hv hg
      · cases List.mem_singleton.mp hg
    · rcases List.mem_append.mp hg with hg | hg
      · cases List.mem_singleton.mp hv
        rw [Frame.binds, List.any_eq_false] at hnew
        exact hnew _ hg (beq_self_eq_true x)
      · cases List.mem_singleton.mp hg

/-- No variable of a table has the name of a function that is admissible. -/
theorem not_variable (h : Reflects ds frame) {x : String} (hno : ∀ d ∈ ds, ∀ τ, ¬ d.Binds x τ)
    (v : Variable) : (x, .variable v) ∉ frame := by
  intro hv
  obtain ⟨w, hw⟩ := Frame.exists_var?_iff.mpr ⟨v, hv⟩
  obtain ⟨d, hd, hbinds⟩ := (h.var x w.ty).mp ⟨w, hw, rfl⟩
  exact hno d hd w.ty hbinds

/-- A table takes a function in exactly if it is admissible. -/
theorem addFunction_ok_iff (h : Reflects ds frame) (x : String) (f : Signature) :
    (∃ frame', Frame.addFunction x f frame = .ok frame') ↔ ∀ d ∈ ds, (∀ τ, ¬ d.Binds x τ) ∧
      ∀ g, d.Offers x f.params g → g.forward = true ∧ f.forward = false := by
  constructor
  · intro hok d hd
    have hvar : ∀ v, (x, .variable v) ∉ frame := by
      by_cases hfn : ∃ g, (x, .function g) ∈ frame
      · obtain ⟨g, hg⟩ := hfn
        exact fun v hv => h.apart x v g hv hg
      · obtain ⟨frame', hadd⟩ := hok
        exact Frame.not_variable_of_addFunction hadd fun g hg => hfn ⟨g, hg⟩
    refine ⟨fun τ hτ => ?_, fun g hg => ?_⟩
    · obtain ⟨v, hv, -⟩ := (h.var x τ).mpr ⟨d, hd, hτ⟩
      obtain ⟨w, hw⟩ := Frame.exists_var?_iff.mp ⟨v, hv⟩
      exact hvar w hw
    · obtain ⟨k, hk⟩ := exists_resolves ⟨d, hd, g, hg⟩
      obtain ⟨hforward, hdefinition⟩ := (Frame.addFunction_ok_iff hvar).mp hok k
        ((h.function x f.params k).mpr hk)
      refine ⟨?_, hdefinition⟩
      cases hg' : g.forward with
      | true => rfl
      | false =>
        -- a definition before this one would be in the table still
        obtain ⟨k', hk', hcompleted⟩ := (h.defined x f.params).mpr ⟨d, hd, g, hg, hg'⟩
        rw [(h.function x f.params k).mpr hk] at hk'
        cases hk'
        exact hcompleted.symm.trans hforward
  · intro hall
    refine (Frame.addFunction_ok_iff (h.not_variable fun d hd => (hall d hd).1)).mpr fun g hg => ?_
    obtain ⟨d, hd, hoffers⟩ := ((h.function x f.params g).mp hg).offered
    exact (hall d hd).2 g hoffers

/-- A table that has taken a function in. -/
theorem addFunction (h : Reflects ds frame) {d : Decl} {x : String} {f : Signature}
    (hd : d.signature? = some (x, f)) (hadm : d.Admissible ds)
    (hadd : Frame.addFunction x f frame = .ok frame') : Reflects (ds ++ [d]) frame' := by
  have hfn := Frame.function?_addFunction hadd
  have hoffers : ∀ y τs g, d.Offers y τs g ↔
      (x = y ∧ Ty.allAgree f.params τs = true) ∧ f = g := by
    intro y τs g
    simp only [Decl.Offers, hd, Option.some.injEq, Prod.mk.injEq, Ty.allAgree_iff]
    constructor
    · intro ⟨⟨hy, hg⟩, hsame⟩
      exact ⟨⟨hy, hg ▸ hsame⟩, hg⟩
    · intro ⟨⟨hy, hsame⟩, hg⟩
      exact ⟨⟨hy, hg⟩, hg ▸ hsame⟩
  refine ⟨fun y => ?_, fun y σ => ?_, fun y τs g => ?_, fun y τs => ?_, fun y v g hv hg => ?_⟩
  · rw [Frame.binds_addFunction hadd, h.name, exists_mem_snoc, Decl.name?_of_signature? hd,
      Option.some.injEq]
  · rw [Frame.var?_addFunction hadd, h.var, exists_mem_snoc]
    exact ⟨.inl, fun hor => hor.elim id fun hσ => absurd hσ (Decl.not_binds_of_signature? hd y σ)⟩
  · rw [hfn, resolves_snoc, ← h.function]
    simp only [hoffers]
    by_cases hy : x = y ∧ Ty.allAgree f.params τs = true
    · simp [hy]
    · simp [hy]
  · simp only [hfn, exists_mem_snoc, hoffers]
    by_cases hy : x = y ∧ Ty.allAgree f.params τs = true
    · -- by admissibility only prototypes of the signature stand before
      have hnone : ¬ ∃ d' ∈ ds, ∃ g, d'.Offers y τs g ∧ g.forward = false := by
        intro ⟨d', hd', g, hg, hdefined⟩
        have hsame : d'.Offers x f.params g :=
          ⟨hy.1 ▸ hg.1, hg.2.trans ((Ty.allAgree_iff _ _).mp hy.2).symm⟩
        have hforward := (((hadm.completes x f hd) d' hd').2 g hsame).1
        rw [hdefined] at hforward
        cases hforward
      simp [hy, hnone]
    · simp only [hy, if_false, false_and, exists_false, or_false]
      exact h.defined y τs
  · have hmem : ∀ b ∈ frame', b ∈ frame ∨ b = (x, .function f) := Frame.mem_of_add hadd
    have hv' : (y, .variable v) ∈ frame := (hmem _ hv).resolve_right (by simp)
    rcases hmem _ hg with hg | hg
    · exact h.apart y v g hv' hg
    · cases hg
      exact h.not_variable (fun d' hd' => (hadm.completes _ _ hd d' hd').1) v hv'

end Reflects

end CMinusMinus
