/-
  File:      CMinusMinus/Proofs/WrittenFiles.lean
  Subject:   Writing a file changes this file and nothing else.

  A path leads to a place in the tree, by way of directories. A file that is written stands where its
  path leads, and the path leads there still. At every other place there stands what stood there
  before: the directory that the file is in was a directory already, so none comes into being.

  * `Files.node?_put_self`, `Files.node?_put_of_ne` -- what stands at a place afterwards;
  * `Files.target_ok` -- where the path of an output file leads;
  * `Files.Wrote`, `Files.wrote_of_write` -- **one file is written.**
-/
import CMinusMinus.Files
import Mathlib.Data.List.Basic

namespace CMinusMinus

namespace Files

variable {files files' : Files} {names front : List String} {bytes : List UInt8}

/-! ## 1. What stands at a place -/

theorem lookup_cons_ite (key n : List String) (node : Node) (entries : List (List String × Node)) :
    ((n, node) :: entries).lookup key = if key = n then some node else entries.lookup key := by
  by_cases h : key = n
  · simp [h]
  · simp [List.lookup_cons, h, beq_eq_false_iff_ne.mpr h]

/-- An entry that is replaced is found with its new node. -/
theorem lookup_replace (names : List String) (node : Node) (key : List String) :
    ∀ entries : List (List String × Node),
      (entries.map fun e => if e.1 = names then (names, node) else e).lookup key =
        if key = names ∧ (entries.lookup names).isSome then some node else entries.lookup key
  | [] => by simp
  | (n, old) :: entries => by
      have ih := lookup_replace names node key entries
      rw [List.map_cons, lookup_cons_ite, lookup_cons_ite]
      by_cases hn : n = names
      · subst hn
        rw [if_pos rfl, lookup_cons_ite, ih]
        grind
      · rw [if_neg hn, lookup_cons_ite, ih]
        grind

/-- The entries after a file got new bytes. -/
theorem lookup_put (files : Files) (names : List String) (bytes : List UInt8) (key : List String) :
    (files.put names bytes).entries.lookup key =
      if key = names then some (.file bytes) else files.entries.lookup key := by
  unfold put
  split
  · rename_i hsome
    rw [lookup_replace, hsome]
    simp
  · rename_i hnone
    rw [Option.not_isSome_iff_eq_none] at hnone
    rw [List.lookup_append, lookup_cons_ite]
    by_cases hkey : key = names
    · rw [if_pos hkey, hkey, hnone]
      simp
    · simp [hkey]

/-- Something is listed at the names or below them. -/
def Lists (files : Files) (front : List String) : Prop := ∃ e ∈ files.entries, front <+: e.1

theorem any_iff_lists :
    (files.entries.any fun e => front.isPrefixOf e.1) = true ↔ files.Lists front := by
  simp [Lists]

theorem Lists.of_lookup {node : Node} (h : files.entries.lookup names = some node) :
    files.Lists names := by
  obtain ⟨l₁, l₂, hentries, -⟩ := List.lookup_eq_some_iff.mp h
  exact ⟨(names, node), by simp [hentries], List.prefix_rfl⟩

theorem Lists.of_front (h : files.Lists names) (hfront : front <+: names) : files.Lists front := by
  obtain ⟨e, he, hnames⟩ := h
  exact ⟨e, he, hfront.trans hnames⟩

/-- What is listed after a file got new bytes. -/
theorem lists_put (files : Files) (names : List String) (bytes : List UInt8) (front : List String) :
    (files.put names bytes).Lists front ↔ files.Lists front ∨ front <+: names := by
  constructor
  · rintro ⟨e, he, hfront⟩
    unfold put at he
    split at he
    · obtain ⟨e', he', rfl⟩ := List.mem_map.mp he
      split at hfront
      · exact .inr hfront
      · exact .inl ⟨e', he', hfront⟩
    · rcases List.mem_append.mp he with he | he
      · exact .inl ⟨e, he, hfront⟩
      · rw [List.mem_singleton.mp he] at hfront
        exact .inr hfront
  · rintro (⟨e, he, hfront⟩ | hfront)
    · unfold put
      split
      · refine ⟨_, List.mem_map_of_mem he, ?_⟩
        split
        · rename_i hname
          exact hname ▸ hfront
        · exact hfront
      · exact ⟨e, List.mem_append_left _ he, hfront⟩
    · have hself : (files.put names bytes).entries.lookup names = some (.file bytes) := by
        rw [lookup_put, if_pos rfl]
      exact (Lists.of_lookup hself).of_front hfront

theorem node?_inside (files : Files) (h : names ≠ []) : files.node? (.inside names) =
    match files.entries.lookup names with
    | some node => some node
    | none =>
        if files.entries.any fun e => names.isPrefixOf e.1 then some .directory else none := by
  obtain ⟨n, ns, rfl⟩ := List.exists_cons_of_ne_nil h
  rfl

/-- A directory below the working directory is listed, or something below it is. -/
theorem lists_of_directory (hfront : front ≠ [])
    (h : files.node? (.inside front) = some .directory) : files.Lists front := by
  rw [node?_inside files hfront] at h
  split at h
  · rename_i node hnode
    exact Lists.of_lookup hnode
  · split at h
    · rename_i hany
      exact any_iff_lists.mp hany
    · cases h

/-- A file that got new bytes stands at its place. -/
theorem node?_put_self (h : names ≠ []) :
    (files.put names bytes).node? (.inside names) = some (.file bytes) := by
  rw [node?_inside _ h, lookup_put, if_pos rfl]

/-- At all other places there stands what stood there, if the file is in a directory. -/
theorem node?_put_of_ne {last : String} (h : files.node? (.inside front) = some .directory)
    {place : Place} (hplace : place ≠ .inside (front ++ [last])) :
    (files.put (front ++ [last]) bytes).node? place = files.node? place := by
  cases place with
  | above => rfl
  | unseen => rfl
  | inside names =>
    by_cases hnil : names = []
    · subst hnil
      rfl
    have hne : names ≠ front ++ [last] := fun heq => hplace (heq ▸ rfl)
    -- what is on the way to the file is listed already
    have hway : names <+: front ++ [last] → files.Lists names := by
      intro hprefix
      rcases List.prefix_concat_iff.mp hprefix with heq | hfront
      · exact absurd heq hne
      · refine (lists_of_directory (fun heq => hnil ?_) h).of_front hfront
        exact List.prefix_nil.mp (heq ▸ hfront)
    have hany : ((files.put (front ++ [last]) bytes).entries.any fun e => names.isPrefixOf e.1) =
        files.entries.any fun e => names.isPrefixOf e.1 := by
      rw [Bool.eq_iff_iff, any_iff_lists, any_iff_lists, lists_put]
      exact ⟨fun hor => hor.elim id hway, .inl⟩
    rw [node?_inside _ hnil, node?_inside _ hnil, lookup_put, if_neg hne, hany]

/-! ## 2. Where a path leads -/

theorem walk_append (files : Files) : ∀ (place : Place) (front back : List String),
    files.walk place (front ++ back) =
      match files.walk place front with
      | .ok next => files.walk next back
      | .error e => .error e
  | _, [], _ => rfl
  | place, name :: front, back => by
      rw [List.cons_append, walk, walk]
      cases files.lookUp place name with
      | ok next => exact walk_append files next front back
      | error e => rfl

/-- A name is looked up in a directory only. -/
theorem lookUp_ok {place next : Place} {name : String} (h : files.lookUp place name = .ok next) :
    files.node? place = some .directory ∧ next = place.step name := by
  unfold lookUp at h
  split at h
  · rename_i hnode
    split at h
    · cases h
    · cases h
      exact ⟨hnode, rfl⟩
  · cases h
  · cases h

/-- A walk stays what it is where all directories do. -/
theorem walk_of_directories
    (h : ∀ place, files.node? place = some .directory → files'.node? place = some .directory) :
    ∀ {place next : Place} {names : List String}, files.walk place names = .ok next →
      files'.walk place names = .ok next
  | _, _, [], hwalk => hwalk
  | place, next, name :: names, hwalk => by
      rw [walk] at hwalk ⊢
      cases hstep : files.lookUp place name with
      | error e =>
        rw [hstep] at hwalk
        cases hwalk
      | ok middle =>
        rw [hstep] at hwalk
        have hdirectory := (lookUp_ok hstep).1
        have hsame : files'.lookUp place name = files.lookUp place name := by
          unfold lookUp
          rw [hdirectory, h place hdirectory]
        rw [hsame, hstep]
        exact walk_of_directories h hwalk

/-- **Where the path of an output file leads**: to a name in a directory, which is no directory. -/
structure Targets (files : Files) (path : String) (front : List String) (last : String) :
    Prop where
  named : path ≠ ""
  short : ¬ pathLimit < path.utf8ByteSize
  walk : files.walk (Path.ofString path).start (Path.ofString path).names =
    .ok (.inside (front ++ [last]))
  unslashed : (Path.ofString path).slashed = false
  directory : files.node? (.inside front) = some .directory
  free : files.node? (.inside (front ++ [last])) ≠ some .directory

theorem target_ok {path : String} (h : files.target path = .ok names) :
    ∃ front last, names = front ++ [last] ∧ files.Targets path front last := by
  unfold target at h
  dsimp only at h
  split at h
  · cases h
  rename_i hnamed
  split at h
  · cases h
  rename_i hshort
  split at h
  · cases h
  · cases h
  rename_i place last hwalk hlast
  split at h
  · cases h
  rename_i hfile
  split at h
  · cases h
  rename_i named hlook
  obtain ⟨hdirectory, hstep⟩ := lookUp_ok hlook
  have hplain : ¬ (last = "." ∨ last = ".." ∨ (Path.ofString path).slashed = true) :=
    fun hor => hfile ⟨hdirectory, hor⟩
  rw [not_or, not_or, Bool.not_eq_true] at hplain
  obtain ⟨hdot, hdots, hunslashed⟩ := hplain
  split at h
  · cases h
  · rename_i names' hfree
    cases h
    -- the place before the last name is below the working directory
    have hinside : ∃ front, place = .inside front := by
      unfold Place.step at hstep
      rw [if_neg hdot, if_neg hdots] at hstep
      cases place with
      | inside front => exact ⟨front, rfl⟩
      | above => cases hstep
      | unseen => cases hstep
    obtain ⟨front, rfl⟩ := hinside
    unfold Place.step at hstep
    rw [if_neg hdot, if_neg hdots] at hstep
    cases hstep
    refine ⟨front, last, rfl, hnamed, hshort, ?_, hunslashed, hdirectory, hfree⟩
    rw [← List.dropLast_append_getLast? last hlast, walk_append, hwalk]
    dsimp only
    rw [walk, hlook]
    rfl
  · cases h

/-! ## 3. Writing -/

/-- **One file is written**: the path reads the bytes, and everywhere but at the place of the file
    there stands what stood there. -/
structure Wrote (before : Files) (path : String) (bytes : List UInt8) (after : Files) : Prop where
  contents : after.read path = .ok bytes
  others : ∃ names, before.target path = .ok names ∧
    ∀ place, place ≠ .inside names → after.node? place = before.node? place

theorem wrote_of_write {path : String} (h : files.write path bytes = .ok files') :
    files.Wrote path bytes files' := by
  unfold write at h
  split at h
  · cases h
  rename_i names htarget
  cases h
  obtain ⟨front, last, rfl, htargets⟩ := target_ok htarget
  have hothers : ∀ place, place ≠ .inside (front ++ [last]) →
      (files.put (front ++ [last]) bytes).node? place = files.node? place :=
    fun _ => node?_put_of_ne htargets.directory
  refine ⟨?_, _, htarget, hothers⟩
  have hdirectories : ∀ place, files.node? place = some .directory →
      (files.put (front ++ [last]) bytes).node? place = some .directory := by
    intro place hplace
    exact (hothers place fun heq => htargets.free (heq ▸ hplace)).trans hplace
  have hwalk := walk_of_directories hdirectories htargets.walk
  unfold read
  dsimp only
  rw [if_neg htargets.named, if_neg htargets.short, hwalk]
  dsimp only
  rw [node?_put_self (by simp)]
  dsimp only
  rw [htargets.unslashed]
  rfl

end Files

end CMinusMinus
