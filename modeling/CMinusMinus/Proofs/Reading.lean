/-
  File:      CMinusMinus/Proofs/Reading.lean
  Subject:   What a reading gives when it succeeds.

  A parser is a chain of readings. `Reading.Gives` states a fact about the value and the rest of a
  reading that succeeds; there is one rule for each way in which readings are put together, so that
  a fact about a parser follows its text. `Stream.All` states a fact about all tokens that a stream
  can still show: those ahead, and the last one taken.
-/
import CMinusMinus.Parse.Stream

namespace CMinusMinus

/-! ## 1. Readings -/

namespace Reading

variable {α β : Type} {m n : Nat} {P Q : α → Stream → Prop} {R : β → Stream → Prop}

/-- The value and the rest of a reading that succeeds have the property. -/
def Gives (r : Reading α n) (Q : α → Stream → Prop) : Prop :=
  ∀ p : Parsed α n, r = .ok p → Q p.value p.rest

theorem gives_error (e : ParseFault) : Gives (.error e : Reading α n) Q := by
  intro p h
  cases h

theorem gives_ok {a : α} {s : Stream} {h : s.size < n} (hQ : Q a s) :
    Gives (.ok ⟨a, s, h⟩ : Reading α n) Q := by
  intro p hp
  cases hp
  exact hQ

theorem gives_done {a : α} {s : Stream} (hQ : Q a s) : Gives (.done a s) Q := gives_ok hQ

theorem Gives.andThen {r : Reading α n} {f : (a : α) → (s : Stream) → s.size < n → Reading β n}
    (hr : r.Gives P) (hf : ∀ a s h, P a s → (f a s h).Gives R) : (r.andThen f).Gives R := by
  intro p hp
  obtain ⟨a, s, h, hra, hfa⟩ := andThen_eq_ok_iff.mp hp
  exact hf a s h (hr _ hra) p hfa

theorem Gives.within {r : Reading α m} (hr : r.Gives Q) (h : m < n) : (r.within h).Gives Q := by
  cases r with
  | error e => exact gives_error e
  | ok p => exact gives_ok (hr p rfl)

theorem Gives.follow {r : Reading α (m + 1)} (hr : r.Gives Q) (h : m < n) :
    (r.follow h).Gives Q := by
  cases r with
  | error e => exact gives_error e
  | ok p => exact gives_ok (hr p rfl)

theorem Gives.loosen {r : Reading α n} (hr : r.Gives Q) : r.loosen.Gives Q :=
  hr.within (Nat.lt_succ_self n)

end Reading

/-! ## 2. Streams -/

namespace Stream

variable {P : Token → Prop} {s : Stream}

/-- All tokens that the stream can still show have the property. -/
def All (P : Token → Prop) (s : Stream) : Prop :=
  (∀ t, s.last = some t → P t) ∧ ∀ t ∈ s.ahead, P t

theorem all_ofTokens {tokens : List Token} (h : ∀ t ∈ tokens, P t) :
    (Stream.ofTokens tokens).All P :=
  ⟨fun _ ht => (by cases ht), h⟩

theorem All.here (hs : s.All P) {t : Token} (h : s.here = some t) : P t := by
  unfold Stream.here at h
  split at h
  · rename_i head rest hahead
    cases h
    exact hs.2 _ (hahead ▸ List.mem_cons_self)
  · exact hs.1 t h

theorem All.next (hs : s.All P) : s.next.All P := by
  unfold Stream.next
  split
  · rename_i head rest hahead
    refine ⟨fun t ht => ?_, fun t ht => hs.2 t (hahead ▸ List.mem_cons_of_mem _ ht)⟩
    cases ht
    exact hs.2 _ (hahead ▸ List.mem_cons_self)
  · exact hs

/-- The next token and the stream after it. -/
theorem All.take? (hs : s.All P) {t : Token} {r : { r : Stream // r.size < s.size }}
    (h : s.take? = some (t, r)) : P t ∧ r.1.All P := by
  unfold Stream.take? at h
  split at h
  · rename_i head rest hahead
    cases h
    exact ⟨hs.2 _ (hahead ▸ List.mem_cons_self), hs.next⟩
  · cases h

theorem All.accept? (hs : s.All P) {kind : TokenKind} {r : { r : Stream // r.size < s.size }}
    (h : s.accept? kind = some r) : r.1.All P := by
  unfold Stream.accept? at h
  split at h
  · rename_i t r' htake
    split at h
    · cases h
      exact (hs.take? htake).2
    · cases h
  · cases h

theorem All.acceptKeyword? (hs : s.All P) {text : String}
    {r : { r : Stream // r.size < s.size }} (h : s.acceptKeyword? text = some r) : r.1.All P := by
  unfold Stream.acceptKeyword? at h
  split at h
  · rename_i t r' htake
    split at h
    · cases h
      exact (hs.take? htake).2
    · cases h
  · cases h

/-- An expected token has its kind. -/
theorem All.expect (hs : s.All P) (kind : TokenKind) (problem : SyntaxProblem) :
    (s.expect kind problem).Gives fun t rest => (t.kind = kind ∧ P t) ∧ rest.All P := by
  unfold Stream.expect
  split
  · rename_i t hhere
    split
    · rename_i hkind
      exact Reading.gives_ok ⟨⟨hkind, hs.here hhere⟩, hs.next⟩
    · exact Reading.gives_error _
  · exact Reading.gives_error _

end Stream

end CMinusMinus
