/-
  File:      CMinusMinus/Proofs/Outcomes.lean
  Subject:   Every outcome of the parser on a token list that ends with the end of input.

  Such a list is never read to its last token, since no rule takes the end of input. So a reading
  has one of two outcomes. Either it passes over a phrase of the language, which holds no end of
  input, and gives the tree of that phrase; or it fails at a token of the list.

  * `Stream.Ended` -- the list ahead ends with the end of input;
  * `Reading.Outcome` -- the two outcomes, with one rule for each way in which readings are put
    together;
  * `expression_outcome`, `statement_outcome`, `declarations_outcome` -- the functions of the parser.
-/
import CMinusMinus.Proofs.Phrases
import CMinusMinus.Proofs.Reading

namespace CMinusMinus

/-! ## 1. Looking at a stream -/

/-- A token of any other kind is not the end of input. -/
theorem Token.ne_eof {t : Token} {k : TokenKind} (h : t.kind = k) (hk : k ≠ .eof) :
    t.kind ≠ .eof := h ▸ hk

namespace Stream

variable {s : Stream} {t : Token} {rest : List Token}

theorem here_of_ahead (h : s.ahead = t :: rest) : s.here = some t := by
  unfold here
  rw [h]

theorem pos_of_ahead (h : s.ahead = t :: rest) : s.pos = t.pos := by
  unfold pos
  rw [here_of_ahead h]
  rfl

theorem ahead_next (h : s.ahead = t :: rest) : s.next.ahead = rest := by
  unfold next
  rw [h]

theorem take?_eq_some {r : { r : Stream // r.size < s.size }} (h : s.take? = some (t, r)) :
    s.ahead = t :: r.1.ahead := by
  unfold take? at h
  split at h
  · rename_i head tail hahead
    cases h
    show s.ahead = t :: s.next.ahead
    rw [ahead_next hahead]
    exact hahead
  · cases h

theorem take?_eq_none (h : s.take? = none) : s.ahead = [] := by
  unfold take? at h
  split at h
  · cases h
  · assumption

theorem accept?_eq_some {kind : TokenKind} {r : { r : Stream // r.size < s.size }}
    (h : s.accept? kind = some r) : ∃ t, s.ahead = t :: r.1.ahead ∧ t.kind = kind := by
  unfold accept? at h
  split at h
  · rename_i t r' htake
    split at h
    · rename_i hkind
      cases h
      exact ⟨t, take?_eq_some htake, hkind⟩
    · cases h
  · cases h

theorem acceptKeyword?_eq_some {text : String} {r : { r : Stream // r.size < s.size }}
    (h : s.acceptKeyword? text = some r) : ∃ t, s.ahead = t :: r.1.ahead ∧ t.IsWord text := by
  unfold acceptKeyword? at h
  split at h
  · rename_i t r' htake
    split at h
    · rename_i hword
      cases h
      exact ⟨t, take?_eq_some htake, hword.1, hword.2⟩
    · cases h
  · cases h

theorem isAt_of_ahead (h : s.ahead = t :: rest) (kind : TokenKind) :
    s.isAt kind = decide (t.kind = kind) := by
  unfold isAt
  rw [here_of_ahead h, Option.any_some]
  rfl

theorem isAtType_iff (h : s.ahead = t :: rest) :
    s.isAtType = true ↔ t.kind = .keyword ∧ t.text ∈ Ty.names := by
  unfold isAtType
  rw [here_of_ahead h, Option.any_some, Bool.and_eq_true, beq_iff_eq, List.contains_iff_mem]

/-- The list ahead ends with the end of input. -/
def Ended (s : Stream) : Prop := ∃ e, s.ahead.getLast? = some e ∧ e.kind = .eof

theorem Ended.head (hs : s.Ended) : ∃ t rest, s.ahead = t :: rest := by
  obtain ⟨e, he, -⟩ := hs
  cases hahead : s.ahead with
  | nil => rw [hahead] at he; cases he
  | cons t rest => exact ⟨t, rest, rfl⟩

/-- What is passed over without an end of input leaves the last one ahead. -/
theorem Ended.past (hs : s.Ended) {s' : Stream} {ts : List Token} (h : s.ahead = ts ++ s'.ahead)
    (hts : ∀ t ∈ ts, t.kind ≠ .eof) : s'.Ended := by
  obtain ⟨e, he, heof⟩ := hs
  rw [h, List.getLast?_append] at he
  cases hlast : s'.ahead.getLast? with
  | some e' =>
    rw [hlast] at he
    cases he
    exact ⟨_, hlast, heof⟩
  | none =>
    rw [hlast, Option.none_or] at he
    exact absurd heof (hts e (List.mem_of_getLast? he))

theorem Ended.after (hs : s.Ended) {s' : Stream} (h : s.ahead = t :: s'.ahead)
    (ht : t.kind ≠ .eof) : s'.Ended :=
  hs.past (show s.ahead = [t] ++ s'.ahead from h) (List.forall_mem_singleton.mpr ht)

theorem Ended.not_take?_none (hs : s.Ended) : s.take? ≠ none := by
  obtain ⟨t, rest, hahead⟩ := hs.head
  intro h
  rw [take?_eq_none h] at hahead
  cases hahead

end Stream

/-! ## 2. Outcomes -/

/-- The fault is told at one of the tokens, and is not that the input ended; or one of them is a
    number whose text denotes none. -/
def ParseFault.Names (tokens : List Token) : ParseFault → Prop
  | .unexpected problem (some t) => problem ≠ .inputEnded ∧ t ∈ tokens
  | .unexpected _ none => False
  | .numeral f => ∃ t ∈ tokens, t.kind = .number ∧ Text.readInt t.text.toList = .error f

theorem ParseFault.Names.mono {ts us : List Token} {f : ParseFault} (h : f.Names us)
    (hsub : us ⊆ ts) : f.Names ts := by
  cases f with
  | unexpected problem t? =>
    cases t? with
    | some t => exact ⟨h.1, hsub h.2⟩
    | none => exact h
  | numeral f =>
    obtain ⟨t, ht, hf⟩ := h
    exact ⟨t, hsub ht, hf⟩

namespace Reading

variable {α β : Type} {m n : Nat} {s s' : Stream}
variable {P Q : List Token → α → Prop} {R : List Token → β → Prop}

/-- **The outcome of a reading.** It passed over tokens that stand for its value, none of them the
    end of input, or it failed at a token ahead. -/
def Outcome (r : Reading α n) (s : Stream) (Q : List Token → α → Prop) : Prop :=
  match r with
  | .ok p => ∃ ts, s.ahead = ts ++ p.rest.ahead ∧ (∀ t ∈ ts, t.kind ≠ .eof) ∧ Q ts p.value
  | .error f => f.Names s.ahead

theorem outcome_error {f : ParseFault} (h : f.Names s.ahead) :
    Outcome (.error f : Reading α n) s Q := h

/-- A fault at the token that stands next. -/
theorem outcome_unexpected {problem : SyntaxProblem} {t : Token} {rest : List Token}
    (hproblem : problem ≠ .inputEnded) (h : s.ahead = t :: rest) :
    Outcome (.error (.unexpected problem s.here) : Reading α n) s Q := by
  rw [Stream.here_of_ahead h]
  exact outcome_error ⟨hproblem, h ▸ List.mem_cons_self⟩

theorem outcome_noExpression {t : Token} {rest : List Token} (h : s.ahead = t :: rest) :
    Outcome (.error s.noExpression : Reading α n) s Q := by
  unfold Stream.noExpression
  rw [Stream.here_of_ahead h]
  exact outcome_error ⟨SyntaxProblem.noConfusion, h ▸ List.mem_cons_self⟩

theorem outcome_done {a : α} (h : Q [] a) : Outcome (.done a s) s Q :=
  ⟨[], rfl, fun _ ht => absurd ht List.not_mem_nil, h⟩

/-- A single token is passed over. -/
theorem outcome_token {a : α} {t : Token} {h : s'.size < n} (hahead : s.ahead = t :: s'.ahead)
    (ht : t.kind ≠ .eof) (hQ : Q [t] a) : Outcome (.ok ⟨a, s', h⟩ : Reading α n) s Q :=
  ⟨[t], hahead, fun _ hu => List.mem_singleton.mp hu ▸ ht, hQ⟩

theorem Outcome.imp {r : Reading α n} (hr : r.Outcome s P) (h : ∀ ts a, P ts a → Q ts a) :
    r.Outcome s Q := by
  cases r with
  | error f => exact hr
  | ok p =>
    obtain ⟨ts, hahead, hts, hp⟩ := hr
    exact ⟨ts, hahead, hts, h _ _ hp⟩

theorem Outcome.within {r : Reading α m} (hr : r.Outcome s Q) (h : m < n) :
    (r.within h).Outcome s Q := by
  cases r <;> exact hr

theorem Outcome.follow {r : Reading α (m + 1)} (hr : r.Outcome s Q) (h : m < n) :
    (r.follow h).Outcome s Q := by
  cases r <;> exact hr

theorem Outcome.loosen {r : Reading α n} (hr : r.Outcome s Q) : r.loosen.Outcome s Q :=
  hr.within (Nat.lt_succ_self n)

/-- After tokens were passed over, the rest of the reading is about what follows them. -/
theorem Outcome.past {r : Reading α n} {ts : List Token} (h : s.ahead = ts ++ s'.ahead)
    (hts : ∀ t ∈ ts, t.kind ≠ .eof) (hr : r.Outcome s' fun us a => Q (ts ++ us) a) :
    r.Outcome s Q := by
  cases r with
  | error f => exact ParseFault.Names.mono hr (h ▸ List.subset_append_right _ _)
  | ok p =>
    obtain ⟨us, hahead, hus, hQ⟩ := hr
    refine ⟨ts ++ us, ?_, List.forall_mem_append.mpr ⟨hts, hus⟩, hQ⟩
    rw [h, hahead, List.append_assoc]

theorem Outcome.taken {r : Reading α n} {t : Token} (h : s.ahead = t :: s'.ahead)
    (ht : t.kind ≠ .eof) (hr : r.Outcome s' fun us a => Q (t :: us) a) : r.Outcome s Q :=
  .past (show s.ahead = [t] ++ s'.ahead from h) (List.forall_mem_singleton.mpr ht) hr

/-- One part is read after the other, and the outcome of the second one is told from where the
    first one started: its fault may be at a token that was passed over. -/
theorem Outcome.bind {r : Reading α n} {f : (a : α) → (s : Stream) → s.size < n → Reading β n}
    (hr : r.Outcome s P)
    (hf : ∀ ts a s₁ h, P ts a → s.ahead = ts ++ s₁.ahead → (∀ t ∈ ts, t.kind ≠ .eof) →
      (f a s₁ h).Outcome s R) :
    (r.andThen f).Outcome s R := by
  cases r with
  | error e => exact hr
  | ok p =>
    obtain ⟨ts, hahead, hts, hP⟩ := hr
    exact hf ts p.value p.rest p.shorter hP hahead hts

/-- One part is read after the other; the second one starts where the first one stopped. -/
theorem Outcome.andThen {r : Reading α n} {f : (a : α) → (s : Stream) → s.size < n → Reading β n}
    (hs : s.Ended) (hr : r.Outcome s P)
    (hf : ∀ ts a s₁ h, P ts a → s₁.Ended → (f a s₁ h).Outcome s₁ fun us b => R (ts ++ us) b) :
    (r.andThen f).Outcome s R :=
  hr.bind fun ts a s₁ h hP hahead hts => .past hahead hts (hf ts a s₁ h hP (hs.past hahead hts))

/-- The value is made of what was read, and nothing more is read. -/
theorem Outcome.map {r : Reading α n} {g : α → Stream → β} (hr : r.Outcome s P)
    (h : ∀ ts a s₁, P ts a → R ts (g a s₁)) :
    (r.andThen fun a s₁ h => .ok ⟨g a s₁, s₁, h⟩).Outcome s R := by
  cases r with
  | error e => exact hr
  | ok p =>
    obtain ⟨ts, hahead, hts, hP⟩ := hr
    exact ⟨ts, hahead, hts, h _ _ _ hP⟩

end Reading

theorem Stream.Ended.expect {s : Stream} (hs : s.Ended) {kind : TokenKind} {problem : SyntaxProblem}
    (hkind : kind ≠ .eof) (hproblem : problem ≠ .inputEnded) :
    (s.expect kind problem).Outcome s fun ts t => ts = [t] ∧ t.kind = kind := by
  obtain ⟨t, rest, hahead⟩ := hs.head
  unfold Stream.expect
  rw [Stream.here_of_ahead hahead]
  dsimp only
  split
  · rename_i ht
    exact Reading.outcome_token (by rw [hahead, Stream.ahead_next hahead]) (ht ▸ hkind) ⟨rfl, ht⟩
  · exact Reading.outcome_error ⟨hproblem, hahead ▸ List.mem_cons_self⟩

/-! ## 3. Expressions -/

namespace Parse

open Reading

mutual

theorem primary_outcome (s : Stream) (hs : s.Ended) : (primary s).Outcome s (Phrase 0) := by
  rw [primary]
  split
  · rename_i htake
    exact absurd htake hs.not_take?_none
  · rename_i t next hnext htake
    have hahead := Stream.take?_eq_some htake
    split
    · rename_i hkind
      have ht : t.kind ≠ .eof := Token.ne_eof hkind (by decide)
      have hinside := hs.after hahead ht
      split
      · exact outcome_token hahead ht (.name hkind)
      · rename_i inner hinner haccept
        obtain ⟨l, hl, hlparen⟩ := Stream.accept?_eq_some haccept
        have hlne : l.kind ≠ .eof := Token.ne_eof hlparen (by decide)
        have hargs := hinside.after hl hlne
        refine .within (.taken hahead ht (.taken hl hlne (.andThen hargs
          ((arguments_outcome inner hargs).follow hinner) ?_))) hnext
        intro ts args rest hrest hphrase hended
        refine .map ((hended.expect (by decide) (by decide)).follow hrest) ?_
        rintro _ r _ ⟨rfl, hr⟩
        exact .call hkind hlparen hphrase hr
    · rename_i hkind
      split
      · rename_i f hread
        exact outcome_error ⟨t, hahead ▸ List.mem_cons_self, hkind, hread⟩
      · rename_i v hread
        exact outcome_token hahead (Token.ne_eof hkind (by decide)) (.number hkind hread)
    · rename_i hkind
      exact outcome_token hahead (Token.ne_eof hkind (by decide)) (.string hkind)
    · rename_i hkind
      have ht : t.kind ≠ .eof := Token.ne_eof hkind (by decide)
      have hinside := hs.after hahead ht
      refine .taken hahead ht (.andThen hinside ((expression_outcome next hinside).within hnext) ?_)
      intro ts e rest hrest hphrase hended
      refine .map ((hended.expect (by decide) (by decide)).follow hrest) ?_
      rintro _ r _ ⟨rfl, hr⟩
      exact .group hkind hphrase hr
    · exact outcome_noExpression hahead
termination_by weight s 0
decreasing_by all_goals simp only [weight]; omega

theorem arguments_outcome (s : Stream) (hs : s.Ended) : (arguments s).Outcome s Arguments := by
  rw [arguments]
  split
  · exact outcome_done .none
  · refine .loosen (.andThen hs (expression_outcome s hs) ?_)
    intro ts e rest hrest he hended
    refine .map ((moreArguments_outcome rest hended).follow hrest) ?_
    intro us es _ hes
    exact .some he hes
termination_by weight s 12
decreasing_by all_goals simp only [weight]; omega

theorem moreArguments_outcome (s : Stream) (hs : s.Ended) :
    (moreArguments s).Outcome s MoreArguments := by
  rw [moreArguments]
  split
  · exact outcome_done .none
  · rename_i inner hinner haccept
    obtain ⟨c, hahead, hcomma⟩ := Stream.accept?_eq_some haccept
    have hc : c.kind ≠ .eof := Token.ne_eof hcomma (by decide)
    have hinside := hs.after hahead hc
    refine .loosen (.taken hahead hc (.andThen hinside
      ((expression_outcome inner hinside).within hinner) ?_))
    intro ts e rest hrest he hended
    refine .map ((moreArguments_outcome rest hended).follow hrest) ?_
    intro us es _ hes
    exact .some hcomma he hes
termination_by weight s 0
decreasing_by all_goals simp only [weight]; omega

theorem postfixed_outcome (s : Stream) (hs : s.Ended) : (postfixed s).Outcome s (Phrase 1) := by
  rw [postfixed]
  refine .andThen hs (primary_outcome s hs) ?_
  intro ts e rest hrest he hended
  refine ((subscripts_outcome e rest hended).follow hrest).imp ?_
  intro us e' hgrown
  exact hgrown ts he.looser
termination_by weight s 1
decreasing_by all_goals simp only [weight]; omega

/-- Subscripts make a longer phrase of the one that they follow. -/
theorem subscripts_outcome (e : Expr) (s : Stream) (hs : s.Ended) :
    (subscripts e s).Outcome s fun us e' => ∀ ts, Phrase 1 ts e → Phrase 1 (ts ++ us) e' := by
  rw [subscripts]
  split
  · refine outcome_done fun ts h => ?_
    rwa [List.append_nil]
  · rename_i inner hinner haccept
    obtain ⟨l, hahead, hlbracket⟩ := Stream.accept?_eq_some haccept
    have hl : l.kind ≠ .eof := Token.ne_eof hlbracket (by decide)
    have hinside := hs.after hahead hl
    refine .loosen (.taken hahead hl (.andThen hinside
      ((expression_outcome inner hinside).within hinner) ?_))
    intro us i rest hrest hi hended
    refine .andThen hended ((hended.expect (by decide) (by decide)).follow hrest) ?_
    rintro _ r after h ⟨rfl, hr⟩ hended'
    refine ((subscripts_outcome (.index e.pos e i) after hended').follow h).imp ?_
    intro vs e' hgrown ts he
    have hlonger := hgrown _ (.index he hlbracket hi hr)
    simpa using hlonger
termination_by weight s 0
decreasing_by all_goals simp only [weight]; omega

theorem unary_outcome (s : Stream) (hs : s.Ended) : (unary s).Outcome s (Phrase 2) := by
  rw [unary]
  split
  · rename_i htake
    exact absurd htake hs.not_take?_none
  · rename_i t next hnext htake
    have hahead := Stream.take?_eq_some htake
    split
    · rename_i hunary
      have ht : t.kind ≠ .eof := fun h => by rw [h] at hunary; cases hunary
      have hinside := hs.after hahead ht
      refine .taken hahead ht (.map ((unary_outcome next hinside).within hnext) ?_)
      intro ts e _ he
      exact .unary hunary he
    · exact (postfixed_outcome s hs).imp fun _ _ h => h.looser
termination_by weight s 2
decreasing_by all_goals simp only [weight]; omega

theorem binary_outcome (n : Nat) (s : Stream) (hs : s.Ended) :
    (binary n s).Outcome s (Phrase (n + 2)) := by
  cases n with
  | zero =>
    rw [binary]
    exact unary_outcome s hs
  | succ n =>
    rw [binary]
    refine .andThen hs (binary_outcome n s hs) ?_
    intro ts e rest hrest he hended
    refine ((operands_outcome (n + 1) e rest hended).follow hrest).imp ?_
    intro us e' hgrown
    exact hgrown ts he.looser
termination_by weight s 3 + n
decreasing_by all_goals simp only [weight]; omega

/-- Operators of one level, with their right operands, make a longer phrase of the left operand. -/
theorem operands_outcome (n : Nat) (left : Expr) (s : Stream) (hs : s.Ended) :
    (operands n left s).Outcome s fun us e =>
      ∀ ts, Phrase (n + 2) ts left → Phrase (n + 2) (ts ++ us) e := by
  rw [operands]
  split
  · refine outcome_done fun ts h => ?_
    rwa [List.append_nil]
  · rename_i t next hnext htake
    have hahead := Stream.take?_eq_some htake
    split
    · rename_i hlevel
      have hloose := TokenKind.level?_le hlevel
      have ht : t.kind ≠ .eof := fun h => by rw [h] at hlevel; cases hlevel
      have hinside := hs.after hahead ht
      refine .loosen (.taken hahead ht (.andThen hinside
        ((binary_outcome (n - 1) next hinside).within hnext) ?_))
      intro us right rest hrest hright hended
      refine ((operands_outcome n (.binary left.pos (.ofText t.text) left right) rest
        hended).follow hrest).imp ?_
      intro vs e hgrown ts hleft
      -- no operator has level 0, so the right operand's rank is one below the operator's
      have hrank : n - 1 + 2 = n + 1 := by
        have := TokenKind.level?_pos hlevel
        omega
      have hlonger := hgrown _ (.binary hleft hlevel (hrank ▸ hright))
      simpa using hlonger
    · refine outcome_done fun ts h => ?_
      rwa [List.append_nil]
termination_by weight s 0
decreasing_by all_goals simp only [weight, loosest] at *; omega

theorem expression_outcome (s : Stream) (hs : s.Ended) :
    (expression s).Outcome s (Phrase wholeRank) := by
  rw [expression]
  exact binary_outcome loosest s hs
termination_by weight s 11
decreasing_by all_goals simp only [weight, loosest]; omega

end

/-! ## 4. Types and declarations of variables -/

theorem stars_outcome (s : Stream) (hs : s.Ended) :
    (stars s).Outcome s fun ts n => (∀ t ∈ ts, t.kind = .star) ∧ n = ts.length := by
  rw [stars]
  split
  · exact outcome_done ⟨fun _ ht => absurd ht List.not_mem_nil, rfl⟩
  · rename_i next hnext haccept
    obtain ⟨t, hahead, hstar⟩ := Stream.accept?_eq_some haccept
    have ht := Token.ne_eof hstar (by decide)
    refine .loosen (.taken hahead ht (.map ((stars_outcome next (hs.after hahead ht)).follow
      hnext) ?_))
    rintro ts n _ ⟨hts, rfl⟩
    exact ⟨List.forall_mem_cons.mpr ⟨hstar, hts⟩, rfl⟩
termination_by s.size

theorem type_outcome (s : Stream) (hs : s.Ended) :
    (type s).Outcome s fun ts ty => Ty.Phrase ts s.pos ty := by
  unfold type
  split
  · rename_i htake
    exact absurd htake hs.not_take?_none
  · rename_i t next hnext htake
    have hahead := Stream.take?_eq_some htake
    split
    · rename_i hat
      obtain ⟨hkeyword, hname⟩ := (Stream.isAtType_iff hahead).mp hat
      have ht := Token.ne_eof hkeyword (by decide)
      refine .taken hahead ht (.map ((stars_outcome next (hs.after hahead ht)).follow hnext) ?_)
      rintro ts n _ ⟨hts, rfl⟩
      rw [Stream.pos_of_ahead hahead]
      exact .mk hkeyword hname hts
    · exact outcome_unexpected SyntaxProblem.noConfusion hahead

/-- The size is made a number only after its closing bracket was read, so the fault of its text is
    told at a token that was passed over. -/
theorem extent_outcome (s : Stream) (hs : s.Ended) : (extent s).Outcome s Extent := by
  unfold extent
  split
  · exact outcome_done .none
  · rename_i inner hinner haccept
    obtain ⟨l, hahead, hlbracket⟩ := Stream.accept?_eq_some haccept
    have hl := Token.ne_eof hlbracket (by decide)
    have hinside := hs.after hahead hl
    refine .loosen (.taken hahead hl (.bind
      ((hinside.expect (by decide) (by decide)).follow hinner) ?_))
    rintro _ x rest hrest ⟨rfl, hx⟩ hnumber hne
    have hclose : ((rest.expect .rbracket .sizeEndExpected).follow hrest).Outcome rest
        fun ts r => ts = [r] ∧ r.kind = .rbracket :=
      ((hinside.past hnumber hne).expect (by decide) (by decide)).follow hrest
    refine .bind (.past (Q := fun ts r => ts = [x, r] ∧ r.kind = .rbracket) hnumber hne
      (hclose.imp ?_)) ?_
    · rintro _ r ⟨rfl, hr⟩
      exact ⟨rfl, hr⟩
    · rintro _ r after h ⟨rfl, hr⟩ hboth hnoend
      dsimp only
      split
      · rename_i f hread
        exact outcome_error ⟨x, hnumber ▸ List.mem_cons_self, hx, hread⟩
      · rename_i v hread
        exact ⟨[x, r], hboth, hnoend, .some hlbracket hx hread hr⟩

/-- What follows the name makes the declaration of a variable of it. -/
theorem varRest_outcome (pos : Position) (ty : Ty) (name : String) (s : Stream) (hs : s.Ended) :
    (varRest pos ty name s).Outcome s fun us d =>
      ∀ ts, TypedName ts (pos, ty, name) → Variable.Phrase (ts ++ us) d := by
  unfold varRest
  refine .andThen hs (extent_outcome s hs) ?_
  intro us size? rest hrest hsize hended
  refine .map ((hended.expect (by decide) (by decide)).follow hrest) ?_
  rintro _ semi _ ⟨rfl, hsemi⟩ ts hname
  exact .mk hname hsize hsemi

theorem typedName_outcome {problem : SyntaxProblem} (hproblem : problem ≠ .inputEnded) (s : Stream)
    (hs : s.Ended) : (typedName problem s).Outcome s TypedName := by
  unfold typedName
  refine .andThen hs (type_outcome s hs) ?_
  intro ts ty rest hrest hty hended
  refine .map ((hended.expect (by decide) hproblem).follow hrest) ?_
  rintro _ x _ ⟨rfl, hx⟩
  exact .mk hty hx

theorem locals_outcome (s : Stream) (hs : s.Ended) :
    (locals s).Outcome s (Series Variable.Phrase) := by
  rw [locals]
  split
  · refine .loosen (.andThen hs (typedName_outcome SyntaxProblem.noConfusion s hs) ?_)
    rintro ts ⟨pos, ty, name⟩ s₁ h₁ hname hended₁
    refine .andThen hended₁ ((varRest_outcome pos ty name s₁ hended₁).follow h₁) ?_
    intro us d s₂ h₂ hd hended₂
    refine .map ((locals_outcome s₂ hended₂).follow h₂) ?_
    intro vs ds _ hds
    rw [← List.append_assoc]
    exact .cons (hd ts hname) hds
  · exact outcome_done .nil
termination_by s.size

theorem params_outcome (s : Stream) (hs : s.Ended) : (params s).Outcome s Params := by
  rw [params]
  refine .bind (typedName_outcome SyntaxProblem.noConfusion s hs) ?_
  rintro ts ⟨pos, ty, name⟩ rest hrest hname hpast hts
  dsimp only
  split
  · exact ⟨ts, hpast, hts, .one hname⟩
  · rename_i inner hinner haccept
    obtain ⟨c, hahead, hcomma⟩ := Stream.accept?_eq_some haccept
    have hc := Token.ne_eof hcomma (by decide)
    have hended := (hs.past hpast hts).after hahead hc
    refine .past hpast hts (.taken hahead hc (.map
      (((params_outcome inner hended).within hinner).within hrest) ?_))
    intro us ps _ hps
    exact .more hname hcomma hps
termination_by s.size

theorem formals_outcome (s : Stream) (hs : s.Ended) : (formals s).Outcome s Formals := by
  unfold formals
  split
  · exact outcome_done .none
  · exact ((params_outcome s hs).loosen).imp fun _ _ h => .some h

/-! ## 5. Statements -/

/-- The position at the start of what was passed over. -/
theorem pos_eq_startOf {s : Stream} {n : Nat} {ts rest : List Token} {e : Expr}
    (h : s.ahead = ts ++ rest) (he : Phrase n ts e) : s.pos = startOf ts := by
  obtain ⟨t, us, rfl, -⟩ := he.head
  rw [Stream.pos_of_ahead h]
  rfl

theorem simple_outcome (s : Stream) (hs : s.Ended) : (simple s).Outcome s Clause := by
  unfold simple
  refine .bind (unary_outcome s hs) ?_
  intro ts target s₁ h₁ htarget hpast hts
  have hpos := pos_eq_startOf hpast htarget
  split
  · rename_i hcall
    rw [Bool.and_eq_true] at hcall
    exact ⟨ts, hpast, hts, hpos ▸ .call htarget hcall.1⟩
  · split
    · rename_i hlocation
      have hended₁ := hs.past hpast hts
      refine .past hpast hts (.andThen hended₁
        ((hended₁.expect (by decide) (by decide)).follow h₁) ?_)
      rintro _ a s₂ h₂ ⟨rfl, ha⟩ hended₂
      refine .map ((expression_outcome s₂ hended₂).within h₂) ?_
      intro us value _ hvalue
      exact hpos ▸ .assign htarget hlocation ha hvalue
    · -- the fault is told at the first token of the target
      obtain ⟨t, rest, hahead⟩ := hs.head
      exact outcome_unexpected SyntaxProblem.noConfusion hahead

theorem condition_outcome {start finish : SyntaxProblem} (hstart : start ≠ .inputEnded)
    (hfinish : finish ≠ .inputEnded) (s : Stream) (hs : s.Ended) :
    (condition start finish s).Outcome s Condition := by
  unfold condition
  refine .andThen hs (hs.expect (by decide) hstart) ?_
  rintro _ l s₁ h₁ ⟨rfl, hl⟩ hended₁
  refine .andThen hended₁ ((expression_outcome s₁ hended₁).within h₁) ?_
  intro ts cond s₂ h₂ hcond hended₂
  refine .map ((hended₂.expect (by decide) hfinish).follow h₂) ?_
  rintro _ r _ ⟨rfl, hr⟩
  exact .mk hl hcond hr

theorem returned_outcome {t : Token} (ht : t.IsWord "return") (s : Stream) (hs : s.Ended) :
    (returned t.pos s).Outcome s fun us st => Stmt.Phrase (t :: us) st := by
  unfold returned
  split
  · rename_i after h haccept
    obtain ⟨semi, hahead, hsemi⟩ := Stream.accept?_eq_some haccept
    exact .loosen (outcome_token hahead (Token.ne_eof hsemi (by decide)) (.retNone ht hsemi))
  · refine .loosen (.andThen hs (expression_outcome s hs) ?_)
    intro ts value rest hrest hvalue hended
    refine .map ((hended.expect (by decide) (by decide)).follow hrest) ?_
    rintro _ semi _ ⟨rfl, hsemi⟩
    exact .retSome ht hvalue hsemi

theorem clauses_outcome (s : Stream) (hs : s.Ended) : (clauses s).Outcome s ForClauses := by
  unfold clauses
  refine .andThen hs (hs.expect (by decide) (by decide)) ?_
  rintro _ l s₁ h₁ ⟨rfl, hl⟩ hended₁
  refine .andThen hended₁ ((simple_outcome s₁ hended₁).within h₁) ?_
  intro ts init s₂ h₂ hinit hended₂
  refine .andThen hended₂ ((hended₂.expect (by decide) (by decide)).follow h₂) ?_
  rintro _ semi₁ s₃ h₃ ⟨rfl, hsemi₁⟩ hended₃
  refine .andThen hended₃ ((expression_outcome s₃ hended₃).within h₃) ?_
  intro us cond s₄ h₄ hcond hended₄
  refine .andThen hended₄ ((hended₄.expect (by decide) (by decide)).follow h₄) ?_
  rintro _ semi₂ s₅ h₅ ⟨rfl, hsemi₂⟩ hended₅
  refine .andThen hended₅ ((simple_outcome s₅ hended₅).within h₅) ?_
  intro vs step s₆ h₆ hstep hended₆
  refine .map ((hended₆.expect (by decide) (by decide)).follow h₆) ?_
  rintro _ r _ ⟨rfl, hr⟩
  exact .mk hl hinit hsemi₁ hcond hsemi₂ hstep hr

mutual

theorem body_outcome (s : Stream) (hs : s.Ended) : (body s).Outcome s Block.Phrase := by
  rw [body]
  split
  · rename_i htake
    exact absurd htake hs.not_take?_none
  · rename_i t next hnext htake
    have hahead := Stream.take?_eq_some htake
    split
    · rename_i hlbrace
      have ht := Token.ne_eof hlbrace (by decide)
      have hinside := hs.after hahead ht
      refine .taken hahead ht (.andThen hinside ((locals_outcome next hinside).follow hnext) ?_)
      intro ts ds s₁ h₁ hds hended₁
      refine .andThen hended₁ ((statements_outcome s₁ hended₁).follow h₁) ?_
      intro us sts s₂ h₂ hsts hended₂
      refine .map ((hended₂.expect (by decide) (by decide)).follow h₂) ?_
      rintro _ r _ ⟨rfl, hr⟩
      exact .mk hlbrace hds hsts hr
    · exact outcome_error ⟨SyntaxProblem.noConfusion, hahead ▸ List.mem_cons_self⟩
termination_by weight s 0
decreasing_by all_goals simp only [weight]; omega

theorem statements_outcome (s : Stream) (hs : s.Ended) :
    (statements s).Outcome s Stmt.Phrases := by
  rw [statements]
  split
  · exact outcome_done .nil
  · split
    · obtain ⟨t, rest, hahead⟩ := hs.head
      exact outcome_unexpected SyntaxProblem.noConfusion hahead
    · refine .loosen (.andThen hs (statement_outcome s hs) ?_)
      intro ts st rest hrest hst hended
      refine .map ((statements_outcome rest hended).follow hrest) ?_
      intro us sts _ hsts
      exact .cons hst hsts
termination_by weight s 2
decreasing_by all_goals simp only [weight]; omega

theorem statement_outcome (s : Stream) (hs : s.Ended) : (statement s).Outcome s Stmt.Phrase := by
  rw [statement]
  split
  · rename_i htake
    exact absurd htake hs.not_take?_none
  · rename_i t next hnext htake
    have hahead := Stream.take?_eq_some htake
    split
    · rename_i hkeyword
      have ht := Token.ne_eof hkeyword (by decide)
      have hinside := hs.after hahead ht
      split
      · rename_i htext
        exact .taken hahead ht ((returned_outcome ⟨hkeyword, htext⟩ next hinside).follow hnext)
      · rename_i htext
        refine .taken hahead ht (.andThen hinside
          ((condition_outcome (by decide) (by decide) next hinside).follow hnext) ?_)
        intro ts cond s₁ h₁ hcond hended₁
        refine .bind ((body_outcome s₁ hended₁).within h₁) ?_
        intro us yes s₂ h₂ hyes hpast hus
        split
        · exact ⟨us, hpast, hus, .ifThen ⟨hkeyword, htext⟩ hcond hyes⟩
        · rename_i s₃ h₃ haccept
          obtain ⟨w, hahead₂, hword⟩ := Stream.acceptKeyword?_eq_some haccept
          have hw := Token.ne_eof hword.keyword (by decide)
          have hended₃ := (hended₁.past hpast hus).after hahead₂ hw
          refine .past hpast hus (.taken hahead₂ hw (.map
            (((body_outcome s₃ hended₃).within h₃).within h₂) ?_))
          intro vs no _ hno
          exact .ifElse ⟨hkeyword, htext⟩ hcond hyes hword hno
      · rename_i htext
        refine .taken hahead ht (.andThen hinside
          ((condition_outcome (by decide) (by decide) next hinside).follow hnext) ?_)
        intro ts cond s₁ h₁ hcond hended₁
        refine .map ((body_outcome s₁ hended₁).within h₁) ?_
        intro us b _ hb
        exact .whileLoop ⟨hkeyword, htext⟩ hcond hb
      · rename_i htext
        refine .taken hahead ht (.andThen hinside
          ((clauses_outcome next hinside).follow hnext) ?_)
        rintro ts ⟨init, cond, step⟩ s₁ h₁ hclauses hended₁
        refine .map ((body_outcome s₁ hended₁).within h₁) ?_
        intro us b _ hb
        exact .forLoop ⟨hkeyword, htext⟩ hclauses hb
      · exact outcome_error ⟨SyntaxProblem.noConfusion, hahead ▸ List.mem_cons_self⟩
    · refine .andThen hs (simple_outcome s hs) ?_
      intro ts st rest hrest hst hended
      refine .map ((hended.expect (by decide) (by decide)).follow hrest) ?_
      rintro _ semi _ ⟨rfl, hsemi⟩
      exact .clause hst hsemi
termination_by weight s 1
decreasing_by all_goals simp only [weight]; omega

end

/-! ## 6. Programs -/

/-- A semicolon makes a prototype of what stands before it, a block a function. -/
theorem functionRest_outcome {l r : Token} {ts us : List Token} {pos : Position} {ty : Ty}
    {name : String} {ps : List Decl} (hname : TypedName ts (pos, ty, name)) (hl : l.kind = .lparen)
    (hps : Formals us ps) (hr : r.kind = .rparen) (s : Stream) (hs : s.Ended) :
    (functionRest ⟨pos, name, ty⟩ ps s).Outcome s fun vs d =>
      Decl.Phrase (ts ++ l :: (us ++ r :: vs)) d := by
  unfold functionRest
  split
  · rename_i after h haccept
    obtain ⟨semi, hahead, hsemi⟩ := Stream.accept?_eq_some haccept
    exact .loosen (outcome_token hahead (Token.ne_eof hsemi (by decide))
      (.prototype hname hl hps hr hsemi))
  · refine .loosen (.map (body_outcome s hs) ?_)
    intro vs b _ hb
    exact .function hname hl hps hr hb

theorem declaration_outcome (s : Stream) (hs : s.Ended) :
    (declaration s).Outcome s Decl.Phrase := by
  unfold declaration
  refine .andThen hs (typedName_outcome SyntaxProblem.noConfusion s hs) ?_
  rintro ts ⟨pos, ty, name⟩ rest hrest hname hended
  dsimp only
  split
  · exact ((varRest_outcome pos ty name rest hended).follow hrest).imp
      fun us d h => .var (h ts hname)
  · rename_i inner hinner haccept
    obtain ⟨l, hahead, hlparen⟩ := Stream.accept?_eq_some haccept
    have hl := Token.ne_eof hlparen (by decide)
    have hinside := hended.after hahead hl
    refine .within (.taken hahead hl (.andThen hinside
      ((formals_outcome inner hinside).follow hinner) ?_)) hrest
    intro us ps s₁ h₁ hps hended₁
    refine .andThen hended₁ ((hended₁.expect (by decide) (by decide)).follow h₁) ?_
    rintro _ r s₂ h₂ ⟨rfl, hr⟩ hended₂
    exact (functionRest_outcome hname hlparen hps hr s₂ hended₂).follow h₂

theorem declarations_outcome (s : Stream) (hs : s.Ended) :
    (declarations s).Outcome s (Series Decl.Phrase) := by
  rw [declarations]
  split
  · exact outcome_done .nil
  · refine .loosen (.andThen hs (declaration_outcome s hs) ?_)
    intro ts d rest hrest hd hended
    refine .map ((declarations_outcome rest hended).follow hrest) ?_
    intro us ds _ hds
    exact .cons hd hds
termination_by s.size

/-- Declarations are read until nothing is there or the end of input is met. -/
theorem declarations_stop (s : Stream) :
    (declarations s).Gives fun _ rest => (rest.here.isNone || rest.isAt .eof) = true := by
  rw [declarations]
  split
  · rename_i hstop
    exact gives_done hstop
  · refine .loosen (.andThen (P := fun _ _ => True) (fun _ _ => trivial) ?_)
    intro d rest hrest _
    refine .andThen ((declarations_stop rest).follow hrest) ?_
    intro ds after h hstop
    exact gives_ok hstop
termination_by s.size

end Parse

end CMinusMinus
