/-
  File:      CMinusMinus/Proofs/FreshNames.lean
  Subject:   What an allocator hands out is new, over every sequence of requests.

  An allocator is asked for slots, constants and labels, and told where functions begin, in any order.
  Each space and the labels have a counter: a request is either answered with the name of the counter's
  number, and then the counter goes up by one, or it leaves the counter alone. So the names that come
  from one counter are those of consecutive numbers, as long as nobody sets it back; and names of
  different counters begin with different characters.

  * `Allocation`, `Reply`, `Allocator.serve` -- what is asked and what is answered;
  * `Counts` -- one counter, and `Counts.names_eq` what it names over a whole run;
  * `FreshNames` -- what holds of all names of a run.
-/
import CMinusMinus.Proofs.OperandText
import Mathlib.Data.List.Nodup

namespace CMinusMinus

/-! ## 1. Requests and replies -/

/-- What is asked of an allocator. -/
inductive Allocation where
  /-- A slot of a space, by its number. -/
  | slot (space : Space)
  /-- A slot of a space, by its address. -/
  | address (space : Space)
  | temporary
  /-- A constant, by its address. -/
  | constant (text : String)
  /-- A constant put straight into the pool, by its number. -/
  | pooled (text : String)
  | label
  /-- The start of a function. -/
  | reset
  deriving DecidableEq, Repr

/-- What an allocator answers. -/
inductive Reply where
  | number (n : Int)
  | name (text : String)
  | refused (message : String)
  | done
  deriving DecidableEq, Repr

/-- An answered request. -/
structure Exchange where
  request : Allocation
  reply : Reply
  deriving DecidableEq, Repr

namespace Allocator

/-- Answers one request. -/
def serve (a : Allocator) : Allocation → Reply × Allocator
  | .slot space =>
      match a.newAddress? space with
      | some (address, a) => (.number address.slot, a)
      | none => (.refused bareConstantMessage, a)
  | .address space =>
      match a.newAddress? space with
      | some (address, a) => (.name address.text, a)
      | none => (.refused bareConstantMessage, a)
  | .temporary => (.name a.newTemporary.1.text, a.newTemporary.2)
  | .constant text => (.name (a.addConstant text).1.text, (a.addConstant text).2)
  | .pooled text => (.number (a.addToPool text).1.slot, (a.addToPool text).2)
  | .label => (.name a.newLabel.1.text, a.newLabel.2)
  | .reset => (.done, a.resetFunction)

/-- The allocator after a sequence of requests. -/
def after (a : Allocator) (requests : List Allocation) : Allocator :=
  requests.foldl (fun a q => (a.serve q).2) a

/-- The answers to a sequence of requests. -/
def log (a : Allocator) : List Allocation → List Exchange
  | [] => []
  | q :: requests => ⟨q, (a.serve q).1⟩ :: (a.serve q).2.log requests

@[simp] theorem after_cons (a : Allocator) (q : Allocation) (requests : List Allocation) :
    a.after (q :: requests) = (a.serve q).2.after requests := rfl

theorem after_append (a : Allocator) (before since : List Allocation) :
    a.after (before ++ since) = (a.after before).after since :=
  List.foldl_append

theorem log_append (a : Allocator) (before since : List Allocation) :
    a.log (before ++ since) = a.log before ++ (a.after before).log since := by
  induction before generalizing a with
  | nil => rfl
  | cons q before ih => exact congrArg (⟨q, (a.serve q).1⟩ :: ·) (ih _)

/-- What stands in a log is the answer to a request of the sequence. -/
theorem exists_of_mem_log {a : Allocator} {requests : List Allocation} {x : Exchange}
    (h : x ∈ a.log requests) : ∃ before q since, requests = before ++ q :: since ∧
      x = ⟨q, ((a.after before).serve q).1⟩ := by
  induction requests generalizing a with
  | nil => cases h
  | cons q requests ih =>
    obtain rfl | h := List.mem_cons.mp h
    · exact ⟨[], q, requests, rfl, rfl⟩
    · obtain ⟨before, r, since, hsplit, hx⟩ := ih h
      exact ⟨q :: before, r, since, congrArg (q :: ·) hsplit, hx⟩

/-- How many slots of a space are taken; all constants are in the pool, counted or not. -/
def taken (a : Allocator) : Space → Nat
  | .constant => a.pool.length
  | space => a.count space

theorem taken_eq_count (a : Allocator) {space : Space} (h : space ≠ .constant) :
    a.taken space = a.count space := by
  cases space <;> first | rfl | exact absurd rfl h

end Allocator

/-! ## 2. The names in a log -/

/-- The space that a request takes a slot of; a constant without a text is refused. -/
def Allocation.space? : Allocation → Option Space
  | .slot .constant | .address .constant => none
  | .slot space | .address space => some space
  | .temporary => some .temporary
  | .constant _ | .pooled _ => some .constant
  | .label | .reset => none

/-- The text that a request brings for the pool. -/
def Allocation.text? : Allocation → Option String
  | .constant text | .pooled text => some text
  | _ => none

/-- The request is for a constant without a text. -/
def Allocation.IsBare (q : Allocation) : Prop := q = .slot .constant ∨ q = .address .constant

/-- The name in a reply; a bare number stands for the address in the space. -/
def Reply.nameIn? (space : Space) : Reply → Option String
  | .number n => some (Address.mk space n).text
  | .name text => some text
  | .refused _ | .done => none

/-- The address of a space that an exchange hands out. -/
def Exchange.address? (space : Space) (x : Exchange) : Option String :=
  if x.request.space? = some space then x.reply.nameIn? space else none

/-- The label that an exchange hands out. -/
def Exchange.label? (x : Exchange) : Option String :=
  match x.request, x.reply with
  | .label, .name text => some text
  | _, _ => none

/-- The addresses of a space in a log, in order. -/
def addressesIn (space : Space) (log : List Exchange) : List String :=
  log.filterMap (Exchange.address? space)

/-- The labels in a log, in order. -/
def labelsIn (log : List Exchange) : List String := log.filterMap Exchange.label?

/-! ## 3. Counters -/

/-- A counter: requests that ask get the name of its number and move it on by one, the others leave it
    alone, as far as they are allowed. -/
structure Counts (asks allowed : Allocation → Prop) (given : Exchange → Option String)
    (name : Nat → String) (counter : Allocator → Nat) : Prop where
  asked : ∀ (a : Allocator) (q : Allocation), asks q →
    given ⟨q, (a.serve q).1⟩ = some (name (counter a)) ∧ counter (a.serve q).2 = counter a + 1
  unasked : ∀ (a : Allocator) (q : Allocation), ¬ asks q → allowed q →
    given ⟨q, (a.serve q).1⟩ = none ∧ counter (a.serve q).2 = counter a

section Counting

variable {asks allowed : Allocation → Prop} [DecidablePred asks] {given : Exchange → Option String}
  {name : Nat → String} {counter : Allocator → Nat}

/-- **Over a run, a counter names consecutive numbers**, one for each request that asks. -/
theorem Counts.names_eq (hc : Counts asks allowed given name counter) (a : Allocator)
    {requests : List Allocation} (hallowed : ∀ q ∈ requests, allowed q) :
    (a.log requests).filterMap given =
        (List.range' (counter a) (requests.countP asks)).map name ∧
      counter (a.after requests) = counter a + requests.countP asks := by
  induction requests generalizing a with
  | nil => exact ⟨rfl, rfl⟩
  | cons q requests ih =>
    obtain ⟨hq, hrest⟩ := List.forall_mem_cons.mp hallowed
    obtain ⟨hnames, hcount⟩ := ih (a.serve q).2 hrest
    by_cases hasks : asks q
    · obtain ⟨hgiven, hnext⟩ := hc.asked a q hasks
      rw [hnext] at hnames hcount
      rw [List.countP_cons_of_pos (p := fun q => decide (asks q)) (decide_eq_true hasks),
        Allocator.log, Allocator.after_cons, List.filterMap_cons_some hgiven, hnames,
        List.range'_succ, hcount]
      exact ⟨rfl, by omega⟩
    · obtain ⟨hgiven, hnext⟩ := hc.unasked a q hasks hq
      rw [hnext] at hnames hcount
      rw [List.countP_cons_of_neg (p := fun q => decide (asks q)) (by simpa using hasks),
        Allocator.log, Allocator.after_cons, List.filterMap_cons_none hgiven]
      exact ⟨hnames, hcount⟩

/-- Names that tell numbers apart come once each. -/
theorem Counts.nodup (hc : Counts asks allowed given name counter) (hname : name.Injective)
    (a : Allocator) {requests : List Allocation} (hallowed : ∀ q ∈ requests, allowed q) :
    ((a.log requests).filterMap given).Nodup := by
  rw [(hc.names_eq a hallowed).1]
  exact (List.nodup_range' 1).map hname

theorem Counts.length_eq (hc : Counts asks allowed given name counter) (a : Allocator)
    {requests : List Allocation} (hallowed : ∀ q ∈ requests, allowed q) :
    ((a.log requests).filterMap given).length = requests.countP asks := by
  rw [(hc.names_eq a hallowed).1, List.length_map, List.length_range']

end Counting

/-! ## 4. The counters of an allocator -/

/-- The spaces that outlive a function. -/
def Space.Lasting (space : Space) : Prop := space = .global ∨ space = .constant

/-- **Labels are counted**, through all functions. -/
theorem label_counts : Counts (· = .label) (fun _ => True) Exchange.label? (fun n => (Label.mk n).text)
    Allocator.labels where
  asked := by
    rintro a q rfl
    exact ⟨rfl, rfl⟩
  unasked := by
    intro a q hq _
    cases q with
    | label => exact absurd rfl hq
    | slot space => cases space <;> exact ⟨rfl, rfl⟩
    | address space => cases space <;> exact ⟨rfl, rfl⟩
    | _ => exact ⟨rfl, rfl⟩

/-- **The slots of a space are counted**, from one reset to the next if it does not outlive a
    function. -/
theorem space_counts (space : Space) :
    Counts (·.space? = some space) (fun q => q = .reset → space.Lasting) (Exchange.address? space)
      (fun n => (Address.mk space n).text) (·.taken space) where
  asked := by
    intro a q hq
    have haddress : ∀ reply, Exchange.address? space ⟨q, reply⟩ = reply.nameIn? space :=
      fun reply => if_pos hq
    rw [haddress]
    cases q with
    | slot s => cases s <;> cases hq <;> exact ⟨rfl, rfl⟩
    | address s => cases s <;> cases hq <;> exact ⟨rfl, rfl⟩
    | temporary => cases hq; exact ⟨rfl, rfl⟩
    | constant text => cases hq; exact ⟨rfl, List.length_append⟩
    | pooled text => cases hq; exact ⟨rfl, List.length_append⟩
    | label => cases hq
    | reset => cases hq
  unasked := by
    intro a q hq hreset
    refine ⟨if_neg hq, ?_⟩
    cases q with
    | slot s => cases s <;> cases space <;> first | rfl | exact absurd rfl hq
    | address s => cases s <;> cases space <;> first | rfl | exact absurd rfl hq
    | temporary => cases space <;> first | rfl | exact absurd rfl hq
    | constant text => cases space <;> first | rfl | exact absurd rfl hq
    | pooled text => cases space <;> first | rfl | exact absurd rfl hq
    | label => cases space <;> rfl
    | reset => obtain rfl | rfl := hreset rfl <;> rfl

theorem label_name_injective : (fun n => (Label.mk n).text).Injective :=
  fun _ _ h => congrArg Label.number (Label.text_inj.mp h)

theorem address_name_injective (space : Space) :
    (fun n : Nat => (Address.mk space n).text).Injective :=
  fun _ _ h => Int.ofNat_inj.mp (congrArg Address.slot (Address.text_inj.mp h))

/-- What stands in a log as an address of a space begins with its sign. -/
theorem head_of_mem_addressesIn {space : Space} {a : Allocator} {requests : List Allocation}
    {text : String} (h : text ∈ addressesIn space (a.log requests)) :
    text.toList.head? = some space.sign := by
  obtain ⟨x, hx, hgiven⟩ := List.mem_filterMap.mp h
  obtain ⟨before, q, since, -, rfl⟩ := Allocator.exists_of_mem_log hx
  have hspace : q.space? = some space := by
    by_contra hne
    rw [Exchange.address?, if_neg hne] at hgiven
    cases hgiven
  obtain rfl := Option.some.inj (hgiven.symm.trans ((space_counts space).asked _ q hspace).1)
  rw [Address.toList_text]
  rfl

/-- What stands in a log as a label begins with a tilde. -/
theorem startsTilde_of_mem_labelsIn {a : Allocator} {requests : List Allocation} {text : String}
    (h : text ∈ labelsIn (a.log requests)) : StartsTilde text := by
  unfold labelsIn at h
  rw [(label_counts.names_eq a fun _ _ => trivial).1] at h
  obtain ⟨n, -, rfl⟩ := List.mem_map.mp h
  exact (Label.mk n).startsTilde

/-! ## 5. The pool -/

namespace Allocator

/-- No request takes anything out of the pool. -/
theorem pool_prefix_serve (a : Allocator) (q : Allocation) : a.pool <+: (a.serve q).2.pool := by
  cases q with
  | slot space => cases space <;> exact List.prefix_rfl
  | address space => cases space <;> exact List.prefix_rfl
  | constant text => exact List.prefix_append _ _
  | pooled text => exact List.prefix_append _ _
  | _ => exact List.prefix_rfl

theorem pool_prefix_after (a : Allocator) (requests : List Allocation) :
    a.pool <+: (a.after requests).pool := by
  induction requests generalizing a with
  | nil => exact List.prefix_rfl
  | cons q requests ih => exact (a.pool_prefix_serve q).trans (ih _)

/-- A text for the pool is answered with the address under which it stands there. -/
theorem serve_text (a : Allocator) {q : Allocation} {text : String} (h : q.text? = some text) :
    Exchange.address? .constant ⟨q, (a.serve q).1⟩ = some (Address.mk .constant a.pool.length).text ∧
      (a.serve q).2.pool[a.pool.length]? = some text := by
  cases q with
  | constant t => cases h; exact ⟨rfl, List.getElem?_concat_length⟩
  | pooled t => cases h; exact ⟨rfl, List.getElem?_concat_length⟩
  | _ => cases h

/-- Each text of a run stands at its address from then on. -/
theorem text_of_log {a : Allocator} {requests : List Allocation} {x : Exchange} {text : String}
    (hx : x ∈ a.log requests) (htext : x.request.text? = some text) :
    ∃ n : Nat, x.address? .constant = some (Address.mk .constant n).text ∧
      (a.after requests).pool[n]? = some text := by
  obtain ⟨before, q, since, rfl, rfl⟩ := exists_of_mem_log hx
  obtain ⟨haddress, hpool⟩ := (a.after before).serve_text htext
  obtain ⟨more, hmore⟩ := ((a.after before).serve q).2.pool_prefix_after since
  refine ⟨(a.after before).pool.length, haddress, ?_⟩
  rw [after_append, after_cons, ← hmore]
  exact (List.getElem?_append_left (List.getElem?_eq_some_iff.mp hpool).1).trans hpool

theorem serve_bare (a : Allocator) {q : Allocation} (h : q.IsBare) :
    a.serve q = (.refused bareConstantMessage, a) := by
  obtain rfl | rfl := h <;> rfl

/-- Nothing but a constant without a text is refused. -/
theorem isBare_of_refused {a : Allocator} {q : Allocation} {message : String}
    (h : (a.serve q).1 = .refused message) : q.IsBare := by
  cases q with
  | slot space => cases space <;> first | exact .inl rfl | cases h
  | address space => cases space <;> first | exact .inr rfl | cases h
  | _ => cases h

end Allocator

/-! ## 6. Fresh names -/

/-- The requests end where a function begins, or nothing has been asked yet. -/
def AtStart (before : List Allocation) : Prop := before = [] ∨ before.getLast? = some .reset

theorem taken_after_atStart {before : List Allocation} (h : AtStart before) {space : Space}
    (hspace : ¬ space.Lasting) : (({} : Allocator).after before).taken space = 0 := by
  have hzero : ∀ a : Allocator, (a.serve .reset).2.taken space = 0 := by
    intro a
    cases space <;> first | rfl | exact absurd (.inl rfl) hspace | exact absurd (.inr rfl) hspace
  obtain rfl | hlast := h
  · cases space <;> rfl
  · obtain ⟨earlier, rfl⟩ := List.getLast?_eq_some_iff.mp hlast
    rw [Allocator.after_append]
    exact hzero _

/-- What holds of all names that one allocator hands out over a sequence of requests. -/
structure FreshNames (requests : List Allocation) : Prop where
  /-- Every label asked for is a new one, through all functions. -/
  labels : (labelsIn (Allocator.log {} requests)).Nodup ∧
    (labelsIn (Allocator.log {} requests)).length = requests.count .label
  /-- From the start of a function on, its spaces give new addresses, as many as they count. -/
  perFunction : ∀ {before since : List Allocation} {space : Space}, requests = before ++ since →
    AtStart before → .reset ∉ since → space ∈ [Space.local, .param, .temporary] →
      (addressesIn space ((Allocator.after {} before).log since)).Nodup ∧
      (addressesIn space ((Allocator.after {} before).log since)).length =
        (Allocator.after {} requests).count space
  /-- Globals are new over the whole run, and as many as are counted. -/
  globals : (addressesIn .global (Allocator.log {} requests)).Nodup ∧
    (addressesIn .global (Allocator.log {} requests)).length =
      (Allocator.after {} requests).count .global
  /-- Constants are new over the whole run, and each stands in the pool under its address. -/
  constants : (addressesIn .constant (Allocator.log {} requests)).Nodup ∧
    ∀ x ∈ Allocator.log {} requests, ∀ text, x.request.text? = some text →
      ∃ n : Nat, x.address? .constant = some (Address.mk .constant n).text ∧
        (Allocator.after {} requests).pool[n]? = some text
  /-- Different spaces have different addresses, through all functions. -/
  spacesApart : ∀ {s t : Space}, s ≠ t →
    (addressesIn s (Allocator.log {} requests)).Disjoint (addressesIn t (Allocator.log {} requests))
  /-- No address is a label. -/
  labelsApart : ∀ space : Space,
    (addressesIn space (Allocator.log {} requests)).Disjoint (labelsIn (Allocator.log {} requests))
  /-- Only constants without a text are refused. -/
  refused : ∀ x ∈ Allocator.log {} requests, ∀ message, x.reply = .refused message → x.request.IsBare
  /-- A constant without a text is refused, and all goes on as if it had not been asked for. -/
  refusal : ∀ {before since : List Allocation} {q : Allocation}, requests = before ++ q :: since →
    q.IsBare →
      Allocator.log {} requests = Allocator.log {} before ++
        ⟨q, .refused bareConstantMessage⟩ :: (Allocator.after {} before).log since ∧
      Allocator.after {} requests = Allocator.after {} (before ++ since)

/-- **Fresh names are fresh**, whatever is asked in whatever order. -/
theorem names_fresh (requests : List Allocation) : FreshNames requests where
  labels := by
    refine ⟨label_counts.nodup label_name_injective {} fun _ _ => trivial, ?_⟩
    refine (label_counts.length_eq {} fun _ _ => trivial).trans ?_
    exact List.countP_congr fun q _ => by simp
  perFunction := by
    intro before since space hsplit hstart hreset hspace
    have hlasting : ¬ space.Lasting := by
      rintro (rfl | rfl) <;> exact absurd hspace (by decide)
    have hallowed : ∀ q ∈ since, q = .reset → space.Lasting :=
      fun q hq hqr => absurd (hqr ▸ hq) hreset
    have hcount := ((space_counts space).names_eq (Allocator.after {} before) hallowed).2
    rw [taken_after_atStart hstart hlasting, Nat.zero_add, ← Allocator.after_append, ← hsplit,
      Allocator.taken_eq_count _ fun h => hlasting (.inr h)] at hcount
    refine ⟨(space_counts space).nodup (address_name_injective space) _ hallowed, ?_⟩
    exact ((space_counts space).length_eq _ hallowed).trans hcount.symm
  globals := by
    have hallowed : ∀ q ∈ requests, q = .reset → Space.Lasting .global := fun _ _ _ => .inl rfl
    have hcount := ((space_counts .global).names_eq {} hallowed).2
    refine ⟨(space_counts .global).nodup (address_name_injective _) _ hallowed, ?_⟩
    exact ((space_counts .global).length_eq _ hallowed).trans
      (hcount.trans (Nat.zero_add _)).symm
  constants :=
    ⟨(space_counts .constant).nodup (address_name_injective _) _ fun _ _ _ => .inr rfl,
      fun _ hx _ htext => Allocator.text_of_log hx htext⟩
  spacesApart := by
    intro s t hne text hs ht
    have hmark := (head_of_mem_addressesIn hs).symm.trans (head_of_mem_addressesIn ht)
    exact hne (Space.sign_inj (Option.some.inj hmark))
  labelsApart := by
    intro space text haddress hlabel
    have hmark := (head_of_mem_addressesIn haddress).symm.trans (startsTilde_of_mem_labelsIn hlabel)
    cases space <;> exact absurd hmark (by decide)
  refused := by
    intro x hx message h
    obtain ⟨before, q, since, -, rfl⟩ := Allocator.exists_of_mem_log hx
    exact Allocator.isBare_of_refused h
  refusal := by
    rintro before since q rfl hq
    rw [Allocator.log_append, Allocator.after_append, Allocator.after_append, Allocator.log,
      Allocator.after_cons, Allocator.serve_bare _ hq]
    exact ⟨rfl, rfl⟩

-- a reset gives the same locals out again, but not the same labels
example :
    let log := Allocator.log {} [.address .local, .label, .slot .local, .reset, .label, .slot .local]
    addressesIn .local log = ["@0", "@1", "@0"] ∧ labelsIn log = ["~0", "~1"] := by
  decide +kernel

end CMinusMinus
