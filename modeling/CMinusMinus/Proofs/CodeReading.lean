/-
  File:      CMinusMinus/Proofs/CodeReading.lean
  Subject:   Code is read back from its text.

  Each line of a text of code ends with a line feed. The first character of a line tells a label, the
  first word of any other line is its mnemonic, and behind it stand the operands with commas between
  them; a string is written as it is, commas and all. Nothing is quoted, so this only works if no
  operand but a string holds a comma, and no operand at all a line feed.

  * `readCode` -- the lines of a text;
  * `Unbroken` -- texts without commas and line feeds, as operands, labels and names are;
  * `Line.Legible`, `Line.Legible.read` -- lines that are read back;
  * `Instr.Legible`, `readCode_programText` -- instructions whose lines are, and their texts.
-/
import CMinusMinus.Compilation
import CMinusMinus.Proofs.OperandText
import Mathlib.Data.List.Basic

namespace CMinusMinus

/-! ## 1. Reading -/

/-- The lines of a text, each ended by a line feed. -/
def linesIn (cs : List Char) : List (List Char) := (cs.splitOn '\n').dropLast

/-- Operands with commas between them, and a blank behind each comma. -/
def operandsIn (cs : List Char) : List String :=
  match cs.splitOn ',' with
  | [] => []
  | first :: others => String.ofList first :: others.map fun other => String.ofList (other.drop 1)

/-- The line with the text: a label up to its colon, a string, or a mnemonic with operands. -/
def Line.ofText (cs : List Char) : Line :=
  if cs.head? = some '~' then .ofLabel (String.ofList cs.dropLast)
  else
    let op := String.ofList (cs.takeWhile (· != ' '))
    let rest := (cs.dropWhile (· != ' ')).drop 1
    ⟨op, if op = "str" then [String.ofList rest] else operandsIn rest⟩

/-- The lines of code with the text. -/
def readCode (text : String) : List Line := (linesIn text.toList).map Line.ofText

/-- Lines without line feeds are told apart by the line feeds behind them. -/
theorem linesIn_unlines {lines : List String} (h : ∀ l ∈ lines, '\n' ∉ l.toList) :
    linesIn (unlines lines).toList = lines.map String.toList := by
  -- behind the last line feed stands one more line, an empty one
  have hjoin : (unlines lines).toList =
      ['\n'].intercalate (lines.map String.toList ++ [[]]) := by
    unfold unlines
    rw [String.toList_join]
    induction lines with
    | nil => rfl
    | cons l lines ih =>
      obtain ⟨rest, more, hrest⟩ := List.exists_cons_of_ne_nil
        (l := lines.map String.toList ++ [[]]) (by simp)
      rw [List.map_cons, List.flatMap_cons, ih (List.forall_mem_cons.mp h).2, List.map_cons,
        List.cons_append, hrest, List.intercalate_cons_cons, String.toList_append]
      rfl
  have hlines : ∀ cs ∈ lines.map String.toList ++ [[]], '\n' ∉ cs :=
    List.forall_mem_append.mpr ⟨List.forall_mem_map.mpr h, by simp⟩
  rw [linesIn, hjoin, List.splitOn_intercalate '\n' hlines (by simp), List.dropLast_concat]

/-! ## 2. Texts without commas and line feeds -/

/-- A text that is not taken for several operands or lines. -/
structure Unbroken (text : String) : Prop where
  comma : ',' ∉ text.toList
  newline : '\n' ∉ text.toList

/-- Texts of characters of a kind that commas and line feeds are not of. -/
theorem unbroken_of_forall {text : String} {p : Char → Bool} (h : ∀ c ∈ text.toList, p c = true)
    (hcomma : p ',' = false) (hnewline : p '\n' = false) : Unbroken text where
  comma hmem := absurd ((h _ hmem).symm.trans hcomma) (by decide)
  newline hmem := absurd ((h _ hmem).symm.trans hnewline) (by decide)

theorem unbroken_empty : Unbroken "" := ⟨List.not_mem_nil, List.not_mem_nil⟩

theorem Unbroken.cons {text text' : String} {c : Char} (h : Unbroken text')
    (htext : text.toList = c :: text'.toList) (hc : c ≠ ',' ∧ c ≠ '\n') : Unbroken text where
  comma := by
    rw [htext]
    exact List.not_mem_cons_of_ne_of_not_mem hc.1.symm h.comma
  newline := by
    rw [htext]
    exact List.not_mem_cons_of_ne_of_not_mem hc.2.symm h.newline

theorem unbroken_of_isDecimal {text : String} (h : Text.IsDecimal text) : Unbroken text :=
  ⟨h.not_mem (by decide), h.not_mem (by decide)⟩

theorem Operand.unbroken (v : Operand) : Unbroken v.text := by
  cases v with
  | absent => exact unbroken_empty
  | literal n => exact unbroken_of_isDecimal (Text.isDecimal_int n)
  | address a =>
    refine (unbroken_of_isDecimal (Text.isDecimal_int a.slot)).cons a.toList_text ?_
    cases a.space <;> decide

theorem Target.unbroken (t : Target) : Unbroken t.text := by
  cases t with
  | none => exact unbroken_empty
  | some l =>
    have hnumber := unbroken_of_isDecimal (Text.isDecimal_nat l.number)
    exact hnumber.cons (c := '~') String.toList_append (by decide)

/-- What stands in texts joined by a separator stands in one of them, or in the separator. -/
theorem mem_intercalate {c : Char} {sep : String} : ∀ {texts : List String},
    c ∈ (String.intercalate sep texts).toList → c ∈ sep.toList ∨ ∃ t ∈ texts, c ∈ t.toList
  | [], h => by cases h
  | [t], h => .inr ⟨t, List.mem_cons_self, by simpa using h⟩
  | t :: t' :: texts, h => by
      rw [String.intercalate_cons_cons, String.toList_append, String.toList_append] at h
      rcases List.mem_append.mp h with h | h
      · rcases List.mem_append.mp h with h | h
        · exact .inr ⟨t, List.mem_cons_self, h⟩
        · exact .inl h
      · exact (mem_intercalate h).imp_right fun ⟨u, hu, h⟩ => ⟨u, List.mem_cons_of_mem _ hu, h⟩

/-- The code label of a function is made of what words are made of. -/
theorem unbroken_codeLabel {name : String} {params : List Ty} (hname : IsName name)
    (hparams : ∀ ty ∈ params, ty.name ∈ Ty.names) : Unbroken (codeLabel name params) := by
  have hwords : ∀ w ∈ name :: params.map Ty.name, ∀ c ∈ w.toList, Text.continuesWord c = true := by
    refine List.forall_mem_cons.mpr ⟨?_, List.forall_mem_map.mpr fun ty hty => ?_⟩
    · obtain ⟨c, rest, hname, hstart, hrest⟩ := hname.word
      rw [hname]
      exact List.forall_mem_cons.mpr ⟨Text.continuesWord_of_startsWord c hstart, hrest⟩
    · have hall : Ty.names.all (fun w => w.toList.all Text.continuesWord) = true := by decide +kernel
      exact List.all_eq_true.mp (List.all_eq_true.mp hall _ (hparams ty hty))
  refine unbroken_of_forall (p := Text.continuesWord) (fun c hc => ?_) (by decide +kernel)
    (by decide +kernel)
  obtain hc | ⟨w, hw, hc⟩ := mem_intercalate hc
  · obtain rfl := List.mem_singleton.mp hc
    decide +kernel
  · exact hwords w hw c hc

/-! ## 3. Lines -/

/-- A first word that is taken for a mnemonic with operands behind it. -/
structure IsMnemonic (op : String) : Prop where
  blank : ' ' ∉ op.toList
  newline : '\n' ∉ op.toList
  tilde : op.toList.head? ≠ some '~'
  label : op ≠ Line.labelOp
  string : op ≠ "str"
  nonempty : op ≠ ""

/-- Lines that can be read back. -/
inductive Line.Legible : Line → Prop where
  | label (l : Label) : Legible (.ofLabel l.text)
  | string {text : String} (htext : '\n' ∉ text.toList) : Legible ⟨"str", [text]⟩
  | plain {op first : String} {others : List String} (hop : IsMnemonic op)
      (hargs : ∀ a ∈ first :: others, Unbroken a) : Legible ⟨op, first :: others⟩

/-- Operands with commas between them, and blanks behind the commas. -/
theorem toList_operands (first : String) (others : List String) :
    (String.intercalate ", " (first :: others)).toList =
      [','].intercalate (first.toList :: others.map fun a => ' ' :: a.toList) := by
  induction others generalizing first with
  | nil => simp
  | cons second others ih =>
    rw [String.intercalate_cons_cons, String.toList_append, String.toList_append, ih, List.map_cons,
      List.intercalate_cons_cons]
    cases others with
    | nil => simp
    | cons third others => simp [List.intercalate_cons_cons]

theorem operandsIn_toList {first : String} {others : List String}
    (h : ∀ a ∈ first :: others, ',' ∉ a.toList) :
    operandsIn (String.intercalate ", " (first :: others)).toList = first :: others := by
  obtain ⟨hfirst, hothers⟩ := List.forall_mem_cons.mp h
  have hpieces : ∀ cs ∈ first.toList :: others.map fun a => ' ' :: a.toList, ',' ∉ cs := by
    refine List.forall_mem_cons.mpr ⟨hfirst, List.forall_mem_map.mpr fun a ha => ?_⟩
    exact List.not_mem_cons_of_ne_of_not_mem (by decide) (hothers a ha)
  rw [operandsIn, toList_operands, List.splitOn_intercalate ',' hpieces (by simp)]
  simp [Function.comp_def]

theorem Line.toList_label (l : Label) :
    (Line.ofLabel l.text).text.toList = l.text.toList ++ [':'] := String.toList_append

theorem Line.toList_plain {op first : String} (others : List String) (hop : op ≠ labelOp) :
    (Line.mk op (first :: others)).text.toList =
      op.toList ++ ' ' :: (String.intercalate ", " (first :: others)).toList := by
  rw [Line.text, if_neg hop, if_neg (by simp), String.toList_append, String.toList_append]
  simp

/-- Up to its first blank a line is its mnemonic, behind it stand its operands. -/
theorem ofText_word {op rest : List Char} (hblank : ' ' ∉ op) (hhead : op.head? ≠ some '~')
    (hop : op ≠ []) :
    Line.ofText (op ++ ' ' :: rest) = ⟨String.ofList op,
      if String.ofList op = "str" then [String.ofList rest] else operandsIn rest⟩ := by
  have hword : ∀ c ∈ op, (c != ' ') = true := fun c hc => bne_iff_ne.mpr fun h => hblank (h ▸ hc)
  have htilde : (op ++ ' ' :: rest).head? ≠ some '~' := by
    rwa [List.head?_append_of_ne_nil _ hop]
  rw [Line.ofText, if_neg htilde, List.takeWhile_append_of_pos hword,
    List.dropWhile_append_of_pos hword]
  simp

/-- **A legible line is read back from its text.** -/
theorem Line.Legible.read {line : Line} (h : line.Legible) : Line.ofText line.text.toList = line := by
  cases h with
  | label l =>
    have hhead : (l.text.toList ++ [':']).head? = some '~' := by
      rw [List.head?_append, l.startsTilde]
      rfl
    rw [Line.toList_label, Line.ofText, if_pos hhead, List.dropLast_concat, String.ofList_toList]
  | @string text htext =>
    rw [Line.toList_plain [] (by decide), ofText_word (by decide) (by decide) (by decide)]
    simp
  | @plain op first others hop hargs =>
    have hne : op.toList ≠ [] := fun hnil => hop.nonempty (String.toList_eq_nil_iff.mp hnil)
    rw [Line.toList_plain others hop.label, ofText_word hop.blank hop.tilde hne,
      String.ofList_toList, if_neg hop.string, operandsIn_toList fun a ha => (hargs a ha).comma]

/-- A legible line is one line. -/
theorem Line.Legible.newline {line : Line} (h : line.Legible) : '\n' ∉ line.text.toList := by
  cases h with
  | label l =>
    rw [Line.toList_label]
    exact List.not_mem_append (Target.unbroken (some l)).newline (by decide)
  | @string text htext =>
    rw [Line.toList_plain [] (by decide)]
    simpa using htext
  | @plain op first others hop hargs =>
    rw [Line.toList_plain others hop.label]
    refine List.not_mem_append hop.newline (List.not_mem_cons_of_ne_of_not_mem (by decide) ?_)
    intro hmem
    obtain hmem | ⟨a, ha, hmem⟩ := mem_intercalate hmem
    · exact absurd hmem (by decide)
    · exact (hargs a ha).newline hmem

/-! ## 4. Instructions -/

/-- Instructions whose lines can be read back: strings are written on one line, and the labels of
    functions are no two operands. -/
def Instr.Legible : Instr → Prop
  | .string text => '\n' ∉ text.toList
  | .entry name _ | .func name | .endFunc name | .call name _ | .callValue _ name _ | .ret name
  | .retValue name _ => Unbroken name
  | _ => True

theorem ArithOp.isMnemonic (op : ArithOp) : IsMnemonic op.mnemonic := by
  cases op <;> constructor <;> decide

theorem Comparison.isMnemonic (test : Comparison) : IsMnemonic test.mnemonic := by
  cases test <;> constructor <;> decide

/-- Legible instructions have legible lines. -/
theorem Instr.Legible.line {i : Instr} (h : i.Legible) : i.line.Legible := by
  have hv := Operand.unbroken
  have ht := Target.unbroken
  have hn := fun n => unbroken_of_isDecimal (Text.isDecimal_nat n)
  have hword : ∀ op ∈ ["entry", "func", "funci", "efunc", "move", "arrg", "arrs", "jump", "arg",
      "call", "callf", "ret", "retf", "read", "write"], IsMnemonic op := by
    simp only [List.forall_mem_cons]
    refine ⟨?_, ?_, ?_, ?_, ?_, ?_, ?_, ?_, ?_, ?_, ?_, ?_, ?_, ?_, ?_, by simp⟩ <;>
      constructor <;> decide
  cases i with
  | string text => exact .string h
  | label l => exact .label l
  | arith op dest left right => exact .plain op.isMnemonic (by simp [hv])
  | branch test left right target => exact .plain test.isMnemonic (by simp [hv, ht])
  | entry label globals => exact .plain (hword _ (by simp)) (by simpa [Instr.Legible, hn] using h)
  | func label => exact .plain (hword _ (by simp)) (by simpa [Instr.Legible] using h)
  | frame locals temporaries => exact .plain (hword _ (by simp)) (by simp [hn])
  | endFunc label => exact .plain (hword _ (by simp)) (by simpa [Instr.Legible] using h)
  | move dest source => exact .plain (hword _ (by simp)) (by simp [hv])
  | load dest base index => exact .plain (hword _ (by simp)) (by simp [hv])
  | store base index source => exact .plain (hword _ (by simp)) (by simp [hv])
  | jump target => exact .plain (hword _ (by simp)) (by simp [ht])
  | arg value place => exact .plain (hword _ (by simp)) (by simp [hv, hn])
  | call label args => exact .plain (hword _ (by simp)) (by simpa [Instr.Legible, hn] using h)
  | callValue dest label args =>
    exact .plain (hword _ (by simp)) (by simpa [Instr.Legible, hv, hn] using h)
  | ret label => exact .plain (hword _ (by simp)) (by simpa [Instr.Legible] using h)
  | retValue label value => exact .plain (hword _ (by simp)) (by simpa [Instr.Legible, hv] using h)
  | read dest => exact .plain (hword _ (by simp)) (by simp [hv])
  | write value => exact .plain (hword _ (by simp)) (by simp [hv])

/-- **The lines of legible code are read back from its text.** -/
theorem readCode_programText {code : List Instr} (h : ∀ i ∈ code, i.Legible) :
    readCode (programText code) = code.map Instr.line := by
  have hlines : ∀ l ∈ (code.map Instr.line).map Line.text, '\n' ∉ l.toList :=
    List.forall_mem_map.mpr (List.forall_mem_map.mpr fun i hi => (h i hi).line.newline)
  rw [readCode, programText, codeText, linesIn_unlines hlines, List.map_map, List.map_map,
    List.map_map]
  exact List.map_congr_left fun i hi => (h i hi).line.read

end CMinusMinus
