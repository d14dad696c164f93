/-
  File:      CMinusMinus/Proofs/Encoding.lean
  Subject:   Decoding undoes encoding.

  A character is written as one to four bytes. The decoder takes bytes from the front: a first byte
  says how many follow and how the second one is bounded. What it takes for a character are exactly
  the bytes that the character is written as; so bytes can be decoded exactly if they are written
  from a text, and a refusal points at the first place where no character is written.

  * `Sequence` -- the sequences of bytes that stand for a character;
  * `Sequence.encodeChar`, `sequence_encodeChar` -- they are what characters are written as;
  * `Sequence.at_eq`, `sequence_of_at` -- they are what the decoder takes for a character;
  * `decode_eq_ok_iff`, `breaks_of_decode` -- the bytes of a whole file.
-/
import CMinusMinus.Compilation.Source
import Mathlib.Tactic.Convert

namespace CMinusMinus

namespace Text

/-! ## 1. Sequences -/

/-- The byte lies between the numbers. -/
def Between (lo hi : Nat) (b : UInt8) : Prop := lo ≤ b.toNat ∧ b.toNat ≤ hi

theorem within_iff {lo hi b : UInt8} : within lo hi b = true ↔ Between lo.toNat hi.toNat b := by
  simp [within, Between, UInt8.le_iff_toNat_le]

/-- **The sequences of bytes that stand for a character**, with its number. Behind some first bytes
    the second one has narrower bounds: they keep out numbers that need fewer bytes, the
    surrogates, and what is too large. -/
inductive Sequence : List UInt8 → Nat → Prop where
  | one {a : UInt8} (ha : a.toNat < 0x80) : Sequence [a] a.toNat
  | two {a b : UInt8} (ha : Between 0xC2 0xDF a) (hb : Between 0x80 0xBF b) :
      Sequence [a, b] (a.toNat % 32 * 64 + payload b)
  | three {a b c : UInt8} (ha : Between 0xE0 0xEF a) (hb : Between 0x80 0xBF b)
      (hlow : a.toNat = 0xE0 → 0xA0 ≤ b.toNat) (hhigh : a.toNat = 0xED → b.toNat ≤ 0x9F)
      (hc : Between 0x80 0xBF c) :
      Sequence [a, b, c] ((a.toNat % 16 * 64 + payload b) * 64 + payload c)
  | four {a b c d : UInt8} (ha : Between 0xF0 0xF4 a) (hb : Between 0x80 0xBF b)
      (hlow : a.toNat = 0xF0 → 0x90 ≤ b.toNat) (hhigh : a.toNat = 0xF4 → b.toNat ≤ 0x8F)
      (hc : Between 0x80 0xBF c) (hd : Between 0x80 0xBF d) :
      Sequence [a, b, c, d]
        (((a.toNat % 8 * 64 + payload b) * 64 + payload c) * 64 + payload d)

theorem encodeChar_ofNat {n : Nat} (h : n.isValidChar) : String.utf8EncodeChar (Char.ofNat n) =
    if n ≤ 127 then [UInt8.ofNat n]
    else if n ≤ 2047 then [UInt8.ofNat (n / 64 % 32 + 192), UInt8.ofNat (n % 64 + 128)]
    else if n ≤ 65535 then
      [UInt8.ofNat (n / 4096 % 16 + 224), UInt8.ofNat (n / 64 % 64 + 128),
        UInt8.ofNat (n % 64 + 128)]
    else
      [UInt8.ofNat (n / 262144 % 8 + 240), UInt8.ofNat (n / 4096 % 64 + 128),
        UInt8.ofNat (n / 64 % 64 + 128), UInt8.ofNat (n % 64 + 128)] := by
  have hnumber : (Char.ofNat n).toNat = n := by
    rw [Char.ofNat, dif_pos h]
    rfl
  unfold String.utf8EncodeChar
  rw [show (Char.ofNat n).val.toNat = n from hnumber]

theorem ofNat_eq {n : Nat} {b : UInt8} (h : n = b.toNat) : UInt8.ofNat n = b := by
  rw [h, UInt8.ofNat_toNat]

/-- A sequence is what its character is written as. -/
theorem Sequence.encodeChar {bytes : List UInt8} {n : Nat} (h : Sequence bytes n) :
    String.utf8EncodeChar (Char.ofNat n) = bytes := by
  cases h with
  | one ha => rw [encodeChar_ofNat (.inl (by omega)), if_pos (by omega), UInt8.ofNat_toNat]
  | two ha hb =>
    unfold Between at ha hb
    unfold payload
    rw [encodeChar_ofNat (.inl (by omega)), if_neg (by omega), if_pos (by omega)]
    congr <;> exact ofNat_eq (by omega)
  | three ha hb hlow hhigh hc =>
    unfold Between at ha hb hc
    unfold payload
    rw [encodeChar_ofNat (by unfold Nat.isValidChar; omega), if_neg (by omega), if_neg (by omega),
      if_pos (by omega)]
    congr <;> exact ofNat_eq (by omega)
  | four ha hb hlow hhigh hc hd =>
    unfold Between at ha hb hc hd
    unfold payload
    rw [encodeChar_ofNat (by unfold Nat.isValidChar; omega), if_neg (by omega), if_neg (by omega),
      if_neg (by omega)]
    congr <;> exact ofNat_eq (by omega)

/-- What a character is written as is a sequence for its number. -/
theorem sequence_encodeChar (c : Char) : Sequence (String.utf8EncodeChar c) c.toNat := by
  have hvalid : c.toNat.isValidChar := c.valid
  have hcode := encodeChar_ofNat hvalid
  rw [Char.ofNat_toNat] at hcode
  rw [hcode]
  generalize c.toNat = n at hvalid
  unfold Nat.isValidChar at hvalid
  have hsize : ∀ k : Nat, k < 256 → (UInt8.ofNat k).toNat = k := fun k hk =>
    UInt8.toNat_ofNat_of_lt' (by simpa using hk)
  -- the payloads of the last bytes, whatever the first one is
  have hlast := hsize (n % 64 + 128) (by omega)
  have hthird := hsize (n / 64 % 64 + 128) (by omega)
  have hsecond := hsize (n / 4096 % 64 + 128) (by omega)
  split
  · have hfirst := hsize n (by omega)
    have h := Sequence.one (a := UInt8.ofNat n) (by omega)
    rwa [hfirst] at h
  split
  · have hfirst := hsize (n / 64 % 32 + 192) (by omega)
    convert Sequence.two (a := UInt8.ofNat (n / 64 % 32 + 192)) (b := UInt8.ofNat (n % 64 + 128))
      ?_ ?_ using 1
    · unfold payload
      omega
    all_goals unfold Between; omega
  split
  · have hfirst := hsize (n / 4096 % 16 + 224) (by omega)
    convert Sequence.three (a := UInt8.ofNat (n / 4096 % 16 + 224))
      (b := UInt8.ofNat (n / 64 % 64 + 128)) (c := UInt8.ofNat (n % 64 + 128)) ?_ ?_ ?_ ?_ ?_ using 1
    · unfold payload
      omega
    all_goals (try unfold Between); omega
  · have hfirst := hsize (n / 262144 % 8 + 240) (by omega)
    convert Sequence.four (a := UInt8.ofNat (n / 262144 % 8 + 240))
      (b := UInt8.ofNat (n / 4096 % 64 + 128)) (c := UInt8.ofNat (n / 64 % 64 + 128))
      (d := UInt8.ofNat (n % 64 + 128)) ?_ ?_ ?_ ?_ ?_ ?_ using 1
    · unfold payload
      omega
    all_goals (try unfold Between); omega

theorem exists_sequence (c : Char) :
    ∃ a tail, String.utf8EncodeChar c = a :: tail ∧ Sequence (a :: tail) c.toNat := by
  obtain ⟨a, tail, hcode⟩ := List.exists_cons_of_ne_nil (String.utf8EncodeChar_ne_nil (c := c))
  exact ⟨a, tail, hcode, hcode ▸ sequence_encodeChar c⟩

/-! ## 2. The decoder takes sequences -/

/-- What a first byte says, by the length of its sequence. -/
theorem lead_eq (b : UInt8) : lead b =
    if 0xC2 ≤ b.toNat ∧ b.toNat ≤ 0xDF then some (0x80, 0xBF, 1, b.toNat % 32)
    else if 0xE0 ≤ b.toNat ∧ b.toNat ≤ 0xEF then
      some (if b.toNat = 0xE0 then 0xA0 else 0x80, if b.toNat = 0xED then 0x9F else 0xBF, 2,
        b.toNat % 16)
    else if 0xF0 ≤ b.toNat ∧ b.toNat ≤ 0xF4 then
      some (if b.toNat = 0xF0 then 0x90 else 0x80, if b.toNat = 0xF4 then 0x8F else 0xBF, 3,
        b.toNat % 8)
    else none := by
  unfold lead
  simp only [within_iff, Between, beq_iff_eq, ← UInt8.toNat_inj, UInt8.reduceToNat]
  grind

theorem continuation_cons {lo hi b : UInt8} (h : Between lo.toNat hi.toNat b)
    (seen acc need : Nat) (rest : List UInt8) :
    continuation lo hi seen acc (need + 1) (b :: rest) =
      continuation 0x80 0xBF (seen + 1) (acc * 64 + payload b) need rest := by
  rw [continuation, if_pos (within_iff.mpr h)]

theorem continuation_tail {b : UInt8} (h : Between 0x80 0xBF b) (seen acc need : Nat)
    (rest : List UInt8) :
    continuation 0x80 0xBF seen acc (need + 1) (b :: rest) =
      continuation 0x80 0xBF (seen + 1) (acc * 64 + payload b) need rest :=
  @continuation_cons 0x80 0xBF b h seen acc need rest

/-- A sequence that is not at its end goes on with a byte within the bounds. -/
theorem exists_of_continuation {lo hi : UInt8} {seen acc need more : Nat} {bytes : List UInt8}
    {c : Char} (h : continuation lo hi seen acc (need + 1) bytes = .char c more) :
    ∃ b rest, bytes = b :: rest ∧ Between lo.toNat hi.toNat b ∧
      continuation 0x80 0xBF (seen + 1) (acc * 64 + payload b) need rest = .char c more := by
  cases bytes with
  | nil => cases h
  | cons b rest =>
    rw [continuation] at h
    split at h
    · rename_i hb
      exact ⟨b, rest, rfl, within_iff.mp hb, h⟩
    · cases h

/-- **A sequence at the head of bytes is taken for its character.** -/
theorem Sequence.at_eq {a : UInt8} {tail : List UInt8} {n : Nat} (h : Sequence (a :: tail) n)
    (rest : List UInt8) : Utf8Step.at a (tail ++ rest) = .char (Char.ofNat n) tail.length := by
  unfold Utf8Step.at
  simp only [UInt8.lt_iff_toNat_lt, UInt8.reduceToNat, lead_eq]
  cases h with
  | one ha =>
    rw [if_pos ha]
    rfl
  | two ha hb =>
    unfold Between at ha
    rw [if_neg (by omega), if_pos ha]
    exact continuation_tail hb _ _ _ _
  | three ha hb hlow hhigh hc =>
    unfold Between at ha
    rw [if_neg (by omega), if_neg (by omega), if_pos ha]
    refine (continuation_cons ?_ _ _ _ _).trans (continuation_tail hc _ _ _ _)
    unfold Between at hb ⊢
    split <;> split <;> simp <;> omega
  | four ha hb hlow hhigh hc hd =>
    unfold Between at ha
    rw [if_neg (by omega), if_neg (by omega), if_neg (by omega), if_pos ha]
    refine (continuation_cons ?_ _ _ _ _).trans
      ((continuation_tail hc _ _ _ _).trans (continuation_tail hd _ _ _ _))
    unfold Between at hb ⊢
    split <;> split <;> simp <;> omega

/-- **What is taken for a character is a sequence.** -/
theorem sequence_of_at {a : UInt8} {bytes : List UInt8} {c : Char} {more : Nat}
    (h : Utf8Step.at a bytes = .char c more) :
    ∃ tail rest n, bytes = tail ++ rest ∧ tail.length = more ∧ c = Char.ofNat n ∧
      Sequence (a :: tail) n := by
  unfold Utf8Step.at at h
  simp only [UInt8.lt_iff_toNat_lt, UInt8.reduceToNat] at h
  split at h
  · rename_i ha
    cases h
    exact ⟨[], bytes, _, rfl, rfl, rfl, .one ha⟩
  split at h
  · cases h
  rename_i lo hi need acc hlead
  rw [lead_eq] at hlead
  split at hlead
  · rename_i ha
    cases hlead
    obtain ⟨b, rest, rfl, hb, h⟩ := exists_of_continuation h
    cases h
    exact ⟨[b], rest, _, rfl, rfl, rfl, .two ha hb⟩
  split at hlead
  · rename_i ha
    cases hlead
    obtain ⟨b, rest, rfl, hb, h⟩ := exists_of_continuation h
    obtain ⟨c, rest, rfl, hc, h⟩ := exists_of_continuation h
    cases h
    refine ⟨[b, c], rest, _, rfl, rfl, rfl, .three ha ?_ ?_ ?_ hc⟩
    all_goals
      unfold Between at *
      split at hb <;> split at hb <;> simp at hb <;> omega
  split at hlead
  · rename_i ha
    cases hlead
    obtain ⟨b, rest, rfl, hb, h⟩ := exists_of_continuation h
    obtain ⟨c, rest, rfl, hc, h⟩ := exists_of_continuation h
    obtain ⟨d, rest, rfl, hd, h⟩ := exists_of_continuation h
    cases h
    refine ⟨[b, c, d], rest, _, rfl, rfl, rfl, .four ha ?_ ?_ ?_ hc hd⟩
    all_goals
      unfold Between at *
      split at hb <;> split at hb <;> simp at hb <;> omega
  · cases hlead

/-! ## 3. Whole files -/

/-- What the characters are written as, one after the other. -/
def encode (text : List Char) : List UInt8 := text.flatMap String.utf8EncodeChar

@[simp] theorem encode_nil : encode [] = [] := rfl

@[simp] theorem encode_cons (c : Char) (text : List Char) :
    encode (c :: text) = String.utf8EncodeChar c ++ encode text := List.flatMap_cons

/-- What is written from a text is decoded as the text. -/
theorem decodeFrom_encode (text : List Char) :
    ∀ offset, decodeFrom offset (encode text) = .ok text := by
  induction text with
  | nil =>
    intro offset
    unfold decodeFrom
    rfl
  | cons c text ih =>
    intro offset
    obtain ⟨a, tail, hcode, hsequence⟩ := exists_sequence c
    rw [encode_cons, hcode, List.cons_append, decodeFrom, hsequence.at_eq, Char.ofNat_toNat]
    dsimp only
    rw [List.drop_left, ih]
    rfl

/-- No character is written at the offset: the bytes before it are written from a text, and those
    from there on begin with no character. -/
def Breaks (bytes : List UInt8) (offset : Nat) : Prop :=
  ∃ text rest, bytes = encode text ++ rest ∧ offset = (encode text).length ∧ rest ≠ [] ∧
    ∀ c, ¬ String.utf8EncodeChar c <+: rest

/-- Bytes that start with no character begin with none at their head. -/
theorem breaks_of_at {b : UInt8} {bytes : List UInt8} {size : Nat} {reason : Utf8Reason}
    (h : Utf8Step.at b bytes = .bad size reason) : Breaks (b :: bytes) 0 := by
  refine ⟨[], b :: bytes, rfl, rfl, List.cons_ne_nil _ _, fun c hc => ?_⟩
  obtain ⟨rest, hrest⟩ := hc
  obtain ⟨a, tail, hcode, hsequence⟩ := exists_sequence c
  rw [hcode, List.cons_append, List.cons.injEq] at hrest
  obtain ⟨rfl, rfl⟩ := hrest
  rw [hsequence.at_eq] at h
  cases h

/-- Bytes are written from the text that they are decoded as, or they break where the fault is. -/
theorem decodeFrom_cases (offset : Nat) (bytes : List UInt8) :
    (∃ text, decodeFrom offset bytes = .ok text ∧ bytes = encode text) ∨
    ∃ fault k, decodeFrom offset bytes = .error fault ∧ fault.offset = offset + k ∧
      Breaks bytes k := by
  fun_induction decodeFrom offset bytes with
  | case1 offset => exact .inl ⟨[], rfl, rfl⟩
  | case2 offset b bytes c more hat ih =>
    obtain ⟨tail, rest, n, rfl, rfl, rfl, hsequence⟩ := sequence_of_at hat
    have hcons : ∀ text, encode (Char.ofNat n :: text) = b :: (tail ++ encode text) := fun text => by
      rw [encode_cons, hsequence.encodeChar, List.cons_append]
    rw [List.drop_left] at ih ⊢
    rcases ih with ⟨text, hok, rfl⟩ | ⟨fault, k, herror, hoffset, text, rest', rfl, rfl, hbreaks⟩
    · refine .inl ⟨Char.ofNat n :: text, ?_, (hcons text).symm⟩
      rw [hok]
      rfl
    · refine .inr ⟨fault, (encode (Char.ofNat n :: text)).length, ?_, ?_, Char.ofNat n :: text, rest',
        ?_, rfl, hbreaks⟩
      · rw [herror]
        rfl
      · rw [hoffset, hcons, List.length_cons, List.length_append]
        omega
      · rw [hcons, List.cons_append, List.append_assoc]
  | case3 offset b bytes size reason hat =>
    exact .inr ⟨_, 0, rfl, rfl, breaks_of_at hat⟩

/-- **Bytes are decoded as the text that they are written from.** -/
theorem decode_eq_ok_iff {bytes : List UInt8} {text : List Char} :
    decode bytes = .ok text ↔ bytes = encode text := by
  constructor
  · intro h
    rcases decodeFrom_cases 0 bytes with ⟨text', hok, hbytes⟩ | ⟨fault, k, herror, -⟩
    · rw [decode, hok] at h
      cases h
      exact hbytes
    · rw [decode, herror] at h
      cases h
  · rintro rfl
    exact decodeFrom_encode text 0

/-- **Bytes that are refused break where the fault is.** -/
theorem breaks_of_decode {bytes : List UInt8} {fault : Utf8Fault} (h : decode bytes = .error fault) :
    Breaks bytes fault.offset := by
  rcases decodeFrom_cases 0 bytes with ⟨text, hok, -⟩ | ⟨fault', k, herror, hoffset, hbreaks⟩
  · rw [decode, hok] at h
    cases h
  · rw [decode, herror] at h
    cases h
    rwa [hoffset, Nat.zero_add]

end Text

/-- The bytes of a text are what its characters are written as. -/
theorem textBytes_eq (text : String) : textBytes text = Text.encode text.toList := by
  unfold textBytes String.toUTF8
  rw [← String.utf8Encode_toList, List.utf8Encode, List.toList_data_toByteArray]
  rfl

end CMinusMinus
