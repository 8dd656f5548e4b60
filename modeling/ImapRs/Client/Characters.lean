import ImapRs.Client.Session

/-!
# Characters and their bytes

A Rust string is a text, a list of characters, and is stored as UTF-8. The model keeps the bytes,
since that is what goes over the wire; where the source walks over the characters, or hands a text
to the application, the two have to be told apart. `encode` takes the text to its bytes, and is a
bijection onto the valid byte strings.

## Main definitions

* `IsChar` — the bytes that are one character
* `encode` — the bytes of a text

## Main results

* `isChar_utf8EncodeChar`, `IsChar.bytes_eq` — every character has such bytes, and no others
* `validUtf8_encode`, `utf8Chars_encode`, `encode_utf8Chars` — texts and valid byte strings are the
  same thing
* `utf8Lossy_encode` — lossy decoding loses nothing of a text
-/

namespace ImapRs

/-! ### The bytes of one character -/

/-- A character, and the bytes that are its UTF-8 form. -/
inductive IsChar : Char → Bytes → Prop where
  | one {a : UInt8} (ha : a < 0x80) : IsChar (.ofNat a.toNat) [a]
  | two {a b : UInt8} (ha : 0xC2 ≤ a ∧ a ≤ 0xDF) (hb : isContinuation b = true) :
    IsChar (.ofNat (a.toNat % 32 * 64 + b.toNat % 64)) [a, b]
  | three {a b c : UInt8} (ha : 0xE0 ≤ a ∧ a ≤ 0xEF)
    (hb : (if a = 0xE0 then 0xA0 ≤ b && b ≤ 0xBF else if a = 0xED then 0x80 ≤ b && b ≤ 0x9F
      else isContinuation b) = true) (hc : isContinuation c = true) :
    IsChar (.ofNat ((a.toNat % 16 * 64 + b.toNat % 64) * 64 + c.toNat % 64)) [a, b, c]
  | four {a b c d : UInt8} (ha : 0xF0 ≤ a ∧ a ≤ 0xF4)
    (hb : (if a = 0xF0 then 0x90 ≤ b && b ≤ 0xBF else if a = 0xF4 then 0x80 ≤ b && b ≤ 0x8F
      else isContinuation b) = true) (hc : isContinuation c = true) (hd : isContinuation d = true) :
    IsChar (.ofNat (((a.toNat % 8 * 64 + b.toNat % 64) * 64 + c.toNat % 64) * 64 + d.toNat % 64))
      [a, b, c, d]

theorem isContinuation_iff {b : UInt8} :
    isContinuation b = true ↔ 0x80 ≤ b.toNat ∧ b.toNat ≤ 0xBF := by
  simp [isContinuation, UInt8.le_iff_toNat_le]

/-- The second byte of a longer sequence, whatever range the first byte leaves it. -/
theorem second_iff {a b x y l u l' u' : UInt8} :
    (if a = x then decide (l ≤ b) && decide (b ≤ u)
      else if a = y then decide (l' ≤ b) && decide (b ≤ u') else isContinuation b) = true ↔
    (a.toNat = x.toNat ∧ l.toNat ≤ b.toNat ∧ b.toNat ≤ u.toNat) ∨
    (a.toNat ≠ x.toNat ∧ a.toNat = y.toNat ∧ l'.toNat ≤ b.toNat ∧ b.toNat ≤ u'.toNat) ∨
    (a.toNat ≠ x.toNat ∧ a.toNat ≠ y.toNat ∧ 0x80 ≤ b.toNat ∧ b.toNat ≤ 0xBF) := by
  simp only [UInt8.toNat_inj, ne_eq]
  by_cases hx : a = x
  · simp [hx, UInt8.le_iff_toNat_le]
  by_cases hy : a = y
  · subst hy
    simp [hx, UInt8.le_iff_toNat_le]
  · simp [hx, hy, isContinuation_iff]

theorem toNat_ofNat_of_lt {n : ℕ} (h : n < 256) : (UInt8.ofNat n).toNat = n := by
  rw [UInt8.toNat_ofNat']
  exact Nat.mod_eq_of_lt h

theorem toNat_continuation (n : ℕ) : (UInt8.ofNat (n % 0x40 + 0x80)).toNat = n % 0x40 + 0x80 :=
  toNat_ofNat_of_lt (by omega)

theorem isContinuation_ofNat (n : ℕ) : isContinuation (.ofNat (n % 0x40 + 0x80)) = true := by
  rw [isContinuation_iff, toNat_continuation]
  omega

theorem isChar_utf8EncodeChar (c : Char) : IsChar c (String.utf8EncodeChar c) := by
  have hvalid : c.val.toNat < 0xD800 ∨ 0xDFFF < c.val.toNat ∧ c.val.toNat < 0x110000 := c.valid
  have hof : Char.ofNat c.val.toNat = c := Char.ofNat_toNat c
  rw [String.utf8EncodeChar]
  generalize c.val.toNat = v at *
  by_cases h1 : v ≤ 0x7F
  · have ha := toNat_ofNat_of_lt (n := v) (by omega)
    have key : IsChar (.ofNat (UInt8.ofNat v).toNat) [.ofNat v] := .one (by
      rw [UInt8.lt_iff_toNat_lt, ha]
      show v < 128
      omega)
    rw [ha, hof] at key
    rwa [if_pos h1]
  rw [if_neg h1]
  by_cases h2 : v ≤ 0x7FF
  · rw [if_pos h2]
    have ha := toNat_ofNat_of_lt (n := v / 64 % 0x20 + 0xC0) (by omega)
    have key := IsChar.two (a := .ofNat (v / 64 % 0x20 + 0xC0)) (by
      rw [UInt8.le_iff_toNat_le, UInt8.le_iff_toNat_le, ha]
      show 0xC2 ≤ _ ∧ _ ≤ 0xDF
      omega) (isContinuation_ofNat v)
    rwa [ha, toNat_continuation, show (v / 64 % 0x20 + 0xC0) % 32 * 64 + (v % 0x40 + 0x80) % 64 = v
      by omega, hof] at key
  rw [if_neg h2]
  by_cases h3 : v ≤ 0xFFFF
  · rw [if_pos h3]
    have ha := toNat_ofNat_of_lt (n := v / 4096 % 0x10 + 0xE0) (by omega)
    have key := IsChar.three (a := .ofNat (v / 4096 % 0x10 + 0xE0))
      (b := .ofNat (v / 64 % 0x40 + 0x80)) (by
        rw [UInt8.le_iff_toNat_le, UInt8.le_iff_toNat_le, ha]
        show 0xE0 ≤ _ ∧ _ ≤ 0xEF
        omega) (by
        rw [second_iff, ha, toNat_continuation]
        show (_ = 0xE0 ∧ 0xA0 ≤ _ ∧ _ ≤ 0xBF) ∨ (_ ≠ 0xE0 ∧ _ = 0xED ∧ 0x80 ≤ _ ∧ _ ≤ 0x9F) ∨
          (_ ≠ 0xE0 ∧ _ ≠ 0xED ∧ _)
        omega) (isContinuation_ofNat v)
    rwa [ha, toNat_continuation, toNat_continuation, show ((v / 4096 % 0x10 + 0xE0) % 16 * 64 +
      (v / 64 % 0x40 + 0x80) % 64) * 64 + (v % 0x40 + 0x80) % 64 = v by omega, hof] at key
  rw [if_neg h3]
  have ha := toNat_ofNat_of_lt (n := v / 262144 % 0x08 + 0xF0) (by omega)
  have key := IsChar.four (a := .ofNat (v / 262144 % 0x08 + 0xF0))
    (b := .ofNat (v / 4096 % 0x40 + 0x80)) (by
      rw [UInt8.le_iff_toNat_le, UInt8.le_iff_toNat_le, ha]
      show 0xF0 ≤ _ ∧ _ ≤ 0xF4
      omega) (by
      rw [second_iff, ha, toNat_continuation]
      show (_ = 0xF0 ∧ 0x90 ≤ _ ∧ _ ≤ 0xBF) ∨ (_ ≠ 0xF0 ∧ _ = 0xF4 ∧ 0x80 ≤ _ ∧ _ ≤ 0x8F) ∨
        (_ ≠ 0xF0 ∧ _ ≠ 0xF4 ∧ _)
      omega) (isContinuation_ofNat (v / 64)) (isContinuation_ofNat v)
  rwa [ha, toNat_continuation, toNat_continuation, toNat_continuation,
    show (((v / 262144 % 0x08 + 0xF0) % 8 * 64 + (v / 4096 % 0x40 + 0x80) % 64) * 64 +
      (v / 64 % 0x40 + 0x80) % 64) * 64 + (v % 0x40 + 0x80) % 64 = v by omega, hof] at key

/-- The number of a character is what its bytes say. -/
theorem val_ofNat {n : ℕ} (h : n < 0xD800 ∨ 0xDFFF < n ∧ n < 0x110000) :
    (Char.ofNat n).val.toNat = n := by
  have := Char.toNat_ofNat n
  rwa [if_pos h] at this

theorem ofNat_eq {n : ℕ} {a : UInt8} (h : n = a.toNat) : UInt8.ofNat n = a := by
  rw [h, UInt8.ofNat_toNat]

theorem IsChar.bytes_eq {c : Char} {x : Bytes} (h : IsChar c x) : String.utf8EncodeChar c = x := by
  rw [String.utf8EncodeChar]
  cases h with
  | @one a ha =>
    have ha' : a.toNat < 128 := UInt8.lt_iff_toNat_lt.mp ha
    rw [val_ofNat (by omega), if_pos (by omega), ofNat_eq rfl]
  | @two a b ha hb =>
    rw [UInt8.le_iff_toNat_le, UInt8.le_iff_toNat_le] at ha
    have ha' : 0xC2 ≤ a.toNat ∧ a.toNat ≤ 0xDF := ha
    rw [isContinuation_iff] at hb
    rw [val_ofNat (by omega), if_neg (by omega), if_pos (by omega), ofNat_eq (a := a) (by omega),
      ofNat_eq (a := b) (by omega)]
  | @three a b c ha hb hc =>
    rw [UInt8.le_iff_toNat_le, UInt8.le_iff_toNat_le] at ha
    have ha' : 0xE0 ≤ a.toNat ∧ a.toNat ≤ 0xEF := ha
    rw [isContinuation_iff] at hc
    have hb' : (a.toNat = 0xE0 ∧ 0xA0 ≤ b.toNat ∧ b.toNat ≤ 0xBF) ∨
      (a.toNat ≠ 0xE0 ∧ a.toNat = 0xED ∧ 0x80 ≤ b.toNat ∧ b.toNat ≤ 0x9F) ∨
      (a.toNat ≠ 0xE0 ∧ a.toNat ≠ 0xED ∧ 0x80 ≤ b.toNat ∧ b.toNat ≤ 0xBF) := second_iff.mp hb
    rw [val_ofNat (by omega), if_neg (by omega), if_neg (by omega), if_pos (by omega),
      ofNat_eq (a := a) (by omega), ofNat_eq (a := b) (by omega), ofNat_eq (a := c) (by omega)]
  | @four a b c d ha hb hc hd =>
    rw [UInt8.le_iff_toNat_le, UInt8.le_iff_toNat_le] at ha
    have ha' : 0xF0 ≤ a.toNat ∧ a.toNat ≤ 0xF4 := ha
    rw [isContinuation_iff] at hc hd
    have hb' : (a.toNat = 0xF0 ∧ 0x90 ≤ b.toNat ∧ b.toNat ≤ 0xBF) ∨
      (a.toNat ≠ 0xF0 ∧ a.toNat = 0xF4 ∧ 0x80 ≤ b.toNat ∧ b.toNat ≤ 0x8F) ∨
      (a.toNat ≠ 0xF0 ∧ a.toNat ≠ 0xF4 ∧ 0x80 ≤ b.toNat ∧ b.toNat ≤ 0xBF) := second_iff.mp hb
    rw [val_ofNat (by omega), if_neg (by omega), if_neg (by omega), if_neg (by omega),
      ofNat_eq (a := a) (by omega), ofNat_eq (a := b) (by omega), ofNat_eq (a := c) (by omega),
      ofNat_eq (a := d) (by omega)]

/-! ### Texts -/

/-- The bytes of a text. -/
def encode (text : List Char) : Bytes := text.flatMap String.utf8EncodeChar

theorem encode_cons (c : Char) (t : List Char) :
    encode (c :: t) = String.utf8EncodeChar c ++ encode t := rfl

theorem not_lt_of_le {a l u : UInt8} (ha : l ≤ a) (h : u ≤ l) : ¬ a < u :=
  UInt8.not_lt.mpr (UInt8.le_trans h ha)

theorem not_between {a l m v : UInt8} (ha : l ≤ a) (h : v < l) : ¬ (m ≤ a ∧ a ≤ v) :=
  fun hb => absurd (UInt8.le_trans ha hb.2) (UInt8.not_le.mpr h)

theorem IsChar.validUtf8_append {c : Char} {x : Bytes} (h : IsChar c x) (t : Bytes) :
    validUtf8 (x ++ t) = validUtf8 t := by
  cases h with
  | one ha => exact validUtf8_cons_of_lt ha t
  | two ha hb =>
    have hlow := not_lt_of_le (u := 0x80) ha.1 (by decide)
    simp [validUtf8, hlow, ha, hb]
  | three ha hb hc =>
    have hlow := not_lt_of_le (u := 0x80) ha.1 (by decide)
    have htwo := not_between (m := 0xC2) (v := 0xDF) ha.1 (by decide)
    simp only [List.cons_append, List.nil_append, validUtf8, if_neg hlow, if_neg htwo, if_pos ha,
      hb, hc, Bool.true_and]
  | four ha hb hc hd =>
    have hlow := not_lt_of_le (u := 0x80) ha.1 (by decide)
    have htwo := not_between (m := 0xC2) (v := 0xDF) ha.1 (by decide)
    have hthree := not_between (m := 0xE0) (v := 0xEF) ha.1 (by decide)
    simp only [List.cons_append, List.nil_append, validUtf8, if_neg hlow, if_neg htwo,
      if_neg hthree, if_pos ha, hb, hc, hd, Bool.true_and]

theorem IsChar.utf8Chars_append {c : Char} {x : Bytes} (h : IsChar c x) (t : Bytes) :
    utf8Chars (x ++ t) = c :: utf8Chars t := by
  cases h with
  | one ha =>
    rw [List.singleton_append]
    conv_lhs => unfold utf8Chars
    exact if_pos ha
  | two ha hb =>
    have hlow := not_lt_of_le (u := 0x80) ha.1 (by decide)
    have htwo := UInt8.lt_of_le_of_lt ha.2 (by decide : 0xDF < (0xE0 : UInt8))
    simp only [List.cons_append, List.nil_append, utf8Chars, if_neg hlow, if_pos htwo]
  | three ha hb hc =>
    have hlow := not_lt_of_le (u := 0x80) ha.1 (by decide)
    have htwo := not_lt_of_le (u := 0xE0) ha.1 (by decide)
    have hthree := UInt8.lt_of_le_of_lt ha.2 (by decide : 0xEF < (0xF0 : UInt8))
    simp only [List.cons_append, List.nil_append, utf8Chars, if_neg hlow, if_neg htwo,
      if_pos hthree]
  | four ha hb hc hd =>
    have hlow := not_lt_of_le (u := 0x80) ha.1 (by decide)
    have htwo := not_lt_of_le (u := 0xE0) ha.1 (by decide)
    have hthree := not_lt_of_le (u := 0xF0) ha.1 (by decide)
    simp only [List.cons_append, List.nil_append, utf8Chars, if_neg hlow, if_neg htwo,
      if_neg hthree]

theorem IsChar.utf8Front_append {c : Char} {x : Bytes} (h : IsChar c x) (t : Bytes) :
    Session.utf8Front (x ++ t) = (x.length, true) := by
  cases h with
  | one ha => simp [Session.utf8Front, ha]
  | two ha hb =>
    have hlow := not_lt_of_le (u := 0x80) ha.1 (by decide)
    simp [Session.utf8Front, hlow, ha, hb]
  | three ha hb hc =>
    have hlow := not_lt_of_le (u := 0x80) ha.1 (by decide)
    have htwo := not_between (m := 0xC2) (v := 0xDF) ha.1 (by decide)
    simp [Session.utf8Front, hlow, htwo, ha, hb, hc]
  | four ha hb hc hd =>
    have hlow := not_lt_of_le (u := 0x80) ha.1 (by decide)
    have htwo := not_between (m := 0xC2) (v := 0xDF) ha.1 (by decide)
    have hthree := not_between (m := 0xE0) (v := 0xEF) ha.1 (by decide)
    simp [Session.utf8Front, hlow, htwo, hthree, ha, hb, hc, hd]

theorem validUtf8_encode (text : List Char) : validUtf8 (encode text) = true := by
  induction text with
  | nil => rfl
  | cons c t ih => rw [encode_cons, (isChar_utf8EncodeChar c).validUtf8_append, ih]

/-- Decoding undoes encoding. -/
theorem utf8Chars_encode (text : List Char) : utf8Chars (encode text) = text := by
  induction text with
  | nil => rfl
  | cons c t ih => rw [encode_cons, (isChar_utf8EncodeChar c).utf8Chars_append, ih]

/-- Encoding undoes decoding, where there is something to decode. -/
theorem encode_utf8Chars {bs : Bytes} (h : validUtf8 bs = true) : encode (utf8Chars bs) = bs := by
  fun_induction validUtf8 bs with
  | case1 => rfl
  | case2 a t ha ih =>
    have hc := IsChar.one ha
    rw [show a :: t = [a] ++ t from rfl, hc.utf8Chars_append, encode_cons, hc.bytes_eq, ih h]
  | case3 a ha ha' b t ih =>
    obtain ⟨hb, ht⟩ := Bool.and_eq_true_iff.mp h
    have hc := IsChar.two ha' hb
    rw [show a :: b :: t = [a, b] ++ t from rfl, hc.utf8Chars_append, encode_cons, hc.bytes_eq,
      ih ht]
  | case5 a ha ha' ha'' b c t ih =>
    obtain ⟨hbc, ht⟩ := Bool.and_eq_true_iff.mp h
    obtain ⟨hb, hc⟩ := Bool.and_eq_true_iff.mp hbc
    have hchar := IsChar.three ha'' hb hc
    rw [show a :: b :: c :: t = [a, b, c] ++ t from rfl, hchar.utf8Chars_append, encode_cons,
      hchar.bytes_eq, ih ht]
  | case7 a ha ha' ha'' ha₄ b c d t ih =>
    obtain ⟨hbcd, ht⟩ := Bool.and_eq_true_iff.mp h
    obtain ⟨hbc, hd⟩ := Bool.and_eq_true_iff.mp hbcd
    obtain ⟨hb, hc⟩ := Bool.and_eq_true_iff.mp hbc
    have hchar := IsChar.four ha₄ hb hc hd
    rw [show a :: b :: c :: d :: t = [a, b, c, d] ++ t from rfl, hchar.utf8Chars_append,
      encode_cons, hchar.bytes_eq, ih ht]
  | _ => cases h

/-- A text is nothing else than its characters. -/
theorem exists_encode {bs : Bytes} (h : validUtf8 bs = true) : ∃ text, bs = encode text :=
  ⟨utf8Chars bs, (encode_utf8Chars h).symm⟩

/-- A byte below `0x80` is a character by itself. -/
theorem IsChar.eq_singleton {c : Char} {x : Bytes} (h : IsChar c x) {a : UInt8} (ha : a < 0x80)
    (hmem : a ∈ x) : x = [a] := by
  have hle : ∀ {b l : UInt8}, l ≤ b → 0x80 ≤ l → a ≠ b := fun hb hl heq =>
    absurd ha (UInt8.not_lt.mpr (heq ▸ UInt8.le_trans hl hb))
  cases h with
  | one hb =>
    rw [List.mem_singleton.mp hmem]
  | two h₁ h₂ =>
    have hcont := hle (le_of_isContinuation h₂) (by decide)
    simp [hle h₁.1 (by decide), hcont] at hmem
  | three h₁ h₂ h₃ =>
    have hsecond := hle (le_of_second (by decide) (by decide) h₂) (by decide)
    have hcont := hle (le_of_isContinuation h₃) (by decide)
    simp [hle h₁.1 (by decide), hsecond, hcont] at hmem
  | four h₁ h₂ h₃ h₄ =>
    have hsecond := hle (le_of_second (by decide) (by decide) h₂) (by decide)
    have hthird := hle (le_of_isContinuation h₃) (by decide)
    have hcont := hle (le_of_isContinuation h₄) (by decide)
    simp [hle h₁.1 (by decide), hsecond, hthird, hcont] at hmem

/-- A text can be cut on either side of a byte below `0x80`. -/
theorem validUtf8_append_cons {x y : Bytes} {a : UInt8} (ha : a < 0x80)
    (h : validUtf8 (x ++ a :: y) = true) : validUtf8 x = true ∧ validUtf8 y = true := by
  obtain ⟨text, htext⟩ := exists_encode h
  clear h
  induction text generalizing x with
  | nil => exact absurd htext (by simp [encode])
  | cons c text ih =>
    have hc := isChar_utf8EncodeChar c
    have hvalid := hc.validUtf8_append []
    rw [List.append_nil] at hvalid
    rw [encode_cons, List.append_eq_append_iff] at htext
    obtain ⟨z, hx, hz⟩ | ⟨z, hx, hz⟩ := htext
    · cases z with
      | nil =>
        rw [List.append_nil] at hx
        exact ⟨by rw [← hx, hvalid]; rfl, (ih (x := []) hz).2⟩
      | cons b z =>
        -- The byte is in the first character, so it is the whole of it.
        obtain ⟨rfl, rfl⟩ := List.cons.inj hz
        have hone := hc.eq_singleton ha (hx ▸ List.mem_append_right x List.mem_cons_self)
        have hlen := congrArg List.length (hx.symm.trans hone)
        rw [List.length_append, List.length_cons, List.length_singleton] at hlen
        rw [List.length_eq_zero_iff.mp (by omega : x.length = 0),
          List.length_eq_zero_iff.mp (by omega : z.length = 0)]
        exact ⟨rfl, validUtf8_encode text⟩
    · obtain ⟨hx', hy⟩ := ih hz.symm
      exact ⟨by rw [hx, hc.validUtf8_append, hx'], hy⟩

theorem encode_injective : Function.Injective encode := by
  intro x y h
  rw [← utf8Chars_encode x, h, utf8Chars_encode]

theorem IsChar.length_pos {c : Char} {x : Bytes} (h : IsChar c x) : 0 < x.length := by
  cases h <;> simp

/-- What is valid is decoded without loss. -/
theorem utf8Lossy_encode (text : List Char) : Session.utf8Lossy (encode text) = text := by
  induction text with
  | nil => simp [encode, Session.utf8Lossy]
  | cons c t ih =>
    have hc := isChar_utf8EncodeChar c
    obtain ⟨a, x, hx⟩ := List.exists_cons_of_length_pos hc.length_pos
    rw [encode_cons, hx, List.cons_append, Session.utf8Lossy, ← List.cons_append, ← hx,
      hc.utf8Front_append]
    have hdrop : (x ++ encode t).drop ((String.utf8EncodeChar c).length - 1) = encode t := by
      rw [hx, List.length_cons, Nat.add_sub_cancel, List.drop_left]
    have hone : utf8Chars (String.utf8EncodeChar c) = [c] := by
      simpa [utf8Chars] using hc.utf8Chars_append []
    simp only [if_true, List.take_left, hone, hdrop, ih, List.singleton_append]

end ImapRs
