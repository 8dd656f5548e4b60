import ImapRs.Client.Characters

/-!
# Base64, and the SASL PLAIN response

A translation of `imap-client/src/base64.rs`: quanta of three bytes become four characters each by
shifting and masking, and what is left over is padded. The decoder is the strict one of the
standard: the alphabet and nothing else, padding only at the end, and no bits left over under the
padding. It has exactly one text for each byte string, the one the encoder writes.

## Main definitions

* `Base64.encodedLen`, `Base64.encodeInto`, `Base64.encodeGroup` — the encoder
* `Base64.decode` — strict decoding

## Main results

* `Base64.encodeGroup_eq` — shifts and masks are division and remainder
* `Base64.decode_eq_some_iff` — a text decodes to what it encodes
* `saslPlainLine_decodes` — what `AUTHENTICATE PLAIN` sends
-/

namespace ImapRs

open Transition

namespace Base64

open Session (ALPHABET base64Encode)

/-! ### The encoder -/

def PAD : UInt8 := byte '='

def INPUT_GROUP : ℕ := 3

def OUTPUT_GROUP : ℕ := 4

/-- Mask selecting one 6-bit sextet. -/
def SEXTET_MASK : UInt32 := 0x3F

/-- Length of the padded encoding. -/
def encodedLen (inputLen : ℕ) : ℕ := (inputLen + INPUT_GROUP - 1) / INPUT_GROUP * OUTPUT_GROUP

/-- Encode one 24-bit quantum as four alphabet characters. -/
def encodeGroup (a b c : UInt8) : Bytes :=
  let n := (a.toUInt32 <<< 16) ||| (b.toUInt32 <<< 8) ||| c.toUInt32
  [ALPHABET.getD ((n >>> 18) &&& SEXTET_MASK).toNat 0,
    ALPHABET.getD ((n >>> 12) &&& SEXTET_MASK).toNat 0,
    ALPHABET.getD ((n >>> 6) &&& SEXTET_MASK).toNat 0,
    ALPHABET.getD (n &&& SEXTET_MASK).toNat 0]

/-- Append the padded encoding of `input` to `out`. -/
def encodeInto : Bytes → Bytes → Bytes
  | a :: b :: c :: rest, out => encodeInto rest (out ++ encodeGroup a b c)
  | [a, b], out => out ++ ((encodeGroup a b 0).take 3 ++ [PAD])
  | [a], out => out ++ ((encodeGroup a 0 0).take 2 ++ [PAD, PAD])
  | [], out => out

/-- A byte keeps all its bits when it is shifted within a quantum. -/
theorem shiftLeft_mod (a : UInt8) {k : ℕ} (hk : k ≤ 16) :
    (a.toNat <<< k) % 2 ^ 32 = a.toNat * 2 ^ k := by
  rw [Nat.shiftLeft_eq, Nat.mod_eq_of_lt]
  calc a.toNat * 2 ^ k < 2 ^ 8 * 2 ^ k := Nat.mul_lt_mul_of_pos_right a.toNat_lt (by simp)
    _ ≤ 2 ^ 8 * 2 ^ 16 := Nat.mul_le_mul_left _ (Nat.pow_le_pow_right (by decide) hk)
    _ < 2 ^ 32 := by decide

/-- The 24 bits of a quantum. -/
theorem toNat_quantum (a b c : UInt8) :
    ((a.toUInt32 <<< 16) ||| (b.toUInt32 <<< 8) ||| c.toUInt32).toNat
      = a.toNat * 2 ^ 16 + b.toNat * 2 ^ 8 + c.toNat := by
  have hb := b.toNat_lt
  have hc := c.toNat_lt
  have hlow : b.toNat * 2 ^ 8 + c.toNat < 2 ^ 16 := by omega
  have hor : b.toNat * 2 ^ 8 ||| c.toNat = b.toNat * 2 ^ 8 + c.toNat := by
    rw [← Nat.shiftLeft_eq, Nat.shiftLeft_add_eq_or_of_lt hc]
  simp only [UInt32.toNat_or, UInt32.toNat_shiftLeft, UInt8.toNat_toUInt32]
  rw [Nat.or_assoc]
  show (a.toNat <<< 16) % 2 ^ 32 ||| ((b.toNat <<< 8) % 2 ^ 32 ||| c.toNat) = _
  rw [shiftLeft_mod a (by decide), shiftLeft_mod b (by decide), hor, ← Nat.shiftLeft_eq a.toNat,
    ← Nat.shiftLeft_add_eq_or_of_lt hlow, Nat.shiftLeft_eq, Nat.add_assoc]

theorem toNat_sextet (n : UInt32) (i : ℕ) (hi : 6 * i < 32) :
    ((n >>> (.ofNat (6 * i))) &&& SEXTET_MASK).toNat = n.toNat / 64 ^ i % 64 := by
  rw [UInt32.toNat_and, UInt32.toNat_shiftRight, UInt32.toNat_ofNat']
  show n.toNat >>> (6 * i % 2 ^ 32 % 32) &&& 2 ^ 6 - 1 = _
  rw [Nat.and_two_pow_sub_one_eq_mod, Nat.shiftRight_eq_div_pow, Nat.mod_eq_of_lt (b := 2 ^ 32)
    (by omega), Nat.mod_eq_of_lt hi, Nat.pow_mul]

/-- **Shifting and masking is division and remainder.** -/
theorem encodeGroup_eq (a b c : UInt8) : encodeGroup a b c = Session.encodeGroup a b c := by
  have hsextet (i : ℕ) (hi : 6 * i < 32) := toNat_sextet
    ((a.toUInt32 <<< 16) ||| (b.toUInt32 <<< 8) ||| c.toUInt32) i hi
  have hzero (n : UInt32) : n &&& SEXTET_MASK = (n >>> (.ofNat (6 * 0))) &&& SEXTET_MASK := by
    simp
  simp only [encodeGroup, Session.encodeGroup, Session.sextet, ← toNat_quantum]
  rw [hzero (_ ||| _), ← hsextet 3 (by decide), ← hsextet 2 (by decide), ← hsextet 1 (by decide),
    ← hsextet 0 (by decide)]
  rfl

/-- What was in the buffer stays in front. -/
theorem encodeInto_eq (input out : Bytes) : encodeInto input out = out ++ base64Encode input := by
  fun_induction encodeInto input out with
  | case1 a b c rest out ih => rw [ih, base64Encode, encodeGroup_eq, List.append_assoc]
  | case2 a b out => rw [base64Encode, encodeGroup_eq, PAD]
  | case3 a out => rw [base64Encode, encodeGroup_eq, PAD]
  | case4 out => rw [base64Encode, List.append_nil]

/-! ### Strict decoding -/

/-- The value of a character of the alphabet. -/
def sextetOf (c : UInt8) : Option ℕ :=
  if byte 'A' ≤ c ∧ c ≤ byte 'Z' then some (c.toNat - 65)
  else if byte 'a' ≤ c ∧ c ≤ byte 'z' then some (c.toNat - 97 + 26)
  else if byte '0' ≤ c ∧ c ≤ byte '9' then some (c.toNat - 48 + 52)
  else if c = byte '+' then some 62
  else if c = byte '/' then some 63
  else none

/-- Strict decoding: quanta of four characters of the alphabet, of which the last may be padded.
The bits that the padding leaves over must be zero. -/
def decode : Bytes → Option Bytes
  | [] => some []
  | w :: x :: y :: z :: t => do
    let i ← sextetOf w
    let j ← sextetOf x
    if t = [] ∧ z = PAD ∧ y = PAD then
      if j % 16 = 0 then some [.ofNat (i * 4 + j / 16)] else none
    else do
      let k ← sextetOf y
      if t = [] ∧ z = PAD then
        if k % 4 = 0 then some [.ofNat (i * 4 + j / 16), .ofNat (j % 16 * 16 + k / 4)] else none
      else do
        let l ← sextetOf z
        let rest ← decode t
        some (.ofNat (i * 4 + j / 16) :: .ofNat (j % 16 * 16 + k / 4) :: .ofNat (k % 4 * 64 + l) ::
          rest)
  | _ => none

/-- The capital letters, the small letters, the digits and two more. -/
theorem alphabet_eq : ALPHABET = (List.range' 65 26 ++ List.range' 97 26 ++ List.range' 48 10
    ++ [43, 47]).map UInt8.ofNat := by
  decide +kernel

theorem map_sextetOf_alphabet : ALPHABET.map sextetOf = (List.range 64).map some := by
  rw [alphabet_eq]
  decide +kernel

theorem sextetOf_alphabet {i : ℕ} (hi : i < 64) : sextetOf (ALPHABET.getD i 0) = some i := by
  have hat := congrArg (fun l => l[i]?) map_sextetOf_alphabet
  simp only [List.getElem?_map, List.getElem?_range hi] at hat
  obtain ⟨c, hc, hvalue⟩ := Option.map_eq_some_iff.mp hat
  rw [List.getD_eq_getElem?_getD, hc, Option.getD_some, hvalue]

theorem sextetOf_sextet (n i : ℕ) : sextetOf (Session.sextet n i) = some (n / 64 ^ i % 64) :=
  sextetOf_alphabet (Nat.mod_lt _ (by decide))

theorem sextet_ne_pad (n i : ℕ) : Session.sextet n i ≠ PAD := by
  intro h
  have hvalue := sextetOf_sextet n i
  rw [h] at hvalue
  cases hvalue

theorem decode_base64Encode (b : Bytes) : decode (base64Encode b) = some b := by
  fun_induction base64Encode b with
  | case1 a b c t ih =>
    have ha := a.toNat_lt
    have hb := b.toNat_lt
    have hc := c.toNat_lt
    simp only [Session.encodeGroup, List.cons_append, List.nil_append, decode, sextetOf_sextet,
      sextet_ne_pad, and_false, if_false, ih, Option.bind_eq_bind, Option.bind_some]
    rw [ofNat_eq (a := a) (by omega), ofNat_eq (a := b) (by omega),
      ofNat_eq (a := c) (by omega)]
  | case2 a b =>
    have ha := a.toNat_lt
    have hb := b.toNat_lt
    have hleft : (a.toNat * 2 ^ 16 + b.toNat * 2 ^ 8 + 0) / 64 ^ 1 % 64 % 4 = 0 := by omega
    simp only [Session.encodeGroup, UInt8.toNat_zero, List.take_succ_cons, List.take_zero,
      List.cons_append, List.nil_append, decode, sextetOf_sextet, Option.bind_eq_bind,
      Option.bind_some, sextet_ne_pad, and_false, if_false]
    rw [if_pos ⟨trivial, rfl⟩, if_pos hleft, ofNat_eq (a := a) (by omega),
      ofNat_eq (a := b) (by omega)]
  | case3 a =>
    have ha := a.toNat_lt
    have hleft : (a.toNat * 2 ^ 16 + 0 * 2 ^ 8 + 0) / 64 ^ 2 % 64 % 16 = 0 := by omega
    simp only [Session.encodeGroup, UInt8.toNat_zero, List.take_succ_cons, List.take_zero,
      List.cons_append, List.nil_append, decode, sextetOf_sextet, Option.bind_eq_bind,
      Option.bind_some]
    rw [if_pos ⟨trivial, rfl, rfl⟩, if_pos hleft, ofNat_eq (a := a) (by omega)]
  | case4 => rfl

/-! ### Nothing else decodes -/

theorem alphabet_of_sextetOf {c : UInt8} {i : ℕ} (h : sextetOf c = some i) :
    i < 64 ∧ ALPHABET.getD i 0 = c := by
  have key : ∀ c : Fin 256, ∀ i, sextetOf (.ofFin c) = some i →
      i < 64 ∧ ALPHABET.getD i 0 = .ofFin c := by
    have hall : ∀ c : Fin 256, (sextetOf (.ofFin c)).all fun i =>
        decide (i < 64) && ALPHABET.getD i 0 == .ofFin c := by decide +kernel
    intro c i hi
    have := hall c
    rw [hi] at this
    simpa using this
  exact key c.toFin i h

theorem sextet_eq {n k i : ℕ} {c : UInt8} (hc : ALPHABET.getD i 0 = c)
    (hn : n / 64 ^ k % 64 = i) : Session.sextet n k = c := by
  rw [Session.sextet, hn, hc]

/-- **Decoding is strict**: a text that decodes is the encoding of what it decodes to. -/
theorem base64Encode_of_decode {x b : Bytes} (h : decode x = some b) : base64Encode b = x := by
  induction x using decode.induct generalizing b with
  | case1 =>
    cases h
    rfl
  | case2 w x y z t ih =>
    rw [decode] at h
    simp only [Option.bind_eq_bind, Option.bind_eq_some_iff] at h
    obtain ⟨i, hi, j, hj, h⟩ := h
    obtain ⟨hi, rfl⟩ := alphabet_of_sextetOf hi
    obtain ⟨hj, rfl⟩ := alphabet_of_sextetOf hj
    have hfirst := toNat_ofNat_of_lt (n := i * 4 + j / 16) (by omega)
    split at h
    next hpad =>
      obtain ⟨rfl, rfl, rfl⟩ := hpad
      split at h
      next hleft =>
        cases h
        simp only [base64Encode, Session.encodeGroup, hfirst, UInt8.toNat_zero,
          List.take_succ_cons, List.take_zero, List.cons_append, List.nil_append]
        rw [sextet_eq (i := i) rfl (by omega), sextet_eq (i := j) rfl (by omega), PAD]
      · cases h
    · rw [Option.bind_eq_some_iff] at h
      obtain ⟨k, hk, h⟩ := h
      obtain ⟨hk, rfl⟩ := alphabet_of_sextetOf hk
      have hsecond := toNat_ofNat_of_lt (n := j % 16 * 16 + k / 4) (by omega)
      split at h
      next hpad =>
        obtain ⟨rfl, rfl⟩ := hpad
        split at h
        next hleft =>
          cases h
          simp only [base64Encode, Session.encodeGroup, hfirst, hsecond, UInt8.toNat_zero,
            List.take_succ_cons, List.take_zero, List.cons_append, List.nil_append]
          rw [sextet_eq (i := i) rfl (by omega), sextet_eq (i := j) rfl (by omega),
            sextet_eq (i := k) rfl (by omega), PAD]
        · cases h
      · simp only [Option.bind_eq_some_iff] at h
        obtain ⟨l, hl, rest, hrest, h⟩ := h
        obtain ⟨hl, rfl⟩ := alphabet_of_sextetOf hl
        have hthird := toNat_ofNat_of_lt (n := k % 4 * 64 + l) (by omega)
        cases h
        rw [base64Encode, Session.encodeGroup, hfirst, hsecond, hthird]
        simp only [List.cons_append, List.nil_append]
        rw [ih hrest, sextet_eq (i := i) rfl (by omega), sextet_eq (i := j) rfl (by omega),
          sextet_eq (i := k) rfl (by omega), sextet_eq (i := l) rfl (by omega)]
  | case3 x hnil hcons =>
    rw [decode] at h
    · cases h
    · exact hnil
    · exact hcons

theorem decode_eq_some_iff {x b : Bytes} : decode x = some b ↔ x = base64Encode b := by
  constructor
  · intro h
    exact (base64Encode_of_decode h).symm
  · rintro rfl
    exact decode_base64Encode b

/-! ### Lengths -/

theorem length_base64Encode (b : Bytes) : (base64Encode b).length = encodedLen b.length := by
  fun_induction base64Encode b with
  | case1 a b c t ih =>
    rw [List.length_append, ih]
    simp only [Session.encodeGroup, List.length_cons, List.length_nil, encodedLen, INPUT_GROUP,
      OUTPUT_GROUP]
    omega
  | case2 => simp [Session.encodeGroup, encodedLen, INPUT_GROUP, OUTPUT_GROUP]
  | case3 => simp [Session.encodeGroup, encodedLen, INPUT_GROUP, OUTPUT_GROUP]
  | case4 => rfl

theorem encodedLen_eq (n : ℕ) : encodedLen n = 4 * ⌈(n : ℚ) / 3⌉₊ := by
  have hle : n ≤ ⌈(n : ℚ) / 3⌉₊ * 3 := by
    have h : (n : ℚ) / 3 ≤ ⌈(n : ℚ) / 3⌉₊ := Nat.le_ceil _
    rw [div_le_iff₀ (by norm_num)] at h
    exact_mod_cast h
  have hge : ⌈(n : ℚ) / 3⌉₊ ≤ (n + 2) / 3 := by
    rw [Nat.ceil_le, div_le_iff₀ (by norm_num)]
    exact_mod_cast (by omega : n ≤ (n + 2) / 3 * 3)
  show (n + 3 - 1) / 3 * 4 = _
  omega

end Base64

/-! ### SASL PLAIN -/

open Base64

/-- A message with two zeros splits at zeros in one way. -/
theorem split_unique {user pass a u p : Bytes} (huser : 0 ∉ user) (hpass : 0 ∉ pass)
    (h : (0 : UInt8) :: (user ++ 0 :: pass) = a ++ 0 :: (u ++ 0 :: p)) :
    a = [] ∧ u = user ∧ p = pass := by
  cases a with
  | nil =>
    obtain ⟨rfl, -, rfl⟩ := (List.append_cons_inj_of_notMem huser hpass).mp (List.cons.inj h).2
    exact ⟨rfl, rfl, rfl⟩
  | cons b a =>
    obtain ⟨-, -, rfl⟩ := (List.append_cons_inj_of_notMem huser hpass).mp (List.cons.inj h).2
    exact absurd (by simp) hpass

theorem count_message {user pass : Bytes} (huser : 0 ∉ user) (hpass : 0 ∉ pass) :
    ((0 : UInt8) :: (user ++ 0 :: pass)).count 0 = 2 := by
  rw [List.count_cons_self, List.count_append, List.count_cons_self,
    List.count_eq_zero_of_not_mem huser, List.count_eq_zero_of_not_mem hpass]

/-- A zero in either is refused before anything is sent. -/
theorem authenticatePlain_of_mem {user pass : Str} (h : 0 ∈ user.bytes ∨ 0 ∈ pass.bytes)
    (s : Session) : ∃ e, Session.authenticatePlain user pass s = (.error e, s) := by
  rw [Session.authenticatePlain]
  by_cases huser : user.bytes.contains 0 = true
  · rw [if_pos huser]
    exact ⟨_, rfl⟩
  · have hpass : pass.bytes.contains 0 = true := by
      rw [List.contains_iff_mem] at huser ⊢
      exact h.resolve_left huser
    rw [if_neg huser, if_pos hpass]
    exact ⟨_, rfl⟩

/-- **Credentials survive the encoding.** The encoder is undone by strict decoding, and its length
is as announced. The response of `AUTHENTICATE PLAIN` is one line, and what it encodes splits at its
two zeros into an empty authorization identity, the user and the password, and in no other way. -/
theorem saslPlainLine_decodes :
    (∀ b out : Bytes, encodeInto b out = out ++ encodeInto b [] ∧
      decode (encodeInto b []) = some b ∧
      (encodeInto b []).length = encodedLen b.length ∧
      encodedLen b.length = 4 * ⌈(b.length : ℚ) / 3⌉₊) ∧
    (∀ user pass : Str, 0 ∉ user.bytes → 0 ∉ pass.bytes →
      ∃ x message, Session.saslPlainLine user pass = x ++ CRLF ∧ CR ∉ x ∧ LF ∉ x ∧
        decode x = some message ∧ message.count 0 = 2 ∧
        message = [] ++ 0 :: (user.bytes ++ 0 :: pass.bytes) ∧
        ∀ a u p, message = a ++ 0 :: (u ++ 0 :: p) → a = [] ∧ u = user.bytes ∧ p = pass.bytes) ∧
    ∀ (user pass : Str) (s : Session), 0 ∈ user.bytes ∨ 0 ∈ pass.bytes →
      ∃ e, Session.authenticatePlain user pass s = (.error e, s) := by
  refine ⟨fun b out => ?_, fun user pass huser hpass => ?_,
    fun user pass s h => authenticatePlain_of_mem h s⟩
  · rw [encodeInto_eq b out, encodeInto_eq b [], List.nil_append]
    exact ⟨rfl, decode_base64Encode b, length_base64Encode b, encodedLen_eq b.length⟩
  · refine ⟨_, _, rfl, Session.not_mem_base64Encode (by decide +kernel) _,
      Session.not_mem_base64Encode (by decide +kernel) _, decode_base64Encode _,
      count_message huser hpass, rfl, fun a u p h => split_unique huser hpass h⟩

theorem validUtf8_tim : validUtf8 (ascii "tim") = true := by decide +kernel

theorem validUtf8_tanstaaf : validUtf8 (ascii "tanstaaf") = true := by decide +kernel

/-- The credentials of the standard's example. -/
theorem saslPlainLine_decodes_tim :
    ∃ x message, Session.saslPlainLine ⟨ascii "tim", validUtf8_tim⟩
        ⟨ascii "tanstaaf", validUtf8_tanstaaf⟩ = x ++ CRLF ∧ CR ∉ x ∧ LF ∉ x ∧
      decode x = some message ∧ message.count 0 = 2 ∧
      message = [] ++ 0 :: (ascii "tim" ++ 0 :: ascii "tanstaaf") ∧
      ∀ a u p, message = a ++ 0 :: (u ++ 0 :: p) →
        a = [] ∧ u = ascii "tim" ∧ p = ascii "tanstaaf" :=
  saslPlainLine_decodes.2.1 ⟨ascii "tim", validUtf8_tim⟩ ⟨ascii "tanstaaf", validUtf8_tanstaaf⟩
    (by decide +kernel) (by decide +kernel)

end ImapRs
