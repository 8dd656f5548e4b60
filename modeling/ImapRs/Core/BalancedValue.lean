import ImapRs.Brackets.Depth
import ImapRs.Incremental.PrefixCode
import ImapRs.Incremental.Raises
import ImapRs.Core.Accepted
import ImapRs.Core.NoPanic

/-!
# The extent of a parenthesised value

ENVELOPE, BODY and BODYSTRUCTURE are handed on as the bytes of one parenthesised value, and where it
ends is found by counting parentheses. Read as tokens, in which a quoted string and a literal are
opaque, the input has one reading, and the value is its shortest beginning whose depth comes back to
zero. `parseBalancedParens` finds it, with two exceptions: it refuses a quoted string with a NUL in
it, and it counts with 32 bits.

## Main definitions

* `ValueToken` — the tokens of a value, as written
* `IsValue` — an opening parenthesis, and depth zero at the end and nowhere on the way

## Main results

* `isParenthesised_iff` — the tokens of a value describe the same byte strings as its inside
* `parseBalancedParens_value` — what is returned, when, and that the counter is never wrong
-/

namespace ImapRs

open Incremental Incremental.Cursor Brackets

/-! ### Tokens -/

/-- The inside of a quoted string: a quote is behind a backslash. -/
def isQuotedInside : Bytes → Bool
  | [] => true
  | c :: t =>
    if c = byte '\\' then
      match t with
      | _ :: t => isQuotedInside t
      | [] => false
    else c != byte '"' && isQuotedInside t

/-- A byte that begins no other token. -/
def isOrdinary (b : UInt8) : Bool :=
  !(b == byte '(' || b == byte ')' || b == byte '"' || b == byte '{')

/-- A token. Each `{` begins a literal: its header, and as many octets as that announces. -/
inductive ValueToken where
  | opening
  | closing
  | quoted (raw : Bytes) (inside : isQuotedInside raw = true)
  | literal (ds data : Bytes) (digits : Digits ds) (length : decimalValue ds = data.length)
  | ordinary (b : UInt8) (kind : isOrdinary b = true)

namespace ValueToken

def bytes : ValueToken → Bytes
  | opening => [byte '(']
  | closing => [byte ')']
  | quoted raw _ => byte '"' :: (raw ++ [byte '"'])
  | literal ds data _ _ => literalHeader ds ++ data
  | ordinary b _ => [b]

/-- What the token adds to the depth. -/
def weight : ValueToken → ℤ
  | opening => 1
  | closing => -1
  | _ => 0

theorem weight_le (t : ValueToken) : t.weight ≤ 1 := by
  cases t <;> simp [weight]

theorem le_weight (t : ValueToken) : -1 ≤ t.weight := by
  cases t <;> simp [weight]

/-- No CR or LF, unless the token is a literal. -/
def OneLine : ValueToken → Prop
  | literal .. => True
  | t => ∀ b ∈ t.bytes, b ≠ CR ∧ b ≠ LF

end ValueToken

/-- Only a quote and a backslash are escaped. -/
def escapesLegal : Bytes → Bool
  | [] => true
  | c :: t =>
    if c = byte '\\' then
      match t with
      | d :: t => (d == byte '"' || d == byte '\\') && escapesLegal t
      | [] => false
    else escapesLegal t

namespace ValueToken

/-- A quoted string is UTF-8 with legal escapes, and a literal is not too long. -/
def Readable : ValueToken → Prop
  | quoted raw _ => validUtf8 raw = true ∧ escapesLegal raw = true
  | literal _ data _ _ => data.length ≤ MAX_LITERAL_SIZE
  | _ => True

/-- A quoted string has no NUL in it. -/
def NoNul : ValueToken → Prop
  | quoted raw _ => 0 ∉ raw
  | _ => True

end ValueToken

/-- The bytes of tokens. -/
def tokenBytes (ts : List ValueToken) : Bytes := ts.flatMap ValueToken.bytes

/-- The parenthesis depth after tokens. -/
abbrev parenDepth (ts : List ValueToken) : ℤ := depth ValueToken.weight ts

/-- A parenthesised value: it starts with `(` and its depth first returns to zero at its end. -/
structure IsValue (ts : List ValueToken) : Prop where
  starts : ts.head? = some .opening
  depth_eq : parenDepth ts = 0
  depth_ne : ∀ p, p <+: ts → p ≠ [] → p ≠ ts → parenDepth p ≠ 0

/-! ### One reading -/

theorem isQuotedInside_cons {c : UInt8} (hc : c ≠ byte '\\') (t : Bytes) :
    isQuotedInside (c :: t) = (c != byte '"' && isQuotedInside t) := by
  cases t <;> simp [isQuotedInside, hc]

theorem isQuotedInside_escape (d : UInt8) (t : Bytes) :
    isQuotedInside (byte '\\' :: d :: t) = isQuotedInside t := by
  rw [isQuotedInside, if_pos rfl]

/-- A quoted string ends at the first quote that is not escaped. -/
theorem quoted_unique {raw raw' x y : Bytes} (h : isQuotedInside raw = true)
    (h' : isQuotedInside raw' = true)
    (heq : raw ++ byte '"' :: x = raw' ++ byte '"' :: y) : raw = raw' := by
  have hquote : byte '"' ≠ byte '\\' := by decide
  induction raw using isQuotedInside.induct generalizing raw' with
  | case1 =>
    cases raw' with
    | nil => rfl
    | cons c t =>
      obtain ⟨rfl, -⟩ := List.cons.inj heq
      rw [isQuotedInside_cons hquote] at h'
      cases h'
  | case2 d t ih =>
    rw [isQuotedInside_escape] at h
    cases raw' with
    | nil => exact absurd (List.cons.inj heq).1 hquote.symm
    | cons c' t' =>
      obtain ⟨rfl, htail⟩ := List.cons.inj heq
      cases t' with
      | nil =>
        rw [isQuotedInside, if_pos rfl] at h'
        cases h'
      | cons d' t' =>
        obtain ⟨rfl, hrest⟩ := List.cons.inj htail
        rw [isQuotedInside_escape] at h'
        rw [ih h h' hrest]
  | case3 =>
    rw [isQuotedInside, if_pos rfl] at h
    cases h
  | case4 c t hc ih =>
    rw [isQuotedInside_cons hc, Bool.and_eq_true, bne_iff_ne] at h
    cases raw' with
    | nil => exact absurd (List.cons.inj heq).1 h.1
    | cons c' t' =>
      obtain ⟨rfl, htail⟩ := List.cons.inj heq
      rw [isQuotedInside_cons hc, Bool.and_eq_true] at h'
      rw [ih h.2 h'.2 htail]

/-- The digits of a header end at its brace. -/
theorem digits_unique {ds ds' x y : Bytes} (h : ∀ d ∈ ds, isAsciiDigit d = true)
    (h' : ∀ d ∈ ds', isAsciiDigit d = true)
    (heq : ds ++ byte '}' :: x = ds' ++ byte '}' :: y) : ds = ds' := by
  have hscan : ∀ {ds x : Bytes}, (∀ d ∈ ds, isAsciiDigit d = true) →
      (ds ++ byte '}' :: x).takeWhile isAsciiDigit = ds := by
    intro ds x h
    rw [List.takeWhile_append_of_pos h, List.takeWhile_cons_of_neg (by decide), List.append_nil]
  rw [← hscan h (x := x), heq, hscan h']

theorem literalHeader_append (ds x : Bytes) :
    literalHeader ds ++ x = byte '{' :: (ds ++ byte '}' :: (CRLF ++ x)) := by
  simp [literalHeader]

/-- **Tokens are read in one way only.** -/
theorem prefixCode_bytes : PrefixCode ValueToken.bytes := by
  intro a b x y heq
  have hordinary : ∀ {c : UInt8}, isOrdinary c = true →
      c ≠ byte '(' ∧ c ≠ byte ')' ∧ c ≠ byte '"' ∧ c ≠ byte '{' := by
    intro c hc
    simpa [isOrdinary, and_assoc] using hc
  cases a with
  | opening =>
    cases b with
    | opening => rfl
    | ordinary c hc => exact absurd (List.cons.inj heq).1.symm (hordinary hc).1
    | literal ds data => exact absurd (List.cons.inj heq).1 (by decide)
    | _ => exact absurd (List.cons.inj heq).1 (by decide)
  | closing =>
    cases b with
    | closing => rfl
    | ordinary c hc => exact absurd (List.cons.inj heq).1.symm (hordinary hc).2.1
    | literal ds data => exact absurd (List.cons.inj heq).1 (by decide)
    | _ => exact absurd (List.cons.inj heq).1 (by decide)
  | quoted raw h =>
    cases b with
    | quoted raw' h' =>
      simp only [ValueToken.bytes, List.cons_append, List.append_assoc, List.cons.injEq,
        true_and, List.nil_append] at heq
      obtain rfl := quoted_unique h h' heq
      rfl
    | ordinary c hc => exact absurd (List.cons.inj heq).1.symm (hordinary hc).2.2.1
    | literal ds data => exact absurd (List.cons.inj heq).1 (by decide)
    | _ => exact absurd (List.cons.inj heq).1 (by decide)
  | literal ds data hds hlen =>
    cases b with
    | literal ds' data' hds' hlen' =>
      simp only [ValueToken.bytes, literalHeader_append, List.cons_append, List.append_assoc,
        List.cons.injEq, true_and] at heq
      obtain rfl := digits_unique hds.2 hds'.2 heq
      have hdata : data ++ x = data' ++ y := by simpa using heq
      obtain rfl := (List.append_inj hdata (hlen.symm.trans hlen')).1
      rfl
    | ordinary c hc => exact absurd (List.cons.inj heq).1.symm (hordinary hc).2.2.2
    | _ => exact absurd (List.cons.inj heq).1 (by decide)
  | ordinary c hc =>
    obtain ⟨h₁, h₂, h₃, h₄⟩ := hordinary hc
    cases b with
    | opening => exact absurd (List.cons.inj heq).1 h₁
    | closing => exact absurd (List.cons.inj heq).1 h₂
    | quoted raw' _ => exact absurd (List.cons.inj heq).1 h₃
    | literal ds' data' _ _ => exact absurd (List.cons.inj heq).1 h₄
    | ordinary c' hc' =>
      obtain rfl := (List.cons.inj heq).1
      rfl

/-! ### What the parser reads -/

theorem escapesLegal_cons {c : UInt8} (hc : c ≠ byte '\\') (t : Bytes) :
    escapesLegal (c :: t) = escapesLegal t := by
  cases t <;> simp [escapesLegal, hc]

/-- What the parser lets stand in a quoted string: legal escapes, and no CR, LF or NUL. -/
theorem isEscaped_iff {raw : Bytes} : isEscaped raw = true ↔
    isQuotedInside raw = true ∧ escapesLegal raw = true ∧ (∀ b ∈ raw, b ≠ CR ∧ b ≠ LF) ∧
      0 ∉ raw := by
  induction raw using isEscaped.induct with
  | case1 => simp [isEscaped, isQuotedInside, escapesLegal]
  | case2 d t ih =>
    have hslash : byte '\\' ≠ CR ∧ byte '\\' ≠ LF ∧ byte '\\' ≠ 0 := by decide
    have hspecial : d = byte '"' ∨ d = byte '\\' → d ≠ CR ∧ d ≠ LF ∧ 0 ≠ d := by
      rintro (rfl | rfl) <;> decide
    rw [isQuotedInside_escape]
    simp only [isEscaped, escapesLegal, if_pos, Bool.and_eq_true, Bool.or_eq_true, beq_iff_eq, ih,
      List.mem_cons, not_or]
    grind
  | case3 => simp [isEscaped, escapesLegal]
  | case4 c t hc ih =>
    rw [isEscaped_cons hc, isQuotedInside_cons hc, escapesLegal_cons hc, Bool.and_eq_true, ih,
      isQuotedChar]
    simp only [Bool.not_eq_true', Bool.or_eq_false_iff, beq_eq_false_iff_ne, Bool.and_eq_true,
      bne_iff_ne, List.mem_cons, not_or]
    grind

/-- A token the parser reads: nothing but a literal goes over the end of a line, and a quoted string
or a literal is read. -/
structure ValueToken.Legal (t : ValueToken) : Prop where
  oneLine : t.OneLine
  readable : t.Readable
  noNul : t.NoNul

theorem legal_opening : ValueToken.opening.Legal :=
  ⟨List.forall_mem_singleton.mpr (by decide), trivial, trivial⟩

theorem legal_closing : ValueToken.closing.Legal :=
  ⟨List.forall_mem_singleton.mpr (by decide), trivial, trivial⟩

theorem legal_quoted_iff {raw : Bytes} {h : isQuotedInside raw = true} :
    (ValueToken.quoted raw h).Legal ↔ isEscaped raw = true ∧ validUtf8 raw = true := by
  have hline : (ValueToken.quoted raw h).OneLine ↔ ∀ b ∈ raw, b ≠ CR ∧ b ≠ LF := by
    have hquote : byte '"' ≠ CR ∧ byte '"' ≠ LF := by decide
    simp only [ValueToken.OneLine, ValueToken.bytes, List.forall_mem_cons, List.forall_mem_append,
      List.not_mem_nil, false_implies, implies_true, and_true]
    exact ⟨fun h => h.2.1, fun h => ⟨hquote, h, hquote⟩⟩
  rw [isEscaped_iff]
  constructor
  · rintro ⟨hone, ⟨hutf, hesc⟩, hnul⟩
    exact ⟨⟨h, hesc, hline.mp hone, hnul⟩, hutf⟩
  · rintro ⟨⟨_, hesc, hone, hnul⟩, hutf⟩
    exact ⟨hline.mpr hone, ⟨hutf, hesc⟩, hnul⟩

theorem legal_ordinary_iff {b : UInt8} {h : isOrdinary b = true} :
    (ValueToken.ordinary b h).Legal ↔ isPlainByte b = true := by
  have hplain : isPlainByte b = true ↔ isOrdinary b = true ∧ b ≠ CR ∧ b ≠ LF := by
    simp only [isPlainByte, isOrdinary, Bool.not_eq_true', Bool.or_eq_false_iff,
      beq_eq_false_iff_ne, and_assoc]
  rw [hplain]
  constructor
  · rintro ⟨hone, -, -⟩
    exact ⟨h, hone b (List.mem_singleton_self b)⟩
  · rintro ⟨_, hone⟩
    refine ⟨fun c hc => ?_, trivial, trivial⟩
    rwa [List.mem_singleton.mp hc]

namespace Parser

variable {F : Bytes → Prop} {s t : Parser} {depth : ℕ} {token : ValueToken} {ts : List ValueToken}

/-- One round reads one token. -/
theorem token_readsBack (h : token.Legal) (hd : depth ≠ 0)
    (hlt : (depth : ℤ) + token.weight < 2 ^ 32) :
    ReadsBack token.bytes 0 F (balancedStep depth) fun v =>
      ∃ m : ℕ, v = .again m ∧ (m : ℤ) = depth + token.weight := by
  cases token with
  | opening =>
    refine (balancedStep_open hd ?_).mono (fun _ hF => hF) ?_
    · simp only [ValueToken.weight] at hlt
      omega
    · rintro v ⟨m, rfl, rfl⟩
      exact ⟨_, rfl, by simp [ValueToken.weight]⟩
  | closing =>
    obtain ⟨n, rfl⟩ := Nat.exists_eq_succ_of_ne_zero hd
    refine balancedStep_close.mono (fun _ hF => hF) ?_
    rintro v ⟨m, rfl, rfl⟩
    exact ⟨_, rfl, by simp [ValueToken.weight]⟩
  | quoted raw inside =>
    obtain ⟨hesc, hutf⟩ := legal_quoted_iff.mp h
    refine (balancedStep_quoted (s := ⟨raw, hutf⟩) ⟨hesc, rfl⟩ hd).mono (fun _ hF => hF) ?_
    rintro v ⟨m, rfl, rfl⟩
    exact ⟨_, rfl, by simp [ValueToken.weight]⟩
  | literal ds data digits length =>
    refine (balancedStep_literal ⟨h.readable, ds, digits, length, rfl⟩ hd).mono
      (fun _ hF => hF) ?_
    rintro v ⟨m, rfl, rfl⟩
    exact ⟨_, rfl, by simp [ValueToken.weight]⟩
  | ordinary b kind =>
    refine (balancedStep_plain (legal_ordinary_iff.mp h) hd).mono (fun _ hF => hF) ?_
    rintro v ⟨m, rfl, rfl⟩
    exact ⟨_, rfl, by simp [ValueToken.weight]⟩

/-- The loop reads the tokens on the way to depth zero, by induction on them. -/
theorem tokens_readsBack (hlegal : ∀ token ∈ ts, token.Legal) :
    ∀ {depth : ℕ}, FirstZero ValueToken.weight depth ts →
      Below ValueToken.weight (2 ^ 32) depth ts →
      ReadsBack (tokenBytes ts) 0 F (iterate .unexpectedEof balancedStep depth) fun _ => True := by
  induction ts with
  | nil =>
    intro depth hzero _
    obtain rfl : depth = 0 := by exact_mod_cast firstZero_nil.mp hzero
    exact .iterate_done balancedStep_bounded balancedStep_progress (.pure ⟨(), rfl, trivial⟩)
  | cons token ts ih =>
    intro depth hzero hbelow
    obtain ⟨hpos, hzero⟩ := firstZero_cons.mp hzero
    obtain ⟨-, hbelow⟩ := below_cons.mp hbelow
    obtain ⟨hhead, htail⟩ := List.forall_mem_cons.mp hlegal
    have hlt : (depth : ℤ) + token.weight < 2 ^ 32 := by simpa using hbelow [] List.nil_prefix
    have hround := token_readsBack (F := fun _ => True) hhead (by omega) hlt
    refine Reads.iterate_again (c := 0) (d := 0) balancedStep_bounded balancedStep_progress hround
      (fun m hm => ?_) fun _ _ => trivial
    refine ih htail ?_ ?_
    · rwa [hm]
    · rwa [hm]

/-! ### What the parser accepts -/

/-- What one round accepts is a token. -/
theorem token_accepts (depth : ℕ) : Accepts none (balancedStep depth) fun v x =>
    (v = .done () ∧ depth = 0 ∧ x = []) ∨ ∃ (token : ValueToken) (m : ℕ), v = .again m ∧
      x = token.bytes ∧ token.Legal ∧ 0 < depth ∧ (m : ℤ) = depth + token.weight ∧
        (depth < 2 ^ 32 → m < 2 ^ 32) := by
  rw [balancedStep]
  refine .ite (fun h => .pure (.inl ⟨rfl, h, rfl⟩)) fun h => ?_
  have hpos := Nat.pos_of_ne_zero h
  refine .peek_bind fun c => .ite ?_ fun hopen => .ite ?_ fun hclose => .ite ?_ fun hquote =>
    .ite ?_ fun hbrace => .ite ?_ fun hline => ?_
  · rintro rfl
    refine .advance_bind (.ite
      (fun hlt => .pure (.inr ⟨.opening, _, rfl, rfl, legal_opening, hpos, ?_⟩)) fun _ => .fail)
    exact ⟨by simp [ValueToken.weight], fun _ => hlt⟩
  · rintro rfl
    refine .advance_bind (.pure (.inr ⟨.closing, _, rfl, rfl, legal_closing, hpos, ?_⟩))
    exact ⟨by simp only [ValueToken.weight]; omega, fun hlt => by omega⟩
  · intro _
    refine quoted_accepts.map fun v x hx => ?_
    obtain ⟨hesc, rfl⟩ := hx
    refine .inr ⟨.quoted v.bytes (isEscaped_iff.mp hesc).1, _, rfl, rfl, ?_, hpos, ?_⟩
    · exact legal_quoted_iff.mpr ⟨hesc, v.utf8⟩
    · exact ⟨by simp [ValueToken.weight], fun hlt => hlt⟩
  · intro _
    refine literal_accepts.map fun v x hx => ?_
    obtain ⟨hmax, ds, hds, hlen, rfl⟩ := hx
    refine .inr ⟨.literal ds v.bytes hds hlen, _, rfl, rfl, ⟨trivial, hmax, trivial⟩, hpos, ?_⟩
    exact ⟨by simp [ValueToken.weight], fun hlt => hlt⟩
  · exact fun _ => .fail
  · have hkind : isOrdinary c = true := by simp [isOrdinary, hopen, hclose, hquote, hbrace]
    have hplain : isPlainByte c = true := by
      rw [not_or] at hline
      simp [isPlainByte, hopen, hclose, hquote, hbrace, hline]
    refine .advance_bind (.pure (.inr ⟨.ordinary c hkind, _, rfl, rfl, ?_, hpos, ?_⟩))
    · exact legal_ordinary_iff.mpr hplain
    · exact ⟨by simp [ValueToken.weight], fun hlt => hlt⟩

/-- The bytes bring the depth back to zero. -/
def Returns (depth : ℕ) (x : Bytes) : Prop :=
  depth < 2 ^ 32 → ∃ ts, x = tokenBytes ts ∧ (∀ token ∈ ts, token.Legal) ∧
    FirstZero ValueToken.weight depth ts ∧ Below ValueToken.weight (2 ^ 32) depth ts

/-- What the loop accepts, from its rounds. -/
theorem tokens_accepts (depth : ℕ) :
    Accepts next (iterate .unexpectedEof balancedStep depth) fun _ x => Returns depth x := by
  refine .iterate (R := fun depth _ x => Returns depth x) balancedStep_bounded balancedStep_progress
    (fun depth => ?_) (fun depth => ?_) depth
  · refine (token_accepts depth).mono ?_
    rintro v x (⟨rfl, -⟩ | ⟨token, m, rfl, rfl, hlegal, hpos, hm, hbound⟩) m' hm' b y hy hlt
    · cases hm'
    · obtain rfl := Flow.again.inj hm'
      obtain ⟨ts, rfl, hts, hzero, hbelow⟩ := hy (hbound hlt)
      rw [hm] at hzero hbelow
      refine ⟨token :: ts, rfl, List.forall_mem_cons.mpr ⟨hlegal, hts⟩, ?_, ?_⟩
      · exact firstZero_cons.mpr ⟨by exact_mod_cast hpos, hzero⟩
      · exact below_cons.mpr ⟨by exact_mod_cast hlt, hbelow⟩
  · refine (token_accepts depth).mono ?_
    rintro v x (⟨rfl, rfl, rfl⟩ | ⟨token, m, rfl, -⟩) b hb hlt
    · exact ⟨[], rfl, by simp, firstZero_nil.mpr rfl, below_nil.mpr (by exact_mod_cast hlt)⟩
    · cases hb

end Parser

/-! ### Values -/

/-- A value that the parser reads: its tokens are legal, and 32 bits count its depth. -/
structure IsReadable (ts : List ValueToken) : Prop where
  isValue : IsValue ts
  legal : ∀ token ∈ ts, token.Legal
  depth_lt : ∀ p, p <+: ts → parenDepth p < 2 ^ 32

theorem IsValue.exists_cons {ts : List ValueToken} (h : IsValue ts) :
    ∃ rest, ts = .opening :: rest ∧ FirstZero ValueToken.weight 1 rest := by
  cases ts with
  | nil => exact absurd h.starts (by simp)
  | cons token rest =>
    obtain rfl := Option.some.inj h.starts
    refine ⟨rest, rfl, firstZero_of_ne ValueToken.le_weight (by decide) ?_ fun p hp hne => ?_⟩
    · have hdepth := h.depth_eq
      rwa [parenDepth, depth_cons] at hdepth
    · have hdepth := h.depth_ne (.opening :: p) (List.cons_prefix_cons.mpr ⟨rfl, hp⟩)
        (List.cons_ne_nil _ _) (by simpa using hne)
      rwa [parenDepth, depth_cons] at hdepth

theorem isValue_cons {ts : List ValueToken} (h : FirstZero ValueToken.weight 1 ts) :
    IsValue (.opening :: ts) where
  starts := rfl
  depth_eq := by
    rw [parenDepth, depth_cons]
    exact h.1
  depth_ne := by
    intro p hp hnil hne
    cases p with
    | nil => exact absurd rfl hnil
    | cons token p =>
      obtain ⟨rfl, htail⟩ := List.cons_prefix_cons.mp hp
      have hpos := h.2 p htail (by simpa using hne)
      rw [parenDepth, depth_cons]
      exact hpos.ne'

namespace Parser

variable {s t : Parser} {ts : List ValueToken}

/-- **What is returned.** -/
theorem value_accepts : Accepts next parseBalancedParens fun v x => x = v.bytes ∧
    ∃ ts, x = tokenBytes ts ∧ IsReadable ts := by
  have hvalue : Accepts none (consumeByte (byte '(') >>= fun _ =>
      iterate .unexpectedEof balancedStep 1) fun _ x =>
        ∃ ts, x = tokenBytes ts ∧ IsReadable ts := by
    refine byte_bind_accepts ((tokens_accepts 1).mono ?_)
    intro _ x hx
    obtain ⟨ts, rfl, hlegal, hzero, hbelow⟩ := hx (by decide)
    refine ⟨.opening :: ts, rfl, isValue_cons hzero,
      List.forall_mem_cons.mpr ⟨legal_opening, hlegal⟩, fun p hp => ?_⟩
    have hlt := below_cons.mpr ⟨(by decide : (0 : ℤ) < 2 ^ 32), hbelow⟩ p hp
    rwa [zero_add] at hlt
  have hb : Bounded 0 none (consumeByte (byte '(') >>= fun _ =>
      iterate .unexpectedEof balancedStep 1) :=
    (consumeByte_bounded _).bind fun _ => iterate_bounded balancedStep_bounded
      balancedStep_progress 1
  have hread : Accepts next _ _ :=
    Accepts.capture (g := fun start bytes => (⟨start, bytes⟩ : Slice))
      (S := fun v x => x = v.bytes ∧ ∃ ts, x = tokenBytes ts ∧ IsReadable ts)
      hb hvalue fun _ _ _ hx => ⟨rfl, hx⟩
  simp only [bind_assoc] at hread
  exact hread

/-- **What is read.** -/
theorem value_readsBack (h : IsReadable ts) :
    ReadsBack (tokenBytes ts) 0 F parseBalancedParens fun v => v.bytes = tokenBytes ts := by
  obtain ⟨rest, rfl, hzero⟩ := h.isValue.exists_cons
  have hrest : Below ValueToken.weight (2 ^ 32) (1 : ℕ) rest := by
    intro p hp
    have hlt := h.depth_lt (.opening :: p) (List.cons_prefix_cons.mpr ⟨rfl, hp⟩)
    rwa [parenDepth, depth_cons] at hlt
  have hloop : ReadsBack (tokenBytes rest) 0 F (iterate .unexpectedEof balancedStep 1)
      fun _ => True :=
    tokens_readsBack (List.forall_mem_cons.mp h.legal).2 hzero hrest
  rw [show tokenBytes (.opening :: rest) = byte '(' :: tokenBytes rest from rfl]
  have hvalue : ReadsBack (byte '(' :: tokenBytes rest) 0 F
      (consumeByte (byte '(') >>= fun _ => iterate .unexpectedEof balancedStep 1) fun _ => True :=
    byte_bind hloop
  have hread := hvalue.capture
    (g := fun start bytes => (⟨start, bytes⟩ : Slice))
    (S := fun v => v.bytes = byte '(' :: tokenBytes rest) fun _ => rfl
  simp only [bind_assoc] at hread
  exact hread

/-! ### The counter -/

/-- Not the error of a counter that is full. -/
def NotOverflow (e : ParseError) : Prop := e ≠ .other "paren depth overflow"

theorem toStr_raises (bs : Bytes) : Raises NotOverflow (toStr bs) := by
  rw [toStr]
  cases fromUtf8 bs with
  | none => exact .fail (by rw [NotOverflow]; decide)
  | some s => exact .pure s

theorem consumeByte_raises (b : UInt8) : Raises NotOverflow (consumeByte b) :=
  .bind (.peek nofun) fun _ => .ite .advance (.bind .position fun _ => .fail nofun)

theorem parseQuoted_raises : Raises NotOverflow parseQuoted := by
  refine .bind (consumeByte_raises _) fun _ => .bind .position fun start =>
    .iterate nofun (fun _ => ?_) ()
  refine .bind (.peek nofun) fun c => .ite ?_ (.ite ?_ (.ite (.fail nofun) (.ite (.fail nofun) ?_)))
  · exact .bind (.sliceFrom start) fun bs => .bind (toStr_raises bs) fun _ =>
      .bind .advance fun _ => .pure _
  · exact .bind .advance fun _ => .bind (.peek nofun) fun d =>
      .ite (.bind .advance fun _ => .pure _) (.fail nofun)
  · exact .bind .advance fun _ => .pure _

theorem parseNumber_raises : Raises NotOverflow parseNumber := by
  intro s e h
  rw [parseNumber_run] at h
  have hverdict : numberVerdict (s.rest.takeWhile isAsciiDigit)
      s.input[scanStop isAsciiDigit s]? = .error e := by
    revert h
    cases numberVerdict (s.rest.takeWhile isAsciiDigit) s.input[scanStop isAsciiDigit s]? with
    | error e' =>
      rintro ⟨⟩
      rfl
    | ok n => rintro ⟨⟩
  rw [numberVerdict] at hverdict
  split at hverdict
  · split at hverdict
    all_goals
      cases hverdict
      simp [NotOverflow]
  · split at hverdict
    · cases hverdict
      simp [NotOverflow]
    · split at hverdict
      all_goals
        cases hverdict
      simp [NotOverflow]

theorem consumeCrlf_raises : Raises NotOverflow consumeCrlf := by
  refine .bind (.peek (by simp [NotOverflow])) fun c => .ite (.fail (by simp [NotOverflow])) ?_
  intro s e h
  dsimp only at h
  split at h
  · split at h
    all_goals
      cases h
    simp [NotOverflow]
  · cases h
    simp [NotOverflow]

theorem parseLiteral_raises : Raises NotOverflow parseLiteral := by
  refine .bind .position fun brace => .bind (consumeByte_raises _) fun _ =>
    .bind parseNumber_raises fun n => .bind (consumeByte_raises _) fun _ =>
      .bind consumeCrlf_raises fun _ => .ite (.fail (by simp [NotOverflow])) ?_
  intro s e h
  rw [literalPayload] at h
  split at h
  · cases h
    simp [NotOverflow]
  · cases h

/-- A round with room for one more parenthesis. -/
theorem balancedStep_notOverflow {depth : ℕ} (hlt : depth + (s.input.length - s.pos) < 2 ^ 32)
    {e : ParseError} (h : balancedStep depth s = .error e) : NotOverflow e := by
  rw [balancedStep] at h
  split at h
  · cases h
  · cases hc : s.input[s.pos]? with
    | none =>
      have hpeek : peek s = .error .incomplete := by rw [peek, Incremental.peek, hc]
      rw [run_bind_error hpeek] at h
      cases h
      simp [NotOverflow]
    | some c =>
      have hroom : depth + 1 < 2 ^ 32 := by
        have hpos := (List.getElem?_eq_some_iff.mp hc).1
        omega
      rw [run_bind_ok (peek_of_some hc), if_pos hroom] at h
      revert h
      generalize s = t
      refine fun h => (?_ : Raises NotOverflow _) h
      refine .ite (.bind .advance fun _ => .pure _) (.ite (.bind .advance fun _ => .pure _)
        (.ite (.bind parseQuoted_raises fun _ => .pure _)
          (.ite (.bind parseLiteral_raises fun _ => .pure _)
            (.ite (.fail (by simp [NotOverflow])) (.bind .advance fun _ => .pure _)))))

/-- The counter is never above what has been consumed, so it is not full before the buffer ends. -/
theorem balanced_notOverflow (depth : ℕ) (hs : s.Meets 0 none)
    (hlt : depth + (s.input.length - s.pos) < 2 ^ 32) {e : ParseError}
    (h : iterate .unexpectedEof balancedStep depth s = .error e) : NotOverflow e := by
  revert e hlt
  refine iterate_induction balancedStep_bounded balancedStep_progress (motive := fun depth s =>
    depth + (s.input.length - s.pos) < 2 ^ 32 → ∀ {e : ParseError},
      iterate .unexpectedEof balancedStep depth s = .error e → NotOverflow e) ?_ depth s hs
  intro depth s hs ih hlt e h
  rw [iterate_eq balancedStep_bounded balancedStep_progress hs] at h
  cases hround : balancedStep depth s with
  | error e' =>
    rw [hround] at h
    cases h
    exact balancedStep_notOverflow hlt hround
  | ok r =>
    obtain ⟨r, t⟩ := r
    rw [hround] at h
    cases r with
    | again m =>
      have hm := balancedStep_bounded depth hs hround
      have hmoved : s.pos < t.pos := balancedStep_progress depth hs hround
      have hle : m ≤ depth + 1 := by
        obtain ⟨-, x, -, ⟨hdone, -⟩ | ⟨token, m', hagain, -, -, -, hweight, -⟩⟩ :=
          token_accepts depth hs hround
        · cases hdone
        · obtain rfl := Flow.again.inj hagain
          have hw := token.weight_le
          omega
      refine ih m t hround ?_ h
      have hend := hm.pos_le
      rw [hm.input]
      omega
    | done u => cases h

/-- The counter never overflows on a buffer shorter than it counts. -/
theorem parseBalancedParens_notOverflow (hs : s.Valid) (hlen : s.input.length < 2 ^ 32)
    {e : ParseError} (h : parseBalancedParens s = .error e) : NotOverflow e := by
  rw [parseBalancedParens, run_position_bind] at h
  cases hbyte : consumeByte (byte '(') s with
  | error e' =>
    rw [run_bind_error hbyte] at h
    cases h
    exact consumeByte_raises _ hbyte
  | ok r =>
    obtain ⟨u, t⟩ := r
    rw [run_bind_ok hbyte] at h
    have hm : s.Moves t := consumeByte_bounded _ (Meets.zero hs) hbyte
    have hmoved : s.pos < t.pos := consumeByte_consumes _ (Meets.zero hs) hbyte
    cases hloop : iterate .unexpectedEof balancedStep 1 t with
    | error e' =>
      rw [run_bind_error hloop] at h
      cases h
      refine balanced_notOverflow 1 (Meets.zero hm.valid) ?_ hloop
      have hend := hm.pos_le
      rw [hm.input]
      omega
    | ok r =>
      obtain ⟨v, t'⟩ := r
      rw [run_bind_ok hloop] at h
      cases h

end Parser

/-- The inside of a value and its tokens describe the same byte strings: the parser reads what
either describes, and returns nothing else. -/
theorem isParenthesised_iff {raw : Bytes} :
    IsParenthesised raw ↔ ∃ ts, IsReadable ts ∧ raw = tokenBytes ts := by
  have hs : (Parser.new raw).Valid := Nat.zero_le _
  have hrest : (Parser.new raw).rest = raw ++ [] := by
    simp [Cursor.rest, Parser.new]
  constructor
  · intro h
    obtain ⟨v, a, hok, -, hv⟩ := Parser.parenthesised_readsBack (F := fun _ => True) h
      (Parser.new raw) [] hs hrest trivial (Nat.zero_le _)
    obtain ⟨-, x, -, rfl, ts, hts, hread⟩ := Parser.value_accepts (Meets.zero hs) hok
    exact ⟨ts, hread, hv ▸ hts⟩
  · rintro ⟨ts, hread, rfl⟩
    obtain ⟨v, a, hok, -, hv⟩ := Parser.value_readsBack (F := fun _ => True) hread
      (Parser.new (tokenBytes ts)) [] hs hrest trivial (Nat.zero_le _)
    obtain ⟨-, x, -, -, hvalue⟩ := Parser.parenthesised_accepts (Meets.zero hs) hok
    exact hv ▸ hvalue

/-! ### Main result -/

/-- **The extent of a parenthesised value.** What is returned are the bytes of a value, none of its
tokens but a literal goes over the end of a line, and every beginning of the input that starts with
`(` and comes back to depth zero is at least as long. Every value whose strings the parser reads and
that is nested less than 2³² deep is returned, whatever comes behind it. The counter is full only on
inputs of 2³² bytes and more, and the reader that checks its own arithmetic does the same, so it is
never taken below zero. -/
theorem parseBalancedParens_value {s : Parser} (hs : s.Valid) :
    (∀ v t, Parser.parseBalancedParens s = .ok (v, t) →
      ∃ ts, v.bytes = tokenBytes ts ∧ s.rest = v.bytes ++ t.rest ∧ IsReadable ts ∧
        ∀ ts' y, s.rest = tokenBytes ts' ++ y → ts'.head? = some .opening → parenDepth ts' = 0 →
          v.bytes <+: tokenBytes ts') ∧
    (∀ ts y, s.rest = tokenBytes ts ++ y → IsReadable ts →
      ∃ v t, Parser.parseBalancedParens s = .ok (v, t) ∧ v.bytes = tokenBytes ts ∧ t.rest = y) ∧
    (s.input.length < 2 ^ 32 →
      Parser.parseBalancedParens s ≠ .error (.other "paren depth overflow")) ∧
    ∀ usizeMax, s.input.length ≤ usizeMax →
      Checked.parseBalancedParens usizeMax s = Stop.lift (Parser.parseBalancedParens s) := by
  refine ⟨fun v t hok => ?_, fun ts y hrest hread => ?_, fun hlen herr => ?_,
    fun usizeMax hle => Checked.parseBalancedParens_agrees (Meets.zero hs) hle⟩
  · obtain ⟨-, x, hrest, rfl, ts, hts, hread⟩ := Parser.value_accepts (Meets.zero hs) hok
    refine ⟨ts, hts, hrest, hread, fun ts' y hrest' hstarts hdepth => ?_⟩
    rw [hrest, hts] at hrest'
    rw [hts]
    -- the two readings agree as far as both go
    rcases prefixCode_bytes.prefix_total hrest' with hle | hle
    · obtain ⟨more, rfl⟩ := hle
      exact ⟨tokenBytes more, List.flatMap_append.symm⟩
    · by_cases heq : ts' = ts
      · rw [heq]
      · refine absurd hdepth (hread.isValue.depth_ne ts' hle ?_ heq)
        rintro rfl
        cases hstarts
  · obtain ⟨v, a, hok, -, hv⟩ := Parser.value_readsBack (F := fun _ => True) hread s y hs hrest
      trivial (Nat.zero_le _)
    exact ⟨v, _, hok, hv, rest_behind hrest a⟩
  · exact Parser.parseBalancedParens_notOverflow hs hlen herr rfl

/-- A quoted string in parentheses. -/
theorem isValue_quoted {raw : Bytes} (h : isQuotedInside raw = true) :
    IsValue [.opening, .quoted raw h, .closing] := by
  refine isValue_cons ?_
  simp only [firstZero_cons, firstZero_nil, ValueToken.weight]
  decide

theorem parseBalancedParens_value_paren :
    ∃ v t, Parser.parseBalancedParens (Parser.new (ascii "(\")\")(")) = .ok (v, t) ∧
      v.bytes = ascii "(\")\")" ∧ t.rest = ascii "(" := by
  have hquoted : isQuotedInside (ascii ")") = true := by decide
  refine (parseBalancedParens_value (s := Parser.new (ascii "(\")\")(")) (Nat.zero_le _)).2.1
    [.opening, .quoted (ascii ")") hquoted, .closing] (ascii "(") rfl
    ⟨isValue_quoted hquoted, ?_, ?_⟩
  · simp only [List.forall_mem_cons]
    exact ⟨legal_opening, legal_quoted_iff.mpr ⟨by decide, by decide⟩, legal_closing, by simp⟩
  · intro p hp
    have hbelow : Below ValueToken.weight (2 ^ 32) 0
        [.opening, .quoted (ascii ")") hquoted, .closing] := by
      simp only [below_cons, below_nil, ValueToken.weight]
      decide
    simpa using hbelow p hp

/-- A value that is in order but for a NUL in a quoted string is refused. -/
theorem nul_not_returned : ¬ ∀ (s : Parser) (ts : List ValueToken) (y : Bytes), s.Valid →
    s.rest = tokenBytes ts ++ y → IsValue ts → (∀ token ∈ ts, token.OneLine ∧ token.Readable) →
      ∃ v t, Parser.parseBalancedParens s = .ok (v, t) ∧ v.bytes = tokenBytes ts ∧ t.rest = y := by
  intro h
  have hnul : isQuotedInside [0] = true := by decide
  have hrun : Parser.parseBalancedParens (Parser.new [byte '(', byte '"', 0, byte '"', byte ')'])
      = .error (.malformed "NUL inside quoted string") := by decide +kernel
  have hquoted : (ValueToken.quoted [0] hnul).OneLine := by
    show ∀ b ∈ [byte '"', 0, byte '"'], b ≠ CR ∧ b ≠ LF
    simp only [List.forall_mem_cons]
    exact ⟨by decide, by decide, by decide, by simp⟩
  obtain ⟨v, t, hok, -⟩ := h (Parser.new [byte '(', byte '"', 0, byte '"', byte ')'])
    [.opening, .quoted [0] hnul, .closing] [] (Nat.zero_le _) rfl (isValue_quoted hnul) (by
      simp only [List.forall_mem_cons]
      exact ⟨⟨legal_opening.oneLine, trivial⟩, ⟨hquoted, by decide, by decide⟩,
        ⟨legal_closing.oneLine, trivial⟩, by simp⟩)
  rw [hrun] at hok
  cases hok

end ImapRs
