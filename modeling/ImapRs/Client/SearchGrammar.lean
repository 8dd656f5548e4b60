import ImapRs.Client.Search

/-!
# What a rendered search means

The search keys of RFC 9051 that a criterion can be, over tokens: keywords in any letter case,
`NOT key`, `OR key key`, and one or more keys separated by single spaces, which stand for their
conjunction. A criterion tree has a meaning of its own, and the two agree on every tree that has
neither an empty conjunction nor `RECENT` in it. An empty `And` renders as nothing at all, and
nothing is not a search key. `RECENT` is a search key of RFC 3501 only: a server of the older
protocol reads it, and for such a server the empty conjunction is the one obstacle.

The grammar is over a table of keywords. What the newer one derives the older one derives too, and a
line has one reading in the older, so the readings in the newer are those without `RECENT`.

## Main definitions

* `Message`, `SearchKey.holds` — the meaning of a tree
* `keywords`, `rev1Keywords` — the keywords of RFC 9051, and of RFC 3501
* `Key`, `Derives`, `DerivesAll`, `Key.holds` — the grammar and the meaning of its keys
* `Tight` — no separator without a key on both sides

## Main results

* `derivesAll_unique` — a line has at most one reading
* `derivesAll_iff` — what dropping a keyword takes away
* `meansSame_rev1_iff`, `meansSame_iff` — which trees mean what they say once rendered
-/

namespace ImapRs

/-! ### The meaning of a tree -/

/-- The flags that searches ask for. -/
inductive SystemFlag where
  | answered | deleted | draft | flagged | recent | seen
  deriving DecidableEq, Repr

/-- The parts of a message that searches look into. -/
inductive Field where
  | from_ | to | subject | body | text
  deriving DecidableEq, Repr

/-- What a search can tell about a message. -/
structure Message where
  has : SystemFlag → Bool
  contains : Field → Bytes → Bool

mutual

/-- Whether a message meets the criterion. -/
def SearchKey.holds (m : Message) : SearchKey → Bool
  | .from_ s => m.contains .from_ s.bytes
  | .to s => m.contains .to s.bytes
  | .subject s => m.contains .subject s.bytes
  | .body s => m.contains .body s.bytes
  | .text s => m.contains .text s.bytes
  | .all => true
  | .answered => m.has .answered
  | .deleted => m.has .deleted
  | .draft => m.has .draft
  | .flagged => m.has .flagged
  | .recent => m.has .recent
  | .seen => m.has .seen
  | .unanswered => !m.has .answered
  | .undeleted => !m.has .deleted
  | .undraft => !m.has .draft
  | .unflagged => !m.has .flagged
  | .unseen => !m.has .seen
  | .and keys => allHold m keys
  | .or left right => left.holds m || right.holds m
  | .not key => !key.holds m

def SearchKey.allHold (m : Message) : List SearchKey → Bool
  | [] => true
  | key :: keys => key.holds m && allHold m keys

end

mutual

/-- Whether no conjunction in the tree is empty. -/
def SearchKey.solid : SearchKey → Bool
  | .and keys => !keys.isEmpty && allSolid keys
  | .or left right => left.solid && right.solid
  | .not key => key.solid
  | _ => true

def SearchKey.allSolid : List SearchKey → Bool
  | [] => true
  | key :: keys => key.solid && allSolid keys

end

mutual

/-- Whether `RECENT` is nowhere in the tree. -/
def SearchKey.avoidsRecent : SearchKey → Bool
  | .recent => false
  | .and keys => allAvoidRecent keys
  | .or left right => left.avoidsRecent && right.avoidsRecent
  | .not key => key.avoidsRecent
  | _ => true

def SearchKey.allAvoidRecent : List SearchKey → Bool
  | [] => true
  | key :: keys => key.avoidsRecent && allAvoidRecent keys

end

/-! ### The grammar -/

/-- A search key as a server reads it. -/
inductive Key where
  | all
  | has (flag : SystemFlag)
  | lacks (flag : SystemFlag)
  | contains (field : Field) (text : Bytes)
  | not (key : Key)
  | or (left right : Key)
  | group (keys : List Key)

mutual

def Key.holds (m : Message) : Key → Bool
  | .all => true
  | .has flag => m.has flag
  | .lacks flag => !m.has flag
  | .contains field text => m.contains field text
  | .not key => !key.holds m
  | .or left right => left.holds m || right.holds m
  | .group keys => allHold m keys

/-- Juxtaposition is conjunction. -/
def Key.allHold (m : Message) : List Key → Bool
  | [] => true
  | key :: keys => key.holds m && allHold m keys

end

mutual

/-- Whether the key does not ask for `RECENT`. -/
def Key.avoidsRecent : Key → Bool
  | .has flag => flag != .recent
  | .not key => key.avoidsRecent
  | .or left right => left.avoidsRecent && right.avoidsRecent
  | .group keys => allAvoidRecent keys
  | _ => true

def Key.allAvoidRecent : List Key → Bool
  | [] => true
  | key :: keys => key.avoidsRecent && allAvoidRecent keys

end

/-- What a keyword announces. -/
inductive Keyword where
  | plain (key : Key)
  | field (field : Field)
  | not
  | or

def Keyword.avoidsRecent : Keyword → Bool
  | .plain key => key.avoidsRecent
  | _ => true

/-- The keywords of RFC 9051 that a criterion can be. -/
def keywords : List (String × Keyword) :=
  [("ALL", .plain .all), ("ANSWERED", .plain (.has .answered)), ("DELETED", .plain (.has .deleted)),
    ("DRAFT", .plain (.has .draft)), ("FLAGGED", .plain (.has .flagged)),
    ("SEEN", .plain (.has .seen)), ("UNANSWERED", .plain (.lacks .answered)),
    ("UNDELETED", .plain (.lacks .deleted)), ("UNDRAFT", .plain (.lacks .draft)),
    ("UNFLAGGED", .plain (.lacks .flagged)), ("UNSEEN", .plain (.lacks .seen)),
    ("FROM", .field .from_), ("TO", .field .to), ("SUBJECT", .field .subject),
    ("BODY", .field .body), ("TEXT", .field .text), ("NOT", .not), ("OR", .or)]

/-- Those of RFC 3501. -/
def rev1Keywords : List (String × Keyword) := keywords ++ [("RECENT", .plain (.has .recent))]

/-- The keyword of a table an atom spells, in any letter case. -/
def keyword? (table : List (String × Keyword)) (name : Bytes) : Option Keyword :=
  (table.find? fun k => eqIgnoreAsciiCase name (ascii k.1)).map (·.2)

/-- The text an `astring` stands for. -/
def Token.astring? : Token → Option Bytes
  | .atom name => some name
  | .quoted raw => some (unescape raw.bytes)
  | _ => none

mutual

/-- The tokens of one search key. -/
inductive Derives (table : List (String × Keyword)) : Key → List Token → Prop
  | plain {name key} : keyword? table name = some (.plain key) → Derives table key [.atom name]
  | field {name field arg text} : keyword? table name = some (.field field) →
      Token.astring? arg = some text →
      Derives table (.contains field text) [.atom name, .space, arg]
  | not {name key tokens} : keyword? table name = some .not → Derives table key tokens →
      Derives table (.not key) (.atom name :: .space :: tokens)
  | or {name left right l r} : keyword? table name = some .or → Derives table left l →
      Derives table right r →
      Derives table (.or left right) (.atom name :: .space :: (l ++ .space :: r))
  | group {keys tokens} : DerivesAll table keys tokens →
      Derives table (.group keys) (.lparen :: (tokens ++ [.rparen]))

/-- The tokens of one or more search keys. -/
inductive DerivesAll (table : List (String × Keyword)) : List Key → List Token → Prop
  | one {key tokens} : Derives table key tokens → DerivesAll table [key] tokens
  | more {key keys l r} : Derives table key l → DerivesAll table keys r →
      DerivesAll table (key :: keys) (l ++ .space :: r)

end

/-- A rendered tree is a search program with one reading, and the reading means what the tree
does. -/
def SearchKey.MeansSame (table : List (String × Keyword)) (t : SearchKey) : Prop :=
  ∃ tokens keys, lex t.toImapString = some tokens ∧ DerivesAll table keys tokens ∧
    (∀ keys', DerivesAll table keys' tokens → keys' = keys) ∧ ∀ m, Key.allHold m keys = t.holds m

variable {table : List (String × Keyword)}

/-! ### The reading of a tree -/

mutual

/-- The keys the rendered tree is read as. -/
def SearchKey.keys : SearchKey → List Key
  | .from_ s => [.contains .from_ s.bytes]
  | .to s => [.contains .to s.bytes]
  | .subject s => [.contains .subject s.bytes]
  | .body s => [.contains .body s.bytes]
  | .text s => [.contains .text s.bytes]
  | .all => [.all]
  | .answered => [.has .answered]
  | .deleted => [.has .deleted]
  | .draft => [.has .draft]
  | .flagged => [.has .flagged]
  | .recent => [.has .recent]
  | .seen => [.has .seen]
  | .unanswered => [.lacks .answered]
  | .undeleted => [.lacks .deleted]
  | .undraft => [.lacks .draft]
  | .unflagged => [.lacks .flagged]
  | .unseen => [.lacks .seen]
  | .and keys => allKeys keys
  | .or left right => [.or (.group left.keys) (.group right.keys)]
  | .not key => [.not (.group key.keys)]

def SearchKey.allKeys : List SearchKey → List Key
  | [] => []
  | key :: keys => key.keys ++ allKeys keys

end

theorem Key.allHold_append (m : Message) (l r : List Key) :
    Key.allHold m (l ++ r) = (Key.allHold m l && Key.allHold m r) := by
  induction l with
  | nil => rfl
  | cons key l ih => rw [List.cons_append, allHold, ih, allHold, Bool.and_assoc]

mutual

theorem SearchKey.allHold_keys (m : Message) : ∀ t : SearchKey, Key.allHold m t.keys = t.holds m
  | .and members => by rw [keys, allHold_allKeys m members, holds]
  | .or left right => by
    simp only [keys, Key.allHold, Key.holds, allHold_keys m left, allHold_keys m right, holds,
      Bool.and_true]
  | .not key => by
    simp only [keys, Key.allHold, Key.holds, allHold_keys m key, holds, Bool.and_true]
  | .from_ _ | .to _ | .subject _ | .body _ | .text _ | .all | .answered | .deleted | .draft
  | .flagged | .recent | .seen | .unanswered | .undeleted | .undraft | .unflagged | .unseen => by
    simp [keys, Key.allHold, Key.holds, holds]

theorem SearchKey.allHold_allKeys (m : Message) : ∀ keys : List SearchKey,
    Key.allHold m (allKeys keys) = SearchKey.allHold m keys
  | [] => rfl
  | key :: keys => by
    rw [allKeys, Key.allHold_append, allHold_keys m key, allHold_allKeys m keys, allHold]

end

theorem DerivesAll.append {keys keys' : List Key} {l r : List Token} (h : DerivesAll table keys l)
    (h' : DerivesAll table keys' r) : DerivesAll table (keys ++ keys') (l ++ .space :: r) := by
  match h with
  | .one hk => exact .more hk h'
  | .more hk hks =>
    rw [List.append_assoc]
    exact .more hk (hks.append h')

theorem derives_text {keyword : String} {f : Field}
    (h : keyword? table (ascii keyword) = some (.field f)) (s : Str) :
    DerivesAll table [.contains f s.bytes] (textTokens keyword s) :=
  .one (.field h (by rw [Token.astring?, Str.escaped, unescape_escape]))

mutual

theorem SearchKey.derives : ∀ t : SearchKey, t.solid = true →
    DerivesAll rev1Keywords t.keys t.tokens
  | .from_ s, _ | .to s, _ | .subject s, _ | .body s, _ | .text s, _ => derives_text (by rfl) s
  | .and keys, h => by
    obtain ⟨hne, h⟩ := Bool.and_eq_true_iff.mp h
    exact derives_all keys (by simpa using hne) h
  | .or left right, h => by
    obtain ⟨hl, hr⟩ := Bool.and_eq_true_iff.mp h
    have hor : keyword? rev1Keywords (ascii "OR") = some .or := rfl
    have := Derives.or hor (.group (derives left hl)) (.group (derives right hr))
    exact .one (by simpa [tokens] using this)
  | .not key, h => .one (.not rfl (.group (derives key h)))
  | .all, _ | .answered, _ | .deleted, _ | .draft, _ | .flagged, _ | .recent, _ | .seen, _
  | .unanswered, _ | .undeleted, _ | .undraft, _ | .unflagged, _ | .unseen, _ =>
    .one (.plain (by rfl))

theorem SearchKey.derives_all : ∀ keys : List SearchKey, keys ≠ [] → allSolid keys = true →
    DerivesAll rev1Keywords (allKeys keys) ([Token.space].intercalate (allTokens keys))
  | [], h, _ => absurd rfl h
  | [key], _, h => by
    have := derives key (Bool.and_eq_true_iff.mp h).1
    simpa [allKeys, allTokens, List.intercalate] using this
  | key :: next :: keys, _, h => by
    obtain ⟨hkey, h⟩ := Bool.and_eq_true_iff.mp h
    have hrest := derives_all (next :: keys) (by simp) h
    rw [allTokens, intercalate_space_cons _ (by simp [allTokens]), allKeys]
    exact (derives key hkey).append hrest

end

/-! ### A line has at most one reading -/

/-- What can follow a list of keys: not a space. -/
def EndsKeys (rest : List Token) : Prop := ∀ token ∈ rest.head?, token ≠ .space

mutual

theorem Derives.unique : ∀ {key key' : Key} {l l' r r' : List Token}, Derives table key l →
    Derives table key' l' → l ++ r = l' ++ r' → key = key' ∧ l = l'
  | _, _, _, _, _, _, .plain h, hd, heq => by
    cases hd with
    | plain h' => simp_all
    | field h' => simp_all
    | not h' => simp_all
    | or h' => simp_all
    | group => simp at heq
  | _, _, _, _, _, _, .field h ha, hd, heq => by
    cases hd with
    | plain h' => simp_all
    | field h' ha' =>
      simp only [List.cons_append, List.nil_append, List.cons.injEq, Token.atom.injEq,
        true_and] at heq
      obtain ⟨rfl, rfl, rfl⟩ := heq
      simp_all
    | not h' => simp_all
    | or h' => simp_all
    | group => simp at heq
  | _, _, _, _, _, _, .not h hk, hd, heq => by
    cases hd with
    | plain h' => simp_all
    | field h' => simp_all
    | not h' hk' =>
      simp only [List.cons_append, List.cons.injEq, Token.atom.injEq, true_and] at heq
      obtain ⟨rfl, rfl⟩ := hk.unique hk' heq.2
      exact ⟨rfl, by rw [heq.1]⟩
    | or h' => simp_all
    | group => simp at heq
  | _, _, _, _, _, _, .or h hk hk₂, hd, heq => by
    cases hd with
    | plain h' => simp_all
    | field h' => simp_all
    | not h' hk' => simp_all
    | or h' hk' hk₂' =>
      simp only [List.cons_append, List.cons.injEq, Token.atom.injEq, true_and,
        List.append_assoc] at heq
      obtain ⟨rfl, heq⟩ := heq
      obtain ⟨rfl, rfl⟩ := hk.unique hk' heq
      obtain ⟨rfl, rfl⟩ := hk₂.unique hk₂' (List.cons.inj (List.append_cancel_left heq)).2
      exact ⟨rfl, rfl⟩
    | group => simp at heq
  | _, _, _, _, _, _, .group hks, hd, heq => by
    cases hd with
    | group hks' =>
      simp only [List.cons_append, List.cons.injEq, true_and, List.append_assoc] at heq
      obtain ⟨rfl, rfl⟩ := hks.unique hks' heq (by simp [EndsKeys]) (by simp [EndsKeys])
      exact ⟨rfl, rfl⟩
    | _ => simp at heq

theorem DerivesAll.unique : ∀ {keys keys' : List Key} {l l' r r' : List Token},
    DerivesAll table keys l → DerivesAll table keys' l' → l ++ r = l' ++ r' → EndsKeys r →
      EndsKeys r' → keys = keys' ∧ l = l'
  | _, _, _, _, _, _, .one hk, hd, heq, hr, hr' => by
    cases hd with
    | one hk' =>
      obtain ⟨rfl, rfl⟩ := hk.unique hk' heq
      exact ⟨rfl, rfl⟩
    | more hk' hks' =>
      rw [List.append_assoc] at heq
      obtain ⟨rfl, rfl⟩ := hk.unique hk' heq
      rw [List.append_cancel_left heq] at hr
      exact absurd rfl (hr .space rfl)
  | _, _, _, _, _, _, .more hk hks, hd, heq, hr, hr' => by
    rw [List.append_assoc] at heq
    cases hd with
    | one hk' =>
      obtain ⟨rfl, rfl⟩ := hk.unique hk' heq
      rw [← List.append_cancel_left heq] at hr'
      exact absurd rfl (hr' .space rfl)
    | more hk' hks' =>
      rw [List.append_assoc] at heq
      obtain ⟨rfl, rfl⟩ := hk.unique hk' heq
      have heq := (List.cons.inj (List.append_cancel_left heq)).2
      obtain ⟨rfl, rfl⟩ := hks.unique hks' heq hr hr'
      exact ⟨rfl, rfl⟩

end

/-- **A line has at most one reading.** -/
theorem derivesAll_unique {keys keys' : List Key} {tokens : List Token}
    (h : DerivesAll table keys tokens) (h' : DerivesAll table keys' tokens) : keys' = keys :=
  (h'.unique h (r := []) rfl (by simp [EndsKeys]) (by simp [EndsKeys])).1

/-! ### Separators stand between keys -/

/-- A token after which a key must follow. -/
def Token.isOpening (token : Token) : Bool := token == .space || token == .lparen

/-- A token before which a key must have ended. -/
def Token.isClosing (token : Token) : Bool := token == .space || token == .rparen

/-- Two neighbours without a key missing between them. -/
def Filled (a b : Token) : Prop := a.isOpening = false ∨ b.isClosing = false

/-- No separator lacks a key, and neither end does. -/
def Tight (tokens : List Token) : Prop := (.lparen :: (tokens ++ [.rparen])).IsChain Filled

theorem not_tight_nil : ¬ Tight [] := by
  simp [Tight, Filled, Token.isOpening, Token.isClosing]

theorem isChain_opening {a b : Token} (ha : a.isOpening = true) (hb : b.isOpening = true)
    {l : List Token} : (a :: l).IsChain Filled ↔ (b :: l).IsChain Filled := by
  simp only [List.isChain_cons, Filled, ha, hb]

theorem isChain_closing {a b : Token} (ha : a.isClosing = true) (hb : b.isClosing = true)
    {l : List Token} : (l ++ [a]).IsChain Filled ↔ (l ++ [b]).IsChain Filled := by
  simp [List.isChain_append, Filled, ha, hb]

theorem tight_append_space {l r : List Token} : Tight (l ++ .space :: r) ↔ Tight l ∧ Tight r := by
  have hsplit : Token.lparen :: (l ++ .space :: r ++ [.rparen])
      = (.lparen :: l) ++ .space :: (r ++ [.rparen]) := by simp
  rw [Tight, hsplit, List.isChain_split,
    isChain_closing (a := .space) (b := .rparen) rfl rfl,
    isChain_opening (a := .space) (b := .lparen) rfl rfl]
  rfl

theorem tight_singleton {token : Token} (h : token.isOpening = false)
    (h' : token.isClosing = false) :
    Tight [token] := by
  simp [Tight, Filled, h, h']

theorem tight_parens {l : List Token} : Tight (.lparen :: (l ++ [.rparen])) ↔ Tight l := by
  have hsplit : Token.lparen :: (.lparen :: (l ++ [.rparen]) ++ [.rparen])
      = .lparen :: ((.lparen :: l) ++ .rparen :: [.rparen]) := by simp
  rw [Tight, hsplit, List.isChain_cons, List.isChain_split]
  simp [Tight, Filled, Token.isClosing, Token.isOpening]

theorem tight_astring {token : Token} {text : Bytes} (h : token.astring? = some text) :
    Tight [token] := by
  cases token with
  | atom _ | quoted _ => exact tight_singleton rfl rfl
  | lparen | rparen | space => cases h

mutual

/-- What the grammar derives is tight. -/
theorem Derives.tight : ∀ {key : Key} {tokens : List Token}, Derives table key tokens →
    Tight tokens
  | _, _, .plain _ => tight_singleton rfl rfl
  | _, _, @Derives.field _ name _ _ _ _ ha =>
    tight_append_space (l := [.atom name]) |>.mpr ⟨tight_singleton rfl rfl, tight_astring ha⟩
  | _, _, @Derives.not _ name _ _ _ hk =>
    tight_append_space (l := [.atom name]) |>.mpr ⟨tight_singleton rfl rfl, hk.tight⟩
  | _, _, @Derives.or _ name _ _ _ _ _ hl hr =>
    tight_append_space (l := [.atom name]) |>.mpr
      ⟨tight_singleton rfl rfl, tight_append_space.mpr ⟨hl.tight, hr.tight⟩⟩
  | _, _, .group hks => tight_parens.mpr hks.tight

theorem DerivesAll.tight : ∀ {keys : List Key} {tokens : List Token},
    DerivesAll table keys tokens → Tight tokens
  | _, _, .one hk => hk.tight
  | _, _, .more hk hks => tight_append_space.mpr ⟨hk.tight, hks.tight⟩

end

mutual

/-- A tree whose tokens are tight has no empty conjunction. -/
theorem SearchKey.solid_of_tight : ∀ t : SearchKey, Tight t.tokens → t.solid = true
  | .and members, h => by
    have hne : members ≠ [] := by
      rintro rfl
      exact not_tight_nil h
    simp [solid, hne, allSolid_of_tight members hne h]
  | .or left right, h => by
    have hsplit : (SearchKey.or left right).tokens = [.atom (ascii "OR")] ++ .space ::
        ((.lparen :: (left.tokens ++ [.rparen])) ++
          .space :: (.lparen :: (right.tokens ++ [.rparen]))) := by
      simp [tokens]
    rw [hsplit, tight_append_space, tight_append_space, tight_parens, tight_parens] at h
    simp [solid, solid_of_tight left h.2.1, solid_of_tight right h.2.2]
  | .not key, h => by
    have hsplit : (SearchKey.not key).tokens = [.atom (ascii "NOT")] ++ .space ::
        (.lparen :: (key.tokens ++ [.rparen])) := by
      simp [tokens]
    rw [hsplit, tight_append_space, tight_parens] at h
    exact solid_of_tight key h.2
  | .from_ _, _ | .to _, _ | .subject _, _ | .body _, _ | .text _, _ | .all, _ | .answered, _
  | .deleted, _ | .draft, _ | .flagged, _ | .recent, _ | .seen, _ | .unanswered, _
  | .undeleted, _ | .undraft, _ | .unflagged, _ | .unseen, _ => rfl

theorem SearchKey.allSolid_of_tight : ∀ keys : List SearchKey, keys ≠ [] →
    Tight ([Token.space].intercalate (allTokens keys)) → allSolid keys = true
  | [], hne, _ => absurd rfl hne
  | [key], _, h => by
    have h : Tight key.tokens := by simpa [allTokens, List.intercalate] using h
    simp [allSolid, solid_of_tight key h]
  | key :: next :: keys, _, h => by
    rw [allTokens, intercalate_space_cons _ (by simp [allTokens]), tight_append_space] at h
    rw [allSolid, solid_of_tight key h.1, allSolid_of_tight (next :: keys) (by simp) h.2]
    rfl

end

/-! ### Without `RECENT` -/

/-- The newer table has the keywords of the older one but for `RECENT`. -/
theorem keyword?_eq_some {name : Bytes} {k : Keyword} : keyword? keywords name = some k ↔
    keyword? rev1Keywords name = some k ∧ k.avoidsRecent = true := by
  have hall : keywords.all (·.2.avoidsRecent) = true := by decide
  have happend : keyword? rev1Keywords name = (keyword? keywords name).or
      (keyword? [("RECENT", .plain (.has .recent))] name) := by
    rw [keyword?, rev1Keywords, List.find?_append, Option.map_or]
    rfl
  rw [happend]
  constructor
  · intro h
    rw [h]
    obtain ⟨entry, hfind, rfl⟩ := Option.map_eq_some_iff.mp h
    exact ⟨rfl, List.all_eq_true.mp hall entry (List.mem_of_find?_eq_some hfind)⟩
  · rintro ⟨h, hk⟩
    rcases Option.or_eq_some_iff.mp h with h | ⟨-, h⟩
    · exact h
    · obtain ⟨entry, hfind, rfl⟩ := Option.map_eq_some_iff.mp h
      rw [List.mem_singleton.mp (List.mem_of_find?_eq_some hfind)] at hk
      cases hk

mutual

theorem Derives.older : ∀ {key : Key} {tokens : List Token}, Derives keywords key tokens →
    Derives rev1Keywords key tokens ∧ key.avoidsRecent = true
  | _, _, .plain h => ⟨.plain (keyword?_eq_some.mp h).1, (keyword?_eq_some.mp h).2⟩
  | _, _, .field h ha => ⟨.field (keyword?_eq_some.mp h).1 ha, rfl⟩
  | _, _, .not h hk => ⟨.not (keyword?_eq_some.mp h).1 hk.older.1, hk.older.2⟩
  | _, _, .or h hl hr => ⟨.or (keyword?_eq_some.mp h).1 hl.older.1 hr.older.1,
      Bool.and_eq_true_iff.mpr ⟨hl.older.2, hr.older.2⟩⟩
  | _, _, .group hks => ⟨.group hks.older.1, hks.older.2⟩

theorem DerivesAll.older : ∀ {keys : List Key} {tokens : List Token},
    DerivesAll keywords keys tokens →
      DerivesAll rev1Keywords keys tokens ∧ Key.allAvoidRecent keys = true
  | _, _, .one hk => ⟨.one hk.older.1, Bool.and_eq_true_iff.mpr ⟨hk.older.2, rfl⟩⟩
  | _, _, .more hk hks => ⟨.more hk.older.1 hks.older.1,
      Bool.and_eq_true_iff.mpr ⟨hk.older.2, hks.older.2⟩⟩

end

mutual

theorem Derives.newer : ∀ {key : Key} {tokens : List Token}, Derives rev1Keywords key tokens →
    key.avoidsRecent = true → Derives keywords key tokens
  | _, _, .plain h, hk => .plain (keyword?_eq_some.mpr ⟨h, hk⟩)
  | _, _, .field h ha, _ => .field (keyword?_eq_some.mpr ⟨h, rfl⟩) ha
  | _, _, .not h hd, hk => .not (keyword?_eq_some.mpr ⟨h, rfl⟩) (hd.newer hk)
  | _, _, .or h hl hr, hk => .or (keyword?_eq_some.mpr ⟨h, rfl⟩)
      (hl.newer (Bool.and_eq_true_iff.mp hk).1) (hr.newer (Bool.and_eq_true_iff.mp hk).2)
  | _, _, .group hks, hk => .group (hks.newer hk)

theorem DerivesAll.newer : ∀ {keys : List Key} {tokens : List Token},
    DerivesAll rev1Keywords keys tokens → Key.allAvoidRecent keys = true →
      DerivesAll keywords keys tokens
  | _, _, .one hd, hk => .one (hd.newer (Bool.and_eq_true_iff.mp hk).1)
  | _, _, .more hd hds, hk => .more (hd.newer (Bool.and_eq_true_iff.mp hk).1)
      (hds.newer (Bool.and_eq_true_iff.mp hk).2)

end

/-- **What dropping `RECENT` takes away**: the readings that have it, and no others. -/
theorem derivesAll_iff {keys : List Key} {tokens : List Token} :
    DerivesAll keywords keys tokens ↔
      DerivesAll rev1Keywords keys tokens ∧ Key.allAvoidRecent keys = true :=
  ⟨fun h => h.older, fun h => h.1.newer h.2⟩

theorem Key.allAvoidRecent_append (l r : List Key) :
    Key.allAvoidRecent (l ++ r) = (Key.allAvoidRecent l && Key.allAvoidRecent r) := by
  induction l with
  | nil => rfl
  | cons key l ih => rw [List.cons_append, allAvoidRecent, ih, allAvoidRecent, Bool.and_assoc]

mutual

theorem SearchKey.allAvoidRecent_keys : ∀ t : SearchKey,
    Key.allAvoidRecent t.keys = t.avoidsRecent
  | .and members => allAvoidRecent_allKeys members
  | .or left right => by
    simp only [keys, Key.allAvoidRecent, Key.avoidsRecent, allAvoidRecent_keys left,
      allAvoidRecent_keys right, avoidsRecent, Bool.and_true]
  | .not key => by
    simp only [keys, Key.allAvoidRecent, Key.avoidsRecent, allAvoidRecent_keys key, avoidsRecent,
      Bool.and_true]
  | .from_ _ | .to _ | .subject _ | .body _ | .text _ | .all | .answered | .deleted | .draft
  | .flagged | .recent | .seen | .unanswered | .undeleted | .undraft | .unflagged | .unseen => rfl

theorem SearchKey.allAvoidRecent_allKeys : ∀ keys : List SearchKey,
    Key.allAvoidRecent (allKeys keys) = SearchKey.allAvoidRecent keys
  | [] => rfl
  | key :: keys => by
    rw [allKeys, Key.allAvoidRecent_append, allAvoidRecent_keys key, allAvoidRecent_allKeys keys,
      allAvoidRecent]

end

/-! ### Which trees mean what they say -/

/-- A tree whose line can be derived at all. -/
theorem SearchKey.solid_of_derivesAll {t : SearchKey} {tokens : List Token} {keys : List Key}
    (hlex : lex t.toImapString = some tokens) (hd : DerivesAll table keys tokens) :
    t.solid = true ∧ t.quotable = true ∧ tokens = t.tokens := by
  cases hq : t.quotable with
  | false =>
    rw [lex_toImapString_eq_none hq] at hlex
    cases hlex
  | true =>
    rw [lex_toImapString hq] at hlex
    cases hlex
    exact ⟨t.solid_of_tight hd.tight, rfl, rfl⟩

/-- **A server of RFC 3501** reads every tree without an empty conjunction for what it means, as
long as the texts can be quoted at all, and no others. -/
theorem meansSame_rev1_iff (t : SearchKey) :
    t.MeansSame rev1Keywords ↔ t.solid = true ∧ t.quotable = true := by
  constructor
  · rintro ⟨tokens, keys, hlex, hd, -, -⟩
    obtain ⟨hsolid, hq, -⟩ := SearchKey.solid_of_derivesAll hlex hd
    exact ⟨hsolid, hq⟩
  · rintro ⟨hsolid, hq⟩
    have hd := t.derives hsolid
    exact ⟨t.tokens, t.keys, lex_toImapString hq, hd, fun _ h => derivesAll_unique hd h,
      fun m => t.allHold_keys m⟩

/-- **Rendering a search preserves its meaning** on the trees with neither an empty conjunction nor
`RECENT` in them, as long as the texts can be quoted at all, and on no others. -/
theorem meansSame_iff (t : SearchKey) : t.MeansSame keywords ↔
    t.solid = true ∧ t.avoidsRecent = true ∧ t.quotable = true := by
  constructor
  · rintro ⟨tokens, keys, hlex, hd, -, -⟩
    obtain ⟨hsolid, hq, rfl⟩ := SearchKey.solid_of_derivesAll hlex hd
    obtain ⟨holder, hrecent⟩ := derivesAll_iff.mp hd
    rw [derivesAll_unique (t.derives hsolid) holder, t.allAvoidRecent_keys] at hrecent
    exact ⟨hsolid, hrecent, hq⟩
  · rintro ⟨hsolid, hrecent, hq⟩
    rw [← t.allAvoidRecent_keys] at hrecent
    have hd := derivesAll_iff.mpr ⟨t.derives hsolid, hrecent⟩
    exact ⟨t.tokens, t.keys, lex_toImapString hq, hd, fun _ h => derivesAll_unique hd h,
      fun m => t.allHold_keys m⟩

/-- An empty conjunction renders as nothing. -/
theorem empty_and_not_meansSame : ¬ SearchKey.MeansSame keywords (.and []) := by
  rintro ⟨tokens, keys, hlex, hd, -⟩
  rw [lex_toImapString rfl] at hlex
  cases hlex
  exact not_tight_nil hd.tight

end ImapRs
