import AsioTest.ByteStrings

/-!
The tokens of an SQL text, as far as literals in single quotes are concerned: within a literal two
quotes stand for one, and a backslash escapes the byte behind it. A statement is put together from
texts and from values between quotes; it is read back as it was meant exactly when reading a value
changes nothing in it, which comes down to counting bytes.
-/

namespace SqlLiterals

open ByteStrings

inductive Token where
  /-- A byte outside of the literals. -/
  | raw (b : Byte)
  | literal (value : Bytes)
  /-- A literal that the text ends in. -/
  | unterminated (value : Bytes)
  deriving DecidableEq

abbrev quote : Byte := chr '\''

abbrev backslash : Byte := chr '\\'

/-- What a byte behind a backslash stands for. Before the two wildcards the backslash is kept. -/
def unescape (c : Byte) : Bytes :=
  if c = chr '0' then [0]
  else if c = chr 'b' then [8]
  else if c = chr 't' then [9]
  else if c = chr 'n' then [10]
  else if c = chr 'r' then [13]
  else if c = chr 'Z' then [26]
  else if c = chr '%' ∨ c = chr '_' then [backslash, c]
  else [c]

/-- Reads on, within a literal whose value so far is given, or outside of one. -/
def tokens : Option Bytes → Bytes → List Token
  | none, [] => []
  | none, b :: rest => if b = quote then tokens (some []) rest else .raw b :: tokens none rest
  | some v, [] => [.unterminated v]
  | some v, [b] =>
      if b = quote then [.literal v]
      else if b = backslash then [.unterminated v]
      else [.unterminated (v ++ [b])]
  | some v, b :: c :: rest =>
      if b = quote then
        if c = quote then tokens (some (v ++ [quote])) rest
        else .literal v :: tokens none (c :: rest)
      else if b = backslash then tokens (some (v ++ unescape c)) rest
      else tokens (some (v ++ [b])) (c :: rest)

def tokenize (text : Bytes) : List Token := tokens none text

/-- The values of the literals. -/
def literals (ts : List Token) : List Bytes :=
  ts.filterMap fun
    | .literal v => some v
    | _ => none

/-- The token with the value of a literal left out. -/
def Token.shape : Token → Token
  | .literal _ => .literal []
  | t => t

def shape (ts : List Token) : List Token := ts.map Token.shape

/-- No quote, and a backslash only before a wildcard. -/
def isPlain : Bytes → Bool
  | [] => true
  | [b] => b ≠ quote && b ≠ backslash
  | b :: c :: rest =>
      if b = backslash then (c = chr '%' || c = chr '_') && isPlain rest
      else b ≠ quote && isPlain (c :: rest)

/-- Reading such a value as a literal changes nothing in it. -/
def Plain (v : Bytes) : Prop := isPlain v = true

instance (v : Bytes) : Decidable (Plain v) := inferInstanceAs (Decidable (_ = true))

/-! ### Statements put together -/

inductive Piece where
  | text (bytes : Bytes)
  /-- A value between quotes. -/
  | field (value : Bytes)
  /-- A value behind a quote that is not closed. -/
  | unclosed (value : Bytes)

def Piece.render : Piece → Bytes
  | .text bytes => bytes
  | .field value => quote :: value ++ [quote]
  | .unclosed value => quote :: value

def render (pieces : List Piece) : Bytes := pieces.flatMap Piece.render

/-- How a piece is meant to be read. -/
def Piece.tokens : Piece → List Token
  | .text bytes => bytes.map .raw
  | .field value => [.literal value]
  | .unclosed value => [.unterminated value]

def meant (pieces : List Piece) : List Token := pieces.flatMap Piece.tokens

/-- Texts have no quotes, and two values never touch: behind a value comes a text that is not
empty, or nothing, and nothing comes behind a value that is not closed. -/
def WellSeparated : List Piece → Prop
  | [] => True
  | .text bytes :: rest => quote ∉ bytes ∧ WellSeparated rest
  | [.field _] => True
  | .field _ :: .text bytes :: rest => bytes ≠ [] ∧ quote ∉ bytes ∧ WellSeparated rest
  | [.unclosed _] => True
  | _ => False

/-! ### Counting bytes -/

/-- How many bytes a token takes when its value is written as it is. -/
def Token.size : Token → Nat
  | .raw _ => 1
  | .literal v => v.length + 2
  | .unterminated v => v.length + 1

def size (ts : List Token) : Nat := (ts.map Token.size).sum

theorem size_cons (t : Token) (ts : List Token) : size (t :: ts) = t.size + size ts := rfl

theorem size_append (ts us : List Token) : size (ts ++ us) = size ts + size us := by
  rw [size, List.map_append, List.sum_append]
  rfl

theorem unescape_length_le (c : Byte) : (unescape c).length ≤ 2 := by
  unfold unescape
  split_ifs <;> simp

/-- The escapes that take as many bytes as they stand for. -/
theorem unescape_length_two {c : Byte} (h : (unescape c).length = 2) :
    (c = chr '%' ∨ c = chr '_') ∧ unescape c = [backslash, c] := by
  unfold unescape at h ⊢
  split_ifs at h ⊢ with h0 hb ht hn hr hZ hwild
  all_goals first | exact ⟨hwild, rfl⟩ | cases h

/-- The bytes of a text that are still to be read, and those of the literal that is being read. -/
def toRead (mode : Option Bytes) (text : Bytes) : Nat :=
  text.length + (mode.map fun v => v.length + 1).getD 0

theorem toRead_none (text : Bytes) : toRead none text = text.length := rfl

theorem toRead_some (v text : Bytes) : toRead (some v) text = text.length + (v.length + 1) := rfl

/-- The tokens never take more bytes than there were. -/
theorem size_tokens_le (mode : Option Bytes) (text : Bytes) :
    size (tokens mode text) ≤ toRead mode text := by
  fun_induction tokens mode text with
  | case1 => exact Nat.le_refl 0
  | case2 rest ih =>
      rw [toRead_some, List.length_nil] at ih
      rw [toRead_none, List.length_cons]
      omega
  | case3 b rest hquote ih =>
      rw [toRead_none] at ih
      rw [size_cons, Token.size, toRead_none, List.length_cons]
      omega
  | case4 v => simp [size, Token.size, toRead_some]
  | case5 v =>
      simp only [size, Token.size, toRead_some, List.map_cons, List.map_nil, List.sum_cons,
        List.sum_nil, List.length_cons, List.length_nil]
      omega
  | case6 v hback => simp [size, Token.size, toRead_some]
  | case7 v b hquote hback =>
      simp only [size, Token.size, toRead_some, List.map_cons, List.map_nil, List.sum_cons,
        List.sum_nil, List.length_cons, List.length_nil, List.length_append]
      omega
  | case8 v rest ih =>
      rw [toRead_some, List.length_append, List.length_singleton] at ih
      rw [toRead_some, List.length_cons, List.length_cons]
      omega
  | case9 v c rest hc ih =>
      rw [toRead_none, List.length_cons] at ih
      rw [size_cons, Token.size, toRead_some, List.length_cons, List.length_cons]
      omega
  | case10 v c rest hback ih =>
      have hescape := unescape_length_le c
      rw [toRead_some, List.length_append] at ih
      rw [toRead_some, List.length_cons, List.length_cons]
      omega
  | case11 v b c rest hquote hback ih =>
      rw [toRead_some, List.length_append, List.length_singleton] at ih
      rw [toRead_some, List.length_cons]
      omega

theorem isPlain_append {v w : Bytes} (hv : Plain v) (hw : Plain w) : Plain (v ++ w) := by
  unfold Plain at *
  induction v using isPlain.induct with
  | case1 => exact hw
  | case2 b =>
      simp only [isPlain, Bool.and_eq_true, decide_eq_true_eq] at hv
      cases w with
      | nil => simp [isPlain, hv]
      | cons c rest => simp [isPlain, hv, hw]
  | case3 c rest ih =>
      simp only [isPlain, if_true, Bool.and_eq_true] at hv
      simp only [List.cons_append, isPlain, if_true, Bool.and_eq_true]
      exact ⟨hv.1, ih hv.2⟩
  | case4 b c rest hback ih =>
      simp only [isPlain, if_neg hback, Bool.and_eq_true] at hv
      simp only [List.cons_append, isPlain, if_neg hback, Bool.and_eq_true]
      exact ⟨hv.1, ih hv.2⟩

theorem plain_of_notMem {v : Bytes} (hquote : quote ∉ v) (hback : backslash ∉ v) : Plain v := by
  induction v with
  | nil => rfl
  | cons b v ih =>
      have hb : Plain [b] := by
        have h1 : ¬ b = quote := fun heq => hquote (heq ▸ List.mem_cons_self)
        have h2 : ¬ b = backslash := fun heq => hback (heq ▸ List.mem_cons_self)
        simp [Plain, isPlain, h1, h2]
      exact isPlain_append hb (ih (fun h => hquote (List.mem_cons_of_mem b h))
        fun h => hback (List.mem_cons_of_mem b h))

/-- When the tokens take all bytes there were, nothing was escaped. -/
theorem plain_of_size_eq (mode : Option Bytes) (text : Bytes) (hmode : ∀ v, mode = some v → Plain v)
    (hsize : size (tokens mode text) = toRead mode text) :
    ∀ v, .literal v ∈ tokens mode text → Plain v := by
  fun_induction tokens mode text with
  | case1 => nofun
  | case2 rest ih =>
      rw [toRead_none, List.length_cons] at hsize
      refine ih (fun v hv => by cases hv; rfl) ?_
      rw [hsize, toRead_some, List.length_nil]
  | case3 b rest hquote ih =>
      rw [size_cons, Token.size, toRead_none, List.length_cons] at hsize
      intro v hv
      rcases List.mem_cons.mp hv with heq | hv
      · cases heq
      · refine ih nofun ?_ v hv
        rw [toRead_none]
        omega
  | case4 v => simp
  | case5 v =>
      intro w hw
      cases List.mem_singleton.mp hw
      exact hmode v rfl
  | case6 v hback => simp
  | case7 v b hquote hback => simp
  | case8 v rest ih =>
      have hle := size_tokens_le (some (v ++ [quote])) rest
      rw [toRead_some, List.length_append, List.length_singleton] at hle
      rw [toRead_some, List.length_cons, List.length_cons] at hsize
      omega
  | case9 v c rest hc ih =>
      rw [size_cons, Token.size, toRead_some, List.length_cons, List.length_cons] at hsize
      intro w hw
      rcases List.mem_cons.mp hw with heq | hw
      · cases heq
        exact hmode v rfl
      · refine ih nofun ?_ w hw
        rw [toRead_none, List.length_cons]
        omega
  | case10 v c rest hback ih =>
      have hle := size_tokens_le (some (v ++ unescape c)) rest
      have hescape := unescape_length_le c
      rw [toRead_some, List.length_append] at hle
      rw [toRead_some, List.length_cons, List.length_cons] at hsize
      obtain ⟨hwild, heq⟩ := unescape_length_two (c := c) (by omega)
      refine ih (fun w hw => ?_) ?_
      · cases hw
        rw [heq]
        refine isPlain_append (hmode v rfl) ?_
        rcases hwild with rfl | rfl
        · rfl
        · rfl
      · rw [hsize, toRead_some, List.length_append, heq]
        simp only [List.length_cons, List.length_nil]
        omega
  | case11 v b c rest hquote hback ih =>
      rw [toRead_some, List.length_cons] at hsize
      refine ih (fun w hw => ?_) ?_
      · cases hw
        exact isPlain_append (hmode v rfl) (by simp [Plain, isPlain, hquote, hback])
      · rw [hsize, toRead_some, List.length_append, List.length_singleton]
        omega

/-! ### Reading back -/

theorem tokens_text {bytes : Bytes} (h : quote ∉ bytes) (rest : Bytes) :
    tokens none (bytes ++ rest) = bytes.map .raw ++ tokens none rest := by
  induction bytes with
  | nil => rfl
  | cons b bytes ih =>
      have hb : ¬ b = quote := fun heq => h (heq ▸ List.mem_cons_self)
      rw [List.cons_append, tokens, if_neg hb, ih fun hmem => h (List.mem_cons_of_mem b hmem)]
      rfl

theorem unescape_wild {c : Byte} (h : c = chr '%' ∨ c = chr '_') :
    unescape c = [backslash, c] := by
  rcases h with rfl | rfl
  · rfl
  · rfl

theorem tokens_close (v : Bytes) {rest : Bytes} (hrest : rest.head? ≠ some quote) :
    tokens (some v) (quote :: rest) = .literal v :: tokens none rest := by
  cases rest with
  | nil => rfl
  | cons c rest =>
      have hc : ¬ c = quote := fun heq => hrest (congrArg some heq)
      exact (if_pos rfl).trans (if_neg hc)

/-- A plain value is read as it is, up to the closing quote. -/
theorem tokens_field {value : Bytes} (h : Plain value) (v : Bytes) {rest : Bytes}
    (hrest : rest.head? ≠ some quote) :
    tokens (some v) (value ++ quote :: rest) = .literal (v ++ value) :: tokens none rest := by
  unfold Plain at h
  induction value using isPlain.induct generalizing v with
  | case1 =>
      rw [List.append_nil]
      exact tokens_close v hrest
  | case2 b =>
      simp only [isPlain, Bool.and_eq_true, decide_eq_true_eq] at h
      rw [List.singleton_append, tokens, if_neg h.1, if_neg h.2]
      exact tokens_close (v ++ [b]) hrest
  | case3 c value ih =>
      simp only [isPlain, if_true, Bool.and_eq_true, Bool.or_eq_true, decide_eq_true_eq] at h
      rw [List.cons_append, List.cons_append, tokens, if_neg (by decide), if_pos rfl, ih h.2,
        unescape_wild h.1, List.append_assoc]
      rfl
  | case4 b c value hback ih =>
      simp only [isPlain, if_neg hback, Bool.and_eq_true, decide_eq_true_eq] at h
      rw [List.cons_append, List.cons_append, tokens, if_neg h.1, if_neg hback]
      refine (ih h.2 (v ++ [b])).trans ?_
      rw [List.append_assoc]
      rfl

theorem tokens_unclosed {value : Bytes} (h : Plain value) (v : Bytes) :
    tokens (some v) value = [.unterminated (v ++ value)] := by
  unfold Plain at h
  induction value using isPlain.induct generalizing v with
  | case1 => rw [tokens, List.append_nil]
  | case2 b =>
      simp only [isPlain, Bool.and_eq_true, decide_eq_true_eq] at h
      rw [tokens, if_neg h.1, if_neg h.2]
  | case3 c value ih =>
      simp only [isPlain, if_true, Bool.and_eq_true, Bool.or_eq_true, decide_eq_true_eq] at h
      rw [tokens, if_neg (by decide), if_pos rfl, ih h.2, unescape_wild h.1, List.append_assoc]
      rfl
  | case4 b c value hback ih =>
      simp only [isPlain, if_neg hback, Bool.and_eq_true, decide_eq_true_eq] at h
      rw [tokens, if_neg h.1, if_neg hback, ih h.2, List.append_assoc]
      rfl

/-- The values that are put between quotes. -/
def fields (pieces : List Piece) : List Bytes :=
  pieces.filterMap fun
    | .field value => some value
    | _ => none

/-- What is put behind a quote that is not closed. -/
def unclosedValues (pieces : List Piece) : List Bytes :=
  pieces.filterMap fun
    | .unclosed value => some value
    | _ => none

theorem size_meant (pieces : List Piece) : size (meant pieces) = (render pieces).length := by
  induction pieces with
  | nil => rfl
  | cons p pieces ih =>
      rw [meant, render, List.flatMap_cons, List.flatMap_cons, size_append, List.length_append]
      rw [meant, render] at ih
      rw [ih]
      congr 1
      cases p with
      | text bytes => simp [Piece.tokens, Piece.render, size, Token.size, Function.comp_def]
      | field value => simp [Piece.tokens, Piece.render, size, Token.size]
      | unclosed value => simp [Piece.tokens, Piece.render, size, Token.size]

theorem mem_literals {ts : List Token} {v : Bytes} : v ∈ literals ts ↔ .literal v ∈ ts := by
  rw [literals, List.mem_filterMap]
  constructor
  · rintro ⟨t, ht, heq⟩
    cases t with
    | literal w =>
        cases heq
        exact ht
    | raw b => cases heq
    | unterminated w => cases heq
  · intro h
    exact ⟨_, h, rfl⟩

theorem literals_append (ts us : List Token) : literals (ts ++ us) = literals ts ++ literals us :=
  List.filterMap_append

theorem literals_meant (pieces : List Piece) : literals (meant pieces) = fields pieces := by
  induction pieces with
  | nil => rfl
  | cons p pieces ih =>
      rw [meant, List.flatMap_cons, literals_append]
      rw [meant] at ih
      rw [ih]
      cases p with
      | text bytes =>
          have hnone : literals (bytes.map .raw) = [] := by
            rw [literals, List.filterMap_map]
            exact List.filterMap_eq_nil_iff.mpr fun _ _ => rfl
          rw [Piece.tokens, hnone]
          rfl
      | field value => rfl
      | unclosed value => rfl

theorem head_append_ne {bytes : Bytes} (hne : bytes ≠ []) (hquote : quote ∉ bytes) (rest : Bytes) :
    (bytes ++ rest).head? ≠ some quote := by
  obtain ⟨b, bytes, rfl⟩ := List.exists_cons_of_ne_nil hne
  intro heq
  exact hquote (Option.some.inj heq ▸ List.mem_cons_self)

/-- Pieces that are read as they are meant as soon as their fields are plain. -/
structure Readable (pieces : List Piece) : Prop where
  separated : WellSeparated pieces
  unclosed : ∀ v ∈ unclosedValues pieces, Plain v

theorem tokenize_of_plain {pieces : List Piece} (h : Readable pieces)
    (hfields : ∀ v ∈ fields pieces, Plain v) : tokenize (render pieces) = meant pieces := by
  obtain ⟨h, hunclosed⟩ := h
  induction pieces using WellSeparated.induct with
  | case1 => rfl
  | case2 bytes rest ih =>
      obtain ⟨hquote, hrest⟩ := h
      calc
        tokens none (bytes ++ render rest) = bytes.map .raw ++ tokenize (render rest) :=
          tokens_text hquote _
        _ = bytes.map .raw ++ meant rest := by rw [ih hfields hrest hunclosed]
  | case3 value =>
      have hvalue : Plain value := hfields value List.mem_cons_self
      calc
        tokens none (quote :: value ++ [quote] ++ []) =
            tokens (some []) (value ++ quote :: []) := by
          rw [List.append_nil]
          rfl
        _ = [.literal value] := tokens_field hvalue [] (by simp)
  | case4 value bytes rest ih =>
      obtain ⟨hne, hquote, hrest⟩ := h
      have hvalue : Plain value := hfields value List.mem_cons_self
      have hfields' : ∀ v ∈ fields rest, Plain v := fun v hv =>
        hfields v (List.mem_cons_of_mem value hv)
      calc
        tokens none (quote :: value ++ [quote] ++ (bytes ++ render rest)) =
            tokens (some []) (value ++ quote :: (bytes ++ render rest)) := by
          rw [List.append_assoc]
          rfl
        _ = .literal value :: tokens none (bytes ++ render rest) :=
          tokens_field hvalue [] (head_append_ne hne hquote _)
        _ = .literal value :: (bytes.map .raw ++ tokenize (render rest)) := by
          rw [tokens_text hquote]
          rfl
        _ = .literal value :: (bytes.map .raw ++ meant rest) := by
          rw [ih hfields' hrest hunclosed]
  | case5 value =>
      have hvalue : Plain value := hunclosed value List.mem_cons_self
      calc
        tokens none (quote :: value ++ []) = tokens (some []) value := by
          rw [List.append_nil]
          rfl
        _ = [.unterminated value] := tokens_unclosed hvalue []
  | case6 pieces h1 h2 h3 h4 h5 =>
      rw [WellSeparated.eq_6 pieces h1 h2 h3 h4 h5] at h
      exact h.elim

/-- A statement is read as it was meant if and only if its values are plain. -/
theorem tokenize_render_iff {pieces : List Piece} (h : Readable pieces) :
    tokenize (render pieces) = meant pieces ↔ ∀ v ∈ fields pieces, Plain v := by
  constructor
  · intro heq v hv
    refine plain_of_size_eq none (render pieces) nofun ?_ v ?_
    · rw [← tokenize, heq, size_meant, toRead_none]
    · rw [← tokenize, heq, ← mem_literals, literals_meant]
      exact hv
  · exact tokenize_of_plain h

/-- What is left of a token sequence when the values of its literals are taken out, and these. -/
theorem eq_of_shape {ts us : List Token} (hshape : shape ts = shape us)
    (hliterals : literals ts = literals us) : ts = us := by
  induction ts generalizing us with
  | nil => exact (List.map_eq_nil_iff.mp hshape.symm).symm
  | cons t ts ih =>
      cases us with
      | nil => cases hshape
      | cons u us =>
          obtain ⟨hhead, htail⟩ := List.cons.inj hshape
          cases t with
          | literal v =>
              cases u with
              | literal w =>
                  obtain ⟨rfl, hrest⟩ := List.cons.inj hliterals
                  rw [ih htail hrest]
              | raw b => cases hhead
              | unterminated w => cases hhead
          | raw b =>
              cases u with
              | raw c =>
                  cases hhead
                  rw [ih htail hliterals]
              | literal w => cases hhead
              | unterminated w => cases hhead
          | unterminated v =>
              cases u with
              | unterminated w =>
                  cases hhead
                  rw [ih htail hliterals]
              | literal w => cases hhead
              | raw b => cases hhead

/-- The literals of a text are these values, and without them it is the same as another text. -/
def Carries (text : Bytes) (values : List Bytes) (other : Bytes) : Prop :=
  literals (tokenize text) = values ∧ shape (tokenize text) = shape (tokenize other)

/-- A statement carries its values, compared with the same statement of plain values, if and only if
they are plain. -/
theorem carries_iff {pieces others : List Piece} (h : Readable pieces) (hothers : Readable others)
    (hfields : ∀ v ∈ fields others, Plain v)
    (hshape : shape (meant pieces) = shape (meant others)) :
    Carries (render pieces) (fields pieces) (render others) ↔ ∀ v ∈ fields pieces, Plain v := by
  have hmeant := tokenize_of_plain hothers hfields
  rw [← tokenize_render_iff h, Carries, hmeant, ← hshape, ← literals_meant]
  constructor
  · rintro ⟨hliterals, heq⟩
    exact eq_of_shape heq hliterals
  · intro heq
    rw [heq]
    exact ⟨rfl, rfl⟩

end SqlLiterals
