import SvrDemo.Base.BigNumber

/-!
# String literals and selects

The part of the language of MySQL that says what a quoted string stands for. In a literal between single
quotes, two quotes stand for one, and a backslash takes the next character with it: `\%` and `\_` stand for
themselves, and every other pair for one character. Literals that follow one another are one literal. Between
tokens there may be blanks and comments.

`parse` reads a select from one table with a `where` clause that compares columns with string literals, and
nothing else. `Faithful` strings are those that a pair of quotes makes a literal of (`literal_faithful`), and
what a literal was read from has at least as many characters as its value, with equality only for a faithful
string (`literal_spec`).
-/

set_option autoImplicit false
set_option relaxedAutoImplicit false

namespace SvrDemo.Database.MySql

open Base

/-- The bytes of a string of ASCII characters. -/
def ascii (text : String) : Bytes := text.toList.map fun character ↦ character.toNat.toUInt8

/-- The single quote. -/
def quote : UInt8 := 0x27

/-- The backslash. -/
def backslash : UInt8 := 0x5c

/-! ### Literals -/

/-- The character that the pair of a backslash and a character stands for. -/
def escaped (character : UInt8) : UInt8 :=
  if character = 0x30 then 0x00
  else if character = 0x62 then 0x08
  else if character = 0x6e then 0x0a
  else if character = 0x72 then 0x0d
  else if character = 0x74 then 0x09
  else if character = 0x5a then 0x1a
  else character

/-- What the pair of a backslash and a character stands for: a percent sign and an underscore keep the
backslash. -/
def unescape (character : UInt8) : Bytes :=
  if character = 0x25 ∨ character = 0x5f then [backslash, character] else [escaped character]

/-- The value of a literal and what follows its closing quote, from the text behind its opening quote. -/
def literal : Bytes → Option (Bytes × Bytes)
  | [] => none
  | [character] => if character = quote then some ([], []) else none
  | character :: next :: rest =>
    if character = quote then
      if next = quote then (literal rest).map fun (value, rest) ↦ (quote :: value, rest)
      else some ([], next :: rest)
    else if character = backslash then
      (literal rest).map fun (value, rest) ↦ (unescape next ++ value, rest)
    else (literal (next :: rest)).map fun (value, rest) ↦ (character :: value, rest)

/-- A string without quotes in which every backslash is followed by a percent sign or an underscore. -/
def Faithful : Bytes → Bool
  | [] => true
  | character :: rest =>
    character != quote &&
      (character != backslash || rest.head? == some 0x25 || rest.head? == some 0x5f) && Faithful rest

/-! ### Tokens -/

/-- A word in lower case, a character that stands for itself, or a string literal. -/
inductive Token
  | word (name : Bytes)
  | symbol (character : UInt8)
  | string (value : Bytes)
  deriving DecidableEq

/-- A blank. -/
def isBlank (character : UInt8) : Bool := character = 0x20 || (0x09 ≤ character && character ≤ 0x0d)

/-- A character of a keyword or of an unquoted name. -/
def isNameCharacter (character : UInt8) : Bool :=
  (0x61 ≤ character && character ≤ 0x7a) || (0x41 ≤ character && character ≤ 0x5a) ||
    (0x30 ≤ character && character ≤ 0x39) || character = 0x24 || character = 0x5f || 0x80 ≤ character

/-- A character in lower case. -/
def toLower (character : UInt8) : UInt8 :=
  if 0x41 ≤ character && character ≤ 0x5a then character + 0x20 else character

/-- What follows a comment between `/*` and `*/`. -/
def blockEnd : Bytes → Option Bytes
  | [] => none
  | [_] => none
  | character :: next :: rest =>
    if character = 0x2a ∧ next = 0x2f then some rest else blockEnd (next :: rest)

/-- What follows the comment that a text begins with, if it begins with one: `#` and `-- ` up to the end of
the line, and `/*` unless it hides a part of the statement from other servers. -/
def comment : Bytes → Option Bytes
  | [] => none
  | character :: rest =>
    if character = 0x23 then some (rest.dropWhile (· ≠ 0x0a))
    else if character = 0x2d ∧ rest.head? = some 0x2d ∧ rest.tail.head?.all (· ≤ 0x20) then
      some (rest.dropWhile (· ≠ 0x0a))
    else if character = 0x2f ∧ rest.head? = some 0x2a ∧ rest.tail.head? ≠ some 0x21 then blockEnd rest.tail
    else none

/-- The tokens of a text, with a bound on the number of steps. -/
def tokensFrom : ℕ → Bytes → Option (List Token)
  | 0, _ => none
  | _ + 1, [] => some []
  | fuel + 1, character :: rest =>
    if isBlank character then tokensFrom fuel rest
    else if character = quote then
      (literal rest).bind fun (value, rest) ↦ (tokensFrom fuel rest).map (.string value :: ·)
    else if isNameCharacter character then
      (tokensFrom fuel (rest.dropWhile isNameCharacter)).map
        (.word ((character :: rest.takeWhile isNameCharacter).map toLower) :: ·)
    else match comment (character :: rest) with
      | some rest => tokensFrom fuel rest
      | none => (tokensFrom fuel rest).map (.symbol character :: ·)

/-- The tokens of a text. A step takes at least one character. -/
def tokens (text : Bytes) : Option (List Token) := tokensFrom (text.length + 1) text

/-- Tokens in front of the tokens of a text. -/
def behind (first : List Token) (rest : Option (List Token)) : Option (List Token) :=
  first.foldr (fun token rest ↦ rest.map (token :: ·)) rest

/-! ### Selects -/

/-- A select from one table, with the columns that the rows are to have a given value in. -/
structure Select where
  columns : List Bytes
  table : Bytes
  conditions : List (Bytes × Bytes)
  deriving DecidableEq

/-- The rows that a select returns, where the collation of the columns says when a stored value is the same as the
value of a literal. -/
def Select.Returns (self : Select) (same : Bytes → Bytes → Prop) (row : Bytes → Bytes) : Prop :=
  ∀ condition ∈ self.conditions, same (row condition.1) condition.2

/-- A binary collation: only equal strings are the same. -/
def Binary (same : Bytes → Bytes → Prop) : Prop := ∀ stored value, same stored value → stored = value

/-- The conditions, from what follows a string literal: more of the literal, or another condition. -/
def conditionsFrom (column value : Bytes) : List Token → Option (List (Bytes × Bytes))
  | [] => some [(column, value)]
  | .string more :: rest => conditionsFrom column (value ++ more) rest
  | .word conjunction :: .word next :: .symbol equal :: .string first :: rest =>
    if conjunction = ascii "and" ∧ equal = 0x3d then
      (conditionsFrom next first rest).map ((column, value) :: ·)
    else none
  | _ => none

/-- A select, from what follows the word `select` and some columns. -/
def selectFrom (columns : List Bytes) : List Token → Option Select
  | .word column :: .symbol comma :: rest =>
    if comma = 0x2c then selectFrom (columns ++ [column]) rest else none
  | .word column :: .word origin :: .word table :: .word condition :: .word first :: .symbol equal ::
      .string value :: rest =>
    if origin = ascii "from" ∧ condition = ascii "where" ∧ equal = 0x3d then
      (conditionsFrom first value rest).map (⟨columns ++ [column], table, ·⟩)
    else none
  | _ => none

/-- A select that compares columns with string literals, if the text is one. -/
def parse (text : Bytes) : Option Select :=
  match tokens text with
  | some (.word first :: rest) => if first = ascii "select" then selectFrom [] rest else none
  | _ => none

theorem behind_eq (first : List Token) (rest : Option (List Token)) :
    behind first rest = rest.map (first ++ ·) := by
  induction first with
  | nil => cases rest <;> rfl
  | cons token first ih =>
    rw [behind, List.foldr_cons, ← behind, ih, Option.map_map]
    rfl

/-! ### What a literal is read from -/

/-- A literal is read from a text up to a quote that has at least as many characters as the value, and as many
only when it is faithful and is the value. -/
theorem literal_spec {text value rest : Bytes} (hliteral : literal text = some (value, rest)) :
    ∃ raw, text = raw ++ quote :: rest ∧ value.length ≤ raw.length ∧
      (value.length = raw.length → value = raw ∧ Faithful raw = true) := by
  induction text using literal.induct generalizing value rest with
  | case1 => exact nomatch hliteral
  | case2 =>
    obtain ⟨rfl, rfl⟩ := Prod.mk.inj (Option.some.inj hliteral)
    exact ⟨[], rfl, le_rfl, fun _ ↦ ⟨rfl, rfl⟩⟩
  | case3 character hquote =>
    rw [literal, if_neg hquote] at hliteral
    exact nomatch hliteral
  | case4 tail ih =>
    -- two quotes
    rw [literal, if_pos rfl, if_pos rfl] at hliteral
    obtain ⟨⟨value', rest'⟩, htail, hvalue⟩ := Option.map_eq_some_iff.mp hliteral
    obtain ⟨rfl, rfl⟩ := Prod.mk.inj hvalue
    obtain ⟨raw, rfl, hle, -⟩ := ih htail
    refine ⟨quote :: quote :: raw, rfl, ?_, fun hlength ↦ ?_⟩
    · exact Nat.succ_le_succ (hle.trans (Nat.le_succ _))
    · exact absurd (Nat.succ.inj hlength) (Nat.lt_succ_of_le hle).ne
  | case5 next tail hnext =>
    rw [literal, if_pos rfl, if_neg hnext] at hliteral
    obtain ⟨rfl, rfl⟩ := Prod.mk.inj (Option.some.inj hliteral)
    exact ⟨[], rfl, le_rfl, fun _ ↦ ⟨rfl, rfl⟩⟩
  | case6 next tail hquote ih =>
    -- a backslash with the next character
    rw [literal, if_neg hquote, if_pos rfl] at hliteral
    obtain ⟨⟨value', rest'⟩, htail, hvalue⟩ := Option.map_eq_some_iff.mp hliteral
    obtain ⟨rfl, rfl⟩ := Prod.mk.inj hvalue
    obtain ⟨raw, rfl, hle, hsame⟩ := ih htail
    refine ⟨backslash :: next :: raw, rfl, ?_⟩
    by_cases hkept : next = 0x25 ∨ next = 0x5f
    · rw [unescape, if_pos hkept]
      refine ⟨Nat.add_le_add_right hle 2, fun hlength ↦ ?_⟩
      obtain ⟨rfl, hraw⟩ := hsame (Nat.succ.inj (Nat.succ.inj hlength))
      refine ⟨rfl, ?_⟩
      rcases hkept with rfl | rfl
      · exact (Bool.and_eq_true _ _).mpr ⟨rfl, (Bool.and_eq_true _ _).mpr ⟨rfl, hraw⟩⟩
      · exact (Bool.and_eq_true _ _).mpr ⟨rfl, (Bool.and_eq_true _ _).mpr ⟨rfl, hraw⟩⟩
    · rw [unescape, if_neg hkept]
      refine ⟨Nat.succ_le_succ (hle.trans (Nat.le_succ _)), fun hlength ↦ ?_⟩
      exact absurd (Nat.succ.inj hlength) (Nat.lt_succ_of_le hle).ne
  | case7 character next tail hquote hbackslash ih =>
    rw [literal, if_neg hquote, if_neg hbackslash] at hliteral
    obtain ⟨⟨value', rest'⟩, htail, hvalue⟩ := Option.map_eq_some_iff.mp hliteral
    obtain ⟨rfl, rfl⟩ := Prod.mk.inj hvalue
    obtain ⟨raw, hraw, hle, hsame⟩ := ih htail
    refine ⟨character :: raw, congrArg (character :: ·) hraw, Nat.succ_le_succ hle, fun hlength ↦ ?_⟩
    obtain ⟨rfl, hfaithful⟩ := hsame (Nat.succ.inj hlength)
    refine ⟨rfl, ?_⟩
    rw [Faithful, hfaithful, bne_iff_ne.mpr hquote, bne_iff_ne.mpr hbackslash]
    rfl

/-- A character that is neither a quote nor a backslash stands for itself. -/
theorem literal_cons {character next : UInt8} {rest : Bytes} (hquote : character ≠ quote)
    (hbackslash : character ≠ backslash) :
    literal (character :: next :: rest) =
      (literal (next :: rest)).map fun (value, rest) ↦ (character :: value, rest) := by
  rw [literal, if_neg hquote, if_neg hbackslash]

/-- A pair of quotes makes a literal of a faithful string. -/
theorem literal_faithful {rest : Bytes} (hrest : rest.head? ≠ some quote) :
    ∀ {value : Bytes}, Faithful value = true → literal (value ++ quote :: rest) = some (value, rest)
  | [], _ => by
    cases rest with
    | nil => rfl
    | cons next tail =>
      rw [List.nil_append, literal, if_pos rfl, if_neg fun hnext ↦ hrest (congrArg some hnext)]
  | [character], hvalue => by
    simp only [Faithful, List.head?_nil, Bool.and_true, Bool.and_eq_true, bne_iff_ne, Bool.or_eq_true,
      beq_iff_eq, reduceCtorEq, or_false] at hvalue
    have hnil : literal ([] ++ quote :: rest) = some ([], rest) := literal_faithful hrest rfl
    rw [List.cons_append, List.nil_append, literal_cons hvalue.1 hvalue.2]
    rw [List.nil_append] at hnil
    rw [hnil, Option.map_some]
  | character :: next :: value, hvalue => by
    rw [Faithful, Bool.and_eq_true, Bool.and_eq_true, bne_iff_ne] at hvalue
    obtain ⟨⟨hquote, hbackslash⟩, htail⟩ := hvalue
    by_cases hescape : character = backslash
    · subst hescape
      have hkept : next = 0x25 ∨ next = 0x5f := by
        simpa using hbackslash
      rw [Faithful, Bool.and_eq_true] at htail
      have hvalue := literal_faithful hrest htail.2
      rw [List.cons_append, List.cons_append, literal, if_neg hquote, if_pos rfl, hvalue, Option.map_some,
        unescape, if_pos hkept]
      rfl
    · have hvalue := literal_faithful hrest htail
      rw [List.cons_append, List.cons_append, literal_cons hquote hescape, ← List.cons_append, hvalue,
        Option.map_some]

/-! ### What tokens are read from -/

theorem blockEnd_suffix {text rest : Bytes} (hrest : blockEnd text = some rest) : rest <:+ text := by
  induction text using blockEnd.induct with
  | case1 => exact nomatch hrest
  | case2 => exact nomatch hrest
  | case3 character next tail hend =>
    rw [blockEnd, if_pos hend] at hrest
    obtain rfl := Option.some.inj hrest
    exact (List.suffix_cons next tail).trans (List.suffix_cons character _)
  | case4 character next tail hend ih =>
    rw [blockEnd, if_neg hend] at hrest
    exact (ih hrest).trans (List.suffix_cons character _)

theorem comment_suffix {text rest : Bytes} (hrest : comment text = some rest) : rest <:+ text := by
  cases text with
  | nil => exact nomatch hrest
  | cons character tail =>
    rw [comment] at hrest
    split_ifs at hrest
    · obtain rfl := Option.some.inj hrest
      exact (List.dropWhile_suffix _).trans (List.suffix_cons character tail)
    · obtain rfl := Option.some.inj hrest
      exact (List.dropWhile_suffix _).trans (List.suffix_cons character tail)
    · exact (blockEnd_suffix hrest).trans ((List.tail_suffix tail).trans (List.suffix_cons character tail))

/-- The characters that a token is made of, with the quotes of a string. -/
def Token.weight : Token → ℕ
  | .word name => name.length
  | .symbol _ => 1
  | .string value => value.length + 2

/-- The first token of a text is read from characters behind something that is skipped, and the other tokens
from what follows. A string is read from a quote up to a quote. -/
theorem tokensFrom_cons {fuel : ℕ} {text : Bytes} {token : Token} {rest : List Token}
    (htokens : tokensFrom fuel text = some (token :: rest)) :
    ∃ fuel' skipped raw text', text = skipped ++ raw ++ text' ∧ token.weight ≤ raw.length ∧
      tokensFrom fuel' text' = some rest ∧
      ∀ value, token = .string value → ∃ inner, raw = quote :: inner ++ [quote] := by
  induction fuel generalizing text with
  | zero => exact nomatch htokens
  | succ fuel ih =>
    cases text with
    | nil => exact nomatch htokens
    | cons character tail =>
      -- what is skipped before the first token
      have hskip : ∀ skipped text', character :: tail = skipped ++ text' →
          tokensFrom fuel text' = some (token :: rest) →
          ∃ fuel' skipped raw text', character :: tail = skipped ++ raw ++ text' ∧
            token.weight ≤ raw.length ∧ tokensFrom fuel' text' = some rest ∧
            ∀ value, token = .string value → ∃ inner, raw = quote :: inner ++ [quote] := by
        intro skipped text' htext htail
        obtain ⟨fuel', skipped', raw, text'', rfl, hraw⟩ := ih htail
        exact ⟨fuel', skipped ++ skipped', raw, text'', by rw [htext]; simp only [List.append_assoc], hraw⟩
      rw [tokensFrom] at htokens
      split_ifs at htokens with hblank hquote hname
      · exact hskip [character] tail rfl htokens
      · obtain ⟨⟨value, text'⟩, hliteral, hrest⟩ := Option.bind_eq_some_iff.mp htokens
        obtain ⟨tokens', htokens', hcons⟩ := Option.map_eq_some_iff.mp hrest
        obtain ⟨rfl, rfl⟩ := List.cons.inj hcons
        obtain ⟨raw, rfl, hle, -⟩ := literal_spec hliteral
        refine ⟨fuel, [], quote :: raw ++ [quote], text', ?_, ?_, htokens', fun _ _ ↦ ⟨raw, rfl⟩⟩
        · rw [hquote]
          simp only [List.nil_append, List.cons_append, List.append_assoc]
        · simp only [Token.weight, List.cons_append, List.length_cons, List.length_append, List.length_nil]
          omega
      · obtain ⟨tokens', htokens', hcons⟩ := Option.map_eq_some_iff.mp htokens
        obtain ⟨rfl, rfl⟩ := List.cons.inj hcons
        refine ⟨fuel, [], character :: tail.takeWhile isNameCharacter, tail.dropWhile isNameCharacter, ?_, ?_,
          htokens', fun value hvalue ↦ nomatch hvalue⟩
        · simp only [List.nil_append, List.cons_append, List.takeWhile_append_dropWhile]
        · rw [Token.weight, List.length_map]
      · split at htokens
        · next text' hcomment =>
          obtain ⟨skipped, hskipped⟩ := comment_suffix hcomment
          exact hskip skipped text' hskipped.symm htokens
        · obtain ⟨tokens', htokens', hcons⟩ := Option.map_eq_some_iff.mp htokens
          obtain ⟨rfl, rfl⟩ := List.cons.inj hcons
          exact ⟨fuel, [], [character], tail, rfl, le_rfl, htokens', fun value hvalue ↦ nomatch hvalue⟩

/-- The tokens of a text are not made of more characters than it has. -/
theorem weight_le {fuel : ℕ} {text : Bytes} {rest : List Token} (htokens : tokensFrom fuel text = some rest) :
    (rest.map Token.weight).sum ≤ text.length := by
  induction rest generalizing fuel text with
  | nil => exact Nat.zero_le _
  | cons token rest ih =>
    obtain ⟨fuel', skipped, raw, text', rfl, hweight, htokens', -⟩ := tokensFrom_cons htokens
    have hrest := ih htokens'
    simp only [List.map_cons, List.sum_cons, List.length_append]
    omega

/-! ### What conditions are read from -/

/-- The characters of the tokens of a condition, with the word before it. -/
def conditionWeight (condition : Bytes × Bytes) : ℕ := condition.1.length + condition.2.length + 6

/-- The conditions behind a string literal begin with the one that the literal belongs to. -/
theorem conditionsFrom_head {column value : Bytes} {tokens : List Token} {conditions : List (Bytes × Bytes)}
    (hconditions : conditionsFrom column value tokens = some conditions) :
    ∃ value' more, conditions = (column, value') :: more := by
  induction column, value, tokens using conditionsFrom.induct generalizing conditions with
  | case1 column value => exact ⟨value, [], (Option.some.inj hconditions).symm⟩
  | case2 column value more rest ih => exact ih hconditions
  | case3 column value conjunction next equal first rest hand ih =>
    rw [conditionsFrom, if_pos hand] at hconditions
    obtain ⟨conditions', -, rfl⟩ := Option.map_eq_some_iff.mp hconditions
    exact ⟨value, conditions', rfl⟩
  | case4 column value conjunction next equal first rest hand =>
    rw [conditionsFrom, if_neg hand] at hconditions
    exact nomatch hconditions
  | case5 tokens column value hnil hstring hand =>
    rw [conditionsFrom.eq_4 column value tokens hnil hstring hand] at hconditions
    exact nomatch hconditions

/-- The tokens behind a string literal make up the rest of its value and the further conditions. -/
theorem conditionsFrom_weight {column value column' value' : Bytes} {tokens : List Token}
    {conditions : List (Bytes × Bytes)}
    (hconditions : conditionsFrom column value tokens = some ((column', value') :: conditions)) :
    value'.length + (conditions.map conditionWeight).sum ≤ value.length + (tokens.map Token.weight).sum := by
  induction column, value, tokens using conditionsFrom.induct generalizing column' value' conditions with
  | case1 column value =>
    obtain ⟨hsame, rfl⟩ := List.cons.inj (Option.some.inj hconditions)
    obtain ⟨rfl, rfl⟩ := Prod.mk.inj hsame
    exact le_rfl
  | case2 column value more rest ih =>
    have hrest := ih hconditions
    simp only [List.map_cons, List.sum_cons, Token.weight, List.length_append] at hrest ⊢
    omega
  | case3 column value conjunction next equal first rest hand ih =>
    rw [conditionsFrom, if_pos hand] at hconditions
    obtain ⟨conditions', hnext, hcons⟩ := Option.map_eq_some_iff.mp hconditions
    obtain ⟨hsame, rfl⟩ := List.cons.inj hcons
    obtain ⟨rfl, rfl⟩ := Prod.mk.inj hsame
    obtain ⟨value', more, rfl⟩ := conditionsFrom_head hnext
    have hrest := ih hnext
    have hword : conjunction.length = 3 := by
      rw [hand.1]
      rfl
    simp only [List.map_cons, List.sum_cons, Token.weight, conditionWeight, hword] at hrest ⊢
    omega
  | case4 column value conjunction next equal first rest hand =>
    rw [conditionsFrom, if_neg hand] at hconditions
    exact nomatch hconditions
  | case5 tokens column value hnil hstring hand =>
    rw [conditionsFrom.eq_4 column value tokens hnil hstring hand] at hconditions
    exact nomatch hconditions

/-- Without a string that follows, a string literal has its value. -/
theorem conditionsFrom_value {column value column' value' : Bytes} {tokens : List Token}
    {conditions : List (Bytes × Bytes)}
    (hconditions : conditionsFrom column value tokens = some ((column', value') :: conditions))
    (hstring : ∀ more rest, tokens ≠ .string more :: rest) : value = value' := by
  rw [conditionsFrom.eq_def] at hconditions
  split at hconditions
  · obtain ⟨hsame, -⟩ := List.cons.inj (Option.some.inj hconditions)
    exact (Prod.mk.inj hsame).2
  · next more rest => exact absurd rfl (hstring more rest)
  · split_ifs at hconditions
    obtain ⟨conditions', -, hcons⟩ := Option.map_eq_some_iff.mp hconditions
    exact (Prod.mk.inj (List.cons.inj hcons).1).2
  · exact nomatch hconditions

/-- The literals that follow a string literal end with a quote of the text, if there are any. -/
theorem conditionsFrom_closes {column value column' value' text : Bytes} {fuel : ℕ} {tokens : List Token}
    {conditions : List (Bytes × Bytes)} (htokens : tokensFrom fuel text = some tokens)
    (hconditions : conditionsFrom column value tokens = some ((column', value') :: conditions)) :
    (value = value' ∧ (conditions.map conditionWeight).sum ≤ text.length) ∨
      ∃ before after, text = before ++ quote :: after ∧
        (conditions.map conditionWeight).sum ≤ after.length ∧
        value'.length ≤ value.length + before.length := by
  induction tokens generalizing fuel text value with
  | nil =>
    obtain ⟨hsame, rfl⟩ := List.cons.inj (Option.some.inj hconditions)
    exact .inl ⟨(Prod.mk.inj hsame).2, Nat.zero_le _⟩
  | cons token tokens ih =>
    by_cases hstring : ∃ more, token = .string more
    · obtain ⟨more, rfl⟩ := hstring
      obtain ⟨fuel', skipped, raw, text', rfl, hweight, htokens', hraw⟩ := tokensFrom_cons htokens
      obtain ⟨inner, rfl⟩ := hraw more rfl
      have hmore : more.length ≤ inner.length := by
        simp only [Token.weight, List.cons_append, List.length_cons, List.length_append, List.length_nil]
          at hweight
        omega
      rcases ih htokens' hconditions with ⟨rfl, hlength⟩ | ⟨before, after, rfl, hlength, hle⟩
      · refine .inr ⟨skipped ++ quote :: inner, text', ?_, hlength, ?_⟩
        · simp only [List.append_assoc, List.cons_append, List.nil_append]
        · simp only [List.length_append, List.length_cons]
          omega
      · refine .inr ⟨skipped ++ (quote :: inner ++ [quote]) ++ before, after, ?_, hlength, ?_⟩
        · simp only [List.append_assoc, List.cons_append, List.nil_append]
        · simp only [List.length_append, List.length_cons, List.length_nil] at hle ⊢
          omega
    · have hvalue := conditionsFrom_value hconditions fun more rest hcons ↦
        hstring ⟨more, (List.cons.inj hcons).1⟩
      have hweight := conditionsFrom_weight hconditions
      have hle := weight_le htokens
      rw [hvalue] at hweight
      exact .inl ⟨hvalue, by omega⟩

/-- The first condition ends with a quote of the text, and what follows has the characters of the further
conditions. Either its value has fewer characters than there are before that quote, or it is what stands
between the quotes, and it is faithful. -/
theorem literal_closes {text value rest column column' value' : Bytes} {fuel : ℕ} {tokens : List Token}
    {conditions : List (Bytes × Bytes)} (hliteral : literal text = some (value, rest))
    (htokens : tokensFrom fuel rest = some tokens)
    (hconditions : conditionsFrom column value tokens = some ((column', value') :: conditions)) :
    ∃ before after, text = before ++ quote :: after ∧ (conditions.map conditionWeight).sum ≤ after.length ∧
      (value'.length < before.length ∨
        before = value' ∧ Faithful value' = true ∧ after = rest ∧ value = value') := by
  obtain ⟨raw, rfl, hle, hsame⟩ := literal_spec hliteral
  rcases conditionsFrom_closes htokens hconditions with ⟨rfl, hlength⟩ | ⟨before, after, rfl, hlength, hmore⟩
  · refine ⟨raw, rest, rfl, hlength, ?_⟩
    rcases hle.lt_or_eq with hlt | heq
    · exact .inl hlt
    · obtain ⟨rfl, hfaithful⟩ := hsame heq
      exact .inr ⟨rfl, hfaithful, rfl, rfl⟩
  · refine ⟨raw ++ quote :: before, after, ?_, hlength, .inl ?_⟩
    · simp only [List.append_assoc, List.cons_append]
    · simp only [List.length_append, List.length_cons]
      omega

end SvrDemo.Database.MySql
