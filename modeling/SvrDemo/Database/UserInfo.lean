import SvrDemo.Database.MySql

/-!
# The user of a login

`CMD.get_user_info` of `db_service.lua` puts the name and the password of a login between quotes, as the
client has sent them. The statement compares the two columns with exactly these strings when both are
faithful, and only then (`credentials_are_data_iff`): a quote ends the literal or is lost, and so is a
backslash that does not stand before a percent sign or an underscore.
-/

set_option autoImplicit false
set_option relaxedAutoImplicit false

namespace SvrDemo.Database

open Base MySql

/-- The text before the name. -/
def beforeName : Bytes := ascii "select uid, money, icon, nick_name from user_info where user_name = "

/-- The text between the literals of the name and the password. -/
def betweenLiterals : Bytes := ascii " and passwd = "

/-- The statement of `CMD.get_user_info`. -/
def getUserInfo (userName passwd : Bytes) : Bytes :=
  beforeName ++ quote :: (userName ++ quote :: (betweenLiterals ++ quote :: (passwd ++ quote :: ascii " ")))

/-- The name and the password of a login are data in the statement: it is one select that compares the two
columns with string literals of exactly these values, and it returns no rows but those that have the same name and
password for the collation. For a binary collation these are the rows with that very name and password. -/
def CredentialsAreData (same : Bytes → Bytes → Prop) (userName passwd : Bytes) : Prop :=
  ∃ select, parse (getUserInfo userName passwd) = some select ∧
    select.conditions = [(ascii "user_name", userName), (ascii "passwd", passwd)] ∧
    (∀ row, select.Returns same row → same (row (ascii "user_name")) userName ∧ same (row (ascii "passwd")) passwd) ∧
    (Binary same → ∀ row, select.Returns same row →
      row (ascii "user_name") = userName ∧ row (ascii "passwd") = passwd)

/-- The tokens before the literal of the name. -/
def tokensBeforeName : List Token :=
  [.word (ascii "select"), .word (ascii "uid"), .symbol 0x2c, .word (ascii "money"), .symbol 0x2c,
    .word (ascii "icon"), .symbol 0x2c, .word (ascii "nick_name"), .word (ascii "from"),
    .word (ascii "user_info"), .word (ascii "where"), .word (ascii "user_name"), .symbol 0x3d]

/-- The tokens between the literals. -/
def tokensBetween : List Token := [.word (ascii "and"), .word (ascii "passwd"), .symbol 0x3d]

theorem tokensFrom_beforeName (fuel : ℕ) (text : Bytes) :
    tokensFrom (fuel + 24) (beforeName ++ quote :: text) =
      behind tokensBeforeName ((literal text).bind fun (value, rest) ↦
        (tokensFrom fuel rest).map (.string value :: ·)) := by
  rfl

theorem tokensFrom_between (fuel : ℕ) (text : Bytes) :
    tokensFrom (fuel + 8) (betweenLiterals ++ quote :: text) =
      behind tokensBetween ((literal text).bind fun (value, rest) ↦
        (tokensFrom fuel rest).map (.string value :: ·)) := by
  rfl

/-- The select with given conditions. -/
def userInfoSelect (conditions : List (Bytes × Bytes)) : Select :=
  ⟨[ascii "uid", ascii "money", ascii "icon", ascii "nick_name"], ascii "user_info", conditions⟩

/-- The statement is read as a select with the conditions that begin behind the first quote. -/
theorem parse_getUserInfo (userName passwd : Bytes) :
    ∃ fuel, parse (getUserInfo userName passwd) =
      (literal (userName ++ quote :: (betweenLiterals ++ quote :: (passwd ++ quote :: ascii " ")))).bind
        fun (value, rest) ↦ (tokensFrom (fuel + 2 + 8) rest).bind fun tokens ↦
          (conditionsFrom (ascii "user_name") value tokens).map userInfoSelect := by
  obtain ⟨fuel, hfuel⟩ : ∃ fuel, (getUserInfo userName passwd).length + 1 = fuel + 2 + 8 + 24 := by
    have hlength : beforeName.length = 68 := rfl
    refine ⟨(getUserInfo userName passwd).length + 1 - 34, ?_⟩
    have hle : 68 ≤ (getUserInfo userName passwd).length := by
      rw [getUserInfo, List.length_append, hlength]
      exact Nat.le_add_right 68 _
    omega
  refine ⟨fuel, ?_⟩
  rw [parse, tokens, hfuel, getUserInfo, tokensFrom_beforeName, behind_eq]
  cases literal (userName ++ quote :: (betweenLiterals ++ quote :: (passwd ++ quote :: ascii " "))) with
  | none => rfl
  | some closed =>
    obtain ⟨value, rest⟩ := closed
    simp only [Option.bind_some]
    cases tokensFrom (fuel + 2 + 8) rest with
    | none => rfl
    | some tokens => rfl

/-- Faithful strings are the values of the two literals. -/
theorem parse_of_faithful {userName passwd : Bytes} (hname : Faithful userName = true)
    (hpasswd : Faithful passwd = true) :
    parse (getUserInfo userName passwd) =
      some (userInfoSelect [(ascii "user_name", userName), (ascii "passwd", passwd)]) := by
  obtain ⟨fuel, hparse⟩ := parse_getUserInfo userName passwd
  have hbetween : (betweenLiterals ++ quote :: (passwd ++ quote :: ascii " ")).head? ≠ some quote := by
    show some 0x20 ≠ some quote
    decide
  rw [hparse, literal_faithful hbetween hname, Option.bind_some]
  dsimp only
  rw [tokensFrom_between, literal_faithful (by decide) hpasswd, Option.bind_some]
  rfl

/-- A quote behind the first of a text stands in what follows that one. -/
theorem quote_behind {first rest before after : Bytes}
    (hsame : first ++ quote :: rest = before ++ quote :: after) (hlength : first.length < before.length) :
    ∃ inner, rest = inner ++ quote :: after := by
  rcases List.append_eq_append_iff.mp hsame with ⟨inner, rfl, hrest⟩ | ⟨inner, rfl, -⟩
  · cases inner with
    | nil =>
      rw [List.append_nil] at hlength
      exact absurd hlength (lt_irrefl _)
    | cons character inner => exact ⟨inner, (List.cons.inj hrest).2⟩
  · rw [List.length_append] at hlength
    omega

/-- The text between the literals has no quote, so that a quote behind it stands in the second literal or
later. -/
theorem length_after_le {between rest inner after : Bytes} (hbetween : quote ∉ between)
    (hsame : between ++ quote :: rest = inner ++ quote :: after) : after.length ≤ rest.length := by
  rcases List.append_eq_append_iff.mp hsame with ⟨more, -, hrest⟩ | ⟨more, rfl, hafter⟩
  · have hlength := congrArg List.length hrest
    simp only [List.length_append, List.length_cons] at hlength
    omega
  · cases more with
    | nil => exact (congrArg List.length (List.cons.inj hafter).2).le
    | cons character more =>
      obtain ⟨rfl, -⟩ := List.cons.inj hafter
      exact absurd (List.mem_append_right inner (List.mem_cons_self ..)) hbetween

/-- The second literal of a statement with the given conditions is faithful. -/
theorem faithful_passwd {userName passwd : Bytes} {fuel : ℕ} {tokens : List Token}
    (htokens : tokensFrom (fuel + 2 + 8) (betweenLiterals ++ quote :: (passwd ++ quote :: ascii " ")) =
      some tokens)
    (hfrom : conditionsFrom (ascii "user_name") userName tokens =
      some [(ascii "user_name", userName), (ascii "passwd", passwd)]) : Faithful passwd = true := by
  rw [tokensFrom_between, behind_eq] at htokens
  obtain ⟨tokens', hfirst, rfl⟩ := Option.map_eq_some_iff.mp htokens
  obtain ⟨⟨value, rest⟩, hliteral, hrest⟩ := Option.bind_eq_some_iff.mp hfirst
  obtain ⟨tokens, hbehind, rfl⟩ := Option.map_eq_some_iff.mp hrest
  obtain ⟨conditions, hnext, hcons⟩ := Option.map_eq_some_iff.mp
    (show (conditionsFrom (ascii "passwd") value tokens).map ((ascii "user_name", userName) :: ·) = _ from hfrom)
  obtain ⟨-, rfl⟩ := List.cons.inj hcons
  obtain ⟨before, after, htext, -, hshort | ⟨-, hfaithful, -⟩⟩ := literal_closes hliteral hbehind hnext
  · obtain ⟨inner, hinner⟩ := quote_behind htext hshort
    have hquote : quote ∈ ascii " " := by
      rw [hinner]
      exact List.mem_append_right inner (List.mem_cons_self ..)
    exact absurd hquote (by decide)
  · exact hfaithful

/-- Whatever the collation, a login is data in the statement exactly when both strings are free of quotes, and of
backslashes that do not stand before a percent sign or an underscore. -/
theorem credentials_are_data_iff (same : Bytes → Bytes → Prop) (userName passwd : Bytes) :
    CredentialsAreData same userName passwd ↔ Faithful userName = true ∧ Faithful passwd = true := by
  constructor
  · rintro ⟨select, hselect, hconditions, -⟩
    obtain ⟨fuel, hparse⟩ := parse_getUserInfo userName passwd
    rw [hparse] at hselect
    obtain ⟨⟨value, rest⟩, hliteral, hselect⟩ := Option.bind_eq_some_iff.mp hselect
    obtain ⟨tokens, htokens, hselect⟩ := Option.bind_eq_some_iff.mp hselect
    obtain ⟨conditions, hfrom, rfl⟩ := Option.map_eq_some_iff.mp hselect
    obtain rfl : conditions = [(ascii "user_name", userName), (ascii "passwd", passwd)] := hconditions
    obtain ⟨before, after, htext, hweight, hshort | ⟨rfl, hname, rfl, rfl⟩⟩ :=
      literal_closes hliteral htokens hfrom
    · -- the first literal goes on behind the quote that is to close it
      obtain ⟨inner, hinner⟩ := quote_behind htext hshort
      have hle := length_after_le (show quote ∉ betweenLiterals by decide) hinner
      have hpasswd : (ascii "passwd").length = 6 := rfl
      have hblank : (ascii " ").length = 1 := rfl
      simp only [List.map_cons, List.map_nil, List.sum_cons, List.sum_nil, conditionWeight, hpasswd] at hweight
      simp only [List.length_append, List.length_cons, hblank] at hle
      omega
    · obtain rfl := (List.cons.inj (List.append_cancel_left htext)).2
      exact ⟨hname, faithful_passwd htokens hfrom⟩
  · rintro ⟨hname, hpasswd⟩
    have hsame : ∀ row, (userInfoSelect [(ascii "user_name", userName), (ascii "passwd", passwd)]).Returns same row →
        same (row (ascii "user_name")) userName ∧ same (row (ascii "passwd")) passwd := fun row hrow ↦
      ⟨hrow _ (List.mem_cons_self ..), hrow _ (List.mem_cons_of_mem _ (List.mem_cons_self ..))⟩
    refine ⟨_, parse_of_faithful hname hpasswd, rfl, hsame, fun hbinary row hrow ↦ ?_⟩
    exact ⟨hbinary _ _ (hsame row hrow).1, hbinary _ _ (hsame row hrow).2⟩

/-- With a quote and a comment in the name, the statement asks for no password. -/
theorem name_with_comment : ∃ select, parse (getUserInfo (ascii "admin' -- ") (ascii "x")) = some select ∧
    select.conditions = [(ascii "user_name", ascii "admin")] ∧
    ∀ same, ¬ CredentialsAreData same (ascii "admin' -- ") (ascii "x") := by
  have hparse : parse (getUserInfo (ascii "admin' -- ") (ascii "x")) =
      some (userInfoSelect [(ascii "user_name", ascii "admin")]) := by
    decide +kernel
  refine ⟨_, hparse, rfl, ?_⟩
  rintro same ⟨select, hselect, hconditions, -⟩
  obtain rfl := Option.some.inj (hparse.symm.trans hselect)
  exact absurd hconditions (by decide)

end SvrDemo.Database
