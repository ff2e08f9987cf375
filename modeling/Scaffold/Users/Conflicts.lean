import Scaffold.Backtrack
import Scaffold.Users.Domain

namespace Scaffold.Users

open Backtrack

def userUniqueConstraints : List (String × ConflictField) :=
  [("uq_users_username", .username), ("users_username_key", .username), ("uq_users_email", .email),
    ("users_email_key", .email)]

def isQuote (c : Char) : Bool := c = '\'' ∨ c = '`'

-- Duplicate entry .* for key ['`](?P<key>[^'`]+)['`]
def mysqlDuplicateKey : List Piece :=
  literal "Duplicate entry " ++ [{ accepts := fun _ => true, repeated := true }] ++ literal " for key " ++
    [{ accepts := isQuote }] ++ [{ accepts := fun c => !isQuote c, captured := true }] ++
    [{ accepts := fun c => !isQuote c, repeated := true, captured := true }] ++ [{ accepts := isQuote }]

-- An item of `args` of a driver's exception.
inductive ErrorArg where
  | code (value : Int)
  | text (value : String)
  | other
  deriving DecidableEq, Repr

-- `removeprefix("users.")`
def removeTable (key : List Char) : List Char :=
  if "users.".toList.isPrefixOf key then key.drop 6 else key

def conflictField (key : List Char) : Option ConflictField :=
  userUniqueConstraints.lookup (.ofList key)

def mysqlConflictField : List ErrorArg → Option ConflictField
  | [_, .text message] =>
      match fullmatch mysqlDuplicateKey message.toList with
      | none => none
      | some key => conflictField (removeTable key)
  | _ => none

-- What the pattern reads: the key stands between the last two quotes.
theorem matches_duplicateKey {text key : List Char} : Matches mysqlDuplicateKey text key ↔
    ∃ entry first last,
      text = "Duplicate entry ".toList ++ entry ++ " for key ".toList ++ [first] ++ key ++ [last] ∧
      isQuote first = true ∧ isQuote last = true ∧ key ≠ [] ∧ ∀ c ∈ key, isQuote c = false := by
  constructor
  · intro h
    obtain ⟨_, _, _, _, rfl, rfl, h, hlast⟩ := matches_append.mp h
    obtain ⟨_, _, _, _, rfl, rfl, h, hmore⟩ := matches_append.mp h
    obtain ⟨_, _, _, _, rfl, rfl, h, hhead⟩ := matches_append.mp h
    obtain ⟨_, _, _, _, rfl, rfl, h, hfirst⟩ := matches_append.mp h
    obtain ⟨_, _, _, _, rfl, rfl, h, hfor⟩ := matches_append.mp h
    obtain ⟨_, entry, _, _, rfl, rfl, hduplicate, hentry⟩ := matches_append.mp h
    obtain ⟨last, rfl, hclose, rfl⟩ := (matches_one rfl).mp hlast
    obtain ⟨hplain, rfl⟩ := (matches_many rfl).mp hmore
    obtain ⟨c, rfl, hc, rfl⟩ := (matches_one rfl).mp hhead
    obtain ⟨first, rfl, hopen, rfl⟩ := (matches_one rfl).mp hfirst
    obtain ⟨rfl, rfl⟩ := matches_literal.mp hfor
    obtain ⟨rfl, rfl⟩ := matches_literal.mp hduplicate
    obtain ⟨-, rfl⟩ := (matches_many rfl).mp hentry
    refine ⟨entry, first, last, by simp [Piece.keep], hopen, hclose, by simp [Piece.keep], ?_⟩
    intro d hd
    simp only [Piece.keep, if_true, if_false, Bool.false_eq_true, List.nil_append, List.append_nil,
      List.cons_append, List.mem_cons] at hd
    obtain rfl | hd := hd
    · simpa using hc
    · simpa using hplain d hd
  · rintro ⟨entry, first, last, rfl, hfirst, hlast, hne, hkey⟩
    obtain ⟨c, rest, rfl⟩ := List.exists_cons_of_ne_nil hne
    have hc : isQuote c = false := hkey c List.mem_cons_self
    have hrest : ∀ d ∈ rest, isQuote d = false := fun d hd => hkey d (List.mem_cons_of_mem c hd)
    have hentry : Matches [{ accepts := fun _ => true, repeated := true }] entry [] :=
      (matches_many rfl).mpr ⟨fun _ _ => rfl, rfl⟩
    have hfirst : Matches [{ accepts := isQuote }] [first] [] :=
      (matches_one rfl).mpr ⟨first, rfl, hfirst, rfl⟩
    have hlast : Matches [{ accepts := isQuote }] [last] [] := (matches_one rfl).mpr ⟨last, rfl, hlast, rfl⟩
    have hhead : Matches [{ accepts := fun c => !isQuote c, captured := true }] [c] [c] :=
      (matches_one rfl).mpr ⟨c, rfl, by simp [hc], rfl⟩
    have hmore :
      Matches [{ accepts := fun c => !isQuote c, repeated := true, captured := true }] rest rest :=
      (matches_many rfl).mpr ⟨fun d hd => by simp [hrest d hd], rfl⟩
    have hsplit :
      "Duplicate entry ".toList ++ entry ++ " for key ".toList ++ [first] ++ (c :: rest) ++ [last] =
        "Duplicate entry ".toList ++ entry ++ " for key ".toList ++ [first] ++ [c] ++ rest ++ [last] := by
      simp
    rw [hsplit]
    refine matches_append.mpr ⟨_, _, c :: rest, [], rfl, by simp, ?_, hlast⟩
    refine matches_append.mpr ⟨_, _, [c], rest, rfl, rfl, ?_, hmore⟩
    refine matches_append.mpr ⟨_, _, [], [c], rfl, rfl, ?_, hhead⟩
    refine matches_append.mpr ⟨_, _, [], [], rfl, rfl, ?_, hfirst⟩
    refine matches_append.mpr ⟨_, _, [], [], rfl, rfl, ?_, matches_literal.mpr ⟨rfl, rfl⟩⟩
    exact matches_append.mpr ⟨_, _, [], [], rfl, rfl, matches_literal.mpr ⟨rfl, rfl⟩, hentry⟩

-- The text behind the last quote but one is the same however a text is split.
theorem quoted_unique {before before' key key' : List Char} {first first' last last' : Char}
    (h : before ++ [first] ++ key ++ [last] = before' ++ [first'] ++ key' ++ [last'])
    (hfirst : isQuote first = true) (hfirst' : isQuote first' = true)
    (hkey : ∀ c ∈ key, isQuote c = false) (hkey' : ∀ c ∈ key', isQuote c = false) : key = key' := by
  have hbody := (List.append_inj' h rfl).1
  have htake : ∀ (before key : List Char) (first : Char), isQuote first = true →
    (∀ c ∈ key, isQuote c = false) →
      (before ++ [first] ++ key).reverse.takeWhile (fun c => !isQuote c) = key.reverse := by
    intro before key first hfirst hkey
    rw [List.reverse_append, List.takeWhile_append_of_pos (by
      intro c hc
      simp [hkey c (List.mem_reverse.mp hc)])]
    simp [hfirst]
  have hreverse := htake before key first hfirst hkey
  rw [hbody, htake before' key' first' hfirst' hkey'] at hreverse
  exact (List.reverse_inj.mp hreverse).symm

theorem mysql_conflict_by_key (entry key : String) (hne : key ≠ "")
    (hkey : ∀ c ∈ key.toList, isQuote c = false) :
    mysqlConflictField [.code 1062, .text ("Duplicate entry '" ++ entry ++ "' for key '" ++ key ++ "'")] =
      conflictField (removeTable key.toList) := by
  have hread : ("Duplicate entry '" ++ entry ++ "' for key '" ++ key ++ "'").toList =
      "Duplicate entry ".toList ++ ('\'' :: entry.toList ++ ['\'']) ++ " for key ".toList ++ ['\''] ++
        key.toList ++ ['\''] := by
    have hstart : "Duplicate entry '".toList = "Duplicate entry ".toList ++ ['\''] := by decide
    have hmiddle : "' for key '".toList = ['\''] ++ " for key ".toList ++ ['\''] := by decide
    have hend : "'".toList = ['\''] := by decide
    simp only [String.toList_append, hstart, hmiddle, hend, List.append_assoc, List.cons_append,
      List.nil_append]
  have hnonempty : key.toList ≠ [] := fun h => hne (String.toList_inj.mp h)
  obtain ⟨found, hfound⟩ := fullmatch_complete
    (matches_duplicateKey.mpr ⟨'\'' :: entry.toList ++ ['\''], '\'', '\'', rfl, rfl, rfl, hnonempty, hkey⟩)
  obtain ⟨entry', first, last, hsplit, hfirst, -, -, hfree⟩ :=
    matches_duplicateKey.mp (fullmatch_sound hfound)
  have hsame : key.toList = found := quoted_unique hsplit rfl hfirst hkey hfree
  rw [mysqlConflictField, hread, hfound, ← hsame]

theorem not_quote_of_all {text : String} (h : (text.toList.all fun c => !isQuote c) = true) :
    ∀ c ∈ text.toList, isQuote c = false := by
  intro c hc
  simpa using List.all_eq_true.mp h c hc

-- An entry that repeats the phrase of the message.
theorem mysql_conflict_by_key_forged :
    mysqlConflictField [.code 1062,
      .text ("Duplicate entry '" ++ "x' for key 'uq_users_username'" ++ "' for key '" ++
        "users.uq_users_email" ++ "'")] =
      some .email :=
  mysql_conflict_by_key "x' for key 'uq_users_username'" "users.uq_users_email" (by decide)
    (not_quote_of_all (by decide))

end Scaffold.Users
