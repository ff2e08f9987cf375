import Mathlib.Data.List.Basic
import Mathlib.Tactic.Common

namespace Scaffold.Backtrack

-- Regular expressions that are sequences of character classes, each for one character or, greedily,
-- for any number of them. A match gives the text of the captured pieces.
structure Piece where
  accepts : Char → Bool
  repeated : Bool := false
  captured : Bool := false

def Piece.keep (piece : Piece) (c : Char) (text : List Char) : List Char :=
  if piece.captured then c :: text else text

def literal (text : String) : List Piece :=
  text.toList.map fun c => { accepts := fun d => d = c }

def once (piece : Piece) (rest : List Char → Option (List Char)) : List Char → Option (List Char)
  | [] => none
  | c :: text => if piece.accepts c then (rest text).map (piece.keep c) else none

-- As many characters as possible are tried first, and then given back one by one.
def greedy (piece : Piece) (rest : List Char → Option (List Char)) : List Char → Option (List Char)
  | [] => rest []
  | c :: text =>
      if piece.accepts c then
        match greedy piece rest text with
        | some found => some (piece.keep c found)
        | none => rest (c :: text)
      else rest (c :: text)

def fullmatch : List Piece → List Char → Option (List Char)
  | [], text => if text = [] then some [] else none
  | piece :: pieces, text =>
      if piece.repeated then greedy piece (fullmatch pieces) text else once piece (fullmatch pieces) text

-- Every way to read a text as a sequence of pieces.
inductive Matches : List Piece → List Char → List Char → Prop
  | nil : Matches [] [] []
  | one {piece : Piece} {pieces : List Piece} {c : Char} {text found : List Char}
    (honce : piece.repeated = false)
      (hc : piece.accepts c = true) (h : Matches pieces text found) :
      Matches (piece :: pieces) (c :: text) (piece.keep c found)
  | stop {piece : Piece} {pieces : List Piece} {text found : List Char} (hmany : piece.repeated = true)
      (h : Matches pieces text found) : Matches (piece :: pieces) text found
  | more {piece : Piece} {pieces : List Piece} {c : Char} {text found : List Char}
    (hmany : piece.repeated = true)
      (hc : piece.accepts c = true) (h : Matches (piece :: pieces) text found) :
      Matches (piece :: pieces) (c :: text) (piece.keep c found)

section Search

variable {piece : Piece} {pieces : List Piece} {text found : List Char}

theorem greedy_sound (hmany : piece.repeated = true)
    (hrest : ∀ text found, fullmatch pieces text = some found → Matches pieces text found)
    (h : greedy piece (fullmatch pieces) text = some found) : Matches (piece :: pieces) text found := by
  induction text generalizing found with
  | nil => exact .stop hmany (hrest _ _ h)
  | cons c text ih =>
      rw [greedy] at h
      split_ifs at h with hc
      · split at h
        · rename_i inner hinner
          obtain rfl := Option.some.inj h
          exact .more hmany hc (ih hinner)
        · exact .stop hmany (hrest _ _ h)
      · exact .stop hmany (hrest _ _ h)

theorem fullmatch_sound (h : fullmatch pieces text = some found) : Matches pieces text found := by
  induction pieces generalizing text found with
  | nil =>
      rw [fullmatch] at h
      split_ifs at h with htext
      obtain rfl := Option.some.inj h
      rw [htext]
      exact .nil
  | cons piece pieces ih =>
      rw [fullmatch] at h
      split_ifs at h with hmany
      · exact greedy_sound hmany (fun _ _ => ih) h
      · cases text with
        | nil => cases h
        | cons c text =>
            rw [once] at h
            split_ifs at h with hc
            obtain ⟨inner, hinner, rfl⟩ := Option.map_eq_some_iff.mp h
            exact .one (by simpa using hmany) hc (ih hinner)

theorem greedy_of_rest (h : ∃ found, fullmatch pieces text = some found) :
    ∃ found, greedy piece (fullmatch pieces) text = some found := by
  obtain ⟨found, hfound⟩ := h
  cases text with
  | nil => exact ⟨found, hfound⟩
  | cons c text =>
      rw [greedy]
      split_ifs with hc
      · cases hinner : greedy piece (fullmatch pieces) text with
        | none => exact ⟨found, hfound⟩
        | some inner => exact ⟨_, rfl⟩
      · exact ⟨found, hfound⟩

-- The search finds a reading whenever there is one.
theorem fullmatch_complete (h : Matches pieces text found) :
    ∃ found, fullmatch pieces text = some found := by
  induction h with
  | nil => exact ⟨[], rfl⟩
  | one honce hc _ ih =>
      obtain ⟨inner, hinner⟩ := ih
      exact ⟨_, by rw [fullmatch, honce, if_neg Bool.false_ne_true, once, if_pos hc, hinner]; rfl⟩
  | stop hmany _ ih =>
      rw [fullmatch, if_pos hmany]
      exact greedy_of_rest ih
  | more hmany hc _ ih =>
      obtain ⟨inner, hinner⟩ := ih
      rw [fullmatch, if_pos hmany] at hinner ⊢
      exact ⟨_, by rw [greedy, if_pos hc, hinner]⟩

end Search

section Readings

theorem keep_append (piece : Piece) (c : Char) (x y : List Char) :
    piece.keep c x ++ y = piece.keep c (x ++ y) := by
  unfold Piece.keep
  split_ifs <;> rfl

variable {first second : List Piece} {text found : List Char}

theorem matches_append : Matches (first ++ second) text found ↔
    ∃ a b x y, text = a ++ b ∧ found = x ++ y ∧ Matches first a x ∧ Matches second b y := by
  constructor
  · intro h
    generalize hpieces : first ++ second = pieces at h
    induction h generalizing first with
    | nil =>
        obtain ⟨rfl, rfl⟩ := List.append_eq_nil_iff.mp hpieces
        exact ⟨[], [], [], [], rfl, rfl, .nil, .nil⟩
    | @one piece pieces c text found honce hc h ih =>
        cases first with
        | nil =>
            subst hpieces
            exact ⟨[], _, [], _, rfl, rfl, .nil, .one honce hc h⟩
        | cons head first =>
            obtain ⟨rfl, rfl⟩ := List.cons.inj hpieces
            obtain ⟨a, b, x, y, rfl, rfl, ha, hb⟩ := ih rfl
            exact ⟨c :: a, b, head.keep c x, y, rfl, (keep_append head c x y).symm, .one honce hc ha, hb⟩
    | @stop piece pieces text found hmany h ih =>
        cases first with
        | nil =>
            subst hpieces
            exact ⟨[], _, [], _, rfl, rfl, .nil, .stop hmany h⟩
        | cons head first =>
            obtain ⟨rfl, rfl⟩ := List.cons.inj hpieces
            obtain ⟨a, b, x, y, rfl, rfl, ha, hb⟩ := ih rfl
            exact ⟨a, b, x, y, rfl, rfl, .stop hmany ha, hb⟩
    | @more piece pieces c text found hmany hc h ih =>
        cases first with
        | nil =>
            subst hpieces
            exact ⟨[], _, [], _, rfl, rfl, .nil, .more hmany hc h⟩
        | cons head first =>
            obtain ⟨rfl, rfl⟩ := List.cons.inj hpieces
            obtain ⟨a, b, x, y, rfl, rfl, ha, hb⟩ :=
              ih (rfl : (head :: first) ++ second = head :: (first ++ second))
            exact ⟨c :: a, b, head.keep c x, y, rfl, (keep_append head c x y).symm, .more hmany hc ha, hb⟩
  · rintro ⟨a, b, x, y, rfl, rfl, ha, hb⟩
    induction ha with
    | nil => exact hb
    | @one piece pieces c text found honce hc _ ih =>
        rw [keep_append]
        exact .one honce hc ih
    | stop hmany _ ih => exact .stop hmany ih
    | @more piece pieces c text found hmany hc _ ih =>
        rw [keep_append]
        exact .more hmany hc ih

theorem matches_literal {expected : String} :
    Matches (literal expected) text found ↔ text = expected.toList ∧ found = [] := by
  unfold literal
  generalize expected.toList = chars
  induction chars generalizing text found with
  | nil =>
      constructor
      · rintro ⟨⟩
        exact ⟨rfl, rfl⟩
      · rintro ⟨rfl, rfl⟩
        exact .nil
  | cons c chars ih =>
      constructor
      · intro h
        cases h with
        | one _ hc h =>
            obtain ⟨rfl, rfl⟩ := ih.mp h
            obtain rfl := of_decide_eq_true hc
            exact ⟨rfl, rfl⟩
        | stop hmany => cases hmany
        | more hmany => cases hmany
      · rintro ⟨rfl, rfl⟩
        exact .one rfl (by simp) (ih.mpr ⟨rfl, rfl⟩)

end Readings

section Single

variable {piece : Piece} {text found : List Char}

theorem matches_one (honce : piece.repeated = false) :
    Matches [piece] text found ↔ ∃ c, text = [c] ∧ piece.accepts c = true ∧ found = piece.keep c [] := by
  constructor
  · intro h
    cases h with
    | one _ hc h =>
        cases h
        exact ⟨_, rfl, hc, rfl⟩
    | stop hmany =>
        rw [honce] at hmany
        cases hmany
    | more hmany =>
        rw [honce] at hmany
        cases hmany
  · rintro ⟨c, rfl, hc, rfl⟩
    exact .one honce hc .nil

theorem matches_many (hmany : piece.repeated = true) :
    Matches [piece] text found ↔
      (∀ c ∈ text, piece.accepts c = true) ∧ found = if piece.captured then text else [] := by
  constructor
  · intro h
    generalize hpieces : [piece] = pieces at h
    induction h with
    | nil => cases hpieces
    | one honce =>
        obtain ⟨rfl, rfl⟩ := List.cons.inj hpieces
        rw [hmany] at honce
        cases honce
    | stop _ h =>
        obtain ⟨rfl, rfl⟩ := List.cons.inj hpieces
        cases h
        simp
    | more _ hc _ ih =>
        obtain ⟨rfl, rfl⟩ := List.cons.inj hpieces
        obtain ⟨hall, rfl⟩ := ih rfl
        refine ⟨fun d hd => ?_, ?_⟩
        · obtain rfl | hd := List.mem_cons.mp hd
          · exact hc
          · exact hall d hd
        · unfold Piece.keep
          split_ifs <;> rfl
  · rintro ⟨hall, rfl⟩
    induction text with
    | nil =>
        have hstop : Matches [piece] [] [] := .stop hmany .nil
        simpa using hstop
    | cons c text ih =>
        have hrest := ih fun d hd => hall d (List.mem_cons_of_mem c hd)
        have hmore := Matches.more hmany (hall c List.mem_cons_self) hrest
        unfold Piece.keep at hmore
        split_ifs at hmore ⊢ <;> exact hmore

end Single

end Scaffold.Backtrack
