import RadixGates.Lib.EventStream
import Mathlib.Data.List.Infix

/-!
# Lines of bytes

Reading a stream line by line, and trimming white space off a line.  The bytes
need not be valid UTF-8; white space is what Unicode calls so, in its encoding.
-/

set_option autoImplicit false

namespace RadixGates.Lines

open RadixGates.EventStream (LF)

/-- The lines of a stream, each of them with its end, and what is left after the
last end. -/
def lines : List UInt8 → List (List UInt8)
  | [] => [[]]
  | b :: rest =>
      if b = LF then [b] :: lines rest
      else
        match lines rest with
        | [] => [[b]]
        | first :: later => (b :: first) :: later

theorem lines_cons (b : UInt8) (rest : List UInt8) (inLine : b ≠ LF) (first : List UInt8)
    (later : List (List UInt8)) (split : lines rest = first :: later) :
    lines (b :: rest) = (b :: first) :: later := by
  rw [lines, if_neg inLine, split]

theorem lines_line (line rest : List UInt8) (plain : LF ∉ line) :
    lines (line ++ LF :: rest) = (line ++ [LF]) :: lines rest := by
  induction line with
  | nil => simp [lines]
  | cons b line ih =>
      obtain ⟨inLine, plain⟩ := not_or.mp (List.mem_cons.not.mp plain)
      exact lines_cons b _ (Ne.symm inLine) _ _ (ih plain)

theorem lines_plain (line : List UInt8) (plain : LF ∉ line) : lines line = [line] := by
  induction line with
  | nil => rfl
  | cons b line ih =>
      obtain ⟨inLine, plain⟩ := not_or.mp (List.mem_cons.not.mp plain)
      exact lines_cons b _ (Ne.symm inLine) _ _ (ih plain)

/-! ## Pieces of a text -/

/-- What is found around a byte that it does not contain is found on one side. -/
theorem infix_split {α : Type} (needle before after : List α) (d : α) (foreign : d ∉ needle)
    (found : needle <:+: before ++ d :: after) : needle <:+: before ∨ needle <:+: after := by
  obtain ⟨s, t, shape⟩ := found
  rcases List.append_eq_append_iff.mp shape with ⟨c, left, right⟩ | ⟨c, left, right⟩
  · exact Or.inl ⟨s, c, left.symm⟩
  cases c with
  | nil => exact Or.inl ⟨s, [], by simpa using left⟩
  | cons d' c =>
      obtain ⟨rfl, rfl⟩ := List.cons.inj right
      rcases List.append_eq_append_iff.mp left with ⟨e, _, inside⟩ | ⟨e, _, inside⟩
      · exact absurd (inside ▸ List.mem_append_right e List.mem_cons_self) foreign
      · cases e with
        | nil =>
            rw [List.nil_append] at inside
            exact absurd (inside ▸ List.mem_cons_self) foreign
        | cons _ e =>
            obtain ⟨_, rfl⟩ := List.cons.inj inside
            exact Or.inr ⟨e, t, rfl⟩

theorem infix_skip {α : Type} (needle before gap after : List α) (some : needle ≠ [])
    (foreign : ∀ d ∈ gap, d ∉ needle) (wide : gap ≠ [])
    (found : needle <:+: before ++ gap ++ after) : needle <:+: before ∨ needle <:+: after := by
  induction gap generalizing before with
  | nil => exact absurd rfl wide
  | cons d gap ih =>
      rw [List.append_assoc, List.cons_append] at found
      rcases infix_split needle before _ d (foreign d List.mem_cons_self) found with left | right
      · exact Or.inl left
      · by_cases last : gap = []
        · subst last
          exact Or.inr right
        · rw [← List.nil_append gap] at right
          rcases ih [] (fun e member => foreign e (List.mem_cons_of_mem d member)) last right with
            left | right
          · exact absurd (List.infix_nil.mp left) some
          · exact Or.inr right

/-- A text that stops in a concatenation stops inside one of the pieces, or
after all of them. -/
theorem prefix_flatMap {α β : Type} (piece : β → List α) (xs : List β) (tail p : List α)
    (stops : p <+: xs.flatMap piece ++ tail) :
    (∃ before x after q, xs = before ++ x :: after ∧ q <+: piece x ∧ q ≠ piece x ∧
        p = before.flatMap piece ++ q) ∨
      ∃ q, q <+: tail ∧ p = xs.flatMap piece ++ q := by
  induction xs generalizing p with
  | nil => exact Or.inr ⟨p, by simpa using stops, rfl⟩
  | cons x xs ih =>
      rw [List.flatMap_cons, List.append_assoc] at stops
      by_cases inside : p <+: piece x ∧ p ≠ piece x
      · exact Or.inl ⟨[], x, xs, p, rfl, inside.1, inside.2, rfl⟩
      have through : piece x <+: p := by
        rcases List.prefix_or_prefix_of_prefix stops (List.prefix_append (piece x) _) with
          short | long
        · rw [not_and_or, not_not] at inside
          rw [inside.resolve_left (not_not.mpr short)]
        · exact long
      obtain ⟨p, rfl⟩ := through
      rcases ih p ((List.prefix_append_right_inj _).mp stops) with
        ⟨before, y, after, q, rfl, isPrefix, proper, rfl⟩ | ⟨q, isPrefix, rfl⟩
      · exact Or.inl ⟨x :: before, y, after, q, rfl, isPrefix, proper, by simp⟩
      · exact Or.inr ⟨q, isPrefix, by simp⟩

/-! ## White space -/

def spaces : List (List UInt8) :=
  [[9], [10], [11], [12], [13], [32], [0xC2, 0x85], [0xC2, 0xA0], [0xE1, 0x9A, 0x80]] ++
    (List.range 11).map (fun k => [0xE2, 0x80, 0x80 + UInt8.ofNat k]) ++
    [[0xE2, 0x80, 0xA8], [0xE2, 0x80, 0xA9], [0xE2, 0x80, 0xAF], [0xE2, 0x81, 0x9F],
      [0xE3, 0x80, 0x80]]

/-- Drops what the line starts with, as long as it is one of the patterns. -/
def dropAll (patterns : List (List UInt8)) : (fuel : Nat) → List UInt8 → List UInt8
  | 0, line => line
  | fuel + 1, line =>
      match patterns.find? fun pattern => pattern.isPrefixOf line with
      | some pattern => dropAll patterns fuel (line.drop pattern.length)
      | none => line

def trimLeft (line : List UInt8) : List UInt8 := dropAll spaces line.length line

def trimRight (line : List UInt8) : List UInt8 :=
  (dropAll (spaces.map List.reverse) line.length line.reverse).reverse

def trimSpace (line : List UInt8) : List UInt8 := trimRight (trimLeft line)

theorem dropAll_suffix (patterns : List (List UInt8)) (fuel : Nat) (line : List UInt8) :
    dropAll patterns fuel line <:+ line := by
  induction fuel generalizing line with
  | zero => exact List.suffix_rfl
  | succ fuel ih =>
      rw [dropAll]
      cases patterns.find? fun pattern => pattern.isPrefixOf line with
      | none => exact List.suffix_rfl
      | some pattern => exact (ih _).trans (List.drop_suffix _ _)

theorem trimRight_prefix (line : List UInt8) : trimRight line <+: line := by
  have dropped := dropAll_suffix (spaces.map List.reverse) line.length line.reverse
  rw [← List.reverse_prefix, List.reverse_reverse] at dropped
  exact dropped

/-- A byte that no pattern starts with. -/
def Solid (patterns : List (List UInt8)) (b : UInt8) : Prop :=
  ∀ pattern ∈ patterns, ∀ rest, ¬ pattern <+: b :: rest

instance decidableSolid (patterns : List (List UInt8)) (b : UInt8) :
    Decidable (Solid patterns b) :=
  decidable_of_iff (∀ pattern ∈ patterns, pattern ≠ [] ∧ pattern.head? ≠ some b) (by
    unfold Solid
    refine forall₂_congr fun pattern _ => ?_
    cases pattern with
    | nil => simp
    | cons c tail =>
        simp only [ne_eq, reduceCtorEq, not_false_eq_true, List.head?_cons, Option.some.injEq,
          true_and, List.cons_prefix_cons, not_and]
        constructor
        · intro other rest same
          exact absurd same other
        · intro never same
          exact never tail same List.prefix_rfl)

theorem dropAll_solid (patterns : List (List UInt8)) (fuel : Nat) (b : UInt8) (rest : List UInt8)
    (solid : Solid patterns b) : dropAll patterns fuel (b :: rest) = b :: rest := by
  cases fuel with
  | zero => rfl
  | succ fuel =>
      have unmatched : patterns.find? (fun pattern => pattern.isPrefixOf (b :: rest)) = none := by
        rw [List.find?_eq_none]
        intro pattern member
        rw [List.isPrefixOf_iff_prefix]
        exact solid pattern member rest
      rw [dropAll, unmatched]

theorem trimLeft_solid (b : UInt8) (rest : List UInt8) (solid : Solid spaces b) :
    trimLeft (b :: rest) = b :: rest :=
  dropAll_solid spaces _ b rest solid

theorem trimSpace_prefix (b : UInt8) (rest : List UInt8) (solid : Solid spaces b) :
    trimSpace (b :: rest) <+: b :: rest := by
  rw [trimSpace, trimLeft_solid b rest solid]
  exact trimRight_prefix (b :: rest)

theorem trimRight_newline (line : List UInt8) (e : UInt8)
    (solid : Solid (spaces.map List.reverse) e) :
    trimRight (line ++ [e] ++ [LF]) = line ++ [e] := by
  have found : (spaces.map List.reverse).find?
      (fun pattern => pattern.isPrefixOf (LF :: e :: line.reverse)) = some [LF] := by
    rfl
  rw [trimRight, List.reverse_append, List.reverse_append]
  simp only [List.reverse_singleton, List.singleton_append, List.length_append,
    List.length_singleton]
  rw [dropAll, found]
  simp only [List.length_singleton, List.drop_succ_cons, List.drop_zero]
  rw [dropAll_solid _ _ e _ solid]
  simp

/-- A line that starts and ends with solid bytes only loses its end. -/
theorem trimSpace_newline (b e : UInt8) (line middle : List UInt8) (shape : line = b :: middle)
    (ends : ∃ front, line = front ++ [e]) (solidStart : Solid spaces b)
    (solidEnd : Solid (spaces.map List.reverse) e) : trimSpace (line ++ [LF]) = line := by
  obtain ⟨front, last⟩ := ends
  rw [trimSpace, shape, List.cons_append, trimLeft_solid _ _ solidStart, ← List.cons_append, ← shape,
    last, trimRight_newline _ _ solidEnd]

end RadixGates.Lines
