import RadixGates.Breaker.State
import RadixGates.Lib.Decimal
import RadixGates.Lib.Float64
import RadixGates.Lib.Json

/-!
# Durations in the configuration

`Duration` of `gateway-go/config/config.go` is written as `String` of Go's
`time.Duration` prints it and read back with `time.ParseDuration`.  The printer
fills its buffer from the end; the parser adds up terms such as `1.5s`, and
scales their fractions in floating point.
-/

set_option autoImplicit false

namespace RadixGates.Settings

open RadixGates.Decimal

/-! ## Printing -/

def fmtDigits (v : Nat) (buf : List Char) : List Char :=
  if v = 0 then buf else fmtDigits (v / 10) (Nat.digitChar (v % 10) :: buf)
  termination_by v
  decreasing_by omega

def fmtInt (v : Nat) (buf : List Char) : List Char :=
  if v = 0 then '0' :: buf else fmtDigits v buf

/-- The loop of `fmtFrac`: a digit is printed once one of the lower ones is not
zero. -/
def fmtFracLoop : (prec : Nat) → (v : Nat) → (print : Bool) → List Char → List Char × Nat × Bool
  | 0, v, print, buf => (buf, v, print)
  | prec + 1, v, print, buf =>
      let print := print || v % 10 ≠ 0
      fmtFracLoop prec (v / 10) print (if print then Nat.digitChar (v % 10) :: buf else buf)

def fmtFrac (prec v : Nat) (buf : List Char) : List Char × Nat :=
  let (buf, v, print) := fmtFracLoop prec v false buf
  (if print then '.' :: buf else buf, v)

/-- A fraction with its whole part in front of the unit. -/
def fmtUnit (prec u : Nat) (unit : List Char) : List Char :=
  let (buf, u) := fmtFrac prec u unit
  fmtInt u buf

def formatSeconds (u : Nat) : List Char :=
  let (buf, u) := fmtFrac 9 u ['s']
  let buf := fmtInt (u % 60) buf
  let u := u / 60
  if 0 < u then
    let buf := fmtInt (u % 60) ('m' :: buf)
    let u := u / 60
    if 0 < u then fmtInt u ('h' :: buf) else buf
  else buf

def formatAbs (u : Nat) : List Char :=
  if u < 10 ^ 9 then
    if u = 0 then ['0', 's']
    else if u < 10 ^ 3 then fmtUnit 0 u ['n', 's']
    else if u < 10 ^ 6 then fmtUnit 3 u ['µ', 's']
    else fmtUnit 6 u ['m', 's']
  else formatSeconds u

/-- `format`: the magnitude is an `uint64`, so that of the least duration fits. -/
def format (d : Int) : List Char :=
  let text := formatAbs d.natAbs
  if d < 0 then '-' :: text else text

/-! ## Parsing -/

inductive ParseError where
  | invalid
  | missingUnit
  | unknownUnit (unit : List Char)
  deriving DecidableEq, Repr

def leadingInt (x : Nat) : List Char → Option (Nat × List Char)
  | [] => some (x, [])
  | c :: rest =>
      if IsDigit c then
        if 2 ^ 63 / 10 < x then none
        else if 2 ^ 63 < x * 10 + digit c then none
        else leadingInt (x * 10 + digit c) rest
      else some (x, c :: rest)

/-- Digits that do not fit any more are skipped. -/
def leadingFraction (x : Nat) (scale : ℚ) (overflow : Bool) : List Char → Nat × ℚ × List Char
  | [] => (x, scale, [])
  | c :: rest =>
      if IsDigit c then
        if overflow ∨ (2 ^ 63 - 1) / 10 < x ∨ 2 ^ 63 < x * 10 + digit c then
          leadingFraction x scale true rest
        else leadingFraction (x * 10 + digit c) (Float64.mul scale 10) false rest
      else (x, scale, c :: rest)

def unitMap (unit : List Char) : Option Nat :=
  if unit = ['n', 's'] then some 1
  else if unit = ['u', 's'] ∨ unit = ['µ', 's'] ∨ unit = ['μ', 's'] then some (10 ^ 3)
  else if unit = ['m', 's'] then some (10 ^ 6)
  else if unit = ['s'] then some (10 ^ 9)
  else if unit = ['m'] then some (60 * 10 ^ 9)
  else if unit = ['h'] then some (3600 * 10 ^ 9)
  else none

/-- The integers before and after the point, and what is left. -/
structure Numeral where
  v : Nat
  f : Nat
  scale : ℚ
  rem : List Char

/-- `[0-9]*(\.[0-9]*)?` with at least one digit. -/
def numeral (s : List Char) : Option Numeral :=
  (leadingInt 0 s).bind fun (v, rem) =>
    match rem with
    | '.' :: fraction =>
        let (f, scale, rest) := leadingFraction 0 1 false fraction
        if s.length = rem.length ∧ fraction.length = rest.length then none
        else some ⟨v, f, scale, rest⟩
    | _ => if s.length = rem.length then none else some ⟨v, 0, 1, rem⟩

def unitChar (c : Char) : Bool := ¬ (c = '.' ∨ IsDigit c)

/-- A number of units in nanoseconds. -/
def amount (v f : Nat) (scale : ℚ) (unit : Nat) : Option Nat :=
  if 2 ^ 63 / unit < v then none
  else if 0 < f then
    let v := (v * unit +
      ⌊Float64.mul (Float64.round f) (Float64.div (Float64.round unit) scale)⌋₊) % 2 ^ 64
    if 2 ^ 63 < v then none else some v
  else some (v * unit)

/-- One turn of the loop of `ParseDuration`. -/
def term (s : List Char) : Except ParseError (Nat × List Char) :=
  match s.head? with
  | none => .error .invalid
  | some c =>
      if ¬ (c = '.' ∨ IsDigit c) then .error .invalid
      else
        match numeral s with
        | none => .error .invalid
        | some number =>
            let unit := number.rem.takeWhile unitChar
            if unit = [] then .error .missingUnit
            else
              match unitMap unit with
              | none => .error (.unknownUnit unit)
              | some size =>
                  match amount number.v number.f number.scale size with
                  | none => .error .invalid
                  | some v => .ok (v, number.rem.dropWhile unitChar)

theorem leadingInt_length {x v : Nat} {s rem : List Char}
    (read : leadingInt x s = some (v, rem)) : rem.length ≤ s.length := by
  induction s generalizing x with
  | nil =>
      cases read
      exact le_rfl
  | cons c rest ih =>
      rw [leadingInt] at read
      split_ifs at read
      · exact (ih read).trans (Nat.le_succ _)
      · cases read
        exact le_rfl

theorem leadingFraction_length (x : Nat) (scale : ℚ) (overflow : Bool) (s : List Char) :
    (leadingFraction x scale overflow s).2.2.length ≤ s.length := by
  induction s generalizing x scale overflow with
  | nil => exact le_rfl
  | cons c rest ih =>
      rw [leadingFraction]
      split_ifs
      · exact (ih _ _ _).trans (Nat.le_succ _)
      · exact (ih _ _ _).trans (Nat.le_succ _)
      · exact le_rfl

theorem numeral_length {s : List Char} {number : Numeral} (read : numeral s = some number) :
    number.rem.length ≤ s.length := by
  obtain ⟨⟨v, rem⟩, isInt, read⟩ := Option.bind_eq_some_iff.mp read
  have first := leadingInt_length isInt
  dsimp only at read
  split at read
  · rename_i fraction
    have second := leadingFraction_length 0 1 false fraction
    split_ifs at read
    cases read
    rw [List.length_cons] at first
    exact second.trans ((Nat.le_succ _).trans first)
  · split_ifs at read
    cases read
    exact first

/-- A term has at least its unit. -/
theorem term_length {s rest : List Char} {v : Nat} (read : term s = .ok (v, rest)) :
    rest.length < s.length := by
  unfold term at read
  split at read
  · cases read
  · split_ifs at read
    split at read
    · cases read
    · rename_i number isNumber
      dsimp only at read
      split_ifs at read with noUnit
      split at read
      · cases read
      · split at read
        · cases read
        · cases read
          have whole := numeral_length isNumber
          have split := congrArg List.length
            (List.takeWhile_append_dropWhile (p := unitChar) (l := number.rem))
          have some := List.length_pos_iff.mpr noUnit
          rw [List.length_append] at split
          omega

def terms (s : List Char) (d : Nat) : Except ParseError Nat :=
  if s = [] then .ok d
  else
    match read : term s with
    | .error e => .error e
    | .ok (v, rest) =>
        -- the sum of two magnitudes of the least duration wraps around
        if 2 ^ 63 < (d + v) % 2 ^ 64 then .error .invalid else terms rest ((d + v) % 2 ^ 64)
  termination_by s.length
  decreasing_by exact term_length read

def unsigned : List Char → Bool × List Char
  | '-' :: rest => (true, rest)
  | '+' :: rest => (false, rest)
  | s => (false, s)

def parseDuration (text : List Char) : Except ParseError Int :=
  let (neg, s) := unsigned text
  if s = ['0'] then .ok 0
  else if s = [] then .error .invalid
  else
    match terms s 0 with
    | .error e => .error e
    | .ok d =>
        if neg then .ok (wrap64 (-wrap64 d))
        else if 2 ^ 63 - 1 < d then .error .invalid
        else .ok d

/-! ## The JSON value -/

inductive DurationError where
  /-- Duration must be a string such as "2s". -/
  | notString
  | parse (e : ParseError)
  deriving DecidableEq, Repr

/-- `UnmarshalJSON`; `null` is decoded as the empty string. -/
def unmarshalJSON : Json.Value → Except DurationError Int
  | .str s => (parseDuration s.toList).mapError .parse
  | .null => (parseDuration []).mapError .parse
  | _ => .error .notString

def marshalJSON (d : Int) : Json.Value := .str (String.ofList (format d))

/-! ## What is printed -/

theorem fmtDigits_printed (v : Nat) (buf : List Char) :
    ∃ ds, fmtDigits v buf = ds ++ buf ∧ AllDigits ds ∧ value 0 ds = v := by
  induction v using Nat.strongRecOn generalizing buf with
  | ind v ih =>
      rw [fmtDigits]
      split_ifs with zero
      · refine ⟨[], rfl, ?_, ?_⟩
        · simp [AllDigits]
        · rw [zero, value, List.foldl_nil]
      · obtain ⟨ds, printed, digits, isValue⟩ := ih (v / 10) (by omega) (Nat.digitChar (v % 10) :: buf)
        obtain ⟨isDigit, last⟩ := digitChar_isDigit (Nat.mod_lt v (by decide : 0 < 10))
        refine ⟨ds ++ [Nat.digitChar (v % 10)], ?_, digits.snoc isDigit, ?_⟩
        · rw [printed, List.append_assoc, List.singleton_append]
        · rw [value_snoc, isValue, last]
          omega

/-- An integer is printed with at least one digit. -/
theorem fmtInt_printed (v : Nat) (buf : List Char) :
    ∃ ds, fmtInt v buf = ds ++ buf ∧ AllDigits ds ∧ ds ≠ [] ∧ value 0 ds = v := by
  unfold fmtInt
  split_ifs with zero
  · refine ⟨['0'], rfl, ?_, by simp, ?_⟩
    · intro c member
      rw [List.mem_singleton.mp member]
      decide
    · rw [zero]
      decide
  · obtain ⟨ds, printed, digits, isValue⟩ := fmtDigits_printed v buf
    refine ⟨ds, printed, digits, ?_, isValue⟩
    rintro rfl
    exact zero isValue.symm

theorem mod_pow_succ (v prec : Nat) :
    v % 10 ^ (prec + 1) = v / 10 % 10 ^ prec * 10 + v % 10 := by
  rw [pow_succ, Nat.mul_comm, Nat.mod_mul]
  omega

theorem fmtFracLoop_printing (prec v : Nat) (buf : List Char) :
    ∃ ds, fmtFracLoop prec v true buf = (ds ++ buf, v / 10 ^ prec, true) ∧ AllDigits ds ∧
      ds.length = prec ∧ value 0 ds = v % 10 ^ prec := by
  induction prec generalizing v buf with
  | zero =>
      refine ⟨[], by simp [fmtFracLoop], by simp [AllDigits], rfl, ?_⟩
      rw [value, List.foldl_nil, pow_zero, Nat.mod_one]
  | succ prec ih =>
      obtain ⟨ds, printed, digits, long, isValue⟩ := ih (v / 10) (Nat.digitChar (v % 10) :: buf)
      obtain ⟨isDigit, last⟩ := digitChar_isDigit (Nat.mod_lt v (by decide : 0 < 10))
      refine ⟨ds ++ [Nat.digitChar (v % 10)], ?_, digits.snoc isDigit, by simp [long], ?_⟩
      · rw [fmtFracLoop, Bool.true_or, if_pos rfl, printed, List.append_assoc,
          List.singleton_append, Nat.div_div_eq_div_mul, pow_succ, Nat.mul_comm 10]
      · rw [value_snoc, isValue, last, mod_pow_succ]

/-- Trailing zeros are left out. -/
theorem fmtFracLoop_printed (prec v : Nat) (buf : List Char) :
    ∃ ds, fmtFracLoop prec v false buf = (ds ++ buf, v / 10 ^ prec, decide (ds ≠ [])) ∧
      AllDigits ds ∧ ds.length ≤ prec ∧ value 0 ds * 10 ^ (prec - ds.length) = v % 10 ^ prec := by
  induction prec generalizing v buf with
  | zero =>
      refine ⟨[], by simp [fmtFracLoop], by simp [AllDigits], le_rfl, ?_⟩
      rw [value, List.foldl_nil, pow_zero, Nat.mod_one, Nat.zero_mul]
  | succ prec ih =>
      by_cases zero : v % 10 = 0
      · obtain ⟨ds, printed, digits, short, isValue⟩ := ih (v / 10) buf
        refine ⟨ds, ?_, digits, by omega, ?_⟩
        · rw [fmtFracLoop]
          simp only [zero, ne_eq, not_true_eq_false, decide_false, Bool.or_false,
            Bool.false_eq_true, if_false]
          rw [printed, Nat.div_div_eq_div_mul, pow_succ, Nat.mul_comm 10]
        · rw [mod_pow_succ, zero, ← isValue, Nat.succ_sub short, pow_succ]
          ring
      · obtain ⟨ds, printed, digits, long, isValue⟩ :=
          fmtFracLoop_printing prec (v / 10) (Nat.digitChar (v % 10) :: buf)
        obtain ⟨isDigit, last⟩ := digitChar_isDigit (Nat.mod_lt v (by decide : 0 < 10))
        refine ⟨ds ++ [Nat.digitChar (v % 10)], ?_, digits.snoc isDigit, by simp [long], ?_⟩
        · rw [fmtFracLoop]
          simp only [zero, ne_eq, not_false_eq_true, decide_true, Bool.or_true, if_true]
          rw [printed, List.append_assoc, List.singleton_append, Nat.div_div_eq_div_mul, pow_succ,
            Nat.mul_comm 10]
          simp
        · rw [value_snoc, isValue, last, mod_pow_succ]
          simp [long]

/-- A fraction of `r / 10 ^ prec`, as it is printed. -/
def Fraction (prec r : Nat) (text : List Char) : Prop :=
  ∃ ds, AllDigits ds ∧ ds.length ≤ prec ∧ value 0 ds * 10 ^ (prec - ds.length) = r ∧
    text = if ds = [] then [] else '.' :: ds

theorem fmtFrac_printed (prec v : Nat) (buf : List Char) :
    ∃ text, fmtFrac prec v buf = (text ++ buf, v / 10 ^ prec) ∧
      Fraction prec (v % 10 ^ prec) text := by
  obtain ⟨ds, printed, digits, short, isValue⟩ := fmtFracLoop_printed prec v buf
  refine ⟨_, ?_, ds, digits, short, isValue, rfl⟩
  rw [fmtFrac, printed]
  by_cases none : ds = [] <;> simp [none]

/-! ## Reading it back -/

theorem leadingInt_digits (x : Nat) (ds rest : List Char) (digits : AllDigits ds)
    (stops : ∀ c ∈ rest.head?, ¬ IsDigit c) (fits : value x ds ≤ 2 ^ 63) :
    leadingInt x (ds ++ rest) = some (value x ds, rest) := by
  induction ds generalizing x with
  | nil =>
      rw [List.nil_append, value, List.foldl_nil]
      cases rest with
      | nil => rfl
      | cons c rest => rw [leadingInt, if_neg (stops c rfl)]
  | cons c ds ih =>
      rw [value_cons] at fits ⊢
      have room := (le_value (x * 10 + digit c) ds).trans fits
      rw [List.cons_append, leadingInt, if_pos (digits c List.mem_cons_self), if_neg (by omega),
        if_neg (by omega)]
      exact ih _ (fun c member => digits c (List.mem_cons_of_mem _ member)) fits

theorem round_pow_ten {j : Nat} (small : j ≤ 15) : Float64.round (10 ^ j) = 10 ^ j := by
  have fits : 10 ^ j < 2 ^ 53 := by
    calc 10 ^ j ≤ 10 ^ 15 := Nat.pow_le_pow_right (by decide) small
      _ < 2 ^ 53 := by decide
  exact_mod_cast Float64.round_natCast fits

theorem leadingFraction_digits (x j : Nat) (ds rest : List Char) (digits : AllDigits ds)
    (stops : ∀ c ∈ rest.head?, ¬ IsDigit c) (few : j + ds.length ≤ 15)
    (fits : value x ds < 2 ^ 53) :
    leadingFraction x (10 ^ j) false (ds ++ rest) =
      (value x ds, 10 ^ (j + ds.length), rest) := by
  induction ds generalizing x j with
  | nil =>
      rw [List.nil_append, value, List.foldl_nil, List.length_nil, Nat.add_zero]
      cases rest with
      | nil => rfl
      | cons c rest => rw [leadingFraction, if_neg (stops c rfl)]
  | cons c ds ih =>
      rw [value_cons] at fits ⊢
      rw [List.length_cons] at few ⊢
      have room := (le_value (x * 10 + digit c) ds).trans_lt fits
      have scaled : Float64.mul (10 ^ j) 10 = 10 ^ (j + 1) := by
        rw [Float64.mul, ← pow_succ]
        exact round_pow_ten (by omega)
      have goesOn : ¬ ((false : Bool) = true ∨ (2 ^ 63 - 1) / 10 < x ∨
          2 ^ 63 < x * 10 + digit c) := by
        simp only [Bool.false_eq_true, false_or]
        omega
      rw [List.cons_append, leadingFraction, if_pos (digits c List.mem_cons_self), if_neg goesOn,
        scaled, ih _ (j + 1) (fun c member => digits c (List.mem_cons_of_mem _ member)) (by omega)
          fits]
      rw [Nat.add_right_comm, Nat.add_assoc]

/-- A printed number is read as its digits; the scale of the fraction is exact. -/
theorem numeral_printed {prec r : Nat} {ds text : List Char} (c : Char) (rest : List Char)
    (digits : AllDigits ds) (nonempty : ds ≠ []) (fits : value 0 ds ≤ 2 ^ 63)
    (fraction : Fraction prec r text) (short : prec ≤ 9) (isUnit : unitChar c = true) :
    ∃ f k, numeral (ds ++ (text ++ c :: rest)) = some ⟨value 0 ds, f, 10 ^ k, c :: rest⟩ ∧
      k ≤ prec ∧ f < 10 ^ k ∧ f * 10 ^ (prec - k) = r := by
  obtain ⟨fs, fDigits, few, isFraction, rfl⟩ := fraction
  have noDot : c ≠ '.' ∧ ¬ IsDigit c := by simpa [unitChar] using isUnit
  have longer : (ds ++ (c :: rest)).length ≠ (c :: rest).length := by
    have := List.length_pos_iff.mpr nonempty
    rw [List.length_append]
    omega
  refine ⟨value 0 fs, fs.length, ?_, few, value_lt fs fDigits, isFraction⟩
  by_cases none : fs = []
  · have read := leadingInt_digits 0 ds (c :: rest) digits (by simpa using noDot.2) fits
    subst none
    rw [if_pos rfl, List.nil_append, numeral, read, Option.bind_some]
    dsimp only
    split
    · rename_i same
      exact absurd (List.cons.inj same).1 noDot.1
    · rw [if_neg longer]
      simp [value]
  · have dot : ∀ d ∈ ('.' :: (fs ++ c :: rest)).head?, ¬ IsDigit d := by
      rintro d ⟨⟩
      decide
    have read := leadingInt_digits 0 ds ('.' :: (fs ++ c :: rest)) digits dot fits
    have bound : value 0 fs < 2 ^ 53 := by
      calc value 0 fs < 10 ^ fs.length := value_lt fs fDigits
        _ ≤ 10 ^ 9 := Nat.pow_le_pow_right (by decide) (few.trans short)
        _ < 2 ^ 53 := by decide
    have scanned := leadingFraction_digits 0 0 fs (c :: rest) fDigits (by simpa using noDot.2)
      (by omega) bound
    rw [pow_zero, Nat.zero_add] at scanned
    have some : (fs ++ c :: rest).length ≠ (c :: rest).length := by
      have := List.length_pos_iff.mpr none
      rw [List.length_append]
      omega
    rw [if_neg none, List.cons_append, numeral, read, Option.bind_some]
    simp only [scanned]
    rw [if_neg fun both => some both.2]

/-- Scaling a printed fraction to nanoseconds loses nothing. -/
theorem amount_printed {v f k prec size : Nat} (short : prec ≤ 9) (few : k ≤ prec)
    (below : f < 10 ^ k) (sized : size = 10 ^ prec ∨ f = 0) (positive : 0 < size)
    (fits : v * size + f * 10 ^ (prec - k) ≤ 2 ^ 63) :
    amount v f (10 ^ k) size = some (v * size + f * 10 ^ (prec - k)) := by
  have whole : ¬ 2 ^ 63 / size < v := by
    rw [not_lt, Nat.le_div_iff_mul_le positive]
    omega
  rw [amount, if_neg whole]
  rcases sized with rfl | rfl
  · split_ifs with some
    · have tenth : (10 : ℚ) ^ prec = 10 ^ (prec - k) * 10 ^ k := by
        rw [← pow_add, Nat.sub_add_cancel few]
      have scaled : Float64.div (Float64.round ((10 ^ prec : ℕ) : ℚ)) (10 ^ k) =
          10 ^ (prec - k) := by
        rw [Nat.cast_pow, Nat.cast_ofNat, round_pow_ten (by omega), Float64.div, tenth,
          mul_div_cancel_right₀ _ (by positivity), round_pow_ten (by omega)]
      have product : f * 10 ^ (prec - k) < 10 ^ prec := by
        calc f * 10 ^ (prec - k) < 10 ^ k * 10 ^ (prec - k) :=
              Nat.mul_lt_mul_of_pos_right below (by positivity)
          _ = 10 ^ prec := by rw [← pow_add, Nat.add_sub_cancel' few]
      have small : 10 ^ prec < 2 ^ 53 :=
        (Nat.pow_le_pow_right (by decide) short).trans_lt (by decide)
      have exactly : Float64.round (f : ℚ) = f := by
        apply Float64.round_natCast
        have := Nat.pow_le_pow_right (by decide : 0 < 10) few
        omega
      have nanoseconds : Float64.mul f (10 ^ (prec - k)) = ((f * 10 ^ (prec - k) : ℕ) : ℚ) := by
        rw [Float64.mul, ← Float64.round_natCast (product.trans small)]
        push_cast
        rfl
      rw [scaled, exactly, nanoseconds, Nat.floor_natCast, Nat.mod_eq_of_lt (by omega)]
      rw [if_neg (by omega)]
    · rw [Nat.eq_zero_of_not_pos some, Nat.zero_mul, Nat.add_zero]
  · rw [if_neg (by decide), Nat.zero_mul, Nat.add_zero]

/-- One printed term. -/
theorem term_printed {prec r size : Nat} {ds text unit rest : List Char} (digits : AllDigits ds)
    (nonempty : ds ≠ []) (fraction : Fraction prec r text) (short : prec ≤ 9)
    (known : unitMap unit = some size) (isUnit : unit.all unitChar = true) (some : unit ≠ [])
    (stops : ∀ c ∈ rest.head?, unitChar c = false) (sized : size = 10 ^ prec ∨ r = 0)
    (positive : 0 < size) (fits : value 0 ds * size + r ≤ 2 ^ 63) :
    term (ds ++ (text ++ (unit ++ rest))) = .ok (value 0 ds * size + r, rest) := by
  obtain ⟨c, tail, rfl⟩ := List.exists_cons_of_ne_nil some
  have first : unitChar c = true := by
    rw [List.all_cons, Bool.and_eq_true] at isUnit
    exact isUnit.1
  have bound : value 0 ds ≤ 2 ^ 63 := by
    have := Nat.le_mul_of_pos_right (value 0 ds) positive
    omega
  obtain ⟨f, k, read, few, below, isFraction⟩ := numeral_printed c (tail ++ rest) digits nonempty
    bound fraction short first
  have sized' : size = 10 ^ prec ∨ f = 0 := by
    apply sized.imp_right
    intro zero
    rw [zero] at isFraction
    exact (Nat.mul_eq_zero.mp isFraction).resolve_right (by positivity)
  have isAmount := amount_printed short few below sized' positive (by rw [isFraction]; exact fits)
  have all : ∀ u ∈ c :: tail, unitChar u = true := List.all_eq_true.mp isUnit
  have taken : (c :: tail ++ rest).takeWhile unitChar = c :: tail := by
    rw [List.takeWhile_append_of_pos all]
    cases rest with
    | nil => simp
    | cons d rest => simp [stops d rfl]
  have left : (c :: tail ++ rest).dropWhile unitChar = rest := by
    rw [List.dropWhile_append_of_pos all]
    cases rest with
    | nil => rfl
    | cons d rest => simp [stops d rfl]
  obtain ⟨d, ds', rfl⟩ := List.exists_cons_of_ne_nil nonempty
  have isDigit := digits d List.mem_cons_self
  rw [← List.cons_append] at read
  rw [term, List.cons_append, List.head?_cons]
  dsimp only
  rw [if_neg (by simp [isDigit]), ← List.cons_append, read]
  dsimp only
  rw [taken, if_neg (by simp), known]
  dsimp only
  rw [isAmount, isFraction, left]

theorem terms_printed {prec r size d : Nat} {ds text unit rest : List Char}
    (digits : AllDigits ds) (nonempty : ds ≠ []) (fraction : Fraction prec r text)
    (short : prec ≤ 9) (known : unitMap unit = some size) (isUnit : unit.all unitChar = true)
    (some : unit ≠ []) (stops : ∀ c ∈ rest.head?, unitChar c = false)
    (sized : size = 10 ^ prec ∨ r = 0) (positive : 0 < size)
    (fits : d + (value 0 ds * size + r) ≤ 2 ^ 63) :
    terms (ds ++ (text ++ (unit ++ rest))) d = terms rest (d + (value 0 ds * size + r)) := by
  have read := term_printed digits nonempty fraction short known isUnit some stops sized positive
    (by omega)
  rw [terms, if_neg (by simp [nonempty])]
  split
  · rename_i failed
    rw [read] at failed
    cases failed
  · rename_i v left isRead
    rw [read] at isRead
    cases isRead
    rw [Nat.mod_eq_of_lt (by omega), if_neg (by omega)]

theorem terms_nil (d : Nat) : terms [] d = .ok d := by rw [terms, if_pos rfl]

theorem terms_fmtInt {prec r v size d : Nat} {text unit rest : List Char}
    (fraction : Fraction prec r text) (short : prec ≤ 9) (known : unitMap unit = some size)
    (isUnit : unit.all unitChar = true) (some : unit ≠ [])
    (stops : ∀ c ∈ rest.head?, unitChar c = false) (sized : size = 10 ^ prec ∨ r = 0)
    (positive : 0 < size) (fits : d + (v * size + r) ≤ 2 ^ 63) :
    terms (fmtInt v (text ++ (unit ++ rest))) d = terms rest (d + (v * size + r)) := by
  obtain ⟨ds, written, digits, nonempty, isValue⟩ := fmtInt_printed v (text ++ (unit ++ rest))
  have read := terms_printed (d := d) digits nonempty fraction short known isUnit some stops sized
    positive (by rw [isValue]; exact fits)
  rw [isValue] at read
  rw [written]
  exact read

/-- The last term, with its fraction. -/
theorem terms_last {prec r v d : Nat} {text unit : List Char} (fraction : Fraction prec r text)
    (short : prec ≤ 9) (known : unitMap unit = some (10 ^ prec))
    (isUnit : unit.all unitChar = true) (some : unit ≠ [])
    (fits : d + (v * 10 ^ prec + r) ≤ 2 ^ 63) :
    terms (fmtInt v (text ++ unit)) d = .ok (d + (v * 10 ^ prec + r)) := by
  rw [← List.append_nil unit, terms_fmtInt fraction short known isUnit some (by simp) (Or.inl rfl)
    (by positivity) fits, terms_nil]

/-- A whole number of minutes or hours, with other terms behind it. -/
theorem terms_whole {v size d : Nat} (c : Char) (rest : List Char)
    (known : unitMap [c] = some size) (isUnit : unitChar c = true) (positive : 0 < size)
    (stops : ∀ c ∈ rest.head?, unitChar c = false) (fits : d + v * size ≤ 2 ^ 63) :
    terms (fmtInt v (c :: rest)) d = terms rest (d + v * size) := by
  have noFraction : Fraction 0 0 [] := ⟨[], by simp [AllDigits], le_rfl, by decide, rfl⟩
  exact terms_fmtInt noFraction (by decide) known (by simp [isUnit]) (by simp) stops (Or.inr rfl)
    positive fits

theorem fmtInt_stops (v : Nat) (buf : List Char) :
    ∀ c ∈ (fmtInt v buf).head?, unitChar c = false := by
  obtain ⟨ds, written, digits, nonempty, _⟩ := fmtInt_printed v buf
  obtain ⟨c, ds, rfl⟩ := List.exists_cons_of_ne_nil nonempty
  rw [written]
  rintro d ⟨⟩
  simp [unitChar, digits c List.mem_cons_self]

theorem terms_fmtUnit {prec u : Nat} {unit : List Char} (short : prec ≤ 9)
    (known : unitMap unit = some (10 ^ prec)) (isUnit : unit.all unitChar = true)
    (some : unit ≠ []) (fits : u ≤ 2 ^ 63) : terms (fmtUnit prec u unit) 0 = .ok u := by
  obtain ⟨text, printed, fraction⟩ := fmtFrac_printed prec u unit
  have whole := Nat.div_add_mod' u (10 ^ prec)
  simp only [fmtUnit, printed]
  rw [terms_last fraction short known isUnit some (by omega), Nat.zero_add, whole]

theorem terms_formatSeconds (u : Nat) (fits : u ≤ 2 ^ 63) : terms (formatSeconds u) 0 = .ok u := by
  obtain ⟨text, printed, fraction⟩ := fmtFrac_printed 9 u ['s']
  simp only [formatSeconds, printed]
  -- what is left of the seconds once the larger terms were read
  have seconds : ∀ d, d + (u / 10 ^ 9 % 60 * 10 ^ 9 + u % 10 ^ 9) ≤ 2 ^ 63 →
      terms (fmtInt (u / 10 ^ 9 % 60) (text ++ ['s'])) d =
        .ok (d + (u / 10 ^ 9 % 60 * 10 ^ 9 + u % 10 ^ 9)) := fun d =>
    terms_last fraction le_rfl (by decide) (by decide) (by simp)
  have minutes : ∀ d v, d + v * (60 * 10 ^ 9) + (u / 10 ^ 9 % 60 * 10 ^ 9 + u % 10 ^ 9) ≤ 2 ^ 63 →
      terms (fmtInt v ('m' :: fmtInt (u / 10 ^ 9 % 60) (text ++ ['s']))) d =
        .ok (d + v * (60 * 10 ^ 9) + (u / 10 ^ 9 % 60 * 10 ^ 9 + u % 10 ^ 9)) := by
    intro d v fits
    have known : unitMap ['m'] = some (60 * 10 ^ 9) := by decide
    rw [terms_whole 'm' _ known (by decide) (by decide) (fmtInt_stops _ _) (by omega)]
    exact seconds _ fits
  split_ifs with someMinutes someHours
  · have known : unitMap ['h'] = some (3600 * 10 ^ 9) := by decide
    rw [terms_whole 'h' _ known (by decide) (by decide) (fmtInt_stops _ _) (by omega),
      minutes _ _ (by omega)]
    congr 1
    omega
  · rw [minutes _ _ (by omega)]
    congr 1
    omega
  · rw [seconds _ (by omega)]
    congr 1
    omega

/-- The magnitude of a duration is read back, whatever sign is in front of it. -/
theorem terms_format {u : Nat} (fits : u ≤ 2 ^ 63) :
    terms (formatAbs u) 0 = .ok u := by
  unfold formatAbs
  split_ifs with small zero nanoseconds microseconds
  · rw [zero]
    have read : terms (fmtUnit 9 0 ['s']) 0 = .ok 0 :=
      terms_fmtUnit le_rfl (by decide) (by decide) (by simp) (by decide)
    exact read
  · exact terms_fmtUnit (by decide) (by decide) (by decide) (by simp) fits
  · exact terms_fmtUnit (by decide) (by decide) (by decide) (by simp) fits
  · exact terms_fmtUnit (by decide) (by decide) (by decide) (by simp) fits
  · exact terms_formatSeconds u fits

theorem fmtUnit_fmtInt (prec u : Nat) {unit : List Char} (some : unit ≠ []) :
    ∃ v buf, fmtUnit prec u unit = fmtInt v buf ∧ buf ≠ [] := by
  obtain ⟨text, printed, _⟩ := fmtFrac_printed prec u unit
  exact ⟨u / 10 ^ prec, text ++ unit, by simp only [fmtUnit, printed], by simp [some]⟩

theorem formatSeconds_fmtInt (u : Nat) : ∃ v buf, formatSeconds u = fmtInt v buf ∧ buf ≠ [] := by
  obtain ⟨text, printed, _⟩ := fmtFrac_printed 9 u ['s']
  simp only [formatSeconds, printed]
  split_ifs
  · exact ⟨_, _, rfl, by simp⟩
  · exact ⟨_, _, rfl, by simp⟩
  · exact ⟨_, _, rfl, by simp⟩

theorem formatAbs_fmtInt (u : Nat) : ∃ v buf, formatAbs u = fmtInt v buf ∧ buf ≠ [] := by
  unfold formatAbs
  split_ifs
  · exact ⟨0, ['s'], rfl, by simp⟩
  · exact fmtUnit_fmtInt _ u (by simp)
  · exact fmtUnit_fmtInt _ u (by simp)
  · exact fmtUnit_fmtInt _ u (by simp)
  · exact formatSeconds_fmtInt u

/-- What is printed starts with a digit and has a unit behind it. -/
theorem formatAbs_cons (u : Nat) : ∃ c rest, formatAbs u = c :: rest ∧ IsDigit c ∧ rest ≠ [] := by
  obtain ⟨v, buf, printed, some⟩ := formatAbs_fmtInt u
  obtain ⟨ds, written, digits, nonempty, _⟩ := fmtInt_printed v buf
  obtain ⟨c, ds, rfl⟩ := List.exists_cons_of_ne_nil nonempty
  exact ⟨c, ds ++ buf, printed.trans written, digits c List.mem_cons_self, by simp [some]⟩

theorem unsigned_format (d : Int) : unsigned (format d) = (decide (d < 0), formatAbs d.natAbs) := by
  obtain ⟨c, rest, printed, isDigit, _⟩ := formatAbs_cons d.natAbs
  unfold format
  split_ifs with negative
  · simp [unsigned, negative]
  · rw [printed]
    unfold unsigned
    split
    · rename_i same
      cases same
      exact absurd isDigit (by decide)
    · rename_i same
      cases same
      exact absurd isDigit (by decide)
    · simp [negative]

/-- The magnitude of the least duration wraps around, and so does its negation. -/
theorem wrapped_magnitude {d : Int} (low : -2 ^ 63 ≤ d) (negative : d < 0) :
    wrap64 (-wrap64 d.natAbs) = d := by
  have magnitude : (d.natAbs : Int) = -d := Int.ofNat_natAbs_of_nonpos negative.le
  rw [magnitude]
  rcases low.lt_or_eq with greater | rfl
  · rw [wrap64_of_fits (-d) (by omega) (by omega), neg_neg, wrap64_of_fits d low (by omega)]
  · decide

theorem parseDuration_format (d : Int) (low : -2 ^ 63 ≤ d) (high : d < 2 ^ 63) :
    parseDuration (format d) = .ok d := by
  have read : terms (formatAbs d.natAbs) 0 = .ok d.natAbs := terms_format (by omega)
  obtain ⟨c, rest, printed, _, some⟩ := formatAbs_cons d.natAbs
  have notZero : formatAbs d.natAbs ≠ ['0'] := by simp [printed, some]
  have notNil : formatAbs d.natAbs ≠ [] := by simp [printed]
  simp only [parseDuration, unsigned_format, if_neg notZero, if_neg notNil, read]
  by_cases negative : d < 0
  · rw [if_pos (decide_eq_true negative), wrapped_magnitude low negative]
  · have magnitude : (d.natAbs : Int) = d := Int.natAbs_of_nonneg (not_lt.mp negative)
    rw [if_neg (by simpa using negative), if_neg (by omega), magnitude]

/-- Every duration that fits is read back as it was written. -/
theorem duration_round_trip (d : Int) (low : -2 ^ 63 ≤ d) (high : d < 2 ^ 63) :
    unmarshalJSON (marshalJSON d) = .ok d := by
  rw [marshalJSON, unmarshalJSON, String.toList_ofList, parseDuration_format d low high]
  rfl

theorem round_trip_of_least :
    unmarshalJSON (marshalJSON (-2 ^ 63)) = .ok (-2 ^ 63) ∧
      format (-2 ^ 63) = "-2562047h47m16.854775808s".toList :=
  ⟨duration_round_trip _ (by decide) (by decide), by decide +kernel⟩

end RadixGates.Settings
