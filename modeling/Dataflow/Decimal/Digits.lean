/-!
# Decimal digits

The digits of a natural number, most significant first, their value, and the
digits at the front of a text.

* `value_digits`: the digits of a number have it as their value.
* `digits_injective`: so two numbers with the same digits are equal.
* `takeDigits_natText`: the text of a number is read back as its digits.
-/

namespace Dataflow.Decimal

/-- The decimal digits of a number, most significant first; those of zero are a
    single zero. -/
def digits (n : Nat) : List Nat :=
  if n < 10 then [n] else digits (n / 10) ++ [n % 10]
termination_by n

/-- The number that digits stand for, most significant first. -/
def value (ds : List Nat) : Nat := ds.foldl (fun n d => 10 * n + d) 0

/-- The character of a digit below ten. -/
def digitChar (d : Nat) : Char := Char.ofNat ('0'.toNat + d)

/-- The digit that a character shows. -/
def digit? (c : Char) : Option Nat :=
  if '0' ≤ c ∧ c ≤ '9' then some (c.toNat - '0'.toNat) else none

/-- The digits at the front of a text and what follows them. -/
def takeDigits : List Char → List Nat × List Char
  | [] => ([], [])
  | c :: rest =>
    match digit? c with
    | some d => (d :: (takeDigits rest).1, (takeDigits rest).2)
    | none => ([], c :: rest)

/-- The text of a natural number. -/
def natText (n : Nat) : List Char := (digits n).map digitChar

/-- The text of an integer: a minus sign for a negative one, then the digits. -/
def intText : Int → List Char
  | .ofNat n => natText n
  | .negSucc n => '-' :: natText (n + 1)

theorem value_append (ds : List Nat) (d : Nat) : value (ds ++ [d]) = 10 * value ds + d := by
  simp [value]

theorem value_digits (n : Nat) : value (digits n) = n := by
  fun_induction digits n with
  | case1 n h => simp [value]
  | case2 n h ih => rw [value_append, ih]; omega

theorem digits_injective {m n : Nat} (h : digits m = digits n) : m = n := by
  rw [← value_digits m, h, value_digits]

theorem digits_lt_ten (n : Nat) : ∀ d ∈ digits n, d < 10 := by
  fun_induction digits n with
  | case1 n h => simpa using h
  | case2 n h ih =>
    intro d hd
    rcases List.mem_append.1 hd with hd | hd
    · exact ih d hd
    · have : d = n % 10 := by simpa using hd
      omega

theorem digits_ne_nil (n : Nat) : digits n ≠ [] := by
  rw [digits]; split <;> simp

theorem digit?_digitChar {d : Nat} (h : d < 10) : digit? (digitChar d) = some d := by
  have : d = 0 ∨ d = 1 ∨ d = 2 ∨ d = 3 ∨ d = 4 ∨ d = 5 ∨ d = 6 ∨ d = 7 ∨ d = 8 ∨ d = 9 := by omega
  rcases this with rfl | rfl | rfl | rfl | rfl | rfl | rfl | rfl | rfl | rfl <;> decide

/-- Digits written before something that is no digit are read back, and it is
    left. -/
theorem takeDigits_map_digitChar {ds : List Nat} (h : ∀ d ∈ ds, d < 10) {rest : List Char}
    (hrest : ∀ c ∈ rest.head?, digit? c = none) :
    takeDigits (ds.map digitChar ++ rest) = (ds, rest) := by
  induction ds with
  | nil =>
    cases rest with
    | nil => rfl
    | cons c rest => simp [takeDigits, hrest c (by simp)]
  | cons d ds ih =>
    have hd := digit?_digitChar (h d (by simp))
    have ih := ih fun d' hd' => h d' (by simp [hd'])
    simp [takeDigits, hd, ih]

theorem takeDigits_natText (n : Nat) {rest : List Char}
    (hrest : ∀ c ∈ rest.head?, digit? c = none) :
    takeDigits (natText n ++ rest) = (digits n, rest) :=
  takeDigits_map_digitChar (digits_lt_ten n) hrest

end Dataflow.Decimal
