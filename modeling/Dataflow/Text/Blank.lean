/-!
# Blank characters

The characters of the Unicode property *White_Space*, and the text without the
ones at its two ends.

* `trimChars_eq_nil_iff`: trimming leaves nothing exactly of a text that is all blank.
-/

namespace Dataflow.Text

/-- The ranges of the property *White_Space*, by code point. -/
def blankRanges : List (Nat × Nat) :=
  [(0x09, 0x0D), (0x20, 0x20), (0x85, 0x85), (0xA0, 0xA0), (0x1680, 0x1680), (0x2000, 0x200A),
    (0x2028, 0x2029), (0x202F, 0x202F), (0x205F, 0x205F), (0x3000, 0x3000)]

/-- Whether a character is white space. -/
def isBlank (c : Char) : Bool :=
  blankRanges.any fun range => range.1 ≤ c.toNat && c.toNat ≤ range.2

/-- The characters without the blanks at both ends. -/
def trimChars (cs : List Char) : List Char :=
  ((cs.dropWhile isBlank).reverse.dropWhile isBlank).reverse

theorem dropWhile_isBlank_eq_nil_iff {cs : List Char} :
    cs.dropWhile isBlank = [] ↔ ∀ c ∈ cs, isBlank c = true := by
  induction cs with
  | nil => simp
  | cons c rest ih => by_cases hc : isBlank c = true <;> simp [hc, ih]

/-- Nothing is left of a text exactly when it is all blank. -/
theorem trimChars_eq_nil_iff {cs : List Char} : trimChars cs = [] ↔ ∀ c ∈ cs, isBlank c = true := by
  rw [trimChars, List.reverse_eq_nil_iff, ← @dropWhile_isBlank_eq_nil_iff cs]
  constructor
  · intro h
    rw [dropWhile_isBlank_eq_nil_iff] at h
    cases hd : cs.dropWhile isBlank with
    | nil => rfl
    | cons c rest =>
      -- the first character that is kept is not blank
      have hc : isBlank c = true := h c (by simp [hd])
      have hn := List.head?_dropWhile_not isBlank cs
      rw [hd] at hn
      simp [hc] at hn
  · intro h
    simp [h]

end Dataflow.Text
