import Dataflow.Proofs.Json.Grammar

/-!
# The words of JSON

Space, numbers and strings are taken from the front of a text by the grammar. What is taken is a
text of it (`numberText_of_takeNumber`, `stringText_of_takeString`), and a text of a number or of a
string is taken whole (`takeNumber_of_numberText`, `takeString_of_stringText`): of a number as long
as neither a digit nor a point nor an exponent follows (`EndsNumber`).
-/

namespace Dataflow.Json

open Written

variable {cs rest : List Char} {c : Char}

/-! ## Space -/

theorem isSpace_iff : isSpace c = true ↔ c ∈ [' ', '\t', '\n', '\r'] := by
  simp [isSpace, or_assoc, or_left_comm]

theorem spaceText_skipSpace (cs : List Char) : SpaceText cs (skipSpace cs) := by
  induction cs with
  | nil => exact .nil
  | cons c cs ih =>
    rw [skipSpace, List.dropWhile_cons]
    split
    · next hc => exact .cons (isSpace_iff.1 hc) ih
    · exact .nil

theorem skipSpace_of_spaceText (h : SpaceText cs rest) : skipSpace cs = skipSpace rest := by
  induction h with
  | nil => rfl
  | cons hc _ ih => rw [← ih, skipSpace, List.dropWhile_cons, if_pos (isSpace_iff.2 hc)]; rfl

/-- All of the space is skipped in front of what is no space. -/
theorem skipSpace_eq_cons (h : SpaceText cs (c :: rest)) (hc : isSpace c = false) :
    skipSpace cs = c :: rest := by
  rw [skipSpace_of_spaceText h, skipSpace, List.dropWhile_cons, hc]
  rfl

/-! ## Digits -/

/-- No digit follows. -/
def EndsDigits (rest : List Char) : Prop := ∀ c ∈ rest.head?, Decimal.digit? c = none

theorem eq_digitChar_of_digit? {d : Nat} (h : Decimal.digit? c = some d) :
    d < 10 ∧ c = Decimal.digitChar d := by
  rw [Decimal.digit?] at h
  split at h
  · next hc =>
    have hlow : '0'.toNat ≤ c.toNat := hc.1
    have hhigh : c.toNat ≤ '9'.toNat := hc.2
    have hzero : '0'.toNat = 48 := rfl
    have hnine : '9'.toNat = 57 := rfl
    cases h
    refine ⟨by omega, ?_⟩
    rw [Decimal.digitChar, show '0'.toNat + (c.toNat - '0'.toNat) = c.toNat by omega,
      Char.ofNat_toNat]
  · cases h

theorem digitsText_takeDigits (cs : List Char) :
    DigitsText (Decimal.takeDigits cs).1 cs (Decimal.takeDigits cs).2 := by
  induction cs with
  | nil => exact ⟨by simp [Decimal.takeDigits], rfl⟩
  | cons c cs ih =>
    rw [Decimal.takeDigits]
    split
    · next d hd =>
      obtain ⟨hlt, hc⟩ := eq_digitChar_of_digit? hd
      refine ⟨List.forall_mem_cons.2 ⟨hlt, ih.lt_ten⟩, ?_⟩
      rw [List.map_cons, List.cons_append, ← ih.eq_append, hc]
    · exact ⟨by simp, rfl⟩

theorem takeDigits_eq {ds : List Nat} (h : DigitsText ds cs rest) (hrest : EndsDigits rest) :
    Decimal.takeDigits cs = (ds, rest) := by
  rw [h.eq_append]
  exact Decimal.takeDigits_map_digitChar h.lt_ten hrest

/-- A digit is none of the characters that are no digits. -/
theorem ne_digitChar {d : Nat} (hd : d < 10) (hc : Decimal.digit? c = none) :
    c ≠ Decimal.digitChar d := by
  rintro rfl
  rw [Decimal.digit?_digitChar hd] at hc
  cases hc

theorem DigitsText.exists_eq_cons {ds : List Nat} (h : DigitsText ds cs rest) (hds : ds ≠ []) :
    ∃ d cs', d < 10 ∧ cs = Decimal.digitChar d :: cs' := by
  obtain ⟨d, ds, rfl⟩ := List.exists_cons_of_ne_nil hds
  exact ⟨d, _, h.lt_ten d List.mem_cons_self, h.eq_append⟩

/-! ## Numbers -/

/-- Neither a digit nor a point nor an exponent follows. -/
def EndsNumber (rest : List Char) : Prop :=
  ∀ c ∈ rest.head?, Decimal.digit? c = none ∧ c ≠ '.' ∧ c ≠ 'e' ∧ c ≠ 'E'

theorem EndsNumber.endsDigits (h : EndsNumber rest) : EndsDigits rest := fun c hc => (h c hc).1

theorem fractionText_of_takeFraction {fraction : Option (List Nat)}
    (h : takeFraction cs = some (fraction, rest)) : FractionText fraction cs rest := by
  rw [takeFraction.eq_def] at h
  split at h
  · next cs =>
    dsimp only at h
    split at h
    · cases h
    · next hds =>
      cases h
      exact .present (fun hnil => hds (List.isEmpty_iff.2 hnil)) (digitsText_takeDigits cs)
  · cases h
    exact .absent

theorem takeFraction_eq {fraction : Option (List Nat)} (h : FractionText fraction cs rest)
    (hrest : EndsDigits rest) (hpoint : '.' ∉ rest.head?) :
    takeFraction cs = some (fraction, rest) := by
  cases h with
  | absent =>
    rw [takeFraction.eq_def]
    split
    · exact absurd rfl hpoint
    · rfl
  | present hds h =>
    rw [takeFraction]
    dsimp only
    rw [takeDigits_eq h hrest, if_neg (fun hnil => hds (List.isEmpty_iff.1 hnil))]

/-- The sign of an exponent and what follows it. -/
def takeSign (cs : List Char) : Bool × List Char :=
  match cs with
  | '+' :: rest => (false, rest)
  | '-' :: rest => (true, rest)
  | _ => (false, cs)

theorem signText_takeSign (cs : List Char) : SignText (takeSign cs).1 cs (takeSign cs).2 := by
  rw [takeSign.eq_def]
  split
  · exact .plus
  · exact .minus
  · exact .absent

theorem takeSign_eq {negative : Bool} (h : SignText negative cs rest)
    (hrest : ∀ c ∈ rest.head?, c ≠ '+' ∧ c ≠ '-') : takeSign cs = (negative, rest) := by
  cases h with
  | absent =>
    rw [takeSign.eq_def]
    split
    · exact absurd rfl (hrest _ rfl).1
    · exact absurd rfl (hrest _ rfl).2
    · rfl
  | plus => rfl
  | minus => rfl

theorem takeExponent_cons (e : Char) (cs : List Char) :
    takeExponent (e :: cs) =
      if e = 'e' ∨ e = 'E' then
        let (digits, rest) := Decimal.takeDigits (takeSign cs).2
        let size : Int := Decimal.value digits
        if digits.isEmpty then none
        else some (some (if (takeSign cs).1 then -size else size), rest)
      else some (none, e :: cs) := rfl

theorem exponentText_of_takeExponent {exponent : Option Int}
    (h : takeExponent cs = some (exponent, rest)) : ExponentText exponent cs rest := by
  rcases cs with - | ⟨e, cs⟩
  · cases h
    exact .absent
  · rw [takeExponent_cons] at h
    split at h
    · next he =>
      dsimp only at h
      split at h
      · cases h
      · next hds =>
        cases h
        exact .present he (signText_takeSign cs) (fun hnil => hds (List.isEmpty_iff.2 hnil))
          (digitsText_takeDigits _)
    · cases h
      exact .absent

theorem takeExponent_eq {exponent : Option Int} (h : ExponentText exponent cs rest)
    (hrest : EndsNumber rest) : takeExponent cs = some (exponent, rest) := by
  cases h with
  | absent =>
    rcases cs with - | ⟨c, cs⟩
    · rfl
    · obtain ⟨-, -, he, hE⟩ := hrest c rfl
      rw [takeExponent_cons, if_neg (fun h => h.elim he hE)]
  | present he hsign hds h =>
    obtain ⟨d, cs', hd, rfl⟩ := h.exists_eq_cons hds
    have hstart : ∀ c ∈ (Decimal.digitChar d :: cs').head?, c ≠ '+' ∧ c ≠ '-' := by
      rintro c ⟨⟩
      exact ⟨(ne_digitChar hd rfl).symm, (ne_digitChar hd rfl).symm⟩
    rw [takeExponent_cons, if_pos he, takeSign_eq hsign hstart]
    dsimp only
    rw [takeDigits_eq h hrest.endsDigits, if_neg (fun hnil => hds (List.isEmpty_iff.1 hnil))]

/-- An exponent, or what follows in its place, starts with neither a digit nor a point. -/
theorem ends_of_exponentText {exponent : Option Int} (h : ExponentText exponent cs rest)
    (hrest : EndsNumber rest) : EndsDigits cs ∧ '.' ∉ cs.head? := by
  cases h with
  | absent => exact ⟨hrest.endsDigits, fun hpoint => (hrest '.' hpoint).2.1 rfl⟩
  | present he =>
    constructor
    · rintro c ⟨⟩
      rcases he with rfl | rfl <;> rfl
    · rintro ⟨⟩
      rcases he with he | he <;> cases he

/-- A fraction, or what follows in its place, does not start with a digit. -/
theorem endsDigits_of_fractionText {fraction : Option (List Nat)}
    (h : FractionText fraction cs rest) (hrest : EndsDigits rest) : EndsDigits cs := by
  cases h with
  | absent => exact hrest
  | present =>
    rintro c ⟨⟩
    rfl

/-- A number without its sign, taken from the front of a text. -/
def takeMagnitude (negative : Bool) (cs : List Char) : Option (Literal × List Char) := do
  let (whole, rest) := Decimal.takeDigits cs
  if whole.isEmpty ∨ (whole.head? = some 0 ∧ whole.length ≠ 1) then none
  else
    let (fraction, rest) ← takeFraction rest
    let (exponent, rest) ← takeExponent rest
    return (⟨negative, whole, fraction, exponent⟩, rest)

/-- The sign of a number and what follows it. -/
def takeMinus (cs : List Char) : Bool × List Char :=
  match cs with
  | '-' :: rest => (true, rest)
  | _ => (false, cs)

theorem takeNumber_eq (cs : List Char) :
    takeNumber cs = takeMagnitude (takeMinus cs).1 (takeMinus cs).2 := rfl

theorem takeMinus_of_not_mem (h : '-' ∉ cs.head?) : takeMinus cs = (false, cs) := by
  rw [takeMinus.eq_def]
  split
  · exact absurd rfl h
  · rfl

theorem magnitudeText_of_takeMagnitude {negative : Bool} {l : Literal}
    (h : takeMagnitude negative cs = some (l, rest)) : MagnitudeText negative l cs rest := by
  rw [takeMagnitude] at h
  dsimp only at h
  split at h
  · cases h
  · next hwhole =>
    rw [not_or, not_and, ne_eq, Classical.not_not] at hwhole
    obtain ⟨⟨fraction, cs₁⟩, hfraction, h⟩ := Option.bind_eq_some_iff.1 h
    obtain ⟨⟨exponent, cs₂⟩, hexponent, h⟩ := Option.bind_eq_some_iff.1 h
    cases h
    refine .intro ⟨digitsText_takeDigits cs, fun hnil => hwhole.1 (List.isEmpty_iff.2 hnil), ?_⟩
      (fractionText_of_takeFraction hfraction) (exponentText_of_takeExponent hexponent)
    intro hzero
    obtain ⟨d, hd⟩ := List.length_eq_one_iff.1 (hwhole.2 hzero)
    rw [hd] at hzero ⊢
    cases hzero
    rfl

theorem takeMagnitude_eq {negative : Bool} {l : Literal} (h : MagnitudeText negative l cs rest)
    (hrest : EndsNumber rest) : takeMagnitude negative cs = some (l, rest) := by
  cases h with
  | intro hwhole hfraction hexponent =>
    obtain ⟨hends, hpoint⟩ := ends_of_exponentText hexponent hrest
    have htaken := takeDigits_eq hwhole.toDigitsText (endsDigits_of_fractionText hfraction hends)
    rw [takeMagnitude, htaken]
    dsimp only
    rw [if_neg, takeFraction_eq hfraction hends hpoint]
    · show (takeExponent _ >>= _) = _
      rw [takeExponent_eq hexponent hrest]
      rfl
    · rintro (hnil | ⟨hzero, hlength⟩)
      · exact hwhole.ne_nil (List.isEmpty_iff.1 hnil)
      · rw [hwhole.eq_zero hzero] at hlength
        exact hlength rfl

theorem numberText_of_takeNumber {l : Literal} (h : takeNumber cs = some (l, rest)) :
    NumberText l cs rest := by
  rw [takeNumber_eq, takeMinus.eq_def] at h
  split at h
  · exact .negative (magnitudeText_of_takeMagnitude h)
  · exact .positive (magnitudeText_of_takeMagnitude h)

theorem takeNumber_of_numberText {l : Literal} (h : NumberText l cs rest)
    (hrest : EndsNumber rest) : takeNumber cs = some (l, rest) := by
  rw [takeNumber_eq]
  cases h with
  | positive h =>
    rw [takeMinus_of_not_mem, takeMagnitude_eq h hrest]
    obtain ⟨hwhole, -, -⟩ := h
    obtain ⟨d, cs', hd, rfl⟩ := hwhole.exists_eq_cons hwhole.ne_nil
    exact fun hminus => ne_digitChar hd rfl (Option.some.inj hminus).symm
  | negative h => exact takeMagnitude_eq h hrest

/-! ## Strings -/

instance (n : Nat) (c : Char) : Decidable (HexDigit n c) :=
  inferInstanceAs (Decidable (n < 16 ∧ (c = n.digitChar ∨ c = n.digitChar.toUpper)))

theorem toNat_lt_of_hexDigit? {n : Nat} (h : hexDigit? c = some n) : c.toNat < 128 := by
  have hlt {d : Char} (hc : c ≤ d) (hd : d.toNat < 128) : c.toNat < 128 :=
    Nat.lt_of_le_of_lt hc hd
  rw [hexDigit?] at h
  split at h
  · next hc => exact hlt hc.2 (by decide)
  · split at h
    · next hc => exact hlt hc.2 (by decide)
    · split at h
      · next hc => exact hlt hc.2 (by decide)
      · cases h

theorem hexDigit?_eq_some_iff {n : Nat} : hexDigit? c = some n ↔ HexDigit n c := by
  -- There are finitely many digits, and finitely many characters that may be digits.
  have hchars : ∀ k < 128,
      (hexDigit? (Char.ofNat k)).all fun n => decide (HexDigit n (Char.ofNat k)) := by decide
  have hdigits : ∀ n < 16,
      hexDigit? n.digitChar = some n ∧ hexDigit? n.digitChar.toUpper = some n := by decide
  constructor
  · intro h
    have hall := hchars c.toNat (toNat_lt_of_hexDigit? h)
    rw [Char.ofNat_toNat, h] at hall
    exact of_decide_eq_true hall
  · rintro ⟨hn, rfl | rfl⟩
    · exact (hdigits n hn).1
    · exact (hdigits n hn).2

theorem escaped?_eq_some_iff {e : Char} : escaped? e = some c ↔ (e, c) ∈ escapes := by
  rw [escaped?.eq_def]
  split <;> simp_all [escapes, eq_comm]

theorem hexUnit?_eq_some_iff {c₁ c₂ c₃ c₄ : Char} {u : Nat} :
    hexUnit? c₁ c₂ c₃ c₄ = some u ↔ ∃ u₁ u₂ u₃ u₄, HexDigit u₁ c₁ ∧ HexDigit u₂ c₂ ∧
      HexDigit u₃ c₃ ∧ HexDigit u₄ c₄ ∧ u = ((u₁ * 16 + u₂) * 16 + u₃) * 16 + u₄ := by
  simp only [hexUnit?, ← hexDigit?_eq_some_iff, bind, Option.bind_eq_some_iff, pure,
    Option.some.injEq]
  constructor
  · rintro ⟨u₁, h₁, u₂, h₂, u₃, h₃, u₄, h₄, rfl⟩
    exact ⟨u₁, u₂, u₃, u₄, h₁, h₂, h₃, h₄, rfl⟩
  · rintro ⟨u₁, u₂, u₃, u₄, h₁, h₂, h₃, h₄, rfl⟩
    exact ⟨u₁, h₁, u₂, h₂, u₃, h₃, u₄, h₄, rfl⟩

theorem stringText_of_takeString {pieces : List Piece}
    (h : takeString cs = some (pieces, rest)) : StringText pieces cs rest := by
  fun_induction takeString cs generalizing pieces rest with
  | case1 => cases h
  | case2 rest =>
    cases h
    exact .close
  | case3 _ _ _ _ _ _ _ _ htaken hu ih =>
    cases h
    obtain ⟨u₁, u₂, u₃, u₄, h₁, h₂, h₃, h₄, rfl⟩ := hexUnit?_eq_some_iff.1 hu
    exact .unit h₁ h₂ h₃ h₄ (ih htaken)
  | case4 => cases h
  | case5 _ _ _ _ _ _ htaken he ih =>
    cases h
    exact .escape (escaped?_eq_some_iff.1 he) (ih htaken)
  | case6 => cases h
  | case7 => cases h
  | case8 c cs hquote _ hescape hcontrol ih =>
    obtain ⟨⟨pieces, cs'⟩, htaken, heq⟩ := Option.map_eq_some_iff.1 h
    cases heq
    refine .plain (Nat.le_of_not_lt hcontrol) hquote (fun hbackslash => ?_) (ih htaken)
    -- A backslash that is not an escape is the last character, so that no quote follows it.
    rcases cs with - | ⟨e, cs⟩
    · cases htaken
    · exact hescape e cs hbackslash rfl

theorem takeString_of_stringText {pieces : List Piece} (h : StringText pieces cs rest) :
    takeString cs = some (pieces, rest) := by
  induction h with
  | close => rw [takeString]
  | plain hcontrol hquote hbackslash _ ih =>
    rw [takeString, if_neg (Nat.not_lt.2 hcontrol), ih]
    · rfl
    · exact hquote
    · exact fun _ _ _ _ _ h => absurd h hbackslash
    · exact fun _ _ h => absurd h hbackslash
  | @escape e c _ _ _ he _ ih =>
    rw [takeString, escaped?_eq_some_iff.2 he, ih]
    -- No escape of one letter is that of a code unit.
    rintro _ _ _ _ _ rfl
    have hu : 'u' ∉ escapes.map Prod.fst := by decide
    exact absurd (List.mem_map_of_mem he) hu
  | unit h₁ h₂ h₃ h₄ _ ih =>
    rw [takeString, hexUnit?_eq_some_iff.2 ⟨_, _, _, _, h₁, h₂, h₃, h₄, rfl⟩, ih]

end Dataflow.Json
