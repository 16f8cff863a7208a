import Dataflow.Json.Written

/-!
# The grammar of JSON

What is written as what, said without a way to read it. Every relation is between a part of a text,
the text from there on, and what follows the part: `ValueText w cs rest` says that `cs` starts with
a value that is written as `w` and goes on with `rest`. A JSON text is one element, a value with
space around it (`IsText`).
-/

namespace Dataflow.Json

/-- Space may stand between the parts of a text. -/
inductive SpaceText : List Char → List Char → Prop
  | nil {rest : List Char} : SpaceText rest rest
  | cons {c : Char} {cs rest : List Char} (hc : c ∈ [' ', '\t', '\n', '\r'])
    (h : SpaceText cs rest) : SpaceText (c :: cs) rest

/-! ## Numbers -/

/-- Digits below ten, each by its character. -/
structure DigitsText (ds : List Nat) (cs rest : List Char) : Prop where
  lt_ten : ∀ d ∈ ds, d < 10
  eq_append : cs = ds.map Decimal.digitChar ++ rest

/-- The digits in front of a point: at least one, and no zero before another one. -/
structure WholeText (ds : List Nat) (cs rest : List Char) : Prop extends
    DigitsText ds cs rest where
  ne_nil : ds ≠ []
  eq_zero : ds.head? = some 0 → ds = [0]

/-- A point and at least one digit, or nothing. -/
inductive FractionText : Option (List Nat) → List Char → List Char → Prop
  | absent {rest : List Char} : FractionText none rest rest
  | present {ds : List Nat} {cs rest : List Char} (hds : ds ≠ []) (h : DigitsText ds cs rest) :
    FractionText (some ds) ('.' :: cs) rest

/-- The sign of an exponent, which may be absent. -/
inductive SignText : Bool → List Char → List Char → Prop
  | absent {rest : List Char} : SignText false rest rest
  | plus {rest : List Char} : SignText false ('+' :: rest) rest
  | minus {rest : List Char} : SignText true ('-' :: rest) rest

/-- A letter, a sign and at least one digit, or nothing. -/
inductive ExponentText : Option Int → List Char → List Char → Prop
  | absent {rest : List Char} : ExponentText none rest rest
  | present {e : Char} {negative : Bool} {ds : List Nat} {cs cs' rest : List Char}
    (he : e = 'e' ∨ e = 'E') (hsign : SignText negative cs cs') (hds : ds ≠ [])
    (h : DigitsText ds cs' rest) :
    ExponentText (some (if negative then -Decimal.value ds else Decimal.value ds)) (e :: cs) rest

/-- A number without its sign. -/
inductive MagnitudeText (negative : Bool) : Literal → List Char → List Char → Prop
  | intro {whole : List Nat} {fraction : Option (List Nat)} {exponent : Option Int}
    {cs cs₁ cs₂ rest : List Char} (hwhole : WholeText whole cs cs₁)
    (hfraction : FractionText fraction cs₁ cs₂) (hexponent : ExponentText exponent cs₂ rest) :
    MagnitudeText negative ⟨negative, whole, fraction, exponent⟩ cs rest

/-- A number, with a minus sign if it is negative. -/
inductive NumberText : Literal → List Char → List Char → Prop
  | positive {l : Literal} {cs rest : List Char} (h : MagnitudeText false l cs rest) :
    NumberText l cs rest
  | negative {l : Literal} {cs rest : List Char} (h : MagnitudeText true l cs rest) :
    NumberText l ('-' :: cs) rest

/-! ## Strings -/

/-- The escapes of one letter, with the characters that they stand for. -/
def escapes : List (Char × Char) :=
  [('"', '"'), ('\\', '\\'), ('/', '/'), ('b', '\x08'), ('f', '\x0c'), ('n', '\n'), ('r', '\r'),
    ('t', '\t')]

/-- A hexadecimal digit, in either case. -/
def HexDigit (n : Nat) (c : Char) : Prop :=
  n < 16 ∧ (c = n.digitChar ∨ c = n.digitChar.toUpper)

/-- The pieces of a string after its opening quote, the closing one included. -/
inductive StringText : List Piece → List Char → List Char → Prop
  | close {rest : List Char} : StringText [] ('"' :: rest) rest
  | plain {c : Char} {pieces : List Piece} {cs rest : List Char} (hcontrol : 0x20 ≤ c.toNat)
    (hquote : c ≠ '"') (hbackslash : c ≠ '\\') (h : StringText pieces cs rest) :
    StringText (.char c :: pieces) (c :: cs) rest
  | escape {e c : Char} {pieces : List Piece} {cs rest : List Char} (he : (e, c) ∈ escapes)
    (h : StringText pieces cs rest) : StringText (.char c :: pieces) ('\\' :: e :: cs) rest
  | unit {u₁ u₂ u₃ u₄ : Nat} {c₁ c₂ c₃ c₄ : Char} {pieces : List Piece} {cs rest : List Char}
    (h₁ : HexDigit u₁ c₁) (h₂ : HexDigit u₂ c₂) (h₃ : HexDigit u₃ c₃) (h₄ : HexDigit u₄ c₄)
    (h : StringText pieces cs rest) :
    StringText (.unit (((u₁ * 16 + u₂) * 16 + u₃) * 16 + u₄) :: pieces)
      ('\\' :: 'u' :: c₁ :: c₂ :: c₃ :: c₄ :: cs) rest

/-! ## Values -/

mutual

/-- A value, from its first character to its last. -/
inductive ValueText : Written → List Char → List Char → Prop
  | nullWord {rest : List Char} : ValueText .null ("null".toList ++ rest) rest
  | trueWord {rest : List Char} : ValueText (.bool true) ("true".toList ++ rest) rest
  | falseWord {rest : List Char} : ValueText (.bool false) ("false".toList ++ rest) rest
  | number {l : Literal} {cs rest : List Char} (h : NumberText l cs rest) :
    ValueText (.number l) cs rest
  | string {pieces : List Piece} {cs rest : List Char} (h : StringText pieces cs rest) :
    ValueText (.string pieces) ('"' :: cs) rest
  | emptyArray {cs rest : List Char} (h : SpaceText cs (']' :: rest)) :
    ValueText (.array []) ('[' :: cs) rest
  | array {items : List Written} {cs rest : List Char} (h : ItemsText items cs rest) :
    ValueText (.array items) ('[' :: cs) rest
  | emptyObject {cs rest : List Char} (h : SpaceText cs ('\x7d' :: rest)) :
    ValueText (.object []) ('\x7b' :: cs) rest
  | object {members : List (List Piece × Written)} {cs rest : List Char}
    (h : MembersText members cs rest) : ValueText (.object members) ('\x7b' :: cs) rest

/-- A value with space around it. -/
inductive ElementText : Written → List Char → List Char → Prop
  | intro {x : Written} {cs cs₁ cs₂ rest : List Char} (hbefore : SpaceText cs cs₁)
    (h : ValueText x cs₁ cs₂) (hafter : SpaceText cs₂ rest) : ElementText x cs rest

/-- At least one item of an array, the closing bracket included. -/
inductive ItemsText : List Written → List Char → List Char → Prop
  | last {x : Written} {cs rest : List Char} (h : ElementText x cs (']' :: rest)) :
    ItemsText [x] cs rest
  | cons {x : Written} {items : List Written} {cs cs' rest : List Char}
    (h : ElementText x cs (',' :: cs')) (hitems : ItemsText items cs' rest) :
    ItemsText (x :: items) cs rest

/-- A member of an object, with space around it. -/
inductive MemberText : List Piece → Written → List Char → List Char → Prop
  | intro {name : List Piece} {x : Written} {cs cs₁ cs₂ cs₃ rest : List Char}
    (hbefore : SpaceText cs ('"' :: cs₁)) (hname : StringText name cs₁ cs₂)
    (hafter : SpaceText cs₂ (':' :: cs₃)) (h : ElementText x cs₃ rest) : MemberText name x cs rest

/-- At least one member of an object, the closing brace included. -/
inductive MembersText : List (List Piece × Written) → List Char → List Char → Prop
  | last {name : List Piece} {x : Written} {cs rest : List Char}
    (h : MemberText name x cs ('\x7d' :: rest)) : MembersText [(name, x)] cs rest
  | cons {name : List Piece} {x : Written} {members : List (List Piece × Written)}
    {cs cs' rest : List Char} (h : MemberText name x cs (',' :: cs'))
    (hmembers : MembersText members cs' rest) : MembersText ((name, x) :: members) cs rest

end

/-- The characters are a JSON text. -/
def IsText (cs : List Char) : Prop := ∃ w, ElementText w cs []

/-! ## Where parts end -/

section

variable {cs rest : List Char}

theorem SpaceText.isSuffix (h : SpaceText cs rest) : rest <:+ cs := by
  induction h with
  | nil => exact List.suffix_rfl
  | cons _ _ ih => exact ih.trans (List.suffix_cons _ _)

theorem DigitsText.isSuffix {ds : List Nat} (h : DigitsText ds cs rest) : rest <:+ cs := by
  rw [h.eq_append]
  exact List.suffix_append _ _

theorem FractionText.isSuffix {fraction : Option (List Nat)} (h : FractionText fraction cs rest) :
    rest <:+ cs := by
  cases h with
  | absent => exact List.suffix_rfl
  | present _ h => exact h.isSuffix.trans (List.suffix_cons _ _)

theorem SignText.isSuffix {negative : Bool} (h : SignText negative cs rest) : rest <:+ cs := by
  cases h with
  | absent => exact List.suffix_rfl
  | plus => exact List.suffix_cons _ _
  | minus => exact List.suffix_cons _ _

theorem ExponentText.isSuffix {exponent : Option Int} (h : ExponentText exponent cs rest) :
    rest <:+ cs := by
  cases h with
  | absent => exact List.suffix_rfl
  | present _ hsign _ h => exact (h.isSuffix.trans hsign.isSuffix).trans (List.suffix_cons _ _)

theorem NumberText.isSuffix {l : Literal} (h : NumberText l cs rest) : rest <:+ cs := by
  have hmagnitude {negative : Bool} {cs : List Char} (h : MagnitudeText negative l cs rest) :
      rest <:+ cs := by
    obtain ⟨hwhole, hfraction, hexponent⟩ := h
    exact hexponent.isSuffix.trans (hfraction.isSuffix.trans hwhole.isSuffix)
  cases h with
  | positive h => exact hmagnitude h
  | negative h => exact (hmagnitude h).trans (List.suffix_cons _ _)

theorem StringText.isSuffix {pieces : List Piece} (h : StringText pieces cs rest) :
    rest <:+ cs := by
  induction h with
  | close => exact List.suffix_cons _ _
  | plain _ _ _ _ ih => exact ih.trans (List.suffix_cons _ _)
  | escape _ _ ih => exact ih.trans (List.suffix_append [_, _] _)
  | unit _ _ _ _ _ ih => exact ih.trans (List.suffix_append [_, _, _, _, _, _] _)

mutual

theorem ValueText.isSuffix {w : Written} {cs rest : List Char} :
    ValueText w cs rest → rest <:+ cs
  | .nullWord => List.suffix_append _ _
  | .trueWord => List.suffix_append _ _
  | .falseWord => List.suffix_append _ _
  | .number h => h.isSuffix
  | .string h => h.isSuffix.trans (List.suffix_cons _ _)
  | .emptyArray h => (List.suffix_cons _ _).trans (h.isSuffix.trans (List.suffix_cons _ _))
  | .array h => h.isSuffix.trans (List.suffix_cons _ _)
  | .emptyObject h => (List.suffix_cons _ _).trans (h.isSuffix.trans (List.suffix_cons _ _))
  | .object h => h.isSuffix.trans (List.suffix_cons _ _)

theorem ElementText.isSuffix {w : Written} {cs rest : List Char} :
    ElementText w cs rest → rest <:+ cs
  | .intro hbefore h hafter => hafter.isSuffix.trans (h.isSuffix.trans hbefore.isSuffix)

theorem ItemsText.isSuffix {items : List Written} {cs rest : List Char} :
    ItemsText items cs rest → rest <:+ cs
  | .last h => (List.suffix_cons _ _).trans h.isSuffix
  | .cons h hitems => hitems.isSuffix.trans ((List.suffix_cons _ _).trans h.isSuffix)

theorem MemberText.isSuffix {name : List Piece} {w : Written} {cs rest : List Char} :
    MemberText name w cs rest → rest <:+ cs
  | .intro hbefore hname hafter h =>
    h.isSuffix.trans ((List.suffix_cons _ _).trans (hafter.isSuffix.trans
      (hname.isSuffix.trans ((List.suffix_cons _ _).trans hbefore.isSuffix))))

theorem MembersText.isSuffix {members : List (List Piece × Written)} {cs rest : List Char} :
    MembersText members cs rest → rest <:+ cs
  | .last h => (List.suffix_cons _ _).trans h.isSuffix
  | .cons h hmembers => hmembers.isSuffix.trans ((List.suffix_cons _ _).trans h.isSuffix)

end

theorem SpaceText.trans {cs' : List Char} (h : SpaceText cs cs') (h' : SpaceText cs' rest) :
    SpaceText cs rest := by
  induction h with
  | nil => exact h'
  | cons hc _ ih => exact .cons hc (ih h')

theorem ItemsText.of_space {cs' : List Char} {items : List Written} (hspace : SpaceText cs cs')
    (h : ItemsText items cs' rest) : ItemsText items cs rest := by
  cases h with
  | last h =>
    obtain ⟨hbefore, hvalue, hafter⟩ := h
    exact .last (.intro (hspace.trans hbefore) hvalue hafter)
  | cons h hitems =>
    obtain ⟨hbefore, hvalue, hafter⟩ := h
    exact .cons (.intro (hspace.trans hbefore) hvalue hafter) hitems

theorem MembersText.of_space {cs' : List Char} {members : List (List Piece × Written)}
    (hspace : SpaceText cs cs') (h : MembersText members cs' rest) :
    MembersText members cs rest := by
  cases h with
  | last h =>
    obtain ⟨hbefore, hname, hafter, hvalue⟩ := h
    exact .last (.intro (hspace.trans hbefore) hname hafter hvalue)
  | cons h hmembers =>
    obtain ⟨hbefore, hname, hafter, hvalue⟩ := h
    exact .cons (.intro (hspace.trans hbefore) hname hafter hvalue) hmembers

end

end Dataflow.Json
