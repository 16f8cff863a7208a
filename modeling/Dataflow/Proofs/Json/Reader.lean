import Dataflow.Proofs.Json.Words

/-!
# Reading by the grammar

A text is taken apart as the grammar says and in no other way (`Written.read?_eq_some_iff`). What is
taken for a value, for items or for members is a text of them, by induction on the levels that are
left. A text of them is taken for them, by induction on how it is derived, if there are levels
enough: two for every character.
-/

namespace Dataflow.Json

open Written

variable {c : Char} {cs rest : List Char}

/-! ## What is taken is a text of the value -/

mutual

/-- What is taken for a value is a text of it, after some space. -/
theorem valueText_of_takeValue (n : Nat) {cs rest : List Char} {w : Written}
    (h : takeValue n cs = some (w, rest)) : ValueText w (skipSpace cs) rest := by
  cases n with
  | zero => cases h
  | succ n =>
    rw [takeValue] at h
    split at h
    · next heq =>
      cases h
      exact heq ▸ .nullWord
    · next heq =>
      cases h
      exact heq ▸ .trueWord
    · next heq =>
      cases h
      exact heq ▸ .falseWord
    · next heq =>
      obtain ⟨⟨pieces, cs'⟩, htaken, hw⟩ := Option.map_eq_some_iff.1 h
      cases hw
      exact heq ▸ .string (stringText_of_takeString htaken)
    · next cs' heq =>
      rw [heq]
      split at h
      · next heq' =>
        cases h
        exact .emptyArray (heq' ▸ spaceText_skipSpace cs')
      · obtain ⟨⟨items, cs''⟩, htaken, hw⟩ := Option.map_eq_some_iff.1 h
        cases hw
        exact .array ((itemsText_of_takeItems n htaken).of_space (spaceText_skipSpace cs'))
    · next cs' heq =>
      rw [heq]
      split at h
      · next heq' =>
        cases h
        exact .emptyObject (heq' ▸ spaceText_skipSpace cs')
      · obtain ⟨⟨members, cs''⟩, htaken, hw⟩ := Option.map_eq_some_iff.1 h
        cases hw
        exact .object ((membersText_of_takeMembers n htaken).of_space (spaceText_skipSpace cs'))
    · obtain ⟨⟨literal, cs'⟩, htaken, hw⟩ := Option.map_eq_some_iff.1 h
      cases hw
      exact .number (numberText_of_takeNumber htaken)

/-- What is taken for items is a text of them. -/
theorem itemsText_of_takeItems (n : Nat) {cs rest : List Char} {items : List Written}
    (h : takeItems n cs = some (items, rest)) : ItemsText items cs rest := by
  cases n with
  | zero => cases h
  | succ n =>
    rw [takeItems] at h
    obtain ⟨⟨x, cs₁⟩, hx, h⟩ := Option.bind_eq_some_iff.1 h
    have hvalue := valueText_of_takeValue n hx
    have helement {c : Char} {cs₂ : List Char} (heq : skipSpace cs₁ = c :: cs₂) :
        ElementText x cs (c :: cs₂) :=
      .intro (spaceText_skipSpace cs) hvalue (heq ▸ spaceText_skipSpace cs₁)
    dsimp only at h
    split at h
    · next heq =>
      obtain ⟨⟨xs, cs₂⟩, hxs, hw⟩ := Option.bind_eq_some_iff.1 h
      cases hw
      exact .cons (helement heq) (itemsText_of_takeItems n hxs)
    · next heq =>
      cases h
      exact .last (helement heq)
    · cases h

/-- What is taken for members is a text of them. -/
theorem membersText_of_takeMembers (n : Nat) {cs rest : List Char}
    {members : List (List Piece × Written)} (h : takeMembers n cs = some (members, rest)) :
    MembersText members cs rest := by
  cases n with
  | zero => cases h
  | succ n =>
    rw [takeMembers] at h
    split at h
    · next cs₁ hquote =>
      obtain ⟨⟨name, cs₂⟩, hname, h⟩ := Option.bind_eq_some_iff.1 h
      dsimp only at h
      split at h
      · next cs₃ hcolon =>
        obtain ⟨⟨x, cs₄⟩, hx, h⟩ := Option.bind_eq_some_iff.1 h
        have hvalue := valueText_of_takeValue n hx
        have hmember {c : Char} {cs₅ : List Char} (heq : skipSpace cs₄ = c :: cs₅) :
            MemberText name x cs (c :: cs₅) :=
          .intro (hquote ▸ spaceText_skipSpace cs) (stringText_of_takeString hname)
            (hcolon ▸ spaceText_skipSpace cs₂)
            (.intro (spaceText_skipSpace cs₃) hvalue (heq ▸ spaceText_skipSpace cs₄))
        dsimp only at h
        split at h
        · next heq =>
          obtain ⟨⟨ms, cs₆⟩, hms, hw⟩ := Option.bind_eq_some_iff.1 h
          cases hw
          exact .cons (hmember heq) (membersText_of_takeMembers n hms)
        · next heq =>
          cases h
          exact .last (hmember heq)
        · cases h
      · cases h
    · cases h

end

/-! ## A text of a value is taken for it -/

/-! A value is recognized by its first character, which is no space. -/

theorem NumberText.exists_eq_cons {l : Literal} (h : NumberText l cs rest) :
    ∃ c cs', cs = c :: cs' ∧ (c = '-' ∨ (Decimal.digit? c).isSome = true) := by
  cases h with
  | positive h =>
    obtain ⟨hwhole, -, -⟩ := h
    obtain ⟨d, cs', hd, rfl⟩ := hwhole.exists_eq_cons hwhole.ne_nil
    exact ⟨_, cs', rfl, .inr (by rw [Decimal.digit?_digitChar hd]; rfl)⟩
  | negative => exact ⟨_, _, rfl, .inl rfl⟩

theorem ValueText.exists_eq_cons {w : Written} (h : ValueText w cs rest) :
    ∃ c cs', cs = c :: cs' ∧ isSpace c = false ∧ c ≠ ']' := by
  cases h with
  | nullWord => exact ⟨_, _, rfl, rfl, by decide⟩
  | trueWord => exact ⟨_, _, rfl, rfl, by decide⟩
  | falseWord => exact ⟨_, _, rfl, rfl, by decide⟩
  | number h =>
    obtain ⟨c, cs', rfl, hc⟩ := h.exists_eq_cons
    refine ⟨c, cs', rfl, Bool.eq_false_iff.2 fun hspace => ?_, ?_⟩
    · rw [isSpace_iff] at hspace
      simp only [List.mem_cons, List.not_mem_nil, or_false] at hspace
      rcases hspace with rfl | rfl | rfl | rfl <;> exact absurd hc (by decide)
    · rintro rfl
      exact absurd hc (by decide)
  | string => exact ⟨_, _, rfl, rfl, by decide⟩
  | emptyArray => exact ⟨_, _, rfl, rfl, by decide⟩
  | array => exact ⟨_, _, rfl, rfl, by decide⟩
  | emptyObject => exact ⟨_, _, rfl, rfl, by decide⟩
  | object => exact ⟨_, _, rfl, rfl, by decide⟩

theorem ValueText.skipSpace_eq {w : Written} (h : ValueText w cs rest) : skipSpace cs = cs := by
  obtain ⟨c, cs', rfl, hc, -⟩ := h.exists_eq_cons
  exact skipSpace_eq_cons .nil hc

theorem EndsNumber.of_spaceText (h : SpaceText cs rest) (hrest : EndsNumber rest) :
    EndsNumber cs := by
  cases h with
  | nil => exact hrest
  | cons hc _ =>
    rintro c ⟨⟩
    simp only [List.mem_cons, List.not_mem_nil, or_false] at hc
    rcases hc with rfl | rfl | rfl | rfl <;> decide

section

variable {n : Nat} {cs₀ cs' : List Char}

theorem takeValue_string (hskip : skipSpace cs₀ = '"' :: cs) :
    takeValue (n + 1) cs₀ = (takeString cs).map fun (pieces, rest) => (.string pieces, rest) := by
  rw [takeValue, hskip]
  rfl

theorem takeValue_emptyArray (hskip : skipSpace cs₀ = '[' :: cs)
    (hclose : skipSpace cs = ']' :: rest) :
    takeValue (n + 1) cs₀ = some (.array [], rest) := by
  simp only [takeValue, hskip, hclose]

theorem takeValue_array (hskip : skipSpace cs₀ = '[' :: cs) (hclose : ']' ∉ (skipSpace cs).head?) :
    takeValue (n + 1) cs₀ =
      (takeItems n (skipSpace cs)).map fun (items, rest) => (.array items, rest) := by
  simp only [takeValue, hskip]
  split
  · next heq => exact absurd (by rw [heq]; rfl) hclose
  · rfl

theorem takeValue_emptyObject (hskip : skipSpace cs₀ = '\x7b' :: cs)
    (hclose : skipSpace cs = '\x7d' :: rest) :
    takeValue (n + 1) cs₀ = some (.object [], rest) := by
  simp only [takeValue, hskip, hclose]

theorem takeValue_object (hskip : skipSpace cs₀ = '\x7b' :: cs)
    (hclose : '\x7d' ∉ (skipSpace cs).head?) :
    takeValue (n + 1) cs₀ =
      (takeMembers n (skipSpace cs)).map fun (members, rest) => (.object members, rest) := by
  simp only [takeValue, hskip]
  split
  · next heq => exact absurd (by rw [heq]; rfl) hclose
  · rfl

/-- A minus sign or a digit starts a number. -/
theorem takeValue_number (hskip : skipSpace cs₀ = c :: cs)
    (hc : c = '-' ∨ (Decimal.digit? c).isSome = true) :
    takeValue (n + 1) cs₀ =
      (takeNumber (c :: cs)).map fun (l, rest) => (Written.number l, rest) := by
  rw [takeValue, hskip]
  split
  case h_7 => rfl
  all_goals
    next heq =>
      cases heq
      exact absurd hc (by decide)

/-- What follows an item decides how an array goes on. -/
theorem takeItems_succ {x : Written} {cs₁ : List Char} (hx : takeValue n cs₀ = some (x, cs₁))
    (hnext : skipSpace cs₁ = c :: cs) :
    takeItems (n + 1) cs₀ =
      if c = ',' then do
        let (items, rest) ← takeItems n cs
        return (x :: items, rest)
      else if c = ']' then some ([x], cs)
      else none := by
  rw [takeItems, hx, Option.bind_eq_bind, Option.bind_some]
  dsimp only
  rw [hnext]
  split
  · next heq =>
    cases heq
    rfl
  · next heq =>
    cases heq
    rfl
  · next hcomma hclose =>
    rw [if_neg fun hc => hcomma cs (by rw [hc]), if_neg fun hc => hclose cs (by rw [hc])]

/-- A member is taken: its name, from a quote to a colon, and its value. -/
inductive TakesMember (n : Nat) (cs₀ : List Char) (name : List Piece) (x : Written)
    (rest : List Char) : Prop
  | intro {cs₁ cs₂ cs₃ : List Char} (hquote : skipSpace cs₀ = '"' :: cs₁)
    (hname : takeString cs₁ = some (name, cs₂)) (hcolon : skipSpace cs₂ = ':' :: cs₃)
    (hx : takeValue n cs₃ = some (x, rest))

/-- What follows a member decides how an object goes on. -/
theorem takeMembers_succ {name : List Piece} {x : Written} {cs₁ : List Char}
    (h : TakesMember n cs₀ name x cs₁) (hnext : skipSpace cs₁ = c :: cs) :
    takeMembers (n + 1) cs₀ =
      if c = ',' then do
        let (members, rest) ← takeMembers n cs
        return ((name, x) :: members, rest)
      else if c = '\x7d' then some ([(name, x)], cs)
      else none := by
  obtain @⟨cs₂, _, cs₃, hquote, hname, hcolon, hx⟩ := h
  rw [takeMembers, hquote]
  show (takeString cs₂ >>= _) = _
  rw [hname, Option.bind_eq_bind, Option.bind_some]
  dsimp only
  rw [hcolon]
  show (takeValue n cs₃ >>= _) = _
  rw [hx, Option.bind_eq_bind, Option.bind_some]
  dsimp only
  rw [hnext]
  split
  · next heq =>
    cases heq
    rfl
  · next heq =>
    cases heq
    rfl
  · next hcomma hclose =>
    rw [if_neg fun hc => hcomma cs (by rw [hc]), if_neg fun hc => hclose cs (by rw [hc])]

end

/-- What comes after an element is no part of a number, if it is a mark or the end of the text. -/
theorem endsNumber_mark {c : Char} {cs : List Char} (hc : c ∈ [',', ']', '\x7d']) :
    EndsNumber (c :: cs) := by
  rintro c ⟨⟩
  simp only [List.mem_cons, List.not_mem_nil, or_false] at hc
  rcases hc with rfl | rfl | rfl <;> decide

theorem skipSpace_skipSpace (cs : List Char) : skipSpace (skipSpace cs) = skipSpace cs :=
  (skipSpace_of_spaceText (spaceText_skipSpace cs)).symm

theorem ElementText.head?_skipSpace {w : Written} (h : ElementText w cs rest) :
    ']' ∉ (skipSpace cs).head? := by
  obtain ⟨hbefore, hvalue, -⟩ := h
  rw [skipSpace_of_spaceText hbefore, hvalue.skipSpace_eq]
  obtain ⟨c, cs', rfl, -, hc⟩ := hvalue.exists_eq_cons
  exact fun hclose => hc (Option.some.inj hclose)

theorem ItemsText.head?_skipSpace {items : List Written} (h : ItemsText items cs rest) :
    ']' ∉ (skipSpace cs).head? := by
  cases h with
  | last h => exact h.head?_skipSpace
  | cons h => exact h.head?_skipSpace

theorem MemberText.skipSpace_eq {name : List Piece} {w : Written} (h : MemberText name w cs rest) :
    ∃ cs', skipSpace cs = '"' :: cs' := by
  obtain ⟨hbefore, -, -, -⟩ := h
  exact ⟨_, skipSpace_eq_cons hbefore rfl⟩

theorem MembersText.head?_skipSpace {members : List (List Piece × Written)}
    (h : MembersText members cs rest) : '\x7d' ∉ (skipSpace cs).head? := by
  have hquote : ∃ cs', skipSpace cs = '"' :: cs' := by
    cases h with
    | last h => exact h.skipSpace_eq
    | cons h => exact h.skipSpace_eq
  obtain ⟨cs', hcs'⟩ := hquote
  rw [hcs']
  rintro ⟨⟩

/-- There is a level for each of the first characters. -/
theorem exists_eq_succ {n : Nat} (hn : 2 * (c :: cs).length ≤ n) :
    ∃ m, n = m + 1 ∧ 2 * cs.length + 1 ≤ m := by
  refine ⟨n - 1, ?_, ?_⟩ <;> simp only [List.length_cons] at hn <;> omega

mutual

/-- A text of a value is taken for it, if no number goes on after it. -/
theorem ValueText.takeValue_eq {w : Written} {cs rest : List Char} :
    ValueText w cs rest → ∀ {n : Nat} {cs₀ : List Char}, skipSpace cs₀ = cs → EndsNumber rest →
      2 * cs.length ≤ n → takeValue n cs₀ = some (w, rest)
  | .nullWord, n, cs₀, hskip, _, hn => by
    obtain ⟨m, rfl, -⟩ := exists_eq_succ hn
    rw [takeValue, hskip]
    rfl
  | .trueWord, n, cs₀, hskip, _, hn => by
    obtain ⟨m, rfl, -⟩ := exists_eq_succ hn
    rw [takeValue, hskip]
    rfl
  | .falseWord, n, cs₀, hskip, _, hn => by
    obtain ⟨m, rfl, -⟩ := exists_eq_succ hn
    rw [takeValue, hskip]
    rfl
  | .number h, n, cs₀, hskip, hrest, hn => by
    obtain ⟨c, cs', rfl, hc⟩ := h.exists_eq_cons
    obtain ⟨m, rfl, -⟩ := exists_eq_succ hn
    rw [takeValue_number hskip hc, takeNumber_of_numberText h hrest]
    rfl
  | .string h, n, cs₀, hskip, _, hn => by
    obtain ⟨m, rfl, -⟩ := exists_eq_succ hn
    rw [takeValue_string hskip, takeString_of_stringText h]
    rfl
  | .emptyArray h, n, cs₀, hskip, _, hn => by
    obtain ⟨m, rfl, -⟩ := exists_eq_succ hn
    exact takeValue_emptyArray hskip (skipSpace_eq_cons h rfl)
  | .array h, n, cs₀, hskip, _, hn => by
    obtain ⟨m, rfl, hm⟩ := exists_eq_succ hn
    rw [takeValue_array hskip h.head?_skipSpace, h.takeItems_eq (skipSpace_skipSpace _) hm]
    rfl
  | .emptyObject h, n, cs₀, hskip, _, hn => by
    obtain ⟨m, rfl, -⟩ := exists_eq_succ hn
    exact takeValue_emptyObject hskip (skipSpace_eq_cons h rfl)
  | .object h, n, cs₀, hskip, _, hn => by
    obtain ⟨m, rfl, hm⟩ := exists_eq_succ hn
    rw [takeValue_object hskip h.head?_skipSpace, h.takeMembers_eq (skipSpace_skipSpace _) hm]
    rfl

theorem ElementText.takeValue_eq {w : Written} {cs rest : List Char} :
    ElementText w cs rest → ∀ {n : Nat} {cs₀ : List Char}, skipSpace cs₀ = skipSpace cs →
      EndsNumber rest → 2 * cs.length ≤ n →
      ∃ cs', takeValue n cs₀ = some (w, cs') ∧ SpaceText cs' rest
  | .intro hbefore h hafter, n, cs₀, hskip, hrest, hn => by
    have hlength := hbefore.isSuffix.length_le
    refine ⟨_, h.takeValue_eq ?_ (.of_spaceText hafter hrest) (by omega), hafter⟩
    rw [hskip, skipSpace_of_spaceText hbefore, h.skipSpace_eq]

/-- A text of items is taken for them. -/
theorem ItemsText.takeItems_eq {items : List Written} {cs rest : List Char} :
    ItemsText items cs rest → ∀ {n : Nat} {cs₀ : List Char}, skipSpace cs₀ = skipSpace cs →
      2 * cs.length + 1 ≤ n → takeItems n cs₀ = some (items, rest)
  | .last h, n + 1, cs₀, hskip, hn => by
    obtain ⟨cs', hx, hspace⟩ := h.takeValue_eq hskip (endsNumber_mark (by decide))
      (Nat.le_of_succ_le_succ hn)
    rw [takeItems_succ hx (skipSpace_eq_cons hspace rfl)]
    rfl
  | .cons h hitems, n + 1, cs₀, hskip, hn => by
    obtain ⟨cs', hx, hspace⟩ := h.takeValue_eq hskip (endsNumber_mark (by decide))
      (Nat.le_of_succ_le_succ hn)
    have hlength := h.isSuffix.length_le
    simp only [List.length_cons] at hlength
    rw [takeItems_succ hx (skipSpace_eq_cons hspace rfl), if_pos rfl,
      hitems.takeItems_eq rfl (by omega)]
    rfl

theorem MemberText.takesMember {name : List Piece} {x : Written} {cs rest : List Char} :
    MemberText name x cs rest → ∀ {n : Nat} {cs₀ : List Char}, skipSpace cs₀ = skipSpace cs →
      EndsNumber rest → 2 * cs.length ≤ n →
      ∃ cs', TakesMember n cs₀ name x cs' ∧ SpaceText cs' rest
  | .intro hbefore hname hafter h, n, cs₀, hskip, hrest, hn => by
    have hend := (List.suffix_cons _ _).trans
      (hafter.isSuffix.trans (hname.isSuffix.trans ((List.suffix_cons _ _).trans hbefore.isSuffix)))
    obtain ⟨cs', hx, hspace⟩ := h.takeValue_eq rfl hrest
      (Nat.le_trans (Nat.mul_le_mul_left 2 hend.length_le) hn)
    exact ⟨cs', .intro (hskip.trans (skipSpace_eq_cons hbefore rfl))
      (takeString_of_stringText hname) (skipSpace_eq_cons hafter rfl) hx, hspace⟩

/-- A text of members is taken for them. -/
theorem MembersText.takeMembers_eq {members : List (List Piece × Written)} {cs rest : List Char} :
    MembersText members cs rest → ∀ {n : Nat} {cs₀ : List Char}, skipSpace cs₀ = skipSpace cs →
      2 * cs.length + 1 ≤ n → takeMembers n cs₀ = some (members, rest)
  | .last h, n + 1, cs₀, hskip, hn => by
    obtain ⟨cs', hmember, hspace⟩ := h.takesMember hskip (endsNumber_mark (by decide))
      (Nat.le_of_succ_le_succ hn)
    rw [takeMembers_succ hmember (skipSpace_eq_cons hspace rfl)]
    rfl
  | .cons h hmembers, n + 1, cs₀, hskip, hn => by
    obtain ⟨cs', hmember, hspace⟩ := h.takesMember hskip (endsNumber_mark (by decide))
      (Nat.le_of_succ_le_succ hn)
    have hlength := h.isSuffix.length_le
    simp only [List.length_cons] at hlength
    rw [takeMembers_succ hmember (skipSpace_eq_cons hspace rfl), if_pos rfl,
      hmembers.takeMembers_eq rfl (by omega)]
    rfl

end

/-- What is read is what the grammar says: a text is taken apart as one element, or not at all. -/
theorem Written.read?_eq_some_iff {w : Written} :
    Written.read? cs = some w ↔ ElementText w cs [] := by
  rw [Written.read?]
  constructor
  · intro h
    obtain ⟨⟨x, rest⟩, hx, h⟩ := Option.bind_eq_some_iff.1 h
    dsimp only at h
    split at h
    · next hnil =>
      cases h
      have hspace := spaceText_skipSpace rest
      rw [List.isEmpty_iff.1 hnil] at hspace
      exact .intro (spaceText_skipSpace cs) (valueText_of_takeValue _ hx) hspace
    · cases h
  · intro h
    obtain ⟨cs', hx, hspace⟩ := h.takeValue_eq rfl (fun _ h => nomatch h)
      (Nat.le_add_right (2 * cs.length) 2)
    rw [hx, Option.bind_eq_bind, Option.bind_some]
    dsimp only
    rw [skipSpace_of_spaceText hspace]
    rfl

end Dataflow.Json
