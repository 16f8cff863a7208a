import Dataflow.Json.Printer
import Dataflow.Json.Reader
import Dataflow.Proofs.Json.Reader
import Dataflow.Proofs.OrderedMap

/-!
# Data there and back

The compact text of data without floats is read back as that data, if its integers fit 64 bits,
its objects do not repeat names (`Json.Plain.readDeep?_text`) and it is not nested too deeply
(`Json.Plain.read?_text`).
-/

namespace Dataflow.Json

open Written

/-! ## Depth -/

mutual

/-- How deep arrays and objects are nested. -/
def depth : Json → Nat
  | array items => depthItems items + 1
  | object members => depthMembers members + 1
  | _ => 0

/-- The greatest depth of the items. -/
def depthItems : List Json → Nat
  | [] => 0
  | x :: xs => max x.depth (depthItems xs)

/-- The greatest depth of the members. -/
def depthMembers : List (String × Json) → Nat
  | [] => 0
  | (_, x) :: ms => max x.depth (depthMembers ms)

end

/-- Data without floats: integers fit 64 bits, with a sign or without, and no name is repeated in an
    object. -/
inductive Plain : Json → Prop
  | null : Plain null
  | bool (b : Bool) : Plain (bool b)
  | int {n : Int} (hlow : -powTwo 63 ≤ n) (hhigh : n < powTwo 64) : Plain (number (.int n))
  | string (s : String) : Plain (string s)
  | array {items : List Json} (h : ∀ x ∈ items, Plain x) : Plain (array items)
  | object {members : List (String × Json)} (hnames : (members.map Prod.fst).Nodup)
    (h : ∀ m ∈ members, Plain m.2) : Plain (object members)

/-! ## Integers -/

/-- An integer as it is written. -/
def Literal.ofInt : Int → Literal
  | .ofNat n => ⟨false, Decimal.digits n, none, none⟩
  | .negSucc n => ⟨true, Decimal.digits (n + 1), none, none⟩

theorem digits_eq_zero {n : Nat} (h : (Decimal.digits n).head? = some 0) :
    Decimal.digits n = [0] := by
  fun_induction Decimal.digits n with
  | case1 n hn =>
    cases h
    rfl
  | case2 n hn ih =>
    rw [List.head?_append_of_ne_nil _ (Decimal.digits_ne_nil _)] at h
    have hzero := Decimal.value_digits (n / 10)
    rw [ih h] at hzero
    have hvalue : Decimal.value [0] = 0 := rfl
    omega

theorem wholeText_natText (n : Nat) (rest : List Char) :
    WholeText (Decimal.digits n) (Decimal.natText n ++ rest) rest where
  lt_ten := Decimal.digits_lt_ten n
  eq_append := rfl
  ne_nil := Decimal.digits_ne_nil n
  eq_zero := digits_eq_zero

theorem numberText_intText (n : Int) (rest : List Char) :
    NumberText (.ofInt n) (Decimal.intText n ++ rest) rest := by
  cases n with
  | ofNat n => exact .positive (.intro (wholeText_natText n rest) .absent .absent)
  | negSucc n => exact .negative (.intro (wholeText_natText (n + 1) rest) .absent .absent)

theorem le_foldl_digits (ds : List Nat) (n : Nat) :
    n ≤ ds.foldl (fun n d => 10 * n + d) n := by
  induction ds generalizing n with
  | nil => exact Nat.le_refl n
  | cons d ds ih => exact Nat.le_trans (by omega) (ih (10 * n + d))

/-- Digits fit a word if the number that they stand for does. -/
theorem fitDigits_of_lt {ds : List Nat} {word : Nat}
    (h : ds.foldl (fun n d => 10 * n + d) word < powTwo 64) :
    fitDigits word ds = (ds.foldl (fun n d => 10 * n + d) word, []) := by
  induction ds generalizing word with
  | nil => rfl
  | cons d ds ih =>
    rw [fitDigits, if_pos (Nat.lt_of_le_of_lt (le_foldl_digits ds _) h)]
    exact ih h

theorem fitDigits_digits {n : Nat} (h : n < powTwo 64) :
    fitDigits 0 (Decimal.digits n) = (n, []) := by
  have hvalue : (Decimal.digits n).foldl (fun n d => 10 * n + d) 0 = n := Decimal.value_digits n
  rw [fitDigits_of_lt (by rwa [hvalue]), hvalue]

/-- An integer literal that fits stands for its integer. -/
theorem number?_ofInt {n : Int} (hlow : -powTwo 63 ≤ n) (hhigh : n < powTwo 64) :
    (Literal.ofInt n).number? = some (.int n) := by
  cases n with
  | ofNat n =>
    have hn : n < powTwo 64 := Int.ofNat_lt.1 hhigh
    rw [Literal.ofInt.eq_def, Literal.number?]
    dsimp only
    rw [fitDigits_digits hn]
    rfl
  | negSucc n =>
    have hn : n + 1 ≤ powTwo 63 := by omega
    have hfits : n + 1 < powTwo 64 := Nat.lt_of_le_of_lt hn (by decide)
    have hword : ¬(n + 1 = 0 ∨ powTwo 63 < n + 1) :=
      not_or.2 ⟨Nat.succ_ne_zero n, Nat.not_lt.2 hn⟩
    rw [Literal.ofInt.eq_def, Literal.number?]
    dsimp only
    rw [fitDigits_digits hfits]
    dsimp only
    rw [if_neg hword]
    rfl

/-! ## Strings -/

/-- How a character is written in a string. -/
def Piece.ofChar (c : Char) : Piece :=
  if c.toNat < 0x20 ∧ c ∉ escapes.map Prod.snd then .unit c.toNat else .char c

theorem decodePieces_unit {u : Nat} (hu : ¬(0xD800 ≤ u ∧ u < 0xE000)) (pieces : List Piece) :
    decodePieces (.unit u :: pieces) = (decodePieces pieces).map (Char.ofNat u :: ·) := by
  have hhigh : ¬(0xD800 ≤ u ∧ u < 0xDC00) := by omega
  have hlow : ¬(0xDC00 ≤ u ∧ u < 0xE000) := by omega
  rcases pieces with - | ⟨c | low, rest⟩
  · exact if_neg hu
  · conv_lhs => rw [decodePieces.eq_def]
    exact if_neg hu
  · conv_lhs => rw [decodePieces.eq_def]
    dsimp only
    rw [if_neg hhigh, if_neg hlow]

theorem decodePieces_ofChar (c : Char) (pieces : List Piece) :
    decodePieces (.ofChar c :: pieces) = (decodePieces pieces).map (c :: ·) := by
  rw [Piece.ofChar]
  split
  · next hc =>
    rw [decodePieces_unit (by omega), Char.ofNat_toNat]
  · rw [decodePieces]

/-- A character is written as the printer does. -/
theorem stringText_escapeChar (c : Char) {pieces : List Piece} {cs rest : List Char}
    (h : StringText pieces cs rest) :
    StringText (.ofChar c :: pieces) (escapeChar c ++ cs) rest := by
  rw [escapeChar.eq_def]
  split
  case h_8 _ hquote hbackslash hnewline hreturn htabulator hbackspace hfeed =>
    by_cases hc : c.toNat < 0x20
    · have hescape : c ∉ escapes.map Prod.snd := by
        intro hmem
        simp only [escapes, List.map_cons, List.map_nil, List.mem_cons, List.not_mem_nil,
          or_false] at hmem
        rcases hmem with rfl | rfl | rfl | rfl | rfl | rfl | rfl | rfl <;> contradiction
      have hzero : HexDigit 0 '0' := by decide
      have htext : StringText
          (.unit (((0 * 16 + 0) * 16 + c.toNat / 16) * 16 + c.toNat % 16) :: pieces)
          ('\\' :: 'u' :: '0' :: '0' :: (c.toNat / 16).digitChar :: (c.toNat % 16).digitChar :: cs)
          rest :=
        .unit hzero hzero ⟨by omega, .inl rfl⟩ ⟨by omega, .inl rfl⟩ h
      have hunit : ((0 * 16 + 0) * 16 + c.toNat / 16) * 16 + c.toNat % 16 = c.toNat := by omega
      rw [Piece.ofChar, if_pos ⟨hc, hescape⟩, if_pos hc]
      rwa [hunit] at htext
    · rw [Piece.ofChar, if_neg (fun h => hc h.1), if_neg hc]
      exact .plain (Nat.le_of_not_lt hc) hquote hbackslash h
  all_goals exact .escape (by decide) h

theorem stringText_flatMap (s rest : List Char) :
    StringText (s.map .ofChar) (s.flatMap escapeChar ++ '"' :: rest) rest := by
  induction s with
  | nil => exact .close
  | cons c s ih =>
    rw [List.map_cons, List.flatMap_cons, List.append_assoc]
    exact stringText_escapeChar c ih

theorem decodePieces_map_ofChar (s : List Char) : decodePieces (s.map .ofChar) = some s := by
  induction s with
  | nil => rfl
  | cons c s ih =>
    rw [List.map_cons, decodePieces_ofChar, ih]
    rfl

/-- A string as it is written. -/
def writtenString (s : String) : List Piece := s.toList.map .ofChar

theorem stringText_append (s : String) (rest : List Char) :
    ∃ cs, stringText s.toList ++ rest = '"' :: cs ∧ StringText (writtenString s) cs rest := by
  refine ⟨_, ?_, stringText_flatMap s.toList rest⟩
  simp only [stringText, List.cons_append, List.append_assoc, List.nil_append]

theorem pieces?_writtenString (s : String) : pieces? (writtenString s) = some s := by
  rw [pieces?, writtenString, decodePieces_map_ofChar]
  exact congrArg some String.ofList_toList

/-! ## Values -/

/-- The compact text of a value is a text of `w`, and stands for the value. -/
structure WrittenAs (v : Json) (w : Written) : Prop where
  text : ∀ rest, ValueText w (v.compact ++ rest) rest
  value : w.value? = some v
  depth : w.depth = v.depth

/-- A member keeps its name. -/
def MemberWrittenAs (m : String × Json) (p : List Piece × Written) : Prop :=
  p.1 = writtenString m.1 ∧ m.2.WrittenAs p.2

/-- A list is written if everything in it is. -/
theorem exists_forall₂ {α β : Type} {R : α → β → Prop} {l : List α} (h : ∀ a ∈ l, ∃ b, R a b) :
    ∃ l', List.Forall₂ R l l' := by
  induction l with
  | nil => exact ⟨[], .nil⟩
  | cons a l ih =>
    obtain ⟨b, hb⟩ := h a List.mem_cons_self
    obtain ⟨l', hl'⟩ := ih fun a' ha' => h a' (List.mem_cons_of_mem a ha')
    exact ⟨b :: l', .cons hb hl'⟩

variable {v : Json} {w : Written}

theorem WrittenAs.element (h : v.WrittenAs w) (rest : List Char) :
    ElementText w (v.compact ++ rest) rest :=
  .intro .nil (h.text rest) .nil

theorem memberText_append {m : String × Json} {p : List Piece × Written}
    (h : MemberWrittenAs m p) (rest : List Char) :
    MemberText p.1 p.2 (stringText m.1.toList ++ ':' :: (m.2.compact ++ rest)) rest := by
  obtain ⟨hname, hx⟩ := h
  obtain ⟨cs, hcs, htext⟩ := stringText_append m.1 (':' :: (m.2.compact ++ rest))
  rw [hcs, hname]
  exact .intro .nil htext .nil (hx.element rest)

section

variable {items : List Json} {ws : List Written} (h : List.Forall₂ WrittenAs items ws)

include h

theorem itemsText_compactItems (hne : items ≠ []) (rest : List Char) :
    ItemsText ws (compactItems items ++ ']' :: rest) rest := by
  induction h with
  | nil => exact absurd rfl hne
  | @cons x w items ws hx hitems ih =>
    cases hitems with
    | nil => exact .last (hx.element _)
    | cons =>
      rw [compactItems, List.append_assoc]
      exact .cons (hx.element _) (ih (List.cons_ne_nil _ _))

theorem valueItems?_eq : valueItems? ws = some items := by
  induction h with
  | nil => rfl
  | cons hx _ ih =>
    rw [valueItems?, hx.value, ih]
    rfl

theorem depthItems_eq : Written.depthItems ws = depthItems items := by
  induction h with
  | nil => rfl
  | cons hx _ ih => rw [Written.depthItems, depthItems, hx.depth, ih]

theorem writtenAs_array : (array items).WrittenAs (.array ws) where
  text rest := by
    rw [compact, List.append_assoc, List.cons_append]
    by_cases hne : items = []
    · subst hne
      cases h
      exact .emptyArray .nil
    · exact .array (itemsText_compactItems h hne rest)
  value := by
    rw [value?, valueItems?_eq h]
    rfl
  depth := by rw [Written.depth, depth, depthItems_eq h]

end

section

variable {members : List (String × Json)} {ws : List (List Piece × Written)}
  (h : List.Forall₂ MemberWrittenAs members ws)

include h

theorem membersText_compactMembers (hne : members ≠ []) (rest : List Char) :
    MembersText ws (compactMembers members ++ '\x7d' :: rest) rest := by
  induction h with
  | nil => exact absurd rfl hne
  | @cons m p members ws hm hmembers ih =>
    cases hmembers with
    | nil =>
      rw [compactMembers, List.append_assoc, List.cons_append]
      exact .last (memberText_append hm _)
    | cons =>
      rw [compactMembers, List.append_assoc, List.append_assoc, List.cons_append]
      exact .cons (memberText_append hm _) (ih (List.cons_ne_nil _ _))

theorem valueMembers?_eq : valueMembers? ws = some members := by
  induction h with
  | nil => rfl
  | cons hm _ ih =>
    obtain ⟨hname, hx⟩ := hm
    rw [valueMembers?, hname, pieces?_writtenString, hx.value, ih]
    rfl

theorem depthMembers_eq : Written.depthMembers ws = depthMembers members := by
  induction h with
  | nil => rfl
  | cons hm _ ih => rw [Written.depthMembers, depthMembers, hm.2.depth, ih]

theorem writtenAs_object (hnames : (members.map Prod.fst).Nodup) :
    (object members).WrittenAs (.object ws) where
  text rest := by
    rw [compact, List.append_assoc, List.cons_append]
    by_cases hne : members = []
    · subst hne
      cases h
      exact .emptyObject .nil
    · exact .object (membersText_compactMembers h hne rest)
  value := by
    rw [value?, valueMembers?_eq h]
    exact congrArg (fun pairs => some (object pairs)) (OrderedMap.entries_ofList hnames)
  depth := by rw [Written.depth, depth, depthMembers_eq h]

end

/-- Data without floats is written in full. -/
theorem Plain.exists_writtenAs (h : v.Plain) : ∃ w, v.WrittenAs w := by
  induction h with
  | null => exact ⟨.null, fun _ => .nullWord, rfl, rfl⟩
  | bool b =>
    refine ⟨.bool b, fun rest => ?_, rfl, rfl⟩
    cases b with
    | true => exact .trueWord
    | false => exact .falseWord
  | @int n hlow hhigh =>
    refine ⟨.number (.ofInt n), fun rest => .number (numberText_intText n rest), ?_, rfl⟩
    rw [value?, number?_ofInt hlow hhigh]
    rfl
  | string s =>
    refine ⟨.string (writtenString s), fun rest => ?_, ?_, rfl⟩
    · obtain ⟨cs, hcs, htext⟩ := stringText_append s rest
      rw [compact, hcs]
      exact .string htext
    · rw [value?, pieces?_writtenString]
      rfl
  | array _ ih =>
    obtain ⟨ws, hws⟩ := exists_forall₂ ih
    exact ⟨_, writtenAs_array hws⟩
  | @object members hnames _ ih =>
    have hmembers : ∀ m ∈ members, ∃ p, MemberWrittenAs m p := by
      intro m hm
      obtain ⟨w, hw⟩ := ih m hm
      exact ⟨(writtenString m.1, w), rfl, hw⟩
    obtain ⟨ws, hws⟩ := exists_forall₂ hmembers
    exact ⟨_, writtenAs_object hws hnames⟩

/-- The compact text of data without floats is taken apart as it is written. -/
theorem Plain.exists_read (h : v.Plain) :
    ∃ w, Written.read? v.text.toList = some w ∧ v.WrittenAs w := by
  obtain ⟨w, hw⟩ := h.exists_writtenAs
  have helement := hw.element []
  rw [List.append_nil] at helement
  refine ⟨w, ?_, hw⟩
  rw [text, String.toList_ofList]
  exact read?_eq_some_iff.2 helement

/-- The compact text of data without floats is read back as that data, however deeply it is
    nested. -/
theorem Plain.readDeep?_text (h : v.Plain) : readDeep? v.text = some v := by
  obtain ⟨w, hread, hw⟩ := h.exists_read
  rw [readDeep?, hread]
  exact hw.value

/-- The limit of the depth is all that the two ways to read a text differ in. -/
theorem read?_of_read {s : String} (hread : Written.read? s.toList = some w) :
    read? s = if w.depth < 128 then readDeep? s else none := by
  rw [read?, readDeep?, hread]
  rfl

/-- The compact text of data without floats is read back as that data. -/
theorem Plain.read?_text (h : v.Plain) (hdepth : v.depth < 128) : read? v.text = some v := by
  obtain ⟨w, hread, hw⟩ := h.exists_read
  rw [read?_of_read hread, hw.depth, if_pos hdepth, h.readDeep?_text]

end Dataflow.Json
