import Mathlib.Data.List.TakeWhile
import Dataflow.CommandLine.Input
import Dataflow.Value
import Dataflow.Proofs.Json.RoundTrip

/-!
# Inputs that carry data

An input on the command line is cut at its first equals sign, so that a name without one is kept
whatever the value holds (`CommandLine.readInput_append`). Of the value it depends on the grammar
alone whether it is read as JSON or kept as it stands.
-/

namespace Dataflow

/-- Nothing is trimmed from a text that has no blanks at its ends. -/
theorem Text.trimChars_eq_self {cs : List Char} (hhead : ∀ c ∈ cs.head?, isBlank c = false)
    (hlast : ∀ c ∈ cs.getLast?, isBlank c = false) : trimChars cs = cs := by
  have hkept {cs : List Char} (h : ∀ c ∈ cs.head?, isBlank c = false) :
      cs.dropWhile isBlank = cs := by
    rcases cs with - | ⟨c, cs⟩
    · rfl
    · rw [List.dropWhile_cons, h c rfl]
      rfl
  rw [trimChars, hkept hhead, hkept (by rwa [List.head?_reverse]), List.reverse_reverse]

namespace CommandLine

/-- A name that an input keeps: it is not empty, has no equals sign in it and no blanks at its
    ends. -/
structure IsName (name : String) : Prop where
  ne_nil : name.toList ≠ []
  not_mem : '=' ∉ name.toList
  head : ∀ c ∈ name.toList.head?, Text.isBlank c = false
  last : ∀ c ∈ name.toList.getLast?, Text.isBlank c = false

theorem splitAtEquals_append {name : List Char} (h : '=' ∉ name) (value : List Char) :
    splitAtEquals (name ++ '=' :: value) = (name, some value) := by
  have hname : ∀ c ∈ name, decide (c ≠ '=') = true := by
    intro c hc
    rw [decide_eq_true_iff]
    rintro rfl
    exact h hc
  rw [splitAtEquals, List.dropWhile_append_of_pos hname, List.takeWhile_append_of_pos hname]
  simp

/-- The name is kept, and the value is JSON or else, as it stands, a string. -/
theorem readInput_append {name : String} (h : IsName name) (t : String) :
    readInput (name ++ "=" ++ t) = .ok (name, (Json.read? t).getD (.string t)) := by
  have hchars : (name ++ "=" ++ t).toList = name.toList ++ '=' :: t.toList := by
    rw [String.toList_append, String.toList_append, List.append_assoc]
    rfl
  rw [readInput, hchars, splitAtEquals_append h.not_mem]
  dsimp only
  rw [Text.trimChars_eq_self h.head h.last,
    if_neg (fun hnil => h.ne_nil (List.isEmpty_iff.1 hnil)), String.ofList_toList,
    String.ofList_toList]

theorem splitAtEquals_of_not_mem {cs : List Char} (h : '=' ∉ cs) :
    splitAtEquals cs = (cs, none) := by
  have hnil : cs.dropWhile (· ≠ '=') = [] := by
    refine List.dropWhile_eq_nil_iff.2 fun c hc => decide_eq_true_iff.2 ?_
    rintro rfl
    exact h hc
  rw [splitAtEquals, hnil]

theorem splitAtEquals_of_mem {cs : List Char} (h : '=' ∈ cs) :
    ∃ value, splitAtEquals cs = (cs.takeWhile (· ≠ '='), some value) := by
  rcases hdrop : cs.dropWhile (· ≠ '=') with - | ⟨c, value⟩
  · have hne := List.dropWhile_eq_nil_iff.1 hdrop '=' h
    exact absurd rfl (decide_eq_true_iff.1 hne)
  · exact ⟨value, by rw [splitAtEquals, hdrop]⟩

/-- An input is refused if it has no equals sign or nothing but blanks before the first one. -/
theorem exists_readInput_eq_error_iff {s : String} :
    (∃ e, readInput s = .error e) ↔
      '=' ∉ s.toList ∨ ∀ c ∈ s.toList.takeWhile (· ≠ '='), Text.isBlank c = true := by
  by_cases hmem : '=' ∈ s.toList
  · obtain ⟨value, hsplit⟩ := splitAtEquals_of_mem hmem
    rw [← Text.trimChars_eq_nil_iff, ← List.isEmpty_iff, readInput, hsplit]
    dsimp only
    split
    · next hempty => exact ⟨fun _ => .inr hempty, fun _ => ⟨_, rfl⟩⟩
    · next hempty =>
      refine ⟨fun ⟨_, h⟩ => ?_, fun h => ?_⟩
      · cases h
      · exact absurd (h.resolve_left (not_not_intro hmem)) hempty
  · rw [readInput, splitAtEquals_of_not_mem hmem]
    exact ⟨fun _ => .inl hmem, fun _ => ⟨_, rfl⟩⟩

end CommandLine

open CommandLine in
/-- Inputs on the command line carry data faithfully. Under a name that an input keeps, data without
    floats, nested to less than 128 levels, comes back from its compact text as it was, and a text
    that is no JSON text is kept as it stands. A JSON text has its value if it stands for one and is
    nested to less than 128 levels, and is kept as it stands otherwise. An input is refused exactly
    if it has no equals sign or nothing but blanks before the first one. -/
theorem inputs_carry_data :
    (∀ (name : String) (v : Json), IsName name → v.Plain → v.depth < 128 →
      readInput (name ++ "=" ++ (Value.json v).text) = .ok (name, v)) ∧
    (∀ name t : String, IsName name → ¬Json.IsText t.toList →
      readInput (name ++ "=" ++ t) = .ok (name, .string t)) ∧
    (∀ (name t : String) (w : Json.Written), IsName name → Json.ElementText w t.toList [] →
      readInput (name ++ "=" ++ t) =
        .ok (name, if w.depth < 128 then w.value?.getD (.string t) else .string t)) ∧
    ∀ s : String, (∃ e, readInput s = .error e) ↔
      '=' ∉ s.toList ∨ ∀ c ∈ s.toList.takeWhile (· ≠ '='), Text.isBlank c = true := by
  refine ⟨fun name v hname hv hdepth => ?_, fun name t hname ht => ?_,
    fun name t w hname hw => ?_, fun s => exists_readInput_eq_error_iff⟩
  · rw [readInput_append hname, Value.text, hv.read?_text hdepth]
    rfl
  · have hread : Json.read? t = none := by
      rw [Json.read?]
      rcases hw : Json.Written.read? t.toList with - | w
      · rfl
      · exact absurd ⟨w, Json.Written.read?_eq_some_iff.1 hw⟩ ht
    rw [readInput_append hname, hread]
    rfl
  · rw [readInput_append hname, Json.read?, Json.Written.read?_eq_some_iff.2 hw]
    show Except.ok (name, (if w.depth < 128 then w.value? else none).getD (.string t)) = _
    split <;> rfl

namespace CommandLine

theorem isName_data : IsName "data" where
  ne_nil := by decide
  not_mem := by decide
  head := by
    rintro c ⟨⟩
    rfl
  last := by
    rintro c ⟨⟩
    rfl

/-- Nested data with the extreme integers, an equals sign in a name and a character to escape. -/
def extremes : Json :=
  .object [("b=", .array [.number (.int (-9223372036854775808)),
    .number (.int 18446744073709551615)]), ("a", .string "\"\x01")]

theorem plain_extremes : extremes.Plain := by
  refine .object (by decide) fun m hm => ?_
  rcases List.mem_cons.1 hm with rfl | hm
  · refine .array fun x hx => ?_
    rcases List.mem_cons.1 hx with rfl | hx
    · exact .int (by decide) (by decide)
    · rw [List.mem_singleton.1 hx]
      exact .int (by decide) (by decide)
  · rw [List.mem_singleton.1 hm]
    exact .string _

end CommandLine

open CommandLine in
/-- Data comes back with its members in order; words with an equals sign and space around them are
    kept, and so is a string whose only code unit is one of a pair, which is a JSON text. An input
    without a name is refused. -/
theorem inputs_carry_data_extremes :
    readInput ("data" ++ "=" ++ (Value.json extremes).text) = .ok ("data", extremes) ∧
      readInput ("data" ++ "=" ++ " a=b ") = .ok ("data", .string " a=b ") ∧
      readInput ("data" ++ "=" ++ "\"\\ud800\"") = .ok ("data", .string "\"\\ud800\"") ∧
      ∃ e, readInput " =1" = .error e := by
  obtain ⟨hdata, hstring, htext, hrefused⟩ := inputs_carry_data
  refine ⟨hdata "data" extremes isName_data plain_extremes (by decide), ?_, ?_, ?_⟩
  · refine hstring "data" " a=b " isName_data ?_
    rintro ⟨w, hw⟩
    have hread : Json.Written.read? " a=b ".toList = none := rfl
    rw [Json.Written.read?_eq_some_iff.2 hw] at hread
    cases hread
  · exact htext "data" _ (.string [.unit 0xD800]) isName_data
      (Json.Written.read?_eq_some_iff.1 rfl)
  · refine (hrefused " =1").2 (.inr fun c hc => ?_)
    rw [List.mem_singleton.1 hc]
    rfl

end Dataflow
