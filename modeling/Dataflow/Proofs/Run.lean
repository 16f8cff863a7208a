import Dataflow.Run

/-!
# Chains of runs

What a chain of runs ends with and what it logs, in terms of its two parts, and the
relations between runs that chaining respects: to relate two long computations that are
put together in the same way, it is enough to relate their parts.

* `Run.result_bind` and `Run.mem_events_bind`: the result and the events of a chain.
* `Run.IsCongruence`: a relation that chaining respects, such as having the same result
  (`Run.isCongruence_result`).
* `Run.AgreesUnless`: a run that may only differ from another one if that fails in some way.
* `Run.SameUpTo`: a run that may only differ from another one in the error that ends both.
-/

namespace Dataflow

section

variable {ε δ α β : Type}

theorem Except.bind_eq_ok {x : Except ε α} {f : α → Except ε β} {b : β} :
    x >>= f = .ok b ↔ ∃ a, x = .ok a ∧ f a = .ok b := by
  cases x <;> simp [bind, Except.bind]

theorem Except.bind_eq_error {x : Except ε α} {f : α → Except ε β} {e : ε} :
    x >>= f = .error e ↔ x = .error e ∨ ∃ a, x = .ok a ∧ f a = .error e := by
  cases x <;> simp [bind, Except.bind]

/-- What fails with its fault and succeeds if it has none fails with nothing else. -/
theorem Except.eq_error_iff_of_fault {x : Except ε α} {Fault : ε → Prop} {e : ε}
    (hcases : (∃ a, x = .ok a) ∨ ∃ e, Fault e) (hfault : ∀ e, Fault e → x = .error e) :
    x = .error e ↔ Fault e := by
  refine ⟨fun h => ?_, hfault e⟩
  rcases hcases with ⟨a, ha⟩ | ⟨e', he'⟩
  · rw [ha] at h
    cases h
  · rw [hfault e' he'] at h
    exact Except.error.inj h ▸ he'

theorem Except.pure_eq_ok {a b : α} : (pure a : Except ε α) = .ok b ↔ a = b := by
  simp [pure, Except.pure]

theorem Except.toOption_bind (x : Except ε α) (f : α → Except ε β) :
    (x >>= f).toOption = x.toOption.bind fun a => (f a).toOption := by
  cases x <;> rfl

theorem Except.toOption_eq_some_iff {x : Except ε α} {a : α} :
    x.toOption = some a ↔ x = .ok a := by
  cases x <;> simp [Except.toOption]

theorem Except.mapError_bind (f : ε → δ) (x : Except ε α) (g : α → Except ε β) :
    (x >>= g).mapError f = x.mapError f >>= fun a => (g a).mapError f := by
  cases x <;> rfl

@[simp] theorem Except.mapError_ok (f : ε → δ) (a : α) :
    (.ok a : Except ε α).mapError f = .ok a := rfl

@[simp] theorem Except.mapError_error (f : ε → δ) (e : ε) :
    (.error e : Except ε α).mapError f = .error (f e) := rfl

theorem Except.mapError_eq_ok {f : ε → δ} {x : Except ε α} {a : α} :
    x.mapError f = .ok a ↔ x = .ok a := by
  cases x <;> simp

theorem Except.mapM_eq_ok {f : α → Except ε β} {g : α → β} {l : List α}
    (h : ∀ a ∈ l, f a = .ok (g a)) : l.mapM f = .ok (l.map g) := by
  induction l with
  | nil => rfl
  | cons a rest ih =>
    rw [List.mapM_cons, h a List.mem_cons_self, ih fun b hb => h b (List.mem_cons_of_mem _ hb)]
    rfl

theorem Except.map_toOption_of_mapM {f : α → Except ε β} {l : List α} {l' : List β}
    (h : l.mapM f = .ok l') : l.map (fun a => (f a).toOption) = l'.map some := by
  induction l generalizing l' with
  | nil =>
    rw [List.mapM_nil, Except.pure_eq_ok] at h
    exact h ▸ rfl
  | cons a rest ih =>
    simp only [List.mapM_cons, Except.bind_eq_ok, Except.pure_eq_ok] at h
    obtain ⟨b, hb, bs, hbs, rfl⟩ := h
    rw [List.map_cons, List.map_cons, ih hbs, hb]
    rfl

/-- What is done to each element fails as it does at the first element where it fails. -/
theorem Except.mapM_eq_error_iff {f : α → Except ε β} {l : List α} {e : ε} :
    l.mapM f = .error e ↔
      ∃ before a after, l = before ++ a :: after ∧ (∀ a ∈ before, ∃ b, f a = .ok b) ∧
        f a = .error e := by
  induction l with
  | nil => simp [pure, Except.pure]
  | cons first rest ih =>
    rw [List.mapM_cons, Except.bind_eq_error]
    constructor
    · rintro (h | ⟨b, hb, h⟩)
      · exact ⟨[], first, rest, rfl, by simp, h⟩
      · rcases Except.bind_eq_error.1 h with h | ⟨_, -, h⟩
        · obtain ⟨before, a, after, rfl, hbefore, ha⟩ := ih.1 h
          exact ⟨first :: before, a, after, rfl, List.forall_mem_cons.2 ⟨⟨b, hb⟩, hbefore⟩, ha⟩
        · cases h
    · rintro ⟨before, a, after, heq, hbefore, ha⟩
      rcases List.cons_eq_append_iff.1 heq with ⟨rfl, hfirst⟩ | ⟨later, rfl, hrest⟩
      · obtain ⟨rfl, rfl⟩ := List.cons.inj hfirst
        exact .inl ha
      · obtain ⟨⟨b, hb⟩, hlater⟩ := List.forall_mem_cons.1 hbefore
        exact .inr ⟨b, hb, by rw [ih.2 ⟨later, a, after, hrest, hlater, ha⟩]; rfl⟩

theorem Except.length_of_mapM {f : α → Except ε β} {l : List α} {l' : List β}
    (h : l.mapM f = .ok l') : l'.length = l.length := by
  simpa using (congrArg List.length (Except.map_toOption_of_mapM h)).symm

theorem Except.exists_of_mem_mapM {f : α → Except ε β} {l : List α} {l' : List β} {b : β}
    (h : l.mapM f = .ok l') (hb : b ∈ l') : ∃ a ∈ l, f a = .ok b := by
  have hsome : some b ∈ l.map fun a => (f a).toOption :=
    Except.map_toOption_of_mapM h ▸ List.mem_map_of_mem hb
  obtain ⟨a, ha, hfa⟩ := List.mem_map.1 hsome
  cases hx : f a with
  | error e => rw [hx] at hfa; cases hfa
  | ok b' => rw [hx] at hfa; exact ⟨a, ha, Option.some.inj hfa ▸ hx⟩

end

namespace Run

variable {ε δ α β : Type}

@[simp] theorem result_pure (a : α) : (pure a : Run ε α).result = .ok a := rfl

@[simp] theorem result_log (e : Event) : (log e : Run ε Unit).result = .ok () := rfl

@[simp] theorem result_bind (x : Run ε α) (f : α → Run ε β) :
    (x >>= f).result = x.result >>= fun a => (f a).result := by
  rw [bind_eq]
  cases hx : x.result with
  | ok a => rw [bind_of_ok hx]; rfl
  | error e => rw [bind_of_error hx]; rfl

/-- A chain logs what its first part logs, then what its second part logs if it starts. -/
theorem mem_events_bind {x : Run ε α} {f : α → Run ε β} {e : Event} :
    e ∈ (x >>= f).events ↔ e ∈ x.events ∨ ∃ a, x.result = .ok a ∧ e ∈ (f a).events := by
  rw [bind_eq]
  cases hx : x.result with
  | ok a => simp [bind_of_ok hx]
  | error e' => simp [bind_of_error hx]

/-- Chains that begin in the same way are the same if they go on in the same way. -/
theorem bind_congr_of_ok {x : Run ε α} {f g : α → Run ε β}
    (h : ∀ a, x.result = .ok a → f a = g a) : x >>= f = x >>= g := by
  rw [bind_eq, bind_eq]
  cases hx : x.result with
  | error e => rw [bind_of_error hx, bind_of_error hx]
  | ok a => rw [bind_of_ok hx, bind_of_ok hx, h a hx]

/-- A relation between runs that holds of every run that logs nothing and itself, and that
    chaining respects. -/
structure IsCongruence (R : (α : Type) → Run ε α → Run ε α → Prop) : Prop where
  refl : ∀ {α : Type} {x : Run ε α}, x.events = [] → R α x x
  bind : ∀ {α β : Type} {x y : Run ε α} {f g : α → Run ε β},
    R α x y → (∀ a, R β (f a) (g a)) → R β (x >>= f) (y >>= g)

/-- Having the same result is respected by chaining. -/
theorem isCongruence_result :
    IsCongruence fun (α : Type) (x y : Run ε α) => x.result = y.result where
  refl _ := rfl
  bind hx hf := by simp only [result_bind, hx, hf]

/-- Logging nothing but events of a kind is respected by chaining. -/
theorem isCongruence_events (P : Event → Prop) :
    IsCongruence fun (α : Type) (x _ : Run ε α) => ∀ e ∈ x.events, P e where
  refl h e he := by
    rw [h] at he
    cases he
  bind hx hf e he := by
    rcases mem_events_bind.1 he with he | ⟨a, -, he⟩
    · exact hx e he
    · exact hf a e he

/-- The second run is the first, unless the first ends with an error of a kind. -/
def AgreesUnless (P : ε → Prop) (x y : Run ε α) : Prop :=
  (∀ e, x.result = .error e → ¬P e) → y = x

/-- Being another run only after an error of a kind is respected by chaining: a chain ends with
    such an error where one of its parts does. -/
theorem isCongruence_agreesUnless (P : ε → Prop) :
    IsCongruence fun (α : Type) (x y : Run ε α) => x.AgreesUnless P y where
  refl _ _ := rfl
  bind {α β x y f g} hx hf h := by
    cases hr : x.result with
    | error e =>
      have hbind : (x >>= f).result = .error e := by rw [result_bind, hr]; rfl
      have hyx : y = x := hx fun e' he' => Except.error.inj (hr.symm.trans he') ▸ h e hbind
      rw [hyx, bind_eq, bind_eq, bind_of_error hr, bind_of_error hr]
    | ok a =>
      have hbind : (x >>= f).result = (f a).result := by rw [result_bind, hr]; rfl
      have hyx : y = x := hx fun e he => by rw [hr] at he; cases he
      have hfg : g a = f a := hf a fun e he => h e (hbind.trans he)
      rw [hyx, bind_eq, bind_eq, bind_of_ok hr, bind_of_ok hr, hfg]

/-- Two runs are the same, or log the same and end with errors that are related. -/
def SameUpTo (R : ε → ε → Prop) (x y : Run ε α) : Prop :=
  x = y ∨ x.events = y.events ∧ ∃ e e', R e e' ∧ x.result = .error e ∧ y.result = .error e'

namespace SameUpTo

variable {R : ε → ε → Prop} {x y : Run ε α}

/-- Related errors end the chains that go on from there. -/
theorem bind (h : x.SameUpTo R y) (f : α → Run ε β) : (x >>= f).SameUpTo R (y >>= f) := by
  rcases h with rfl | ⟨hevents, e, e', hR, hx, hy⟩
  · exact .inl rfl
  · rw [bind_eq, bind_eq, bind_of_error hx, bind_of_error hy]
    exact .inr ⟨hevents, e, e', hR, rfl, rfl⟩

/-- Chains that begin in the same way are the same up to what they go on with. -/
theorem bind_left {f g : α → Run ε β}
    (h : ∀ a, x.result = .ok a → (f a).SameUpTo R (g a)) : (x >>= f).SameUpTo R (x >>= g) := by
  rw [bind_eq, bind_eq]
  cases hx : x.result with
  | error e => rw [bind_of_error hx, bind_of_error hx]; exact .inl rfl
  | ok a =>
    rw [bind_of_ok hx, bind_of_ok hx]
    rcases h a hx with heq | ⟨hevents, e, e', hR, hf, hg⟩
    · exact .inl (by rw [heq])
    · exact .inr ⟨by rw [hevents], e, e', hR, hf, hg⟩

theorem mapError {S : δ → δ → Prop} {f : ε → δ} (h : x.SameUpTo R y)
    (hf : ∀ e e', R e e' → S (f e) (f e')) : (x.mapError f).SameUpTo S (y.mapError f) := by
  rcases h with rfl | ⟨hevents, e, e', hR, hx, hy⟩
  · exact .inl rfl
  · exact .inr ⟨hevents, f e, f e', hf e e' hR, congrArg (Except.mapError f) hx,
      congrArg (Except.mapError f) hy⟩

end SameUpTo

end Run

end Dataflow
