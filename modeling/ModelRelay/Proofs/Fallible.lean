import Mathlib.Data.List.Forall2

/-!
# Computations that may fail

What is known of the parts of a computation once the whole of it went well, and how it can fail if
it does not (`OnlyFails`). A list that is gone through item by item went well at each of them, in
order.

The relay is written in `Except`, one step after the other, and so most proofs about it begin in one
of two ways. Where it is known that a computation ended well, `exists_of_bind_ok` peels off its
first step, names what came of it, and leaves the rest. Where it is to be shown how a computation
can fail, `OnlyFails` is put together step by step, in the shape of the computation itself; the
property of failures is a parameter, so one such proof serves for every property that the steps
have.
-/

set_option autoImplicit false

namespace ModelRelay

variable {ε α β : Type}

/-! ## The parts of a computation -/

/-- A computation that ends well went well in its first part. -/
theorem exists_of_bind_ok {x : Except ε α} {f : α → Except ε β} {b : β}
    (h : (x >>= f) = .ok b) : ∃ a, x = .ok a ∧ f a = .ok b := by
  cases x with
  | error e => exact absurd h (by simp [bind, Except.bind])
  | ok a => exact ⟨a, rfl, h⟩

/-- A computation that fails does so in its first part, or in its second. -/
theorem error_of_bind {x : Except ε α} {f : α → Except ε β} {e : ε} (h : (x >>= f) = .error e) :
    x = .error e ∨ ∃ a, x = .ok a ∧ f a = .error e := by
  cases x with
  | error e' => exact .inl (congrArg Except.error (Except.error.inj h))
  | ok a => exact .inr ⟨a, rfl, h⟩

/-- Renaming failures makes no difference to a computation that went well. -/
theorem of_mapError_ok {ε' : Type} {x : Except ε α} {f : ε → ε'} {a : α}
    (h : x.mapError f = .ok a) : x = .ok a := by
  cases x with
  | error e => nomatch h
  | ok b => rw [Except.ok.inj h]

theorem exists_of_map_ok {x : Except ε α} {f : α → β} {b : β} (h : x.map f = .ok b) :
    ∃ a, x = .ok a ∧ f a = b := by
  cases x with
  | error e => nomatch h
  | ok a => exact ⟨a, rfl, Except.ok.inj h⟩

/-! ## How a computation can fail -/

/-- The failure of a computation, if it failed. -/
def failureOf? : Except ε α → Option ε
  | .error e => some e
  | .ok _ => none

/-- A failure that was computed is the failure. It serves where a result has no decidable equality
and its failures have. -/
theorem of_failureOf? {x : Except ε α} {e : ε} (h : failureOf? x = some e) : x = .error e := by
  cases x with
  | error e' => exact congrArg _ (Option.some.inj h)
  | ok a => exact absurd h (by simp [failureOf?])

/-- If a computation fails, it fails in one of these ways. -/
def OnlyFails (P : ε → Prop) (x : Except ε α) : Prop :=
  ∀ e, x = .error e → P e

namespace OnlyFails

variable {P : ε → Prop}

theorem ok (a : α) : OnlyFails P (.ok a : Except ε α) :=
  fun _ h => absurd h (by simp)

theorem error {e : ε} (h : P e) : OnlyFails P (.error e : Except ε α) :=
  fun _ he => Except.error.inj he ▸ h

/-- **A computation in two steps fails as one of them does.** -/
theorem bind {x : Except ε α} {f : α → Except ε β} (hx : OnlyFails P x)
    (hf : ∀ a, OnlyFails P (f a)) : OnlyFails P (x >>= f) := by
  intro e h
  rcases error_of_bind h with h | ⟨a, -, h⟩
  · exact hx e h
  · exact hf a e h

theorem map {x : Except ε α} (f : α → β) (hx : OnlyFails P x) : OnlyFails P (x.map f) := by
  cases x with
  | error e => exact error (hx e rfl)
  | ok a => exact ok (f a)

theorem mapError {ε' : Type} {x : Except ε' α} {f : ε' → ε}
    (hf : ∀ e, x = .error e → P (f e)) : OnlyFails P (x.mapError f) := by
  cases x with
  | error e => exact error (hf e rfl)
  | ok a => exact ok a

end OnlyFails

/-! ## Lists -/

/-- Going through a list ends well if and only if it does at each item, with the results in
order. -/
theorem mapM_ok_iff {f : α → Except ε β} {as : List α} {bs : List β} :
    as.mapM f = .ok bs ↔ List.Forall₂ (fun a b => f a = .ok b) as bs := by
  induction as generalizing bs with
  | nil =>
    rw [List.mapM_nil, List.forall₂_nil_left_iff]
    exact ⟨fun h => (Except.ok.inj h).symm, fun h => congrArg Except.ok h.symm⟩
  | cons a rest ih =>
    rw [List.mapM_cons, List.forall₂_cons_left_iff]
    constructor
    · intro h
      obtain ⟨b, hb, h⟩ := exists_of_bind_ok h
      obtain ⟨bs', hbs', h⟩ := exists_of_bind_ok h
      exact ⟨b, bs', hb, ih.mp hbs', (Except.ok.inj h).symm⟩
    · rintro ⟨b, bs', hb, hrest, rfl⟩
      rw [hb, ih.mpr hrest]
      rfl

theorem ok_of_toOption {x : Except ε α} {a : α} (h : x.toOption = some a) : x = .ok a := by
  cases x with
  | error e => nomatch h
  | ok b => exact congrArg _ (Option.some.inj h)

/-- What is related to a list item by item is related to each of its members. -/
theorem exists_of_forall₂_of_mem {R : α → β → Prop} {as : List α} {bs : List β} {a : α}
    (h : List.Forall₂ R as bs) (ha : a ∈ as) : ∃ b ∈ bs, R a b := by
  obtain ⟨i, hi, rfl⟩ := List.mem_iff_getElem.mp ha
  exact ⟨bs.get ⟨i, h.length_eq ▸ hi⟩, List.get_mem _ _, h.get hi _⟩

end ModelRelay
