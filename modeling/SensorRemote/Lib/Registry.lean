import Mathlib.Data.List.Basic

/-!
# Registries

A system that keeps its records in lists, a record's name being its place: a new record goes to the
end, and a record is replaced in place by one that says more. `Kept` is what holds between such a
list and what it becomes; what can be read off a list of either kind is where each entry came from.

The lemmas come in pairs, one for each way in which a list changes. From a list after the change one
learns whether an entry is an old one or the one that was put there (`getElem?_append_cases`,
`getElem?_set_cases`); to a list after the change one transports what was in it before
(`Kept.append`, `Kept.set`), whatever relation `later` says how a record may grow.
-/

namespace Registry

variable {α : Type*} {l : List α} {i j : ℕ} {a a' b : α}

/-! ## Where an entry came from -/

/-- An entry of the longer list is an old one, or the new one at the end. -/
theorem getElem?_append_cases (h : (l ++ [a])[j]? = some b) :
    l[j]? = some b ∨ j = l.length ∧ b = a := by
  rcases Nat.lt_or_ge j l.length with hj | hj
  · rw [List.getElem?_append_left hj] at h
    exact .inl h
  · rw [List.getElem?_append_right hj, List.getElem?_singleton] at h
    split at h
    · exact .inr ⟨by omega, (Option.some.inj h).symm⟩
    · cases h

/-- A name that was given stays given. -/
theorem getElem?_append_of_some (h : l[j]? = some b) : (l ++ [a])[j]? = some b := by
  rw [List.getElem?_append_left (List.getElem?_eq_some_iff.mp h).1, h]

/-- An entry of the changed list is the one that was put there, or another, as it was. -/
theorem getElem?_set_cases (h : (l.set i a)[j]? = some b) :
    j = i ∧ b = a ∨ j ≠ i ∧ l[j]? = some b := by
  rw [List.getElem?_set] at h
  split at h
  · rename_i hij
    split at h
    · exact .inl ⟨hij.symm, (Option.some.inj h).symm⟩
    · cases h
  · rename_i hij
    exact .inr ⟨fun hji => hij hji.symm, h⟩

/-- A record that is there can be replaced. -/
theorem getElem?_set_self_of_some (h : l[i]? = some b) : (l.set i a)[i]? = some a :=
  List.getElem?_set_self (List.getElem?_eq_some_iff.mp h).1

/-! ## What is kept -/

/-- Every entry of a list is an entry of another, later on. -/
def Kept (later : α → α → Prop) (l l' : List α) : Prop :=
  ∀ (i : ℕ) (a : α), l[i]? = some a → ∃ a', l'[i]? = some a' ∧ later a a'

variable {later : α → α → Prop}

/-- A list is kept as it is, if a record may stay as it is. -/
theorem Kept.rfl (hrefl : ∀ a, later a a) : Kept later l l := fun _ a h => ⟨a, h, hrefl a⟩

/-- A new record at the end leaves the others. -/
theorem Kept.append (hrefl : ∀ a, later a a) : Kept later l (l ++ [a]) :=
  fun _ b h => ⟨b, getElem?_append_of_some h, hrefl b⟩

/-- A record replaced by a later one leaves the list kept. -/
theorem Kept.set (hrefl : ∀ a, later a a) (hi : l[i]? = some a) (h : later a a') :
    Kept later l (l.set i a') := by
  intro j b hj
  by_cases hij : i = j
  · subst hij
    obtain rfl := Option.some.inj (hi.symm.trans hj)
    exact ⟨a', getElem?_set_self_of_some hi, h⟩
  · exact ⟨b, by rw [List.getElem?_set_ne hij, hj], hrefl b⟩

end Registry
