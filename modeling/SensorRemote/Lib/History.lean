import Mathlib.Data.List.Basic
import Mathlib.Data.List.Induction
import Mathlib.Tactic.Common
import Mathlib.Data.Nat.Notation

/-!
# Histories

A history is a list that grows at its end. One more event splits it in two ways
(`split_concat`).

A program that folds a step over its inputs often acts only after several inputs in a row
met a condition, and counts them in its state. `Streak step start P n inputs` says that each
of the last `n` inputs met `P` in the state it found; a counter that every step either clears
or advances because `P` was met always counts such a streak (`of_counter`).

`Along step P s inputs` says that each of the inputs of a run from `s` met `P` in the state it
found. An input that met a condition last cuts a run in two, and the condition was not met along
the second part (`Along.last`).
-/

universe u v

/-- A history with one more event, taken apart. -/
theorem split_concat {α : Type*} {xs before after : List α} {x y : α}
    (h : xs ++ [x] = before ++ y :: after) :
    (before = xs ∧ y = x ∧ after = []) ∨ ∃ rest, xs = before ++ y :: rest ∧ after = rest ++
      [x] := by
  rcases List.eq_nil_or_concat after with rfl | ⟨rest, z, rfl⟩
  · left
    obtain ⟨rfl, heq⟩ := List.append_inj' h rfl
    simp_all
  · right
    simp only [List.concat_eq_append] at h ⊢
    have hsplit : xs ++ [x] = (before ++ y :: rest) ++ [z] := by simpa using h
    obtain ⟨rfl, heq⟩ := List.append_inj' hsplit rfl
    exact ⟨rest, rfl, by simp_all⟩

/-! ## Streaks -/

variable {S : Type u} {A : Type v}

/-- Each of the last `n` inputs of a run from `start` met `P` in the state it found. -/
inductive Streak (step : S → A → S) (start : S) (P : S → A → Prop) : ℕ → List A → Prop where
  /-- no input is asked of -/
  | zero (inputs : List A) : Streak step start P 0 inputs
  /-- one more input met the condition -/
  | succ {n : ℕ} {inputs : List A} {x : A} : Streak step start P n inputs →
      P (inputs.foldl step start) x → Streak step start P (n + 1) (inputs ++ [x])

namespace Streak

variable {step : S → A → S} {start : S} {P Q : S → A → Prop} {n : ℕ} {inputs : List A} {x : A}

theorem exists_last (h : Streak step start P (n + 1) inputs) :
    ∃ earlier x, inputs = earlier ++ [x] ∧ Streak step start P n earlier
      ∧ P (earlier.foldl step start) x := by
  cases h with
  | succ hstreak hx => exact ⟨_, _, rfl, hstreak, hx⟩

theorem last (h : Streak step start P (n + 1) (inputs ++ [x])) :
    Streak step start P n inputs ∧ P (inputs.foldl step start) x := by
  obtain ⟨earlier, y, heq, hstreak, hy⟩ := h.exists_last
  obtain ⟨rfl, hlast⟩ := List.append_inj' heq rfl
  obtain rfl := List.singleton_inj.mp hlast
  exact ⟨hstreak, hy⟩

theorem mono (h : Streak step start P n inputs) (himp : ∀ s x, P s x → Q s x) :
    Streak step start Q n inputs := by
  induction h with
  | zero inputs => exact .zero inputs
  | succ _ hx ih => exact .succ ih (himp _ _ hx)

theorem and (hp : Streak step start P n inputs) (hq : Streak step start Q n inputs) :
    Streak step start (fun s x => P s x ∧ Q s x) n inputs := by
  induction hp with
  | zero inputs => exact .zero inputs
  | succ _ hx ih =>
    obtain ⟨hstreak, hx'⟩ := hq.last
    exact .succ (ih hstreak) ⟨hx, hx'⟩

/-- A counter that starts at zero, and that every step clears unless `P` was met and the step
advanced it by one, counts a streak. -/
theorem of_counter (count : S → ℕ) (hstart : count start = 0)
    (hstep : ∀ s x, count (step s x) = 0 ∨ count (step s x) = count s + 1 ∧ P s x)
    (inputs : List A) : Streak step start P (count (inputs.foldl step start)) inputs := by
  induction inputs using List.reverseRecOn with
  | nil =>
    rw [List.foldl_nil, hstart]
    exact .zero []
  | append_singleton inputs x ih =>
    rw [List.foldl_concat]
    rcases hstep (inputs.foldl step start) x with hcleared | ⟨hcounted, hx⟩
    · rw [hcleared]
      exact .zero _
    · rw [hcounted]
      exact .succ ih hx

end Streak

/-! ## Stretches of a run -/

/-- Each of the inputs of a run from `s` met `P` in the state it found. -/
def Along (step : S → A → S) (P : S → A → Prop) : S → List A → Prop
  | _, [] => True
  | s, x :: xs => P s x ∧ Along step P (step s x) xs

namespace Along

variable {step : S → A → S} {P Q : S → A → Prop} {s : S} {xs ys : List A}

theorem append : Along step P s (xs ++ ys) ↔
    Along step P s xs ∧ Along step P (xs.foldl step s) ys := by
  induction xs generalizing s with
  | nil => simp [Along]
  | cons x xs ih => rw [List.cons_append, Along, Along, ih, List.foldl_cons, and_assoc]

theorem mono (h : Along step P s xs) (himp : ∀ s x, P s x → Q s x) : Along step Q s xs := by
  induction xs generalizing s with
  | nil => trivial
  | cons x xs ih => exact ⟨himp s x h.1, ih h.2⟩

theorem of_mem {x : A} (h : Along step P s xs) (hx : x ∈ xs) : ∃ s, P s x := by
  obtain ⟨before, after, rfl⟩ := List.append_of_mem hx
  exact ⟨_, (append.mp h).2.1⟩

/-- What no input changes that meets `P`, stays as it is along them. -/
theorem kept {β : Type*} {f : S → β} (hstep : ∀ s x, P s x → f (step s x) = f s)
    (h : Along step P s xs) : f (xs.foldl step s) = f s := by
  induction xs generalizing s with
  | nil => rfl
  | cons x xs ih => rw [List.foldl_cons, ih h.2, hstep s x h.1]

/-- The last input that met `P`, if there is one. -/
theorem last (step : S → A → S) (P : S → A → Prop) (s : S) (xs : List A) :
    Along step (fun s x => ¬P s x) s xs ∨
      ∃ before x after, xs = before ++ x :: after ∧ P (before.foldl step s) x ∧
        Along step (fun s x => ¬P s x) (step (before.foldl step s) x) after := by
  induction xs generalizing s with
  | nil => exact .inl trivial
  | cons x xs ih =>
    rcases ih (step s x) with hnone | ⟨before, y, after, rfl, hy, hafter⟩
    · by_cases hx : P s x
      · exact .inr ⟨[], x, xs, rfl, hx, hnone⟩
      · exact .inl ⟨hx, hnone⟩
    · exact .inr ⟨x :: before, y, after, rfl, hy, hafter⟩

/-- There is one last input that met `P`. -/
theorem last_unique {before before' after after' : List A} {x x' : A}
    (heq : before ++ x :: after = before' ++ x' :: after')
    (hx : P (before.foldl step s) x)
    (hafter : Along step (fun s x => ¬P s x) (step (before.foldl step s) x) after)
    (hx' : P (before'.foldl step s) x')
    (hafter' : Along step (fun s x => ¬P s x) (step (before'.foldl step s) x') after') :
    before = before' := by
  induction before generalizing before' s with
  | nil =>
    cases before' with
    | nil => rfl
    | cons y before' =>
      -- the other one would be among the inputs after this one
      obtain ⟨rfl, rfl⟩ := List.cons.inj heq
      exact ((append.mp hafter).2.1 hx').elim
  | cons y before ih =>
    cases before' with
    | nil =>
      obtain ⟨rfl, rfl⟩ := List.cons.inj heq
      exact ((append.mp hafter').2.1 hx).elim
    | cons y' before' =>
      obtain ⟨rfl, htail⟩ := List.cons.inj heq
      rw [ih htail hx hafter hx' hafter']

end Along
