import Mathlib.Order.Basic
import Mathlib.Data.List.Induction

/-!
# Labelled transition systems

Every concurrent component of the development is a labelled transition system:
a predicate of initial states and a labelled step relation. Three questions are
asked of one:

* what holds of every **reachable** state (`Reachable.invariant`);
* which **runs** keep a property: a run is the list of its labels and states,
  and when the property survives a step exactly if that step is well behaved,
  a run keeps the property throughout exactly if all its steps are
  (`keeps_iff_meets`);
* what is **inevitable**: met on every run, whatever the choices, with no run
  that stops or goes on for ever before (`Inevitable`).
-/

namespace Transition

universe u v

/-- A labelled transition system over states `S` and labels `L`. -/
structure LTS (S : Type u) (L : Type v) where
  /-- the states a run may start in -/
  init : S → Prop
  /-- `step s l t`: the system can move from `s` to `t` doing `l` -/
  step : S → L → S → Prop

namespace LTS

variable {S : Type u} {L : Type v}

/-! ## Reachable states -/

/-- The states some run from an initial state comes to. -/
inductive Reachable (M : LTS S L) : S → Prop where
  /-- a run may stop where it starts -/
  | init {s : S} : M.init s → Reachable M s
  /-- one more step -/
  | step {s t : S} {l : L} : Reachable M s → M.step s l t → Reachable M t

/-- The **invariant rule**: what holds initially and survives every step holds of
every reachable state. -/
theorem Reachable.invariant {M : LTS S L} {P : S → Prop}
    (hinit : ∀ s, M.init s → P s)
    (hstep : ∀ s l t, P s → M.step s l t → P t) {s : S} (h : M.Reachable s) : P s := by
  induction h with
  | init h => exact hinit _ h
  | step _ hst ih => exact hstep _ _ _ ih hst

/-- **Simulation.** If a map of states takes initial states to initial states and every step
to a step or to no step at all, it takes reachable states to reachable ones. -/
theorem Reachable.simulate {S' : Type*} {L' : Type*} {M : LTS S L} {N : LTS S' L'} (f : S → S')
    (hinit : ∀ s, M.init s → N.init (f s))
    (hstep : ∀ s l t, M.Reachable s → M.step s l t → f t = f s ∨ ∃ l', N.step (f s) l' (f t))
    {s : S} (h : M.Reachable s) : N.Reachable (f s) := by
  induction h with
  | init h => exact .init (hinit _ h)
  | @step s t l hr hst ih =>
    rcases hstep s l t hr hst with hsame | ⟨l', hst'⟩
    · rwa [hsame]
    · exact .step ih hst'

/-- The system that only takes the steps a guard admits. Its runs are the runs of
`M` all of whose steps meet the guard. -/
def guarded (M : LTS S L) (G : S → L → Prop) : LTS S L where
  init := M.init
  step s l t := M.step s l t ∧ G s l

/-! ## Runs -/

/-- A run from `s`: the labels taken and the states they led to, in order. -/
def IsRun (M : LTS S L) : S → List (L × S) → Prop
  | _, [] => True
  | s, (l, t) :: rest => M.step s l t ∧ IsRun M t rest

/-- Every state of the run, the first one included, satisfies `P`. -/
def Keeps (P : S → Prop) : S → List (L × S) → Prop
  | s, [] => P s
  | s, (_, t) :: rest => P s ∧ Keeps P t rest

/-- Every step of the run, seen from the state it leaves, satisfies `G`. -/
def Meets (G : S → L → Prop) : S → List (L × S) → Prop
  | _, [] => True
  | s, (l, t) :: rest => G s l ∧ Meets G t rest

@[simp] theorem isRun_nil (M : LTS S L) (s : S) : M.IsRun s [] := trivial

@[simp] theorem isRun_cons {M : LTS S L} {s t : S} {l : L} {rest : List (L × S)} :
    M.IsRun s ((l, t) :: rest) ↔ M.step s l t ∧ M.IsRun t rest := Iff.rfl

/-- The state a run ends in. -/
def last : S → List (L × S) → S
  | s, [] => s
  | _, (_, t) :: rest => last t rest

/-- A run can go on where it ends. -/
theorem isRun_append {M : LTS S L} {run rest : List (L × S)} {s : S} :
    M.IsRun s (run ++ rest) ↔ M.IsRun s run ∧ M.IsRun (last s run) rest := by
  induction run generalizing s with
  | nil => simp [last]
  | cons x run ih =>
    obtain ⟨l, t⟩ := x
    simp [last, ih, and_assoc]

theorem last_append (s : S) (run rest : List (L × S)) :
    last s (run ++ rest) = last (last s run) rest := by
  induction run generalizing s with
  | nil => rfl
  | cons x run ih => exact ih x.2

theorem meets_append {G : S → L → Prop} {run rest : List (L × S)} {s : S} :
    Meets G s (run ++ rest) ↔ Meets G s run ∧ Meets G (last s run) rest := by
  induction run generalizing s with
  | nil => exact (and_iff_right trivial).symm
  | cons x run ih =>
    obtain ⟨l, t⟩ := x
    simp only [List.cons_append, Meets, last, ih, and_assoc]

/-- All steps, each with the run before it. -/
theorem meets_iff_forall {G : S → L → Prop} {run : List (L × S)} {s : S} :
    Meets G s run ↔
      ∀ before l t after, run = before ++ (l, t) :: after → G (last s before) l := by
  constructor
  · rintro h before l t after rfl
    exact (meets_append.mp h).2.1
  · intro h
    induction run generalizing s with
    | nil => trivial
    | cons x rest ih =>
      obtain ⟨l, t⟩ := x
      refine ⟨h [] l t rest rfl, ih fun before l' t' after hrest => ?_⟩
      exact h ((l, t) :: before) l' t' after (by rw [hrest]; rfl)

theorem Reachable.of_run {M : LTS S L} {run : List (L × S)} :
    ∀ {s : S}, M.Reachable s → M.IsRun s run → M.Reachable (last s run) := by
  induction run with
  | nil => exact fun hs _ => hs
  | cons x rest ih =>
    intro s hs h
    exact ih (hs.step h.1) h.2

/-- The run that a function makes which carries out steps: of these labels, as far as it can. -/
def runOf (next : S → L → Option S) : S → List L → List (L × S)
  | _, [] => []
  | s, l :: rest =>
    match next s l with
    | some t => (l, t) :: runOf next t rest
    | none => []

theorem isRun_runOf {M : LTS S L} {next : S → L → Option S}
    (hnext : ∀ {s l t}, next s l = some t → M.step s l t) (s : S) (labels : List L) :
    M.IsRun s (runOf next s labels) := by
  induction labels generalizing s with
  | nil => trivial
  | cons l rest ih =>
    simp only [runOf]
    split
    · rename_i t ht
      exact ⟨hnext ht, ih t⟩
    · trivial

instance decidableMeets {G : S → L → Prop} [∀ s l, Decidable (G s l)] :
    (s : S) → (run : List (L × S)) → Decidable (Meets G s run)
  | _, [] => .isTrue trivial
  | s, (l, t) :: rest =>
    haveI := decidableMeets (G := G) t rest
    inferInstanceAs (Decidable (G s l ∧ Meets G t rest))

/-- What a function that carries out steps comes to is reachable. -/
theorem Reachable.of_foldlM {M : LTS S L} {next : S → L → Option S}
    (hnext : ∀ {s l t}, next s l = some t → M.step s l t) {labels : List L} :
    ∀ {s t : S}, M.Reachable s → labels.foldlM next s = some t → M.Reachable t := by
  induction labels with
  | nil =>
    rintro s t h ⟨⟩
    exact h
  | cons l rest ih =>
    intro s t h hrun
    rw [List.foldlM_cons] at hrun
    obtain ⟨u, hu, hrest⟩ := Option.bind_eq_some_iff.mp hrun
    exact ih (h.step (hnext hu)) hrest

theorem Keeps.head {P : S → Prop} {s : S} {run : List (L × S)} (h : Keeps P s run) : P s := by
  cases run with
  | nil => exact h
  | cons x rest => exact h.1

theorem Keeps.last {P : S → Prop} {run : List (L × S)} :
    ∀ {s : S}, Keeps P s run → P (LTS.last s run) := by
  induction run with
  | nil => exact fun h => h
  | cons x run ih => exact fun h => ih h.2

/-- **Runs and their steps.** Let `I` be an invariant under which a state with the
property keeps it over a step exactly if the step satisfies `G`. Then a run keeps
the property throughout exactly if all its steps satisfy `G`. -/
theorem keeps_iff_meets {M : LTS S L} {I P : S → Prop} {G : S → L → Prop}
    (hI : ∀ s l t, I s → M.step s l t → I t)
    (hP : ∀ s l t, I s → P s → M.step s l t → (P t ↔ G s l)) :
    ∀ {run : List (L × S)} {s : S}, I s → P s → M.IsRun s run → (Keeps P s run ↔ Meets G s run)
  | [], _, _, hs, _ => ⟨fun _ => trivial, fun _ => hs⟩
  | (l, t) :: rest, s, hi, hs, ⟨hst, hrun⟩ => by
    have hone : P t ↔ G s l := hP s l t hi hs hst
    constructor
    · rintro ⟨_, hkeep⟩
      have ht : P t := hkeep.head
      exact ⟨hone.mp ht, (keeps_iff_meets hI hP (hI s l t hi hst) ht hrun).mp hkeep⟩
    · rintro ⟨hg, hmeet⟩
      have ht : P t := hone.mpr hg
      exact ⟨hs, (keeps_iff_meets hI hP (hI s l t hi hst) ht hrun).mpr hmeet⟩

/-- What guarded steps preserve, a run of guarded steps keeps. -/
theorem keeps_of_meets {M : LTS S L} {P : S → Prop} {G : S → L → Prop}
    (hP : ∀ s l t, P s → M.step s l t → G s l → P t) :
    ∀ {run : List (L × S)} {s : S}, P s → M.IsRun s run → Meets G s run → Keeps P s run
  | [], _, hs, _, _ => hs
  | (l, t) :: _, s, hs, ⟨hst, hrun⟩, ⟨hg, hmeet⟩ =>
    ⟨hs, keeps_of_meets hP (hP s l t hs hst hg) hrun hmeet⟩

/-- What every step preserves, a run keeps. -/
theorem keeps_of_invariant {M : LTS S L} {P : S → Prop}
    (hP : ∀ s l t, P s → M.step s l t → P t) :
    ∀ {run : List (L × S)} {s : S}, P s → M.IsRun s run → Keeps P s run
  | [], _, hs, _ => hs
  | (l, t) :: _, s, hs, ⟨hst, hrun⟩ => ⟨hs, keeps_of_invariant hP (hP s l t hs hst) hrun⟩

theorem Keeps.mono {P Q : S → Prop} (hPQ : ∀ s, P s → Q s) :
    ∀ {run : List (L × S)} {s : S}, Keeps P s run → Keeps Q s run
  | [], _, h => hPQ _ h
  | _ :: _, _, h => ⟨hPQ _ h.1, Keeps.mono hPQ h.2⟩

theorem Meets.mono {G H : S → L → Prop} (hGH : ∀ s l, G s l → H s l) :
    ∀ {run : List (L × S)} {s : S}, Meets G s run → Meets H s run
  | [], _, _ => trivial
  | _ :: _, _, h => ⟨hGH _ _ h.1, Meets.mono hGH h.2⟩

/-! ### What lasts since a step -/

/-- A step of the run satisfies `P`, and all steps since then satisfy `G`. -/
def Since (P G : S → L → Prop) (s : S) (run : List (L × S)) : Prop :=
  ∃ before l t since, run = before ++ (l, t) :: since ∧ P (last s before) l ∧ Meets G t since

/-- The last step is the one, or comes since. -/
theorem since_concat {P G : S → L → Prop} {s t : S} {run : List (L × S)} {l : L} :
    Since P G s (run ++ [(l, t)]) ↔ P (last s run) l ∨ Since P G s run ∧ G (last s run) l := by
  constructor
  · rintro ⟨before, l', t', since, hrun, hP, hG⟩
    rcases List.eq_nil_or_concat since with rfl | ⟨since, x, rfl⟩
    · obtain ⟨rfl, hlast⟩ := List.append_inj' hrun rfl
      cases hlast
      exact .inl hP
    · rw [List.concat_eq_append, ← List.cons_append, ← List.append_assoc] at hrun
      rw [List.concat_eq_append, meets_append] at hG
      obtain ⟨rfl, hlast⟩ := List.append_inj' hrun rfl
      cases hlast
      refine .inr ⟨⟨before, l', t', since, rfl, hP, hG.1⟩, ?_⟩
      rw [last_append]
      exact hG.2.1
  · rintro (hP | ⟨⟨before, l', t', since, rfl, hP, hG⟩, hlast⟩)
    · exact ⟨run, l, t, [], rfl, hP, trivial⟩
    · refine ⟨before, l', t', since ++ [(l, t)], by simp, hP, meets_append.mpr ⟨hG, ?_, trivial⟩⟩
      rwa [last_append] at hlast

/-- Let a step that satisfies `P` bring about what holds, and a step leave it exactly if it
satisfies `G`. Then it holds at the end of a run exactly if some step brought it about and all
since then have left it. -/
theorem last_iff_since {M : LTS S L} {H : S → Prop} {P G : S → L → Prop} {s : S}
    (hstep : ∀ {s l t}, M.step s l t → (H t ↔ P s l ∨ H s ∧ G s l)) (hs : ¬H s)
    {run : List (L × S)} (hrun : M.IsRun s run) : H (last s run) ↔ Since P G s run := by
  induction run using List.reverseRecOn with
  | nil =>
    apply iff_of_false hs
    rintro ⟨before, l, t, since, hnil, -⟩
    simp at hnil
  | append_singleton run x ih =>
    obtain ⟨l, t⟩ := x
    obtain ⟨hrun, hlast, -⟩ := isRun_append.mp hrun
    rw [since_concat, ← ih hrun, last_append]
    exact hstep hlast

/-! ## Inevitability -/

/-- `P` is inevitable from `s`: it holds there, or some step is possible and `P` is
inevitable after every step that is. Being inductive, it also says that no run
avoids `P` by going on for ever. -/
inductive Inevitable (M : LTS S L) (P : S → Prop) : S → Prop where
  /-- the property holds already -/
  | here {s : S} : P s → Inevitable M P s
  /-- not stuck, and inevitable whichever step is taken -/
  | next {s : S} : (∃ l t, M.step s l t) → (∀ l t, M.step s l t → Inevitable M P t) →
      Inevitable M P s

/-- The **progress rule**: where an invariant holds and the property does not yet, some step is
possible, and every one keeps the invariant and makes a measure smaller. -/
theorem Inevitable.of_measure {M : LTS S L} {P I : S → Prop} (measure : S → ℕ)
    (hex : ∀ s, I s → ¬P s → ∃ l t, M.step s l t)
    (hall : ∀ s l t, I s → ¬P s → M.step s l t → I t ∧ measure t < measure s) {s : S}
    (hs : I s) : M.Inevitable P s := by
  generalize hn : measure s = n
  induction n using Nat.strongRecOn generalizing s with
  | ind n ih =>
    by_cases hP : P s
    · exact .here hP
    · refine .next (hex s hs hP) fun l t hst => ?_
      obtain ⟨ht, hless⟩ := hall s l t hs hP hst
      exact ih (measure t) (hn ▸ hless) ht rfl

end LTS

end Transition
