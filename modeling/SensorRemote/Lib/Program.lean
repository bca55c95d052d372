import Mathlib.Logic.Function.Basic
import SensorRemote.Lib.Transition

/-!
# Programs over operations, run by threads

A program is a tree of typed operations with a loop (`Prog`): code of an imperative source
is written in it with `do`, and what an operation does is left to a machine (`Machine`),
which says how a thread's operation changes a shared world and what it may answer. Code
written over coarse operations runs over finer ones by `interp`. Threads interleave at every
operation, and any of them may vanish (`pool`).

Code is proved by **outlines** (`Outline`): an assertion before every operation, each stable
under what the other threads may do. The rules are those of the constructors, of `bind`, and
of consequence; `Outline.sound` says that under outlines the invariant holds of every
reachable world, and that every step keeps its guarantee.
-/

namespace Program

open Transition

universe u v

/-- Programs over operations `Op`, where `Op β` are the operations that answer a `β`. -/
inductive Prog (Op : Type → Type) : Type → Type 1 where
  /-- the program has returned -/
  | ret {α : Type} (a : α) : Prog Op α
  /-- an operation, and how the program goes on -/
  | op {α β : Type} (o : Op β) (k : β → Prog Op α) : Prog Op α
  /-- a loop, whose body answers another state or a result -/
  | loop {α β σ : Type} (s : σ) (body : σ → Prog Op (σ ⊕ β)) (k : β → Prog Op α) : Prog Op α

namespace Prog

variable {Op Op' : Type → Type} {α β γ σ : Type}

/-- Sequential composition. -/
def bind : {α : Type} → Prog Op α → (α → Prog Op γ) → Prog Op γ
  | _, .ret a, f => f a
  | _, .op o k, f => .op o fun b => (k b).bind f
  | _, .loop s body k, f => .loop s body fun b => (k b).bind f

instance : Monad (Prog Op) where
  pure := .ret
  bind := bind

/-- A single operation. -/
def perform (o : Op β) : Prog Op β := .op o .ret

/-- A loop on its own. -/
def forever (s : σ) (body : σ → Prog Op (σ ⊕ β)) : Prog Op β := .loop s body .ret

/-- The same code for each of a list, one after the other. -/
def each {γ : Type} (f : γ → Prog Op α) : List γ → Prog Op (List α)
  | [] => .ret []
  | x :: xs => (f x).bind fun a => (each f xs).bind fun as => .ret (a :: as)

/-- What a loop does with the answer of its body. -/
def again (body : σ → Prog Op (σ ⊕ β)) (k : β → Prog Op α) : σ ⊕ β → Prog Op α
  | .inl s => .loop s body k
  | .inr b => k b

/-- The program in which `handle` carries out each operation. -/
def interp (handle : {β : Type} → Op β → Prog Op' β) : {α : Type} → Prog Op α → Prog Op' α
  | _, .ret a => .ret a
  | _, .op o k => (handle o).bind fun b => (k b).interp handle
  | _, .loop s body k =>
    .loop s (fun s => (body s).interp handle) fun b => (k b).interp handle

@[simp] theorem pure_eq (a : α) : (pure a : Prog Op α) = .ret a := rfl

@[simp] theorem bind_eq (p : Prog Op α) (f : α → Prog Op γ) : p >>= f = p.bind f := rfl

@[simp] theorem ret_bind (a : α) (f : α → Prog Op γ) : (ret a).bind f = f a := rfl

@[simp] theorem op_bind (o : Op β) (k : β → Prog Op α) (f : α → Prog Op γ) :
    (op o k).bind f = op o fun b => (k b).bind f := rfl

@[simp] theorem perform_bind (o : Op β) (f : β → Prog Op γ) : (perform o).bind f = op o f := rfl

@[simp] theorem forever_bind (s : σ) (body : σ → Prog Op (σ ⊕ β)) (f : β → Prog Op γ) :
    (forever s body).bind f = loop s body f := rfl

@[simp] theorem bind_assoc {δ : Type} (p : Prog Op α) (f : α → Prog Op γ) (g : γ → Prog Op δ) :
    (p.bind f).bind g = p.bind fun a => (f a).bind g := by
  induction p with
  | ret a => rfl
  | op o k ih => simp only [bind, ih]
  | loop s body k _ ih => simp only [bind, ih]

theorem bind_ret (p : Prog Op α) : p.bind ret = p := by
  induction p with
  | ret a => rfl
  | op o k ih => simp only [bind, ih]
  | loop s body k _ ih => simp only [bind, ih]

/-- Carrying out operations goes through a composition. -/
theorem interp_bind (handle : {β : Type} → Op β → Prog Op' β) (p : Prog Op α)
    (f : α → Prog Op γ) :
    (p.bind f).interp handle = (p.interp handle).bind fun a => (f a).interp handle := by
  induction p with
  | ret a => rfl
  | op o k ih => simp only [bind, interp, ih, bind_assoc]
  | loop s body k _ ih => simp only [bind, interp, ih]

/-- The next operation of a program, its answer, and the program after it. -/
inductive Step : {α : Type} → Prog Op α → {β : Type} → Op β → β → Prog Op α → Prop where
  | op {α β : Type} (o : Op β) (k : β → Prog Op α) (b : β) : Step (.op o k) o b (k b)
  | loop {α β γ σ : Type} {s : σ} {body : σ → Prog Op (σ ⊕ γ)} {k : γ → Prog Op α} {o : Op β}
      {b : β} {p : Prog Op α} : Step ((body s).bind (again body k)) o b p →
      Step (.loop s body k) o b p

end Prog

/-! ## The operations of a program -/

section Only

variable {Op : Type → Type} {α β γ ε ε' σ : Type} {X : {β : Type} → Op β → Prop}

/-- All operations the program may come to are in `X`. -/
def Prog.Only (X : {β : Type} → Op β → Prop) : {α : Type} → Prog Op α → Prop
  | _, .ret _ => True
  | _, .op o k => X o ∧ ∀ b, (k b).Only X
  | _, .loop _ body k => (∀ s, (body s).Only X) ∧ ∀ b, (k b).Only X

@[simp] theorem Prog.only_ret (a : α) : (ret a : Prog Op α).Only X := trivial

@[simp] theorem Prog.only_op {o : Op β} {k : β → Prog Op α} :
    (op o k).Only X ↔ X o ∧ ∀ b, (k b).Only X := Iff.rfl

theorem Prog.Only.bind {p : Prog Op α} {f : α → Prog Op γ} (hp : p.Only X)
    (hf : ∀ a, (f a).Only X) : (p.bind f).Only X := by
  induction p with
  | ret a => exact hf a
  | op o k ih => exact ⟨hp.1, fun b => ih b (hp.2 b) hf⟩
  | loop s body k _ ih => exact ⟨hp.1, fun b => ih b (hp.2 b) hf⟩

theorem Prog.Only.mono {Y : {β : Type} → Op β → Prop} (hXY : ∀ {β : Type} (o : Op β), X o → Y o)
    {p : Prog Op α} (hp : p.Only X) : p.Only Y := by
  induction p with
  | ret a => trivial
  | op o k ih => exact ⟨hXY o hp.1, fun b => ih b (hp.2 b)⟩
  | loop s body k ihbody ih => exact ⟨fun s => ihbody s (hp.1 s), fun b => ih b (hp.2 b)⟩

end Only

/-! ## Programs that may fail -/

/-- Programs that return a value or an error: the `Result` functions of a source. -/
abbrev Fallible (Op : Type → Type) (ε α : Type) := ExceptT ε (Prog Op) α

namespace Fallible

variable {Op : Type → Type} {ε ε' α β σ : Type}

/-- An operation that may fail. -/
def attempt (o : Op (Except ε α)) : Fallible Op ε α := Prog.perform o

/-- A program that may not. -/
def lift (p : Prog Op α) : Fallible Op ε α := Prog.bind p fun a => .ret (.ok a)

/-- An operation that may not. -/
def perform (o : Op α) : Fallible Op ε α := lift (Prog.perform o)

/-- A value, or an error, that is there already. -/
def ofExcept (r : Except ε α) : Fallible Op ε α := Prog.ret r

/-- Go on only under a condition. -/
def check (c : Prop) [Decidable c] (e : ε) : Fallible Op ε Unit :=
  if c then Prog.ret (.ok ()) else Prog.ret (.error e)

/-- The same program with its errors converted. -/
def mapError (f : ε → ε') (x : Fallible Op ε α) : Fallible Op ε' α :=
  Prog.bind x fun r => .ret (r.mapError f)

/-- A loop that an error leaves. -/
def forever (s : σ) (body : σ → Fallible Op ε (σ ⊕ β)) : Fallible Op ε β :=
  Prog.forever s fun s => Prog.bind (body s) fun
    | .error e => .ret (.inr (.error e))
    | .ok (.inl s) => .ret (.inl s)
    | .ok (.inr b) => .ret (.inr (.ok b))

theorem lift_bind (p : Prog Op α) (f : α → Fallible Op ε β) :
    (lift p >>= f : Fallible Op ε β) = Prog.bind p f := Prog.bind_assoc p _ _

@[simp] theorem ofExcept_ok_bind (a : α) (f : α → Fallible Op ε β) :
    (ofExcept (.ok a) >>= f : Fallible Op ε β) = f a := rfl

@[simp] theorem ofExcept_error_bind (e : ε) (f : α → Fallible Op ε β) :
    (ofExcept (.error e) >>= f : Fallible Op ε β) = throw e := rfl

theorem mapError_mapError {ε'' : Type} (f : ε → ε') (g : ε' → ε'') (x : Fallible Op ε α) :
    (x.mapError f).mapError g = x.mapError (g ∘ f) := by
  refine (Prog.bind_assoc x _ _).trans (congrArg (Prog.bind x) (funext fun r => ?_))
  cases r <;> rfl

variable {X : {β : Type} → Op β → Prop}

/-- All operations of a program that may fail are in `X`. -/
def Only (X : {β : Type} → Op β → Prop) (x : Fallible Op ε α) : Prop := Prog.Only X x

theorem Only.mono {Y : {β : Type} → Op β → Prop} {x : Fallible Op ε α} (hx : x.Only X)
    (hXY : ∀ {β : Type} (o : Op β), X o → Y o) : x.Only Y := Prog.Only.mono hXY hx

theorem Only.seq {x : Fallible Op ε α} {f : α → Fallible Op ε β} (hx : x.Only X)
    (hf : ∀ a, (f a).Only X) : (x >>= f).Only X := by
  refine Prog.Only.bind hx fun r => ?_
  cases r with
  | error e => exact trivial
  | ok a => exact hf a

theorem Only.mapError {x : Fallible Op ε α} (hx : x.Only X) (f : ε → ε') :
    (x.mapError f).Only X :=
  Prog.Only.bind hx fun _ => trivial

theorem Only.forever {body : σ → Fallible Op ε (σ ⊕ β)} (hbody : ∀ s, (body s).Only X) (s : σ) :
    (forever s body).Only X := by
  refine ⟨fun s => Prog.Only.bind (hbody s) fun r => ?_, fun _ => trivial⟩
  rcases r with e | s | b <;> trivial

theorem Only.lift {p : Prog Op α} (hp : p.Only X) : (lift p : Fallible Op ε α).Only X :=
  hp.bind fun _ => trivial

@[simp] theorem only_attempt {o : Op (Except ε α)} : (attempt o).Only X ↔ X o :=
  and_iff_left fun _ => trivial

@[simp] theorem only_perform {o : Op α} : (perform o : Fallible Op ε α).Only X ↔ X o :=
  and_iff_left fun _ => trivial

@[simp] theorem only_pure (a : α) : (pure a : Fallible Op ε α).Only X := trivial

@[simp] theorem only_throw (e : ε) : (throw e : Fallible Op ε α).Only X := trivial

@[simp] theorem only_ofExcept (r : Except ε α) : (ofExcept r : Fallible Op ε α).Only X := trivial

@[simp] theorem only_check (c : Prop) [Decidable c] (e : ε) :
    (check c e : Fallible Op ε Unit).Only X := by
  by_cases hc : c <;> simp only [check, hc, if_true, if_false, Only, Prog.only_ret]

end Fallible

/-! ## Machines and outlines -/

/-- What operations do: how thread `i` may change the world by one, with which answer, and
what is left of the world when the thread vanishes. -/
structure Machine (Op : Type → Type) (ι : Type) (W : Type u) where
  step : ι → W → {β : Type} → Op β → β → W → Prop
  vanish : ι → W → W → Prop

variable {Op : Type → Type} {ι : Type} {W : Type u}

/-- What the threads of a machine keep between them: an invariant of the world, what a thread
guarantees of its steps, and what it relies on of the others'. -/
structure Regime (M : Machine Op ι W) where
  inv : W → Prop
  guar : ι → W → W → Prop
  rely : ι → W → W → Prop
  compatible : ∀ i j w w', i ≠ j → inv w → inv w' → guar i w w' → rely j w w'
  vanishing : ∀ i w w', inv w → M.vanish i w w' → inv w' ∧ guar i w w'

variable {M : Machine Op ι W}

/-- An assertion of thread `i` that survives the steps of the others. -/
def Regime.Stable (D : Regime M) (i : ι) (P : W → Prop) : Prop :=
  ∀ w w', D.inv w → D.inv w' → P w → D.rely i w w' → P w'

/-- An operation of thread `i` between two assertions. -/
def Regime.Correct (D : Regime M) (i : ι) (P : W → Prop) {β : Type} (o : Op β)
    (R : β → W → Prop) : Prop :=
  ∀ w b w', D.inv w → P w → M.step i w o b w' → D.inv w' ∧ D.guar i w w' ∧ R b w'

theorem Regime.Correct.post {D : Regime M} {i : ι} {P : W → Prop} {β : Type} {o : Op β}
    {R R' : β → W → Prop} (h : D.Correct i P o R) (hR : ∀ b w, D.inv w → R b w → R' b w) :
    D.Correct i P o R' := by
  intro w b w' hw hP hM
  obtain ⟨hw', hguar, hafter⟩ := h w b w' hw hP hM
  exact ⟨hw', hguar, hR b w' hw' hafter⟩

/-- **Outlines.** From a world with `P`, whatever the other threads do, the program of thread
`i` keeps the invariant and its guarantee, and `Q` holds of what it returns. -/
inductive Outline (D : Regime M) (i : ι) :
    {α : Type} → (W → Prop) → Prog Op α → (α → W → Prop) → Prop where
  | ret {α : Type} {P : W → Prop} {a : α} {Q : α → W → Prop} : D.Stable i P →
      (∀ w, D.inv w → P w → Q a w) → Outline D i P (.ret a) Q
  | op {α β : Type} {P : W → Prop} {o : Op β} {k : β → Prog Op α} {R : β → W → Prop}
      {Q : α → W → Prop} : D.Stable i P → D.Correct i P o R →
      (∀ b, Outline D i (R b) (k b) Q) → Outline D i P (.op o k) Q
  | loop {α β σ : Type} {P : W → Prop} {s : σ} {body : σ → Prog Op (σ ⊕ β)} {k : β → Prog Op α}
      {L : σ → W → Prop} {R : β → W → Prop} {Q : α → W → Prop} : D.Stable i P →
      (∀ w, D.inv w → P w → L s w) → (∀ s, Outline D i (L s) (body s) (Sum.elim L R)) →
      (∀ b, Outline D i (R b) (k b) Q) → Outline D i P (.loop s body k) Q

namespace Outline

variable {D : Regime M} {i : ι} {α β γ σ ε ε' : Type} {P P' : W → Prop}

theorem stable {p : Prog Op α} {Q : α → W → Prop} (h : Outline D i P p Q) : D.Stable i P := by
  cases h <;> assumption

/-- More may be assumed. -/
theorem pre {p : Prog Op α} {Q : α → W → Prop} (hstable : D.Stable i P')
    (hP : ∀ w, D.inv w → P' w → P w) (h : Outline D i P p Q) : Outline D i P' p Q := by
  cases h with
  | ret _ hQ => exact .ret hstable fun w hw hP' => hQ w hw (hP w hw hP')
  | op _ hcorrect hk =>
    exact .op hstable (fun w b w' hw hP' => hcorrect w b w' hw (hP w hw hP')) hk
  | loop _ hL hbody hk => exact .loop hstable (fun w hw hP' => hL w hw (hP w hw hP')) hbody hk

/-- Nothing is to be shown of a program that is never reached. -/
theorem unreachable (p : Prog Op α) {Q : α → W → Prop} : Outline D i (fun _ => False) p Q := by
  have hstable : D.Stable i fun _ => False := fun _ _ _ _ h _ => h
  induction p with
  | ret a => exact .ret hstable fun _ _ h => h.elim
  | op o k ih =>
    exact .op (R := fun _ _ => False) hstable (fun _ _ _ _ h _ => h.elim) fun b => ih b
  | loop s body k ihbody ih =>
    exact .loop (L := fun _ _ => False) (R := fun _ _ => False) hstable (fun _ _ h => h)
      (fun s => ihbody s) fun b => ih b

/-- What is assumed of values may be used. -/
theorem given {c : Prop} {p : Prog Op α} {Q : α → W → Prop} (hstable : c → D.Stable i P)
    (h : c → Outline D i P p Q) : Outline D i (fun w => c ∧ P w) p Q := by
  have hstable' : D.Stable i fun w => c ∧ P w :=
    fun w w' hw hw' h hrely => ⟨h.1, hstable h.1 w w' hw hw' h.2 hrely⟩
  by_cases hc : c
  · exact (h hc).pre hstable' fun _ _ h => h.2
  · exact (unreachable p).pre hstable' fun _ _ h => hc h.1

/-- Less may be concluded. -/
theorem post {p : Prog Op α} {Q Q' : α → W → Prop} (h : Outline D i P p Q)
    (hQ : ∀ a w, D.inv w → Q a w → Q' a w) : Outline D i P p Q' := by
  induction h with
  | ret hstable ha => exact .ret hstable fun w hw hP => hQ _ w hw (ha w hw hP)
  | op hstable hcorrect _ ih => exact .op hstable hcorrect fun b => ih b hQ
  | loop hstable hL hbody _ _ ih => exact .loop hstable hL hbody fun b => ih b hQ

/-- Sequential composition. -/
theorem bind {p : Prog Op α} {f : α → Prog Op γ} {R : α → W → Prop} {Q : γ → W → Prop}
    (h : Outline D i P p R) (hf : ∀ a, Outline D i (R a) (f a) Q) :
    Outline D i P (p.bind f) Q := by
  induction h with
  | ret hstable ha => exact (hf _).pre hstable ha
  | op hstable hcorrect _ ih => exact .op hstable hcorrect fun b => ih b hf
  | loop hstable hL hbody _ _ ih => exact .loop hstable hL hbody fun b => ih b hf

/-- A single operation. -/
theorem perform {o : Op β} {R : β → W → Prop} (hstable : D.Stable i P)
    (hcorrect : D.Correct i P o R) (hR : ∀ b, D.Stable i (R b)) :
    Outline D i P (Prog.perform o) R :=
  .op hstable hcorrect fun b => .ret (hR b) fun _ _ h => h

/-- A loop on its own. -/
theorem forever {s : σ} {body : σ → Prog Op (σ ⊕ β)} {L : σ → W → Prop} {R : β → W → Prop}
    (hbody : ∀ s, Outline D i (L s) (body s) (Sum.elim L R)) (hR : ∀ b, D.Stable i (R b)) :
    Outline D i (L s) (Prog.forever s body) R :=
  .loop (hbody s).stable (fun _ _ h => h) hbody fun b => .ret (hR b) fun _ _ h => h

/-- A loop passes through its body and goes on. -/
theorem unroll {s : σ} {body : σ → Prog Op (σ ⊕ β)} {k : β → Prog Op α} {Q : α → W → Prop}
    (h : Outline D i P (.loop s body k) Q) : ∃ P' : W → Prop, (∀ w, D.inv w → P w → P' w) ∧
      Outline D i P' ((body s).bind (Prog.again body k)) Q := by
  cases h with
  | loop _ hL hbody hk =>
    refine ⟨_, hL, (hbody s).bind fun x => ?_⟩
    cases x with
    | inl s => exact .loop (hbody s).stable (fun _ _ h => h) hbody hk
    | inr b => exact hk b

/-- One step along an outline. -/
theorem step {p p' : Prog Op α} {Q : α → W → Prop} {o : Op β} {b : β} {w w' : W}
    (h : Outline D i P p Q) (hw : D.inv w) (hP : P w) (hstep : p.Step o b p')
    (hM : M.step i w o b w') :
    D.inv w' ∧ D.guar i w w' ∧ ∃ P', P' w' ∧ Outline D i P' p' Q := by
  induction hstep generalizing P with
  | op o k b =>
    cases h with
    | op _ hcorrect hk =>
      obtain ⟨hinv, hguar, hR⟩ := hcorrect w b w' hw hP hM
      exact ⟨hinv, hguar, _, hR, hk b⟩
  | loop _ ih =>
    obtain ⟨P', hP', hbody⟩ := h.unroll
    exact ih hbody (hP' w hw hP) hM

/-- An assertion about some value that is not named. -/
theorem of_exists {γ : Type v} {P : γ → W → Prop} {p : Prog Op α} {Q : α → W → Prop}
    (hstable : D.Stable i fun w => ∃ x, P x w) (h : ∀ x, Outline D i (P x) p Q) :
    Outline D i (fun w => ∃ x, P x w) p Q := by
  induction p generalizing γ P with
  | ret a =>
    refine .ret hstable fun w hw ⟨x, hP⟩ => ?_
    cases h x with
    | ret _ hQ => exact hQ w hw hP
  | op o k ih =>
    have hex : ∀ x, ∃ R : _ → W → Prop, D.Correct i (P x) o R ∧
        ∀ b, Outline D i (R b) (k b) Q := by
      intro x
      cases h x with
      | op _ hcorrect hk => exact ⟨_, hcorrect, hk⟩
    choose R hcorrect hk using hex
    refine .op (R := fun b w => ∃ x, R x b w) hstable ?_ fun b => ih b ?_ fun x => hk x b
    · rintro w b w' hw ⟨x, hP⟩ hM
      obtain ⟨hw', hguar, hR⟩ := hcorrect x w b w' hw hP hM
      exact ⟨hw', hguar, x, hR⟩
    · intro w w' hw hw' ⟨x, hR⟩ hrely
      exact ⟨x, (hk x b).stable w w' hw hw' hR hrely⟩
  | loop v body k ihbody ih =>
    have hex : ∀ x, ∃ (L : _ → W → Prop) (R : _ → W → Prop),
        (∀ w, D.inv w → P x w → L v w) ∧
        (∀ v, Outline D i (L v) (body v) (Sum.elim L R)) ∧ ∀ b, Outline D i (R b) (k b) Q := by
      intro x
      cases h x with
      | loop _ hL hbody hk => exact ⟨_, _, hL, hbody, hk⟩
    choose L R hL hbody hk using hex
    refine .loop (L := fun v w => ∃ x, L x v w) (R := fun b w => ∃ x, R x b w) hstable
      (fun w hw ⟨x, hP⟩ => ⟨x, hL x w hw hP⟩) (fun v => ihbody v ?_ fun x => ?_)
      fun b => ih b ?_ fun x => hk x b
    · intro w w' hw hw' ⟨x, h⟩ hrely
      exact ⟨x, (hbody x v).stable w w' hw hw' h hrely⟩
    · apply (hbody x v).post
      rintro (v | b) w _ h <;> exact ⟨x, h⟩
    · intro w w' hw hw' ⟨x, h⟩ hrely
      exact ⟨x, (hk x b).stable w w' hw hw' h hrely⟩

/-- An assertion that the code for each keeps. -/
theorem each {γ : Type} {f : γ → Prog Op α} {Q : List α → W → Prop}
    (hf : ∀ as x, Outline D i (Q as) (f x) fun a => Q (as ++ [a])) (as : List α) (xs : List γ)
    (hQ : ∀ as, D.Stable i (Q as)) :
    Outline D i (Q as) (Prog.each f xs) fun bs => Q (as ++ bs) := by
  induction xs generalizing as with
  | nil => exact .ret (hQ as) fun _ _ h => by rwa [List.append_nil]
  | cons x xs ih =>
    refine (hf as x).bind fun a => (ih (as ++ [a])).bind fun bs => .ret (hQ _) fun _ _ h => ?_
    rwa [List.append_assoc, List.singleton_append] at h

/-- An assertion that every operation of the program keeps. -/
theorem only {X : {β : Type} → Op β → Prop}
    (hX : ∀ {β : Type} (o : Op β), X o → D.Correct i P o fun _ => P) (hstable : D.Stable i P)
    {p : Prog Op α} (hp : p.Only X) : Outline D i P p fun _ => P := by
  induction p with
  | ret a => exact .ret hstable fun _ _ h => h
  | op o k ih => exact .op hstable (hX o hp.1) fun b => ih b (hp.2 b)
  | loop s body k ihbody ih =>
    refine .loop hstable (fun _ _ h => h) (fun s => (ihbody s (hp.1 s)).post ?_)
      fun b => ih b (hp.2 b)
    rintro (s | b) w _ h <;> exact h

/-! ### Programs that may fail -/

/-- What follows a program that may fail is run only if it does not. -/
theorem seq {x : Fallible Op ε α} {f : α → Fallible Op ε β} {R : Except ε α → W → Prop}
    {Q : Except ε β → W → Prop} (h : Outline D i P x R)
    (herror : ∀ e, Outline D i (R (.error e)) (.ret (.error e)) Q)
    (hok : ∀ a, Outline D i (R (.ok a)) (f a) Q) :
    Outline D i P (x >>= f : Fallible Op ε β) Q := by
  refine h.bind fun r => ?_
  cases r with
  | error e => exact herror e
  | ok a => exact hok a

/-- An operation that may fail, with its error converted. -/
theorem attempt {o : Op (Except ε α)} {f : ε → ε'} {R : Except ε α → W → Prop}
    {Q : Except ε' α → W → Prop} (hstable : D.Stable i P) (hcorrect : D.Correct i P o R)
    (hQ : ∀ r, Outline D i (R r) (.ret (r.mapError f)) Q) :
    Outline D i P ((Fallible.attempt o).mapError f) Q :=
  .op hstable hcorrect hQ

/-- A program that may not fail, before one that may. -/
theorem lift_seq {p : Prog Op α} {f : α → Fallible Op ε β} {R : α → W → Prop}
    {Q : Except ε β → W → Prop} (h : Outline D i P p R) (hf : ∀ a, Outline D i (R a) (f a) Q) :
    Outline D i P (Fallible.lift p >>= f : Fallible Op ε β) Q := by
  rw [Fallible.lift_bind]
  exact h.bind hf

/-- An operation that may not fail, before a program that may. -/
theorem perform_seq {o : Op α} {f : α → Fallible Op ε β} {R : α → W → Prop}
    {Q : Except ε β → W → Prop} (hstable : D.Stable i P) (hcorrect : D.Correct i P o R)
    (hf : ∀ a, Outline D i (R a) (f a) Q) :
    Outline D i P (Fallible.perform o >>= f : Fallible Op ε β) Q :=
  .op hstable hcorrect hf

theorem check {c : Prop} [Decidable c] {e : ε} {Q : Except ε Unit → W → Prop}
    (hok : c → Outline D i P (.ret (.ok ())) Q) (herror : ¬c → Outline D i P (.ret (.error e)) Q) :
    Outline D i P (Fallible.check c e) Q := by
  by_cases hc : c
  · simpa only [Fallible.check, if_pos hc] using hok hc
  · simpa only [Fallible.check, if_neg hc] using herror hc

/-- A check before a program that runs only if it passes. -/
theorem check_seq {c : Prop} [Decidable c] {e : ε} {f : Unit → Fallible Op ε α}
    {Q : Except ε α → W → Prop} (hstable : D.Stable i P)
    (herror : ∀ w, D.inv w → P w → Q (.error e) w) (hok : c → Outline D i P (f ()) Q) :
    Outline D i P (Fallible.check c e >>= f : Fallible Op ε α) Q := by
  by_cases hc : c
  · rw [Fallible.check, if_pos hc]
    exact hok hc
  · rw [Fallible.check, if_neg hc]
    exact .ret hstable herror

/-- A result that is there already, before a program that runs only if it is a value. -/
theorem ofExcept_seq {r : Except ε α} {f : α → Fallible Op ε β}
    {Q : Except ε β → W → Prop} (hstable : D.Stable i P)
    (herror : ∀ e, r = .error e → ∀ w, D.inv w → P w → Q (.error e) w)
    (hok : ∀ a, r = .ok a → Outline D i P (f a) Q) :
    Outline D i P (Fallible.ofExcept r >>= f : Fallible Op ε β) Q := by
  rcases r with e | a
  · exact .ret hstable (herror e rfl)
  · exact hok a rfl

/-- What is asserted of a value, and what of an error. -/
def Outcome (R : α → W → Prop) (E : ε → W → Prop) : Except ε α → W → Prop
  | .ok a => R a
  | .error e => E e

theorem stable_outcome {R : α → W → Prop} {E : ε → W → Prop} (hR : ∀ a, D.Stable i (R a))
    (hE : ∀ e, D.Stable i (E e)) (r : Except ε α) : D.Stable i (Outcome R E r) := by
  rcases r with e | a
  · exact hE e
  · exact hR a

/-- What follows a result, by what is asserted of it. -/
theorem bind_outcome {x : Prog Op (Except ε α)} {f : Except ε α → Prog Op β} {R : α → W → Prop}
    {E : ε → W → Prop} {Q : β → W → Prop} (h : Outline D i P x (Outcome R E))
    (hok : ∀ a, Outline D i (R a) (f (.ok a)) Q)
    (herror : ∀ e, Outline D i (E e) (f (.error e)) Q) : Outline D i P (x.bind f) Q := by
  refine h.bind fun r => ?_
  cases r with
  | error e => exact herror e
  | ok a => exact hok a

/-- What follows a program that may fail, by what is asserted of its values. -/
theorem onward {x : Fallible Op ε α} {f : α → Fallible Op ε β} {R : α → W → Prop}
    {E : ε → W → Prop} {Q : Except ε β → W → Prop} (h : Outline D i P x (Outcome R E))
    (hE : ∀ e, D.Stable i (E e)) (herror : ∀ e w, D.inv w → E e w → Q (.error e) w)
    (hok : ∀ a, Outline D i (R a) (f a) Q) : Outline D i P (x >>= f : Fallible Op ε β) Q :=
  h.seq (fun e => .ret (hE e) (herror e)) hok

/-- What the body of a loop that an error leaves has to establish: the loop's assertion for
another pass, or that of the result. -/
def Passes (L : σ → W → Prop) (R : Except ε β → W → Prop) : Except ε (σ ⊕ β) → W → Prop
  | .error e => R (.error e)
  | .ok (.inl s) => L s
  | .ok (.inr b) => R (.ok b)

/-- A loop that an error leaves. -/
theorem repeats {s : σ} {body : σ → Fallible Op ε (σ ⊕ β)} {L : σ → W → Prop}
    {R : Except ε β → W → Prop} (hbody : ∀ s, Outline D i (L s) (body s) (Passes L R))
    (hR : ∀ b, D.Stable i (R b)) : Outline D i (L s) (Fallible.forever s body) R := by
  refine forever (fun s => (hbody s).bind fun r => ?_) hR
  rcases r with e | s | b
  · exact .ret (hR _) fun _ _ h => h
  · exact .ret (hbody s).stable fun _ _ h => h
  · exact .ret (hR _) fun _ _ h => h

end Outline

/-! ## Threads -/

/-- A world and the threads in it; a thread that has vanished has no program. -/
structure Pool (Op : Type → Type) (ι : Type) (W : Type u) where
  world : W
  threads : ι → Option (Prog Op Unit)

section Pools

variable [DecidableEq ι]

/-- One operation of thread `i`. -/
def Pool.Acts (M : Machine Op ι W) (s : Pool Op ι W) (i : ι) (t : Pool Op ι W) : Prop :=
  ∃ (p p' : Prog Op Unit) (β : Type) (o : Op β) (b : β), s.threads i = some p ∧ p.Step o b p' ∧
    M.step i s.world o b t.world ∧ t.threads = Function.update s.threads i (some p')

/-- Thread `i` vanishes. -/
def Pool.Vanishes (M : Machine Op ι W) (s : Pool Op ι W) (i : ι) (t : Pool Op ι W) : Prop :=
  s.threads i ≠ none ∧ M.vanish i s.world t.world ∧ t.threads = Function.update s.threads i none

/-- The threads of a machine, each with its program, from one of the worlds `init`. A label
names the thread that moves. -/
def pool (M : Machine Op ι W) (main : ι → Prog Op Unit) (init : W → Prop) :
    LTS (Pool Op ι W) ι where
  init s := init s.world ∧ s.threads = fun i => some (main i)
  step s i t := s.Acts M i t ∨ s.Vanishes M i t

/-- A reachable state and one more operation. -/
theorem Pool.reachable_acts {main : ι → Prog Op Unit} {init : W → Prop} {s : Pool Op ι W}
    (h : (pool M main init).Reachable s) (i : ι) {p p' : Prog Op Unit} (hp : s.threads i = some p)
    {β : Type} {o : Op β} {b : β} (hnext : p.Step o b p') {w' : W} (hM : M.step i s.world o b w') :
    (pool M main init).Reachable ⟨w', Function.update s.threads i (some p')⟩ :=
  h.step (.inl ⟨p, p', β, o, b, hp, hnext, hM, rfl⟩)

/-- The same where the operation is the first of the program. -/
theorem Pool.reachable_op {main : ι → Prog Op Unit} {init : W → Prop} {s : Pool Op ι W}
    (h : (pool M main init).Reachable s) (i : ι) {β : Type} (o : Op β) (b : β)
    {k : β → Prog Op Unit} (hp : s.threads i = some (.op o k)) {w' : W}
    (hM : M.step i s.world o b w') :
    (pool M main init).Reachable ⟨w', Function.update s.threads i (some (k b))⟩ :=
  Pool.reachable_acts h i hp (.op o k b) hM

namespace Outline

variable {D : Regime M} {main : ι → Prog Op Unit} {init : W → Prop} {Pre : ι → W → Prop}
  {Q : Unit → W → Prop}

/-- Every thread that is there has an outline from an assertion that holds. -/
def Outlined (D : Regime M) (Q : Unit → W → Prop) (s : Pool Op ι W) : Prop :=
  D.inv s.world ∧ ∀ i p, s.threads i = some p → ∃ P : W → Prop, P s.world ∧ Outline D i P p Q

/-- Any step keeps the outlines, and its guarantee. -/
theorem Outlined.step {s t : Pool Op ι W} {i : ι} (h : Outlined D Q s)
    (hstep : (pool M main init).step s i t) : Outlined D Q t ∧ D.guar i s.world t.world := by
  obtain ⟨hinv, hthreads⟩ := h
  -- the other threads' assertions are stable
  have hothers : ∀ {w'}, D.inv w' → D.guar i s.world w' → ∀ j p, j ≠ i → s.threads j = some p →
      ∃ P : W → Prop, P w' ∧ Outline D j P p Q := by
    intro w' hinv' hguar j p hj hp
    obtain ⟨P, hP, hout⟩ := hthreads j p hp
    exact ⟨P, hout.stable _ _ hinv hinv' hP (D.compatible i j _ _ (Ne.symm hj) hinv hinv' hguar),
      hout⟩
  rcases hstep with ⟨p, p', β, o, b, hp, hnext, hM, hthreads'⟩ | ⟨-, hvanish, hthreads'⟩
  · obtain ⟨P, hP, hout⟩ := hthreads i p hp
    obtain ⟨hinv', hguar, hout'⟩ := hout.step hinv hP hnext hM
    refine ⟨⟨hinv', fun j q hq => ?_⟩, hguar⟩
    rw [hthreads', Function.update_apply] at hq
    split at hq
    · rename_i hj
      obtain rfl := Option.some.inj hq
      rw [hj]
      exact hout'
    · rename_i hj
      exact hothers hinv' hguar j q hj hq
  · obtain ⟨hinv', hguar⟩ := D.vanishing i _ _ hinv hvanish
    refine ⟨⟨hinv', fun j q hq => ?_⟩, hguar⟩
    rw [hthreads', Function.update_apply] at hq
    split at hq
    · cases hq
    · rename_i hj
      exact hothers hinv' hguar j q hj hq

/-- **Soundness.** Under outlines of all programs the invariant holds of every reachable
world. -/
theorem sound (hmain : ∀ i, Outline D i (Pre i) (main i) Q)
    (hinit : ∀ w, init w → D.inv w ∧ ∀ i, Pre i w) {s : Pool Op ι W}
    (h : (pool M main init).Reachable s) : Outlined D Q s := by
  refine h.invariant (fun s hs => ?_) fun s i t hs hstep => (hs.step hstep).1
  obtain ⟨hworld, hthreads⟩ := hs
  obtain ⟨hinv, hpre⟩ := hinit _ hworld
  refine ⟨hinv, fun i p hp => ?_⟩
  rw [hthreads] at hp
  obtain rfl := Option.some.inj hp
  exact ⟨Pre i, hpre i, hmain i⟩

end Outline

end Pools

/-! ## Histories -/

/-- An operation that was performed, and its answer. -/
structure Event (Op : Type → Type) where
  {β : Type}
  op : Op β
  answer : β

/-- The machine that answers anything, and records it. -/
def histories (Op : Type → Type) : Machine Op Unit (List (Event Op)) where
  step _ h _ o b h' := h' = h ++ [⟨o, b⟩]
  vanish _ h h' := h' = h

/-- A history of a program: what it may have done by some moment, whatever the answers. -/
def Prog.History {α : Type} (p : Prog Op α) (h : List (Event Op)) : Prop :=
  ∃ s, (pool (histories Op) (fun _ => p.bind fun _ => .ret ()) (· = [])).Reachable s ∧ s.world = h

/-- The program may return `a`, with this history. -/
inductive Prog.Runs {α : Type} : Prog Op α → List (Event Op) → α → Prop where
  | ret (a : α) : Runs (.ret a) [] a
  | step {β : Type} {p p' : Prog Op α} {o : Op β} {b : β} {h : List (Event Op)} {a : α} :
      p.Step o b p' → Runs p' h a → Runs p (⟨o, b⟩ :: h) a

/-- A property of histories, of a program alone. -/
def Regime.alone (inv : List (Event Op) → Prop) : Regime (histories Op) where
  inv := inv
  guar _ _ _ := True
  rely _ _ _ := False
  compatible _ _ _ _ hij := absurd rfl hij
  vanishing _ _ _ hw hvanish := ⟨hvanish ▸ hw, trivial⟩

@[simp] theorem Regime.alone_stable {inv : List (Event Op) → Prop} {P : List (Event Op) → Prop} :
    (Regime.alone inv).Stable () P := fun _ _ _ _ _ h => h.elim

/-- Every history of a program with an outline satisfies the invariant. -/
theorem Prog.History.invariant {α : Type} {p : Prog Op α} {inv : List (Event Op) → Prop}
    {Q : α → List (Event Op) → Prop} (hp : Outline (Regime.alone inv) () (· = []) p Q)
    (hnil : inv []) {h : List (Event Op)} (hh : p.History h) : inv h := by
  obtain ⟨s, hs, rfl⟩ := hh
  have hmain : ∀ i, Outline (Regime.alone inv) i (· = []) (p.bind fun _ => Prog.ret ())
      fun _ _ => True :=
    fun _ => hp.bind fun _ => .ret Regime.alone_stable fun _ _ _ => trivial
  have hinit : ∀ w : List (Event Op), w = [] →
      (Regime.alone inv).inv w ∧ ∀ _ : Unit, w = [] := by
    rintro w rfl
    exact ⟨hnil, fun _ => rfl⟩
  exact (Outline.sound hmain hinit hs).1

/-- What an outline says of a program that has returned. -/
theorem Prog.Runs.sound {α : Type} {p : Prog Op α} {inv : List (Event Op) → Prop}
    {P : List (Event Op) → Prop} {Q : α → List (Event Op) → Prop} {h : List (Event Op)} {a : α}
    (hrun : p.Runs h a) : ∀ {before : List (Event Op)}, Outline (Regime.alone inv) () P p Q →
      inv before → P before → Q a (before ++ h) := by
  induction hrun generalizing P with
  | ret a =>
    intro before hp hinv hP
    cases hp with
    | ret _ hQ => simpa using hQ before hinv hP
  | step hstep _ ih =>
    intro before hp hinv hP
    obtain ⟨hinv', -, P', hP', hp'⟩ := hp.step hinv hP hstep rfl
    simpa using ih hp' hinv' hP'

/-! ## Runs on a machine -/

/-- The machine that also records what was done. -/
def Machine.recorded {ι : Type} {W : Type u} (M : Machine Op ι W) :
    Machine Op ι (W × List (Event Op)) where
  step i s _ o b s' := M.step i s.1 o b s'.1 ∧ s'.2 = s.2 ++ [⟨o, b⟩]
  vanish i s s' := M.vanish i s.1 s'.1 ∧ s'.2 = s.2

/-- Thread `i` may run the program from one world to another, alone, and return `a`. -/
inductive Prog.RunsOn {ι : Type} {W : Type u} (M : Machine Op ι W) (i : ι) {α : Type} :
    Prog Op α → W → α → W → Prop where
  | ret (a : α) (w : W) : RunsOn M i (.ret a) w a w
  | op {β : Type} {o : Op β} {k : β → Prog Op α} {b : β} {a : α} {w w' w'' : W} :
      M.step i w o b w' → RunsOn M i (k b) w' a w'' → RunsOn M i (.op o k) w a w''
  | loop {β σ : Type} {s : σ} {body : σ → Prog Op (σ ⊕ β)} {k : β → Prog Op α} {a : α} {w w' : W} :
      RunsOn M i ((body s).bind (again body k)) w a w' → RunsOn M i (.loop s body k) w a w'

/-- What follows a loop follows each of its passes. -/
theorem Prog.again_bind {α β γ σ : Type} (p : Prog Op (σ ⊕ β)) (body : σ → Prog Op (σ ⊕ β))
    (k : β → Prog Op α) (f : α → Prog Op γ) :
    (p.bind (again body k)).bind f = p.bind (again body fun b => (k b).bind f) := by
  rw [bind_assoc]
  refine congrArg p.bind (funext fun x => ?_)
  cases x <;> rfl

theorem Prog.RunsOn.bind {ι : Type} {W : Type u} {M : Machine Op ι W} {i : ι} {α γ : Type}
    {p : Prog Op α} {f : α → Prog Op γ} {a : α} {c : γ} {w w' w'' : W} (hp : p.RunsOn M i w a w')
    (hf : (f a).RunsOn M i w' c w'') : (p.bind f).RunsOn M i w c w'' := by
  induction hp with
  | ret a w => exact hf
  | op hM _ ih => exact .op hM (ih hf)
  | loop _ ih => exact .loop (again_bind _ _ _ f ▸ ih hf)

/-- A program that may fail goes on with its value. -/
theorem Prog.RunsOn.seq {ι : Type} {W : Type u} {M : Machine Op ι W} {i : ι} {ε α β : Type}
    {x : Fallible Op ε α} {f : α → Fallible Op ε β} {a : α} {r : Except ε β} {w w' w'' : W}
    (hx : Prog.RunsOn M i x w (.ok a) w') (hf : Prog.RunsOn M i (f a) w' r w'') :
    Prog.RunsOn M i (x >>= f : Fallible Op ε β) w r w'' :=
  Prog.RunsOn.bind hx hf

theorem Prog.RunsOn.check {ι : Type} {W : Type u} {M : Machine Op ι W} {i : ι} {ε : Type} {c : Prop}
    [Decidable c] {e : ε} {w : W} (hc : c) : Prog.RunsOn M i (Fallible.check c e) w (.ok ()) w := by
  rw [Fallible.check, if_pos hc]
  exact .ret _ _

theorem Prog.RunsOn.ofExcept {ι : Type} {W : Type u} {M : Machine Op ι W} {i : ι} {ε α : Type}
    {r : Except ε α} {a : α} {w : W} (hr : r = .ok a) :
    Prog.RunsOn M i (Fallible.ofExcept r : Fallible Op ε α) w (.ok a) w :=
  hr ▸ .ret _ _

theorem Prog.RunsOn.perform {ι : Type} {W : Type u} {M : Machine Op ι W} {i : ι} {β : Type}
    {o : Op β} {b : β} {w w' : W} (hM : M.step i w o b w') :
    (Prog.perform o).RunsOn M i w b w' :=
  .op hM (.ret _ _)

theorem Prog.RunsOn.lift {ι : Type} {W : Type u} {M : Machine Op ι W} {i : ι} {ε α : Type}
    {p : Prog Op α} {a : α} {w w' : W} (h : p.RunsOn M i w a w') :
    Prog.RunsOn M i (Fallible.lift p : Fallible Op ε α) w (.ok a) w' :=
  h.bind (.ret _ _)

section Loops

variable {ι : Type} {W : Type u} {M : Machine Op ι W} {i : ι} {ε σ β : Type} {s t : σ}
  {body : σ → Fallible Op ε (σ ⊕ β)} {w w' w'' : W}

/-- A loop that is left. -/
theorem Prog.RunsOn.done {b : β} (h : Prog.RunsOn M i (body s) w (.ok (.inr b)) w') :
    Prog.RunsOn M i (Fallible.forever s body) w (.ok b) w' := by
  refine .loop ?_
  rw [Prog.bind_assoc]
  exact Prog.RunsOn.bind h (.ret _ _)

/-- A loop that goes on. -/
theorem Prog.RunsOn.pass {r : Except ε β} (h : Prog.RunsOn M i (body s) w (.ok (.inl t)) w')
    (hrest : Prog.RunsOn M i (Fallible.forever t body) w' r w'') :
    Prog.RunsOn M i (Fallible.forever s body) w r w'' := by
  refine .loop ?_
  rw [Prog.bind_assoc]
  exact Prog.RunsOn.bind h hrest

end Loops

/-! ### Runs of a thread in a pool -/

/-- `p` can do whatever `q` can. -/
def Prog.Covers {α : Type} (p q : Prog Op α) : Prop :=
  ∀ (β : Type) (o : Op β) (b : β) (q' : Prog Op α), q.Step o b q' → p.Step o b q'

/-- A loop can do what its body can, and then again the loop. -/
theorem Prog.Covers.unroll {α γ σ : Type} {p : Prog Op α} {s : σ} {body : σ → Prog Op (σ ⊕ γ)}
    {k : γ → Prog Op α} (h : p.Covers (.loop s body k)) :
    p.Covers ((body s).bind (again body k)) :=
  fun β o b q' hstep => h β o b q' (.loop hstep)

section Threads

variable [DecidableEq ι] {main : ι → Prog Op Unit} {init : W → Prop} {i : ι} {s : Pool Op ι W}

/-- A thread may run a part of its program while the others rest. -/
theorem Pool.reachable_alone {α : Type} {q : Prog Op α} {f : α → Prog Op Unit} {a : α} {w w' : W}
    (hrun : q.RunsOn M i w a w') {threads : ι → Option (Prog Op Unit)} {p : Prog Op Unit}
    (h : (pool M main init).Reachable ⟨w, threads⟩) (hp : threads i = some p)
    (hcovers : p.Covers (q.bind f)) : ∃ p' : Prog Op Unit, p'.Covers (f a) ∧
      (pool M main init).Reachable ⟨w', Function.update threads i (some p')⟩ := by
  induction hrun generalizing threads p with
  | ret a w => exact ⟨p, hcovers, by rwa [← hp, Function.update_eq_self]⟩
  | @op β o k b a w w' w'' hM _ ih =>
    have hnext := Pool.reachable_acts h i hp (hcovers β o b _ (.op o _ b)) hM
    obtain ⟨p', hcovers', hreach⟩ :=
      ih hnext (Function.update_self ..) fun _ _ _ _ hstep => hstep
    exact ⟨p', hcovers', by rwa [Function.update_idem] at hreach⟩
  | loop _ ih =>
    refine ih h hp fun β o b q' hstep => hcovers β o b q' (.loop ?_)
    rwa [← Prog.again_bind]

/-- The same, with nothing said of the others. -/
theorem Pool.reachable_runs {α : Type} {q : Prog Op α} {f : α → Prog Op Unit} {a : α} {w w' : W}
    (hrun : q.RunsOn M i w a w') {p : Prog Op Unit} (h : (pool M main init).Reachable s)
    (hw : s.world = w) (hp : s.threads i = some p) (hcovers : p.Covers (q.bind f)) :
    ∃ t, (pool M main init).Reachable t ∧ t.world = w' ∧
      ∃ p', t.threads i = some p' ∧ p'.Covers (f a) := by
  subst hw
  obtain ⟨p', hcovers', hreach⟩ := Pool.reachable_alone hrun h hp hcovers
  exact ⟨_, hreach, rfl, p', Function.update_self .., hcovers'⟩

/-- A thread may pass through its loop. -/
theorem Pool.reachable_pass {γ σ : Type} {v v' : σ} {body : σ → Prog Op (σ ⊕ γ)}
    {k : γ → Prog Op Unit} {w' : W} {p : Prog Op Unit} (h : (pool M main init).Reachable s)
    (hp : s.threads i = some p) (hcovers : p.Covers (.loop v body k))
    (hrun : (body v).RunsOn M i s.world (.inl v') w') :
    ∃ t, (pool M main init).Reachable t ∧ t.world = w' ∧
      ∃ p', t.threads i = some p' ∧ p'.Covers (.loop v' body k) :=
  Pool.reachable_runs hrun h rfl hp hcovers.unroll

end Threads

theorem Prog.RunsOn.recorded {ι : Type} {W : Type u} {M : Machine Op ι W} {i : ι} {α β : Type}
    {o : Op β} {k : β → Prog Op α} {a : α} {w w' : W} {h : List (Event Op)}
    {s : W × List (Event Op)} (b : β) (hM : M.step i w o b w')
    (hrun : Prog.RunsOn M.recorded i (k b) (w', h ++ [⟨o, b⟩]) a s) :
    Prog.RunsOn M.recorded i (.op o k) (w, h) a s :=
  .op ⟨hM, rfl⟩ hrun

/-- The regime of a machine with one thread. -/
def Regime.solo {W : Type u} (M : Machine Op Unit W) : Regime M where
  inv _ := True
  guar _ _ _ := True
  rely _ _ _ := False
  compatible _ _ _ _ hij := absurd rfl hij
  vanishing _ _ _ _ _ := ⟨trivial, trivial⟩

@[simp] theorem Regime.solo_stable {W : Type u} {M : Machine Op Unit W} {P : W → Prop} :
    (Regime.solo M).Stable () P := fun _ _ _ _ _ h => h.elim

/-- The regime of a machine with one thread, which keeps an invariant. -/
def Regime.keeping {W : Type u} (M : Machine Op Unit W) (inv : W → Prop)
    (hvanish : ∀ w w', M.vanish () w w' → w' = w) : Regime M where
  inv := inv
  guar _ _ _ := True
  rely _ _ _ := False
  compatible _ _ _ _ hij := absurd rfl hij
  vanishing _ w w' hw h := ⟨hvanish w w' h ▸ hw, trivial⟩

@[simp] theorem Regime.keeping_stable {W : Type u} {M : Machine Op Unit W} {inv : W → Prop}
    {hvanish : ∀ w w', M.vanish () w w' → w' = w} {P : W → Prop} :
    (Regime.keeping M inv hvanish).Stable () P := fun _ _ _ _ _ h => h.elim

/-- A program about which nothing is to be shown. -/
theorem Outline.idle {W : Type u} {M : Machine Op Unit W} {α : Type} {P : W → Prop}
    (p : Prog Op α) : Outline (Regime.solo M) () P p fun _ _ => True := by
  induction p generalizing P with
  | ret a => exact .ret Regime.solo_stable fun _ _ _ => trivial
  | op o k ih =>
    exact .op (R := fun _ _ => True) Regime.solo_stable
      (fun _ _ _ _ _ _ => ⟨trivial, trivial, trivial⟩) fun b => ih b
  | loop v body k ihbody ih =>
    refine .loop (L := fun _ _ => True) (R := fun _ _ => True) Regime.solo_stable
      (fun _ _ _ => trivial) (fun v => (ihbody v).post ?_) fun b => ih b
    rintro (v | b) w - - <;> trivial

/-- What an outline says of a run. -/
theorem Prog.RunsOn.sound {W : Type u} {M : Machine Op Unit W} {α : Type} {p : Prog Op α}
    {a : α} {w w' : W} (hrun : p.RunsOn M () w a w') : ∀ {P : W → Prop} {Q : α → W → Prop},
      Outline (Regime.solo M) () P p Q → P w → Q a w' := by
  induction hrun with
  | ret a w =>
    intro P Q hp hP
    cases hp with
    | ret _ hQ => exact hQ w trivial hP
  | op hM _ ih =>
    intro P Q hp hP
    cases hp with
    | op _ hcorrect hk => exact ih (hk _) (hcorrect _ _ _ trivial hP hM).2.2
  | loop _ ih =>
    intro P Q hp hP
    obtain ⟨P', hP', hp'⟩ := hp.unroll
    exact ih hp' (hP' _ trivial hP)

/-- A run keeps what its operations keep. -/
theorem Prog.RunsOn.only {ι : Type} {W : Type u} {M : Machine Op ι W} {i : ι} {α : Type}
    {X : {β : Type} → Op β → Prop} {P : W → Prop} {p : Prog Op α} {a : α} {w w' : W}
    (hrun : p.RunsOn M i w a w')
    (hstep : ∀ {β : Type} (o : Op β) w b w', X o → P w → M.step i w o b w' → P w')
    (hp : p.Only X) (hw : P w) : P w' := by
  induction hrun with
  | ret a w => exact hw
  | op hM _ ih => exact ih (hp.2 _) (hstep _ _ _ _ hp.1 hw hM)
  | @loop _ _ s body k _ _ _ _ ih =>
    refine ih (Prog.Only.bind (hp.1 s) fun x => ?_) hw
    rcases x with s | b
    · exact ⟨hp.1, hp.2⟩
    · exact hp.2 b

/-- The same with an invariant. -/
theorem Prog.RunsOn.outlined {ι : Type} {W : Type u} {M : Machine Op ι W} {D : Regime M} {i : ι}
    {α : Type} {p : Prog Op α} {a : α} {w w' : W} (hrun : p.RunsOn M i w a w') :
    ∀ {P : W → Prop} {Q : α → W → Prop}, Outline D i P p Q → D.inv w → P w →
      D.inv w' ∧ Q a w' := by
  induction hrun with
  | ret a w =>
    intro P Q hp hw hP
    cases hp with
    | ret _ hQ => exact ⟨hw, hQ w hw hP⟩
  | op hM _ ih =>
    intro P Q hp hw hP
    cases hp with
    | op _ hcorrect hk =>
      obtain ⟨hw', -, hR⟩ := hcorrect _ _ _ hw hP hM
      exact ih (hk _) hw' hR
  | loop _ ih =>
    intro P Q hp hw hP
    obtain ⟨P', hP', hp'⟩ := hp.unroll
    exact ih hp' hw (hP' _ hw hP)

end Program
