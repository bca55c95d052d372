import SensorRemote.Lib.Program

/-!
# Where programs get to

Outlines say what holds if a program gets somewhere. `Leads` says that it does: whatever the
operations answer, each can be carried out, and after finitely many of them the program has come
to where an assertion about it and the world holds. `Halts` is where it has returned.
The rules follow the constructors, as those of outlines do; a loop is unrolled once, and what makes
it end is the induction of the proof that uses the rule.
-/

namespace Program

universe u

variable {Op Op' : Type → Type} {W : Type u} {α β γ ε σ : Type}

/-- Run alone from a world, the program gets to where `R` holds; `I` holds of the world until
then. -/
inductive Leads (M : Machine Op Unit W) (I : W → Prop) {α : Type} (R : Prog Op α → W → Prop) :
    Prog Op α → W → Prop where
  | here {p : Prog Op α} {w : W} : I w → R p w → Leads M I R p w
  | op {β : Type} {o : Op β} {k : β → Prog Op α} {w : W} : I w → (∃ b w', M.step () w o b w') →
      (∀ b w', M.step () w o b w' → Leads M I R (k b) w') → Leads M I R (.op o k) w
  | loop {β σ : Type} {s : σ} {body : σ → Prog Op (σ ⊕ β)} {k : β → Prog Op α} {w : W} :
      Leads M I R ((body s).bind (Prog.again body k)) w → Leads M I R (.loop s body k) w

/-- Run alone from a world, the program returns, and then `Q`. -/
abbrev Halts (M : Machine Op Unit W) {α : Type} (Q : α → W → Prop) : Prog Op α → W → Prop :=
  Leads M (fun _ => True) fun p w => ∃ a, p = .ret a ∧ Q a w

variable {M : Machine Op Unit W} {I : W → Prop} {R R' : Prog Op α → W → Prop} {w : W}

theorem Leads.mono {p : Prog Op α} (h : Leads M I R p w) (hR : ∀ p w, R p w → R' p w) :
    Leads M I R' p w := by
  induction h with
  | here hI h => exact .here hI (hR _ _ h)
  | op hI hex _ ih => exact .op hI hex ih
  | loop _ ih => exact .loop ih

/-- Nothing need be said of the world until then. -/
theorem Leads.anywhere {p : Prog Op α} (h : Leads M I R p w) :
    Leads M (fun _ => True) R p w := by
  induction h with
  | here _ h => exact .here trivial h
  | op _ hex _ ih => exact .op trivial hex ih
  | loop _ ih => exact .loop ih

/-- To get to where the program gets there is to get there. -/
theorem Leads.join {p : Prog Op α} (h : Leads M I (Leads M I R) p w) : Leads M I R p w := by
  induction h with
  | here _ h => exact h
  | op hI hex _ ih => exact .op hI hex ih
  | loop _ ih => exact .loop ih

theorem again_interp (handle : {β : Type} → Op β → Prog Op' β) {body : σ → Prog Op (σ ⊕ β)}
    {k : β → Prog Op α} (x : σ ⊕ β) : (Prog.again body k x).interp handle =
      Prog.again (fun s => (body s).interp handle) (fun b => (k b).interp handle) x := by
  cases x <;> rfl

/-- A loop whose operations are carried out by others: its first pass, and what follows it. -/
theorem Leads.interp_loop {N : Machine Op' Unit W} {handle : {β : Type} → Op β → Prog Op' β} {s : σ}
    {body : σ → Prog Op (σ ⊕ β)} {k : β → Prog Op α} {R : Prog Op' α → W → Prop}
    (h : Leads N I R (((body s).bind (Prog.again body k)).interp handle) w) :
    Leads N I R ((Prog.loop s body k).interp handle) w := by
  rw [Prog.interp_bind, funext (again_interp handle)] at h
  exact .loop h

/-- What follows a pass of a loop that an error leaves. -/
def Fallible.again (body : σ → Fallible Op ε (σ ⊕ β)) (k : Except ε β → Prog Op α) :
    Except ε (σ ⊕ β) → Prog Op α
  | .error e => k (.error e)
  | .ok (.inl s) => Prog.bind (Fallible.forever s body) k
  | .ok (.inr b) => k (.ok b)

theorem Leads.interp_forever {N : Machine Op' Unit W} {handle : {β : Type} → Op β → Prog Op' β}
    {s : σ} {body : σ → Fallible Op ε (σ ⊕ β)} {k : Except ε β → Prog Op α}
    {R : Prog Op' α → W → Prop}
    (h : Leads N I R ((Prog.bind (body s) (Fallible.again body k)).interp handle) w) :
    Leads N I R ((Prog.bind (Fallible.forever s body) k).interp handle) w := by
  refine .interp_loop ?_
  rw [Prog.bind_assoc]
  convert h using 3
  funext r
  rcases r with e | s | b <;> rfl

/-- What follows the first part of a sequence that may fail. -/
def Fallible.next (f : β → Fallible Op ε σ) (k : Except ε σ → Prog Op α) : Except ε β → Prog Op α
  | .error e => k (.error e)
  | .ok b => Prog.bind (f b) k

theorem Fallible.seq_bind (x : Fallible Op ε β) (f : β → Fallible Op ε σ)
    (k : Except ε σ → Prog Op α) :
    Prog.bind (x >>= f : Fallible Op ε σ) k = Prog.bind x (Fallible.next f k) := by
  refine (Prog.bind_assoc x _ _).trans (congrArg (Prog.bind x) (funext fun r => ?_))
  cases r <;> rfl

/-- Operations carried out by others, and those by yet others. -/
theorem interp_interp {Op'' : Type → Type} (handle : {β : Type} → Op β → Prog Op' β)
    (handle' : {β : Type} → Op' β → Prog Op'' β) (p : Prog Op α) :
    (p.interp handle).interp handle' = p.interp fun o => (handle o).interp handle' := by
  induction p with
  | ret a => rfl
  | op o k ih => simp only [Prog.interp, Prog.interp_bind, ih]
  | loop s body k ihbody ih => simp only [Prog.interp, ihbody, ih]

section Sequences

variable {N : Machine Op' Unit W} {handle : {β : Type} → Op β → Prog Op' β} {ε' : Type}
  {R : Prog Op' α → W → Prop}

theorem Leads.interp_seq {x : Fallible Op ε β} {f : β → Fallible Op ε σ}
    {k : Except ε σ → Prog Op α}
    (h : Leads N I R ((Prog.bind x (Fallible.next f k)).interp handle) w) :
    Leads N I R ((Prog.bind (x >>= f : Fallible Op ε σ) k).interp handle) w := by
  rwa [Fallible.seq_bind]

theorem Leads.interp_mapError {f : ε → ε'} {x : Fallible Op ε β} {k : Except ε' β → Prog Op α}
    (h : Leads N I R ((Prog.bind x fun r => k (r.mapError f)).interp handle) w) :
    Leads N I R ((Prog.bind (x.mapError f) k).interp handle) w := by
  rwa [Fallible.mapError, Prog.bind_assoc]

/-- A check that passes. -/
theorem Leads.interp_check {c : Prop} [Decidable c] {e : ε} {k : Except ε Unit → Prog Op α}
    (hc : c) (h : Leads N I R ((k (.ok ())).interp handle) w) :
    Leads N I R ((Prog.bind (Fallible.check c e) k).interp handle) w := by
  rw [Fallible.check, if_pos hc]
  exact h

theorem Leads.interp_lift {p : Prog Op β} {k : Except ε β → Prog Op α}
    (h : Leads N I R ((p.bind fun b => k (.ok b)).interp handle) w) :
    Leads N I R ((Prog.bind (Fallible.lift p : Fallible Op ε β) k).interp handle) w := by
  rwa [Fallible.lift, Prog.bind_assoc]

end Sequences

namespace Halts

theorem ret {a : α} {Q : α → W → Prop} (h : Q a w) : Halts M Q (.ret a) w :=
  .here trivial ⟨a, rfl, h⟩

theorem post {p : Prog Op α} {Q Q' : α → W → Prop} (h : Halts M Q p w)
    (hQ : ∀ a w, Q a w → Q' a w) : Halts M Q' p w :=
  h.mono fun _ _ ⟨a, hp, ha⟩ => ⟨a, hp, hQ a _ ha⟩

/-- What follows a program that returns. -/
theorem bind {p : Prog Op β} {f : β → Prog Op α} {Q : β → W → Prop} (h : Halts M Q p w)
    (hf : ∀ b w, Q b w → Leads M (fun _ => True) R (f b) w) :
    Leads M (fun _ => True) R (p.bind f) w := by
  induction h with
  | here _ h =>
    obtain ⟨b, rfl, hQ⟩ := h
    exact hf b _ hQ
  | op _ hex _ ih => exact .op trivial hex ih
  | loop _ ih =>
    rw [Prog.again_bind] at ih
    exact .loop ih

/-- The same program, its operations carried out as operations of another machine. -/
theorem interp {N : Machine Op' Unit W} (embed : {β : Type} → Op β → Op' β)
    (hstep : ∀ {β : Type} (w : W) (o : Op β) (b : β) (w' : W),
      N.step () w (embed o) b w' ↔ M.step () w o b w') {p : Prog Op α} {Q : α → W → Prop}
    (h : Halts M Q p w) : Halts N Q (p.interp fun o => Prog.perform (embed o)) w := by
  induction h with
  | here _ h =>
    obtain ⟨a, rfl, hQ⟩ := h
    exact .ret hQ
  | op _ hex _ ih =>
    obtain ⟨b, w', hM⟩ := hex
    exact .op trivial ⟨b, w', (hstep _ _ _ _).mpr hM⟩ fun b w' hN => ih b w' ((hstep _ _ _ _).mp hN)
  | @loop _ _ s body k w _ ih =>
    rw [Prog.interp_bind, funext (again_interp _)] at ih
    exact .loop ih

/-! ### Programs that may fail -/

/-- It is known which value a program returns. -/
theorem value {x : Fallible Op ε β} {b : β} {Q : W → Prop}
    (h : Halts M (fun r w => r = .ok b ∧ Q w) x w) :
    Halts M (fun r w => ∃ b', r = .ok b' ∧ b' = b ∧ Q w) x w :=
  h.post fun _ _ ⟨hr, hQ⟩ => ⟨b, hr, rfl, hQ⟩

/-- What follows a check that passes. -/
theorem check {c : Prop} [Decidable c] {e : ε} {f : Unit → Fallible Op ε β} {I : W → Prop}
    {R : Prog Op (Except ε β) → W → Prop} (hc : c) (hf : Leads M I R (f ()) w) :
    Leads M I R (Fallible.check c e >>= f : Fallible Op ε β) w := by
  rw [Fallible.check, if_pos hc]
  exact hf

/-- What follows a program that returns a value. -/
theorem seq {x : Fallible Op ε β} {f : β → Fallible Op ε α} {Q : β → W → Prop}
    {R : Prog Op (Except ε α) → W → Prop} (h : Halts M (fun r w => ∃ b, r = .ok b ∧ Q b w) x w)
    (hf : ∀ b w, Q b w → Leads M (fun _ => True) R (f b) w) :
    Leads M (fun _ => True) R (x >>= f : Fallible Op ε α) w := by
  apply Halts.bind h
  rintro _ w' ⟨b, rfl, hQ⟩
  exact hf b w' hQ

/-- A loop that no error leaves: one pass, after which it goes on or has its result. -/
theorem pass {s : σ} {body : σ → Fallible Op ε (σ ⊕ β)} {k : Except ε β → Prog Op α}
    {Q : σ ⊕ β → W → Prop} (h : Halts M (fun r w => ∃ x, r = .ok x ∧ Q x w) (body s) w)
    (hagain : ∀ s' w', Q (.inl s') w' →
      Leads M (fun _ => True) R (Prog.bind (Fallible.forever s' body) k) w')
    (hdone : ∀ b w', Q (.inr b) w' → Leads M (fun _ => True) R (k (.ok b)) w') :
    Leads M (fun _ => True) R (Prog.bind (Fallible.forever s body) k) w := by
  refine .loop ?_
  rw [Prog.bind_assoc]
  apply Halts.bind h
  rintro _ w' ⟨s' | b, rfl, hQ⟩
  · exact hagain s' w' hQ
  · exact hdone b w' hQ

end Halts

end Program
