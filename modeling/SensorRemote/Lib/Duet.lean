import Mathlib.Logic.Relation
import SensorRemote.Lib.Termination

/-!
# Two programs and a connection

Two parties, each a program with a world of its own, send each other messages over a connection
that keeps their order. A party's link carries out as many of its operations as the environment
likes and fails from then on; receiving waits for a message, unless the other party has gone.

The steps of the two commute. So to find out where all their interleavings lead it is enough to
look at those in which the first party moves whenever it can (`Certain.left`).
-/

namespace Program

open Transition

universe u v

/-- The operations of a connection with messages `μ`. -/
inductive LinkCall (μ ε : Type) : Type → Type where
  | send (m : μ) : LinkCall μ ε (Except ε Unit)
  | receive : LinkCall μ ε (Except ε μ)

/-- The operations of a party: its own, and those of the connection. -/
inductive LinkOp (Op : Type → Type) (μ ε β : Type) : Type where
  | act (o : Op β)
  | call (o : LinkCall μ ε β)

/-- What kind of operation it is. -/
inductive LinkKind where
  | act
  | send
  | receive

/-- As `LinkOp.kind`. -/
def LinkCall.kind {μ ε : Type} : {β : Type} → LinkCall μ ε β → LinkKind
  | _, .send _ => .send
  | _, .receive => .receive

/-- The kind of an operation. -/
def LinkOp.kind {Op : Type → Type} {μ ε β : Type} : LinkOp Op μ ε β → LinkKind
  | .act _ => .act
  | .call o => o.kind

section Programs

variable {Op : Type → Type} {α β β' γ σ : Type}

/-- The operation a program comes to, and how it goes on. -/
inductive Prog.At : {α : Type} → Prog Op α → {β : Type} → Op β → (β → Prog Op α) → Prop where
  | op {α β : Type} (o : Op β) (k : β → Prog Op α) : At (.op o k) o k
  | loop {α β γ σ : Type} {s : σ} {body : σ → Prog Op (σ ⊕ γ)} {k : γ → Prog Op α} {o : Op β}
      {k' : β → Prog Op α} : At ((body s).bind (again body k)) o k' → At (.loop s body k) o k'

/-- The program has returned, or does so without another operation. -/
inductive Prog.Halted : {α : Type} → Prog Op α → α → Prop where
  | ret {α : Type} (a : α) : Halted (.ret a) a
  | loop {α γ σ : Type} {s : σ} {body : σ → Prog Op (σ ⊕ γ)} {k : γ → Prog Op α} {a : α} :
      Halted ((body s).bind (again body k)) a → Halted (.loop s body k) a

/-- It comes to one operation only. -/
theorem Prog.At.unique {p : Prog Op α} {o : Op β} {k : β → Prog Op α} {o' : Op β'}
    {k' : β' → Prog Op α} (h : p.At o k) (h' : p.At o' k') :
    (⟨β, o, k⟩ : Σ β : Type, Op β × (β → Prog Op α)) = ⟨β', o', k'⟩ := by
  induction h with
  | op o k =>
    cases h'
    rfl
  | loop _ ih =>
    cases h' with
    | loop h' => exact ih h'

theorem Prog.At.kind_eq {μ ε : Type} {p : Prog (LinkOp Op μ ε) α} {o : LinkOp Op μ ε β}
    {k : β → Prog (LinkOp Op μ ε) α} {o' : LinkOp Op μ ε β'} {k' : β' → Prog (LinkOp Op μ ε) α}
    (h : p.At o k) (h' : p.At o' k') : o.kind = o'.kind :=
  congrArg (fun x : Σ β : Type, LinkOp Op μ ε β × (β → Prog (LinkOp Op μ ε) α) => x.2.1.kind)
    (h.unique h')

theorem Prog.Halted.not_at {p : Prog Op α} {a : α} {o : Op β} {k : β → Prog Op α}
    (h : p.Halted a) : ¬p.At o k := by
  induction h with
  | ret a =>
    intro hat
    cases hat
  | loop _ ih =>
    intro hat
    cases hat with
    | loop hat => exact ih hat

/-- The programs do the same. -/
structure Prog.Alike (p p' : Prog Op α) : Prop where
  at_iff : ∀ {β : Type} (o : Op β) (k : β → Prog Op α), p.At o k ↔ p'.At o k
  halted_iff : ∀ a, p.Halted a ↔ p'.Halted a

/-- A loop does what its first pass does, and then goes on. -/
theorem Prog.alike_loop (s : σ) (body : σ → Prog Op (σ ⊕ β)) (k : β → Prog Op α) :
    (loop s body k).Alike ((body s).bind (again body k)) where
  at_iff o k' := by
    constructor
    · rintro (_ | h)
      exact h
    · exact .loop
  halted_iff a := by
    constructor
    · rintro (_ | h)
      exact h
    · exact .loop

end Programs

/-! ## Parties -/

/-- A party. -/
structure Party (Op : Type → Type) (μ ε α : Type) (W : Type u) where
  prog : Prog (LinkOp Op μ ε) α
  world : W
  /-- how many more operations the link carries out, if it is to fail -/
  link : Option ℕ

variable {Op Op' : Type → Type} {μ ε α α' β : Type} {W W' : Type u}

namespace Party

/-- The party has come to its end. -/
def Gone (p : Party Op μ ε α W) : Prop := ∃ a, p.prog.Halted a

/-- Another operation of the link. -/
def use (p : Party Op μ ε α W) (prog : Prog (LinkOp Op μ ε) α) : Party Op μ ε α W :=
  { p with prog, link := p.link.map (· - 1) }

/-- A step of a party: its messages before and after, and what it has sent. `gone` says that the
other party has gone. -/
inductive Moves (M : Machine Op Unit W) (gone : Prop) :
    Party Op μ ε α W → List μ → Party Op μ ε α W → List μ → List μ → Prop where
  | act {β : Type} {p : Party Op μ ε α W} {inbox : List μ} {o : Op β}
      {k : β → Prog (LinkOp Op μ ε) α} {b : β} {w : W} : p.prog.At (.act o) k →
      M.step () p.world o b w → Moves M gone p inbox { p with prog := k b, world := w } inbox []
  | send {p : Party Op μ ε α W} {inbox : List μ} {m : μ}
      {k : Except ε Unit → Prog (LinkOp Op μ ε) α} : p.prog.At (.call (.send m)) k →
      p.link ≠ some 0 → Moves M gone p inbox (p.use (k (.ok ()))) inbox [m]
  | receive {p : Party Op μ ε α W} {inbox : List μ} {m : μ}
      {k : Except ε μ → Prog (LinkOp Op μ ε) α} : p.prog.At (.call .receive) k →
      p.link ≠ some 0 → Moves M gone p (m :: inbox) (p.use (k (.ok m))) inbox []
  | unsent {p : Party Op μ ε α W} {inbox : List μ} {m : μ}
      {k : Except ε Unit → Prog (LinkOp Op μ ε) α} {e : ε} : p.prog.At (.call (.send m)) k →
      p.link = some 0 → Moves M gone p inbox { p with prog := k (.error e) } inbox []
  | unreceived {p : Party Op μ ε α W} {inbox : List μ}
      {k : Except ε μ → Prog (LinkOp Op μ ε) α} {e : ε} : p.prog.At (.call .receive) k →
      p.link = some 0 ∨ inbox = [] ∧ gone →
      Moves M gone p inbox { p with prog := k (.error e) } inbox []

variable {M : Machine Op Unit W} {p p' : Party Op μ ε α W} {inbox inbox' later sent : List μ}
  {gone gone' : Prop}

theorem Moves.not_gone (h : Moves M gone p inbox p' inbox' sent) : ¬p.Gone := by
  rintro ⟨a, ha⟩
  cases h with
  | act hat _ | send hat _ | receive hat _ | unsent hat _ | unreceived hat _ => exact ha.not_at hat

/-- What a step at an operation of the party's own is. -/
theorem Moves.of_act {γ : Type} {o : Op γ} {k : γ → Prog (LinkOp Op μ ε) α}
    (hat : p.prog.At (.act o) k) (h : Moves M gone p inbox p' inbox' sent) :
    inbox' = inbox ∧ sent = [] ∧
      ∃ b w, M.step () p.world o b w ∧ p' = { p with prog := k b, world := w } := by
  cases h with
  | act hat' hM =>
    cases hat.unique hat'
    exact ⟨rfl, rfl, _, _, hM, rfl⟩
  | send hat' _ | receive hat' _ | unsent hat' _ | unreceived hat' _ =>
    have hkind := hat.kind_eq hat'
    cases hkind

theorem Moves.of_send {m : μ} {k : Except ε Unit → Prog (LinkOp Op μ ε) α}
    (hat : p.prog.At (.call (.send m)) k) (h : Moves M gone p inbox p' inbox' sent) :
    inbox' = inbox ∧ (p.link ≠ some 0 ∧ sent = [m] ∧ p' = p.use (k (.ok ())) ∨
      p.link = some 0 ∧ sent = [] ∧ ∃ e, p' = { p with prog := k (.error e) }) := by
  cases h with
  | send hat' hlink =>
    cases hat.unique hat'
    exact ⟨rfl, .inl ⟨hlink, rfl, rfl⟩⟩
  | unsent hat' hlink =>
    cases hat.unique hat'
    exact ⟨rfl, .inr ⟨hlink, rfl, _, rfl⟩⟩
  | act hat' _ | receive hat' _ | unreceived hat' _ =>
    have hkind := hat.kind_eq hat'
    cases hkind

theorem Moves.of_receive {k : Except ε μ → Prog (LinkOp Op μ ε) α}
    (hat : p.prog.At (.call .receive) k) (h : Moves M gone p inbox p' inbox' sent) :
    sent = [] ∧ ((∃ m, inbox = m :: inbox' ∧ p.link ≠ some 0 ∧ p' = p.use (k (.ok m))) ∨
      inbox' = inbox ∧ (p.link = some 0 ∨ inbox = [] ∧ gone) ∧
        ∃ e, p' = { p with prog := k (.error e) }) := by
  cases h with
  | receive hat' hlink =>
    cases hat.unique hat'
    exact ⟨rfl, .inl ⟨_, rfl, hlink, rfl⟩⟩
  | unreceived hat' hlost =>
    cases hat.unique hat'
    exact ⟨rfl, .inr ⟨rfl, hlost, _, rfl⟩⟩
  | act hat' _ | send hat' _ | unsent hat' _ =>
    have hkind := hat.kind_eq hat'
    cases hkind

/-- More messages do not prevent a step. -/
theorem Moves.more (h : Moves M gone p inbox p' inbox' sent) (hgone : ¬gone) (later : List μ) :
    Moves M gone' p (inbox ++ later) p' (inbox' ++ later) sent := by
  cases h with
  | act hat hM => exact .act hat hM
  | send hat hlink => exact .send hat hlink
  | receive hat hlink => exact .receive hat hlink
  | unsent hat hlink => exact .unsent hat hlink
  | unreceived hat hlost =>
    exact .unreceived hat (.inl (hlost.resolve_right fun h => hgone h.2))

/-- A step of a party that could move before more messages came was possible then. -/
theorem Moves.earlier {q : Party Op μ ε α W} {rest inbox₁ sent₁ : List μ}
    (h : Moves M gone' p (inbox ++ later) p' rest sent)
    (hcould : Moves M gone p inbox q inbox₁ sent₁) (hgone : ¬gone) :
    ∃ inbox', rest = inbox' ++ later ∧ Moves M gone p inbox p' inbox' sent := by
  generalize hall : inbox ++ later = all at h
  cases h with
  | act hat hM =>
    subst hall
    exact ⟨inbox, rfl, .act hat hM⟩
  | send hat hlink =>
    subst hall
    exact ⟨inbox, rfl, .send hat hlink⟩
  | unsent hat hlink =>
    subst hall
    exact ⟨inbox, rfl, .unsent hat hlink⟩
  | receive hat hlink =>
    cases hcould with
    | act hat' _ | send hat' _ | unsent hat' _ =>
      have hkind := hat.kind_eq hat'
      cases hkind
    | receive hat' _ =>
      obtain ⟨rfl, rfl⟩ := List.cons.inj hall
      exact ⟨_, rfl, .receive hat hlink⟩
    | unreceived hat' hlost => exact (hlost.elim hlink fun h => hgone h.2).elim
  | unreceived hat hlost =>
    subst hall
    refine ⟨inbox, rfl, .unreceived hat ?_⟩
    cases hcould with
    | act hat' _ | send hat' _ | unsent hat' _ =>
      have hkind := hat.kind_eq hat'
      cases hkind
    | receive hat' hlink =>
      refine .inl (hlost.resolve_right fun h => ?_)
      simp at h
    | unreceived hat' hlost' => exact hlost'

/-- A party with a program that does the same. -/
theorem Moves.alike {prog : Prog (LinkOp Op μ ε) α} (hprog : prog.Alike p.prog) :
    Moves M gone { p with prog } inbox p' inbox' sent ↔ Moves M gone p inbox p' inbox' sent := by
  constructor
  · intro h
    cases h with
    | act hat hM => exact .act ((hprog.at_iff _ _).mp hat) hM
    | send hat hlink => exact .send ((hprog.at_iff _ _).mp hat) hlink
    | receive hat hlink => exact .receive ((hprog.at_iff _ _).mp hat) hlink
    | unsent hat hlink => exact .unsent ((hprog.at_iff _ _).mp hat) hlink
    | unreceived hat hlost => exact .unreceived ((hprog.at_iff _ _).mp hat) hlost
  · intro h
    cases h with
    | act hat hM => exact .act (p := { p with prog }) ((hprog.at_iff _ _).mpr hat) hM
    | send hat hlink => exact .send (p := { p with prog }) ((hprog.at_iff _ _).mpr hat) hlink
    | receive hat hlink =>
      exact .receive (p := { p with prog }) ((hprog.at_iff _ _).mpr hat) hlink
    | unsent hat hlink => exact .unsent (p := { p with prog }) ((hprog.at_iff _ _).mpr hat) hlink
    | unreceived hat hlost =>
      exact .unreceived (p := { p with prog }) ((hprog.at_iff _ _).mpr hat) hlost

theorem gone_alike {prog : Prog (LinkOp Op μ ε) α} (hprog : prog.Alike p.prog) :
    Gone { p with prog } ↔ p.Gone :=
  exists_congr hprog.halted_iff

end Party

/-! ## Duets -/

/-- Two parties, and the messages on their way from the first to the second and back. -/
structure Duet (Op Op' : Type → Type) (μ ε α α' : Type) (W W' : Type u) where
  left : Party Op μ ε α W
  right : Party Op' μ ε α' W'
  up : List μ
  down : List μ

namespace Duet

variable {M : Machine Op Unit W} {M' : Machine Op' Unit W'} {s t t' : Duet Op Op' μ ε α α' W W'}

/-- The first party moves. -/
def LeftStep (M : Machine Op Unit W) (s t : Duet Op Op' μ ε α α' W W') : Prop :=
  ∃ sent, Party.Moves M s.right.Gone s.left s.down t.left t.down sent ∧ t.up = s.up ++ sent ∧
    t.right = s.right

/-- The second party moves. -/
def RightStep (M' : Machine Op' Unit W') (s t : Duet Op Op' μ ε α α' W W') : Prop :=
  ∃ sent, Party.Moves M' s.left.Gone s.right s.up t.right t.up sent ∧ t.down = s.down ++ sent ∧
    t.left = s.left

section Explicit

variable {left : Party Op μ ε α W} {right : Party Op' μ ε α' W'} {up down : List μ}

theorem leftStep_iff : LeftStep M ⟨left, right, up, down⟩ t ↔ ∃ left' down' sent,
    Party.Moves M right.Gone left down left' down' sent ∧ t =
    ⟨left', right, up ++ sent, down'⟩ := by
  constructor
  · rintro ⟨sent, hmove, hup, hright⟩
    refine ⟨t.left, t.down, sent, hmove, ?_⟩
    obtain ⟨left', right', up', down'⟩ := t
    cases hup
    cases hright
    rfl
  · rintro ⟨left', down', sent, hmove, rfl⟩
    exact ⟨sent, hmove, rfl, rfl⟩

theorem rightStep_iff : RightStep M' ⟨left, right, up, down⟩ t ↔ ∃ right' up' sent,
    Party.Moves M' left.Gone right up right' up' sent ∧ t = ⟨left, right', up', down ++ sent⟩ := by
  constructor
  · rintro ⟨sent, hmove, hdown, hleft⟩
    refine ⟨t.right, t.up, sent, hmove, ?_⟩
    obtain ⟨left', right', up', down'⟩ := t
    cases hdown
    cases hleft
    rfl
  · rintro ⟨right', up', sent, hmove, rfl⟩
    exact ⟨sent, hmove, rfl, rfl⟩

end Explicit

/-- The two steps in the other order. -/
theorem diamond (h : LeftStep M s t) (h' : RightStep M' s t') :
    ∃ u, RightStep M' t u ∧ LeftStep M t' u := by
  obtain ⟨sent, hmove, hup, hright⟩ := h
  obtain ⟨sent', hmove', hdown, hleft⟩ := h'
  refine ⟨⟨t.left, t'.right, t'.up ++ sent, t.down ++ sent'⟩, ⟨sent', ?_, rfl, rfl⟩,
    ⟨sent, ?_, rfl, rfl⟩⟩
  · rw [hup, hright]
    exact hmove'.more hmove.not_gone sent
  · rw [hdown, hleft]
    exact hmove.more hmove'.not_gone sent'

/-- A step of the first party after one of the second, in the other order. -/
theorem earlier {u : Duet Op Op' μ ε α α' W W'} (hcould : LeftStep M s t)
    (h' : RightStep M' s t') (h : LeftStep M t' u) :
    ∃ t₁, LeftStep M s t₁ ∧ RightStep M' t₁ u := by
  obtain ⟨sent₁, hmove₁, -⟩ := hcould
  obtain ⟨sent', hmove', hdown, hleft⟩ := h'
  obtain ⟨sent, hmove, hup, hright⟩ := h
  rw [hdown, hleft] at hmove
  obtain ⟨inbox, hinbox, hmove⟩ := hmove.earlier hmove₁ hmove'.not_gone
  refine ⟨⟨u.left, s.right, s.up ++ sent, inbox⟩, ⟨sent, hmove, rfl, rfl⟩, ⟨sent', ?_, hinbox, rfl⟩⟩
  rw [hup, hright]
  exact hmove'.more hmove₁.not_gone sent

/-- One of the two moves. -/
def Step (M : Machine Op Unit W) (M' : Machine Op' Unit W') (s t : Duet Op Op' μ ε α α' W W') :
    Prop := LeftStep M s t ∨ RightStep M' s t

section Outcomes

variable (good : α → W → W' → Prop) (final : α → α' → W → W' → Prop)

/-- If the first party has returned, its result and the worlds are as they should be. -/
def Safe (s : Duet Op Op' μ ε α α' W W') : Prop :=
  ∀ a, s.left.prog.Halted a → good a s.left.world s.right.world

/-- Both have returned, and all is as it should be. -/
def Over (s : Duet Op Op' μ ε α α' W W') : Prop :=
  ∃ a a', s.left.prog.Halted a ∧ s.right.prog.Halted a' ∧ final a a' s.left.world s.right.world

/-- On every run from the state both parties return, and the state is safe until then. -/
inductive Certain (M : Machine Op Unit W) (M' : Machine Op' Unit W') :
    Duet Op Op' μ ε α α' W W' → Prop where
  | here {s : Duet Op Op' μ ε α α' W W'} : s.Safe good → s.Over final → Certain M M' s
  | next {s : Duet Op Op' μ ε α α' W W'} : s.Safe good →
      (∃ t, Step M M' s t) → (∀ t, LeftStep M s t → Certain M M' t) →
      (∀ t, RightStep M' s t → Certain M M' t) → Certain M M' s

end Outcomes

variable {good : α → W → W' → Prop} {final : α → α' → W → W' → Prop}

theorem LeftStep.safe (h : LeftStep M s t) : s.Safe good := by
  obtain ⟨sent, hmove, -⟩ := h
  exact fun a ha => (hmove.not_gone ⟨a, ha⟩).elim

theorem Over.not_left (h : s.Over final) : ¬LeftStep M s t := by
  obtain ⟨a, a', ha, -⟩ := h
  exact fun ⟨_, hmove, _⟩ => hmove.not_gone ⟨a, ha⟩

theorem Over.not_right (h : s.Over final) : ¬RightStep M' s t := by
  obtain ⟨a, a', -, ha', -⟩ := h
  exact fun ⟨_, hmove, _⟩ => hmove.not_gone ⟨a', ha'⟩

theorem Over.no_step (h : s.Over final) : ¬∃ t, Step M M' s t :=
  fun ⟨_, hstep⟩ => hstep.elim h.not_left h.not_right

namespace Certain

theorem safe (h : Certain good final M M' s) : s.Safe good := by
  cases h <;> assumption

/-- It stays so. -/
theorem step (h : Certain good final M M' s) (hstep : Step M M' s t) :
    Certain good final M M' t := by
  cases h with
  | here _ hover => exact (hover.no_step ⟨_, hstep⟩).elim
  | next _ _ hleft hright => exact hstep.elim (hleft t) (hright t)

theorem run (h : Certain good final M M' s) (hrun : Relation.ReflTransGen (Step M M') s t) :
    Certain good final M M' t := by
  induction hrun with
  | refl => exact h
  | tail _ hstep ih => exact ih.step hstep

/-- A state where no party can move is one where both have returned. -/
theorem over_or_step (h : Certain good final M M' s) : s.Over final ∨ ∃ t, Step M M' s t := by
  cases h with
  | here _ hover => exact .inl hover
  | next _ hex _ _ => exact .inr hex

/-- No run goes on for ever. -/
theorem no_run (h : Certain good final M M' s) (run : ℕ → Duet Op Op' μ ε α α' W W')
    (hstart : run 0 = s) : ¬∀ n, Step M M' (run n) (run (n + 1)) := by
  induction h generalizing run with
  | here _ hover =>
    intro hrun
    have hfirst := hrun 0
    rw [hstart] at hfirst
    exact hover.no_step ⟨_, hfirst⟩
  | next _ _ _ _ ihleft ihright =>
    intro hrun
    have hfirst := hrun 0
    rw [hstart] at hfirst
    rcases hfirst with hleft | hright
    · exact ihleft _ hleft (fun n => run (n + 1)) rfl fun n => hrun (n + 1)
    · exact ihright _ hright (fun n => run (n + 1)) rfl fun n => hrun (n + 1)

/-- Some run comes to its end. -/
theorem some_over (h : Certain good final M M' s) :
    ∃ t, Relation.ReflTransGen (Step M M') s t ∧ t.Over final := by
  induction h with
  | @here s _ hover => exact ⟨s, .refl, hover⟩
  | @next s _ hex _ _ ihleft ihright =>
    obtain ⟨t, hleft | hright⟩ := hex
    · obtain ⟨u, hrun, hover⟩ := ihleft t hleft
      exact ⟨u, .head (.inl hleft) hrun, hover⟩
    · obtain ⟨u, hrun, hover⟩ := ihright t hright
      exact ⟨u, .head (.inr hright) hrun, hover⟩

/-- **The first party goes first.** -/
theorem left (hcould : LeftStep M s t) (hall : ∀ t, LeftStep M s t → Certain good final M M' t) :
    Certain good final M M' s := by
  -- what the second party does meanwhile it can still do after any step of the first
  have hmeanwhile : ∀ {s t t' : Duet Op Op' μ ε α α' W W'}, LeftStep M s t →
      (∀ t, LeftStep M s t → Certain good final M M' t) → RightStep M' s t' →
      ∀ u, LeftStep M t' u → Certain good final M M' u := by
    intro s t t' hcould hall hright u hu
    obtain ⟨t₁, hleft, hright'⟩ := earlier hcould hright hu
    exact (hall t₁ hleft).step (.inr hright')
  have hthere := hall t hcould
  induction hthere generalizing s with
  | here _ hover =>
    refine .next hcould.safe ⟨_, .inl hcould⟩ hall fun t' hright => ?_
    obtain ⟨u, hu, -⟩ := diamond hcould hright
    exact (hover.not_right hu).elim
  | next _ _ _ _ _ ih =>
    refine .next hcould.safe ⟨_, .inl hcould⟩ hall fun t' hright => ?_
    obtain ⟨u, hu, hleft⟩ := diamond hcould hright
    exact ih u hu hleft (hmeanwhile hcould hall hright)

/-- The first party's program may be replaced by one that does the same. -/
theorem alike_left {prog : Prog (LinkOp Op μ ε) α} (h : Certain good final M M' s)
    (hprog : prog.Alike s.left.prog) :
    Certain good final M M' { s with left := { s.left with prog } } := by
  induction h with
  | @here s hsafe hover =>
    obtain ⟨a, a', ha, ha', hfinal⟩ := hover
    exact .here (fun a ha => hsafe a ((hprog.halted_iff a).mp ha))
      ⟨a, a', (hprog.halted_iff a).mpr ha, ha', hfinal⟩
  | @next s hsafe hex hleft hright _ ih =>
    have hleft_iff : ∀ t, LeftStep M { s with left := { s.left with prog } } t ↔ LeftStep M s t :=
      fun t => exists_congr fun sent => and_congr_left' (Party.Moves.alike hprog)
    have hback : ∀ t, RightStep M' { s with left := { s.left with prog } } t →
        RightStep M' s { t with left := s.left } := by
      rintro t ⟨sent, hmove, hdown, -⟩
      exact ⟨sent, (Party.gone_alike hprog).eq ▸ hmove, hdown, rfl⟩
    have hforth : ∀ t, RightStep M' s t → RightStep M' { s with left := { s.left with prog } }
        { t with left := { s.left with prog } } := by
      rintro t ⟨sent, hmove, hdown, -⟩
      exact ⟨sent, (Party.gone_alike hprog).eq.symm ▸ hmove, hdown, rfl⟩
    refine .next (fun a ha => hsafe a ((hprog.halted_iff a).mp ha)) ?_
      (fun t h => hleft t ((hleft_iff t).mp h)) fun t h => ?_
    · obtain ⟨t, h | h⟩ := hex
      · exact ⟨t, .inl ((hleft_iff t).mpr h)⟩
      · exact ⟨_, .inr (hforth t h)⟩
    · have hagain := ih _ (hback t h) hprog
      obtain ⟨left, right, up, down⟩ := t
      obtain ⟨sent, -, -, rfl⟩ := h
      exact hagain

/-- So may the second party's. -/
theorem alike_right {prog : Prog (LinkOp Op' μ ε) α'} (h : Certain good final M M' s)
    (hprog : prog.Alike s.right.prog) :
    Certain good final M M' { s with right := { s.right with prog } } := by
  induction h with
  | @here s hsafe hover =>
    obtain ⟨a, a', ha, ha', hfinal⟩ := hover
    exact .here hsafe ⟨a, a', ha, (hprog.halted_iff a').mpr ha', hfinal⟩
  | @next s hsafe hex hleft hright ih _ =>
    have hright_iff : ∀ t, RightStep M' { s with right := { s.right with prog } } t ↔
        RightStep M' s t :=
      fun t => exists_congr fun sent => and_congr_left' (Party.Moves.alike hprog)
    have hback : ∀ t, LeftStep M { s with right := { s.right with prog } } t →
        LeftStep M s { t with right := s.right } := by
      rintro t ⟨sent, hmove, hup, -⟩
      exact ⟨sent, (Party.gone_alike hprog).eq ▸ hmove, hup, rfl⟩
    have hforth : ∀ t, LeftStep M s t → LeftStep M { s with right := { s.right with prog } }
        { t with right := { s.right with prog } } := by
      rintro t ⟨sent, hmove, hup, -⟩
      exact ⟨sent, (Party.gone_alike hprog).eq.symm ▸ hmove, hup, rfl⟩
    refine .next hsafe ?_ (fun t h => ?_) fun t h => hright t ((hright_iff t).mp h)
    · obtain ⟨t, h | h⟩ := hex
      · exact ⟨_, .inl (hforth t h)⟩
      · exact ⟨t, .inr ((hright_iff t).mpr h)⟩
    · have hagain := ih _ (hback t h) hprog
      obtain ⟨left, right, up, down⟩ := t
      obtain ⟨sent, -, -, rfl⟩ := h
      exact hagain

/-! ### The first party's operations -/

section Operations

variable {γ : Type} {left : Party Op μ ε α W} {right : Party Op' μ ε α' W'} {up down : List μ}

theorem left_act {o : Op γ} {k : γ → Prog (LinkOp Op μ ε) α} (hat : left.prog.At (.act o) k)
    (hex : ∃ b w, M.step () left.world o b w)
    (hall : ∀ b w, M.step () left.world o b w →
      Certain good final M M' ⟨{ left with prog := k b, world := w }, right, up, down⟩) :
    Certain good final M M' ⟨left, right, up, down⟩ := by
  obtain ⟨b, w, hM⟩ := hex
  refine .left (leftStep_iff.mpr ⟨_, _, _, .act hat hM, rfl⟩) fun t ht => ?_
  obtain ⟨left', down', sent, hmove, rfl⟩ := leftStep_iff.mp ht
  obtain ⟨rfl, rfl, b, w, hM, rfl⟩ := hmove.of_act hat
  rw [List.append_nil]
  exact hall b w hM

theorem left_send [Inhabited ε] {m : μ} {k : Except ε Unit → Prog (LinkOp Op μ ε) α}
    (hat : left.prog.At (.call (.send m)) k)
    (hsent : left.link ≠ some 0 →
      Certain good final M M' ⟨left.use (k (.ok ())), right, up ++ [m], down⟩)
    (hlost : ∀ e, left.link = some 0 →
      Certain good final M M' ⟨{ left with prog := k (.error e) }, right, up, down⟩) :
    Certain good final M M' ⟨left, right, up, down⟩ := by
  have hcould : ∃ left' sent, Party.Moves M right.Gone left down left' down sent := by
    by_cases hlink : left.link = some 0
    · exact ⟨_, _, .unsent (e := default) hat hlink⟩
    · exact ⟨_, _, .send hat hlink⟩
  obtain ⟨left', sent, hmove⟩ := hcould
  refine .left (leftStep_iff.mpr ⟨_, _, _, hmove, rfl⟩) fun t ht => ?_
  obtain ⟨left', down', sent, hmove, rfl⟩ := leftStep_iff.mp ht
  obtain ⟨rfl, ⟨hlink, rfl, rfl⟩ | ⟨hlink, rfl, e, rfl⟩⟩ := hmove.of_send hat
  · exact hsent hlink
  · rw [List.append_nil]
    exact hlost e hlink

/-- A message is there. -/
theorem left_receive [Inhabited ε] {m : μ} {k : Except ε μ → Prog (LinkOp Op μ ε) α}
    (hat : left.prog.At (.call .receive) k)
    (hreceived : left.link ≠ some 0 →
      Certain good final M M' ⟨left.use (k (.ok m)), right, up, down⟩)
    (hlost : ∀ e, left.link = some 0 →
      Certain good final M M' ⟨{ left with prog := k (.error e) }, right, up, m :: down⟩) :
    Certain good final M M' ⟨left, right, up, m :: down⟩ := by
  have hcould : ∃ left' down', Party.Moves M right.Gone left (m :: down) left' down' [] := by
    by_cases hlink : left.link = some 0
    · exact ⟨_, _, .unreceived (e := default) hat (.inl hlink)⟩
    · exact ⟨_, _, .receive hat hlink⟩
  obtain ⟨left', down', hmove⟩ := hcould
  refine .left (leftStep_iff.mpr ⟨_, _, _, hmove, rfl⟩) fun t ht => ?_
  obtain ⟨left', down', sent, hmove, rfl⟩ := leftStep_iff.mp ht
  obtain ⟨rfl, ⟨m', hinbox, hlink, rfl⟩ | ⟨rfl, hlink, e, rfl⟩⟩ := hmove.of_receive hat
  · obtain ⟨rfl, rfl⟩ := List.cons.inj hinbox
    rw [List.append_nil]
    exact hreceived hlink
  · rw [List.append_nil]
    exact hlost e (hlink.resolve_right fun h => by simp at h)

/-- No message comes any more. -/
theorem left_unreceived [Inhabited ε] {k : Except ε μ → Prog (LinkOp Op μ ε) α}
    (hat : left.prog.At (.call .receive) k) (hlink : left.link = some 0 ∨ right.Gone)
    (hlost : ∀ e, Certain good final M M' ⟨{ left with prog := k (.error e) }, right, up, []⟩) :
    Certain good final M M' ⟨left, right, up, []⟩ := by
  have hmove : Party.Moves M right.Gone left [] _ [] [] :=
    .unreceived (e := default) hat (hlink.imp_right fun h => ⟨rfl, h⟩)
  refine .left (leftStep_iff.mpr ⟨_, _, _, hmove, rfl⟩) fun t ht => ?_
  obtain ⟨left', down', sent, hmove, rfl⟩ := leftStep_iff.mp ht
  obtain ⟨rfl, ⟨m, hinbox, -⟩ | ⟨rfl, -, e, rfl⟩⟩ := hmove.of_receive hat
  · cases hinbox
  · rw [List.append_nil]
    exact hlost e

/-! ### The second party's operations -/

/-- The first party waits for a message, or has returned a result that is good. -/
structure Stands (good : α → W → W' → Prop) (left : Party Op μ ε α W) (down : List μ) (w : W') :
    Prop where
  good : ∀ a, left.prog.Halted a → good a left.world w
  waits : left.Gone ∨ (∃ k, left.prog.At (.call .receive) k) ∧ left.link ≠ some 0 ∧ down = []

theorem Stands.no_step {w : W'} (h : Stands good left down w) (hright : ¬right.Gone) :
    ¬LeftStep M ⟨left, right, up, down⟩ t := by
  intro hstep
  obtain ⟨left', down', sent, hmove, -⟩ := leftStep_iff.mp hstep
  rcases h.waits with hgone | ⟨⟨k, hat⟩, hlink, rfl⟩
  · exact hmove.not_gone hgone
  · obtain ⟨-, ⟨m, hinbox, -⟩ | ⟨-, hlost, -⟩⟩ := hmove.of_receive hat
    · cases hinbox
    · exact hlost.elim hlink fun h => hright h.2

/-- The second party moves while the first stands. -/
theorem second (hleft : Stands good left down right.world) {right' : Party Op' μ ε α' W'}
    {up' sent : List μ} (hcan : Party.Moves M' left.Gone right up right' up' sent)
    (hall : ∀ right' up' sent, Party.Moves M' left.Gone right up right' up' sent →
      Certain good final M M' ⟨left, right', up', down ++ sent⟩) :
    Certain good final M M' ⟨left, right, up, down⟩ := by
  refine .next hleft.good ⟨_, .inr (rightStep_iff.mpr ⟨_, _, _, hcan, rfl⟩)⟩
    (fun t ht => (hleft.no_step hcan.not_gone ht).elim) fun t ht => ?_
  obtain ⟨right', up', sent, hmove, rfl⟩ := rightStep_iff.mp ht
  exact hall _ _ _ hmove

theorem right_act {o : Op' γ} {k : γ → Prog (LinkOp Op' μ ε) α'}
    (hleft : Stands good left down right.world) (hat : right.prog.At (.act o) k)
    (hex : ∃ b w, M'.step () right.world o b w)
    (hall : ∀ b w, M'.step () right.world o b w →
      Certain good final M M' ⟨left, { right with prog := k b, world := w }, up, down⟩) :
    Certain good final M M' ⟨left, right, up, down⟩ := by
  obtain ⟨b, w, hM⟩ := hex
  refine .second hleft (.act hat hM) fun right' up' sent hmove => ?_
  obtain ⟨rfl, rfl, b, w, hM, rfl⟩ := hmove.of_act hat
  rw [List.append_nil]
  exact hall b w hM

theorem right_send [Inhabited ε] {m : μ} {k : Except ε Unit → Prog (LinkOp Op' μ ε) α'}
    (hleft : Stands good left down right.world) (hat : right.prog.At (.call (.send m)) k)
    (hsent : right.link ≠ some 0 →
      Certain good final M M' ⟨left, right.use (k (.ok ())), up, down ++ [m]⟩)
    (hlost : ∀ e, right.link = some 0 →
      Certain good final M M' ⟨left, { right with prog := k (.error e) }, up, down⟩) :
    Certain good final M M' ⟨left, right, up, down⟩ := by
  have hcould : ∃ right' sent, Party.Moves M' left.Gone right up right' up sent := by
    by_cases hlink : right.link = some 0
    · exact ⟨_, _, .unsent (e := default) hat hlink⟩
    · exact ⟨_, _, .send hat hlink⟩
  obtain ⟨right', sent, hmove⟩ := hcould
  refine .second hleft hmove fun right' up' sent hmove => ?_
  obtain ⟨rfl, ⟨hlink, rfl, rfl⟩ | ⟨hlink, rfl, e, rfl⟩⟩ := hmove.of_send hat
  · exact hsent hlink
  · rw [List.append_nil]
    exact hlost e hlink

theorem right_receive [Inhabited ε] {m : μ} {k : Except ε μ → Prog (LinkOp Op' μ ε) α'}
    (hleft : Stands good left down right.world) (hat : right.prog.At (.call .receive) k)
    (hreceived : right.link ≠ some 0 →
      Certain good final M M' ⟨left, right.use (k (.ok m)), up, down⟩)
    (hlost : ∀ e, right.link = some 0 →
      Certain good final M M' ⟨left, { right with prog := k (.error e) }, m :: up, down⟩) :
    Certain good final M M' ⟨left, right, m :: up, down⟩ := by
  have hcould : ∃ right' up', Party.Moves M' left.Gone right (m :: up) right' up' [] := by
    by_cases hlink : right.link = some 0
    · exact ⟨_, _, .unreceived (e := default) hat (.inl hlink)⟩
    · exact ⟨_, _, .receive hat hlink⟩
  obtain ⟨right', up', hmove⟩ := hcould
  refine .second hleft hmove fun right' up' sent hmove => ?_
  obtain ⟨rfl, ⟨m', hinbox, hlink, rfl⟩ | ⟨rfl, hlink, e, rfl⟩⟩ := hmove.of_receive hat
  · obtain ⟨rfl, rfl⟩ := List.cons.inj hinbox
    rw [List.append_nil]
    exact hreceived hlink
  · rw [List.append_nil]
    exact hlost e (hlink.resolve_right fun h => by simp at h)

/-- The first party has gone, and all its messages have been read. -/
theorem right_unreceived [Inhabited ε] {k : Except ε μ → Prog (LinkOp Op' μ ε) α'}
    (hleft : Stands good left down right.world) (hgone : left.Gone)
    (hat : right.prog.At (.call .receive) k)
    (hlost : ∀ e, Certain good final M M' ⟨left, { right with prog := k (.error e) }, [], down⟩) :
    Certain good final M M' ⟨left, right, [], down⟩ := by
  refine .second hleft (.unreceived (e := default) hat (.inr ⟨rfl, hgone⟩))
    fun right' up' sent hmove => ?_
  obtain ⟨rfl, ⟨m, hinbox, -⟩ | ⟨rfl, -, e, rfl⟩⟩ := hmove.of_receive hat
  · cases hinbox
  · rw [List.append_nil]
    exact hlost e

/-- Both have returned. -/
theorem both_halted {a : α} {a' : α'} (ha : left.prog.Halted a) (ha' : right.prog.Halted a')
    (hgood : ∀ a, left.prog.Halted a → good a left.world right.world)
    (hfinal : final a a' left.world right.world) :
    Certain good final M M' ⟨left, right, up, down⟩ :=
  .here hgood ⟨a, a', ha, ha', hfinal⟩

end Operations

end Certain

end Duet

end Program
