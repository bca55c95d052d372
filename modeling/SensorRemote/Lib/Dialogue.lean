import SensorRemote.Lib.Duet

/-!
# Questions and answers

A dialogue is a duet in which the first party asks, the second answers, and nothing else is said.
What a party does between two messages it does alone, so it is described without the other
(`Asks`, `Awaits`, `Answers`). `Duet.Certain.exchange` joins one question and its answer, and
`Duet.Certain.question` a question that may also be refused (`Responds`). Wherever the connection is
lost, both parties have to quit.
-/

namespace Program

universe u

variable {Op Op' : Type → Type} {μ ε α α' β : Type} {W W' : Type u}

/-- The machine of a party that has no connection. -/
def offline (M : Machine Op Unit W) : Machine (LinkOp Op μ ε) Unit W where
  step _ w _ o b w' :=
    match o with
    | .act o => M.step () w o b w'
    | .call _ => False
  vanish := M.vanish

section Parties

variable (M : Machine Op Unit W)

/-- The party returns without the connection, and then `Q`. -/
abbrev Quits (Q : α → W → Prop) : Prog (LinkOp Op μ ε) α → W → Prop := Halts (offline M) Q

/-- The party gets to where `R` holds without the connection. -/
abbrev Proceeds (R : Prog (LinkOp Op μ ε) α → W → Prop) : Prog (LinkOp Op μ ε) α → W → Prop :=
  Leads (offline M) (fun _ => True) R

/-- The party sends `m` and waits for an answer, with which it goes on as in `R`. If the
connection is lost, it quits with `Q`. -/
def Asks (Q : α → W → Prop) (m : μ) (R : (μ → Prog (LinkOp Op μ ε) α) → W → Prop) :
    Prog (LinkOp Op μ ε) α → W → Prop :=
  Proceeds M fun p w => ∃ k k', p = .op (.call (.send m)) k ∧
    k (.ok ()) = .op (.call .receive) k' ∧ (∀ e, Quits M Q (k (.error e)) w) ∧
    (∀ e, Quits M Q (k' (.error e)) w) ∧ R (fun answer => k' (.ok answer)) w

/-- The party waits for a message, with which it goes on as in `R`. -/
def Awaits (Q : α → W → Prop) (R : (μ → Prog (LinkOp Op μ ε) α) → W → Prop) :
    Prog (LinkOp Op μ ε) α → W → Prop :=
  Proceeds M fun p w => ∃ k, p = .op (.call .receive) k ∧ (∀ e, Quits M Q (k (.error e)) w) ∧
    R (fun m => k (.ok m)) w

/-- The party sends a message and goes on, as in `R`. -/
def Answers (Q : α → W → Prop) (R : μ → Prog (LinkOp Op μ ε) α → W → Prop) :
    Prog (LinkOp Op μ ε) α → W → Prop :=
  Proceeds M fun p w => ∃ m k, p = .op (.call (.send m)) k ∧
    (∀ e, Quits M Q (k (.error e)) w) ∧ R m (k (.ok ())) w

/-- The party sends a message and goes on, as in `R`, or returns with `Q'` instead. -/
def Responds (Q : α → W → Prop) (R : μ → Prog (LinkOp Op μ ε) α → W → Prop) (Q' : α → W → Prop) :
    Prog (LinkOp Op μ ε) α → W → Prop :=
  Proceeds M fun p w => (∃ m k, p = .op (.call (.send m)) k ∧
    (∀ e, Quits M Q (k (.error e)) w) ∧ R m (k (.ok ())) w) ∨ ∃ a, p = .ret a ∧ Q' a w

/-- The party returns with `Q` if it receives nothing more. -/
def Closes (Q : α → W → Prop) : Prog (LinkOp Op μ ε) α → W → Prop :=
  Proceeds M fun p w => (∃ a, p = .ret a ∧ Q a w) ∨
    ∃ k, p = .op (.call .receive) k ∧ ∀ e, Quits M Q (k (.error e)) w

end Parties

variable {M : Machine Op Unit W} {M' : Machine Op' Unit W'}

/-! ## Rules -/

theorem Answers.post {Q Q' : α → W → Prop} {R : μ → Prog (LinkOp Op μ ε) α → W → Prop}
    {p : Prog (LinkOp Op μ ε) α} {w : W} (h : Answers M Q R p w) (hQ : ∀ a w, Q a w → Q' a w) :
    Answers M Q' R p w :=
  h.mono fun _ _ ⟨m, k, hp, hquit, hR⟩ => ⟨m, k, hp, fun e => (hquit e).post hQ, hR⟩

theorem Responds.post {Q Q₁ Q' : α → W → Prop} {R : μ → Prog (LinkOp Op μ ε) α → W → Prop}
    {p : Prog (LinkOp Op μ ε) α} {w : W} (h : Responds M Q R Q' p w)
    (hQ : ∀ a w, Q a w → Q₁ a w) : Responds M Q₁ R Q' p w :=
  h.mono fun _ _ h => h.imp
    (fun ⟨m, k, hp, hquit, hR⟩ => ⟨m, k, hp, fun e => (hquit e).post hQ, hR⟩) id

theorem Answers.responds {Q Q' : α → W → Prop} {R : μ → Prog (LinkOp Op μ ε) α → W → Prop}
    {p : Prog (LinkOp Op μ ε) α} {w : W} (h : Answers M Q R p w) : Responds M Q R Q' p w :=
  h.mono fun _ _ => .inl

theorem Closes.post {Q Q' : α → W → Prop} {p : Prog (LinkOp Op μ ε) α} {w : W}
    (h : Closes M Q p w) (hQ : ∀ a w, Q a w → Q' a w) : Closes M Q' p w :=
  h.mono fun _ _ h => h.imp (fun ⟨a, hp, ha⟩ => ⟨a, hp, hQ a _ ha⟩)
    fun ⟨k, hp, hquit⟩ => ⟨k, hp, fun e => (hquit e).post hQ⟩

theorem Awaits.closes {Q : α → W → Prop} {R : (μ → Prog (LinkOp Op μ ε) α) → W → Prop}
    {p : Prog (LinkOp Op μ ε) α} {w : W} (h : Awaits M Q R p w) : Closes M Q p w :=
  h.mono fun _ _ ⟨k, hp, hquit, _⟩ => .inr ⟨k, hp, hquit⟩

theorem Closes.of_quits {Q : α → W → Prop} {p : Prog (LinkOp Op μ ε) α} {w : W}
    (h : Quits M Q p w) : Closes M Q p w :=
  h.mono fun _ _ h => .inl h

namespace Duet

/-- The link fails before a question and its answer are through. -/
def Short (link : Option ℕ) : Prop := link = some 0 ∨ link.map (· - 1) = some 0

theorem Short.isSome {link : Option ℕ} (h : Short link) : link.isSome := by
  rcases h with rfl | h
  · rfl
  · rw [← Option.isSome_map, h]
    rfl

/-- What is left of a link after a question and its answer. -/
def spent (link : Option ℕ) : Option ℕ := (link.map (· - 1)).map (· - 1)

namespace Certain

variable {good : α → W → W' → Prop} {final : α → α' → W → W' → Prop}
  {left : Party Op μ ε α W} {right : Party Op' μ ε α' W'} {up down : List μ} {link : Option ℕ}

/-- What the first party does without the connection. -/
theorem left_leads {I : W → Prop} {R : Prog (LinkOp Op μ ε) α → W → Prop}
    {p : Prog (LinkOp Op μ ε) α} {w : W} (h : Leads (offline M) I R p w)
    (hR : ∀ p w, R p w → Certain good final M M' ⟨⟨p, w, link⟩, right, up, down⟩) :
    Certain good final M M' ⟨⟨p, w, link⟩, right, up, down⟩ := by
  induction h with
  | here _ h => exact hR _ _ h
  | @op _ o k w _ hex _ ih =>
    cases o with
    | act o => exact left_act (.op _ _) hex fun b w' hM => ih b w' hM
    | call o =>
      obtain ⟨b, w', hM⟩ := hex
      exact hM.elim
  | loop _ ih => exact ih.alike_left (Prog.alike_loop _ _ _)

/-- And what the second does while the first stands. -/
theorem right_leads {I : W' → Prop} {R : Prog (LinkOp Op' μ ε) α' → W' → Prop}
    {p : Prog (LinkOp Op' μ ε) α'} {w : W'} (h : Leads (offline M') I R p w)
    (hleft : ∀ w, I w → Stands good left down w)
    (hR : ∀ p w, I w → R p w → Certain good final M M' ⟨left, ⟨p, w, link⟩, up, down⟩) :
    Certain good final M M' ⟨left, ⟨p, w, link⟩, up, down⟩ := by
  induction h with
  | here hI h => exact hR _ _ hI h
  | @op _ o k w hI hex _ ih =>
    cases o with
    | act o => exact right_act (hleft w hI) (.op _ _) hex fun b w' hM => ih b w' hM
    | call o =>
      obtain ⟨b, w', hM⟩ := hex
      exact hM.elim
  | loop _ ih => exact ih.alike_right (Prog.alike_loop _ _ _)

/-! ### When the connection is lost -/

section Lost

variable {Q : α → W → Prop} {Q' : α' → W' → Prop}
  (hgood : ∀ a w w', Q a w → good a w w')
  (hfinal : ∀ a a' w w', Q a w → Q' a' w' → final a a' w w')

include hgood hfinal

/-- The first party has returned, and the second gets no message any more. -/
theorem second_closes [Inhabited ε] {a : α} {w : W} {p : Prog (LinkOp Op' μ ε) α'} {w' : W'}
    {link' : Option ℕ} (hQ : Q a w) (h : Closes M' Q' p w') :
    Certain good final M M' ⟨⟨.ret a, w, link⟩, ⟨p, w', link'⟩, [], down⟩ := by
  have hhalted : (⟨.ret a, w, link⟩ : Party Op μ ε α W).prog.Halted a := .ret a
  have hstands : ∀ w', Stands good (⟨.ret a, w, link⟩ : Party Op μ ε α W) down w' := by
    refine fun w' => ⟨fun a' ha' => ?_, .inl ⟨a, hhalted⟩⟩
    cases ha'
    exact hgood _ _ _ hQ
  have hquits : ∀ (p : Prog (LinkOp Op' μ ε) α') (w' : W'), Quits M' Q' p w' →
      Certain good final M M' ⟨⟨.ret a, w, link⟩, ⟨p, w', link'⟩, [], down⟩ := by
    intro p w' h
    refine right_leads h (fun w' _ => hstands w') ?_
    rintro _ w' - ⟨a', rfl, hQ'⟩
    exact both_halted hhalted (.ret a') (hstands w').good (hfinal _ _ _ _ hQ hQ')
  refine right_leads h (fun w' _ => hstands w') ?_
  rintro _ w' - (⟨a', rfl, hQ'⟩ | ⟨k, rfl, hquit⟩)
  · exact both_halted hhalted (.ret a') (hstands w').good (hfinal _ _ _ _ hQ hQ')
  · exact right_unreceived (hstands w') ⟨a, hhalted⟩ (.op _ _) fun e => hquits _ _ (hquit e)

/-- The second party has returned, and the first is left with the loss. -/
theorem first_quits {a' : α'} {p : Prog (LinkOp Op μ ε) α} {w : W} {w' : W'} {link' : Option ℕ}
    (hQ' : Q' a' w') (h : Quits M Q p w) :
    Certain good final M M' ⟨⟨p, w, link⟩, ⟨.ret a', w', link'⟩, up, down⟩ := by
  apply left_leads h
  rintro _ w ⟨a, rfl, hQ⟩
  refine both_halted (.ret a) (.ret a') (fun a₁ ha₁ => ?_) (hfinal _ _ _ _ hQ hQ')
  cases ha₁
  exact hgood _ _ _ hQ

end Lost

/-- A question is lost, and the second party gets none. -/
theorem unasked [Inhabited ε] {Q : α → W → Prop} {Q' : α' → W' → Prop} {m : μ}
    {L : (μ → Prog (LinkOp Op μ ε) α) → W → Prop} {p : Prog (LinkOp Op μ ε) α} {w : W}
    {p' : Prog (LinkOp Op' μ ε) α'} {w' : W'} {link' : Option ℕ} (hasks : Asks M Q m L p w)
    (hcloses : Closes M' Q' p' w') (hgood : ∀ a w w', Q a w → good a w w')
    (hfinal : ∀ a a' w w', Q a w → Q' a' w' → final a a' w w') :
    Certain good final M M' ⟨⟨p, w, some 0⟩, ⟨p', w', link'⟩, [], []⟩ := by
  apply left_leads hasks
  rintro _ w ⟨k, k', rfl, -, hunsent, -⟩
  refine left_send (.op _ _) (fun hlink => (hlink rfl).elim) fun e _ => ?_
  apply left_leads (hunsent e)
  rintro _ w ⟨a, rfl, hQ⟩
  exact second_closes hgood hfinal hQ hcloses

/-- **A question, which is answered or refused.** If the connection holds, both go on after the
answer; if it does not, both quit. The second party refuses by returning without an answer: then the
first is left with the loss too. -/
theorem question [Inhabited ε] {Q : α → W → Prop} {Q' S : α' → W' → Prop} {m : μ}
    {L : (μ → Prog (LinkOp Op μ ε) α) → W → Prop} {R : μ → Prog (LinkOp Op' μ ε) α' → W' → Prop}
    {p : Prog (LinkOp Op μ ε) α} {w : W} {p' : Prog (LinkOp Op' μ ε) α'} {w' : W'}
    {link link' : Option ℕ} (hasks : Asks M Q m L p w)
    (hanswers : Awaits M' Q' (fun k => Responds M' Q' R S (k m)) p' w')
    (hcloses : ∀ answer p w, R answer p w → Closes M' Q' p w)
    (hgood : ∀ a w w', Q a w → good a w w')
    (hfinal : Short link ∨ Short link' → ∀ a a' w w', Q a w → Q' a' w' → final a a' w w')
    (hrefused : ∀ a a' w w', Q a w → S a' w' → final a a' w w')
    (hnext : ∀ k w answer p' w', ¬Short link → ¬Short link' → L k w → R answer p' w' →
      Certain good final M M' ⟨⟨k answer, w, spent link⟩, ⟨p', w', spent link'⟩, [], []⟩) :
    Certain good final M M' ⟨⟨p, w, link⟩, ⟨p', w', link'⟩, [], []⟩ := by
  by_cases hlink : link = some 0
  · subst hlink
    exact unasked hasks hanswers.closes hgood (hfinal (.inl (.inl rfl)))
  apply left_leads hasks
  rintro _ w ⟨k, k', rfl, hk, -, hunreceived, hL⟩
  refine left_send (.op _ _) (fun _ => ?_) fun e h => (hlink h).elim
  -- the question is on its way
  simp only [Party.use, hk, List.nil_append]
  by_cases hlost : link.map (· - 1) = some 0
  · -- but the first party will not see the answer
    have hfinal' := hfinal (.inl (.inr hlost))
    refine left_unreceived (.op _ _) (.inl hlost) fun e => ?_
    apply left_leads (hunreceived e)
    rintro _ w ⟨a, rfl, hQ⟩
    have hstands : ∀ down w', Stands good (⟨.ret a, w, link.map (· - 1)⟩ : Party Op μ ε α W)
        down w' := by
      refine fun down w' => ⟨fun a' ha' => ?_, .inl ⟨a, .ret a⟩⟩
      cases ha'
      exact hgood _ _ _ hQ
    have hquits : ∀ {p : Prog (LinkOp Op' μ ε) α'} {w' : W'} {l' : Option ℕ} {up : List μ},
        Quits M' Q' p w' → Certain good final M M'
          ⟨⟨.ret a, w, link.map (· - 1)⟩, ⟨p, w', l'⟩, up, []⟩ := by
      intro p w' l' up h
      refine right_leads h (fun w' _ => hstands _ w') ?_
      rintro _ w' - ⟨a', rfl, hQ'⟩
      exact both_halted (.ret a) (.ret a') (hstands [] w').good (hfinal' _ _ _ _ hQ hQ')
    refine right_leads hanswers (fun w' _ => hstands _ w') ?_
    rintro _ w' - ⟨kr, rfl, hquit, hresponse⟩
    refine right_receive (hstands _ w') (.op _ _) (fun _ => ?_) fun e _ => hquits (hquit e)
    refine right_leads hresponse (fun w' _ => hstands _ w') ?_
    rintro _ w' - (⟨answer, ks, rfl, hquit, hR⟩ | ⟨a', rfl, hS⟩)
    · refine right_send (hstands _ w') (.op _ _) (fun _ => ?_) fun e _ => hquits (hquit e)
      exact second_closes hgood hfinal' hQ (hcloses _ _ _ hR)
    · exact both_halted (.ret a) (.ret a') (hstands [] w').good (hrefused _ _ _ _ hQ hS)
  · -- the first party waits
    have hstands : ∀ w', Stands good
        (⟨.op (.call .receive) k', w, link.map (· - 1)⟩ : Party Op μ ε α W) [] w' := by
      refine fun w' => ⟨fun a ha => ?_, .inr ⟨⟨k', .op _ _⟩, hlost, rfl⟩⟩
      cases ha
    have hquits : ∀ {p : Prog (LinkOp Op' μ ε) α'} {w' : W'} {l' : Option ℕ} {up : List μ},
        Short link' → Quits M' Q' p w' → Certain good final M M'
            ⟨⟨.op (.call .receive) k', w, link.map (· - 1)⟩, ⟨p, w', l'⟩, up, []⟩ := by
      intro p w' l' up hshort h
      refine right_leads h (fun w' _ => hstands w') ?_
      rintro _ w' - ⟨a', rfl, hQ'⟩
      refine left_unreceived (.op _ _) (.inr ⟨a', .ret a'⟩) fun e => ?_
      exact first_quits hgood (hfinal (.inr hshort)) hQ' (hunreceived e)
    refine right_leads hanswers (fun w' _ => hstands w') ?_
    rintro _ w' - ⟨kr, rfl, hquit, hresponse⟩
    refine right_receive (hstands w') (.op _ _) (fun (hlink' : link' ≠ some 0) => ?_)
      fun e (hlink' : link' = some 0) => hquits (.inl hlink') (hquit e)
    refine right_leads hresponse (fun w' _ => hstands w') ?_
    rintro _ w' - (⟨answer, ks, rfl, hquit, hR⟩ | ⟨a', rfl, hS⟩)
    · refine right_send (hstands w') (.op _ _) (fun (hlost' : link'.map (· - 1) ≠ some 0) => ?_)
        fun e (hlost' : link'.map (· - 1) = some 0) => hquits (.inr hlost') (hquit e)
      refine left_receive (.op _ _) (fun _ => ?_) fun e h => (hlost h).elim
      exact hnext _ _ _ _ _ (fun h => h.elim hlink hlost) (fun h => h.elim hlink' hlost') hL hR
    · refine left_unreceived (.op _ _) (.inr ⟨a', .ret a'⟩) fun e => ?_
      exact first_quits hgood hrefused hS (hunreceived e)

/-- **A question and its answer.** If the connection holds, both go on after them; if it does not,
both quit. -/
theorem exchange [Inhabited ε] {Q : α → W → Prop} {Q' : α' → W' → Prop} {m : μ}
    {L : (μ → Prog (LinkOp Op μ ε) α) → W → Prop} {R : μ → Prog (LinkOp Op' μ ε) α' → W' → Prop}
    {p : Prog (LinkOp Op μ ε) α} {w : W} {p' : Prog (LinkOp Op' μ ε) α'} {w' : W'}
    {link link' : Option ℕ} (hasks : Asks M Q m L p w)
    (hanswers : Awaits M' Q' (fun k => Answers M' Q' R (k m)) p' w')
    (hcloses : ∀ answer p w, R answer p w → Closes M' Q' p w)
    (hgood : ∀ a w w', Q a w → good a w w')
    (hfinal : Short link ∨ Short link' → ∀ a a' w w', Q a w → Q' a' w' → final a a' w w')
    (hnext : ∀ k w answer p' w', ¬Short link → ¬Short link' → L k w → R answer p' w' →
      Certain good final M M' ⟨⟨k answer, w, spent link⟩, ⟨p', w', spent link'⟩, [], []⟩) :
    Certain good final M M' ⟨⟨p, w, link⟩, ⟨p', w', link'⟩, [], []⟩ := by
  refine question (S := fun _ _ => False) hasks ?_ hcloses hgood hfinal ?_ hnext
  · exact hanswers.mono fun _ _ ⟨k, hp, hquit, hanswer⟩ => ⟨k, hp, hquit, hanswer.responds⟩
  · exact fun _ _ _ _ _ h => h.elim

end Certain

end Duet

end Program
