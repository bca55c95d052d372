import SensorRemote.Lib.Transition

/-!
# Forwarding a byte stream

A hop takes one message at a time from its input and hands its bytes on, in as many portions
as the output wants; it takes the next message when nothing of the last one waits any more.
What has been handed on is then the stream read, but for the end of the message taken
last (`faithful_of_reachable`). A program forwards faithfully if it can be seen as a hop.
-/

namespace Transition

variable {α : Type*}

/-- A hop: the messages taken, what waits of the last one, and what was handed on. -/
structure Hop (α : Type*) where
  taken : List (List α)
  waiting : List α
  handed : List α

/-- What a hop can do. -/
inductive Hop.Move (α : Type*) where
  /-- take a message -/
  | take (message : List α)
  /-- hand on so many elements -/
  | hand (n : ℕ)

/-- The hop that takes messages of at most `bound` elements. -/
def hop (α : Type*) (bound : ℕ) : LTS (Hop α) (Hop.Move α) where
  init h := h = ⟨[], [], []⟩
  step h move h' :=
    match move with
    | .take message => h.waiting = [] ∧ message.length ≤ bound ∧
        h' = ⟨h.taken ++ [message], message, h.handed⟩
    | .hand n => h' = ⟨h.taken, h.waiting.drop n, h.handed ++ h.waiting.take n⟩

/-- What was handed on of the messages taken is all but the end of the last one: a prefix of
the stream, with at most `bound` elements left. -/
def Faithful (bound : ℕ) (taken : List (List α)) (handed : List α) : Prop :=
  ∃ waiting, taken.flatten = handed ++ waiting ∧ waiting <:+ taken.getLast?.getD [] ∧
    waiting.length ≤ bound

/-- The invariant of a hop. -/
def Hop.Balanced (bound : ℕ) (h : Hop α) : Prop :=
  h.taken.flatten = h.handed ++ h.waiting ∧ h.waiting <:+ h.taken.getLast?.getD [] ∧
    h.waiting.length ≤ bound

theorem Hop.Balanced.step {bound : ℕ} {h h' : Hop α} {move : Hop.Move α}
    (hbalanced : h.Balanced bound) (hstep : (hop α bound).step h move h') :
    h'.Balanced bound := by
  obtain ⟨heq, hsuffix, hlength⟩ := hbalanced
  cases move with
  | take message =>
    obtain ⟨hnone, hbound, rfl⟩ := hstep
    refine ⟨?_, ?_, hbound⟩
    · rw [hnone, List.append_nil] at heq
      simp [heq]
    · simp
  | hand n =>
    obtain rfl := hstep
    refine ⟨?_, (List.drop_suffix n _).trans hsuffix, ?_⟩
    · rw [List.append_assoc, List.take_append_drop]
      exact heq
    · exact Nat.le_trans (List.drop_suffix n _).length_le hlength

/-- **A hop is faithful.** -/
theorem faithful_of_reachable {bound : ℕ} {h : Hop α} (hreach : (hop α bound).Reachable h) :
    Faithful bound h.taken h.handed := by
  have hbalanced : h.Balanced bound := by
    refine hreach.invariant ?_ fun _ _ _ => Hop.Balanced.step
    rintro _ rfl
    exact ⟨rfl, List.suffix_rfl, Nat.zero_le _⟩
  exact ⟨h.waiting, hbalanced⟩

end Transition
