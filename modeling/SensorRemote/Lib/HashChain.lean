import Mathlib.Data.Set.Function
import Mathlib.Data.List.Basic
import Mathlib.Data.List.Induction
import Mathlib.Tactic.Common

/-!
# Signed hash chains

A chain is a list of entries in which every entry carries its number and the digest of the
entry before it, in the part of it that is signed (its body). Two facts make such a list a
history: the head (the length and the last digest) determines the whole chain
(`Linked.eq_of_head`), and a chain of signed bodies is one its signer has extended entry by
entry (`Linked.authentic`). Both need the digest to tell apart the entries involved, and no
others.
-/

namespace HashChain

universe u v w

/-- What entries carry. -/
structure Format (α : Type u) (β : Type v) (δ : Type w) where
  /-- the signed part of an entry -/
  body : α → β
  /-- the number it gives itself -/
  number : β → ℕ
  /-- the digest it gives for the entry before -/
  previous : β → δ
  digest : α → δ
  /-- stands for the digest before the first entry -/
  origin : δ

variable {α : Type u} {β : Type v} {δ : Type w} {F : Format α β δ} {l l' : List α} {e : α}

namespace Format

/-- What an extension of a chain has to carry. -/
def head (F : Format α β δ) (l : List α) : ℕ × δ :=
  (l.length, (l.getLast?.map F.digest).getD F.origin)

/-- An entry may follow a chain. -/
def Follows (F : Format α β δ) (l : List α) (e : α) : Prop :=
  (F.number (F.body e), F.previous (F.body e)) = F.head l

/-- Every entry follows those before it. -/
inductive Linked (F : Format α β δ) : List α → Prop where
  | nil : Linked F []
  | snoc {l : List α} {e : α} : Linked F l → F.Follows l e → Linked F (l ++ [e])

/-- The digest tells the entries of a set apart. -/
def CollisionFree (F : Format α β δ) (entries : Set α) : Prop := Set.InjOn F.digest entries

@[simp] theorem head_nil : F.head [] = (0, F.origin) := rfl

@[simp] theorem head_snoc : F.head (l ++ [e]) = (l.length + 1, F.digest e) := by
  simp [head]

theorem CollisionFree.mono {entries entries' : Set α} (h : F.CollisionFree entries')
    (hsub : entries ⊆ entries') : F.CollisionFree entries := Set.InjOn.mono hsub h

namespace Linked

theorem snoc_iff : F.Linked (l ++ [e]) ↔ F.Linked l ∧ F.Follows l e := by
  refine ⟨fun h => ?_, fun ⟨hl, he⟩ => hl.snoc he⟩
  generalize hm : l ++ [e] = m at h
  cases h with
  | nil => simp at hm
  | snoc hl he =>
    obtain ⟨rfl, heq⟩ := List.append_inj' hm rfl
    obtain rfl : e = _ := List.singleton_injective heq
    exact ⟨hl, he⟩

/-- A beginning of a chain is a chain. -/
theorem of_prefix (h : F.Linked l') (hl : l <+: l') : F.Linked l := by
  induction h with
  | nil => rw [List.prefix_nil.mp hl]; exact .nil
  | @snoc m e hm he ih =>
    rcases List.prefix_concat_iff.mp hl with rfl | hl
    · exact hm.snoc he
    · exact ih hl

/-- The entry at a position follows those before the position. -/
theorem follows (h : F.Linked l) {i : ℕ} (he : l[i]? = some e) : F.Follows (l.take i) e := by
  obtain ⟨hi, hget⟩ := List.getElem?_eq_some_iff.mp he
  have htake : l.take (i + 1) = l.take i ++ [e] := by rw [List.take_add_one, he]; rfl
  have hlinked : F.Linked (l.take (i + 1)) := h.of_prefix (List.take_prefix _ _)
  rw [htake] at hlinked
  exact (snoc_iff.mp hlinked).2

theorem number_eq (h : F.Linked l) {i : ℕ} (he : l[i]? = some e) : F.number (F.body e) = i := by
  obtain ⟨hi, -⟩ := List.getElem?_eq_some_iff.mp he
  have hnumber := congrArg Prod.fst (h.follows he)
  simpa [head, List.length_take, Nat.min_eq_left hi.le] using hnumber

/-- **The head determines the chain.** -/
theorem eq_of_head (h : F.Linked l) (h' : F.Linked l')
    (hfree : F.CollisionFree {e | e ∈ l ∨ e ∈ l'})
    (hhead : F.head l = F.head l') : l = l' := by
  induction h generalizing l' with
  | nil =>
    have hlength : l'.length = 0 := (congrArg Prod.fst hhead).symm
    exact (List.length_eq_zero_iff.mp hlength).symm
  | @snoc l e hl he ih =>
    cases h' with
    | nil => simp at hhead
    | @snoc l' e' hl' he' =>
      rw [head_snoc, head_snoc] at hhead
      obtain rfl : e = e' := hfree (by simp) (by simp) (congrArg Prod.snd hhead)
      -- the entry is the same, so what it follows has the same head
      have hinit : F.head l = F.head l' := he.symm.trans he'
      have hless : F.CollisionFree {x | x ∈ l ∨ x ∈ l'} :=
        hfree.mono fun x hx => hx.imp (List.mem_append_left _) (List.mem_append_left _)
      rw [ih hl' hless hinit]

/-- Chains that share an entry share its past. -/
theorem past_eq (h : F.Linked l) (h' : F.Linked l') (hfree : F.CollisionFree {e | e ∈ l ∨ e ∈ l'})
    {i j : ℕ} {e' : α} (he : l[i]? = some e) (he' : l'[j]? = some e')
    (hbody : F.body e = F.body e') : i = j ∧ l.take i = l'.take j := by
  have hij : i = j := by rw [← h.number_eq he, ← h'.number_eq he', hbody]
  have hpast : F.CollisionFree {e | e ∈ l.take i ∨ e ∈ l'.take j} :=
    hfree.mono fun x hx => hx.imp List.mem_of_mem_take List.mem_of_mem_take
  refine ⟨hij, eq_of_head (h.of_prefix (List.take_prefix _ _))
    (h'.of_prefix (List.take_prefix _ _)) hpast ?_⟩
  have hfollows := h.follows he
  have hfollows' := h'.follows he'
  rw [Follows, hbody] at hfollows
  exact hfollows.symm.trans hfollows'

/-- **A chain of signed bodies is one its signer extended entry by entry.** What the signer did is
given as pairs of a chain and the entry added to it. -/
theorem authentic (signed : Set (List α × α)) (h : F.Linked l)
    (hextended : ∀ past e, (past, e) ∈ signed → F.Linked (past ++ [e]))
    (hsigned : ∀ e ∈ l, ∃ past e', (past, e') ∈ signed ∧ F.body e' = F.body e)
    (hfree : F.CollisionFree {e | e ∈ l ∨ ∃ past e', (past, e') ∈ signed ∧ e ∈ past ++ [e']})
    {i : ℕ} (he : l[i]? = some e) :
    ∃ e', (l.take i, e') ∈ signed ∧ F.body e' = F.body e := by
  obtain ⟨past, e', hmem, hbody⟩ := hsigned e (List.mem_of_getElem? he)
  have hboth : F.CollisionFree {x | x ∈ past ++ [e'] ∨ x ∈ l} :=
    hfree.mono fun x hx => hx.elim (fun hx => .inr ⟨past, e', hmem, hx⟩) .inl
  obtain ⟨-, hpast⟩ := (hextended past e' hmem).past_eq h hboth
    (List.getElem?_concat_length (l := past)) he hbody
  rw [List.take_left'] at hpast
  · exact ⟨e', hpast ▸ hmem, hbody⟩
  · rfl

/-- A chain of bodies signed along one line of entries is a beginning of that line, up to what is
not signed of its last entry. -/
theorem prefix_of_line (signed : Set (List α × α)) {trunk : List α}
    (htrunk : ∀ past e, (past, e) ∈ signed → ∃ i, trunk[i]? = some e ∧ past = trunk.take i)
    (hl : ∀ i e, l[i]? = some e → ∃ e', (l.take i, e') ∈ signed ∧ F.body e' = F.body e) :
    l.dropLast <+: trunk ∧ l.map F.body <+: trunk.map F.body := by
  have hat : ∀ i e, l[i]? = some e →
      l.take i = trunk.take i ∧ ∃ e', trunk[i]? = some e' ∧ F.body e' = F.body e := by
    intro i e he
    obtain ⟨e', hmem, hbody⟩ := hl i e he
    obtain ⟨j, hj, htake⟩ := htrunk _ _ hmem
    have hi : i < l.length := (List.getElem?_eq_some_iff.mp he).1
    have hjtrunk : j < trunk.length := (List.getElem?_eq_some_iff.mp hj).1
    obtain rfl : i = j := by
      have hlength := congrArg List.length htake
      rw [List.length_take, List.length_take] at hlength
      omega
    exact ⟨htake, e', hj, hbody⟩
  constructor
  · rcases List.eq_nil_or_concat l with rfl | ⟨m, e, rfl⟩
    · simp
    · obtain ⟨htake, -⟩ := hat m.length e (by simp)
      rw [List.concat_eq_append, List.take_left' rfl] at htake
      rw [List.concat_eq_append, List.dropLast_concat, htake]
      exact List.take_prefix _ _
  · rw [List.prefix_iff_getElem?]
    intro i hi
    rw [List.length_map] at hi
    obtain ⟨-, e', he', hbody⟩ := hat i _ (List.getElem?_eq_getElem hi)
    rw [List.getElem?_map, he', List.getElem_map, ← hbody]
    rfl

end Linked

end Format

end HashChain
