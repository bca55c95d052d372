import Mathlib.Data.Set.Basic
import Mathlib.Data.Sym.Sym2

/-!
# Symbolic cryptography

The term algebra of a network attacker and what the attacker can make of the messages
on the network. Cryptography is ideal: a term is what it was built from, and the only
ways to take it apart are the ones `Derivable` lists.

Reasoning about an attacker goes by a closed set. A protocol publishes a `Ledger`: the
strings it signed with keys that are not the attacker's, and the keys it encrypts
under. `Safe` terms are those the attacker may have given this ledger, and
`Derivable.safe` says that from safe terms it gets no others. A protocol proof then has
to show that every message sent is safe, and can read off from a safe signature that
it was in the ledger (`Safe.signed`), from a safe ciphertext that its key was
(`Safe.keyed`).

The algebra is over public constants `C` and names `N`. A name stands for whatever its
owner drew at random under it.
-/

namespace Symbolic

universe u v

variable {C : Type u} {N : Type v}

/-! ## Terms -/

/-- Messages and their parts. -/
inductive Term (C : Type u) (N : Type v) where
  /-- a constant everyone knows -/
  | const (c : C)
  /-- a random value -/
  | nonce (n : N)
  /-- a signing key -/
  | secretKey (k : N)
  /-- the verifying key that goes with it -/
  | publicKey (k : N)
  /-- a Diffie–Hellman exponent -/
  | exponent (x : N)
  /-- the share made from it -/
  | share (x : N)
  /-- what the owners of two exponents agree on -/
  | agreed (xy : Sym2 N)
  /-- an exponent applied to something that is not a share -/
  | degenerate (x : N) (t : Term C N)
  | pair (s t : Term C N)
  | hash (t : Term C N)
  /-- key extraction from a salt and keying material -/
  | extract (salt material : Term C N)
  /-- key expansion under a label -/
  | expand (key : Term C N) (label : C)
  | sign (k : N) (t : Term C N)
  /-- authenticated encryption of a plaintext -/
  | aead (key nonce aad plaintext : Term C N)
  deriving DecidableEq

namespace Term

/-- Apply an exponent to a share. -/
def agree (x : N) : Term C N → Term C N
  | .share y => .agreed s(x, y)
  | t => .degenerate x t

@[simp] theorem agree_share (x y : N) : agree x (.share y : Term C N) = .agreed s(x, y) := rfl

end Term

/-! ## The attacker -/

/-- What an attacker who owns the names in `own` can make of the messages in `K`. Of an
agreement with anything but a proper share it is simply given the outcome. -/
inductive Derivable (own : N → Prop) (K : Set (Term C N)) : Term C N → Prop where
  | known {t} : t ∈ K → Derivable own K t
  | const (c) : Derivable own K (.const c)
  | nonce {n} : own n → Derivable own K (.nonce n)
  | secretKey {k} : own k → Derivable own K (.secretKey k)
  | publicKey (k) : Derivable own K (.publicKey k)
  | exponent {x} : own x → Derivable own K (.exponent x)
  | share {x} : Derivable own K (.exponent x) → Derivable own K (.share x)
  | agree {x t} : Derivable own K (.exponent x) → Derivable own K t →
      Derivable own K (t.agree x)
  | degenerate {x t} : Derivable own K t → Derivable own K (.degenerate x t)
  | pair {s t} : Derivable own K s → Derivable own K t → Derivable own K (.pair s t)
  | fst {s t} : Derivable own K (.pair s t) → Derivable own K s
  | snd {s t} : Derivable own K (.pair s t) → Derivable own K t
  | hash {t} : Derivable own K t → Derivable own K (.hash t)
  | extract {s t} : Derivable own K s → Derivable own K t → Derivable own K (.extract s t)
  | expand {t} (label) : Derivable own K t → Derivable own K (.expand t label)
  | sign {k t} : Derivable own K (.secretKey k) → Derivable own K t → Derivable own K (.sign k t)
  | encrypt {k n a p} : Derivable own K k → Derivable own K n → Derivable own K a →
      Derivable own K p → Derivable own K (.aead k n a p)
  | decrypt {k n a p} : Derivable own K k → Derivable own K (.aead k n a p) → Derivable own K p

/-! ## What the attacker may have -/

/-- What a protocol has done with keys that are not the attacker's. -/
structure Ledger (C : Type u) (N : Type v) where
  /-- the strings signed with a key -/
  signed : N → Term C N → Prop
  /-- the keys messages are encrypted under -/
  keyed : Term C N → Prop

/-- One ledger extends another. -/
def Ledger.le (L L' : Ledger C N) : Prop :=
  (∀ k t, L.signed k t → L'.signed k t) ∧ ∀ k, L.keyed k → L'.keyed k

/-- The terms the attacker may have, given the ledger. What is encrypted counts as
public: the subject here is who sent a message, not who can read it. -/
def Safe (own : N → Prop) (L : Ledger C N) : Term C N → Prop
  | .const _ | .nonce _ | .publicKey _ | .share _ | .hash _ => True
  | .secretKey k => own k
  | .exponent x => own x
  | .agreed xy => ∃ x ∈ xy, own x
  | .degenerate _ t => Safe own L t
  | .pair s t => Safe own L s ∧ Safe own L t
  | .extract _ material => Safe own L material
  | .expand key _ => Safe own L key
  | .sign k t => own k ∨ L.signed k t
  | .aead key _ _ plaintext => (Safe own L key ∨ L.keyed key) ∧ Safe own L plaintext

section Safe

variable {own : N → Prop} {L L' : Ledger C N}

/-- A signature with a key that is not the attacker's was made by the protocol. -/
theorem Safe.signed {k : N} {t : Term C N} (h : Safe own L (.sign k t)) (hk : ¬own k) :
    L.signed k t := h.resolve_left hk

/-- What the attacker may have it may keep as the ledger grows. -/
theorem Safe.mono (hL : L.le L') {t : Term C N} (h : Safe own L t) : Safe own L' t := by
  induction t with
  | const | nonce | publicKey | share | hash => trivial
  | secretKey | exponent | agreed => exact h
  | degenerate _ _ ih => exact ih h
  | pair _ _ ih ih' => exact ⟨ih h.1, ih' h.2⟩
  | extract _ _ _ ih => exact ih h
  | expand _ _ ih => exact ih h
  | sign k t _ => exact h.imp_right (hL.1 k t)
  | aead _ _ _ _ ihk _ _ ihp => exact ⟨h.1.imp ihk (hL.2 _), ihp h.2⟩

/-- What two exponents agree on is the attacker's only if one of them is. -/
theorem safe_agree_share {x y : N} :
    Safe own L ((.share y : Term C N).agree x) ↔ own x ∨ own y := by
  simp [Safe]

/-- An owner of one exponent may have what it agrees on with any term it may have. -/
theorem Safe.agree {x : N} {t : Term C N} (hx : own x) (ht : Safe own L t) :
    Safe own L (t.agree x) := by
  cases t with
  | share y => exact ⟨x, Sym2.mem_mk_left x y, hx⟩
  | _ => exact ht

/-- **The attacker's closure.** From terms the attacker may have it derives no others. -/
theorem Derivable.safe {K : Set (Term C N)} (hK : ∀ t ∈ K, Safe own L t) {t : Term C N}
    (h : Derivable own K t) : Safe own L t := by
  induction h with
  | known h => exact hK _ h
  | const c => trivial
  | nonce h => trivial
  | secretKey h => exact h
  | publicKey k => trivial
  | exponent h => exact h
  | share _ _ => trivial
  | agree _ _ ihx iht => exact .agree ihx iht
  | degenerate _ ih => exact ih
  | pair _ _ ih ih' => exact ⟨ih, ih'⟩
  | fst _ ih => exact ih.1
  | snd _ ih => exact ih.2
  | hash _ _ => trivial
  | extract _ _ _ ih => exact ih
  | expand _ _ ih => exact ih
  | sign _ _ ih _ => exact .inl ih
  | encrypt _ _ _ _ ihk _ _ ihp => exact ⟨.inl ihk, ihp⟩
  | decrypt _ _ _ ih => exact ih.2

end Safe

end Symbolic
