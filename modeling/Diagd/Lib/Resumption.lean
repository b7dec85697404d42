import Mathlib

/-!
# Resumption — programs that yield at their atomic steps

A `Prog S ε α` is what is left of a thread: it has returned, it has
crashed, or it is about to perform an atomic operation of the signature
`S` and continues with the answer. A scheduler may run any number of steps
of other threads before it answers, so one definition of a program serves
both the uninterrupted run (`Prog.run`) and every interleaving.

`Conforms` is the logic of such programs: a `Protocol` gives each state of
a thread the operations it allows and the state each answer leads to, and
`Conforms π st p Q` says that `p`, started in `st`, performs only allowed
operations whatever the answers are, never crashes, and returns with `Q`.
A program is walked through once, against a protocol that says all there is to
say about it; any other protocol it keeps to is a coarser view of that one
(`Views`).
-/

namespace Resumption

/-- Atomic operations and the type of their answers. -/
structure Sig where
  Op : Type
  Res : Op → Type

inductive Prog (S : Sig) (ε α : Type) where
  | ret (a : α)
  | crash (e : ε)
  | op (o : S.Op) (k : S.Res o → Prog S ε α)

namespace Prog

variable {S : Sig} {ε α β : Type}

def bind : Prog S ε α → (α → Prog S ε β) → Prog S ε β
  | .ret a, f => f a
  | .crash e, _ => .crash e
  | .op o k, f => .op o fun r => bind (k r) f

instance : Monad (Prog S ε) where
  pure := .ret
  bind := bind

/-- Perform one operation and return its answer. -/
def perform (o : S.Op) : Prog S ε (S.Res o) := .op o .ret

/-- A computation without atomic steps. -/
def lift : Except ε α → Prog S ε α
  | .ok a => .ret a
  | .error e => .crash e

@[simp] theorem ret_bind (a : α) (f : α → Prog S ε β) : (Prog.ret a >>= f) = f a := rfl

@[simp] theorem perform_bind (o : S.Op) (f : S.Res o → Prog S ε β) :
    ((perform o : Prog S ε (S.Res o)) >>= f) = Prog.op o f := rfl

@[simp] theorem lift_ok (a : α) : (lift (.ok a) : Prog S ε α) = .ret a := rfl

/-- The uninterrupted run: the `n`-th operation is answered by `h` under
the `n`-th environment. -/
def run {σ E : Type} (h : (o : S.Op) → E → σ → S.Res o × σ) (env : Nat → E) :
    Nat → Prog S ε α → σ → Except ε α × σ
  | _, .ret a, s => (.ok a, s)
  | _, .crash e, s => (.error e, s)
  | n, .op o k, s => run h env (n + 1) (k (h o (env n) s).1) (h o (env n) s).2

/-- `Executes p tr q`: `p` can perform the operations of `tr` with the
answers recorded there, and `q` is what is left of it then. -/
inductive Executes : Prog S ε α → List (Σ o : S.Op, S.Res o) → Prog S ε α → Prop where
  | refl (p : Prog S ε α) : Executes p [] p
  | step {o : S.Op} {k : S.Res o → Prog S ε α} {r : S.Res o} {tr : List (Σ o : S.Op, S.Res o)}
      {q : Prog S ε α} (h : Executes (k r) tr q) : Executes (.op o k) (⟨o, r⟩ :: tr) q

/-- The execution in which every operation is answered by `f`, and what it
ends with. -/
def answered (f : (o : S.Op) → S.Res o) :
    Prog S ε α → List (Σ o : S.Op, S.Res o) × Prog S ε α
  | .ret a => ([], .ret a)
  | .crash e => ([], .crash e)
  | .op o k => (⟨o, f o⟩ :: (answered f (k (f o))).1, (answered f (k (f o))).2)

theorem executes_answered (f : (o : S.Op) → S.Res o) (p : Prog S ε α) :
    p.Executes (p.answered f).1 (p.answered f).2 := by
  induction p with
  | ret a => exact .refl _
  | crash e => exact .refl _
  | op o k ih => exact .step (ih (f o))

theorem answered_ends (f : (o : S.Op) → S.Res o) (p : Prog S ε α) :
    (∃ a, (p.answered f).2 = .ret a) ∨ ∃ e, (p.answered f).2 = .crash e := by
  induction p with
  | ret a => exact .inl ⟨a, rfl⟩
  | crash e => exact .inr ⟨e, rfl⟩
  | op o k ih => exact ih (f o)

/-- The operations of an execution. -/
def performed (tr : List (Σ o : S.Op, S.Res o)) : List S.Op := tr.map Sigma.fst

end Prog

/-! ## Protocols -/

/-- A typestate discipline on the operations of a signature, with states `τ`. -/
structure Protocol (S : Sig) (τ : Type) where
  Allowed : τ → S.Op → Prop
  next : τ → (o : S.Op) → S.Res o → τ

variable {S : Sig} {τ τ' ε α β : Type}

/-- `π'` is a view of `π`: it allows what `π` allows, and the two move on
together. -/
def Views (π : Protocol S τ) (π' : Protocol S τ') (R : τ → τ' → Prop) : Prop :=
  ∀ st st' o, R st st' → π.Allowed st o →
    π'.Allowed st' o ∧ ∀ r, R (π.next st o r) (π'.next st' o r)

/-- `p` follows the protocol from `st` on, and returns with `Q`. -/
def Conforms (π : Protocol S τ) : τ → Prog S ε α → (α → τ → Prop) → Prop
  | st, .ret a, Q => Q a st
  | _, .crash _, _ => False
  | st, .op o k, Q => π.Allowed st o ∧ ∀ r, Conforms π (π.next st o r) (k r) Q

namespace Conforms

variable {π : Protocol S τ} {st : τ} {Q : α → τ → Prop}

theorem ret_iff {a : α} : Conforms π st (Prog.ret a : Prog S ε α) Q ↔ Q a st := .rfl

theorem not_crash {e : ε} : ¬ Conforms π st (Prog.crash e : Prog S ε α) Q := id

theorem op_iff {o : S.Op} {k : S.Res o → Prog S ε α} :
    Conforms π st (Prog.op o k) Q ↔
      π.Allowed st o ∧ ∀ r, Conforms π (π.next st o r) (k r) Q := .rfl

theorem ret {a : α} (h : Q a st) : Conforms π st (Prog.ret a : Prog S ε α) Q := h

theorem mono {p : Prog S ε α} {R : α → τ → Prop} (h : Conforms π st p Q)
    (hQ : ∀ a st, Q a st → R a st) : Conforms π st p R := by
  induction p generalizing st with
  | ret a => exact hQ a st h
  | crash e => exact h
  | op o k ih => exact ⟨h.1, fun r => ih r (h.2 r)⟩

/-- Sequencing: the second part starts where the first one returned. -/
theorem bind {p : Prog S ε α} {f : α → Prog S ε β} {R : β → τ → Prop}
    (h : Conforms π st p Q) (hf : ∀ a st, Q a st → Conforms π st (f a) R) :
    Conforms π st (p >>= f) R := by
  induction p generalizing st with
  | ret a => exact hf a st h
  | crash e => exact h.elim
  | op o k ih => exact ⟨h.1, fun r => ih r (h.2 r)⟩

theorem perform {o : S.Op} {Q : S.Res o → τ → Prop} (ha : π.Allowed st o)
    (hk : ∀ r, Q r (π.next st o r)) :
    Conforms π st (Prog.perform o : Prog S ε (S.Res o)) Q := ⟨ha, hk⟩

theorem perform_bind {o : S.Op} {f : S.Res o → Prog S ε α} (ha : π.Allowed st o)
    (hk : ∀ r, Conforms π (π.next st o r) (f r) Q) :
    Conforms π st ((Prog.perform o : Prog S ε (S.Res o)) >>= f) Q := ⟨ha, hk⟩

/-- What conforms to a protocol conforms to its views. -/
theorem view {π' : Protocol S τ'} {R : τ → τ' → Prop} {st' : τ'} {p : Prog S ε α}
    (h : Conforms π st p Q) (hv : Views π π' R) (hR : R st st') :
    Conforms π' st' p fun a st' => ∃ st, R st st' ∧ Q a st := by
  induction p generalizing st st' with
  | ret a => exact ⟨st, hR, h⟩
  | crash e => exact h
  | op o k ih =>
      obtain ⟨hallowed, hnext⟩ := hv st st' o hR h.1
      exact ⟨hallowed, fun r => ih r (h.2 r) (hnext r)⟩

/-- What is left of a conforming program conforms, from the state that the
operations performed lead to. -/
theorem executes {p q : Prog S ε α} {tr : List (Σ o : S.Op, S.Res o)} (h : Conforms π st p Q)
    (he : p.Executes tr q) : Conforms π (tr.foldl (fun st e => π.next st e.1 e.2) st) q Q := by
  induction he generalizing st with
  | refl p => exact h
  | step _ ih => exact ih (h.2 _)

/-- **What a conforming program performs, the protocol allows**, in the
state that the operations before it lead to. -/
theorem allowed {p q : Prog S ε α} {tr tr' : List (Σ o : S.Op, S.Res o)} {o : S.Op} {r : S.Res o}
    (h : Conforms π st p Q) (he : p.Executes (tr ++ ⟨o, r⟩ :: tr') q) :
    π.Allowed (tr.foldl (fun st e => π.next st e.1 e.2) st) o := by
  induction tr generalizing st p with
  | nil =>
      cases he with
      | step _ => exact h.1
  | cons e tr ih =>
      obtain ⟨o', r'⟩ := e
      cases he with
      | step he' => exact ih (h.2 r') he'

end Conforms

-- Unfolding it would evaluate the program; it is used through the rules above.
attribute [irreducible] Conforms

end Resumption
