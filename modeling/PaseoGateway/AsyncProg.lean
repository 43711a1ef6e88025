/-
  PaseoGateway/AsyncProg.lean
  ===========================
  **Asynchronous programs as trees of awaited requests.**

  An `async` function runs without interruption between two `await`s and hands
  control back at each of them.  A `Prog` is exactly that shape: it has returned
  (`ret`), thrown (`fail`), or awaits one request and continues with whatever the
  answer is (`call`).  Everything a process, the cluster or the clock may do
  happens while a program sits at a `call`, so the interleavings of a set of
  programs are the interleavings of their calls (`AsyncPool.lean`).

  Nothing here knows which requests exist: an interface `Iface` names them and
  gives each the type of its answer.
-/
import Mathlib

namespace PaseoGateway.Async

/-- The requests a program may await, and the type of the answer to each. -/
structure Iface where
  Req : Type
  Res : Req → Type

/-- A program over the interface `I` that throws `ε` or returns `α`. -/
inductive Prog (I : Iface) (ε α : Type) where
  | ret (a : α)
  | fail (e : ε)
  | call (q : I.Req) (k : I.Res q → Prog I ε α)

namespace Prog

variable {I : Iface} {ε α β γ : Type}

/-! ### Sequencing and exceptions -/

def bind : Prog I ε α → (α → Prog I ε β) → Prog I ε β
  | .ret a, f => f a
  | .fail e, _ => .fail e
  | .call q k, f => .call q fun r => (k r).bind f

instance : Monad (Prog I ε) where
  pure := .ret
  bind := bind

/-- `try { … }` with the exception handed over as a value. -/
def attempt : Prog I ε α → Prog I ε (Except ε α)
  | .ret a => .ret (.ok a)
  | .fail e => .ret (.error e)
  | .call q k => .call q fun r => (k r).attempt

/-- A thrown or returned value as a program. -/
def ofExcept : Except ε α → Prog I ε α
  | .ok a => .ret a
  | .error e => .fail e

/-- The program has returned or thrown. -/
def settled : Prog I ε α → Bool
  | .call _ _ => false
  | _ => true

/-- `try { body } finally { last }` -/
def andFinally (body : Prog I ε α) (last : Prog I ε Unit) : Prog I ε α :=
  body.attempt >>= fun result => last >>= fun _ => ofExcept result

@[simp] theorem ret_bind (a : α) (f : α → Prog I ε β) : (ret a >>= f) = f a := rfl
@[simp] theorem pure_bind' (a : α) (f : α → Prog I ε β) :
    ((pure a : Prog I ε α) >>= f) = f a := rfl
@[simp] theorem fail_bind (e : ε) (f : α → Prog I ε β) :
    ((fail e : Prog I ε α) >>= f) = fail e := rfl
@[simp] theorem call_bind (q : I.Req) (k : I.Res q → Prog I ε α) (f : α → Prog I ε β) :
    (call q k >>= f) = call q fun r => k r >>= f := rfl
@[simp] theorem pure_eq_ret (a : α) : (pure a : Prog I ε α) = ret a := rfl

@[simp] theorem attempt_ret (a : α) :
    attempt (ret a : Prog I ε α) = ret (.ok a) := rfl
@[simp] theorem attempt_fail (e : ε) :
    attempt (fail e : Prog I ε α) = ret (.error e) := rfl
@[simp] theorem attempt_call (q : I.Req) (k : I.Res q → Prog I ε α) :
    attempt (call q k) = call q fun r => (k r).attempt := rfl

theorem bind_ret (p : Prog I ε α) : p >>= Prog.ret = p := by
  induction p with
  | ret a => rfl
  | fail e => rfl
  | call q k ih => exact congrArg (Prog.call q) (funext ih)

theorem bind_assoc' (p : Prog I ε α) (f : α → Prog I ε β) (g : β → Prog I ε γ) :
    ((p >>= f) >>= g) = (p >>= fun a => f a >>= g) := by
  induction p with
  | ret a => rfl
  | fail e => rfl
  | call q k ih =>
    simp only [call_bind]
    congr 1
    funext r
    exact ih r

/-! ### What a program may ask for -/

/-- Every request the program can ever make, whatever the answers, satisfies `ok`. -/
def Only (ok : I.Req → Prop) : Prog I ε α → Prop
  | .ret _ => True
  | .fail _ => True
  | .call q k => ok q ∧ ∀ r, (k r).Only ok

theorem Only.bind {ok : I.Req → Prop} {p : Prog I ε α} {f : α → Prog I ε β}
    (hp : p.Only ok) (hf : ∀ a, (f a).Only ok) : (p >>= f).Only ok := by
  induction p with
  | ret a => exact hf a
  | fail e => trivial
  | call q k ih => exact ⟨hp.1, fun r => ih r (hp.2 r)⟩

theorem Only.attempt {ok : I.Req → Prop} {p : Prog I ε α} (hp : p.Only ok) :
    p.attempt.Only ok := by
  induction p with
  | ret a => trivial
  | fail e => trivial
  | call q k ih => exact ⟨hp.1, fun r => ih r (hp.2 r)⟩

theorem Only.mono {ok ok' : I.Req → Prop} {p : Prog I ε α} (h : ∀ q, ok q → ok' q)
    (hp : p.Only ok) : p.Only ok' := by
  induction p with
  | ret a => trivial
  | fail e => trivial
  | call q k ih => exact ⟨h q hp.1, fun r => ih r (hp.2 r)⟩

/-! ### What is left of a program -/

/-- `p'` is what may be left of `p` after some answers. -/
inductive Leads : Prog I ε α → Prog I ε α → Prop where
  | refl (p : Prog I ε α) : Leads p p
  | step {q : I.Req} {k : I.Res q → Prog I ε α} {p : Prog I ε α} (r : I.Res q) :
      Leads (k r) p → Leads (.call q k) p

theorem Leads.answer {p : Prog I ε α} {q : I.Req} {k : I.Res q → Prog I ε α}
    (h : Leads p (.call q k)) (r : I.Res q) : Leads p (k r) := by
  generalize hp : Prog.call q k = p' at h
  induction h with
  | refl p =>
    subst hp
    exact .step r (.refl _)
  | step r' _ ih => exact .step r' (ih hp)

theorem Leads.of_ret {a : α} {p : Prog I ε α} (h : Leads (.ret a) p) : p = .ret a := by
  cases h
  rfl

theorem Leads.of_fail {e : ε} {p : Prog I ε α} (h : Leads (.fail e) p) : p = .fail e := by
  cases h
  rfl

theorem Leads.of_call {q : I.Req} {k : I.Res q → Prog I ε α} {p : Prog I ε α}
    (h : Leads (.call q k) p) : p = .call q k ∨ ∃ r, Leads (k r) p := by
  cases h with
  | refl => exact .inl rfl
  | step r h => exact .inr ⟨r, h⟩

theorem Only.leads {ok : I.Req → Prop} {p p' : Prog I ε α} (hp : p.Only ok)
    (h : Leads p p') : p'.Only ok := by
  induction h with
  | refl p => exact hp
  | step r _ ih => exact ih (hp.2 r)

/-! ### A program run alone -/

/-- The outcome of a program against a responder with a state of its own. -/
def runWith {σ : Type} (respond : (q : I.Req) → σ → I.Res q × σ) :
    Prog I ε α → σ → Except ε α × σ
  | .ret a, s => (.ok a, s)
  | .fail e, s => (.error e, s)
  | .call q k, s => (k (respond q s).1).runWith respond (respond q s).2

section RunWith

variable {σ : Type} {respond : (q : I.Req) → σ → I.Res q × σ}

@[simp] theorem runWith_ret (a : α) (s : σ) :
    runWith respond (ret a : Prog I ε α) s = (.ok a, s) := rfl
@[simp] theorem runWith_fail (e : ε) (s : σ) :
    runWith respond (fail e : Prog I ε α) s = (.error e, s) := rfl
@[simp] theorem runWith_call (q : I.Req) (k : I.Res q → Prog I ε α) (s : σ) :
    runWith respond (call q k) s = (k (respond q s).1).runWith respond (respond q s).2 := rfl

theorem runWith_bind (p : Prog I ε α) (f : α → Prog I ε β) (s : σ) :
    (p >>= f).runWith respond s =
      match p.runWith respond s with
      | (.ok a, s') => (f a).runWith respond s'
      | (.error e, s') => (.error e, s') := by
  induction p generalizing s with
  | ret a => rfl
  | fail e => rfl
  | call q k ih => exact ih (respond q s).1 (respond q s).2

end RunWith

end Prog

end PaseoGateway.Async
