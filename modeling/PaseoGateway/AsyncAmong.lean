/-
  PaseoGateway/AsyncAmong.lean
  ============================
  **The runs of one program on a store that others write to.**

  A run of a program among others is a run whose store requests are served by a
  history (`CasStore.lean`), while before each of them and after the last the others may
  add entries of their own.  The others are not programs here, only what they may
  write (`rely`), so a statement about such runs is one about every environment.
-/
import PaseoGateway.AsyncPool
import PaseoGateway.AsyncRuns

namespace PaseoGateway.Async

open Prog

section Among

variable {S : Sys} {α β : Type}

/-- Thread `t` runs the program from the history `tr` and leaves the history `tr'`. -/
inductive Among (rely : Trace S.Key S.Val S.Note → Entry S.Key S.Val S.Note → Prop) (t : Tid) :
    S.Task α →
    Trace S.Key S.Val S.Note → List (Event S.iface) → Trace S.Key S.Val S.Note →
    Except S.Err α → Prop where
  | ret (a : α) (tr : Trace S.Key S.Val S.Note) : Among rely t (.ret a) tr [] tr (.ok a)
  | fail (e : S.Err) (tr : Trace S.Key S.Val S.Note) : Among rely t (.fail e) tr [] tr (.error e)
  | other {p : S.Task α} {tr tr' : Trace S.Key S.Val S.Note} {log : List (Event S.iface)}
      {out : Except S.Err α} (e : Entry S.Key S.Val S.Note) (he : rely tr e)
      (hauthor : e.author ≠ some t) (rest : Among rely t p (e :: tr) log tr' out) :
      Among rely t p tr log tr' out
  | store {q : StoreReq S.Key S.Val} {k : q.Res → S.Task α} {tr tr' : Trace S.Key S.Val S.Note}
      {log : List (Event S.iface)} {out : Except S.Err α} (c : Weather S.Key)
      (rest : Among rely t (k (serve c (some t) q tr).1) (serve c (some t) q tr).2 log tr' out) :
      Among rely t (.call (.store q) k) tr (⟨.store q, (serve c (some t) q tr).1⟩ :: log) tr' out
  | ext {x : S.Ext} {k : S.ExtRes x → S.Task α} {tr tr' : Trace S.Key S.Val S.Note}
      {log : List (Event S.iface)} {out : Except S.Err α} (r : S.ExtRes x)
      (rest : Among rely t (k r) tr log tr' out) :
      Among rely t (.call (.ext x) k) tr (⟨.ext x, r⟩ :: log) tr' out

/-- Only the others have written. -/
inductive Others (rely : Trace S.Key S.Val S.Note → Entry S.Key S.Val S.Note → Prop) (t : Tid)
    (tr : Trace S.Key S.Val S.Note) : Trace S.Key S.Val S.Note → Prop where
  | refl : Others rely t tr tr
  | step {tr' : Trace S.Key S.Val S.Note} {e : Entry S.Key S.Val S.Note}
      (first : Others rely t tr tr') (he : rely tr' e) (hauthor : e.author ≠ some t) :
      Others rely t tr (e :: tr')

variable {rely : Trace S.Key S.Val S.Note → Entry S.Key S.Val S.Note → Prop} {t : Tid}
  {p : S.Task α} {tr tr' tr'' : Trace S.Key S.Val S.Note} {log : List (Event S.iface)}
  {out : Except S.Err α}

/-- What an entry of the others keeps holds behind all of them. -/
theorem Others.keeps {P : Trace S.Key S.Val S.Note → Prop} (h : Others rely t tr tr') (h0 : P tr)
    (hstep : ∀ older e, P older → rely older e → e.author ≠ some t → P (e :: older)) : P tr' := by
  induction h with
  | refl => exact h0
  | step first he hauthor ih => exact hstep _ _ ih he hauthor

theorem Others.trans (h : Others rely t tr tr') (h' : Others rely t tr' tr'') :
    Others rely t tr tr'' :=
  h'.keeps h fun _ _ hold he hauthor => hold.step he hauthor

theorem Others.cons {e : Entry S.Key S.Val S.Note} (he : rely tr e) (hauthor : e.author ≠ some t)
    (h : Others rely t (e :: tr) tr') : Others rely t tr tr' :=
  (Others.refl.step he hauthor).trans h

theorem Others.suffix (h : Others rely t tr tr') : ∃ new, tr' = new ++ tr := by
  refine h.keeps (P := fun tr' => ∃ new, tr' = new ++ tr) ⟨[], rfl⟩ ?_
  rintro _ e ⟨new, rfl⟩ - -
  exact ⟨e :: new, rfl⟩

theorem Others.stored {n : Nat} {k : S.Key} {v : S.Val k} (h : Others rely t tr tr')
    (hs : Stored tr n k v) : Stored tr' n k v := by
  obtain ⟨new, rfl⟩ := h.suffix
  exact hs.mono new

theorem Among.after_others (hothers : Others rely t tr tr') (h : Among rely t p tr' log tr'' out) :
    Among rely t p tr log tr'' out := by
  induction hothers with
  | refl => exact h
  | step first he hauthor ih => exact ih (.other _ he hauthor h)

/-! ### Taking a run apart -/

theorem Among.of_ret {a : α} (h : Among rely t (.ret a) tr log tr' out) :
    log = [] ∧ out = .ok a ∧ Others rely t tr tr' := by
  generalize hp : (Prog.ret a : S.Task α) = p at h
  induction h with
  | ret a' tr =>
    cases hp
    exact ⟨rfl, rfl, Others.refl⟩
  | fail e tr => cases hp
  | other e he hauthor rest ih =>
    obtain ⟨hlog, hout, hothers⟩ := ih hp
    exact ⟨hlog, hout, hothers.cons he hauthor⟩
  | store c rest ih => cases hp
  | ext r rest ih => cases hp

theorem Among.of_fail {e : S.Err} (h : Among rely t (.fail e : S.Task α) tr log tr' out) :
    log = [] ∧ out = .error e ∧ Others rely t tr tr' := by
  generalize hp : (Prog.fail e : S.Task α) = p at h
  induction h with
  | ret a' tr => cases hp
  | fail e' tr =>
    cases hp
    exact ⟨rfl, rfl, Others.refl⟩
  | other e' he hauthor rest ih =>
    obtain ⟨hlog, hout, hothers⟩ := ih hp
    exact ⟨hlog, hout, hothers.cons he hauthor⟩
  | store c rest ih => cases hp
  | ext r rest ih => cases hp

theorem Among.of_store {q : StoreReq S.Key S.Val} {k : q.Res → S.Task α}
    (h : Among rely t (.call (.store q) k) tr log tr' out) : ∃ before c rest,
      Others rely t tr before ∧ log = ⟨.store q, (serve c (some t) q before).1⟩ :: rest ∧
      Among rely t (k (serve c (some t) q before).1) (serve c (some t) q before).2 rest tr'
        out := by
  generalize hp : (Prog.call (.store q) k : S.Task α) = p at h
  induction h with
  | ret a tr => cases hp
  | fail e tr => cases hp
  | other e he hauthor rest ih =>
    obtain ⟨before, c, rest', hothers, hlog, hrest⟩ := ih hp
    exact ⟨before, c, rest', hothers.cons he hauthor, hlog, hrest⟩
  | store c rest ih =>
    cases hp
    exact ⟨_, c, _, Others.refl, rfl, rest⟩
  | ext r rest ih => cases hp

theorem Among.of_ext {x : S.Ext} {k : S.ExtRes x → S.Task α}
    (h : Among rely t (.call (.ext x) k) tr log tr' out) : ∃ before r rest,
      Others rely t tr before ∧ log = ⟨.ext x, r⟩ :: rest ∧
      Among rely t (k r) before rest tr' out := by
  generalize hp : (Prog.call (.ext x) k : S.Task α) = p at h
  induction h with
  | ret a tr => cases hp
  | fail e tr => cases hp
  | other e he hauthor rest ih =>
    obtain ⟨before, r, rest', hothers, hlog, hrest⟩ := ih hp
    exact ⟨before, r, rest', hothers.cons he hauthor, hlog, hrest⟩
  | store c rest ih => cases hp
  | ext r rest ih =>
    cases hp
    exact ⟨_, r, _, Others.refl, rfl, rest⟩

/-- A run of a sequence throws in its first part, or its second part runs behind the first. -/
theorem Among.of_bind {f : α → S.Task β} {out : Except S.Err β}
    (h : Among rely t (p >>= f) tr log tr' out) :
    (∃ e, out = .error e ∧ Among rely t p tr log tr' (.error e)) ∨
    ∃ a first last between, log = first ++ last ∧ Among rely t p tr first between (.ok a) ∧
      Among rely t (f a) between last tr' out := by
  induction p generalizing tr log with
  | ret a => exact .inr ⟨a, [], log, tr, rfl, .ret a tr, h⟩
  | fail e =>
    obtain ⟨rfl, rfl, hothers⟩ := Among.of_fail h
    exact .inl ⟨e, rfl, (Among.fail e tr').after_others hothers⟩
  | call q k ih =>
    rcases q with q | x
    · obtain ⟨before, c, rest, hothers, rfl, hrest⟩ := Among.of_store h
      rcases ih _ hrest with ⟨e, rfl, hfirst⟩ | ⟨a, first, last, between, rfl, hfirst, hlast⟩
      · exact .inl ⟨e, rfl, (Among.store c hfirst).after_others hothers⟩
      · exact .inr ⟨a, _ :: first, last, between, rfl, (Among.store c hfirst).after_others hothers,
          hlast⟩
    · obtain ⟨before, r, rest, hothers, rfl, hrest⟩ := Among.of_ext h
      rcases ih r hrest with ⟨e, rfl, hfirst⟩ | ⟨a, first, last, between, rfl, hfirst, hlast⟩
      · exact .inl ⟨e, rfl, (Among.ext r hfirst).after_others hothers⟩
      · exact .inr ⟨a, _ :: first, last, between, rfl, (Among.ext r hfirst).after_others hothers,
          hlast⟩

theorem Among.of_attempt {out : Except S.Err (Except S.Err α)}
    (h : Among rely t p.attempt tr log tr' out) :
    ∃ result, out = .ok result ∧ Among rely t p tr log tr' result := by
  induction p generalizing tr log with
  | ret a =>
    obtain ⟨rfl, rfl, hothers⟩ := Among.of_ret h
    exact ⟨_, rfl, (Among.ret a tr').after_others hothers⟩
  | fail e =>
    obtain ⟨rfl, rfl, hothers⟩ := Among.of_ret h
    exact ⟨_, rfl, (Among.fail e tr').after_others hothers⟩
  | call q k ih =>
    rcases q with q | x
    · obtain ⟨before, c, rest, hothers, rfl, hrest⟩ := Among.of_store h
      obtain ⟨result, rfl, hresult⟩ := ih _ hrest
      exact ⟨result, rfl, (Among.store c hresult).after_others hothers⟩
    · obtain ⟨before, r, rest, hothers, rfl, hrest⟩ := Among.of_ext h
      obtain ⟨result, rfl, hresult⟩ := ih r hrest
      exact ⟨result, rfl, (Among.ext r hresult).after_others hothers⟩

/-! ### Putting runs together -/

theorem Among.bind {f : α → S.Task β} {a : α} {last : List (Event S.iface)}
    {out : Except S.Err β} (h : Among rely t p tr log tr' (.ok a))
    (hlast : Among rely t (f a) tr' last tr'' out) :
    Among rely t (p >>= f) tr (log ++ last) tr'' out := by
  generalize hout : (Except.ok a : Except S.Err α) = first at h
  induction h with
  | ret a' tr =>
    cases hout
    exact hlast
  | fail e tr => cases hout
  | other e he hauthor rest ih => exact .other e he hauthor (ih hlast hout)
  | store c rest ih => exact .store c (ih hlast hout)
  | ext r rest ih => exact .ext r (ih hlast hout)

theorem Among.attempt (h : Among rely t p tr log tr' out) :
    Among rely t p.attempt tr log tr' (.ok out) := by
  induction h with
  | ret a tr => exact .ret _ tr
  | fail e tr => exact .ret _ tr
  | other e he hauthor rest ih => exact .other e he hauthor ih
  | store c rest ih => exact .store c ih
  | ext r rest ih => exact .ext r ih

/-- What an observer at the interface writes down. -/
theorem Among.ran (h : Among rely t p tr log tr' out) : Ran p log out := by
  induction h with
  | ret a tr => exact .ret a
  | fail e tr => exact .fail e
  | other e he hauthor rest ih => exact ih
  | store c rest ih => exact ran_call.mpr ⟨_, _, rfl, ih⟩
  | ext r rest ih => exact ran_call.mpr ⟨_, _, rfl, ih⟩

/-- Without a request of its own a program writes nothing. -/
theorem Among.idle (h : Among rely t p tr [] tr' out) : Others rely t tr tr' := by
  generalize hlog : ([] : List (Event S.iface)) = log at h
  induction h with
  | ret a tr => exact .refl
  | fail e tr => exact .refl
  | other e he hauthor rest ih => exact (ih hlog).cons he hauthor
  | store c rest ih => cases hlog
  | ext r rest ih => cases hlog

/-! ### Programs that only read -/

def Reads : Req S → Prop
  | .store (.get _) => True
  | .store (.list _) => True
  | .store _ => False
  | .ext _ => True

theorem serve_reads {q : StoreReq S.Key S.Val} (hq : Reads (.store q)) {c : Weather S.Key}
    {a : Option Tid} : (serve c a q tr).2 = tr := by
  rcases q with k | sel | _ | _ | _
  · exact (serve_get rfl).1
  · exact (serve_list rfl).1
  · exact hq.elim
  · exact hq.elim
  · exact hq.elim

theorem Among.reads (hp : p.Only Reads) (h : Among rely t p tr log tr' out) :
    Others rely t tr tr' := by
  induction h with
  | ret a tr => exact Others.refl
  | fail e tr => exact Others.refl
  | other e he hauthor rest ih => exact (ih hp).cons he hauthor
  | store c rest ih =>
    have hothers := ih (hp.2 _)
    rwa [serve_reads hp.1] at hothers
  | ext r rest ih => exact ih (hp.2 r)

/-! ### A run by a script -/

section Script

variable [∀ tr e, Decidable (rely tr e)]

/-- The others may add these entries. -/
def wrote (rely : Trace S.Key S.Val S.Note → Entry S.Key S.Val S.Note → Prop)
    [∀ tr e, Decidable (rely tr e)] (t : Tid) :
    List (Entry S.Key S.Val S.Note) → Trace S.Key S.Val S.Note → Bool
  | [], _ => true
  | e :: new, tr => wrote rely t new tr && decide (rely (new ++ tr) e ∧ e.author ≠ some t)

theorem others_of_wrote {new : List (Entry S.Key S.Val S.Note)}
    (h : wrote rely t new tr = true) : Others rely t tr (new ++ tr) := by
  induction new with
  | nil => exact .refl
  | cons e new ih =>
    simp only [wrote, Bool.and_eq_true, decide_eq_true_eq] at h
    exact (ih h.1).step h.2.1 h.2.2

/-- The run in which the others add the given entries before each request, which then meets the
    given weather. -/
def play (rely : Trace S.Key S.Val S.Note → Entry S.Key S.Val S.Note → Prop)
    [∀ tr e, Decidable (rely tr e)] (t : Tid) (answer : (x : S.Ext) → Option (S.ExtRes x)) :
    S.Task α → List (List (Entry S.Key S.Val S.Note) × Weather S.Key) →
    Trace S.Key S.Val S.Note →
    Option (List (Event S.iface) × Trace S.Key S.Val S.Note × Except S.Err α)
  | .ret a, _, tr => some ([], tr, .ok a)
  | .fail e, _, tr => some ([], tr, .error e)
  | .call _ _, [], _ => none
  | .call (.store q) k, (new, c) :: script, tr =>
    if wrote rely t new tr then
      let served := serve c (some t) q (new ++ tr)
      (play rely t answer (k served.1) script served.2).map fun run =>
        (⟨.store q, served.1⟩ :: run.1, run.2)
    else none
  | .call (.ext x) k, (new, _) :: script, tr =>
    if wrote rely t new tr then
      (answer x).bind fun r =>
        (play rely t answer (k r) script (new ++ tr)).map fun run => (⟨.ext x, r⟩ :: run.1, run.2)
    else none

theorem among_play {answer : (x : S.Ext) → Option (S.ExtRes x)}
    {script : List (List (Entry S.Key S.Val S.Note) × Weather S.Key)}
    {run : List (Event S.iface) × Trace S.Key S.Val S.Note × Except S.Err α}
    (h : play rely t answer p script tr = some run) :
    Among rely t p tr run.1 run.2.1 run.2.2 := by
  induction p generalizing script tr run with
  | ret a =>
    obtain rfl := Option.some.inj h
    exact .ret a tr
  | fail e =>
    obtain rfl := Option.some.inj h
    exact .fail e tr
  | call q k ih =>
    rcases script with _ | ⟨⟨new, c⟩, script⟩
    · rcases q with q | x <;> cases h
    rcases q with q | x
    · obtain ⟨hnew, h⟩ := Option.ite_none_right_eq_some.mp h
      obtain ⟨rest, hrest, rfl⟩ := Option.map_eq_some_iff.mp h
      exact Among.after_others (others_of_wrote hnew) (.store c (ih _ hrest))
    · obtain ⟨hnew, h⟩ := Option.ite_none_right_eq_some.mp h
      obtain ⟨r, hr, h⟩ := Option.bind_eq_some_iff.mp h
      obtain ⟨rest, hrest, rfl⟩ := Option.map_eq_some_iff.mp h
      exact Among.after_others (others_of_wrote hnew) (.ext r (ih r hrest))

end Script

end Among

end PaseoGateway.Async
