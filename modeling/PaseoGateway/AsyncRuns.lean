/-
  PaseoGateway/AsyncRuns.lean
  ===========================
  **The runs of one asynchronous program.**

  A run is what an observer at the interface writes down: the requests in order, each
  with the answer it got, and what the program has thrown or returned.  Nothing is
  said of who answers, so the runs of a program are its behaviour against every
  environment, the changing and the malicious ones included.
-/
import PaseoGateway.AsyncProg

namespace PaseoGateway.Async

/-- A request with its answer. -/
abbrev Event (I : Iface) : Type := (q : I.Req) × I.Res q

namespace Prog

variable {I : Iface} {ε α β : Type}

inductive Ran : Prog I ε α → List (Event I) → Except ε α → Prop where
  | ret (a : α) : Ran (.ret a) [] (.ok a)
  | fail (e : ε) : Ran (.fail e) [] (.error e)
  | call {q : I.Req} {k : I.Res q → Prog I ε α} {log : List (Event I)} {out : Except ε α}
      (r : I.Res q) (rest : Ran (k r) log out) : Ran (.call q k) (⟨q, r⟩ :: log) out

/-! ### The runs of compound programs -/

@[simp] theorem ran_ret {a : α} {log : List (Event I)} {out : Except ε α} :
    Ran (ret a : Prog I ε α) log out ↔ log = [] ∧ out = .ok a := by
  constructor
  · intro h
    cases h
    exact ⟨rfl, rfl⟩
  · rintro ⟨rfl, rfl⟩
    exact .ret a

@[simp] theorem ran_fail {e : ε} {log : List (Event I)} {out : Except ε α} :
    Ran (fail e : Prog I ε α) log out ↔ log = [] ∧ out = .error e := by
  constructor
  · intro h
    cases h
    exact ⟨rfl, rfl⟩
  · rintro ⟨rfl, rfl⟩
    exact .fail e

theorem ran_call {q : I.Req} {k : I.Res q → Prog I ε α} {log : List (Event I)}
    {out : Except ε α} :
    Ran (call q k) log out ↔ ∃ r rest, log = ⟨q, r⟩ :: rest ∧ Ran (k r) rest out := by
  constructor
  · intro h
    cases h with
    | call r rest => exact ⟨r, _, rfl, rest⟩
  · rintro ⟨r, rest, rfl, h⟩
    exact .call r h

/-- A run of a sequence is a run of its first part that throws, or one that returns and a run of
    the second part behind it. -/
theorem ran_bind {p : Prog I ε α} {f : α → Prog I ε β} {log : List (Event I)}
    {out : Except ε β} :
    Ran (p >>= f) log out ↔
      (∃ e, out = .error e ∧ Ran p log (.error e)) ∨
      ∃ a before after, log = before ++ after ∧ Ran p before (.ok a) ∧ Ran (f a) after out := by
  induction p generalizing log with
  | ret a => simp
  | fail e =>
    simp only [fail_bind, ran_fail]
    constructor
    · rintro ⟨rfl, rfl⟩
      exact .inl ⟨e, rfl, rfl, rfl⟩
    · rintro (⟨e', rfl, rfl, h⟩ | ⟨a, before, after, _, ⟨_, h⟩, _⟩)
      · exact ⟨rfl, congrArg _ (Except.error.inj h)⟩
      · simp at h
  | call q k ih =>
    simp only [call_bind, ran_call, ih]
    constructor
    · rintro ⟨r, rest, rfl, ⟨e, rfl, h⟩ | ⟨a, before, after, rfl, h, h'⟩⟩
      · exact .inl ⟨e, rfl, r, rest, rfl, h⟩
      · exact .inr ⟨a, ⟨q, r⟩ :: before, after, rfl, ⟨r, before, rfl, h⟩, h'⟩
    · rintro (⟨e, rfl, r, rest, rfl, h⟩ | ⟨a, _, after, rfl, ⟨r, before, rfl, h⟩, h'⟩)
      · exact ⟨r, rest, rfl, .inl ⟨e, rfl, h⟩⟩
      · exact ⟨r, before ++ after, rfl, .inr ⟨a, before, after, rfl, h, h'⟩⟩

theorem ran_attempt {p : Prog I ε α} {log : List (Event I)} {out : Except ε (Except ε α)} :
    Ran p.attempt log out ↔ ∃ result, out = .ok result ∧ Ran p log result := by
  induction p generalizing log with
  | ret a => simp [and_comm]
  | fail e => simp [and_comm]
  | call q k ih =>
    simp only [attempt_call, ran_call, ih]
    constructor
    · rintro ⟨r, rest, rfl, result, rfl, h⟩
      exact ⟨result, rfl, r, rest, rfl, h⟩
    · rintro ⟨result, rfl, r, rest, rfl, h⟩
      exact ⟨r, rest, rfl, result, rfl, h⟩

@[simp] theorem ran_ofExcept {result : Except ε α} {log : List (Event I)} {out : Except ε α} :
    Ran (ofExcept result : Prog I ε α) log out ↔ log = [] ∧ out = result := by
  cases result <;> simp [ofExcept]

/-- What `last` throws replaces the outcome of the body. -/
theorem ran_andFinally {body : Prog I ε α} {last : Prog I ε Unit} {log : List (Event I)}
    {out : Except ε α} :
    Ran (body.andFinally last) log out ↔
      ∃ before after result, log = before ++ after ∧ Ran body before result ∧
        ((Ran last after (.ok ()) ∧ out = result) ∨
          ∃ e, Ran last after (.error e) ∧ out = .error e) := by
  simp only [andFinally, ran_bind, ran_attempt, ran_ofExcept]
  constructor
  · rintro (⟨e, _, _, h, _⟩ | ⟨_, before, after, rfl, ⟨result, hresult, h⟩,
      ⟨e, rfl, h'⟩ | ⟨_, during, rest, rfl, h', rfl, rfl⟩⟩)
    · simp at h
    · obtain rfl := Except.ok.inj hresult
      exact ⟨before, after, _, rfl, h, .inr ⟨e, h', rfl⟩⟩
    · obtain rfl := Except.ok.inj hresult
      exact ⟨before, during, _, by simp, h, .inl ⟨h', rfl⟩⟩
  · rintro ⟨before, after, result, rfl, h, ⟨h', rfl⟩ | ⟨e, h', rfl⟩⟩
    · exact .inr ⟨_, before, after, rfl, ⟨_, rfl, h⟩,
        .inr ⟨(), after, [], by simp, h', rfl, rfl⟩⟩
    · exact .inr ⟨_, before, after, rfl, ⟨_, rfl, h⟩, .inl ⟨e, rfl, h'⟩⟩

/-- The answers decide how far a run goes and what it comes to. -/
theorem Ran.prefix_unique {p : Prog I ε α} {log log' after after' : List (Event I)}
    {out out' : Except ε α} (h : Ran p log out) (h' : Ran p log' out')
    (heq : log ++ after = log' ++ after') : log = log' ∧ out = out' := by
  induction h generalizing log' with
  | ret a =>
    obtain ⟨rfl, rfl⟩ := ran_ret.mp h'
    exact ⟨rfl, rfl⟩
  | fail e =>
    obtain ⟨rfl, rfl⟩ := ran_fail.mp h'
    exact ⟨rfl, rfl⟩
  | call r rest ih =>
    obtain ⟨r', rest', rfl, hrest'⟩ := ran_call.mp h'
    obtain ⟨hevent, htail⟩ := List.cons.inj heq
    obtain rfl := eq_of_heq (Sigma.mk.inj hevent).2
    obtain ⟨rfl, rfl⟩ := ih hrest' htail
    exact ⟨rfl, rfl⟩

theorem Ran.unique {p : Prog I ε α} {log : List (Event I)} {out out' : Except ε α}
    (h : Ran p log out) (h' : Ran p log out') : out = out' :=
  (@Ran.prefix_unique _ _ _ _ _ _ [] [] _ _ h h' rfl).2

/-! ### What a run in progress asks for -/

/-- After the answers of the log the program makes the request. -/
inductive Asks : Prog I ε α → List (Event I) → I.Req → Prop where
  | here (q : I.Req) (k : I.Res q → Prog I ε α) : Asks (.call q k) [] q
  | later {q : I.Req} {k : I.Res q → Prog I ε α} {log : List (Event I)} {asked : I.Req}
      (r : I.Res q) (rest : Asks (k r) log asked) : Asks (.call q k) (⟨q, r⟩ :: log) asked

@[simp] theorem not_asks_ret {a : α} {log : List (Event I)} {asked : I.Req} :
    ¬ Asks (ret a : Prog I ε α) log asked := by
  intro h
  cases h

@[simp] theorem not_asks_fail {e : ε} {log : List (Event I)} {asked : I.Req} :
    ¬ Asks (fail e : Prog I ε α) log asked := by
  intro h
  cases h

theorem asks_call {q asked : I.Req} {k : I.Res q → Prog I ε α} {log : List (Event I)} :
    Asks (call q k) log asked ↔
      (log = [] ∧ asked = q) ∨ ∃ r rest, log = ⟨q, r⟩ :: rest ∧ Asks (k r) rest asked := by
  constructor
  · intro h
    cases h with
    | here => exact .inl ⟨rfl, rfl⟩
    | later r rest => exact .inr ⟨r, _, rfl, rest⟩
  · rintro (⟨rfl, rfl⟩ | ⟨r, rest, rfl, h⟩)
    · exact .here _ k
    · exact .later r h

/-- A sequence asks for what its first part asks for, or what the second asks for behind it. -/
theorem asks_bind {p : Prog I ε α} {f : α → Prog I ε β} {log : List (Event I)}
    {asked : I.Req} :
    Asks (p >>= f) log asked ↔ Asks p log asked ∨
      ∃ a before after, log = before ++ after ∧ Ran p before (.ok a) ∧ Asks (f a) after asked := by
  induction p generalizing log with
  | ret a => simp
  | fail e => simp
  | call q k ih =>
    simp only [call_bind, asks_call, ran_call, ih]
    constructor
    · rintro (⟨rfl, rfl⟩ | ⟨r, rest, rfl, h | ⟨a, before, after, rfl, h, h'⟩⟩)
      · exact .inl (.inl ⟨rfl, rfl⟩)
      · exact .inl (.inr ⟨r, rest, rfl, h⟩)
      · exact .inr ⟨a, ⟨q, r⟩ :: before, after, rfl, ⟨r, before, rfl, h⟩, h'⟩
    · rintro ((⟨rfl, rfl⟩ | ⟨r, rest, rfl, h⟩) | ⟨a, _, after, rfl, ⟨r, before, rfl, h⟩, h'⟩)
      · exact .inl ⟨rfl, rfl⟩
      · exact .inr ⟨r, rest, rfl, .inl h⟩
      · exact .inr ⟨r, before ++ after, rfl, .inr ⟨a, before, after, rfl, h, h'⟩⟩

theorem asks_attempt {p : Prog I ε α} {log : List (Event I)} {asked : I.Req} :
    Asks p.attempt log asked ↔ Asks p log asked := by
  induction p generalizing log with
  | ret a => simp
  | fail e => simp
  | call q k ih => simp only [attempt_call, asks_call, ih]

/-! ### What holds of every run -/

/-- Whatever the program asks for satisfies `ok`, and whatever it throws satisfies `thrown`. -/
def Keeps (ok : I.Req → Prop) (thrown : ε → Prop) : Prog I ε α → Prop
  | .ret _ => True
  | .fail e => thrown e
  | .call q k => ok q ∧ ∀ r, (k r).Keeps ok thrown

section Keeps

variable {ok ok' : I.Req → Prop} {thrown thrown' : ε → Prop} {p : Prog I ε α}

theorem Keeps.bind {f : α → Prog I ε β} (hp : p.Keeps ok thrown)
    (hf : ∀ a, (f a).Keeps ok thrown) : (p >>= f).Keeps ok thrown := by
  induction p with
  | ret a => exact hf a
  | fail e => exact hp
  | call q k ih => exact ⟨hp.1, fun r => ih r (hp.2 r)⟩

/-- What is caught was thrown. -/
theorem Keeps.catch {f : Except ε α → Prog I ε β} (hp : p.Keeps ok thrown)
    (hret : ∀ a, (f (.ok a)).Keeps ok thrown')
    (herror : ∀ e, thrown e → (f (.error e)).Keeps ok thrown') :
    (p.attempt >>= f).Keeps ok thrown' := by
  induction p with
  | ret a => exact hret a
  | fail e => exact herror e hp
  | call q k ih => exact ⟨hp.1, fun r => ih r (hp.2 r)⟩

theorem Keeps.mono (hok : ∀ q, ok q → ok' q) (hthrown : ∀ e, thrown e → thrown' e)
    (hp : p.Keeps ok thrown) : p.Keeps ok' thrown' := by
  induction p with
  | ret a => trivial
  | fail e => exact hthrown e hp
  | call q k ih => exact ⟨hok q hp.1, fun r => ih r (hp.2 r)⟩

theorem Keeps.ofExcept {result : Except ε α} (h : ∀ e, result = .error e → thrown e) :
    (Prog.ofExcept result : Prog I ε α).Keeps ok thrown := by
  cases result with
  | ok a => trivial
  | error e => exact h e rfl

theorem Keeps.andFinally {last : Prog I ε Unit} (hp : p.Keeps ok thrown)
    (hlast : last.Keeps ok thrown) : (p.andFinally last).Keeps ok thrown := by
  refine Keeps.catch hp (fun a => hlast.bind fun _ => trivial) fun e he => ?_
  exact hlast.bind fun _ => he

theorem Keeps.leads {p' : Prog I ε α} (hp : p.Keeps ok thrown) (h : Leads p p') :
    p'.Keeps ok thrown := by
  induction h with
  | refl p => exact hp
  | step r _ ih => exact ih (hp.2 r)

/-- Every request of every run satisfies `ok`. -/
theorem Keeps.log (hp : p.Keeps ok thrown) {log : List (Event I)} {out : Except ε α}
    (h : Ran p log out) : ∀ event ∈ log, ok event.1 := by
  induction h with
  | ret a => simp
  | fail e => simp
  | call r rest ih =>
    rintro event (_ | ⟨_, hevent⟩)
    · exact hp.1
    · exact ih (hp.2 r) event hevent

theorem Keeps.error (hp : p.Keeps ok thrown) {log : List (Event I)} {e : ε}
    (h : Ran p log (.error e)) : thrown e := by
  generalize hout : (Except.error e : Except ε α) = out at h
  induction h with
  | ret a => simp at hout
  | fail e' =>
    rw [Except.error.inj hout]
    exact hp
  | call r rest ih => exact ih (hp.2 r) hout

end Keeps

/-- Whatever the program returns satisfies `good`. -/
def Returns (good : α → Prop) (p : Prog I ε α) : Prop :=
  ∀ log a, Ran p log (.ok a) → good a

theorem Returns.bind {good : β → Prop} {p : Prog I ε α} {f : α → Prog I ε β}
    (hf : ∀ a log, Ran p log (.ok a) → (f a).Returns good) : (p >>= f).Returns good := by
  intro log b h
  rcases ran_bind.mp h with ⟨e, he, _⟩ | ⟨a, before, after, _, hp, h'⟩
  · simp at he
  · exact hf a before hp after b h'

theorem Returns.ret {good : α → Prop} {a : α} (h : good a) :
    (Prog.ret a : Prog I ε α).Returns good := by
  intro log a' hran
  rwa [Except.ok.inj (ran_ret.mp hran).2]

theorem Returns.fail {good : α → Prop} {e : ε} : (Prog.fail e : Prog I ε α).Returns good := by
  intro log a hran
  simp at hran

/-! ### What every run with certain answers ends in -/

/-- Every run whose answers are all of the kind `ok` ends in `Q`. -/
def Always (ok : Event I → Prop) (p : Prog I ε α)
    (Q : List (Event I) → Except ε α → Prop) : Prop :=
  ∀ log out, Ran p log out → (∀ event ∈ log, ok event) → Q log out

section Always

variable {ok : Event I → Prop} {Q Q' : List (Event I) → Except ε α → Prop}

theorem Always.ret {a : α} (h : Q [] (.ok a)) : Always ok (.ret a) Q := by
  intro log out hran _
  obtain ⟨rfl, rfl⟩ := ran_ret.mp hran
  exact h

theorem Always.fail {e : ε} (h : Q [] (.error e)) : Always ok (.fail e) Q := by
  intro log out hran _
  obtain ⟨rfl, rfl⟩ := ran_fail.mp hran
  exact h

theorem Always.call {q : I.Req} {k : I.Res q → Prog I ε α}
    (h : ∀ r, ok ⟨q, r⟩ → Always ok (k r) fun log out => Q (⟨q, r⟩ :: log) out) :
    Always ok (.call q k) Q := by
  intro log out hran hok
  obtain ⟨r, rest, rfl, hrest⟩ := ran_call.mp hran
  obtain ⟨hr, hok⟩ := List.forall_mem_cons.mp hok
  exact h r hr rest out hrest hok

theorem Always.bind {p : Prog I ε α} {f : α → Prog I ε β}
    {R : List (Event I) → Except ε β → Prop} (hp : Always ok p Q)
    (herror : ∀ log e, Q log (.error e) → R log (.error e))
    (hok : ∀ log a, Q log (.ok a) → Always ok (f a) fun log' out => R (log ++ log') out) :
    Always ok (p >>= f) R := by
  intro log out hran hall
  rcases ran_bind.mp hran with ⟨e, rfl, h⟩ | ⟨a, before, after, rfl, h, h'⟩
  · exact herror log e (hp log _ h hall)
  · obtain ⟨hbefore, hafter⟩ := List.forall_mem_append.mp hall
    exact hok before a (hp before _ h hbefore) after out h' hafter

theorem Always.attempt {p : Prog I ε α}
    {R : List (Event I) → Except ε (Except ε α) → Prop} (hp : Always ok p Q)
    (hR : ∀ log out, Q log out → R log (.ok out)) : Always ok p.attempt R := by
  intro log out hran hall
  obtain ⟨result, rfl, h⟩ := ran_attempt.mp hran
  exact hR log result (hp log result h hall)

theorem Always.mono {p : Prog I ε α} (hp : Always ok p Q)
    (hQ : ∀ log out, Q log out → Q' log out) : Always ok p Q' :=
  fun log out hran hall => hQ log out (hp log out hran hall)

end Always

/-! ### A run against fixed answers -/

/-- The run of a program whose requests are all answered. -/
def replay (answer : (q : I.Req) → Option (I.Res q)) :
    Prog I ε α → Option (List (Event I) × Except ε α)
  | .ret a => some ([], .ok a)
  | .fail e => some ([], .error e)
  | .call q k =>
    (answer q).bind fun r => ((k r).replay answer).map fun run => (⟨q, r⟩ :: run.1, run.2)

theorem ran_replay {answer : (q : I.Req) → Option (I.Res q)} {p : Prog I ε α}
    {run : List (Event I) × Except ε α} (h : p.replay answer = some run) :
    Ran p run.1 run.2 := by
  induction p generalizing run with
  | ret a =>
    obtain rfl := Option.some.inj h
    exact .ret a
  | fail e =>
    obtain rfl := Option.some.inj h
    exact .fail e
  | call q k ih =>
    rw [replay, Option.bind_eq_some_iff] at h
    obtain ⟨r, _, h⟩ := h
    obtain ⟨rest, hrest, rfl⟩ := Option.map_eq_some_iff.mp h
    exact .call r (ih r hrest)

theorem replay_answers {answer : (q : I.Req) → Option (I.Res q)} {p : Prog I ε α}
    {run : List (Event I) × Except ε α} (h : p.replay answer = some run) :
    ∀ event ∈ run.1, answer event.1 = some event.2 := by
  induction p generalizing run with
  | ret a =>
    obtain rfl := Option.some.inj h
    simp
  | fail e =>
    obtain rfl := Option.some.inj h
    simp
  | call q k ih =>
    rw [replay, Option.bind_eq_some_iff] at h
    obtain ⟨r, hr, h⟩ := h
    obtain ⟨rest, hrest, rfl⟩ := Option.map_eq_some_iff.mp h
    rintro event (_ | ⟨_, hevent⟩)
    · exact hr
    · exact ih r hrest event hevent

end Prog

end PaseoGateway.Async
