/-
  PaseoGateway/AsyncPool.lean
  ===========================
  **Processes running asynchronous programs against one store.**

  A `World` is what all processes share and what each one holds: the history of
  the store and of external effects, the memory of every process, the remaining
  shared state, and the calls started so far.  A `Machine` says which program
  each call runs and how requests other than store requests are answered.  A
  `Config` adds the threads: what is left of the program of each live call.

  One `Move` lets one thread complete the request it awaits, starts a call,
  kills a process with everything it had in memory, or lets the environment act.
  `Reachable` closes the initial configuration under every sequence of moves, so
  a statement about reachable configurations is a statement about every
  interleaving, every crash point and every fault of the store.
-/
import PaseoGateway.AsyncProg
import PaseoGateway.CasStore

namespace PaseoGateway.Async

/-- The vocabulary of a system of processes. -/
structure Sys where
  /-- keys of the shared store and the type stored under each -/
  Key : Type
  [decKey : DecidableEq Key]
  Val : Key → Type
  /-- external effects recorded in the history -/
  Note : Type
  /-- requests other than store requests, and their answers -/
  Ext : Type
  ExtRes : Ext → Type
  /-- memory of one process -/
  Mem : Type
  /-- shared state outside the store -/
  Glob : Type
  /-- the asynchronous functions a process may be running -/
  Call : Type
  /-- exceptions -/
  Err : Type
  ofStore : StoreErr → Err

instance (S : Sys) : DecidableEq S.Key := S.decKey

inductive Req (S : Sys) where
  | store (q : StoreReq S.Key S.Val)
  | ext (x : S.Ext)

abbrev Req.Res {S : Sys} : Req S → Type
  | .store q => q.Res
  | .ext x => S.ExtRes x

abbrev Sys.iface (S : Sys) : Iface := ⟨Req S, Req.Res⟩

/-- A program of the system `S`. -/
abbrev Sys.Task (S : Sys) (α : Type) := Prog S.iface S.Err α

section Requests

variable {S : Sys}

/-! ### Awaiting one request -/

/-- A store request; a refusal or a lost answer is thrown. -/
def await (q : StoreReq S.Key S.Val) : S.Task q.Ans :=
  .call (.store q) fun r => match r with
    | .ok a => .ret a
    | .error e => .fail (S.ofStore e)

def ask (x : S.Ext) : S.Task (S.ExtRes x) := .call (.ext x) .ret

/-- A request that may throw. -/
def askOr (x : S.Ext) {α : Type} (h : S.ExtRes x = Except S.Err α) : S.Task α :=
  .call (.ext x) fun r => .ofExcept (h ▸ r)

end Requests

/-! ### Worlds -/

/-- A call and the length the history had when it was started. -/
structure Started (S : Sys) where
  call : S.Call
  height : Nat

structure World (S : Sys) where
  trace : Trace S.Key S.Val S.Note
  mem : Nat → S.Mem
  glob : S.Glob
  /-- the number the next call gets -/
  next : Nat
  /-- every call ever started, also of processes that have died -/
  calls : Tid → Option (Started S)

/-- How a request other than a store request is answered: the answer, the
    effects it leaves in the history (newest first), what it does to the memory
    of its own process and to the shared state, and the calls it forks. -/
structure Answer (S : Sys) (x : S.Ext) where
  res : S.ExtRes x
  notes : List S.Note := []
  mem : S.Mem
  glob : S.Glob
  forks : List S.Call := []

namespace World

variable {S : Sys}

/-- Start one call in process `p`. -/
def spawn (w : World S) (p : Nat) (c : S.Call) : World S :=
  { w with
    next := w.next + 1
    calls := Function.update w.calls ⟨p, w.next⟩ (some ⟨c, w.trace.length⟩) }

def spawnAll (w : World S) (p : Nat) (cs : List S.Call) : World S :=
  cs.foldl (fun w c => w.spawn p c) w

def answered (w : World S) (t : Tid) {x : S.Ext} (a : Answer S x) : World S :=
  { w with
    trace := a.notes.map (.note (some t)) ++ w.trace
    mem := Function.update w.mem t.proc a.mem
    glob := a.glob }

@[simp] theorem spawn_trace (w : World S) (p : Nat) (c : S.Call) :
    (w.spawn p c).trace = w.trace := rfl
@[simp] theorem spawn_mem (w : World S) (p : Nat) (c : S.Call) :
    (w.spawn p c).mem = w.mem := rfl
@[simp] theorem spawn_glob (w : World S) (p : Nat) (c : S.Call) :
    (w.spawn p c).glob = w.glob := rfl
@[simp] theorem spawn_next (w : World S) (p : Nat) (c : S.Call) :
    (w.spawn p c).next = w.next + 1 := rfl

theorem spawn_calls_of_lt {w : World S} {u : Tid} (h : u.idx < w.next) (p : Nat)
    (c : S.Call) : (w.spawn p c).calls u = w.calls u := by
  have hne : u ≠ ⟨p, w.next⟩ := by rintro rfl; simp at h
  simp [spawn, Function.update_of_ne hne]

@[simp] theorem spawnAll_nil (w : World S) (p : Nat) : w.spawnAll p [] = w := rfl
@[simp] theorem spawnAll_cons (w : World S) (p : Nat) (c : S.Call) (cs : List S.Call) :
    w.spawnAll p (c :: cs) = (w.spawn p c).spawnAll p cs := rfl

@[simp] theorem spawnAll_trace (w : World S) (p : Nat) (cs : List S.Call) :
    (w.spawnAll p cs).trace = w.trace := by
  induction cs generalizing w with
  | nil => rfl
  | cons c cs ih => simp [ih]

@[simp] theorem spawnAll_mem (w : World S) (p : Nat) (cs : List S.Call) :
    (w.spawnAll p cs).mem = w.mem := by
  induction cs generalizing w with
  | nil => rfl
  | cons c cs ih => simp [ih]

@[simp] theorem spawnAll_glob (w : World S) (p : Nat) (cs : List S.Call) :
    (w.spawnAll p cs).glob = w.glob := by
  induction cs generalizing w with
  | nil => rfl
  | cons c cs ih => simp [ih]

theorem le_spawnAll_next (w : World S) (p : Nat) (cs : List S.Call) :
    w.next ≤ (w.spawnAll p cs).next := by
  induction cs generalizing w with
  | nil => exact Nat.le_refl _
  | cons c cs ih =>
    have := ih (w.spawn p c)
    simp only [spawn_next] at this
    simp only [spawnAll_cons]
    omega

theorem spawnAll_calls_of_lt {w : World S} {u : Tid} (h : u.idx < w.next) (p : Nat)
    (cs : List S.Call) : (w.spawnAll p cs).calls u = w.calls u := by
  induction cs generalizing w with
  | nil => rfl
  | cons c cs ih =>
    rw [spawnAll_cons, ih (by simp only [spawn_next]; omega), spawn_calls_of_lt h]

theorem spawn_height {w : World S} {p : Nat} {c : S.Call} {u : Tid} {s : Started S}
    (hs : (w.spawn p c).calls u = some s) :
    w.calls u = some s ∨ (u.proc = p ∧ s = ⟨c, w.trace.length⟩) := by
  by_cases hu : u = ⟨p, w.next⟩
  · subst hu
    simp only [spawn, Function.update_self, Option.some.injEq] at hs
    exact .inr ⟨rfl, hs.symm⟩
  · simp only [spawn, Function.update_of_ne hu] at hs
    exact .inl hs

/-- A call found after forking was there before or is one of the forks, started
    at the present length of the history. -/
theorem spawnAll_height {w : World S} {p : Nat} {cs : List S.Call} {u : Tid}
    {s : Started S} (hs : (w.spawnAll p cs).calls u = some s) :
    w.calls u = some s ∨ (u.proc = p ∧ s.call ∈ cs ∧ s.height = w.trace.length) := by
  induction cs generalizing w with
  | nil => exact .inl hs
  | cons c cs ih =>
    rcases ih hs with hold | ⟨hproc, hmem, hlen⟩
    · rcases spawn_height hold with hold' | ⟨hproc, rfl⟩
      · exact .inl hold'
      · exact .inr ⟨hproc, List.mem_cons_self, rfl⟩
    · exact .inr ⟨hproc, List.mem_cons_of_mem _ hmem, hlen⟩

@[simp] theorem answered_trace (w : World S) (t : Tid) {x : S.Ext} (a : Answer S x) :
    (w.answered t a).trace = a.notes.map (.note (some t)) ++ w.trace := rfl
@[simp] theorem answered_mem_self (w : World S) (t : Tid) {x : S.Ext} (a : Answer S x) :
    (w.answered t a).mem t.proc = a.mem := by simp [answered]
theorem answered_mem_ne {w : World S} {t : Tid} {x : S.Ext} {a : Answer S x} {p : Nat}
    (h : p ≠ t.proc) : (w.answered t a).mem p = w.mem p := by
  simp [answered, Function.update_of_ne h]
@[simp] theorem answered_glob (w : World S) (t : Tid) {x : S.Ext} (a : Answer S x) :
    (w.answered t a).glob = a.glob := rfl
@[simp] theorem answered_next (w : World S) (t : Tid) {x : S.Ext} (a : Answer S x) :
    (w.answered t a).next = w.next := rfl
@[simp] theorem answered_calls (w : World S) (t : Tid) {x : S.Ext} (a : Answer S x) :
    (w.answered t a).calls = w.calls := rfl

end World

/-! ### Machines -/

/-- The calls of a system and the world around them. -/
structure Machine (S : Sys) where
  Out : Type
  /-- what the environment decides when it answers a request -/
  Choice : Type
  /-- what the environment may do on its own -/
  Env : Type
  program : Tid → S.Call → S.Task Out
  answer : Choice → Tid → (x : S.Ext) → World S → Option (Answer S x)
  /-- the calls that may be started from outside in process `p` -/
  entry : Nat → S.Call → World S → Bool
  freshMem : S.Mem
  afterCrash : Nat → S.Glob → S.Glob
  env : Env → World S → Option (Trace S.Key S.Val S.Note × S.Glob)
  env_author : ∀ {e w new g}, env e w = some (new, g) → ∀ x ∈ new, x.author = none
  init : World S
  init_next : init.next = 0
  init_calls : ∀ u, init.calls u = none
  init_author : ∀ e ∈ init.trace, e.author = none := by simp

/-- The decision taken for one awaited request. -/
inductive Pick {S : Sys} (m : Machine S) where
  | store (c : Weather S.Key)
  | ext (c : m.Choice)

namespace Machine

variable {S : Sys} (m : Machine S)

/-- Thread `t` completes the request `q`. -/
def perform (t : Tid) (w : World S) : Pick m → (q : Req S) → Option (q.Res × World S)
  | .store c, .store q =>
    let r := serve c (some t) q w.trace
    some (r.1, { w with trace := r.2 })
  | .ext c, .ext x =>
    (m.answer c t x w).map fun a => (a.res, (w.answered t a).spawnAll t.proc a.forks)
  | _, _ => none

/-- Process `p` dies and is forgotten by everyone who held its memory. -/
def crashed (p : Nat) (w : World S) : World S :=
  { w with
    mem := Function.update w.mem p m.freshMem
    glob := m.afterCrash p w.glob }

/-- What is left to run of one call, with the world it started in. -/
structure Thread where
  call : S.Call
  start : World S
  prog : S.Task m.Out

structure Config where
  world : World S
  threads : Tid → Option m.Thread

inductive Move where
  | run (t : Tid) (c : Pick m)
  | start (p : Nat) (c : S.Call)
  | crash (p : Nat)
  | env (e : m.Env)

variable {m}

/-- The threads after a step to the world `w'`: the calls numbered since `w`
    begin to run. -/
def adopt (w w' : World S) (threads : Tid → Option m.Thread) : Tid → Option m.Thread :=
  fun u =>
    if u.idx < w.next then threads u
    else (w'.calls u).map fun s => ⟨s.call, w', m.program u s.call⟩

variable (m)

def initial : m.Config := ⟨m.init, fun _ => none⟩

variable {m}

def Config.move (c : m.Config) : m.Move → Option m.Config
  | .run t pick =>
    match c.threads t with
    | some ⟨call, start, .call q k⟩ =>
      (m.perform t c.world pick q).map fun r =>
        ⟨r.2, adopt c.world r.2 (Function.update c.threads t (some ⟨call, start, k r.1⟩))⟩
    | _ => none
  | .start p call =>
    if m.entry p call c.world then
      some ⟨c.world.spawn p call, adopt c.world (c.world.spawn p call) c.threads⟩
    else none
  | .crash p =>
    some ⟨m.crashed p c.world, fun u => if u.proc = p then none else c.threads u⟩
  | .env e =>
    (m.env e c.world).map fun r =>
      ⟨{ c.world with trace := r.1 ++ c.world.trace, glob := r.2 }, c.threads⟩

def Config.moves (c : m.Config) : List m.Move → Option m.Config
  | [] => some c
  | mv :: rest => (c.move mv).bind fun c' => c'.moves rest

variable (m)

/-- Some sequence of moves leads from the initial configuration to `c`. -/
inductive Reachable : m.Config → Prop where
  | init : Reachable m.initial
  | move {c c' : m.Config} {mv : m.Move} :
      Reachable c → c.move mv = some c' → Reachable c'

variable {m}

theorem Reachable.moves {c c' : m.Config} (h : m.Reachable c) {ms : List m.Move}
    (hms : c.moves ms = some c') : m.Reachable c' := by
  induction ms generalizing c with
  | nil => cases hms; exact h
  | cons mv rest ih =>
    simp only [Config.moves, Option.bind_eq_some_iff] at hms
    obtain ⟨d, hd, hrest⟩ := hms
    exact ih (h.move hd) hrest

/-! ### Performing one move -/

theorem Config.start_move (c : m.Config) (p : Nat) (call : S.Call)
    (h : m.entry p call c.world = true) :
    ∃ c', c.move (.start p call) = some c' ∧ c'.world = c.world.spawn p call ∧
      c'.threads ⟨p, c.world.next⟩ =
        some ⟨call, c'.world, m.program ⟨p, c.world.next⟩ call⟩ := by
  refine ⟨_, if_pos h, rfl, ?_⟩
  simp [adopt, World.spawn]

theorem Config.ext_move (choice : m.Choice) {c : m.Config} {t : Tid} {call : S.Call}
    {start : World S} {x : S.Ext} {k : S.ExtRes x → S.Task m.Out} {a : Answer S x}
    (hth : c.threads t = some ⟨call, start, .call (.ext x) k⟩) (ht : t.idx < c.world.next)
    (ha : m.answer choice t x c.world = some a) :
    ∃ c', c.move (.run t (.ext choice)) = some c' ∧
      c'.world.trace = a.notes.map (.note (some t)) ++ c.world.trace ∧
      c'.world.mem t.proc = a.mem ∧
      c'.world.next = ((c.world.answered t a).spawnAll t.proc a.forks).next ∧
      c'.threads t = some ⟨call, start, k a.res⟩ := by
  simp only [Config.move, hth, perform, ha, Option.map_some, Option.some.injEq]
  refine ⟨_, rfl, ?_, ?_, rfl, ?_⟩
  · rw [World.spawnAll_trace, World.answered_trace]
  · rw [World.spawnAll_mem, World.answered_mem_self]
  · simp [adopt, ht]

/-- A thread only ever runs what is left of the program of its call. -/
theorem Reachable.leads {c : m.Config} (h : m.Reachable c) {u : Tid} {th : m.Thread}
    (hth : c.threads u = some th) : (m.program u th.call).Leads th.prog := by
  induction h generalizing u th with
  | init => cases hth
  | @move c c' mv _ hmv ih =>
    -- a step starts programs from their beginning and keeps the other threads
    have hadopt : ∀ {w' : World S} {threads : Tid → Option m.Thread},
        (∀ v tv, threads v = some tv → (m.program v tv.call).Leads tv.prog) →
        adopt c.world w' threads u = some th → (m.program u th.call).Leads th.prog := by
      intro w' threads hold had
      unfold adopt at had
      split at had
      · exact hold u th had
      · obtain ⟨s, _, rfl⟩ := Option.map_eq_some_iff.mp had
        exact .refl _
    cases mv with
    | run t pick =>
      simp only [Config.move] at hmv
      split at hmv
      · rename_i call start q k ht
        obtain ⟨r, _, rfl⟩ := Option.map_eq_some_iff.mp hmv
        refine hadopt ?_ hth
        intro v tv hv
        by_cases hvt : v = t
        · subst hvt
          rw [Function.update_self] at hv
          cases hv
          exact (ih ht).answer r.1
        · rw [Function.update_of_ne hvt] at hv
          exact ih hv
      · cases hmv
    | start p call =>
      simp only [Config.move] at hmv
      split at hmv
      · cases hmv
        exact hadopt (fun v tv hv => ih hv) hth
      · cases hmv
    | crash p =>
      simp only [Config.move, Option.some.injEq] at hmv
      subst hmv
      simp only at hth
      split at hth
      · cases hth
      · exact ih hth
    | env e =>
      simp only [Config.move, Option.map_eq_some_iff] at hmv
      obtain ⟨r, _, rfl⟩ := hmv
      exact ih hth

/-! ### Runs of one process -/

/-- Everything runs in process `q`. -/
structure Config.Within (c : m.Config) (q : Nat) : Prop where
  calls : ∀ u s, c.world.calls u = some s → u.proc = q
  threads : ∀ u th, c.threads u = some th → u.proc = q

/-- The move starts nothing in another process than `q`. -/
def Move.within (q : Nat) : m.Move → Bool
  | .start p _ => p == q
  | _ => true

theorem Config.Within.initial (q : Nat) : m.initial.Within q := by
  constructor
  · intro u s hs
    change m.init.calls u = some s at hs
    rw [m.init_calls] at hs
    cases hs
  · intro u th hth
    cases hth

private theorem Config.Within.adopt {c : m.Config} {q : Nat} {w' : World S}
    {threads : Tid → Option m.Thread} (hcalls : ∀ u s, w'.calls u = some s → u.proc = q)
    (hthreads : ∀ u th, threads u = some th → u.proc = q) :
    Config.Within ⟨w', Machine.adopt c.world w' threads⟩ q := by
  refine ⟨hcalls, ?_⟩
  intro u th hth
  change Machine.adopt _ _ _ u = _ at hth
  unfold Machine.adopt at hth
  by_cases hu : u.idx < c.world.next
  · rw [if_pos hu] at hth
    exact hthreads u th hth
  · rw [if_neg hu] at hth
    obtain ⟨s, hs, -⟩ := Option.map_eq_some_iff.mp hth
    exact hcalls u s hs

theorem Config.Within.move {c c' : m.Config} {q : Nat} {mv : m.Move} (h : c.Within q)
    (hq : mv.within q = true) (hmv : c.move mv = some c') : c'.Within q := by
  cases mv with
  | run t pick =>
    simp only [Config.move] at hmv
    split at hmv
    · rename_i call start request k ht
      obtain ⟨⟨r, w'⟩, hperf, rfl⟩ := Option.map_eq_some_iff.mp hmv
      have hproc := h.threads t _ ht
      apply Config.Within.adopt
      · intro u s hs
        cases pick with
        | store weather =>
          cases request with
          | store q =>
            cases hperf
            exact h.calls u s hs
          | ext x => cases hperf
        | ext choice =>
          cases request with
          | store q => cases hperf
          | ext x =>
            obtain ⟨a, -, heq⟩ := Option.map_eq_some_iff.mp hperf
            cases heq
            rcases World.spawnAll_height hs with hold | ⟨hu, -, -⟩
            · exact h.calls u s hold
            · exact hu.trans hproc
      · intro u th hth
        by_cases hut : u = t
        · rw [hut]
          exact hproc
        · rw [Function.update_of_ne hut] at hth
          exact h.threads u th hth
    · cases hmv
  | start p call =>
    simp only [Config.move] at hmv
    split at hmv
    · cases hmv
      apply Config.Within.adopt
      · intro u s hs
        rcases World.spawn_height hs with hold | ⟨hu, -⟩
        · exact h.calls u s hold
        · exact hu.trans (beq_iff_eq.mp hq)
      · exact h.threads
    · cases hmv
  | crash p =>
    simp only [Config.move, Option.some.injEq] at hmv
    subst hmv
    refine ⟨h.calls, ?_⟩
    intro u th hth
    simp only at hth
    split at hth
    · cases hth
    · exact h.threads u th hth
  | env e =>
    simp only [Config.move, Option.map_eq_some_iff] at hmv
    obtain ⟨r, _, rfl⟩ := hmv
    exact ⟨h.calls, h.threads⟩

theorem Config.Within.moves {c c' : m.Config} {q : Nat} (h : c.Within q) {ms : List m.Move}
    (hq : ms.all (·.within q) = true) (hms : c.moves ms = some c') : c'.Within q := by
  induction ms generalizing c with
  | nil =>
    cases hms
    exact h
  | cons mv rest ih =>
    simp only [Config.moves, Option.bind_eq_some_iff] at hms
    obtain ⟨d, hd, hrest⟩ := hms
    rw [List.all_cons, Bool.and_eq_true] at hq
    exact ih (h.move hq.1 hd) hq.2 hrest

end Machine

end PaseoGateway.Async
