/-
  PaseoGateway/LabelConvergence.lean
  ==================================
  **When the subscribers of the label catalog see it as it is.**

  `labels_converge`: in every reachable configuration where each write of the
  catalog has been answered to its caller, every live subscriber sees the catalog
  in place, provided its process served its subscriptions in order
  (`Mem.InOrder`).  A change publishes what it finds after its own write, and a
  publication that has gone through has passed every live entry; so no live entry
  was last served from an older version than the last write.

  The order is not kept by the code.  `outdated_view` is a run in which two
  changes publish at once and the older catalog is delivered last.
-/
import PaseoGateway.LabelSubscriptions

namespace PaseoGateway.WorkspaceLabels

open Async

variable {rt : Runtime} {t : Tid} {w w' w'' : World sys}

/-! ### The condition -/

/-- The workspaces were in place before any call. -/
def Settled (w : World sys) : Prop := ∀ u s, w.calls u = some s → SettledFrom s.height w.trace

def Serving.InOrder : Serving → Prop
  | .delivered version before replaced => before ≤ version ∧ replaced = false
  | .installed version past => ∀ version' ∈ past, version' ≤ version

def Mem.InOrder (mem : Mem) : Prop := ∀ serving ∈ mem.servings, serving.InOrder

/-- What the results about process `p` take for granted; it held before if it holds now. -/
structure Given (rt : Runtime) (p : Nat) (w : World sys) : Prop where
  kept : Kept rt w.trace
  settled : Settled w
  inOrder : (w.mem p).InOrder

theorem Kept.suffix {tr older : History} (h : Kept rt tr) (hs : older <:+ tr) : Kept rt older := by
  induction tr with
  | nil =>
    rw [List.suffix_nil.mp hs]
    trivial
  | cons e tr ih =>
    rcases List.suffix_cons_iff.mp hs with rfl | hs
    · exact h
    · exact ih h.1 hs

theorem Given.earlier {p : Nat} (h : Given rt p w') (hnum : w.Numbered) (hl : Later w w')
    (hattendss : ∀ serving ∈ (w.mem p).servings, serving ∈ (w'.mem p).servings) : Given rt p w := by
  refine ⟨h.kept.suffix hl.suffix, ?_, fun serving hs => h.inOrder serving (hattendss serving hs)⟩
  intro u s hs
  have hlt : u.idx < w.next := by
    by_contra hge
    rw [hnum u (by omega)] at hs
    cases hs
  rw [← hl.calls u hlt] at hs
  exact (h.settled u s hs).suffix hl.suffix

/-! ### The protocol -/

structure Live (rt : Runtime) (w : World sys) : Prop where
  numbered : w.Numbered
  heights : ∀ u s, w.calls u = some s → s.height ≤ w.trace.length
  started : ∀ p, ∀ slot ∈ (w.mem p).subscriptions, ∃ u s, w.calls u = some s
  ordered : ∀ p, (w.mem p).Ordered
  followed : ∀ p, Given rt p w → Followed p w.trace (w.mem p)

/-- The thread's writes are covered by a publication that has gone through. -/
def Announced (rt : Runtime) (t : Tid) (w : World sys) : Prop :=
  Unwritten t w ∨ ∃ version ∈ (w.mem t.proc).finished,
    Kept rt w.trace → Covers version (· = some t) w.trace

@[reducible] def delivery (rt : Runtime) : Protocol (machine rt) where
  inv := Live rt
  extra t w w' := (w.mem t.proc).Onward (w'.mem t.proc)
  extra_refl t w := Mem.Onward.refl (w.mem t.proc)
  extra_trans := Mem.Onward.trans
  post t _ _ _ w := Announced rt t w

/-- The thread runs and does not throw more than it may. -/
abbrev Serves (rt : Runtime) (t : Tid) {α : Type} (p : sys.Task α) (Q : α → World sys → Prop)
    (w : World sys) : Prop :=
  Safe (delivery rt) t p Q (fun _ _ => True) w

/-! ### One answer -/

/-- What an answer has to keep up; a thread that has started answers for it. -/
theorem pays_answered {x : Ext} {a : Answer sys x} (hi : Live rt w)
    (hcall : ∃ s, w.calls t = some s)
    (hforks : a.forks = []) (hnotes : ∀ n ∈ a.notes, ∀ workspaces, n ≠ .workspaces workspaces)
    (hordered : a.mem.Ordered) (honward : (w.mem t.proc).Onward a.mem)
    (hfollowed : Mem.InOrder a.mem → Settled w → Kept rt w.trace →
      Followed t.proc w.trace (w.mem t.proc) →
      Followed t.proc (a.notes.map (.note (some t)) ++ w.trace) a.mem) :
    (delivery rt).Pays t w ((w.answered t a).spawnAll t.proc a.forks) := by
  rw [hforks, World.spawnAll_nil]
  have hlater : Later w (w.answered t a) := ⟨⟨_, rfl⟩, Nat.le_refl _, fun _ _ => rfl⟩
  refine ⟨⟨hi.numbered, ?_, ?_, ?_, ?_⟩, ?_, fun _ _ _ _ => trivial⟩
  · intro u s hs
    exact (hi.heights u s hs).trans hlater.suffix.length_le
  · intro p slot hslot
    by_cases hp : p = t.proc
    · exact ⟨t, hcall⟩
    · rw [World.answered_mem_ne hp] at hslot
      exact hi.started p slot hslot
  · intro p
    by_cases hp : p = t.proc
    · rw [hp, World.answered_mem_self]
      exact hordered
    · rw [World.answered_mem_ne hp]
      exact hi.ordered p
  · intro p hgiven
    by_cases hp : p = t.proc
    · subst hp
      have hbefore := hgiven.earlier hi.numbered hlater (by
        rw [World.answered_mem_self]
        exact honward.servings)
      have horder := hgiven.inOrder
      rw [World.answered_mem_self] at horder ⊢
      exact hfollowed horder hbefore.settled hbefore.kept (hi.followed _ hbefore)
    · have hbefore := hgiven.earlier hi.numbered hlater (by
        rw [World.answered_mem_ne hp]
        exact fun _ h => h)
      rw [World.answered_mem_ne hp]
      apply (hi.followed p hbefore).keep (continues_notes (some t) hnotes w.trace)
      · exact fun emitter subscriptionId => viewOf_notes_ne (Ne.symm hp) a.notes w.trace
      · exact fun _ h => h
      · rfl
      · rfl
      · exact fun _ h => .inl h
  · intro u _ _
    by_cases hu : u.proc = t.proc
    · change Mem.Onward (w.mem u.proc) ((w.answered t a).mem u.proc)
      rw [hu, World.answered_mem_self]
      exact honward
    · change Mem.Onward (w.mem u.proc) ((w.answered t a).mem u.proc)
      rw [World.answered_mem_ne hu]
      exact Mem.Onward.refl _

/-- A request that only writes to the store, or is answered from it. -/
theorem pays_pushed {e : Entry Key (fun _ => CatalogState) Note} (hi : Live rt w)
    (hkey : e.key? ≠ none) : (delivery rt).Keeps t w (w.push e) := by
  have hlater := w.later_push e
  refine ⟨⟨hi.numbered, ?_, hi.started, hi.ordered, ?_⟩, fun u _ _ => Mem.Onward.refl _⟩
  · exact fun u s hs => (hi.heights u s hs).trans hlater.suffix.length_le
  · intro p hgiven
    have hbefore := hgiven.earlier hi.numbered hlater fun _ h => h
    apply (hi.followed p hbefore).keep
    · refine ⟨List.suffix_cons e w.trace, workspacesOf_cons ?_ w.trace⟩
      cases e with
      | note a n => exact absurd rfl hkey
      | create a k v => rfl
      | update a k v => rfl
      | delete a k => rfl
    · exact fun emitter subscriptionId => viewOf_keyed hkey w.trace
    · exact fun _ h => h
    · rfl
    · rfl
    · exact fun _ h => .inl h

/-! ### What a thread knows -/

/-- The history was this one at a moment of the call. -/
structure Seen (t : Tid) (tr : History) (w : World sys) : Prop where
  below : t.idx < w.next
  suffix : tr <:+ w.trace
  call : ∃ s, w.calls t = some s ∧ s.height ≤ tr.length

theorem Seen.later {tr : History} (h : Seen t tr w) (hl : Later w w') : Seen t tr w' := by
  obtain ⟨s, hs, hheight⟩ := h.call
  refine ⟨Nat.lt_of_lt_of_le h.below hl.next, h.suffix.trans hl.suffix, s, ?_, hheight⟩
  rw [hl.calls t h.below]
  exact hs

theorem Seen.now {tr : History} (h : Seen t tr w) (hl : Later w w') : Seen t w'.trace w' := by
  obtain ⟨hbelow, hsuffix, s, hs, hheight⟩ := h.later hl
  exact ⟨hbelow, List.suffix_refl _, s, hs, hheight.trans hsuffix.length_le⟩

theorem Seen.started {tr : History} (h : Seen t tr w) : ∃ s, w.calls t = some s :=
  h.call.imp fun _ hs => hs.1

theorem Seen.workspaces {tr : History} (h : Seen t tr w) (hsettled : Settled w) :
    workspacesOf w.trace = workspacesOf tr := by
  obtain ⟨s, hs, hheight⟩ := h.call
  exact (hsettled t s hs).workspaces h.suffix hheight

/-- The workspaces are those of a moment of the call that the principal may see. -/
def Scoped (t : Tid) (principal : GatewayPrincipal) (workspaces : List Workspace) (w : World sys) :
    Prop :=
  ∃ tr, Seen t tr w ∧ workspaces = authorized principal (workspacesOf tr)

/-- The catalog was read as this version of it. -/
def ReadAt (rt : Runtime) (version : Nat) (state : CatalogState) (w : World sys) : Prop :=
  Kept rt w.trace → ∃ older, older <:+ w.trace ∧ older.length = version ∧ current older = state

theorem ReadAt.later {version : Nat} {state : CatalogState} (h : ReadAt rt version state w)
    (hl : Later w w') : ReadAt rt version state w' := by
  intro hkept
  obtain ⟨older, hs, hrest⟩ := h (hkept.suffix hl.suffix)
  exact ⟨older, hs.trans hl.suffix, hrest⟩

theorem ReadAt.listed {version : Nat} {state : CatalogState} {principal : GatewayPrincipal}
    {workspaces : List Workspace} (h : ReadAt rt version state w)
    (hscoped : Scoped t principal workspaces w) (hkept : Kept rt w.trace) (hsettled : Settled w) :
    Listed w.trace version principal (visible state principal workspaces) := by
  obtain ⟨older, hs, hlen, rfl⟩ := h hkept
  obtain ⟨tr, hseen, rfl⟩ := hscoped
  exact ⟨older, hs, hlen, by rw [hseen.workspaces hsettled]⟩

/-- The version covers what the thread has written. -/
def Covered (rt : Runtime) (t : Tid) (version : Nat) (w : World sys) : Prop :=
  Kept rt w.trace → Covers version (· = some t) w.trace

theorem Covered.grows {version : Nat} (h : Covered rt t version w) (hg : Grows t w w') :
    Covered rt t version w' := by
  intro hkept
  obtain ⟨new, htr, hnew⟩ := hg.trace
  rw [htr]
  apply Covers.notes (h (hkept.suffix hg.later.suffix))
  exact fun e he hmine => absurd hmine (hnew e he)

theorem Covered.answered {version : Nat} (h : Covered rt t version w) {x : Ext}
    (a : Answer sys x) : Covered rt t version (w.answered t a) := by
  intro hkept
  apply Covers.notes (h (hkept.suffix ⟨_, rfl⟩))
  intro e he _
  obtain ⟨n, -, rfl⟩ := List.mem_map.mp he
  rfl

theorem Announced.grows (h : Announced rt t w) (hr : (delivery rt).rely t w w') :
    Announced rt t w' := by
  rcases h with h | ⟨version, hfinished, hcovered⟩
  · exact .inl (h.grows hr.1)
  · exact .inr ⟨version, hr.2.finished version hfinished, Covered.grows hcovered hr.1⟩

/-- A thread about to go on with a publication. -/
structure Publishing (rt : Runtime) (t : Tid) (version : Nat) (state : CatalogState) (position : Nat)
    (w : World sys) : Prop where
  seen : Seen t w.trace w
  read : ReadAt rt version state w
  covered : Covered rt t version w
  passing : (w.mem t.proc).Passing version position

theorem Mem.Passing.onward {mem mem' : Mem} {version position : Nat} (h : mem.Passing version position)
    (ho : mem.Onward mem') : mem'.Passing version position := h.imp id (ho.passed _)

theorem Publishing.grows {version position : Nat} {state : CatalogState}
    (h : Publishing rt t version state position w) (hr : (delivery rt).rely t w w') :
    Publishing rt t version state position w' :=
  ⟨h.seen.now hr.1.later, h.read.later hr.1.later, h.covered.grows hr.1, h.passing.onward hr.2⟩

/-- After serving an entry it goes on behind it. -/
theorem Publishing.next {version position : Nat} {state : CatalogState}
    (h : Publishing rt t version state position w) {visit : Visit} {x : Ext} {a : Answer sys x}
    (hpassed : (version, visit.position + 1) ∈ a.mem.passed) :
    Publishing rt t version state (visit.position + 1) (w.answered t a) := by
  have hlater : Later w (w.answered t a) := ⟨⟨_, rfl⟩, Nat.le_refl _, fun _ _ => rfl⟩
  refine ⟨h.seen.now hlater, h.read.later hlater, h.covered.answered a, ?_⟩
  rw [World.answered_mem_self]
  exact .inr hpassed

/-! ### Reads -/

/-- What the others keep up is still known after a request that changes nothing. -/
def Stable (rt : Runtime) (t : Tid) (F : World sys → Prop) : Prop :=
  ∀ {w w'}, F w → (delivery rt).rely t w w' → F w'

theorem answered_unchanged {x : Ext} {a : Answer sys x} (hnotes : a.notes = [])
    (hmem : a.mem = w.mem t.proc) (hforks : a.forks = []) :
    (w.answered t a).spawnAll t.proc a.forks = w := by
  rw [hforks, World.spawnAll_nil]
  simp [World.answered, hnotes, hmem]

theorem serves_unchanged {α : Type} {x : Ext} {k : Ext.Res x → sys.Task α}
    {Q : α → World sys → Prop} {E : Err → World sys → Prop}
    (h : ∀ w1, (delivery rt).rely t w w1 → Live rt w1 → ∀ c a, answer rt c t x w1 = some a →
      (a.notes = [] ∧ a.mem = w1.mem t.proc ∧ a.forks = []) ∧ Safe (delivery rt) t (k a.res) Q E w1) :
    Safe (delivery rt) t (.call (.ext x) k) Q E w := by
  refine Safe.ext fun w1 hr1 hi1 c a ha => ?_
  obtain ⟨⟨hnotes, hmem, hforks⟩, hsafe⟩ := h w1 hr1 hi1 c a ha
  rw [answered_unchanged hnotes hmem hforks]
  exact ⟨(Protocol.keeps_same hi1).pays rfl, hsafe⟩

theorem serves_scope {F : World sys → Prop} (hF : Stable rt t F) {tr : History}
    (principal : GatewayPrincipal) (hseen : Seen t tr w) (h : F w) :
    Safe (delivery rt) t (scope principal) (fun workspaces w' => F w' ∧ Scoped t principal workspaces w')
      (fun _ w' => F w') w := by
  refine serves_unchanged (x := .workspaces) fun w1 hr1 hi1 c a ha => ?_
  cases ha
  refine ⟨⟨rfl, rfl, rfl⟩, ?_⟩
  by_cases hfails : c.fails = true
  · simp only [hfails, if_true]
    exact Safe.fail fun w2 hr2 _ => hF (hF h hr1) hr2
  simp only [hfails]
  change Safe (delivery rt) t (if _ then _ else _) _ _ w1
  split
  · exact Safe.fail fun w2 hr2 _ => hF (hF h hr1) hr2
  · refine Safe.ret fun w2 hr2 _ => ⟨hF (hF h hr1) hr2, w1.trace, ?_, rfl⟩
    exact (hseen.now hr1.1.later).later hr2.1.later

/-- A read covers everything the thread has written. -/
theorem serves_read {F : World sys → Prop} (hF : Stable rt t F) (h : F w) :
    Safe (delivery rt) t (read rt) (fun r w' => F w' ∧ ReadAt rt (versionOf r.1) r.2 w' ∧
      Covered rt t (versionOf r.1) w') (fun _ _ => True) w := by
  unfold read
  refine Safe.await_get (fun w1 hr1 hi1 => ?_) fun _ _ => trivial
  cases hparse : parseCatalog rt (((lookup .catalog w1.trace).map Prod.snd).getD {}) with
  | none => exact Safe.fail fun _ _ _ => trivial
  | some state =>
    have hread : ReadAt rt (versionOf (lookup .catalog w1.trace)) state w1 := by
      intro hkept
      have hcurrent := hkept.parse
      rw [current, hparse, Option.some.injEq] at hcurrent
      obtain ⟨older, hs, hlen, hsame⟩ := current_of_version w1.trace
      exact ⟨older, hs, hlen, hsame.trans hcurrent.symm⟩
    have hcovered : Covered rt t (versionOf (lookup .catalog w1.trace)) w1 :=
      fun hkept => hkept.covers _
    exact Safe.ret fun w2 hr2 _ => ⟨hF (hF h hr1) hr2, hread.later hr2.1.later, hcovered.grows hr2.1⟩

/-! ### Publishing -/

/-- Between two of its entries a loop knows the one it is about to serve. -/
def Attends (rt : Runtime) (t : Tid) (version : Nat) (state : CatalogState) (position : Nat)
    (visit : Visit) (w : World sys) : Prop :=
  Publishing rt t version state position w ∧ (w.mem t.proc).Visiting visit position

theorem stable_attends {version position : Nat} {state : CatalogState} {visit : Visit} :
    Stable rt t (Attends rt t version state position visit) :=
  fun h hr => ⟨h.1.grows hr, h.2.onward hr.2⟩

theorem onward_bookkeeping {mem : Mem} {objects : List Subscription} {sequence : Nat}
    {passed : List (Nat × Nat)} {finished : List Nat} {servings : List Serving}
    (hsize : objects.length = mem.objects.length)
    (howner : ∀ i : Nat, (objects[i]?.map fun s => (s.principal, s.emitter)) = mem.owner i)
    (hpassed : ∀ pass ∈ mem.passed, pass ∈ passed)
    (hfinished : ∀ version ∈ mem.finished, version ∈ finished)
    (hattendss : ∀ serving ∈ mem.servings, serving ∈ servings) :
    mem.Onward { mem with objects, sequence, passed, finished, servings } :=
  ⟨Nat.le_refl _, Nat.le_of_eq hsize.symm, hpassed, hfinished, hattendss,
    fun object _ ho => (howner object).trans ho, fun _ h => .inl h⟩

theorem pays_finish {version position : Nat} {state : CatalogState}
    (h : Publishing rt t version state position w) (hi : Live rt w)
    (hvisit : (w.mem t.proc).visit position = none) :
    (delivery rt).Pays t w ((w.answered t
      { res := none, glob := (),
        mem := { w.mem t.proc with finished := version :: (w.mem t.proc).finished } :
        Answer sys (.next version position) }).spawnAll t.proc []) := by
  apply pays_answered hi h.seen.started rfl
  · exact fun n hn => by cases hn
  · exact ⟨(hi.ordered t.proc).slots, (hi.ordered t.proc).positions, (hi.ordered t.proc).objects⟩
  · exact onward_bookkeeping rfl (fun _ => rfl) (fun _ h => h) (fun _ h => List.mem_cons_of_mem _ h)
      fun _ h => h
  · exact fun _ _ _ hfollowed => hfollowed.finish (hi.ordered t.proc) h.passing hvisit

theorem pays_drop {version position : Nat} {state : CatalogState} {visit : Visit}
    (h : Attends rt t version state position visit w) (hi : Live rt w) :
    (delivery rt).Pays t w ((w.answered t
      { res := (), glob := (),
        mem := { (w.mem t.proc).delete visit.subscriptionId with
          passed := (version, visit.position + 1) :: (w.mem t.proc).passed } :
        Answer sys (.drop visit version) }).spawnAll t.proc []) := by
  have hord := (hi.ordered t.proc).filter fun slot => slot.subscriptionId != visit.subscriptionId
  apply pays_answered hi h.1.seen.started rfl
  · exact fun n hn => by cases hn
  · exact ⟨hord.slots, hord.positions, hord.objects⟩
  · exact (Mem.Onward.filter (w.mem t.proc) _).trans (onward_bookkeeping rfl (fun _ => rfl)
      (fun _ h => List.mem_cons_of_mem _ h) (fun _ h => h) fun _ h => h)
  · intro _ _ _ hfollowed
    apply hfollowed.keep ⟨List.suffix_refl _, rfl⟩ (fun _ _ => rfl)
    · exact fun slot hslot => (List.mem_filter.mp hslot).1
    · rfl
    · rfl
    · intro pass hpass
      rcases List.mem_cons.mp hpass with rfl | hold
      · right
        intro slot hslot hlt sub hsub
        obtain ⟨hmem, hid⟩ := List.mem_filter.mp hslot
        apply hfollowed.passing h.1.passing hmem _ hsub
        -- the entry at the place that was visited is the one that goes
        rcases Nat.lt_or_eq_of_le (Nat.le_of_lt_succ hlt) with hbefore | hat
        · exact h.2.between slot hmem hbefore
        · have hsame := (h.2.place slot hmem hat).1
          rw [hsame] at hid
          simp at hid
      · exact .inl hold

theorem pays_deliver {version position : Nat} {state : CatalogState} {visit : Visit}
    {workspaces : List Workspace} {sub : Subscription}
    (h : Attends rt t version state position visit w) (hi : Live rt w)
    (hscoped : Scoped t visit.principal workspaces w)
    (hsub : (w.mem t.proc).objects[visit.object]? = some sub) :
    ∀ a : Answer sys (.deliver visit version (visible state visit.principal workspaces)),
      a.forks = [] →
      a.notes = (updates sub.emitter visit.subscriptionId (rt.directoryId t.proc)
        (w.mem t.proc).sequence sub.seen (toMap (visible state visit.principal workspaces))).reverse →
      (∃ sequence, a.mem = { w.mem t.proc with
        objects := (w.mem t.proc).objects.set visit.object
          { sub with seen := toMap (visible state visit.principal workspaces), version }
        sequence, passed := (version, visit.position + 1) :: (w.mem t.proc).passed
        servings := .delivered version sub.version ((w.mem t.proc).replaced visit.subscriptionId
          visit.object sub.emitter) :: (w.mem t.proc).servings }) →
      (delivery rt).Pays t w ((w.answered t a).spawnAll t.proc a.forks) := by
  rintro a hforks hnotes ⟨sequence, hmem⟩
  have hord := hi.ordered t.proc
  apply pays_answered hi h.1.seen.started hforks
  · rw [hnotes]
    rintro n hn workspaces' rfl
    exact (updates_tells (toMap_nodup _) _ (List.mem_reverse.mp hn)).2.elim
  · rw [hmem]
    exact ⟨hord.slots, hord.positions, fun slot hs => by simpa using hord.objects slot hs⟩
  · rw [hmem]
    exact onward_bookkeeping (List.length_set ..) (Mem.owner_serve hsub _ version)
      (fun _ h => List.mem_cons_of_mem _ h) (fun _ h => h) fun _ h => List.mem_cons_of_mem _ h
  · intro horder hsettled hkept hfollowed
    rw [hmem] at horder ⊢
    rw [hnotes]
    obtain ⟨hnewer, hreplaced⟩ := horder _ List.mem_cons_self
    exact hfollowed.deliver rfl h.2 h.1.passing (h.1.read.listed hscoped hkept hsettled) hsub hnewer
      hreplaced

theorem serves_publishFrom {version : Nat} {state : CatalogState} (turns : Nat) {position : Nat}
    (h : Publishing rt t version state position w) :
    Serves rt t (publishFrom version state turns position) (fun _ w' => Announced rt t w') w := by
  induction turns generalizing position w with
  | zero =>
    refine Safe.ext fun w1 hr1 hi1 c a ha => ?_
    cases ha
  | succ turns ih =>
    refine Safe.ext fun w1 hr1 hi1 c a ha => ?_
    have h1 := h.grows hr1
    have hnext : answer rt c t (.next version position) w1 = some a := ha
    cases hvisit : (w1.mem t.proc).visit position with
    | none =>
      simp only [answer, hvisit] at hnext
      cases hnext
      refine ⟨pays_finish h1 hi1 hvisit, Safe.ret fun w2 hr2 _ => ?_⟩
      refine Announced.grows (.inr ⟨version, ?_, ?_⟩) hr2
      · simp
      · exact h1.covered.answered _
    | some visit =>
      simp only [answer, hvisit] at hnext
      cases hnext
      have hsame := answered_unchanged (w := w1) (t := t) (a := { res := some visit, mem := w1.mem t.proc, glob := () : Answer sys (.next version position) }) rfl rfl rfl
      rw [hsame]
      refine ⟨(Protocol.keeps_same hi1).pays rfl, ?_⟩
      have hattends : Attends rt t version state position visit w1 :=
        ⟨h1, (hi1.ordered t.proc).visiting hvisit⟩
      change Safe (delivery rt) t ((scope visit.principal).attempt >>= _) _ _ w1
      apply Safe.bind
      apply Safe.attempt
      refine Safe.mono (serves_scope stable_attends visit.principal h1.seen hattends) ?_ ?_
      · intro workspaces w2 h2 _
        refine Safe.ext fun w3 hr3 hi3 c a ha => ?_
        have h3 := stable_attends h2.1 hr3
        obtain ⟨tr, hseen, hworkspaces⟩ := h2.2
        have hscoped : Scoped t visit.principal workspaces w3 :=
          ⟨tr, hseen.later hr3.1.later, hworkspaces⟩
        have hdeliver : answer rt c t (.deliver visit version
          (visible state visit.principal workspaces)) w3 = some a := ha
        cases hsub : (w3.mem t.proc).objects[visit.object]? with
        | none =>
          simp only [answer, hsub] at hdeliver
          cases hdeliver
        | some sub =>
          simp only [answer, hsub] at hdeliver
          cases hdeliver
          refine ⟨pays_deliver h3 hi3 hscoped hsub _ rfl rfl ⟨_, rfl⟩, ?_⟩
          exact ih (h3.1.next List.mem_cons_self)
      · intro error w2 h2 _
        refine Safe.ext fun w3 hr3 hi3 c a ha => ?_
        have h3 := stable_attends h2 hr3
        cases ha
        refine ⟨pays_drop h3 hi3, ?_⟩
        exact ih (h3.1.next List.mem_cons_self)

theorem serves_publish (turns : Nat) (h : Seen t w.trace w) :
    Serves rt t (publish rt turns) (fun _ w' => Announced rt t w') w := by
  have hstable : Stable rt t fun w' => Seen t w'.trace w' := fun h hr => h.now hr.1.later
  apply Safe.bind
  refine Safe.mono (serves_read hstable h) ?_ fun _ _ _ => trivial
  rintro ⟨record, state⟩ w1 ⟨hseen, hread, hcovered⟩ _
  exact serves_publishFrom turns ⟨hseen, hread, hcovered, .inl rfl⟩

/-! ### Requests -/

/-- The requests that do not touch the map. -/
def PlainReq : Req sys → Prop
  | .store _ => True
  | .ext .workspaces => True
  | .ext (.reply _ _ (.list _ _ _)) => False
  | .ext (.reply _ _ _) => True
  | .ext _ => False

theorem keeps_served {q : StoreReq Key (fun _ => CatalogState)} (hi : Live rt w) {c : Weather Key}
    {r : q.Res} {tr : History} (h : serve c (some t) q w.trace = (r, tr)) :
    (delivery rt).Keeps t w { w with trace := tr } := by
  cases q with
  | get k =>
    obtain ⟨rfl, -⟩ := serve_get h
    exact Protocol.keeps_same hi
  | list sel =>
    obtain ⟨rfl, -⟩ := serve_list h
    exact Protocol.keeps_same hi
  | create k v =>
    rcases serve_create h with ⟨-, rfl, -⟩ | ⟨rfl, -⟩
    · exact pays_pushed hi (by simp [Entry.key?])
    · exact Protocol.keeps_same hi
  | update k n v =>
    rcases serve_update h with ⟨_, -, rfl, -⟩ | ⟨rfl, -⟩
    · exact pays_pushed hi (by simp [Entry.key?])
    · exact Protocol.keeps_same hi
  | delete k n =>
    rcases serve_delete h with ⟨_, -, rfl, -⟩ | ⟨rfl, -⟩
    · exact pays_pushed hi (by simp [Entry.key?])
    · exact Protocol.keeps_same hi

/-- Notes that are not addressed to a subscription change no view. -/
theorem viewOf_unaddressed {notes : List Note} (h : ∀ n ∈ notes, n.address = none) (p emitter : Nat)
    (subscriptionId : String) (tr : History) :
    viewOf p emitter subscriptionId (notes.map (.note (some t)) ++ tr) =
      viewOf p emitter subscriptionId tr := by
  by_cases hp : t.proc = p
  · rw [viewOf_notes hp]
    apply foldr_receive_ne
    intro n hn
    rw [h n hn]
    simp
  · exact viewOf_notes_ne hp notes tr

/-- An answer that leaves the map as it is, or only removes entries. -/
theorem pays_removed {x : Ext} {a : Answer sys x} (hi : Live rt w) (hcall : ∃ s, w.calls t = some s)
    (hforks : a.forks = []) (hnotes : ∀ n ∈ a.notes, n.address = none ∧ ∀ workspaces, n ≠ .workspaces workspaces)
    (hmem : ∃ keep sequence, a.mem =
      { w.mem t.proc with subscriptions := (w.mem t.proc).subscriptions.filter keep, sequence }) :
    (delivery rt).Pays t w ((w.answered t a).spawnAll t.proc a.forks) := by
  obtain ⟨keep, sequence, hmem⟩ := hmem
  have hord := (hi.ordered t.proc).filter keep
  apply pays_answered hi hcall hforks (fun n hn => (hnotes n hn).2)
  · rw [hmem]
    exact ⟨hord.slots, hord.positions, hord.objects⟩
  · rw [hmem]
    exact (Mem.Onward.filter (w.mem t.proc) keep).trans (onward_bookkeeping rfl (fun _ => rfl)
      (fun _ h => h) (fun _ h => h) fun _ h => h)
  · intro _ _ _ hfollowed
    rw [hmem]
    apply hfollowed.keep (continues_notes (some t) (fun n hn => (hnotes n hn).2) w.trace)
    · exact fun emitter subscriptionId =>
        viewOf_unaddressed (fun n hn => (hnotes n hn).1) _ emitter subscriptionId w.trace
    · exact fun slot hslot => (List.mem_filter.mp hslot).1
    · rfl
    · rfl
    · exact fun _ h => .inl h

theorem unfiltered (mem : Mem) : mem.subscriptions = mem.subscriptions.filter fun _ => true := by
  simp

theorem pays_reply {emitter : Nat} {requestId : String} {reply : Reply}
    (hreply : (Note.reply emitter requestId reply).address = none) (hi : Live rt w)
    (hcall : ∃ s, w.calls t = some s) {c : Choice} {a : Answer sys (.reply emitter requestId reply)}
    (ha : answer rt c t (.reply emitter requestId reply) w = some a) :
    (delivery rt).Pays t w ((w.answered t a).spawnAll t.proc a.forks) := by
  cases ha
  apply pays_removed hi hcall rfl
  · intro n hn
    obtain rfl := List.mem_singleton.mp hn
    exact ⟨hreply, by simp⟩
  · exact ⟨fun _ => true, _, by rw [← unfiltered]⟩

theorem pays_plain {q : Req sys} (hq : PlainReq q) (hi : Live rt w) {pick : Pick (machine rt)} {r : q.Res}
    (hcall : ∃ s, w.calls t = some s)
    (h : (machine rt).perform t w pick q = some (r, w')) : (delivery rt).Pays t w w' := by
  cases pick with
  | store c =>
    cases q with
    | store q =>
      simp only [Machine.perform, Option.some.injEq, Prod.mk.injEq] at h
      obtain ⟨-, rfl⟩ := h
      exact (keeps_served hi rfl).pays rfl
    | ext x => cases h
  | ext c =>
    cases q with
    | store q => cases h
    | ext x =>
      obtain ⟨a, ha, heq⟩ := Option.map_eq_some_iff.mp h
      cases heq
      cases x with
      | workspaces =>
        cases ha
        rw [answered_unchanged rfl rfl rfl]
        exact (Protocol.keeps_same hi).pays rfl
      | reply emitter requestId reply =>
        cases reply with
        | list labels subscriptionId sync => exact hq.elim
        | release subscriptionId => exact pays_reply (c := c) rfl hi hcall ha
        | outcome result => exact pays_reply (c := c) rfl hi hcall ha
        | inspect count => exact pays_reply (c := c) rfl hi hcall ha
      | release emitter requestId subscriptionId => exact hq.elim
      | releaseEmitter emitter => exact hq.elim
      | listed principal emitter requestId subscribe generation version labels => exact hq.elim
      | next version position => exact hq.elim
      | deliver visit version labels => exact hq.elim
      | drop visit version => exact hq.elim
      | stuck => exact hq.elim

theorem serves_plain {α : Type} {p : sys.Task α} (hp : p.Only PlainReq) (h : Seen t w.trace w) :
    Serves rt t p (fun _ w' => Seen t w'.trace w') w := by
  induction p generalizing w with
  | ret a => exact fun w' hr _ => h.now hr.1.later
  | fail e => exact fun _ _ _ => trivial
  | call q k ih =>
    intro w' hr hi pick r w'' hperf
    have h' := h.now hr.1.later
    exact ⟨pays_plain hp.1 hi h'.started hperf, ih r (hp.2 r) (h'.now (Machine.perform_later hperf))⟩

/-- A thread that has written nothing. -/
structure Reader (t : Tid) (w : World sys) : Prop where
  unwritten : Unwritten t w
  seen : Seen t w.trace w

theorem stable_reader : Stable rt t (Reader t) :=
  fun h hr => ⟨h.unwritten.grows hr.1, h.seen.now hr.1.later⟩

theorem Reader.answered (h : Reader t w) {x : Ext} (a : Answer sys x) : Reader t (w.answered t a) := by
  constructor
  · intro e he ha
    rcases List.mem_append.mp he with hnote | hold
    · obtain ⟨n, -, rfl⟩ := List.mem_map.mp hnote
      rfl
    · exact h.unwritten e hold ha
  · exact h.seen.now ⟨⟨_, rfl⟩, Nat.le_refl _, fun _ _ => rfl⟩

theorem Reader.announced (h : Reader t w) : Announced rt t w := .inl h.unwritten

/-- The last request of a reader. -/
theorem serves_last {α : Type} {x : Ext} {k : Ext.Res x → sys.Task α} {Q : α → World sys → Prop}
    (hend : ∀ r, (∃ a, k r = .ret a ∧ ∀ w', Reader t w' → Q a w') ∨ ∃ e, k r = .fail e)
    (hpays : ∀ w1, Reader t w1 → (delivery rt).rely t w w1 → Live rt w1 → ∀ c a,
      answer rt c t x w1 = some a → (delivery rt).Pays t w1 ((w1.answered t a).spawnAll t.proc a.forks))
    (h : Reader t w) : Serves rt t (.call (.ext x) k) Q w := by
  refine Safe.ext fun w1 hr1 hi1 c a ha => ?_
  have h1 := stable_reader h hr1
  refine ⟨hpays w1 h1 hr1 hi1 c a ha, ?_⟩
  rw [answered_quiet ha, World.spawnAll_nil]
  rcases hend a.res with ⟨b, heq, hQ⟩ | ⟨e, heq⟩
  · rw [heq]
    exact Safe.ret fun w2 hr2 _ => hQ w2 (stable_reader (h1.answered a) hr2)
  · rw [heq]
    exact Safe.fail fun _ _ _ => trivial

theorem pays_release {emitter : Nat} {requestId subscriptionId : String} (hi : Live rt w)
    (hcall : ∃ s, w.calls t = some s) {c : Choice} {a : Answer sys (.release emitter requestId subscriptionId)}
    (ha : answer rt c t (.release emitter requestId subscriptionId) w = some a) :
    (delivery rt).Pays t w ((w.answered t a).spawnAll t.proc a.forks) := by
  simp only [answer] at ha
  split at ha
  · cases ha
    apply pays_removed hi hcall rfl
    · intro n hn
      obtain rfl := List.mem_singleton.mp hn
      exact ⟨rfl, by simp⟩
    · exact ⟨_, _, rfl⟩
  · cases ha
    rw [answered_unchanged rfl rfl rfl]
    exact (Protocol.keeps_same hi).pays rfl

theorem pays_releaseEmitter {emitter : Nat} (hi : Live rt w) (hcall : ∃ s, w.calls t = some s)
    {c : Choice} {a : Answer sys (.releaseEmitter emitter)}
    (ha : answer rt c t (.releaseEmitter emitter) w = some a) :
    (delivery rt).Pays t w ((w.answered t a).spawnAll t.proc a.forks) := by
  cases ha
  apply pays_removed hi hcall rfl
  · exact fun n hn => by cases hn
  · exact ⟨_, _, rfl⟩

theorem pays_listed {principal : GatewayPrincipal} {emitter version : Nat} {requestId : String}
    {subscribe : Option (Option String)} {generation : Option String} {state : CatalogState}
    {workspaces : List Workspace} (hi : Live rt w) (hseen : Seen t w.trace w)
    (hread : ReadAt rt version state w) (hscoped : Scoped t principal workspaces w) {c : Choice}
    {a : Answer sys (.listed principal emitter requestId subscribe generation version
      (visible state principal workspaces))}
    (ha : answer rt c t (.listed principal emitter requestId subscribe generation version
      (visible state principal workspaces)) w = some a) :
    (delivery rt).Pays t w ((w.answered t a).spawnAll t.proc a.forks) := by
  have hord := hi.ordered t.proc
  cases subscribe with
  | none =>
    cases ha
    apply pays_removed hi hseen.started rfl
    · intro n hn
      obtain rfl := List.mem_singleton.mp hn
      exact ⟨rfl, by simp⟩
    · exact ⟨fun _ => true, _, by rw [← unfiltered]⟩
  | some given =>
    simp only [answer] at ha
    split at ha
    · cases ha
      rw [answered_unchanged rfl rfl rfl]
      exact (Protocol.keeps_same hi).pays rfl
    · rename_i hrefusal
      cases ha
      apply pays_answered hi hseen.started rfl
      · intro n hn
        obtain rfl := List.mem_singleton.mp hn
        simp
      · have hset := hord.set (given.getD c.uuid)
          { principal, emitter, seen := toMap (visible state principal workspaces), version }
        exact ⟨hset.slots, hset.positions, hset.objects⟩
      · exact (Mem.Onward.set hord hrefusal).trans (onward_bookkeeping rfl (fun _ => rfl)
          (fun _ h => h) (fun _ h => h) fun _ h => List.mem_cons_of_mem _ h)
      · intro horder hsettled hkept hfollowed
        apply hfollowed.install hord rfl (hread.listed hscoped hkept hsettled)
        exact horder _ List.mem_cons_self

/-! #### The programs -/

theorem plain_read : (read rt).Only PlainReq := by
  refine ⟨trivial, fun r => ?_⟩
  cases r with
  | ok a =>
    show Prog.Only _ (Prog.bind _ _)
    dsimp only [Prog.bind]
    split <;> trivial
  | error e => trivial

theorem plain_workspaces : (askOr (S := sys) .workspaces rfl).Only PlainReq := by
  refine ⟨trivial, fun r => ?_⟩
  change Except Err (List Workspace × Nat) at r
  cases r <;> trivial

theorem plain_changeAttempts (principal : GatewayPrincipal) (fn : Change) (attempts : Nat) :
    (changeAttempts rt principal fn attempts).Only PlainReq := by
  induction attempts with
  | zero => trivial
  | succ attempts ih =>
    apply Prog.Only.bind plain_workspaces
    rintro ⟨workspaces, now⟩
    simp only
    split
    · trivial
    apply Prog.Only.bind plain_read
    rintro ⟨record, state⟩
    simp only
    split
    · trivial
    have hwrite : ∀ state', (write record state').attempt.Only PlainReq := by
      intro state'
      apply Prog.Only.attempt
      unfold write
      split
      · exact ⟨trivial, fun r => by cases r <;> trivial⟩
      · exact ⟨trivial, fun r => by cases r <;> trivial⟩
    apply Prog.Only.bind (hwrite _)
    intro r
    cases r with
    | ok n => trivial
    | error e =>
      simp only
      split
      · trivial
      · exact ih

theorem serves_changeAndPublish {principal : GatewayPrincipal} {emitter : Nat} {requestId : String}
    {fn : Change} (turns : Nat) (h : Seen t w.trace w) :
    Serves rt t (changeAndPublish rt turns principal emitter requestId fn)
      (fun _ w' => Announced rt t w') w := by
  unfold changeAndPublish
  apply Safe.bind
  refine Safe.mono (serves_plain (plain_changeAttempts principal fn 5) h) ?_ fun _ _ _ => trivial
  intro result w1 h1 _
  apply Safe.bind
  have hreply : (ask (S := sys) (.reply emitter requestId (.outcome result))).Only PlainReq :=
    ⟨trivial, fun _ => trivial⟩
  refine Safe.mono (serves_plain hreply h1) ?_ fun _ _ _ => trivial
  intro _ w2 h2 _
  apply Safe.bind
  refine Safe.mono (serves_publish turns h2) ?_ fun _ _ _ => trivial
  exact fun _ w3 h3 _ => Safe.ret fun w4 hr4 _ => h3.grows hr4

theorem serves_scoped {principal : GatewayPrincipal} {f : List Workspace → sys.Task Bool}
    (h : Reader t w)
    (hf : ∀ workspaces w', Reader t w' → Scoped t principal workspaces w' →
      Serves rt t (f workspaces) (fun _ w'' => Announced rt t w'') w') :
    Serves rt t (scope principal >>= f) (fun _ w' => Announced rt t w') w := by
  apply Safe.bind
  refine Safe.mono (serves_scope stable_reader principal h.seen h) ?_ fun _ _ _ => trivial
  exact fun workspaces w1 h1 _ => hf workspaces w1 h1.1 h1.2

theorem serves_reader {α : Type} (a : α) (h : Reader t w) :
    Serves rt t (.ret a) (fun _ w' => Announced rt t w') w :=
  Safe.ret fun _ hr _ => (stable_reader h hr).announced

theorem serves_throw {α : Type} {Q : α → World sys → Prop} (e : Err) :
    Serves rt t (.fail e : sys.Task α) Q w := Safe.fail fun _ _ _ => trivial

theorem serves_ownerOnly {principal : GatewayPrincipal} {request : sys.Task Bool}
    {Q : Bool → World sys → Prop} (h : Serves rt t request Q w) :
    Serves rt t (ownerOnly principal request) Q w := by
  unfold ownerOnly
  split
  · exact serves_throw _
  · exact h

theorem serves_handle {turns emitter : Nat} {principal : GatewayPrincipal} (message : Message)
    (h : Reader t w) :
    Serves rt t (handle rt turns message principal emitter) (fun _ w' => Announced rt t w') w := by
  cases message with
  | release requestId subscriptionId =>
    refine serves_last (fun r => .inl ⟨r, rfl, fun _ h => h.announced⟩) ?_ h
    exact fun w1 h1 _ hi1 c a ha => pays_release hi1 h1.seen.started ha
  | other label =>
    cases label with
    | false => exact serves_reader false h
    | true => exact serves_scoped h fun _ w1 h1 _ => serves_ownerOnly (serves_reader false h1)
  | list requestId subscribe generation =>
    refine serves_scoped h fun workspaces w1 h1 hscoped => ?_
    have hstable : Stable rt t fun w' => Reader t w' ∧ Scoped t principal workspaces w' := by
      rintro w2 w3 ⟨h2, tr, hseen, heq⟩ hr
      exact ⟨stable_reader h2 hr, tr, hseen.later hr.1.later, heq⟩
    apply Safe.bind
    refine Safe.mono (serves_read hstable ⟨h1, hscoped⟩) ?_ fun _ _ _ => trivial
    rintro ⟨record, state⟩ w2 ⟨⟨h2, hscoped2⟩, hread, -⟩ _
    apply Safe.bind
    refine serves_last ?_ ?_ h2
    · intro r
      change Except Err Unit at r
      cases r with
      | ok a => exact .inl ⟨a, rfl, fun w3 h3 _ => serves_reader true h3⟩
      | error e => exact .inr ⟨e, rfl⟩
    · intro w3 h3 hr3 hi3 c a ha
      obtain ⟨tr, hseen, heq⟩ := hscoped2
      exact pays_listed hi3 h3.seen (hread.later hr3.1.later) ⟨tr, hseen.later hr3.1.later, heq⟩ ha
  | inspect requestId name =>
    refine serves_scoped h fun _ w1 h1 _ => serves_ownerOnly ?_
    split
    · apply Safe.bind
      refine Safe.mono (serves_read stable_reader h1) ?_ fun _ _ _ => trivial
      rintro ⟨record, state⟩ w2 ⟨h2, -⟩ _
      refine serves_last (fun r => .inl ⟨true, rfl, fun _ h => h.announced⟩) ?_ h2
      exact fun w3 h3 _ hi3 c a ha => pays_reply rfl hi3 h3.seen.started ha
    · exact serves_throw _
  | setAssignment requestId workspaceId label assigned =>
    refine serves_scoped h fun workspaces w1 h1 _ => ?_
    unfold handleSetAssignment
    split
    · exact serves_throw _
    simp only
    split
    · exact serves_throw _
    split
    · exact serves_throw _
    · exact serves_changeAndPublish turns h1.seen
  | update requestId name newName color =>
    refine serves_scoped h fun _ w1 h1 _ => serves_ownerOnly ?_
    split
    · exact serves_changeAndPublish turns h1.seen
    · exact serves_throw _
  | delete requestId name =>
    refine serves_scoped h fun _ w1 h1 _ => serves_ownerOnly ?_
    split
    · exact serves_changeAndPublish turns h1.seen
    · exact serves_throw _

/-! ### Every run -/

theorem Live.init (rt : Runtime) : Live rt (machine rt).init := by
  refine ⟨fun _ _ => rfl, ?_, ?_, ?_, ?_⟩
  · intro u s hs
    cases hs
  · intro p slot hslot
    cases hslot
  · exact fun _ => Mem.Ordered.fresh
  · intro p _ slot hslot
    cases hslot

theorem Live.spawn (hi : Live rt w) (p : Nat) (call : Call) : Live rt (w.spawn p call) := by
  have hlater : Later w (w.spawn p call) :=
    ⟨⟨[], rfl⟩, Nat.le_succ _, fun v hv => World.spawn_calls_of_lt hv p call⟩
  refine ⟨hi.numbered.spawn p call, ?_, ?_, hi.ordered, ?_⟩
  · intro u s hs
    rcases World.spawn_height hs with hold | ⟨-, rfl⟩
    · exact hi.heights u s hold
    · exact Nat.le_refl _
  · exact fun p' slot hslot => ⟨⟨p, w.next⟩, _, Function.update_self ..⟩
  · exact fun p' hgiven => hi.followed p' (hgiven.earlier hi.numbered hlater fun _ h => h)

/-- The process that dies starts again without a subscription. -/
theorem Live.crashed (hi : Live rt w) (p : Nat) : Live rt ((machine rt).crashed p w) := by
  have hlater : Later w ((machine rt).crashed p w) :=
    ⟨⟨[], rfl⟩, Nat.le_refl _, fun _ _ => rfl⟩
  have hsame : ∀ {p'}, p' ≠ p → ((machine rt).crashed p w).mem p' = w.mem p' :=
    fun hp => Function.update_of_ne hp _ _
  have hfresh : ((machine rt).crashed p w).mem p = {} := Function.update_self ..
  refine ⟨hi.numbered, hi.heights, ?_, ?_, ?_⟩
  · intro p' slot hslot
    by_cases hp : p' = p
    · rw [hp, hfresh] at hslot
      cases hslot
    · rw [hsame hp] at hslot
      exact hi.started p' slot hslot
  · intro p'
    by_cases hp : p' = p
    · rw [hp, hfresh]
      exact Mem.Ordered.fresh
    · rw [hsame hp]
      exact hi.ordered p'
  · intro p' hgiven
    by_cases hp : p' = p
    · rw [hp, hfresh]
      intro slot hslot
      cases hslot
    · rw [hsame hp]
      apply hi.followed p' (hgiven.earlier hi.numbered hlater _)
      rw [hsame hp]
      exact fun _ h => h

/-- A note of the environment changes nothing but the history. -/
theorem Live.noted (hi : Live rt w) {n : Note}
    (hfollowed : ∀ p, Given rt p { w with trace := .note none n :: w.trace } → Given rt p w →
      Followed p (.note none n :: w.trace) (w.mem p)) :
    Live rt { w with trace := .note none n :: w.trace } := by
  have hlater := w.later_push (.note none n)
  refine ⟨hi.numbered, ?_, hi.started, hi.ordered, ?_⟩
  · exact fun u s hs => (hi.heights u s hs).trans hlater.suffix.length_le
  · exact fun p hgiven => hfollowed p hgiven (hgiven.earlier hi.numbered hlater fun _ h => h)

/-- Where the workspaces have changed since the calls settled, nobody subscribes. -/
theorem Live.workspaces (hi : Live rt w) (workspaces : List Workspace) :
    Live rt { w with trace := .note none (.workspaces workspaces) :: w.trace } := by
  refine hi.noted fun p hgiven _ slot hslot => ?_
  obtain ⟨u, s, hs⟩ := hi.started p slot hslot
  have hlt := (hgiven.settled u s hs).2 rfl
  have hle := hi.heights u s hs
  omega

theorem Live.clock (hi : Live rt w) (nowSeconds : Nat) :
    Live rt { w with trace := .note none (.clock nowSeconds) :: w.trace } := by
  refine hi.noted fun p _ hbefore => ?_
  apply (hi.followed p hbefore).keep ⟨List.suffix_cons _ _, rfl⟩ (fun _ _ => rfl)
  · exact fun _ h => h
  · rfl
  · rfl
  · exact fun _ h => .inl h

/-- Every call serves its subscribers and announces what it writes. -/
theorem serves_program (call : Call) (h : Reader t w) :
    Serves rt t (program rt call) (fun _ w' => Announced rt t w') w := by
  cases call with
  | handle turns message principal emitter =>
    apply Safe.bind
    refine Safe.mono (serves_handle message h) ?_ fun _ _ _ => trivial
    exact fun _ w1 h1 _ => Safe.ret fun w2 hr2 _ => h1.grows hr2
  | releaseEmitter emitter =>
    refine serves_last (fun r => .inl ⟨.released, rfl, fun _ h => h.announced⟩) ?_ h
    exact fun w1 h1 _ hi1 c a ha => pays_releaseEmitter hi1 h1.seen.started ha
  | workspaceLabels workspace =>
    apply Safe.bind
    apply Safe.bind
    refine Safe.mono (serves_read stable_reader h) ?_ fun _ _ _ => trivial
    rintro ⟨record, state⟩ w1 ⟨h1, -⟩ _
    refine Safe.ret fun w2 hr2 _ _ => ?_
    exact serves_reader _ (stable_reader h1 hr2)
  | workspaceLabelsMany workspaces =>
    apply Safe.bind
    unfold workspaceLabelsMany
    split
    · refine Safe.ret fun w1 hr1 _ _ => ?_
      exact serves_reader _ (stable_reader h hr1)
    · apply Safe.bind
      refine Safe.mono (serves_read stable_reader h) ?_ fun _ _ _ => trivial
      rintro ⟨record, state⟩ w1 ⟨h1, -⟩ _
      refine Safe.ret fun w2 hr2 _ _ => ?_
      exact serves_reader _ (stable_reader h1 hr2)

theorem delivery_sound (rt : Runtime) : (delivery rt).Sound where
  init := Live.init rt
  start := fun {w p call} hi _ => ⟨hi.spawn p call, fun _ _ => Mem.Onward.refl _, trivial⟩
  crash := by
    intro w p hi
    refine ⟨hi.crashed p, fun u hu => ?_⟩
    have hsame : ((machine rt).crashed p w).mem u.proc = w.mem u.proc :=
      Function.update_of_ne hu _ _
    change (w.mem u.proc).Onward (((machine rt).crashed p w).mem u.proc)
    rw [hsame]
    exact Mem.Onward.refl _
  env := by
    intro w e new g hi henv
    cases e with
    | workspaces workspaces =>
      cases henv
      exact ⟨hi.workspaces workspaces, fun u => Mem.Onward.refl _⟩
    | clock nowSeconds =>
      change (if _ then _ else _) = _ at henv
      split at henv
      · cases henv
        exact ⟨hi.clock nowSeconds, fun u => Mem.Onward.refl _⟩
      · cases henv
  body := by
    intro w t c _ _ hcall hlt hfresh
    exact serves_program c ⟨fun e he ha => absurd ha (hfresh e he), hlt, List.suffix_refl _, _,
      hcall, Nat.le_refl _⟩

/-! ### Convergence -/

/-- Every write was made by a call of process `p` that has since returned. -/
def Acknowledged (p : Nat) (c : (machine rt).Config) : Prop :=
  ∀ e ∈ c.world.trace, e.key? ≠ none → ∃ u th out, e.author = some u ∧ u.proc = p ∧
    c.threads u = some th ∧ th.prog = .ret out

/-- Every live subscriber sees what it has in `seen`, and that is what it may see of the
    catalog in place. -/
def Converged (p : Nat) (w : World sys) : Prop :=
  ∀ slot ∈ (w.mem p).subscriptions, ∀ sub, (w.mem p).objects[slot.object]? = some sub →
    viewOf p sub.emitter slot.subscriptionId w.trace = shown sub.seen ∧
      sub.seen = toMap (visible (current w.trace) sub.principal
        (authorized sub.principal (workspacesOf w.trace)))

/-- A version that covers the writes of each author covers them all. -/
theorem covers_all {version : Nat} {tr : History}
    (h : ∀ e ∈ tr, e.key? ≠ none → ∃ version', version' ≤ version ∧ Covers version' (· = e.author) tr) :
    Covers version (fun _ => True) tr := by
  induction tr with
  | nil => trivial
  | cons e tr ih =>
    refine ⟨ih fun e' he' hkey => ?_, fun _ hkey => ?_⟩
    · obtain ⟨version', hle, hcovers⟩ := h e' (List.mem_cons_of_mem _ he') hkey
      exact ⟨version', hle, hcovers.1⟩
    · obtain ⟨version', hle, hcovers⟩ := h e List.mem_cons_self hkey
      exact Nat.lt_of_lt_of_le (hcovers.2 rfl hkey) hle

theorem labels_converge {c : (machine rt).Config} (hc : (machine rt).Reachable c) (p : Nat)
    (hsettled : Settled c.world) (hacknowledged : Acknowledged p c)
    (horder : (c.world.mem p).InOrder) : Converged p c.world := by
  have hkept : Kept rt c.world.trace := ((sound rt).reachable hc).inv
  have hholds := (delivery_sound rt).reachable hc
  have hfollowed := hholds.inv.followed p ⟨hkept, hsettled, horder⟩
  intro slot hslot sub hsub
  obtain ⟨hview, ⟨labels, hseen, older, hsuffix, hlen, hlabels⟩, hfinished, -⟩ :=
    hfollowed slot hslot sub hsub
  refine ⟨hview, ?_⟩
  -- the publication of each write has passed this entry
  have hcovers : Covers sub.version (fun _ => True) c.world.trace := by
    apply covers_all
    intro e he hkey
    obtain ⟨u, th, out, hauthor, rfl, hth, hret⟩ := hacknowledged e he hkey
    have hannounced : Announced rt u c.world := hholds.returned hth hret
    rcases hannounced with hunwritten | ⟨version, hversion, hcovered⟩
    · exact absurd (hunwritten e he hauthor) hkey
    · rw [hauthor]
      exact ⟨version, hfinished version hversion, hcovered hkept⟩
  have hcurrent := hcovers.suffix_current hsuffix (Nat.le_of_eq hlen.symm)
  rw [hseen, hlabels, hcurrent]

/-! ### Two changes and a subscriber -/

/-- No operation is in flight. -/
def Finished (c : (machine rt).Config) : Prop :=
  ∀ u th, c.threads u = some th → ∃ out, th.prog = .ret out

def returned (th : (machine rt).Thread) : Bool :=
  match th.prog with
  | .ret _ => true
  | _ => false

theorem ret_of_returned {th : (machine rt).Thread} (h : returned th = true) :
    ∃ out, th.prog = .ret out := by
  unfold returned at h
  split at h
  · rename_i out hret
    exact ⟨out, hret⟩
  · cases h

/-- Every write is by a call of process 0 that has returned. -/
def acknowledged (c : (machine rt).Config) : Bool :=
  c.world.trace.all fun e => e.key?.isNone ||
    e.author.any fun u => u.proc == 0 && (c.threads u).any returned

theorem acknowledged_spec {c : (machine rt).Config} (h : acknowledged c = true) : Acknowledged 0 c := by
  intro e he hkey
  have hauthor := List.all_eq_true.mp h e he
  rw [Bool.or_eq_true, Option.isNone_iff_eq_none] at hauthor
  obtain ⟨u, hu, hreturned⟩ := (Option.any_eq_true _ _).mp (hauthor.resolve_left hkey)
  rw [Bool.and_eq_true, beq_iff_eq] at hreturned
  obtain ⟨th, hth, hret⟩ := (Option.any_eq_true _ _).mp hreturned.2
  obtain ⟨out, hout⟩ := ret_of_returned hret
  exact ⟨u, th, out, hu, hreturned.1, hth, hout⟩

/-- Every call of process 0 has returned and was started after the workspaces were set. -/
def quiet (c : (machine rt).Config) : Bool :=
  (List.range c.world.next).all fun i => (c.threads ⟨0, i⟩).all returned &&
    (c.world.calls ⟨0, i⟩).all fun s => decide (SettledFrom s.height c.world.trace)

theorem quiet_spec {c : (machine rt).Config} (hc : (machine rt).Reachable c) (hw : c.Within 0)
    (hquiet : quiet c = true) : Finished c ∧ Settled c.world := by
  have hholds := (delivery_sound rt).reachable hc
  rw [quiet, List.all_eq_true] at hquiet
  have hat : ∀ u : Tid, u.idx < c.world.next → u.proc = 0 →
      (c.threads u).all returned = true ∧
        (c.world.calls u).all (fun s => decide (SettledFrom s.height c.world.trace)) = true := by
    rintro ⟨p, i⟩ hlt rfl
    exact Bool.and_eq_true_iff.mp (hquiet i (List.mem_range.mpr hlt))
  constructor
  · intro u th hth
    have hall := (hat u (hholds.below u th hth) (hw.threads u th hth)).1
    rw [hth] at hall
    exact ret_of_returned hall
  · intro u s hs
    have hlt : u.idx < c.world.next := by
      by_contra hge
      rw [hholds.numbered u (by omega)] at hs
      cases hs
    have hall := (hat u hlt (hw.calls u s hs)).2
    rw [hs] at hall
    exact of_decide_eq_true hall

abbrev demoMachine : Machine sys := machine demoRuntime

/-- The owner subscribes. -/
def demoSubscribe : List demoMachine.Move :=
  let t : Tid := ⟨0, 0⟩
  [.env (.workspaces [demoWorkspace]),
    .start 0 (.handle 0 (.list "list" (some (some "subscription")) none) .owner 0),
    demoAsk t, demoStore t, demoAsk t]

/-- A label is set on the workspace, and the catalog read to publish it. -/
def demoChange (i : Nat) (name : String) : List demoMachine.Move :=
  let t : Tid := ⟨0, i⟩
  [.start 0 (.handle 2 (.setAssignment "request" "ws" ⟨name, "blue"⟩ true) .owner 0),
    demoAsk t, demoAsk t, demoStore t, demoStore t, demoAsk t, demoStore t]

/-- What was read is delivered to the subscriber. -/
def demoDeliver (i : Nat) : List demoMachine.Move := List.replicate 4 (demoAsk ⟨0, i⟩)

/-- What the subscriber sees of the two labels. -/
def demoView (c : demoMachine.Config) : List (Option String) :=
  ["Reviewed", "Blocked"].map (viewOf 0 0 "subscription" c.world.trace)

def demoInTurn : List demoMachine.Move :=
  demoSubscribe ++ demoChange 1 "Reviewed" ++ demoDeliver 1 ++ demoChange 2 "Blocked" ++ demoDeliver 2

theorem labels_converge_demo : ∃ c : demoMachine.Config,
    demoMachine.initial.moves demoInTurn = some c ∧
      demoView c = [some "blue", some "blue"] ∧ Converged 0 c.world := by
  have hrun : (demoMachine.initial.moves demoInTurn).map (fun c =>
      (demoView c, quiet c, acknowledged c, (c.world.mem 0).servings)) =
        some ([some "blue", some "blue"], true, true,
          [.delivered 6 3 false, .delivered 3 0 false, .installed 0 []]) := by rfl
  obtain ⟨c, hc, hpair⟩ := Option.map_eq_some_iff.mp hrun
  simp only [Prod.mk.injEq] at hpair
  obtain ⟨hview, hquiet, hacknowledged, hservings⟩ := hpair
  have hreachable := Machine.Reachable.init.moves hc
  have hwithin := (Machine.Config.Within.initial 0).moves (by rfl) hc
  refine ⟨c, hc, hview, labels_converge hreachable 0 (quiet_spec hreachable hwithin hquiet).2
    (acknowledged_spec hacknowledged) ?_⟩
  intro serving hserving
  rw [hservings] at hserving
  simp only [List.mem_cons, List.not_mem_nil, or_false] at hserving
  rcases hserving with rfl | rfl | rfl
  · exact ⟨by decide, rfl⟩
  · exact ⟨by decide, rfl⟩
  · intro version hversion
    cases hversion

/-- The first change has read the catalog when the second is made and published; it
    delivers what it has read after that. -/
def demoOvertaken : List demoMachine.Move :=
  demoSubscribe ++ demoChange 1 "Reviewed" ++ demoChange 2 "Blocked" ++ demoDeliver 2 ++ demoDeliver 1

/-- What a subscription has seen, and what it may see. -/
def demoSeen (c : demoMachine.Config) (sub : Subscription) :
    List (String × String) × List (String × String) :=
  (sub.seen, toMap (visible (current c.world.trace) sub.principal
    (authorized sub.principal (workspacesOf c.world.trace))))

theorem outdated_view : ∃ c : demoMachine.Config, demoMachine.Reachable c ∧
    Finished c ∧ Settled c.world ∧ Acknowledged 0 c ∧ ¬ Converged 0 c.world := by
  have hrun : (demoMachine.initial.moves demoOvertaken).map (fun c =>
      (quiet c, acknowledged c, (c.world.mem 0).subscriptions)) =
        some (true, true, [⟨0, "subscription", 0⟩]) := by rfl
  have hobjects : (demoMachine.initial.moves demoOvertaken).map (fun c =>
      (c.world.mem 0).objects.map (demoSeen c)) =
        some [([("Reviewed", "blue")], [("Reviewed", "blue"), ("Blocked", "blue")])] := by
    rfl
  obtain ⟨c, hc, hpair⟩ := Option.map_eq_some_iff.mp hrun
  rw [hc, Option.map_some, Option.some.injEq] at hobjects
  simp only [Prod.mk.injEq] at hpair
  obtain ⟨hquiet, hacknowledged, hslots⟩ := hpair
  have hreachable := Machine.Reachable.init.moves hc
  have hwithin := (Machine.Config.Within.initial 0).moves (by rfl) hc
  obtain ⟨hfinished, hsettled⟩ := quiet_spec hreachable hwithin hquiet
  refine ⟨c, hreachable, hfinished, hsettled, acknowledged_spec hacknowledged, fun hconverged => ?_⟩
  have hobject : ((c.world.mem 0).objects[0]?).map (demoSeen c) =
      some ([("Reviewed", "blue")], [("Reviewed", "blue"), ("Blocked", "blue")]) := by
    rw [← List.getElem?_map, hobjects]
    rfl
  obtain ⟨sub, hsub, hseen⟩ := Option.map_eq_some_iff.mp hobject
  have hslot : (⟨0, "subscription", 0⟩ : Slot) ∈ (c.world.mem 0).subscriptions := by
    rw [hslots]
    exact List.mem_cons_self
  have hshown := (hconverged _ hslot sub hsub).2
  obtain ⟨hold, hnow⟩ := Prod.mk.inj hseen
  rw [hold, hnow] at hshown
  cases hshown

end PaseoGateway.WorkspaceLabels
