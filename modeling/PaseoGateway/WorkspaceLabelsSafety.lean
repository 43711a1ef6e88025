/-
  PaseoGateway/WorkspaceLabelsSafety.lean
  =======================================
  **The label catalog in every run of any number of gateways.**

  Every write of the catalog is one request's change applied to the catalog that was
  in place (`Kept`).  The compare-and-swap makes that true: the version read is still
  the current one when the write is accepted, so nothing was written in between.
  `LabelCatalog.lean` then carries the invariant from write to write
  (`Kept.catalogued`).

  A thread knows in addition whether it has written yet (`Unwritten`), which is what
  a request that throws has to answer for (`Excused`).
-/
import PaseoGateway.LabelCatalog
import PaseoGateway.RelyGuarantee

namespace PaseoGateway.WorkspaceLabels

open Async

variable {rt : Runtime} {t : Tid} {w w' : World sys} {since : History}

/-! ### The history -/

/-- The catalog in place; before the first write it is empty. -/
def current (tr : History) : CatalogState := ((lookup .catalog tr).map Prod.snd).getD {}

/-- `fn` is the change the message asks for. -/
def Requests (rt : Runtime) (principal : GatewayPrincipal) : Message → Change → Prop
  | .setAssignment _ workspaceId label assigned, fn =>
    ∃ workspace parsed, workspace.metadata.name = workspaceId ∧
      parseDefinition rt label = some parsed ∧
      fn = setAssignment principal workspace (workspace.metadata.uid.getD "") parsed assigned
  | .update _ name newName color, fn =>
    ∃ current next, parseName name = some current ∧
      (newName.map parseName).getD (parseName name) = some next ∧
      fn = updateLabel rt current next color
  | .delete _ name, fn => ∃ labelName, parseName name = some labelName ∧ fn = deleteLabel labelName
  | _, _ => False

theorem Requests.keeps {principal : GatewayPrincipal} {message : Message} {fn : Change}
    (h : Requests rt principal message fn) : KeepsCatalog rt fn := by
  cases message with
  | setAssignment requestId workspaceId label assigned =>
    obtain ⟨workspace, parsed, -, hparsed, rfl⟩ := h
    exact setAssignment_keeps principal workspace _ assigned (parseDefinition_parseDefinition hparsed)
  | update requestId name newName color =>
    obtain ⟨current, next, hcurrent, hnext, rfl⟩ := h
    apply updateLabel_keeps
    cases newName with
    | none =>
      rw [Option.map_none, Option.getD_none] at hnext
      exact parseName_parseName hnext
    | some new =>
      rw [Option.map_some, Option.getD_some] at hnext
      exact parseName_parseName hnext
  | delete requestId name =>
    obtain ⟨labelName, -, rfl⟩ := h
    exact deleteLabel_keeps labelName
  | release requestId subscriptionId => exact h.elim
  | list requestId subscribe generation => exact h.elim
  | inspect requestId name => exact h.elim
  | other label => exact h.elim

/-- The entry `e` stores the change of one request, applied to the catalog before it
    and to the workspaces there were at some moment since. -/
def Applies (rt : Runtime) (since : History) (principal : GatewayPrincipal) (message : Message)
    (result : Outcome) (older : History) (e : Entry Key (fun _ => CatalogState) Note) : Prop :=
  ∃ fn tr state, since <:+ tr ∧ tr <:+ older ∧ Requests rt principal message fn ∧
    e.puts .catalog = some state ∧
    evaluate rt fn (workspacesOf tr) (current older) = .ok (result, state)

theorem Applies.earlier {since since' older : History} {principal : GatewayPrincipal}
    {message : Message} {result : Outcome} {e : Entry Key (fun _ => CatalogState) Note}
    (h : Applies rt since principal message result older e) (hs : since' <:+ since) :
    Applies rt since' principal message result older e := by
  obtain ⟨fn, tr, state, hsince, hrest⟩ := h
  exact ⟨fn, tr, state, hs.trans hsince, hrest⟩

/-- Every write is the change of some request, and nothing is ever deleted. -/
def Kept (rt : Runtime) : History → Prop
  | [] => True
  | e :: older => Kept rt older ∧
      (e.key? = some .catalog → ∃ principal message result, Applies rt [] principal message result older e)

theorem Kept.catalogued {tr : History} (h : Kept rt tr) :
    (∀ n state, Stored tr n .catalog state → WellFormed state ∧ Canonical rt state ∧
        parseCatalog rt state = some state) ∧
      Consistent (current tr) ∧ Canonical rt (current tr) := by
  induction tr with
  | nil =>
    refine ⟨?_, consistent_empty, canonical_empty rt⟩
    rintro n state ⟨newer, e, older, htr, -, -⟩
    cases newer <;> cases htr
  | cons e older ih =>
    obtain ⟨hold, hwrite⟩ := h
    obtain ⟨hstored, hcons, hcanon⟩ := ih hold
    by_cases hkey : e.key? = some .catalog
    · obtain ⟨principal, message, result, fn, tr, state, -, -, hreq, hputs, heval⟩ := hwrite hkey
      have hnew := evaluate_keeps hreq.keeps hcons hcanon heval
      have hcurrent : current (e :: older) = state := by simp [current, lookup, hkey, hputs]
      rw [hcurrent]
      refine ⟨?_, hnew.1.toConsistent, hnew.2.1⟩
      intro n state' hs
      rcases hs.cons_cases with ⟨hputs', -⟩ | hs
      · rw [hputs] at hputs'
        cases hputs'
        exact hnew
      · exact hstored n state' hs
    · have hcurrent : current (e :: older) = current older := by
        simp only [current, lookup_cons_of_ne hkey]
      rw [hcurrent]
      refine ⟨?_, hcons, hcanon⟩
      intro n state' hs
      rcases hs.cons_cases with ⟨hputs', -⟩ | hs
      · exact absurd (Entry.key_of_puts hputs') hkey
      · exact hstored n state' hs

/-- Reading parses the catalog in place and gives it as it is. -/
theorem Kept.parse {tr : History} (h : Kept rt tr) :
    parseCatalog rt (current tr) = some (current tr) := by
  cases hlook : lookup .catalog tr with
  | none =>
    rw [current, hlook]
    rfl
  | some p =>
    have hcurrent : current tr = p.2 := by simp [current, hlook]
    rw [hcurrent]
    exact (h.catalogued.1 p.1 p.2 (lookup_stored hlook)).2.2

theorem Kept.notes {notes : List (Entry Key (fun _ => CatalogState) Note)} {tr : History}
    (h : Kept rt tr) (hnotes : ∀ e ∈ notes, e.key? = none) : Kept rt (notes ++ tr) := by
  induction notes with
  | nil => exact h
  | cons e notes ih =>
    refine ⟨ih fun e' he' => hnotes e' (List.mem_cons_of_mem e he'), ?_⟩
    intro hkey
    rw [hnotes e List.mem_cons_self] at hkey
    cases hkey

/-! ### What a thread answers for -/

/-- The thread has written nothing yet. -/
def Unwritten (t : Tid) (w : World sys) : Prop := ∀ e ∈ w.trace, e.author = some t → e.key? = none

/-- The change of the thread's request was written, applied to the catalog then in
    place. -/
def Wrote (rt : Runtime) (t : Tid) (since : History) (principal : GatewayPrincipal)
    (message : Message) (result : Outcome) (w : World sys) : Prop :=
  ∃ newer e older, w.trace = newer ++ e :: older ∧ e.author = some t ∧
    Applies rt since principal message result older e

/-- It was written, and the request answered with what the change returned. -/
def Answered (rt : Runtime) (t : Tid) (since : History) (principal : GatewayPrincipal)
    (message : Message) (emitter : Nat) (requestId : String) (w : World sys) : Prop :=
  ∃ result, Wrote rt t since principal message result w ∧
    .note (some t) (.reply emitter requestId (.outcome result)) ∈ w.trace

/-- Why a thread may have thrown: before its change was written, because the answer
    to the write was lost, or after its request was answered. -/
def Excused (t : Tid) (e : Err) (w : World sys) : Prop :=
  Unwritten t w ∨ e = .store .unavailable ∨
    ∃ emitter requestId result, .note (some t) (.reply emitter requestId (.outcome result)) ∈ w.trace

theorem Unwritten.grows (h : Unwritten t w) (hg : Grows t w w') : Unwritten t w' :=
  fun e he ha => h e ((hg.mem_own ha).mp he) ha

theorem Wrote.later {principal : GatewayPrincipal} {message : Message} {result : Outcome}
    (h : Wrote rt t since principal message result w) (hl : Later w w') :
    Wrote rt t since principal message result w' := by
  obtain ⟨newer, e, older, htr, ha, happ⟩ := h
  obtain ⟨new, hnew⟩ := hl.trace
  refine ⟨new ++ newer, e, older, ?_, ha, happ⟩
  rw [hnew, htr, List.append_assoc]

theorem Answered.later {principal : GatewayPrincipal} {message : Message} {emitter : Nat}
    {requestId : String} (h : Answered rt t since principal message emitter requestId w)
    (hl : Later w w') : Answered rt t since principal message emitter requestId w' := by
  obtain ⟨result, hwrote, hnote⟩ := h
  exact ⟨result, hwrote.later hl, hl.mem hnote⟩

theorem Excused.grows {e : Err} (h : Excused t e w) (hg : Grows t w w') : Excused t e w' := by
  rcases h with h | h | ⟨emitter, requestId, result, hnote⟩
  · exact .inl (h.grows hg)
  · exact .inr (.inl h)
  · exact .inr (.inr ⟨emitter, requestId, result, hg.later.mem hnote⟩)

theorem Answered.excused {principal : GatewayPrincipal} {message : Message} {emitter : Nat}
    {requestId : String} (h : Answered rt t since principal message emitter requestId w) (e : Err) :
    Excused t e w := by
  obtain ⟨result, -, hnote⟩ := h
  exact .inr (.inr ⟨emitter, requestId, result, hnote⟩)

/-! ### The protocol -/

def Message.requestId : Message → String
  | .release requestId _ => requestId
  | .list requestId _ _ => requestId
  | .setAssignment requestId _ _ _ => requestId
  | .update requestId _ _ _ => requestId
  | .delete requestId _ => requestId
  | .inspect requestId _ => requestId
  | .other _ => ""

/-- The messages that change the catalog. -/
def Message.changes : Message → Bool
  | .setAssignment _ _ _ _ => true
  | .update _ _ _ _ => true
  | .delete _ _ => true
  | _ => false

def Post (rt : Runtime) (t : Tid) (call : Call) (start : World sys) (out : Out) (w : World sys) :
    Prop :=
  match call, out with
  | .handle _ message principal emitter, .handled handled =>
    message.changes = true → handled = true ∧
      Answered rt t start.trace principal message emitter message.requestId w
  | .workspaceLabels workspace, .labels labels =>
    During start w fun tr => labels = labelsFor (current tr) workspace
  | .workspaceLabelsMany workspaces, .many labels =>
    During start w fun tr =>
      labels = workspaces.map fun x => (x.metadata.name, labelsFor (current tr) x)
  | _, _ => True

def protocol (rt : Runtime) : Protocol (machine rt) where
  inv := fun w => Kept rt w.trace
  post := Post rt
  err := fun t _ _ e w => Excused t e w

/-- The thread keeps the protocol and is excused when it throws. -/
abbrev Runs (rt : Runtime) (t : Tid) {α : Type} (p : sys.Task α) (Q : α → World sys → Prop)
    (w : World sys) : Prop :=
  Safe (protocol rt) t p Q (Excused t) w

theorem Runs.seq {α β : Type} {p : sys.Task α} {f : α → sys.Task β}
    {Q : α → World sys → Prop} {Q' : β → World sys → Prop} (h : Runs rt t p Q w)
    (hf : ∀ a w', Later w w' → Kept rt w'.trace → Q a w' → Runs rt t (f a) Q' w') :
    Runs rt t (p >>= f) Q' w :=
  Safe.seq h hf fun _ _ _ he => he

/-! ### Requests outside the store -/

/-- An answer leaves notes of the thread and nothing else. -/
theorem answered_quiet {c : Choice} {x : Ext} {a : Answer sys x} (ha : answer rt c t x w = some a) :
    a.forks = [] := by
  cases x <;> simp only [answer] at ha
  case «release» => split at ha <;> cases ha <;> rfl
  case listed =>
    split at ha
    · cases ha; rfl
    · split at ha <;> cases ha <;> rfl
  case next => split at ha <;> cases ha <;> rfl
  case deliver =>
    split at ha
    · cases ha
    · cases ha; rfl
  case stuck => cases ha
  all_goals cases ha; rfl

/-! ### Requests that write nothing -/

def ReadsOnly : Req sys → Prop
  | .store (.get _) => True
  | .store _ => False
  | .ext _ => True

/-- Such a request leaves notes of its thread and starts nothing. -/
theorem ReadsOnly.quiet {q : Req sys} (hq : ReadsOnly q) {pick : Pick (machine rt)} {r : q.Res}
    (h : (machine rt).perform t w pick q = some (r, w')) :
    (∃ notes : List Note, w'.trace = notes.map (.note (some t)) ++ w.trace) ∧
      w'.calls = w.calls := by
  cases pick with
  | store c =>
    cases q with
    | store q =>
      cases q with
      | get k =>
        simp only [Machine.perform, Option.some.injEq, Prod.mk.injEq] at h
        obtain ⟨-, rfl⟩ := h
        rcases hs : serve c (some t) (.get k) w.trace with ⟨r', tr⟩
        obtain ⟨rfl, -⟩ := serve_get hs
        exact ⟨⟨[], rfl⟩, rfl⟩
      | list sel => exact hq.elim
      | create k v => exact hq.elim
      | update k n v => exact hq.elim
      | delete k n => exact hq.elim
    | ext x => cases h
  | ext c =>
    cases q with
    | store q => cases h
    | ext x =>
      simp only [Machine.perform, Option.map_eq_some_iff, Prod.mk.injEq] at h
      obtain ⟨a, ha, -, rfl⟩ := h
      rw [answered_quiet ha, World.spawnAll_nil]
      exact ⟨⟨a.notes, rfl⟩, rfl⟩

theorem ReadsOnly.pays {q : Req sys} (hq : ReadsOnly q) (hi : Kept rt w.trace)
    {pick : Pick (machine rt)} {r : q.Res}
    (h : (machine rt).perform t w pick q = some (r, w')) : (protocol rt).Pays t w w' := by
  obtain ⟨⟨notes, htr⟩, hcalls⟩ := hq.quiet h
  refine ⟨?_, fun _ _ _ => trivial, ?_⟩
  · show Kept rt w'.trace
    rw [htr]
    apply Kept.notes hi
    intro e he
    obtain ⟨n, -, rfl⟩ := List.mem_map.mp he
    rfl
  · intro u s hnone hsome
    rw [hcalls, hnone] at hsome
    cases hsome

theorem ReadsOnly.unwritten {q : Req sys} (hq : ReadsOnly q) (hw : Unwritten t w)
    {pick : Pick (machine rt)} {r : q.Res}
    (h : (machine rt).perform t w pick q = some (r, w')) : Unwritten t w' := by
  obtain ⟨⟨notes, htr⟩, -⟩ := hq.quiet h
  intro e he ha
  rw [htr] at he
  rcases List.mem_append.mp he with hnote | hold
  · obtain ⟨n, -, rfl⟩ := List.mem_map.mp hnote
    rfl
  · exact hw e hold ha

/-- A program that writes nothing has written nothing when it ends. -/
theorem runs_readsOnly {α : Type} {p : sys.Task α} (hp : p.Only ReadsOnly) (h : Unwritten t w) :
    Runs rt t p (fun _ w' => Unwritten t w') w := by
  induction p generalizing w with
  | ret a => exact fun w' hr _ => h.grows hr.1
  | fail e => exact fun w' hr _ => .inl (h.grows hr.1)
  | call q k ih =>
    intro w' hr hi pick r w'' hperf
    exact ⟨hp.1.pays hi hperf, ih r (hp.2 r) (hp.1.unwritten (h.grows hr.1) hperf)⟩

theorem readsOnly_await {β : Type} {f : Option (Nat × CatalogState) → sys.Task β}
    (hf : ∀ r, (f r).Only ReadsOnly) : (await (S := sys) (.get .catalog) >>= f).Only ReadsOnly := by
  refine ⟨trivial, ?_⟩
  intro r
  cases r with
  | ok a => exact hf a
  | error e => trivial

theorem readsOnly_read : (read rt).Only ReadsOnly := by
  apply readsOnly_await
  intro record
  split
  · trivial
  · trivial

theorem readsOnly_workspaces : (askOr (S := sys) .workspaces rfl).Only ReadsOnly := by
  refine ⟨trivial, ?_⟩
  intro r
  change Except Err (List Workspace × Nat) at r
  cases r with
  | ok a => trivial
  | error e => trivial

theorem readsOnly_scope (principal : GatewayPrincipal) : (scope principal).Only ReadsOnly := by
  unfold scope
  apply Prog.Only.bind
  · exact readsOnly_workspaces
  · rintro ⟨workspaces, now⟩
    simp only
    split
    · trivial
    · trivial

theorem readsOnly_publishFrom (version : Nat) (state : CatalogState) (turns position : Nat) :
    (publishFrom version state turns position).Only ReadsOnly := by
  induction turns generalizing position with
  | zero => exact ⟨trivial, fun _ => trivial⟩
  | succ turns ih =>
    refine ⟨trivial, ?_⟩
    intro visit
    cases visit with
    | none => trivial
    | some visit =>
      apply Prog.Only.bind (readsOnly_scope visit.principal).attempt
      intro r
      cases r with
      | ok workspaces => exact ⟨trivial, fun _ => ih _⟩
      | error e => exact ⟨trivial, fun _ => ih _⟩

theorem readsOnly_publish (turns : Nat) : (publish rt turns).Only ReadsOnly := by
  apply Prog.Only.bind readsOnly_read
  rintro ⟨record, state⟩
  exact readsOnly_publishFrom (versionOf record) state turns 0

/-- The workspaces are those of some moment of the request. -/
theorem runs_workspaces (h : Unwritten t w) :
    Runs rt t (askOr (S := sys) .workspaces rfl) (fun r w' => Unwritten t w' ∧
      During w w' fun tr => r = (workspacesOf tr, clockOf tr)) w := by
  intro w1 hr1 hi1 pick r w2 hperf
  have hquiet := ReadsOnly.unwritten (q := .ext .workspaces) trivial (h.grows hr1.1) hperf
  have hl := Machine.perform_later hperf
  refine ⟨ReadsOnly.pays (q := .ext .workspaces) trivial hi1 hperf, ?_⟩
  cases pick with
  | store c => cases hperf
  | ext c =>
    simp only [Machine.perform, Option.map_eq_some_iff, Prod.mk.injEq] at hperf
    obtain ⟨a, ha, rfl, rfl⟩ := hperf
    cases ha
    by_cases hfails : c.fails = true
    · simp only [hfails, if_true]
      exact Safe.fail fun w3 hr3 _ => .inl (hquiet.grows hr3.1)
    · simp only [hfails]
      refine Safe.ret fun w3 hr3 _ => ⟨hquiet.grows hr3.1, ?_⟩
      have hnow : During w w1 fun tr =>
          (workspacesOf w1.trace, clockOf w1.trace) = (workspacesOf tr, clockOf tr) :=
        During.now hr1.1.later rfl
      exact hnow.later (hl.trans hr3.1.later)

/-- A read returns the catalog that was in place at some moment of it. -/
theorem runs_read (h : Unwritten t w) :
    Runs rt t (read rt) (fun r w' => Unwritten t w' ∧
      During w w' fun tr => r = (lookup .catalog tr, current tr)) w := by
  unfold read
  refine Safe.await_get (fun w1 hr1 hi1 => ?_) fun w1 hl => .inr (.inl rfl)
  have hparse : parseCatalog rt (((lookup .catalog w1.trace).map Prod.snd).getD {}) = _ :=
    Kept.parse hi1
  rw [hparse]
  refine Safe.ret fun w2 hr2 _ => ⟨h.grows (hr1.1.trans hr2.1), ?_⟩
  have hnow : During w w1 fun tr =>
      (lookup .catalog w1.trace, current w1.trace) = (lookup .catalog tr, current tr) :=
    During.now hr1.1.later rfl
  exact hnow.later hr2.1.later

/-- Publishing keeps what was answered before it. -/
theorem runs_publish {turns : Nat} {principal : GatewayPrincipal} {message : Message}
    {emitter : Nat} {requestId : String}
    (h : Answered rt t since principal message emitter requestId w) :
    Runs rt t (publish rt turns)
      (fun _ w' => Answered rt t since principal message emitter requestId w') w := by
  have hpays : ∀ q, ReadsOnly q → ∀ w, (protocol rt).inv w → ∀ pick r w',
      (machine rt).perform t w pick q = some (r, w') → (protocol rt).Pays t w w' :=
    fun q hq w hi pick r w' hp => hq.pays hi hp
  have hreads : (publish rt turns).Only ReadsOnly := readsOnly_publish turns
  have honly := Safe.of_only hpays hreads w
  apply Safe.mono (Safe.later honly)
  · exact fun _ w' hl => h.later hl.1
  · exact fun e w' hl => (h.later hl.1).excused e

/-! ### Changes -/

/-- How the write of one attempt may end. -/
def WriteEnds (rt : Runtime) (t : Tid) (since : History) (principal : GatewayPrincipal) (message : Message)
    (result : Outcome) : Except Err Nat → World sys → Prop
  | .ok _, w => Wrote rt t since principal message result w
  | .error e, w => Excused t e w ∧ (e = .store .conflict → Unwritten t w)

section Write

variable {principal : GatewayPrincipal} {message : Message} {result : Outcome}

theorem runs_refused (e : StoreErr) (h : Unwritten t w) :
    Runs rt t (.ret (.error (.store e))) (WriteEnds rt t since principal message result) w := by
  refine Safe.ret fun w' hr _ => ?_
  have hquiet := h.grows hr.1
  exact ⟨.inl hquiet, fun _ => hquiet⟩

theorem runs_lost :
    Runs rt t (.ret (.error (.store .unavailable))) (WriteEnds rt t since principal message result) w := by
  refine Safe.ret fun w' _ _ => ⟨.inr (.inl rfl), ?_⟩
  intro h
  cases h

theorem runs_written {e : Entry Key (fun _ => CatalogState) Note} (n : Nat)
    (ha : e.author = some t) (h : Applies rt since principal message result w.trace e) :
    Runs rt t (.ret (.ok n)) (WriteEnds rt t since principal message result) (w.push e) := by
  refine Safe.ret fun w' hr _ => ?_
  obtain ⟨newer, hnewer⟩ := hr.1.later.trace
  exact ⟨newer, e, w.trace, hnewer, ha, h⟩

theorem Applies.keeps {e : Entry Key (fun _ => CatalogState) Note} (hi : Kept rt w.trace)
    (h : Applies rt since principal message result w.trace e) :
    (protocol rt).Keeps t w (w.push e) :=
  ⟨⟨hi, fun _ => ⟨principal, message, result, h.earlier (List.nil_suffix)⟩⟩, fun _ _ _ => trivial⟩

/-- The write of one attempt, against the version it read. -/
theorem runs_write {fn : Change} {workspaces : List Workspace} {state read : CatalogState}
    {start : World sys} {record : Option (Nat × CatalogState)} {now : Nat}
    (hquiet : Unwritten t w)
    (hws : ∃ tr, since <:+ tr ∧ tr <:+ w.trace ∧ (workspaces, now) = (workspacesOf tr, clockOf tr))
    (hread : During start w fun tr => (record, read) = (lookup .catalog tr, current tr))
    (hreq : Requests rt principal message fn)
    (heval : evaluate rt fn workspaces read = .ok (result, state)) :
    Runs rt t (write record state).attempt (WriteEnds rt t since principal message result) w := by
  obtain ⟨seen, hsince, hseen, hlist⟩ := hws
  obtain ⟨tr, -, ⟨new, htr⟩, hpair⟩ := hread
  cases hlist
  cases hpair
  -- a write of `state` where the catalog read is still in place
  have happlies : ∀ {w1 : World sys} {e : Entry Key (fun _ => CatalogState) Note},
      Later w w1 → e.puts .catalog = some state → current w1.trace = current tr →
      Applies rt since principal message result w1.trace e :=
    fun hl hputs hsame =>
      ⟨fn, seen, state, hsince, hseen.trans hl.suffix, hreq, hputs, hsame ▸ heval⟩
  cases hlook : lookup .catalog tr with
  | none =>
    refine Safe.create fun w1 hr1 hi1 => ⟨?_, fun _ _ => runs_refused _ (hquiet.grows hr1.1),
      runs_refused _ (hquiet.grows hr1.1)⟩
    intro hnone
    have happ : Applies rt since principal message result w1.trace (.create (some t) .catalog state) := by
      apply happlies hr1.1.later (Entry.puts_create_self _ _ _)
      simp only [current, hnone, hlook]
    exact ⟨happ.keeps hi1, runs_written _ rfl happ, runs_lost⟩
  | some p =>
    obtain ⟨version, old⟩ := p
    refine Safe.update fun w1 hr1 hi1 => ⟨?_, fun e => runs_refused e (hquiet.grows hr1.1)⟩
    intro cur hcur
    -- the version read is current, so it still stores what was read
    have hstored : Stored w.trace version .catalog old := by
      rw [← htr]
      exact (lookup_stored hlook).mono new
    have hsame := (hr1.1.later.stored hstored).eq_of_lookup hcur
    have happ : Applies rt since principal message result w1.trace (.update (some t) .catalog state) := by
      apply happlies hr1.1.later (Entry.puts_update_self _ _ _)
      simp only [current, hcur, hlook, hsame]
    exact ⟨happ.keeps hi1, runs_written _ rfl happ, runs_lost⟩

theorem runs_changeAttempts {fn : Change} (attempts : Nat) (h : Unwritten t w)
    (hsince : since <:+ w.trace) (hreq : Requests rt principal message fn) :
    Runs rt t (changeAttempts rt principal fn attempts)
      (fun result w' => Wrote rt t since principal message result w') w := by
  induction attempts generalizing w with
  | zero => exact Safe.fail fun w' hr _ => .inl (h.grows hr.1)
  | succ attempts ih =>
    unfold changeAttempts
    apply Runs.seq (runs_workspaces h)
    rintro ⟨workspaces, now⟩ w1 _ _ ⟨h1, tr, hfrom, hto, hlist⟩
    simp only
    split
    · exact Safe.fail fun w2 hr _ => .inl (h1.grows hr.1)
    apply Runs.seq (runs_read h1)
    rintro ⟨record, state⟩ w2 hl2 _ ⟨h2, hread⟩
    have hws : ∃ tr, since <:+ tr ∧ tr <:+ w2.trace ∧
        (workspaces, now) = (workspacesOf tr, clockOf tr) :=
      ⟨tr, hsince.trans hfrom, hto.trans hl2.suffix, hlist⟩
    cases heval : evaluate rt fn workspaces state with
    | error e =>
      simp only
      exact Safe.fail fun w3 hr _ => .inl (h2.grows hr.1)
    | ok out =>
      obtain ⟨result, state'⟩ := out
      simp only
      apply Runs.seq (runs_write h2 hws hread hreq heval)
      intro r w3 hl3 _ hends
      cases r with
      | ok n => exact Safe.ret fun w4 hr _ => Wrote.later hends hr.1.later
      | error e =>
        simp only
        obtain ⟨hexcused, hconflict⟩ := hends
        by_cases hretry : e ≠ .store .conflict ∨ attempts = 0
        · rw [if_pos hretry]
          exact Safe.fail fun w4 hr _ => hexcused.grows hr.1
        · rw [if_neg hretry]
          push Not at hretry
          have hl := hws.elim fun _ h => (h.1.trans h.2.1).trans hl3.suffix
          exact ih (hconflict hretry.1) hl

theorem runs_reply {emitter : Nat} {requestId : String}
    (h : Wrote rt t since principal message result w) :
    Runs rt t (ask (S := sys) (.reply emitter requestId (.outcome result)))
      (fun _ w' => Answered rt t since principal message emitter requestId w') w := by
  intro w1 hr hi pick r w2 hperf
  have hpays := ReadsOnly.pays (q := .ext (.reply emitter requestId (.outcome result))) trivial
    hi hperf
  refine ⟨hpays, Safe.ret fun w3 hr3 _ => ?_⟩
  have hl := hr.1.later.trans (Machine.perform_later hperf)
  have hnote : .note (some t) (.reply emitter requestId (.outcome result)) ∈ w2.trace := by
    cases pick with
    | store c => cases hperf
    | ext c =>
      cases hperf
      exact List.mem_cons_self
  exact Answered.later ⟨result, h.later hl, hnote⟩ hr3.1.later

theorem runs_changeAndPublish {fn : Change} {turns emitter : Nat} {requestId : String}
    (h : Unwritten t w) (hsince : since <:+ w.trace) (hreq : Requests rt principal message fn) :
    Runs rt t (changeAndPublish rt turns principal emitter requestId fn)
      (fun handled w' => handled = true ∧
        Answered rt t since principal message emitter requestId w') w := by
  unfold changeAndPublish change
  apply Runs.seq (runs_changeAttempts 5 h hsince hreq)
  intro result w1 _ _ hwrote
  apply Runs.seq (runs_reply hwrote)
  intro _ w2 _ _ hanswered
  apply Runs.seq (runs_publish hanswered)
  intro _ w3 _ _ hanswered'
  exact Safe.ret fun w4 hr _ => ⟨rfl, hanswered'.later hr.1.later⟩

end Write

/-! ### Requests -/

section Handle

variable {turns emitter : Nat} {principal : GatewayPrincipal}

/-- What a handled message ends with. -/
def Handled (rt : Runtime) (t : Tid) (since : History) (message : Message) (principal : GatewayPrincipal)
    (emitter : Nat) (handled : Bool) (w : World sys) : Prop :=
  message.changes = true →
    handled = true ∧ Answered rt t since principal message emitter message.requestId w

theorem runs_throw {α : Type} {Q : α → World sys → Prop} (e : Err) (h : Unwritten t w) :
    Runs rt t (.fail e) Q w := Safe.fail fun _ hr _ => .inl (h.grows hr.1)

theorem readsOnly_ownerOnly {request : sys.Task Bool} (h : request.Only ReadsOnly) :
    (ownerOnly principal request).Only ReadsOnly := by
  unfold ownerOnly
  split
  · trivial
  · exact h

theorem runs_ownerOnly {request : sys.Task Bool} {Q : Bool → World sys → Prop}
    (hw : Unwritten t w) (h : Runs rt t request Q w) :
    Runs rt t (ownerOnly principal request) Q w := by
  unfold ownerOnly
  split
  · exact runs_throw _ hw
  · exact h

theorem runs_handle (message : Message) (h : Unwritten t w) (hsince : since <:+ w.trace) :
    Runs rt t (handle rt turns message principal emitter)
      (Handled rt t since message principal emitter) w := by
  -- a message that changes nothing only has to be excused
  have hreads : ∀ {p : sys.Task Bool}, message.changes = false → p.Only ReadsOnly →
      Runs rt t p (Handled rt t since message principal emitter) w := by
    intro p hchanges hp
    apply Safe.mono (runs_readsOnly hp h)
    · intro handled w' _ hc
      rw [hchanges] at hc
      cases hc
    · exact fun _ _ he => he
  have hchange : ∀ {fn : Change} {w' : World sys}, Unwritten t w' → Later w w' →
      Requests rt principal message fn →
      Runs rt t (changeAndPublish rt turns principal emitter message.requestId fn)
        (Handled rt t since message principal emitter) w' :=
    fun hw hl hreq => Safe.mono (runs_changeAndPublish hw (hsince.trans hl.suffix) hreq) (fun _ _ ha _ => ha)
      fun _ _ he => he
  cases message with
  | release requestId subscriptionId => exact hreads rfl ⟨trivial, fun _ => trivial⟩
  | other label =>
    cases label with
    | false => exact hreads rfl trivial
    | true =>
      apply hreads rfl
      apply Prog.Only.bind (readsOnly_scope principal)
      exact fun _ => readsOnly_ownerOnly trivial
  | list requestId subscribe generation =>
    apply hreads rfl
    apply Prog.Only.bind (readsOnly_scope principal)
    intro workspaces
    apply Prog.Only.bind readsOnly_read
    rintro ⟨record, state⟩
    refine ⟨trivial, ?_⟩
    intro r
    change Except Err Unit at r
    cases r with
    | ok a => trivial
    | error e => trivial
  | inspect requestId name =>
    apply hreads rfl
    apply Prog.Only.bind (readsOnly_scope principal)
    intro _
    apply readsOnly_ownerOnly
    split
    · apply Prog.Only.bind readsOnly_read
      rintro ⟨record, state⟩
      exact ⟨trivial, fun _ => trivial⟩
    · trivial
  | setAssignment requestId workspaceId label assigned =>
    apply Runs.seq (runs_readsOnly (readsOnly_scope principal) h)
    intro workspaces w1 hl1 _ h1
    unfold handleSetAssignment
    split
    · exact runs_throw _ h1
    rename_i workspace hfind
    simp only
    split
    · exact runs_throw _ h1
    split
    · exact runs_throw _ h1
    rename_i parsed hparsed
    have hname := List.find?_some hfind
    exact hchange h1 hl1 ⟨workspace, parsed, beq_iff_eq.mp hname, hparsed, rfl⟩
  | update requestId name newName color =>
    apply Runs.seq (runs_readsOnly (readsOnly_scope principal) h)
    intro _ w1 hl1 _ h1
    apply runs_ownerOnly h1
    split
    · rename_i current next hcurrent hnext
      exact hchange h1 hl1 ⟨current, next, hcurrent, hnext, rfl⟩
    · exact runs_throw _ h1
  | delete requestId name =>
    apply Runs.seq (runs_readsOnly (readsOnly_scope principal) h)
    intro _ w1 hl1 _ h1
    apply runs_ownerOnly h1
    split
    · rename_i labelName hname
      exact hchange h1 hl1 ⟨labelName, hname, rfl⟩
    · exact runs_throw _ h1

end Handle

/-! ### Every run -/

theorem sound (rt : Runtime) : (protocol rt).Sound where
  init := trivial
  start := fun hi _ => ⟨hi, fun _ _ => trivial, trivial⟩
  crash := fun _ hi => ⟨hi, fun _ _ => trivial⟩
  env := by
    intro w e new g hi henv
    have hnotes : ∀ x ∈ new, x.key? = none := by
      intro x hx
      cases e with
      | workspaces workspaces =>
        cases henv
        obtain rfl := List.mem_singleton.mp hx
        rfl
      | clock nowSeconds =>
        change (if _ then _ else _) = _ at henv
        split at henv
        · cases henv
          obtain rfl := List.mem_singleton.mp hx
          rfl
        · cases henv
    exact ⟨Kept.notes hi hnotes, fun _ => trivial⟩
  body := by
    intro w t c _ _ _ _ hfresh
    have hquiet : Unwritten t w := fun e he ha => absurd ha (hfresh e he)
    change Runs rt t (program rt c) (fun out w' => Post rt t c w out w') w
    cases c with
    | handle turns message principal emitter =>
      apply Runs.seq (runs_handle message hquiet (List.suffix_refl w.trace))
      intro handled w1 _ _ hhandled
      refine Safe.ret fun w2 hr _ hchanges => ?_
      obtain ⟨htrue, hanswered⟩ := hhandled hchanges
      exact ⟨htrue, hanswered.later hr.1.later⟩
    | releaseEmitter emitter =>
      have honly : (ask (S := sys) (.releaseEmitter emitter)).Only ReadsOnly :=
        ⟨trivial, fun _ => trivial⟩
      apply Runs.seq (runs_readsOnly honly hquiet)
      intro _ w1 _ _ _
      exact Safe.ret fun _ _ _ => trivial
    | workspaceLabels workspace =>
      have hread : Runs rt t (workspaceLabels rt workspace) (fun labels w' =>
          During w w' fun tr => labels = labelsFor (current tr) workspace) w := by
        apply Runs.seq (runs_read hquiet)
        rintro ⟨record, state⟩ w1 _ _ ⟨_, tr, hfrom, hto, hpair⟩
        cases hpair
        exact Safe.ret fun w2 hr _ => ⟨tr, hfrom, hto.trans hr.1.later.suffix, rfl⟩
      apply Runs.seq hread
      intro labels w1 _ _ hlabels
      exact Safe.ret fun w2 hr _ => hlabels.later hr.1.later
    | workspaceLabelsMany workspaces =>
      have hread : Runs rt t (workspaceLabelsMany rt workspaces) (fun labels w' =>
          During w w' fun tr =>
            labels = workspaces.map fun x => (x.metadata.name, labelsFor (current tr) x)) w := by
        unfold workspaceLabelsMany
        split
        · rename_i hempty
          rw [List.isEmpty_iff] at hempty
          subst hempty
          exact Safe.ret fun w1 hr _ => .now hr.1.later rfl
        · apply Runs.seq (runs_read hquiet)
          rintro ⟨record, state⟩ w1 _ _ ⟨_, tr, hfrom, hto, hpair⟩
          cases hpair
          exact Safe.ret fun w2 hr _ => ⟨tr, hfrom, hto.trans hr.1.later.suffix, rfl⟩
      apply Runs.seq hread
      intro labels w1 _ _ hlabels
      exact Safe.ret fun w2 hr _ => hlabels.later hr.1.later

/-- The labels were assigned to the name and UID of the workspace. -/
def AssignedTo (state : CatalogState) (workspace : Workspace) (labels : List String) : Prop :=
  ∀ l ∈ labels, ∃ row ∈ state.assignments, row.workspaceId = workspace.metadata.name ∧
    some row.workspaceUid = workspace.metadata.uid ∧ l ∈ row.labels

/-- What holds of the label catalog in a reachable configuration. -/
structure CatalogKept (rt : Runtime) (c : (machine rt).Config) : Prop where
  wellFormed : ∀ n state, Stored c.world.trace n .catalog state → WellFormed state
  /-- every write is a request's change, applied to the catalog just before it -/
  applied : ∀ newer e older, c.world.trace = newer ++ e :: older → e.key? = some .catalog →
    ∃ principal message result, Applies rt [] principal message result older e
  /-- so is the change of every request that succeeds, and it is what is replied -/
  answered : ∀ u th turns message principal emitter handled, c.threads u = some th →
    th.call = .handle turns message principal emitter → message.changes = true →
    th.prog = .ret (.handled handled) →
    Answered rt u th.start.trace principal message emitter message.requestId c.world
  /-- a request that throws wrote nothing, unless the answer to its write was lost or
      it throws after its reply -/
  threw : ∀ u th e, c.threads u = some th → th.prog = .fail e → Excused u e c.world
  read : ∀ u th workspace labels, c.threads u = some th → th.call = .workspaceLabels workspace →
    th.prog = .ret (.labels labels) →
    During th.start c.world fun tr =>
      labels = labelsFor (current tr) workspace ∧ AssignedTo (current tr) workspace labels
  /-- one version of the catalog serves a whole directory read -/
  readMany : ∀ u th workspaces rows, c.threads u = some th →
    th.call = .workspaceLabelsMany workspaces → th.prog = .ret (.many rows) →
    During th.start c.world fun tr =>
      rows = workspaces.map (fun x => (x.metadata.name, labelsFor (current tr) x)) ∧
        ∀ x ∈ workspaces, AssignedTo (current tr) x (labelsFor (current tr) x)

theorem Kept.applied {tr : History} (h : Kept rt tr) :
    ∀ newer e older, tr = newer ++ e :: older → e.key? = some .catalog →
      ∃ principal message result, Applies rt [] principal message result older e := by
  intro newer
  induction newer generalizing tr with
  | nil =>
    rintro e older rfl hkey
    exact h.2 hkey
  | cons e' newer ih =>
    rintro e older rfl hkey
    exact ih h.1 e older rfl hkey

theorem catalog_kept (rt : Runtime) (c : (machine rt).Config) (h : (machine rt).Reachable c) :
    CatalogKept rt c := by
  have hholds := (sound rt).reachable h
  have hkept : Kept rt c.world.trace := hholds.inv
  constructor
  · exact fun n state hs => (hkept.catalogued.1 n state hs).1
  · exact hkept.applied
  · intro u th turns message principal emitter handled hth hcall hchanges hret
    have hpost : Post rt u th.call th.start (.handled handled) c.world :=
      hholds.returned hth hret
    rw [hcall] at hpost
    exact (hpost hchanges).2
  · exact fun u th e hth hfail => hholds.threw hth hfail
  · intro u th workspace labels hth hcall hret
    have hpost : Post rt u th.call th.start (.labels labels) c.world := hholds.returned hth hret
    rw [hcall] at hpost
    obtain ⟨tr, hfrom, hto, hlabels⟩ := hpost
    refine ⟨tr, hfrom, hto, hlabels, ?_⟩
    rw [hlabels]
    exact fun l hl => mem_labelsFor hl
  · intro u th workspaces rows hth hcall hret
    have hpost : Post rt u th.call th.start (.many rows) c.world := hholds.returned hth hret
    rw [hcall] at hpost
    obtain ⟨tr, hfrom, hto, hrows⟩ := hpost
    exact ⟨tr, hfrom, hto, hrows, fun x _ l hl => mem_labelsFor hl⟩

/-! ### Two gateways set a label at once -/

def demoRuntime : Runtime where
  color := fun _ => true
  jsonBytes := fun _ => 0
  directoryId := fun _ => "directory"

def demoWorkspace : Workspace where
  metadata := { name := "ws", uid := some "uid" }
  spec := { projectRef := "p", displayName := "d", credentialProfile := "c" }

def demoAsk (t : Tid) : (machine demoRuntime).Move := .run t (.ext {})

def demoStore (t : Tid) : (machine demoRuntime).Move := .run t (.store {})

def demoSet (name : String) : Call :=
  .handle 1 (.setAssignment "request" "ws" ⟨name, "blue"⟩ true) .owner 0

/-- Both read the empty catalog; the second write is refused and tried again. -/
def demoRun : List (machine demoRuntime).Move :=
  let first : Tid := ⟨0, 0⟩
  let second : Tid := ⟨1, 1⟩
  [.env (.workspaces [demoWorkspace]), .start 0 (demoSet "Reviewed"), .start 1 (demoSet "Blocked"),
    demoAsk first, demoAsk second, demoAsk first, demoStore first, demoAsk second,
    demoStore second, demoStore first, demoStore second,
    demoAsk second, demoStore second, demoStore second,
    demoAsk first, demoStore first, demoAsk first,
    demoAsk second, demoStore second, demoAsk second]

theorem catalog_kept_demo : ∃ c : (machine demoRuntime).Config,
    (machine demoRuntime).initial.moves demoRun = some c ∧
      current c.world.trace = { labels := [⟨"Reviewed", "blue"⟩, ⟨"Blocked", "blue"⟩],
                                assignments := [⟨"ws", "uid", ["Reviewed", "Blocked"]⟩] } ∧
      CatalogKept demoRuntime c := by
  have hrun : ((machine demoRuntime).initial.moves demoRun).bind
      (fun c => some (current c.world.trace)) =
        some { labels := [⟨"Reviewed", "blue"⟩, ⟨"Blocked", "blue"⟩],
               assignments := [⟨"ws", "uid", ["Reviewed", "Blocked"]⟩] } := by rfl
  obtain ⟨c, hc, hcurrent⟩ := Option.bind_eq_some_iff.mp hrun
  exact ⟨c, hc, Option.some.inj hcurrent, catalog_kept demoRuntime c (Machine.Reachable.init.moves hc)⟩

end PaseoGateway.WorkspaceLabels
