/-
  PaseoGateway/SessionResults.lean
  ================================
  **What a session keeps, and the runs in which it does not.**

  Three results about every reachable configuration, each under the condition its
  log has to meet:

  * `one_connection`: an established connection that is not retired is the one
    the map has under its name;
  * `frames_fenced`: a client frame reaches the backend its slot was issued for;
  * `directory_converges`: after a pass on an unchanged cluster the client sees
    the directory.

  Each comes with a run that does not meet the condition: two requests that both
  found a replaced connection, of which the slower one deletes its successor; a
  slot that outlives its workspace; a workspace that is archived before any pass
  has told the client of it.
-/
import PaseoGateway.SessionSafety

namespace PaseoGateway.Session

open Async

variable {options : Nat → SessionOptions}

/-! ### Connections -/

/-- Each established connection that is not retired is stored under its name. -/
structure OneConnection (m : Mem) : Prop where
  stored : ∀ (e : Nat) (c : Connection), m.entries[e]? = some c → c.state = .live →
    m.connections.get c.name = some e
  unique : ∀ (e e' : Nat) (c c' : Connection), m.entries[e]? = some c → m.entries[e']? = some c' →
    c.state = .live → c'.state = .live → c.name = c'.name → e = e'

theorem one_connection {c : (machine options).Config} (hc : (machine options).Reachable c)
    (p : Nat) (horder : (c.world.mem p).InOrder) : OneConnection (c.world.mem p) := by
  have hok := ok_of_reachable hc p
  have hstored : ∀ (e : Nat) (conn : Connection), (c.world.mem p).entries[e]? = some conn →
      conn.state = .live → (c.world.mem p).connections.get conn.name = some e :=
    fun e conn he hlive => hok.connected.stored horder e conn he (.inr hlive)
  constructor
  · exact hstored
  · intro e e' conn conn' he he' hlive hlive' hname
    have hs := hstored e conn he hlive
    rw [hname, hstored e' conn' he' hlive'] at hs
    exact (Option.some.inj hs).symm

/-! ### Runs of one session -/

abbrev demoMachine : Machine sys := machine fun _ => {}

def demoWorkspace (uid : String) (residency : Residency) (phase : Phase) : Workspace where
  metadata := { name := "w", uid := some uid }
  spec := { projectRef := "p", displayName := "w", residency, credentialProfile := "c" }
  status := some { phase, message := "", observedGeneration := 1 }

def demoReady (uid : String) : Workspace := demoWorkspace uid .Running .Ready

def demoCluster (workspace : Workspace) : demoMachine.Move :=
  .env (.cluster { projects := [{ name := "p", credentialProfile := "c" }], workspaces := [workspace] })

def demoGo (idx : Nat) : demoMachine.Move := .run ⟨0, idx⟩ (.ext .go)

/-- The store answers both reads of the thread. -/
def demoRecords (idx : Nat) : List demoMachine.Move :=
  [.run ⟨0, idx⟩ (.ext (.first true)), demoGo idx, demoGo idx]

/-- A backend opens in the thread of its promise. -/
def demoOpening (idx : Nat) : List demoMachine.Move :=
  [demoGo idx, .run ⟨0, idx⟩ (.ext (.opened { id := "local", status := "done" })),
    .run ⟨0, idx⟩ (.ext (.rows []))]

/-- A request that connects; its call has this number and the promise the next. -/
def demoConnect (uid : String) (idx : Nat) : List demoMachine.Move :=
  [.start 0 (.connection (demoReady uid)), demoGo idx] ++ demoOpening (idx + 1) ++ [demoGo idx]

/-- The states of the entries and what the map has. -/
def demoConnections (c : demoMachine.Config) : List ConnectionState × Option Nat :=
  ((c.world.mem 0).entries.map Connection.state, (c.world.mem 0).connections.get "w")

/-- A connection to the first workspace, retired by a request for its successor, and one to
    the successor. -/
def demoReplaced : List demoMachine.Move :=
  demoConnect "u1" 0 ++ [.start 0 (.connection (demoReady "u2")), demoGo 2, demoGo 2, demoGo 2] ++
    demoConnect "u2" 3

theorem one_connection_demo : ∃ c : demoMachine.Config,
    demoMachine.initial.moves demoReplaced = some c ∧
      demoConnections c = ([.retired, .live], some 1) ∧ OneConnection (c.world.mem 0) := by
  have hrun : (demoMachine.initial.moves demoReplaced).map
      (fun c => (demoConnections c, (c.world.mem 0).connectionLog)) =
        some (([.retired, .live], some 1), [.deleted 0 (some 0)]) := by rfl
  obtain ⟨c, hc, hpair⟩ := Option.map_eq_some_iff.mp hrun
  obtain ⟨hconnections, hlog⟩ := Prod.mk.inj hpair
  refine ⟨c, hc, hconnections, one_connection (Machine.Reachable.init.moves hc) 0 ?_⟩
  intro event hevent
  rw [hlog, List.mem_singleton] at hevent
  subst hevent
  exact .inr rfl

/-- Two requests for the successor both wait for the old backend to close.  The first to go
    on deletes the old entry, a third request connects, and the second deletes that. -/
def demoOrphaned : List demoMachine.Move :=
  demoConnect "u1" 0 ++
    [.start 0 (.connection (demoReady "u2")), .start 0 (.connection (demoReady "u2")),
      demoGo 2, demoGo 3, demoGo 2, demoGo 3, demoGo 2] ++
    demoConnect "u2" 4 ++ [demoGo 3] ++ demoConnect "u2" 6

theorem orphaned_connection : ∃ c : demoMachine.Config, demoMachine.Reachable c ∧
    ¬ OneConnection (c.world.mem 0) := by
  have hrun : (demoMachine.initial.moves demoOrphaned).map
      (fun c => ((c.world.mem 0).entries.map fun e => (e.state, e.name))) =
        some [(.retired, "w"), (.live, "w"), (.live, "w")] := by rfl
  obtain ⟨c, hc, hentries⟩ := Option.map_eq_some_iff.mp hrun
  refine ⟨c, Machine.Reachable.init.moves hc, fun hone => ?_⟩
  have hget : ∀ (e : Nat) s, [((ConnectionState.retired : ConnectionState), "w"), (.live, "w"),
      (.live, "w")][e]? = some s → ∃ conn : Connection, (c.world.mem 0).entries[e]? = some conn ∧
        (conn.state, conn.name) = s := by
    intro e s hs
    rw [← hentries, List.getElem?_map] at hs
    exact Option.map_eq_some_iff.mp hs
  obtain ⟨first, hfirst, hfst⟩ := hget 1 _ rfl
  obtain ⟨second, hsecond, hsnd⟩ := hget 2 _ rfl
  obtain ⟨hlive, hname⟩ := Prod.mk.inj hfst
  obtain ⟨hlive', hname'⟩ := Prod.mk.inj hsnd
  have hsame := hone.unique 1 2 first second hfirst hsecond hlive hlive'
    (hname.trans hname'.symm)
  cases hsame

/-! ### Terminal slots -/

/-- A slot stands for one backend slot of one workspace uid, each of these has one slot, and
    every client frame delivered was delivered where its slot was issued for, with the record
    read for it naming that uid, running and ready; every other frame is rejected. -/
structure FramesFenced (log : List TerminalEvent) : Prop where
  apart : ∀ slot binding binding' uid uid', .issued slot binding uid ∈ log →
    .issued slot binding' uid' ∈ log → binding = binding' ∧ uid = uid'
  single : ∀ slot slot' binding uid, .issued slot binding uid ∈ log →
    .issued slot' binding uid ∈ log → slot = slot'
  routed : ∀ newer slot backendSlot uid current older,
    log = newer ++ .delivered slot backendSlot uid current :: older →
      ∃ name, .issued slot ⟨name, backendSlot⟩ uid ∈ older ∧
        ∃ workspace, current = some workspace ∧ workspace.metadata.name = name ∧
          workspace.metadata.uid = uid ∧ available workspace = true

theorem frames_fenced {c : (machine options).Config} (hc : (machine options).Reachable c)
    (p : Nat) (hsteady : Along Steady (c.world.mem p).terminalLog) :
    FramesFenced (c.world.mem p).terminalLog := by
  have hok := (ok_of_reachable hc p).slotted
  constructor
  · intro slot binding binding' uid uid' hissued hissued'
    have hbound := (hok.bound slot binding).mpr ⟨uid, hissued⟩
    rw [(hok.bound slot binding').mpr ⟨uid', hissued'⟩, Option.some.injEq] at hbound
    subst hbound
    have hlast := lastOpened_of_issued hsteady hissued
    rw [lastOpened_of_issued hsteady hissued', Option.some.injEq] at hlast
    exact ⟨rfl, hlast.symm⟩
  · intro slot slot' binding uid hissued hissued'
    exact hok.distinct slot slot' binding ((hok.bound slot binding).mpr ⟨uid, hissued⟩)
      ((hok.bound slot' binding).mpr ⟨uid, hissued'⟩)
  · intro newer slot backendSlot uid current older hlog
    have hfenced := hok.fenced hsteady
    rw [hlog] at hfenced
    exact hfenced.split

/-- A terminal frame of the client in a thread of its own. -/
def demoFrame (idx : Nat) : List demoMachine.Move :=
  [.start 0 (.binary 0)] ++ demoRecords idx ++ [demoGo idx, demoGo idx]

/-- The backend of the first workspace emits output, and the client answers; the frame it sends
    after the workspace was replaced is rejected. -/
def demoTyping : List demoMachine.Move :=
  [demoCluster (demoReady "u1")] ++ demoConnect "u1" 0 ++ [.start 0 (.onBinary 0 7), demoGo 2] ++
    demoFrame 3 ++ [demoCluster (demoReady "u2")] ++ demoFrame 4

theorem frames_fenced_demo : ∃ c : demoMachine.Config,
    demoMachine.initial.moves demoTyping = some c ∧
      (c.world.mem 0).terminalLog = [.delivered 0 7 (some "u1") (some (demoReady "u1")),
        .issued 0 ⟨"w", 7⟩ (some "u1"), .opened "w" (some "u1")] ∧
      FramesFenced (c.world.mem 0).terminalLog := by
  have hrun : (demoMachine.initial.moves demoTyping).map (fun c => (c.world.mem 0).terminalLog) =
      some [.delivered 0 7 (some "u1") (some (demoReady "u1")), .issued 0 ⟨"w", 7⟩ (some "u1"),
        .opened "w" (some "u1")] := by rfl
  obtain ⟨c, hc, hlog⟩ := Option.map_eq_some_iff.mp hrun
  refine ⟨c, hc, hlog, frames_fenced (Machine.Reachable.init.moves hc) 0 ?_⟩
  rw [hlog]
  simp [Along, Steady, lastOpened]

/-- The same slot after the workspace was replaced and the session has reconnected. -/
def demoCrossed : List demoMachine.Move :=
  demoConnect "u1" 0 ++ [.start 0 (.onBinary 0 7), demoGo 2, demoCluster (demoReady "u2"),
    .start 0 (.connection (demoReady "u2")), demoGo 3, demoGo 3, demoGo 3] ++
    demoConnect "u2" 4 ++ demoFrame 6

theorem crossed_slot : ∃ c : demoMachine.Config, demoMachine.Reachable c ∧
    ¬ FramesFenced (c.world.mem 0).terminalLog := by
  have hrun : (demoMachine.initial.moves demoCrossed).map (fun c => (c.world.mem 0).terminalLog) =
      some [.delivered 0 7 (some "u2") (some (demoReady "u2")), .opened "w" (some "u2"),
        .issued 0 ⟨"w", 7⟩ (some "u1"), .opened "w" (some "u1")] := by rfl
  obtain ⟨c, hc, hlog⟩ := Option.map_eq_some_iff.mp hrun
  refine ⟨c, Machine.Reachable.init.moves hc, fun hfenced => ?_⟩
  obtain ⟨name, hissued, -⟩ := hfenced.routed [] 0 7 (some "u2") _ _ hlog
  simp at hissued

/-! ### The directory -/

/-- After every successful pass on an unchanged cluster the client saw the directory. -/
def DirectoryConverges (log : List DirectoryEvent) : Prop :=
  ∀ newer projections listed removed directory older,
    log = newer ++ .refreshed projections listed removed directory true :: older →
      ∀ id, view id (.refreshed projections listed removed directory true :: older) =
        directory.find? (·.id = id)

theorem directory_converges {c : (machine options).Config} (hc : (machine options).Reachable c)
    (p : Nat) (hagreed : Along Agreed (c.world.mem p).directoryLog) :
    DirectoryConverges (c.world.mem p).directoryLog := by
  intro newer projections listed removed directory older hlog
  have hconverged := (ok_of_reachable hc p).directed.converged hagreed
  rw [hlog] at hconverged
  exact hconverged.split rfl

def demoSuspended : Workspace := demoWorkspace "u1" .Suspended .Suspended

def demoArchived : Workspace := demoWorkspace "u1" .Archived .Archived

/-- A subscribing snapshot of the directory with one suspended workspace. -/
def demoSubscribe (idx : Nat) : List demoMachine.Move :=
  [.start 0 (.fetchWorkspaces true)] ++ demoRecords idx ++
    [demoGo idx, demoGo idx, demoGo idx, demoGo idx, demoGo idx]

/-- A pass over a directory with that workspace, or with none. -/
def demoPass (idx turns : Nat) : List demoMachine.Move :=
  [.start 0 (.refreshDirectory 1), demoGo idx] ++ demoRecords idx ++
    List.replicate turns (demoGo idx)

def demoRow : WorkspaceDescriptor :=
  workspaceDescriptor demoSuspended { name := "p", credentialProfile := "c" } none []

/-- The workspace is archived after a pass has told the client of it. -/
def demoConverged : List demoMachine.Move :=
  [demoCluster demoSuspended] ++ demoSubscribe 0 ++ demoPass 1 5 ++ [demoCluster demoArchived] ++
    demoPass 2 3

theorem directory_converges_demo : ∃ c : demoMachine.Config,
    demoMachine.initial.moves demoConverged = some c ∧
      (c.world.mem 0).directoryLog = [.refreshed ["w"] [] ["w"] [] true, .runtime "w" none none,
        .began, .refreshed ["w"] ["w"] [] [demoRow] true, .projected none demoRow none true,
        .began, .snapshot [demoRow] [demoRow]] ∧
      DirectoryConverges (c.world.mem 0).directoryLog := by
  have hrun : (demoMachine.initial.moves demoConverged).map
      (fun c => (c.world.mem 0).directoryLog) = some [.refreshed ["w"] [] ["w"] [] true,
        .runtime "w" none none, .began, .refreshed ["w"] ["w"] [] [demoRow] true,
        .projected none demoRow none true, .began, .snapshot [demoRow] [demoRow]] := by
    rfl
  obtain ⟨c, hc, hlog⟩ := Option.map_eq_some_iff.mp hrun
  refine ⟨c, hc, hlog, directory_converges (Machine.Reachable.init.moves hc) 0 ?_⟩
  have hid : demoRow.id = "w" := rfl
  rw [hlog]
  simp [Along, Agreed, expected, visited, hid]
  -- at the end of either pass the client is to see this workspace and no other
  intro id d hexpected
  by_contra hne
  rw [if_neg (Ne.symm hne), if_neg (Ne.symm hne)] at hexpected
  cases hexpected

/-- The workspace is archived before any pass. -/
def demoLingering : List demoMachine.Move :=
  [demoCluster demoSuspended] ++ demoSubscribe 0 ++ [demoCluster demoArchived] ++ demoPass 1 3

theorem lingering_workspace : ∃ c : demoMachine.Config, demoMachine.Reachable c ∧
    ¬ DirectoryConverges (c.world.mem 0).directoryLog := by
  have hrun : (demoMachine.initial.moves demoLingering).map
      (fun c => (c.world.mem 0).directoryLog) =
        some [.refreshed [] [] [] [] true, .began, .snapshot [demoRow] [demoRow]] := by
    rfl
  obtain ⟨c, hc, hlog⟩ := Option.map_eq_some_iff.mp hrun
  refine ⟨c, Machine.Reachable.init.moves hc, fun hconverges => ?_⟩
  have hview := hconverges [] [] [] [] [] _ hlog "w"
  have hid : demoRow.id = "w" := rfl
  simp [view, hid] at hview

end PaseoGateway.Session
