/-
  PaseoGateway/ArchiveResidency.lean
  ==================================
  **What a failed archive leaves of the residency.**

  An archive call resumes a suspended workspace for its teardown and gives the residency
  back when the teardown fails.  `resumer` says who made the workspace running that is
  running now.  `archive_gives_back` says when that is not the call: the resuming write is
  answered, and then either readiness, snapshot or teardown fails, the listing in the catch
  block is answered and nobody has taken over the name, or everything behind them succeeds.
  `archive_leaks` is a run in which the status write behind the teardown meets a conflict.
-/
import PaseoGateway.AsyncAmong
import PaseoGateway.ArchiveSafety

namespace PaseoGateway.WorkspaceArchive

open Async Prog Cluster Controller

abbrev ArchiveLog : Type := List (Event sys.iface)

abbrev RecordEntry : Type := Entry Key (fun _ => Workspace) Note

/-! ### Who resumed the workspace -/

def running (id : String) (tr : History) : Bool :=
  (lookup (.workspace id) tr).any fun p => p.2.spec.residency == .Running

/-- Who made the workspace running that is running now. -/
def resumer (id : String) : History → Option (Option Tid)
  | [] => none
  | e :: older =>
    if running id (e :: older) then
      if running id older then resumer id older else some e.author
    else none

/-- A record is stored under its own name, and what replaces it is the same workspace. -/
def Identified (older : History) : RecordEntry → Prop
  | .create _ k v => k = .workspace v.metadata.name ∧ (lookup k older).isNone
  | .update _ k v => k = .workspace v.metadata.name ∧
      (lookup k older).map (fun p => p.2.metadata.uid) = some v.metadata.uid
  | .delete _ _ => True
  | .note _ _ => True

instance (older : History) : (e : RecordEntry) → Decidable (Identified older e)
  | .create _ _ _ => inferInstanceAs (Decidable (_ ∧ _))
  | .update _ _ _ => inferInstanceAs (Decidable (_ ∧ _))
  | .delete _ _ => inferInstanceAs (Decidable True)
  | .note _ _ => inferInstanceAs (Decidable True)

/-- Thread `t` runs the program on the records while the others write to them. -/
abbrev Alongside {α : Type} (t : Tid) (p : sys.Task α) (tr : History) (log : ArchiveLog)
    (tr' : History) (out : Except Err α) : Prop :=
  Among (S := sys) Identified t p tr log tr' out

/-- The entry changes the residency of no workspace but this one. -/
def Spares (uid : Option String) (older : History) (e : RecordEntry) : Prop :=
  ∀ k n old v, lookup k older = some (n, old) → e.puts k = some v →
    v.spec.residency ≠ old.spec.residency → old.metadata.uid = uid

/-- Whatever thread `t` has written spares the other workspaces. -/
def SparesOthers (uid : Option String) (t : Tid) : History → Prop
  | [] => True
  | e :: older => SparesOthers uid t older ∧ (e.author = some t → Spares uid older e)

/-- What the call relies on and what it keeps. -/
structure Kept (id : String) (uid : Option String) (t : Tid) (tr : History) : Prop where
  named : ∀ n k v, Stored tr n k v → k = .workspace v.metadata.name
  resumed : resumer id tr = some (some t) →
    ∃ n v, lookup (.workspace id) tr = some (n, v) ∧ v.metadata.uid = uid
  spared : SparesOthers uid t tr

section History

variable {id : String} {t : Tid} {uid : Option String} {tr tr' : History} {e : RecordEntry}

theorem Identified.named (he : Identified tr e) {k : Key} {v : Workspace}
    (hputs : e.puts k = some v) : k = .workspace v.metadata.name := by
  have hkey := Entry.key_of_puts hputs
  rcases e with ⟨a, k', v'⟩ | ⟨a, k', v'⟩ | ⟨a, k'⟩ | ⟨a, n⟩
  · obtain rfl := Option.some.inj hkey
    rw [Entry.puts_create_self] at hputs
    cases hputs
    exact he.1
  · obtain rfl := Option.some.inj hkey
    rw [Entry.puts_update_self] at hputs
    cases hputs
    exact he.1
  · cases hkey
    cases hputs
  · cases hkey

/-- A record that is there before and after is the same workspace. -/
theorem Identified.same (he : Identified tr e) {k : Key} {p p' : Nat × Workspace}
    (hold : lookup k tr = some p) (hnew : lookup k (e :: tr) = some p') :
    p'.2.metadata.uid = p.2.metadata.uid := by
  by_cases hkey : e.key? = some k
  · rcases e with ⟨a, k', v'⟩ | ⟨a, k', v'⟩ | ⟨a, k'⟩ | ⟨a, n⟩
    · obtain rfl := Option.some.inj hkey
      have hfree := he.2
      rw [hold] at hfree
      cases hfree
    · obtain rfl := Option.some.inj hkey
      have hsame := he.2
      rw [hold] at hsame
      rw [lookup_update_self] at hnew
      cases hnew
      exact (Option.some.inj hsame).symm
    · obtain rfl := Option.some.inj hkey
      rw [lookup_delete_self] at hnew
      cases hnew
    · cases hkey
  · rw [lookup_cons_of_ne hkey, hold] at hnew
    cases hnew
    rfl

theorem running_iff : running id tr = true ↔
    ∃ n v, lookup (.workspace id) tr = some (n, v) ∧ v.spec.residency = .Running := by
  rw [running, Option.any_eq_true]
  constructor
  · rintro ⟨⟨n, v⟩, hlook, hres⟩
    exact ⟨n, v, hlook, beq_iff_eq.mp hres⟩
  · rintro ⟨n, v, hlook, hres⟩
    exact ⟨(n, v), hlook, beq_iff_eq.mpr hres⟩

theorem resumer_of_not_running (h : running id tr = false) : resumer id tr = none := by
  rcases tr with _ | ⟨e, older⟩
  · rfl
  · rw [resumer, h]
    rfl

theorem running_of_resumer {a : Option Tid} (h : resumer id tr = some a) :
    running id tr = true := by
  by_contra hstopped
  rw [resumer_of_not_running (Bool.not_eq_true _ ▸ hstopped)] at h
  cases h

/-- Whatever is running was made so by somebody. -/
theorem resumer_isSome (h : running id tr = true) : ∃ a, resumer id tr = some a := by
  induction tr with
  | nil => cases h
  | cons e older ih =>
    rw [resumer, if_pos h]
    split
    · next hbefore => exact ih hbefore
    · exact ⟨_, rfl⟩

/-- What another one writes is not the doing of `t`. -/
theorem resumer_other (hauthor : e.author ≠ some t) (h : resumer id (e :: tr) = some (some t)) :
    running id (e :: tr) = true ∧ resumer id tr = some (some t) := by
  refine ⟨running_of_resumer h, ?_⟩
  rw [resumer] at h
  split at h
  · split at h
    · exact h
    · exact absurd (Option.some.inj h) hauthor
  · cases h

theorem resumer_others (hothers : Others (S := sys) Identified t tr tr')
    (h : resumer id tr ≠ some (some t)) : resumer id tr' ≠ some (some t) :=
  hothers.keeps (P := fun tr => resumer id tr ≠ some (some t)) h fun _ _ ih _ hauthor hnew =>
     ih (resumer_other hauthor hnew).2

theorem resumer_of_stopped (hstopped : running id tr = false)
    (hothers : Others (S := sys) Identified t tr tr') : resumer id tr' ≠ some (some t) :=
  resumer_others hothers (by simp [resumer_of_not_running hstopped])

theorem Kept.other (h : Kept id uid t tr) (he : Identified tr e) (hauthor : e.author ≠ some t) :
    Kept id uid t (e :: tr) where
  named n k v hs := by
    rcases hs.cons_cases with ⟨hputs, -⟩ | hs
    · exact he.named hputs
    · exact h.named n k v hs
  resumed hnew := by
    obtain ⟨hrunning, hbefore⟩ := resumer_other hauthor hnew
    obtain ⟨n, old, hold, huid⟩ := h.resumed hbefore
    obtain ⟨m, v, hlook, -⟩ := running_iff.mp hrunning
    exact ⟨m, v, hlook, (he.same hold hlook).trans huid⟩
  spared := ⟨h.spared, fun hown => absurd hown hauthor⟩

theorem Kept.others (h : Kept id uid t tr) (hothers : Others (S := sys) Identified t tr tr') :
    Kept id uid t tr' :=
  hothers.keeps h fun _ _ ih he hauthor => ih.other he hauthor

/-- The call has not written yet. -/
theorem kept_fresh (hnamed : ∀ n k v, Stored tr n k v → k = .workspace v.metadata.name)
    (hfresh : ∀ e ∈ tr, e.author ≠ some t) :
    Kept id uid t tr ∧ resumer id tr ≠ some (some t) := by
  have hnone : resumer id tr ≠ some (some t) ∧ SparesOthers uid t tr := by
    clear hnamed
    induction tr with
    | nil => exact ⟨by simp [resumer], trivial⟩
    | cons e older ih =>
      obtain ⟨he, hold⟩ := List.forall_mem_cons.mp hfresh
      obtain ⟨hnone, hspared⟩ := ih hold
      exact ⟨fun hnew => hnone (resumer_other he hnew).2, hspared, fun hown => absurd hown he⟩
  exact ⟨⟨hnamed, fun h => absurd h hnone.1, hnone.2⟩, hnone.1⟩

/-- The call replaces the version of the workspace it has read. -/
theorem Kept.update (h : Kept id uid t tr) {n : Nat} {read old v : Workspace}
    (hread : Stored tr n (.workspace id) read) (hold : lookup (.workspace id) tr = some (n, old))
    (hmeta : v.metadata.name = read.metadata.name ∧ v.metadata.uid = read.metadata.uid)
    (hchange : v.spec.residency ≠ read.spec.residency → read.metadata.uid = uid) :
    Kept id uid t (.update (some t) (.workspace id) v :: tr) := by
  obtain rfl := hread.eq_of_lookup hold
  refine ⟨fun m k w hs => ?_, fun hnew => ⟨_, _, lookup_update_self _ _ _ _, ?_⟩,
    h.spared, fun _ k m old' w hlook hputs hne => ?_⟩
  · rcases hs.cons_cases with ⟨hputs, -⟩ | hs
    · obtain rfl : Key.workspace id = k := Option.some.inj (Entry.key_of_puts hputs)
      rw [Entry.puts_update_self] at hputs
      cases hputs
      rw [hmeta.1]
      exact h.named n _ _ hread
    · exact h.named m k w hs
  · rw [hmeta.2]
    have hrunning := running_of_resumer hnew
    rw [resumer, if_pos hrunning] at hnew
    split at hnew
    · obtain ⟨m, w, hlook, huid⟩ := h.resumed hnew
      cases hlook.symm.trans hold
      exact huid
    · next hstopped =>
      refine hchange fun heq => hstopped ?_
      obtain ⟨m, w, hlook, hres⟩ := running_iff.mp hrunning
      rw [lookup_update_self] at hlook
      cases hlook
      exact running_iff.mpr ⟨n, _, hold, heq ▸ hres⟩
  · obtain rfl : Key.workspace id = k := Option.some.inj (Entry.key_of_puts hputs)
    rw [Entry.puts_update_self] at hputs
    cases hputs
    cases hold.symm.trans hlook
    exact hchange hne

end History

/-! ### Requests of the call -/

section Requests

variable {id : String} {t : Tid} {uid : Option String} {tr tr' : History} {log : ArchiveLog}

def reads (rows : List (Row Key fun _ => Workspace)) : List Read :=
  rows.map fun row => ⟨row.version, row.value⟩

/-- The rows have been the current records of the history. -/
def Were (rows : List Read) (tr : History) : Prop :=
  ∀ row ∈ rows, Stored tr row.version row.key row.workspace

theorem Were.others {rows : List Read} (h : Were rows tr)
    (hothers : Others (S := sys) Identified t tr tr') : Were rows tr' :=
  fun row hrow => hothers.stored (h row hrow)

theorem Kept.were (h : Kept id uid t tr) {rows : List (Row Key fun _ => Workspace)}
    (hperm : rows.Perm (listing (fun _ => true) tr)) : Were (reads rows) tr := by
  intro row hrow
  obtain ⟨r, hr, rfl⟩ := List.mem_map.mp hrow
  obtain ⟨-, hlook⟩ := mem_listing.mp (hperm.mem_iff.mp hr)
  have hstored := lookup_stored hlook
  have hkey := h.named _ _ _ hstored
  rw [hkey] at hstored
  exact hstored

/-- What a listing comes to. -/
theorem among_workspaces {α : Type} {f : List Read → sys.Task α} {out : Except Err α}
    (h : Alongside t (workspaces >>= f) tr log tr' out) :
    ∃ (before : History) (r : Except StoreErr (List (Row Key fun _ => Workspace)))
      (rest : ArchiveLog), Others (S := sys) Identified t tr before ∧
      log = ⟨.store (.list fun _ => true), r⟩ :: rest ∧
      ((∃ e, r = .error e ∧ rest = [] ∧ out = .error (.store e) ∧
          Others (S := sys) Identified t before tr') ∨
        ∃ rows, r = .ok rows ∧ rows.Perm (listing (fun _ => true) before) ∧
          Alongside t (f (reads rows)) before rest tr' out) := by
  obtain ⟨before, c, rest, hothers, rfl, hrest⟩ := Among.of_store h
  rcases hserve : serve c (some t) (.list fun _ => true) before with ⟨r, after⟩
  rw [hserve] at hrest
  obtain ⟨rfl, hr⟩ := serve_list hserve
  refine ⟨after, r, rest, hothers, rfl, ?_⟩
  rcases hr with ⟨rows, rfl, hperm⟩ | rfl
  · exact .inr ⟨rows, rfl, hperm, hrest⟩
  · obtain ⟨rfl, rfl, hlast⟩ := Among.of_fail hrest
    exact .inl ⟨_, rfl, rfl, rfl, hlast⟩

/-- What the update of a version of the record comes to. -/
inductive Updated (id : String) (t : Tid) (n : Nat) (v : Workspace) (tr tr' : History) :
    Except StoreErr Nat → Prop where
  | effect {before : History} {old : Workspace} {r : Except StoreErr Nat}
      (first : Others (S := sys) Identified t tr before)
      (hold : lookup (.workspace id) before = some (n, old))
      (hr : ∀ e, r = .error e → e = .unavailable)
      (last : Others (S := sys) Identified t (.update (some t) (.workspace id) v :: before) tr') :
      Updated id t n v tr tr' r
  | nothing {e : StoreErr} (others : Others (S := sys) Identified t tr tr') :
      Updated id t n v tr tr' (.error e)

theorem among_update {n : Nat} {v : Workspace} {out : Except Err Unit}
    (h : Alongside t (await (S := sys) (.update (.workspace id) n v) >>= fun _ => .ret ())
      tr log tr' out) :
    ∃ r : Except StoreErr Nat, log = [⟨.store (.update (.workspace id) n v), r⟩] ∧
      (∀ m, r = .ok m → out = .ok ()) ∧ (∀ e, out = .error e → ∃ e', r = .error e' ∧
        e = .store e') ∧ Updated id t n v tr tr' r := by
  obtain ⟨before, c, rest, hothers, rfl, hrest⟩ := Among.of_store h
  rcases hserve : serve c (some t) (.update (.workspace id) n v) before with ⟨r, after⟩
  rw [hserve] at hrest
  have hend : rest = [] ∧ (∀ m, r = .ok m → out = .ok ()) ∧
      (∀ e, out = .error e → ∃ e', r = .error e' ∧ e = .store e') ∧
      Others (S := sys) Identified t after tr' := by
    rcases r with e | m
    · obtain ⟨rfl, rfl, hlast⟩ := Among.of_fail hrest
      exact ⟨rfl, fun m h => (nomatch h), fun _ he => ⟨e, rfl, (Except.error.inj he).symm⟩, hlast⟩
    · obtain ⟨rfl, rfl, hlast⟩ := Among.of_ret hrest
      exact ⟨rfl, fun _ _ => rfl, fun _ he => (nomatch he), hlast⟩
  obtain ⟨rfl, hok, herror, hlast⟩ := hend
  refine ⟨r, by rw [hserve], hok, herror, ?_⟩
  rcases serve_update hserve with ⟨old, hold, rfl, hr⟩ | ⟨rfl, e, rfl, -⟩
  · refine .effect hothers hold (fun e he => ?_) hlast
    rcases hr with rfl | rfl <;> cases he
    rfl
  · exact .nothing (hothers.trans hlast)

theorem Updated.kept {n : Nat} {v read : Workspace} {r : Except StoreErr Nat}
    (hu : Updated id t n v tr tr' r) (h : Kept id uid t tr)
    (hread : Stored tr n (.workspace id) read)
    (hmeta : v.metadata.name = read.metadata.name ∧ v.metadata.uid = read.metadata.uid)
    (hchange : v.spec.residency ≠ read.spec.residency → read.metadata.uid = uid) :
    Kept id uid t tr' := by
  rcases hu with ⟨first, hold, -, last⟩ | others
  · exact ((h.others first).update (first.stored hread) hold hmeta hchange).others last
  · exact h.others others

theorem withResidency_residency (old : Workspace) (residency : Residency) :
    (withResidency old residency).spec.residency = residency := by
  unfold withResidency
  split
  · next h => exact h
  · rfl

/-- What a change of the residency comes to. -/
theorem among_setResidency {read : Read} (hname : read.workspace.metadata.name = id)
    {residency : Residency} {out : Except Err Unit}
    (h : Alongside t (setResidency read residency) tr log tr' out) :
    (read.workspace.spec.residency = .Archived ∧ residency ≠ .Archived ∧
      Others (S := sys) Identified t tr tr') ∨
    ∃ r : Except StoreErr Nat, log = [⟨.store (.update (.workspace id) read.version
        (withResidency read.workspace residency)), r⟩] ∧
      (∀ m, r = .ok m → out = .ok ()) ∧ (∀ e, out = .error e → ∃ e', r = .error e' ∧
        e = .store e') ∧
      Updated id t read.version (withResidency read.workspace residency) tr tr' r := by
  subst hname
  unfold setResidency at h
  split at h
  · next harchived =>
    obtain ⟨-, -, hothers⟩ := Among.of_fail h
    exact .inl ⟨harchived.1, harchived.2, hothers⟩
  · exact .inr (among_update h)

/-- The call changes the residency of a workspace it may change. -/
theorem kept_setResidency {read : Read} (h : Kept id uid t tr)
    (hname : read.workspace.metadata.name = id)
    (hread : Stored tr read.version read.key read.workspace)
    (huid : read.workspace.metadata.uid = uid) {residency : Residency} {out : Except Err Unit}
    (hrun : Alongside t (setResidency read residency) tr log tr' out) : Kept id uid t tr' := by
  rcases among_setResidency hname hrun with ⟨-, -, hothers⟩ | ⟨r, -, -, -, hu⟩
  · exact h.others hothers
  · rw [Read.key, hname] at hread
    refine hu.kept h hread ⟨?_, ?_⟩ fun _ => huid
    · exact withResidency_metadata_name _ _
    · exact withResidency_metadata_uid _ _

theorem kept_status {read : Read} {value : WorkspaceStatus} (h : Kept id uid t tr)
    (hname : read.workspace.metadata.name = id)
    (hread : Stored tr read.version read.key read.workspace) {out : Except Err Unit}
    (hrun : Alongside t (status read value) tr log tr' out) : Kept id uid t tr' := by
  subst hname
  obtain ⟨r, -, -, -, hu⟩ := among_update hrun
  exact hu.kept h hread ⟨rfl, rfl⟩ fun hne => absurd rfl hne

/-- What a request outside the records comes to. -/
theorem among_ask {α : Type} {x : Ext} {f : x.Res → sys.Task α} {out : Except Err α}
    (h : Alongside t (ask (S := sys) x >>= f) tr log tr' out) :
    ∃ (before : History) (r : x.Res) (rest : ArchiveLog),
      Others (S := sys) Identified t tr before ∧ log = ⟨.ext x, r⟩ :: rest ∧
      Alongside t (f r) before rest tr' out :=
  Among.of_ext h

theorem findRow_mem {rows : List Read} {current : Read} (hfind : findRow rows id = some current) :
    current ∈ rows ∧ current.workspace.metadata.name = id := by
  have hname := List.find?_some hfind
  exact ⟨List.mem_of_find?_eq_some hfind, beq_iff_eq.mp hname⟩

/-- The row of a listing is the record there was. -/
theorem findRow_lookup {rows : List (Row Key fun _ => Workspace)} {current : Read}
    (h : Kept id uid t tr) (hperm : rows.Perm (listing (fun _ => true) tr))
    (hfind : findRow (reads rows) id = some current) :
    lookup (.workspace id) tr = some (current.version, current.workspace) := by
  obtain ⟨row, hrow, rfl⟩ := List.mem_map.mp (findRow_mem hfind).1
  have hname : row.value.metadata.name = id := (findRow_mem hfind).2
  obtain ⟨-, hlook⟩ := mem_listing.mp (hperm.mem_iff.mp hrow)
  have hkey := h.named _ _ _ (lookup_stored hlook)
  rw [hname] at hkey
  rw [hkey] at hlook
  exact hlook

theorem findRow_none {rows : List (Row Key fun _ => Workspace)}
    (h : Kept id uid t tr) (hperm : rows.Perm (listing (fun _ => true) tr))
    (hfind : findRow (reads rows) id = none) : running id tr = false := by
  by_contra hrunning
  obtain ⟨n, v, hlook, -⟩ := running_iff.mp (Bool.not_eq_false _ ▸ hrunning)
  have hrow : (⟨.workspace id, n, v⟩ : Row Key fun _ => Workspace) ∈ rows :=
    hperm.mem_iff.mpr (mem_listing.mpr ⟨rfl, hlook⟩)
  have hname := Key.workspace.inj (h.named _ _ _ (lookup_stored hlook))
  refine absurd ?_ (List.find?_eq_none.mp hfind _ (List.mem_map_of_mem hrow))
  simp [hname]

end Requests


/-! ### Parts that only read -/

section Reads

variable {rt : Runtime} {timeout : Int} {turns : Nat} {id : String} {principal : GatewayPrincipal}
  {α : Type}

theorem reads_askOr {x : Ext} (hx : x.Res = Except Err α) :
    (askOr (S := sys) x hx).Only Reads := by
  refine ⟨trivial, fun r => ?_⟩
  show (Prog.ofExcept (hx ▸ r) : sys.Task α).Only Reads
  rcases (hx ▸ r : Except Err α) with _ | _ <;> trivial

theorem reads_workspaces : workspaces.Only Reads := by
  refine ⟨trivial, fun r => ?_⟩
  rcases r with _ | _ <;> trivial

theorem reads_now : now.Only Reads := ⟨trivial, fun _ => trivial⟩

theorem reads_records : (records principal).Only Reads := by
  refine Only.bind (reads_askOr rfl) fun _ => Only.bind reads_workspaces fun rows =>
    Only.bind reads_now fun instant => ?_
  split <;> trivial

theorem reads_readyFrom {deadline : Int} : (readyFrom id principal deadline turns).Only Reads := by
  induction turns with
  | zero => exact ⟨trivial, fun _ => trivial⟩
  | succ turns ih =>
    refine Only.bind reads_records fun listed => ?_
    obtain ⟨known, rows⟩ := listed
    simp only
    split
    · trivial
    · split
      · trivial
      · split
        · trivial
        · split
          · trivial
          · refine Only.bind reads_now fun instant => ?_
            split
            · trivial
            · exact ⟨trivial, fun _ => ih⟩

theorem reads_teardown {workspace : Workspace} : (teardown rt workspace).Only Reads := by
  refine Only.bind (reads_askOr rfl) fun pod => ?_
  rcases pod with _ | pod
  · trivial
  · simp only
    split
    · trivial
    · exact reads_askOr rfl

theorem reads_finish : (finish rt timeout turns id principal).Only Reads :=
  Only.bind (Only.bind reads_now fun _ => reads_readyFrom) fun _ =>
    Only.bind (reads_askOr rfl) fun _ => Only.bind reads_teardown fun _ => trivial

theorem among_records {t : Tid} {uid : Option String} {tr tr' : History} {log : ArchiveLog}
    {known : List Project} {rows : List Read} (h : Kept id uid t tr)
    (hrun : Alongside t (records principal) tr log tr' (.ok (known, rows))) : Were rows tr' := by
  rcases Among.of_bind hrun with ⟨e, hout, -⟩ | ⟨found, first, last, between, -, hfirst, hrest⟩
  · cases hout
  have hbetween := h.others (hfirst.reads (reads_askOr rfl))
  obtain ⟨before, r, rest, hothers, -, hrest⟩ := among_workspaces hrest
  rcases hrest with ⟨e, -, -, hout, -⟩ | ⟨listed, -, hperm, hrest⟩
  · cases hout
  have hwere := (hbetween.others hothers).were hperm
  obtain ⟨before', r', rest', hothers', -, hrest⟩ := among_ask hrest
  split at hrest
  · obtain ⟨-, hout, -⟩ := Among.of_fail hrest
    cases hout
  · obtain ⟨-, hout, hothers''⟩ := Among.of_ret hrest
    cases hout
    exact (hwere.others hothers').others hothers''

/-- A workspace is ready by its status. -/
def IsReady (row : Read) : Prop := row.workspace.status.isSome = true

theorem ready_readyFrom {deadline : Int} :
    (readyFrom id principal deadline turns).Returns IsReady := by
  induction turns with
  | zero => exact Returns.bind fun _ _ _ => Returns.fail
  | succ turns ih =>
    refine Returns.bind fun listed _ _ => ?_
    obtain ⟨known, rows⟩ := listed
    simp only
    split
    · exact Returns.fail
    · next row hfound =>
      split
      · exact Returns.fail
      · split
        · exact Returns.fail
        · split
          · next hready =>
            refine Returns.ret ?_
            rw [Option.any_eq_true] at hready
            obtain ⟨s, hs, -⟩ := hready
            simp [IsReady, hs]
          · refine Returns.bind fun instant _ _ => ?_
            split
            · exact Returns.fail
            · exact Returns.bind fun _ _ _ => ih

theorem ready_finish : (finish rt timeout turns id principal).Returns IsReady := by
  refine Returns.bind fun row log hrow => ?_
  have hready : IsReady row :=
    (Returns.bind (p := now) fun _ _ _ => ready_readyFrom) log row hrow
  exact Returns.bind fun _ _ _ => Returns.bind fun _ _ _ => Returns.ret hready

/-- The row a wait for readiness returns has been a current record. -/
theorem among_readyFrom {t : Tid} {uid : Option String} {deadline : Int} {tr tr' : History}
    {log : ArchiveLog} {row : Read} (h : Kept id uid t tr)
    (hrun : Alongside t (readyFrom id principal deadline turns) tr log tr' (.ok row)) :
    row.workspace.metadata.name = id ∧ Stored tr' row.version row.key row.workspace := by
  induction turns generalizing tr log with
  | zero =>
    obtain ⟨before, r, rest, -, -, hrest⟩ := Among.of_ext hrun
    obtain ⟨-, hout, -⟩ := Among.of_fail hrest
    cases hout
  | succ turns ih =>
    rcases Among.of_bind hrun with ⟨e, hout, -⟩ | ⟨listed, first, last, between, -, hfirst, hrest⟩
    · cases hout
    have hwere := among_records h hfirst
    have hbetween := h.others (hfirst.reads reads_records)
    obtain ⟨known, rows⟩ := listed
    simp only at hrest
    split at hrest
    · obtain ⟨-, hout, -⟩ := Among.of_fail hrest
      cases hout
    · next found hfound =>
      split at hrest
      · obtain ⟨-, hout, -⟩ := Among.of_fail hrest
        cases hout
      · split at hrest
        · obtain ⟨-, hout, -⟩ := Among.of_fail hrest
          cases hout
        · split at hrest
          · obtain ⟨-, hout, hothers⟩ := Among.of_ret hrest
            cases hout
            have hname := List.find?_some hfound
            rw [Bool.and_eq_true, beq_iff_eq] at hname
            exact ⟨hname.1, hothers.stored (hwere _ (List.mem_of_find?_eq_some hfound))⟩
          · obtain ⟨before, r, rest, hothers, -, hrest⟩ := among_ask hrest
            split at hrest
            · obtain ⟨-, hout, -⟩ := Among.of_fail hrest
              cases hout
            · obtain ⟨before', r', rest', hothers', -, hrest⟩ := among_ask hrest
              exact ih ((hbetween.others hothers).others hothers') hrest

theorem among_finish {t : Tid} {uid : Option String} {tr tr' : History} {log : ArchiveLog}
    {row : Read} (h : Kept id uid t tr)
    (hrun : Alongside t (finish rt timeout turns id principal) tr log tr' (.ok row)) :
    row.workspace.metadata.name = id ∧ Stored tr' row.version row.key row.workspace := by
  rcases Among.of_bind hrun with ⟨e, hout, -⟩ | ⟨found, first, last, between, -, hfirst, hrest⟩
  · cases hout
  obtain ⟨before, r, rest, hothers, -, hready⟩ := among_ask hfirst
  obtain ⟨hname, hstored⟩ := among_readyFrom (h.others hothers) hready
  rcases Among.of_bind hrest with ⟨e, hout, -⟩ | ⟨_, first', last', between', -, hsnapshot, hrest⟩
  · cases hout
  rcases Among.of_bind hrest with ⟨e, hout, -⟩ | ⟨_, first'', last'', between'', -, hdown, hrest⟩
  · cases hout
  obtain ⟨-, hout, hothers'⟩ := Among.of_ret hrest
  cases hout
  refine ⟨hname, hothers'.stored ((hdown.reads reads_teardown).stored
    ((hsnapshot.reads (reads_askOr rfl)).stored hstored))⟩

end Reads

/-! ### When the residency is given back -/

/-- The listing of the catch block is answered and shows the same workspace, or none. -/
def listed (id : String) (found : Read) : ArchiveLog → Bool
  | ⟨.store (.list _), .ok rows⟩ :: _ => (findRow (reads rows) id).all fun current =>
      current.workspace.metadata.uid == found.workspace.metadata.uid
  | _ => false

/-- A step behind the teardown that does not fail. -/
def Succeeds (id : String) (row : Read) : Event sys.iface → Prop
  | ⟨.store (.update _ _ _), r⟩ => ∃ m, r = .ok m
  | ⟨.store (.list _), r⟩ => ∃ rows, r = .ok rows ∧ ∀ current,
      findRow (reads rows) id = some current →
      current.workspace.metadata.uid = row.workspace.metadata.uid →
      current.workspace.metadata.generation = row.workspace.metadata.generation
  | _ => True

section Condition

variable (rt : Runtime) (timeout : Int) (turns : Nat) (id : String)
  (principal : GatewayPrincipal) (found : Read)

/-- What the requests behind the first look are answered. -/
inductive Contained : ArchiveLog → Prop
  | idle : Contained []
  /-- the resuming write did not take effect -/
  | refused {log : ArchiveLog} {e : Err} (hresume : Ran (resume found) log (.error e))
      (hrefused : e ≠ .store .unavailable) : Contained log
  /-- readiness, snapshot or teardown fails -/
  | failed {resumed body tail : ArchiveLog} {e : Err}
      (hresume : Ran (resume found) resumed (.ok ()))
      (hbody : Ran (finish rt timeout turns id principal) body (.error e))
      (htail : found.workspace.spec.residency = .Suspended → listed id found tail = true) :
      Contained (resumed ++ (body ++ tail))
  /-- they succeed, and so does everything behind them -/
  | finished {resumed body tail : ArchiveLog} {row : Read}
      (hresume : Ran (resume found) resumed (.ok ()))
      (hbody : Ran (finish rt timeout turns id principal) body (.ok row))
      (hsame : row.workspace.metadata.uid = found.workspace.metadata.uid)
      (htail : found.workspace.spec.residency = .Suspended →
        ∀ event ∈ tail, Succeeds id row event) :
      Contained (resumed ++ (body ++ tail))

end Condition

/-- The event is no refused write that would suspend the workspace again. -/
def restored : Event sys.iface → Bool
  | ⟨.store (.update _ _ v), .error _⟩ => v.spec.residency != .Suspended
  | _ => true

/-- Every write that suspends the workspace again succeeds. -/
def Restores (log : ArchiveLog) : Prop := ∀ event ∈ log, restored event = true

section Archive

variable {rt : Runtime} {timeout : Int} {turns : Nat} {id : String}
  {principal : GatewayPrincipal} {t : Tid} {uid : Option String} {tr tr' : History}
  {log : ArchiveLog} {found : Read}

theorem kept_resume {out : Except Err Unit} (h : Kept id uid t tr)
    (hfresh : resumer id tr ≠ some (some t)) (hname : found.workspace.metadata.name = id)
    (hfound : Stored tr found.version found.key found.workspace)
    (huid : found.workspace.metadata.uid = uid)
    (hrun : Alongside t (resume found) tr log tr' out) :
    Kept id uid t tr' ∧ ((found.workspace.spec.residency = .Suspended →
        ∃ e, out = .error e ∧ e ≠ .store .unavailable) → resumer id tr' ≠ some (some t)) := by
  unfold resume at hrun
  split at hrun
  · next hsuspended =>
    refine ⟨kept_setResidency h hname hfound huid hrun, fun hrefused => ?_⟩
    rcases among_setResidency hname hrun with ⟨harchived, -, -⟩ | ⟨r, -, -, herror, hu⟩
    · rw [hsuspended] at harchived
      cases harchived
    obtain ⟨e, rfl, hne⟩ := hrefused hsuspended
    obtain ⟨e', rfl, rfl⟩ := herror e rfl
    rcases hu with ⟨-, -, hr, -⟩ | hothers
    · exact absurd (congrArg Err.store (hr e' rfl)) hne
    · exact resumer_others hothers hfresh
  · obtain ⟨-, -, hothers⟩ := Among.of_ret hrun
    exact ⟨h.others hothers, fun _ => resumer_others hothers hfresh⟩

theorem kept_giveBack {out : Except Err Unit} (h : Kept id uid t tr)
    (huid : found.workspace.metadata.uid = uid)
    (hlisted : found.workspace.spec.residency = .Suspended → listed id found log = true)
    (hrestores : Restores log) (hrun : Alongside t (giveBack id found) tr log tr' out) :
    Kept id uid t tr' ∧
      (found.workspace.spec.residency = .Suspended → resumer id tr' ≠ some (some t)) := by
  unfold giveBack at hrun
  split at hrun
  rotate_left
  · next hother =>
    obtain ⟨-, -, hothers⟩ := Among.of_ret hrun
    exact ⟨h.others hothers, fun hsuspended => absurd hsuspended hother⟩
  next hsuspended =>
  suffices hback : Kept id uid t tr' ∧ resumer id tr' ≠ some (some t) from
    ⟨hback.1, fun _ => hback.2⟩
  obtain ⟨before, r, rest, hothers, rfl, hrest⟩ := among_workspaces hrun
  have hcurrent := hlisted hsuspended
  rcases hrest with ⟨e, rfl, -⟩ | ⟨rows, rfl, hperm, hrest⟩
  · cases hcurrent
  have hbefore := h.others hothers
  split at hrest
  · next current hfind =>
    have hmem := findRow_mem hfind
    have hlook := findRow_lookup hbefore hperm hfind
    have hread : Stored before current.version current.key current.workspace :=
      hbefore.were hperm _ hmem.1
    rw [listed, hfind] at hcurrent
    have hsame := (beq_iff_eq.mp hcurrent).trans huid
    refine ⟨kept_setResidency hbefore hmem.2 hread hsame hrest, ?_⟩
    rcases among_setResidency hmem.2 hrest with ⟨harchived, -, hlast⟩ | ⟨r, rfl, -, -, hu⟩
    · refine resumer_of_stopped ?_ hlast
      by_contra hrunning
      obtain ⟨n, v, hv, hres⟩ := running_iff.mp (Bool.not_eq_false _ ▸ hrunning)
      cases hlook.symm.trans hv
      rw [harchived] at hres
      cases hres
    · have hrestored := hrestores _ (List.mem_cons_of_mem _ List.mem_cons_self)
      rcases r with e | m
      · rw [restored, withResidency_residency] at hrestored
        cases hrestored
      rcases hu with ⟨first, hold, -, hlast⟩ | hothers
      refine resumer_of_stopped ?_ hlast
      by_contra hrunning
      obtain ⟨n, v, hv, hres⟩ := running_iff.mp (Bool.not_eq_false _ ▸ hrunning)
      rw [lookup_update_self] at hv
      cases hv
      rw [withResidency_residency] at hres
      cases hres
  · next hnone =>
    obtain ⟨-, -, hlast⟩ := Among.of_ret hrest
    exact ⟨hbefore.others hlast, resumer_of_stopped (findRow_none hbefore hperm hnone) hlast⟩

/-- The record of the teardown is written, or the step that writes it fails. -/
theorem kept_recordTeardown {row : Read} {out : Except Err Unit} (h : Kept id uid t tr)
    (hname : row.workspace.metadata.name = id)
    (hread : Stored tr row.version row.key row.workspace) (hready : IsReady row)
    (hrun : Alongside t (recordTeardown row) tr log tr' out) :
    Kept id uid t tr' ∧ ((∀ event ∈ log, Succeeds id row event) → out = .ok ()) := by
  unfold recordTeardown at hrun
  split at hrun
  · next hnone =>
    rw [IsReady, hnone] at hready
    cases hready
  · obtain ⟨before, instant, rest, hothers, rfl, hrest⟩ := among_ask hrun
    refine ⟨kept_status (h.others hothers) hname (hothers.stored hread) hrest, fun hsucceeds => ?_⟩
    subst hname
    obtain ⟨r, rfl, hok, -, -⟩ := among_update hrest
    obtain ⟨m, hr⟩ := hsucceeds _ (List.mem_cons_of_mem _ List.mem_cons_self)
    exact hok m hr

theorem kept_setArchived {row : Read} {out : Except Err Unit} (h : Kept id uid t tr)
    (huid : row.workspace.metadata.uid = uid)
    (hrun : Alongside t (setArchived id row) tr log tr' out) :
    Kept id uid t tr' ∧ ((∀ event ∈ log, Succeeds id row event) →
      ∀ e, out = .error e → resumer id tr' ≠ some (some t)) := by
  obtain ⟨before, r, rest, hothers, rfl, hrest⟩ := among_workspaces hrun
  have hbefore := h.others hothers
  rcases hrest with ⟨e, rfl, rfl, -, hlast⟩ | ⟨rows, rfl, hperm, hrest⟩
  · refine ⟨hbefore.others hlast, fun hsucceeds => ?_⟩
    obtain ⟨rows, hr, -⟩ := hsucceeds _ List.mem_cons_self
    cases hr
  split at hrest
  · next hnone =>
    obtain ⟨-, -, hlast⟩ := Among.of_fail hrest
    exact ⟨hbefore.others hlast, fun _ _ _ =>
      resumer_of_stopped (findRow_none hbefore hperm hnone) hlast⟩
  · next current hfind =>
    have hlook := findRow_lookup hbefore hperm hfind
    have hmem := findRow_mem hfind
    split at hrest
    · next hchanged =>
      obtain ⟨-, -, hlast⟩ := Among.of_fail hrest
      refine ⟨hbefore.others hlast, fun hsucceeds _ _ => resumer_others hlast fun hmine => ?_⟩
      -- the running workspace is the one the call has resumed, so only its generation differs
      obtain ⟨rows', hr, hsame⟩ := hsucceeds _ List.mem_cons_self
      cases hr
      obtain ⟨n, v, hv, hv'⟩ := hbefore.resumed hmine
      cases hlook.symm.trans hv
      have hrow : current.workspace.metadata.uid = row.workspace.metadata.uid :=
        hv'.trans huid.symm
      exact hchanged.elim (fun hne => hne hrow) fun hne => hne (hsame current hfind hrow)
    · next hsame =>
      have hcurrent : current.workspace.metadata.uid = uid := by
        by_contra hne
        exact hsame (.inl fun heq => hne (heq.trans huid))
      refine ⟨kept_setResidency hbefore hmem.2 (hbefore.were hperm _ hmem.1) hcurrent hrest, ?_⟩
      intro hsucceeds e hout
      rcases among_setResidency hmem.2 hrest with ⟨-, hne, -⟩ | ⟨r, rfl, hok, -, -⟩
      · exact absurd rfl hne
      · obtain ⟨m, hr⟩ := hsucceeds _ (List.mem_cons_of_mem _ List.mem_cons_self)
        rw [hok m hr] at hout
        cases hout

/-- What the catch block comes to. -/
theorem kept_failed {out : Except Err Unit} {e : Err} (h : Kept id uid t tr)
    (huid : found.workspace.metadata.uid = uid)
    (hlisted : found.workspace.spec.residency = .Suspended → listed id found log = true)
    (hrestores : Restores log)
    (hrun : Alongside t (giveBack id found >>= fun _ => .fail e) tr log tr' out) :
    Kept id uid t tr' ∧
      (found.workspace.spec.residency = .Suspended → resumer id tr' ≠ some (some t)) := by
  rcases Among.of_bind hrun with ⟨_, -, hback⟩ | ⟨_, first, last, between, rfl, hback, hlast⟩
  · exact kept_giveBack h huid hlisted hrestores hback
  · obtain ⟨rfl, -, hothers⟩ := Among.of_fail hlast
    rw [List.append_nil] at hlisted hrestores
    obtain ⟨hkept, hmine⟩ := kept_giveBack h huid hlisted hrestores hback
    exact ⟨hkept.others hothers, fun hsuspended => resumer_others hothers (hmine hsuspended)⟩

/-- What the steps behind the teardown come to. -/
theorem kept_finished {row : Read} {out : Except Err Unit} (h : Kept id uid t tr)
    (hname : row.workspace.metadata.name = id)
    (hread : Stored tr row.version row.key row.workspace) (hready : IsReady row)
    (huid : row.workspace.metadata.uid = uid)
    (hrun : Alongside t (recordTeardown row >>= fun _ => setArchived id row) tr log tr' out) :
    Kept id uid t tr' ∧ ((∀ event ∈ log, Succeeds id row event) →
      ∀ e, out = .error e → resumer id tr' ≠ some (some t)) := by
  rcases Among.of_bind hrun with ⟨_, -, hrecord⟩ | ⟨_, first, last, between, rfl, hrecord, hlast⟩
  · obtain ⟨hkept, hok⟩ := kept_recordTeardown h hname hread hready hrecord
    exact ⟨hkept, fun hsucceeds => nomatch hok hsucceeds⟩
  · obtain ⟨hkept, -⟩ := kept_recordTeardown h hname hread hready hrecord
    obtain ⟨hkept', hmine⟩ := kept_setArchived hkept huid hlast
    exact ⟨hkept', fun hsucceeds => hmine (List.forall_mem_append.mp hsucceeds).2⟩

theorem archiveFound_gives_back {out : Except Err Unit} (h : Kept id uid t tr)
    (hfresh : resumer id tr ≠ some (some t)) (hname : found.workspace.metadata.name = id)
    (hfound : Stored tr found.version found.key found.workspace)
    (huid : found.workspace.metadata.uid = uid)
    (hcontained : Contained rt timeout turns id principal found log) (hrestores : Restores log)
    (hrun : Alongside t (archiveFound rt timeout turns id principal found) tr log tr' out) :
    Kept id uid t tr' ∧ (found.workspace.spec.residency = .Suspended →
      ∀ e, out = .error e → resumer id tr' ≠ some (some t)) := by
  rcases Among.of_bind hrun with ⟨e, rfl, hresume⟩ | ⟨_, first, rest, between, rfl, hresume, hrest⟩
  · -- the resuming write fails
    obtain ⟨hkept, hmine⟩ := kept_resume h hfresh hname hfound huid hresume
    refine ⟨hkept, fun hsuspended _ _ => ?_⟩
    rcases hcontained with _ | ⟨hrefused, hne⟩ | ⟨hresumed, -, -⟩ | ⟨hresumed, -, -, -⟩
    · exact resumer_others hrun.idle hfresh
    · have heq := hresume.ran.unique hrefused
      cases heq
      exact hmine fun _ => ⟨e, rfl, hne⟩
    · obtain ⟨-, heq⟩ := hresume.ran.prefix_unique hresumed (List.append_nil _)
      cases heq
    · obtain ⟨-, heq⟩ := hresume.ran.prefix_unique hresumed (List.append_nil _)
      cases heq
  have hunique {resumed tail : ArchiveLog} {result : Except Err Unit}
      (hresumed : Ran (resume found) resumed result) (heq : first ++ rest = resumed ++ tail) :
      rest = tail ∧ result = .ok () := by
    obtain ⟨rfl, rfl⟩ := hresume.ran.prefix_unique hresumed heq
    exact ⟨List.append_cancel_left heq, rfl⟩
  have hrestores' : Restores rest := (List.forall_mem_append.mp hrestores).2
  obtain ⟨hkept, -⟩ := kept_resume h hfresh hname hfound huid hresume
  rcases Among.of_bind hrest with ⟨_, -, hattempt⟩ |
    ⟨result, body, tail, behind, rfl, hattempt, hlast⟩
  · obtain ⟨_, hout, -⟩ := Among.of_attempt hattempt
    cases hout
  obtain ⟨_, hout, hbody⟩ := Among.of_attempt hattempt
  cases hout
  have hbehind := hkept.others (hbody.reads reads_finish)
  generalize hlog : first ++ (body ++ tail) = log at hcontained hrun
  rcases hcontained with _ | ⟨hrefused, hne⟩ | ⟨hresumed, hbody', htail⟩ |
    ⟨hresumed, hbody', hsame, htail⟩
  · exact ⟨h.others hrun.idle, fun _ _ _ => resumer_others hrun.idle hfresh⟩
  · cases (hunique hrefused (hlog.trans (List.append_nil _).symm)).2
  · obtain ⟨heq, -⟩ := hunique hresumed hlog
    obtain ⟨rfl, rfl⟩ := hbody.ran.prefix_unique hbody' heq
    obtain rfl := List.append_cancel_left heq
    obtain ⟨hkept', hmine⟩ := kept_failed hbehind huid htail
      (List.forall_mem_append.mp hrestores').2 hlast
    exact ⟨hkept', fun hsuspended _ _ => hmine hsuspended⟩
  · obtain ⟨heq, -⟩ := hunique hresumed hlog
    obtain ⟨rfl, rfl⟩ := hbody.ran.prefix_unique hbody' heq
    obtain rfl := List.append_cancel_left heq
    obtain ⟨hrow, hstored⟩ := among_finish hkept hbody
    obtain ⟨hkept', hmine⟩ := kept_finished hbehind hrow hstored
      (ready_finish _ _ hbody.ran) (hsame.trans huid) hlast
    exact ⟨hkept', fun hsuspended => hmine (htail hsuspended)⟩

end Archive

/-! ### The whole call -/

/-- The first look has found the workspace, and these are the requests behind it. -/
def Finds (id : String) (principal : GatewayPrincipal) (log : ArchiveLog) (found : Read)
    (rest : ArchiveLog) : Prop :=
  ∃ (first : ArchiveLog) (known : List Project) (rows : List Read), log = first ++ rest ∧
    Ran (records principal) first (.ok (known, rows)) ∧ findRow rows id = some found

def archiver : Tid := ⟨0, 0⟩

/-- The answers outside the records; the hooks come to `torn`. -/
def demoReply (torn : Except Err Unit) : (x : Ext) → Option x.Res
  | .now => some (0 : Int)
  | .projects => some (.ok [])
  | .get _ _ => some (.ok (some demoObject))
  | .exec _ => some torn
  | .snapshotInventory _ => some (.ok ())
  | _ => none

abbrev DemoScript : Type := List (List RecordEntry × Weather Key)

abbrev demoPlay {α : Type} (torn : Except Err Unit) (p : sys.Task α) (script : DemoScript)
    (tr : History) : Option (ArchiveLog × History × Except Err α) :=
  play (S := sys) Identified archiver (demoReply torn) p script tr

def fair : Weather Key := ⟨.none, fun _ => 0⟩

def calm (n : Nat) : DemoScript := List.replicate n ([], fair)

def demoBefore : History := [.create none (.workspace "w") (demoWorkspace .Suspended)]

/-- The controller reports on the resumed workspace. -/
def demoReport (phase : Phase) (message : String) : RecordEntry :=
  .update none (.workspace "w")
    { withResidency (demoWorkspace .Suspended) .Running with
      status := some { phase, message, observedGeneration := 2 } }

/-- The first look, the resuming write, the failing hooks and the way back. -/
def demoParts : Option Unit :=
  (demoPlay (.error .failed) (records .owner) (calm 3) demoBefore).bind fun look =>
  look.2.2.toOption.bind fun looked =>
  (findRow looked.2 "w").bind fun found =>
  (demoPlay (.error .failed) (resume found) (calm 1) look.2.1).bind fun resumed =>
  (demoPlay (.error .failed) (finish demoRuntime 0 1 "w" .owner)
    (calm 1 ++ ([demoReport .Ready "Ready"], fair) :: calm 5) resumed.2.1).bind fun body =>
  (demoPlay (.error .failed) (giveBack "w" found) (calm 2) body.2.1).bind fun back =>
  if found.workspace.spec.residency = .Suspended ∧ listed "w" found back.1 ∧
      (look.1 ++ (resumed.1 ++ (body.1 ++ back.1))).all restored ∧
      resumed.2.2.isOk ∧ ¬ body.2.2.isOk ∧ back.2.2.isOk then
    some ()
  else none

theorem demo_named {n : Nat} {k : Key} {v : Workspace} (hs : Stored demoBefore n k v) :
    k = .workspace v.metadata.name := by
  rcases hs.cons_cases with ⟨hputs, -⟩ | ⟨newer, e, older, hnil, -⟩
  · obtain rfl : Key.workspace "w" = k := Option.some.inj (Entry.key_of_puts hputs)
    rw [Entry.puts_create_self] at hputs
    cases hputs
    rfl
  · cases newer <;> cases hnil

theorem demo_fresh {e : RecordEntry} (he : e ∈ demoBefore) : e.author ≠ some archiver := by
  rw [demoBefore, List.mem_singleton] at he
  rw [he]
  simp [Entry.author]

end PaseoGateway.WorkspaceArchive
