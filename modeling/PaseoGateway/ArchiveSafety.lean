/-
  PaseoGateway/ArchiveSafety.lean
  ===============================
  **Storage deletion and teardown over whole runs.**

  Passes of the controller and archive calls obey the law of `ControllerSafety.lean`, so
  every reachable history is legal.  `storage_kept` says what a legal history never does
  to storage.  `snapshot_kept` says when a pass that deletes the Pod of an archived
  workspace relies on a teardown that belongs to this archive: whenever a record was set
  to `Archived`, its teardown was unrecorded or recorded by the call that set it.
  `stale_teardown` is a run that breaks the condition: an archive call records its
  teardown and dies, the workspace is used again and archived directly, and the
  controller deletes its Pod without a snapshot.
-/
import PaseoGateway.ControllerSafety

namespace PaseoGateway.WorkspaceArchive

open Async Cluster Controller

/-! ### Facts about legal histories -/

section Facts

variable {rt : Runtime} {options : Options} {calls : Calls sys} {tr newer older : History}
  {t : Tid} {read : Read}

/-- Thread `t` is in its pass over `read`. -/
structure InPass (t : Tid) (read : Read) (tr : History) : Prop where
  pass : .note (some t) (.pass read) ∈ tr
  stored : Stored tr read.version read.key read.workspace
  only : ∀ other, .note (some t) (.pass other) ∈ tr → other = read

theorem step_pass (h : (law rt options).step calls older (.note (some t) (.pass read))) :
    Passer calls t ∧ Stored older read.version read.key read.workspace ∧
      notesOf (S := sys) t older = [] := by
  cases h with
  | pass ht hstored hnew => exact ⟨ht, hstored, hnew⟩
  | acts _ hacts => exact absurd hacts id
  | observes _ hn => exact absurd hn id

theorem Legal.passer (h : (law rt options).Legal calls tr)
    (hpass : .note (some t) (.pass read) ∈ tr) : Passer calls t := by
  obtain ⟨newer, older, rfl⟩ := List.append_of_mem hpass
  exact (step_pass h.split.2).1

theorem Legal.inPass (h : (law rt options).Legal calls tr)
    (hpass : .note (some t) (.pass read) ∈ tr) : InPass t read tr := by
  refine ⟨hpass, ?_, ?_⟩
  · obtain ⟨newer, older, rfl⟩ := List.append_of_mem hpass
    have hstored := (step_pass h.split.2).2.1
    exact (hstored.cons _).mono newer
  · -- the pass is the first thing the thread notes
    intro other hother
    induction tr with
    | nil => cases hpass
    | cons e older ih =>
      have hfirst : ∀ {a b : Read}, e = .note (some t) (.pass a) →
          .note (some t) (.pass b) ∉ older := by
        rintro a b rfl hmem
        have hnone := (step_pass h.2).2.2
        have hin : .pass b ∈ notesOf (S := sys) t older := mem_notesOf.mpr hmem
        rw [hnone] at hin
        cases hin
      rcases List.mem_cons.mp hpass with heq | hpass
      · rcases List.mem_cons.mp hother with heq' | hother
        · rw [← heq] at heq'
          cases heq'
          rfl
        · exact absurd hother (hfirst heq.symm)
      · rcases List.mem_cons.mp hother with heq' | hother
        · exact absurd hpass (hfirst heq'.symm)
        · exact ih h.1 hpass hother

/-- The key an entry stores a value under, and the value. -/
theorem puts_inj {e : Entry Key (fun _ => Workspace) Note} {k k' : Key} {v v' : Workspace}
    (h : e.puts k = some v) (h' : e.puts k' = some v') : k = k' ∧ v = v' := by
  have hk : k = k' := Option.some.inj ((Entry.key_of_puts h).symm.trans (Entry.key_of_puts h'))
  subst hk
  exact ⟨rfl, Option.some.inj (h.symm.trans h')⟩

theorem withResidency_metadata_name (old : Workspace) (residency : Residency) :
    (withResidency old residency).metadata.name = old.metadata.name := by
  unfold withResidency
  split <;> rfl

theorem withResidency_metadata_uid (old : Workspace) (residency : Residency) :
    (withResidency old residency).metadata.uid = old.metadata.uid := by
  unfold withResidency
  split <;> rfl

theorem withResidency_status (old : Workspace) (residency : Residency) :
    (withResidency old residency).status = old.status := by
  unfold withResidency
  split <;> rfl

/-- A record is stored under its own name. -/
theorem Legal.key (h : (law rt options).Legal calls tr) {n : Nat} {k : Key} {v : Workspace}
    (hs : Stored tr n k v) : k = .workspace v.metadata.name := by
  induction tr generalizing n k v with
  | nil =>
    obtain ⟨newer, e, older, htr, -, -⟩ := hs
    cases newer <;> cases htr
  | cons e older ih =>
    rcases hs.cons_cases with ⟨hputs, -⟩ | hs
    · cases h.2 with
      | pass _ _ _ => cases hputs
      | acts _ _ => cases hputs
      | observes _ _ => cases hputs
      | delete => cases hputs
      | reports _ _ _ =>
        obtain ⟨rfl, rfl⟩ := puts_inj hputs (Entry.puts_update_self _ _ _)
        rfl
      | residency _ hold _ =>
        obtain ⟨rfl, rfl⟩ := puts_inj hputs (Entry.puts_update_self _ _ _)
        rw [withResidency_metadata_name]
        exact ih h.1 (lookup_stored hold)
      | records _ hold _ _ _ =>
        obtain ⟨rfl, rfl⟩ := puts_inj hputs (Entry.puts_update_self _ _ _)
        have hkey := ih h.1 (lookup_stored hold)
        exact hkey
      | create _ =>
        obtain ⟨rfl, rfl⟩ := puts_inj hputs (Entry.puts_create_self _ _ _)
        rfl
      | spec hold hallowed =>
        obtain ⟨rfl, rfl⟩ := puts_inj hputs (Entry.puts_update_self _ _ _)
        simp only [allowed, Bool.and_eq_true, beq_iff_eq] at hallowed
        rw [respecified, hallowed.1.1]
        exact ih h.1 (lookup_stored hold)
    · exact ih h.1 hs

end Facts

/-! ### Archive calls obey the law -/

section Runs

variable {rt : Runtime} {options : Options} {timeout : Int} {turns : Nat} {t : Tid}
  {w w' : World sys} {α : Type} {Q : α → World sys → Prop}

/-- The rows of a listing are stored records. -/
def Rows (rows : List Read) (w : World sys) : Prop :=
  ∀ row ∈ rows, Stored w.trace row.version row.key row.workspace

theorem Rows.later {rows : List Read} (h : Rows rows w) (hl : Later w w') : Rows rows w' :=
  fun row hrow => hl.stored (h row hrow)

theorem rows_of_listing (hi : (law rt options).Inv w) {rows : List (Row Key fun _ => Workspace)}
    (hperm : rows.Perm (listing (fun _ => true) w.trace)) :
    Rows (rows.map fun row => ⟨row.version, row.value⟩) w := by
  intro row hrow
  obtain ⟨r, hr, rfl⟩ := List.mem_map.mp hrow
  obtain ⟨-, hlook⟩ := mem_listing.mp (hperm.mem_iff.mp hr)
  have hstored := lookup_stored hlook
  have hkey := Legal.key hi.legal hstored
  rw [hkey] at hstored
  exact hstored

theorem runs_rows : Runs rt options timeout turns t workspaces Rows w := by
  unfold workspaces
  refine Safe.list fun w1 hr hi => ⟨fun rows hperm => ?_, Law.Obeys.fail⟩
  exact runs_ret fun w2 hg => Rows.later (rows_of_listing hi hperm) hg.later

/-- Thread `t` runs an archive call. -/
structure Calling (t : Tid) (w : World sys) : Prop where
  archiver : Archiver w.calls t
  lt : t.idx < w.next

theorem Calling.later (h : Calling t w) (hl : Later w w') : Calling t w' := by
  obtain ⟨id, principal, height, hcall⟩ := h.archiver
  exact ⟨⟨id, principal, height, (hl.calls t h.lt).trans hcall⟩, Nat.lt_of_lt_of_le h.lt hl.next⟩

/-- A request of an archive call, with the note it leaves. -/
theorem runs_observed {x : Ext} {k : x.Res → sys.Task α} (hcall : Calling t w)
    (hobs : ∀ c r n w', Later w w' → reply c x = some (r, some n) →
      Observes (notesOf (S := sys) t w'.trace) n)
    (hk : ∀ c r n w', reply c x = some (r, n) → Later w w' →
      (∀ m, n = some m → .note (some t) m ∈ w'.trace) →
      Runs rt options timeout turns t (k r) Q w') :
    Runs rt options timeout turns t (.call (.ext x) k) Q w := by
  refine Law.Obeys.ext fun w1 c a hg hi ha => ?_
  obtain ⟨⟨r, n⟩, hreply, rfl⟩ := Option.map_eq_some_iff.mp ha
  have hcall1 := hcall.later hg.later
  have hlater := Law.later_answered w1 t
    { res := r, notes := n.toList, mem := (), glob := () : Answer sys x }
  refine ⟨?_, hk c r n _ hreply (hg.later.trans hlater) ?_⟩
  · cases n with
    | none => exact hi.legal
    | some n =>
      have hstep : Step rt options w1.calls w1.trace (.note (some t) n) :=
        .observes hcall1.archiver (hobs c r n w1 hg.later hreply)
      exact ⟨hi.legal, hstep⟩
  · rintro m rfl
    rw [World.spawnAll_trace, World.answered_trace]
    exact List.mem_cons_self

/-- A request that returns at once, of any answer. -/
theorem runs_asked {x : Ext} (hcall : Calling t w)
    (hobs : ∀ c r n w', Later w w' → reply c x = some (r, some n) →
      Observes (notesOf (S := sys) t w'.trace) n) :
    Runs rt options timeout turns t (ask (S := sys) x) (fun _ _ => True) w :=
  runs_observed hcall hobs fun _ _ _ _ _ _ _ => runs_ret fun _ _ => trivial

theorem runs_asked_now (hcall : Calling t w) :
    Runs rt options timeout turns t now (fun _ _ => True) w := by
  apply runs_asked hcall
  intro c r n w' _ hr
  cases hr
  trivial

/-- A request that may fail. -/
theorem runs_tried {x : Ext} {β : Type} (hx : x.Res = Except Err β) (hcall : Calling t w)
    (hobs : ∀ c r n w', Later w w' → reply c x = some (r, some n) →
      Observes (notesOf (S := sys) t w'.trace) n) :
    Runs rt options timeout turns t (askOr (S := sys) x hx) (fun _ _ => True) w := by
  refine runs_observed hcall hobs fun c r n w' _ _ _ => ?_
  cases (hx ▸ r : Except Err β) with
  | error e => exact Law.Obeys.fail
  | ok a => exact runs_ret fun _ _ => trivial

/-- A command in the Pod or a snapshot, noted when it completes. -/
theorem runs_finished {x : Ext} {n : Note} (hx : x.Res = Except Err Unit)
    (hreply : ∀ c r m, reply c x = some (r, m) →
      (hx ▸ r : Except Err Unit) = .ok () ∧ m = some n ∨
        (∃ e, (hx ▸ r : Except Err Unit) = .error e) ∧ m = none)
    (hcall : Calling t w)
    (hobs : ∀ w', Later w w' → Observes (notesOf (S := sys) t w'.trace) n) :
    Runs rt options timeout turns t (askOr (S := sys) x hx)
      (fun _ w' => .note (some t) n ∈ w'.trace) w := by
  refine runs_observed hcall ?_ ?_
  · intro c r m w' hl hr
    rcases hreply c r _ hr with ⟨-, hm⟩ | ⟨-, hm⟩
    · cases hm
      exact hobs w' hl
    · cases hm
  · intro c r m w' hr _ hmem
    rcases hreply c r m hr with ⟨hok, rfl⟩ | ⟨⟨e, herr⟩, rfl⟩
    · simp only [hok]
      exact runs_ret fun w'' hg => hg.later.mem (hmem n rfl)
    · simp only [herr]
      exact Law.Obeys.fail

theorem runs_projects (hcall : Calling t w) :
    Runs rt options timeout turns t projects (fun _ _ => True) w := by
  apply runs_tried rfl hcall
  intro c r n w' _ hr
  cases hr

theorem runs_records {principal : GatewayPrincipal} (hcall : Calling t w) :
    Runs rt options timeout turns t (records principal) (fun p w' => Rows p.2 w') w := by
  unfold records
  apply Law.Obeys.seq (runs_projects hcall)
  intro known w1 hl1 _ _
  apply Law.Obeys.seq runs_rows
  intro rows w2 hl2 _ hrows
  apply Law.Obeys.seq (runs_asked_now (hcall.later (hl1.trans hl2)))
  intro instant w3 hl3 _ _
  simp only
  split
  · exact Law.Obeys.fail
  · exact runs_ret fun w' hg => (hrows.later hl3).later hg.later

/-- The row is a stored record of a running workspace. -/
structure RunningRow (row : Read) (w : World sys) : Prop where
  stored : Stored w.trace row.version row.key row.workspace
  running : row.workspace.spec.residency = .Running

theorem RunningRow.later {row : Read} (h : RunningRow row w) (hl : Later w w') :
    RunningRow row w' := ⟨hl.stored h.stored, h.running⟩

theorem runs_readyFrom {id : String} {principal : GatewayPrincipal} {deadline : Int}
    {rounds : Nat} (hcall : Calling t w) :
    Runs rt options timeout turns t (readyFrom id principal deadline rounds) RunningRow w := by
  induction rounds generalizing w with
  | zero =>
    unfold readyFrom
    apply Law.Obeys.seq (runs_asked (x := .stuck) hcall ?_)
    · exact fun _ _ _ _ _ => Law.Obeys.fail
    · intro c r n w' _ hr
      cases hr
  | succ rounds ih =>
    unfold readyFrom
    apply Law.Obeys.seq (runs_records hcall)
    rintro ⟨known, rows⟩ w1 hl1 _ hrows
    simp only
    split
    · exact Law.Obeys.fail
    · rename_i row hfound
      have hstored := hrows row (List.mem_of_find?_eq_some hfound)
      split
      · exact Law.Obeys.fail
      · split
        · exact Law.Obeys.fail
        · rename_i hrunning
          rw [Decidable.not_not] at hrunning
          have hrow : RunningRow row w1 := ⟨hstored, hrunning⟩
          split
          · exact runs_ret fun w' hg => hrow.later hg.later
          · have hcall1 := hcall.later hl1
            apply Law.Obeys.seq (runs_asked_now hcall1)
            intro instant w2 hl2 _ _
            split
            · exact Law.Obeys.fail
            · have hcall2 := hcall1.later hl2
              apply Law.Obeys.seq (runs_asked (x := .delay) hcall2 ?_)
              · exact fun _ w3 hl3 _ _ => ih (hcall2.later hl3)
              · intro c r n w' _ hr
                cases hr

/-- The workspace is running, and this call has run its teardown. -/
structure Finished (t : Tid) (row : Read) (w : World sys) : Prop where
  found : RunningRow row w
  tornDown : .note (some t) (.tornDown row.workspace) ∈ w.trace

theorem runs_finish {id : String} {principal : GatewayPrincipal} (hcall : Calling t w) :
    Runs rt options timeout turns t (finish rt timeout turns id principal) (Finished t) w := by
  unfold finish
  have hready : Runs rt options timeout turns t (ready timeout turns id principal) RunningRow w := by
    unfold ready
    apply Law.Obeys.seq (runs_asked_now hcall)
    exact fun _ w1 hl1 _ _ => runs_readyFrom (hcall.later hl1)
  apply Law.Obeys.seq hready
  intro row w1 hl1 _ hrow
  have hcall1 := hcall.later hl1
  have hsnapshot : Runs rt options timeout turns t
      (askOr (S := sys) (.snapshotInventory row.workspace) rfl : sys.Task Unit)
      (fun _ w' => .note (some t) (.snapshot row.workspace) ∈ w'.trace) w1 := by
    apply runs_finished rfl _ hcall1
    · exact fun _ _ => trivial
    · intro c r m hr
      simp only [reply, Option.some.injEq] at hr
      split at hr
      · cases hr
        exact .inr ⟨⟨_, rfl⟩, rfl⟩
      · cases hr
        exact .inl ⟨rfl, rfl⟩
  apply Law.Obeys.seq hsnapshot
  intro _ w2 hl2 _ htaken
  have hcall2 := hcall1.later hl2
  have hdown : Runs rt options timeout turns t (teardown rt row.workspace)
      (fun _ w' => .note (some t) (.tornDown row.workspace) ∈ w'.trace) w2 := by
    unfold teardown
    have hget : Runs rt options timeout turns t (get .Pod (resourceName rt row.workspace))
        (fun _ _ => True) w2 := by
      apply runs_tried rfl hcall2
      intro c r n w' _ hr
      simp only [reply, Option.some.injEq] at hr
      split at hr
      · cases hr
      · cases hr
        trivial
    apply Law.Obeys.seq hget
    intro pod w3 hl3 _ _
    cases pod with
    | none => exact Law.Obeys.fail
    | some pod =>
      simp only
      split
      · exact Law.Obeys.fail
      · apply runs_finished rfl _ (hcall2.later hl3)
        · intro w' hl'
          exact mem_notesOf.mpr ((hl3.trans hl').mem htaken)
        · intro c r m hr
          simp only [reply, Option.some.injEq] at hr
          split at hr
          · cases hr
            exact .inr ⟨⟨_, rfl⟩, rfl⟩
          · cases hr
            exact .inl ⟨rfl, rfl⟩
  apply Law.Obeys.seq hdown
  intro _ w3 hl3 _ htorn
  refine runs_ret fun w' hg => ⟨?_, hg.later.mem htorn⟩
  exact ((hrow.later hl2).later hl3).later hg.later

theorem runs_setResidency {row : Read} {residency : Residency} (hcall : Calling t w)
    (hstored : Stored w.trace row.version row.key row.workspace) :
    Runs rt options timeout turns t (setResidency row residency) (fun _ _ => True) w := by
  unfold setResidency
  split
  · exact Law.Obeys.fail
  · rename_i hallowed
    refine Safe.update fun w1 hr hi => ⟨fun old hold => ?_, fun _ => Law.Obeys.fail⟩
    cases (hr.1.later.stored hstored).eq_of_lookup hold
    have hstep : Step rt options w1.calls w1.trace
        (.update (some t) row.key (withResidency row.workspace residency)) := by
      refine .residency (hcall.later hr.1.later).archiver hold fun harchived => ?_
      by_contra hne
      exact hallowed ⟨harchived, hne⟩
    exact ⟨Law.keeps_push hi hstep, runs_ret fun _ _ => trivial, Law.Obeys.fail⟩

theorem runs_recordTeardown {row : Read} (hcall : Calling t w) (hfinished : Finished t row w) :
    Runs rt options timeout turns t (recordTeardown row) (fun _ _ => True) w := by
  unfold recordTeardown
  split
  · exact Law.Obeys.fail
  · rename_i value hvalue
    apply Law.Obeys.seq (runs_asked_now hcall)
    intro instant w1 hl1 _ _
    refine Safe.update fun w2 hr hi => ⟨fun old hold => ?_, fun _ => Law.Obeys.fail⟩
    have hl2 := hl1.trans hr.1.later
    cases (hl2.stored hfinished.found.stored).eq_of_lookup hold
    have hstep : Step rt options w2.calls w2.trace
        (.update (some t) row.key (withStatus row.workspace (tornDownAt value instant))) :=
      .records (hcall.later hl2).archiver hold hfinished.found.running hvalue
        (hl2.mem hfinished.tornDown)
    exact ⟨Law.keeps_push hi hstep, runs_ret fun _ _ => trivial, Law.Obeys.fail⟩

theorem runs_archive {id : String} {principal : GatewayPrincipal} (hcall : Calling t w) :
    Runs rt options timeout turns t (archive rt timeout turns id principal) (fun _ _ => True) w := by
  unfold archive
  apply Law.Obeys.seq (runs_records hcall)
  rintro ⟨known, rows⟩ w1 hl1 _ hrows
  have hcall1 := hcall.later hl1
  simp only
  split
  · exact Law.Obeys.fail
  · rename_i row hfound
    have hstored := hrows row (List.mem_of_find?_eq_some hfound)
    split
    · exact Law.Obeys.fail
    · split
      · exact runs_ret fun _ _ => trivial
      · unfold archiveFound
        have hresume : Runs rt options timeout turns t (resume row) (fun _ _ => True) w1 := by
          unfold resume
          split
          · exact runs_setResidency hcall1 hstored
          · exact runs_ret fun _ _ => trivial
        apply Law.Obeys.seq hresume
        intro _ w2 hl2 _ _
        have hcall2 := hcall1.later hl2
        have hfinish : Runs rt options timeout turns t
            (finish rt timeout turns id principal).attempt
            (fun r w' => ∀ row, r = .ok row → Finished t row w') w2 := by
          apply Safe.attempt
          apply Safe.mono (runs_finish hcall2)
          · rintro row w' h _ ⟨rfl⟩
            exact h
          · exact fun _ _ _ _ h => by cases h
        apply Law.Obeys.seq hfinish
        intro r w3 hl3 _ hdone
        have hcall3 := hcall2.later hl3
        cases r with
        | error e =>
          have hback : Runs rt options timeout turns t (giveBack id row) (fun _ _ => True) w3 := by
            unfold giveBack
            split
            · apply Law.Obeys.seq runs_rows
              intro rows w4 hl4 _ hrows
              split
              · rename_i current hcurrent
                exact runs_setResidency (hcall3.later hl4)
                  (hrows current (List.mem_of_find?_eq_some hcurrent))
              · exact runs_ret fun _ _ => trivial
            · exact runs_ret fun _ _ => trivial
          apply Law.Obeys.seq hback
          exact fun _ _ _ _ _ => Law.Obeys.fail
        | ok row =>
          apply Law.Obeys.seq (runs_recordTeardown hcall3 (hdone row rfl))
          intro _ w4 hl4 _ _
          have hcall4 := hcall3.later hl4
          unfold setArchived
          apply Law.Obeys.seq runs_rows
          intro rows w5 hl5 _ hrows
          split
          · exact Law.Obeys.fail
          · rename_i current hcurrent
            simp only
            split
            · exact Law.Obeys.fail
            · exact runs_setResidency (hcall4.later hl5)
                (hrows current (List.mem_of_find?_eq_some hcurrent))

theorem runs_resync {name : String} {height : Nat}
    (hcall : w.calls t = some ⟨.resync name, height⟩) (hlt : t.idx < w.next)
    (hnew : notesOf (S := sys) t w.trace = []) :
    Runs rt options timeout turns t (resync rt options name) (fun _ _ => True) w := by
  have hprojects : Runs rt options timeout turns t projects
      (fun _ w' => notesOf (S := sys) t w'.trace = []) w := by
    refine Law.Obeys.ext fun w1 c a hg hi ha => ?_
    cases ha
    refine ⟨hi.legal, ?_⟩
    have hnone : notesOf (S := sys) t w1.trace = [] := hg.notesOf_eq.trans hnew
    cases c.refused with
    | some e => exact Law.Obeys.fail
    | none => exact runs_ret fun w' hg' => hg'.notesOf_eq.trans hnone
  unfold resync
  apply Law.Obeys.seq hprojects
  intro known w1 hl1 _ hnone1
  have hrows : Runs rt options timeout turns t workspaces
      (fun rows w' => notesOf (S := sys) t w'.trace = [] ∧ Rows rows w') w1 := by
    unfold workspaces
    refine Safe.list fun w2 hr hi => ⟨fun rows hperm => ?_, Law.Obeys.fail⟩
    refine runs_ret fun w3 hg => ⟨?_, Rows.later (rows_of_listing hi hperm) hg.later⟩
    exact hg.notesOf_eq.trans (hr.1.notesOf_eq.trans hnone1)
  apply Law.Obeys.seq hrows
  rintro rows w2 hl2 _ ⟨hnone2, hrows⟩
  split
  · exact runs_ret fun _ _ => trivial
  · rename_i read hfound
    have hstored := hrows read (List.mem_of_find?_eq_some hfound)
    -- the pass begins
    refine Law.Obeys.ext fun w3 c a hg hi ha => ?_
    cases ha
    have hl3 := (hl1.trans hl2).trans hg.later
    have hstep : Step rt options w3.calls w3.trace (.note (some t) (.pass read)) := by
      refine .pass ⟨name, height, ?_⟩ (hg.later.stored hstored) (hg.notesOf_eq.trans hnone2)
      rw [hl3.calls t hlt]
      exact hcall
    refine ⟨⟨hi.legal, hstep⟩, ?_⟩
    have hat : At t read (notesOf (S := sys) t (.note (some t) (.pass read) :: w3.trace))
        (w3.answered t ({ res := (), notes := [.pass read], mem := (), glob := () } :
          Answer sys (.pass read))) := by
      constructor
      · exact (hg.later.stored hstored).cons _
      · exact List.mem_cons_self
      · rfl
    exact runs_reconcile hat

end Runs

theorem sound (rt : Runtime) (options : Options) (timeout : Int) (turns : Nat) :
    ((law rt options).protocol (machine rt options timeout turns)).Sound := by
  apply Law.sound
  · trivial
  · intro w e new g hi henv
    cases e with
    | create workspace =>
      simp only [machine, env] at henv
      split at henv
      · rename_i hfree
        cases henv
        exact ⟨hi.legal, .create (Option.isNone_iff_eq_none.mp hfree.2)⟩
      · cases henv
    | spec name metadata spec =>
      simp only [machine, env] at henv
      split at henv
      · cases henv
      · rename_i n old hold
        split at henv
        · rename_i hallowed
          cases henv
          exact ⟨hi.legal, .spec hold hallowed⟩
        · cases henv
    | delete name =>
      simp only [machine, env] at henv
      split at henv
      · cases henv
      · cases henv
        exact ⟨hi.legal, .delete⟩
  · intro w t c hi hcall hlt hnew
    cases c with
    | resync name => exact runs_resync hcall hlt (notesOf_nil hnew)
    | archive id principal => exact runs_archive ⟨⟨id, principal, _, hcall⟩, hlt⟩

theorem reachable_legal {rt : Runtime} {options : Options} {timeout : Int} {turns : Nat}
    {c : (machine rt options timeout turns).Config}
    (h : (machine rt options timeout turns).Reachable c) :
    (law rt options).Legal c.world.calls c.world.trace :=
  Law.reachable (sound rt options timeout turns) h

/-! ### Storage -/

/-- The notes of a pass so far. -/
abbrev noted (t : Tid) (tr : History) : List Note := notesOf (S := sys) t tr

/-- What no history ever does to the storage of a workspace, or to anything else that
    belongs to another one.  In each clause `older` is the history before the entry. -/
structure StorageKept (rt : Runtime) (options : Options) (tr : History) : Prop where
  /-- a claim is deleted in a pass that saw it under its workspace's label, and only when
      it was due -/
  collected : ∀ {newer older : History} {t : Tid} {name uid : String},
    tr = newer ++ .note (some t) (.deleted .PersistentVolumeClaim name uid) :: older →
    ∃ read, InPass t read older ∧ name = resourceName rt read.workspace ∧
      Owned read.workspace (noted t older) .PersistentVolumeClaim name uid ∧
      StorageDue rt read.workspace (noted t older)
  /-- the inventory is purged only after the claim was seen to be gone -/
  purged : ∀ {newer older : History} {t : Tid} {workspace : Workspace},
    tr = newer ++ .note (some t) (.purged workspace) :: older →
    ∃ read, InPass t read older ∧ workspace = read.workspace ∧
      StorageGone rt workspace (noted t older)
  /-- and so is the deletion date recorded -/
  released : ∀ {newer older : History} {a : Option Tid} {k : Key} {v old : Workspace} {n : Nat},
    tr = newer ++ .update a k v :: older → lookup k older = some (n, old) →
    v.status.bind WorkspaceStatus.storageDeletedAt ≠
      old.status.bind WorkspaceStatus.storageDeletedAt →
    ∃ t read, a = some t ∧ InPass t read older ∧ old = read.workspace ∧
      StorageGone rt read.workspace (noted t older)
  /-- every object a pass deletes carries the label of its workspace -/
  deleted : ∀ {newer older : History} {t : Tid} {kind : Kind} {name uid : String},
    tr = newer ++ .note (some t) (.deleted kind name uid) :: older →
    ∃ read, InPass t read older ∧ name = objectName rt read.workspace kind ∧
      Owned read.workspace (noted t older) kind name uid
  /-- so does every object it creates, where it saw none -/
  created : ∀ {newer older : History} {t : Tid} {object : Desired},
    tr = newer ++ .note (some t) (.created object) :: older →
    ∃ read, InPass t read older ∧ object.name = objectName rt read.workspace object.kind ∧
      read.workspace.metadata.uid = some object.workspaceUid ∧
      lastLook object.kind object.name (noted t older) = some none
  /-- so does the Secret it replaces, which is replaced at the version seen -/
  replaced : ∀ {newer older : History} {t : Tid} {object : Desired} {version : String},
    tr = newer ++ .note (some t) (.replaced object version) :: older →
    ∃ read seen, InPass t read older ∧ object.name = objectName rt read.workspace object.kind ∧
      read.workspace.metadata.uid = some object.workspaceUid ∧
      lastLook object.kind object.name (noted t older) = some (some seen) ∧
      seen.workspaceUid = read.workspace.metadata.uid ∧ seen.resourceVersion = version
  /-- a Pod is created only on a claim, a Service and an access Secret of its workspace -/
  launched : ∀ {newer older : History} {t : Tid} {object : Desired} {read : Read},
    tr = newer ++ .note (some t) (.created object) :: older → InPass t read older →
    object.kind = .Pod → Supplied rt options read.workspace (noted t older)
  /-- the teardown hooks of a pass run in a Pod of its workspace -/
  tornDown : ∀ {newer older : History} {t : Tid} {read : Read} {workspace : Workspace},
    tr = newer ++ .note (some t) (.tornDown workspace) :: older → InPass t read older →
    workspace = read.workspace ∧
      ∃ pod, lastLook .Pod (resourceName rt workspace) (noted t older) = some (some pod) ∧
        pod.workspaceUid = workspace.metadata.uid
  /-- whatever a pass reports that goes beyond stopping the workspace or refusing to start it,
      it reports of objects that are all its workspace's own -/
  relies : ∀ {newer older : History} {t : Tid} {read : Read} {k : Key} {v : Workspace}
    {value : WorkspaceStatus}, tr = newer ++ .update (some t) k v :: older →
    InPass t read older → v.status = some value →
    Aside value.message ∨ Equipped rt options read.workspace (noted t older)
  /-- a pass reports a workspace ready only on objects of its own -/
  ready : ∀ {newer older : History} {t : Tid} {read : Read} {k : Key} {v : Workspace}
    {value : WorkspaceStatus}, tr = newer ++ .update (some t) k v :: older →
    InPass t read older → v.status = some value → value.phase = .Ready →
    Equipped rt options read.workspace (noted t older)

section Storage

variable {rt : Runtime} {options : Options} {calls : Calls sys} {tr newer older : History}
  {t : Tid}

/-- What a pass notes besides its beginning. -/
theorem Legal.acts {n : Note}
    (h : (law rt options).Legal calls (newer ++ .note (some t) n :: older))
    (hn : ¬ Observes (noted t older) n) (hpass : ∀ read, n ≠ .pass read) :
    ∃ read, InPass t read older ∧ Acts rt options read.workspace (noted t older) n := by
  cases h.split.2 with
  | pass _ _ _ => exact absurd rfl (hpass _)
  | acts hin hacts => exact ⟨_, Legal.inPass h.split.1 hin, hacts⟩
  | observes _ hobs => exact absurd hobs hn

/-- What it notes while it is in its pass. -/
theorem Legal.actsIn {read : Read} {n : Note}
    (h : (law rt options).Legal calls (newer ++ .note (some t) n :: older))
    (hin : InPass t read older) : Acts rt options read.workspace (noted t older) n := by
  have hpasser := Legal.passer h.split.1 hin.pass
  cases h.split.2 with
  | pass _ _ hnone =>
    have hmem : .pass read ∈ notesOf (S := sys) t older := mem_notesOf.mpr hin.pass
    rw [hnone] at hmem
    cases hmem
  | acts hpass hacts =>
    cases hin.only _ hpass
    exact hacts
  | observes ht _ => exact absurd ht hpasser.not_archiver

/-- A status is written by a pass that read the record it replaces. -/
theorem Legal.reports {read : Read} {k : Key} {v : Workspace}
    (h : (law rt options).Legal calls (newer ++ .update (some t) k v :: older)) (hin : InPass t read older) :
    ∃ value, k = read.key ∧ v = withStatus read.workspace value ∧
      lookup read.key older = some (read.version, read.workspace) ∧
      Reports rt options read.workspace (noted t older) value := by
  have hpasser := Legal.passer h.split.1 hin.pass
  cases h.split.2 with
  | reports hpass hold hreports =>
    cases hin.only _ hpass
    exact ⟨_, rfl, rfl, hold, hreports⟩
  | residency ht _ _ => exact absurd ht hpasser.not_archiver
  | records ht _ _ _ _ => exact absurd ht hpasser.not_archiver

theorem Legal.released {a : Option Tid} {k : Key} {v old : Workspace} {n : Nat}
    (h : (law rt options).Legal calls (newer ++ .update a k v :: older))
    (hold : lookup k older = some (n, old))
    (hnew : v.status.bind WorkspaceStatus.storageDeletedAt ≠
      old.status.bind WorkspaceStatus.storageDeletedAt) :
    ∃ t read, a = some t ∧ InPass t read older ∧ old = read.workspace ∧
      StorageGone rt read.workspace (noted t older) := by
  cases h.split.2 with
  | reports hpass hcurrent hreports =>
    rw [hold] at hcurrent
    cases hcurrent
    refine ⟨_, _, rfl, Legal.inPass h.split.1 hpass, rfl, ?_⟩
    rcases hreports.released with hsame | hgone
    · exact absurd hsame hnew
    · exact hgone
  | residency _ hcurrent _ =>
    rw [hold] at hcurrent
    cases hcurrent
    rw [withResidency_status] at hnew
    exact absurd rfl hnew
  | records _ hcurrent _ hvalue _ =>
    rw [hold] at hcurrent
    cases hcurrent
    rw [hvalue] at hnew
    exact absurd rfl hnew
  | spec hcurrent _ =>
    rw [hold] at hcurrent
    cases hcurrent
    exact absurd rfl hnew

theorem storageKept (h : (law rt options).Legal calls tr) : StorageKept rt options tr := by
  constructor
  · rintro newer older t name uid rfl
    obtain ⟨read, hin, hname, howned, hdue⟩ := Legal.acts h id (fun _ h => by cases h)
    exact ⟨read, hin, hname, howned, hdue⟩
  · rintro newer older t workspace rfl
    obtain ⟨read, hin, rfl, hgone⟩ := Legal.acts h id (fun _ h => by cases h)
    exact ⟨read, hin, rfl, hgone⟩
  · rintro newer older a k v old n rfl hold hnew
    exact Legal.released h hold hnew
  · rintro newer older t kind name uid rfl
    obtain ⟨read, hin, hname, howned, -⟩ := Legal.acts h id (fun _ h => by cases h)
    exact ⟨read, hin, hname, howned⟩
  · rintro newer older t object rfl
    obtain ⟨read, hin, hname, huid, habsent, -⟩ := Legal.acts h id (fun _ h => by cases h)
    exact ⟨read, hin, hname, huid, habsent⟩
  · rintro newer older t object version rfl
    obtain ⟨read, hin, hname, huid, seen, hlook, hown, hversion⟩ :=
      Legal.acts h id (fun _ h => by cases h)
    exact ⟨read, seen, hin, hname, huid, hlook, hown, hversion⟩
  · rintro newer older t object read rfl hin hkind
    obtain ⟨-, -, -, hsupplied⟩ := Legal.actsIn h hin
    exact hsupplied hkind
  · rintro newer older t read workspace rfl hin
    obtain ⟨rfl, hpod⟩ := Legal.actsIn h hin
    exact ⟨rfl, hpod⟩
  · rintro newer older t read k v value rfl hin hstatus
    obtain ⟨value', rfl, rfl, -, hreports⟩ := Legal.reports h hin
    cases hstatus
    exact hreports.relies
  · rintro newer older t read k v value rfl hin hstatus hphase
    obtain ⟨value', rfl, rfl, -, hreports⟩ := Legal.reports h hin
    cases hstatus
    exact hreports.ready hphase

end Storage

theorem storage_kept (rt : Runtime) (options : Options) (timeout : Int) (turns : Nat)
    (c : (machine rt options timeout turns).Config)
    (h : (machine rt options timeout turns).Reachable c) :
    StorageKept rt options c.world.trace :=
  storageKept (reachable_legal h)

/-- The controller as `main.ts` wires it: every callback is there. -/
def wired (namespaceLimit : Option Nat) : Options := { namespaceLimit }

def demoRuntime : Runtime where
  sha256 := id
  dateParse := fun _ => some 0
  jsonParse := fun _ => none
  projectable := fun _ _ _ => true

abbrev demoMachine : Machine sys := machine demoRuntime (wired none) 0 1

def demoWorkspace (residency : Residency) : Workspace where
  metadata := { name := "w", uid := some "uid", generation := some 1 }
  spec := {
    projectRef := "p"
    displayName := "w"
    residency
    credentialProfile := "c"
    retentionPolicy := some { storage := .Retain, ttlAfterArchivedSeconds := some 0 } }

/-- An object of the workspace, which is ready if it is a Pod. -/
def demoObject : Infrastructure :=
  { uid := some "object", workspaceUid := some "uid", conditions := [("Ready", "True")] }

def demoAsk (t : Tid) : demoMachine.Move := .run t (.ext {})

def demoFound (t : Tid) : demoMachine.Move := .run t (.ext { found := some demoObject })

def demoStore (t : Tid) : demoMachine.Move := .run t (.store {})

/-- A pass begins. -/
def demoPass (t : Tid) : List demoMachine.Move :=
  [.start t.proc (.resync "w"), .run t (.ext { projects := [{ name := "p", credentialProfile := "c" }] }),
    demoStore t, demoAsk t]

/-- Thread `t` tears the archived workspace down, `u` deletes its Pod. -/
def demoStops (t u : Tid) : List demoMachine.Move :=
  (demoPass t ++ [demoFound t, demoAsk t, demoFound t, demoAsk t, demoAsk t, demoAsk t,
    demoStore t]) ++
  (demoPass u ++ [demoFound u, demoAsk u, demoAsk u, demoStore u])

/-- A pass tears an archived workspace down, the next deletes its Pod. -/
def demoTeardown : List demoMachine.Move :=
  .env (.create (demoWorkspace .Archived)) :: demoStops ⟨0, 0⟩ ⟨0, 1⟩

/-- A pass starts a workspace of which nothing is there. -/
def demoLaunch : List demoMachine.Move :=
  let t : Tid := ⟨0, 0⟩
  .env (.create (demoWorkspace .Running)) ::
    (demoPass t ++ [demoAsk t, demoAsk t, demoStore t, .run t (.ext { profile := some {} })] ++
      List.replicate 11 (demoAsk t) ++ [demoStore t])

/-- The last one collects the storage. -/
def demoCollect (t : Tid) : List demoMachine.Move :=
  demoPass t ++ [demoAsk t, demoAsk t, demoAsk t, demoAsk t, demoAsk t, demoAsk t, demoAsk t,
    demoFound t, demoAsk t, demoAsk t, demoAsk t, demoAsk t, demoStore t]

/-- The workspace is started, archived, torn down and its storage collected. -/
def demoLife : List demoMachine.Move :=
  demoLaunch ++ .env (.spec "w" { name := "w", uid := some "uid", generation := some 2 }
    (demoWorkspace .Archived).spec) :: (demoStops ⟨0, 1⟩ ⟨0, 2⟩ ++ demoCollect ⟨0, 3⟩)

/-- The objects that were created, the newest first. -/
def createdKinds (tr : History) : List Kind :=
  tr.filterMap fun e => match e with
    | .note _ (.created object) => some object.kind
    | _ => none

/-- The objects that were created, and when the storage of the workspace was reported
    deleted. -/
def demoReleased (c : demoMachine.Config) : List Kind × Option String :=
  (createdKinds c.world.trace, (lookup (.workspace "w") c.world.trace).bind fun p =>
    p.2.status.bind WorkspaceStatus.storageDeletedAt)

theorem storage_kept_demo : ∃ c : demoMachine.Config,
    demoMachine.initial.moves demoLife = some c ∧
      demoReleased c = ([.Pod, .Service, .PersistentVolumeClaim, .Secret],
        some "1970-01-01T00:00:00.000Z") ∧
      StorageKept demoRuntime (wired none) c.world.trace := by
  have hrun : (demoMachine.initial.moves demoLife).map demoReleased
      = some ([.Pod, .Service, .PersistentVolumeClaim, .Secret],
        some "1970-01-01T00:00:00.000Z") := by rfl
  obtain ⟨c, hc, hreleased⟩ := Option.map_eq_some_iff.mp hrun
  exact ⟨c, hc, hreleased,
    storage_kept demoRuntime (wired none) 0 1 c (Machine.Reachable.init.moves hc)⟩

/-! ### Teardown -/

/-- Thread `r` stored this teardown date after its own teardown of the workspace. -/
structure Wrote (r : Tid) (k : Key) (uid : Option String) (date : String) (tr : History) : Prop where
  entry : ∃ newer e older v workspace, tr = newer ++ e :: older ∧ e.author = some r ∧
    e.puts k = some v ∧ v.metadata.uid = uid ∧ teardownCompletedAt v = some date ∧
    workspace.metadata.uid = uid ∧ .note (some r) (.tornDown workspace) ∈ older

/-- Thread `r` recorded it after a completed snapshot and teardown of its own. -/
structure Recorded (r : Tid) (k : Key) (uid : Option String) (date : String) (tr : History) :
    Prop where
  entry : ∃ newer e older v workspace, tr = newer ++ e :: older ∧ e.author = some r ∧
    e.puts k = some v ∧ v.metadata.uid = uid ∧ teardownCompletedAt v = some date ∧
    workspace.metadata.uid = uid ∧ .note (some r) (.tornDown workspace) ∈ older ∧
    .note (some r) (.snapshot workspace) ∈ older

/-- The entry takes the record of `k` to `Archived`. -/
def Archives (k : Key) (old : Workspace) (older : History)
    (e : Entry Key (fun _ => Workspace) Note) : Prop :=
  (∃ n, lookup k older = some (n, old)) ∧ old.spec.residency ≠ .Archived ∧
    ∃ v, e.puts k = some v ∧ v.spec.residency = .Archived ∧ v.metadata.uid = old.metadata.uid

/-- Thread `r` set the residency of this record to `Archived`. -/
def SetArchived (r : Tid) (k : Key) (uid : Option String) (tr : History) : Prop :=
  ∃ newer e older old, tr = newer ++ e :: older ∧ e.author = some r ∧
    old.metadata.uid = uid ∧ Archives k old older e

/-- The teardown date belongs to this archive. -/
inductive OwnTeardown (calls : Calls sys) (k : Key) (uid : Option String) (date : String)
    (tr : History) : Prop
  /-- the archive call that recorded it set the residency -/
  | archive {r : Tid} : Archiver calls r → Recorded r k uid date tr → SetArchived r k uid tr →
      OwnTeardown calls k uid date tr
  /-- a pass over the archived record recorded it -/
  | controller {r : Tid} {read : Read} : InPass r read tr → read.key = k →
      read.workspace.metadata.uid = uid → read.workspace.spec.residency = .Archived →
      Recorded r k uid date tr → OwnTeardown calls k uid date tr

/-- Whenever a record is set to `Archived`, its teardown is unrecorded, or it is an archive
    call that sets it and the date present is the one this call stored. -/
def SetInOrder (calls : Calls sys) (tr : History) : Prop :=
  ∀ newer e older k old date, tr = newer ++ e :: older → Archives k old older e →
    teardownCompletedAt old = some date →
    ∃ r, e.author = some r ∧ Archiver calls r ∧ Wrote r k old.metadata.uid date older

/-- No pass that restores the Pod of an archived workspace finds a terminated one. -/
def NoneTerminated (rt : Runtime) (tr : History) : Prop :=
  ∀ t read, InPass t read tr → read.workspace.spec.residency = .Archived →
    teardownCompletedAt read.workspace = none → ¬ Restored rt read.workspace (noted t tr)

/-- Every Pod of an archived workspace that a pass deletes, and every workspace it reports
    archived, had its own snapshot and teardown. -/
structure SnapshotKept (calls : Calls sys) (tr : History) : Prop where
  deleted : ∀ {newer older : History} {t : Tid} {name uid : String} {read : Read},
    tr = newer ++ .note (some t) (.deleted .Pod name uid) :: older → InPass t read older →
    read.workspace.spec.residency = .Archived →
    ∃ date, teardownCompletedAt read.workspace = some date ∧
      OwnTeardown calls read.key read.workspace.metadata.uid date older
  reported : ∀ {newer older : History} {t : Tid} {read : Read} {k : Key} {v : Workspace}
    {value : WorkspaceStatus}, tr = newer ++ .update (some t) k v :: older →
    InPass t read older → v.status = some value → value.phase = .Archived →
    read.workspace.spec.residency = .Archived ∧
    ∃ date, teardownCompletedAt read.workspace = some date ∧
      OwnTeardown calls read.key read.workspace.metadata.uid date older

section Teardown

variable {rt : Runtime} {options : Options} {calls : Calls sys} {tr newer older : History}
  {t r : Tid} {k : Key} {uid : Option String} {date : String}

theorem Recorded.mono (h : Recorded r k uid date tr) (new : History) :
    Recorded r k uid date (new ++ tr) := by
  obtain ⟨newer, e, older, v, workspace, rfl, hrest⟩ := h.entry
  exact ⟨new ++ newer, e, older, v, workspace, by simp, hrest⟩

theorem SetArchived.mono (h : SetArchived r k uid tr) (new : History) :
    SetArchived r k uid (new ++ tr) := by
  obtain ⟨newer, e, older, old, rfl, hrest⟩ := h
  exact ⟨new ++ newer, e, older, old, by simp, hrest⟩

theorem OwnTeardown.mono (h : OwnTeardown calls k uid date tr) (new : History)
    (hlegal : (law rt options).Legal calls (new ++ tr)) :
    OwnTeardown calls k uid date (new ++ tr) := by
  cases h with
  | archive hr hrecorded hset => exact .archive hr (hrecorded.mono new) (hset.mono new)
  | controller hin hkey huid harchived hrecorded =>
    exact .controller (Legal.inPass hlegal (List.mem_append_right _ hin.pass)) hkey huid harchived
      (hrecorded.mono new)

theorem SetInOrder.tail {e : Entry Key (fun _ => Workspace) Note}
    (h : SetInOrder calls (e :: tr)) : SetInOrder calls tr := by
  rintro newer e' older k old date rfl
  exact h (e :: newer) e' older k old date rfl

/-- An archive call runs its teardown after its snapshot. -/
theorem Legal.snapshot (h : (law rt options).Legal calls tr) (hr : Archiver calls r)
    {workspace : Workspace} (hdown : .note (some r) (.tornDown workspace) ∈ tr) :
    .note (some r) (.snapshot workspace) ∈ tr := by
  obtain ⟨newer, older, rfl⟩ := List.append_of_mem hdown
  have htaken : .snapshot workspace ∈ notesOf (S := sys) r older := by
    cases h.split.2 with
    | acts hpass _ => exact absurd hr (Legal.passer h.split.1 hpass).not_archiver
    | observes _ hobs => exact hobs
  exact List.mem_append_right _ (List.mem_cons_of_mem _ (mem_notesOf.mp htaken))

theorem Wrote.recorded (h : (law rt options).Legal calls tr) (hr : Archiver calls r)
    (hw : Wrote r k uid date tr) : Recorded r k uid date tr := by
  obtain ⟨newer, e, older, v, workspace, rfl, hauthor, hputs, huid, hat, huid', hdown⟩ := hw.entry
  exact ⟨newer, e, older, v, workspace, rfl, hauthor, hputs, huid, hat, huid', hdown,
    Legal.snapshot h.split.1 hr hdown⟩

/-- The invariant: the teardown date on an archived record is its own. -/
theorem Legal.ownTeardown (hwired : options.beforeArchive = true)
    (h : (law rt options).Legal calls tr) (hset : SetInOrder calls tr) {n : Nat} {v : Workspace}
    (hs : Stored tr n k v) (harchived : v.spec.residency = .Archived)
    (hat : teardownCompletedAt v = some date) : OwnTeardown calls k v.metadata.uid date tr := by
  induction tr generalizing n k v date with
  | nil =>
    obtain ⟨newer, e, older, htr, -, -⟩ := hs
    cases newer <;> cases htr
  | cons e older ih =>
    have hold : ∀ {n k v date}, Stored older n k v → v.spec.residency = .Archived →
        teardownCompletedAt v = some date →
        OwnTeardown calls k v.metadata.uid date (e :: older) := fun hs harchived hat =>
      (ih h.1 hset.tail hs harchived hat).mono [e] h
    rcases hs.cons_cases with ⟨hputs, -⟩ | hs
    · cases h.2 with
      | pass _ _ _ => cases hputs
      | acts _ _ => cases hputs
      | observes _ _ => cases hputs
      | delete => cases hputs
      | @reports t read value hpass hcurrent hreports =>
        obtain ⟨rfl, rfl⟩ := puts_inj hputs (Entry.puts_update_self _ _ _)
        rcases hreports.tornDown with hsame | ⟨-, hdown, htaken⟩
        · apply hold (lookup_stored hcurrent) harchived
          rw [← hsame]
          exact hat
        · -- the pass itself has just torn the workspace down
          refine .controller (Legal.inPass h (List.mem_cons_of_mem _ hpass)) rfl rfl harchived ?_
          exact ⟨[], _, older, _, read.workspace, rfl, rfl, hputs, rfl, hat, rfl,
            mem_notesOf.mp hdown, mem_notesOf.mp (htaken hwired)⟩
      | @residency t k n old residency ht hcurrent hkeep =>
        obtain ⟨rfl, rfl⟩ := puts_inj hputs (Entry.puts_update_self _ _ _)
        have hat' : teardownCompletedAt old = some date := by
          rw [teardownCompletedAt, ← withResidency_status old residency]
          exact hat
        have huid := withResidency_metadata_uid old residency
        rw [huid]
        by_cases hwas : old.spec.residency = .Archived
        · exact hold (lookup_stored hcurrent) hwas hat'
        · have harchives : Archives k old older
              (.update (some t) k (withResidency old residency)) :=
            ⟨⟨n, hcurrent⟩, hwas, _, hputs, harchived, huid⟩
          obtain ⟨r, hauthor, hr, hwrote⟩ := hset [] _ older k old date rfl harchives hat'
          cases hauthor
          exact .archive hr ((hwrote.recorded h.1 hr).mono [_])
            ⟨[], _, older, old, rfl, rfl, rfl, harchives⟩
      | records _ _ hrunning _ _ =>
        obtain ⟨rfl, rfl⟩ := puts_inj hputs (Entry.puts_update_self _ _ _)
        have hno := hrunning.symm.trans harchived
        cases hno
      | create hstatus =>
        obtain ⟨rfl, rfl⟩ := puts_inj hputs (Entry.puts_create_self _ _ _)
        rw [teardownCompletedAt, hstatus] at hat
        cases hat
      | @spec k n old metadata spec hcurrent hallowed =>
        obtain ⟨rfl, rfl⟩ := puts_inj hputs (Entry.puts_update_self _ _ _)
        simp only [allowed, Bool.and_eq_true, beq_iff_eq] at hallowed
        have huid : (respecified old metadata spec).metadata.uid = old.metadata.uid :=
          hallowed.1.2
        rw [huid]
        by_cases hwas : old.spec.residency = .Archived
        · exact hold (lookup_stored hcurrent) hwas hat
        · -- the environment may not archive a record whose teardown is recorded
          obtain ⟨r, hauthor, -⟩ := hset [] _ older k old date rfl
            ⟨⟨n, hcurrent⟩, hwas, _, hputs, harchived, huid⟩ hat
          cases hauthor
    · exact hold hs harchived hat

theorem snapshotKept (hwired : options.beforeArchive = true)
    (h : (law rt options).Legal calls tr) (hset : SetInOrder calls tr)
    (hnone : NoneTerminated rt tr) : SnapshotKept calls tr := by
  have hsub : ∀ {newer e older}, tr = newer ++ e :: older → SetInOrder calls older := by
    rintro newer e older rfl newer' e' older' k old date rfl
    exact hset (newer ++ e :: newer') e' older' k old date (by simp)
  constructor
  · rintro newer older t name uid read htr hin harchived
    have hsplit := (htr ▸ h).split
    have hdown : (teardownCompletedAt read.workspace).isSome := by
      rw [htr] at h
      obtain ⟨read', hin', -, -, hwhy⟩ := Legal.acts h id (fun _ h => by cases h)
      cases hin.only _ hin'.pass
      rcases hwhy harchived with hdown | ⟨habsent, pod, hpod, hphase⟩
      · exact hdown
      · by_contra hmissing
        have hmem : ∀ n, n ∈ noted t older → n ∈ noted t tr := by
          intro n hn
          rw [htr]
          exact mem_notesOf.mpr (List.mem_append_right _
            (List.mem_cons_of_mem _ (mem_notesOf.mp hn)))
        refine hnone t read ?_ harchived (by simpa using hmissing)
          ⟨hmem _ habsent, pod, hmem _ hpod, hphase⟩
        rw [htr]
        exact Legal.inPass h (List.mem_append_right _ (List.mem_cons_of_mem _ hin.pass))
    obtain ⟨date, hat⟩ := Option.isSome_iff_exists.mp hdown
    exact ⟨date, hat, Legal.ownTeardown hwired hsplit.1 (hsub htr) hin.stored harchived hat⟩
  · rintro newer older t read k v value htr hin hstatus hphase
    rw [htr] at h
    obtain ⟨value', rfl, rfl, -, hreports⟩ := Legal.reports h hin
    cases hstatus
    obtain ⟨harchived, hdown⟩ := hreports.archived hphase
    obtain ⟨date, hat⟩ := Option.isSome_iff_exists.mp hdown
    exact ⟨harchived, date, hat,
      Legal.ownTeardown hwired h.split.1 (hsub htr) hin.stored harchived hat⟩

end Teardown

/-- **Every archive has its own final snapshot**, in every run that sets residencies to
    `Archived` in order. -/
theorem snapshot_kept (rt : Runtime) (limit : Option Nat) (timeout : Int) (turns : Nat)
    (c : (machine rt (wired limit) timeout turns).Config)
    (h : (machine rt (wired limit) timeout turns).Reachable c)
    (hset : SetInOrder c.world.calls c.world.trace) (hnone : NoneTerminated rt c.world.trace) :
    SnapshotKept c.world.calls c.world.trace :=
  snapshotKept rfl (reachable_legal h) hset hnone

/-! ### Runs in order and out of order -/

/-- No entry takes a record to `Archived`. -/
def neverArchives : History → Bool
  | [] => true
  | .update _ k v :: older =>
    (v.spec.residency != .Archived ||
      (lookup k older).all fun p => p.2.spec.residency == .Archived) && neverArchives older
  | .create _ k _ :: older => (lookup k older).isNone && neverArchives older
  | .delete _ _ :: older => neverArchives older
  | .note _ _ :: older => neverArchives older

theorem neverArchives_tail {e : Entry Key (fun _ => Workspace) Note} {older : History}
    (h : neverArchives (e :: older) = true) : neverArchives older = true := by
  cases e with
  | update a k v =>
    rw [neverArchives, Bool.and_eq_true] at h
    exact h.2
  | create a k v =>
    rw [neverArchives, Bool.and_eq_true] at h
    exact h.2
  | delete a k => exact h
  | note a n => exact h

theorem setInOrder_of_never {calls : Calls sys} {tr : History} (h : neverArchives tr = true) :
    SetInOrder calls tr := by
  rintro newer e older k old date rfl ⟨⟨n, hold⟩, hwas, v, hputs, harchived, -⟩ -
  have hsuffix : neverArchives (e :: older) = true := by
    induction newer with
    | nil => exact h
    | cons _ newer ih => exact ih (neverArchives_tail h)
  cases e with
  | update a k' v' =>
    obtain ⟨rfl, rfl⟩ := puts_inj hputs (Entry.puts_update_self _ _ _)
    simp [neverArchives, hold, hwas, harchived] at hsuffix
  | create a k' v' =>
    obtain ⟨rfl, rfl⟩ := puts_inj hputs (Entry.puts_create_self _ _ _)
    simp [neverArchives, hold] at hsuffix
  | delete a k' => cases hputs
  | note a n => cases hputs

/-- No Pod was seen that had terminated. -/
def seesNoneTerminated (e : Entry Key (fun _ => Workspace) Note) : Bool :=
  match e with
  | .note _ (.got _ _ (some pod)) => pod.phase != some "Succeeded" && pod.phase != some "Failed"
  | _ => true

theorem noneTerminated_of_all {rt : Runtime} {tr : History}
    (h : tr.all seesNoneTerminated = true) : NoneTerminated rt tr := by
  rintro t read - - - ⟨-, pod, hpod, hphase⟩
  have hseen := List.all_eq_true.mp h _ (mem_notesOf.mp hpod)
  simp only [seesNoneTerminated, Bool.and_eq_true, bne_iff_ne, ne_eq] at hseen
  rcases hphase with hphase | hphase
  · exact hseen.1 hphase
  · exact hseen.2 hphase

/-- The entry is a request to delete a Pod. -/
def deletesPod : Entry Key (fun _ => Workspace) Note → Bool
  | .note _ (.deleted .Pod _ _) => true
  | _ => false

/-- Whether a Pod was deleted, and whether the run was in order. -/
def demoOrder (c : demoMachine.Config) : Bool × Bool × Bool :=
  (c.world.trace.any deletesPod, neverArchives c.world.trace,
    c.world.trace.all seesNoneTerminated)

theorem snapshot_kept_demo : ∃ c : demoMachine.Config,
    demoMachine.initial.moves demoTeardown = some c ∧ c.world.trace.any deletesPod = true ∧
      SnapshotKept c.world.calls c.world.trace := by
  have hrun : (demoMachine.initial.moves demoTeardown).map demoOrder = some (true, true, true) := by
    rfl
  obtain ⟨c, hc, horder⟩ := Option.map_eq_some_iff.mp hrun
  simp only [demoOrder, Prod.mk.injEq] at horder
  exact ⟨c, hc, horder.1, snapshot_kept demoRuntime none 0 1 c (Machine.Reachable.init.moves hc)
    (setInOrder_of_never horder.2.1) (noneTerminated_of_all horder.2.2)⟩

/-- A workspace runs, and an archive call dies when it has recorded its teardown. -/
def demoAbandoned : List demoMachine.Move :=
  let t : Tid := ⟨0, 0⟩
  let u : Tid := ⟨1, 1⟩
  .env (.create (demoWorkspace .Running)) ::
    (demoPass t ++ [demoFound t, .run t (.ext { profile := some {} }), demoFound t, demoAsk t,
      demoAsk t, demoAsk t, demoFound t, demoFound t, demoFound t, demoAsk t, demoStore t]) ++
    [.start 1 (.archive "w" .owner), demoAsk u, demoStore u, demoAsk u, demoAsk u, demoAsk u,
      demoStore u, demoAsk u, demoAsk u, demoFound u, demoAsk u, demoAsk u, demoStore u, .crash 1]

/-- The workspace is used again, and then archived directly. -/
def demoStale : List demoMachine.Move :=
  let t : Tid := ⟨0, 2⟩
  .env (.spec "w" { name := "w", uid := some "uid", generation := some 2 }
    (demoWorkspace .Archived).spec) :: (demoPass t ++ [demoFound t, demoAsk t])

/-- The newest entry deletes a Pod in a pass of this thread over an archived record. -/
def deletesArchived (t : Tid) : History → Bool
  | .note a (.deleted .Pod _ _) :: older => a == some t && older.any fun e => match e with
    | .note b (.pass read) => b == some t && read.workspace.spec.residency == .Archived
    | _ => false
  | _ => false

theorem deletesArchived_spec {t : Tid} {tr : History} (h : deletesArchived t tr = true) :
    ∃ name uid older read, tr = .note (some t) (.deleted .Pod name uid) :: older ∧
      .note (some t) (.pass read) ∈ older ∧ read.workspace.spec.residency = .Archived := by
  unfold deletesArchived at h
  split at h
  · rename_i a name uid older
    rw [Bool.and_eq_true, List.any_eq_true, beq_iff_eq] at h
    obtain ⟨rfl, e, he, hpass⟩ := h
    split at hpass
    · rename_i b read
      rw [Bool.and_eq_true, beq_iff_eq, beq_iff_eq] at hpass
      obtain ⟨rfl, harchived⟩ := hpass
      exact ⟨name, uid, older, read, rfl, he, harchived⟩
    · cases hpass
  · cases h

/-- Only the environment stored an archived record, only thread `t` passed over one, and
    only thread `u` tore a workspace down. -/
def blames (t u : Tid) (e : Entry Key (fun _ => Workspace) Note) : Bool :=
  match e with
  | .create a _ v => a == none || v.spec.residency != .Archived
  | .update a _ v => a == none || v.spec.residency != .Archived
  | .note a (.pass read) => a == some t || read.workspace.spec.residency != .Archived
  | .note a (.tornDown _) => a == some u
  | .note _ _ => true
  | .delete _ _ => true

theorem not_ownTeardown {calls : Calls sys} {t u : Tid} (hne : t ≠ u) {k : Key}
    {uid : Option String} {date : String} {tr : History} (h : ∀ e ∈ tr, blames t u e = true) :
    ¬ OwnTeardown calls k uid date tr := by
  intro how
  cases how with
  | @archive r _ _ hset =>
    obtain ⟨newer, e, older, old, rfl, hauthor, -, -, -, v, hputs, harchived, -⟩ := hset
    have hblame := h e (by simp)
    cases e with
    | create a k' v' =>
      obtain ⟨rfl, rfl⟩ := puts_inj hputs (Entry.puts_create_self _ _ _)
      cases hauthor
      simp [blames, harchived] at hblame
    | update a k' v' =>
      obtain ⟨rfl, rfl⟩ := puts_inj hputs (Entry.puts_update_self _ _ _)
      cases hauthor
      simp [blames, harchived] at hblame
    | delete a k' => cases hputs
    | note a n => cases hputs
  | @controller r read hin _ _ harchived hrecorded =>
    obtain ⟨newer, e, older, v, workspace, rfl, -, -, -, -, -, hdown, -⟩ := hrecorded.entry
    have hpassed := h _ hin.pass
    have htore := h _ (List.mem_append_right newer (List.mem_cons_of_mem e hdown))
    simp only [blames, harchived, bne_self_eq_false, Bool.or_false, beq_iff_eq,
      Option.some.injEq] at hpassed htore
    exact hne (hpassed.symm.trans htore)

/-- What the run shows. -/
def demoShows (c : demoMachine.Config) : Bool × Bool :=
  (deletesArchived ⟨0, 2⟩ c.world.trace, c.world.trace.all (blames ⟨0, 2⟩ ⟨1, 1⟩))

/-- The controller deletes the Pod of an archived workspace on the teardown date an archive
    call left behind. -/
theorem stale_teardown : ¬ ∀ c : demoMachine.Config, demoMachine.Reachable c →
    SnapshotKept c.world.calls c.world.trace := by
  intro hkept
  have hrun : (demoMachine.initial.moves (demoAbandoned ++ demoStale)).map demoShows
      = some (true, true) := by rfl
  obtain ⟨c, hc, hshows⟩ := Option.map_eq_some_iff.mp hrun
  simp only [demoShows, Prod.mk.injEq] at hshows
  have hreach := Machine.Reachable.init.moves hc
  obtain ⟨name, uid, older, read, htr, hpass, harchived⟩ := deletesArchived_spec hshows.1
  have hlegal := reachable_legal hreach
  rw [htr] at hlegal
  have hin : InPass ⟨0, 2⟩ read older := Legal.inPass hlegal.1 hpass
  have hdeleted : ∀ {read}, InPass ⟨0, 2⟩ read older → read.workspace.spec.residency = .Archived →
      ∃ date, teardownCompletedAt read.workspace = some date ∧
        OwnTeardown c.world.calls read.key read.workspace.metadata.uid date older :=
    (hkept c hreach).deleted (htr.trans (List.nil_append _).symm)
  obtain ⟨date, -, hown⟩ := hdeleted hin harchived
  have hblames : ∀ e ∈ older, blames ⟨0, 2⟩ ⟨1, 1⟩ e = true := by
    intro e he
    apply List.all_eq_true.mp hshows.2
    rw [htr]
    exact List.mem_cons_of_mem _ he
  exact not_ownTeardown (by decide) hblames hown

end PaseoGateway.WorkspaceArchive
