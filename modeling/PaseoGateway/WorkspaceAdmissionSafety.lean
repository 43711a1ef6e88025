/-
  PaseoGateway/WorkspaceAdmissionSafety.lean
  ==========================================
  **Admission keeps the running workspaces within capacity.**

  `Move` says once what a step can do.  The calls form one chain (`Chained`), so at most one
  of them has a request under way (`Chained.alone`).  Since other writers only lower the
  counts, what a call read stays an upper bound until its create is served (`Counted`), as
  long as no create is applied after its promise was rejected (`Prompt`).
  Which workspace a name stands for changes only by a removal (`Known`).
-/
import PaseoGateway.JsMap
import PaseoGateway.WorkspaceAdmission

namespace PaseoGateway.WorkspaceAdmission

open StepRuns Js

/-! ### Counts of rows -/

section Rows

variable {l l' l'' : List Workspace} {w row : Workspace} {rows rows' : Rows} {project : String}

theorem length_runningIn :
    (runningIn l project).length = l.countP fun r => r.spec.projectRef = project && runs r := by
  rw [runningIn, running, List.filter_filter, ← List.countP_eq_length_filter]

theorem length_running : (running l).length = l.countP runs :=
  List.countP_eq_length_filter.symm

/-- No more running workspaces than before, in all and in each project. -/
structure Fewer (l l' : List Workspace) : Prop where
  all : (running l').length ≤ (running l).length
  each : ∀ project, (runningIn l' project).length ≤ (runningIn l project).length

theorem Fewer.refl (l : List Workspace) : Fewer l l := ⟨Nat.le_refl _, fun _ => Nat.le_refl _⟩

theorem Fewer.trans (h : Fewer l l') (h' : Fewer l' l'') : Fewer l l'' :=
  ⟨Nat.le_trans h'.all h.all, fun project => Nat.le_trans (h'.each project) (h.each project)⟩

theorem Fewer.map {f : Workspace → Workspace}
    (h : ∀ r ∈ l, runs (f r) → runs r ∧ (f r).spec.projectRef = r.spec.projectRef) :
    Fewer l (l.map f) where
  all := by
    rw [length_running, length_running, List.countP_map]
    exact List.countP_mono_left fun r hr hruns => (h r hr hruns).1
  each project := by
    rw [length_runningIn, length_runningIn, List.countP_map]
    refine List.countP_mono_left fun r hr hin => ?_
    simp only [Function.comp, Bool.and_eq_true, decide_eq_true_eq] at hin ⊢
    obtain ⟨hruns, hproject⟩ := h r hr hin.2
    exact ⟨hproject.symm.trans hin.1, hruns⟩

theorem Fewer.filter (p : Workspace → Bool) : Fewer l (l.filter p) where
  all := by
    rw [length_running, length_running]
    exact List.filter_sublist.countP_le
  each project := by
    rw [length_runningIn, length_runningIn]
    exact List.filter_sublist.countP_le

theorem Fewer.append (hw : ¬ runs w) : Fewer l (l ++ [w]) where
  all := by simp [length_running, hw]
  each project := by simp [length_runningIn, hw]

/-- One more workspace makes each count one greater at most. -/
theorem length_running_append : (running (l ++ [w])).length ≤ (running l).length + 1 := by
  rw [length_running, length_running, List.countP_append, List.countP_singleton]
  split <;> omega

theorem length_runningIn_append :
    (runningIn (l ++ [w]) project).length ≤ (runningIn l project).length + 1 := by
  rw [length_runningIn, length_runningIn, List.countP_append, List.countP_singleton]
  split <;> omega

/-- There is still a workspace of that name and UID. -/
def Held (l : List Workspace) (row : Workspace) : Prop :=
  ∃ r ∈ l, r.metadata.name = row.metadata.name ∧ r.metadata.uid = row.metadata.uid

theorem Held.of_mem (h : row ∈ l) : Held l row := ⟨row, h, rfl, rfl⟩

theorem Rows.eq_of_find (hfind : rows.find w.metadata.name = some row) {r : Workspace}
    (hr : r ∈ rows.list) (hname : r.metadata.name = w.metadata.name) : r = row := by
  have hfound := find?_of_nodup rows.unique hr
  rw [hname] at hfound
  exact Option.some.inj (hfound.symm.trans hfind)

theorem Rows.add_eq_some (h : rows.add w = some rows') :
    rows'.list = rows.list ++ [w] ∧ ∀ r ∈ rows.list, r.metadata.name ≠ w.metadata.name := by
  unfold Rows.add at h
  split at h
  · cases h
  · next hfree =>
    cases h
    exact ⟨rfl, fun r hr heq => hfree (heq ▸ List.mem_map_of_mem hr)⟩

theorem Rows.held_unique {r : Workspace} (hr : r ∈ rows.list) (h : Held rows.list row)
    (hname : r.metadata.name = row.metadata.name) : r.metadata.uid = row.metadata.uid := by
  obtain ⟨r', hr', hname', huid⟩ := h
  have heq : r = r' := by
    have hfound := find?_of_nodup rows.unique hr
    have hfound' := find?_of_nodup rows.unique hr'
    rw [hname'.trans hname.symm] at hfound'
    exact Option.some.inj (hfound.symm.trans hfound')
  rw [heq, huid]

end Rows

/-! ### The check -/

/-- There is room for one more workspace of the project. -/
structure Room (namespaceLimit : Option Nat) (project : Project) (l : List Workspace) :
    Prop where
  all : ∀ limit, namespaceLimit = some limit → (running l).length < limit
  each : ∀ max, project.maxRunningWorkspaces = some max →
    (runningIn l project.name).length < max

section Check

variable {limit : Option Nat} {workspace row : Workspace} {project : Project}
  {l l' : List Workspace}

theorem Room.fewer (h : Room limit project l) (hfew : Fewer l l') : Room limit project l' :=
  ⟨fun n hn => Nat.lt_of_le_of_lt hfew.all (h.all n hn),
    fun n hn => Nat.lt_of_le_of_lt (hfew.each _) (h.each n hn)⟩

theorem check_existing (h : check limit workspace project l = .ok (some row)) :
    row ∈ l ∧ row.metadata.name = workspace.metadata.name := by
  unfold check at h
  split at h
  · next existing hfind =>
    cases h
    exact ⟨List.mem_of_find?_eq_some hfind, by simpa using List.find?_some hfind⟩
  · split at h
    · cases h
    · split at h <;> cases h

theorem check_room (h : check limit workspace project l = .ok none) : Room limit project l := by
  unfold check at h
  split at h
  · cases h
  · split at h
    · cases h
    · next hall =>
      split at h
      · cases h
      · next heach =>
        constructor
        · rintro n rfl
          simpa using hall
        · intro n hn
          simpa [hn] using heach

end Check

/-! ### What a step can do -/

/-- What becomes of the operation of a call without a change of the store. -/
inductive Answer (limit : Option Nat) (s : State) (c : Call) : Phase → Prop
  | snapshot : c.phase = .listing → Answer limit s c (.listed s.rows.list)
  | existing {l row} : c.phase = .listed l → row ∈ l →
      row.metadata.name = c.workspace.metadata.name → Answer limit s c (.settled (.ok row))
  | room {l} : c.phase = .listed l → Room limit c.project l → Answer limit s c .creating
  | taken : Answer limit s c (.created (.error alreadyExists))
  | replied {row} : c.phase = .created (.ok row) → Answer limit s c (.settled (.ok row))
  | failed {error} : Answer limit s c (.settled (.error error))

inductive Move (limit : Option Nat) (s : State) : State → Prop
  | create (workspace : Workspace) (project : Project) :
      Move limit s (create s workspace project)
  | begin {call c} : s.calls[call]? = some c → c.phase = .queued →
      tailSettled s.calls c.prev = true →
      Move limit s { s with calls := moveTo s.calls call .listing, log := .begun call :: s.log }
  | answer {call c phase abandoned} : s.calls[call]? = some c → c.phase.awaits = true →
      Answer limit s c phase →
      Move limit s { s with calls := moveTo s.calls call phase, abandoned }
  | commit {call c uid rows} : s.calls[call]? = some c → c.phase = .creating →
      s.rows.add (newRow c.workspace uid) = some rows →
      Move limit s { s with
        rows
        issued := uid :: s.issued
        calls := moveTo s.calls call (.created (.ok (newRow c.workspace uid)))
        log := .created call (newRow c.workspace uid) rows.list :: s.log }
  | late {call c uid rows abandoned} : s.calls[call]? = some c →
      s.rows.add (newRow c.workspace uid) = some rows →
      Move limit s { s with
        rows
        issued := uid :: s.issued
        log := .late call :: .created call (newRow c.workspace uid) rows.list :: s.log
        abandoned }
  | write {rows issued} : Fewer s.rows.list rows.list →
      (∀ r ∈ s.rows.list, Held rows.list r) → Move limit s { s with rows, issued }
  | remove {rows name} : Fewer s.rows.list rows.list →
      (∀ r ∈ s.rows.list, r.metadata.name ≠ name → r ∈ rows.list) →
      Move limit s { s with rows, log := .removed name :: s.log }

section Steps

variable {limit : Option Nat} {s s' : State} {call : Nat}

theorem move_listed (h : listed limit s call = some s') : Move limit s s' := by
  unfold listed at h
  split at h
  · next workspace project prev l hcall =>
    split at h
    · cases h
      exact .answer hcall rfl .failed
    · next existing hcheck =>
      cases h
      exact .answer hcall rfl
        (.existing rfl (check_existing hcheck).1 (check_existing hcheck).2)
    · next hcheck =>
      cases h
      exact .answer hcall rfl (.room rfl (check_room hcheck))
  · cases h

theorem move_commit {uid : String} (h : commit s call uid = some s') : Move limit s s' := by
  unfold commit at h
  split at h
  · next workspace project prev hcall =>
    split at h
    · cases h
    · split at h
      · next rows hadd =>
        cases h
        exact .commit hcall rfl hadd
      · cases h
        exact .answer hcall rfl .taken
  · cases h

theorem move_reply (h : reply s call = some s') : Move limit s s' := by
  unfold reply at h
  split at h
  · next workspace project prev result hcall =>
    cases h
    rcases result with error | row
    · exact .answer hcall rfl .failed
    · exact .answer hcall rfl (.replied rfl)
  · cases h

theorem move_late {uid : String} (h : late s call uid = some s') : Move limit s s' := by
  unfold late at h
  split at h
  · next workspace project prev phase hcall =>
    split at h
    · cases h
    · obtain ⟨rows, hadd, rfl⟩ := Option.map_eq_some_iff.mp h
      exact .late hcall hadd
  · cases h

theorem move_write {row : Workspace} (h : write s row = some s') : Move limit s s' := by
  unfold write at h
  split at h
  · next old hfind =>
    split at h
    · next hkeeps =>
      cases h
      have hold : ∀ r ∈ s.rows.list, r.metadata.name = row.metadata.name → r = old :=
        fun r hr hname => Rows.eq_of_find hfind hr hname
      refine .write (Fewer.map fun r hr hruns => ?_) fun r hr => ?_
      · by_cases hname : r.metadata.name = row.metadata.name
        · rw [if_pos hname] at hruns ⊢
          rw [hold r hr hname]
          exact hkeeps.2 hruns
        · rw [if_neg hname] at hruns ⊢
          exact ⟨hruns, rfl⟩
      · refine ⟨_, List.mem_map_of_mem hr, ?_⟩
        by_cases hname : r.metadata.name = row.metadata.name
        · rw [if_pos hname, hkeeps.1, hold r hr hname]
          exact ⟨hold r hr hname ▸ hname.symm, rfl⟩
        · rw [if_neg hname]
          exact ⟨rfl, rfl⟩
    · cases h
  · split at h
    · next hfresh =>
      obtain ⟨rows, hadd, rfl⟩ := Option.map_eq_some_iff.mp h
      have hlist := (Rows.add_eq_some hadd).1
      refine .write ?_ fun r hr => ?_
      · rw [hlist]
        exact Fewer.append hfresh.2
      · rw [hlist]
        exact .of_mem (List.mem_append_left _ hr)
    · cases h

theorem step_move {e : Event} (h : step limit s e = some s') : Move limit s s' := by
  rcases e with ⟨workspace, project⟩ | call | call | call | ⟨call, uid⟩ | call | ⟨call, error⟩ |
    ⟨call, uid⟩ | row | name
  · cases h
    exact .create workspace project
  · simp only [step, begin] at h
    split at h
    · next workspace project prev hcall =>
      split at h
      · next htail =>
        cases h
        exact .begin hcall rfl htail
      · cases h
    · cases h
  · simp only [step, snapshot] at h
    split at h
    · next workspace project prev hcall =>
      cases h
      exact .answer hcall rfl (.snapshot rfl)
    · cases h
  · exact move_listed h
  · exact move_commit h
  · exact move_reply h
  · simp only [step, reject] at h
    split at h
    · next hawaits =>
      cases h
      obtain ⟨c, hcall, hc⟩ := (Option.any_eq_true _ _).mp hawaits
      exact .answer hcall hc .failed
    · cases h
  · exact move_late h
  · exact move_write h
  · simp only [step, remove] at h
    split at h
    · cases h
      refine .remove (Fewer.filter _) fun r hr hname => ?_
      exact List.mem_filter.mpr ⟨hr, by simpa using hname⟩
    · cases h

end Steps

/-! ### The chain of calls -/

section Calls

variable {calls : List Call} {call i j : Nat} {c d : Call} {phase : Phase}

theorem getElem?_moveTo (hcall : calls[call]? = some c) :
    (moveTo calls call phase)[i]? = if i = call then some { c with phase } else calls[i]? := by
  rw [moveTo, List.getElem?_modify]
  by_cases hi : i = call
  · simp [hi, hcall]
  · simp [hi, Ne.symm hi]

/-- A call of the moved list is the moved one or was there before. -/
theorem of_getElem?_moveTo (hcall : calls[call]? = some c)
    (hi : (moveTo calls call phase)[i]? = some d) :
    (i = call ∧ d = { c with phase }) ∨ (i ≠ call ∧ calls[i]? = some d) := by
  rw [getElem?_moveTo hcall] at hi
  split at hi
  · next heq => exact .inl ⟨heq, (Option.some.inj hi).symm⟩
  · next hne => exact .inr ⟨hne, hi⟩

theorem of_getElem?_push (hi : (calls ++ [c])[i]? = some d) :
    (i = calls.length ∧ d = c) ∨ calls[i]? = some d := by
  rcases Nat.lt_trichotomy i calls.length with hlt | heq | hgt
  · rw [List.getElem?_append_left hlt] at hi
    exact .inr hi
  · rw [heq] at hi
    simp only [List.getElem?_concat_length, Option.some.injEq] at hi
    exact .inl ⟨heq, hi.symm⟩
  · rw [List.getElem?_eq_none (by simpa using Nat.succ_le_of_lt hgt)] at hi
    cases hi

def SettledAt (calls : List Call) (call : Nat) : Prop :=
  ∃ c, calls[call]? = some c ∧ c.phase.isSettled = true

theorem SettledAt.push (h : SettledAt calls i) : SettledAt (calls ++ [c]) i := by
  obtain ⟨d, hd, hsettled⟩ := h
  refine ⟨d, ?_, hsettled⟩
  rw [List.getElem?_append_left (List.getElem?_eq_some_iff.mp hd).1, hd]

/-- A settled call is none that moves. -/
theorem SettledAt.move (h : SettledAt calls i) (hcall : calls[call]? = some c)
    (hc : c.phase.isSettled = false) : SettledAt (moveTo calls call phase) i := by
  obtain ⟨d, hd, hsettled⟩ := h
  refine ⟨d, ?_, hsettled⟩
  rw [getElem?_moveTo hcall, if_neg, hd]
  rintro rfl
  rw [hcall] at hd
  cases hd
  simp [hc] at hsettled

end Calls

def begunCall : Entry → Option Nat
  | .begun call => some call
  | _ => none

/-- Every operation is chained to the one before it, and they start in this order. -/
structure Chained (s : State) : Prop where
  tail : ∀ j, s.tail = some j ↔ j + 1 = s.calls.length
  prev : ∀ i c, s.calls[i]? = some c → ∀ j, c.prev = some j ↔ j + 1 = i
  serial : ∀ i c, s.calls[i]? = some c → c.phase ≠ .queued → ∀ j < i, SettledAt s.calls j
  order : ∃ n ≤ s.calls.length, (s.log.filterMap begunCall).reverse = List.range n ∧
    ∀ i c, s.calls[i]? = some c → (c.phase = .queued ↔ n ≤ i)

section Chain

variable {limit : Option Nat} {s s' : State} {call i j : Nat} {c d : Call} {phase : Phase}

theorem not_settled_of_awaits (h : phase.awaits = true) : phase.isSettled = false := by
  cases phase <;> simp_all [Phase.awaits, Phase.isSettled]

theorem ne_queued_of_awaits (h : phase.awaits = true) : phase ≠ .queued := by
  rintro rfl
  cases h

/-- At most one request is under way. -/
theorem Chained.alone (h : Chained s) (hi : s.calls[i]? = some c) (hc : c.phase.awaits = true)
    (hj : s.calls[j]? = some d) (hd : d.phase.awaits = true) : i = j := by
  have hnot : ∀ {i j : Nat} {c d : Call}, s.calls[i]? = some c → c.phase.awaits = true →
      s.calls[j]? = some d → d.phase.awaits = true → ¬ j < i := by
    intro i j c d hi hc hj hd hlt
    obtain ⟨d', hd', hsettled⟩ := h.serial i c hi (ne_queued_of_awaits hc) j hlt
    rw [hj] at hd'
    cases hd'
    simp [not_settled_of_awaits hd] at hsettled
  exact Nat.le_antisymm (Nat.le_of_not_lt (hnot hi hc hj hd))
    (Nat.le_of_not_lt (hnot hj hd hi hc))

/-- A call whose predecessor is through has only settled calls before it. -/
theorem Chained.before_settled (h : Chained s) (hcall : s.calls[call]? = some c)
    (htail : tailSettled s.calls c.prev = true) : ∀ j < call, SettledAt s.calls j := by
  intro j hj
  obtain ⟨prev, rfl⟩ : ∃ prev, call = prev + 1 := ⟨call - 1, by omega⟩
  rw [(h.prev _ c hcall prev).mpr rfl] at htail
  obtain ⟨d, hd, hsettled⟩ := (Option.any_eq_true _ _).mp htail
  rcases Nat.lt_or_ge j prev with hlt | hge
  · refine h.serial prev d hd ?_ j hlt
    intro hqueued
    simp [hqueued, Phase.isSettled] at hsettled
  · exact (Nat.le_antisymm (Nat.le_of_lt_succ hj) hge) ▸ ⟨d, hd, hsettled⟩

theorem Chained.push (h : Chained s) (workspace : Workspace) (project : Project) :
    Chained (create s workspace project) where
  tail j := by simp [create, eq_comm]
  prev i c hi j := by
    rcases of_getElem?_push hi with ⟨rfl, rfl⟩ | hi
    · exact h.tail j
    · exact h.prev i c hi j
  serial i c hi hc j hj := by
    rcases of_getElem?_push hi with ⟨rfl, rfl⟩ | hi
    · exact absurd rfl hc
    · exact (h.serial i c hi hc j hj).push
  order := by
    obtain ⟨n, hn, hlog, hqueued⟩ := h.order
    refine ⟨n, ?_, hlog, fun i c hi => ?_⟩
    · simpa [create] using Nat.le_succ_of_le hn
    · rcases of_getElem?_push hi with ⟨rfl, rfl⟩ | hi
      · exact iff_of_true rfl hn
      · exact hqueued i c hi

theorem Chained.start (h : Chained s) (hcall : s.calls[call]? = some c)
    (hqueued : c.phase = .queued) (htail : tailSettled s.calls c.prev = true) :
    Chained { s with
      calls := moveTo s.calls call .listing
      log := .begun call :: s.log } where
  tail j := by simpa [moveTo] using h.tail j
  prev i d hi := by
    rcases of_getElem?_moveTo hcall hi with ⟨rfl, rfl⟩ | ⟨-, hi⟩
    · exact h.prev _ c hcall
    · exact h.prev i d hi
  serial i d hi hd j hj := by
    have hsettled : c.phase.isSettled = false := by rw [hqueued]; rfl
    refine SettledAt.move ?_ hcall hsettled
    rcases of_getElem?_moveTo hcall hi with ⟨rfl, rfl⟩ | ⟨-, hi⟩
    · exact h.before_settled hcall htail j hj
    · exact h.serial i d hi hd j hj
  order := by
    obtain ⟨n, hn, hlog, hphase⟩ := h.order
    -- the call that starts is the first one that is queued
    have hcalln : call = n := by
      refine Nat.le_antisymm (Nat.le_of_not_lt fun hlt => ?_) ((hphase call c hcall).mp hqueued)
      obtain ⟨d, hd, hsettled⟩ := h.before_settled hcall htail n hlt
      rw [(hphase n d hd).mpr (Nat.le_refl n)] at hsettled
      cases hsettled
    subst hcalln
    refine ⟨call + 1, ?_, ?_, fun i d hi => ?_⟩
    · simpa [moveTo] using Nat.succ_le_of_lt (List.getElem?_eq_some_iff.mp hcall).1
    · simp [List.range_succ, begunCall, hlog]
    · rcases of_getElem?_moveTo hcall hi with ⟨rfl, rfl⟩ | ⟨hne, hi⟩
      · exact iff_of_false (by simp) (Nat.not_succ_le_self _)
      · rw [hphase i d hi]
        omega

/-- A call goes on from one request to the next or to its end. -/
theorem Chained.continue (h : Chained s) (hcall : s.calls[call]? = some c)
    (hc : c.phase.awaits = true) (hphase : phase ≠ .queued) {rows : Rows} {issued : List String}
    {abandoned : List Nat} (entries : List Entry) (hentries : entries.filterMap begunCall = []) :
    Chained ⟨rows, issued, s.tail, moveTo s.calls call phase, entries ++ s.log, abandoned⟩ where
  tail j := by simpa [moveTo] using h.tail j
  prev i d hi := by
    rcases of_getElem?_moveTo hcall hi with ⟨rfl, rfl⟩ | ⟨-, hi⟩
    · exact h.prev _ c hcall
    · exact h.prev i d hi
  serial i d hi hd j hj := by
    refine SettledAt.move ?_ hcall (not_settled_of_awaits hc)
    rcases of_getElem?_moveTo hcall hi with ⟨rfl, rfl⟩ | ⟨-, hi⟩
    · exact h.serial _ c hcall (ne_queued_of_awaits hc) j hj
    · exact h.serial i d hi hd j hj
  order := by
    obtain ⟨n, hn, hlog, hqueued⟩ := h.order
    refine ⟨n, by simpa [moveTo] using hn, by simpa [hentries] using hlog, fun i d hi => ?_⟩
    rcases of_getElem?_moveTo hcall hi with ⟨rfl, rfl⟩ | ⟨-, hi⟩
    · rw [← hqueued _ c hcall]
      exact iff_of_false hphase (ne_queued_of_awaits hc)
    · exact hqueued i d hi

/-- What happens in the store alone touches neither the calls nor the tail. -/
theorem Chained.other (h : Chained s) {rows : Rows} {issued : List String}
    {abandoned : List Nat} (entries : List Entry) (hentries : entries.filterMap begunCall = []) :
    Chained ⟨rows, issued, s.tail, s.calls, entries ++ s.log, abandoned⟩ where
  tail := h.tail
  prev := h.prev
  serial := h.serial
  order := by simpa [hentries] using h.order

theorem Answer.ne_queued (h : Answer limit s c phase) : phase ≠ .queued := by
  rcases h with _ | _ | _ | _ | _ | _ <;> simp

theorem Chained.move (hmove : Move limit s s') (h : Chained s) : Chained s' := by
  rcases hmove with ⟨workspace, project⟩ | ⟨hcall, hqueued, htail⟩ | ⟨hcall, hc, hanswer⟩ |
    ⟨hcall, hc, hadd⟩ | ⟨hcall, hadd⟩ | ⟨hfew, hheld⟩ | ⟨hfew, hkept⟩
  · exact h.push workspace project
  · exact h.start hcall hqueued htail
  · exact h.continue hcall hc hanswer.ne_queued [] rfl
  · exact h.continue hcall (by rw [hc]; rfl) (by simp) [.created _ _ _] rfl
  · exact h.other [.late _, .created _ _ _] rfl
  · exact h.other [] rfl
  · exact h.other [.removed _] rfl

end Chain

/-! ### Capacity -/

/-- The counts are within the limits. -/
structure Within (namespaceLimit : Option Nat) (project : Project) (l : List Workspace) :
    Prop where
  all : ∀ limit, namespaceLimit = some limit → (running l).length ≤ limit
  each : ∀ max, project.maxRunningWorkspaces = some max →
    (runningIn l project.name).length ≤ max

theorem Room.append {limit : Option Nat} {project : Project} {l : List Workspace}
    (h : Room limit project l) (w : Workspace) : Within limit project (l ++ [w]) :=
  ⟨fun n hn => Nat.le_trans length_running_append (h.all n hn),
    fun n hn => Nat.le_trans length_runningIn_append (h.each n hn)⟩

/-- The calls keep what they were called with. -/
def Stays (calls calls' : List Call) : Prop :=
  ∀ (i : Nat) (c : Call), calls[i]? = some c →
    ∃ c', calls'[i]? = some c' ∧ c'.workspace = c.workspace ∧ c'.project = c.project

/-- No create was applied after its promise had been rejected. -/
def Prompt (s : State) : Prop := ∀ call, .late call ∉ s.log

/-- What a call has read or checked still bounds the counts. -/
structure Counted (limit : Option Nat) (s : State) : Prop where
  listed : ∀ (i : Nat) (c : Call) l, s.calls[i]? = some c → c.phase = .listed l →
    Fewer l s.rows.list
  creating : ∀ (i : Nat) (c : Call), s.calls[i]? = some c → c.phase = .creating →
    Room limit c.project s.rows.list
  created : ∀ call row rows, Entry.created call row rows ∈ s.log →
    ∃ c, s.calls[call]? = some c ∧ (∃ uid, row = newRow c.workspace uid) ∧ row ∈ rows ∧
      Within limit c.project rows

section Capacity

variable {limit : Option Nat} {s s' : State} {calls : List Call} {call i : Nat} {c d : Call}
  {phase : Phase}

theorem stays_push : Stays calls (calls ++ [c]) := by
  intro i d hi
  refine ⟨d, ?_, rfl, rfl⟩
  rw [List.getElem?_append_left (List.getElem?_eq_some_iff.mp hi).1, hi]

theorem stays_moveTo (hcall : calls[call]? = some c) : Stays calls (moveTo calls call phase) := by
  intro i d hi
  rw [getElem?_moveTo hcall]
  split
  · next heq =>
    rw [heq, hcall] at hi
    cases hi
    exact ⟨_, rfl, rfl, rfl⟩
  · exact ⟨d, hi, rfl, rfl⟩

theorem Counted.created_stays (h : Counted limit s) (hstays : Stays s.calls calls) (call : Nat)
    (row : Workspace) (rows : List Workspace) (hj : Entry.created call row rows ∈ s.log) :
    ∃ c, calls[call]? = some c ∧ (∃ uid, row = newRow c.workspace uid) ∧ row ∈ rows ∧
      Within limit c.project rows := by
  obtain ⟨c, hc, ⟨uid, hrow⟩, hmem, hwithin⟩ := h.created call row rows hj
  obtain ⟨c', hc', hworkspace, hproject⟩ := hstays call c hc
  exact ⟨c', hc', ⟨uid, hworkspace ▸ hrow⟩, hmem, hproject ▸ hwithin⟩

theorem Counted.answer (h : Counted limit s) (hcall : s.calls[call]? = some c)
    (hanswer : Answer limit s c phase) {abandoned : List Nat} :
    Counted limit { s with calls := moveTo s.calls call phase, abandoned } where
  listed i d l hi hd := by
    rcases of_getElem?_moveTo hcall hi with ⟨rfl, rfl⟩ | ⟨-, hi⟩
    · rcases hanswer with _ | _ | _ | _ | _ | _ <;> cases hd
      exact Fewer.refl _
    · exact h.listed i d l hi hd
  creating i d hi hd := by
    rcases of_getElem?_moveTo hcall hi with ⟨rfl, rfl⟩ | ⟨-, hi⟩
    · rcases hanswer with _ | _ | ⟨hlisted, hroom⟩ | _ | _ | _ <;> cases hd
      exact hroom.fewer (h.listed _ c _ hcall hlisted)
    · exact h.creating i d hi hd
  created := h.created_stays (stays_moveTo hcall)

/-- A create that is served finds the room its call has seen, and no other call has. -/
theorem Counted.commit (h : Counted limit s) (hchained : Chained s)
    (hcall : s.calls[call]? = some c) (hc : c.phase = .creating) {uid : String} {rows : Rows}
    (hadd : s.rows.add (newRow c.workspace uid) = some rows) :
    Counted limit { s with
      rows
      issued := uid :: s.issued
      calls := moveTo s.calls call (.created (.ok (newRow c.workspace uid)))
      log := .created call (newRow c.workspace uid) rows.list :: s.log } := by
  have hlist := (Rows.add_eq_some hadd).1
  have halone : ∀ {i : Nat} {d : Call}, i ≠ call → s.calls[i]? = some d →
      d.phase.awaits = false := by
    intro i d hne hi
    by_contra hawaits
    exact hne (hchained.alone hi (by simpa using hawaits) hcall (by rw [hc]; rfl))
  constructor
  · intro i d l hi hd
    rcases of_getElem?_moveTo hcall hi with ⟨rfl, rfl⟩ | ⟨hne, hi⟩
    · cases hd
    · have hawaits := halone hne hi
      rw [hd] at hawaits
      cases hawaits
  · intro i d hi hd
    rcases of_getElem?_moveTo hcall hi with ⟨rfl, rfl⟩ | ⟨hne, hi⟩
    · cases hd
    · have hawaits := halone hne hi
      rw [hd] at hawaits
      cases hawaits
  · intro j row rows' hj
    rcases List.mem_cons.mp hj with hj | hj
    · cases hj
      refine ⟨_, (getElem?_moveTo hcall).trans (if_pos rfl), ⟨uid, rfl⟩, ?_, ?_⟩
      · simp [hlist]
      · rw [hlist]
        exact (h.creating _ c hcall hc).append _
    · exact h.created_stays (stays_moveTo hcall) j row rows' hj

/-- The log only grows. -/
theorem Prompt.before (hmove : Move limit s s') (h : Prompt s') : Prompt s := by
  intro call hmem
  rcases hmove with ⟨workspace, project⟩ | ⟨hcall, hqueued, htail⟩ | ⟨hcall, hc, hanswer⟩ |
    ⟨hcall, hc, hadd⟩ | ⟨hcall, hadd⟩ | ⟨hfew, hheld⟩ | ⟨hfew, hkept⟩
  · exact h call hmem
  · exact h call (List.mem_cons_of_mem _ hmem)
  · exact h call hmem
  · exact h call (List.mem_cons_of_mem _ hmem)
  · exact h call (List.mem_cons_of_mem _ (List.mem_cons_of_mem _ hmem))
  · exact h call hmem
  · exact h call (List.mem_cons_of_mem _ hmem)

theorem Counted.move (hmove : Move limit s s') (hchained : Chained s) (hprompt : Prompt s')
    (h : Counted limit s) : Counted limit s' := by
  rcases hmove with ⟨workspace, project⟩ | ⟨hcall, hqueued, htail⟩ | ⟨hcall, hc, hanswer⟩ |
    ⟨hcall, hc, hadd⟩ | ⟨hcall, hadd⟩ | ⟨hfew, hheld⟩ | ⟨hfew, hkept⟩
  · constructor
    · intro i c l hi hc
      rcases of_getElem?_push hi with ⟨-, rfl⟩ | hi
      · cases hc
      · exact h.listed i c l hi hc
    · intro i c hi hc
      rcases of_getElem?_push hi with ⟨-, rfl⟩ | hi
      · cases hc
      · exact h.creating i c hi hc
    · exact h.created_stays stays_push
  · constructor
    · intro i d l hi hd
      rcases of_getElem?_moveTo hcall hi with ⟨rfl, rfl⟩ | ⟨-, hi⟩
      · cases hd
      · exact h.listed i d l hi hd
    · intro i d hi hd
      rcases of_getElem?_moveTo hcall hi with ⟨rfl, rfl⟩ | ⟨-, hi⟩
      · cases hd
      · exact h.creating i d hi hd
    · intro j row rows hj
      exact h.created_stays (stays_moveTo hcall) j row rows (by simpa using hj)
  · exact h.answer hcall hanswer
  · exact h.commit hchained hcall hc hadd
  · exact absurd List.mem_cons_self (hprompt _)
  · exact ⟨fun i c l hi hc => (h.listed i c l hi hc).trans hfew,
      fun i c hi hc => (h.creating i c hi hc).fewer hfew, h.created⟩
  · exact ⟨fun i c l hi hc => (h.listed i c l hi hc).trans hfew,
      fun i c hi hc => (h.creating i c hi hc).fewer hfew,
      fun j row rows hj => h.created j row rows (by simpa using hj)⟩

end Capacity

/-! ### Which workspace a name stands for -/

section Log

variable {log newer older : List Entry} {e x : Entry} {l l' : List Workspace}

theorem of_cons_eq (h : e :: log = newer ++ x :: older) :
    (newer = [] ∧ e = x ∧ log = older) ∨ ∃ rest, newer = e :: rest ∧ log = rest ++ x :: older := by
  rcases newer with _ | ⟨y, rest⟩
  · simp only [List.nil_append, List.cons.injEq] at h
    exact .inl ⟨rfl, h⟩
  · simp only [List.cons_append, List.cons.injEq] at h
    exact .inr ⟨rest, by rw [h.1], h.2⟩

/-- Between two creates of one name the workspace was removed. -/
def Recreated (log : List Entry) : Prop :=
  ∀ newer between older a row rows b row' rows',
    log = newer ++ .created b row' rows' :: (between ++ .created a row rows :: older) →
    row.metadata.name = row'.metadata.name → .removed row.metadata.name ∈ between

/-- What was created and not removed since is there. -/
def Standing (log : List Entry) (l : List Workspace) : Prop :=
  ∀ newer older a row rows, log = newer ++ .created a row rows :: older →
    .removed row.metadata.name ∉ newer → ∃ r ∈ l, r.metadata.name = row.metadata.name

theorem Recreated.cons (h : Recreated log) (he : ∀ a row rows, e ≠ .created a row rows) :
    Recreated (e :: log) := by
  intro newer between older a row rows b row' rows' heq hname
  rcases of_cons_eq heq with ⟨-, hcreated, -⟩ | ⟨rest, -, hlog⟩
  · exact absurd hcreated (he b row' rows')
  · exact h rest between older a row rows b row' rows' hlog hname

theorem Standing.cons (h : Standing log l) (he : ∀ a row rows, e ≠ .created a row rows)
    (hkept : ∀ r ∈ l, e ≠ .removed r.metadata.name →
      ∃ r' ∈ l', r'.metadata.name = r.metadata.name) : Standing (e :: log) l' := by
  intro newer older a row rows heq hnot
  rcases of_cons_eq heq with ⟨-, hcreated, -⟩ | ⟨rest, rfl, hlog⟩
  · exact absurd hcreated (he a row rows)
  · simp only [List.mem_cons, not_or] at hnot
    obtain ⟨r, hr, hname⟩ := h rest older a row rows hlog hnot.2
    obtain ⟨r', hr', hname'⟩ := hkept r hr (hname ▸ Ne.symm hnot.1)
    exact ⟨r', hr', hname'.trans hname⟩

theorem Standing.mono (h : Standing log l) (hheld : ∀ r ∈ l, Held l' r) : Standing log l' := by
  intro newer older a row rows heq hnot
  obtain ⟨r, hr, hname⟩ := h newer older a row rows heq hnot
  obtain ⟨r', hr', hname', -⟩ := hheld r hr
  exact ⟨r', hr', hname'.trans hname⟩

/-- A create is served where no workspace has the name. -/
theorem Recreated.created (h : Recreated log) (hstanding : Standing log l) {call : Nat}
    {w : Workspace} {rows : List Workspace}
    (hfree : ∀ r ∈ l, r.metadata.name ≠ w.metadata.name) :
    Recreated (.created call w rows :: log) := by
  intro newer between older a row rows b row' rows' heq hname
  rcases of_cons_eq heq with ⟨-, hcreated, hlog⟩ | ⟨rest, -, hlog⟩
  · cases hcreated
    by_contra hnot
    obtain ⟨r, hr, hr'⟩ := hstanding between older a row rows hlog hnot
    exact hfree r hr (hr'.trans hname)
  · exact h rest between older a row rows b row' rows' hlog hname

theorem Standing.created (h : Standing log l) {call : Nat} {w : Workspace}
    {rows : List Workspace} : Standing (.created call w rows :: log) (l ++ [w]) := by
  intro newer older a row rows heq hnot
  rcases of_cons_eq heq with ⟨-, hcreated, -⟩ | ⟨rest, rfl, hlog⟩
  · cases hcreated
    exact ⟨w, by simp, rfl⟩
  · simp only [List.mem_cons, not_or] at hnot
    obtain ⟨r, hr, hname⟩ := h rest older a row rows hlog hnot.2
    exact ⟨r, List.mem_append_left _ hr, hname⟩

end Log

/-- The rows that an operation holds or ended with. -/
def seenIn : Phase → List Workspace
  | .listed rows => rows
  | .created (.ok row) | .settled (.ok row) => [row]
  | _ => []

def Seen (s : State) (row : Workspace) : Prop :=
  (∃ (i : Nat) (c : Call), s.calls[i]? = some c ∧ row ∈ seenIn c.phase) ∨
    ∃ call rows, Entry.created call row rows ∈ s.log

/-- A workspace that was seen is the one of its name as long as that is not removed. -/
structure Known (s : State) : Prop where
  seen : ∀ row, Seen s row → .removed row.metadata.name ∉ s.log → Held s.rows.list row
  named : ∀ (i : Nat) (c : Call) row, s.calls[i]? = some c →
    c.phase = .created (.ok row) ∨ c.phase = .settled (.ok row) →
    row.metadata.name = c.workspace.metadata.name
  standing : Standing s.log s.rows.list
  recreated : Recreated s.log

section Identity

variable {limit : Option Nat} {s s' : State} {call : Nat} {c : Call} {phase : Phase}

theorem Held.mono {l l' : List Workspace} {row : Workspace} (h : Held l row)
    (hheld : ∀ r ∈ l, Held l' r) : Held l' row := by
  obtain ⟨r, hr, hname, huid⟩ := h
  obtain ⟨r', hr', hname', huid'⟩ := hheld r hr
  exact ⟨r', hr', hname'.trans hname, huid'.trans huid⟩

theorem Known.push (h : Known s) (workspace : Workspace) (project : Project) :
    Known (create s workspace project) where
  seen row hseen hnot := by
    refine h.seen row ?_ hnot
    rcases hseen with ⟨i, c, hi, hrow⟩ | hseen
    · rcases of_getElem?_push hi with ⟨-, rfl⟩ | hi
      · cases hrow
      · exact .inl ⟨i, c, hi, hrow⟩
    · exact .inr hseen
  named i c row hi hc := by
    rcases of_getElem?_push hi with ⟨-, rfl⟩ | hi
    · rcases hc with hc | hc <;> cases hc
    · exact h.named i c row hi hc
  standing := h.standing
  recreated := h.recreated

/-- The start of an operation shows it nothing. -/
theorem Known.start (h : Known s) (hcall : s.calls[call]? = some c) :
    Known { s with
      calls := moveTo s.calls call .listing
      log := .begun call :: s.log } where
  seen row hseen hnot := by
    refine h.seen row ?_ (fun hmem => hnot (List.mem_cons_of_mem _ hmem))
    rcases hseen with ⟨i, d, hi, hrow⟩ | ⟨a, rows, ha⟩
    · rcases of_getElem?_moveTo hcall hi with ⟨-, rfl⟩ | ⟨-, hi⟩
      · cases hrow
      · exact .inl ⟨i, d, hi, hrow⟩
    · exact .inr ⟨a, rows, by simpa using ha⟩
  named i d row hi hd := by
    rcases of_getElem?_moveTo hcall hi with ⟨-, rfl⟩ | ⟨-, hi⟩
    · rcases hd with hd | hd <;> cases hd
    · exact h.named i d row hi hd
  standing := h.standing.cons (by simp) fun r hr _ => ⟨r, hr, rfl⟩
  recreated := h.recreated.cons (by simp)

theorem Answer.seen (hanswer : Answer limit s c phase) {row : Workspace}
    (hrow : row ∈ seenIn phase) : row ∈ s.rows.list ∨ row ∈ seenIn c.phase := by
  rcases hanswer with _ | ⟨hlisted, hmem, -⟩ | _ | _ | hreplied | _
  · exact .inl hrow
  · cases List.mem_singleton.mp hrow
    exact .inr (by rw [hlisted]; exact hmem)
  · cases hrow
  · cases hrow
  · exact .inr (by rw [hreplied]; exact hrow)
  · cases hrow

theorem Known.answer (h : Known s) (hcall : s.calls[call]? = some c)
    (hanswer : Answer limit s c phase) {abandoned : List Nat} :
    Known { s with calls := moveTo s.calls call phase, abandoned } where
  seen row hseen hnot := by
    rcases hseen with ⟨i, d, hi, hrow⟩ | hseen
    · rcases of_getElem?_moveTo hcall hi with ⟨-, rfl⟩ | ⟨-, hi⟩
      · rcases hanswer.seen hrow with hmem | hrow
        · exact .of_mem hmem
        · exact h.seen row (.inl ⟨call, c, hcall, hrow⟩) hnot
      · exact h.seen row (.inl ⟨i, d, hi, hrow⟩) hnot
    · exact h.seen row (.inr hseen) hnot
  named i d row hi hd := by
    rcases of_getElem?_moveTo hcall hi with ⟨-, rfl⟩ | ⟨-, hi⟩
    · rcases hanswer with _ | ⟨-, -, hname⟩ | _ | _ | hreplied | _ <;> simp at hd
      · exact hd ▸ hname
      · exact h.named call c row hcall (.inl (hd ▸ hreplied))
    · exact h.named i d row hi hd
  standing := h.standing
  recreated := h.recreated

theorem Known.commit (h : Known s) (hcall : s.calls[call]? = some c) {uid : String}
    {rows : Rows} (hadd : s.rows.add (newRow c.workspace uid) = some rows) :
    Known { s with
      rows
      issued := uid :: s.issued
      calls := moveTo s.calls call (.created (.ok (newRow c.workspace uid)))
      log := .created call (newRow c.workspace uid) rows.list :: s.log } := by
  obtain ⟨hlist, hfree⟩ := Rows.add_eq_some hadd
  have hnew : Held rows.list (newRow c.workspace uid) := .of_mem (by simp [hlist])
  have hold : ∀ row, Seen s row → .removed row.metadata.name ∉ s.log → Held rows.list row :=
    fun row hseen hnot => (h.seen row hseen hnot).mono fun r hr => .of_mem (by simp [hlist, hr])
  constructor
  · intro row hseen hnot
    have hnot' : .removed row.metadata.name ∉ s.log := fun hmem =>
      hnot (List.mem_cons_of_mem _ hmem)
    rcases hseen with ⟨i, d, hi, hrow⟩ | ⟨a, rows', ha⟩
    · rcases of_getElem?_moveTo hcall hi with ⟨-, rfl⟩ | ⟨-, hi⟩
      · cases List.mem_singleton.mp hrow
        exact hnew
      · exact hold row (.inl ⟨i, d, hi, hrow⟩) hnot'
    · rcases List.mem_cons.mp ha with ha | ha
      · cases ha
        exact hnew
      · exact hold row (.inr ⟨a, rows', ha⟩) hnot'
  · intro i d row hi hd
    rcases of_getElem?_moveTo hcall hi with ⟨-, rfl⟩ | ⟨-, hi⟩
    · rcases hd with hd | hd <;> cases hd
      rfl
    · exact h.named i d row hi hd
  · show Standing _ rows.list
    rw [hlist]
    exact h.standing.created
  · exact h.recreated.created h.standing hfree

/-- A create that is applied late finds its name free as well. -/
theorem Known.late (h : Known s) {uid : String} {rows : Rows}
    (hadd : s.rows.add (newRow c.workspace uid) = some rows) {abandoned : List Nat} :
    Known { s with
      rows
      issued := uid :: s.issued
      log := .late call :: .created call (newRow c.workspace uid) rows.list :: s.log
      abandoned } := by
  obtain ⟨hlist, hfree⟩ := Rows.add_eq_some hadd
  have hstanding : Standing (.created call (newRow c.workspace uid) rows.list :: s.log)
      rows.list := by
    rw [hlist]
    exact h.standing.created
  constructor
  · intro row hseen hnot
    have hnot' : .removed row.metadata.name ∉ s.log := fun hmem =>
      hnot (List.mem_cons_of_mem _ (List.mem_cons_of_mem _ hmem))
    have hold : Seen s row → Held rows.list row := fun hseen =>
      (h.seen row hseen hnot').mono fun r hr => .of_mem (by simp [hlist, hr])
    rcases hseen with ⟨i, d, hi, hrow⟩ | ⟨a, rows', ha⟩
    · exact hold (.inl ⟨i, d, hi, hrow⟩)
    · simp only [List.mem_cons, reduceCtorEq, false_or] at ha
      rcases ha with ha | ha
      · cases ha
        exact .of_mem (by simp [hlist])
      · exact hold (.inr ⟨a, rows', ha⟩)
  · exact h.named
  · exact hstanding.cons (by simp) fun r hr _ => ⟨r, hr, rfl⟩
  · exact (h.recreated.created h.standing hfree).cons (by simp)

theorem Known.move (hmove : Move limit s s') (h : Known s) : Known s' := by
  rcases hmove with ⟨workspace, project⟩ | ⟨hcall, hqueued, htail⟩ | ⟨hcall, hc, hanswer⟩ |
    ⟨hcall, hc, hadd⟩ | ⟨hcall, hadd⟩ | ⟨hfew, hheld⟩ | ⟨hfew, hkept⟩
  · exact h.push workspace project
  · exact h.start hcall
  · exact h.answer hcall hanswer
  · exact h.commit hcall hadd
  · exact h.late hadd
  · exact ⟨fun row hseen hnot => (h.seen row hseen hnot).mono hheld, h.named,
      h.standing.mono hheld, h.recreated⟩
  · refine ⟨fun row hseen hnot => ?_, h.named, ?_, h.recreated.cons (by simp)⟩
    · simp only [List.mem_cons, not_or] at hnot
      have hseen' : Seen s row := hseen.imp id fun ⟨a, rows, ha⟩ => ⟨a, rows, by simpa using ha⟩
      obtain ⟨r, hr, hname, huid⟩ := h.seen row hseen' hnot.2
      refine ⟨r, hkept r hr ?_, hname, huid⟩
      rintro rfl
      exact hnot.1 (by rw [hname])
    · refine h.standing.cons (by simp) fun r hr hne => ⟨r, hkept r hr ?_, rfl⟩
      rintro rfl
      exact hne rfl

end Identity

/-! ### Every schedule -/

/-- What holds of admission after every schedule. -/
structure Sound (namespaceLimit : Option Nat) (s : State) : Prop where
  /-- each create leaves the counts within the limits its call was given, where no create is
      applied late -/
  capacity : Prompt s → ∀ call row rows, .created call row rows ∈ s.log →
    ∃ c, s.calls[call]? = some c ∧ (∃ uid, row = newRow c.workspace uid) ∧ row ∈ rows ∧
      Within namespaceLimit c.project rows
  once : Recreated s.log
  /-- the calls of a name that is not removed create and return one and the same workspace -/
  same : ∀ name, .removed name ∉ s.log → ∃ uid,
    (∀ call row rows, .created call row rows ∈ s.log → row.metadata.name = name →
      row.metadata.uid = uid) ∧
    ∀ (call : Nat) (c : Call) row, s.calls[call]? = some c → c.phase = .settled (.ok row) →
      c.workspace.metadata.name = name → row.metadata.name = name ∧ row.metadata.uid = uid
  order : ∃ n, (s.log.filterMap begunCall).reverse = List.range n
  serial : ∀ (call : Nat) (c : Call), s.calls[call]? = some c → c.phase ≠ .queued →
    ∀ j < call, SettledAt s.calls j
  /-- a call goes ahead once the calls before it are through, whatever they came to -/
  unblocked : ∀ (call : Nat) (c : Call), s.calls[call]? = some c → c.phase = .queued →
    (∀ j < call, SettledAt s.calls j) → (step namespaceLimit s (.begin call)).isSome = true

section Run

variable {limit : Option Nat} {s s' : State} {call : Nat} {c : Call}

theorem Known.same (h : Known s) {name : String} (hnot : .removed name ∉ s.log) :
    ∃ uid, ∀ row, Seen s row → row.metadata.name = name → row.metadata.uid = uid := by
  by_cases hthere : ∃ r ∈ s.rows.list, r.metadata.name = name
  · obtain ⟨r, hr, rfl⟩ := hthere
    exact ⟨r.metadata.uid, fun row hseen hname =>
      (Rows.held_unique hr (h.seen row hseen (hname ▸ hnot)) hname.symm).symm⟩
  · refine ⟨none, fun row hseen hname => ?_⟩
    obtain ⟨r, hr, hname', -⟩ := h.seen row hseen (hname ▸ hnot)
    exact absurd ⟨r, hr, hname'.trans hname⟩ hthere

theorem Chained.unblocked (h : Chained s) (hcall : s.calls[call]? = some c)
    (hqueued : c.phase = .queued) (hbefore : ∀ j < call, SettledAt s.calls j) :
    (step limit s (.begin call)).isSome = true := by
  have htail : tailSettled s.calls c.prev = true := by
    rcases hprev : c.prev with _ | prev
    · rfl
    · have hlt := (h.prev call c hcall prev).mp hprev
      obtain ⟨d, hd, hsettled⟩ := hbefore prev (by omega)
      simp [tailSettled, hd, hsettled]
  rcases c with ⟨workspace, project, prev, phase⟩
  cases hqueued
  simp [step, begin, hcall, htail]

structure Inv (namespaceLimit : Option Nat) (s : State) : Prop where
  chained : Chained s
  counted : Prompt s → Counted namespaceLimit s
  known : Known s

theorem Inv.initial (rows : Rows) : Inv limit (initial rows) := by
  refine ⟨?_, fun _ => ?_, ?_⟩ <;> constructor <;>
    simp [WorkspaceAdmission.initial, Seen, Standing, Recreated]

theorem Inv.step {e : Event} (hstep : step limit s e = some s') (h : Inv limit s) :
    Inv limit s' :=
  have hmove := step_move hstep
  ⟨h.chained.move hmove,
    fun hprompt => (h.counted (hprompt.before hmove)).move hmove h.chained hprompt,
    h.known.move hmove⟩

end Run

theorem admission_sound {namespaceLimit : Option Nat} {rows : Rows} {events : List Event}
    {s : State} (hrun : run (step namespaceLimit) (initial rows) events = some s) :
    Sound namespaceLimit s := by
  obtain ⟨hchained, hcounted, hknown⟩ : Inv namespaceLimit s :=
    run_invariant (fun hstep h => Inv.step hstep h) hrun (Inv.initial rows)
  exact
    { capacity := fun hprompt => (hcounted hprompt).created
      once := hknown.recreated
      same := by
        intro name hnot
        obtain ⟨uid, huid⟩ := hknown.same hnot
        refine ⟨uid, fun call row rows hmem hname => huid row (.inr ⟨call, rows, hmem⟩) hname,
          fun call c row hcall hc hname => ?_⟩
        have hrow := (hknown.named call c row hcall (.inr hc)).trans hname
        exact ⟨hrow, huid row (.inl ⟨call, c, hcall, by simp [hc, seenIn]⟩) hrow⟩
      order := hchained.order.imp fun _ h => h.2.1
      serial := hchained.serial
      unblocked := fun _ _ hcall hqueued hbefore => hchained.unblocked hcall hqueued hbefore }

def noRows : Rows := ⟨[], List.nodup_nil⟩

def sampleProject : Project := { name := "p", credentialProfile := "c" }

def sampleWorkspace (name : String) : Workspace where
  metadata := { name }
  spec := { projectRef := "p", displayName := name, credentialProfile := "c" }

/-- Two calls at a limit of one: the second one is refused. -/
def sampleEvents : List Event :=
  [.create (sampleWorkspace "a") sampleProject, .create (sampleWorkspace "b") sampleProject,
    .begin 0, .snapshot 0, .listed 0, .commit 0 "u", .reply 0, .begin 1, .snapshot 1, .listed 1]

def isLate : Entry → Bool
  | .late _ => true
  | _ => false

theorem prompt_of_any {s : State} (h : s.log.any isLate = false) : Prompt s := by
  intro call hmem
  have hlate := List.any_eq_false.mp h _ hmem
  exact hlate rfl

theorem admission_sound_sample :
    ∃ s, run (step (some 1)) (initial noRows) sampleEvents = some s ∧
      s.log.filterMap begunCall = [1, 0] ∧ Sound (some 1) s ∧
      ∀ call row rows, .created call row rows ∈ s.log → (running rows).length ≤ 1 := by
  have hlog : (run (step (some 1)) (initial noRows) sampleEvents).map
      (fun s => (s.log.filterMap begunCall, s.log.any isLate)) = some ([1, 0], false) := by
    rfl
  obtain ⟨s, hrun, hs⟩ := Option.map_eq_some_iff.mp hlog
  obtain ⟨hbegun, hlate⟩ := Prod.mk.inj hs
  have hsound := admission_sound hrun
  refine ⟨s, hrun, hbegun, hsound, fun call row rows hmem => ?_⟩
  obtain ⟨c, -, -, -, hwithin⟩ := hsound.capacity (prompt_of_any hlate) call row rows hmem
  exact hwithin.all 1 rfl

def createdName : Entry → Option String
  | .created _ row _ => some row.metadata.name
  | _ => none

/-- A workspace that another writer deletes is created anew for the next call. -/
def removedEvents : List Event :=
  [.create (sampleWorkspace "a") sampleProject, .create (sampleWorkspace "a") sampleProject,
    .begin 0, .snapshot 0, .listed 0, .commit 0 "u", .reply 0, .remove "a",
    .begin 1, .snapshot 1, .listed 1, .commit 1 "v", .reply 1]

/-- The first create times out; it is applied once the second call has counted. -/
def lateEvents : List Event :=
  [.create (sampleWorkspace "a") sampleProject, .create (sampleWorkspace "b") sampleProject,
    .begin 0, .snapshot 0, .listed 0, .reject 0 "timed out",
    .begin 1, .snapshot 1, .listed 1, .late 0 "u", .commit 1 "v", .reply 1]

def runningCount : Entry → Option Nat
  | .created _ _ rows => some (running rows).length
  | _ => none

/-- A name may be created twice, and a limit of one exceeded by a create that is applied after
    its promise was rejected. -/
theorem not_created_once :
    (∃ s, run (step (some 1)) (initial noRows) removedEvents = some s ∧
      ¬ (s.log.filterMap createdName).Nodup) ∧
    ∃ s, run (step (some 1)) (initial noRows) lateEvents = some s ∧
      s.log.filterMap runningCount = [2, 1] := by
  constructor
  · have hlog : (run (step (some 1)) (initial noRows) removedEvents).map
        (·.log.filterMap createdName) = some ["a", "a"] := by rfl
    obtain ⟨s, hrun, hs⟩ := Option.map_eq_some_iff.mp hlog
    exact ⟨s, hrun, by rw [hs]; decide⟩
  · have hlog : (run (step (some 1)) (initial noRows) lateEvents).map
        (·.log.filterMap runningCount) = some [2, 1] := by rfl
    obtain ⟨s, hrun, hs⟩ := Option.map_eq_some_iff.mp hlog
    exact ⟨s, hrun, hs⟩

end PaseoGateway.WorkspaceAdmission
