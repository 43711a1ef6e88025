/-
  PaseoGateway/InventoryCapture.lean
  ==================================
  **Overlapping captures of one workspace's inventory.**

  A capture takes its date before it reads the first page and reads the stored record
  after the last one.  The update is made over the version that was read, so what a
  capture replaces is what it has seen: the stored date never decreases as long as no
  capture has read a record newer than its own date.
-/
import PaseoGateway.AgentInventory
import PaseoGateway.LegalHistory

namespace PaseoGateway.AgentInventory

open Async

variable {E Row : Type}

abbrev History (Row : Type) := Trace Key (fun _ => ArchivedInventory Row) (Note Row)

/-! ### The law of captures -/

/-- What may be added to a history: a capture reads the clock, then the record, then stores. -/
inductive Step : History Row → Entry Key (fun _ => ArchivedInventory Row) (Note Row) → Prop where
  | clock {older : History Row} {t : Tid} {instant : Int}
      (first : notesOf (S := sys E Row) t older = []) :
      Step older (.note (some t) (.clock instant))
  | record {older : History Row} {t : Tid} {uid : String} {instant : Int}
      (dated : notesOf (S := sys E Row) t older = [.clock instant]) :
      Step older (.note (some t) (.record uid (lookup (.inventory uid) older)))
  | create {older : History Row} {t : Tid} {uid : String} {value : ArchivedInventory Row}
      (absent : lookup (Key.inventory uid) older = none) :
      Step older (.create (some t) (.inventory uid) value)
  | update {older : History Row} {t : Tid} {uid : String} {version : Nat}
      {previous current value : ArchivedInventory Row}
      (read : notesOf (S := sys E Row) t older =
        [.record uid (some (version, previous)), .clock value.capturedAt])
      (unchanged : lookup (Key.inventory uid) older = some (version, current)) :
      Step older (.update (some t) (.inventory uid) value)

def law (E Row : Type) : Law (sys E Row) where
  step _ older e := Step (E := E) older e
  mono _ h := h

/-- Every capture that stored over a record it had read found it no newer than its own date. -/
def ReadsInOrder (tr : History Row) : Prop :=
  ∀ t uid value version previous instant, .update (some t) (.inventory uid) value ∈ tr →
    .note (some t) (.record uid (some (version, previous))) ∈ tr →
      .note (some t) (.clock instant) ∈ tr → previous.capturedAt ≤ instant

/-- The date of the record of a workspace never decreases. -/
def NeverDecreases (uid : String) (tr : History Row) : Prop :=
  ∀ n m value value', Stored tr n (Key.inventory uid) value →
    Stored tr m (Key.inventory uid) value' → n ≤ m → value.capturedAt ≤ value'.capturedAt

/-! ### The captures obey the law -/

section Runs

variable {rt : Runtime E Row} {t : Tid} {w : World (sys E Row)} {instant : Int}

theorem runs_readPages (instant : Int) (R : Reader E Row) (pages : Nat) (s : Reading Row)
    (hdated : notesOf (S := sys E Row) t w.trace = [.clock instant]) :
    (law E Row).Obeys (machine rt) t (readPages R pages s)
      (fun _ w' => notesOf (S := sys E Row) t w'.trace = [.clock instant]) w := by
  induction pages generalizing s w with
  | zero => exact Law.Obeys.fail
  | succ pages ih =>
    refine Law.Obeys.ext fun w' c a hg hi ha => ?_
    obtain rfl := Option.some.inj ha
    have hdated' : notesOf (S := sys E Row) t w'.trace = [.clock instant] := by
      rw [hg.notesOf_eq, hdated]
    refine ⟨hi.legal, ?_⟩
    dsimp only [Prog.bind]
    cases R.receive s c.reply with
    | failed error => exact Law.Obeys.fail
    | known rows =>
      refine Safe.ret fun w'' hr _ => ?_
      rw [hr.1.notesOf_eq]
      exact hdated'
    | more s' => exact ih s' hdated'

theorem runs_storeInventory (uid : String) (value : ArchivedInventory Row)
    (hdated : notesOf (S := sys E Row) t w.trace = [.clock value.capturedAt]) :
    (law E Row).Obeys (machine rt) t (storeInventory uid value) (fun _ _ => True) w := by
  refine Law.Obeys.ext fun w' c a hg hi ha => ?_
  have hdated' : notesOf (S := sys E Row) t w'.trace = [.clock value.capturedAt] := by
    rw [hg.notesOf_eq, hdated]
  cases hfailed : c.failed with
  | some e =>
    simp only [machine, answer, hfailed, Option.some.injEq] at ha
    subst ha
    exact ⟨hi.legal, Law.Obeys.fail⟩
  | none =>
    simp only [machine, answer, hfailed, Option.some.injEq] at ha
    subst ha
    refine ⟨⟨hi.legal, Step.record hdated'⟩, ?_⟩
    have hread : ∀ {w''}, Grows t ((w'.answered t
        { res := (.ok (lookup (Key.inventory uid) w'.trace) : Except Err _)
          notes := [.record uid (lookup (Key.inventory uid) w'.trace)]
          mem := (), glob := () : Answer (sys E Row) (.record uid) }).spawnAll t.proc []) w'' →
        notesOf (S := sys E Row) t w''.trace =
          [.record uid (lookup (Key.inventory uid) w'.trace), .clock value.capturedAt] := by
      intro w'' hg'
      rw [hg'.notesOf_eq, ← hdated']
      exact notesOf_own _ _
    change (law E Row).Obeys (machine rt) t
      (save uid value (lookup (Key.inventory uid) w'.trace)) _ _
    revert hread
    cases hfound : lookup (Key.inventory uid) w'.trace with
    | none =>
      intro _
      refine Safe.create fun w'' hr hi' => ⟨fun hnone => ⟨?_, ?_, ?_⟩, fun p hp => ?_, ?_⟩
      · exact Law.keeps_push hi' (Step.create hnone)
      · exact Safe.ret fun _ _ _ => trivial
      · exact Law.Obeys.fail
      · exact Law.Obeys.fail
      · exact Law.Obeys.fail
    | some found =>
      obtain ⟨version, previous⟩ := found
      intro hread
      refine Safe.update fun w'' hr hi' => ⟨fun current hcurrent => ⟨?_, ?_, ?_⟩, fun e => ?_⟩
      · exact Law.keeps_push hi' (Step.update (hread hr.1) hcurrent)
      · exact Safe.ret fun _ _ _ => trivial
      · exact Law.Obeys.fail
      · exact Law.Obeys.fail

theorem runs_archiveAgentInventory (workspace : Workspace) (availability : Availability)
    (pages : Nat) (hnew : notesOf (S := sys E Row) t w.trace = []) :
    (law E Row).Obeys (machine rt) t (archiveAgentInventory rt workspace availability pages)
      (fun _ _ => True) w := by
  unfold archiveAgentInventory
  split
  · exact Law.Obeys.fail
  · rename_i uid _
    refine Law.Obeys.ext fun w' c a hg hi ha => ?_
    obtain rfl := Option.some.inj ha
    have hnew' : notesOf (S := sys E Row) t w'.trace = [] := by
      rw [hg.notesOf_eq, hnew]
    refine ⟨⟨hi.legal, Step.clock hnew'⟩, ?_⟩
    change (law E Row).Obeys (machine rt) t
      (readPages (archiveReader rt workspace availability c.clock) pages .start >>= fun entries =>
        storeInventory uid ⟨workspace.metadata.name, uid, c.clock, availability, entries⟩) _ _
    refine Law.Obeys.seq (runs_readPages c.clock _ _ _ ?_) ?_
    · rw [World.spawnAll_trace, World.answered_trace, notesOf_own, hnew']
      rfl
    · intro entries w'' _ _ hdated
      exact runs_storeInventory uid _ hdated

end Runs

theorem captures_legal {rt : Runtime E Row} {c : (machine rt).Config}
    (h : (machine rt).Reachable c) : (law E Row).Legal c.world.calls c.world.trace := by
  have hinit : (law E Row).Legal (fun _ => none) (machine rt).init.trace := trivial
  refine Law.reachable (Law.sound hinit (fun {_ e} => e.elim) ?_) h
  rintro w t ⟨workspace, availability, pages⟩ _ _ _ hnew
  exact runs_archiveAgentInventory workspace availability pages (notesOf_nil hnew)

/-! ### The stored date -/

section Dates

variable {calls : Calls (sys E Row)} {tr : History Row}

/-- What a capture noted that it read was stored. -/
theorem Legal.read_stored (h : (law E Row).Legal calls tr) {t : Tid} {uid : String}
    {version : Nat} {previous : ArchivedInventory Row}
    (hread : .note (some t) (.record uid (some (version, previous))) ∈ tr) :
    Stored tr version (Key.inventory uid) previous := by
  obtain ⟨newer, older, rfl⟩ := List.append_of_mem hread
  have hstep : Step (E := E) older (.note (some t) (.record uid (some (version, previous)))) :=
    h.split.2
  generalize hnote : (Note.record uid (some (version, previous)) : Note Row) = n at hstep
  cases hstep with
  | clock _ => cases hnote
  | record _ =>
    injection hnote with huid hprevious
    subst huid
    exact ((lookup_stored hprevious.symm).cons _).mono newer

/-- A capture that has read the record notes nothing more. -/
theorem Legal.notes_final {newer older : History Row} {t : Tid} {a b : Note Row}
    (h : (law E Row).Legal calls (newer ++ older))
    (hnotes : notesOf (S := sys E Row) t older = [a, b]) :
    notesOf (S := sys E Row) t (newer ++ older) = [a, b] := by
  induction newer with
  | nil => exact hnotes
  | cons e newer ih =>
    have hold := ih h.1
    have hstep : Step (E := E) (newer ++ older) e := h.2
    cases hstep with
    | @clock u instant hfirst =>
      have hne : u ≠ t := by
        rintro rfl
        simp [hold] at hfirst
      simpa [notesOf, hne] using hold
    | @record u uid instant hdated =>
      have hne : u ≠ t := by
        rintro rfl
        simp [hold] at hdated
      simpa [notesOf, hne] using hold
    | create _ => exact hold
    | update _ _ => exact hold

/-- The record of a workspace is only replaced by a later one. -/
theorem Legal.disciplined (h : (law E Row).Legal calls tr) (horder : ReadsInOrder tr)
    (uid : String) :
    Disciplined (Key.inventory uid) (fun _ => True)
      (fun old new => old.capturedAt ≤ new.capturedAt) tr := by
  induction tr with
  | nil => trivial
  | cons e older ih =>
    have holder : ReadsInOrder older := fun t uid value version previous instant hupdate hread
        hclock => horder t uid value version previous instant (List.mem_cons_of_mem _ hupdate)
      (List.mem_cons_of_mem _ hread) (List.mem_cons_of_mem _ hclock)
    refine ⟨ih h.1 holder, ?_⟩
    have hstep : Step (E := E) older e := h.2
    cases hstep with
    | clock _ => exact Entry.keeps_of_ne (by simp [Entry.key?])
    | record _ => exact Entry.keeps_of_ne (by simp [Entry.key?])
    | @create t uid' value habsent =>
      by_cases huid : uid' = uid
      · subst huid
        exact Entry.keeps_create habsent trivial
      · exact Entry.keeps_of_ne (by simp [Entry.key?, huid])
    | @update t uid' version previous current value hread hcurrent =>
      by_cases huid : uid' = uid
      · subst huid
        have hmem : .note (some t) (.record uid' (some (version, previous))) ∈ older :=
          mem_notesOf (S := sys E Row).mp (by rw [hread]; simp)
        have hclock : .note (some t) (.clock value.capturedAt) ∈ older :=
          mem_notesOf (S := sys E Row).mp (by rw [hread]; simp)
        -- the version that is replaced is the one that was read
        have hsame : previous = current := (Legal.read_stored h.1 hmem).eq_of_lookup hcurrent
        have hle := horder t uid' value version previous value.capturedAt (by simp)
          (List.mem_cons_of_mem _ hmem) (List.mem_cons_of_mem _ hclock)
        rw [hsame] at hle
        exact Entry.keeps_update hcurrent hle
      · exact Entry.keeps_of_ne (by simp [Entry.key?, huid])

theorem Legal.never_decreases (h : (law E Row).Legal calls tr) (horder : ReadsInOrder tr)
    (uid : String) : NeverDecreases uid tr := by
  have hdisciplined := Legal.disciplined h horder uid
  clear h horder
  intro n m value value' hn hm hle
  induction tr with
  | nil =>
    obtain ⟨newer, e, older, htr, _, _⟩ := hm
    simp at htr
  | cons e older ih =>
    rcases hm.cons_cases with ⟨hputs, hlast⟩ | hm'
    · -- the later version is the current one
      have htrans : ∀ a b c : ArchivedInventory Row, a.capturedAt ≤ b.capturedAt →
          b.capturedAt ≤ c.capturedAt → a.capturedAt ≤ c.capturedAt :=
        fun _ _ _ hab hbc => Int.le_trans hab hbc
      obtain ⟨version, current, hlookup, hrel⟩ := hdisciplined.current htrans hn
      have hcurrent : lookup (Key.inventory uid) (e :: older) = some (older.length, value') := by
        simp [lookup, Entry.key_of_puts hputs, hputs]
      rw [hcurrent] at hlookup
      simp only [Option.some.injEq, Prod.mk.injEq] at hlookup
      obtain ⟨_, rfl⟩ := hlookup
      rcases hrel with heq | hrel
      · rw [heq]
      · exact hrel
    · rcases hn.cons_cases with ⟨_, hfirst⟩ | hn'
      · have hlt := hm'.lt
        omega
      · exact ih hdisciplined.1 hn' hm'

theorem Legal.reads_in_order (h : (law E Row).Legal calls tr)
    (hnever : ∀ uid, NeverDecreases uid tr) : ReadsInOrder tr := by
  intro t uid value version previous instant hupdate hread hclock
  have hstored := Legal.read_stored h hread
  obtain ⟨newer, older, rfl⟩ := List.append_of_mem hupdate
  have hstep : Step (E := E) older (.update (some t) (.inventory uid) value) := h.split.2
  cases hstep with
  | @update _ _ version' previous' current _ hnotes hcurrent =>
    have hsplit : (law E Row).Legal calls
        ((newer ++ [.update (some t) (.inventory uid) value]) ++ older) := by simpa using h
    have hfinal := Legal.notes_final hsplit hnotes
    rw [List.append_assoc, List.singleton_append] at hfinal
    have hread' := mem_notesOf (S := sys E Row).mpr hread
    have hclock' := mem_notesOf (S := sys E Row).mpr hclock
    rw [hfinal] at hread' hclock'
    simp only [List.mem_cons, Note.record.injEq, Option.some.injEq, Prod.mk.injEq, true_and,
      reduceCtorEq, List.not_mem_nil, or_false, false_or, Note.clock.injEq] at hread' hclock'
    obtain ⟨rfl, rfl⟩ := hread'
    rw [hclock']
    have hversion : version < older.length := (lookup_stored hcurrent).lt
    exact hnever uid version older.length previous value hstored
      ⟨newer, _, older, rfl, rfl, Entry.puts_update_self _ _ _⟩ (by omega)

end Dates

/-- The date of every stored inventory never decreases, exactly when the captures that replaced
    a record had found it no newer than their own date. -/
theorem newest_capture_kept {rt : Runtime E Row} {c : (machine rt).Config}
    (h : (machine rt).Reachable c) :
    (∀ uid, NeverDecreases uid c.world.trace) ↔ ReadsInOrder c.world.trace := by
  have hlegal := captures_legal h
  exact ⟨Legal.reads_in_order hlegal, fun horder uid => Legal.never_decreases hlegal horder uid⟩

/-! ### Two captures -/

def captureRuntime : Runtime Unit Unit where
  retained := fun _ _ _ _ => .ok ()
  bytes := fun _ => 0
  listed := .ok
  claimed := fun _ entry => .ok entry

def capturedWorkspace : Workspace where
  metadata := { name := "ws", uid := some "uid" }
  spec := { projectRef := "p", displayName := "d", credentialProfile := "c" }

abbrev demoMachine : Machine (sys Unit Unit) := machine captureRuntime

/-- One page, and the last. -/
def demoAsk (i : Nat) (clock : Int) : demoMachine.Move :=
  .run ⟨0, i⟩ (.ext (⟨clock, .page ⟨[()], ⟨false, none⟩⟩, none⟩ : Choice Unit))

def demoSave (i : Nat) : demoMachine.Move := .run ⟨0, i⟩ (.store {})

def demoStart : demoMachine.Move :=
  .start 0 (.archiveAgentInventory capturedWorkspace .archived 1)

/-- The second capture starts when the first one has stored. -/
def demoSerial : List demoMachine.Move :=
  [demoStart, demoAsk 0 1, demoAsk 0 1, demoAsk 0 1, demoSave 0,
    demoStart, demoAsk 1 2, demoAsk 1 2, demoAsk 1 2, demoSave 1]

/-- The second capture overtakes the first one, which has its date already. -/
def demoOvertaken : List demoMachine.Move :=
  [demoStart, demoStart, demoAsk 0 1, demoAsk 1 2, demoAsk 1 2, demoAsk 1 2, demoSave 1,
    demoAsk 0 1, demoAsk 0 1, demoSave 0]

/-- The dates stored, newest first. -/
def storedDates (tr : History Unit) : List Int :=
  tr.filterMap fun e => (e.puts (.inventory "uid")).map ArchivedInventory.capturedAt

theorem storedDates_sorted {tr : History Unit} (h : NeverDecreases "uid" tr) :
    (storedDates tr).Pairwise fun later earlier => earlier ≤ later := by
  induction tr with
  | nil => exact List.Pairwise.nil
  | cons e older ih =>
    have hold : NeverDecreases "uid" older := fun n m value value' hn hm hle =>
      h n m value value' (hn.cons e) (hm.cons e) hle
    cases hputs : e.puts (Key.inventory "uid") with
    | none => simpa [storedDates, hputs] using ih hold
    | some value =>
      have hdates : storedDates (e :: older) = value.capturedAt :: storedDates older := by
        simp [storedDates, hputs]
      rw [hdates, List.pairwise_cons]
      refine ⟨fun date hdate => ?_, ih hold⟩
      simp only [storedDates, List.mem_filterMap, Option.map_eq_some_iff] at hdate
      obtain ⟨e', he', value', hputs', rfl⟩ := hdate
      obtain ⟨n, hn⟩ := stored_of_mem he' hputs'
      exact h n older.length value' value (hn.cons e) ⟨[], e, older, rfl, rfl, hputs⟩
        (by have := hn.lt; omega)

/-- Every record that was read is no newer than the reader's date. -/
def readsInOrder (tr : History Unit) : Bool :=
  tr.all fun e => match e with
    | .note (some t) (.record _ (some (_, previous))) =>
      tr.all fun e' => match e' with
        | .note (some t') (.clock instant) => t' != t || decide (previous.capturedAt ≤ instant)
        | _ => true
    | _ => true

theorem readsInOrder_spec {tr : History Unit} (h : readsInOrder tr = true) : ReadsInOrder tr := by
  intro t uid value version previous instant _ hread hclock
  have hall := List.all_eq_true.mp h _ hread
  have hone := List.all_eq_true.mp hall _ hclock
  simpa using hone

theorem newest_capture_kept_demo : ∃ c : demoMachine.Config,
    demoMachine.initial.moves demoSerial = some c ∧ storedDates c.world.trace = [2, 1] ∧
      ∀ uid, NeverDecreases uid c.world.trace := by
  have hrun : (demoMachine.initial.moves demoSerial).map
      (fun c => (storedDates c.world.trace, readsInOrder c.world.trace)) = some ([2, 1], true) := by
    rfl
  obtain ⟨c, hc, hpair⟩ := Option.map_eq_some_iff.mp hrun
  simp only [Prod.mk.injEq] at hpair
  exact ⟨c, hc, hpair.1,
    (newest_capture_kept (Machine.Reachable.init.moves hc)).mpr (readsInOrder_spec hpair.2)⟩

/-- The first capture replaces the newer record of the second. -/
theorem overtaken_capture : ∃ c : demoMachine.Config, demoMachine.Reachable c ∧
    ¬ NeverDecreases "uid" c.world.trace := by
  have hrun : (demoMachine.initial.moves demoOvertaken).map
      (fun c => storedDates c.world.trace) = some [1, 2] := by rfl
  obtain ⟨c, hc, hdates⟩ := Option.map_eq_some_iff.mp hrun
  refine ⟨c, Machine.Reachable.init.moves hc, fun hnever => ?_⟩
  have hsorted := storedDates_sorted hnever
  rw [hdates] at hsorted
  simp at hsorted

end PaseoGateway.AgentInventory
