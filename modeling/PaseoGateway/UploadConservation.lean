/-
  PaseoGateway/UploadConservation.lean
  ====================================
  **The reserved bytes are those of the rows and of the files in transit.**

  The memory of a process names the files that its replace calls hold.  The history says the
  same (`held_iff_carried`): a call holds the file it has consumed and not given back, and it
  gives a file back after an exception or the backend's answer has ended the transfer, before
  it consumes or sends anything else (`Note.Fits`).
-/
import PaseoGateway.UploadTransfer

namespace PaseoGateway.Uploads

open Async

/-! ### What a call has in transit -/

/-- What a call may note about its files, given its notes so far. -/
def Note.Fits (notes : List Note) : Note → Prop
  | .taken _ _ _ => inTransit notes = none
  | .sent _ _ _ => ∃ staged, inTransit notes = some (staged, false)
  | .released staged => inTransit notes = some (staged, true)
  | _ => True

/-- The file that the thread has in transit. -/
def carried (t : Tid) (tr : History) : Option Staged := (transitOf t tr).map Prod.fst

theorem legal_of_reachable {c : machine.Config} (h : machine.Reachable c) :
    law.Legal c.world.calls c.world.trace :=
  have hinv : Coherent c.world := (delivering_sound.reachable h).inv
  hinv.legal

theorem fits_of_legal {calls : Calls sys} (newer : History) {older : History} {t : Tid} {n : Note}
    (h : law.Legal calls (newer ++ .note (some t) n :: older)) :
    n.Fits (notesOf (S := sys) t older) := by
  have hstep : Step calls older (.note (some t) n) := h.split.2
  cases hstep with
  | taken _ _ _ _ _ _ idle => exact idle
  | sent noted _ => exact ⟨_, by rw [noted, inTransit_sending]⟩
  | released ended => exact ended
  | _ => trivial

/-- The note begins no transfer and gives nothing back. -/
def Note.Within : Note → Prop
  | .taken _ _ _ => False
  | .released _ => False
  | _ => True

theorem inTransit_within {new older : List Note} (h : ∀ n ∈ new, n.Within) :
    (inTransit (new ++ older)).map Prod.fst = (inTransit older).map Prod.fst := by
  induction new with
  | nil => rfl
  | cons n new ih =>
    have hrest := ih fun n' hn' => h n' (List.mem_cons_of_mem _ hn')
    have hn := h n List.mem_cons_self
    cases n with
    | taken place attachment staged => exact hn.elim
    | released staged => exact hn.elim
    | thrown =>
      rw [← hrest, List.cons_append, inTransit, Option.map_map]
      rfl
    | replied file =>
      rw [← hrest, List.cons_append, inTransit, Option.map_map]
      rfl
    | _ => exact hrest

theorem within_binaryNotes {place : Place} {stamp : Int} {uuid : String} {s s' : UploadStaging}
    {notes : List Note} (hs : Received place stamp uuid s s' notes) : ∀ n ∈ notes, n.Within := by
  intro n hn
  rcases hs with _ | _ | _ | _
  · simp at hn
  · simp at hn
  · rw [List.mem_singleton.mp hn]
    trivial
  · rcases List.mem_cons.mp hn with rfl | hn
    · trivial
    · rw [List.mem_singleton.mp hn]
      trivial

theorem within_thrownNotes (c : Choice) : ∀ n ∈ thrownNotes c, n.Within := by
  intro n hn
  unfold thrownNotes at hn
  split at hn
  · rw [List.mem_singleton.mp hn]
    trivial
  · simp at hn

section Requests

variable {w w' : World sys} {t : Tid} {x : Ext} {c : Choice} {a : Answer sys x}

theorem within_quiet (hx : x.Quiet) (ha : answer c t x w = some a) : ∀ n ∈ a.notes, n.Within := by
  intro n hn
  cases x with
  | construct =>
    obtain rfl := Option.some.inj ha
    simp at hn
  | begin object request =>
    obtain ⟨s, _, rfl⟩ := Option.map_eq_some_iff.mp ha
    cases hout : (s.beginUpload c.now c.stamp request).1 <;>
      simp [hout, beginNotes] at hn
    · simp [hn, Note.Within]
    · rcases hn with rfl | rfl <;> trivial
  | binary object frame =>
    simp only [answer] at ha
    split at ha
    · obtain ⟨s, _, rfl⟩ := Option.map_eq_some_iff.mp ha
      rcases List.mem_append.mp hn with hn | hn
      · exact within_binaryNotes (received ⟨t.proc, object⟩ c.now c.stamp c.uuid frame s) n hn
      · rw [List.mem_singleton.mp hn]
        trivial
    · simp at ha
  | expire object =>
    obtain ⟨s, _, rfl⟩ := Option.map_eq_some_iff.mp ha
    rw [List.mem_singleton.mp hn]
    trivial
  | clear object =>
    obtain ⟨s, _, rfl⟩ := Option.map_eq_some_iff.mp ha
    rw [List.mem_singleton.mp hn]
    trivial
  | take object attachment => exact hx.elim
  | release staged => exact hx.elim
  | randomUUID =>
    simp only [answer] at ha
    split at ha
    · obtain rfl := Option.some.inj ha
      rw [List.mem_singleton.mp hn]
      trivial
    · simp at ha
  | send handle requestId out =>
    obtain rfl := Option.some.inj ha
    rcases List.mem_append.mp hn with hn | hn
    · exact within_thrownNotes c n hn
    · rw [List.mem_singleton.mp hn]
      trivial
  | reply =>
    obtain rfl := Option.some.inj ha
    dsimp only at hn
    split at hn
    · rw [List.mem_singleton.mp hn]
      trivial
    · rw [List.mem_singleton.mp hn]
      trivial
  | _ =>
    obtain rfl := Option.some.inj ha
    exact within_thrownNotes c n hn

/-- What a request does with the files that its process holds. -/
inductive Handles (t : Tid) (notes : List Note) (held : List (Tid × Staged)) :
    List (Tid × Staged) → Prop where
  | none (within : ∀ n ∈ notes, n.Within) : Handles t notes held held
  | take {place : Place} {attachment : UploadedFile} {staged : Staged}
      (noted : notes = [.taken place attachment staged]) :
      Handles t notes held ((t, staged) :: held)
  | release {staged : Staged} (noted : notes = [.released staged]) :
      Handles t notes held (held.erase (t, staged))

theorem handles_answer (hi : Inv w) (ha : answer c t x w = some a) :
    Handles t a.notes (w.mem t.proc).held a.mem.held := by
  have hquiet : x.Quiet → Handles t a.notes (w.mem t.proc).held a.mem.held := by
    intro hx
    rw [(hi.quiet hx ha).2.1]
    exact .none (within_quiet hx ha)
  cases x with
  | take object attachment =>
    obtain ⟨s, _, ⟨message, _, rfl⟩ | ⟨staged, _, rfl⟩⟩ := answer_take (c := c) ha
    · exact .none (by simp)
    · exact .take rfl
  | release staged =>
    obtain rfl := Option.some.inj ha
    exact .release rfl
  | _ => exact hquiet trivial

/-- A request is answered, or is one of the store, which has no records. -/
theorem perform_answered {pick : Pick machine} {q : Req sys} {r : q.Res}
    (h : machine.perform t w pick q = some (r, w')) :
    w' = w ∨ ∃ x c a, answer c t x w = some a ∧ w' = w.answered t a := by
  cases pick with
  | store weather =>
    cases q with
    | ext x => simp [Machine.perform] at h
    | store q =>
      simp only [Machine.perform, Option.some.injEq, Prod.mk.injEq] at h
      obtain ⟨_, rfl⟩ := h
      cases q with
      | list sel =>
        have hsame : (serve weather (some t) (.list sel) w.trace).2 = w.trace :=
          (serve_list rfl).1
        exact .inl (by rw [hsame])
      | get key => exact key.elim
      | create key v => exact key.elim
      | update key n v => exact key.elim
      | delete key n => exact key.elim
  | ext c =>
    cases q with
    | store q => simp [Machine.perform] at h
    | ext x =>
      simp only [Machine.perform, Option.map_eq_some_iff, Prod.mk.injEq] at h
      obtain ⟨a, ha, _, rfl⟩ := h
      refine .inr ⟨x, c, a, ha, ?_⟩
      rw [forks_nil (c := c) ha, World.spawnAll_nil]

end Requests

/-! ### Every run -/

/-- The files that the calls of process `p` hold are those that the history says. -/
def Pinned (c : machine.Config) (p : Nat) : Prop :=
  ∀ t staged, (t, staged) ∈ (c.world.mem p).held ↔
    t.proc = p ∧ (∃ th, c.threads t = some th) ∧ carried t c.world.trace = some staged

section Pinned

variable {w : World sys} {threads threads' : Tid → Option machine.Thread} {t : Tid} {x : Ext}
  {c : Choice} {a : Answer sys x}

/-- The thread's own files after its request. -/
theorem carried_iff_held (hi : Inv w) (ha : answer c t x w = some a)
    (hlegal : law.Legal w.calls (a.notes.map (.note (some t)) ++ w.trace))
    (h : ∀ staged, (t, staged) ∈ (w.mem t.proc).held ↔ carried t w.trace = some staged)
    (staged : Staged) :
    (t, staged) ∈ a.mem.held ↔ carried t (w.answered t a).trace = some staged := by
  rw [carried, transitOf, World.answered_trace, notesOf_own]
  have hhandles := handles_answer hi ha
  generalize a.mem.held = held' at hhandles ⊢
  rcases hhandles with within | noted | noted
  · rw [inTransit_within within]
    exact h staged
  · rename_i place attachment staged'
    rw [noted] at hlegal ⊢
    -- it had no file in transit before
    have hidle : transitOf t w.trace = none := fits_of_legal [] hlegal
    have hnone : (t, staged) ∉ (w.mem t.proc).held := by
      rw [h staged, carried, hidle]
      simp
    simp [hnone, inTransit, eq_comm]
  · rename_i staged'
    rw [noted] at hlegal ⊢
    have hended : transitOf t w.trace = some (staged', true) :=
      fits_of_legal [] hlegal
    have hnodup : (w.mem t.proc).held.Nodup := List.Nodup.of_map _ (hi.kept t.proc).single
    have hgone : (t, staged) ∉ (w.mem t.proc).held.erase (t, staged') := by
      rw [hnodup.mem_erase_iff, h staged, carried, hended]
      rintro ⟨hne, hsame⟩
      obtain rfl := Option.some.inj hsame
      exact hne rfl
    simp [hgone, inTransit]

theorem mem_held_other {notes : List Note} {held held' : List (Tid × Staged)}
    (h : Handles t notes held held') {e : Tid × Staged} (hne : e.1 ≠ t) :
    e ∈ held' ↔ e ∈ held := by
  rcases h with _ | _ | _
  · exact Iff.rfl
  · rename_i place attachment staged noted
    rw [List.mem_cons, or_iff_right]
    rintro rfl
    exact hne rfl
  · rename_i staged noted
    rw [List.mem_erase_of_ne]
    rintro rfl
    exact hne rfl

/-- A request of a thread that is there keeps what is held in step with the history. -/
theorem Pinned.answered (hi : Inv w) (ha : answer c t x w = some a)
    (hlegal : law.Legal w.calls (a.notes.map (.note (some t)) ++ w.trace))
    (hth : ∃ th, threads t = some th) (h : ∀ p, Pinned ⟨w, threads⟩ p) (p : Nat) :
    Pinned ⟨w.answered t a, threads⟩ p := by
  intro u staged
  by_cases hut : u = t
  · subst hut
    by_cases hp : u.proc = p
    · subst hp
      have hown : ∀ staged, (u, staged) ∈ (w.mem u.proc).held ↔ carried u w.trace = some staged := by
        intro staged
        rw [h u.proc u staged]
        simp [hth]
      have hmoved := carried_iff_held hi ha hlegal hown staged
      rw [← World.answered_mem_self (w := w) (t := u) (a := a)] at hmoved
      simpa [hth] using hmoved
    · have hmem : (w.answered u a).mem p = w.mem p := World.answered_mem_ne (Ne.symm hp)
      simp only [hmem, hp, false_and, iff_false]
      exact fun hin => hp ((hi.kept p).holders _ hin).1
  · have hcarried : carried u (w.answered t a).trace = carried u w.trace := by
      rw [carried, transitOf, World.answered_trace, notesOf_append, notesOf_nil, List.nil_append]
      · rfl
      · intro e he
        obtain ⟨n, _, rfl⟩ := List.mem_map.mp he
        simpa [Entry.author] using Ne.symm hut
    have hheld : (u, staged) ∈ ((w.answered t a).mem p).held ↔ (u, staged) ∈ (w.mem p).held := by
      by_cases hp : p = t.proc
      · subst hp
        rw [World.answered_mem_self]
        exact mem_held_other (handles_answer hi ha) hut
      · rw [World.answered_mem_ne hp]
    dsimp only
    rw [hheld, hcarried]
    exact h p u staged

/-- Only the calls that have said something count. -/
theorem Pinned.adopted {n p : Nat} (h : Pinned ⟨w, threads⟩ p)
    (hauthored : ∀ e ∈ w.trace, ∀ u, e.author = some u → u.idx < n)
    (hsame : ∀ u : Tid, u.idx < n →
      ((∃ th, threads u = some th) ↔ ∃ th, threads' u = some th)) :
    Pinned ⟨w, threads'⟩ p := by
  intro u staged
  by_cases hlt : u.idx < n
  · rw [← hsame u hlt]
    exact h u staged
  · have hnone : carried u w.trace = none := by
      rw [carried, transitOf, notesOf_nil fun e he heq => hlt (hauthored e he u heq)]
      rfl
    have hpinned := h u staged
    simp only [hnone, reduceCtorEq, and_false, iff_false] at hpinned ⊢
    exact hpinned

end Pinned

/-- The memory and the history agree on the files in transit. -/
theorem held_iff_carried {c : machine.Config} (h : machine.Reachable c) (p : Nat) : Pinned c p := by
  induction h generalizing p with
  | init =>
    intro t staged
    simp [Machine.initial, machine, carried, transitOf, notesOf, inTransit]
  | @move c c' mv hc hmv ih =>
    have hholds := accounting_sound.reachable hc
    have hinv : Inv c.world := hholds.inv
    cases mv with
    | run t pick =>
      have hlegal := legal_of_reachable (.move hc hmv)
      have hauthored := (accounting_sound.reachable (.move hc hmv)).authored
      simp only [Machine.Config.move] at hmv
      split at hmv
      · rename_i call start q k hth
        obtain ⟨⟨r, w'⟩, hperf, rfl⟩ := Option.map_eq_some_iff.mp hmv
        -- the thread is there before and after, and the others are the same
        have hsame : ∀ u : Tid, u.idx < c.world.next → ((∃ th, c.threads u = some th) ↔
            ∃ th, Machine.adopt c.world w' (Function.update c.threads t
              (some ⟨call, start, k r⟩)) u = some th) := by
          intro u hlt
          by_cases hut : u = t
          · subst hut
            simp [Machine.adopt, hlt, hth]
          · simp [Machine.adopt, hlt, Function.update_of_ne hut]
        rcases perform_answered hperf with rfl | ⟨x, choice, a, ha, rfl⟩
        · exact (ih p).adopted hholds.authored hsame
        · exact (Pinned.answered hinv ha hlegal ⟨_, hth⟩ ih p).adopted hauthored hsame
      · simp at hmv
    | start q call =>
      simp only [Machine.Config.move] at hmv
      split at hmv
      · obtain rfl := Option.some.inj hmv
        have hold : Pinned ⟨c.world.spawn q call, c.threads⟩ p := ih p
        exact hold.adopted hholds.authored fun u hlt => by simp [Machine.adopt, hlt]
      · simp at hmv
    | crash q =>
      obtain rfl := Option.some.inj hmv
      intro u staged
      by_cases hp : p = q
      · subst hp
        simp only [Machine.crashed, Function.update_self, machine, List.not_mem_nil, false_iff]
        rintro ⟨hu, ⟨th, hth⟩, _⟩
        simp [hu] at hth
      · have hold := ih p u staged
        simp only [Machine.crashed, Function.update_of_ne hp]
        rw [hold]
        refine and_congr_right fun hu => ?_
        rw [if_neg (by rw [hu]; exact hp)]
    | env e' => exact e'.elim

/-- A call that has settled holds no file. -/
theorem held_unsettled {c : machine.Config} (h : machine.Reachable c) {p : Nat}
    {e : Tid × Staged} (he : e ∈ (c.world.mem p).held) :
    e.1.proc = p ∧ ∃ th, c.threads e.1 = some th ∧ th.prog.settled = false := by
  have hholds := accounting_sound.reachable h
  obtain ⟨rfl, ⟨th, hrunning⟩, _⟩ := (held_iff_carried h p e.1 e.2).mp he
  refine ⟨rfl, th, hrunning, ?_⟩
  cases hprog : th.prog with
  | ret out => exact absurd rfl (notMem_held_of_heldBy (hholds.returned hrunning hprog) e he)
  | fail error => exact absurd rfl (notMem_held_of_heldBy (hholds.threw hrunning hprog) e he)
  | call q k => rfl

/-- The accounts of process `p`. -/
structure Conserved (c : machine.Config) (p : Nat) : Prop where
  balance : (c.world.mem p).reservedBytes =
    ((c.world.mem p).objects.map Maps.total).sum + ((c.world.mem p).held.map heldSize).sum
  nonneg : 0 ≤ (c.world.mem p).reservedBytes
  limit : (c.world.mem p).reservedBytes ≤ maxTotal
  entries : ∀ maps ∈ (c.world.mem p).objects, maps.size ≤ maxEntries
  /-- what is held are the files in transit of the calls that are there -/
  held : ∀ t staged, (t, staged) ∈ (c.world.mem p).held ↔ t.proc = p ∧
    (∃ th, c.threads t = some th) ∧ carried t c.world.trace = some staged
  /-- a call takes its next file when the former is given back, and gives a file back when its
      transfer has ended -/
  paced : ∀ newer t n older, c.world.trace = newer ++ .note (some t) n :: older →
    n.Fits (notesOf (S := sys) t older)
  /-- a held file is one of a call that has not settled, and the only one of it -/
  unsettled : ∀ e ∈ (c.world.mem p).held,
    e.1.proc = p ∧ ∃ th, c.threads e.1 = some th ∧ th.prog.settled = false
  single : ((c.world.mem p).held.map Prod.fst).Nodup
  /-- all objects cleared and all calls settled -/
  released : (∀ maps ∈ (c.world.mem p).objects, maps.size = 0) →
    (∀ (t : Tid) th, t.proc = p → c.threads t = some th → th.prog.settled = true) →
    (c.world.mem p).reservedBytes = 0

theorem total_of_size {maps : Maps} (h : maps.size = 0) : maps.total = 0 := by
  simp only [Maps.size, Nat.add_eq_zero_iff, List.length_eq_zero_iff] at h
  simp [Maps.total, Js.Map.values, h.1, h.2]

/-- **The counter is conserved.** -/
theorem reserved_conserved {c : machine.Config} (h : machine.Reachable c) (p : Nat) :
    Conserved c p := by
  have hinv : Inv c.world := (accounting_sound.reachable h).inv
  have hkept := hinv.kept p
  have hbalance := hkept.balanced.balance
  refine ⟨hbalance, ?_, hkept.balanced.capacity,
    fun maps hmaps => (hkept.balanced.object maps hmaps).entries,
    held_iff_carried h p, fun newer t n older htr => ?_, fun e he => held_unsettled h he,
    hkept.single, fun hempty hsettled => ?_⟩
  · have hobjects : 0 ≤ ((c.world.mem p).objects.map Maps.total).sum := by
      apply List.sum_nonneg
      intro n hn
      obtain ⟨maps, hmaps, rfl⟩ := List.mem_map.mp hn
      exact (hkept.balanced.object maps hmaps).total_nonneg
    have hheld : 0 ≤ ((c.world.mem p).held.map heldSize).sum := by
      apply List.sum_nonneg
      intro n hn
      obtain ⟨e, he, rfl⟩ := List.mem_map.mp hn
      exact hkept.balanced.held e he
    omega
  · have hlegal := legal_of_reachable h
    rw [htr] at hlegal
    exact fits_of_legal _ hlegal
  · have hobjects : ((c.world.mem p).objects.map Maps.total).sum = 0 := by
      apply List.sum_eq_zero
      intro n hn
      obtain ⟨maps, hmaps, rfl⟩ := List.mem_map.mp hn
      exact total_of_size (hempty maps hmaps)
    have hheld : (c.world.mem p).held = [] := by
      rw [List.eq_nil_iff_forall_not_mem]
      intro e he
      obtain ⟨hproc, th, hrunning, hopen⟩ := held_unsettled h he
      simp [hsettled e.1 th hproc hrunning] at hopen
    rw [hbalance, hobjects, hheld]
    rfl

/-- The bytes of every file that calls of process `p` consumed which have not settled. -/
def takenUnsettled (c : machine.Config) (p : Nat) : Int :=
  (c.world.trace.filterMap fun e => match e with
    | .note (some t) (.taken place _ staged) =>
      if place.proc = p ∧ (c.threads t).any (fun th => !th.prog.settled) then
        some (stagedSize staged)
      else none
    | _ => none).sum

/-- Two files are uploaded and named by one message; the first one has arrived, the second
    one is consumed. -/
def secondRun : List machine.Move :=
  let metadata (size : Int) : BeginMetadata := ⟨"text/plain", size, "binary", "", "notes.txt"⟩
  atOnce 0 .construct ⟨0, 0, "", false, none⟩ ++
  atOnce 1 (.begin 0 (smallUpload "r" 1)) ⟨0, 0, "", false, none⟩ ++
  atOnce 2 (.binary 0 (some (.fileBegin "r" (metadata 1)))) ⟨0, 0, "", false, none⟩ ++
  atOnce 3 (.binary 0 (some (.fileChunk "r" [7]))) ⟨0, 0, "", false, none⟩ ++
  atOnce 4 (.binary 0 (some (.fileEnd "r"))) ⟨0, 0, "1", false, none⟩ ++
  atOnce 5 (.begin 0 (smallUpload "s" 2)) ⟨0, 0, "", false, none⟩ ++
  atOnce 6 (.binary 0 (some (.fileBegin "s" (metadata 2)))) ⟨0, 0, "", false, none⟩ ++
  atOnce 7 (.binary 0 (some (.fileChunk "s" [8, 9]))) ⟨0, 0, "", false, none⟩ ++
  atOnce 8 (.binary 0 (some (.fileEnd "s"))) ⟨0, 0, "2", false, none⟩ ++
  .start 0 (.replace 0 [.uploaded (smallFile "1" 1), .uploaded (smallFile "2" 2)]) ::
  -- sweep, consume, check, request id; request, three frames and a check; reply, give back;
  -- consume
  ["", "", "", "3", "", "", "", "", "", "", "", ""].map fun uuid =>
    .run ⟨0, 9⟩ (.ext ⟨0, 0, uuid, false, some ⟨"f", "notes.txt", "text/plain", 1, "f"⟩⟩)

theorem reserved_conserved_second :
    ∃ c, machine.initial.moves secondRun = some c ∧
      (c.world.mem 0).held.map heldSize = [2] ∧ Conserved c 0 := by
  have hrun : ((machine.initial.moves secondRun).map fun c => (c.world.mem 0).held.map heldSize) =
      some [2] := by
    rfl
  obtain ⟨c, hc, hheld⟩ := Option.map_eq_some_iff.mp hrun
  exact ⟨c, hc, hheld, reserved_conserved (Machine.Reachable.init.moves hc) 0⟩

/-- A file that has arrived is not counted any more, although its call has not settled. -/
theorem first_file_uncounted :
    ¬ ∀ c, machine.Reachable c → ∀ p, (c.world.mem p).reservedBytes =
      ((c.world.mem p).objects.map Maps.total).sum + takenUnsettled c p := by
  intro hall
  have hrun : ((machine.initial.moves secondRun).map fun c =>
      decide ((c.world.mem 0).reservedBytes = ((c.world.mem 0).objects.map Maps.total).sum +
        takenUnsettled c 0)) = some false := by
    rfl
  obtain ⟨c, hc, hfalse⟩ := Option.map_eq_some_iff.mp hrun
  exact of_decide_eq_false hfalse (hall c (Machine.Reachable.init.moves hc) 0)

end PaseoGateway.Uploads
