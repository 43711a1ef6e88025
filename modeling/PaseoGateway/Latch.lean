/-
  PaseoGateway/Latch.lean
  =======================
  **Calls that exclude one another in their process.**

  A `Latch` is a flag in the memory of a process that a call sets when it takes the section
  and clears when it leaves it, and that nobody else touches.  At most one call of a process
  holds it (`Latch.Kept.alone`).  Where a call leaves a mark in the history while it holds the
  latch, a call that has left a mark writes nothing more once another one of its process has
  (`Latch.Kept.serial`), so the histories of the holders follow one another.
-/
import PaseoGateway.RelyGuarantee

namespace PaseoGateway.Async

variable {S : Sys} {m : Machine S}

/-! ### What a move does to the threads -/

namespace Machine

theorem Config.move_run {c c' : m.Config} {t : Tid} {pick : Pick m}
    (h : c.move (.run t pick) = some c') :
    ∃ call start q k r w', c.threads t = some ⟨call, start, .call q k⟩ ∧
      m.perform t c.world pick q = some (r, w') ∧ c'.world = w' ∧
      ∀ u th, c'.threads u = some th →
        (u = t ∧ th = ⟨call, start, k r⟩) ∨ (u ≠ t ∧ c.threads u = some th) ∨
          (c.world.next ≤ u.idx ∧ th.prog = m.program u th.call) := by
  simp only [Config.move] at h
  split at h
  · next call start q k hth =>
    obtain ⟨⟨r, w'⟩, hperf, rfl⟩ := Option.map_eq_some_iff.mp h
    refine ⟨call, start, q, k, r, w', hth, hperf, rfl, fun u th hu => ?_⟩
    change adopt _ _ _ u = _ at hu
    unfold adopt at hu
    split at hu
    · by_cases hut : u = t
      · subst hut
        rw [Function.update_self] at hu
        exact .inl ⟨rfl, (Option.some.inj hu).symm⟩
      · rw [Function.update_of_ne hut] at hu
        exact .inr (.inl ⟨hut, hu⟩)
    · next hge =>
      obtain ⟨s, -, rfl⟩ := Option.map_eq_some_iff.mp hu
      exact .inr (.inr ⟨not_lt.mp hge, rfl⟩)
  · cases h

theorem Config.move_start {c c' : m.Config} {p : Nat} {call : S.Call}
    (h : c.move (.start p call) = some c') :
    c'.world = c.world.spawn p call ∧ ∀ u th, c'.threads u = some th →
      c.threads u = some th ∨ (c.world.next ≤ u.idx ∧ th.prog = m.program u th.call) := by
  simp only [Config.move] at h
  split at h
  · cases h
    refine ⟨rfl, fun u th hu => ?_⟩
    change adopt _ _ _ u = _ at hu
    unfold adopt at hu
    split at hu
    · exact .inl hu
    · next hge =>
      obtain ⟨s, -, rfl⟩ := Option.map_eq_some_iff.mp hu
      exact .inr ⟨not_lt.mp hge, rfl⟩
  · cases h

/-- A request changes the memory of its own process only. -/
theorem perform_mem_ne {t : Tid} {w w' : World S} {pick : Pick m} {q : Req S} {r : q.Res} {p : Nat}
    (hp : p ≠ t.proc) (h : m.perform t w pick q = some (r, w')) : w'.mem p = w.mem p := by
  rcases pick with c | c <;> rcases q with q | x
  · cases h
    rfl
  · cases h
  · cases h
  · obtain ⟨a, -, heq⟩ := Option.map_eq_some_iff.mp h
    cases heq
    rw [World.spawnAll_mem, World.answered_mem_ne hp]

/-- What a request adds to the history is written by the thread that makes it. -/
theorem perform_new {t : Tid} {w w' : World S} {pick : Pick m} {q : Req S} {r : q.Res}
    (h : m.perform t w pick q = some (r, w')) :
    ∃ new, w'.trace = new ++ w.trace ∧ ∀ e ∈ new, e.author = some t := by
  rcases pick with c | c <;> rcases q with q | x
  · cases h
    exact serve_grows c (some t) q w.trace
  · cases h
  · cases h
  · obtain ⟨a, -, heq⟩ := Option.map_eq_some_iff.mp h
    cases heq
    refine ⟨a.notes.map (.note (some t)), by simp, fun e he => ?_⟩
    obtain ⟨n, -, rfl⟩ := List.mem_map.mp he
    rfl

/-- A store request leaves no note. -/
theorem perform_store {t : Tid} {w w' : World S} {pick : Pick m} {q : StoreReq S.Key S.Val}
    {r : q.Res} (h : m.perform t w pick (.store q) = some (r, w')) :
    ∃ new, w'.trace = new ++ w.trace ∧ ∀ e ∈ new, e.key?.isSome = true := by
  rcases pick with c | c
  swap
  · cases h
  rcases hserve : serve c (some t) q w.trace with ⟨r', tr'⟩
  simp only [perform, hserve, Option.some.injEq, Prod.mk.injEq] at h
  obtain ⟨-, rfl⟩ := h
  rcases q with k | sel | ⟨k, v⟩ | ⟨k, n, v⟩ | ⟨k, n⟩
  · exact ⟨[], (serve_get hserve).1, by simp⟩
  · exact ⟨[], (serve_list hserve).1, by simp⟩
  · rcases serve_create hserve with ⟨-, htr, -⟩ | ⟨htr, -⟩
    · exact ⟨[.create (some t) k v], htr, by simp [Entry.key?]⟩
    · exact ⟨[], htr, by simp⟩
  · rcases serve_update hserve with ⟨_, -, htr, -⟩ | ⟨htr, -⟩
    · exact ⟨[.update (some t) k v], htr, by simp [Entry.key?]⟩
    · exact ⟨[], htr, by simp⟩
  · rcases serve_delete hserve with ⟨_, -, htr, -⟩ | ⟨htr, -⟩
    · exact ⟨[.delete (some t) k], htr, by simp [Entry.key?]⟩
    · exact ⟨[], htr, by simp⟩

end Machine

/-! ### The latch -/

structure Latch (m : Machine S) where
  flag : S.Mem → Bool
  /-- what is left to run of a call that holds the latch -/
  Holding : S.Call → S.Task m.Out → Prop
  /-- what only a holder leaves in the history -/
  Marks : Entry S.Key S.Val S.Note → Prop
  opening : ∀ t call, ¬ Holding call (m.program t call)
  taken : ∀ {t call q k w pick r w'}, (m.program t call).Leads (.call q k) →
    m.perform t w pick q = some (r, w') → ¬ Holding call (.call q k) → Holding call (k r) →
    flag (w.mem t.proc) = false ∧ flag (w'.mem t.proc) = true
  kept : ∀ {t call q k w pick r w'}, (m.program t call).Leads (.call q k) →
    m.perform t w pick q = some (r, w') → (Holding call (.call q k) ↔ Holding call (k r)) →
    flag (w'.mem t.proc) = flag (w.mem t.proc)
  left : ∀ {t call q k}, (m.program t call).Leads (.call q k) → Holding call (.call q k) →
    ∀ r, Holding call (k r) ∨ (k r).settled = true
  marked : ∀ {t call q k w pick r w' new}, (m.program t call).Leads (.call q k) →
    m.perform t w pick q = some (r, w') → w'.trace = new ++ w.trace → ∀ e ∈ new, Marks e →
    Holding call (.call q k)

namespace Latch

variable (L : Latch m)

/-- Thread `t` left a mark in the history. -/
def Marked (t : Tid) (tr : Trace S.Key S.Val S.Note) : Prop :=
  ∃ e ∈ tr, L.Marks e ∧ e.author = some t

/-- After the mark of `t`, another call of its process has left one. -/
def Passed (t : Tid) (newer tr : Trace S.Key S.Val S.Note) : Prop :=
  ∃ e older u, tr = newer ++ e :: older ∧ L.Marks e ∧ e.author = some u ∧ t ≠ u ∧
    t.proc = u.proc ∧ L.Marked t older

structure Kept (c : m.Config) : Prop where
  flag : ∀ t th, c.threads t = some th → L.Holding th.call th.prog →
    L.flag (c.world.mem t.proc) = true
  alone : ∀ t u th th', c.threads t = some th → c.threads u = some th' → t.proc = u.proc →
    L.Holding th.call th.prog → L.Holding th'.call th'.prog → t = u
  marked : ∀ t th, c.threads t = some th → L.Marked t c.world.trace →
    L.Holding th.call th.prog ∨ th.prog.settled = true
  past : ∀ t th newer, c.threads t = some th → L.Passed t newer c.world.trace →
    th.prog.settled = true
  serial : ∀ t newer, L.Passed t newer c.world.trace → ∀ e ∈ newer, e.author ≠ some t

variable {L} {c c' : m.Config}

theorem Marked.of_append {t : Tid} {new tr : Trace S.Key S.Val S.Note}
    (h : L.Marked t (new ++ tr)) : L.Marked t new ∨ L.Marked t tr := by
  obtain ⟨e, he, hmark⟩ := h
  rcases List.mem_append.mp he with he | he
  · exact .inl ⟨e, he, hmark⟩
  · exact .inr ⟨e, he, hmark⟩

/-- Somebody passed `t` before, or just now. -/
theorem Passed.of_append {t : Tid} {new newer tr : Trace S.Key S.Val S.Note}
    (h : L.Passed t newer (new ++ tr)) :
    (∃ newer', newer = new ++ newer' ∧ L.Passed t newer' tr) ∨
      ∃ e older u between, new = newer ++ e :: between ∧ older = between ++ tr ∧ L.Marks e ∧
        e.author = some u ∧ t ≠ u ∧ t.proc = u.proc ∧ L.Marked t older := by
  obtain ⟨e, older, u, htr, hmark, hauthor, hne, hproc, hold⟩ := h
  rcases List.append_eq_append_iff.mp htr with ⟨newer', rfl, htr'⟩ | ⟨between, rfl, heq⟩
  · exact .inl ⟨newer', rfl, e, older, u, htr', hmark, hauthor, hne, hproc, hold⟩
  · rcases between with _ | ⟨e', between⟩
    · exact .inl ⟨[], (List.append_nil _).symm ▸ by simp,
        e, older, u, by simpa using heq.symm, hmark, hauthor, hne, hproc, hold⟩
    · cases heq
      exact .inr ⟨e, _, u, between, rfl, rfl, hmark, hauthor, hne, hproc, hold⟩

theorem Passed.marked {t : Tid} {newer tr : Trace S.Key S.Val S.Note} (h : L.Passed t newer tr) :
    L.Marked t tr := by
  obtain ⟨e, older, _, rfl, -, -, -, -, e', he', hmark⟩ := h
  exact ⟨e', by simp [he'], hmark⟩

/-- A call that is only now started has left no mark. -/
theorem not_marked (hauthored : c.world.Authored) {t : Tid} (ht : c.world.next ≤ t.idx) :
    ¬ L.Marked t c.world.trace := by
  rintro ⟨e, he, -, hauthor⟩
  have := hauthored e he t hauthor
  omega

theorem Kept.start {p : Nat} {call : S.Call} (h : L.Kept c) (hauthored : c.world.Authored)
    (hmv : c.move (.start p call) = some c') : L.Kept c' := by
  obtain ⟨hworld, hthreads⟩ := Machine.Config.move_start hmv
  have htrace : c'.world.trace = c.world.trace := by rw [hworld, World.spawn_trace]
  have hmem : c'.world.mem = c.world.mem := by rw [hworld, World.spawn_mem]
  have hholds {u th} (hu : c'.threads u = some th) (hh : L.Holding th.call th.prog) :
      c.threads u = some th := by
    rcases hthreads u th hu with hold | ⟨-, hprog⟩
    · exact hold
    · rw [hprog] at hh
      exact absurd hh (L.opening u th.call)
  have hmarked {u th} (hu : c'.threads u = some th) (hm : L.Marked u c.world.trace) :
      c.threads u = some th := by
    rcases hthreads u th hu with hold | ⟨hge, -⟩
    · exact hold
    · exact absurd hm (not_marked hauthored hge)
  refine ⟨?_, ?_, ?_, ?_, ?_⟩
  · rw [hmem]
    exact fun t th ht hh => h.flag t th (hholds ht hh) hh
  · exact fun t u th th' ht hu hproc hh hh' =>
      h.alone t u th th' (hholds ht hh) (hholds hu hh') hproc hh hh'
  · rw [htrace]
    exact fun t th ht hm => h.marked t th (hmarked ht hm) hm
  · rw [htrace]
    exact fun t th newer ht hp => h.past t th newer (hmarked ht hp.marked) hp
  · rw [htrace]
    exact h.serial

theorem Kept.crash {p : Nat} (h : L.Kept c) (hmv : c.move (.crash p) = some c') : L.Kept c' := by
  cases hmv
  have hkeep {u : Tid} {th : m.Thread} (hu : (if u.proc = p then none else c.threads u) = some th) :
      u.proc ≠ p ∧ c.threads u = some th := by
    split at hu
    · cases hu
    · next hne => exact ⟨hne, hu⟩
  refine ⟨fun t th ht hh => ?_, fun t u th th' ht hu => ?_, fun t th ht => ?_,
    fun t th newer ht => ?_, h.serial⟩
  · have hmem : (m.crashed p c.world).mem t.proc = c.world.mem t.proc :=
      Function.update_of_ne (hkeep ht).1 _ _
    rw [hmem]
    exact h.flag t th (hkeep ht).2 hh
  · exact h.alone t u th th' (hkeep ht).2 (hkeep hu).2
  · exact h.marked t th (hkeep ht).2
  · exact h.past t th newer (hkeep ht).2

theorem Kept.env {e : m.Env} (h : L.Kept c) (hmv : c.move (.env e) = some c') : L.Kept c' := by
  obtain ⟨⟨new, g⟩, henv, rfl⟩ := Option.map_eq_some_iff.mp hmv
  have hnone : ∀ x ∈ new, x.author = none := m.env_author henv
  have hmarked {t : Tid} (hm : L.Marked t (new ++ c.world.trace)) : L.Marked t c.world.trace := by
    rcases hm.of_append with ⟨x, hx, -, hauthor⟩ | hm
    · rw [hnone x hx] at hauthor
      cases hauthor
    · exact hm
  have hpassed {t : Tid} {newer} (hp : L.Passed t newer (new ++ c.world.trace)) :
      ∃ newer', newer = new ++ newer' ∧ L.Passed t newer' c.world.trace := by
    rcases hp.of_append with hp | ⟨x, _, u, between, hnew, -, -, hauthor, -⟩
    · exact hp
    · rw [hnone x (by rw [hnew]; simp)] at hauthor
      cases hauthor
  refine ⟨h.flag, h.alone, fun t th ht hm => h.marked t th ht (hmarked hm),
    fun t th newer ht hp => ?_, fun t newer hp e he => ?_⟩
  · obtain ⟨newer', -, hp'⟩ := hpassed hp
    exact h.past t th newer' ht hp'
  · obtain ⟨newer', rfl, hp'⟩ := hpassed hp
    rcases List.mem_append.mp he with he | he
    · rw [hnone e he]
      exact nofun
    · exact h.serial t newer' hp' e he

theorem Kept.run {t : Tid} {pick : Pick m} (h : L.Kept c) (hauthored : c.world.Authored)
    (hbelow : ∀ u th, c.threads u = some th → u.idx < c.world.next) (hreach : m.Reachable c)
    (hmv : c.move (.run t pick) = some c') : L.Kept c' := by
  obtain ⟨call, start, q, k, r, w', hth, hperf, rfl, hthreads⟩ := Machine.Config.move_run hmv
  have hleads := hreach.leads hth
  obtain ⟨new, htrace, hnew⟩ := Machine.perform_new hperf
  have hrunning : ¬ (Prog.call q k : S.Task m.Out).settled = true := by simp [Prog.settled]
  -- a holder of the process next to the running thread keeps it from holding the latch
  have hother {u th} (hut : u ≠ t) (hu : c.threads u = some th) (hproc : u.proc = t.proc)
      (hh : L.Holding th.call th.prog) :
      ¬ L.Holding call (.call q k) ∧ ¬ L.Holding call (k r) := by
    have hnot : ¬ L.Holding call (.call q k) := fun ht => hut (h.alone u t _ _ hu hth hproc hh ht)
    refine ⟨hnot, fun hholds => ?_⟩
    have hflag := h.flag u th hu hh
    rw [hproc, (L.taken hleads hperf hnot hholds).1] at hflag
    cases hflag
  have hmarked {u : Tid} (hm : L.Marked u c'.world.trace) :
      (u = t ∧ L.Holding call (.call q k)) ∨ L.Marked u c.world.trace := by
    rw [htrace] at hm
    rcases hm.of_append with ⟨e, he, hmark, hauthor⟩ | hm
    · rw [hnew e he] at hauthor
      exact .inl ⟨(Option.some.inj hauthor).symm, L.marked hleads hperf htrace e he hmark⟩
    · exact .inr hm
  have hpassed {u : Tid} {newer} (hp : L.Passed u newer c'.world.trace) :
      (∃ newer', newer = new ++ newer' ∧ L.Passed u newer' c.world.trace) ∨
        (u ≠ t ∧ u.proc = t.proc ∧ L.Marked u c.world.trace ∧ L.Holding call (.call q k) ∧
          ∀ e ∈ newer, e.author = some t) := by
    rw [htrace] at hp
    rcases hp.of_append with hp | ⟨e, _, v, between, hsplit, rfl, hmark, hauthor, hne, hproc, hm⟩
    · exact .inl hp
    have he : e ∈ new := by rw [hsplit]; simp
    rw [hnew e he] at hauthor
    obtain rfl := Option.some.inj hauthor
    have hholds := L.marked hleads hperf htrace e he hmark
    refine .inr ⟨hne, hproc, ?_, hholds, fun x hx => hnew x (by rw [hsplit]; simp [hx])⟩
    rcases hm.of_append with ⟨x, hx, -, hx'⟩ | hm
    · rw [hnew x (by rw [hsplit]; simp [hx])] at hx'
      exact absurd (Option.some.inj hx').symm hne
    · exact hm
  refine ⟨fun u th hu hh => ?_, fun u v th th' hu hv hproc hh hh' => ?_, fun u th hu hm => ?_,
    fun u th newer hu hp => ?_, fun u newer hp e he => ?_⟩
  · rcases hthreads u th hu with ⟨rfl, rfl⟩ | ⟨hut, hold⟩ | ⟨-, hprog⟩
    · by_cases hholding : L.Holding call (.call q k)
      · rw [L.kept hleads hperf ⟨fun _ => hh, fun _ => hholding⟩]
        exact h.flag u _ hth hholding
      · exact (L.taken hleads hperf hholding hh).2
    · by_cases hproc : u.proc = t.proc
      · obtain ⟨hbefore, hafter⟩ := hother hut hold hproc hh
        rw [hproc, L.kept hleads hperf ⟨fun h => absurd h hbefore, fun h => absurd h hafter⟩,
          ← hproc]
        exact h.flag u th hold hh
      · rw [Machine.perform_mem_ne hproc hperf]
        exact h.flag u th hold hh
    · rw [hprog] at hh
      exact absurd hh (L.opening u th.call)
  · rcases hthreads u th hu with ⟨rfl, rfl⟩ | ⟨hut, hold⟩ | ⟨-, hprog⟩
    · rcases hthreads v th' hv with ⟨rfl, rfl⟩ | ⟨hvt, hold'⟩ | ⟨-, hprog⟩
      · rfl
      · exact absurd hh (hother hvt hold' hproc.symm hh').2
      · rw [hprog] at hh'
        exact absurd hh' (L.opening v th'.call)
    · rcases hthreads v th' hv with ⟨rfl, rfl⟩ | ⟨hvt, hold'⟩ | ⟨-, hprog⟩
      · exact absurd hh' (hother hut hold hproc hh).2
      · exact h.alone u v th th' hold hold' hproc hh hh'
      · rw [hprog] at hh'
        exact absurd hh' (L.opening v th'.call)
    · rw [hprog] at hh
      exact absurd hh (L.opening u th.call)
  · rcases hthreads u th hu with ⟨rfl, rfl⟩ | ⟨hut, hold⟩ | ⟨hge, -⟩
    · rcases hmarked hm with ⟨-, hholding⟩ | hm
      · exact L.left hleads hholding r
      · exact L.left hleads ((h.marked u _ hth hm).resolve_right hrunning) r
    · rcases hmarked hm with ⟨heq, -⟩ | hm
      · exact absurd heq hut
      · exact h.marked u th hold hm
    · rcases hmarked hm with ⟨rfl, -⟩ | hm
      · exact absurd (hbelow u _ hth) (not_lt.mpr hge)
      · exact absurd hm (not_marked hauthored hge)
  · rcases hpassed hp with ⟨newer', -, hp'⟩ | ⟨hut, hproc, hm, hholding, -⟩
    · rcases hthreads u th hu with ⟨rfl, rfl⟩ | ⟨-, hold⟩ | ⟨hge, -⟩
      · exact absurd (h.past u _ newer' hth hp') hrunning
      · exact h.past u th newer' hold hp'
      · exact absurd hp'.marked (not_marked hauthored hge)
    · rcases hthreads u th hu with ⟨heq, -⟩ | ⟨-, hold⟩ | ⟨hge, -⟩
      · exact absurd heq hut
      · exact (h.marked u th hold hm).resolve_left fun hh =>
          (hother hut hold hproc hh).1 hholding
      · exact absurd hm (not_marked hauthored hge)
  · rcases hpassed hp with ⟨newer', rfl, hp'⟩ | ⟨hut, -, -, -, hall⟩
    · rcases List.mem_append.mp he with he | he
      · rw [hnew e he]
        intro heq
        obtain rfl := Option.some.inj heq
        exact hrunning (h.past t _ newer' hth hp')
      · exact h.serial u newer' hp' e he
    · rw [hall e he]
      exact fun heq => hut (Option.some.inj heq).symm

/-- The latch is kept in every run. -/
theorem reachable {P : Protocol m} (hs : P.Sound) (L : Latch m) (h : m.Reachable c) :
    L.Kept c := by
  induction h with
  | init =>
    refine ⟨nofun, nofun, nofun, nofun, fun t newer hp => ?_⟩
    obtain ⟨e, he, -, hauthor⟩ := hp.marked
    rw [m.init_author e he] at hauthor
    cases hauthor
  | @move c c' mv hreach hmv ih =>
    have hholds := hs.reachable hreach
    rcases mv with ⟨t, pick⟩ | ⟨p, call⟩ | p | e
    · exact ih.run hholds.authored hholds.below hreach hmv
    · exact ih.start hholds.authored hmv
    · exact ih.crash hmv
    · exact ih.env hmv

end Latch

end PaseoGateway.Async
