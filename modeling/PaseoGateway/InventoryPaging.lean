/-
  PaseoGateway/InventoryPaging.lean
  =================================
  **When a paging loop ends, and whether it has read everything.**

  `Stops` says of the answers of a backend exactly when a loop is complete on them
  (`complete_iff`).  The loop of the backfill is complete on all answers; the loops of
  the archive and of the listing are not, since they take a page without a cursor for
  the last one, and do not bound the pages they follow.
-/
import PaseoGateway.AgentInventory

namespace PaseoGateway.AgentInventory

open Async

variable {E Row : Type}

/-- How a round ends the loop. -/
def Turn.out : Turn Row → Option (Except String (List Row))
  | .failed error => some (.error error)
  | .known rows => some (.ok rows)
  | .more _ => none

/-- The cursor an answer gives to go on with. -/
def Reply.cursor : Reply E → Option String
  | .page p => p.pageInfo.cursor
  | _ => none

/-- The answer is a page that says it is the last one. -/
def Reply.Last : Reply E → Prop
  | .page p => p.pageInfo.hasMore = false
  | _ => False

/-- The cursors of the answers before the `n`-th, newest first. -/
def cursorsBefore (replies : Nat → Reply E) (n : Nat) : List String :=
  (List.range n).reverse.filterMap fun i => (replies i).cursor

/-- An answer that says there is more and gives no cursor, or one that was given before. -/
def Broken (replies : Nat → Reply E) (i : Nat) : Prop :=
  ∃ page, replies i = .page page ∧ page.pageInfo.hasMore = true ∧
    (page.pageInfo.cursor = none ∨ ∃ j < i, (replies j).cursor = page.pageInfo.cursor)

namespace Reader

variable (R : Reader E Row) (replies : Nat → Reply E)

/-- The reading before the `n`-th request; none when the loop has ended before. -/
def before : Nat → Option (Reading Row)
  | 0 => some .start
  | n + 1 => (before n).bind fun s =>
    match R.receive s (replies n) with
    | .more s => some s
    | _ => none

/-- The rows of one answer, where they could be read. -/
def rowsOf : Reply E → List Row
  | .page page => (R.rows page.entries).toOption.getD []
  | _ => []

def rowsBefore (n : Nat) : List Row := (List.range n).flatMap fun i => R.rowsOf (replies i)

/-! ### What is claimed of a loop, and when it holds -/

/-- The `n`-th request is answered by the last page, and every request before it by a page
    with more to come, whose cursor is asked for next. -/
def Followed (n : Nat) : Prop :=
  (∃ page, replies n = .page page ∧ page.pageInfo.hasMore = false) ∧
    ∀ i < n, ∃ page cursor, replies i = .page page ∧ page.pageInfo.hasMore = true ∧
      page.pageInfo.nextCursor = some cursor ∧ cursor ≠ "" ∧
      (R.before replies (i + 1)).map Reading.cursor = some (some cursor)

/-- The loop ends after finitely many requests; it takes the rows for complete only when it has
    followed every cursor to the last page, and fails on a missing or repeated cursor. -/
def Complete : Prop :=
  ∃ n out, R.read replies n 0 .start = none ∧ R.read replies (n + 1) 0 .start = some out ∧
    (∀ rows, out = .ok rows → R.Followed replies n) ∧
    ((∃ i ≤ n, Broken replies i) → ∃ error, out = .error error)

/-- The `n`-th answer makes the loop throw: it is no page, or its entries, the size of all
    rows so far or its cursor is refused. -/
def Rejects (n : Nat) : Prop :=
  match replies n with
  | .page page =>
    (∃ error, R.rows page.entries = .error error) ∨
    (R.tooLarge (R.rowsBefore replies (n + 1))).isSome ∨
    match page.pageInfo.cursor with
    | some cursor => (R.refused (cursorsBefore replies n) cursor).isSome
    | none => page.pageInfo.hasMore = true ∧ R.missing.isSome
  | _ => True

/-- Some answer makes the loop throw, or is the last page behind pages with different cursors;
    and all answers before it are pages that give a cursor. -/
def Stops : Prop :=
  ∃ n, (∀ i < n, (replies i).cursor ≠ none) ∧
    (R.Rejects replies n ∨ (replies n).Last ∧ (cursorsBefore replies n).Nodup)

/-! ### The state before a request -/

variable {R replies}

theorem before_succ {n : Nat} {s' : Reading Row} :
    R.before replies (n + 1) = some s' ↔
      ∃ s, R.before replies n = some s ∧ R.receive s (replies n) = .more s' := by
  rw [before, Option.bind_eq_some_iff]
  constructor
  · rintro ⟨s, hs, hmore⟩
    refine ⟨s, hs, ?_⟩
    split at hmore
    · rename_i heq
      rw [heq, Option.some.inj hmore]
    · simp at hmore
  · rintro ⟨s, hs, hmore⟩
    exact ⟨s, hs, by rw [hmore]⟩

/-- What a round must have seen to go on. -/
theorem receive_more {s s' : Reading Row} {reply : Reply E}
    (h : R.receive s reply = .more s') :
    ∃ page rows cursor, reply = .page page ∧ R.rows page.entries = .ok rows ∧
      page.pageInfo.cursor = some cursor ∧ R.refused s.seen cursor = none ∧
      s' = ⟨s.rows ++ rows, some cursor, cursor :: s.seen⟩ := by
  cases reply with
  | thrown error => simp [receive] at h
  | other => simp [receive] at h
  | page page =>
    simp only [receive] at h
    cases hrows : R.rows page.entries with
    | error error => simp [hrows] at h
    | ok rows =>
      simp only [hrows] at h
      split at h
      · simp at h
      · split at h
        · split at h <;> simp at h
        · rename_i cursor hcursor
          split at h
          · simp at h
          · rename_i hrefused
            simp only [Turn.more.injEq] at h
            exact ⟨page, rows, cursor, rfl, hrows, hcursor, hrefused, h.symm⟩

/-- What a round must have seen to take the rows for complete. -/
theorem receive_known {s : Reading Row} {reply : Reply E} {rows : List Row}
    (h : R.receive s reply = .known rows) :
    ∃ page, reply = .page page ∧ page.pageInfo.cursor = none := by
  cases reply with
  | thrown error => simp [receive] at h
  | other => simp [receive] at h
  | page page =>
    refine ⟨page, rfl, ?_⟩
    cases hcursor : page.pageInfo.cursor with
    | none => rfl
    | some cursor =>
      simp only [receive, hcursor] at h
      split at h
      · simp at h
      · split at h
        · simp at h
        · split at h <;> simp at h

theorem cursorsBefore_succ (n : Nat) :
    cursorsBefore replies (n + 1) = (replies n).cursor.toList ++ cursorsBefore replies n := by
  cases h : (replies n).cursor <;> simp [cursorsBefore, List.range_succ, h]

theorem rowsBefore_succ (n : Nat) :
    R.rowsBefore replies (n + 1) = R.rowsBefore replies n ++ R.rowsOf (replies n) := by
  simp [rowsBefore, List.range_succ]

/-- The loop has got to a request: every answer gave a cursor, and nothing was refused. -/
structure Got (R : Reader E Row) (replies : Nat → Reply E) (n : Nat) (s : Reading Row) : Prop where
  rows : s.rows = R.rowsBefore replies n
  seen : s.seen = cursorsBefore replies n
  cursor : s.cursor = s.seen.head?
  gave : ∀ i < n, (replies i).cursor ≠ none
  allowed : ∀ i < n, ∀ cursor, (replies i).cursor = some cursor →
    R.refused (cursorsBefore replies i) cursor = none

theorem got {n : Nat} {s : Reading Row} (h : R.before replies n = some s) :
    Got R replies n s := by
  induction n generalizing s with
  | zero =>
    simp only [before, Option.some.injEq] at h
    subst h
    exact ⟨rfl, rfl, rfl, by simp, by simp⟩
  | succ n ih =>
    obtain ⟨s₀, hs₀, hmore⟩ := before_succ.mp h
    obtain ⟨page, rows, cursor, hpage, hrows, hcursor, hrefused, rfl⟩ := receive_more hmore
    have hold := ih hs₀
    have hgives : (replies n).cursor = some cursor := by rw [hpage]; exact hcursor
    refine ⟨?_, ?_, rfl, ?_, ?_⟩
    · rw [rowsBefore_succ, ← hold.rows, hpage]
      simp [rowsOf, hrows, Except.toOption]
    · simp [cursorsBefore_succ, hgives, hold.seen]
    · intro i hi
      rcases Nat.lt_succ_iff_lt_or_eq.mp hi with hlt | rfl
      · exact hold.gave i hlt
      · simp [hgives]
    · intro i hi
      rcases Nat.lt_succ_iff_lt_or_eq.mp hi with hlt | rfl
      · exact hold.allowed i hlt
      · intro cursor' hcursor'
        rw [hgives] at hcursor'
        rw [← Option.some.inj hcursor', ← hold.seen]
        exact hrefused

/-- The loop has got to every request before one it gets to. -/
theorem before_of_le {n m : Nat} {s : Reading Row} (h : R.before replies n = some s)
    (hle : m ≤ n) : ∃ s', R.before replies m = some s' := by
  induction n generalizing s with
  | zero =>
    obtain rfl : m = 0 := by omega
    exact ⟨s, h⟩
  | succ n ih =>
    rcases Nat.lt_or_ge n m with hlt | hge
    · obtain rfl : m = n + 1 := by omega
      exact ⟨s, h⟩
    · obtain ⟨s₀, hs₀, _⟩ := before_succ.mp h
      exact ih hs₀ hge

/-- A loop that does not get to a request has ended at an earlier one. -/
theorem ended_of_none {n : Nat} (h : R.before replies n = none) :
    ∃ m < n, ∃ s out, R.before replies m = some s ∧
      (R.receive s (replies m)).out = some out := by
  induction n with
  | zero => simp [before] at h
  | succ n ih =>
    cases hs : R.before replies n with
    | none =>
      obtain ⟨m, hm, hended⟩ := ih hs
      exact ⟨m, by omega, hended⟩
    | some s =>
      refine ⟨n, by omega, s, ?_⟩
      cases hturn : R.receive s (replies n) with
      | failed error => exact ⟨.error error, hs, rfl⟩
      | known rows => exact ⟨.ok rows, hs, rfl⟩
      | more s' =>
        have hgoes := before_succ.mpr ⟨s, hs, hturn⟩
        simp [hgoes] at h

theorem read_from {requests i : Nat} {s : Reading Row} {out : Except String (List Row)}
    (hs : R.before replies i = some s) :
    R.read replies requests i s = some out ↔ ∃ n, i ≤ n ∧ n < i + requests ∧
      ∃ s', R.before replies n = some s' ∧ (R.receive s' (replies n)).out = some out := by
  induction requests generalizing i s with
  | zero =>
    simp only [read, reduceCtorEq, false_iff]
    rintro ⟨n, hle, hlt, _⟩
    omega
  | succ requests ih =>
    have hhere : ∀ {out'}, (R.receive s (replies i)).out = some out' →
        ((∃ n, i ≤ n ∧ n < i + (requests + 1) ∧ ∃ s', R.before replies n = some s' ∧
          (R.receive s' (replies n)).out = some out) ↔ out' = out) := by
      intro out' hout
      constructor
      · rintro ⟨n, hle, hlt, s', hs', hout'⟩
        rcases Nat.eq_or_lt_of_le hle with rfl | hlater
        · rw [hs] at hs'
          rw [← Option.some.inj hs', hout] at hout'
          exact Option.some.inj hout'
        · -- the loop has ended, so it gets to no later request
          obtain ⟨s'', hs''⟩ := before_of_le hs' hlater
          obtain ⟨s₀, hs₀, hmore⟩ := before_succ.mp hs''
          rw [hs] at hs₀
          rw [← Option.some.inj hs₀] at hmore
          simp [hmore, Turn.out] at hout
      · rintro rfl
        exact ⟨i, Nat.le_refl i, by omega, s, hs, hout⟩
    cases hturn : R.receive s (replies i) with
    | failed error =>
      simp only [read, hturn, Option.some.injEq]
      exact (hhere (by rw [hturn]; rfl)).symm
    | known rows =>
      simp only [read, hturn, Option.some.injEq]
      exact (hhere (by rw [hturn]; rfl)).symm
    | more s' =>
      simp only [read, hturn]
      rw [ih (before_succ.mpr ⟨s, hs, hturn⟩)]
      constructor
      · rintro ⟨n, hle, hlt, hrest⟩
        exact ⟨n, by omega, by omega, hrest⟩
      · rintro ⟨n, hle, hlt, s'', hs'', hout⟩
        refine ⟨n, ?_, by omega, s'', hs'', hout⟩
        by_contra hnot
        obtain rfl : n = i := by omega
        rw [hs] at hs''
        rw [← Option.some.inj hs'', hturn] at hout
        simp [Turn.out] at hout

/-- The loop ends within so many requests when it ends at one of them. -/
theorem read_eq_some {requests : Nat} {out : Except String (List Row)} :
    R.read replies requests 0 .start = some out ↔ ∃ n < requests, ∃ s,
      R.before replies n = some s ∧ (R.receive s (replies n)).out = some out := by
  have hstart : R.before replies 0 = some .start := rfl
  rw [read_from hstart]
  simp

/-- The loop makes its last request with the `n`-th one when it gets there and ends. -/
theorem ends_at {n : Nat} {out : Except String (List Row)} :
    (R.read replies n 0 .start = none ∧ R.read replies (n + 1) 0 .start = some out) ↔
      ∃ s, R.before replies n = some s ∧ (R.receive s (replies n)).out = some out := by
  constructor
  · rintro ⟨hnone, hsome⟩
    obtain ⟨m, hm, s, hs, hout⟩ := read_eq_some.mp hsome
    have hlast : m = n := by
      by_contra hne
      have hearlier := read_eq_some.mpr ⟨m, (by omega : m < n), s, hs, hout⟩
      simp [hnone] at hearlier
    subst hlast
    exact ⟨s, hs, hout⟩
  · rintro ⟨s, hs, hout⟩
    refine ⟨?_, read_eq_some.mpr ⟨n, by omega, s, hs, hout⟩⟩
    cases hread : R.read replies n 0 .start with
    | none => rfl
    | some out' =>
      obtain ⟨m, hm, s', hs', hout'⟩ := read_eq_some.mp hread
      obtain ⟨s'', hs''⟩ := before_of_le hs hm
      obtain ⟨s₀, hs₀, hmore⟩ := before_succ.mp hs''
      rw [hs'] at hs₀
      rw [← Option.some.inj hs₀] at hmore
      simp [hmore, Turn.out] at hout'

/-- A round throws exactly where the answer is refused. -/
theorem rejects_iff {n : Nat} {s : Reading Row} (hs : R.before replies n = some s) :
    R.Rejects replies n ↔ ∃ error, R.receive s (replies n) = .failed error := by
  have hgot := got hs
  unfold Rejects
  cases hreply : replies n with
  | thrown error => simp [receive]
  | other => simp [receive]
  | page page =>
    simp only [receive]
    cases hrows : R.rows page.entries with
    | error error => simp
    | ok rows =>
      have hall : R.rowsBefore replies (n + 1) = s.rows ++ rows := by
        rw [rowsBefore_succ, ← hgot.rows, hreply]
        simp [rowsOf, hrows, Except.toOption]
      simp only [hall, reduceCtorEq, exists_false, false_or]
      cases htoo : R.tooLarge (s.rows ++ rows) with
      | some error => simp
      | none =>
        simp only [Option.isSome_none, Bool.false_eq_true, false_or]
        cases hcursor : page.pageInfo.cursor with
        | some cursor =>
          simp only [← hgot.seen]
          cases hrefused : R.refused s.seen cursor <;> simp
        | none =>
          simp only
          cases hmore : page.pageInfo.hasMore with
          | false => simp
          | true => cases hmissing : R.missing <;> simp

/-- The pages before a request the loop has got to were followed. -/
theorem followed {n : Nat} {s : Reading Row} (hs : R.before replies n = some s)
    (hlast : (replies n).Last) : R.Followed replies n := by
  refine ⟨?_, ?_⟩
  · cases hreply : replies n with
    | page page =>
      rw [hreply] at hlast
      exact ⟨page, rfl, hlast⟩
    | other => simp [hreply, Reply.Last] at hlast
    | thrown error => simp [hreply, Reply.Last] at hlast
  · intro i hi
    obtain ⟨s', hs'⟩ := before_of_le hs hi
    obtain ⟨s₀, hs₀, hmore⟩ := before_succ.mp hs'
    obtain ⟨page, rows, cursor, hpage, _, hcursor, _, rfl⟩ := receive_more hmore
    have hinfo := hcursor
    unfold PageInfo.cursor at hinfo
    split at hinfo
    · rename_i hhas
      simp only [Option.filter_eq_some_iff, decide_eq_true_eq] at hinfo
      exact ⟨page, cursor, hpage, hhas, hinfo.1, hinfo.2, by rw [hs']; rfl⟩
    · simp at hinfo

theorem nodup_cursorsBefore {n : Nat} (hgave : ∀ i < n, (replies i).cursor ≠ none) :
    (cursorsBefore replies n).Nodup ↔
      ∀ i < n, ∀ j < i, (replies j).cursor ≠ (replies i).cursor := by
  induction n with
  | zero => simp [cursorsBefore]
  | succ n ih =>
    obtain ⟨cursor, hcursor⟩ := Option.ne_none_iff_exists'.mp (hgave n (by omega))
    have hmem : cursor ∈ cursorsBefore replies n ↔ ∃ j < n, (replies j).cursor = some cursor := by
      simp [cursorsBefore]
    rw [cursorsBefore_succ, hcursor]
    simp only [Option.toList_some, List.singleton_append, List.nodup_cons, hmem,
      ih fun i hi => hgave i (by omega)]
    constructor
    · rintro ⟨hnew, hold⟩ i hi j hj heq
      rcases Nat.lt_succ_iff_lt_or_eq.mp hi with hlt | rfl
      · exact hold i hlt j hj heq
      · exact hnew ⟨j, hj, heq.trans hcursor⟩
    · intro hall
      refine ⟨?_, fun i hi => hall i (by omega)⟩
      rintro ⟨j, hj, heq⟩
      exact hall n (by omega) j hj (heq.trans hcursor.symm)

theorem cursor_of_page {i : Nat} {page : Page E} (h : replies i = .page page) :
    (replies i).cursor = page.pageInfo.cursor := by
  rw [h]
  rfl

theorem stops_of_complete (h : R.Complete replies) : R.Stops replies := by
  obtain ⟨n, out, hnone, hsome, hfollowed, hbroken⟩ := h
  obtain ⟨s, hs, hout⟩ := ends_at.mp ⟨hnone, hsome⟩
  have hgot := got hs
  refine ⟨n, hgot.gave, ?_⟩
  cases hturn : R.receive s (replies n) with
  | failed error => exact .inl ((rejects_iff hs).mpr ⟨error, hturn⟩)
  | more s' => simp [hturn, Turn.out] at hout
  | known rows =>
    simp only [hturn, Turn.out, Option.some.injEq] at hout
    obtain ⟨⟨page, hpage, hlast⟩, _⟩ := hfollowed rows hout.symm
    refine .inr ⟨by rw [hpage]; exact hlast, ?_⟩
    rw [nodup_cursorsBefore hgot.gave]
    intro i hi j hj heq
    -- a repeated cursor would have had to fail
    have hrepeated : Broken replies i := by
      cases hreply : replies i with
      | page page' =>
        have hcursor := cursor_of_page hreply
        refine ⟨page', hreply, ?_, .inr ⟨j, hj, heq.trans hcursor⟩⟩
        by_contra hhas
        have hnocursor : page'.pageInfo.cursor = none := by simp [PageInfo.cursor, hhas]
        exact hgot.gave i hi (hcursor.trans hnocursor)
      | other => exact absurd (by rw [hreply]; rfl) (hgot.gave i hi)
      | thrown error => exact absurd (by rw [hreply]; rfl) (hgot.gave i hi)
    obtain ⟨error, herror⟩ := hbroken ⟨i, by omega, hrepeated⟩
    rw [← hout] at herror
    simp at herror

theorem complete_of_stops (h : R.Stops replies) : R.Complete replies := by
  obtain ⟨n, hgave, hstop⟩ := h
  -- the loop ends at the `n`-th request or before
  have hends : ∃ m ≤ n, ∃ s out, R.before replies m = some s ∧
      (R.receive s (replies m)).out = some out := by
    cases hs : R.before replies n with
    | none =>
      obtain ⟨m, hm, hended⟩ := ended_of_none hs
      exact ⟨m, by omega, hended⟩
    | some s =>
      refine ⟨n, Nat.le_refl n, s, ?_⟩
      cases hturn : R.receive s (replies n) with
      | failed error => exact ⟨.error error, hs, rfl⟩
      | known rows => exact ⟨.ok rows, hs, rfl⟩
      | more s' =>
        obtain ⟨page, _, cursor, hpage, _, hcursor, _, _⟩ := receive_more hturn
        rcases hstop with hrejects | ⟨hlast, _⟩
        · obtain ⟨error, herror⟩ := (rejects_iff hs).mp hrejects
          simp [hturn] at herror
        · rw [hpage] at hlast
          have hfalse : page.pageInfo.hasMore = false := hlast
          simp [PageInfo.cursor, hfalse] at hcursor
  obtain ⟨m, hm, s, out, hs, hout⟩ := hends
  obtain ⟨hnone, hsome⟩ := ends_at.mpr ⟨s, hs, hout⟩
  refine ⟨m, out, hnone, hsome, ?_⟩
  cases hturn : R.receive s (replies m) with
  | more s' => simp [hturn, Turn.out] at hout
  | failed error =>
    simp only [hturn, Turn.out, Option.some.injEq] at hout
    subst hout
    exact ⟨by simp, fun _ => ⟨error, rfl⟩⟩
  | known rows =>
    simp only [hturn, Turn.out, Option.some.injEq] at hout
    subst hout
    -- the rows are taken for complete at the last page only
    obtain ⟨page, hpage, hnocursor⟩ := receive_known hturn
    have hmn : m = n := by
      by_contra hne
      exact hgave m (by omega) ((cursor_of_page hpage).trans hnocursor)
    subst hmn
    have hrejects : ¬ R.Rejects replies m := by
      rw [rejects_iff hs]
      simp [hturn]
    obtain ⟨hlast, hnodup⟩ := hstop.resolve_left hrejects
    refine ⟨fun _ _ => followed hs hlast, ?_⟩
    rintro ⟨i, hi, page', hpage', hhas, hbroken⟩
    exfalso
    rcases Nat.eq_or_lt_of_le hi with rfl | hlt
    · rw [hpage'] at hlast
      have hfalse : page'.pageInfo.hasMore = false := hlast
      simp [hhas] at hfalse
    · rcases hbroken with hmissing | ⟨j, hj, heq⟩
      · exact hgave i hlt ((cursor_of_page hpage').trans hmissing)
      · exact (nodup_cursorsBefore hgave).mp hnodup i hlt j hj
          (heq.trans (cursor_of_page hpage').symm)

theorem complete_iff : R.Complete replies ↔ R.Stops replies :=
  ⟨stops_of_complete, complete_of_stops⟩

end Reader

/-! ### The backfill -/

/-- The loop of the backfill is complete whatever the backend answers. -/
theorem backfill_complete (rt : Runtime E Row) (workspace : Workspace) (replies : Nat → Reply E) :
    (backfillReader rt workspace).Complete replies := by
  let R := backfillReader rt workspace
  rw [Reader.complete_iff]
  -- the first answer that does not let the loop go on
  have hexists : ∃ n, (replies n).cursor = none ∨ R.Rejects replies n := by
    by_contra hall
    simp only [not_exists, not_or] at hall
    obtain ⟨cursor, hcursor⟩ := Option.ne_none_iff_exists'.mp (hall 100).1
    apply (hall 100).2
    have hlength : ∀ n, (cursorsBefore replies n).length = n := by
      intro n
      induction n with
      | zero => rfl
      | succ n ih =>
        obtain ⟨c, hc⟩ := Option.ne_none_iff_exists'.mp (hall n).1
        simp [Reader.cursorsBefore_succ, hc, ih]
    cases hreply : replies 100 with
    | other => simp [hreply, Reply.cursor] at hcursor
    | thrown error => simp [hreply, Reply.cursor] at hcursor
    | page page =>
      rw [hreply] at hcursor
      have hpage : page.pageInfo.cursor = some cursor := hcursor
      have hrefused : (R.refused (cursorsBefore replies 100) cursor).isSome = true := by
        simp [R, backfillReader, hlength]
      simp only [Reader.Rejects, hreply, hpage]
      exact .inr (.inr hrefused)
  classical
  obtain ⟨n, hn, hleast⟩ : ∃ n, ((replies n).cursor = none ∨ R.Rejects replies n) ∧
      ∀ i < n, ¬ ((replies i).cursor = none ∨ R.Rejects replies i) :=
    ⟨Nat.find hexists, Nat.find_spec hexists, fun i hi => Nat.find_min hexists hi⟩
  have hgave : ∀ i < n, (replies i).cursor ≠ none := fun i hi h => hleast i hi (.inl h)
  refine ⟨n, hgave, ?_⟩
  by_cases hrejects : R.Rejects replies n
  · exact .inl hrejects
  have hnone := hn.resolve_right hrejects
  refine .inr ⟨?_, ?_⟩
  · cases hreply : replies n with
    | other => simp [Reader.Rejects, hreply] at hrejects
    | thrown error => simp [Reader.Rejects, hreply] at hrejects
    | page page =>
      rw [hreply] at hnone
      have hnocursor : page.pageInfo.cursor = none := hnone
      simp only [Reader.Rejects, hreply, hnocursor, not_or] at hrejects
      have hmissing := hrejects.2.2
      simpa [R, backfillReader, Reply.Last] using hmissing
  · rw [Reader.nodup_cursorsBefore hgave]
    intro i hi j hj heq
    apply hleast i hi
    obtain ⟨cursor, hcursor⟩ := Option.ne_none_iff_exists'.mp (hgave i hi)
    have hseen : cursor ∈ cursorsBefore replies i := by
      simp only [cursorsBefore, List.mem_filterMap, List.mem_reverse, List.mem_range]
      exact ⟨j, hj, heq.trans hcursor⟩
    cases hreply : replies i with
    | other => simp [hreply, Reply.cursor] at hcursor
    | thrown error => simp [hreply, Reply.cursor] at hcursor
    | page page =>
      rw [hreply] at hcursor
      have hpage : page.pageInfo.cursor = some cursor := hcursor
      have hrefused : (R.refused (cursorsBefore replies i) cursor).isSome = true := by
        simp [R, backfillReader, hseen]
      simp only [Reader.Rejects, hreply, hpage]
      exact .inr (.inr (.inr hrefused))

/-! ### What an archive stores -/

/-- A backend that has been asked so often, and the inventories stored. -/
structure Answered (Row : Type) where
  asked : Nat
  stored : List (ArchivedInventory Row)

/-- The answers to one capture that runs alone: the clock, the pages, the record read, and how
    the write ends. -/
structure Answers (E Row : Type) where
  clock : Int
  replies : Nat → Reply E
  previous : Except Err (Option (Nat × ArchivedInventory Row))
  saved : Except StoreErr Nat

def Answers.respond (a : Answers E Row) :
    (q : (sys E Row).iface.Req) → Answered Row → (sys E Row).iface.Res q × Answered Row
  | .ext .now, s => (a.clock, s)
  | .ext (.request _), s => (a.replies s.asked, { s with asked := s.asked + 1 })
  | .ext (.record _), s => (a.previous, s)
  | .store (.create _ value), s => (a.saved, { s with stored := value :: s.stored })
  | .store (.update _ _ value), s => (a.saved, { s with stored := value :: s.stored })
  | .store (.get _), s => (.error .unavailable, s)
  | .store (.list _), s => (.error .unavailable, s)
  | .store (.delete _ _), s => (.error .unavailable, s)

section Archive

variable (a : Answers E Row)

theorem runWith_readPages_succ (R : Reader E Row) (pages : Nat) (s : Reading Row)
    (w : Answered Row) :
    (readPages R (pages + 1) s).runWith a.respond w =
      match R.receive s (a.replies w.asked) with
      | .failed error => (.error (.error error), { w with asked := w.asked + 1 })
      | .known rows => (.ok rows, { w with asked := w.asked + 1 })
      | .more s' => (readPages R pages s').runWith a.respond { w with asked := w.asked + 1 } := by
  change Prog.runWith a.respond (match R.receive s (a.replies w.asked) with
    | .failed error => .fail (.error error)
    | .known rows => .ret rows
    | .more s' => readPages R pages s') { w with asked := w.asked + 1 } = _
  cases R.receive s (a.replies w.asked) <;> rfl

/-- The loop run against a backend reads what `read` says, and stores nothing. -/
theorem runWith_readPages (R : Reader E Row) (pages : Nat) (s : Reading Row) (w : Answered Row) :
    ∃ asked, ((readPages R pages s).runWith a.respond w).2 = ⟨asked, w.stored⟩ ∧
      ∀ rows, ((readPages R pages s).runWith a.respond w).1 = .ok rows →
        R.read a.replies pages w.asked s = some (.ok rows) := by
  induction pages generalizing s w with
  | zero => exact ⟨w.asked, rfl, by simp [readPages]⟩
  | succ pages ih =>
    rw [runWith_readPages_succ, Reader.read]
    cases R.receive s (a.replies w.asked) with
    | failed error => exact ⟨w.asked + 1, rfl, by simp⟩
    | known rows => exact ⟨w.asked + 1, rfl, by simp⟩
    | more s' => exact ih s' { w with asked := w.asked + 1 }

theorem runWith_storeInventory (uid : String) (value : ArchivedInventory Row) (w : Answered Row) :
    ((storeInventory uid value).runWith a.respond w).2.stored ⊆ value :: w.stored := by
  change (Prog.runWith a.respond ((Prog.ofExcept a.previous : (sys E Row).Task _) >>=
    save uid value) w).2.stored ⊆ value :: w.stored
  cases a.previous with
  | error e => exact List.subset_cons_self value w.stored
  | ok previous =>
    cases previous with
    | none => cases hsaved : a.saved <;> simp [Prog.ofExcept, save, await, Answers.respond, hsaved]
    | some found =>
      cases hsaved : a.saved <;> simp [Prog.ofExcept, save, await, Answers.respond, hsaved]

/-- An archive stores nothing but the rows its loop has taken for complete. -/
theorem stored_read (rt : Runtime E Row) (workspace : Workspace) (availability : Availability)
    (pages : Nat) {value : ArchivedInventory Row}
    (h : value ∈ ((archiveAgentInventory rt workspace availability pages).runWith a.respond
      ⟨0, []⟩).2.stored) :
    (archiveReader rt workspace availability a.clock).read a.replies pages 0 .start =
      some (.ok value.entries) := by
  unfold archiveAgentInventory at h
  split at h
  · simp at h
  · rename_i uid _
    change value ∈ (Prog.runWith a.respond
      (readPages (archiveReader rt workspace availability a.clock) pages .start >>= fun entries =>
        storeInventory uid ⟨workspace.metadata.name, uid, a.clock, availability, entries⟩)
      ⟨0, []⟩).2.stored at h
    obtain ⟨asked, hstate, hrows⟩ := runWith_readPages a
      (archiveReader rt workspace availability a.clock) pages .start ⟨0, []⟩
    rw [Prog.runWith_bind] at h
    generalize (readPages (archiveReader rt workspace availability a.clock) pages
      .start).runWith a.respond ⟨0, []⟩ = out at h hstate hrows
    obtain ⟨result, state⟩ := out
    subst hstate
    cases result with
    | error e => simp at h
    | ok rows =>
      rw [hrows rows rfl]
      have hvalue := runWith_storeInventory a uid _ _ h
      simp only [List.mem_singleton] at hvalue
      rw [hvalue]

end Archive

/-! ### The listing of all workspaces -/

section Listing

variable {rt : Runtime E Row} {inventoryStore : Bool}

/-- The listing asks the workspace's backend for its agents. -/
def Source.Asks (inventoryStore : Bool) (source : Source E Row) : Prop :=
  ¬ (source.workspace.spec.residency = .Archived ∧ inventoryStore) ∧
    source.workspace.status.isNone = false ∧ source.connects = .ok ()

theorem read_mono {R : Reader E Row} {replies : Nat → Reply E} {requests more : Nat}
    {out : Except String (List Row)} (h : R.read replies requests 0 .start = some out)
    (hle : requests ≤ more) : R.read replies more 0 .start = some out := by
  rw [Reader.read_eq_some] at h ⊢
  obtain ⟨n, hn, hended⟩ := h
  exact ⟨n, by omega, hended⟩

theorem listSource_mono {requests more : Nat} {source : Source E Row}
    {out : Except String (Listed Row)}
    (h : listSource rt inventoryStore requests source = some out) (hle : requests ≤ more) :
    listSource rt inventoryStore more source = some out := by
  unfold listSource at h ⊢
  split at h
  · rwa [if_pos ‹_›]
  · rw [if_neg ‹_›]
    split at h
    · rwa [if_pos ‹_›]
    · rw [if_neg ‹_›]
      cases hconnects : source.connects with
      | error error => simpa [hconnects] using h
      | ok _ =>
        simp only [hconnects, Option.map_eq_some_iff] at h ⊢
        obtain ⟨result, hread, hout⟩ := h
        exact ⟨result, read_mono hread hle, hout⟩

/-- A workspace is done with when its backend's answers end the loop. -/
theorem listSource_ends (source : Source E Row)
    (h : source.Asks inventoryStore → (listingReader rt).Stops source.replies) :
    ∃ requests out, listSource rt inventoryStore requests source = some out ∧
      ∀ rows, out = .ok (.current rows) → ∃ n, (listingReader rt).Followed source.replies n ∧
        ∀ i ≤ n, ¬ Broken source.replies i := by
  have hretained : ∀ rows, listRetained source.retained ≠ .ok (.current rows) := by
    intro rows
    unfold listRetained
    split <;> simp
  have hfallBack : ∀ error rows, fallBack inventoryStore source error ≠ .ok (.current rows) := by
    intro error rows
    unfold fallBack
    split
    · exact hretained rows
    · simp
  by_cases harchived : source.workspace.spec.residency = .Archived ∧ inventoryStore
  · exact ⟨0, _, by rw [listSource, if_pos harchived], fun rows hout => absurd hout (hretained rows)⟩
  by_cases hstatus : source.workspace.status.isNone = true
  · exact ⟨0, _, by rw [listSource, if_neg harchived, if_pos hstatus], by simp⟩
  cases hconnects : source.connects with
  | error error =>
    refine ⟨0, fallBack inventoryStore source error, ?_, fun rows hout =>
      absurd hout (hfallBack error rows)⟩
    simp [listSource, harchived, hstatus, hconnects]
  | ok _ =>
    have hasks : source.Asks inventoryStore := ⟨harchived, eq_false_of_ne_true hstatus, hconnects⟩
    obtain ⟨n, out, _, hread, hfollowed, hbroken⟩ := Reader.complete_of_stops (h hasks)
    refine ⟨n + 1, _, by simp [listSource, harchived, hstatus, hconnects, hread]; rfl, ?_⟩
    intro rows hout
    cases out with
    | error error => exact absurd hout (hfallBack error rows)
    | ok rows' =>
      refine ⟨n, hfollowed rows' rfl, fun i hi hbad => ?_⟩
      obtain ⟨error, herror⟩ := hbroken ⟨i, hi, hbad⟩
      simp at herror

theorem listAgents_mono {requests more : Nat} {sources : List (Source E Row)}
    {out : Except String (List (Source E Row × Listed Row))}
    (h : listAgents rt inventoryStore requests sources = some out) (hle : requests ≤ more) :
    listAgents rt inventoryStore more sources = some out := by
  induction sources generalizing out with
  | nil => exact h
  | cons source rest ih =>
    simp only [listAgents] at h ⊢
    cases hsource : listSource rt inventoryStore requests source with
    | none => simp [hsource] at h
    | some result =>
      rw [listSource_mono hsource hle]
      rw [hsource] at h
      cases result with
      | error error => exact h
      | ok listed =>
        simp only [Option.map_eq_some_iff] at h ⊢
        obtain ⟨result, hrest, hout⟩ := h
        exact ⟨result, ih hrest, hout⟩

/-- The listing of all selected workspaces ends, and says only of inventories that were read to
    their last page that they are current. -/
theorem listAgents_ends (sources : List (Source E Row))
    (h : ∀ source ∈ sources, source.Asks inventoryStore →
      (listingReader rt).Stops source.replies) :
    ∃ requests out, listAgents rt inventoryStore requests sources = some out ∧
      ∀ list, out = .ok list → ∀ source rows, (source, Listed.current rows) ∈ list →
        ∃ n, (listingReader rt).Followed source.replies n ∧
          ∀ i ≤ n, ¬ Broken source.replies i := by
  induction sources with
  | nil => exact ⟨0, .ok [], rfl, by simp⟩
  | cons source rest ih =>
    obtain ⟨requests, out, hsource, hcurrent⟩ := listSource_ends source (h source (by simp))
    obtain ⟨requests', out', hrest, hall⟩ := ih fun s hs => h s (by simp [hs])
    have hsource' := listSource_mono hsource (Nat.le_max_left requests requests')
    have hrest' := listAgents_mono hrest (Nat.le_max_right requests requests')
    cases out with
    | error error =>
      exact ⟨max requests requests', .error error, by simp [listAgents, hsource'], by simp⟩
    | ok listed =>
      refine ⟨max requests requests', out'.map ((source, listed) :: ·), ?_, ?_⟩
      · simp [listAgents, hsource', hrest']
      · intro list hlist source' rows hmem
        cases out' with
        | error error => simp [Except.map] at hlist
        | ok list' =>
          simp only [Except.map, Except.ok.injEq] at hlist
          subst hlist
          rcases List.mem_cons.mp hmem with heq | hmem'
          · simp only [Prod.mk.injEq] at heq
            obtain ⟨rfl, rfl⟩ := heq
            exact hcurrent rows rfl
          · exact hall list' rfl source' rows hmem'

end Listing

/-! ### Complete inventories -/

def demoRuntime : Runtime Nat Nat where
  retained := fun _ _ _ entry => .ok entry
  bytes := fun rows => 2 + rows.length
  listed := .ok
  claimed := fun _ entry => .ok entry

/-- A last page behind a first one. -/
def twoPages : Nat → Reply Nat
  | 0 => .page ⟨[1, 2], ⟨true, some "next"⟩⟩
  | _ => .page ⟨[3], ⟨false, none⟩⟩

/-- A page that says there is more and gives no cursor. -/
def noCursor : Nat → Reply Nat := fun _ => .page ⟨[1, 2], ⟨true, none⟩⟩

def demoWorkspace : Workspace where
  metadata := { name := "ws", uid := some "uid" }
  spec := { projectRef := "p", displayName := "d", credentialProfile := "c" }

/-- The answers to a capture whose write succeeds. -/
def demoAnswers : Answers Nat Nat where
  clock := 0
  replies := twoPages
  previous := .ok none
  saved := .ok 1

/-- A workspace that runs, and one that is archived. -/
def demoSources : List (Source Nat Nat) :=
  let running : Workspace :=
    { demoWorkspace with status := some { phase := .Ready, message := "", observedGeneration := 1 } }
  let archived : Workspace :=
    { demoWorkspace with spec := { demoWorkspace.spec with residency := .Archived } }
  [⟨running, .ok (), twoPages, .rows [7]⟩, ⟨archived, .error "stopped", noCursor, .rows [7]⟩]

theorem stops_twoPages (R : Reader Nat Nat) : R.Stops twoPages :=
  ⟨1, by decide, .inr ⟨rfl, by decide⟩⟩

/-- Empty pages with one and the same cursor. -/
def sameCursor : Nat → Reply Nat := fun _ => .page ⟨[], ⟨true, some "again"⟩⟩

/-- Empty pages, each with a cursor of its own. -/
def freshCursors : Nat → Reply Nat := fun n =>
  .page ⟨[], ⟨true, some (String.ofList (List.replicate (n + 1) 'x'))⟩⟩

theorem freshCursors_cursor (n : Nat) :
    (freshCursors n).cursor = some (String.ofList (List.replicate (n + 1) 'x')) := by
  have hne : String.ofList (List.replicate (n + 1) 'x') ≠ "" := by
    intro h
    have hlist := congrArg String.toList h
    simp [List.replicate_succ] at hlist
  simp [freshCursors, Reply.cursor, PageInfo.cursor, hne]

theorem no_cursor_stops {R : Reader Nat Nat} (hrejects : ¬ R.Rejects noCursor 0) :
    ¬ R.Stops noCursor := by
  rintro ⟨n, hgave, hstop⟩
  have hn : n = 0 := by
    by_contra hne
    exact hgave 0 (by omega) rfl
  subst hn
  rcases hstop with hrejects' | ⟨hlast, _⟩
  · exact hrejects hrejects'
  · simp [Reply.Last, noCursor] at hlast

theorem fresh_allowed (workspace : Workspace) (n : Nat) :
    ¬ (archiveReader demoRuntime workspace .archived 0).Rejects freshCursors n := by
  have hrows : (archiveReader demoRuntime workspace .archived 0).rowsBefore freshCursors (n + 1) =
      [] := by
    simp only [Reader.rowsBefore, List.flatMap_eq_nil_iff]
    exact fun _ _ => rfl
  have hcursor : (freshCursors n).cursor = _ := freshCursors_cursor n
  have hfresh : String.ofList (List.replicate (n + 1) 'x') ∉ cursorsBefore freshCursors n := by
    simp only [cursorsBefore, List.mem_filterMap, List.mem_reverse, List.mem_range,
      freshCursors_cursor, Option.some.injEq]
    rintro ⟨i, hi, heq⟩
    have hlength := congrArg (fun text => text.toList.length) heq
    simp at hlength
    omega
  have hreply : freshCursors n =
      .page ⟨[], ⟨true, some (String.ofList (List.replicate (n + 1) 'x'))⟩⟩ := rfl
  rw [hreply] at hcursor
  have hpage : PageInfo.cursor ⟨true, some (String.ofList (List.replicate (n + 1) 'x'))⟩ =
      some (String.ofList (List.replicate (n + 1) 'x')) := hcursor
  simp only [Reader.Rejects, hreply, hrows, hpage]
  simp [archiveReader, demoRuntime, hfresh, pure, Except.pure]

end PaseoGateway.AgentInventory
