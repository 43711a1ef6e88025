/-
  PaseoGateway/TranscriptPaging.lean
  ==================================
  **Paging a retained transcript is exact.**

  In a transcript whose entries have increasing, disjoint ranges the entries before the
  first one of a page are those whose range ends before its start, so each page of a walk
  continues where the last one ended (`filter_before`, `filter_after`).  The walks follow
  by induction on what is left.
-/
import PaseoGateway.RetainedTranscript

namespace PaseoGateway.RetainedTranscript

/-- The ranges of the entries increase and are disjoint. -/
structure Ordered (rows : List TimelineEntry) : Prop where
  ranges : ∀ row ∈ rows, row.seqStart ≤ row.seqEnd
  disjoint : rows.Pairwise fun a b => a.seqEnd < b.seqStart

section Rows

variable {older newer rest : List TimelineEntry} {first last : TimelineEntry}

theorem Ordered.append (h : Ordered (older ++ newer)) :
    Ordered older ∧ Ordered newer ∧ ∀ a ∈ older, ∀ b ∈ newer, a.seqEnd < b.seqStart := by
  obtain ⟨ho, hn, hboth⟩ := List.pairwise_append.mp h.disjoint
  exact ⟨⟨fun row hrow => h.ranges row (List.mem_append_left _ hrow), ho⟩,
    ⟨fun row hrow => h.ranges row (List.mem_append_right _ hrow), hn⟩, hboth⟩

/-- What ends before an entry begins comes before it. -/
theorem filter_before (h : Ordered (older ++ first :: rest)) :
    (older ++ first :: rest).filter (fun row => row.seqEnd < first.seqStart) = older := by
  obtain ⟨_, hfirst, hboth⟩ := h.append
  rw [List.filter_append]
  have holder : older.filter (fun row => row.seqEnd < first.seqStart) = older :=
    List.filter_eq_self.mpr fun a ha => by simpa using hboth a ha first List.mem_cons_self
  have hnone : (first :: rest).filter (fun row => row.seqEnd < first.seqStart) = [] := by
    refine List.filter_eq_nil_iff.mpr fun b hb => ?_
    have hrange := hfirst.ranges b hb
    rcases List.mem_cons.mp hb with rfl | hb
    · simpa using hrange
    · have hlt := (List.pairwise_cons.mp hfirst.disjoint).1 b hb
      have hrange' := hfirst.ranges first List.mem_cons_self
      simp only [decide_eq_true_eq]
      omega
  rw [holder, hnone, List.append_nil]

/-- What begins after an entry ends comes after it. -/
theorem filter_after (h : Ordered (older ++ last :: newer)) :
    (older ++ last :: newer).filter (fun row => last.seqEnd < row.seqStart) = newer := by
  obtain ⟨holder, hlast, hboth⟩ := h.append
  rw [List.filter_append]
  have hnone : older.filter (fun row => last.seqEnd < row.seqStart) = [] := by
    refine List.filter_eq_nil_iff.mpr fun a ha => ?_
    have hlt := hboth a ha last List.mem_cons_self
    have ha' := holder.ranges a ha
    have hlast' := hlast.ranges last List.mem_cons_self
    simp only [decide_eq_true_eq]
    omega
  have hself : (last :: newer).filter (fun row => last.seqEnd < row.seqStart) = newer := by
    have hlast' := hlast.ranges last List.mem_cons_self
    rw [List.filter_cons_of_neg (by simpa using hlast')]
    exact List.filter_eq_self.mpr fun b hb => by
      simpa using (List.pairwise_cons.mp hlast.disjoint).1 b hb
  rw [hnone, hself, List.nil_append]

/-- What begins after a cursor is an end of the transcript. -/
theorem filter_suffix {rows : List TimelineEntry} (h : Ordered rows) (seq : Int) :
    ∃ older, rows = older ++ rows.filter fun row => seq < row.seqStart := by
  induction rows with
  | nil => exact ⟨[], rfl⟩
  | cons first rest ih =>
    obtain ⟨_, hrest, hboth⟩ := @Ordered.append [first] rest h
    by_cases hfirst : seq < first.seqStart
    · have hall : (first :: rest).filter (fun row => seq < row.seqStart) = first :: rest := by
        refine List.filter_eq_self.mpr fun row hrow => ?_
        rcases List.mem_cons.mp hrow with rfl | hrow
        · simpa using hfirst
        · have hlt := hboth first (List.mem_singleton_self _) row hrow
          have hrange := h.ranges first List.mem_cons_self
          simp only [decide_eq_true_eq]
          omega
      exact ⟨[], by rw [hall, List.nil_append]⟩
    · obtain ⟨older, holder⟩ := ih hrest
      exact ⟨first :: older, by rw [List.filter_cons_of_neg (by simpa using hfirst),
        List.cons_append, ← holder]⟩

/-- A page from the end of a list that has entries, and what is left of the list. -/
theorem rtake_split {rows : List TimelineEntry} {n : Nat} (hrows : rows ≠ []) (hn : 0 < n) :
    ∃ older first rest, rows = older ++ first :: rest ∧ rows.rtake n = first :: rest := by
  have hsplit : rows.rdrop n ++ rows.rtake n = rows := List.take_append_drop _ _
  rcases hpage : rows.rtake n with _ | ⟨first, rest⟩
  · rw [List.rtake, List.drop_eq_nil_iff] at hpage
    have hlength := List.length_pos_iff.mpr hrows
    omega
  · exact ⟨rows.rdrop n, first, rest, by rw [← hpage, hsplit], rfl⟩

theorem take_split {rows : List TimelineEntry} {n : Nat} (hrows : rows ≠ []) (hn : 0 < n) :
    ∃ before last newer, rows = before ++ last :: newer ∧ rows.take n = before ++ [last] := by
  have hpage : rows.take n ≠ [] := by
    simp [List.take_eq_nil_iff, hrows, Nat.pos_iff_ne_zero.mp hn]
  refine ⟨(rows.take n).dropLast, (rows.take n).getLast hpage, rows.drop n, ?_, ?_⟩
  · conv_lhs => rw [← List.take_append_drop n rows, ← List.dropLast_append_getLast hpage]
    simp
  · exact (List.dropLast_append_getLast hpage).symm

end Rows

/-! ### One page -/

section Page

variable {history : AgentHistory} {agent : Json} {request : TimelineRequest} {cursor : Cursor}

/-- The request does not ask for the canonical transcript. -/
def Projected (request : TimelineRequest) : Prop := request.projection.getD .projected = .projected

theorem pageLimit_pos (request : TimelineRequest) : 0 < pageLimit request := by
  unfold pageLimit
  split
  · omega
  · split <;> omega

theorem pageError_none (hprojected : Projected request) (hentries : history.entries ≠ []) :
    pageError request (some history) = none := by
  have hfilled : history.entries.isEmpty = false := by simpa using hentries
  simp [pageError, show request.projection.getD .projected = .projected from hprojected, hfilled]

theorem minSaved_eq (first : TimelineEntry) (rest : List TimelineEntry)
    (h : history.entries = first :: rest) : minSaved (some history) = first.seqStart := by
  simp [minSaved, rowsOf, h]

theorem minSaved_le (h : Ordered history.entries) {row : TimelineEntry}
    (hrow : row ∈ history.entries) : minSaved (some history) ≤ row.seqStart := by
  rcases hrows : history.entries with _ | ⟨first, rest⟩
  · simp [hrows] at hrow
  · rw [minSaved_eq first rest hrows]
    rw [hrows] at h hrow
    rcases List.mem_cons.mp hrow with rfl | hrow
    · exact Int.le_refl _
    · have hlt := (List.pairwise_cons.mp h.disjoint).1 row hrow
      have hrange := h.ranges first List.mem_cons_self
      omega

theorem maxSaved_eq (older : List TimelineEntry) (last : TimelineEntry)
    (h : history.entries = older ++ [last]) : maxSaved (some history) = last.seqEnd := by
  simp [maxSaved, rowsOf, h]

/-- A page of an own cursor, or without a cursor, is not reset unless it asks for newer entries. -/
theorem direction_kept (hdirection : request.direction.getD .tail ≠ .after)
    (hcursor : ∀ c, request.cursor = some c → c.epoch = history.epoch) :
    effectiveDirection request (some history) = request.direction.getD .tail ∧
      staleCursor request (some history) = false ∧ afterGap request (some history) = false := by
  have hstale : staleCursor request (some history) = false := by
    rcases hc : request.cursor with _ | c
    · simp [staleCursor, hc]
    · simp [staleCursor, hc, epochOf, hcursor c hc]
  have hgap : afterGap request (some history) = false := by simp [afterGap, hdirection]
  simp [effectiveDirection, hstale, hgap]

end Page

/-! ### Going back -/

section Older

variable {history : AgentHistory} {agent : Json} {request : TimelineRequest}
variable {limits : Nat → Option Int}

/-- The page of a walk back, from the tail or from a cursor. -/
def olderPage (history : AgentHistory) (agent : Json) (request : TimelineRequest)
    (limit : Option Int) (cursor : Option Cursor) : TimelinePayload :=
  retainedHistoryPage { request with
    direction := some (if cursor.isSome then .before else .tail)
    cursor := cursor
    limit := limit } (some history) agent

/-- The walk has told its client everything it could. -/
structure Told (history : AgentHistory) (rows : List TimelineEntry)
    (pages : List TimelinePayload) : Prop where
  entries : (pages.map TimelinePayload.entries).reverse.flatten = rows
  gap : history.truncated → history.entries ≠ [] →
    ∃ last, pages.getLast? = some last ∧ last.gap ∧ last.error.isSome

/-- A page from the end of the entries that are left. -/
theorem page_back (hordered : Ordered history.entries) {left right : List TimelineEntry}
    (hrows : history.entries = left ++ right) (hleft : left ≠ []) {page : TimelinePayload}
    (hpage : page = retainedHistoryPage request (some history) agent)
    (herror : pageError request (some history) = none)
    (hselected : selected request (some history) = left.rtake (pageLimit request)) :
    ∃ older first rest, left = older ++ first :: rest ∧ page.entries = first :: rest ∧
      page.startCursor = some ⟨history.epoch, first.seqStart⟩ ∧
      (page.hasOlder = false → older = [] ∧ history.truncated = false) := by
  obtain ⟨older, first, rest, hsplit, htake⟩ := rtake_split hleft (pageLimit_pos request)
  rw [htake] at hselected
  refine ⟨older, first, rest, hsplit, ?_, ?_, ?_⟩
  · simp [hpage, retainedHistoryPage, herror, hselected]
  · simp [hpage, retainedHistoryPage, hselected, epochOf]
  · intro hdone
    simp only [hpage, retainedHistoryPage, hselected, isTruncated, List.head?_cons, Option.any_some,
      Bool.or_eq_false_iff, decide_eq_false_iff_not] at hdone
    refine ⟨?_, hdone.2⟩
    rcases older with _ | ⟨oldest, more⟩
    · rfl
    · have hmin := minSaved_eq oldest (more ++ first :: rest ++ right) (by rw [hrows, hsplit]; simp)
      have hlt : oldest.seqEnd < first.seqStart :=
        (hsplit ▸ (hrows ▸ hordered).append.1).append.2.2 oldest List.mem_cons_self first
          List.mem_cons_self
      have hrange := hordered.ranges oldest (by simp [hrows, hsplit])
      omega

/-- What a page back from the first entry of the page before it holds. -/
theorem olderPage_before (hordered : Ordered history.entries) (hprojected : Projected request)
    {older rest : List TimelineEntry} {first : TimelineEntry} {limit : Option Int}
    (hrows : history.entries = older ++ first :: rest) {page : TimelinePayload}
    (hpage : page = olderPage history agent request limit (some ⟨history.epoch, first.seqStart⟩)) :
    (older = [] ∧ page.entries = [] ∧ page.hasOlder = false ∧
      (history.truncated → page.gap ∧ page.error.isSome)) ∨
    ∃ older' first' rest', older = older' ++ first' :: rest' ∧ page.entries = first' :: rest' ∧
      page.gap = false ∧ page.startCursor = some ⟨history.epoch, first'.seqStart⟩ ∧
      (page.hasOlder = false → older' = [] ∧ history.truncated = false) := by
  let q : TimelineRequest := { request with
    direction := some .before, cursor := some ⟨history.epoch, first.seqStart⟩, limit := limit }
  have hq : page = retainedHistoryPage q (some history) agent := hpage
  obtain ⟨hdirection, hstale, hafter⟩ : effectiveDirection q (some history) = .before ∧
      staleCursor q (some history) = false ∧ afterGap q (some history) = false :=
    direction_kept (by simp [q]) (by simp [q])
  have herror : pageError q (some history) = none := pageError_none hprojected (by simp [hrows])
  have hselected : selected q (some history) = older.rtake (pageLimit q) := by
    simp only [selected, hdirection, rowsOf, Option.elim_some]
    rw [hrows]
    exact congrArg (List.rtake · _) (filter_before (hrows ▸ hordered))
  have hgap : page.gap = (history.truncated && decide (first.seqStart ≤ minSaved (some history))) := by
    simp [hq, retainedHistoryPage, beforeGap, hdirection, hafter, isTruncated, q]
  by_cases hold : older = []
  · subst hold
    have hmin := minSaved_eq first rest hrows
    have hnothing : selected q (some history) = [] := by simp [hselected]
    refine .inl ⟨rfl, by simp [hq, retainedHistoryPage, herror, hnothing],
      by simp [hq, retainedHistoryPage, hnothing], fun htruncated => ?_⟩
    have hbefore : beforeGap q (some history) = true := by
      simp [beforeGap, hdirection, isTruncated, htruncated, q, hmin]
    exact ⟨by simp [hgap, htruncated, hmin], by simp [hq, retainedHistoryPage, herror, hbefore]⟩
  · obtain ⟨older', first', rest', holder, hentries, hstart, hdone⟩ :=
      page_back hordered hrows hold hq herror hselected
    have hbefore := (hrows ▸ hordered).append.2.2 first' (by simp [holder]) first List.mem_cons_self
    have hrange := hordered.ranges first' (by simp [hrows, holder])
    have hmin : minSaved (some history) ≤ first'.seqStart :=
      minSaved_le hordered (by simp [hrows, holder])
    refine .inr ⟨older', first', rest', holder, hentries, ?_, hstart, hdone⟩
    rw [hgap, decide_eq_false (by omega), Bool.and_false]

/-- The page from the tail. -/
theorem olderPage_tail (hordered : Ordered history.entries) (hprojected : Projected request)
    {limit : Option Int} {page : TimelinePayload}
    (hpage : page = olderPage history agent request limit none) :
    page.gap = false ∧ ((history.entries = [] ∧ page.entries = [] ∧ page.hasOlder = false) ∨
    ∃ older first rest, history.entries = older ++ first :: rest ∧ page.entries = first :: rest ∧
      page.startCursor = some ⟨history.epoch, first.seqStart⟩ ∧
      (page.hasOlder = false → older = [] ∧ history.truncated = false)) := by
  let q : TimelineRequest := { request with
    direction := some .tail, cursor := none, limit := limit }
  have hq : page = retainedHistoryPage q (some history) agent := hpage
  obtain ⟨hdirection, hstale, hafter⟩ : effectiveDirection q (some history) = .tail ∧
      staleCursor q (some history) = false ∧ afterGap q (some history) = false :=
    direction_kept (by simp [q]) (by simp [q])
  have hselected : selected q (some history) = history.entries.rtake (pageLimit q) := by
    simp only [selected, hdirection, rowsOf, Option.elim_some]
  refine ⟨by simp [hq, retainedHistoryPage, beforeGap, hdirection, hafter], ?_⟩
  by_cases hentries : history.entries = []
  · have hnothing : selected q (some history) = [] := by simp [hselected, hentries]
    exact .inl ⟨hentries, by simp [hq, retainedHistoryPage, hnothing],
      by simp [hq, retainedHistoryPage, hnothing]⟩
  · have herror : pageError q (some history) = none := pageError_none hprojected hentries
    have hrows : history.entries = history.entries ++ [] := by simp
    exact .inr (page_back hordered hrows hentries hq herror hselected)

theorem olderPages_succ (turns n : Nat) (cursor : Option Cursor) :
    olderPages history agent request limits (turns + 1) n cursor =
      let page := olderPage history agent request (limits n) cursor
      if !page.hasOlder || page.gap then some [page]
      else (olderPages history agent request limits turns (n + 1) page.startCursor).map (page :: ·) :=
  rfl

theorem told_cons {page : TimelinePayload} {pages : List TimelinePayload}
    {rows : List TimelineEntry} (h : Told history rows pages) (hpages : pages ≠ []) :
    Told history (rows ++ page.entries) (page :: pages) where
  entries := by simp [h.entries]
  gap := fun htruncated hentries => by
    obtain ⟨last, hlast, hrest⟩ := h.gap htruncated hentries
    exact ⟨last, by rw [List.getLast?_cons_of_ne_nil hpages, hlast], hrest⟩

/-- A walk back from the first entry of a page tells all that is older. -/
theorem olderPages_before (hordered : Ordered history.entries) (hprojected : Projected request)
    {older rest : List TimelineEntry} {first : TimelineEntry} {turns n : Nat}
    (hrows : history.entries = older ++ first :: rest) (hturns : older.length < turns) :
    ∃ pages, olderPages history agent request limits turns n
        (some ⟨history.epoch, first.seqStart⟩) = some pages ∧ pages ≠ [] ∧
      Told history older pages := by
  induction turns generalizing older first rest n with
  | zero => omega
  | succ turns ih =>
    rw [olderPages_succ]
    generalize hpage : olderPage history agent request (limits n)
      (some ⟨history.epoch, first.seqStart⟩) = page
    rcases olderPage_before hordered hprojected hrows hpage.symm with
      ⟨rfl, hentries, hold, hgap⟩ | ⟨older', first', rest', rfl, hentries, hgap, hstart, hdone⟩
    · refine ⟨[page], by simp [hold], by simp, ⟨by simp [hentries], fun htruncated _ => ?_⟩⟩
      exact ⟨page, rfl, hgap htruncated⟩
    · rcases hold : page.hasOlder
      · obtain ⟨rfl, hwhole⟩ := hdone hold
        refine ⟨[page], by simp [hold], by simp, ⟨by simp [hentries], fun htruncated => ?_⟩⟩
        simp [hwhole] at htruncated
      · simp only [List.length_append, List.length_cons] at hturns
        obtain ⟨pages, hpages, hne, htold⟩ := ih (n := n + 1) (hrows.trans (by simp; rfl)) (by omega)
        refine ⟨page :: pages, by simp [hold, hgap, hstart, hpages], by simp, ?_⟩
        rw [← hentries]
        exact told_cons htold hne

/-- A walk back from the tail tells the whole transcript. -/
theorem olderPages_tail (hordered : Ordered history.entries) (hprojected : Projected request)
    {turns n : Nat} (hturns : history.entries.length < turns) :
    ∃ pages, olderPages history agent request limits turns n none = some pages ∧
      Told history history.entries pages := by
  obtain ⟨turns, rfl⟩ : ∃ rest, turns = rest + 1 := ⟨turns - 1, by omega⟩
  rw [olderPages_succ]
  generalize hpage : olderPage history agent request (limits n) none = page
  obtain ⟨hgap, ⟨hempty, hentries, hold⟩ | ⟨older, first, rest, hrows, hentries, hstart, hdone⟩⟩ :=
    olderPage_tail hordered hprojected hpage.symm
  · exact ⟨[page], by simp [hold], by simp [hentries, hempty], fun _ hne => absurd hempty hne⟩
  · rcases hold : page.hasOlder
    · obtain ⟨rfl, hwhole⟩ := hdone hold
      refine ⟨[page], by simp [hold], by simp [hentries, hrows], fun htruncated => ?_⟩
      simp [hwhole] at htruncated
    · simp only [hrows, List.length_append, List.length_cons] at hturns
      obtain ⟨pages, hpages, hne, htold⟩ := @olderPages_before history agent request limits hordered
        hprojected older rest first turns (n + 1) hrows (by omega)
      refine ⟨page :: pages, by simp [hold, hgap, hstart, hpages], ?_⟩
      rw [hrows, ← hentries]
      exact told_cons htold hne

end Older

/-! ### Going on -/

section Newer

variable {history : AgentHistory} {agent : Json} {request : TimelineRequest}
variable {limits : Nat → Option Int}

/-- The page of a walk towards the newest entry. -/
def newerPage (history : AgentHistory) (agent : Json) (request : TimelineRequest)
    (limit : Option Int) (cursor : Cursor) : TimelinePayload :=
  retainedHistoryPage { request with
    direction := some .after
    cursor := some cursor
    limit := limit } (some history) agent

/-- The cursor does not lie before the saved part of a truncated transcript. -/
def Within (history : AgentHistory) (cursor : Cursor) : Prop :=
  cursor.epoch = history.epoch ∧
    (history.truncated → minSaved (some history) - 1 ≤ cursor.seq)

/-- What a page from a cursor holds of the entries behind it. -/
theorem newerPage_spec (hordered : Ordered history.entries) (hprojected : Projected request)
    {older newer : List TimelineEntry} {limit : Option Int} {cursor : Cursor}
    (hwithin : Within history cursor) (hrows : history.entries = older ++ newer)
    (hfilter : history.entries.filter (fun row => cursor.seq < row.seqStart) = newer)
    {page : TimelinePayload} (hpage : page = newerPage history agent request limit cursor) :
    page.reset = false ∧ ((newer = [] ∧ page.entries = [] ∧ page.hasNewer = false) ∨
    ∃ read last rest, newer = read ++ last :: rest ∧ page.entries = read ++ [last] ∧
      page.endCursor = some ⟨history.epoch, last.seqEnd⟩ ∧
      (page.hasNewer = false → rest = [])) := by
  let q : TimelineRequest := { request with
    direction := some .after, cursor := some cursor, limit := limit }
  have hq : page = retainedHistoryPage q (some history) agent := hpage
  have hstale : staleCursor q (some history) = false := by
    simp [staleCursor, q, epochOf, hwithin.1]
  have hafter : afterGap q (some history) = false := by
    rcases htruncated : history.truncated
    · simp [afterGap, isTruncated, htruncated]
    · have hseq := hwithin.2 htruncated
      simp [afterGap, q, isTruncated, htruncated, hstale, hseq]
  have hdirection : effectiveDirection q (some history) = .after := by
    simp [effectiveDirection, hstale, hafter, q]
  have hselected : selected q (some history) = newer.take (pageLimit q) := by
    simp only [selected, hdirection, rowsOf, Option.elim_some]
    rw [← hfilter]
    rfl
  refine ⟨by simp [hq, retainedHistoryPage, hstale, hafter], ?_⟩
  by_cases hnewer : newer = []
  · have hnothing : selected q (some history) = [] := by simp [hselected, hnewer]
    exact .inl ⟨hnewer, by simp [hq, retainedHistoryPage, hnothing],
      by simp [hq, retainedHistoryPage, hnothing]⟩
  · obtain ⟨read, last, rest, hsplit, htake⟩ := take_split hnewer (pageLimit_pos q)
    rw [htake] at hselected
    have herror : pageError q (some history) = none :=
      pageError_none hprojected (by simp [hrows, hnewer])
    refine .inr ⟨read, last, rest, hsplit, ?_, ?_, fun hdone => ?_⟩
    · simp [hq, retainedHistoryPage, herror, hselected]
    · simp [hq, retainedHistoryPage, hselected, epochOf]
    · simp only [hq, retainedHistoryPage, hselected, List.getLast?_concat, Option.any_some,
        decide_eq_false_iff_not] at hdone
      rcases List.eq_nil_or_concat rest with rfl | ⟨more, newest, rfl⟩
      · rfl
      · have hmax := maxSaved_eq (older ++ read ++ last :: more) newest
          (by rw [hrows, hsplit]; simp)
        have htail := (hsplit ▸ (hrows ▸ hordered).append.2.1).append.2.1
        have hlt := (List.pairwise_cons.mp htail.disjoint).1 newest (by simp)
        have hrange := htail.ranges newest (by simp)
        omega

theorem newerPages_succ (turns n : Nat) (cursor : Cursor) :
    newerPages history agent request limits (turns + 1) n (some cursor) =
      let page := newerPage history agent request (limits n) cursor
      if !page.hasNewer then some [page]
      else (newerPages history agent request limits turns (n + 1) page.endCursor).map (page :: ·) :=
  rfl

/-- A walk on from a cursor tells the entries that begin behind it. -/
theorem newerPages_spec (hordered : Ordered history.entries) (hprojected : Projected request)
    {older newer : List TimelineEntry} {cursor : Cursor} {turns n : Nat}
    (hwithin : Within history cursor) (hrows : history.entries = older ++ newer)
    (hfilter : history.entries.filter (fun row => cursor.seq < row.seqStart) = newer)
    (hturns : newer.length < turns) :
    ∃ pages, newerPages history agent request limits turns n (some cursor) = some pages ∧
      (pages.map TimelinePayload.entries).flatten = newer := by
  induction turns generalizing older newer cursor n with
  | zero => omega
  | succ turns ih =>
    rw [newerPages_succ]
    generalize hpage : newerPage history agent request (limits n) cursor = page
    obtain ⟨-, ⟨rfl, hentries, hnew⟩ | ⟨read, last, rest, rfl, hentries, hend, hdone⟩⟩ :=
      newerPage_spec hordered hprojected hwithin hrows hfilter hpage.symm
    · exact ⟨[page], by simp [hnew], by simp [hentries]⟩
    · rcases hnew : page.hasNewer
      · obtain rfl := hdone hnew
        exact ⟨[page], by simp [hnew], by simp [hentries]⟩
      · simp only [List.length_append, List.length_cons] at hturns
        have hrows' : history.entries = (older ++ read) ++ last :: rest := by simp [hrows]
        have hwithin' : Within history ⟨history.epoch, last.seqEnd⟩ := by
          refine ⟨rfl, fun _ => ?_⟩
          have hmin := @minSaved_le history hordered last (by simp [hrows'])
          have hrange := hordered.ranges last (by simp [hrows'])
          dsimp only
          omega
        obtain ⟨pages, hpages, htold⟩ := @ih ((older ++ read) ++ [last]) rest
          ⟨history.epoch, last.seqEnd⟩ (n + 1) hwithin' (by simp [hrows'])
          (by rw [hrows']; exact filter_after (hrows' ▸ hordered)) (by omega)
        exact ⟨page :: pages, by simp [hnew, hend, hpages], by simp [hentries, htold]⟩

end Newer

/-! ### Resets and gaps -/

section Reset

variable {history : AgentHistory} {agent : Json} {request : TimelineRequest} {cursor : Cursor}

/-- The page is the one from the tail. -/
def ToTail (history : AgentHistory) (agent : Json) (request : TimelineRequest) : Prop :=
  (retainedHistoryPage request (some history) agent).reset = true ∧
    (retainedHistoryPage request (some history) agent).entries =
      (retainedHistoryPage { request with direction := some .tail, cursor := none }
        (some history) agent).entries

theorem toTail_of_reset
    (h : staleCursor request (some history) = true ∨ afterGap request (some history) = true) :
    ToTail history agent request := by
  have hdirection : effectiveDirection request (some history) = .tail := by
    rcases h with h | h <;> simp [effectiveDirection, h]
  have htail : effectiveDirection { request with direction := some .tail, cursor := none }
      (some history) = .tail := by simp [effectiveDirection]
  constructor
  · rcases h with h | h <;> simp [retainedHistoryPage, h]
  · simp only [retainedHistoryPage, selected, hdirection, htail]
    rfl

theorem stale_reset (hcursor : request.cursor = some cursor) (hepoch : cursor.epoch ≠ history.epoch) :
    ToTail history agent request :=
  toTail_of_reset (.inl (by simp [staleCursor, hcursor, epochOf, hepoch]))

/-- An entry between the cursor and the saved part was not retained. -/
theorem after_reset (hdirection : request.direction = some .after)
    (hcursor : request.cursor = some cursor) (hepoch : cursor.epoch = history.epoch)
    (htruncated : history.truncated) (hbefore : cursor.seq < minSaved (some history) - 1) :
    ToTail history agent request ∧
      (retainedHistoryPage request (some history) agent).gap = true := by
  have hafter : afterGap request (some history) = true := by
    simp [afterGap, staleCursor, hdirection, hcursor, epochOf, hepoch, isTruncated, htruncated,
      hbefore]
  exact ⟨toTail_of_reset (.inr hafter), by simp [retainedHistoryPage, hafter]⟩

theorem before_gap (hdirection : request.direction = some .before)
    (hcursor : request.cursor = some cursor) (hepoch : cursor.epoch = history.epoch)
    (htruncated : history.truncated) (hbefore : cursor.seq ≤ minSaved (some history)) :
    (retainedHistoryPage request (some history) agent).gap = true ∧
      (retainedHistoryPage request (some history) agent).error.isSome := by
  have hkept : effectiveDirection request (some history) = .before := by
    have h := (@direction_kept history request (by simp [hdirection]) fun c hc => by
      rw [hcursor, Option.some.injEq] at hc
      exact hc ▸ hepoch).1
    rw [h, hdirection]
    rfl
  have hgap : beforeGap request (some history) = true := by
    simp [beforeGap, hkept, isTruncated, htruncated, hcursor, hbefore]
  exact ⟨by simp [retainedHistoryPage, hgap], by simp [retainedHistoryPage, hgap]⟩

end Reset

/-! ### Every walk -/

/-- Paging through the transcript, whatever the limits of the pages. -/
structure Exact (history : AgentHistory) (agent : Json) (request : TimelineRequest) : Prop where
  /-- a walk back from the tail ends, tells every entry once, and says when some are missing -/
  older : ∀ limits, ∃ pages, olderPages history agent request limits
    (history.entries.length + 1) 0 none = some pages ∧ Told history history.entries pages
  /-- so does a walk on, with the entries that begin behind its cursor -/
  newer : ∀ limits cursor, Within history cursor → ∃ pages,
    newerPages history agent request limits (history.entries.length + 1) 0 (some cursor) =
      some pages ∧ (pages.map TimelinePayload.entries).flatten =
        history.entries.filter fun row => cursor.seq < row.seqStart
  /-- no page of a truncated transcript claims that nothing is older -/
  unended : history.truncated → ∀ q, (retainedHistoryPage q (some history) agent).startCursor.isSome →
    (retainedHistoryPage q (some history) agent).hasOlder = true
  stale : ∀ q cursor, q.cursor = some cursor → cursor.epoch ≠ history.epoch →
    ToTail history agent q
  behind : ∀ q cursor, q.direction = some .after → q.cursor = some cursor →
    cursor.epoch = history.epoch → history.truncated → cursor.seq < minSaved (some history) - 1 →
      ToTail history agent q ∧ (retainedHistoryPage q (some history) agent).gap = true
  gone : ∀ q cursor, q.direction = some .before → q.cursor = some cursor →
    cursor.epoch = history.epoch → history.truncated → cursor.seq ≤ minSaved (some history) →
      (retainedHistoryPage q (some history) agent).gap = true ∧
        (retainedHistoryPage q (some history) agent).error.isSome

theorem paging_exact {history : AgentHistory} {request : TimelineRequest} (agent : Json)
    (hordered : Ordered history.entries) (hprojected : Projected request) :
    Exact history agent request where
  older := fun _ => olderPages_tail hordered hprojected (Nat.lt_succ_self _)
  newer := by
    intro limits cursor hwithin
    obtain ⟨older, hrows⟩ := filter_suffix hordered cursor.seq
    exact newerPages_spec hordered hprojected hwithin hrows rfl
      (Nat.lt_succ_of_le (List.length_filter_le _ _))
  unended := by
    intro htruncated q hstart
    simp only [retainedHistoryPage, Option.isSome_map] at hstart ⊢
    obtain ⟨first, hfirst⟩ := Option.isSome_iff_exists.mp hstart
    simp [hfirst, isTruncated, htruncated]
  stale := fun _ _ hcursor hepoch => stale_reset hcursor hepoch
  behind := fun _ _ hdirection hcursor hepoch htruncated hbefore =>
    after_reset hdirection hcursor hepoch htruncated hbefore
  gone := fun _ _ hdirection hcursor hepoch htruncated hbefore =>
    before_gap hdirection hcursor hepoch htruncated hbefore

section Demo

/-- The saved part begins with the fifth sequence number. -/
def demoHistory : AgentHistory where
  epoch := "epoch"
  window := ⟨1, 9, 10⟩
  entries := [⟨5, 7, .null⟩, ⟨8, 9, .null⟩]
  truncated := true

def demoRequest (direction : Direction) (projection : Projection) (seq : Option Int) :
    TimelineRequest where
  requestId := "request"
  agentId := "agent"
  direction := some direction
  projection := some projection
  cursor := seq.map fun seq => ⟨"epoch", seq⟩

theorem paging_exact_demo :
    Exact demoHistory .null (demoRequest .tail .projected none) := by
  refine paging_exact .null ⟨?_, ?_⟩ rfl
  · simp [demoHistory]
  · simp [demoHistory]

/-- A cursor before the saved part is not always reset, and the canonical transcript is not
    paged. -/
theorem unreset_cursor :
    (retainedHistoryPage (demoRequest .before .projected (some 2)) (some demoHistory) .null).reset =
        false ∧
      (retainedHistoryPage (demoRequest .after .projected (some 4)) (some demoHistory) .null).reset =
        false ∧
      (retainedHistoryPage (demoRequest .tail .canonical none) (some demoHistory) .null).entries.length
        = 0 := by
  decide

end Demo

end PaseoGateway.RetainedTranscript
