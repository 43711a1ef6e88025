/-
  PaseoGateway/TranscriptCaptureSafety.lean
  =========================================
  **A captured transcript is an end of the timeline.**

  Each turn of the loop over the pages of an agent adds an entry or is the last one, so
  the bound on the entries bounds the requests (`readPages_bounded`).  What a run stores
  is read off the pages it fetched (`readPages_stored`); against a daemon that serves a
  timeline, the pages fetched one behind the other make up an end of it
  (`fetched_suffix`).
-/
import PaseoGateway.TranscriptCapture
import PaseoGateway.TranscriptPaging

namespace PaseoGateway.RetainedTranscript

open Async

/-! ### One request -/

/-- The payload is not an error of the daemon. -/
def NoError (page : TimelinePayload) : Prop := page.error.filter (· ≠ "") = none

/-- What a log shows of a fetch that gave a page. -/
def turn (agentId : String) (before : Option Cursor) (time : Int) (requestId : String)
    (page : TimelinePayload) : Log :=
  [⟨.now, time⟩, ⟨.randomUUID, requestId⟩,
    ⟨.timeline (timelineRequest agentId requestId before), .ok (.response page)⟩]

def isTimeline (event : Event iface) : Bool :=
  match event.1 with
  | .timeline _ => true
  | _ => false

/-- The page of an answer. -/
def pageOf : Event iface → Option TimelinePayload
  | ⟨.timeline _, .ok (.response page)⟩ => some page
  | _ => none

def isAgents (event : Event iface) : Bool :=
  match event.1 with
  | .agents _ _ => true
  | _ => false

/-- The log ends with a reading of the clock before the deadline and the id of a request. -/
def JustInTime (deadline : Int) (log : Log) : Prop :=
  ∃ before time requestId,
    log = before ++ [⟨.now, time⟩, ⟨.randomUUID, requestId⟩] ∧ time < deadline

section Fetch

variable {deadline : Int} {agentId : String} {before : Option Cursor} {log : Log}

/-- A run of a request in time reads the clock, and makes it when there is time. -/
theorem ran_within {α : Type} {run : Task α} {out : Except String α} :
    Prog.Ran (withinCaptureDeadline run deadline) log out ↔ ∃ time : Int,
      (deadline ≤ time ∧ log = [⟨.now, time⟩] ∧
        out = .error "Retained history capture deadline exceeded") ∨
      (time < deadline ∧ ∃ rest, log = ⟨.now, time⟩ :: rest ∧ Prog.Ran run rest out) := by
  simp only [withinCaptureDeadline, now, Prog.call_bind, Prog.ret_bind, Prog.ran_call]
  constructor
  · rintro ⟨(time : Int), rest, rfl, h⟩
    refine ⟨time, ?_⟩
    by_cases htime : time < deadline
    · rw [if_neg (by omega)] at h
      exact .inr ⟨htime, rest, rfl, h⟩
    · rw [if_pos (by omega), Prog.ran_fail] at h
      exact .inl ⟨by omega, by rw [h.1], h.2⟩
  · rintro ⟨time, ⟨htime, rfl, rfl⟩ | ⟨htime, rest, rfl, h⟩⟩
    · exact ⟨time, [], rfl, by rw [if_pos (by omega)]; simp⟩
    · exact ⟨time, rest, rfl, by rw [if_neg (by omega)]; exact h⟩

theorem asks_within {α : Type} {run : Task α} {asked : Req} :
    Prog.Asks (withinCaptureDeadline run deadline) log asked ↔
      (log = [] ∧ asked = .now) ∨ ∃ time : Int, time < deadline ∧
        ∃ rest, log = ⟨.now, time⟩ :: rest ∧ Prog.Asks run rest asked := by
  simp only [withinCaptureDeadline, now, Prog.call_bind, Prog.ret_bind, Prog.asks_call]
  constructor
  · rintro (h | ⟨(time : Int), rest, rfl, h⟩)
    · exact .inl h
    · by_cases htime : time < deadline
      · rw [if_neg (by omega)] at h
        exact .inr ⟨time, htime, rest, rfl, h⟩
      · rw [if_pos (by omega)] at h
        exact absurd h Prog.not_asks_fail
  · rintro (h | ⟨time, htime, rest, rfl, h⟩)
    · exact .inl h
    · exact .inr ⟨time, rest, rfl, by rw [if_neg (by omega)]; exact h⟩

theorem ran_randomUUID {α : Type} {f : String → Task α} {out : Except String α} :
    Prog.Ran (randomUUID >>= f) log out ↔
      ∃ requestId rest, log = ⟨.randomUUID, requestId⟩ :: rest ∧ Prog.Ran (f requestId) rest out :=
  Prog.ran_call

theorem ran_now {α : Type} {f : Int → Task α} {out : Except String α} :
    Prog.Ran (now >>= f) log out ↔
      ∃ time rest, log = ⟨.now, time⟩ :: rest ∧ Prog.Ran (f time) rest out :=
  Prog.ran_call

theorem ran_date {α : Type} {f : String → Task α} {out : Except String α} :
    Prog.Ran (date >>= f) log out ↔
      ∃ time rest, log = ⟨.date, time⟩ :: rest ∧ Prog.Ran (f time) rest out :=
  Prog.ran_call

theorem asks_now {α : Type} {f : Int → Task α} {asked : Req} :
    Prog.Asks (now >>= f) log asked ↔ (log = [] ∧ asked = .now) ∨
      ∃ time rest, log = ⟨.now, time⟩ :: rest ∧ Prog.Asks (f time) rest asked :=
  Prog.asks_call

theorem asks_date {α : Type} {f : String → Task α} {asked : Req} :
    Prog.Asks (date >>= f) log asked ↔ (log = [] ∧ asked = .date) ∨
      ∃ time rest, log = ⟨.date, time⟩ :: rest ∧ Prog.Asks (f time) rest asked :=
  Prog.asks_call

theorem asks_randomUUID {α : Type} {f : String → Task α} {asked : Req} :
    Prog.Asks (randomUUID >>= f) log asked ↔ (log = [] ∧ asked = .randomUUID) ∨
      ∃ requestId rest, log = ⟨.randomUUID, requestId⟩ :: rest ∧
        Prog.Asks (f requestId) rest asked :=
  Prog.asks_call

@[simp] theorem ran_orThrow {α : Type} {reply out : Except String α} :
    Prog.Ran (orThrow reply) log out ↔ log = [] ∧ out = reply := by
  cases reply <;> simp [orThrow]

@[simp] theorem not_asks_orThrow {α : Type} {reply : Except String α} {asked : Req} :
    ¬ Prog.Asks (orThrow reply) log asked := by
  cases reply <;> simp [orThrow]

/-- A run of a fetch, up to what its reply is taken for. -/
theorem ran_fetch {out : Except String TimelinePayload}
    (h : Prog.Ran (fetchTimeline deadline agentId before) log out) :
    (∃ e, out = .error e ∧ log.countP isTimeline ≤ 1) ∨
      ∃ page time requestId, out = .ok page ∧ NoError page ∧
        log = turn agentId before time requestId page := by
  rcases Prog.ran_bind.mp h with ⟨e, rfl, hin⟩ | ⟨reply, asked, rest, rfl, hin, hrest⟩
  · refine .inl ⟨e, rfl, ?_⟩
    obtain ⟨time, ⟨_, rfl, _⟩ | ⟨_, rest, rfl, hrun⟩⟩ := ran_within.mp hin
    · simp [isTimeline]
    · obtain ⟨requestId, rest, rfl, hcall⟩ := ran_randomUUID.mp hrun
      obtain ⟨answer, rest, rfl, hreply⟩ := Prog.ran_call.mp hcall
      obtain rfl := (ran_orThrow.mp hreply).1
      simp [isTimeline]
  · obtain ⟨time, ⟨_, _, hout⟩ | ⟨_, asked, rfl, hrun⟩⟩ := ran_within.mp hin
    · cases hout
    · obtain ⟨requestId, asked, rfl, hcall⟩ := ran_randomUUID.mp hrun
      obtain ⟨answer, asked, rfl, hreply⟩ := Prog.ran_call.mp hcall
      obtain ⟨rfl, rfl⟩ := ran_orThrow.mp hreply
      rcases reply with page | _
      · dsimp only at hrest
        by_cases herror : (page.error.filter (· ≠ "")).isSome
        · rw [if_pos herror, Prog.ran_fail] at hrest
          obtain ⟨rfl, rfl⟩ := hrest
          exact .inl ⟨_, rfl, by simp [isTimeline]⟩
        · rw [if_neg herror, Prog.ran_ret] at hrest
          obtain ⟨rfl, rfl⟩ := hrest
          exact .inr ⟨page, time, requestId, rfl, Option.not_isSome_iff_eq_none.mp herror, rfl⟩
      · obtain ⟨rfl, rfl⟩ := Prog.ran_fail.mp hrest
        exact .inl ⟨_, rfl, by simp [isTimeline]⟩

/-- A fetch makes its request in time, and nothing but the clock and the id before it. -/
theorem asks_fetch {asked : Req} (h : Prog.Asks (fetchTimeline deadline agentId before) log asked) :
    log.countP isTimeline = 0 ∧ (asked = .now ∨ asked = .randomUUID ∨
      ∃ q, asked = .timeline q ∧ JustInTime deadline log) := by
  rcases Prog.asks_bind.mp h with hin | ⟨reply, _, rest, _, _, hrest⟩
  · rcases asks_within.mp hin with ⟨rfl, rfl⟩ | ⟨time, htime, rest, rfl, hrun⟩
    · simp
    · rcases asks_randomUUID.mp hrun with ⟨rfl, rfl⟩ | ⟨requestId, rest, rfl, hcall⟩
      · simp [isTimeline]
      · rcases Prog.asks_call.mp hcall with ⟨rfl, rfl⟩ | ⟨answer, rest, rfl, hreply⟩
        · exact ⟨by simp [isTimeline],
            .inr (.inr ⟨_, rfl, [], time, requestId, rfl, htime⟩)⟩
        · exact absurd hreply not_asks_orThrow
  · rcases reply with page | _
    · dsimp only at hrest
      split at hrest
      · exact absurd hrest Prog.not_asks_fail
      · exact absurd hrest Prog.not_asks_ret
    · exact absurd hrest Prog.not_asks_fail

end Fetch

/-! ### One turn -/

/-- The page goes with the first one. -/
def Together (baseline page : TimelinePayload) : Prop :=
  baseline.epoch = page.epoch ∧ baseline.window.nextSeq = page.window.nextSeq

section Turn

variable {sizes : Sizes} {baseline page : TimelinePayload} {entries longer : List TimelineEntry}
variable {seenPages : List String} {truncated : Bool} {cursor : Cursor}

/-- Where the loop stops it keeps the first page, what it had, or what it has now. -/
theorem afterPage_stop (h : afterPage sizes baseline page entries seenPages = .stop longer truncated) :
    (longer = baseline.entries ∧ truncated = true) ∨ (longer = entries ∧ truncated = true) ∨
      (Together baseline page ∧ longer = page.entries ++ entries ∧
        (truncated = false → page.hasOlder = false)) := by
  simp only [afterPage] at h
  split at h
  · cases h
    exact .inl ⟨rfl, rfl⟩
  · rename_i htogether
    have htogether : Together baseline page := by simpa [Together] using htogether
    split at h
    · cases h
      exact .inr (.inl ⟨rfl, rfl⟩)
    · split at h
      · rename_i holder
        cases h
        exact .inr (.inr ⟨htogether, rfl, fun _ => by simpa using holder⟩)
      · split at h
        · cases h
          exact .inr (.inr ⟨htogether, rfl, by simp⟩)
        · split at h
          · cases h
            exact .inr (.inr ⟨htogether, rfl, by simp⟩)
          · split at h
            · cases h
              exact .inl ⟨rfl, rfl⟩
            · cases h

/-- Where the loop goes on, the page has entries and a cursor. -/
theorem afterPage_older (h : afterPage sizes baseline page entries seenPages = .older longer cursor) :
    Together baseline page ∧ longer = page.entries ++ entries ∧ page.entries ≠ [] ∧
      page.startCursor = some cursor ∧ longer.length ≤ MAX_ENTRIES := by
  simp only [afterPage] at h
  split at h
  · cases h
  · rename_i htogether
    split at h
    · cases h
    · rename_i hbudget
      split at h
      · cases h
      · split at h
        · cases h
        · split at h
          · cases h
          · rename_i hstart hentries
            split at h
            · cases h
            · cases h
              exact ⟨by simpa [Together] using htogether, rfl, by simpa using hentries, hstart,
                by simp only [not_or] at hbudget; omega⟩

end Turn

/-! ### The pages of an agent -/

/-- The pages are fetched one behind the other, each at the start of the one before it, and
    all that go on have entries. -/
inductive Fetched (agentId : String) : Option Cursor → Log → List TimelinePayload → Prop where
  | nil (before : Option Cursor) : Fetched agentId before [] []
  | last {page : TimelinePayload} (before : Option Cursor) (time : Int) (requestId : String)
      (hpage : NoError page) : Fetched agentId before (turn agentId before time requestId page) [page]
  | cons {page : TimelinePayload} {cursor : Cursor} {log : Log} {pages : List TimelinePayload}
      (before : Option Cursor) (time : Int) (requestId : String) (hpage : NoError page)
      (hentries : page.entries ≠ []) (hstart : page.startCursor = some cursor)
      (rest : Fetched agentId (some cursor) log pages) :
      Fetched agentId before (turn agentId before time requestId page ++ log) (page :: pages)

/-- The pages, the last one fetched first. -/
def entriesOf : List TimelinePayload → List TimelineEntry
  | [] => []
  | page :: pages => entriesOf pages ++ page.entries

/-- Nothing is older than the last page. -/
def Complete (pages : List TimelinePayload) : Prop :=
  ∃ page, pages.getLast? = some page ∧ page.hasOlder = false

theorem complete_cons {page next : TimelinePayload} {pages : List TimelinePayload}
    (h : Complete (next :: pages)) : Complete (page :: next :: pages) := by
  obtain ⟨last, hlast, holder⟩ := h
  exact ⟨last, by rwa [List.getLast?_cons_cons], holder⟩

section Read

variable {sizes : Sizes} {deadline : Int} {agentId : String} {agentsEmpty : Bool}
variable {turns : Nat} {first : Option TimelinePayload} {entries : List TimelineEntry}
variable {before : Option Cursor} {seenPages : List String} {log : Log}

/-- What is asked for in a run of the loop is asked for by the fetch, is the clock, or is asked
    for behind a page with entries. -/
theorem asks_turn {asked : Req}
    (h : Prog.Asks (readPages sizes deadline agentId agentsEmpty (turns + 1) first entries before
      seenPages) log asked) :
    Prog.Asks (fetchTimeline deadline agentId before) log asked ∨ asked = .now ∨
      ∃ page time requestId rest baseline cursor,
        log = turn agentId before time requestId page ++ rest ∧ page.entries ≠ [] ∧
        (page.entries ++ entries).length ≤ MAX_ENTRIES ∧
        Prog.Asks (readPages sizes deadline agentId agentsEmpty turns (some baseline)
          (page.entries ++ entries) (some cursor) (marker cursor :: seenPages)) rest asked := by
  rw [readPages] at h
  rcases Prog.asks_bind.mp h with hfetch | ⟨result, fetched, rest, rfl, hfetch, hrest⟩
  · exact .inl (Prog.asks_attempt.mp hfetch)
  · obtain ⟨_, hresult, hfetch⟩ := Prog.ran_attempt.mp hfetch
    obtain rfl := Except.ok.inj hresult
    rcases ran_fetch hfetch with ⟨e, rfl, _⟩ | ⟨page, time, requestId, rfl, _, rfl⟩
    · dsimp only at hrest
      split at hrest
      · split at hrest
        · exact absurd hrest Prog.not_asks_fail
        · rcases Prog.asks_call.mp hrest with ⟨_, hnow⟩ | ⟨time, rest, _, hret⟩
          · exact .inr (.inl hnow)
          · exact absurd hret Prog.not_asks_ret
      · exact absurd hrest Prog.not_asks_ret
    · dsimp only at hrest
      split at hrest
      · exact absurd hrest Prog.not_asks_ret
      · rename_i longer cursor hnext
        obtain ⟨_, rfl, hentries, _, hlength⟩ := afterPage_older hnext
        exact .inr (.inr ⟨page, time, requestId, rest, _, cursor, rfl, hentries, hlength, hrest⟩)

/-- Each turn but the last adds an entry, so the bound on the entries bounds the turns. -/
theorem readPages_bounded {asked : Req} (hlength : entries.length ≤ MAX_ENTRIES)
    (h : Prog.Asks (readPages sizes deadline agentId agentsEmpty turns first entries before
      seenPages) log asked) :
    log.countP isTimeline + entries.length ≤ MAX_ENTRIES ∨ asked = .now := by
  induction turns generalizing first entries before seenPages log with
  | zero =>
    rcases Prog.asks_call.mp h with ⟨rfl, _⟩ | ⟨answer, _⟩
    · exact .inl (by simpa using hlength)
    · exact answer.elim
  | succ turns ih =>
    rcases asks_turn h with hfetch | hnow | ⟨page, time, requestId, rest, baseline, cursor, rfl,
      hentries, hlonger, hrest⟩
    · exact .inl (by rw [(asks_fetch hfetch).1]; omega)
    · exact .inr hnow
    · have hmore := List.length_pos_iff.mpr hentries
      rcases ih hlonger hrest with hcount | hnow
      · left
        simp only [List.length_append] at hcount
        have hturn : (turn agentId before time requestId page).countP isTimeline = 1 := by
          simp [turn, isTimeline]
        rw [List.countP_append, hturn]
        omega
      · exact .inr hnow

theorem readPages_stuck (hlength : entries.length ≤ MAX_ENTRIES)
    (h : Prog.Asks (readPages sizes deadline agentId agentsEmpty turns first entries before
      seenPages) log .stuck) : turns + entries.length ≤ MAX_ENTRIES := by
  induction turns generalizing first entries before seenPages log with
  | zero => omega
  | succ turns ih =>
    rcases asks_turn h with hfetch | hnow | ⟨page, time, requestId, rest, baseline, cursor, rfl,
      hentries, hlonger, hrest⟩
    · rcases (asks_fetch hfetch).2 with hnow | hid | ⟨q, hq, _⟩
      · cases hnow
      · cases hid
      · cases hq
    · cases hnow
    · have hmore := List.length_pos_iff.mpr hentries
      have hih := ih hlonger hrest
      simp only [List.length_append] at hih
      omega

theorem JustInTime.append (earlier : Log) (h : JustInTime deadline log) :
    JustInTime deadline (earlier ++ log) := by
  obtain ⟨before, time, requestId, rfl, htime⟩ := h
  exact ⟨earlier ++ before, time, requestId, by simp, htime⟩

theorem readPages_timely {asked : Req}
    (h : Prog.Asks (readPages sizes deadline agentId agentsEmpty turns first entries before
      seenPages) log asked) :
    asked = .now ∨ asked = .randomUUID ∨ asked = .stuck ∨
      ∃ q, asked = .timeline q ∧ JustInTime deadline log := by
  induction turns generalizing first entries before seenPages log with
  | zero =>
    rcases Prog.asks_call.mp h with ⟨_, rfl⟩ | ⟨answer, _⟩
    · exact .inr (.inr (.inl rfl))
    · exact answer.elim
  | succ turns ih =>
    rcases asks_turn h with hfetch | hnow | ⟨page, time, requestId, rest, baseline, cursor, rfl,
      hentries, hlonger, hrest⟩
    · rcases (asks_fetch hfetch).2 with hnow | hid | htimeline
      · exact .inl hnow
      · exact .inr (.inl hid)
      · exact .inr (.inr (.inr htimeline))
    · exact .inl hnow
    · rcases ih hrest with hnow | hid | hstuck | ⟨q, hq, htime⟩
      · exact .inl hnow
      · exact .inr (.inl hid)
      · exact .inr (.inr (.inl hstuck))
      · exact .inr (.inr (.inr ⟨q, hq, htime.append _⟩))

/-! ### What is stored of an agent -/

/-- What the loop stores behind `entries`: the first page, or what it had and further pages. -/
def Stores (agentId : String) (baseline : TimelinePayload) (entries : List TimelineEntry)
    (before : Option Cursor) (log : Log) (history : AgentHistory) : Prop :=
  (history.entries = baseline.entries ∧ history.truncated = true) ∨
    ∃ fetched rest pages, log = fetched ++ rest ∧ Fetched agentId before fetched pages ∧
      (∀ page ∈ pages, Together baseline page) ∧ history.entries = entriesOf pages ++ entries ∧
      (history.truncated = false → Complete pages)

theorem Stores.cons {baseline page : TimelinePayload} {cursor : Cursor} {time : Int}
    {requestId : String} {history : AgentHistory} (hpage : NoError page)
    (htogether : Together baseline page) (hentries : page.entries ≠ [])
    (hstart : page.startCursor = some cursor)
    (h : Stores agentId baseline (page.entries ++ entries) (some cursor) log history) :
    Stores agentId baseline entries before
      (turn agentId before time requestId page ++ log) history := by
  rcases h with hfirst | ⟨fetched, rest, pages, rfl, hfetched, htogethers, hall, hcomplete⟩
  · exact .inl hfirst
  · refine .inr ⟨turn agentId before time requestId page ++ fetched, rest, page :: pages,
      by simp, .cons before time requestId hpage hentries hstart hfetched, ?_, ?_, fun htrunc => ?_⟩
    · simpa using ⟨htogether, htogethers⟩
    · simpa [entriesOf] using hall
    · have hlast := hcomplete htrunc
      rcases pages with _ | ⟨next, pages⟩
      · obtain ⟨_, hnone, _⟩ := hlast
        simp at hnone
      · exact complete_cons hlast

/-- A run of one turn that keeps something. -/
theorem ran_turn {history : AgentHistory}
    (h : Prog.Ran (readPages sizes deadline agentId agentsEmpty (turns + 1) first entries before
      seenPages) log (.ok (.history history))) :
    (∃ baseline, first = some baseline ∧ history.epoch = baseline.epoch ∧
      history.window = baseline.window ∧ Stores agentId baseline entries before log history) ∨
    ∃ page time requestId rest, log = turn agentId before time requestId page ++ rest ∧
      NoError page ∧ ((history.epoch = (first.getD page).epoch ∧
          history.window = (first.getD page).window ∧
          Stores agentId (first.getD page) entries before log history) ∨
        ∃ cursor, Together (first.getD page) page ∧ page.entries ≠ [] ∧
          page.startCursor = some cursor ∧
          Prog.Ran (readPages sizes deadline agentId agentsEmpty turns (some (first.getD page))
            (page.entries ++ entries) (some cursor) (marker cursor :: seenPages)) rest
            (.ok (.history history))) := by
  rw [readPages] at h
  rcases Prog.ran_bind.mp h with ⟨e, hout, _⟩ | ⟨result, fetched, rest, rfl, hfetch, hrest⟩
  · cases hout
  · obtain ⟨_, hresult, hfetch⟩ := Prog.ran_attempt.mp hfetch
    obtain rfl := Except.ok.inj hresult
    rcases ran_fetch hfetch with ⟨e, rfl, _⟩ | ⟨page, time, requestId, rfl, hpage, rfl⟩
    · dsimp only at hrest
      rcases first with _ | baseline
      · dsimp only at hrest
        split at hrest
        · cases (Prog.ran_fail.mp hrest).2
        · obtain ⟨time, rest, rfl, hret⟩ := Prog.ran_call.mp hrest
          cases (Prog.ran_ret.mp hret).2
      · obtain ⟨rfl, hhistory⟩ := Prog.ran_ret.mp hrest
        cases hhistory
        exact .inl ⟨baseline, rfl, rfl, rfl, .inl ⟨rfl, rfl⟩⟩
    · refine .inr ⟨page, time, requestId, rest, rfl, hpage, ?_⟩
      dsimp only at hrest
      split at hrest
      · rename_i longer truncated hnext
        obtain ⟨rfl, hhistory⟩ := Prog.ran_ret.mp hrest
        cases hhistory
        refine .inl ⟨rfl, rfl, ?_⟩
        rcases afterPage_stop hnext with ⟨rfl, rfl⟩ | ⟨rfl, rfl⟩ | ⟨htogether, rfl, holder⟩
        · exact .inl ⟨rfl, rfl⟩
        · exact .inr ⟨[], _, [], rfl, .nil before, by simp, by simp [entriesOf], by simp⟩
        · exact .inr ⟨_, [], [page], rfl, .last before time requestId hpage,
            by simpa using htogether, by simp [entriesOf],
            fun htrunc => ⟨page, rfl, holder htrunc⟩⟩
      · rename_i longer cursor hnext
        obtain ⟨htogether, rfl, hentries, hstart, _⟩ := afterPage_older hnext
        exact .inr ⟨cursor, htogether, hentries, hstart, hrest⟩

theorem readPages_stores {baseline : TimelinePayload} {history : AgentHistory}
    (h : Prog.Ran (readPages sizes deadline agentId agentsEmpty turns (some baseline) entries before
      seenPages) log (.ok (.history history))) :
    history.epoch = baseline.epoch ∧ history.window = baseline.window ∧
      Stores agentId baseline entries before log history := by
  induction turns generalizing entries before seenPages log with
  | zero =>
    obtain ⟨answer, _⟩ := Prog.ran_call.mp h
    exact answer.elim
  | succ turns ih =>
    rcases ran_turn h with ⟨_, hfirst, hstores⟩ | ⟨page, time, requestId, rest, rfl, hpage,
      hstores | ⟨cursor, htogether, hentries, hstart, hrest⟩⟩
    · obtain rfl := Option.some.inj hfirst
      exact hstores
    · exact hstores
    · obtain ⟨hepoch, hwindow, hstores⟩ := ih hrest
      exact ⟨hepoch, hwindow, .cons hpage htogether hentries hstart hstores⟩

/-- What is stored of an agent: the first page, nothing, or the pages fetched one behind the
    other from the tail on, of the epoch and up to the sequence number of the first one. -/
def Stored (agentId : String) (log : Log) (history : AgentHistory) : Prop :=
  ∃ first time requestId rest, log = turn agentId none time requestId first ++ rest ∧
    NoError first ∧ history.epoch = first.epoch ∧ history.window = first.window ∧
    ((history.entries = first.entries ∧ history.truncated = true) ∨
      (history.entries = [] ∧ history.truncated = true) ∨
      ∃ fetched rest pages, log = fetched ++ rest ∧ Fetched agentId none fetched (first :: pages) ∧
        (∀ page ∈ pages, Together first page) ∧ history.entries = entriesOf (first :: pages) ∧
        (history.truncated = false → Complete (first :: pages)))

theorem Fetched.cons_first {page first : TimelinePayload} {pages : List TimelinePayload}
    {fetched rest after : Log} {time : Int} {requestId : String}
    (h : Fetched agentId before fetched (page :: pages))
    (hlog : fetched ++ rest = turn agentId before time requestId first ++ after) : page = first := by
  have hturn : ∀ {time' requestId' more},
      turn agentId before time' requestId' page ++ more = turn agentId before time requestId first ++
        after → page = first := by
    intro time' requestId' more heq
    simp only [turn, List.cons_append, List.nil_append, List.cons.injEq] at heq
    exact Option.some.inj (congrArg pageOf heq.2.2.1)
  cases h with
  | last => exact hturn hlog
  | cons =>
    rw [List.append_assoc] at hlog
    exact hturn hlog

theorem Stores.stored {first : TimelinePayload} {time : Int} {requestId : String} {rest : Log}
    {history : AgentHistory} (hlog : log = turn agentId none time requestId first ++ rest) (hnone : NoError first)
    (hepoch : history.epoch = first.epoch) (hwindow : history.window = first.window)
    (h : Stores agentId first [] none log history) : Stored agentId log history := by
  refine ⟨first, time, requestId, rest, hlog, hnone, hepoch, hwindow, ?_⟩
  rcases h with hfirst | ⟨fetched, after, pages, hsplit, hfetched, htogether, hall, hcomplete⟩
  · exact .inl hfirst
  · rw [List.append_nil] at hall
    rcases pages with _ | ⟨page, pages⟩
    · refine .inr (.inl ⟨hall, ?_⟩)
      rcases htrunc : history.truncated
      · obtain ⟨_, hnone, _⟩ := hcomplete htrunc
        simp at hnone
      · rfl
    · obtain rfl := hfetched.cons_first (hsplit.symm.trans hlog)
      exact .inr (.inr ⟨fetched, after, pages, hsplit, hfetched,
        fun page hpage => htogether page (List.mem_cons_of_mem _ hpage), hall, hcomplete⟩)

theorem readPages_stored {history : AgentHistory}
    (h : Prog.Ran (readPages sizes deadline agentId agentsEmpty turns none [] none [])
      log (.ok (.history history))) : Stored agentId log history := by
  rcases turns with _ | turns
  · obtain ⟨answer, _⟩ := Prog.ran_call.mp h
    exact answer.elim
  · rcases ran_turn h with ⟨_, hfirst, _⟩ | ⟨page, time, requestId, rest, rfl, hpage,
      ⟨hepoch, hwindow, hstores⟩ | ⟨cursor, htogether, hentries, hstart, hrest⟩⟩
    · cases hfirst
    · exact hstores.stored rfl hpage hepoch hwindow
    · obtain ⟨hepoch, hwindow, hstores⟩ := readPages_stores hrest
      exact Stores.stored rfl hpage hepoch hwindow (.cons hpage htogether hentries hstart hstores)

end Read

/-! ### A daemon that serves a timeline -/

/-- The page is an end of what comes before the cursor, or of the timeline. -/
structure Serves (timeline : List TimelineEntry) (cursor : Option Cursor) (page : TimelinePayload) :
    Prop where
  suffix : page.entries <:+ (cursor.elim timeline fun cursor =>
    timeline.filter fun row => row.seqEnd < cursor.seq)
  oldest : page.hasOlder = false → page.entries = cursor.elim timeline fun cursor =>
    timeline.filter fun row => row.seqEnd < cursor.seq
  start : ∀ cursor first rest, page.startCursor = some cursor → page.entries = first :: rest →
    cursor.seq = first.seqStart

/-- Every page of the log is a page of the timeline of its agent; errors may come at any time. -/
def Served (timelines : String → List TimelineEntry) (log : Log) : Prop :=
  ∀ q page, (⟨.timeline q, .ok (.response page)⟩ : Event iface) ∈ log → NoError page →
    Serves (timelines q.agentId) q.cursor page

section Served

variable {timelines : String → List TimelineEntry} {agentId : String} {log log' : Log}
variable {before : Option Cursor} {pages : List TimelinePayload}
variable {older newer : List TimelineEntry}

theorem Served.mono (h : Served timelines log) (hsub : log' ⊆ log) : Served timelines log' :=
  fun q page hin => h q page (hsub hin)

theorem Served.turn {page : TimelinePayload} {time : Int} {requestId : String}
    (h : Served timelines (turn agentId before time requestId page ++ log)) (hpage : NoError page) :
    Serves (timelines agentId) before page :=
  h (timelineRequest agentId requestId before) page (by simp [RetainedTranscript.turn]) hpage

/-- The cursor stands at the first of the entries that were read. -/
def StandsAt (before : Option Cursor) (newer : List TimelineEntry) : Prop :=
  before.elim (newer = []) fun cursor => ∃ first rest, newer = first :: rest ∧
    cursor.seq = first.seqStart

/-- What a daemon selects from is what was not read. -/
theorem before_cursor (hordered : Ordered (older ++ newer)) (hbefore : StandsAt before newer) :
    (before.elim (older ++ newer) fun cursor =>
      (older ++ newer).filter fun row => row.seqEnd < cursor.seq) = older := by
  rcases before with _ | cursor
  · rw [show newer = [] from hbefore, List.append_nil]
    rfl
  · obtain ⟨first, rest, rfl, hseq⟩ := hbefore
    rw [Option.elim_some, hseq]
    exact filter_before hordered

/-- Pages fetched one behind the other make up an end of the timeline. -/
theorem fetched_suffix (hfetched : Fetched agentId before log pages)
    (hserved : Served timelines log) (htimeline : timelines agentId = older ++ newer)
    (hordered : Ordered (older ++ newer)) (hbefore : StandsAt before newer) :
    (entriesOf pages ++ newer <:+ timelines agentId) ∧
      (Complete pages → entriesOf pages ++ newer = timelines agentId) := by
  induction hfetched generalizing older newer with
  | nil before =>
    refine ⟨⟨older, htimeline.symm⟩, fun ⟨_, hnone, _⟩ => ?_⟩
    simp at hnone
  | @last page before time requestId hpage =>
    have hserves : Serves (older ++ newer) before page :=
      htimeline ▸ Served.turn (by rwa [List.append_nil]) hpage
    obtain ⟨hsuffix, holdest, -⟩ := hserves
    rw [before_cursor hordered hbefore] at hsuffix holdest
    obtain ⟨rest, hrest⟩ := hsuffix
    refine ⟨⟨rest, by simp [entriesOf, htimeline, ← hrest]⟩, fun ⟨last, hlast, holder⟩ => ?_⟩
    obtain rfl : page = last := by simpa using hlast
    rw [entriesOf, entriesOf, List.nil_append, holdest holder, htimeline]
  | @cons page cursor log pages before time requestId hpage hentries hstart rest ih =>
    have hserves : Serves (older ++ newer) before page := htimeline ▸ hserved.turn hpage
    obtain ⟨hsuffix, holdest, hseq⟩ := hserves
    rw [before_cursor hordered hbefore] at hsuffix holdest
    obtain ⟨unread, hunread⟩ := hsuffix
    have hstands : StandsAt (some cursor) (page.entries ++ newer) := by
      rcases hrows : page.entries with _ | ⟨first, rows⟩
      · exact absurd hrows hentries
      · exact ⟨first, rows ++ newer, rfl, hseq cursor first rows hstart hrows⟩
    have hsplit : older ++ newer = unread ++ (page.entries ++ newer) := by
      rw [← hunread, List.append_assoc]
    obtain ⟨hend, hwhole⟩ := ih (hserved.mono (List.subset_append_right _ _))
      (htimeline.trans hsplit) (hsplit ▸ hordered) hstands
    rw [entriesOf, List.append_assoc]
    refine ⟨hend, fun ⟨last, hlast, holder⟩ => ?_⟩
    rcases pages with _ | ⟨next, pages⟩
    · obtain rfl : page = last := by simpa using hlast
      rw [entriesOf, List.nil_append, holdest holder, htimeline]
    · exact hwhole ⟨last, by rwa [List.getLast?_cons_cons] at hlast, holder⟩

/-- What is stored of a timeline is an end of it, and all of it unless it is marked. -/
theorem stored_suffix {history : AgentHistory} (hstored : Stored agentId log history)
    (hserved : Served timelines log) (hordered : Ordered (timelines agentId)) :
    history.entries <:+ timelines agentId ∧
      (history.truncated = false → history.entries = timelines agentId) := by
  obtain ⟨first, time, requestId, rest, rfl, hpage, -, -, ⟨hentries, htrunc⟩ | ⟨hentries, htrunc⟩ |
    ⟨fetched, after, pages, hlog, hfetched, -, hentries, hcomplete⟩⟩ := hstored
  · rw [hentries, htrunc]
    exact ⟨(hserved.turn hpage).suffix, by simp⟩
  · rw [hentries, htrunc]
    exact ⟨List.nil_suffix, by simp⟩
  · have hfirst : Served timelines fetched := by
      rw [hlog] at hserved
      exact hserved.mono (List.subset_append_left _ _)
    obtain ⟨hsuffix, hwhole⟩ := fetched_suffix hfetched hfirst (List.append_nil _).symm
      (by rwa [List.append_nil]) (show StandsAt none [] from rfl)
    rw [List.append_nil] at hsuffix hwhole
    rw [hentries]
    exact ⟨hsuffix, fun htrunc => hwhole (hcomplete htrunc)⟩

end Served

/-! ### All agents -/

/-- The history is what a run of the loop over the pages of the agent stored. -/
def Kept (sizes : Sizes) (pages : Nat) (deadline : Int) (agentId : String) (log : Log)
    (history : AgentHistory) : Prop :=
  ∃ before during after agentsEmpty, log = before ++ during ++ after ∧
    Prog.Ran (readPages sizes deadline agentId agentsEmpty pages none [] none []) during
      (.ok (.history history))

/-- A request to the daemon is made in time. -/
def Timely (deadline : Int) (log : Log) : Req → Prop
  | .agents _ _ => JustInTime deadline log
  | .timeline _ => JustInTime deadline log
  | _ => True

section All

variable {sizes : Sizes} {pages : Nat} {deadline : Int} {agentId : String} {log : Log}
variable {history : AgentHistory} {progress progress' : Progress} {asked : Req}

theorem Kept.append {log : Log} (earlier later : Log)
    (h : Kept sizes pages deadline agentId log history) :
    Kept sizes pages deadline agentId (earlier ++ log ++ later) history := by
  obtain ⟨before, during, after, agentsEmpty, rfl, hran⟩ := h
  exact ⟨earlier ++ before, during, after ++ later, agentsEmpty, by simp, hran⟩

theorem Timely.append (earlier : Log) (h : Timely deadline log asked) :
    Timely deadline (earlier ++ log) asked := by
  rcases asked with _ | _ | _ | _ | _ | _
  · trivial
  · trivial
  · trivial
  · exact JustInTime.append earlier h
  · exact JustInTime.append earlier h
  · trivial

theorem captureAgents_kept {agentIds : List String}
    (h : Prog.Ran (captureAgents sizes pages deadline progress agentIds) log (.ok progress'))
    (hget : progress'.agents.get agentId = some history) :
    progress.agents.get agentId = some history ∨
      Kept sizes pages deadline agentId log history := by
  induction agentIds generalizing progress log with
  | nil =>
    obtain ⟨-, hout⟩ := Prog.ran_ret.mp h
    cases hout
    exact .inl hget
  | cons next rest ih =>
    simp only [captureAgents] at h
    split at h
    · obtain ⟨-, hout⟩ := Prog.ran_ret.mp h
      cases hout
      exact .inl hget
    · rcases Prog.ran_bind.mp h with ⟨e, hout, _⟩ | ⟨read, during, after, rfl, hread, hafter⟩
      · cases hout
      · rcases read with budgetExhausted | kept
        · dsimp only at hafter
          split at hafter
          · obtain ⟨-, hout⟩ := Prog.ran_ret.mp hafter
            cases hout
            exact .inl hget
          · rcases ih hafter with hold | hkept
            · exact .inl hold
            · exact .inr (by simpa using hkept.append during [])
        · have hlast : ∀ {agents : Js.Map String AgentHistory},
              agents = progress.agents.set next kept → agents.get agentId = some history →
              progress.agents.get agentId = some history ∨
                Kept sizes pages deadline agentId (during ++ after) history := by
            rintro agents rfl hset
            rw [Js.Map.get_set] at hset
            by_cases hid : agentId = next
            · subst hid
              obtain rfl : kept = history := by simpa using hset
              exact .inr ⟨[], during, after, _, by simp, hread⟩
            · exact .inl (by rwa [if_neg hid] at hset)
          dsimp only at hafter
          split at hafter
          · obtain ⟨-, hout⟩ := Prog.ran_ret.mp hafter
            cases hout
            rw [Js.Map.get_delete] at hget
            by_cases hid : agentId = next
            · simp [hid] at hget
            · exact hlast rfl (by rwa [if_neg hid] at hget)
          · rcases ih hafter with hold | hkept
            · exact hlast rfl hold
            · exact .inr (by simpa using hkept.append during [])

theorem captureLists_kept {turns : Nat} {cursor : Option String} {seenCursors : List String}
    (h : Prog.Ran (captureLists sizes pages deadline turns cursor seenCursors progress) log
      (.ok progress')) (hget : progress'.agents.get agentId = some history) :
    progress.agents.get agentId = some history ∨
      Kept sizes pages deadline agentId log history := by
  induction turns generalizing cursor seenCursors progress log with
  | zero =>
    obtain ⟨answer, _⟩ := Prog.ran_call.mp h
    exact answer.elim
  | succ turns ih =>
    rw [captureLists] at h
    rcases Prog.ran_bind.mp h with ⟨e, hout, _⟩ | ⟨listed, fetched, rest, rfl, _, hrest⟩
    · cases hout
    · rcases listed with e | ⟨agentIds, hasMore, nextCursor⟩ | _
      · dsimp only at hrest
        split at hrest
        · obtain ⟨-, hout⟩ := Prog.ran_ret.mp hrest
          cases hout
          exact .inl hget
        · cases (Prog.ran_fail.mp hrest).2
      · rcases Prog.ran_bind.mp hrest with ⟨e, hout, _⟩ | ⟨next, during, after, rfl, hnext, hafter⟩
        · cases hout
        · have hkept : next.agents.get agentId = some history →
              progress.agents.get agentId = some history ∨
                Kept sizes pages deadline agentId (fetched ++ (during ++ after)) history := by
            intro hold
            rcases captureAgents_kept hnext hold with hold | hkept
            · exact .inl hold
            · exact .inr (by simpa using hkept.append fetched after)
          split at hafter
          · obtain ⟨-, hout⟩ := Prog.ran_ret.mp hafter
            cases hout
            exact hkept hget
          · split at hafter
            · obtain ⟨-, hout⟩ := Prog.ran_ret.mp hafter
              cases hout
              exact hkept hget
            · split at hafter
              · cases (Prog.ran_fail.mp hafter).2
              · rcases ih hafter with hold | hlater
                · exact hkept hold
                · exact .inr (by simpa using hlater.append (fetched ++ during) [])
      · cases (Prog.ran_fail.mp hrest).2

/-! ### Which agents are stored -/

/-- The agents of the lists that the daemon answered. -/
def listedIn (event : Event iface) : List String :=
  match event with
  | ⟨.agents _ _, .ok (.response agentIds _ _)⟩ => agentIds
  | _ => []

def listed (log : Log) : List String := log.flatMap listedIn

/-- The first request for the agent was not answered by a page. -/
def Refused (agentId : String) (log : Log) : Prop :=
  ∃ requestId answer,
    (⟨.timeline (timelineRequest agentId requestId none), answer⟩ : Event iface) ∈ log ∧
      ∀ page, answer = .ok (.response page) → ¬ NoError page

/-- Every reading of the clock is before the deadline. -/
def InTime (deadline : Int) (log : Log) : Prop :=
  ∀ time : Int, (⟨.now, time⟩ : Event iface) ∈ log → time < deadline

/-- Whatever was read fits into one snapshot. -/
def Fits (sizes : Sizes) (pages : Nat) (deadline : Int) (log : Log) : Prop :=
  ∀ agents : Js.Map String AgentHistory,
    (∀ agentId history, agents.get agentId = some history →
      Kept sizes pages deadline agentId log history) →
    sizes.agents agents ≤ MAX_SNAPSHOT_BYTES - 65536

theorem Refused.mono {log' : Log} (h : Refused agentId log) (hsub : log ⊆ log') :
    Refused agentId log' := by
  obtain ⟨requestId, answer, hin, hnone⟩ := h
  exact ⟨requestId, answer, hsub hin, hnone⟩

theorem InTime.mono {log' : Log} (h : InTime deadline log') (hsub : log ⊆ log') :
    InTime deadline log := fun time hin => h time (hsub hin)

@[simp] theorem listed_append (log log' : Log) : listed (log ++ log') = listed log ++ listed log' :=
  List.flatMap_append

/-- A first fetch that fails was late or refused. -/
theorem ran_fetch_error {e : String}
    (h : Prog.Ran (fetchTimeline deadline agentId none) log (.error e))
    (htime : InTime deadline log) : Refused agentId log := by
  rcases Prog.ran_bind.mp h with ⟨_, _, hin⟩ | ⟨reply, asked, rest, rfl, hin, hrest⟩
  · obtain ⟨time, ⟨hlate, rfl, _⟩ | ⟨_, rest, rfl, hrun⟩⟩ := ran_within.mp hin
    · have := htime time List.mem_cons_self
      omega
    · obtain ⟨requestId, rest, rfl, hcall⟩ := ran_randomUUID.mp hrun
      obtain ⟨answer, rest, rfl, hreply⟩ := Prog.ran_call.mp hcall
      refine ⟨requestId, answer, by simp, ?_⟩
      rintro page rfl
      cases (ran_orThrow.mp hreply).2
  · obtain ⟨time, ⟨_, _, hout⟩ | ⟨_, asked, rfl, hrun⟩⟩ := ran_within.mp hin
    · cases hout
    · obtain ⟨requestId, asked, rfl, hcall⟩ := ran_randomUUID.mp hrun
      obtain ⟨answer, asked, rfl, hreply⟩ := Prog.ran_call.mp hcall
      obtain ⟨rfl, rfl⟩ := ran_orThrow.mp hreply
      refine ⟨requestId, .ok reply, by simp, ?_⟩
      rintro page ⟨⟩ hnoError
      have hnone : (page.error.filter (· ≠ "")).isSome = false := by rw [hnoError]; rfl
      simp only [hnone, Bool.false_eq_true, if_false] at hrest
      cases (Prog.ran_ret.mp hrest).2

/-- An agent of which there is a page is kept in some form. -/
theorem not_nothing {agentsEmpty budgetExhausted : Bool} {turns : Nat} {baseline : TimelinePayload}
    {entries : List TimelineEntry} {before : Option Cursor} {seenPages : List String} :
    ¬ Prog.Ran (readPages sizes deadline agentId agentsEmpty turns (some baseline) entries before
      seenPages) log (.ok (.nothing budgetExhausted)) := by
  induction turns generalizing entries before seenPages log with
  | zero =>
    intro h
    obtain ⟨answer, _⟩ := Prog.ran_call.mp h
    exact answer.elim
  | succ turns ih =>
    intro h
    rw [readPages] at h
    rcases Prog.ran_bind.mp h with ⟨e, hout, _⟩ | ⟨result, fetched, rest, rfl, _, hrest⟩
    · cases hout
    · rcases result with e | page
      · cases (Prog.ran_ret.mp hrest).2
      · dsimp only at hrest
        split at hrest
        · cases (Prog.ran_ret.mp hrest).2
        · exact ih hrest

theorem readPages_nothing {agentsEmpty budgetExhausted : Bool}
    (h : Prog.Ran (readPages sizes deadline agentId agentsEmpty pages none [] none []) log
      (.ok (.nothing budgetExhausted))) (htime : InTime deadline log) :
    budgetExhausted = false ∧ Refused agentId log := by
  rcases pages with _ | turns
  · obtain ⟨answer, _⟩ := Prog.ran_call.mp h
    exact answer.elim
  · rw [readPages] at h
    rcases Prog.ran_bind.mp h with ⟨e, hout, _⟩ | ⟨result, fetched, rest, rfl, hfetch, hrest⟩
    · cases hout
    · obtain ⟨_, hresult, hfetch⟩ := Prog.ran_attempt.mp hfetch
      obtain rfl := Except.ok.inj hresult
      rcases result with e | page
      · have hrefused : Refused agentId fetched :=
          ran_fetch_error hfetch (htime.mono (List.subset_append_left _ _))
        dsimp only at hrest
        split at hrest
        · cases (Prog.ran_fail.mp hrest).2
        · obtain ⟨(time : Int), rest, rfl, hret⟩ := Prog.ran_call.mp hrest
          obtain ⟨rfl, hout⟩ := Prog.ran_ret.mp hret
          cases hout
          have hearly := htime time (by simp)
          exact ⟨by simpa using hearly, hrefused.mono (List.subset_append_left _ _)⟩
      · dsimp only at hrest
        split at hrest
        · cases (Prog.ran_ret.mp hrest).2
        · exact absurd hrest not_nothing

/-- The request is none for a list. -/
def NoList : Req → Prop
  | .agents _ _ => False
  | _ => True

theorem keeps_fetch {before : Option Cursor} :
    Prog.Keeps (I := iface) NoList (fun _ => True) (fetchTimeline deadline agentId before) := by
  refine Prog.Keeps.bind (Prog.Keeps.bind ⟨trivial, fun _ => trivial⟩ fun time => ?_)
    fun reply => ?_
  · split
    · trivial
    · refine ⟨trivial, fun requestId => ⟨trivial, fun answer => ?_⟩⟩
      cases answer <;> trivial
  · cases reply with
    | other => trivial
    | response page =>
      dsimp only
      split <;> trivial

theorem keeps_readPages {agentsEmpty : Bool} {turns : Nat} {first : Option TimelinePayload}
    {entries : List TimelineEntry} {before : Option Cursor} {seenPages : List String} :
    Prog.Keeps (I := iface) NoList (fun _ => True)
      (readPages sizes deadline agentId agentsEmpty turns first entries before seenPages) := by
  induction turns generalizing first entries before seenPages with
  | zero => exact ⟨trivial, fun answer => answer.elim⟩
  | succ turns ih =>
    rw [readPages]
    refine Prog.Keeps.catch keeps_fetch (fun page => ?_) fun e _ => ?_
    · dsimp only
      split
      · trivial
      · exact ih
    · dsimp only
      split
      · split
        · trivial
        · exact ⟨trivial, fun _ => trivial⟩
      · trivial

theorem keeps_captureAgents {agentIds : List String} :
    Prog.Keeps (I := iface) NoList (fun _ => True)
      (captureAgents sizes pages deadline progress agentIds) := by
  induction agentIds generalizing progress with
  | nil => trivial
  | cons next rest ih =>
    simp only [captureAgents]
    split
    · trivial
    · refine Prog.Keeps.bind keeps_readPages fun read => ?_
      rcases read with budgetExhausted | history
      · dsimp only
        split
        · trivial
        · exact ih
      · dsimp only
        split
        · trivial
        · exact ih

/-- No list is answered while the agents of one are read. -/
theorem listed_captureAgents {agentIds : List String} {out : Except String Progress}
    (h : Prog.Ran (captureAgents sizes pages deadline progress agentIds) log out) :
    listed log = [] := by
  refine List.flatMap_eq_nil_iff.mpr fun event hevent => ?_
  have hnone := keeps_captureAgents.log h event hevent
  obtain ⟨q, answer⟩ := event
  cases q with
  | agents requestId cursor => exact hnone.elim
  | now => rfl
  | date => rfl
  | randomUUID => rfl
  | timeline q => rfl
  | stuck => rfl

/-- What a capture that stays within its budgets has made of some agents: each of them is
    stored, unless the daemon refused it, and nothing that was stored is lost. -/
structure Filled (agentIds : List String) (log : Log) (progress progress' : Progress) : Prop where
  spare : progress'.budgetExhausted = false
  count : progress'.count ≤ progress.count + agentIds.length
  still : ∀ agentId, (progress.agents.get agentId).isSome = true →
    (progress'.agents.get agentId).isSome = true
  stored : ∀ agentId ∈ agentIds, Refused agentId log ∨
    (progress'.agents.get agentId).isSome = true

/-- The agents of one list: what is read is stored, as long as all that is kept fits. -/
theorem captureAgents_filled {agentIds : List String} {P : String → AgentHistory → Prop}
    (h : Prog.Ran (captureAgents sizes pages deadline progress agentIds) log (.ok progress'))
    (hread : ∀ agentId history, Kept sizes pages deadline agentId log history → P agentId history)
    (hfits : ∀ agents : Js.Map String AgentHistory,
      (∀ agentId history, agents.get agentId = some history → P agentId history) →
      sizes.agents agents ≤ MAX_SNAPSHOT_BYTES - 65536)
    (hold : ∀ agentId history, progress.agents.get agentId = some history → P agentId history)
    (htime : InTime deadline log) (hcount : progress.count + agentIds.length ≤ MAX_AGENTS)
    (hspare : progress.budgetExhausted = false) : Filled agentIds log progress progress' := by
  induction agentIds generalizing progress log with
  | nil =>
    obtain ⟨rfl, hout⟩ := Prog.ran_ret.mp h
    cases hout
    exact ⟨hspare, by simp, fun _ h => h, by simp⟩
  | cons next rest ih =>
    rw [List.length_cons] at hcount
    simp only [captureAgents] at h
    rw [if_neg (by omega)] at h
    rcases Prog.ran_bind.mp h with ⟨e, hout, _⟩ | ⟨read, during, after, rfl, hran, hafter⟩
    · cases hout
    have hread' : ∀ agentId history, Kept sizes pages deadline agentId after history →
        P agentId history := fun agentId history hkept =>
      hread agentId history (by simpa using hkept.append during [])
    have hearly : InTime deadline during := htime.mono (List.subset_append_left _ _)
    have hlate : InTime deadline after := htime.mono (List.subset_append_right _ _)
    have hwiden : ∀ {agentId : String}, Refused agentId after →
        Refused agentId (during ++ after) := fun hrefused =>
      hrefused.mono (List.subset_append_right _ _)
    rcases read with budgetExhausted | history
    · obtain ⟨rfl, hrefused⟩ := readPages_nothing hran hearly
      simp only [Bool.false_eq_true, if_false] at hafter
      have hfilled := ih hafter hread' hold hlate (by simpa using by omega) hspare
      refine ⟨hfilled.spare, ?_, hfilled.still, fun agentId hin => ?_⟩
      · have := hfilled.count
        simp only [List.length_cons] at this ⊢
        omega
      · rcases List.mem_cons.mp hin with rfl | hin
        · exact .inl (hrefused.mono (List.subset_append_left _ _))
        · exact (hfilled.stored agentId hin).imp_left hwiden
    · have hset : ∀ agentId history', (progress.agents.set next history).get agentId =
          some history' → P agentId history' := by
        intro agentId history' hget
        rw [Js.Map.get_set] at hget
        by_cases hid : agentId = next
        · subst hid
          obtain rfl : history = history' := by simpa using hget
          exact hread agentId history ⟨[], during, after, _, by simp, hran⟩
        · exact hold agentId history' (by rwa [if_neg hid] at hget)
      have hsize := hfits _ hset
      dsimp only at hafter
      rw [if_neg (by omega)] at hafter
      have hfilled := ih hafter hread' hset hlate (by simpa using by omega) hspare
      have hnext : (progress'.agents.get next).isSome = true :=
        hfilled.still next (by rw [Js.Map.get_set_self]; rfl)
      refine ⟨hfilled.spare, ?_, fun agentId hsome => ?_, fun agentId hin => ?_⟩
      · have := hfilled.count
        simp only [List.length_cons] at this ⊢
        omega
      · refine hfilled.still agentId ?_
        rw [Js.Map.get_set]
        by_cases hid : agentId = next
        · simp [hid]
        · rwa [if_neg hid]
      · rcases List.mem_cons.mp hin with rfl | hin
        · exact .inr hnext
        · exact (hfilled.stored agentId hin).imp_left hwiden

/-- A list that was not answered lists nothing. -/
theorem listed_error {cursor : Option String} {e : String}
    (h : Prog.Ran (listAgents deadline cursor) log (.error e)) : listed log = [] := by
  obtain ⟨time, ⟨_, rfl, _⟩ | ⟨_, rest, rfl, hrun⟩⟩ := ran_within.mp h
  · rfl
  · obtain ⟨requestId, rest, rfl, hcall⟩ := ran_randomUUID.mp hrun
    obtain ⟨answer, rest, rfl, hreply⟩ := Prog.ran_call.mp hcall
    obtain ⟨rfl, hanswer⟩ := ran_orThrow.mp hreply
    subst hanswer
    rfl

theorem listed_listAgents {cursor nextCursor : Option String} {agentIds : List String}
    {hasMore : Bool}
    (h : Prog.Ran (listAgents deadline cursor) log
      (.ok (.response agentIds hasMore nextCursor))) : listed log = agentIds := by
  obtain ⟨time, ⟨_, _, hout⟩ | ⟨_, rest, rfl, hrun⟩⟩ := ran_within.mp h
  · cases hout
  · obtain ⟨requestId, rest, rfl, hcall⟩ := ran_randomUUID.mp hrun
    obtain ⟨answer, rest, rfl, hreply⟩ := Prog.ran_call.mp hcall
    obtain ⟨rfl, hanswer⟩ := ran_orThrow.mp hreply
    subst hanswer
    simp [listed, listedIn]

/-- All lists: their agents are stored, where the capture stays within its budgets. -/
theorem captureLists_filled {turns : Nat} {cursor : Option String} {seenCursors : List String}
    {P : String → AgentHistory → Prop}
    (h : Prog.Ran (captureLists sizes pages deadline turns cursor seenCursors progress) log
      (.ok progress'))
    (hread : ∀ agentId history, Kept sizes pages deadline agentId log history → P agentId history)
    (hfits : ∀ agents : Js.Map String AgentHistory,
      (∀ agentId history, agents.get agentId = some history → P agentId history) →
      sizes.agents agents ≤ MAX_SNAPSHOT_BYTES - 65536)
    (hold : ∀ agentId history, progress.agents.get agentId = some history → P agentId history)
    (htime : InTime deadline log) (hcount : progress.count + (listed log).length ≤ MAX_AGENTS)
    (hspare : progress.budgetExhausted = false) :
    Filled (listed log) log progress progress' := by
  induction turns generalizing cursor seenCursors progress log with
  | zero =>
    obtain ⟨answer, _⟩ := Prog.ran_call.mp h
    exact answer.elim
  | succ turns ih =>
    rw [captureLists] at h
    rcases Prog.ran_bind.mp h with ⟨e, hout, _⟩ | ⟨reply, fetched, rest, rfl, hlist, hrest⟩
    · cases hout
    obtain ⟨_, hreply, hlist⟩ := Prog.ran_attempt.mp hlist
    obtain rfl := Except.ok.inj hreply
    rcases reply with e | ⟨agentIds, hasMore, nextCursor⟩ | _
    · dsimp only at hrest
      split at hrest
      · obtain ⟨rfl, hout⟩ := Prog.ran_ret.mp hrest
        cases hout
        rw [List.append_nil, listed_error hlist]
        exact ⟨hspare, by simp, fun _ h => h, by simp⟩
      · cases (Prog.ran_fail.mp hrest).2
    · rcases Prog.ran_bind.mp hrest with ⟨e, hout, _⟩ | ⟨next, during, after, rfl, hnext, hafter⟩
      · cases hout
      have hlisted : listed (fetched ++ (during ++ after)) = agentIds ++ listed after := by
        simp [listed_listAgents hlist, listed_captureAgents hnext]
      rw [hlisted, List.length_append] at hcount
      rw [hlisted]
      have hnextKept : ∀ agentId history, next.agents.get agentId = some history →
          P agentId history := by
        intro agentId history hget
        rcases captureAgents_kept hnext hget with hget | hkept
        · exact hold agentId history hget
        · exact hread agentId history (by simpa using hkept.append fetched after)
      have hagents : Filled agentIds during progress next := by
        refine captureAgents_filled hnext (fun agentId history hkept => ?_) hfits hold
          (htime.mono ?_) (by omega) hspare
        · exact hread agentId history (by simpa using hkept.append fetched after)
        · exact fun event hin => by simp [hin]
      have hwiden : ∀ {agentId : String}, Refused agentId during →
          Refused agentId (fetched ++ (during ++ after)) := fun hrefused =>
        hrefused.mono fun event hin => by simp [hin]
      rw [if_neg (by simp [hagents.spare])] at hafter
      have hlast : next = progress' → listed after = [] →
          Filled (agentIds ++ listed after) (fetched ++ (during ++ after)) progress progress' := by
        rintro rfl hnone
        rw [hnone, List.append_nil]
        exact ⟨hagents.spare, hagents.count, hagents.still, fun agentId hin =>
          (hagents.stored agentId hin).imp_left hwiden⟩
      split at hafter
      · obtain ⟨rfl, hout⟩ := Prog.ran_ret.mp hafter
        cases hout
        exact hlast rfl rfl
      · split at hafter
        · cases (Prog.ran_fail.mp hafter).2
        · have hcountNext := hagents.count
          have hlater : Filled (listed after) after next progress' := by
            refine ih hafter (fun agentId history hkept => ?_) hnextKept (htime.mono ?_) ?_
              hagents.spare
            · exact hread agentId history (by simpa using hkept.append (fetched ++ during) [])
            · exact fun event hin => by simp [hin]
            · omega
          refine ⟨hlater.spare, ?_, fun agentId hsome =>
            hlater.still agentId (hagents.still agentId hsome), fun agentId hin => ?_⟩
          · have := hlater.count
            rw [List.length_append]
            omega
          · rcases List.mem_append.mp hin with hin | hin
            · rcases hagents.stored agentId hin with hrefused | hsome
              · exact .inl (hwiden hrefused)
              · exact .inr (hlater.still agentId hsome)
            · refine (hlater.stored agentId hin).imp_left fun hrefused => ?_
              exact hrefused.mono fun event hin => by simp [hin]
    · cases (Prog.ran_fail.mp hrest).2

/-- The loop over the pages asks the daemon in time, and ends when it has turns enough. -/
theorem asks_readPages {agentsEmpty : Bool}
    (h : Prog.Asks (readPages sizes deadline agentId agentsEmpty pages none [] none []) log asked) :
    Timely deadline log asked ∧ (asked = .stuck → pages ≤ MAX_ENTRIES) := by
  refine ⟨?_, fun hstuck => readPages_stuck (Nat.zero_le _) (hstuck ▸ h)⟩
  rcases readPages_timely h with rfl | rfl | rfl | ⟨q, rfl, htime⟩
  · trivial
  · trivial
  · trivial
  · exact htime

theorem asks_captureAgents {agentIds : List String}
    (h : Prog.Asks (captureAgents sizes pages deadline progress agentIds) log asked) :
    Timely deadline log asked ∧ (asked = .stuck → pages ≤ MAX_ENTRIES) := by
  induction agentIds generalizing progress log with
  | nil => exact absurd h Prog.not_asks_ret
  | cons next rest ih =>
    simp only [captureAgents] at h
    split at h
    · exact absurd h Prog.not_asks_ret
    · rcases Prog.asks_bind.mp h with hread | ⟨read, during, after, rfl, _, hafter⟩
      · exact asks_readPages hread
      · rcases read with budgetExhausted | kept
        · dsimp only at hafter
          split at hafter
          · exact absurd hafter Prog.not_asks_ret
          · exact ⟨(ih hafter).1.append during, (ih hafter).2⟩
        · dsimp only at hafter
          split at hafter
          · exact absurd hafter Prog.not_asks_ret
          · exact ⟨(ih hafter).1.append during, (ih hafter).2⟩

theorem asks_listAgents {cursor : Option String}
    (h : Prog.Asks (listAgents deadline cursor) log asked) :
    Timely deadline log asked ∧ asked ≠ .stuck := by
  rcases asks_within.mp h with ⟨-, rfl⟩ | ⟨time, htime, rest, rfl, hrun⟩
  · exact ⟨trivial, by simp⟩
  · rcases asks_randomUUID.mp hrun with ⟨-, rfl⟩ | ⟨requestId, rest, rfl, hcall⟩
    · exact ⟨trivial, by simp⟩
    · rcases Prog.asks_call.mp hcall with ⟨rfl, rfl⟩ | ⟨answer, rest, rfl, hreply⟩
      · exact ⟨⟨[], time, requestId, rfl, htime⟩, by simp⟩
      · exact absurd hreply not_asks_orThrow

/-- A list that was answered was asked for. -/
theorem ran_listAgents {cursor : Option String} {reply : AgentsReply}
    (h : Prog.Ran (listAgents deadline cursor) log (.ok reply)) : 0 < log.countP isAgents := by
  obtain ⟨time, ⟨_, _, hout⟩ | ⟨_, rest, rfl, hrun⟩⟩ := ran_within.mp h
  · cases hout
  · obtain ⟨requestId, rest, rfl, hcall⟩ := ran_randomUUID.mp hrun
    obtain ⟨answer, rest, rfl, hreply⟩ := Prog.ran_call.mp hcall
    simp [isAgents]

/-- The loop over the lists goes on only for lists that it asked for in time. -/
theorem asks_captureLists {turns : Nat} {cursor : Option String} {seenCursors : List String}
    (h : Prog.Asks (captureLists sizes pages deadline turns cursor seenCursors progress) log asked) :
    Timely deadline log asked ∧
      (asked = .stuck → pages ≤ MAX_ENTRIES ∨ turns ≤ log.countP isAgents) := by
  induction turns generalizing cursor seenCursors progress log with
  | zero =>
    rcases Prog.asks_call.mp h with ⟨rfl, rfl⟩ | ⟨answer, _⟩
    · exact ⟨trivial, fun _ => .inr (Nat.zero_le _)⟩
    · exact answer.elim
  | succ turns ih =>
    rw [captureLists] at h
    rcases Prog.asks_bind.mp h with hlist | ⟨listed, fetched, rest, rfl, hlist, hrest⟩
    · obtain ⟨htime, hne⟩ := asks_listAgents (Prog.asks_attempt.mp hlist)
      exact ⟨htime, fun hstuck => absurd hstuck hne⟩
    · obtain ⟨_, hlisted, hlist⟩ := Prog.ran_attempt.mp hlist
      obtain rfl := Except.ok.inj hlisted
      rcases listed with e | ⟨agentIds, hasMore, nextCursor⟩ | _
      · dsimp only at hrest
        split at hrest
        · exact absurd hrest Prog.not_asks_ret
        · exact absurd hrest Prog.not_asks_fail
      · have hcount := ran_listAgents hlist
        rcases Prog.asks_bind.mp hrest with hagents | ⟨next, during, after, rfl, _, hafter⟩
        · obtain ⟨htime, hstuck⟩ := asks_captureAgents hagents
          exact ⟨htime.append fetched, fun h => .inl (hstuck h)⟩
        · split at hafter
          · exact absurd hafter Prog.not_asks_ret
          · split at hafter
            · exact absurd hafter Prog.not_asks_ret
            · split at hafter
              · exact absurd hafter Prog.not_asks_fail
              · obtain ⟨htime, hstuck⟩ := ih hafter
                refine ⟨(htime.append during).append fetched, fun h => ?_⟩
                rcases hstuck h with hpages | hturns
                · exact .inl hpages
                · refine .inr ?_
                  rw [List.countP_append, List.countP_append]
                  omega
      · exact absurd hrest Prog.not_asks_fail

end All

/-! ### The capture -/

section Capture

variable (sizes : Sizes) (lists pages : Nat) (workspace : Workspace)
variable (expectedGeneration : Option Nat)

/-- Every run of a capture, whatever the daemon and the clock do. -/
structure Faithful : Prop where
  /-- the loop over the pages of an agent makes at most 1001 requests -/
  bounded : ∀ deadline agentId agentsEmpty log q,
    Prog.Asks (readPages sizes deadline agentId agentsEmpty pages none [] none []) log
      (.timeline q) → log.countP isTimeline ≤ 1000
  /-- and needs no more turns -/
  ends : ∀ deadline agentId agentsEmpty log, 1001 ≤ pages →
    ¬ Prog.Asks (readPages sizes deadline agentId agentsEmpty pages none [] none []) log .stuck
  /-- it stores the first page, nothing, or pages fetched one behind the other -/
  stored : ∀ deadline agentId agentsEmpty log history,
    Prog.Ran (readPages sizes deadline agentId agentsEmpty pages none [] none []) log
      (.ok (.history history)) → Stored agentId log history
  /-- the daemon is asked only before the deadline, and every further list is one it answered -/
  timely : ∀ log asked,
    Prog.Asks (captureRetainedHistory sizes lists pages workspace expectedGeneration) log asked →
      log = [] ∨ ∃ (start : Int) (rest : Log), log = ⟨.now, start⟩ :: rest ∧
        Timely (start + CAPTURE_TIMEOUT_MS) rest asked ∧
        (asked = .stuck → 1001 ≤ pages → lists ≤ rest.countP isAgents)
  /-- the snapshot holds what the loops stored, within its budget -/
  snapshot : ∀ log snapshot,
    Prog.Ran (captureRetainedHistory sizes lists pages workspace expectedGeneration) log
      (.ok snapshot) → sizes.snapshot snapshot ≤ 8 * 1024 * 1024 ∧
      ∀ agentId history, snapshot.agents.get agentId = some history →
        ∃ deadline, Kept sizes pages deadline agentId log history
  /-- every listed agent whose first page the daemon does not refuse is stored, where the run
      stays before its deadline and within its budgets -/
  covered : ∀ (start : Int) rest snapshot,
    Prog.Ran (captureRetainedHistory sizes lists pages workspace expectedGeneration)
      (⟨.now, start⟩ :: rest) (.ok snapshot) → InTime (start + CAPTURE_TIMEOUT_MS) rest →
      (listed rest).length ≤ MAX_AGENTS → Fits sizes pages (start + CAPTURE_TIMEOUT_MS) rest →
      ∀ agentId ∈ listed rest, ¬ Refused agentId rest →
        (snapshot.agents.get agentId).isSome = true
  /-- against a daemon that serves a timeline for each agent, an end of it is stored -/
  suffix : ∀ log snapshot timelines,
    Prog.Ran (captureRetainedHistory sizes lists pages workspace expectedGeneration) log
      (.ok snapshot) → (∀ agentId, Ordered (timelines agentId)) → Served timelines log →
      ∀ agentId history, snapshot.agents.get agentId = some history →
        history.entries <:+ timelines agentId ∧
          (history.truncated = false → history.entries = timelines agentId)

variable {sizes lists pages workspace expectedGeneration}

theorem capture_kept {log : Log} {snapshot : Snapshot}
    (h : Prog.Ran (captureRetainedHistory sizes lists pages workspace expectedGeneration) log
      (.ok snapshot)) : sizes.snapshot snapshot ≤ MAX_SNAPSHOT_BYTES ∧
      ∀ agentId history, snapshot.agents.get agentId = some history →
        ∃ deadline, Kept sizes pages deadline agentId log history := by
  unfold captureRetainedHistory at h
  split at h
  · cases (Prog.ran_fail.mp h).2
  · obtain ⟨start, rest, rfl, hrest⟩ := ran_now.mp h
    rcases Prog.ran_bind.mp hrest with ⟨e, hout, _⟩ | ⟨progress, during, after, rfl, hlists, hafter⟩
    · cases hout
    · obtain ⟨capturedAt, rest, rfl, hsnapshot⟩ := ran_date.mp hafter
      dsimp only at hsnapshot
      split at hsnapshot
      · cases (Prog.ran_fail.mp hsnapshot).2
      · rename_i hsize
        obtain ⟨rfl, hout⟩ := Prog.ran_ret.mp hsnapshot
        cases hout
        refine ⟨Nat.le_of_not_lt hsize, fun agentId history hget => ?_⟩
        rcases captureLists_kept hlists hget with hnone | hkept
        · simp at hnone
        · exact ⟨_, by simpa using hkept.append [⟨.now, start⟩] [⟨.date, capturedAt⟩]⟩

theorem capture_covered {start : Int} {rest : Log} {snapshot : Snapshot}
    (h : Prog.Ran (captureRetainedHistory sizes lists pages workspace expectedGeneration)
      (⟨.now, start⟩ :: rest) (.ok snapshot))
    (htime : InTime (start + CAPTURE_TIMEOUT_MS) rest) (hcount : (listed rest).length ≤ MAX_AGENTS)
    (hfits : Fits sizes pages (start + CAPTURE_TIMEOUT_MS) rest) {agentId : String}
    (hin : agentId ∈ listed rest) (hserved : ¬ Refused agentId rest) :
    (snapshot.agents.get agentId).isSome = true := by
  unfold captureRetainedHistory at h
  split at h
  · cases (Prog.ran_fail.mp h).2
  · obtain ⟨time, rest', heq, hrest⟩ := ran_now.mp h
    cases heq
    rcases Prog.ran_bind.mp hrest with ⟨e, hout, _⟩ | ⟨progress, during, after, rfl, hlists, hafter⟩
    · cases hout
    · obtain ⟨capturedAt, rest, rfl, hsnapshot⟩ := ran_date.mp hafter
      dsimp only at hsnapshot
      split at hsnapshot
      · cases (Prog.ran_fail.mp hsnapshot).2
      · obtain ⟨rfl, hout⟩ := Prog.ran_ret.mp hsnapshot
        cases hout
        have hlisted : listed (during ++ [⟨.date, capturedAt⟩]) = listed during := by
          simp [listed, listedIn]
        rw [hlisted] at hin hcount
        have hfilled : Filled (listed during) during {} progress := by
          refine captureLists_filled hlists (fun agentId history hkept => ?_) hfits (by simp)
            (htime.mono (List.subset_append_left _ _)) (by simpa using hcount) rfl
          exact by simpa using hkept.append [] [⟨.date, capturedAt⟩]
        rcases hfilled.stored agentId hin with hrefused | hsome
        · exact absurd (hrefused.mono (List.subset_append_left _ _)) hserved
        · exact hsome

theorem asks_capture {log : Log} {asked : Req}
    (h : Prog.Asks (captureRetainedHistory sizes lists pages workspace expectedGeneration) log
      asked) : log = [] ∨ ∃ (start : Int) (rest : Log), log = ⟨.now, start⟩ :: rest ∧
        Timely (start + CAPTURE_TIMEOUT_MS) rest asked ∧
        (asked = .stuck → 1001 ≤ pages → lists ≤ rest.countP isAgents) := by
  unfold captureRetainedHistory at h
  split at h
  · exact absurd h Prog.not_asks_fail
  · rcases asks_now.mp h with ⟨rfl, -⟩ | ⟨start, rest, rfl, hrest⟩
    · exact .inl rfl
    · refine .inr ⟨start, rest, rfl, ?_⟩
      rcases Prog.asks_bind.mp hrest with hlists | ⟨progress, during, after, rfl, _, hafter⟩
      · obtain ⟨htime, hstuck⟩ := asks_captureLists hlists
        refine ⟨htime, fun h hpages => ?_⟩
        rcases hstuck h with hfew | hturns
        · simp only [MAX_ENTRIES] at hfew
          omega
        · exact hturns
      · rcases asks_date.mp hafter with ⟨-, rfl⟩ | ⟨capturedAt, rest, -, hsnapshot⟩
        · exact ⟨trivial, by simp⟩
        · dsimp only at hsnapshot
          split at hsnapshot
          · exact absurd hsnapshot Prog.not_asks_fail
          · exact absurd hsnapshot Prog.not_asks_ret

end Capture

section Demo

def demoSizes : Sizes where
  entries := List.length
  agents := fun agents => agents.cells.length
  snapshot := fun snapshot => snapshot.agents.cells.length

/-- The daemon drops its oldest entry between the two pages. -/
def demoPage (older : Bool) : TimelinePayload where
  requestId := "request"
  agentId := "agent"
  agent := .null
  direction := if older then .before else .tail
  projection := .projected
  epoch := "epoch"
  reset := false
  staleCursor := false
  gap := false
  window := if older then ⟨1, 2, 3⟩ else ⟨0, 2, 3⟩
  startCursor := if older then some ⟨"epoch", 1⟩ else some ⟨"epoch", 2⟩
  endCursor := if older then some ⟨"epoch", 1⟩ else some ⟨"epoch", 2⟩
  hasOlder := !older
  hasNewer := older
  entries := if older then [⟨1, 1, .null⟩] else [⟨2, 2, .null⟩]
  error := none

def demoAnswer : (q : Req) → Option (iface.Res q)
  | .now => some (0 : Int)
  | .date => some "1970-01-01T00:00:00.000Z"
  | .randomUUID => some "request"
  | .agents _ _ => some (.ok (.response ["agent"] false none))
  | .timeline q => some (.ok (.response (demoPage q.cursor.isSome)))
  | .stuck => none

def demoWorkspace : Workspace where
  metadata := { name := "ws", uid := some "uid" }
  spec := { projectRef := "project", displayName := "ws", credentialProfile := "profile" }

def demoHistoryKept : AgentHistory :=
  ⟨"epoch", ⟨0, 2, 3⟩, [⟨1, 1, .null⟩, ⟨2, 2, .null⟩], false⟩

def demoLog : Log :=
  turn "agent" none 0 "request" (demoPage false) ++
    turn "agent" (some ⟨"epoch", 2⟩) 0 "request" (demoPage true)

def demoTimeline : List TimelineEntry := [⟨1, 1, .null⟩, ⟨2, 2, .null⟩]

theorem demo_served : Served (fun _ => demoTimeline) demoLog := by
  intro q page hin _
  simp only [demoLog, turn, List.cons_append, List.nil_append, List.mem_cons, List.not_mem_nil,
    or_false] at hin
  rcases hin with h | h | h | h | h | h
  · cases h
  · cases h
  · obtain rfl : page = demoPage false := Option.some.inj (congrArg pageOf h)
    obtain rfl : q = timelineRequest "agent" "request" none := by
      simpa using congrArg Sigma.fst h
    refine ⟨⟨[⟨1, 1, .null⟩], rfl⟩, by simp [demoPage], ?_⟩
    rintro _ _ _ ⟨⟩ ⟨⟩
    rfl
  · cases h
  · cases h
  · obtain rfl : page = demoPage true := Option.some.inj (congrArg pageOf h)
    obtain rfl : q = timelineRequest "agent" "request" (some ⟨"epoch", 2⟩) := by
      simpa using congrArg Sigma.fst h
    refine ⟨⟨[], rfl⟩, fun _ => rfl, ?_⟩
    rintro _ _ _ ⟨⟩ ⟨⟩
    rfl

/-- The requests of a whole capture. -/
def demoCapture : Log :=
  [⟨.now, (0 : Int)⟩, ⟨.now, (0 : Int)⟩, ⟨.randomUUID, "request"⟩,
    ⟨.agents "request" none, .ok (.response ["agent"] false none)⟩] ++ demoLog ++
      [⟨.date, "1970-01-01T00:00:00.000Z"⟩]

theorem demo_run : Prog.Ran (readPages demoSizes 1 "agent" true 2 none [] none []) demoLog
    (.ok (.history demoHistoryKept)) :=
  @Prog.ran_replay _ _ _ demoAnswer _ (demoLog, .ok (Read.history demoHistoryKept)) rfl

theorem mem_entriesOf {row : TimelineEntry} {pages : List TimelinePayload}
    (h : row ∈ entriesOf pages) : ∃ page ∈ pages, row ∈ page.entries := by
  induction pages with
  | nil => cases h
  | cons page pages ih =>
    rcases List.mem_append.mp h with hold | hpage
    · obtain ⟨next, hnext, hrow⟩ := ih hold
      exact ⟨next, List.mem_cons_of_mem _ hnext, hrow⟩
    · exact ⟨page, List.mem_cons_self, hpage⟩

theorem Fetched.mem_log {agentId : String} {before : Option Cursor} {log : Log}
    {pages : List TimelinePayload} (h : Fetched agentId before log pages) :
    ∀ page ∈ pages, ∃ event ∈ log, pageOf event = some page := by
  induction h with
  | nil before => simp
  | @last page before time requestId hpage =>
    simp only [List.mem_singleton, forall_eq]
    exact ⟨⟨.timeline (timelineRequest agentId requestId before), .ok (.response page)⟩,
      by simp [turn], rfl⟩
  | @cons page cursor log pages before time requestId hpage hentries hstart rest ih =>
    rintro next (_ | ⟨_, hnext⟩)
    · exact ⟨⟨.timeline (timelineRequest agentId requestId before), .ok (.response page)⟩,
        by simp [turn], rfl⟩
    · obtain ⟨event, hevent, hpage⟩ := ih next hnext
      exact ⟨event, List.mem_append_right _ hevent, hpage⟩

end Demo

end PaseoGateway.RetainedTranscript
