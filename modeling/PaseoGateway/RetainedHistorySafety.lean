/-
  PaseoGateway/RetainedHistorySafety.lean
  =======================================
  **The file of the stored receipt is never pruned.**

  Stored receipts only ever get newer (`ReceiptHistory`), in the order
  `publishRetainedHistoryReceipt` compares: generation, then the ISO text.  A
  pruner orders files by generation and millisecond.  `Committed` says that a
  receipt's text and its file's millisecond name one instant, so both orders agree
  (`PartsLt.of_newer`), and a pruner that holds any receipt ever stored only
  removes files older than the present one.

  A file written but not yet published may be pruned, but only once a receipt at
  least as new is stored (`Covered`), and then it is never published.
-/
import PaseoGateway.RelyGuarantee
import PaseoGateway.SnapshotNames

namespace PaseoGateway.RetainedHistory

open Async

abbrev History := Trace sys.Key sys.Val sys.Note

/-! ### Two orders -/

/-- The order of receipts: generation, then the text of the instant. -/
def Newer (a b : Receipt) : Prop :=
  a.workspaceGeneration < b.workspaceGeneration ∨
    (a.workspaceGeneration = b.workspaceGeneration ∧ a.capturedAt < b.capturedAt)

/-- The order of files: generation, then millisecond. -/
def PartsLt (p q : Parts) : Prop :=
  p.generation < q.generation ∨ (p.generation = q.generation ∧ p.capturedMs < q.capturedMs)

theorem Newer.trans {a b c : Receipt} (h : Newer a b) (h' : Newer b c) : Newer a c := by
  rcases h with hlt | ⟨heq, htext⟩
  · rcases h' with hlt' | ⟨heq', _⟩
    · exact .inl (Nat.lt_trans hlt hlt')
    · exact .inl (heq' ▸ hlt)
  · rcases h' with hlt' | ⟨heq', htext'⟩
    · exact .inl (heq ▸ hlt')
    · exact .inr ⟨heq.trans heq', lt_trans htext htext'⟩

/-- A value that does not supersede is strictly newer. -/
theorem newer_of_not_supersedes {current value : Receipt}
    (h : supersedes current value = false) : Newer current value := by
  simp only [supersedes, Bool.or_eq_false_iff, decide_eq_false_iff_not, Bool.and_eq_false_iff,
    beq_eq_false_iff_ne] at h
  obtain ⟨hgen, hrest⟩ := h
  rcases Nat.lt_or_eq_of_le (Nat.le_of_not_lt hgen) with hlt | heq
  · exact .inl hlt
  · rcases hrest with hne | htext
    · exact absurd heq hne
    · exact .inr ⟨heq, lt_of_not_ge htext⟩

/-- The receipt and its file name one generation and one instant. -/
def Committed (uid : String) (r : Receipt) (p : Parts) : Prop :=
  snapshotParts uid r.fileName = some p ∧ r.workspaceGeneration = p.generation ∧
    r.capturedAt = Iso.toISOString p.capturedMs ∧ p.capturedMs < 10 ^ 13

theorem lt_of_text_lt {a b : Nat} (ha : a < 10 ^ 13)
    (h : Iso.toISOString a < Iso.toISOString b) : a < b := by
  rcases Nat.lt_trichotomy a b with hlt | heq | hgt
  · exact hlt
  · rw [heq] at h
    exact absurd h (lt_irrefl _)
  · have hlast : (a : Int) < Iso.year10000 := by
      simp only [Iso.year10000]
      omega
    exact absurd (Iso.toISOString_lt (by omega) (by omega) hlast) (lt_asymm h)

/-- The two orders agree on committed receipts. -/
theorem PartsLt.of_newer {uid : String} {a b : Receipt} {p q : Parts}
    (ha : Committed uid a p) (hb : Committed uid b q) (h : Newer a b) : PartsLt p q := by
  obtain ⟨_, hgen, htext, hms⟩ := ha
  obtain ⟨_, hgen', htext', _⟩ := hb
  rcases h with hlt | ⟨heq, hlt⟩
  · exact .inl (by omega)
  · rw [htext, htext'] at hlt
    exact .inr ⟨by omega, lt_of_text_lt hms hlt⟩

theorem PartsLt.irrefl_of_obsolete {p c : Parts} (h : obsolete (some c) p = true) :
    ¬ PartsLt c p := by
  simp only [obsolete, Bool.or_eq_true, decide_eq_true_eq, Bool.and_eq_true, beq_iff_eq] at h
  rintro (hlt | ⟨heq, hlt⟩)
  · omega
  · omega

/-! ### The history of receipts -/

/-- What a note of a written file says. -/
def Written (uid : String) (n : Note) : Prop :=
  n.snapshot.workspaceUid = uid ∧ 1 ≤ n.snapshot.workspaceGeneration ∧
    n.snapshot.workspaceGeneration ≤ MAX_SAFE_INTEGER ∧
    ∃ uuid, n.fileName =
      snapshotName uid n.snapshot.workspaceGeneration n.snapshot.captured uuid

def IsCommitted (uid : String) (r : Receipt) : Prop := ∃ p, Committed uid r p

def Renews (uid : String) (old r : Receipt) : Prop := Newer old r ∧ IsCommitted uid r

/-- Receipts are committed, replaced only by newer ones, and never deleted. -/
def ReceiptHistory (uid : String) (tr : History) : Prop :=
  Disciplined (.receipt uid) (IsCommitted uid) (Renews uid) tr

theorem ReceiptHistory.committed {uid : String} {tr : History} (h : ReceiptHistory uid tr)
    {n : Nat} {r : Receipt} (hs : Stored tr n (.receipt uid) r) : IsCommitted uid r := by
  refine Disciplined.stored (P := IsCommitted uid) ?_ ?_ h hs
  · intro r hr
    exact hr
  · intro _ r _ hr
    exact hr.2

/-- The present receipt is any earlier one or newer. -/
theorem ReceiptHistory.current {uid : String} {tr : History} (h : ReceiptHistory uid tr)
    {n : Nat} {r : Receipt} (hs : Stored tr n (.receipt uid) r) :
    ∃ m r', lookup (.receipt uid) tr = some (m, r') ∧ (r' = r ∨ Newer r r') := by
  have htrans : ∀ a b c, Renews uid a b → Renews uid b c → Renews uid a c :=
    fun _ _ _ hab hbc => ⟨hab.1.trans hbc.1, hbc.2⟩
  obtain ⟨m, r', hlook, hrel⟩ := Disciplined.current htrans h hs
  exact ⟨m, r', hlook, hrel.imp id fun h => h.1⟩

/-- Some receipt at least as new as the file `f` was stored. -/
def Covered (uid : String) (tr : History) (f : String) : Prop :=
  ∃ n c pc p, Stored tr n (.receipt uid) c ∧ Committed uid c pc ∧
    snapshotParts uid f = some p ∧ ¬ PartsLt pc p

/-- A file a pruner may remove: no snapshot, or not newer than a stored receipt and
    not its file. -/
def Removable (uid : String) (tr : History) (name : String) : Prop :=
  ∀ p, snapshotParts uid name = some p → ∃ n c pc, Stored tr n (.receipt uid) c ∧
    Committed uid c pc ∧ ¬ PartsLt pc p ∧ name ≠ c.fileName

/-- The store and the directory together. -/
structure DirectoryOk (uid : String) (tr : History) (files : List String) : Prop where
  history : ReceiptHistory uid tr
  notes : ∀ a n, .note a n ∈ tr → Written uid n
  present : ∀ n r, lookup (.receipt uid) tr = some (n, r) → r.fileName ∈ files
  written : ∀ a n, .note a n ∈ tr → isSnapshotName uid n.fileName = true →
    n.fileName ∈ files ∨ Covered uid tr n.fileName

theorem Written.parts {uid : String} {n : Note} (h : Written uid n)
    (hname : isSnapshotName uid n.fileName = true) :
    ∃ p, Committed uid (receiptOf n.snapshot n.fileName) p := by
  obtain ⟨_, hpos, hsafe, uuid, hfile⟩ := h
  rw [hfile] at hname ⊢
  obtain ⟨ms, hparts, hms, hlt⟩ := snapshotParts_snapshotName hpos hsafe hname
  refine ⟨_, hparts, rfl, ?_, hlt⟩
  simp only [receiptOf, Snapshot.capturedAt, hms]

theorem DirectoryOk.remove {uid : String} {tr : History} {files : List String}
    (h : DirectoryOk uid tr files) {name : String} (hname : Removable uid tr name) :
    DirectoryOk uid tr (files.filter fun file => file ≠ name) := by
  refine ⟨h.history, h.notes, ?_, ?_⟩
  · intro n r hlook
    rw [List.mem_filter, decide_eq_true_eq]
    refine ⟨h.present n r hlook, ?_⟩
    rintro rfl
    obtain ⟨p, hp⟩ := h.history.committed (lookup_stored hlook)
    obtain ⟨m, c, pc, hstored, hc, hnot, hne⟩ := hname p hp.1
    obtain ⟨m', r', hlook', hrel⟩ := h.history.current hstored
    rw [hlook] at hlook'
    cases hlook'
    rcases hrel with rfl | hnewer
    · exact hne rfl
    · exact hnot (PartsLt.of_newer hc hp hnewer)
  · intro a n hn hsnap
    by_cases heq : n.fileName = name
    · -- a pruned file that was written is covered by the receipt that allowed it
      subst heq
      obtain ⟨p, hp⟩ := (h.notes a n hn).parts hsnap
      obtain ⟨m, c, pc, hstored, hc, hnot, _⟩ := hname p hp.1
      exact .inr ⟨m, c, pc, p, hstored, hc, hp.1, hnot⟩
    · refine (h.written a n hn hsnap).imp (fun hmem => ?_) id
      rw [List.mem_filter, decide_eq_true_eq]
      exact ⟨hmem, heq⟩

theorem Covered.later {uid : String} {tr : History} {f : String} (h : Covered uid tr f)
    (new : History) : Covered uid (new ++ tr) f := by
  obtain ⟨n, c, pc, p, hstored, hrest⟩ := h
  exact ⟨n, c, pc, p, hstored.mono new, hrest⟩

theorem Removable.of_not_snapshot {uid name : String} {tr : History}
    (h : snapshotParts uid name = none) : Removable uid tr name := by
  intro p hp
  rw [h] at hp
  cases hp

theorem Removable.later {uid name : String} {w w' : World sys}
    (h : Removable uid w.trace name) (hl : Later w w') : Removable uid w'.trace name := by
  intro p hp
  obtain ⟨n, c, pc, hstored, hrest⟩ := h p hp
  exact ⟨n, c, pc, hl.stored hstored, hrest⟩

theorem DirectoryOk.add {uid : String} {tr : History} {files files' : List String}
    (h : DirectoryOk uid tr files) (hsub : ∀ file ∈ files, file ∈ files') :
    DirectoryOk uid tr files' :=
  ⟨h.history, h.notes, fun n r hr => hsub _ (h.present n r hr),
    fun a n hn hname => (h.written a n hn hname).imp (hsub _) id⟩

/-- A finished temporary file takes its final name. -/
theorem DirectoryOk.rename {uid : String} {tr : History} {files : List String}
    (h : DirectoryOk uid tr files) {a : Option Tid} {n : Note} (hn : Written uid n)
    {temp : String} (htemp : snapshotParts uid temp = none) :
    DirectoryOk uid (.note a n :: tr)
      (n.fileName :: files.filter fun file => file ≠ temp ∧ file ≠ n.fileName) := by
  have hremoved := h.remove (.of_not_snapshot htemp)
  have hkept : ∀ file ∈ files.filter (fun file => file ≠ temp),
      file ∈ n.fileName :: files.filter fun file => file ≠ temp ∧ file ≠ n.fileName := by
    intro file hfile
    simp only [List.mem_filter, decide_eq_true_eq] at hfile
    by_cases heq : file = n.fileName
    · exact heq ▸ List.mem_cons_self
    · apply List.mem_cons_of_mem
      simp only [List.mem_filter, decide_eq_true_eq]
      exact ⟨hfile.1, hfile.2, heq⟩
  have hadded := hremoved.add hkept
  constructor
  · exact ⟨hadded.history, Entry.keeps_of_ne (by simp [Entry.key?])⟩
  · intro a' n' hmem
    rcases List.mem_cons.mp hmem with heq | hold
    · cases heq
      exact hn
    · exact hadded.notes a' n' hold
  · intro m r hr
    rw [lookup_note] at hr
    exact hadded.present m r hr
  · intro a' n' hmem hname
    rcases List.mem_cons.mp hmem with heq | hold
    · cases heq
      exact .inl List.mem_cons_self
    · exact (hadded.written a' n' hold hname).imp id fun hc => hc.later [_]

/-- The file of a receipt about to be stored is there: whatever could have covered it
    is older than the receipt it replaces. -/
theorem DirectoryOk.file_present {uid : String} {tr : History} {files : List String}
    (h : DirectoryOk uid tr files) {a : Option Tid} {n : Note} (hn : .note a n ∈ tr)
    (hname : isSnapshotName uid n.fileName = true)
    (hnewer : ∀ m cur, lookup (.receipt uid) tr = some (m, cur) →
      Newer cur (receiptOf n.snapshot n.fileName)) : n.fileName ∈ files := by
  rcases h.written a n hn hname with hmem | ⟨m, c, pc, p, hstored, hc, hp, hnot⟩
  · exact hmem
  · obtain ⟨q, hq⟩ := (h.notes a n hn).parts hname
    have hpq : p = q := Option.some.inj (hp.symm.trans hq.1)
    subst hpq
    obtain ⟨m', cur, hlook, hrel⟩ := h.history.current hstored
    have hcur := hnewer m' cur hlook
    rcases hrel with rfl | hlt
    · exact absurd (PartsLt.of_newer hc hq hcur) hnot
    · exact absurd (PartsLt.of_newer hc hq (hlt.trans hcur)) hnot

/-- A write of a receipt whose file was written. -/
theorem DirectoryOk.put {uid : String} {tr : History} {files : List String}
    (h : DirectoryOk uid tr files) {a : Option Tid} {n : Note} (hn : .note a n ∈ tr)
    (hname : isSnapshotName uid n.fileName = true)
    (hnewer : ∀ m cur, lookup (.receipt uid) tr = some (m, cur) →
      Newer cur (receiptOf n.snapshot n.fileName))
    {e : Entry sys.Key sys.Val sys.Note}
    (hputs : e.puts (.receipt uid) = some (receiptOf n.snapshot n.fileName)) :
    DirectoryOk uid (e :: tr) files := by
  have hcommitted : IsCommitted uid (receiptOf n.snapshot n.fileName) :=
    (h.notes a n hn).parts hname
  have hkey := Entry.key_of_puts hputs
  have hlook : lookup (.receipt uid) (e :: tr)
      = some (tr.length, receiptOf n.snapshot n.fileName) := by
    simp [lookup, hkey, hputs]
  have hnote : ∀ b n', .note b n' ∈ e :: tr → .note b n' ∈ tr := by
    intro b n' hmem
    rcases List.mem_cons.mp hmem with heq | hold
    · rw [← heq] at hkey
      cases hkey
    · exact hold
  constructor
  · refine ⟨h.history, fun _ => ⟨_, hputs, ?_⟩⟩
    cases hprev : lookup (.receipt uid) tr with
    | none => exact .inl ⟨rfl, hcommitted⟩
    | some prev => exact .inr ⟨prev.1, prev.2, rfl, hnewer prev.1 prev.2 hprev, hcommitted⟩
  · exact fun b n' hmem => h.notes b n' (hnote b n' hmem)
  · intro m r hr
    rw [hlook] at hr
    cases hr
    exact h.file_present hn hname hnewer
  · exact fun b n' hmem hsnap =>
      (h.written b n' (hnote b n' hmem) hsnap).imp id fun hc => hc.later [_]

/-! ### The protocol -/

/-- The file name a pruner was given, with its parts, names a receipt once stored. -/
def Prunes (uid : String) (tr : History) (f : String) (parts : Parts) : Prop :=
  ∃ n c, Stored tr n (.receipt uid) c ∧ Committed uid c parts ∧ c.fileName = f

/-- The file was written for this snapshot, under a name the client accepts. -/
def Publishable (uid : String) (tr : History) (snapshot : Snapshot) (f : String) : Prop :=
  isSnapshotName uid f = true ∧ ∃ a, .note a ⟨snapshot, f⟩ ∈ tr

def StoredDuring (uid : String) (start w : World sys) (r : Receipt) : Prop :=
  During start w fun tr => ∃ n, lookup (.receipt uid) tr = some (n, r)

def Inv (uid : String) (w : World sys) : Prop := DirectoryOk uid w.trace w.glob

def Pre (uid : String) : Call → World sys → Prop
  | .retainHistory workspace _, _ => workspace.metadata.uid = some uid
  | .prune (some f), w => ∃ p, Prunes uid w.trace f p
  | .prune none, _ => True
  | .write _, _ => True
  | .publish snapshot f, w => Publishable uid w.trace snapshot f

def Post (uid : String) : World sys → Out → World sys → Prop
  | start, .retained (some r), w => StoredDuring uid start w r
  | start, .published r, w => StoredDuring uid start w r
  | _, _, _ => True

def protocol (uid : String) : Protocol (machine uid) where
  inv := Inv uid
  pre := fun _ c w => Pre uid c w
  post := fun _ _ start out w => Post uid start out w

/-- Thread `t` may run `p` and end in `Q`, or throw anything. -/
abbrev Runs (uid : String) (t : Tid) {α : Type} (p : sys.Task α)
    (Q : α → World sys → Prop) (w : World sys) : Prop :=
  Safe (protocol uid) t p Q (fun _ _ => True) w

theorem Prunes.later {uid f : String} {parts : Parts} {w w' : World sys}
    (h : Prunes uid w.trace f parts) (hl : Later w w') : Prunes uid w'.trace f parts := by
  obtain ⟨n, c, hstored, hrest⟩ := h
  exact ⟨n, c, hl.stored hstored, hrest⟩

theorem Publishable.later {uid f : String} {snapshot : Snapshot} {w w' : World sys}
    (h : Publishable uid w.trace snapshot f) (hl : Later w w') :
    Publishable uid w'.trace snapshot f := by
  obtain ⟨hname, a, hn⟩ := h
  exact ⟨hname, a, hl.mem hn⟩

/-! ### Rules -/

/-- Requests that leave the directory and the history as they are. -/
def Quiet : Ext → Prop
  | .rm _ => False
  | .rmForce _ => False
  | .writeTemp _ => False
  | .rename _ _ _ => False
  | _ => True

theorem answer_quiet {c : Choice} {t : Tid} {x : Ext} {w : World sys} {a : Answer sys x}
    (hq : Quiet x) (h : answer c t x w = some a) :
    a.notes = [] ∧ a.glob = w.glob ∧ a.forks = [] := by
  cases x <;> simp only [answer, unchanged] at h <;> try exact hq.elim
  all_goals
    try split at h
    all_goals cases h
    all_goals exact ⟨rfl, rfl, rfl⟩

section Rules

variable {uid : String} {t : Tid} {α β : Type} {Q : α → World sys → Prop}
  {Q' : β → World sys → Prop} {w : World sys}

theorem Runs.seq {p : sys.Task α} {f : α → sys.Task β} (h : Runs uid t p Q w)
    (hf : ∀ a w', Later w w' → Inv uid w' → Q a w' → Runs uid t (f a) Q' w') :
    Runs uid t (p >>= f) Q' w :=
  Safe.seq h hf fun _ _ _ _ => trivial

theorem Runs.asked {x : Ext} {k : Ext.Res x → sys.Task α}
    (h : ∀ w', Later w w' → Inv uid w' → ∀ c (a : Answer sys x), answer c t x w' = some a →
      a.forks = [] ∧ DirectoryOk uid (a.notes.map (.note (some t)) ++ w'.trace) a.glob ∧
      (∀ w'', Later w w'' → Inv uid w'' →
        w''.trace = a.notes.map (.note (some t)) ++ w'.trace → Runs uid t (k a.res) Q w'')) :
    Runs uid t (.call (.ext x) k) Q w := by
  refine Safe.ext fun w' hr hi c a ha => ?_
  obtain ⟨hforks, hok, hk⟩ := h w' hr.1.later hi c a ha
  rw [hforks, World.spawnAll_nil]
  have hlater : Later w' (w'.answered t a) :=
    ⟨⟨_, World.answered_trace w' t a⟩, Nat.le_refl _, fun _ _ => rfl⟩
  refine ⟨⟨hok, fun _ _ _ => trivial, ?_⟩, hk _ (hr.1.later.trans hlater) hok rfl⟩
  intro u s hnone hs
  rw [World.answered_calls, hnone] at hs
  cases hs

theorem Runs.quiet {x : Ext} {k : Ext.Res x → sys.Task α} (hq : Quiet x)
    (h : ∀ r w', Later w w' → Inv uid w' → Runs uid t (k r) Q w') :
    Runs uid t (.call (.ext x) k) Q w := by
  apply Runs.asked
  intro w' _ hi c a ha
  obtain ⟨hnotes, hglob, hforks⟩ := answer_quiet hq ha
  refine ⟨hforks, ?_, fun w'' hl hi' _ => h a.res w'' hl hi'⟩
  rw [hnotes, hglob]
  exact hi

theorem runs_ofExcept (r : Except Err α) :
    Runs uid t (Prog.ofExcept r) (fun _ _ => True) w := by
  cases r with
  | ok a => exact Safe.ret fun _ _ _ => trivial
  | error e => exact Safe.fail fun _ _ _ => trivial

theorem runs_ask {x : Ext} (hq : Quiet x) :
    Runs uid t (ask (S := sys) x) (fun _ _ => True) w :=
  Runs.quiet hq fun _ _ _ _ => Safe.ret fun _ _ _ => trivial

theorem runs_askOr {x : Ext} (hx : Ext.Res x = Except Err α) (hq : Quiet x) :
    Runs uid t (askOr (S := sys) x hx) (fun _ _ => True) w :=
  Runs.quiet hq fun _ _ _ _ => runs_ofExcept _

theorem runs_exec {x : Ext} (hx : Ext.Res x = Except Err Unit) (hq : Quiet x) :
    Runs uid t (exec x hx) (fun _ _ => True) w := runs_askOr hx hq

end Rules

/-! ### The snapshot directory -/

section Directory

variable {uid : String} {t : Tid} {w : World sys}

theorem runs_rm {name : String} (h : Removable uid w.trace name) :
    Runs uid t (exec (.rm name) rfl) (fun _ _ => True) w := by
  apply Runs.asked
  intro w' hl hi c a ha
  have hname := h.later hl
  simp only [answer] at ha
  split at ha
  · cases ha
    exact ⟨rfl, hi, fun _ _ _ _ => runs_ofExcept _⟩
  · split at ha
    · cases ha
      exact ⟨rfl, hi.remove hname, fun _ _ _ _ => runs_ofExcept _⟩
    · cases ha
      exact ⟨rfl, hi, fun _ _ _ _ => runs_ofExcept _⟩

theorem runs_rmForce {name : String} (h : Removable uid w.trace name) :
    Runs uid t (exec (.rmForce name) rfl) (fun _ _ => True) w := by
  apply Runs.asked
  intro w' hl hi c a ha
  have hname := h.later hl
  simp only [answer] at ha
  split at ha
  · cases ha
    exact ⟨rfl, hi, fun _ _ _ _ => runs_ofExcept _⟩
  · cases ha
    exact ⟨rfl, hi.remove hname, fun _ _ _ _ => runs_ofExcept _⟩

theorem runs_writeTemp {name : String} :
    Runs uid t (ask (S := sys) (.writeTemp name)) (fun _ _ => True) w := by
  apply Runs.asked
  intro w' hl hi c a ha
  cases ha
  refine ⟨rfl, hi.add ?_, fun _ _ _ _ => Safe.ret fun _ _ _ => trivial⟩
  intro file hfile
  split
  · exact List.mem_cons_of_mem _ hfile
  · exact hfile

/-- A successful rename leaves a note of the file. -/
theorem runs_rename {temp target : String} {snapshot : Snapshot}
    (hw : Written uid ⟨snapshot, target⟩) (htemp : snapshotParts uid temp = none) :
    Runs uid t (ask (S := sys) (.rename temp target snapshot))
      (fun (r : Except Err Unit) w' =>
        r = .ok () → ∃ a, .note a ⟨snapshot, target⟩ ∈ w'.trace) w := by
  apply Runs.asked
  intro w' hl hi c a ha
  simp only [answer] at ha
  split at ha
  · cases ha
    refine ⟨rfl, hi, fun w'' _ _ _ => Safe.ret fun _ _ _ hr => ?_⟩
    cases hr
  · split at ha
    · cases ha
      refine ⟨rfl, hi.rename hw htemp, fun w'' _ _ htr => Safe.ret fun _ hrely _ _ => ?_⟩
      refine ⟨some t, hrely.1.later.mem ?_⟩
      rw [htr]
      exact List.mem_cons_self
    · cases ha
      refine ⟨rfl, hi, fun w'' _ _ _ => Safe.ret fun _ _ _ hr => ?_⟩
      cases hr

/-- A loop whose body keeps its own assumption. -/
theorem runs_forEach {A : World sys → Prop} {action : String → sys.Task Unit}
    (hA : ∀ w w', Later w w' → A w → A w')
    (haction : ∀ name w, A w → Runs uid t (action name) (fun _ _ => True) w)
    (names : List String) {w : World sys} (h : A w) :
    Runs uid t (forEach names action) (fun _ _ => True) w := by
  induction names generalizing w with
  | nil => exact Safe.ret fun _ _ _ => trivial
  | cons name rest ih =>
    apply Runs.seq (haction name w h)
    intro _ w' hl _ _
    exact ih (hA w w' hl h)

/-- What `pruneDirectory` compares with comes from a stored receipt. -/
def PrunesWith (uid : String) (committedFileName : Option String) (committed : Option Parts)
    (w : World sys) : Prop :=
  (committedFileName = none ∧ committed = none) ∨
    ∃ f p, committedFileName = some f ∧ committed = some p ∧ Prunes uid w.trace f p

theorem PrunesWith.later {committedFileName : Option String} {committed : Option Parts}
    {w w' : World sys} (hl : Later w w') (h : PrunesWith uid committedFileName committed w) :
    PrunesWith uid committedFileName committed w' := by
  rcases h with hnone | ⟨f, p, hf, hp, hprunes⟩
  · exact .inl hnone
  · exact .inr ⟨f, p, hf, hp, hprunes.later hl⟩

/-- The heart of the matter: only removable files are removed. -/
theorem PrunesWith.removable {committedFileName : Option String} {committed : Option Parts}
    {name : String} {parts : Parts} (h : PrunesWith uid committedFileName committed w)
    (hne : some name ≠ committedFileName) (hparts : snapshotParts uid name = some parts)
    (hobs : obsolete committed parts = true) : Removable uid w.trace name := by
  rcases h with ⟨_, rfl⟩ | ⟨f, p, rfl, rfl, n, c, hstored, hc, rfl⟩
  · cases hobs
  · intro q hq
    rw [hparts] at hq
    cases hq
    exact ⟨n, c, p, hstored, hc, PartsLt.irrefl_of_obsolete hobs,
      fun heq => hne (congrArg some heq)⟩

theorem runs_pruneSnapshot {committedFileName : Option String} {committed : Option Parts}
    (name : String) (w : World sys) (h : PrunesWith uid committedFileName committed w) :
    Runs uid t (pruneSnapshot uid committedFileName committed name) (fun _ _ => True) w := by
  unfold pruneSnapshot
  split
  · exact Safe.ret fun _ _ _ => trivial
  · rename_i hne
    split
    · exact Safe.ret fun _ _ _ => trivial
    · rename_i parts hparts
      refine Runs.seq (runs_askOr rfl trivial) ?_
      intro isFile w' hl _ _
      split
      · rename_i hcond
        rw [Bool.and_eq_true] at hcond
        exact runs_rm ((h.later hl).removable hne hparts hcond.1)
      · exact Safe.ret fun _ _ _ => trivial

theorem runs_pruneTemp (name : String) (w : World sys) :
    Runs uid t (pruneTemp uid name) (fun _ _ => True) w := by
  unfold pruneTemp
  split
  · rename_i htemp
    refine Runs.seq (runs_askOr rfl trivial) ?_
    intro isFile w' _ _ _
    refine Runs.seq (runs_ask trivial) ?_
    intro old w'' _ _ _
    split
    · exact runs_rm (.of_not_snapshot (snapshotParts_of_isTempName htemp))
    · exact Safe.ret fun _ _ _ => trivial
  · exact Safe.ret fun _ _ _ => trivial

theorem runs_pruneDirectory {committedFileName : Option String} {committed : Option Parts}
    (h : PrunesWith uid committedFileName committed w) :
    Runs uid t (pruneDirectory uid committedFileName committed) (fun _ _ => True) w := by
  unfold pruneDirectory
  refine Runs.seq (runs_ask trivial) ?_
  intro r w1 h1 _ _
  cases r with
  | error e =>
    simp only
    split
    · exact Safe.ret fun _ _ _ => trivial
    · exact Safe.fail fun _ _ _ => trivial
  | ok _ =>
    refine Runs.seq (runs_askOr rfl trivial) ?_
    intro names w2 h2 _ _
    apply Runs.seq
    · exact runs_forEach (fun _ _ => PrunesWith.later) runs_pruneSnapshot names
        (h.later (h1.trans h2))
    intro _ w3 _ _ _
    refine Runs.seq (runs_askOr rfl trivial) ?_
    intro temps w4 _ _ _
    exact runs_forEach (A := fun _ => True) (fun _ _ _ _ => trivial)
      (fun name w _ => runs_pruneTemp name w) temps trivial

/-- What a pruner may be given. -/
def MayPrune (uid : String) (committedFileName : Option String) (w : World sys) : Prop :=
  ∀ f, committedFileName = some f → ∃ p, Prunes uid w.trace f p

theorem MayPrune.later {committedFileName : Option String} {w w' : World sys}
    (h : MayPrune uid committedFileName w) (hl : Later w w') :
    MayPrune uid committedFileName w' := by
  intro f hf
  obtain ⟨p, hp⟩ := h f hf
  exact ⟨p, hp.later hl⟩

theorem runs_pruneSnapshots {committedFileName : Option String}
    (h : MayPrune uid committedFileName w) :
    Runs uid t (pruneSnapshots uid committedFileName) (fun _ _ => True) w := by
  unfold pruneSnapshots
  split
  · exact Safe.fail fun _ _ _ => trivial
  · split
    · exact runs_pruneDirectory (.inl ⟨rfl, rfl⟩)
    · rename_i f
      obtain ⟨p, hp⟩ := h f rfl
      have hparts : snapshotParts uid f = some p := by
        obtain ⟨n, c, _, hc, rfl⟩ := hp
        exact hc.1
      rw [hparts]
      exact runs_pruneDirectory (.inr ⟨f, p, rfl, rfl, hp⟩)

theorem runs_commitTemp {temp target : String} {snapshot : Snapshot}
    (hw : Written uid ⟨snapshot, target⟩) (htemp : snapshotParts uid temp = none) :
    Runs uid t (commitTemp temp target snapshot)
      (fun _ w' => ∃ a, .note a ⟨snapshot, target⟩ ∈ w'.trace) w := by
  have hclean : ∀ (e : Err) (w : World sys),
      Runs uid t (do exec (.rmForce temp) rfl; .fail e)
        (fun (_ : Unit) w' => ∃ a, .note a ⟨snapshot, target⟩ ∈ w'.trace) w := by
    intro e w
    apply Runs.seq (runs_rmForce (.of_not_snapshot htemp))
    intro _ w' _ _ _
    exact Safe.fail fun _ _ _ => trivial
  unfold commitTemp
  apply Runs.seq runs_writeTemp
  intro r w1 _ _ _
  cases r with
  | error e => exact hclean e w1
  | ok _ =>
    apply Runs.seq (runs_rename hw htemp)
    intro r w2 _ _ hnote
    cases r with
    | error e => exact hclean e w2
    | ok _ =>
      refine Safe.ret fun w3 hr _ => ?_
      obtain ⟨a, ha⟩ := hnote rfl
      exact ⟨a, hr.1.later.mem ha⟩

/-- A file name returned is one that was written for the snapshot. -/
theorem runs_writeSnapshot {snapshot : Snapshot} :
    Runs uid t (writeSnapshot uid snapshot)
      (fun f w' => ∃ a, .note a ⟨snapshot, f⟩ ∈ w'.trace) w := by
  unfold writeSnapshot
  split
  · exact Safe.fail fun _ _ _ => trivial
  refine Runs.seq (runs_exec rfl trivial) ?_
  intro _ w1 _ _ _
  refine Runs.seq (runs_askOr rfl trivial) ?_
  intro names w2 _ _ _
  split
  · exact Safe.fail fun _ _ _ => trivial
  split
  · exact Safe.fail fun _ _ _ => trivial
  rename_i hvalid
  simp only [not_or, not_lt, ne_eq, not_not] at hvalid
  obtain ⟨huid, hpos, hsafe⟩ := hvalid
  refine Runs.seq (runs_ask trivial) ?_
  intro uuid w3 _ _ _
  refine Runs.seq (runs_ask trivial) ?_
  intro tempUuid w4 _ _ _
  apply Runs.seq (runs_commitTemp ⟨huid, hpos, hsafe, uuid, rfl⟩ (snapshotParts_tempName uid _))
  intro _ w5 _ _ hnote
  refine Runs.seq (runs_exec rfl trivial) ?_
  intro _ w6 hl _ _
  refine Safe.ret fun w7 hr _ => ?_
  obtain ⟨a, ha⟩ := hnote
  exact ⟨a, (hl.trans hr.1.later).mem ha⟩

/-! ### The client -/

theorem runs_pruneRetainedHistory {fileName : Option String} (h : MayPrune uid fileName w) :
    Runs uid t (pruneRetainedHistory uid fileName) (fun _ _ => True) w := by
  unfold pruneRetainedHistory
  split
  · exact Safe.fail fun _ _ _ => trivial
  refine Runs.seq (runs_exec rfl trivial) ?_
  intro _ w1 hl _ _
  apply Runs.seq (runs_pruneSnapshots (h.later hl))
  intro _ w2 _ _ _
  exact runs_exec rfl trivial

theorem runs_writeRetainedHistory {snapshot : Snapshot} :
    Runs uid t (writeRetainedHistory uid snapshot)
      (fun f w' => Publishable uid w'.trace snapshot f) w := by
  unfold writeRetainedHistory
  refine Runs.seq (runs_exec rfl trivial) ?_
  intro _ w1 _ _ _
  apply Runs.seq runs_writeSnapshot
  intro f w2 _ _ hnote
  refine Runs.seq (runs_exec rfl trivial) ?_
  intro _ w3 hl _ _
  split
  · rename_i hname
    refine Safe.ret fun w4 hr _ => ⟨hname, ?_⟩
    obtain ⟨a, ha⟩ := hnote
    exact ⟨a, (hl.trans hr.1.later).mem ha⟩
  · exact Safe.fail fun _ _ _ => trivial

/-! ### Receipts -/

/-- A stored receipt may guide a pruner. -/
theorem Inv.mayPrune {n : Nat} {r : Receipt} (hi : Inv uid w)
    (hs : Stored w.trace n (.receipt uid) r) : MayPrune uid (some r.fileName) w := by
  intro f hf
  cases hf
  obtain ⟨p, hp⟩ := DirectoryOk.history hi |>.committed hs
  exact ⟨p, n, r, hs, hp, rfl⟩

/-- A write of a publishable receipt newer than the one in place. -/
theorem runs_put {snapshot : Snapshot} {f : String}
    (h : Publishable uid w.trace snapshot f) (hi : Inv uid w)
    (hnewer : ∀ m cur, lookup (.receipt uid) w.trace = some (m, cur) →
      Newer cur (receiptOf snapshot f))
    {e : Entry sys.Key sys.Val sys.Note}
    (hputs : e.puts (.receipt uid) = some (receiptOf snapshot f)) :
    (protocol uid).Keeps t w (w.push e) := by
  obtain ⟨hname, a, hn⟩ := h
  exact ⟨DirectoryOk.put hi hn hname hnewer hputs, fun _ _ _ => trivial⟩

theorem runs_publishAttempts {snapshot : Snapshot} {f : String} (attempts : Nat)
    (h : Publishable uid w.trace snapshot f) (huid : snapshot.workspaceUid = uid) :
    Runs uid t (publishAttempts (receiptOf snapshot f) attempts)
      (fun r w' => StoredDuring uid w w' r) w := by
  subst huid
  induction attempts generalizing w with
  | zero => exact Safe.fail fun _ _ _ => trivial
  | succ attempts ih =>
    have hretry : ∀ {w'}, Later w w' →
        Runs snapshot.workspaceUid t (publishAttempts (receiptOf snapshot f) attempts)
          (fun r w'' => StoredDuring snapshot.workspaceUid w w'' r) w' := fun hl =>
      (ih (h.later hl)).mono (fun _ _ hr => hr.earlier hl) fun _ _ _ => trivial
    -- what either write ends with
    have hwritten : ∀ {w' e}, Later w w' →
        Entry.puts (.receipt snapshot.workspaceUid) e = some (receiptOf snapshot f) →
        Runs snapshot.workspaceUid t (.ret (receiptOf snapshot f))
          (fun r w'' => StoredDuring snapshot.workspaceUid w w'' r) (w'.push e) := by
      intro w' e hl hputs
      refine Safe.ret fun w'' hr _ => ?_
      refine During.later (.now (hl.trans (w'.later_push e)) ⟨w'.trace.length, ?_⟩) hr.1.later
      simp [lookup, Entry.key_of_puts hputs, hputs]
    have hrefused : ∀ {w'} (e : StoreErr), Later w w' →
        Runs snapshot.workspaceUid t
          (if attempts = 0 ∨ Err.store e ≠ .store .conflict then .fail (.store e)
            else publishAttempts (receiptOf snapshot f) attempts)
          (fun r w'' => StoredDuring snapshot.workspaceUid w w'' r) w' := by
      intro w' e hl
      split
      · exact Safe.fail fun _ _ _ => trivial
      · exact hretry hl
    unfold publishAttempts
    refine Safe.await_get (fun w1 hr1 hi1 => ?_) fun _ _ => trivial
    have hl1 := hr1.1.later
    cases hlook : lookup (.receipt (receiptOf snapshot f).workspaceUid) w1.trace with
    | none =>
      refine Safe.create fun w2 hr2 hi2 => ?_
      have hl2 := hl1.trans hr2.1.later
      refine ⟨fun hnone => ⟨?_, ?_, hrefused _ (hl2.trans (w2.later_push _))⟩,
        fun _ _ => hrefused _ hl2, hrefused _ hl2⟩
      · refine runs_put (h.later hl2) hi2 ?_ (Entry.puts_create_self _ _ _)
        intro m cur hcur
        cases hnone.symm.trans hcur
      · exact hwritten hl2 (Entry.puts_create_self _ _ _)
    | some p =>
      obtain ⟨version, current⟩ := p
      simp only
      split
      · exact Safe.fail fun _ _ _ => trivial
      split
      · exact Safe.fail fun _ _ _ => trivial
      split
      · exact Safe.ret fun w2 hr2 _ => During.later (.now hl1 ⟨version, hlook⟩) hr2.1.later
      rename_i hsup
      refine Safe.update fun w2 hr2 hi2 => ?_
      have hl2 := hl1.trans hr2.1.later
      refine ⟨fun old hold => ⟨?_, ?_, hrefused _ (hl2.trans (w2.later_push _))⟩,
        fun _ => hrefused _ hl2⟩
      · -- the version read is still current, so the receipt compared is the one replaced
        have hsame := (hr2.1.later.stored (lookup_stored hlook)).eq_of_lookup hold
        refine runs_put (h.later hl2) hi2 ?_ (Entry.puts_update_self _ _ _)
        intro m cur hcur
        cases hold.symm.trans hcur
        rw [← hsame]
        exact newer_of_not_supersedes (by simpa using hsup)
      · exact hwritten hl2 (Entry.puts_update_self _ _ _)

theorem runs_publish {snapshot : Snapshot} {f : String}
    (h : Publishable uid w.trace snapshot f) (huid : snapshot.workspaceUid = uid) :
    Runs uid t (publishRetainedHistoryReceipt snapshot f)
      (fun r w' => StoredDuring uid w w' r) w := by
  unfold publishRetainedHistoryReceipt
  simp only
  split
  · exact runs_publishAttempts 4 h huid
  · exact Safe.fail fun _ _ _ => trivial

theorem runs_latest {workspace : Workspace} (huid : workspace.metadata.uid = some uid) :
    Runs uid t (latestRetainedHistoryReceipt workspace)
      (fun previous w' => MayPrune uid (previous.map Receipt.fileName) w') w := by
  have hnone : ∀ w, Runs uid t (.ret none)
      (fun previous w' => MayPrune uid (previous.map Receipt.fileName) w') w :=
    fun w => Safe.ret fun _ _ _ f hf => by cases hf
  unfold latestRetainedHistoryReceipt
  rw [huid]
  refine Safe.await_get (fun w1 hr1 hi1 => ?_) fun _ _ => trivial
  cases hlook : lookup (.receipt uid) w1.trace with
  | none => exact hnone w1
  | some p =>
    obtain ⟨version, receipt⟩ := p
    simp only
    split
    · exact Safe.fail fun _ _ _ => trivial
    split
    · refine Safe.ret fun w2 hr2 _ => ?_
      exact (Inv.mayPrune hi1 (lookup_stored hlook)).later hr2.1.later
    · exact hnone w1

/-! ### Capture -/

theorem StoredDuring.stored {start : World sys} {r : Receipt} (h : StoredDuring uid start w r) :
    ∃ n, Stored w.trace n (.receipt uid) r := by
  obtain ⟨tr, _, ⟨new, htr⟩, n, hlook⟩ := h
  refine ⟨n, ?_⟩
  rw [← htr]
  exact (lookup_stored hlook).mono new

theorem runs_commitSnapshot {workspace : Workspace} {snapshot : Snapshot}
    (hws : workspace.metadata.uid = some uid) (huid : snapshot.workspaceUid = uid) :
    Runs uid t (commitSnapshot workspace uid snapshot)
      (fun r w' => StoredDuring uid w w' r) w := by
  unfold commitSnapshot
  apply Runs.seq (runs_latest hws)
  intro previous w1 h1 _ hprevious
  apply Runs.seq (runs_pruneRetainedHistory hprevious)
  intro _ w2 h2 _ _
  apply Runs.seq runs_writeRetainedHistory
  intro f w3 h3 _ hpublishable
  apply Runs.seq (runs_publish hpublishable huid)
  intro committed w4 h4 hi4 hcommitted
  obtain ⟨n, hstored⟩ := hcommitted.stored
  have hprune : Runs uid t (pruneRetainedHistory uid (some committed.fileName)).attempt
      (fun _ _ => True) w4 :=
    Safe.attempt (runs_pruneRetainedHistory (Inv.mayPrune hi4 hstored))
  apply Runs.seq hprune
  intro _ w5 h5 _ _
  refine Safe.ret fun w6 hr _ => ?_
  have hfrom := hcommitted.earlier (h1.trans (h2.trans h3))
  exact hfrom.later (h5.trans hr.1.later)

theorem runs_retainHistory {workspace : Workspace} {expectedGeneration : Option Nat}
    (hws : workspace.metadata.uid = some uid) :
    Runs uid t (retainHistory workspace expectedGeneration)
      (fun r w' => ∀ receipt, r = some receipt → StoredDuring uid w w' receipt) w := by
  unfold retainHistory
  refine Runs.seq (runs_askOr rfl trivial) ?_
  intro supported w1 h1 _ _
  split
  · exact Safe.ret fun _ _ _ _ h => by cases h
  rw [hws]
  refine Runs.seq (runs_askOr rfl trivial) ?_
  intro captured w2 h2 _ _
  apply Runs.seq (runs_commitSnapshot hws rfl)
  intro committed w3 h3 _ hcommitted
  refine Safe.ret fun w4 hr _ => ?_
  intro receipt hreceipt
  cases hreceipt
  exact (hcommitted.earlier (h1.trans h2)).later hr.1.later

end Directory

/-! ### Every run -/

theorem sound (uid : String) : (protocol uid).Sound where
  init := by
    constructor
    · trivial
    · intro a n hn
      cases hn
    · intro n r hr
      cases hr
    · intro a n hn
      cases hn
  start := by
    intro w p c hi hentry
    refine ⟨hi, fun _ _ => trivial, ?_⟩
    change Pre uid c (w.spawn p c)
    cases c with
    | retainHistory workspace expectedGeneration =>
      exact beq_iff_eq.mp hentry
    | prune committedFileName =>
      cases committedFileName with
      | none => trivial
      | some f =>
        obtain ⟨e, he, hname⟩ := List.any_eq_true.mp hentry
        split at hname
        · rename_i r hputs
          obtain ⟨n, hstored⟩ := stored_of_mem he hputs
          obtain ⟨q, hq⟩ := DirectoryOk.history hi |>.committed hstored
          exact ⟨q, n, r, hstored, hq, beq_iff_eq.mp hname⟩
        · cases hname
    | write snapshot => trivial
    | publish snapshot f =>
      obtain ⟨hname, hwritten⟩ := Bool.and_eq_true_iff.mp hentry
      obtain ⟨e, he, hnote⟩ := List.any_eq_true.mp hwritten
      refine ⟨hname, ?_⟩
      split at hnote
      · rename_i a n
        rw [beq_iff_eq.mp hnote] at he
        exact ⟨a, he⟩
      · cases hnote
  crash := fun _ hi => ⟨hi, fun _ _ => trivial⟩
  env := fun {_ e} => e.elim
  body := by
    intro w t c hi hpre _ _ _
    change Runs uid t (program uid c) (Post uid w) w
    cases c with
    | retainHistory workspace expectedGeneration =>
      apply Runs.seq (runs_retainHistory hpre)
      intro r w1 _ _ hr
      refine Safe.ret fun w2 hr2 _ => ?_
      cases r with
      | none => trivial
      | some receipt => exact (hr receipt rfl).later hr2.1.later
    | prune committedFileName =>
      have hmay : MayPrune uid committedFileName w := by
        rintro f rfl
        exact hpre
      apply Runs.seq (runs_pruneSnapshots hmay)
      intro _ w1 _ _ _
      exact Safe.ret fun _ _ _ => trivial
    | write snapshot =>
      apply Runs.seq runs_writeSnapshot
      intro f w1 _ _ _
      exact Safe.ret fun _ _ _ => trivial
    | publish snapshot f =>
      have huid : snapshot.workspaceUid = uid := by
        obtain ⟨_, a, hn⟩ := hpre
        exact (DirectoryOk.notes hi a _ hn).1
      apply Runs.seq (runs_publish hpre huid)
      intro r w1 _ _ hr
      exact Safe.ret fun w2 hr2 _ => hr.later hr2.1.later

/-- What holds of the receipt and its file in a reachable configuration. -/
structure HistoryKept (uid : String) (c : (machine uid).Config) : Prop where
  /-- the receipt in place is any earlier one or newer -/
  newest : ∀ n r, Stored c.world.trace n (.receipt uid) r →
    ∃ m r', lookup (.receipt uid) c.world.trace = some (m, r') ∧ (r' = r ∨ Newer r r')
  file : ∀ n r, lookup (.receipt uid) c.world.trace = some (n, r) → r.fileName ∈ c.world.glob
  /-- `publishRetainedHistoryReceipt` returns a receipt that was in place during the call -/
  published : ∀ u th snapshot f r, c.threads u = some th → th.call = .publish snapshot f →
    th.prog = .ret (.published r) → StoredDuring uid th.start c.world r
  retained : ∀ u th workspace expectedGeneration r, c.threads u = some th →
    th.call = .retainHistory workspace expectedGeneration →
    th.prog = .ret (.retained (some r)) → StoredDuring uid th.start c.world r

theorem retained_history_kept (uid : String) (c : (machine uid).Config)
    (h : (machine uid).Reachable c) : HistoryKept uid c := by
  have hholds := (sound uid).reachable h
  have hinv : DirectoryOk uid c.world.trace c.world.glob := hholds.inv
  constructor
  · exact fun n r hs => hinv.history.current hs
  · exact hinv.present
  · intro u th snapshot f r hth _ hret
    exact hholds.returned hth hret
  · intro u th workspace expectedGeneration r hth _ hret
    exact hholds.returned hth hret

/-! ### Two captures in a row -/

def demoUid : String := "0b0e7a52-3c1d-4f6a-9b8e-5d2f1c7a9e04"

def demoWorkspace : Workspace where
  metadata := { name := "ws", uid := some demoUid, generation := some 3 }
  spec := { projectRef := "p", displayName := "d", credentialProfile := "c" }

/-- The file of the capture at the millisecond `ms`. -/
def demoFile (ms : Int) : String := snapshotName demoUid 3 ms demoUid

def demoAsk (i : Nat) (clock : Int) (files : List String) : (machine demoUid).Move :=
  .run ⟨0, i⟩ (.ext { clock := clock, uuid := demoUid, listing := files })

def demoStore (i : Nat) : (machine demoUid).Move := .run ⟨0, i⟩ (.store {})

/-- One capture flow at `clock` that finds `before` in the directory and removes
    `stale` of it. -/
def demoFlow (i : Nat) (clock : Int) (before : List String) (stale : Nat) :
    List (machine demoUid).Move :=
  let written := demoFile clock :: before
  [.start 0 (.retainHistory demoWorkspace none), demoAsk i clock [], demoAsk i clock [],
    demoStore i] ++
  List.replicate 12 (demoAsk i clock before) ++ List.replicate 2 (demoAsk i clock []) ++
  [demoStore i, demoStore i] ++ List.replicate 3 (demoAsk i clock written) ++
  List.replicate (2 * stale) (demoAsk i clock []) ++
  List.replicate 2 (demoAsk i clock [demoFile clock])

/-- The second capture prunes the file of the first. -/
theorem retained_history_kept_demo : ∃ c : (machine demoUid).Config,
    (machine demoUid).initial.moves (demoFlow 0 1000 [] 0 ++ demoFlow 1 2000 [demoFile 1000] 1)
      = some c ∧ c.world.glob = [demoFile 2000] ∧ HistoryKept demoUid c := by
  have hfiles : ((machine demoUid).initial.moves
      (demoFlow 0 1000 [] 0 ++ demoFlow 1 2000 [demoFile 1000] 1)).bind
        (fun c => some c.world.glob) = some [demoFile 2000] := by decide +kernel
  obtain ⟨c, hc, hglob⟩ := Option.bind_eq_some_iff.mp hfiles
  exact ⟨c, hc, Option.some.inj hglob,
    retained_history_kept demoUid c (Machine.Reachable.init.moves hc)⟩

end PaseoGateway.RetainedHistory
