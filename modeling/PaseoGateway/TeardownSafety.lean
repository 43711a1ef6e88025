/-
  PaseoGateway/TeardownSafety.lean
  ================================
  **Teardown hooks are started at most once.**

  Every entry of the history is a step of one law (`Step`).  The intent file is
  created once and never removed, so one call at most is claimed for the volume
  (`Facts.claimed_unique`), and only a claimed call starts hooks: those of the
  configuration it read, one after the other, each after the one before it exited
  with status 0.  The completion marker is put in place by the claimed call after its
  last hook, and nothing takes it away.
-/
import PaseoGateway.LegalHistory
import PaseoGateway.Teardown

namespace PaseoGateway.Teardown

open Async Volume

abbrev History := Trace sys.Key sys.Val sys.Note

/-! ### What a call has noted -/

/-- The hooks started, oldest first. -/
def startsOf : List Note → List String
  | [] => []
  | .hookStarted command :: older => startsOf older ++ [command]
  | _ :: older => startsOf older

/-- The hooks that exited with their exit codes, oldest first. -/
def exitsOf : List Note → List (String × Option Int)
  | [] => []
  | .hookExited command code :: older => exitsOf older ++ [(command, code)]
  | _ :: older => exitsOf older

/-- The call created or wrote the intent file. -/
def Claimed (notes : List Note) : Prop := ∃ text, .file (.put .started text) ∈ notes

/-- The call has not read `paseo.json` yet. -/
def Unread (notes : List Note) : Prop := ∀ r, .config r ∉ notes

section

variable (parseJson : String → Option Json)

/-- The hooks configured in the `paseo.json` that was read. -/
def configured : Except String String → Option (List String)
  | .error code => if code = "ENOENT" then some [] else none
  | .ok text => (parseJson text).bind fun config => (hooks config).toOption

/-- The hooks the call has to run, from what it read in `paseo.json`. -/
def planOf : List Note → Option (List String)
  | [] => none
  | .config r :: _ => configured parseJson r
  | _ :: older => planOf older

/-- The hooks of the plan each exited with status 0. -/
def Finished (notes : List Note) : Prop :=
  ∃ commands, planOf parseJson notes = some commands ∧
    exitsOf notes = commands.map fun command => (command, some 0)

/-! ### The law of the history -/

inductive Step (older : History) : Entry sys.Key sys.Val sys.Note → Prop where
  | others {effect : Effect Path String} (h : effect.touches.any Path.marker = false) :
      Step older (.note none (.file effect))
  | claim {t : Tid} {text : String} (h : read .started (files older) = none) :
      Step older (.note (some t) (.file (.put .started text)))
  | write {t : Tid} {text : String} (h : Claimed (notesOf t older)) :
      Step older (.note (some t) (.file (.put .started text)))
  | tmp {t : Tid} {text : String} : Step older (.note (some t) (.file (.put .completeTmp text)))
  | complete {t : Tid} (h : Finished parseJson (notesOf t older))
      (hsrc : (read .completeTmp (files older)).isSome) :
      Step older (.note (some t) (.file (.rename .completeTmp .complete)))
  | config {t : Tid} {r : Except String String} (h : Unread (notesOf t older)) :
      Step older (.note (some t) (.config r))
  | hook {t : Tid} {command : String} {commands : List String}
      (hclaimed : Claimed (notesOf t older))
      (hplan : planOf parseJson (notesOf t older) = some commands)
      (hnext : startsOf (notesOf t older) ++ [command] <+: commands) :
      Step older (.note (some t) (.hookStarted command))
  | exited {t : Tid} {command : String} {code : Option Int}
      (h : startsOf (notesOf t older) =
        (exitsOf (notesOf t older)).map Prod.fst ++ [command]) :
      Step older (.note (some t) (.hookExited command code))

def law : Law sys where
  step := fun _ older e => Step parseJson older e
  mono := fun _ h => h

end

@[simp] theorem files_nil : files ([] : History) = [] := rfl

@[simp] theorem files_notes (a : Option Tid) (effects : List (Effect Path String))
    (older : History) :
    files (effects.map (fun e => .note a (.file e)) ++ older) = effects ++ files older := by
  induction effects with
  | nil => rfl
  | cons e effects ih => simp [files, ih]

variable {parseJson : String → Option Json} {older tr : History} {t u : Tid}
variable {calls : Calls sys}

/-! ### Marker files stay -/

/-- No step takes a marker file away. -/
theorem Step.keeps {e : Entry sys.Key sys.Val sys.Note} {path : Path}
    (hmarker : path.marker = true) (h : Step parseJson older e)
    (hthere : present path (files older) = true) : present path (files (e :: older)) = true := by
  cases h with
  | @others effect htouch =>
    refine exists_of_kept ?_ hthere
    cases effect with
    | put p c => trivial
    | rename s d =>
      simp only [Effect.touches, List.any_cons, List.any_nil, Bool.or_false,
        Bool.or_eq_false_iff] at htouch
      refine ⟨?_, ?_⟩
      · rintro rfl
        simp [hmarker] at htouch
      · rintro rfl
        simp [hmarker] at htouch
    | unlink p =>
      simp only [Effect.touches, List.any_cons, List.any_nil, Bool.or_false] at htouch
      rintro rfl
      simp [hmarker] at htouch
  | claim _ => exact exists_of_kept trivial hthere
  | write _ => exact exists_of_kept trivial hthere
  | tmp => exact exists_of_kept trivial hthere
  | complete _ hsrc =>
    refine exists_of_kept ⟨?_, fun _ => hsrc⟩ hthere
    rintro rfl
    cases hmarker
  | config _ => exact hthere
  | hook _ _ _ => exact hthere
  | exited _ => exact hthere

theorem present_mono {path : Path} (hmarker : path.marker = true) {new : History}
    (h : (law parseJson).Legal calls (new ++ older))
    (hthere : present path (files older) = true) :
    present path (files (new ++ older)) = true := by
  induction new with
  | nil => exact hthere
  | cons e new ih => exact Step.keeps hmarker h.2 (ih h.1)

/-! ### What a legal history says -/

structure Facts (parseJson : String → Option Json) (tr : History) : Prop where
  claimed_present : ∀ t, Claimed (notesOf t tr) → present .started (files tr) = true
  claimed_unique : ∀ t u, Claimed (notesOf t tr) → Claimed (notesOf u tr) → t = u
  hooks : ∀ t, startsOf (notesOf t tr) ≠ [] → Claimed (notesOf t tr) ∧
    ∃ commands, planOf parseJson (notesOf t tr) = some commands ∧
      startsOf (notesOf t tr) <+: commands
  complete : present .complete (files tr) = true →
    ∃ t, Finished parseJson (notesOf t tr)

section Notes

variable {a : Option Tid} {n : Note}

theorem notesOf_note (t : Tid) (a : Option Tid) (n : Note) (older : History) :
    notesOf t (.note a n :: older) = if a = some t then n :: notesOf t older
      else notesOf t older := rfl

theorem notesOf_other (h : a ≠ some t) :
    notesOf t (.note a n :: older : History) = notesOf t older := by
  rw [notesOf_note, if_neg h]

theorem notesOf_self : notesOf t (.note (some t) n :: older : History) = n :: notesOf t older := by
  rw [notesOf_note, if_pos rfl]

theorem Claimed.cons (h : Claimed (notesOf t older)) :
    Claimed (notesOf t (.note a n :: older)) := by
  obtain ⟨text, hmem⟩ := h
  refine ⟨text, ?_⟩
  rw [notesOf_note]
  by_cases ha : a = some t
  · rw [if_pos ha]
    exact List.mem_cons_of_mem _ hmem
  · rw [if_neg ha]
    exact hmem

/-- A call newly claimed has just put the intent file. -/
theorem Claimed.of_cons (h : Claimed (notesOf t (.note a n :: older))) :
    Claimed (notesOf t older) ∨ (a = some t ∧ ∃ text, n = .file (.put .started text)) := by
  obtain ⟨text, hmem⟩ := h
  rw [notesOf_note] at hmem
  by_cases ha : a = some t
  · rw [if_pos ha] at hmem
    rcases List.mem_cons.mp hmem with heq | hold
    · exact .inr ⟨ha, text, heq.symm⟩
    · exact .inl ⟨text, hold⟩
  · rw [if_neg ha] at hmem
    exact .inl ⟨text, hmem⟩

end Notes

theorem Facts.claimed (hf : Facts parseJson older) {e : Entry sys.Key sys.Val sys.Note}
    (h : Step parseJson older e) :
    (∀ t, Claimed (notesOf t (e :: older)) → present .started (files (e :: older)) = true) ∧
      ∀ t u, Claimed (notesOf t (e :: older)) → Claimed (notesOf u (e :: older)) → t = u := by
  -- a call that is claimed now was so before, or has just created the intent
  have hsplit : ∀ t, Claimed (notesOf t (e :: older)) → Claimed (notesOf t older) ∨
      ∃ text, e = .note (some t) (.file (.put .started text)) := by
    intro t ht
    cases e with
    | create a k v => cases k
    | update a k v => cases k
    | delete a k => cases k
    | note a n =>
      rcases ht.of_cons with hold | ⟨rfl, text, rfl⟩
      · exact .inl hold
      · exact .inr ⟨text, rfl⟩
  refine ⟨?_, ?_⟩
  · intro t ht
    rcases hsplit t ht with hold | ⟨text, rfl⟩
    · exact h.keeps rfl (hf.claimed_present t hold)
    · simp [files, present]
  · intro t u ht hu
    rcases hsplit t ht with holdt | ⟨text, rfl⟩
    · rcases hsplit u hu with holdu | ⟨text', rfl⟩
      · exact hf.claimed_unique t u holdt holdu
      · cases h with
        | claim hnone =>
          have := hf.claimed_present t holdt
          rw [present, hnone] at this
          cases this
        | write hclaimed => exact hf.claimed_unique t u holdt hclaimed
    · rcases hsplit u hu with holdu | ⟨text', heq⟩
      · cases h with
        | claim hnone =>
          have := hf.claimed_present u holdu
          rw [present, hnone] at this
          cases this
        | write hclaimed => exact hf.claimed_unique t u hclaimed holdu
      · cases heq
        rfl

theorem planOf_cons_of_unread {n : Note} {notes : List Note} (h : ∀ r, n ≠ .config r) :
    planOf parseJson (n :: notes) = planOf parseJson notes := by
  cases n with
  | config r => exact absurd rfl (h r)
  | file e => rfl
  | hookStarted c => rfl
  | hookExited c code => rfl

theorem planOf_of_unread {notes : List Note} (h : Unread notes) :
    planOf parseJson notes = none := by
  induction notes with
  | nil => rfl
  | cons n notes ih =>
    rw [planOf_cons_of_unread]
    · exact ih fun r hr => h r (List.mem_cons_of_mem _ hr)
    · rintro r rfl
      exact h r List.mem_cons_self

/-- Hooks that were started stay within the plan of their call. -/
theorem Facts.within (hf : Facts parseJson older) {e : Entry sys.Key sys.Val sys.Note}
    (h : Step parseJson older e) (t : Tid) (hs : startsOf (notesOf t (e :: older)) ≠ []) :
    Claimed (notesOf t (e :: older)) ∧
      ∃ commands, planOf parseJson (notesOf t (e :: older)) = some commands ∧
        startsOf (notesOf t (e :: older)) <+: commands := by
  cases e with
  | create a k v => cases k
  | update a k v => cases k
  | delete a k => cases k
  | note a n =>
    by_cases ha : a = some t
    · subst ha
      rw [notesOf_self] at hs ⊢
      cases h with
      | claim hnone =>
        obtain ⟨hclaimed, hplan⟩ := hf.hooks t hs
        exact ⟨⟨_, List.mem_cons_self⟩, hplan⟩
      | write hclaimed =>
        obtain ⟨-, hplan⟩ := hf.hooks t hs
        exact ⟨⟨_, List.mem_cons_self⟩, hplan⟩
      | tmp =>
        obtain ⟨⟨text, hmem⟩, hplan⟩ := hf.hooks t hs
        exact ⟨⟨text, List.mem_cons_of_mem _ hmem⟩, hplan⟩
      | complete _ _ =>
        obtain ⟨⟨text, hmem⟩, hplan⟩ := hf.hooks t hs
        exact ⟨⟨text, List.mem_cons_of_mem _ hmem⟩, hplan⟩
      | config hunread =>
        -- hooks are started only after the configuration was read
        obtain ⟨-, commands, hplan, -⟩ := hf.hooks t hs
        rw [planOf_of_unread hunread] at hplan
        cases hplan
      | hook hclaimed hplan hnext =>
        obtain ⟨text, hmem⟩ := hclaimed
        exact ⟨⟨text, List.mem_cons_of_mem _ hmem⟩, _, hplan, hnext⟩
      | exited _ =>
        obtain ⟨⟨text, hmem⟩, hplan⟩ := hf.hooks t hs
        exact ⟨⟨text, List.mem_cons_of_mem _ hmem⟩, hplan⟩
    · rw [notesOf_other ha] at hs ⊢
      exact hf.hooks t hs

/-- A call whose hooks have all exited stays so. -/
theorem Facts.finished (hf : Facts parseJson older) {e : Entry sys.Key sys.Val sys.Note}
    (h : Step parseJson older e) {t : Tid} (ht : Finished parseJson (notesOf t older)) :
    Finished parseJson (notesOf t (e :: older)) := by
  cases e with
  | create a k v => cases k
  | update a k v => cases k
  | delete a k => cases k
  | note a n =>
    by_cases ha : a = some t
    · subst ha
      rw [notesOf_self]
      obtain ⟨commands, hplan, hexits⟩ := ht
      cases h with
      | claim _ => exact ⟨commands, hplan, hexits⟩
      | write _ => exact ⟨commands, hplan, hexits⟩
      | tmp => exact ⟨commands, hplan, hexits⟩
      | complete _ _ => exact ⟨commands, hplan, hexits⟩
      | config hunread =>
        rw [planOf_of_unread hunread] at hplan
        cases hplan
      | hook _ _ _ => exact ⟨commands, hplan, hexits⟩
      | exited hrunning =>
        -- all of the plan has exited, so a running hook would exceed the plan
        have hne : startsOf (notesOf t older) ≠ [] := by
          rw [hrunning]
          simp
        obtain ⟨-, commands', hplan', hwithin⟩ := hf.hooks t hne
        rw [hplan] at hplan'
        cases hplan'
        have hlen := hwithin.length_le
        rw [hrunning, hexits] at hlen
        simp at hlen
    · rw [notesOf_other ha]
      exact ht

/-- The completion marker appears by the rename of a call that has finished. -/
theorem Facts.completed (hf : Facts parseJson older) {e : Entry sys.Key sys.Val sys.Note}
    (h : Step parseJson older e) (hthere : present .complete (files (e :: older)) = true) :
    ∃ t, Finished parseJson (notesOf t (e :: older)) := by
  have hcarry : present .complete (files older) = true →
      ∃ t, Finished parseJson (notesOf t (e :: older)) := by
    intro hold
    obtain ⟨t, ht⟩ := hf.complete hold
    exact ⟨t, hf.finished h ht⟩
  cases h with
  | @others effect htouch =>
    apply hcarry
    have hnot : Path.complete ∉ effect.touches := by
      intro hmem
      have := List.any_eq_true.mpr ⟨_, hmem, (rfl : Path.marker .complete = true)⟩
      rw [htouch] at this
      cases this
    rw [present, files, read_of_not_touched hnot] at hthere
    exact hthere
  | claim _ =>
    rw [present, files, read_put_ne (by decide)] at hthere
    exact hcarry hthere
  | write _ =>
    rw [present, files, read_put_ne (by decide)] at hthere
    exact hcarry hthere
  | tmp =>
    rw [present, files, read_put_ne (by decide)] at hthere
    exact hcarry hthere
  | @complete t hfinished hsrc => exact ⟨t, hf.finished (.complete hfinished hsrc) hfinished⟩
  | config _ => exact hcarry hthere
  | hook _ _ _ => exact hcarry hthere
  | exited _ => exact hcarry hthere

theorem Legal.facts (h : (law parseJson).Legal calls tr) : Facts parseJson tr := by
  induction tr with
  | nil =>
    refine ⟨?_, ?_, ?_, ?_⟩
    · rintro t ⟨text, hmem⟩
      cases hmem
    · rintro t u ⟨text, hmem⟩
      cases hmem
    · intro t hs
      exact absurd rfl hs
    · intro hthere
      cases hthere
  | cons e older ih =>
    have hf := ih h.1
    obtain ⟨hpresent, hunique⟩ := hf.claimed h.2
    exact ⟨hpresent, hunique, hf.within h.2, hf.completed h.2⟩

/-! ### Every process keeps the law -/

/-- A call whose own notes satisfy `F` may run `p`, and returns with notes in `G`. -/
def Runs (parseJson : String → Option Json) (t : Tid) {α : Type} (p : sys.Task α)
    (F : List Note → Prop) (G : α → List Note → Prop) : Prop :=
  ∀ w, (law parseJson).Inv w → F (notesOf t w.trace) →
    (law parseJson).Obeys (machine parseJson) t p (fun a w' => G a (notesOf t w'.trace)) w

namespace Runs

variable {α β : Type} {p : sys.Task α} {F F' : List Note → Prop} {G : α → List Note → Prop}

theorem bind {f : α → sys.Task β} {H : β → List Note → Prop} (h : Runs parseJson t p F G)
    (hf : ∀ a, Runs parseJson t (f a) (G a) H) : Runs parseJson t (p >>= f) F H := by
  intro w hi hF
  apply Law.Obeys.seq (h w hi hF)
  exact fun a w' _ hi' hG => hf a w' hi' hG

theorem ret {a : α} (h : ∀ notes, F notes → G a notes) :
    Runs parseJson t (.ret a : sys.Task α) F G := by
  intro w _ hF
  refine Safe.ret fun w' hr _ => ?_
  rw [hr.1.notesOf_eq]
  exact h _ hF

theorem fail {e : Err} : Runs parseJson t (.fail e : sys.Task α) F G :=
  fun _ _ _ => Law.Obeys.fail

theorem weaken (h : Runs parseJson t p F G) (hF : ∀ notes, F' notes → F notes) :
    Runs parseJson t p F' G :=
  fun w hi hF' => h w hi (hF _ hF')

end Runs

/-- The request is answered with notes that are legal and lead from `F` to `G`. -/
theorem runs_ask {x : Ext} {F : List Note → Prop} {G : ExtRes x → List Note → Prop}
    (h : ∀ c w a, (law parseJson).Inv w → F (notesOf t w.trace) → answer c t x w = some a →
      (law parseJson).Legal w.calls (a.notes.map (.note (some t)) ++ w.trace) ∧
        G a.res (a.notes ++ notesOf t w.trace)) :
    Runs parseJson t (ask (S := sys) x) F G := by
  intro w hi hF
  refine Law.Obeys.ext fun w1 c a hg hi1 ha => ?_
  rw [← hg.notesOf_eq] at hF
  obtain ⟨hlegal, hG⟩ := h c w1 a hi1 hF ha
  refine ⟨hlegal, Safe.ret fun w2 hr _ => ?_⟩
  rw [hr.1.notesOf_eq, World.spawnAll_trace, World.answered_trace, notesOf_own]
  exact hG

theorem runs_orThrow {α : Type} {r : Except String α} {F : List Note → Prop}
    {G : α → List Note → Prop} (h : ∀ a notes, r = .ok a → F notes → G a notes) :
    Runs parseJson t (orThrow r) F G := by
  cases r with
  | ok a => exact Runs.ret fun notes hF => h a notes rfl hF
  | error code => exact Runs.fail

/-- A request without notes changes nothing of what the call knows. -/
theorem runs_settle {F : List Note → Prop} : Runs parseJson t settle F fun _ => F := by
  unfold settle
  apply Runs.bind (G := fun _ => F)
  · refine runs_ask fun c w a hi hF ha => ?_
    cases ha
    exact ⟨hi.legal, hF⟩
  · exact fun r => runs_orThrow fun _ _ _ hF => hF

theorem runs_now {F : List Note → Prop} :
    Runs parseJson t (ask (S := sys) .now) F fun _ => F := by
  refine runs_ask fun c w a hi hF ha => ?_
  cases ha
  exact ⟨hi.legal, hF⟩

/-- A request to the volume whose effects are legal, one after the other. -/
theorem runs_fs {op : Op Path String} {F : List Note → Prop} {G : List Note → Prop}
    (h : ∀ f w r effects, (law parseJson).Inv w → F (notesOf t w.trace) →
      serve f (files w.trace) op = some (r, effects) →
      (law parseJson).Legal w.calls (effects.map (fun e => .note (some t) (.file e)) ++ w.trace) ∧
        (∀ a, r = .ok a → G (effects.map .file ++ notesOf t w.trace))) :
    Runs parseJson t (fs op) F fun _ => G := by
  unfold fs
  apply Runs.bind (G := fun r notes => ∀ a, r = .ok a → G notes)
  · refine runs_ask fun c w a hi hF ha => ?_
    obtain ⟨⟨r, effects⟩, hserve, rfl⟩ := Option.map_eq_some_iff.mp ha
    obtain ⟨hlegal, hG⟩ := h c.fate w r effects hi hF hserve
    refine ⟨?_, hG⟩
    rw [List.map_map]
    exact hlegal
  · exact fun r => runs_orThrow fun a notes hr hG => hG a hr

theorem runs_andFinally {body : sys.Task Unit} {F G : List Note → Prop}
    (h : Runs parseJson t body F fun _ => G) :
    Runs parseJson t (body.andFinally settle) F fun _ => G := by
  unfold Prog.andFinally
  apply Runs.bind (G := fun r notes => r = .ok () → G notes)
  · intro w hi hF
    apply Safe.attempt
    refine Safe.mono (h w hi hF) ?_ ?_
    · exact fun _ _ hG _ => hG
    · exact fun e w' _ hr => nomatch hr
  · intro r
    apply Runs.bind (G := fun _ notes => r = .ok () → G notes) runs_settle
    intro _
    cases r with
    | ok a => exact Runs.ret fun notes hG => hG rfl
    | error e => exact Runs.fail

theorem runs_syncDirectory {F : List Note → Prop} :
    Runs parseJson t syncDirectory F fun _ => F :=
  Runs.bind runs_settle fun _ => runs_andFinally runs_settle

/-! ### The knowledge of a call -/

/-- The notes before the configuration is read. -/
structure Fresh (notes : List Note) : Prop where
  unread : Unread notes
  starts : startsOf notes = []
  exits : exitsOf notes = []

/-- The call owns the teardown of the volume and has not read the configuration. -/
structure Owner (notes : List Note) : Prop extends Fresh notes where
  claimed : Claimed notes

/-- The call owns the teardown and the first hooks of its plan have exited well. -/
structure Running (parseJson : String → Option Json) (commands done : List String)
    (notes : List Note) : Prop where
  claimed : Claimed notes
  plan : planOf parseJson notes = some commands
  starts : startsOf notes = done
  exits : exitsOf notes = done.map fun command => (command, some 0)

theorem Claimed.file {notes : List Note} (h : Claimed notes) (n : Note) : Claimed (n :: notes) := by
  obtain ⟨text, hmem⟩ := h
  exact ⟨text, List.mem_cons_of_mem _ hmem⟩

theorem Fresh.file {notes : List Note} (h : Fresh notes) (e : Effect Path String) :
    Fresh (.file e :: notes) := by
  refine ⟨fun r hr => ?_, h.starts, h.exits⟩
  rcases List.mem_cons.mp hr with heq | hold
  · cases heq
  · exact h.unread r hold

theorem Owner.file {notes : List Note} (h : Owner notes) (e : Effect Path String) :
    Owner (.file e :: notes) := ⟨h.toFresh.file e, h.claimed.file _⟩

theorem Running.file {commands done : List String} {notes : List Note}
    (h : Running parseJson commands done notes) (e : Effect Path String) :
    Running parseJson commands done (.file e :: notes) :=
  ⟨h.claimed.file _, h.plan, h.starts, h.exits⟩

/-- Writing a file the call may put things in. -/
theorem runs_writeFile {path : Path} {text : String} {F : List Note → Prop}
    (hfile : ∀ notes e, F notes → F (.file e :: notes))
    (hstep : ∀ older c, F (notesOf t older) →
      Step parseJson older (.note (some t) (.file (.put path c)))) :
    Runs parseJson t (fs (.writeFile path text)) F fun _ => F := by
  refine runs_fs fun f w r effects hi hF hserve => ?_
  rcases serve_writeFile hserve with rfl | ⟨c, rfl, -⟩
  · exact ⟨hi.legal, fun _ _ => hF⟩
  · exact ⟨⟨hi.legal, hstep w.trace c hF⟩, fun _ _ => hfile _ _ hF⟩

theorem runs_claim :
    Runs parseJson t (fs (.openNew .started "")) Fresh fun _ => Owner := by
  refine runs_fs fun f w r effects hi hF hserve => ?_
  rcases serve_openNew hserve with ⟨rfl, hrefused⟩ | ⟨hnone, rfl⟩
  · exact ⟨hi.legal, fun _ hr => absurd hr hrefused⟩
  · refine ⟨⟨hi.legal, .claim hnone⟩, fun _ _ => ⟨hF.file _, "", List.mem_cons_self⟩⟩

theorem runs_writeNew {path : Path} {text : String} {F : List Note → Prop}
    (hfile : ∀ notes e, F notes → F (.file e :: notes))
    (hstep : ∀ older c, F (notesOf t older) →
      Step parseJson older (.note (some t) (.file (.put path c)))) :
    Runs parseJson t (writeNew path text) F fun _ => F := by
  apply Runs.bind (G := fun _ => F)
  · refine runs_fs fun f w r effects hi hF hserve => ?_
    rcases serve_openNew hserve with ⟨rfl, -⟩ | ⟨-, rfl⟩
    · exact ⟨hi.legal, fun _ _ => hF⟩
    · exact ⟨⟨hi.legal, hstep w.trace "" hF⟩, fun _ _ => hfile _ _ hF⟩
  · intro _
    apply runs_andFinally
    exact Runs.bind (runs_writeFile hfile hstep) fun _ => runs_settle

/-! ### The hooks run one after the other -/

theorem runs_spawn {commands done rest : List String} {command : String}
    (hcommands : commands = done ++ command :: rest) :
    Runs parseJson t (ask (S := sys) (.spawn command)) (Running parseJson commands done)
      fun _ notes => Claimed notes ∧ planOf parseJson notes = some commands ∧
        startsOf notes = done ++ [command] ∧
        exitsOf notes = done.map fun command => (command, some 0) := by
  refine runs_ask fun c w a hi hF ha => ?_
  cases ha
  refine ⟨⟨hi.legal, .hook hF.claimed hF.plan ?_⟩, hF.claimed.file _, hF.plan, ?_, hF.exits⟩
  · change startsOf (notesOf t w.trace) ++ [command] <+: commands
    rw [hF.starts, hcommands]
    exact ⟨rest, by simp⟩
  · change startsOf (notesOf t w.trace) ++ [command] = done ++ [command]
    rw [hF.starts]

/-- Only an exit with status 0 lets the next hook start. -/
theorem runs_settled {commands done : List String} {command : String} {remaining : Nat} :
    Runs parseJson t (ask (S := sys) (.settled command remaining))
      (fun notes => Claimed notes ∧ planOf parseJson notes = some commands ∧
        startsOf notes = done ++ [command] ∧
        exitsOf notes = done.map fun command => (command, some 0))
      fun outcome notes => outcome = Outcome.exit (some 0) →
        Running parseJson commands (done ++ [command]) notes := by
  refine runs_ask fun c w a hi hF ha => ?_
  obtain ⟨hclaimed, hplan, hstarts, hexits⟩ := hF
  cases ha
  cases hout : c.outcome with
  | exit code =>
    have hrunning : startsOf (notesOf t w.trace) =
        (exitsOf (notesOf t w.trace)).map Prod.fst ++ [command] := by
      rw [hstarts, hexits, List.map_map]
      exact congrArg (· ++ [command]) (List.map_id done).symm
    refine ⟨⟨hi.legal, .exited hrunning⟩, ?_⟩
    intro hok
    cases hok
    refine ⟨hclaimed.file _, hplan, hstarts, ?_⟩
    change exitsOf (notesOf t w.trace) ++ [(command, some 0)] = _
    rw [hexits]
    simp
  | error => exact ⟨hi.legal, fun hok => nomatch hok⟩
  | timedOut => exact ⟨hi.legal, fun hok => nomatch hok⟩

theorem runs_runHooks (commands : List String) (deadline : Nat) (rest : List String) :
    ∀ done, commands = done ++ rest →
      Runs parseJson t (runHooks deadline rest) (Running parseJson commands done)
        fun _ => Running parseJson commands commands := by
  induction rest with
  | nil =>
    intro done hcommands
    rw [List.append_nil] at hcommands
    subst hcommands
    exact Runs.ret fun _ hF => hF
  | cons command rest ih =>
    intro done hcommands
    apply Runs.bind (G := fun _ => Running parseJson commands done) runs_now
    intro now
    by_cases hlate : deadline ≤ now
    · simp only [if_pos hlate]
      exact Runs.fail
    · simp only [if_neg hlate]
      apply Runs.bind (runs_spawn hcommands)
      intro _
      apply Runs.bind runs_settled
      intro outcome
      have hnext := ih (done ++ [command]) (by simpa using hcommands)
      split
      · exact hnext.weaken fun _ hF => hF rfl
      · exact Runs.fail
      · exact Runs.fail
      · exact Runs.fail

/-- What the configuration that was read obliges the owner to run. -/
theorem runs_readConfig :
    Runs parseJson t readConfig.attempt Owner fun r notes =>
      match r with
      | .ok text => ∀ commands, configured parseJson (.ok text) = some commands →
          Running parseJson commands [] notes
      | .error e => e = .code "ENOENT" → Running parseJson [] [] notes := by
  intro w hi hF
  apply Safe.attempt
  refine Law.safe_ext fun w1 c a hg hi1 ha => ?_
  rw [← hg.notesOf_eq] at hF
  obtain ⟨⟨r, effects⟩, hserve, rfl⟩ := Option.map_eq_some_iff.mp ha
  refine ⟨⟨hi1.legal, .config hF.unread⟩, ?_⟩
  -- what the notes say once the configuration was read
  have hread : ∀ commands, configured parseJson r = some commands →
      Running parseJson commands [] (.config r :: notesOf t w1.trace) := by
    intro commands hcommands
    exact ⟨hF.claimed.file _, hcommands, hF.starts, hF.exits⟩
  cases r with
  | ok text =>
    refine Safe.ret fun w2 hr _ => ?_
    rw [hr.1.notesOf_eq, World.spawnAll_trace, World.answered_trace, notesOf_own]
    exact hread
  | error code =>
    refine Safe.fail fun w2 hr _ => ?_
    rw [hr.1.notesOf_eq, World.spawnAll_trace, World.answered_trace, notesOf_own]
    intro hcode
    cases hcode
    exact hread [] rfl

theorem runs_teardown (timeoutMs : Nat) :
    Runs parseJson t (teardown parseJson timeoutMs) Owner fun _ notes =>
      ∃ commands, Running parseJson commands commands notes := by
  apply Runs.bind runs_readConfig
  intro r
  cases r with
  | error e =>
    by_cases he : e = .code "ENOENT"
    · simp only [if_pos he]
      exact Runs.ret fun _ hF => ⟨[], hF he⟩
    · simp only [if_neg he]
      exact Runs.fail
  | ok text =>
    cases hparse : parseJson text with
    | none =>
      simp only [hparse]
      exact Runs.fail
    | some config =>
      simp only [hparse]
      cases hhooks : hooks config with
      | error e => exact Runs.fail
      | ok commands =>
        have hconf : configured parseJson (.ok text) = some commands := by
          simp [configured, hparse, hhooks, Except.toOption]
        apply Runs.bind (G := fun cs notes => cs = commands ∧ Running parseJson cs [] notes)
        · exact Runs.ret fun _ hF => ⟨rfl, hF commands hconf⟩
        intro cs
        apply Runs.bind runs_now
        intro now w hi hF
        obtain ⟨rfl, hF⟩ := hF
        refine Safe.mono (runs_runHooks cs _ cs [] rfl w hi hF) ?_ fun _ _ _ => trivial
        exact fun _ _ hG => ⟨cs, hG⟩

/-! ### One call -/

theorem runs_rename :
    Runs parseJson t (fs (.rename .completeTmp .complete))
      (fun notes => ∃ commands, Running parseJson commands commands notes)
      fun _ notes => .file (.rename .completeTmp .complete) ∈ notes := by
  refine runs_fs fun f w r effects hi hF hserve => ?_
  obtain ⟨commands, hrun⟩ := hF
  rcases serve_rename hserve with ⟨rfl, hrefused⟩ | ⟨hsrc, rfl⟩
  · exact ⟨hi.legal, fun _ hr => absurd hr hrefused⟩
  · exact ⟨⟨hi.legal, .complete ⟨commands, hrun.plan, hrun.exits⟩ hsrc⟩,
      fun _ _ => List.mem_cons_self⟩

theorem runs_teardownClaimed (timeoutMs : Nat) :
    Runs parseJson t (teardownClaimed parseJson timeoutMs) Owner fun _ notes =>
      .file (.rename .completeTmp .complete) ∈ notes := by
  apply Runs.bind (G := fun _ => Owner)
  · apply runs_andFinally
    apply Runs.bind (G := fun _ => Owner) _ fun _ => runs_settle
    exact runs_writeFile (fun _ e h => h.file e) fun _ _ h => .write h.claimed
  intro _
  apply Runs.bind runs_syncDirectory
  intro _
  apply Runs.bind (runs_teardown timeoutMs)
  intro _
  apply Runs.bind (G := fun _ notes => ∃ commands, Running parseJson commands commands notes)
  · refine runs_writeNew ?_ fun _ _ _ => .tmp
    rintro notes e ⟨commands, hrun⟩
    exact ⟨commands, hrun.file e⟩
  intro _
  apply Runs.bind runs_rename
  exact fun _ => runs_syncDirectory

/-- A marker that was renamed into place is still there. -/
theorem complete_of_renamed (h : (law parseJson).Legal calls tr)
    (hmem : .file (.rename .completeTmp .complete) ∈ notesOf t tr) :
    present .complete (files tr) = true := by
  obtain ⟨newer, older, rfl⟩ := List.append_of_mem (mem_notesOf.mp hmem)
  have hsplit := Law.Legal.split h
  have hnow : present .complete
      (files (.note (some t) (.file (.rename .completeTmp .complete)) :: older)) = true := by
    cases hsplit.2 with
    | complete _ hsrc => simpa [present, files] using hsrc
  exact present_mono rfl h hnow

theorem obeys_teardownOnce (timeoutMs : Nat) {w : World sys}
    (hnew : ∀ e ∈ w.trace, e.author ≠ some t) :
    (law parseJson).Obeys (machine parseJson) t (teardownOnce parseJson timeoutMs)
      (fun _ w' => present .complete (files w'.trace) = true) w := by
  have hfresh : Fresh (notesOf t w.trace) := by
    rw [notesOf_nil hnew]
    refine ⟨?_, rfl, rfl⟩
    intro r hr
    cases hr
  apply Law.Obeys.seq (Q := fun r w' =>
    (∀ text, r = .ok text → present .complete (files w'.trace) = true) ∧
      ∀ e, r = .error e → Fresh (notesOf t w'.trace))
  · apply Safe.attempt
    refine Law.safe_ext fun w1 c a hg hi1 ha => ?_
    obtain ⟨⟨r, effects⟩, hserve, rfl⟩ := Option.map_eq_some_iff.mp ha
    obtain ⟨rfl, hread⟩ := serve_readFile hserve
    refine ⟨hi1.legal, ?_⟩
    cases r with
    | ok text =>
      refine Safe.ret fun w2 hr hi2 => ?_
      obtain ⟨new, htr, -⟩ := hr.1.trace
      refine ⟨fun _ _ => ?_, fun e he => by cases he⟩
      rw [htr]
      apply present_mono rfl (htr ▸ hi2.legal)
      simp [present, hread text rfl]
    | error code =>
      refine Safe.fail fun w2 hr _ => ⟨fun text htext => (by cases htext), fun _ _ => ?_⟩
      rw [hr.1.notesOf_eq, World.spawnAll_trace, World.answered_trace, notesOf_own,
        hg.notesOf_eq]
      exact hfresh
  intro r w1 _ hi1 hr
  cases r with
  | ok text =>
    refine Safe.ret fun w2 hr2 hi2 => ?_
    obtain ⟨new, htr, -⟩ := hr2.1.trace
    rw [htr]
    exact present_mono rfl (htr ▸ hi2.legal) (hr.1 text rfl)
  | error e =>
    by_cases he : e = .code "ENOENT"
    · simp only [he, ne_eq, not_true_eq_false, if_false]
      have hrun : Runs parseJson t (do
          settle
          fs (.openNew .started "")
          teardownClaimed parseJson timeoutMs) Fresh fun _ notes =>
            .file (.rename .completeTmp .complete) ∈ notes :=
        Runs.bind runs_settle fun _ => Runs.bind runs_claim fun _ =>
          runs_teardownClaimed timeoutMs
      refine Safe.mono (Safe.with_inv (hrun w1 hi1 (hr.2 e rfl))) ?_ fun _ _ _ => trivial
      rintro _ w2 ⟨hi2, hmem⟩
      exact complete_of_renamed hi2.legal hmem
    · simp only [ne_eq, he, not_false_eq_true, if_true]
      exact Law.Obeys.fail

theorem obeys_call {w : World sys} {call : Call} (hnew : ∀ e ∈ w.trace, e.author ≠ some t) :
    (law parseJson).Obeys (machine parseJson) t ((machine parseJson).program t call)
      (fun _ w' => present .complete (files w'.trace) = true) w := by
  cases call with
  | teardownOnce timeoutMs => exact obeys_teardownOnce timeoutMs hnew

theorem env_legal {w : World sys} {effect : Effect Path String} {new : History} {g : Unit}
    (hi : (law parseJson).Inv w)
    (he : (machine parseJson).env effect w = some (new, g)) :
    (law parseJson).Legal w.calls (new ++ w.trace) := by
  change (if _ then none else _) = _ at he
  by_cases ht : effect.touches.any Path.marker = true
  · rw [if_pos ht] at he
    cases he
  · rw [if_neg ht] at he
    cases he
    exact ⟨hi.legal, .others (by simpa using ht)⟩

theorem init_legal : (law parseJson).Legal (fun _ => none) (machine parseJson).init.trace :=
  trivial

theorem legal_reachable {c : (machine parseJson).Config}
    (h : (machine parseJson).Reachable c) :
    (law parseJson).Legal c.world.calls c.world.trace := by
  apply Law.reachable _ h
  apply Law.sound init_legal env_legal
  intro w t call _ _ _ hnew
  exact Safe.mono (obeys_call hnew) (fun _ _ _ => trivial) fun _ _ _ => trivial

theorem returned_complete {c : (machine parseJson).Config}
    (h : (machine parseJson).Reachable c) {th : (machine parseJson).Thread}
    (ht : c.threads t = some th) (hp : th.prog = .ret ()) :
    present .complete (files c.world.trace) = true := by
  apply Law.returned (P := fun _ _ _ _ w => present .complete (files w.trace) = true)
    init_legal env_legal _ h ht hp
  exact fun _ _ _ hnew => obeys_call hnew

/-- **Teardown hooks are started at most once over the lifetime of the volume.**
    All hooks ever started were started by one call, a prefix of the hooks of the
    configuration it read, each once and in order.  A call that returns leaves the
    completion marker behind, and where that marker exists every configured hook
    exited with status 0. -/
theorem hooks_start_once (parseJson : String → Option Json) {c : (machine parseJson).Config}
    (h : (machine parseJson).Reachable c) :
    (∀ t u, startsOf (notesOf t c.world.trace) ≠ [] →
        startsOf (notesOf u c.world.trace) ≠ [] → t = u) ∧
      (∀ t, startsOf (notesOf t c.world.trace) ≠ [] →
        ∃ commands, planOf parseJson (notesOf t c.world.trace) = some commands ∧
          startsOf (notesOf t c.world.trace) <+: commands) ∧
      (∀ t th, c.threads t = some th → th.prog = .ret () →
        present .complete (files c.world.trace) = true) ∧
      (present .complete (files c.world.trace) = true →
        ∃ t commands, planOf parseJson (notesOf t c.world.trace) = some commands ∧
          exitsOf (notesOf t c.world.trace) = commands.map fun command => (command, some 0)) := by
  have hfacts := Legal.facts (legal_reachable h)
  refine ⟨?_, ?_, ?_, hfacts.complete⟩
  · intro t u ht hu
    exact hfacts.claimed_unique t u (hfacts.hooks t ht).1 (hfacts.hooks u hu).1
  · exact fun t ht => (hfacts.hooks t ht).2
  · exact fun t th ht hp => returned_complete h ht hp

/-- Two hooks, and two calls racing for them. -/
def demoConfig (_ : String) : Option Json :=
  some (.obj [("worktree", .obj [("teardown", .arr [.str "stop", .str " ", .str "clean"])])])

def demoRun : List (machine demoConfig).Move :=
  [.env (.put .paseoJson "config"), .start 0 (.teardownOnce 1000),
    .start 1 (.teardownOnce 1000)] ++
  List.replicate 3 (.run ⟨0, 0⟩ (.ext {})) ++ List.replicate 3 (.run ⟨1, 1⟩ (.ext {})) ++
  List.replicate 22 (.run ⟨0, 0⟩ (.ext {}))

theorem hooks_start_once_demo : ∃ c, (machine demoConfig).Reachable c ∧
    startsOf (notesOf ⟨0, 0⟩ c.world.trace) = ["stop", "clean"] ∧
    startsOf (notesOf ⟨1, 1⟩ c.world.trace) = [] ∧
    ∃ t commands, planOf demoConfig (notesOf t c.world.trace) = some commands ∧
      exitsOf (notesOf t c.world.trace) = commands.map fun command => (command, some 0) := by
  have hrun : ((machine demoConfig).initial.moves demoRun).map (fun c =>
      (startsOf (notesOf ⟨0, 0⟩ c.world.trace), startsOf (notesOf ⟨1, 1⟩ c.world.trace),
        present .complete (files c.world.trace))) =
        some (["stop", "clean"], [], true) := by rfl
  obtain ⟨c, hc, hpair⟩ := Option.map_eq_some_iff.mp hrun
  simp only [Prod.mk.injEq] at hpair
  obtain ⟨hfirst, hsecond, hcomplete⟩ := hpair
  have hreachable := Machine.Reachable.init.moves hc
  exact ⟨c, hreachable, hfirst, hsecond,
    (hooks_start_once demoConfig hreachable).2.2.2 hcomplete⟩

end PaseoGateway.Teardown
