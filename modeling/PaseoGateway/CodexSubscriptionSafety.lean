/-
  PaseoGateway/CodexSubscriptionSafety.lean
  =========================================
  **Brokers only make legal histories.**

  The invariant of the machine is that its history is legal (`CodexFence.lean`).
  What a thread knows of itself is a phase: which of its own entries the history
  holds.  No one else writes in its name, so a phase survives whatever the others
  do (`Phase`), and each write of `renew` is a legal step in the phase it is made.
-/
import PaseoGateway.CodexFence
import PaseoGateway.RelyGuarantee

namespace PaseoGateway.CodexSubscription

open Async

/-! ### The invariant -/

def whoOf (calls : Tid → Option (Started sys)) : Who := fun t =>
  match calls t with
  | some ⟨.renew profile, _⟩ =>
    profile.codexSubscription.map fun config => (ownerOf profile, config)
  | _ => none

/-- The profile has the subscription its identity stands for, and passed its schema. -/
def Consistent (configOf : String → Option Config) (profile : CredentialProfile) : Prop :=
  ∃ config, profile.codexSubscription = some config ∧ Known configOf (ownerOf profile) config

structure Inv (rt : Runtime) (configOf : String → Option Config) (w : World sys) : Prop where
  numbered : w.Numbered
  legal : Legal rt (whoOf w.calls) w.trace
  consistent : ∀ t profile height, w.calls t = some ⟨.renew profile, height⟩ →
    Consistent configOf profile

def Pre (configOf : String → Option Config) : Call → Prop
  | .renew profile => Consistent configOf profile
  | .reconcile profiles => ∀ profile ∈ profiles, profile.codexSubscription.isSome = true →
      configOf (ownerOf profile) = profile.codexSubscription

def protocol (rt : Runtime) (configOf : String → Option Config) :
    Protocol (machine rt configOf) where
  inv := Inv rt configOf
  pre := fun _ c _ => Pre configOf c

theorem ownerOf_ne (profile : CredentialProfile) : ownerOf profile ≠ "" := by
  intro h
  have hlen := congrArg (fun s : String => s.toList.length) h
  simp [ownerOf] at hlen

theorem whoOf_some {calls : Tid → Option (Started sys)} {t : Tid} {owner : String}
    {config : Config} (h : whoOf calls t = some (owner, config)) :
    ∃ profile height, calls t = some ⟨.renew profile, height⟩ ∧ owner = ownerOf profile ∧
      profile.codexSubscription = some config := by
  unfold whoOf at h
  split at h
  · rename_i profile height hcall
    obtain ⟨config', hconfig, heq⟩ := Option.map_eq_some_iff.mp h
    cases heq
    exact ⟨profile, height, hcall, rfl, hconfig⟩
  · cases h

section Machine

variable {rt : Runtime} {configOf : String → Option Config} {w w' : World sys}

theorem Inv.identified (hi : Inv rt configOf w) : Identified configOf (whoOf w.calls) := by
  intro t owner config ht
  obtain ⟨profile, height, hcall, rfl, hconfig⟩ := whoOf_some ht
  obtain ⟨config', hconfig', hknown⟩ := hi.consistent t profile height hcall
  rw [hconfig] at hconfig'
  cases hconfig'
  exact hknown

theorem Step.mono {who who' : Who} (hle : ∀ t p, who t = some p → who' t = some p)
    {older : History} {e : Entry Key (fun _ => Secret) Note} (h : Step rt who older e) :
    Step rt who' older e := by
  cases h with
  | claim ht hold howner htoken hintent hcommits =>
    exact .claim (hle _ _ ht) hold howner htoken hintent hcommits
  | native ht hclaim hencoded hinvoked hcommits =>
    exact .native (hle _ _ ht) hclaim hencoded hinvoked hcommits
  | refreshed hgiven hrotates => exact .refreshed hgiven hrotates
  | commit ht hold hcommits hreread hresult hheld =>
    exact .commit (hle _ _ ht) hold hcommits hreread hresult hheld
  | invalidate ht hold howner hmay => exact .invalidate (hle _ _ ht) hold howner hmay
  | republish ht hold howner hsecret hmay =>
    exact .republish (hle _ _ ht) hold howner hsecret hmay
  | publish ht hnone hsecret hmay => exact .publish (hle _ _ ht) hnone hsecret hmay
  | clock hclock => exact .clock hclock
  | supply hallowed => exact .supply hallowed
  | edit hallowed => exact .edit hallowed
  | remove => exact .remove

theorem Legal.mono {who who' : Who} (hle : ∀ t p, who t = some p → who' t = some p)
    {tr : History} (h : Legal rt who tr) : Legal rt who' tr := by
  induction tr with
  | nil => trivial
  | cons e older ih => exact ⟨ih h.1, h.2.mono hle⟩

/-- A call once started is remembered. -/
theorem whoOf_later (hnum : w.Numbered)
    (hcalls : ∀ u : Tid, u.idx < w.next → w'.calls u = w.calls u) (t : Tid) (p : String × Config)
    (h : whoOf w.calls t = some p) : whoOf w'.calls t = some p := by
  obtain ⟨owner, config⟩ := p
  obtain ⟨profile, height, hcall, _⟩ := whoOf_some h
  have hlt : t.idx < w.next := by
    by_contra hge
    rw [hnum t (by omega)] at hcall
    cases hcall
  rw [whoOf, hcalls t hlt]
  exact h

/-- Whatever a request leaves in the history, the calls it forks are consistent. -/
theorem Inv.step (hi : Inv rt configOf w) (hnum : w'.Numbered)
    (hcalls : ∀ u : Tid, u.idx < w.next → w'.calls u = w.calls u)
    (hlegal : Legal rt (whoOf w.calls) w'.trace)
    (hnew : ∀ u s, w.calls u = none → w'.calls u = some s → Pre configOf s.call) :
    Inv rt configOf w' := by
  refine ⟨hnum, hlegal.mono (whoOf_later hi.numbered hcalls), ?_⟩
  intro t profile height hcall
  cases hold : w.calls t with
  | none => exact hnew t _ hold hcall
  | some s =>
    have hlt : t.idx < w.next := by
      by_contra hge
      rw [hi.numbered t (by omega)] at hold
      cases hold
    rw [hcalls t hlt] at hcall
    exact hi.consistent t profile height hcall

theorem Inv.push (hi : Inv rt configOf w) {e : Entry sys.Key sys.Val sys.Note}
    (h : Step rt (whoOf w.calls) w.trace e) : Inv rt configOf (w.push e) :=
  ⟨hi.numbered, ⟨hi.legal, h⟩, hi.consistent⟩

theorem Step.keeps (hi : Inv rt configOf w) {t : Tid} {e : Entry sys.Key sys.Val sys.Note}
    (h : Step rt (whoOf w.calls) w.trace e) : (protocol rt configOf).Keeps t w (w.push e) :=
  ⟨hi.push h, fun _ _ _ => trivial⟩

end Machine

/-! ### What a thread knows of itself -/

/-- What a thread knows of its own entries while it may write its output. -/
structure Phase (t : Tid) (config : Config) (J : History → Prop) : Prop where
  write : ∀ tr, J tr → MayWrite t config tr
  other : ∀ e tr, Entry.author e ≠ some t → J tr → J (e :: tr)
  output : ∀ e tr, Entry.key? e = some config.output → J tr → J (e :: tr)

/-- Nothing was claimed and nothing refreshed. -/
def Fresh (t : Tid) (config : Config) (tr : History) : Prop :=
  ¬ Invoked t tr ∧ ∀ v, .update (some t) config.authority v ∉ tr

section Phases

variable {t : Tid} {owner : String} {config : Config} {J : History → Prop}

theorem Fresh.not_commits {tr : History} (h : Fresh t config tr) : ¬ Commits t config tr := by
  rintro ⟨v, hmem, _⟩
  exact h.2 v hmem

theorem phase_fresh (hne : config.output ≠ config.authority) :
    Phase t config (Fresh t config) where
  write tr h hinvoked := absurd hinvoked h.1
  other e tr hauthor h := by
    constructor
    · rintro ⟨authJson, hmem⟩
      rcases List.mem_cons.mp hmem with rfl | hold
      · exact hauthor rfl
      · exact h.1 ⟨authJson, hold⟩
    · intro v hmem
      rcases List.mem_cons.mp hmem with rfl | hold
      · exact hauthor rfl
      · exact h.2 v hold
  output e tr hkey h := by
    constructor
    · rintro ⟨authJson, hmem⟩
      rcases List.mem_cons.mp hmem with rfl | hold
      · cases hkey
      · exact h.1 ⟨authJson, hold⟩
    · intro v hmem
      rcases List.mem_cons.mp hmem with rfl | hold
      · exact hne (Option.some.inj hkey).symm
      · exact h.2 v hold

theorem phase_committed : Phase t config (Commits t config) where
  write _ h _ := h
  other e _ _ h := h.cons e
  output e _ _ h := h.cons e

/-- Thread `t` renews this profile, and is in phase `J`. -/
structure At (t : Tid) (owner : String) (config : Config) (J : History → Prop)
    (w : World sys) : Prop where
  lt : t.idx < w.next
  who : whoOf w.calls t = some (owner, config)
  phase : J w.trace

variable {w w' : World sys}

theorem At.of_grows (h : At t owner config J w)
    (hother : ∀ e tr, Entry.author e ≠ some t → J tr → J (e :: tr)) (hg : Grows t w w') :
    At t owner config J w' := by
  refine ⟨Nat.lt_of_lt_of_le h.lt hg.next, ?_, ?_⟩
  · rw [whoOf, hg.calls t h.lt]
    exact h.who
  · obtain ⟨new, htr, hnew⟩ := hg.trace
    rw [htr]
    clear htr
    induction new with
    | nil => exact h.phase
    | cons e new ih =>
      exact hother e _ (hnew e List.mem_cons_self)
        (ih fun e' he' => hnew e' (List.mem_cons_of_mem _ he'))

theorem At.push {J' : History → Prop} (h : At t owner config J w)
    {e : Entry sys.Key sys.Val sys.Note} (he : J w.trace → J' (e :: w.trace)) :
    At t owner config J' (w.push e) := ⟨h.lt, h.who, he h.phase⟩

end Phases

/-! ### Rules -/

section Rules

variable {rt : Runtime} {configOf : String → Option Config} {t : Tid} {α β : Type}
  {Q : α → World sys → Prop} {E : Err → World sys → Prop} {w : World sys}

/-- The rule for a request that forks nothing. -/
theorem Safe.asked {x : Ext} {k : Ext.Res x → sys.Task α}
    (h : ∀ w', (protocol rt configOf).rely t w w' → Inv rt configOf w' → ∀ c (a : Answer sys x),
      answer rt c t x w' = some a → a.forks = [] ∧
      Legal rt (whoOf w'.calls) (a.notes.map (.note (some t)) ++ w'.trace) ∧
      Safe (protocol rt configOf) t (k a.res) Q E (w'.answered t a)) :
    Safe (protocol rt configOf) t (.call (.ext x) k) Q E w := by
  refine Safe.ext fun w' hr hi c a ha => ?_
  obtain ⟨hforks, hlegal, hk⟩ := h w' hr hi c a ha
  rw [hforks, World.spawnAll_nil]
  refine ⟨⟨?_, fun _ _ _ => trivial, ?_⟩, hk⟩
  · exact Inv.step hi hi.numbered (fun _ _ => rfl) hlegal fun u s hnone hs => by
      rw [World.answered_calls, hnone] at hs
      cases hs
  · intro u s hnone hs
    rw [World.answered_calls, hnone] at hs
    cases hs

/-- Two worlds that differ at most in process memory. -/
structure Same (w w' : World sys) : Prop where
  trace : w'.trace = w.trace
  calls : w'.calls = w.calls
  next : w'.next = w.next

theorem Safe.now {f : Int → sys.Task α}
    (h : ∀ w1 w2, (protocol rt configOf).rely t w w1 → Inv rt configOf w1 → Same w1 w2 →
      Safe (protocol rt configOf) t (f (clockOf w1.trace)) Q E w2) :
    Safe (protocol rt configOf) t (ask (S := sys) .now >>= f) Q E w := by
  refine Safe.asked fun w1 hr hi c a ha => ?_
  cases ha
  exact ⟨rfl, hi.legal, h w1 _ hr hi ⟨rfl, rfl, rfl⟩⟩

theorem Safe.randomUUID {f : String → sys.Task α}
    (h : ∀ uuid w1 w2, (protocol rt configOf).rely t w w1 → Same w1 w2 →
      Safe (protocol rt configOf) t (f uuid) Q E w2) :
    Safe (protocol rt configOf) t (ask (S := sys) .randomUUID >>= f) Q E w := by
  refine Safe.asked fun w1 hr hi c a ha => ?_
  cases ha
  exact ⟨rfl, hi.legal, h _ w1 _ hr ⟨rfl, rfl, rfl⟩⟩

theorem At.same {t : Tid} {owner : String} {config : Config} {J : History → Prop}
    {w w' : World sys} (h : At t owner config J w) (hs : Same w w') : At t owner config J w' := by
  refine ⟨?_, ?_, ?_⟩
  · rw [hs.next]
    exact h.lt
  · rw [hs.calls]
    exact h.who
  · rw [hs.trace]
    exact h.phase

theorem Safe.swapped {A B : World sys → Prop} {request : sys.Task α}
    (hA : ∀ w w', Grows t w w' → A w → A w') (hB : ∀ w w', Grows t w w' → B w → B w')
    (h : Safe (protocol rt configOf) t request (fun _ w' => A w') (fun _ w' => B w') w) :
    Safe (protocol rt configOf) t (swapped request)
      (fun ok w' => if ok = true then A w' else B w') (fun _ w' => B w') w := by
  unfold CodexSubscription.swapped
  apply Safe.bind
  apply Safe.attempt
  apply Safe.mono h
  · intro a w' ha _
    exact Safe.ret fun w'' hr _ => hA w' w'' hr.1 ha
  · intro e w' he _
    by_cases hconflict : e = .store .conflict
    · simp only [hconflict, if_true]
      exact Safe.ret fun w'' hr _ => hB w' w'' hr.1 he
    · simp only [hconflict, if_false]
      exact Safe.fail fun w'' hr _ => hB w' w'' hr.1 he

end Rules

/-! ### The output Secret -/

section Output

variable {rt : Runtime} {configOf : String → Option Config} {t : Tid} {owner : String}
  {config : Config} {J : History → Prop} {w : World sys}

/-- Thread `t` may run `p`, and stays in phase `J` whatever comes out. -/
abbrev Stays (rt : Runtime) (configOf : String → Option Config) (t : Tid) (owner : String)
    (config : Config) (J : History → Prop) {α : Type} (p : sys.Task α) (w : World sys) : Prop :=
  Safe (protocol rt configOf) t p (fun _ w' => At t owner config J w')
    (fun _ w' => At t owner config J w') w

theorem stays_ret {α : Type} (hJ : Phase t config J) (h : At t owner config J w) (a : α) :
    Stays rt configOf t owner config J (.ret a) w :=
  Safe.ret fun _ hr _ => h.of_grows hJ.other hr.1

theorem swapOutput_safe (hJ : Phase t config J) (h : At t owner config J w)
    {expected : Option Nat} {secret : Secret}
    (hupdate : ∀ w', (protocol rt configOf).rely t w w' → At t owner config J w' →
      ∀ version old, expected = some version →
      lookup config.output w'.trace = some (version, old) →
      Step rt (whoOf w'.calls) w'.trace (.update (some t) config.output secret))
    (hcreate : ∀ w', (protocol rt configOf).rely t w w' → At t owner config J w' →
      lookup config.output w'.trace = none → expected = none →
      Step rt (whoOf w'.calls) w'.trace (.create (some t) config.output secret)) :
    Stays rt configOf t owner config J
      (compareAndSwapSecret config.outputSecretName expected secret) w := by
  have hother : ∀ w w', Grows t w w' → At t owner config J w → At t owner config J w' :=
    fun _ _ hg ha => ha.of_grows hJ.other hg
  unfold compareAndSwapSecret
  cases expected with
  | some version =>
    apply Safe.mono (Safe.swapped hother hother ?_)
    · intro ok w' hok
      cases ok <;> exact hok
    · exact fun _ _ he => he
    refine Safe.update fun w1 hr hi => ⟨fun old hold => ?_, fun e => ?_⟩
    · have h1 := h.of_grows hJ.other hr.1
      have hstep := hupdate w1 hr h1 version old rfl hold
      have h2 : At t owner config J (w1.push (.update (some t) config.output secret)) :=
        h1.push fun hj => hJ.output _ _ rfl hj
      exact ⟨hstep.keeps hi, stays_ret hJ h2 (),
        Safe.fail fun _ hr' _ => h2.of_grows hJ.other hr'.1⟩
    · have h1 := h.of_grows hJ.other hr.1
      exact Safe.fail fun _ hr' _ => h1.of_grows hJ.other hr'.1
  | none =>
    apply Safe.mono (Safe.swapped hother hother ?_)
    · intro ok w' hok
      cases ok <;> exact hok
    · exact fun _ _ he => he
    refine Safe.create fun w1 hr hi => ⟨fun hnone => ?_, fun _ _ => ?_, ?_⟩
    · have h1 := h.of_grows hJ.other hr.1
      have hstep := hcreate w1 hr h1 hnone rfl
      have h2 : At t owner config J (w1.push (.create (some t) config.output secret)) :=
        h1.push fun hj => hJ.output _ _ rfl hj
      exact ⟨hstep.keeps hi, stays_ret hJ h2 (),
        Safe.fail fun _ hr' _ => h2.of_grows hJ.other hr'.1⟩
    · have h1 := h.of_grows hJ.other hr.1
      exact Safe.fail fun _ hr' _ => h1.of_grows hJ.other hr'.1
    · have h1 := h.of_grows hJ.other hr.1
      exact Safe.fail fun _ hr' _ => h1.of_grows hJ.other hr'.1

/-- The output read earlier, owned by the profile. -/
def OutputRead (owner : String) (config : Config) (w : World sys)
    (output : Option (Nat × Secret)) : Prop :=
  ∀ p, output = some p → Stored w.trace p.1 config.output p.2 ∧
    p.2.annotations.owner = some owner

theorem OutputRead.later {w' : World sys} {output : Option (Nat × Secret)}
    (h : OutputRead owner config w output) (hl : ∃ new, w'.trace = new ++ w.trace) :
    OutputRead owner config w' output := by
  intro p hp
  obtain ⟨new, htr⟩ := hl
  obtain ⟨hstored, howner⟩ := h p hp
  rw [htr]
  exact ⟨hstored.mono new, howner⟩

theorem invalidateOutput_safe (hJ : Phase t config J) (h : At t owner config J w)
    {output : Option (Nat × Secret)} (hout : OutputRead owner config w output) :
    Stays rt configOf t owner config J (invalidateOutput config.outputSecretName output) w := by
  cases output with
  | none => exact stays_ret hJ h true
  | some p =>
    obtain ⟨version, secret⟩ := p
    obtain ⟨hstored, howner⟩ := hout _ rfl
    change Stays rt configOf t owner config J
      (if secret.get "access.json" = some "" then _ else _) w
    split
    · exact stays_ret hJ h true
    · refine swapOutput_safe hJ h ?_ ?_
      · intro w' hr h' version' old hversion hold
        cases hversion
        have hsame := (hr.1.later.stored hstored).eq_of_lookup hold
        subst hsame
        exact .invalidate h'.who hold howner (hJ.write _ h'.phase)
      · intro _ _ _ _ hnone
        cases hnone

theorem publish_safe (hJ : Phase t config J) (h : At t owner config J w)
    (authority : Nat × Secret) (encoded binding : String) :
    Stays rt configOf t owner config J (publish rt config owner authority encoded binding) w := by
  unfold publish
  split
  · exact stays_ret hJ h false
  have hdown : ∀ w1 : World sys, Grows t w w1 → At t owner config J w1 :=
    fun w1 hg => h.of_grows hJ.other hg
  refine Safe.get fun w1 hr1 _ => ⟨?_, Safe.fail fun w2 hr2 _ => hdown w2 (hr1.1.trans hr2.1)⟩
  have h1 := hdown w1 hr1.1
  generalize hlook1 : lookup (.secret config.outputSecretName) w1.trace = current
  change Stays rt configOf t owner config J (if _ then _ else _) w1
  split
  · exact stays_ret hJ h1 false
  rename_i howner
  split
  · exact stays_ret hJ h1 true
  refine Safe.get fun w2 hr2 _ => ⟨?_, Safe.fail fun w3 hr3 _ => ?_⟩
  · have h2 := h1.of_grows hJ.other hr2.1
    generalize lookup (.secret config.authSecretRef.name) w2.trace = latest
    change Stays rt configOf t owner config J (if _ then _ else _) w2
    split
    · exact stays_ret hJ h2 false
    refine swapOutput_safe hJ h2 ?_ ?_
    · intro w3 hr3 h3 version old hversion hold
      obtain ⟨p, hp, hfst⟩ := Option.map_eq_some_iff.mp hversion
      subst hp hfst
      have hsame := ((hr2.1.trans hr3.1).later.stored (lookup_stored hlook1)).eq_of_lookup hold
      refine .republish h3.who hold ?_ ⟨rfl, rfl⟩ (hJ.write _ h3.phase)
      rw [← hsame]
      simpa using howner
    · intro w3 hr3 h3 hnone _
      exact .publish h3.who hnone ⟨rfl, rfl⟩ (hJ.write _ h3.phase)
  · exact h1.of_grows hJ.other (hr2.1.trans hr3.1)

end Output

/-! ### The authority Secret -/

/-- The lease is claimed. -/
def Claimed (t : Tid) (config : Config) (claimed : Secret) (tr : History) : Prop :=
  Claim t config claimed tr ∧ ¬ Invoked t tr ∧ ¬ Commits t config tr

/-- The native refresh has been invoked under the lease. -/
def Refreshing (t : Tid) (config : Config) (claimed : Secret) (given : String)
    (tr : History) : Prop :=
  Claim t config claimed tr ∧ .note (some t) (.native given) ∈ tr ∧ ¬ Commits t config tr

/-- It has handed back `authJson`. -/
def Refreshed (t : Tid) (config : Config) (claimed : Secret) (given authJson : String)
    (tr : History) : Prop :=
  Refreshing t config claimed given tr ∧ .note (some t) (.refreshed authJson) ∈ tr

section Authority

variable {t : Tid} {config : Config} {claimed : Secret} {tr : History}
  {e : Entry Key (fun _ => Secret) Note}

theorem not_invoked_cons (h : ¬ Invoked t tr) (he : e.author ≠ some t) : ¬ Invoked t (e :: tr) := by
  rintro ⟨authJson, hmem⟩
  rcases List.mem_cons.mp hmem with rfl | hold
  · exact he rfl
  · exact h ⟨authJson, hold⟩

theorem not_commits_cons (h : ¬ Commits t config tr)
    (he : ∀ v : Secret, v.annotations.intent = none → e ≠ .update (some t) config.authority v) :
    ¬ Commits t config (e :: tr) := by
  rintro ⟨v, hmem, hintent⟩
  rcases List.mem_cons.mp hmem with rfl | hold
  · exact he v hintent rfl
  · exact h ⟨v, hold, hintent⟩

theorem Claimed.other (h : Claimed t config claimed tr) (he : e.author ≠ some t) :
    Claimed t config claimed (e :: tr) := by
  refine ⟨h.1.cons e, not_invoked_cons h.2.1 he, not_commits_cons h.2.2 ?_⟩
  rintro v _ rfl
  exact he rfl

theorem Refreshing.other {given : String} (h : Refreshing t config claimed given tr)
    (he : e.author ≠ some t) : Refreshing t config claimed given (e :: tr) := by
  refine ⟨h.1.cons e, List.mem_cons_of_mem _ h.2.1, not_commits_cons h.2.2 ?_⟩
  rintro v _ rfl
  exact he rfl

theorem Refreshed.other {given authJson : String}
    (h : Refreshed t config claimed given authJson tr) (he : e.author ≠ some t) :
    Refreshed t config claimed given authJson (e :: tr) :=
  ⟨h.1.other he, List.mem_cons_of_mem _ h.2⟩

end Authority

theorem notAfter_mono {rt : Runtime} {text : Option String} {a b : Int} (hab : a ≤ b)
    (h : notAfter rt text b = false) : notAfter rt text a = false := by
  unfold notAfter at *
  split
  · rfl
  · rename_i date hdate
    rw [hdate] at h
    simp only [decide_eq_false_iff_not, not_le] at h ⊢
    omega

section Renewal

variable {rt : Runtime} {configOf : String → Option Config} {t : Tid} {owner : String}
  {config : Config} {w : World sys} {status : State → String → BrokerStatus}

/-- Thread `t` may run `p`, with no more known about how it ends. -/
abbrev Runs (rt : Runtime) (configOf : String → Option Config) (t : Tid) {α : Type}
    (p : sys.Task α) (w : World sys) : Prop :=
  Safe (protocol rt configOf) t p (fun _ _ => True) (fun _ _ => True) w

theorem runs_ret {α : Type} (a : α) : Runs rt configOf t (.ret a) w :=
  Safe.ret fun _ _ _ => trivial

theorem swapAuthority_safe (owner : String) {J : History → Prop} {version : Nat} {secret : Secret}
    (hJ : ∀ e tr, Entry.author e ≠ some t → J tr → J (e :: tr))
    (hstep : ∀ w', (protocol rt configOf).rely t w w' → Inv rt configOf w' → ∀ old,
      lookup config.authority w'.trace = some (version, old) →
      Step rt (whoOf w'.calls) w'.trace (.update (some t) config.authority secret) ∧
      At t owner config J (w'.push (.update (some t) config.authority secret))) :
    Safe (protocol rt configOf) t
      (compareAndSwapSecret config.authSecretRef.name (some version) secret)
      (fun ok w' => ok = true → At t owner config J w') (fun _ _ => True) w := by
  have hA : ∀ w w', Grows t w w' → At t owner config J w → At t owner config J w' :=
    fun _ _ hg ha => ha.of_grows hJ hg
  apply Safe.mono (Safe.swapped hA (fun _ _ _ _ => trivial) ?_)
  · intro ok w' hok htrue
    rw [htrue, if_pos rfl] at hok
    exact hok
  · exact fun _ _ _ => trivial
  refine Safe.update fun w1 hr hi => ⟨fun old hold => ?_, fun _ => Safe.fail fun _ _ _ => trivial⟩
  obtain ⟨hlegal, hat⟩ := hstep w1 hr hi old hold
  exact ⟨hlegal.keeps hi, Safe.ret fun w2 hr2 _ => hA _ w2 hr2.1 hat,
    Safe.fail fun _ _ _ => trivial⟩

theorem commit_safe (claimed : Secret) (given : String) {encoded lease binding : String}
    {refreshed : NativeCodexResult}
    (h : At t owner config (Refreshed t config claimed given refreshed.authJson) w)
    (hlease : claimed.annotations.lease = some lease)
    (hencoded : config.material claimed = some encoded) :
    Runs rt configOf t (commit rt status config owner binding lease encoded refreshed) w := by
  have hstable : ∀ e tr, Entry.author e ≠ some t →
      Refreshed t config claimed given refreshed.authJson tr →
      Refreshed t config claimed given refreshed.authJson (e :: tr) := fun _ _ he hr => hr.other he
  unfold commit
  refine Safe.get fun w1 hr1 hi1 => ⟨?_, Safe.fail fun _ _ _ => trivial⟩
  have h1 := h.of_grows hstable hr1.1
  generalize hlook : lookup (.secret config.authSecretRef.name) w1.trace = found
  cases found with
  | none => exact runs_ret _
  | some p =>
    obtain ⟨version, latest⟩ := p
    change Runs rt configOf t (if _ then _ else _) w1
    split
    · exact runs_ret _
    rename_i hcheck
    simp only [not_or, not_not] at hcheck
    refine Safe.now fun w2 w3 hr2 hi2 hs2 => ?_
    split
    · exact runs_ret _
    rename_i hexpired
    split
    · exact Safe.fail fun _ _ _ => trivial
    refine Safe.now fun w4 w5 hr4 _ hs4 => ?_
    split
    · exact runs_ret _
    have h5 := (((h1.of_grows hstable hr2.1).same hs2).of_grows hstable hr4.1).same hs4
    have hfrom : ∀ w6, Grows t w5 w6 → w1.trace <:+ w6.trace := by
      intro w6 hg
      have h12 := hr2.1.later.suffix
      rw [← hs2.trace] at h12
      have h14 := h12.trans hr4.1.later.suffix
      rw [← hs4.trace] at h14
      exact h14.trans hg.later.suffix
    refine Safe.bind (Safe.mono (swapAuthority_safe owner (J := Commits t config)
      (fun e tr _ hc => hc.cons e) ?_) ?_ fun _ _ _ => trivial)
    · intro w6 hr6 hi6 old hold
      have h6 := h5.of_grows hstable hr6.1
      -- the version read again is still current
      have hstored : Stored w6.trace version config.authority latest := by
        obtain ⟨new, htr⟩ := hfrom w6 hr6.1
        rw [← htr]
        exact (lookup_stored hlook).mono new
      have hsame := hstored.eq_of_lookup hold
      subst hsame
      have hheld : LeaseHeld rt t config version latest w1.trace := by
        refine ⟨claimed, h1.phase.1.1, hlook, hcheck.1.trans hlease.symm,
          hcheck.2.trans hencoded.symm, ?_⟩
        obtain ⟨new, htr⟩ := hr2.1.later.suffix
        refine notAfter_mono ?_ (by simpa using hexpired)
        rw [← htr]
        exact Legal.clockOf_le (htr ▸ hi2.legal)
      -- the result came before the authority was read again
      have hresult := h1.phase.2
      exact ⟨.commit h6.who hold h6.phase.1.2.2 (hfrom w6 hr6.1) hresult hheld,
        h6.push fun _ => ⟨_, List.mem_cons_self, rfl⟩⟩
    · intro ok w6 hok _
      cases ok with
      | false => exact runs_ret _
      | true =>
        have h6 := hok rfl
        refine Safe.get fun w7 hr7 _ => ⟨?_, Safe.fail fun _ _ _ => trivial⟩
        have h7 := h6.of_grows (fun e _ _ hc => hc.cons e) hr7.1
        generalize lookup (.secret config.authSecretRef.name) w7.trace = found
        cases found with
        | none => exact runs_ret _
        | some durable =>
          change Runs rt configOf t (publish rt config owner durable
            (rt.toBase64 (rt.jsonStringify refreshed.access.json)) binding >>= _) w7
          refine Safe.bind (Safe.mono (publish_safe phase_committed h7 durable _ binding)
            ?_ fun _ _ _ => trivial)
          intro published w8 _ _
          cases published <;> exact runs_ret _

theorem refresh_safe {claimed : Secret} {encoded lease binding : String}
    (h : At t owner config (Claimed t config claimed) w)
    (hlease : claimed.annotations.lease = some lease)
    (hencoded : config.material claimed = some encoded) :
    Runs rt configOf t (refresh rt status config owner binding lease encoded) w := by
  unfold refresh
  refine Safe.asked fun w1 hr1 hi1 c a ha => ?_
  have h1 := h.of_grows (fun _ _ he hc => hc.other he) hr1.1
  obtain ⟨hclaim, hinvoked, hcommits⟩ := h1.phase
  cases ha
  refine ⟨rfl, ⟨hi1.legal, .native h1.who hclaim hencoded hinvoked hcommits⟩, ?_⟩
  -- the native refresh has been invoked, and is awaited
  generalize hw2 : World.answered w1 t _ = w2
  have h2 : At t owner config (Refreshing t config claimed (rt.fromBase64 encoded)) w2 := by
    subst hw2
    refine ⟨h1.lt, h1.who, hclaim.cons _, List.mem_cons_self, not_commits_cons hcommits ?_⟩
    intro v _ heq
    cases heq
  refine Safe.asked fun w3 hr3 hi3 c a ha => ?_
  have h3 := h2.of_grows (fun _ _ he hc => hc.other he) hr3.1
  simp only [answer] at ha
  split at ha
  · rename_i err _
    cases ha
    refine ⟨rfl, hi3.legal, ?_⟩
    cases err with
    | native stage => cases stage <;> exact runs_ret _
    | store e => exact runs_ret _
    | invalid => exact runs_ret _
  · split at ha
    · rename_i result _ hrotates
      cases ha
      refine ⟨rfl, ⟨hi3.legal, .refreshed h3.phase.2.1 hrotates⟩, ?_⟩
      refine commit_safe claimed (rt.fromBase64 encoded) ?_ hlease hencoded
      refine ⟨h3.lt, h3.who, ⟨h3.phase.1.cons _, List.mem_cons_of_mem _ h3.phase.2.1,
        not_commits_cons h3.phase.2.2 ?_⟩, List.mem_cons_self⟩
      intro v _ heq
      cases heq
    · cases ha

/-- The authority read earlier may be claimed for its token. -/
structure Claimable (rt : Runtime) (owner : String) (config : Config) (encoded token : String)
    (w : World sys) (authority : Nat × Secret) : Prop where
  stored : Stored w.trace authority.1 config.authority authority.2
  unowned : ownedByOther authority.2 owner = false
  material : config.material authority.2 = some encoded
  token : refreshToken rt encoded = some token

theorem Claimable.later {encoded token : String} {authority : Nat × Secret} {w' : World sys}
    (h : Claimable rt owner config encoded token w authority)
    (hl : ∃ new, w'.trace = new ++ w.trace) :
    Claimable rt owner config encoded token w' authority := by
  obtain ⟨new, htr⟩ := hl
  refine ⟨?_, h.unowned, h.material, h.token⟩
  rw [htr]
  exact h.stored.mono new

theorem Same.grown {w w' w'' : World sys} (hs : Same w' w'') (h : Grows t w w') :
    ∃ new, w''.trace = new ++ w.trace := by
  rw [hs.trace]
  exact h.later.trace

theorem claimAndRefresh_safe {encoded token binding : String} {authority : Nat × Secret}
    (hknown : Known configOf owner config) (h : At t owner config (Fresh t config) w)
    (hc : Claimable rt owner config encoded token w authority)
    (hintent : authority.2.annotations.intent ≠ some (rt.sha256 token)) :
    Runs rt configOf t (claimAndRefresh rt status config owner binding encoded token authority.1
      authority.2) w := by
  have hfresh := phase_fresh (t := t) hknown.output_ne
  unfold claimAndRefresh
  refine Safe.randomUUID fun lease w1 w2 hr1 hs1 => ?_
  refine Safe.now fun w3 w4 hr3 _ hs3 => ?_
  have h4 := (((h.of_grows hfresh.other hr1.1).same hs1).of_grows hfresh.other hr3.1).same hs3
  have hc4 := (hc.later (hs1.grown hr1.1)).later (hs3.grown hr3.1)
  generalize hclaimed : claimedSecret authority.2 owner (rt.sha256 token) lease _ = claimed
  have hshape : claimed.annotations.intent ≠ none ∧ claimed.annotations.lease = some lease ∧
      config.material claimed = some encoded := by
    subst hclaimed
    exact ⟨Option.some_ne_none _, rfl, hc.material⟩
  refine Safe.bind (Safe.mono (swapAuthority_safe owner (J := Claimed t config claimed)
    (fun e tr he hj => hj.other he) ?_) ?_ fun _ _ _ => trivial)
  · intro w5 hr5 hi5 old hold
    have h5 := h4.of_grows hfresh.other hr5.1
    -- the version read is still current
    have hsame := (hc4.later hr5.1.later.trace).stored.eq_of_lookup hold
    subst hsame
    have htoken : tokenAt rt config authority.2 = some token := by
      rw [tokenAt, hc.material]
      exact hc.token
    have hstep : Step rt (whoOf w5.calls) w5.trace (.update (some t) config.authority claimed) := by
      subst hclaimed
      exact .claim h5.who hold hc.unowned htoken hintent h5.phase.not_commits
    refine ⟨hstep, h5.push fun hphase => ⟨⟨List.mem_cons_self, hshape.1⟩, ?_, ?_⟩⟩
    · rintro ⟨authJson, hmem⟩
      rcases List.mem_cons.mp hmem with heq | hold'
      · cases heq
      · exact hphase.1 ⟨authJson, hold'⟩
    · refine not_commits_cons hphase.not_commits ?_
      rintro v hnone heq
      cases heq
      exact hshape.1 hnone
  · intro ok w5 hok _
    cases ok with
    | false => exact runs_ret _
    | true => exact refresh_safe (hok rfl) hshape.2.1 hshape.2.2

theorem publishCached_safe {authDigest binding : String} {authority : Nat × Secret}
    (hknown : Known configOf owner config) (h : At t owner config (Fresh t config) w) :
    Stays rt configOf t owner config (Fresh t config)
      (publishCached rt status config owner binding authDigest authority) w := by
  have hfresh := phase_fresh (t := t) hknown.output_ne
  unfold publishCached
  split
  · exact stays_ret hfresh h none
  refine Safe.now fun w1 w2 hr1 _ hs1 => ?_
  have h2 := (h.of_grows hfresh.other hr1.1).same hs1
  split
  · refine Safe.bind (Safe.attempt (Safe.mono (publish_safe hfresh h2 authority _ binding) ?_ ?_))
    · intro published w3 h3 _
      cases published <;> exact stays_ret hfresh h3 _
    · intro e w3 h3 _
      exact stays_ret hfresh h3 none
  · exact stays_ret hfresh h2 none

theorem renewOwned_safe {encoded token : String} {authority : Nat × Secret}
    {output : Option (Nat × Secret)} (hknown : Known configOf owner config)
    (h : At t owner config (Fresh t config) w)
    (hc : Claimable rt owner config encoded token w authority)
    (hout : OutputRead owner config w output) :
    Runs rt configOf t (renewOwned rt status config owner encoded authority output token) w := by
  have hfresh := phase_fresh (t := t) hknown.output_ne
  unfold renewOwned
  simp only
  split
  · refine Safe.now fun w1 w2 hr1 _ hs1 => ?_
    split
    · exact runs_ret _
    have h2 := (h.of_grows hfresh.other hr1.1).same hs1
    refine Safe.bind (Safe.mono (invalidateOutput_safe hfresh h2
      (hout.later (hs1.grown hr1.1))) ?_ fun _ _ _ => trivial)
    exact fun _ _ _ _ => runs_ret _
  rename_i hintent
  refine Safe.bind (Safe.mono (Safe.later (publishCached_safe hknown h)) ?_ fun _ _ _ => trivial)
  rintro done w1 ⟨hl1, h1⟩ _
  cases done with
  | some status => exact runs_ret _
  | none =>
    have hc1 := hc.later hl1.trace
    change Runs rt configOf t (if _ then _ else _) w1
    split
    · refine Safe.bind (Safe.mono (Safe.later (invalidateOutput_safe hfresh h1
        (hout.later hl1.trace))) ?_ fun _ _ _ => trivial)
      rintro usable w2 ⟨hl2, h2⟩ _
      split
      · exact runs_ret _
      · exact claimAndRefresh_safe hknown h2 (hc1.later hl2.trace) hintent
    · exact claimAndRefresh_safe hknown h1 hc1 hintent

theorem renew_safe {profile : CredentialProfile} (hprofile : Consistent configOf profile)
    (hlt : t.idx < w.next) {height : Nat} (hcall : w.calls t = some ⟨.renew profile, height⟩)
    (hnone : ∀ e ∈ w.trace, e.author ≠ some t) :
    Runs rt configOf t (renew rt profile) w := by
  obtain ⟨config, hconfig, hknown⟩ := hprofile
  have hfresh := phase_fresh (t := t) hknown.output_ne
  have h : At t (ownerOf profile) config (Fresh t config) w := by
    refine ⟨hlt, by simp [whoOf, hcall, hconfig], ?_, ?_⟩
    · rintro ⟨authJson, hmem⟩
      exact hnone _ hmem rfl
    · intro v hmem
      exact hnone _ hmem rfl
  unfold renew
  rw [hconfig]
  refine Safe.get fun w1 hr1 _ => ⟨?_, Safe.fail fun _ _ _ => trivial⟩
  have h1 := h.of_grows hfresh.other hr1.1
  generalize hlook : lookup (.secret config.authSecretRef.name) w1.trace = found
  cases found with
  | none => exact runs_ret _
  | some p =>
    obtain ⟨version, authority⟩ := p
    change Runs rt configOf t (if _ then _ else _) w1
    split
    · exact runs_ret _
    rename_i hencoded
    split
    · exact runs_ret _
    rename_i howner
    refine Safe.get fun w2 hr2 _ => ⟨?_, Safe.fail fun _ _ _ => trivial⟩
    have h2 := h1.of_grows hfresh.other hr2.1
    generalize hlook2 : lookup (.secret config.outputSecretName) w2.trace = output
    change Runs rt configOf t (if _ then _ else _) w2
    split
    · exact runs_ret _
    rename_i hout
    split
    · exact runs_ret _
    rename_i token htoken
    refine renewOwned_safe hknown h2 ?_ ?_
    · refine Claimable.later ⟨lookup_stored hlook, by simpa using howner, ?_, htoken⟩
        hr2.1.later.trace
      cases hmaterial : authority.get config.authSecretRef.key with
      | none => simp [hmaterial] at hencoded
      | some encoded => simp [Config.material, hmaterial]
    · intro p hp
      subst hp
      exact ⟨lookup_stored hlook2, by simpa using hout⟩

end Renewal

/-! ### Every run -/

section Run

variable {rt : Runtime} {configOf : String → Option Config} {t : Tid} {w : World sys}

theorem consistent_of_valid {profile : CredentialProfile}
    (hconfig : profile.codexSubscription.isSome = true →
      configOf (ownerOf profile) = profile.codexSubscription)
    (hsome : ¬ profile.codexSubscription.isNone = true) (hvalid : profileValid profile = true) :
    Consistent configOf profile := by
  cases hsub : profile.codexSubscription with
  | none => simp [hsub] at hsome
  | some config =>
    have hconfigured := hconfig (by simp [hsub])
    have hchecks := (Bool.and_eq_true_iff.mp hvalid).2
    simp only [hsub, Bool.and_eq_true, bne_iff_ne] at hchecks
    exact ⟨config, hsub, hconfigured.trans hsub, hchecks.1, hchecks.2, ownerOf_ne profile⟩

theorem pays_fork {x : Ext} {a : Answer sys x} (hi : Inv rt configOf w) (hnotes : a.notes = [])
    (hforks : ∀ call ∈ a.forks, Pre configOf call) :
    (protocol rt configOf).Pays t w ((w.answered t a).spawnAll t.proc a.forks) := by
  have hnew : ∀ u s, w.calls u = none →
      ((w.answered t a).spawnAll t.proc a.forks).calls u = some s → Pre configOf s.call := by
    intro u s hnone hs
    rcases World.spawnAll_height hs with hold | ⟨_, hcall, _⟩
    · rw [World.answered_calls, hnone] at hold
      cases hold
    · exact hforks _ hcall
  refine ⟨Inv.step hi ?_ ?_ ?_ hnew, fun _ _ _ => trivial, hnew⟩
  · exact World.Numbered.spawnAll (w := w.answered t a) hi.numbered _ _
  · exact fun u hu => World.spawnAll_calls_of_lt (w := w.answered t a) hu _ _
  · rw [World.spawnAll_trace, World.answered_trace, hnotes]
    exact hi.legal

theorem reconcile_safe {profiles : List CredentialProfile}
    (h : Pre configOf (.reconcile profiles)) (w : World sys) :
    Runs rt configOf t (reconcile profiles) w := by
  induction profiles generalizing w with
  | nil => exact runs_ret _
  | cons input rest ih =>
    have hrest := ih fun p hp => h p (List.mem_cons_of_mem _ hp)
    unfold reconcile
    split
    · exact hrest w
    rename_i hsome
    split
    · exact Safe.bind (Safe.mono (hrest w) (fun _ _ _ _ => runs_ret _) fun _ _ _ => trivial)
    rename_i hvalid
    have hinput := consistent_of_valid (h input List.mem_cons_self) hsome
      (by simpa using hvalid)
    refine Safe.ext fun w1 hr1 hi1 c a ha => ?_
    cases ha
    refine ⟨pays_fork hi1 rfl ?_, ?_⟩
    · intro call hcall
      obtain rfl := List.mem_singleton.mp hcall
      exact hinput
    · refine Safe.asked fun w2 _ hi2 c a ha => ?_
      simp only [answer] at ha
      obtain ⟨result, _, rfl⟩ := Option.map_eq_some_iff.mp ha
      refine ⟨rfl, hi2.legal, ?_⟩
      change Runs rt configOf t (reconcile rest >>= _) _
      refine Safe.bind (Safe.mono (hrest _) ?_ fun _ _ _ => trivial)
      intro statuses w3 _ _
      cases result <;> exact runs_ret _

theorem sound (rt : Runtime) (configOf : String → Option Config) :
    (protocol rt configOf).Sound where
  init := by
    refine ⟨fun _ _ => rfl, trivial, ?_⟩
    intro t profile height hcall
    cases hcall
  start := by
    intro w p c hi hentry
    have hpre : Pre configOf c := by
      cases c with
      | reconcile profiles =>
        intro profile hprofile
        exact of_decide_eq_true (List.all_eq_true.mp hentry profile hprofile)
      | renew profile => cases hentry
    refine ⟨Inv.step hi (World.Numbered.spawn hi.numbered p c)
      (fun u hu => World.spawn_calls_of_lt hu p c) hi.legal ?_, fun _ _ => trivial, hpre⟩
    intro u s hnone hs
    rcases World.spawn_height hs with hold | ⟨_, rfl⟩
    · rw [hnone] at hold
      cases hold
    · exact hpre
  crash := fun _ hi => ⟨⟨hi.numbered, hi.legal, hi.consistent⟩, fun _ _ => trivial⟩
  env := by
    intro w e new g hi henv
    have hpush : ∀ {entry : Entry sys.Key sys.Val sys.Note},
        Step rt (whoOf w.calls) w.trace entry →
        Inv rt configOf { w with trace := [entry] ++ w.trace, glob := g } := fun hstep =>
      ⟨hi.numbered, ⟨hi.legal, hstep⟩, hi.consistent⟩
    refine ⟨?_, fun _ => trivial⟩
    change CodexSubscription.env rt e w = some (new, g) at henv
    cases e with
    | clock instant =>
      simp only [CodexSubscription.env] at henv
      split at henv
      · rename_i hclock
        cases henv
        exact hpush (.clock hclock.1)
      · cases henv
    | write name secret =>
      simp only [CodexSubscription.env] at henv
      split at henv
      · rename_i hallowed
        split at henv
        · cases henv
          exact hpush (.supply hallowed)
        · cases henv
          exact hpush (.edit hallowed)
      · cases henv
    | delete name =>
      simp only [CodexSubscription.env] at henv
      split at henv
      · cases henv
      · cases henv
        exact hpush .remove
  body := by
    intro w t c hi hpre hcall hlt hnone
    change Runs rt configOf t (program rt t c) w
    cases c with
    | reconcile profiles =>
      exact Safe.bind (Safe.mono (reconcile_safe hpre w) (fun _ _ _ _ => runs_ret _)
        fun _ _ _ => trivial)
    | renew profile =>
      refine Safe.bind (Safe.attempt (Safe.mono (renew_safe hpre hlt hcall hnone) ?_ ?_))
      · intro status w1 _ _
        refine Safe.asked fun w2 _ hi2 c a ha => ?_
        cases ha
        exact ⟨rfl, hi2.legal, runs_ret _⟩
      · intro e w1 _ _
        refine Safe.asked fun w2 _ hi2 c a ha => ?_
        cases ha
        exact ⟨rfl, hi2.legal, runs_ret _⟩

end Run

/-- Thread `t` renews the profile with this identity and subscription. -/
def Renews (w : World sys) (t : Tid) (owner : String) (config : Config) : Prop :=
  whoOf w.calls t = some (owner, config)

/-- The fence, in every reachable configuration.  Each field reads an entry `e` of the
    history together with the history `older` it was made on. -/
structure FenceKept (rt : Runtime) (w : World sys) : Prop where
  /-- a refresh token is refreshed again only after its earlier result was committed -/
  token_once : ∀ newer older t t' authJson authJson' token,
    w.trace = newer ++ .note (some t) (.native authJson) :: older →
    .note (some t') (.native authJson') ∈ older → authToken rt authJson = some token →
    authToken rt authJson' = some token →
    ∃ owner config, Renews w t' owner config ∧ ResultCommitted rt t' config older
  /-- a completion commits a native result only when, in a read of the authority made
      after that result, the lease and the auth material were those of its claim and the
      lease had not expired -/
  commits_held : ∀ newer older t owner config committed,
    w.trace = newer ++ .update (some t) config.authority committed :: older →
    Renews w t owner config → committed.annotations.intent = none →
    ∃ authJson, config.material committed = some (rt.toBase64 authJson) ∧
      HeldWhenRead rt t config authJson older
  /-- what was not committed is not published -/
  publishes_committed : ∀ newer e older t owner config, w.trace = newer ++ e :: older →
    e.author = some t → Renews w t owner config → e.key? = some config.output →
    Invoked t older → ResultCommitted rt t config older
  /-- a renewal creates its output, and replaces only what its identity owns or, at the
      authority, what no one owns -/
  owned : ∀ newer e older t owner config k, w.trace = newer ++ e :: older →
    e.author = some t → Renews w t owner config → e.key? = some k →
    (k = config.output ∧ lookup k older = none) ∨
      ∃ n old, lookup k older = some (n, old) ∧ MayReplace owner config k old
  /-- only renewals write in the name of a broker -/
  authors : ∀ e ∈ w.trace, ∀ t, e.author = some t → e.key?.isSome = true →
    ∃ owner config, Renews w t owner config

theorem Step.author {rt : Runtime} {who : Who} {older : History}
    {e : Entry Key (fun _ => Secret) Note} (h : Step rt who older e) {t : Tid}
    (hauthor : e.author = some t) (hkey : e.key?.isSome = true) :
    ∃ owner config, who t = some (owner, config) := by
  cases h with
  | claim ht => cases hauthor; exact ⟨_, _, ht⟩
  | commit ht => cases hauthor; exact ⟨_, _, ht⟩
  | invalidate ht => cases hauthor; exact ⟨_, _, ht⟩
  | republish ht => cases hauthor; exact ⟨_, _, ht⟩
  | publish ht => cases hauthor; exact ⟨_, _, ht⟩
  | native => cases hkey
  | refreshed => cases hkey
  | clock => cases hkey
  | supply => cases hauthor
  | edit => cases hauthor
  | remove => cases hauthor

theorem fence_kept (rt : Runtime) (configOf : String → Option Config)
    (c : (machine rt configOf).Config) (h : (machine rt configOf).Reachable c) :
    FenceKept rt c.world := by
  have hinv : Inv rt configOf c.world := ((sound rt configOf).reachable h).inv
  have hwho := hinv.identified
  -- each entry was a legal step on the history below it
  have hat : ∀ {newer e older}, c.world.trace = newer ++ e :: older →
      Legal rt (whoOf c.world.calls) older ∧ Step rt (whoOf c.world.calls) older e := by
    intro newer e older htr
    have hlegal := hinv.legal
    rw [htr] at hlegal
    exact hlegal.append
  constructor
  · intro newer older t t' authJson authJson' token htr hmem htoken htoken'
    obtain ⟨hlegal, hstep⟩ := hat htr
    exact hstep.native_once hlegal hwho hmem htoken htoken'
  · intro newer older t owner config committed htr ht hintent
    exact (hat htr).2.commit_inv ht (hwho t owner config ht) hintent
  · intro newer e older t owner config htr hauthor ht hkey hinvoked
    obtain ⟨hlegal, hstep⟩ := hat htr
    have hknown := hwho t owner config ht
    exact hlegal.committed ht hknown (hstep.publishes hauthor ht hknown hkey hinvoked)
  · intro newer e older t owner config k htr hauthor ht hkey
    obtain ⟨hlegal, hstep⟩ := hat htr
    exact hstep.owned (hlegal.facts hwho) hauthor ht hkey
  · intro e he t hauthor hkey
    obtain ⟨newer, older, _, _, hstep⟩ := hinv.legal.of_mem he
    exact hstep.author hauthor hkey

/-! ### One renewal -/

def authText (token : String) : String := "\x7b\"tokens\":\x7b\"refresh_token\":\"" ++ token ++ "\"\x7d\x7d"

def authEncoded1 : String := "eyJ0b2tlbnMiOnsicmVmcmVzaF90b2tlbiI6InIxIn19"
def authEncoded2 : String := "eyJ0b2tlbnMiOnsicmVmcmVzaF90b2tlbiI6InIyIn19"

def accessText : String :=
  "\x7b\"accessToken\":\"a\",\"chatgptAccountId\":\"c\",\"chatgptPlanType\":null," ++
    "\"expiresAt\":\"1970-01-01T01:00:00.000Z\"\x7d"

def accessEncoded : String :=
  "eyJhY2Nlc3NUb2tlbiI6ImEiLCJjaGF0Z3B0QWNjb3VudElkIjoiYyIsImNoYXRncHRQbGFuVHlwZSI6bnVsbCwi" ++
    "ZXhwaXJlc0F0IjoiMTk3MC0wMS0wMVQwMTowMDowMC4wMDBaIn0="

def bindingText : String :=
  "\x7b\"config\":\x7b\"authSecretRef\":\x7b\"name\":\"authority\",\"key\":\"auth.json\"\x7d," ++
    "\"outputSecretName\":\"worker-access\"\x7d,\"owner\":\"test/p/u\"\x7d"

def authValue (token : String) : Json := .obj [("tokens", .obj [("refresh_token", .str token)])]

mutual

/-- JSON text of values whose strings need no escapes. -/
def stringify : Json → String
  | .null => "null"
  | .bool b => toString b
  | .num n => toString n
  | .str s => "\"" ++ s ++ "\""
  | .arr items => "[" ++ ",".intercalate (stringifyItems items) ++ "]"
  | .obj fields => "\x7b" ++ ",".intercalate (stringifyFields fields) ++ "\x7d"

def stringifyItems : List Json → List String
  | [] => []
  | item :: rest => stringify item :: stringifyItems rest

def stringifyFields : List (String × Json) → List String
  | [] => []
  | (key, value) :: rest => ("\"" ++ key ++ "\":" ++ stringify value) :: stringifyFields rest

end

/-- The values the runtime computes in the run below. -/
def demoRuntime : Runtime where
  sha256 text := ([
    ("r1", "82f3e9c695dc6b8d1b11818d5701919e286de8d47f7c3eb3100c485f79e57828"),
    (authEncoded1, "c8cc9561415af566d8988b9ca9f9f1c60c10969b53665c820f4bfe8d72d29a4c"),
    (authEncoded2, "1949275021e532d4a849663db2191a1ca1bb5bb44fd1bd2613725f6cb7bed3c1"),
    (bindingText, "a19c1a27640ba6c70eac553180359127c5fe655b0430b51856cb695f36c7b97e")].lookup
      text).getD ""
  fromBase64 text := ([(authEncoded1, authText "r1"), (authEncoded2, authText "r2"),
    (accessEncoded, accessText)].lookup text).getD ""
  toBase64 text := ([(authText "r1", authEncoded1), (authText "r2", authEncoded2),
    (accessText, accessEncoded)].lookup text).getD ""
  jsonParse text :=
    [(authText "r1", authValue "r1"), (authText "r2", authValue "r2")].lookup text
  jsonStringify := stringify
  dateParse text := [("1970-01-01T01:00:00.000Z", (3600000 : Int)),
    ("1970-01-01T00:01:00.000Z", 60000)].lookup text
  datetime text := text == "1970-01-01T01:00:00.000Z"

def demoConfig : Config := ⟨⟨"authority", "auth.json"⟩, "worker-access"⟩

def demoProfile : CredentialProfile where
  name := "p"
  profileNamespace := "test"
  uid := some "u"
  codexSubscription := some demoConfig

def demoMachine : Machine sys :=
  machine demoRuntime fun owner => if owner = "test/p/u" then some demoConfig else none

def demoAsk (i : Nat) (choice : Choice) : demoMachine.Move := .run ⟨0, i⟩ (.ext choice)
def demoStore (i : Nat) : demoMachine.Move := .run ⟨0, i⟩ (.store {})

/-- The operator supplies a login, and one pass renews the profile. -/
def demoRun : List demoMachine.Move :=
  let result : NativeCodexResult :=
    ⟨authText "r2", ⟨"a", "c", none, "1970-01-01T01:00:00.000Z"⟩⟩
  [.env (.write "authority" { data := [("auth.json", authEncoded1)] }),
    .start 0 (.reconcile [demoProfile]), demoAsk 0 {},
    demoStore 1, demoStore 1, demoAsk 1 { uuid := "lease" }, demoAsk 1 {}, demoStore 1,
    demoAsk 1 {}, demoAsk 1 { native := .ok result },
    demoStore 1, demoAsk 1 {}, demoAsk 1 {}, demoStore 1,
    demoStore 1, demoStore 1, demoStore 1, demoStore 1, demoAsk 1 {}, demoAsk 0 {}]

def published (c : demoMachine.Config) : Option String :=
  (lookup (ν := fun _ => Secret) (.secret "worker-access") c.world.trace).bind fun p =>
    p.2.get "access.json"

theorem fence_kept_demo : ∃ c, demoMachine.initial.moves demoRun = some c ∧
    published c = some accessEncoded ∧ FenceKept demoRuntime c.world := by
  have hrun : (demoMachine.initial.moves demoRun).bind published = some accessEncoded := by
    decide +kernel
  obtain ⟨c, hc, hpublished⟩ := Option.bind_eq_some_iff.mp hrun
  exact ⟨c, hc, hpublished, fence_kept demoRuntime _ c (Machine.Reachable.init.moves hc)⟩

end PaseoGateway.CodexSubscription
