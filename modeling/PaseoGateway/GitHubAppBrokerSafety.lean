/-
  PaseoGateway/GitHubAppBrokerSafety.lean
  =======================================
  **Every output token belongs to the configuration annotated on it.**

  What a broker may write is the law of its history (`Step`): a lock over nothing or
  over a Secret of its own profile, and an outcome over a Secret that carries its own
  lock.  A lock id contains a UUID drawn by one thread only, so a Secret under the
  lock of a thread is the one that thread wrote (`Legal.locked`), annotated with its
  profile and its configuration.  The token minted for that configuration is therefore
  stored under it, and a lock for another configuration blanks the token first
  (`Legal.minted`).
-/
import PaseoGateway.GitHubAppBroker
import PaseoGateway.LegalHistory

namespace PaseoGateway.GitHubAppBroker

open Async

/-! ### The law of a broker's history -/

/-- The identity and configuration a `renew` call works for. -/
def whoOf (calls : Calls sys) (t : Tid) : Option (String × GitHubApp) :=
  match calls t with
  | some ⟨.renew profile, _⟩ => profile.githubApp.map fun app => (identityOf profile, app)
  | _ => none

theorem whoOf_mono {calls calls' : Calls sys} (hle : calls.Le calls') {t : Tid}
    {p : String × GitHubApp} (h : whoOf calls t = some p) : whoOf calls' t = some p := by
  cases hcall : calls t with
  | none => simp [whoOf, hcall] at h
  | some s =>
    rw [whoOf, hle t s hcall]
    rw [whoOf, hcall] at h
    exact h

abbrev GitHubApp.output (app : GitHubApp) : Key := .secret app.outputSecretName

section Law

variable (rt : Runtime) (ownerId : Nat → String)

/-- The lock id of a thread that has drawn this UUID. -/
def lockIdOf (t : Tid) (uuid : String) : String := ownerId t.proc ++ "/" ++ uuid

/-- The thread drew this UUID for its lock. -/
def Drew (t : Tid) (uuid : String) (tr : History) : Prop := .note (some t) (.uuid uuid) ∈ tr

/-- GitHub answered a request of the thread for this configuration with this token,
    and the answer was accepted. -/
def Minted (t : Tid) (app : GitHubApp) (token expiry : String) (tr : History) : Prop :=
  ∃ encoded jwt body before after, rt.signJwt encoded app.appId before = some jwt ∧
    .note (some t) (.answered (mintRequest app jwt) (some body)) ∈ tr ∧
    acceptToken rt app after body = .ok (token, expiry)

/-- The thread holds the lock on the Secret in place: the Secret carries its lock id,
    and the lock had not run out at the instant read after the Secret was.  Whatever was
    answered to the thread, or drawn by it, was so before that. -/
structure Holds (t : Tid) (uuid : String) (k : Key) (version : Nat) (latest : Secret)
    (read : History) (older : History) : Prop where
  drew : Drew t uuid older
  current : lookup k older = some (version, latest)
  lockId : latest.annotations.lockId = some (lockIdOf ownerId t uuid)
  suffix : read <:+ older
  stored : Stored read version k latest
  unexpired : notAfter rt latest.annotations.lockUntil (clockOf read) = false
  quiet : notesOf (S := sys) t older = notesOf (S := sys) t read

/-- What a thread that works for this configuration may write over the history. -/
inductive Write (t : Tid) (identity : String) (app : GitHubApp) (older : History) :
    Secret → Prop
  | create {uuid lockUntil : String} : Drew t uuid older → lookup app.output older = none →
      Write t identity app older
        (claimedSecret none identity (rt.fingerprint app) (lockIdOf ownerId t uuid) lockUntil)
  | claim {uuid lockUntil : String} {version : Nat} {old : Secret} : Drew t uuid older →
      lookup app.output older = some (version, old) → old.annotations.profile = some identity →
      Write t identity app older
        (claimedSecret (some old) identity (rt.fingerprint app) (lockIdOf ownerId t uuid) lockUntil)
  | renewed {uuid token expiry : String} {version : Nat} {latest : Secret} {read : History} :
      Holds rt ownerId t uuid app.output version latest read older →
      Minted rt t app token expiry read →
      Write t identity app older (renewedSecret rt latest token expiry)
  | failed {uuid failure : String} {version : Nat} {latest : Secret} {read later : History} :
      Holds rt ownerId t uuid app.output version latest read older →
      read <:+ later → later <:+ older →
      Write t identity app older (failedSecret latest failure (clockOf later))

inductive Step (calls : Calls sys) (older : History) :
    Entry Key (fun _ => Secret) Note → Prop
  | write {t : Tid} {identity : String} {app : GitHubApp} {s : Secret}
      {e : Entry Key (fun _ => Secret) Note} : whoOf calls t = some (identity, app) →
      e.author = some t → e.puts app.output = some s →
      Write rt ownerId t identity app older s → Step calls older e
  | supply {k : Key} {data : List (String × String)} {e : Entry Key (fun _ => Secret) Note} :
      e.author = none → e.puts k = some { data } → Step calls older e
  | remove {k : Key} : Step calls older (.delete none k)
  | uuid {a : Option Tid} {value : String} : freshUuid older value = true →
      Step calls older (.note a (.uuid value))
  | answered {a : Option Tid} {request : MintRequest} {body : Option Json} :
      Step calls older (.note a (.answered request body))
  | clock {a : Option Tid} {instant : Int} : Step calls older (.note a (.clock instant))
  | configured {a : Option Tid} {identity : String} {app : GitHubApp} :
      Step calls older (.note a (.configured identity app))

def law : Law sys where
  step := Step rt ownerId
  mono := by
    intro calls calls' older e hle h
    cases h with
    | write ht hauthor hputs hwrite => exact .write (whoOf_mono hle ht) hauthor hputs hwrite
    | supply hauthor hputs => exact .supply hauthor hputs
    | remove => exact .remove
    | uuid hfresh => exact .uuid hfresh
    | answered => exact .answered
    | clock => exact .clock
    | configured => exact .configured

end Law

/-! ### Locks -/

section Facts

variable {rt : Runtime} {ownerId : Nat → String} {calls : Calls sys} {tr : History}

theorem isDrawn_uuid {a : Option Tid} {uuid : String} :
    isDrawn uuid (.note a (.uuid uuid)) = true := by simp [isDrawn]

/-- The value an entry stores, and the key it is stored under. -/
theorem puts_inj {e : Entry Key (fun _ => Secret) Note} {k k' : Key} {s s' : Secret}
    (h : e.puts k = some s) (h' : e.puts k' = some s') : k = k' ∧ s = s' := by
  have hk : k = k' := Option.some.inj ((Entry.key_of_puts h).symm.trans (Entry.key_of_puts h'))
  subst hk
  exact ⟨rfl, Option.some.inj (h.symm.trans h')⟩

theorem freshUuid_of_step {a : Option Tid} {uuid : String}
    (h : (law rt ownerId).step calls tr (.note a (.uuid uuid))) : freshUuid tr uuid = true := by
  cases h with
  | write _ _ hputs _ => cases hputs
  | supply _ hputs => cases hputs
  | uuid hfresh => exact hfresh

theorem Legal.uuid_length (h : (law rt ownerId).Legal calls tr) {a : Option Tid} {uuid : String}
    (ha : .note a (.uuid uuid) ∈ tr) : uuid.length = 36 := by
  obtain ⟨newer, older, rfl⟩ := List.append_of_mem ha
  have hfresh := freshUuid_of_step h.split.2
  simp only [freshUuid, Bool.and_eq_true, beq_iff_eq] at hfresh
  exact hfresh.1

/-- A UUID is drawn once. -/
theorem Legal.uuid_unique (h : (law rt ownerId).Legal calls tr) {a b : Option Tid}
    {uuid : String} (ha : .note a (.uuid uuid) ∈ tr) (hb : .note b (.uuid uuid) ∈ tr) : a = b := by
  have hnew : ∀ {c d : Option Tid} {older : History},
      (law rt ownerId).step calls older (.note c (.uuid uuid)) →
      .note d (.uuid uuid) ∉ older := by
    intro c d older hstep hmem
    have hfresh := freshUuid_of_step hstep
    simp only [freshUuid, Bool.and_eq_true, List.all_eq_true] at hfresh
    have hnot := hfresh.2 _ hmem
    rw [isDrawn_uuid] at hnot
    cases hnot
  induction tr with
  | nil => cases ha
  | cons e older ih =>
    rcases List.mem_cons.mp ha with rfl | ha'
    · rcases List.mem_cons.mp hb with heq | hb'
      · cases heq
        rfl
      · exact absurd hb' (hnew h.2)
    · rcases List.mem_cons.mp hb with rfl | hb'
      · exact absurd ha' (hnew h.2)
      · exact ih h.1 ha' hb'

theorem lockIdOf_inj {t t' : Tid} {uuid uuid' : String} (hlen : uuid.length = uuid'.length)
    (h : lockIdOf ownerId t uuid = lockIdOf ownerId t' uuid') : uuid = uuid' := by
  have hlist := congrArg String.toList h
  simp only [lockIdOf, String.toList_append] at hlist
  have htail := (List.append_inj' hlist (by rwa [String.length_toList, String.length_toList])).2
  exact String.toList_injective htail

/-- A Secret under a lock was written by the thread that drew the lock id. -/
theorem Legal.locked (h : (law rt ownerId).Legal calls tr) {n : Nat} {k : Key} {s : Secret}
    {lockId : String} (hs : Stored tr n k s) (hlock : s.annotations.lockId = some lockId) :
    ∃ t identity app uuid, whoOf calls t = some (identity, app) ∧ Drew t uuid tr ∧
      lockId = lockIdOf ownerId t uuid ∧ k = app.output ∧
      s.annotations.profile = some identity ∧
      s.annotations.configuration = some (rt.fingerprint app) := by
  obtain ⟨newer, e, older, rfl, -, hputs⟩ := hs
  have hkeep : ∀ {t : Tid} {uuid : String}, Drew t uuid older →
      Drew t uuid (newer ++ e :: older) := fun hd =>
    List.mem_append_right _ (List.mem_cons_of_mem _ hd)
  cases h.split.2 with
  | @write t identity app s' _ ht hauthor hputs' hwrite =>
    obtain ⟨rfl, rfl⟩ := puts_inj hputs hputs'
    cases hwrite with
    | create hdrew _ =>
      cases hlock
      exact ⟨t, identity, app, _, ht, hkeep hdrew, rfl, rfl, rfl, rfl⟩
    | claim hdrew _ _ =>
      cases hlock
      exact ⟨t, identity, app, _, ht, hkeep hdrew, rfl, rfl, rfl, rfl⟩
    | renewed _ _ => cases hlock
    | failed _ _ _ => cases hlock
  | supply _ hputs' =>
    obtain ⟨rfl, rfl⟩ := puts_inj hputs hputs'
    cases hlock
  | remove => cases hputs
  | uuid _ => cases hputs
  | answered => cases hputs
  | clock => cases hputs
  | configured => cases hputs

/-- A thread that holds the lock finds the Secret as it claimed it. -/
theorem Holds.claimed (h : (law rt ownerId).Legal calls tr) {t : Tid} {identity : String}
    {app : GitHubApp} {uuid : String} {version : Nat} {latest : Secret} {read : History}
    (ht : whoOf calls t = some (identity, app))
    (hholds : Holds rt ownerId t uuid app.output version latest read tr) :
    latest.annotations.profile = some identity ∧
      latest.annotations.configuration = some (rt.fingerprint app) := by
  obtain ⟨t', identity', app', uuid', ht', hdrew, hlock, -, hprofile, hconfiguration⟩ :=
    Legal.locked h (lookup_stored hholds.current) hholds.lockId
  have huuid : uuid = uuid' := by
    apply lockIdOf_inj _ hlock
    rw [Legal.uuid_length h hholds.drew, Legal.uuid_length h hdrew]
  subst huuid
  cases Legal.uuid_unique h hholds.drew hdrew
  rw [ht] at ht'
  cases ht'
  exact ⟨hprofile, hconfiguration⟩

/-! ### Tokens -/

/-- The token of an output Secret. -/
def Secret.token (s : Secret) : String := (s.data.lookup "token").getD ""

/-- A stored token was minted for the configuration annotated on its Secret. -/
def Authentic (rt : Runtime) (tr : History) (s : Secret) : Prop :=
  s.annotations.profile ≠ none → s.token ≠ "" →
    ∃ t app token expiry, s.annotations.configuration = some (rt.fingerprint app) ∧
      Minted rt t app token expiry tr ∧ s.token = rt.toBase64 token

theorem Minted.later {t : Tid} {app : GitHubApp} {token expiry : String} {tr' : History}
    (h : Minted rt t app token expiry tr) (hsuffix : tr <:+ tr') :
    Minted rt t app token expiry tr' := by
  obtain ⟨encoded, jwt, body, before, after, hjwt, hmem, haccept⟩ := h
  exact ⟨encoded, jwt, body, before, after, hjwt, hsuffix.mem hmem, haccept⟩

theorem Authentic.cons {s : Secret} (h : Authentic rt tr s)
    (e : Entry Key (fun _ => Secret) Note) : Authentic rt (e :: tr) s := by
  intro hprofile htoken
  obtain ⟨t, app, token, expiry, hconfiguration, hminted, heq⟩ := h hprofile htoken
  exact ⟨t, app, token, expiry, hconfiguration, hminted.later (List.suffix_cons e tr), heq⟩

/-- Each write keeps tokens authentic: a lock for another configuration blanks the
    token, and an outcome is stored under the configuration it was minted for. -/
theorem Write.authentic (h : (law rt ownerId).Legal calls tr)
    (ih : ∀ n k s, Stored tr n k s → Authentic rt tr s) {t : Tid} {identity : String}
    {app : GitHubApp} {s : Secret} (ht : whoOf calls t = some (identity, app))
    (hw : Write rt ownerId t identity app tr s) : Authentic rt tr s := by
  cases hw with
  | create hdrew hnone =>
    intro _ htoken
    exact absurd rfl htoken
  | @claim uuid lockUntil version old hdrew hold hprofile =>
    intro _ htoken
    by_cases hsame : old.annotations.configuration = some (rt.fingerprint app)
    · have hdata : (claimedSecret (some old) identity (rt.fingerprint app)
          (lockIdOf ownerId t uuid) lockUntil).token = old.token := by
        simp [claimedSecret, Secret.token, hsame]
      rw [hdata] at htoken ⊢
      obtain ⟨t', app', token, expiry, hconfiguration, hminted, heq⟩ :=
        ih version _ old (lookup_stored hold) (by simp [hprofile]) htoken
      exact ⟨t', app', token, expiry, hsame.symm.trans hconfiguration, hminted, heq⟩
    · refine absurd ?_ htoken
      simp [claimedSecret, Secret.token, hsame]
  | @renewed uuid token expiry version latest read hholds hminted =>
    intro _ _
    have hclaimed := hholds.claimed h ht
    exact ⟨t, app, token, expiry, hclaimed.2, hminted.later hholds.suffix,
      by simp [renewedSecret, Secret.token]⟩
  | @failed uuid failure version latest read later hholds _ _ =>
    intro hprofile htoken
    exact ih version _ latest (lookup_stored hholds.current) hprofile htoken

theorem Legal.minted (h : (law rt ownerId).Legal calls tr) {n : Nat} {k : Key} {s : Secret}
    (hs : Stored tr n k s) : Authentic rt tr s := by
  induction tr generalizing n k s with
  | nil =>
    obtain ⟨newer, e, older, htr, -, -⟩ := hs
    cases newer <;> cases htr
  | cons e older ih =>
    rcases hs.cons_cases with ⟨hputs, -⟩ | hs
    · apply Authentic.cons
      cases h.2 with
      | write ht _ hputs' hwrite =>
        obtain ⟨rfl, rfl⟩ := puts_inj hputs hputs'
        exact hwrite.authentic h.1 (fun n k s hs => ih h.1 hs) ht
      | supply _ hputs' =>
        obtain ⟨rfl, rfl⟩ := puts_inj hputs hputs'
        intro hprofile
        exact absurd rfl hprofile
      | remove => cases hputs
      | uuid _ => cases hputs
      | answered => cases hputs
      | clock => cases hputs
      | configured => cases hputs
    · exact (ih h.1 hs).cons e

end Facts

/-! ### Brokers obey the law -/

section Runs

variable {rt : Runtime} {ownerId : Nat → String} {t : Tid} {identity : String}
  {app : GitHubApp} {w w' : World sys}

/-- The thread keeps the law and ends in `Q`. -/
abbrev Runs (rt : Runtime) (ownerId : Nat → String) (t : Tid) {α : Type} (p : sys.Task α)
    (Q : α → World sys → Prop) (w : World sys) : Prop :=
  (law rt ownerId).Obeys (machine rt ownerId) t p Q w

/-- Thread `t` renews this configuration. -/
structure At (t : Tid) (identity : String) (app : GitHubApp) (w : World sys) : Prop where
  lt : t.idx < w.next
  who : whoOf w.calls t = some (identity, app)

theorem At.later (h : At t identity app w) (hl : Later w w') : At t identity app w' := by
  constructor
  · exact Nat.lt_of_lt_of_le h.lt hl.next
  · rw [whoOf, hl.calls t h.lt]
    exact h.who

theorem runs_readSecret (name : String) :
    Runs rt ownerId t (readSecret name)
      (fun r w' => During w w' fun tr => r = lookup (.secret name) tr) w := by
  refine Safe.get fun w1 hr1 _ => ⟨Safe.ret fun w2 hr2 _ => ?_, Law.Obeys.fail⟩
  have hnow : During w w1 fun tr => lookup (.secret name) w1.trace = lookup (.secret name) tr :=
    .now hr1.1.later rfl
  exact hnow.later hr2.1.later

theorem runs_now :
    Runs rt ownerId t (ask (S := sys) .now)
      (fun instant w' => (During w w' fun tr => instant = clockOf tr) ∧
        notesOf t w'.trace = notesOf t w.trace) w := by
  refine Law.Obeys.ext fun w1 c a hg hi ha => ?_
  cases ha
  refine ⟨hi.legal, Safe.ret fun w2 hr _ => ⟨?_, ?_⟩⟩
  · have hnow : During w w1 fun tr => clockOf w1.trace = clockOf tr := .now hg.later rfl
    exact hnow.later ((Law.later_answered w1 t _).trans hr.1.later)
  · exact hr.1.notesOf_eq.trans hg.notesOf_eq

theorem runs_randomUUID :
    Runs rt ownerId t (ask (S := sys) .randomUUID) (fun uuid w' => Drew t uuid w'.trace) w := by
  refine Law.Obeys.ext fun w1 c a _ hi ha => ?_
  simp only [machine, answer] at ha
  split at ha
  · rename_i hfresh
    cases ha
    refine ⟨⟨hi.legal, .uuid hfresh⟩, Safe.ret fun w2 hr _ => ?_⟩
    exact hr.1.later.mem List.mem_cons_self
  · cases ha

/-- A write against the version that was read. -/
theorem runs_swap {expected : Option Nat} {secret : Secret} (hat : At t identity app w)
    (hwrite : ∀ w', Later w w' → notesOf t w'.trace = notesOf t w.trace →
      (expected = none → lookup app.output w'.trace = none) →
      (∀ version, expected = some version → ∃ old, lookup app.output w'.trace = some (version, old)) →
      Write rt ownerId t identity app w'.trace secret) :
    Runs rt ownerId t (compareAndSwapSecret app.outputSecretName expected secret)
      (fun _ _ => True) w := by
  have hstep : ∀ {w' : World sys} {e : Entry Key (fun _ => Secret) Note}, Later w w' →
      (law rt ownerId).Inv w' → e.author = some t → e.puts app.output = some secret →
      Write rt ownerId t identity app w'.trace secret →
      ((law rt ownerId).protocol (machine rt ownerId)).Keeps t w' (w'.push e) :=
    fun hl hi ha hputs hw => Law.keeps_push hi (Step.write (hat.later hl).who ha hputs hw)
  have hrequest : Runs rt ownerId t (swapRequest app.outputSecretName expected secret)
      (fun _ _ => True) w := by
    cases expected with
    | none =>
      refine Safe.create fun w1 hr hi => ⟨fun hnone => ?_, fun _ _ => Law.Obeys.fail,
        Law.Obeys.fail⟩
      have hw := hwrite w1 hr.1.later hr.1.notesOf_eq (fun _ => hnone) (fun _ h => by cases h)
      exact ⟨hstep hr.1.later hi rfl (Entry.puts_create_self _ _ _) hw,
        Safe.ret fun _ _ _ => trivial, Law.Obeys.fail⟩
    | some version =>
      refine Safe.update fun w1 hr hi => ⟨fun old hold => ?_, fun _ => Law.Obeys.fail⟩
      have hw := hwrite w1 hr.1.later hr.1.notesOf_eq (fun h => by cases h)
        (fun _ h => by cases h; exact ⟨old, hold⟩)
      exact ⟨hstep hr.1.later hi rfl (Entry.puts_update_self _ _ _) hw,
        Safe.ret fun _ _ _ => trivial, Law.Obeys.fail⟩
  unfold compareAndSwapSecret
  have hattempt : Runs rt ownerId t
      (swapRequest app.outputSecretName expected secret).attempt (fun _ _ => True) w :=
    Safe.attempt hrequest
  apply Law.Obeys.seq hattempt
  intro r w1 _ _ _
  cases r with
  | ok _ => exact Safe.ret fun _ _ _ => trivial
  | error e =>
    simp only
    split
    · exact Safe.ret fun _ _ _ => trivial
    · exact Law.Obeys.fail

theorem runs_request {jwt : String} :
    Runs rt ownerId t (askOr (S := sys) (.request (mintRequest app jwt)) rfl)
      (fun response w' => response.ok = true → ∀ body, response.body = some body →
        .note (some t) (.answered (mintRequest app jwt) (some body)) ∈ w'.trace) w := by
  refine Law.Obeys.ext fun w1 c a _ hi ha => ?_
  cases ha
  cases hresponse : c.response with
  | error e => exact ⟨⟨hi.legal, .answered⟩, Law.Obeys.fail⟩
  | ok response =>
    refine ⟨⟨hi.legal, .answered⟩, Safe.ret fun w2 hr _ hok body hbody => ?_⟩
    have hnote : .note (some t) (.answered (mintRequest app jwt) (some body)) ∈
        .note (some t) (Note.answered (mintRequest app jwt)
          (if response.ok then response.body else none)) :: w1.trace := by
      rw [if_pos hok, hbody]
      exact List.mem_cons_self
    exact hr.1.later.mem hnote

theorem runs_mintToken {instant : Int} {lockId : String} :
    Runs rt ownerId t (mintToken rt app instant lockId)
      (fun minted w' => Minted rt t app minted.1 minted.2 w'.trace) w := by
  unfold mintToken
  apply Law.Obeys.seq (runs_readSecret _)
  intro keySecret w1 _ _ _
  simp only
  split
  · exact Law.Obeys.fail
  split
  · exact Law.Obeys.fail
  rename_i jwt hjwt
  apply Law.Obeys.seq (runs_readSecret _)
  intro lease w2 _ _ _
  apply Law.Obeys.seq runs_now
  intro beforeRequest w3 _ _ _
  split
  · exact Law.Obeys.fail
  apply Law.Obeys.seq runs_request
  intro response w4 _ _ hanswered
  split
  · exact Law.Obeys.fail
  rename_i hok
  split
  · exact Law.Obeys.fail
  rename_i body hbody
  apply Law.Obeys.seq runs_now
  intro afterRequest w5 hl5 _ _
  split
  · exact Law.Obeys.fail
  rename_i minted haccept
  refine Safe.ret fun w6 hr _ => ?_
  have hmem := hanswered (by simpa using hok) body hbody
  exact ⟨_, jwt, body, instant, afterRequest, hjwt, (hl5.trans hr.1.later).mem hmem, haccept⟩

theorem runs_commit {status : State → String → Option String → BrokerStatus} {uuid : String}
    {result : Except Err (String × String)} (hat : At t identity app w)
    (hdrew : Drew t uuid w.trace)
    (hresult : ∀ token expiry, result = .ok (token, expiry) →
      Minted rt t app token expiry w.trace) :
    Runs rt ownerId t (commit rt status app (lockIdOf ownerId t uuid) result)
      (fun _ _ => True) w := by
  have hend : ∀ (w : World sys) (b : Bool) (x y : BrokerStatus),
      Runs rt ownerId t (if ¬ b then .ret x else .ret y) (fun _ _ => True) w := by
    intro w b x y
    split
    · exact Safe.ret fun _ _ _ => trivial
    · exact Safe.ret fun _ _ _ => trivial
  unfold commit
  apply Law.Obeys.seq (runs_readSecret _)
  intro current w1 hl1 _ hcurrent
  cases current with
  | none => exact Safe.ret fun _ _ _ => trivial
  | some p =>
    obtain ⟨version, latest⟩ := p
    simp only
    have hstored : Stored w1.trace version app.output latest := by
      obtain ⟨tr, -, ⟨new, htr⟩, hlook⟩ := hcurrent
      rw [← htr]
      exact (lookup_stored hlook.symm).mono new
    apply Law.Obeys.seq runs_now
    rintro instant w2 hl2 _ ⟨⟨read, hfrom, hto, rfl⟩, hnotes⟩
    split
    · exact Safe.ret fun _ _ _ => trivial
    rename_i hlock
    simp only [lockLost, Bool.or_eq_true, bne_iff_ne, ne_eq, not_or, not_not,
      Bool.not_eq_true] at hlock
    have hread : Stored read version app.output latest := by
      obtain ⟨new, hnew⟩ := hfrom
      rw [← hnew]
      exact hstored.mono new
    have hover : notesOf t w2.trace = notesOf t read := notesOf_between hfrom hto hnotes
    -- the lock is held wherever the version read is still the current one
    have hholds : ∀ w', Later w2 w' → notesOf t w'.trace = notesOf t w2.trace →
        (∀ v, some version = some v → ∃ old, lookup app.output w'.trace = some (v, old)) →
        Holds rt ownerId t uuid app.output version latest read w'.trace := by
      intro w' hl hquiet hcur
      obtain ⟨old, hold⟩ := hcur version rfl
      have hsuffix : read <:+ w'.trace := hto.trans hl.suffix
      have hsame := ((hl2.trans hl).stored hstored).eq_of_lookup hold
      subst hsame
      exact ⟨(hl1.trans (hl2.trans hl)).mem hdrew, hold, hlock.1, hsuffix, hread, hlock.2,
        hquiet.trans hover⟩
    cases result with
    | ok minted =>
      obtain ⟨token, expiry⟩ := minted
      simp only
      apply Law.Obeys.seq (Q := fun _ _ => True)
      · apply runs_swap (hat.later (hl1.trans hl2))
        intro w' hl hquiet _ hcur
        have hminted := hresult token expiry rfl
        exact .renewed (hholds w' hl hquiet hcur) (hminted.later (hl1.suffix.trans hfrom))
      · exact fun b w3 _ _ _ => hend w3 b _ _
    | error e =>
      simp only
      apply Law.Obeys.seq runs_now
      rintro later w3 hl3 _ ⟨⟨tr, hafter, hbefore, rfl⟩, hnotes3⟩
      apply Law.Obeys.seq (Q := fun _ _ => True)
      · apply runs_swap (hat.later (hl1.trans (hl2.trans hl3)))
        intro w' hl hquiet _ hcur
        exact .failed (hholds w' (hl3.trans hl) (hquiet.trans hnotes3) hcur) (hto.trans hafter)
          (hbefore.trans hl.suffix)
      · exact fun b w4 _ _ _ => hend w4 b _ _

theorem runs_claimAndRenew {status : State → String → Option String → BrokerStatus}
    {instant : Int} {current : Option (Nat × Secret)} (hat : At t identity app w)
    (hread : ∃ tr, tr <:+ w.trace ∧ current = lookup app.output tr)
    (hprofile : ∀ version old, current = some (version, old) →
      old.annotations.profile = some identity) :
    Runs rt ownerId t
      (claimAndRenew rt (ownerId t.proc) status identity app instant current)
      (fun _ _ => True) w := by
  unfold claimAndRenew
  apply Law.Obeys.seq runs_randomUUID
  intro uuid w1 hl1 _ hdrew
  have hclaim : Runs rt ownerId t (compareAndSwapSecret app.outputSecretName
      (current.map Prod.fst) (claimedSecret (current.map Prod.snd) identity (rt.fingerprint app)
        (lockIdOf ownerId t uuid) (Iso.toISOString (instant + LOCK_MS)))) (fun _ _ => True) w1 := by
    apply runs_swap (hat.later hl1)
    intro w' hl _ hnone hsome
    cases current with
    | none => exact .create (hl.mem hdrew) (hnone rfl)
    | some p =>
      obtain ⟨version, old⟩ := p
      obtain ⟨cur, hcur⟩ := hsome version rfl
      -- the version read is current, so it still stores what was read
      have hstored : Stored w.trace version app.output old := by
        obtain ⟨tr, ⟨new, htr⟩, hlook⟩ := hread
        rw [← htr]
        exact (lookup_stored hlook.symm).mono new
      have hsame := ((hl1.trans hl).stored hstored).eq_of_lookup hcur
      subst hsame
      exact .claim (hl.mem hdrew) hcur (hprofile version old rfl)
  apply Law.Obeys.seq hclaim
  intro swap w2 hl2 _ _
  split
  · exact Safe.ret fun _ _ _ => trivial
  have hmint : Runs rt ownerId t (mintToken rt app instant (lockIdOf ownerId t uuid)).attempt
      (fun r w' => ∀ token expiry, r = .ok (token, expiry) →
        Minted rt t app token expiry w'.trace) w2 := by
    apply Safe.attempt
    apply Safe.mono runs_mintToken
    · rintro ⟨token, expiry⟩ w' hminted token' expiry' heq
      cases heq
      exact hminted
    · intro e w' _ token expiry heq
      cases heq
  apply Law.Obeys.seq hmint
  intro result w3 hl3 _ hresult
  exact runs_commit (hat.later (hl1.trans (hl2.trans hl3))) ((hl2.trans hl3).mem hdrew) hresult

theorem runs_renew {profile : CredentialProfile}
    (hat : ∀ app, profile.githubApp = some app → At t (identityOf profile) app w) :
    Runs rt ownerId t (renew rt (ownerId t.proc) profile) (fun _ _ => True) w := by
  unfold renew
  split
  · exact Law.Obeys.fail
  rename_i app happ
  simp only
  apply Law.Obeys.seq runs_now
  intro instant w1 hl1 _ _
  apply Law.Obeys.seq (runs_readSecret _)
  rintro current w2 hl2 _ ⟨tr, -, hto, hlook⟩
  split
  · exact Safe.ret fun _ _ _ => trivial
  rename_i howned
  split
  · exact Safe.ret fun _ _ _ => trivial
  split
  · exact Safe.ret fun _ _ _ => trivial
  apply runs_claimAndRenew ((hat app happ).later (hl1.trans hl2)) ⟨tr, hto, hlook⟩
  rintro version old rfl
  simpa using howned

theorem runs_reconcile (profiles : List CredentialProfile) :
    Runs rt ownerId t (reconcile rt profiles) (fun _ _ => True) w := by
  induction profiles generalizing w with
  | nil => exact Safe.ret fun _ _ _ => trivial
  | cons input rest ih =>
    have hrest : ∀ {w : World sys} (f : List BrokerStatus → List BrokerStatus),
        Runs rt ownerId t (reconcile rt rest >>= fun statuses => .ret (f statuses))
          (fun _ _ => True) w := by
      intro w f
      apply Law.Obeys.seq ih
      exact fun _ _ _ _ _ => Safe.ret fun _ _ _ => trivial
    unfold reconcile
    split
    · exact ih
    split
    · exact hrest _
    have hbegin : Runs rt ownerId t (ask (S := sys) (.beginRenew input)) (fun _ _ => True) w := by
      refine Law.Obeys.ext fun w1 c a _ hi ha => ?_
      cases ha
      exact ⟨hi.legal, Safe.ret fun _ _ _ => trivial⟩
    apply Law.Obeys.seq hbegin
    intro task w1 _ _ _
    have hwait : Runs rt ownerId t (ask (S := sys) (.awaitRenew task)) (fun _ _ => True) w1 := by
      refine Law.Obeys.ext fun w2 c a _ hi ha => ?_
      obtain ⟨result, -, rfl⟩ := Option.map_eq_some_iff.mp ha
      exact ⟨hi.legal, Safe.ret fun _ _ _ => trivial⟩
    apply Law.Obeys.seq hwait
    intro result w2 _ _ _
    apply Law.Obeys.seq ih
    intro statuses w3 _ _ _
    cases result with
    | ok status => exact Safe.ret fun _ _ _ => trivial
    | error e => exact Safe.ret fun _ _ _ => trivial

theorem sound (rt : Runtime) (ownerId : Nat → String) :
    ((law rt ownerId).protocol (machine rt ownerId)).Sound := by
  apply Law.sound
  · trivial
  · intro w e new g hi henv
    cases e with
    | clock instant =>
      simp only [machine, env] at henv
      split at henv
      · cases henv
        exact ⟨hi.legal, .clock⟩
      · cases henv
    | configure identity app =>
      cases henv
      exact ⟨hi.legal, .configured⟩
    | write name data =>
      simp only [machine, env] at henv
      split at henv
      · cases henv
        exact ⟨hi.legal, .supply rfl (Entry.puts_create_self _ _ _)⟩
      · cases henv
        exact ⟨hi.legal, .supply rfl (Entry.puts_update_self _ _ _)⟩
    | delete name =>
      simp only [machine, env] at henv
      split at henv
      · cases henv
      · cases henv
        exact ⟨hi.legal, .remove⟩
  · intro w t c hi hcall hlt _
    change Runs rt ownerId t (program rt ownerId t c) (fun _ _ => True) w
    cases c with
    | reconcile profiles =>
      apply Law.Obeys.seq (runs_reconcile profiles)
      exact fun _ _ _ _ _ => Safe.ret fun _ _ _ => trivial
    | renew profile =>
      have hat : ∀ app, profile.githubApp = some app → At t (identityOf profile) app w := by
        intro app happ
        exact ⟨hlt, by rw [whoOf, hcall]; simp [happ]⟩
      have hrenew : Runs rt ownerId t (renew rt (ownerId t.proc) profile).attempt
          (fun _ _ => True) w := Safe.attempt (runs_renew hat)
      apply Law.Obeys.seq hrenew
      intro result w1 _ _ _
      refine Law.Obeys.ext fun w2 c a _ hi ha => ?_
      cases ha
      exact ⟨hi.legal, Safe.ret fun _ _ _ => trivial⟩

end Runs

/-! ### Every run -/

/-- In this history the thread wrote `s` under `k` over `older`. -/
def WriteAt (tr : History) (t : Tid) (k : Key) (s : Secret) (older : History) : Prop :=
  ∃ newer e, tr = newer ++ e :: older ∧ e.author = some t ∧ e.puts k = some s

/-- What is written for the mint that has ended in `read`: its token, or a failure. -/
def Outcome (rt : Runtime) (t : Tid) (who : Option (String × GitHubApp)) (latest : Secret)
    (read older : History) (s : Secret) : Prop :=
  (∃ identity app token expiry, who = some (identity, app) ∧ Minted rt t app token expiry read ∧
    s = renewedSecret rt latest token expiry) ∨
  ∃ failure later, read <:+ later ∧ later <:+ older ∧
    s = failedSecret latest failure (clockOf later)

/-- The renewal of the thread has stored the token it minted. -/
def Renewed (rt : Runtime) (tr : History) (t : Tid) : Prop :=
  ∃ k older latest token expiry, WriteAt tr t k (renewedSecret rt latest token expiry) older

/-- What holds of the output Secrets in a reachable configuration. -/
structure BrokerKept (rt : Runtime) (ownerId : Nat → String)
    (c : (machine rt ownerId).Config) : Prop where
  /-- only a Secret annotated with the profile's identity is written over -/
  owned : ∀ t k s older, WriteAt c.world.trace t k s older →
    ∃ identity app, whoOf c.world.calls t = some (identity, app) ∧ k = app.output ∧
      (lookup k older = none ∨
        ∃ n old, lookup k older = some (n, old) ∧ old.annotations.profile = some identity)
  minted : ∀ n k s, Stored c.world.trace n k s → Authentic rt c.world.trace s
  /-- a write under another configuration blanks the token -/
  blanked : ∀ t k s older n old, WriteAt c.world.trace t k s older →
    lookup k older = some (n, old) →
    s.annotations.configuration ≠ old.annotations.configuration → s.data = [("token", "")]
  /-- an outcome is written over the thread's own lock, unexpired when it is re-read after
      the mint has ended -/
  locked : ∀ t k s older, WriteAt c.world.trace t k s older → s.annotations.lockId = none →
    ∃ uuid n latest read, Holds rt ownerId t uuid k n latest read older ∧
      Outcome rt t (whoOf c.world.calls t) latest read older s
  /-- a renewal that stores no token keeps the data stored for its configuration -/
  kept : ∀ t k s older n old identity app, WriteAt c.world.trace t k s older →
    whoOf c.world.calls t = some (identity, app) → ¬ Renewed rt c.world.trace t →
    lookup k older = some (n, old) →
    old.annotations.configuration = some (rt.fingerprint app) → s.data = old.data
  /-- a failure schedules the next attempt within five minutes of a reading of the clock -/
  backoff : ∀ t k s older, WriteAt c.world.trace t k s older → s.annotations.lockId = none →
    ¬ Renewed rt c.world.trace t → ∃ instant delay, 0 ≤ delay ∧ delay ≤ 300000 ∧
      s.annotations.nextAttempt = some (Iso.toISOString (instant + delay)) ∧
      ∃ uuid n latest read later, Holds rt ownerId t uuid k n latest read older ∧
        read <:+ later ∧ later <:+ older ∧ instant = clockOf later

theorem backoff_bounds (failures : Nat) : 0 ≤ backoff failures ∧ backoff failures ≤ 300000 := by
  unfold backoff
  have hpos : (0 : Int) ≤ 2 ^ (failures - 1) := by positivity
  omega

section Kept

variable {rt : Runtime} {ownerId : Nat → String} {calls : Calls sys} {tr older : History}
  {t : Tid} {k : Key} {s : Secret}

/-- What a thread writes is a write of the law. -/
theorem WriteAt.write (h : (law rt ownerId).Legal calls tr) (hw : WriteAt tr t k s older) :
    (law rt ownerId).Legal calls older ∧ ∃ identity app, whoOf calls t = some (identity, app) ∧
      k = app.output ∧ Write rt ownerId t identity app older s := by
  obtain ⟨newer, e, rfl, hauthor, hputs⟩ := hw
  obtain ⟨hlegal, hstep⟩ := h.split
  refine ⟨hlegal, ?_⟩
  cases hstep with
  | @write t' identity app s' _ ht hauthor' hputs' hwrite =>
    cases hauthor.symm.trans hauthor'
    obtain ⟨rfl, rfl⟩ := puts_inj hputs hputs'
    exact ⟨identity, app, ht, rfl, hwrite⟩
  | supply hauthor' _ => cases hauthor.symm.trans hauthor'
  | remove => cases hputs
  | uuid _ => cases hputs
  | answered => cases hputs
  | clock => cases hputs
  | configured => cases hputs

theorem Write.owned {identity : String} {app : GitHubApp}
    (h : (law rt ownerId).Legal calls older) (ht : whoOf calls t = some (identity, app))
    (hw : Write rt ownerId t identity app older s) :
    lookup app.output older = none ∨ ∃ n old, lookup app.output older = some (n, old) ∧
      old.annotations.profile = some identity := by
  cases hw with
  | create _ hnone => exact .inl hnone
  | claim _ hold hprofile => exact .inr ⟨_, _, hold, hprofile⟩
  | renewed hholds _ => exact .inr ⟨_, _, hholds.current, (hholds.claimed h ht).1⟩
  | failed hholds _ _ => exact .inr ⟨_, _, hholds.current, (hholds.claimed h ht).1⟩

theorem Write.data {identity : String} {app : GitHubApp} {n : Nat} {old : Secret}
    (h : (law rt ownerId).Legal calls older) (ht : whoOf calls t = some (identity, app))
    (hw : Write rt ownerId t identity app older s)
    (hold : lookup app.output older = some (n, old)) :
    (old.annotations.configuration = some (rt.fingerprint app) ∧
        s.annotations.configuration = old.annotations.configuration ∧
        (s.data = old.data ∨ ∃ token expiry, s = renewedSecret rt old token expiry)) ∨
      (old.annotations.configuration ≠ some (rt.fingerprint app) ∧ s.data = [("token", "")]) := by
  cases hw with
  | create _ hnone => cases hnone.symm.trans hold
  | claim _ hcur _ =>
    cases hcur.symm.trans hold
    by_cases hsame : old.annotations.configuration = some (rt.fingerprint app)
    · exact .inl ⟨hsame, hsame.symm, .inl (if_pos hsame)⟩
    · exact .inr ⟨hsame, if_neg hsame⟩
  | renewed hholds _ =>
    cases hholds.current.symm.trans hold
    exact .inl ⟨(hholds.claimed h ht).2, rfl, .inr ⟨_, _, rfl⟩⟩
  | failed hholds _ _ =>
    cases hholds.current.symm.trans hold
    exact .inl ⟨(hholds.claimed h ht).2, rfl, .inl rfl⟩

end Kept

theorem broker_kept (rt : Runtime) (ownerId : Nat → String) (c : (machine rt ownerId).Config)
    (h : (machine rt ownerId).Reachable c) : BrokerKept rt ownerId c := by
  have hlegal := Law.reachable (sound rt ownerId) h
  constructor
  · intro t k s older hw
    obtain ⟨holder, identity, app, ht, rfl, hwrite⟩ := hw.write hlegal
    exact ⟨identity, app, ht, rfl, hwrite.owned holder ht⟩
  · exact fun n k s hs => Legal.minted hlegal hs
  · intro t k s older n old hw hold hne
    obtain ⟨holder, identity, app, ht, rfl, hwrite⟩ := hw.write hlegal
    rcases hwrite.data holder ht hold with ⟨-, hsame, -⟩ | ⟨-, hblank⟩
    · exact absurd hsame hne
    · exact hblank
  · intro t k s older hw hlock
    obtain ⟨holder, identity, app, ht, rfl, hwrite⟩ := hw.write hlegal
    cases hwrite with
    | create _ _ => cases hlock
    | claim _ _ _ => cases hlock
    | renewed hholds hminted =>
      exact ⟨_, _, _, _, hholds, .inl ⟨identity, app, _, _, ht, hminted, rfl⟩⟩
    | failed hholds hread hlater =>
      exact ⟨_, _, _, _, hholds, .inr ⟨_, _, hread, hlater, rfl⟩⟩
  · intro t k s older n old identity app hw ht hfailed hold hsame
    obtain ⟨holder, identity', app', ht', rfl, hwrite⟩ := hw.write hlegal
    cases ht.symm.trans ht'
    rcases hwrite.data holder ht hold with ⟨-, -, hdata | ⟨token, expiry, rfl⟩⟩ | ⟨hother, -⟩
    · exact hdata
    · exact absurd ⟨_, older, old, token, expiry, hw⟩ hfailed
    · exact absurd hsame hother
  · intro t k s older hw hlock hfailed
    obtain ⟨holder, identity, app, ht, rfl, hwrite⟩ := hw.write hlegal
    cases hwrite with
    | create _ _ => cases hlock
    | claim _ _ _ => cases hlock
    | renewed hholds _ => exact absurd ⟨_, older, _, _, _, hw⟩ hfailed
    | failed hholds hread hlater =>
      obtain ⟨hpos, hbound⟩ := backoff_bounds (failuresOf _)
      exact ⟨_, _, hpos, hbound, rfl, _, _, _, _, _, hholds, hread, hlater, rfl⟩

/-! ### A configuration that changes during a pass -/

/-- A failed renewal leaves the token of the configuration the profile has now. -/
def KeepsCurrent (rt : Runtime) (ownerId : Nat → String) (c : (machine rt ownerId).Config) :
    Prop :=
  ∀ t k s older n old identity app, WriteAt c.world.trace t k s older →
    whoOf c.world.calls t = some (identity, app) → ¬ Renewed rt c.world.trace t →
    lookup k older = some (n, old) → old.token ≠ "" →
    old.annotations.configuration = (configurationOf identity older).map rt.fingerprint →
    s.token = old.token

def demoRuntime : Runtime where
  fingerprint := fun app => app.privateKeySecretRef.name
  toBase64 := fun s => s
  dateParse := fun s => if s = "1970-01-01T00:01:00.000Z" then some 60000
    else if s = "1970-01-01T01:00:00.000Z" then some 3600000 else none
  toLowerCase := fun s => s
  signJwt := fun _ _ _ => some "jwt"

def demoOwner (process : Nat) : String := toString process

/-- The App whose private key is in the Secret `key`. -/
def demoApp (key : String) : GitHubApp where
  appId := 1
  installationId := 2
  privateKeySecretRef := { name := key, key := "pem" }
  outputSecretName := "output"
  repositories := ["owner/repo"]

def demoProfile (key : String) : CredentialProfile where
  name := "profile"
  profileNamespace := "ns"
  uid := some "uid"
  githubApp := some (demoApp key)

def demoBody : Json := .obj [("token", .str "minted"), ("expires_at", .str "1970-01-01T01:00:00.000Z"),
  ("repositories", .arr [.obj [("full_name", .str "owner/repo")]])]

def demoUuid (first : Char) : String := String.ofList (first :: List.replicate 35 '0')

abbrev demoMachine : Machine sys := machine demoRuntime demoOwner

def demoAsk (t : Tid) : demoMachine.Move := .run t (.ext {})

def demoStore (t : Tid) : demoMachine.Move := .run t (.store {})

/-- A pass is begun with the configuration `old`; then the profile is given `new`. -/
def demoStart : List demoMachine.Move :=
  [.env (.configure "ns/profile/uid" (demoApp "old")), .start 0 (.reconcile [demoProfile "old"]),
    .env (.configure "ns/profile/uid" (demoApp "new")), .env (.write "new" [("pem", "pem")])]

/-- Another broker renews `new`. -/
def demoRenewal : List demoMachine.Move :=
  let t : Tid := ⟨1, 2⟩
  [.start 1 (.reconcile [demoProfile "new"]), demoAsk ⟨1, 1⟩, demoAsk t, demoStore t,
    .run t (.ext { uuid := demoUuid 'a' }), demoStore t, demoStore t, demoStore t, demoAsk t,
    .run t (.ext { response := .ok { ok := true, status := 201, body := some demoBody } }),
    demoAsk t, demoStore t, demoAsk t, demoStore t]

/-- The first pass goes on, and finds no private key for `old`. -/
def demoStale : List demoMachine.Move :=
  let t : Tid := ⟨0, 3⟩
  [demoAsk ⟨0, 0⟩, demoAsk t, demoStore t, .run t (.ext { uuid := demoUuid 'b' }), demoStore t,
    demoStore t, demoStore t, demoAsk t, demoAsk t, demoStore t]

/-- The output Secret. -/
def demoOutput (tr : History) : Option Secret := (lookup (.secret "output") tr).map Prod.snd

def demoSeen (c : demoMachine.Config) : Option (Option String × String) :=
  (demoOutput c.world.trace).map fun s => (s.annotations.configuration, s.token)

theorem broker_kept_demo : ∃ c : demoMachine.Config,
    demoMachine.initial.moves (demoStart ++ demoRenewal) = some c ∧
      demoSeen c = some (some "new", "minted") ∧ BrokerKept demoRuntime demoOwner c := by
  have hrun : (demoMachine.initial.moves (demoStart ++ demoRenewal)).bind demoSeen
      = some (some "new", "minted") := by decide +kernel
  obtain ⟨c, hc, hseen⟩ := Option.bind_eq_some_iff.mp hrun
  exact ⟨c, hc, hseen, broker_kept demoRuntime demoOwner c (Machine.Reachable.init.moves hc)⟩

/-- The Secret an entry stores. -/
def valueOf : Entry Key (fun _ => Secret) Note → Option Secret
  | .create _ _ s => some s
  | .update _ _ s => some s
  | _ => none

theorem valueOf_of_puts {e : Entry Key (fun _ => Secret) Note} {k : Key} {s : Secret}
    (h : e.puts k = some s) : valueOf e = some s := by
  cases e with
  | create a k' v =>
    obtain rfl := Option.some.inj (Entry.key_of_puts h)
    rw [Entry.puts_create_self] at h
    exact h
  | update a k' v =>
    obtain rfl := Option.some.inj (Entry.key_of_puts h)
    rw [Entry.puts_update_self] at h
    exact h
  | delete a k' => cases h
  | note a n => cases h

/-- The entry is no outcome of the thread that stores a token. -/
def notRenewed (t : Tid) (e : Entry Key (fun _ => Secret) Note) : Bool :=
  e.author != some t || (valueOf e).all fun s =>
    s.annotations.lockId.isSome || s.annotations.error.isSome

theorem not_renewed {rt : Runtime} {tr : History} {t : Tid}
    (h : tr.all (notRenewed t) = true) : ¬ Renewed rt tr t := by
  rintro ⟨k, older, latest, token, expiry, newer, e, rfl, hauthor, hputs⟩
  have he := List.all_eq_true.mp h e (by simp)
  simp [notRenewed, hauthor, valueOf_of_puts hputs, renewedSecret] at he

/-- The newest write but one: who wrote which token, and what it wrote over. -/
structure Overwrite where
  author : Option Tid
  token : Option String
  before : Option (Option String × String)
  current : Option String
deriving DecidableEq

def overwriteOf : History → Option Overwrite
  | _ :: e :: older => some
    { author := e.author
      token := (e.puts (.secret "output")).map Secret.token
      before := (demoOutput older).map fun s => (s.annotations.configuration, s.token)
      current := (configurationOf "ns/profile/uid" older).map demoRuntime.fingerprint }
  | _ => none

/-- The pass that is late blanks the newer token, and then fails. -/
theorem stale_renewal_blanks_token :
    ¬ ∀ c : demoMachine.Config, demoMachine.Reachable c →
      KeepsCurrent demoRuntime demoOwner c := by
  intro hall
  have hrun : (demoMachine.initial.moves (demoStart ++ demoRenewal ++ demoStale)).bind
      (fun c => some (overwriteOf c.world.trace, whoOf c.world.calls ⟨0, 3⟩,
        c.world.trace.all (notRenewed ⟨0, 3⟩)))
      = some (some ⟨some ⟨0, 3⟩, some "", some (some "new", "minted"), some "new"⟩,
          some ("ns/profile/uid", demoApp "old"), true) := by decide +kernel
  obtain ⟨c, hc, hseen⟩ := Option.bind_eq_some_iff.mp hrun
  simp only [Option.some.injEq, Prod.mk.injEq] at hseen
  obtain ⟨hover, hwho, hnot⟩ := hseen
  have hkeeps := hall c (Machine.Reachable.init.moves hc)
  rcases htrace : c.world.trace with - | ⟨f, - | ⟨e, older⟩⟩
  · rw [htrace] at hover
    cases hover
  · rw [htrace] at hover
    cases hover
  rw [htrace] at hover
  simp only [overwriteOf, Option.some.injEq, Overwrite.mk.injEq, Option.map_eq_some_iff] at hover
  obtain ⟨hauthor, ⟨s, hputs, htoken⟩, ⟨old, hbefore, hold⟩, hcurrent⟩ := hover
  obtain ⟨⟨n, old'⟩, hlook, rfl⟩ := Option.map_eq_some_iff.mp hbefore
  simp only [Prod.mk.injEq] at hold
  have hwrite : WriteAt c.world.trace ⟨0, 3⟩ (.secret "output") s older :=
    ⟨[f], e, htrace, hauthor, hputs⟩
  have hsame := hkeeps _ _ _ _ n old' "ns/profile/uid" (demoApp "old") hwrite hwho
    (not_renewed hnot) hlook (by rw [hold.2]; decide)
    (by rw [hold.1, Option.map_eq_some_iff.mpr hcurrent])
  rw [htoken, hold.2] at hsame
  exact absurd hsame (by decide)

end PaseoGateway.GitHubAppBroker
