/-
  PaseoGateway/AgentIdentitySafety.lean
  =====================================
  **Safety of the agent identity registry.**

  One specification per function of the registry, bottom up, and from them what
  holds in every reachable configuration: records are final but for one move to
  `collision`, a claim returns only an id bound to its own workspace UID, a
  resolve returns what an active record named during the call, and `project`
  publishes only ids that were active for the workspace while it ran.
-/
import PaseoGateway.AgentIdentityInvariant

namespace PaseoGateway.AgentIdentity

open Async

variable {t : Tid} {α : Type} {Q : α → World sys → Prop} {E : Err → World sys → Prop}
variable {w : World sys}

/-! ### Claims -/

theorem Stored.exists_lookup {tr : History} (h : RouteHistory tr) {n : Nat} {g : String}
    {r : Route} (hs : Stored tr n (.route g) r) :
    lookup (.route g) tr ≠ none := by
  obtain ⟨m, r', hlook, _⟩ := h.current hs
  rw [hlook]
  exact Option.some_ne_none _

theorem ClaimError.later {w w' : World sys} {g : String} {e : Err}
    (h : ClaimError w.trace g e) (hl : Later w w') : ClaimError w'.trace g e := by
  obtain ⟨new, htr⟩ := hl.trace
  rw [htr]
  exact h.imp id fun hc => hc.mono new

theorem Bound.later {w w' : World sys} {g u : String} (h : Bound w.trace g u)
    (hl : Later w w') : Bound w'.trace g u := by
  obtain ⟨new, htr⟩ := hl.trace
  rw [htr]
  exact h.mono new

/-- `read` meets either no record or one filed under its own GUID. -/
theorem Safe.read {g : String} {k : Option (Nat × Route) → sys.Task α}
    (h : ∀ w', Onward t w w' → Inv w' →
      (lookup (.route g) w'.trace = none →
        Safe protocol t (k none) Q E w') ∧
      (∀ n r, lookup (.route g) w'.trace = some (n, r) →
        r.binding.backendAgentId = g → Safe protocol t (k (some (n, r))) Q E w') ∧
      Safe protocol t (.fail (.store .unavailable)) Q E w') :
    Safe protocol t (read g >>= k) Q E w := by
  unfold AgentIdentity.read
  refine Safe.get fun w' hr hi => ?_
  obtain ⟨hnone, hsome, hlost⟩ := h w' (onward_of_rely hr) hi
  refine ⟨?_, hlost⟩
  cases hlook : lookup (.route g) w'.trace with
  | none => exact hnone hlook
  | some p =>
    obtain ⟨n, r⟩ := p
    obtain ⟨_, _, _, _, hself, _⟩ := hi.history.current (lookup_stored hlook)
    change Safe protocol t ((if r.binding.backendAgentId ≠ g then
      .fail (.error "Agent identity route key and backend ID differ")
      else .ret (some (n, r))) >>= k) Q E w'
    rw [if_neg (by simpa using hself)]
    exact hsome n r hlook hself

theorem Safe.remember {key : String} {k : Unit → sys.Task α} (hkey : KeyBound w.trace key)
    (h : ∀ w', Onward t w w' → Safe protocol t (k ()) Q E w') :
    Safe protocol t (remember key >>= k) Q E w := by
  refine Safe.request fun w' ho hi now a ha => ?_
  cases ha
  obtain ⟨new, htr⟩ := ho.1.trace
  have hkey' : KeyBound w'.trace key := by
    rw [htr]
    exact hkey.mono new
  exact ⟨(hi.memory _).remember hkey' now, by simp, h _⟩

theorem Safe.forget {key : String} {k : Unit → sys.Task α}
    (h : ∀ w', Onward t w w' → Safe protocol t (k ()) Q E w') :
    Safe protocol t (ask (S := sys) (.forget key) >>= k) Q E w := by
  refine Safe.request fun w' ho hi now a ha => ?_
  cases ha
  exact ⟨(hi.memory _).forget key, by simp, h _⟩

/-- What `claimDurable` guarantees of its result and of its failure. -/
theorem quarantine_safe {value : Binding} (hguid : isGuid value.backendAgentId = true)
    (attempts : Nat) {n : Nat} {r : Route}
    (hs : Stored w.trace n (.route value.backendAgentId) r) :
    Safe protocol t (quarantine value attempts)
      (fun id w' => id = value.backendAgentId ∧
        Bound w'.trace value.backendAgentId value.workspaceUid)
      (fun e w' => ClaimError w'.trace value.backendAgentId e) w := by
  induction attempts generalizing w with
  | zero => exact Safe.fail fun w' _ _ => .inl (.inr (.inl rfl))
  | succ attempts ih =>
    refine Safe.read fun w1 ho hi => ⟨?_, ?_, ?_⟩
    · intro hnone
      exact absurd hnone (Stored.exists_lookup hi.history (ho.1.stored hs))
    · intro m cur hlook hself
      cases cur with
      | collision b u =>
        have hcoll : Collided w1.trace value.backendAgentId := ⟨m, b, u, lookup_stored hlook⟩
        exact Safe.fail fun w2 hr _ =>
          ClaimError.later (.inr hcoll) hr.1.later
      | active existing =>
        by_cases hsame : existing = value
        · subst hsame
          have hbound : Bound w1.trace existing.backendAgentId existing.workspaceUid :=
            ⟨m, _, lookup_stored hlook, rfl⟩
          change Safe protocol t (if existing = existing then _ else _) _ _ _
          rw [if_pos rfl]
          refine Safe.remember ⟨existing, rfl, hguid, hbound⟩ fun w2 ho2 => ?_
          exact Safe.ret fun w3 hr _ =>
            ⟨rfl, hbound.later (ho2.1.trans hr.1.later)⟩
        · change Safe protocol t (if existing = value then _ else _) _ _ _
          rw [if_neg hsame]
          refine Safe.forget fun w2 ho2 => ?_
          refine Safe.update fun w3 hr hi3 => ⟨?_, ?_⟩
          · intro old hlook3
            -- the version read is still current, so the record is still active
            have hstored := (ho2.1.trans hr.1.later).stored (lookup_stored hlook)
            have hold := hstored.eq_of_lookup hlook3
            subst hold
            have hroute := hi3.history.quarantine (u := value.workspaceUid) (some t) hlook3
            have hcoll : Collided (Entry.update (some t) (Key.route value.backendAgentId)
                (Route.collision existing value.workspaceUid) :: w3.trace)
                value.backendAgentId :=
              ⟨_, existing, _, lookup_stored (lookup_update_self _ _ _ _)⟩
            refine ⟨⟨hi3.push hroute, fun u _ _ => .of_eq rfl⟩, ?_, ?_⟩
            · exact Safe.fail fun w4 hr4 _ => ClaimError.later (.inr hcoll) hr4.1.later
            · exact Safe.fail fun w4 _ _ => .inl (.inl ⟨_, rfl⟩)
          · intro e
            cases e with
            | conflict => exact ih ((ho.1.trans (ho2.1.trans hr.1.later)).stored hs)
            | notFound => exact Safe.fail fun w4 _ _ => .inl (.inl ⟨_, rfl⟩)
            | unavailable => exact Safe.fail fun w4 _ _ => .inl (.inl ⟨_, rfl⟩)
    · exact Safe.fail fun w2 _ _ => .inl (.inl ⟨_, rfl⟩)

/-- A created record is bound to its value. -/
theorem created_history {w : World sys} (hi : Inv w) {value : Binding}
    (hnone : lookup (.route value.backendAgentId) w.trace = none)
    (a : Option Tid) :
    Inv (w.push (.create a (.route value.backendAgentId) (.active value))) ∧
      Bound (w.push (.create a (.route value.backendAgentId) (.active value))).trace
        value.backendAgentId value.workspaceUid :=
  ⟨hi.push (hi.history.create a hnone),
    ⟨_, _, lookup_stored (lookup_create_self _ _ _ _), rfl⟩⟩

theorem claimDurable_safe {value : Binding} (hguid : isGuid value.backendAgentId = true) :
    Safe protocol t (claimDurable value)
      (fun id w' => id = value.backendAgentId ∧
        Bound w'.trace value.backendAgentId value.workspaceUid)
      (fun e w' => ClaimError w'.trace value.backendAgentId e) w := by
  unfold claimDurable
  refine Safe.create fun w1 hr hi => ⟨?_, ?_, ?_⟩
  · intro hnone
    obtain ⟨hinv, hbound⟩ := created_history hi hnone (some t)
    refine ⟨⟨hinv, fun u _ _ => .of_eq rfl⟩, ?_, ?_⟩
    · refine Safe.remember ⟨value, rfl, hguid, hbound⟩ fun w2 ho => ?_
      exact Safe.ret fun w3 hr3 _ => ⟨rfl, hbound.later (ho.1.trans hr3.1.later)⟩
    · exact Safe.fail fun w2 _ _ => .inl (.inl ⟨_, rfl⟩)
  · rintro ⟨n, r⟩ hlook
    exact quarantine_safe hguid 8 (lookup_stored hlook)
  · exact Safe.fail fun w2 _ _ => .inl (.inl ⟨_, rfl⟩)

theorem claimPermit_safe (permitted : Bool) {k : Unit → sys.Task α}
    (h : ∀ w', Onward t w w' → Safe protocol t (k ()) Q E w') :
    Safe protocol t (claimPermit permitted >>= k) Q E w := by
  cases permitted with
  | true => exact h w (Onward.refl t w)
  | false =>
    refine Safe.request fun w' ho hi now a ha => ?_
    simp only [answer] at ha
    split at ha
    · cases ha
      exact ⟨{ hi.memory t.proc with }, by simp, h _⟩
    · cases ha

theorem ClaimResult.later {w w' : World sys} {value : Binding} {r : Except Err String}
    (h : ClaimResult w.trace value r) (hl : Later w w') : ClaimResult w'.trace value r := by
  obtain ⟨new, htr⟩ := hl.trace
  rw [htr]
  exact h.mono new

/-- A claim's outcome handed on as a returned or thrown value. -/
theorem Safe.ofExcept {value : Binding} {r : Except Err String}
    (h : ClaimResult w.trace value r) :
    Safe protocol t (.ofExcept r : sys.Task String)
      (fun id w' => id = value.backendAgentId ∧
        Bound w'.trace value.backendAgentId value.workspaceUid)
      (fun e w' => ClaimError w'.trace value.backendAgentId e) w := by
  cases r with
  | ok id => exact Safe.ret fun w' hr _ => h.later hr.1.later
  | error e => exact Safe.fail fun w' hr _ => h.later hr.1.later

theorem runClaim_safe {value : Binding} (hguid : isGuid value.backendAgentId = true)
    (promise : Nat) (permitted : Bool) :
    Safe protocol t (runClaim value promise permitted)
      (fun id w' => id = value.backendAgentId ∧
        Bound w'.trace value.backendAgentId value.workspaceUid)
      (fun e w' => ClaimError w'.trace value.backendAgentId e) w := by
  refine claimPermit_safe permitted fun w1 _ => ?_
  -- the outcome of the durable claim, as the promise will hold it
  have hdurable : Safe protocol t (claimDurable value).attempt
      (fun r w' => ClaimResult w'.trace value r)
      (fun e w' => ClaimError w'.trace value.backendAgentId e) w1 :=
    Safe.attempt (Safe.mono (claimDurable_safe hguid) (fun _ _ h => h) fun _ _ h => h)
  refine Safe.bind (Safe.mono hdurable (fun result w2 hresult _ => ?_) fun _ _ h => h)
  refine Safe.request fun w3 ho hi now a ha => ?_
  cases ha
  have hresult3 := hresult.later ho.1
  refine ⟨{ (hi.memory t.proc).releasePermit with settled := ?_ }, by simp, fun ho4 => ?_⟩
  · intro row hrow value' hkey hguid'
    rcases List.mem_cons.mp hrow with rfl | hold
    · obtain ⟨huid, hid⟩ := cacheKey_inj hguid hguid' hkey
      cases result with
      | ok id =>
        refine ⟨hresult3.1.trans hid, ?_⟩
        rw [← huid, ← hid]
        exact hresult3.2
      | error e =>
        change ClaimError _ _ _
        rw [← hid]
        exact hresult3
    · exact (hi.memory t.proc).releasePermit.settled row hold value' hkey hguid'
  · refine Safe.request fun w5 ho5 hi5 now' a' ha' => ?_
    cases ha'
    exact ⟨{ hi5.memory t.proc with }, by simp,
      fun ho6 => Safe.ofExcept (hresult.later (ho4.1.trans ho6.1))⟩

theorem binding_ok {workspace : Workspace} {g : String} {value : Binding}
    (h : binding workspace g = .ok value) :
    value.backendAgentId = g ∧ workspace.metadata.uid = some value.workspaceUid ∧
      value.workspaceId = workspace.metadata.name ∧ isGuid g = true := by
  unfold binding at h
  split at h
  · cases h
  · split at h
    · rename_i uid huid hvalid
      cases h
      exact ⟨rfl, huid, rfl, hvalid.2.2⟩
    · cases h

/-- A claim with a valid binding: whichever way its outcome is found, the outcome is
    a `ClaimResult`. -/
theorem claim_bound_safe {workspace : Workspace} {g : String} {value : Binding}
    (hb : binding workspace g = .ok value) :
    Safe protocol t (claim workspace g)
      (fun id w' => id = value.backendAgentId ∧
        Bound w'.trace value.backendAgentId value.workspaceUid)
      (fun e w' => ClaimError w'.trace value.backendAgentId e) w := by
  obtain ⟨rfl, _, _, hguid⟩ := binding_ok hb
  unfold claim
  rw [hb]
  refine Safe.request fun w1 ho hi now a ha => ?_
  simp only [answer] at ha
  have hmem := hi.memory t.proc
  split at ha
  · -- answered from the cache
    rename_i hcached
    cases ha
    have hkey : KeyBound w1.trace (cacheKey value) := by
      cases hlook : (w1.mem t.proc).claims.lookup (cacheKey value) with
      | none =>
        rw [hlook] at hcached
        simp at hcached
      | some expiry =>
        obtain ⟨before, after, hsplit, _⟩ := List.lookup_eq_some_iff.mp hlook
        exact hmem.cached (cacheKey value, expiry) (by rw [hsplit]; simp)
    refine ⟨hmem.remember hkey now, by simp, fun _ => Safe.ret fun w3 hr _ => ?_⟩
    obtain ⟨b, hkeys, hbguid, hbound⟩ := hkey
    obtain ⟨hu, hg⟩ := cacheKey_inj hguid hbguid hkeys
    rw [← hu, ← hg] at hbound
    exact ⟨rfl, hbound.later ((after_later w1 t _).trans hr.1.later)⟩
  · split at ha
    · -- joined a claim in flight
      cases ha
      refine ⟨hmem.forget _, by simp, fun _ => ?_⟩
      refine Safe.request fun w3 _ hi3 now' a' ha' => ?_
      simp only [answer] at ha'
      split at ha'
      · rename_i row hrow
        cases ha'
        refine ⟨hi3.memory t.proc, by simp, fun _ => Safe.ofExcept ?_⟩
        have hmem' := List.mem_of_find?_eq_some hrow
        have hfound := List.find?_some hrow
        simp only [Bool.and_eq_true, beq_iff_eq] at hfound
        exact ((hi3.memory t.proc).settled row hmem' value hfound.2 hguid).later
          (after_later w3 t _)
      · cases ha'
    · split at ha
      · -- refused: too many claims in flight
        cases ha
        exact ⟨hmem.forget _, by simp, fun _ => Safe.fail fun _ _ _ => .inl (.inr (.inr rfl))⟩
      · cases ha
        exact ⟨{ (hmem.forget (cacheKey value)).permit t with }, by simp,
          fun _ => runClaim_safe hguid _ _⟩

theorem claim_safe (workspace : Workspace) (g : String) :
    Safe protocol t (claim workspace g)
      (fun id w' => isGuid id = true ∧ Claimed w' workspace g id)
      (fun e w' => ∀ value, binding workspace g = .ok value → ClaimError w'.trace g e) w := by
  cases hb : binding workspace g with
  | error e =>
    unfold claim
    rw [hb]
    exact Safe.fail fun w1 _ _ value hvalue => by cases hvalue
  | ok value =>
    obtain ⟨hid, huid, _, hguid⟩ := binding_ok hb
    refine Safe.mono (claim_bound_safe hb) ?_ ?_
    · rintro id w' ⟨rfl, hbound⟩
      rw [hid] at hbound ⊢
      exact ⟨hguid, rfl, _, huid, hbound⟩
    · intro e w' he _ _
      rw [hid] at he
      exact he

/-- A synchronous segment that touches neither claims nor batches. -/
theorem Safe.bookkeeping {x : Ext} {k : Ext.Res x → sys.Task α}
    (hx : x = .releasePermit ∨ x = .endReserve)
    (h : ∀ w' r, Onward t w w' → Safe protocol t (k r) Q E w') :
    Safe protocol t (.call (.ext x) k) Q E w := by
  refine Safe.request fun w' ho hi now a ha => ?_
  rcases hx with rfl | rfl
  · cases ha
    exact ⟨(hi.memory t.proc).releasePermit, by simp, fun ho' => h _ _ ho'⟩
  · cases ha
    exact ⟨{ hi.memory t.proc with }, by simp, fun ho' => h _ _ ho'⟩

theorem reserveForCreate_safe (workspace : Workspace) (g : String) :
    Safe protocol t (reserveForCreate workspace g) (fun id w' => Claimed w' workspace g id)
      (fun _ _ => True) w := by
  unfold reserveForCreate
  cases hb : binding workspace g with
  | error e => exact Safe.fail fun _ _ _ => trivial
  | ok value =>
    obtain ⟨rfl, huid, _, hguid⟩ := binding_ok hb
    -- whatever the create answered, a failure ends in three bookkeeping steps
    have hfailed : ∀ {w1 : World sys} (e : Err), Safe protocol t
        (ask (S := sys) .endReserve >>= fun _ => (.fail e : sys.Task String))
        (fun id w' => Claimed w' workspace value.backendAgentId id) (fun _ _ => True) w1 :=
      fun e => Safe.bookkeeping (.inr rfl) fun _ _ _ => Safe.fail fun _ _ _ => trivial
    refine Safe.request fun w1 ho hi now a ha => ?_
    simp only [answer] at ha
    split at ha
    · cases ha
      exact ⟨hi.memory t.proc, by simp, fun _ => Safe.fail fun _ _ _ => trivial⟩
    · cases ha
      refine ⟨{ (hi.memory t.proc).permit t with }, by simp, fun _ => ?_⟩
      refine claimPermit_safe _ fun w2 _ => ?_
      refine Safe.create fun w3 hr hi3 => ⟨?_, ?_, ?_⟩
      · intro hnone
        obtain ⟨hinv, hbound⟩ := created_history hi3 hnone (some t)
        refine ⟨⟨hinv, fun u _ _ => .of_eq rfl⟩, ?_, ?_⟩
        · refine Safe.bookkeeping (.inl rfl) fun w4 _ ho4 => ?_
          refine Safe.remember ⟨value, rfl, hguid, hbound.later ho4.1⟩ fun w5 ho5 => ?_
          refine Safe.bookkeeping (.inr rfl) fun w6 _ ho6 => Safe.ret fun w7 hr7 _ => ?_
          exact ⟨rfl, _, huid,
            hbound.later (ho4.1.trans (ho5.1.trans (ho6.1.trans hr7.1.later)))⟩
        · exact Safe.bookkeeping (.inl rfl) fun _ _ _ => hfailed _
      · exact fun _ _ => Safe.bookkeeping (.inl rfl) fun _ _ _ => hfailed _
      · exact Safe.bookkeeping (.inl rfl) fun _ _ _ => hfailed _

/-! ### Resolving -/

/-- Only an active record of an authorized workspace resolves. -/
theorem resolvedRoute_ok {id g : String} {workspaces : List Workspace}
    {record : Option (Nat × Route)} {r : Resolved}
    (h : resolvedRoute id g workspaces record = .ok r) :
    ∃ n b, record = some (n, .active b) ∧ r.workspace ∈ workspaces ∧
      r.backendAgentId = b.backendAgentId ∧ b.workspaceId = r.workspace.metadata.name ∧
      r.workspace.metadata.uid = some b.workspaceUid := by
  unfold resolvedRoute at h
  split at h
  · cases h
  · cases h
  · rename_i n b
    split at h
    · cases h
    · split at h
      · cases h
      · rename_i workspace hfind
        split at h
        · cases h
        · cases h
          have hmatch := List.find?_some hfind
          simp only [Bool.and_eq_true, beq_iff_eq] at hmatch
          exact ⟨n, b, rfl, List.mem_of_find?_eq_some hfind, rfl, hmatch.1.symm, hmatch.2⟩

theorem resolve_safe (id : String) (workspaces : List Workspace) :
    Safe protocol t (resolve id workspaces) (fun r w' => Resolves w w' id workspaces r)
      (fun _ _ => True) w := by
  unfold resolve
  cases hg : requestedGuid id with
  | error e => exact Safe.fail fun _ _ _ => trivial
  | ok g =>
    refine Safe.read fun w1 ho hi => ⟨?_, ?_, ?_⟩
    · exact fun _ => Safe.fail fun _ _ _ => trivial
    · intro n r hlook hself
      cases hres : resolvedRoute id g workspaces (some (n, r)) with
      | error e => exact Safe.fail fun _ _ _ => trivial
      | ok out =>
        obtain ⟨m, b, hrecord, hmem, hid, hname, huid⟩ := resolvedRoute_ok hres
        cases hrecord
        change b.backendAgentId = g at hself
        rw [hself] at hid
        refine Safe.ret fun w2 hr _ => ⟨by rw [hg, hid], hmem, ?_⟩
        have hactive : ActiveFor out.workspace out.backendAgentId w1.trace := by
          rw [hid]
          exact ⟨n, b, hlook, hname, huid⟩
        exact (During.now ho.1 hactive).later hr.1.later
    · exact Safe.fail fun _ _ _ => trivial

/-- A GUID contains no tilde, so it is resolved as it is. -/
theorem requestedGuid_guid {id : String} (h : isGuid id = true) :
    requestedGuid id = .ok id := by
  unfold requestedGuid
  rw [isGuid_no_tilde h]
  simp [h]

/-- A record seen active during a part of a `project` call was active since its
    beginning. -/
theorem ActiveSince.of_during {w w' : World sys} {root : Tid} {workspace : Workspace}
    {id : String} (hroot : ProjectsFor w root workspace) (hi : Inv w) (hl : Later w w')
    (h : During w w' (ActiveFor workspace id)) : ActiveSince w' root workspace id := by
  obtain ⟨hidx, value, n, hcall⟩ := hroot
  obtain ⟨tr, hfrom, hto, hactive⟩ := h
  have hheight := hi.heights root _ hcall
  refine ⟨Nat.lt_of_lt_of_le hidx hl.next, _, tr, by rw [hl.calls root hidx, hcall], hto, ?_,
    hactive⟩
  exact Nat.le_trans hheight hfrom.length_le

theorem verify_safe {root : Tid} {workspace : Workspace} (id : String)
    (hroot : ProjectsFor w root workspace) :
    Safe protocol t (verify workspace id)
      (fun publicId w' => ActiveSince w' root workspace publicId) (fun _ _ => True) w := by
  unfold verify
  refine Safe.bind (Safe.mono (Safe.onward (claim_safe workspace id)) ?_ fun _ _ _ => trivial)
  rintro publicId w1 ⟨ho, hguid, _⟩ hi
  refine Safe.bind (Safe.mono (Safe.onward (resolve_safe publicId [workspace])) ?_
    fun _ _ _ => trivial)
  rintro r w2 ⟨ho2, hreq, hmem, hduring⟩ _
  rw [requestedGuid_guid hguid] at hreq
  rw [List.mem_singleton.mp hmem, ← Except.ok.inj hreq] at hduring
  have hsince := ActiveSince.of_during (hroot.later ho.1) hi ho2.1 hduring
  exact Safe.ret fun w3 hr _ => hsince.later hr.1.later

/-! ### Projection

`Projects P t root workspace` below: the ids a piece of the projection publishes
were active since `root` began. -/

theorem verifiedClaim_safe {root : Tid} {workspace : Workspace} (id : String)
    (hroot : ProjectsFor w root workspace) :
    Safe protocol t (verifiedClaim root workspace id)
      (fun publicId w' => ActiveSince w' root workspace publicId) (fun _ _ => True) w := by
  unfold verifiedClaim
  have hawait : ∀ {w1 : World sys}, ProjectsFor w1 root workspace → Safe protocol t
      (ask (S := sys) (.awaitVerified root id) >>= fun result => .ofExcept result)
      (fun publicId w' => ActiveSince w' root workspace publicId) (fun _ _ => True) w1 := by
    intro w1 hroot1
    refine Safe.request fun w2 ho hi now a ha => ?_
    simp only [answer] at ha
    split at ha
    · rename_i row hrow
      cases ha
      refine ⟨hi.memory t.proc, by simp, fun ho3 => ?_⟩
      have hfound := List.find?_some hrow
      simp only [Bool.and_eq_true, beq_iff_eq] at hfound
      obtain ⟨workspace', hroot', hok⟩ :=
        (hi.memory t.proc).verified row (List.mem_of_find?_eq_some hrow)
      rw [hfound.1] at hroot' hok
      have hws := hroot'.unique (hroot1.later ho.1)
      subst hws
      change Safe protocol t (.ofExcept row.2.2) _ _ _
      cases hres : row.2.2 with
      | ok publicId =>
        exact Safe.ret fun w4 hr _ =>
          (hok publicId hres).later ((after_later w2 t _).trans hr.1.later)
      | error e => exact Safe.fail fun _ _ _ => trivial
    · cases ha
  refine Safe.request fun w1 ho hi now a ha => ?_
  simp only [answer] at ha
  split at ha
  · cases ha
    exact ⟨hi.memory t.proc, by simp, fun ho2 => hawait (hroot.later ho2.1)⟩
  · cases ha
    refine ⟨{ hi.memory t.proc with }, ?_, fun ho2 => hawait (hroot.later ho2.1)⟩
    intro c hc u hu
    rw [List.mem_singleton.mp hc]
    exact (hroot.later ho.1).later (after_later w1 t _)

theorem projectId_safe {root : Tid} {workspace : Workspace} (value : String)
    (hroot : ProjectsFor w root workspace) :
    Safe protocol t (projectId root workspace value)
      (fun publicId w' => ActiveSince w' root workspace publicId) (fun _ _ => True) w := by
  unfold projectId
  cases projectedId value workspace with
  | error e => exact Safe.fail fun _ _ _ => trivial
  | ok id => exact verifiedClaim_safe id hroot

theorem BatchIs.onward {w w' : World sys} {batch : Nat} {root : Tid} {workspace : Workspace}
    {job : Job} (h : BatchIs w t.proc batch root workspace job) (ho : Onward t w w') :
    BatchIs w' t.proc batch root workspace job := by
  obtain ⟨b, hb, rfl, rfl, rfl⟩ := h
  obtain ⟨b', hb', hroot, hws, hjob⟩ := ho.2 batch b hb
  exact ⟨b', hb', hroot, hws, hjob⟩

theorem Job.ids_null (job : Job) : job.ids .null = [] := by
  cases job with
  | nested context => rfl
  | agentIds => rfl

theorem mapBounded_safe {root : Tid} {workspace : Workspace} (job : Job)
    (values : List Json) (hroot : ProjectsFor w root workspace) :
    Safe protocol t (mapBounded root workspace job values)
      (fun value w' => ∃ output, value = .arr output ∧ ∀ out ∈ output, ∀ id ∈ job.ids out,
        ActiveSince w' root workspace id) (fun _ _ => True) w := by
  unfold mapBounded
  refine Safe.request fun w1 ho hi now a ha => ?_
  have hmem : a.mem.batches = (w1.mem t.proc).batches ++
      [{ root, workspace, job, running := min MAX_WORKERS values.length }] := by
    cases ha
    rfl
  have hbatch : BatchIs (after w1 t a) t.proc (w1.mem t.proc).batches.length root workspace
      job := ⟨_, by rw [after_mem, hmem, List.getElem?_concat_length], rfl, rfl, rfl⟩
  cases ha
  refine ⟨{ hi.memory t.proc with output := ?_ }, ?_, fun ho2 => ?_⟩
  · intro i b hb out hout
    rw [List.getElem?_append] at hb
    split at hb
    · exact (hi.memory t.proc).output i b hb out hout
    · have hnew := List.mem_singleton.mp (List.mem_of_getElem? hb)
      subst hnew
      cases hout
  · intro c hc u hu
    rw [(List.mem_replicate.mp hc).2]
    exact ⟨(hroot.later ho.1).later (after_later w1 t _), by rw [hu]; exact hbatch⟩
  · refine Safe.request fun w3 ho3 hi3 now' a' ha' => ?_
    obtain ⟨b, hb, rfl, rfl, rfl⟩ := hbatch.onward ho3
    simp only [answer, hb] at ha'
    split at ha'
    · cases ha'
      exact ⟨hi3.memory t.proc, by simp, fun _ => Safe.fail fun _ _ _ => trivial⟩
    · split at ha'
      · cases ha'
        refine ⟨hi3.memory t.proc, by simp, fun _ => Safe.ret fun w4 hr _ => ⟨_, rfl, ?_⟩⟩
        intro out hout id hid
        obtain ⟨i, _, rfl⟩ := List.mem_map.mp hout
        cases hlook : b.output.lookup i with
        | none =>
          rw [hlook] at hid
          exact absurd hid (Job.ids_null b.job ▸ List.not_mem_nil)
        | some value =>
          rw [hlook] at hid
          obtain ⟨before, after', hsplit, _⟩ := List.lookup_eq_some_iff.mp hlook
          have hsince := (hi3.memory t.proc).output _ b hb (i, value)
            (by rw [hsplit]; simp) id hid
          exact hsince.later ((after_later w3 t _).trans hr.1.later)
      · cases ha'

mutual

theorem project_safe {root : Tid} {workspace : Workspace} (context : String)
    (value : Json) {w : World sys} (hroot : ProjectsFor w root workspace) :
    Safe protocol t (project root workspace context value)
      (fun out w' => ∀ id ∈ publishedIds context out, ActiveSince w' root workspace id)
      (fun _ _ => True) w := by
  cases value with
  | arr values =>
    refine Safe.mono (mapBounded_safe (.nested context) values hroot) ?_ fun _ _ _ => trivial
    rintro _ w1 ⟨output, rfl, hout⟩ id hid
    obtain ⟨out, hmem, hid'⟩ := mem_publishedItems.mp hid
    exact hout out hmem id hid'
  | obj fields =>
    refine Safe.bind (Safe.mono (projectFields_safe context fields hroot) ?_ fun _ _ _ => trivial)
    intro out w1 hout _
    exact Safe.ret fun w2 hr _ id hid => (hout id hid).later hr.1.later
  | null => exact Safe.ret fun _ _ _ id hid => by cases hid
  | bool b => exact Safe.ret fun _ _ _ id hid => by cases hid
  | num n => exact Safe.ret fun _ _ _ id hid => by cases hid
  | str s => exact Safe.ret fun _ _ _ id hid => by cases hid

theorem projectFields_safe {root : Tid} {workspace : Workspace} (context : String)
    (fields : List (String × Json)) {w : World sys} (hroot : ProjectsFor w root workspace) :
    Safe protocol t (projectFields root workspace context fields)
      (fun out w' => ∀ id ∈ publishedFields context out, ActiveSince w' root workspace id)
      (fun _ _ => True) w := by
  cases fields with
  | nil => exact Safe.ret fun _ _ _ id hid => by cases hid
  | cons field rest =>
    obtain ⟨key, item⟩ := field
    refine Safe.bind (Safe.mono (Safe.onward (projectField_safe context key item hroot)) ?_
      fun _ _ _ => trivial)
    rintro out w1 ⟨ho1, hout⟩ _
    refine Safe.bind (Safe.mono (Safe.onward
      (projectFields_safe context rest (hroot.later ho1.1))) ?_ fun _ _ _ => trivial)
    rintro others w2 ⟨ho2, hothers⟩ _
    refine Safe.ret fun w3 hr _ id hid => ?_
    rcases List.mem_append.mp hid with hfirst | hrest
    · exact (hout id hfirst).later (ho2.1.trans hr.1.later)
    · exact (hothers id hrest).later hr.1.later

theorem projectField_safe {root : Tid} {workspace : Workspace} (context key : String)
    (item : Json) {w : World sys} (hroot : ProjectsFor w root workspace) :
    Safe protocol t (projectField root workspace context key item)
      (fun out w' => ∀ id ∈ publishedField context key out, ActiveSince w' root workspace id)
      (fun _ _ => True) w := by
  cases item with
  | str s =>
    unfold projectField
    split
    · rename_i hfield
      refine Safe.bind (Safe.mono (projectId_safe s hroot) ?_ fun _ _ _ => trivial)
      intro publicId w1 hsince _
      refine Safe.ret fun w2 hr _ id hid => ?_
      simp only [publishedField, hfield, if_true, List.mem_singleton] at hid
      subst hid
      exact hsince.later hr.1.later
    · rename_i hfield
      refine Safe.ret fun w2 hr _ id hid => ?_
      simp [publishedField, hfield] at hid
  | arr items =>
    unfold projectField
    split
    · rename_i hkey
      refine Safe.mono (mapBounded_safe .agentIds items hroot) ?_ fun _ _ _ => trivial
      rintro _ w1 ⟨output, rfl, hout⟩ id hid
      simp only [publishedField, hkey, if_true, List.mem_filterMap] at hid
      obtain ⟨out, hmem, hid'⟩ := hid
      refine hout out hmem id ?_
      cases out <;> simp_all [Job.ids]
    · rename_i hkey
      split
      · rename_i hopaque
        refine Safe.ret fun w2 hr _ id hid => ?_
        rw [publishedField, if_neg hkey, if_pos hopaque] at hid
        cases hid
      · rename_i hopaque
        refine Safe.mono (mapBounded_safe (.nested key) items hroot) ?_ fun _ _ _ => trivial
        rintro _ w1 ⟨output, rfl, hout⟩ id hid
        simp only [publishedField, hkey, hopaque, if_false, Bool.false_eq_true] at hid
        obtain ⟨out, hmem, hid'⟩ := mem_publishedItems.mp hid
        exact hout out hmem id hid'
  | obj fields =>
    unfold projectField
    split
    · rename_i hkey
      refine Safe.ret fun w2 hr _ id hid => ?_
      simp [publishedField, hkey] at hid
    · rename_i hkey
      split
      · rename_i hopaque
        refine Safe.ret fun w2 hr _ id hid => ?_
        rw [publishedField, if_neg hkey, if_pos hopaque] at hid
        cases hid
      · rename_i hopaque
        refine Safe.bind (Safe.mono (projectFields_safe key fields hroot) ?_
          fun _ _ _ => trivial)
        intro out w1 hout _
        refine Safe.ret fun w2 hr _ id hid => ?_
        simp only [publishedField, hkey, hopaque, if_false, Bool.false_eq_true] at hid
        exact (hout id hid).later hr.1.later
  | null => exact Safe.ret fun _ _ _ id hid => by cases hid
  | bool b => exact Safe.ret fun _ _ _ id hid => by cases hid
  | num n => exact Safe.ret fun _ _ _ id hid => by cases hid

end

/-! ### Workers and whole calls -/

theorem run_safe {root : Tid} {workspace : Workspace} (job : Job) (value : Json)
    {w : World sys} (hroot : ProjectsFor w root workspace) :
    Safe protocol t (job.run root workspace value)
      (fun out w' => ∀ id ∈ job.ids out, ActiveSince w' root workspace id)
      (fun _ _ => True) w := by
  cases job with
  | nested context => exact project_safe context value hroot
  | agentIds =>
    cases value with
    | str s =>
      refine Safe.bind (Safe.mono (projectId_safe s hroot) ?_ fun _ _ _ => trivial)
      intro publicId w1 hsince _
      refine Safe.ret fun w2 hr _ id hid => ?_
      rw [List.mem_singleton.mp hid]
      exact hsince.later hr.1.later
    | _ => exact Safe.fail fun _ _ _ => trivial

theorem workerLoop_safe {root : Tid} {workspace : Workspace} {job : Job} (batch : Nat)
    (values : List Json) (rounds : Nat) {w : World sys}
    (hroot : ProjectsFor w root workspace)
    (hbatch : BatchIs w t.proc batch root workspace job) :
    Safe protocol t (workerLoop (job.run root workspace) batch values rounds)
      (fun _ _ => True) (fun _ _ => True) w := by
  induction rounds generalizing w with
  | zero => exact Safe.ret fun _ _ _ => trivial
  | succ rounds ih =>
    refine Safe.request fun w1 ho hi now a ha => ?_
    simp only [answer] at ha
    split at ha
    · cases ha
    · rename_i b hb
      cases ha
      refine ⟨(hi.memory t.proc).setBatch fun b' hb' => ?_, by simp, fun ho1 => ?_⟩
      · exact (hi.memory t.proc).output batch b' hb'
      dsimp only [Prog.bind]
      cases values[b.next]? with
      | none => exact Safe.ret fun _ _ _ => trivial
      | some value =>
        refine Safe.bind (Safe.mono (Safe.onward (run_safe job value (hroot.later ho1.1))) ?_
          fun _ _ _ => trivial)
        rintro out w2 ⟨ho2, hout⟩ _
        refine Safe.request fun w3 ho3 hi3 now' a' ha' => ?_
        cases ha'
        have ho13 := ho1.trans (ho2.trans ho3)
        refine ⟨(hi3.memory t.proc).setBatch fun b' hb' => ?_, by simp, fun ho4 => ?_⟩
        · -- the new output is the worker's; the old ones were there
          obtain ⟨b'', hb'', hroot'', hws'', hjob''⟩ := hbatch.onward ho13
          rw [hb'] at hb''
          cases hb''
          intro o ho id hid
          simp only at hid ⊢
          rcases List.mem_cons.mp ho with rfl | hold
          · rw [hjob''] at hid
            rw [hroot'', hws'']
            exact (hout id hid).later ho3.1
          · exact (hi3.memory t.proc).output batch b' hb' o hold id hid
        · have ho14 := ho1.trans (ho2.trans ho4)
          exact ih (hroot.later ho14.1) (hbatch.onward ho14)

theorem program_safe (c : Call) {w : World sys} (hpre : Pre t c w)
    (hcall : w.calls t = some ⟨c, w.trace.length⟩) (ht : t.idx < w.next) :
    Safe protocol t (program t c) (fun out w' => Post c w out w')
      (fun e w' => Thrown c e w') w := by
  cases c with
  | claim workspace g =>
    refine Safe.bind (Safe.mono (claim_safe workspace g) ?_ fun _ _ h => h)
    rintro id w1 ⟨_, hid, uid, huid, hbound⟩ _
    exact Safe.ret fun w2 hr _ => ⟨hid, uid, huid, hbound.later hr.1.later⟩
  | reserveForCreate workspace g =>
    refine Safe.bind (Safe.mono (reserveForCreate_safe workspace g) ?_ fun _ _ _ => trivial)
    rintro id w1 ⟨hid, uid, huid, hbound⟩ _
    exact Safe.ret fun w2 hr _ => ⟨hid, uid, huid, hbound.later hr.1.later⟩
  | resolve id workspaces =>
    refine Safe.bind (Safe.mono (resolve_safe id workspaces) ?_ fun _ _ _ => trivial)
    rintro r w1 ⟨hreq, hmem, hduring⟩ _
    exact Safe.ret fun w2 hr _ => ⟨hreq, hmem, hduring.later hr.1.later⟩
  | project value workspace =>
    have hroot : ProjectsFor w t workspace := ⟨ht, value, _, hcall⟩
    refine Safe.bind (Safe.mono (Safe.onward (project_safe "" value hroot)) ?_
      fun _ _ _ => trivial)
    rintro out w1 ⟨ho, hout⟩ _
    refine Safe.ret fun w2 hr _ id hid => ?_
    -- the moment lies after the call's own beginning
    obtain ⟨_, s, tr, hs, hsuffix, hheight, hactive⟩ := (hout id hid).later hr.1.later
    have hl := ho.1.trans hr.1.later
    rw [hl.calls t ht, hcall] at hs
    cases hs
    exact ⟨tr, List.suffix_of_suffix_length_le hl.suffix hsuffix hheight, hsuffix, hactive⟩
  | verified root workspace id =>
    have hroot : ProjectsFor w root workspace := hpre
    -- the outcome, returned or thrown, as `awaitVerified` will find it
    have houtcome : Safe protocol t (verify workspace id).attempt
        (fun r w' => Later w w' ∧ ∀ publicId, r = .ok publicId →
          ActiveSince w' root workspace publicId) (fun _ _ => True) w := by
      refine Safe.attempt (Safe.mono (Safe.onward (verify_safe id hroot)) ?_ ?_)
      · rintro publicId w1 ⟨ho, hsince⟩
        exact ⟨ho.1, fun _ heq => Except.ok.inj heq ▸ hsince⟩
      · rintro e w1 ⟨ho, _⟩
        exact ⟨ho.1, fun _ heq => by cases heq⟩
    refine Safe.bind (Safe.mono houtcome ?_ fun _ _ _ => trivial)
    rintro r w1 ⟨hl, hsince⟩ _
    refine Safe.request fun w2 ho hi2 now a ha => ?_
    cases ha
    refine ⟨{ hi2.memory t.proc with verified := ?_ }, by simp,
      fun _ => Safe.ret fun _ _ _ => trivial⟩
    intro row hrow
    rcases List.mem_cons.mp hrow with rfl | hold
    · exact ⟨workspace, hroot.later (hl.trans ho.1),
        fun publicId hok => (hsince publicId hok).later ho.1⟩
    · exact (hi2.memory t.proc).verified row hold
  | worker root workspace job batch values =>
    obtain ⟨hroot, hbatch⟩ := hpre
    have hloop : Safe protocol t
        (workerLoop (job.run root workspace) batch values (values.length + 1)).attempt
        (fun _ _ => True) (fun _ _ => True) w :=
      Safe.attempt (workerLoop_safe batch values _ hroot hbatch)
    refine Safe.bind (Safe.mono hloop ?_ fun _ _ _ => trivial)
    intro r w1 _ _
    refine Safe.request fun w2 ho hi2 now a ha => ?_
    cases ha
    refine ⟨(hi2.memory t.proc).setBatch fun b hb => ?_, by simp,
      fun _ => Safe.ret fun _ _ _ => trivial⟩
    cases r <;> exact (hi2.memory t.proc).output batch b hb

theorem sound : protocol.Sound where
  init := ⟨fun _ => trivial, fun u s hs => (by cases hs), fun _ => MemOk.fresh _⟩
  start := by
    intro w p c hi hentry
    have hl : Later w (w.spawn p c) :=
      ⟨⟨[], rfl⟩, Nat.le_succ _, fun u hu => World.spawn_calls_of_lt hu p c⟩
    refine ⟨⟨hi.history, ?_, fun q => (hi.memory q).later hl⟩, fun _ _ => .of_eq rfl, ?_⟩
    · intro u s hs
      rcases World.spawn_height hs with hold | ⟨_, rfl⟩
      · exact hi.heights u s hold
      · exact Nat.le_refl _
    · cases c with
      | verified root workspace id => cases hentry
      | worker root workspace job batch values => cases hentry
      | _ => trivial
  crash := by
    intro w p hi
    have hl : Later w (registry.crashed p w) :=
      ⟨⟨[], rfl⟩, Nat.le_refl _, fun _ _ => rfl⟩
    refine ⟨⟨hi.history, hi.heights, fun q => ?_⟩, fun u hu => ?_⟩
    · by_cases hq : q = p
      · subst hq
        simp only [Machine.crashed, Function.update_self]
        exact MemOk.fresh _
      · simp only [Machine.crashed, Function.update_of_ne hq]
        exact (hi.memory q).later hl
    · exact .of_eq (by simp [Machine.crashed, Function.update_of_ne hu])
  env := fun {_ e} => e.elim
  body := fun _ hpre hcall ht _ => program_safe _ hpre hcall ht

/-! ### Every run -/

/-- A `resolve` makes one request, the read of its record, and fails when it reads
    a quarantined one. -/
theorem resolve_reads {id g : String} (workspaces : List Workspace)
    (hg : requestedGuid id = .ok g) :
    ∃ k, program t (.resolve id workspaces) = .call (.store (.get (.route g))) k ∧
      (∀ r, (∃ a, k r = .ret a) ∨ ∃ e, k r = .fail e) ∧
      (∀ e, ∃ e', k (.error e) = .fail e') ∧
      ∀ n b u, ∃ e, k (.ok (some (n, .collision b u))) = .fail e := by
  simp only [program, resolve, hg]
  refine ⟨_, rfl, ?_, fun e => ⟨_, rfl⟩, ?_⟩
  · intro r
    cases r with
    | error e => exact .inr ⟨_, rfl⟩
    | ok found =>
      cases found with
      | none => exact .inr ⟨_, rfl⟩
      | some p =>
        dsimp only [read, await, bind, Prog.bind, Prog.ofExcept]
        split
        · exact .inr ⟨_, rfl⟩
        · dsimp only [Prog.bind]
          cases resolvedRoute id g workspaces (some p) with
          | error e => exact .inr ⟨_, rfl⟩
          | ok out => exact .inl ⟨_, rfl⟩
  · intro n b u
    dsimp only [read, await, bind, Prog.bind, Prog.ofExcept]
    split <;> exact ⟨_, rfl⟩

/-- What holds of the registry in every run. -/
structure RegistrySafe (c : registry.Config) : Prop where
  /-- a record keeps its binding, and only an active one may still change -/
  records : ∀ tr g n r, tr <:+ c.world.trace →
    lookup (.route g) tr = some (n, r) →
    ∃ m r', lookup (.route g) c.world.trace = some (m, r') ∧
      r'.binding = r.binding ∧ (r.isCollision = true → r' = r)
  /-- a resolve answers what an active record said while it ran -/
  resolved : ∀ t th id workspaces r, c.threads t = some th →
    th.call = .resolve id workspaces → th.prog = .ret (.resolved r) →
    requestedGuid id = .ok r.backendAgentId ∧ r.workspace ∈ workspaces ∧
      During th.start c.world (ActiveFor r.workspace r.backendAgentId)
  /-- all resolves of one GUID agree -/
  agree : ∀ t th id workspaces r t' th' id' workspaces' r',
    c.threads t = some th → th.call = .resolve id workspaces →
    th.prog = .ret (.resolved r) → c.threads t' = some th' →
    th'.call = .resolve id' workspaces' → th'.prog = .ret (.resolved r') →
    r.backendAgentId = r'.backendAgentId →
    r.workspace.metadata.name = r'.workspace.metadata.name ∧
      r.workspace.metadata.uid = r'.workspace.metadata.uid
  /-- a resolve that reads its record after the quarantine fails -/
  quarantined : ∀ t th id workspaces g pick c', c.threads t = some th →
    th.call = .resolve id workspaces → requestedGuid id = .ok g →
    (∃ n b u, lookup (.route g) c.world.trace
      = some (n, .collision b u)) →
    c.move (.run t pick) = some c' → ∃ th' e, c'.threads t = some th' ∧ th'.prog = .fail e
  /-- a claim or reservation only returns an id no other workspace UID is bound to -/
  claimed : ∀ t th workspace g id, c.threads t = some th →
    th.call = .claim workspace g ∨ th.call = .reserveForCreate workspace g →
    th.prog = .ret (.id id) → id = g ∧ ∀ n r,
      Stored c.world.trace n (.route g) r →
      workspace.metadata.uid = some r.binding.workspaceUid
  /-- a claim that fails leaves its record in collision, but for three refusals -/
  failed : ∀ t th workspace g value e, c.threads t = some th →
    th.call = .claim workspace g → binding workspace g = .ok value → th.prog = .fail e →
    (∃ s, e = .store s) ∨ e = .exhausted ∨ e = .capacity ∨
      ∃ n b u, lookup (.route g) c.world.trace
        = some (n, .collision b u)
  /-- every published id was active for the workspace during the call -/
  projected : ∀ t th value workspace out, c.threads t = some th →
    th.call = .project value workspace → th.prog = .ret (.projected out) →
    ∀ id ∈ publishedIds "" out, During th.start c.world (ActiveFor workspace id)

/-- The record behind any past value, seen from the end of the run. -/
theorem records_of_suffix {tr tr' : History} (h : RouteHistory tr') (hsuffix : tr <:+ tr')
    {g : String} {n : Nat} {r : Route}
    (hlook : lookup (.route g) tr = some (n, r)) :
    ∃ m r', lookup (.route g) tr' = some (m, r') ∧
      r'.binding = r.binding ∧ (r.isCollision = true → r' = r) := by
  obtain ⟨new, rfl⟩ := hsuffix
  obtain ⟨m, r', hcur, hbind, _, hcoll⟩ := h.current ((lookup_stored hlook).mono new)
  exact ⟨m, r', hcur, hbind, hcoll⟩

theorem resolves_agree {w start start' : World sys} (h : RouteHistory w.trace) {a b : Workspace}
    {g : String} (ha : During start w (ActiveFor a g)) (hb : During start' w (ActiveFor b g)) :
    a.metadata.name = b.metadata.name ∧ a.metadata.uid = b.metadata.uid := by
  obtain ⟨tr, _, hto, n, ba, hlook, hname, huid⟩ := ha
  obtain ⟨tr', _, hto', n', bb, hlook', hname', huid'⟩ := hb
  obtain ⟨m, r, hcur, hbind, _⟩ := records_of_suffix h hto hlook
  obtain ⟨m', r', hcur', hbind', _⟩ := records_of_suffix h hto' hlook'
  rw [hcur] at hcur'
  cases hcur'
  have hsame : ba = bb := by
    rw [← (show r.binding = ba from hbind), (show r.binding = bb from hbind')]
  subst hsame
  exact ⟨hname.symm.trans hname', huid.trans huid'.symm⟩

theorem quarantined_resolve {c c' : registry.Config} (hreach : registry.Reachable c)
    {t : Tid} {th : registry.Thread} {id g : String} {workspaces : List Workspace}
    {pick : Pick registry} {n : Nat} {b : Binding} {u : String}
    (hth : c.threads t = some th) (hcall : th.call = .resolve id workspaces)
    (hg : requestedGuid id = .ok g)
    (hlook : lookup (.route g) c.world.trace
      = some (n, .collision b u))
    (hmove : c.move (.run t pick) = some c') :
    ∃ th' e, c'.threads t = some th' ∧ th'.prog = .fail e := by
  obtain ⟨k, hprog, hdone, herr, hcoll⟩ := resolve_reads (t := t) workspaces hg
  obtain ⟨call, start, prog⟩ := th
  simp only at hcall
  subst hcall
  have hleads := hreach.leads hth
  change (program t (.resolve id workspaces)).Leads prog at hleads
  rw [hprog] at hleads
  rcases hleads.of_call with rfl | ⟨r, hr⟩
  · -- the read is the request this step answers
    simp only [Machine.Config.move, hth] at hmove
    obtain ⟨⟨res, w'⟩, hperform, rfl⟩ := Option.map_eq_some_iff.mp hmove
    cases pick with
    | ext now => cases hperform
    | store weather =>
      simp only [Machine.perform, Option.some.injEq, Prod.mk.injEq] at hperform
      obtain ⟨rfl, rfl⟩ := hperform
      rcases hs : serve weather (some t) (StoreReq.get (ν := sys.Val) (Key.route g))
        c.world.trace with ⟨res, tr'⟩
      obtain ⟨_, hres⟩ := serve_get hs
      have hbelow := (sound.reachable hreach).below t _ hth
      have hfail : ∃ e, k res = .fail e := by
        rcases hres with hok | hlost
        · rw [hok, hlook]
          exact hcoll n b u
        · rw [hlost]
          exact herr _
      obtain ⟨e, he⟩ := hfail
      refine ⟨⟨.resolve id workspaces, start, .fail e⟩, e, ?_, rfl⟩
      simp only [Machine.adopt, hbelow, if_true, Function.update_self, he]
      rfl
  · -- a resolve that has read its record takes no more steps
    rcases hdone r with ⟨a, ha⟩ | ⟨e, he⟩
    · rw [ha] at hr
      rw [hr.of_ret] at hth
      simp [Machine.Config.move, hth] at hmove
    · rw [he] at hr
      rw [hr.of_fail] at hth
      simp [Machine.Config.move, hth] at hmove

/-- **Safety of the registry**, for any number of processes and every run. -/
theorem registry_safe {c : registry.Config} (h : registry.Reachable c) : RegistrySafe c := by
  have hholds := sound.reachable h
  have hhist := hholds.inv.history
  -- what the protocol says about a call that has returned or thrown
  have hpost : ∀ {t th out}, c.threads t = some th → th.prog = .ret out →
      Post th.call th.start out c.world := fun ht hp => hholds.returned ht hp
  have hresolves : ∀ {t th id workspaces r}, c.threads t = some th →
      th.call = .resolve id workspaces → th.prog = .ret (.resolved r) →
      Resolves th.start c.world id workspaces r := by
    intro t th id workspaces r ht hcall hp
    have hthis := hpost ht hp
    rw [hcall] at hthis
    exact hthis
  constructor
  · exact fun tr g n r hsuffix hlook => records_of_suffix hhist hsuffix hlook
  · exact fun t th id workspaces r ht hcall hp => hresolves ht hcall hp
  · intro t th id workspaces r t' th' id' workspaces' r' ht hcall hp ht' hcall' hp' hid
    have hduring := (hresolves ht hcall hp).2.2
    rw [hid] at hduring
    exact resolves_agree hhist hduring (hresolves ht' hcall' hp').2.2
  · rintro t th id workspaces g pick c' ht hcall hg ⟨n, b, u, hlook⟩ hmove
    exact quarantined_resolve h ht hcall hg hlook hmove
  · intro t th workspace g id ht hcall hp
    have hclaimed : Claimed c.world workspace g id := by
      have hthis := hpost ht hp
      rcases hcall with hcall | hcall
      · rw [hcall] at hthis
        exact hthis
      · rw [hcall] at hthis
        exact hthis
    obtain ⟨hid, uid, huid, m, r0, hs0, hbound⟩ := hclaimed
    refine ⟨hid, fun n r hs => ?_⟩
    -- every record of a GUID has the binding of the current one
    obtain ⟨_, r1, hcur, hbind, _⟩ := hhist.current hs
    obtain ⟨_, r2, hcur', hbind', _⟩ := hhist.current hs0
    rw [hcur] at hcur'
    cases hcur'
    rw [huid, ← hbound, ← hbind', hbind]
  · intro t th workspace g value e ht hcall hb hp
    have hthrown := hholds.threw ht hp
    rw [hcall] at hthrown
    rcases (hthrown value hb : ClaimError c.world.trace g e) with (hs | he | he) | hcoll
    · exact .inl hs
    · exact .inr (.inl he)
    · exact .inr (.inr (.inl he))
    · exact .inr (.inr (.inr (hcoll.lookup hhist)))
  · intro t th value workspace out ht hcall hp
    have hthis := hpost ht hp
    rw [hcall] at hthis
    exact hthis

/-! ### A run, and a claim that leaves its record active -/

def demoGuid : String := "0b0e7a52-3c1d-4f6a-9b8e-5d2f1c7a9e04"

def demoWorkspace (uid : String) : Workspace where
  metadata := { name := "ws", uid := some uid }
  spec := { projectRef := "p", displayName := "d", credentialProfile := "c" }

def step (p i : Nat) : registry.Move := .run ⟨p, i⟩ (.ext (0 : Nat))
def storeStep (p i : Nat) : registry.Move := .run ⟨p, i⟩ (.store {})

/-- One claim, and a projection answered from the claim cache. -/
def demoRun : List registry.Move :=
  [.start 0 (.claim (demoWorkspace "u") demoGuid),
   step 0 0, storeStep 0 0, step 0 0, step 0 0, step 0 0,
   .start 0 (.project (.obj [("agentId", .str demoGuid)]) (demoWorkspace "u")),
   step 0 1, step 0 2, storeStep 0 2, step 0 2, step 0 1]

def idsReturned (c : registry.Config) (t : Tid) : Option (List String) :=
  (c.threads t).bind fun th => match th.prog with
    | .ret (.projected out) => some (publishedIds "" out)
    | _ => none

theorem registry_safe_demo : ∃ c, registry.initial.moves demoRun = some c ∧
    idsReturned c ⟨0, 1⟩ = some [demoGuid] ∧ RegistrySafe c := by
  have hids : ((registry.initial.moves demoRun).bind fun c => idsReturned c ⟨0, 1⟩)
      = some [demoGuid] := by rfl
  obtain ⟨c, hc, hret⟩ := Option.bind_eq_some_iff.mp hids
  exact ⟨c, hc, hret, registry_safe (Machine.Reachable.init.moves hc)⟩

/-- The workspaces of the claims that fill the pending map, told apart by the length
    of their UIDs. -/
def filler (i : Nat) : Workspace := demoWorkspace (String.ofList (List.replicate (i + 1) 'x'))

def fillerBinding (i : Nat) : Binding :=
  ⟨"ws", String.ofList (List.replicate (i + 1) 'x'), demoGuid⟩

theorem isGuid_demoGuid : isGuid demoGuid = true := by rfl

theorem fillerKey_inj {i j : Nat}
    (h : cacheKey (fillerBinding i) = cacheKey (fillerBinding j)) : i = j := by
  have hguid : ∀ k, isGuid (fillerBinding k).backendAgentId = true := fun _ => isGuid_demoGuid
  have huid := (cacheKey_inj (hguid i) (hguid j) h).1
  have hlen := congrArg (fun s : String => s.toList.length) huid
  simpa [fillerBinding] using hlen

theorem filler_binding (i : Nat) :
    binding (filler i) demoGuid = .ok (fillerBinding i) := by
  have hne : String.ofList (List.replicate (i + 1) 'x') ≠ "" := by
    intro h
    have hlen := congrArg (fun s : String => s.toList.length) h
    simp at hlen
  simp [binding, filler, fillerBinding, demoWorkspace, isGuid_demoGuid, hne]

/-- The GUID is bound, and `i` claims are in flight in process 0. -/
structure Filled (i : Nat) (c : registry.Config) : Prop where
  reachable : registry.Reachable c
  next : c.world.next = i + 1
  bound : lookup (.route demoGuid) c.world.trace
    = some (0, .active ⟨"ws", "u", demoGuid⟩)
  claims : (c.world.mem 0).claims = []
  length : (c.world.mem 0).pending.length = i
  keys : ∀ row ∈ (c.world.mem 0).pending, ∃ j < i, row.1 = cacheKey (fillerBinding j)

def bindingRun : List registry.Move :=
  [.start 1 (.claim (demoWorkspace "u") demoGuid), step 1 0, storeStep 1 0]

theorem filled_zero : ∃ c, Filled 0 c := by
  have hrun : (registry.initial.moves bindingRun).map (fun c => decide (c.world.next = 1 ∧
        lookup (.route demoGuid) c.world.trace
          = some (0, .active ⟨"ws", "u", demoGuid⟩) ∧
        (c.world.mem 0).claims = [] ∧ (c.world.mem 0).pending = [])) = some true := by
    rfl
  obtain ⟨c, hc, hfacts⟩ := Option.map_eq_some_iff.mp hrun
  obtain ⟨hnext, hbound, hclaims, hpending⟩ := of_decide_eq_true hfacts
  refine ⟨c, Machine.Reachable.init.moves hc, hnext, hbound, hclaims, ?_, ?_⟩
  · rw [hpending]
    rfl
  · intro row hrow
    rw [hpending] at hrow
    cases hrow

theorem Mem.forget_of_nil {m : Mem} (h : m.claims = []) (key : String) : m.forget key = m := by
  cases m
  simp_all [Mem.forget]

theorem Mem.permit_same (m : Mem) (t : Tid) :
    (m.permit t).2.claims = m.claims ∧ (m.permit t).2.pending = m.pending := by
  unfold Mem.permit
  split
  · exact ⟨rfl, rfl⟩
  · exact ⟨rfl, rfl⟩

/-- What `beginClaim` answers in a process with an empty cache and this key not in
    flight. -/
theorem beginClaim_filled {i : Nat} {c : registry.Config} (h : Filled i c) {t : Tid}
    (ht : t.proc = 0) {w : World sys} (hw : w.mem 0 = c.world.mem 0) {key : String}
    (hnone : (c.world.mem 0).pending.lookup key = none) :
    answer 0 t (.beginClaim key) w =
      if MAX_PENDING_CLAIMS ≤ i then
        some { res := ClaimStart.full, mem := c.world.mem 0, glob := () }
      else
        let p := (c.world.mem 0).permit t
        some {
          res := ClaimStart.started (c.world.mem 0).nextPromise p.1
          mem := { p.2 with
            pending := p.2.pending ++ [(key, (c.world.mem 0).nextPromise)]
            nextPromise := (c.world.mem 0).nextPromise + 1 }
          glob := () } := by
  simp only [answer, ht, hw, h.claims, Mem.forget_of_nil h.claims, hnone, h.length]
  simp

/-- The first request of a claim, and what follows when it is refused. -/
theorem claim_begins {workspace : Workspace} {g : String} {value : Binding} (t : Tid)
    (hb : binding workspace g = .ok value) :
    ∃ k, program t (.claim workspace g) = .call (.ext (.beginClaim (cacheKey value))) k ∧
      k ClaimStart.full = .fail .capacity := by
  simp only [program, claim, hb]
  exact ⟨_, rfl, rfl⟩

theorem Filled.succ {i : Nat} {c : registry.Config} (h : Filled i c)
    (hi : i < MAX_PENDING_CLAIMS) : ∃ c', Filled (i + 1) c' := by
  obtain ⟨c1, hc1, hworld, hthread⟩ :=
    Machine.Config.start_move (m := registry) c 0 (.claim (filler i) demoGuid) rfl
  obtain ⟨k, hprog, _⟩ := claim_begins ⟨0, c.world.next⟩ (filler_binding i)
  rw [show registry.program ⟨0, c.world.next⟩ (.claim (filler i) demoGuid) = _ from hprog]
    at hthread
  have hnone : (c.world.mem 0).pending.lookup (cacheKey (fillerBinding i)) = none := by
    rw [List.lookup_eq_none_iff]
    intro row hrow
    obtain ⟨j, hj, hkey⟩ := h.keys row hrow
    rw [hkey, bne_iff_ne]
    intro heq
    have := fillerKey_inj heq
    omega
  have hmem1 : c1.world.mem 0 = c.world.mem 0 := by rw [hworld]; rfl
  have hanswer := beginClaim_filled h (t := ⟨0, c.world.next⟩) rfl hmem1 hnone
  rw [if_neg (by omega)] at hanswer
  obtain ⟨c2, hc2, htrace, hmem2, hnext, _⟩ := Machine.Config.ext_move (m := registry)
    (0 : Nat) hthread (by rw [hworld]; simp) hanswer
  change c2.world.trace = c1.world.trace at htrace
  change c2.world.mem 0 = _ at hmem2
  obtain ⟨hclaims, hpending⟩ := (c.world.mem 0).permit_same ⟨0, c.world.next⟩
  refine ⟨c2, (h.reachable.move hc1).move hc2, ?_, ?_, ?_, ?_, ?_⟩
  · rw [hnext, hworld]
    exact congrArg (· + 1) h.next
  · rw [htrace, hworld]
    exact h.bound
  · rw [hmem2]
    exact hclaims.trans h.claims
  · rw [hmem2]
    simp [hpending, h.length]
  · rw [hmem2]
    intro row hrow
    rcases List.mem_append.mp hrow with hold | hnew
    · rw [hpending] at hold
      obtain ⟨j, hj, hkey⟩ := h.keys row hold
      exact ⟨j, by omega, hkey⟩
    · rw [List.mem_singleton.mp hnew]
      exact ⟨i, by omega, rfl⟩

theorem filled (i : Nat) (hi : i ≤ MAX_PENDING_CLAIMS) : ∃ c, Filled i c := by
  induction i with
  | zero => exact filled_zero
  | succ i ih =>
    obtain ⟨c, hc⟩ := ih (by omega)
    exact hc.succ (by omega)

/-- The claim of a bound GUID that is refused for want of capacity: a 513th claim
    fails and the record stays active. -/
theorem refused_claim : ∃ c t th, registry.Reachable c ∧ c.threads t = some th ∧
    th.call = .claim (demoWorkspace "v") demoGuid ∧ th.prog = .fail .capacity ∧
    lookup (.route demoGuid) c.world.trace
      = some (0, .active ⟨"ws", "u", demoGuid⟩) := by
  obtain ⟨c, h⟩ := filled MAX_PENDING_CLAIMS le_rfl
  obtain ⟨c1, hc1, hworld, hthread⟩ :=
    Machine.Config.start_move (m := registry) c 0 (.claim (demoWorkspace "v") demoGuid) rfl
  have hb : binding (demoWorkspace "v") demoGuid = .ok ⟨"ws", "v", demoGuid⟩ := by
    rfl
  obtain ⟨k, hprog, hfull⟩ := claim_begins ⟨0, c.world.next⟩ hb
  rw [show registry.program ⟨0, c.world.next⟩ (.claim (demoWorkspace "v") demoGuid) = _
    from hprog] at hthread
  have hnone : (c.world.mem 0).pending.lookup (cacheKey ⟨"ws", "v", demoGuid⟩) = none := by
    rw [List.lookup_eq_none_iff]
    intro row hrow
    obtain ⟨j, _, hkey⟩ := h.keys row hrow
    rw [hkey, bne_iff_ne]
    intro heq
    -- every filler's UID is spelled with the letter x
    have huid := (cacheKey_inj (a := ⟨"ws", "v", demoGuid⟩) (b := fillerBinding j)
      isGuid_demoGuid isGuid_demoGuid heq).1
    have hchars := congrArg String.toList huid
    simp [fillerBinding, List.replicate_succ] at hchars
  have hmem1 : c1.world.mem 0 = c.world.mem 0 := by rw [hworld]; rfl
  have hanswer := beginClaim_filled h (t := ⟨0, c.world.next⟩) rfl hmem1 hnone
  rw [if_pos le_rfl] at hanswer
  obtain ⟨c2, hc2, htrace, _, _, hthread2⟩ := Machine.Config.ext_move (m := registry)
    (0 : Nat) hthread (by rw [hworld]; simp) hanswer
  change c2.world.trace = c1.world.trace at htrace
  refine ⟨c2, _, _, (h.reachable.move hc1).move hc2, hthread2, rfl, hfull, ?_⟩
  rw [htrace, hworld]
  exact h.bound

/-- A message whose only agent id is a legacy parent label. -/
def labelRun : List registry.Move :=
  [.start 0 (.project (.obj [("labels", .obj [(parentLabel, .str (scopedId "ws" demoGuid))])])
    (demoWorkspace "u"))]

def parentReturned (c : registry.Config) (t : Tid) : Option String :=
  (c.threads t).bind fun th => match th.prog with
    | .ret (.projected out) => match (out.field? "labels").bind (Json.field? parentLabel) with
      | some (.str id) => some id
      | _ => none
    | _ => none

/-- Two things that may happen by design: a claim of a GUID bound elsewhere may be
    refused for capacity and leave the record active, and the parent label of an
    agent is unscoped without any record behind it. -/
theorem registry_limits :
    (¬ ∀ c t th workspace g value e n b, registry.Reachable c → c.threads t = some th →
      th.call = .claim workspace g → binding workspace g = .ok value → th.prog = .fail e →
      lookup (.route g) c.world.trace = some (n, .active b) →
      b.workspaceUid ≠ value.workspaceUid → (∃ s, e = .store s) ∨ e = .exhausted) ∧
    ∃ c id, registry.initial.moves labelRun = some c ∧ parentReturned c ⟨0, 0⟩ = some id ∧
      ∀ tr, tr <:+ c.world.trace → ¬ ActiveFor (demoWorkspace "u") id tr := by
  constructor
  · intro hclaim
    obtain ⟨c, t, th, hreach, hth, hcall, hprog, hbound⟩ := refused_claim
    have hb : binding (demoWorkspace "v") demoGuid = .ok ⟨"ws", "v", demoGuid⟩ := by
      rfl
    rcases hclaim c t th _ _ _ _ _ _ hreach hth hcall hb hprog hbound (by decide)
      with ⟨s, hs⟩ | he
    · cases hs
    · exact absurd he (by decide)
  · have hrun : ((registry.initial.moves labelRun).bind fun c =>
        if c.world.trace.isEmpty then parentReturned c ⟨0, 0⟩ else none) = some demoGuid := by
      decide +kernel
    obtain ⟨c, hc, hret⟩ := Option.bind_eq_some_iff.mp hrun
    split at hret
    · rename_i hempty
      refine ⟨c, _, hc, hret, ?_⟩
      rintro tr hsuffix ⟨n, b, hlook, _⟩
      rw [List.isEmpty_iff.mp hempty, List.suffix_nil] at hsuffix
      subst hsuffix
      cases hlook
    · cases hret

end PaseoGateway.AgentIdentity
