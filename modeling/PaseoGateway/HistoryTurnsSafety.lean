/-
  PaseoGateway/HistoryTurnsSafety.lean
  ====================================
  **History readers of one workspace take turns.**

  The calls for one UID form a chain, each behind the one before it (`Inv.prev`), except
  that a call whose predecessors are all through may begin a new one (`Inv.first`).  A tail
  that is settled has only settled tails behind it (`Inv.closed`), whatever became of the
  calls in between, and a settled tail means a released turn.
-/
import PaseoGateway.HistoryTurns

namespace PaseoGateway.HistoryTurns

open StepRuns (run run_invariant run_append run_cons run_nil)

/-! ### The list of calls -/

section Calls

variable {calls : List Call} {i j : Nat} {c : Call} {p phase : Phase}

@[simp] theorem length_setPhase : (setPhase calls i phase).length = calls.length := by
  simp [setPhase]

theorem getElem?_setPhase : (setPhase calls i phase)[j]? =
    (calls[j]?).map fun c => if i = j then { c with phase } else c := by
  rw [setPhase, List.getElem?_modify]
  split
  · rfl
  · simp

@[simp] theorem uidOf_setPhase : uidOf (setPhase calls i phase) = uidOf calls := by
  funext j
  simp only [uidOf, getElem?_setPhase, Option.map_map]
  congr 1
  funext c
  simp only [Function.comp]
  split <;> rfl

@[simp] theorem prevOf_setPhase : prevOf (setPhase calls i phase) = prevOf calls := by
  funext j
  simp only [prevOf, getElem?_setPhase, Option.bind_map]
  congr 1
  funext c
  simp only [Function.comp]
  split <;> rfl

theorem phaseOf_setPhase (h : phaseOf calls i = some p) :
    phaseOf (setPhase calls i phase) j = if j = i then some phase else phaseOf calls j := by
  simp only [phaseOf] at h ⊢
  rw [getElem?_setPhase]
  by_cases hij : j = i
  · subst hij
    obtain ⟨c, hc, -⟩ := Option.map_eq_some_iff.mp h
    simp [hc]
  · simp [hij, Ne.symm hij]

theorem getElem?_push : (calls ++ [c])[j]? = if j = calls.length then some c else calls[j]? := by
  rcases Nat.lt_trichotomy j calls.length with hj | hj | hj
  · simp [List.getElem?_append_left hj, Nat.ne_of_lt hj]
  · simp [hj]
  · have hlen : (calls ++ [c]).length ≤ j := by simpa using Nat.succ_le_of_lt hj
    rw [List.getElem?_eq_none hlen, if_neg (Nat.ne_of_gt hj),
      List.getElem?_eq_none (Nat.le_of_lt hj)]

theorem uidOf_push : uidOf (calls ++ [c]) j = if j = calls.length then some c.uid else uidOf calls j := by
  simp only [uidOf, getElem?_push]
  split <;> rfl

theorem prevOf_push : prevOf (calls ++ [c]) j = if j = calls.length then c.prev else prevOf calls j := by
  simp only [prevOf, getElem?_push]
  split <;> rfl

theorem phaseOf_push :
    phaseOf (calls ++ [c]) j = if j = calls.length then some c.phase else phaseOf calls j := by
  simp only [phaseOf, getElem?_push]
  split <;> rfl

theorem lt_of_uidOf {uid : String} (h : uidOf calls i = some uid) : i < calls.length := by
  obtain ⟨c, hc, -⟩ := Option.map_eq_some_iff.mp h
  exact (List.getElem?_eq_some_iff.mp hc).1

theorem lt_of_phaseOf (h : phaseOf calls i = some p) : i < calls.length := by
  obtain ⟨c, hc, -⟩ := Option.map_eq_some_iff.mp h
  exact (List.getElem?_eq_some_iff.mp hc).1

theorem uidOf_of_lt (h : i < calls.length) : ∃ uid, uidOf calls i = some uid :=
  ⟨calls[i].uid, by simp [uidOf, h]⟩

/-- The calls that have not settled. -/
def unsettled (calls : List Call) : Nat := calls.countP fun c => c.phase ≠ .settled

theorem unsettled_setPhase (h : phaseOf calls i = some p) :
    unsettled (setPhase calls i phase) + (if p = .settled then 0 else 1) =
      unsettled calls + (if phase = .settled then 0 else 1) := by
  induction calls generalizing i with
  | nil => simp [phaseOf] at h
  | cons c calls ih =>
    rcases i with _ | i
    · simp only [phaseOf, List.getElem?_cons_zero, Option.map_some, Option.some.injEq] at h
      subst h
      simp only [unsettled, setPhase, List.modify_zero_cons, List.countP_cons, decide_eq_true_eq,
        ne_eq]
      split <;> split <;> simp_all
    · have hi : phaseOf calls i = some p := by simpa [phaseOf] using h
      have hrec := ih hi
      simp only [unsettled, setPhase, List.modify_succ_cons, List.countP_cons] at hrec ⊢
      omega

end Calls

/-! ### The chains -/

variable {uid : Nat → Option String} {prev : Nat → Option Nat} {tails : Js.Map String Nat}
  {resolved cleaned : List Nat} {log : List Entry} {i : Nat}

/-- An earlier call for the same workspace. -/
def Before (uid : Nat → Option String) (j i : Nat) : Prop := j < i ∧ uid j = uid i

/-- What the calls, the map and the settled tails have to do with one another. -/
structure Chained (uid : Nat → Option String) (prev : Nat → Option Nat) (tails : Js.Map String Nat)
    (resolved cleaned : List Nat) : Prop where
  behind : ∀ i p, prev i = some p → Before uid p i ∧ ∀ j, p < j → ¬ Before uid j i
  first : ∀ i u, uid i = some u → prev i = none → ∀ j, Before uid j i → j ∈ resolved
  closed : ∀ i ∈ resolved, ∀ j, Before uid j i → j ∈ resolved
  tail : ∀ u t, tails.get u = some t →
    uid t = some u ∧ t ∉ cleaned ∧ ∀ j, uid j = some u → j ≤ t
  noTail : ∀ u, tails.get u = none → ∀ j, uid j = some u → j ∈ resolved
  through : ∀ i ∈ cleaned, i ∈ resolved

/-- Where the previous tail is settled, so are all before it. -/
theorem Chained.before_of_prev (h : Chained uid prev tails resolved cleaned) {p : Nat}
    (hprev : prev i = some p) (hp : p ∈ resolved) : ∀ j, Before uid j i → j ∈ resolved := by
  intro j hj
  obtain ⟨hbefore, hnone⟩ := h.behind i p hprev
  rcases Nat.lt_trichotomy j p with hlt | rfl | hlt
  · exact h.closed p hp j ⟨hlt, hj.2.trans hbefore.2.symm⟩
  · exact hp
  · exact absurd hj (hnone j hlt)

/-- A tail may settle once those of all earlier calls have. -/
theorem Chained.resolve (h : Chained uid prev tails resolved cleaned)
    (hbefore : ∀ j, Before uid j i → j ∈ resolved) :
    Chained uid prev tails (resolved ++ [i]) cleaned where
  behind := h.behind
  first := fun i u hu hprev j hj => List.mem_append_left _ (h.first i u hu hprev j hj)
  closed := by
    intro k hk j hj
    rcases List.mem_append.mp hk with hk | hk
    · exact List.mem_append_left _ (h.closed k hk j hj)
    · cases List.mem_singleton.mp hk
      exact List.mem_append_left _ (hbefore j hj)
  tail := h.tail
  noTail := fun u hu j hj => List.mem_append_left _ (h.noTail u hu j hj)
  through := fun k hk => List.mem_append_left _ (h.through k hk)

/-- A settled tail takes its entry out, if it is still its own. -/
theorem Chained.clean (h : Chained uid prev tails resolved cleaned) {u : String}
    (hu : uid i = some u) (hi : i ∈ resolved) :
    Chained uid prev (if tails.get u = some i then tails.delete u else tails) resolved
      (cleaned ++ [i]) where
  behind := h.behind
  first := h.first
  closed := h.closed
  tail := by
    intro u' t ht
    have hget : tails.get u' = some t ∧ t ≠ i := by
      split at ht
      · next hown =>
        have hold := Js.Map.get_delete_of_some ht
        refine ⟨hold, ?_⟩
        rintro rfl
        have hsame := (h.tail u' t hold).1
        rw [hu] at hsame
        cases hsame
        rw [Js.Map.get_delete, if_pos rfl] at ht
        cases ht
      · next hother =>
        refine ⟨ht, ?_⟩
        rintro rfl
        have hsame := (h.tail u' t ht).1
        rw [hu] at hsame
        cases hsame
        exact hother ht
    obtain ⟨hown, hclean, hlast⟩ := h.tail u' t hget.1
    exact ⟨hown, by simp [hclean, hget.2], hlast⟩
  noTail := by
    intro u' hnone j hj
    split at hnone
    · next hown =>
      by_cases hsame : u' = u
      · -- the entry was the last call's, so all calls of the workspace are through
        subst hsame
        have hlast := (h.tail u' i hown).2.2 j hj
        rcases Nat.lt_or_eq_of_le hlast with hlt | rfl
        · exact h.closed i hi j ⟨hlt, hj.trans hu.symm⟩
        · exact hi
      · rw [Js.Map.get_delete, if_neg hsame] at hnone
        exact h.noTail u' hnone j hj
    · exact h.noTail u' hnone j hj
  through := by
    intro k hk
    rcases List.mem_append.mp hk with hk | hk
    · exact h.through k hk
    · cases List.mem_singleton.mp hk
      exact hi

/-- A new call joins the chain of its workspace. -/
theorem Chained.push {calls : List Call} {u : String} {phase : Phase}
    (h : Chained (uidOf calls) (prevOf calls) tails resolved cleaned)
    (hbound : ∀ k ∈ resolved, k < calls.length) :
    Chained (uidOf (calls ++ [⟨u, tails.get u, phase⟩]))
      (prevOf (calls ++ [⟨u, tails.get u, phase⟩])) (tails.set u calls.length) resolved cleaned := by
  have huid : ∀ k, k ≠ calls.length →
      uidOf (calls ++ [⟨u, tails.get u, phase⟩]) k = uidOf calls k := fun k hk => by
    rw [uidOf_push, if_neg hk]
  have hnew : uidOf (calls ++ [⟨u, tails.get u, phase⟩]) calls.length = some u := by
    rw [uidOf_push, if_pos rfl]
  have hold : ∀ {j k}, k < calls.length →
      (Before (uidOf (calls ++ [⟨u, tails.get u, phase⟩])) j k ↔ Before (uidOf calls) j k) := by
    intro j k hk
    unfold Before
    refine and_congr_right fun hlt => ?_
    rw [huid j (by omega), huid k (by omega)]
  have hlast : ∀ {j}, Before (uidOf (calls ++ [⟨u, tails.get u, phase⟩])) j calls.length ↔
      uidOf calls j = some u := by
    intro j
    unfold Before
    rw [hnew]
    constructor
    · rintro ⟨hlt, hj⟩
      rwa [huid j (by omega)] at hj
    · intro hj
      have hlt := lt_of_uidOf hj
      exact ⟨hlt, by rwa [huid j (by omega)]⟩
  exact
    { behind := by
        intro k p hp
        rw [prevOf_push] at hp
        split at hp
        · next heq =>
          subst heq
          obtain ⟨hown, -, hle⟩ := h.tail u p hp
          refine ⟨hlast.mpr hown, fun j hlt hj => ?_⟩
          have hj := hle j (hlast.mp hj)
          omega
        · next hne =>
          have hk : k < calls.length := by
            unfold prevOf at hp
            obtain ⟨c, hc, -⟩ := Option.bind_eq_some_iff.mp hp
            exact (List.getElem?_eq_some_iff.mp hc).1
          rw [hold hk]
          exact ⟨(h.behind k p hp).1, fun j hlt hj => (h.behind k p hp).2 j hlt ((hold hk).mp hj)⟩
      first := by
        intro k u' hu' hp j hj
        rw [prevOf_push] at hp
        split at hp
        · next heq =>
          subst heq
          exact h.noTail u hp j (hlast.mp hj)
        · next hne =>
          rw [huid k hne] at hu'
          exact h.first k u' hu' hp j ((hold (lt_of_uidOf hu')).mp hj)
      closed := fun k hk j hj => h.closed k hk j ((hold (hbound k hk)).mp hj)
      tail := by
        intro u' t ht
        rw [Js.Map.get_set] at ht
        split at ht
        · next heq =>
          cases ht
          subst heq
          refine ⟨hnew, fun hmem => ?_, fun j hj => ?_⟩
          · exact Nat.lt_irrefl _ (hbound _ (h.through _ hmem))
          · by_cases hne : j = calls.length
            · exact Nat.le_of_eq hne
            · rw [huid j hne] at hj
              exact Nat.le_of_lt (lt_of_uidOf hj)
        · next hne =>
          obtain ⟨hown, hclean, hle⟩ := h.tail u' t ht
          have hlt := lt_of_uidOf hown
          refine ⟨by rwa [huid t (by omega)], hclean, fun j hj => ?_⟩
          rw [uidOf_push] at hj
          split at hj
          · cases hj
            exact absurd rfl hne
          · exact hle j hj
      noTail := by
        intro u' hnone j hj
        rw [Js.Map.get_set] at hnone
        split at hnone
        · cases hnone
        · next hne =>
          rw [uidOf_push] at hj
          split at hj
          · cases hj
            exact absurd rfl hne
          · exact h.noTail u' hnone j hj
      through := h.through }

/-! ### The order of creations -/

def releasedCall : Entry → Option Nat
  | .release call => some call
  | .create _ => none

/-- A reader Pod is only begun once every earlier call has had its turn. -/
def InTurn (uid : Nat → Option String) (log : List Entry) : Prop :=
  ∀ before after i, log = before ++ .create i :: after →
    ∀ j, Before uid j i → Entry.release j ∈ before

theorem InTurn.release (h : InTurn uid log) (i : Nat) : InTurn uid (log ++ [.release i]) := by
  intro before after k hlog j hj
  rcases List.append_eq_append_iff.mp hlog with ⟨tail, -, htail⟩ | ⟨tail, heq, htail⟩
  · rcases tail with _ | ⟨e, tail⟩ <;> simp at htail
  · rcases tail with _ | ⟨e, tail⟩
    · simp at htail
    · obtain ⟨rfl, rfl⟩ := List.cons.inj htail
      exact h before tail k heq j hj

theorem InTurn.create (h : InTurn uid log) (hturn : ∀ j, Before uid j i → Entry.release j ∈ log) :
    InTurn uid (log ++ [.create i]) := by
  intro before after k hlog j hj
  rcases List.append_eq_append_iff.mp hlog with ⟨tail, hbefore, htail⟩ | ⟨tail, heq, htail⟩
  · rcases tail with _ | ⟨e, tail⟩
    · cases htail
      rw [hbefore, List.append_nil]
      exact hturn j hj
    · simp at htail
  · rcases tail with _ | ⟨e, tail⟩
    · cases htail
      rw [List.append_nil] at heq
      exact heq ▸ hturn j hj
    · obtain ⟨rfl, rfl⟩ := List.cons.inj htail
      exact h before tail k heq j hj

/-! ### The invariant -/

structure Inv (s : State) : Prop where
  chained : Chained (uidOf s.calls) (prevOf s.calls) s.historyReaderTails s.resolved s.cleaned
  resolved : ∀ i ∈ s.resolved, Entry.release i ∈ s.log
  /-- the first tail of a chain is the turn itself -/
  atOnce : ∀ i, Entry.release i ∈ s.log → prevOf s.calls i = none → i ∈ s.resolved
  settled : ∀ i, phaseOf s.calls i = some .settled ↔ Entry.release i ∈ s.log
  once : (s.log.filterMap releasedCall).Nodup
  active : s.activeHistoryReaders = unsettled s.calls
  limit : s.activeHistoryReaders ≤ 4
  queued : ∀ i, phaseOf s.calls i = some .queued → (prevOf s.calls i).isSome = true
  created : ∀ i, Entry.create i ∈ s.log → i < s.calls.length
  inTurn : InTurn (uidOf s.calls) s.log

theorem Inv.initial : Inv initial := by
  refine ⟨⟨?_, ?_, ?_, ?_, ?_, ?_⟩, ?_, ?_, ?_, ?_, ?_, ?_, ?_, ?_, ?_⟩ <;>
    simp [HistoryTurns.initial, prevOf, uidOf, phaseOf, unsettled, Js.Map.get, InTurn]

section Invariant

variable {s s' : State} {call : Nat} {p phase : Phase}

theorem released_lt (h : Inv s) (hrel : Entry.release call ∈ s.log) : call < s.calls.length :=
  lt_of_phaseOf ((h.settled call).mpr hrel)

/-- A call moves on without being through. -/
theorem Inv.setPhase (h : Inv s) (hphase : phaseOf s.calls call = some p) (hp : p ≠ .settled)
    (hnew : phase ≠ .settled) (hqueued : phase = .queued → (prevOf s.calls call).isSome = true) :
    Inv { s with calls := setPhase s.calls call phase } where
  chained := by simpa using h.chained
  resolved := h.resolved
  atOnce := by simpa using h.atOnce
  settled := by
    intro j
    rw [← h.settled, phaseOf_setPhase hphase]
    split
    · next heq => simp [heq, hphase, hp, hnew]
    · rfl
  once := h.once
  active := by
    have hcount := @unsettled_setPhase _ _ _ phase hphase
    rw [if_neg hp, if_neg hnew] at hcount
    rw [h.active]
    simp only
    omega
  limit := h.limit
  queued := by
    intro j hj
    rw [phaseOf_setPhase hphase] at hj
    rw [prevOf_setPhase]
    split at hj
    · next heq =>
      rw [heq]
      exact hqueued (Option.some.inj hj)
    · exact h.queued j hj
  created := by simpa using h.created
  inTurn := by simpa using h.inTurn

theorem Inv.startCreating (h : Inv s) (hphase : phaseOf s.calls call = some p) (hp : p ≠ .settled)
    (hturn : ∀ j, Before (uidOf s.calls) j call → j ∈ s.resolved) :
    Inv (startCreating s call) := by
  have hmoved : Inv { s with calls := HistoryTurns.setPhase s.calls call .creating } :=
    h.setPhase hphase hp (by simp) (by simp)
  have hrelease : ∀ k, Entry.release k ∈ s.log ++ [.create call] ↔ Entry.release k ∈ s.log := by
    simp
  exact
    { hmoved with
      resolved := fun k hk => (hrelease k).mpr (h.resolved k hk)
      atOnce := fun k hrel => hmoved.atOnce k ((hrelease k).mp hrel)
      settled := fun k => (hmoved.settled k).trans (hrelease k).symm
      once := by
        rw [HistoryTurns.startCreating, List.filterMap_append]
        simpa [List.filterMap_cons, releasedCall] using h.once
      created := by
        intro k hk
        rcases List.mem_append.mp hk with hk | hk
        · exact hmoved.created k hk
        · cases List.mem_singleton.mp hk
          simpa [HistoryTurns.startCreating] using lt_of_phaseOf hphase
      inTurn := hmoved.inTurn.create fun j hj => h.resolved j (hturn j (by simpa using hj)) }

/-- A call is through, whatever it was at. -/
theorem Inv.release (h : Inv s) (hphase : phaseOf s.calls call = some p) (hp : p ≠ .settled) :
    Inv (release s call) := by
  have hnot : Entry.release call ∉ s.log := by
    rw [← h.settled, hphase]
    simpa using hp
  have hrelease : ∀ k, Entry.release k ∈ s.log ++ [.release call] ↔
      Entry.release k ∈ s.log ∨ k = call := by simp
  have hresolved : ∀ k, k ∈ (HistoryTurns.release s call).resolved ↔
      k ∈ s.resolved ∨ prevOf s.calls call = none ∧ k = call := by
    intro k
    unfold HistoryTurns.release
    dsimp only
    split
    · next hnone => simp [Option.isNone_iff_eq_none.mp hnone]
    · next hsome =>
      have hne : prevOf s.calls call ≠ none := by simpa using hsome
      simp [hne]
  exact
    { chained := by
        unfold HistoryTurns.release
        rw [uidOf_setPhase, prevOf_setPhase]
        dsimp only
        split
        · next hnone =>
          obtain ⟨u, hu⟩ := uidOf_of_lt (lt_of_phaseOf hphase)
          exact h.chained.resolve
            (h.chained.first call u hu (Option.isNone_iff_eq_none.mp hnone))
        · exact h.chained
      resolved := by
        intro k hk
        rcases (hresolved k).mp hk with hk | ⟨-, hk⟩
        · exact (hrelease k).mpr (.inl (h.resolved k hk))
        · exact (hrelease k).mpr (.inr hk)
      atOnce := by
        intro k hk hprev
        have hfirst : prevOf s.calls k = none := by simpa [HistoryTurns.release] using hprev
        rcases (hrelease k).mp hk with hk | hk
        · exact (hresolved k).mpr (.inl (h.atOnce k hk hfirst))
        · exact (hresolved k).mpr (.inr ⟨hk ▸ hfirst, hk⟩)
      settled := by
        intro k
        refine Iff.trans ?_ (hrelease k).symm
        rw [← h.settled]
        unfold HistoryTurns.release
        rw [phaseOf_setPhase hphase]
        split
        · next heq => simp [heq]
        · next hne => simp [hne]
      once := by
        unfold HistoryTurns.release
        rw [List.filterMap_append]
        refine h.once.append (by simp [releasedCall]) ?_
        intro k hk hk'
        obtain ⟨e, he, hek⟩ := List.mem_filterMap.mp hk
        obtain rfl : k = call := by simpa [releasedCall] using hk'
        rcases e with j | j
        · cases hek
        · cases hek
          exact hnot he
      active := by
        have hcount := @unsettled_setPhase _ _ _ .settled hphase
        rw [if_neg hp, if_pos rfl] at hcount
        unfold HistoryTurns.release
        rw [h.active]
        simp only
        omega
      limit := by
        have hlimit := h.limit
        unfold HistoryTurns.release
        simp only
        omega
      queued := by
        intro k hk
        unfold HistoryTurns.release at hk ⊢
        rw [phaseOf_setPhase hphase] at hk
        rw [prevOf_setPhase]
        split at hk
        · cases hk
        · exact h.queued k hk
      created := by simpa [HistoryTurns.release] using h.created
      inTurn := by
        unfold HistoryTurns.release
        rw [uidOf_setPhase]
        exact h.inTurn.release call }

theorem Inv.push (h : Inv s) (hroom : s.activeHistoryReaders < 4) (uid : String) :
    Inv (admitCall s uid) := by
  have hnotRel : Entry.release s.calls.length ∉ s.log := fun hrel =>
    Nat.lt_irrefl _ (released_lt h hrel)
  have hbound : ∀ k ∈ s.resolved, k < s.calls.length := fun k hk => released_lt h (h.resolved k hk)
  exact
    { chained := h.chained.push hbound
      resolved := h.resolved
      atOnce := by
        intro k hk hprev
        simp only [admitCall, prevOf_push] at hprev
        rw [if_neg (Nat.ne_of_lt (released_lt h hk))] at hprev
        exact h.atOnce k hk hprev
      settled := by
        intro k
        simp only [admitCall, phaseOf_push]
        split
        · next heq => simpa [heq] using hnotRel
        · exact h.settled k
      once := h.once
      active := by
        simp only [admitCall, unsettled, List.countP_append]
        rw [h.active, unsettled]
        simp
      limit := by
        simp only [admitCall]
        omega
      queued := by
        intro k hk
        simp only [admitCall, phaseOf_push, prevOf_push] at hk ⊢
        split at hk
        · cases hk
        · next hne =>
          rw [if_neg hne]
          exact h.queued k hk
      created := by
        intro k hk
        have hlt := h.created k hk
        simp only [admitCall, List.length_append, List.length_singleton]
        omega
      inTurn := by
        intro before after k hlog j hj
        have hk : k < s.calls.length := h.created k (by
          have hmem : Entry.create k ∈ before ++ .create k :: after := by simp
          rw [← hlog] at hmem
          exact hmem)
        refine h.inTurn before after k hlog j ⟨hj.1, ?_⟩
        have hsame := hj.2
        have hlt := hj.1
        simp only [admitCall, uidOf_push] at hsame
        rwa [if_neg (by omega), if_neg (by omega)] at hsame }

theorem Inv.readRetainedHistory (h : Inv s) (workspace : Workspace) (stopped : Bool) :
    Inv (readRetainedHistory s workspace stopped) := by
  unfold HistoryTurns.readRetainedHistory
  split
  · exact h
  next uid huid =>
  split
  · exact h
  next hroom =>
  have hpushed := h.push (by omega) uid
  have hphase : phaseOf (admitCall s uid).calls s.calls.length = some .entering := by
    simp [admitCall, phaseOf_push]
  have hprev : prevOf (admitCall s uid).calls s.calls.length = s.historyReaderTails.get uid := by
    simp [admitCall, prevOf_push]
  dsimp only
  split
  · exact hpushed.release hphase (by simp)
  split
  · next prev htail =>
    exact hpushed.setPhase hphase (by simp) (by simp) fun _ => by rw [hprev, htail]; rfl
  · next htail =>
    obtain ⟨u, hu⟩ := uidOf_of_lt (lt_of_phaseOf hphase)
    exact hpushed.startCreating hphase (by simp)
      (hpushed.chained.first _ u hu (hprev.trans htail))

theorem Inv.step {e : Event} (hstep : step s e = some s') (h : Inv s) : Inv s' := by
  rcases e with ⟨workspace, stopped⟩ | ⟨call, stopped⟩ | call | ⟨call, readerUid, stopped⟩ | call |
    call | call | call
  · cases hstep
    exact h.readRetainedHistory workspace stopped
  · simp only [HistoryTurns.step, resume] at hstep
    split at hstep
    · next prev hphase hprev =>
      split at hstep
      · next hresolved =>
        split at hstep
        · cases hstep
          exact h.release hphase (by simp)
        · cases hstep
          exact h.startCreating hphase (by simp) (h.chained.before_of_prev hprev hresolved)
      · cases hstep
    · cases hstep
  · simp only [HistoryTurns.step, stop] at hstep
    split at hstep
    · next hphase =>
      cases hstep
      exact h.release hphase (by simp)
    · next hphase =>
      cases hstep
      exact h.release hphase (by simp)
    · next hphase =>
      cases hstep
      exact h.setPhase hphase (by simp) (by simp) (by simp)
    · cases hstep
  · simp only [HistoryTurns.step, HistoryTurns.created] at hstep
    split at hstep
    · next hphase =>
      split at hstep
      · cases hstep
        exact h.setPhase hphase (by simp) (by simp) (by simp)
      · cases hstep
        exact h.release hphase (by simp)
    · cases hstep
  · simp only [HistoryTurns.step, finishBody] at hstep
    split at hstep
    · next hphase =>
      cases hstep
      exact h.setPhase hphase (by simp) (by simp) (by simp)
    · cases hstep
  · simp only [HistoryTurns.step, deleted] at hstep
    split at hstep
    · next hphase =>
      cases hstep
      exact h.release hphase (by simp)
    · cases hstep
  · simp only [HistoryTurns.step, chain] at hstep
    split at hstep
    · next prev hprev =>
      split at hstep
      · next hready =>
        cases hstep
        exact
          { h with
            chained := h.chained.resolve (h.chained.before_of_prev hprev hready.1)
            resolved := by
              intro k hk
              rcases List.mem_append.mp hk with hk | hk
              · exact h.resolved k hk
              · cases List.mem_singleton.mp hk
                simpa [released] using hready.2.1
            atOnce := fun k hk hfirst => List.mem_append_left _ (h.atOnce k hk hfirst) }
      · cases hstep
    · cases hstep
  · simp only [HistoryTurns.step, cleanup] at hstep
    split at hstep
    · next uid huid =>
      split at hstep
      · next hready =>
        cases hstep
        exact { h with chained := h.chained.clean huid hready.1 }
      · cases hstep
    · cases hstep

/-- No reaction to a promise is left to run. -/
def Quiet (s : State) : Prop := ∀ call, chain s call = none ∧ cleanup s call = none

/-- With no reaction left, a released turn behind released turns has its tail settled. -/
theorem Inv.resolved_of_quiet (h : Inv s) (hquiet : Quiet s) (call : Nat)
    (hrel : Entry.release call ∈ s.log)
    (hbefore : ∀ j, Before (uidOf s.calls) j call → Entry.release j ∈ s.log) :
    call ∈ s.resolved := by
  induction call using Nat.strongRecOn with
  | ind call ih =>
    rcases hprev : prevOf s.calls call with _ | prev
    · exact h.atOnce call hrel hprev
    · have hearlier := (h.chained.behind call prev hprev).1
      have hresolved : prev ∈ s.resolved :=
        ih prev hearlier.1 (hbefore prev hearlier) fun j hj =>
          hbefore j ⟨Nat.lt_trans hj.1 hearlier.1, hj.2.trans hearlier.2⟩
      by_contra hnot
      have hchain := (hquiet call).1
      simp [chain, hprev, hresolved, released, hrel, hnot] at hchain

end Invariant

/-! ### The turns -/

/-- What holds of the store after every schedule. -/
structure Sound (s : State) : Prop where
  inTurn : InTurn (uidOf s.calls) s.log
  releasedOnce : (s.log.filterMap releasedCall).Nodup
  released : ∀ call, phaseOf s.calls call = some .settled ↔ Entry.release call ∈ s.log
  active : s.activeHistoryReaders = unsettled s.calls
  capacity : unsettled s.calls ≤ 4
  /-- nothing but earlier calls for the same workspace keeps a call in the queue -/
  unblocked : Quiet s → ∀ call, phaseOf s.calls call = some .queued →
    (∀ j, Before (uidOf s.calls) j call → Entry.release j ∈ s.log) →
    ∀ stopped, (step s (.resume call stopped)).isSome = true
  done : Quiet s → (∀ call < s.calls.length, phaseOf s.calls call = some .settled) →
    s.activeHistoryReaders = 0 ∧ ∀ uid, s.historyReaderTails.get uid = none

theorem unsettled_eq_zero {calls : List Call}
    (h : ∀ call < calls.length, phaseOf calls call = some .settled) : unsettled calls = 0 := by
  refine List.countP_eq_zero.mpr fun c hc => ?_
  obtain ⟨i, hi, hget⟩ := List.getElem_of_mem hc
  have hphase := h i hi
  simp only [phaseOf, List.getElem?_eq_getElem hi, hget, Option.map_some, Option.some.injEq]
    at hphase
  simp [hphase]

theorem readers_take_turns {events : List Event} {s : State}
    (hrun : run step initial events = some s) : Sound s := by
  have h : Inv s := run_invariant (fun hstep h => Inv.step hstep h) hrun Inv.initial
  exact
    { inTurn := h.inTurn
      releasedOnce := h.once
      released := h.settled
      active := h.active
      capacity := by
        have hactive := h.active
        have hlimit := h.limit
        omega
      unblocked := by
        intro hquiet call hphase hbefore stopped
        obtain ⟨prev, hprev⟩ := Option.isSome_iff_exists.mp (h.queued call hphase)
        have hearlier := (h.chained.behind call prev hprev).1
        have hresolved : prev ∈ s.resolved :=
          h.resolved_of_quiet hquiet prev (hbefore prev hearlier) fun j hj =>
            hbefore j ⟨Nat.lt_trans hj.1 hearlier.1, hj.2.trans hearlier.2⟩
        simp [step, resume, hphase, hprev, hresolved]
      done := by
        intro hquiet hall
        refine ⟨by rw [h.active, unsettled_eq_zero hall]; rfl, fun uid => ?_⟩
        rcases htail : s.historyReaderTails.get uid with _ | last
        · rfl
        · obtain ⟨huid, hclean, -⟩ := h.chained.tail uid last htail
          have hrel : ∀ j < s.calls.length, Entry.release j ∈ s.log := fun j hj =>
            (h.settled j).mp (hall j hj)
          have hlast := lt_of_uidOf huid
          have hresolved := h.resolved_of_quiet hquiet last (hrel last hlast) fun j hj =>
            hrel j (Nat.lt_trans hj.1 hlast)
          have hcleanup := (hquiet last).2
          simp [cleanup, huid, hresolved, hclean] at hcleanup }

/-- A workspace whose storage can be read. -/
def sampleWorkspace : Workspace where
  metadata := ⟨"w", some "uid", some 1, none, [], none⟩
  spec := ⟨"p", "w", .Suspended, "c", "HEAD", none, none, none, none⟩
  status := some ⟨.Suspended, "stopped", 1, none, none, none, none, none, [], none⟩

/-- A reader at work, one behind it that is cancelled, and a third one that still waits. -/
def sampleEvents : List Event :=
  [.call sampleWorkspace false, .created 0 (some "pod-0") false, .call sampleWorkspace false,
    .stop 1, .call sampleWorkspace false, .finishBody 0, .deleted 0, .chain 1, .resume 2 false]

theorem readers_take_turns_sample : ∃ s, run step initial sampleEvents = some s ∧
    s.log = [.create 0, .release 1, .release 0, .create 2] ∧ Sound s := by
  have hlog : (run step initial sampleEvents).map (·.log) =
      some [.create 0, .release 1, .release 0, .create 2] := by rfl
  obtain ⟨s, hrun, hs⟩ := Option.map_eq_some_iff.mp hlog
  exact ⟨s, hrun, hs, readers_take_turns hrun⟩

end PaseoGateway.HistoryTurns
