/-
  PaseoGateway/DirectoryWalk.lean
  ===============================
  **A walk over the pages of a directory neither loses nor repeats rows.**

  A read keeps a snapshot as it is, or drops it with its sync value (`Shrinks`).  So
  the snapshot a walk started with stays what it was until a read expires or evicts
  it, and each page is the next segment of its rows.
-/
import PaseoGateway.DirectoryPages

namespace PaseoGateway.DirectoryPages

variable {T S : Type}

/-! ### Cursors are read back as they were written -/

theorem splitColon_of_no_colon {l : List Char} (h : ∀ c ∈ l, c ≠ ':') : splitColon l = [l] := by
  induction l with
  | nil => rfl
  | cons c l ih =>
    have hc : c ≠ ':' := h c (by simp)
    have hl := ih fun d hd => h d (by simp [hd])
    simp [splitColon, hc, hl]

theorem splitColon_append {l : List Char} (h : ∀ c ∈ l, c ≠ ':') (rest : List Char) :
    splitColon (l ++ ':' :: rest) = l :: splitColon rest := by
  induction l with
  | nil => simp [splitColon]
  | cons c l ih =>
    have hc : c ≠ ':' := h c (by simp)
    have hl := ih fun d hd => h d (by simp [hd])
    simp [splitColon, hc, hl]

theorem toDigits_ne_colon {n : Nat} : ∀ c ∈ Nat.toDigits 10 n, c ≠ ':' := by
  rintro c hc rfl
  have hdigit := Nat.isDigit_of_mem_toDigits (by decide) (by decide) hc
  revert hdigit
  decide

theorem digits?_toDigits (n : Nat) : digits? (Nat.toDigits 10 n) = some n := by
  have hall : (Nat.toDigits 10 n).all Char.isDigit = true := by
    rw [List.all_eq_true]
    exact fun c hc => Nat.isDigit_of_mem_toDigits (by decide) (by decide) hc
  have hne : Nat.toDigits 10 n ≠ [] := Nat.toDigits_ne_nil
  have hback : Nat.ofDigitChars 10 (Nat.toDigits 10 n) 0 = n :=
    Nat.ofDigitChars_toDigits (by decide) (by decide)
  simp [digits?, hall, hne, hback]

theorem isUuid_ne_colon {id : String} (h : isUuid id = true) : ∀ c ∈ id.toList, c ≠ ':' := by
  have hall : (id.toList.all fun c => c != ':') = true := by
    simp only [isUuid, Bool.and_eq_true] at h
    exact h.2
  simpa using hall

theorem isUuid_ne_empty {id : String} (h : isUuid id = true) : id ≠ "" := by
  rintro rfl
  simp [isUuid] at h

theorem cursorTo_ne_empty (id : String) (offset : Nat) : cursorTo id offset ≠ "" := by
  intro h
  have htoList := congrArg String.toList h
  simp [cursorTo] at htoList

/-- What a cursor that was handed out leads to. -/
theorem follow_cursorTo (s : Pages T S) (key : String) {id : String} (hid : isUuid id = true)
    (offset : Nat) :
    s.follow key (cursorTo id offset) =
      (s.snapshots.get id).bind fun snapshot =>
        if snapshot.key = key ∧ offset ≤ MAX_SAFE_INTEGER ∧ offset < snapshot.entries.length then
          some (id, offset, snapshot)
        else none := by
  have hsplit : splitColon (cursorTo id offset).toList = [id.toList, Nat.toDigits 10 offset] := by
    rw [cursorTo, String.toList_ofList, splitColon_append (isUuid_ne_colon hid),
      splitColon_of_no_colon toDigits_ne_colon]
  simp only [Pages.follow, hsplit, String.ofList_toList, if_neg (isUuid_ne_empty hid),
    digits?_toDigits]
  cases s.snapshots.get id <;> rfl

/-- A cursor leads to a snapshot that is held, under its key. -/
theorem follow_some {s : Pages T S} {key cursor id : String} {offset : Nat}
    {snapshot : Snapshot T} (h : s.follow key cursor = some (id, offset, snapshot)) :
    s.snapshots.get id = some snapshot ∧ snapshot.key = key := by
  unfold Pages.follow at h
  split at h
  · rename_i token index _
    dsimp only at h
    split at h
    · rename_i found _ hfound _
      split at h
      · rename_i hkey
        simp only [Option.some.injEq, Prod.mk.injEq] at h
        obtain ⟨rfl, rfl, rfl⟩ := h
        refine ⟨?_, hkey.1⟩
        split at hfound
        · simp at hfound
        · exact hfound
      · simp at h
    · simp at h
  · simp at h

/-! ### What a state drops -/

/-- Every snapshot is kept with its sync value, or dropped with it. -/
structure Pages.Shrinks (s s' : Pages T S) : Prop where
  cells : s'.snapshots.cells.Sublist s.snapshots.cells
  get : ∀ id, (s'.snapshots.get id = s.snapshots.get id ∧
      s'.syncByPage.get id = s.syncByPage.get id) ∨
    (s'.snapshots.get id = none ∧ s'.syncByPage.get id = none)

namespace Pages.Shrinks

theorem refl (s : Pages T S) : s.Shrinks s :=
  ⟨List.Sublist.refl _, fun _ => .inl ⟨rfl, rfl⟩⟩

theorem trans {s s' s'' : Pages T S} (h : s.Shrinks s') (h' : s'.Shrinks s'') :
    s.Shrinks s'' := by
  refine ⟨h'.cells.trans h.cells, fun id => ?_⟩
  rcases h'.get id with ⟨hsnap, hsync⟩ | hgone
  · rw [hsnap, hsync]
    exact h.get id
  · exact .inr hgone

theorem drop (s : Pages T S) (id : String) : s.Shrinks (s.drop id) := by
  refine ⟨List.filter_sublist, fun other => ?_⟩
  simp only [Pages.drop, Js.Map.get_delete]
  by_cases h : other = id
  · exact .inr (by simp [h])
  · exact .inl (by simp [h])

theorem totalBytes_le {s s' : Pages T S} (h : s.Shrinks s') : s'.totalBytes ≤ s.totalBytes := by
  have hvalues : (s'.snapshots.values.map Snapshot.bytes).Sublist
      (s.snapshots.values.map Snapshot.bytes) :=
    (h.cells.map Js.Cell.value).map Snapshot.bytes
  exact hvalues.sum_le_sum (by simp)

theorem length_le {s s' : Pages T S} (h : s.Shrinks s') :
    s'.snapshots.cells.length ≤ s.snapshots.cells.length :=
  h.cells.length_le

theorem keys {s s' : Pages T S} (h : s.Shrinks s') : ∀ id ∈ s'.snapshots.keys,
    id ∈ s.snapshots.keys :=
  fun _ hid => (h.cells.map Js.Cell.key).subset hid

end Pages.Shrinks

theorem shrinks_expire (now : String → Int) (s : Pages T S) : s.Shrinks (s.expire now) := by
  have hfold : ∀ (cells : List (Js.Cell String (Snapshot T))) (s' : Pages T S), s.Shrinks s' →
      s.Shrinks (cells.foldl (fun s cell =>
        if cell.value.expiresAt ≤ now cell.key then s.drop cell.key else s) s') := by
    intro cells
    induction cells with
    | nil => exact fun s' h => h
    | cons cell cells ih =>
      intro s' h
      rw [List.foldl_cons]
      apply ih
      split
      · exact h.trans (.drop s' cell.key)
      · exact h
  exact hfold _ s (.refl s)

/-- A snapshot that has not expired is not deleted. -/
theorem get_expire {now : String → Int} {s : Pages T S} {id : String} {snapshot : Snapshot T}
    (h : s.snapshots.get id = some snapshot) (hlive : now id < snapshot.expiresAt) :
    (s.expire now).snapshots.get id = some snapshot := by
  have hfold : ∀ (cells : List (Js.Cell String (Snapshot T))) (s' : Pages T S),
      (∀ cell ∈ cells, s.snapshots.get cell.key = some cell.value) →
      s'.snapshots.get id = some snapshot →
      (cells.foldl (fun s cell =>
        if cell.value.expiresAt ≤ now cell.key then s.drop cell.key else s)
        s').snapshots.get id = some snapshot := by
    intro cells
    induction cells with
    | nil => exact fun s' _ h => h
    | cons cell cells ih =>
      intro s' hcells hs'
      rw [List.foldl_cons]
      apply ih
      · exact fun c hc => hcells c (by simp [hc])
      · split
        · rename_i hexpired
          have hne : id ≠ cell.key := by
            rintro rfl
            have hsame := hcells cell (by simp)
            rw [h] at hsame
            simp only [Option.some.injEq] at hsame
            rw [← hsame] at hexpired
            omega
          simp [Pages.drop, Js.Map.get_delete, hne, hs']
        · exact hs'
  apply hfold _ s _ h
  exact fun cell hcell => Js.Map.get_eq_some.mpr ⟨cell, hcell, rfl, rfl⟩

theorem shrinks_makeRoom (bytes rounds : Nat) (s : Pages T S) :
    s.Shrinks (s.makeRoom bytes rounds) := by
  induction rounds generalizing s with
  | zero => exact .refl s
  | succ rounds ih =>
    rw [Pages.makeRoom]
    split
    · split
      · exact .refl s
      · rename_i oldest _ _
        split
        · exact .refl s
        · exact (Pages.Shrinks.drop s oldest).trans (ih _)
    · exact .refl s

/-- The loop ends with room for the snapshot, or with no snapshot left. -/
theorem makeRoom_room (bytes : Nat) {rounds : Nat} {s : Pages T S}
    (hkeys : ∀ id ∈ s.snapshots.keys, id ≠ "") (hrounds : s.snapshots.cells.length ≤ rounds) :
    (s.makeRoom bytes rounds).snapshots.cells = [] ∨
      (s.makeRoom bytes rounds).full bytes = false := by
  induction rounds generalizing s with
  | zero =>
    have hnil : s.snapshots.cells = [] := by simpa using hrounds
    exact .inl hnil
  | succ rounds ih =>
    rw [Pages.makeRoom]
    by_cases hfull : s.full bytes = true
    · rw [if_pos hfull]
      split
      · rename_i hnil
        exact .inl (by simpa [Js.Map.keys] using hnil)
      · rename_i oldest rest hcons
        have holdest : oldest ∈ s.snapshots.keys := by rw [hcons]; simp
        rw [if_neg (hkeys oldest holdest)]
        have hshrinks := Pages.Shrinks.drop s oldest
        apply ih
        · exact fun id hid => hkeys id (hshrinks.keys id hid)
        · obtain ⟨cell, hcell, hkey⟩ := List.mem_map.mp holdest
          have hlt : (s.drop oldest).snapshots.cells.length < s.snapshots.cells.length :=
            List.length_filter_lt_length_iff_exists.mpr ⟨cell, hcell, by simp [hkey]⟩
          omega
    · rw [if_neg hfull]
      exact .inr (by simpa using hfull)

/-! ### One read -/

/-- What a snapshot for this read looks like. -/
def snapshotOf (bytesOf : List T → Nat) (r : Request T S) (rows : List T) : Snapshot T :=
  ⟨r.key, rows, r.stamp + TTL_MS, bytesOf rows⟩

/-- A read fails, goes on in a snapshot that is held, or starts a listing. -/
inductive Reads (bytesOf : List T → Nat) (live : Pages T S) (r : Request T S) :
    Except String (Response T S) × Pages T S → Prop where
  | fails (text : String)
      (invalid : ∀ cursor, r.cursor? = some cursor → live.follow r.key cursor = none) :
      Reads bytesOf live r (.error text, live)
  | follows (cursor id : String) (offset : Nat) (snapshot : Snapshot T)
      (continues : r.cursor? = some cursor)
      (found : live.follow r.key cursor = some (id, offset, snapshot)) :
      Reads bytesOf live r
        (.ok (pageOf id snapshot.entries offset r.page (live.syncByPage.get id)), live)
  | starts (starts : r.cursor? = none) (bytes : bytesOf (r.entries.getD []) ≤ MAX_SNAPSHOT_BYTES)
      (rows : (r.entries.getD []).length ≤ MAX_ROWS) :
      Reads bytesOf live r (.ok (pageOf r.uuid (r.entries.getD []) 0 r.page r.sync),
        if r.stores (r.entries.getD []) then live.store bytesOf r (r.entries.getD []) else live)

theorem reads (bytesOf : List T → Nat) (s : Pages T S) (r : Request T S) :
    Reads bytesOf (s.expire r.now) r (s.read bytesOf r) := by
  unfold Pages.read Pages.readLive
  cases hcursor : r.cursor? with
  | some cursor =>
    dsimp only
    cases hfollow : (s.expire r.now).follow r.key cursor with
    | none => exact .fails _ (by simp [hcursor, hfollow])
    | some found => exact .follows cursor _ _ _ hcursor hfollow
  | none =>
    dsimp only
    split
    · exact .fails _ (by simp [hcursor])
    · rename_i hfits
      simp only [not_or, Nat.not_lt] at hfits
      exact .starts hcursor hfits.1 hfits.2

section Store

variable {bytesOf : List T → Nat} {s : Pages T S} {r : Request T S} {rows : List T}

theorem get_store (id : String) :
    (s.store bytesOf r rows).snapshots.get id =
      if id = r.uuid then some (snapshotOf bytesOf r rows)
      else (s.makeRoom (bytesOf rows) s.snapshots.cells.length).snapshots.get id :=
  Js.Map.get_set _ _ _ _

theorem sync_store_of_ne {id : String} (h : id ≠ r.uuid) :
    (s.store bytesOf r rows).syncByPage.get id =
      (s.makeRoom (bytesOf rows) s.snapshots.cells.length).syncByPage.get id := by
  unfold Pages.store
  cases r.sync with
  | none => rfl
  | some sync => exact Js.Map.get_set_ne h sync

theorem sync_store_self (h : s.syncByPage.get r.uuid = none) :
    (s.store bytesOf r rows).syncByPage.get r.uuid = r.sync := by
  unfold Pages.store
  cases r.sync with
  | none =>
    rcases (shrinks_makeRoom (bytesOf rows) s.snapshots.cells.length s).get r.uuid with
      ⟨_, hsync⟩ | ⟨_, hsync⟩
    · exact hsync.trans h
    · exact hsync
  | some sync => exact Js.Map.get_set_self _ _ sync

/-- A snapshot is appended to those there is room for. -/
theorem cells_store (bytesOf : List T → Nat) (rows : List T)
    (h : s.snapshots.get r.uuid = none) :
    ∃ position, (s.store bytesOf r rows).snapshots.cells =
      (s.makeRoom (bytesOf rows) s.snapshots.cells.length).snapshots.cells ++
        [⟨position, r.uuid, snapshotOf bytesOf r rows⟩] := by
  have hroom : (s.makeRoom (bytesOf rows) s.snapshots.cells.length).snapshots.get r.uuid = none := by
    rcases (shrinks_makeRoom (bytesOf rows) s.snapshots.cells.length s).get r.uuid with
      ⟨hsnap, _⟩ | ⟨hsnap, _⟩
    · rw [hsnap, h]
    · exact hsnap
  rw [Js.Map.get_eq_none] at hroom
  refine ⟨(s.makeRoom (bytesOf rows) s.snapshots.cells.length).snapshots.positions, ?_⟩
  simp only [Pages.store, Js.Map.set, snapshotOf]
  rw [dif_neg (by simpa [Js.Map.keys] using hroom)]

end Store

/-! ### What holds in every session -/

/-- The limits hold, and everything that names a snapshot was given to it alone. -/
structure Sound (s : Session T S) : Prop where
  keys : ∀ id ∈ s.pages.snapshots.keys, id ∈ s.drawn
  uuids : ∀ id ∈ s.drawn, isUuid id = true
  count : s.pages.snapshots.cells.length ≤ MAX_SNAPSHOTS
  bytes : s.pages.totalBytes ≤ MAX_TOTAL_BYTES
  sync : ∀ id ∈ s.pages.syncByPage.keys, id ∈ s.pages.snapshots.keys
  issued : ∀ key cursor, (key, cursor) ∈ s.issued → ∃ id offset,
    cursor = cursorTo id offset ∧ id ∈ s.drawn ∧
      ∀ snapshot, s.pages.snapshots.get id = some snapshot → snapshot.key = key

theorem Pages.sync_eq_none {s : Pages T S} (h : ∀ id ∈ s.syncByPage.keys, id ∈ s.snapshots.keys)
    {id : String} (hget : s.snapshots.get id = none) : s.syncByPage.get id = none := by
  rw [Js.Map.get_eq_none] at hget ⊢
  exact fun hid => hget (h id hid)

theorem Pages.Shrinks.sync_keys {s s' : Pages T S} (h : s.Shrinks s')
    (hkeys : ∀ id ∈ s.syncByPage.keys, id ∈ s.snapshots.keys) :
    ∀ id ∈ s'.syncByPage.keys, id ∈ s'.snapshots.keys := by
  intro id hid
  by_contra hgone
  rw [← Js.Map.get_eq_none] at hgone
  have hnone : s'.syncByPage.get id = none := by
    rcases h.get id with ⟨hsnap, hsync⟩ | ⟨_, hsync⟩
    · rw [hsync]
      exact Pages.sync_eq_none hkeys (hsnap.symm.trans hgone)
    · exact hsync
  exact Js.Map.get_eq_none.mp hnone hid

section Step

variable {bytesOf : List T → Nat} {s : Session T S} {r : Request T S}

/-- A read never makes a snapshot under an id that was drawn before, and changes none. -/
theorem read_get (bytesOf : List T → Nat) (s : Session T S) {id : String} (hne : id ≠ r.uuid) :
    ((s.read bytesOf r).2.pages.snapshots.get id = (s.pages.expire r.now).snapshots.get id ∧
      (s.read bytesOf r).2.pages.syncByPage.get id = (s.pages.expire r.now).syncByPage.get id) ∨
    ((s.read bytesOf r).2.pages.snapshots.get id = none ∧
      (s.read bytesOf r).2.pages.syncByPage.get id = none) := by
  have hreads := reads bytesOf s.pages r
  unfold Session.read
  generalize s.pages.read bytesOf r = out at hreads ⊢
  rcases hreads with _ | _ | _
  · exact .inl ⟨rfl, rfl⟩
  · exact .inl ⟨rfl, rfl⟩
  · dsimp only
    split
    · rw [get_store, if_neg hne, sync_store_of_ne hne]
      exact (shrinks_makeRoom _ _ _).get id
    · exact .inl ⟨rfl, rfl⟩

theorem read_get_drawn (bytesOf : List T → Nat) (hfresh : s.Fresh r) {id : String}
    (hid : id ∈ s.drawn) :
    ((s.read bytesOf r).2.pages.snapshots.get id = s.pages.snapshots.get id ∧
      (s.read bytesOf r).2.pages.syncByPage.get id = s.pages.syncByPage.get id) ∨
    ((s.read bytesOf r).2.pages.snapshots.get id = none ∧
      (s.read bytesOf r).2.pages.syncByPage.get id = none) := by
  have hne : id ≠ r.uuid := fun heq => hfresh.2 (heq ▸ hid)
  rcases read_get bytesOf s hne with ⟨hsnap, hsync⟩ | hgone
  · rw [hsnap, hsync]
    exact (shrinks_expire r.now s.pages).get id
  · exact .inr hgone

theorem Sound.get_uuid (h : Sound s) (hfresh : s.Fresh r) :
    (s.pages.expire r.now).snapshots.get r.uuid = none := by
  rw [Js.Map.get_eq_none]
  exact fun hid => hfresh.2 (h.keys _ ((shrinks_expire r.now s.pages).keys _ hid))

/-- The limits after a snapshot was stored. -/
theorem Sound.store (h : Sound s) (hfresh : s.Fresh r) {rows : List T}
    (hrows : bytesOf rows ≤ MAX_SNAPSHOT_BYTES) :
    ((s.pages.expire r.now).store bytesOf r rows).snapshots.cells.length ≤ MAX_SNAPSHOTS ∧
      ((s.pages.expire r.now).store bytesOf r rows).totalBytes ≤ MAX_TOTAL_BYTES := by
  have hexpire := shrinks_expire r.now s.pages
  obtain ⟨position, hcells⟩ := cells_store bytesOf rows (h.get_uuid hfresh)
  have hnames : ∀ id ∈ (s.pages.expire r.now).snapshots.keys, id ≠ "" := fun id hid =>
    isUuid_ne_empty (h.uuids id (h.keys id (hexpire.keys id hid)))
  have htotal : ((s.pages.expire r.now).store bytesOf r rows).totalBytes =
      ((s.pages.expire r.now).makeRoom (bytesOf rows)
        (s.pages.expire r.now).snapshots.cells.length).totalBytes + bytesOf rows := by
    simp [Pages.totalBytes, Js.Map.values, hcells, snapshotOf]
  rw [htotal, hcells, List.length_append, List.length_singleton]
  rcases makeRoom_room (bytesOf rows) hnames (Nat.le_refl _) with hnil | hroom
  · have hempty : ((s.pages.expire r.now).makeRoom (bytesOf rows)
        (s.pages.expire r.now).snapshots.cells.length).totalBytes = 0 := by
      simp [Pages.totalBytes, Js.Map.values, hnil]
    rw [hempty, hnil]
    simp only [MAX_SNAPSHOT_BYTES, MAX_SNAPSHOTS, MAX_TOTAL_BYTES, List.length_nil] at hrows ⊢
    omega
  · simp only [Pages.full, Bool.or_eq_false_iff, decide_eq_false_iff_not, Nat.not_le,
      Nat.not_lt] at hroom
    exact ⟨hroom.1, hroom.2⟩

/-- The cursors of a page are cursors to the id it was made with. -/
theorem cursors_pageOf {id cursor : String} {rows : List T} {offset : Nat} {page : Option Page}
    {sync : Option S} (h : cursor ∈ (pageOf id rows offset page sync).cursors) :
    ∃ offset', cursor = cursorTo id offset' := by
  simp only [Response.cursors, pageOf, List.mem_append, Option.mem_toList] at h
  rcases h with h | h
  · split at h
    · exact ⟨_, (Option.some.inj h).symm⟩
    · simp at h
  · split at h
    · simp at h
    · exact ⟨_, (Option.some.inj h).symm⟩

theorem Sound.limits (h : Sound s) (hfresh : s.Fresh r) :
    (s.read bytesOf r).2.pages.snapshots.cells.length ≤ MAX_SNAPSHOTS ∧
      (s.read bytesOf r).2.pages.totalBytes ≤ MAX_TOTAL_BYTES := by
  have hexpire := shrinks_expire r.now s.pages
  have hkept : (s.pages.expire r.now).snapshots.cells.length ≤ MAX_SNAPSHOTS ∧
      (s.pages.expire r.now).totalBytes ≤ MAX_TOTAL_BYTES :=
    ⟨hexpire.length_le.trans h.count, hexpire.totalBytes_le.trans h.bytes⟩
  have hreads := reads bytesOf s.pages r
  unfold Session.read
  generalize s.pages.read bytesOf r = out at hreads ⊢
  rcases hreads with _ | _ | ⟨_, hbytes, _⟩
  · exact hkept
  · exact hkept
  · dsimp only
    split
    · exact h.store hfresh hbytes
    · exact hkept

theorem Sound.read_keys (h : Sound s) :
    ∀ id ∈ (s.read bytesOf r).2.pages.snapshots.keys, id = r.uuid ∨ id ∈ s.drawn := by
  intro id hid
  by_cases hne : id = r.uuid
  · exact .inl hne
  · rcases read_get bytesOf s hne with ⟨hsnap, _⟩ | ⟨hsnap, _⟩
    · have hkeys : id ∈ (s.pages.expire r.now).snapshots.keys := by
        by_contra hgone
        rw [Js.Map.get_eq_none.mpr hgone, Js.Map.get_eq_none] at hsnap
        exact hsnap hid
      exact .inr (h.keys id ((shrinks_expire r.now s.pages).keys id hkeys))
    · exact absurd hid (Js.Map.get_eq_none.mp hsnap)

theorem Sound.read_sync (h : Sound s) :
    ∀ id ∈ (s.read bytesOf r).2.pages.syncByPage.keys,
      id ∈ (s.read bytesOf r).2.pages.snapshots.keys := by
  have hexpire := (shrinks_expire r.now s.pages).sync_keys h.sync
  have hreads := reads bytesOf s.pages r
  unfold Session.read
  generalize s.pages.read bytesOf r = out at hreads ⊢
  rcases hreads with _ | _ | _
  · exact hexpire
  · exact hexpire
  · dsimp only
    split
    · intro id hid
      by_contra hgone
      rw [← Js.Map.get_eq_none, get_store] at hgone
      by_cases hne : id = r.uuid
      · simp [hne] at hgone
      · rw [if_neg hne, Js.Map.get_eq_none] at hgone
        have hroom : id ∉ ((s.pages.expire r.now).makeRoom (bytesOf (r.entries.getD []))
            (s.pages.expire r.now).snapshots.cells.length).syncByPage.keys :=
          fun hsync => hgone ((shrinks_makeRoom _ _ _).sync_keys hexpire id hsync)
        rw [← Js.Map.get_eq_none, ← sync_store_of_ne hne, Js.Map.get_eq_none] at hroom
        exact hroom hid
    · exact hexpire

/-- The cursors a read hands out lead to the snapshot it made or went on in. -/
theorem Sound.read_issued (h : Sound s) (hfresh : s.Fresh r) {response : Response T S}
    (hok : (s.read bytesOf r).1 = .ok response) {cursor : String} (hc : cursor ∈ response.cursors) :
    ∃ id offset, cursor = cursorTo id offset ∧ (id = r.uuid ∨ id ∈ s.drawn) ∧
      ∀ snapshot, (s.read bytesOf r).2.pages.snapshots.get id = some snapshot →
        snapshot.key = r.key := by
  have hreads := reads bytesOf s.pages r
  have huuid := h.get_uuid hfresh
  revert hok
  unfold Session.read
  generalize s.pages.read bytesOf r = out at hreads ⊢
  rcases hreads with _ | ⟨_, id, offset, found, _, hfound⟩ | _
  · simp
  · dsimp only
    rintro ⟨⟩
    obtain ⟨hget, hkey⟩ := follow_some hfound
    obtain ⟨offset', rfl⟩ := cursors_pageOf hc
    refine ⟨id, offset', rfl, .inr ?_, ?_⟩
    · apply h.keys
      apply (shrinks_expire r.now s.pages).keys
      by_contra hgone
      simp [Js.Map.get_eq_none.mpr hgone] at hget
    · intro snapshot hsnapshot
      rw [hget] at hsnapshot
      rw [← Option.some.inj hsnapshot, hkey]
  · dsimp only
    rintro ⟨⟩
    obtain ⟨offset', rfl⟩ := cursors_pageOf hc
    refine ⟨r.uuid, offset', rfl, .inl rfl, ?_⟩
    intro snapshot
    split
    · rw [get_store, if_pos rfl]
      rintro ⟨⟩
      rfl
    · simp [huuid]

theorem Sound.read (h : Sound s) (hfresh : s.Fresh r) : Sound (s.read bytesOf r).2 where
  keys id hid := by
    simpa [Session.read] using h.read_keys id hid
  uuids id hid := by
    rcases List.mem_cons.mp hid with rfl | hid
    · exact hfresh.1
    · exact h.uuids id hid
  count := (h.limits hfresh).1
  bytes := (h.limits hfresh).2
  sync := h.read_sync
  issued key cursor hc := by
    have hold : (key, cursor) ∈ s.issued ∨ ∃ response, (s.read bytesOf r).1 = .ok response ∧
        cursor ∈ response.cursors ∧ key = r.key := by
      cases hout : (s.read bytesOf r).1 with
      | error text =>
        have hc' : (s.pages.read bytesOf r).1 = .error text := hout
        simp only [Session.read, hc'] at hc
        exact .inl hc
      | ok response =>
        have hc' : (s.pages.read bytesOf r).1 = .ok response := hout
        simp only [Session.read, hc', List.mem_append, List.mem_map, Prod.mk.injEq] at hc
        rcases hc with ⟨_, hcursor, rfl, rfl⟩ | hold
        · exact .inr ⟨response, rfl, hcursor, rfl⟩
        · exact .inl hold
    rcases hold with hold | ⟨response, hok, hcursor, rfl⟩
    · obtain ⟨id, offset, heq, hdrawn, hkey⟩ := h.issued key cursor hold
      refine ⟨id, offset, heq, List.mem_cons_of_mem _ hdrawn, fun snapshot hsnapshot => ?_⟩
      rcases read_get_drawn bytesOf hfresh hdrawn with ⟨hsnap, _⟩ | ⟨hsnap, _⟩
      · exact hkey snapshot (hsnap ▸ hsnapshot)
      · simp [hsnap] at hsnapshot
    · obtain ⟨id, offset, heq, hdrawn, hkey⟩ := h.read_issued hfresh hok hcursor
      exact ⟨id, offset, heq, List.mem_cons.mpr hdrawn, hkey⟩

end Step

theorem sound_of_reachable {bytesOf : List T → Nat} {s : Session T S}
    (h : Reachable bytesOf s) : Sound s := by
  induction h with
  | init =>
    refine ⟨?_, ?_, ?_, ?_, ?_, ?_⟩ <;>
      simp [Js.Map.keys, Pages.totalBytes, Js.Map.values]
  | read _ hfresh ih => exact ih.read hfresh

/-! ### Foreign cursors -/

/-- A cursor presented with another key than it was issued for is rejected. -/
theorem Sound.foreign {bytesOf : List T → Nat} {s : Session T S} (h : Sound s)
    {r : Request T S} {key cursor : String} (hissued : (key, cursor) ∈ s.issued)
    (hcursor : r.cursor? = some cursor) (hkey : r.key ≠ key) :
    ∃ text, (s.read bytesOf r).1 = .error text := by
  obtain ⟨id, offset, rfl, hdrawn, hsnapshot⟩ := h.issued key cursor hissued
  have hnone : (s.pages.expire r.now).follow r.key (cursorTo id offset) = none := by
    rw [follow_cursorTo _ _ (h.uuids id hdrawn)]
    cases hget : (s.pages.expire r.now).snapshots.get id with
    | none => rfl
    | some snapshot =>
      have hheld : s.pages.snapshots.get id = some snapshot := by
        rcases (shrinks_expire r.now s.pages).get id with ⟨hsnap, _⟩ | ⟨hsnap, _⟩
        · rw [← hsnap, hget]
        · simp [hget] at hsnap
      have hne : snapshot.key ≠ r.key := by
        rw [hsnapshot snapshot hheld]
        exact hkey.symm
      simp [hne]
  have hreads := reads bytesOf s.pages r
  unfold Session.read
  generalize s.pages.read bytesOf r = out at hreads ⊢
  rcases hreads with ⟨text, _⟩ | ⟨cursor', _, _, _, hcontinues, hfound⟩ | ⟨hstarts, _, _⟩
  · exact ⟨text, rfl⟩
  · rw [hcursor] at hcontinues
    rw [← Option.some.inj hcontinues, hnone] at hfound
    simp at hfound
  · simp [hcursor] at hstarts

/-! ### Walks -/

/-- The snapshot has expired when the read looks at it. -/
def Expires (s : Session T S) (r : Request T S) (id : String) : Prop :=
  ∃ snapshot, s.pages.snapshots.get id = some snapshot ∧ snapshot.expiresAt ≤ r.now id

/-- The read makes room for the rows of another listing and drops the snapshot for it. -/
def Evicts (bytesOf : List T → Nat) (s : Session T S) (r : Request T S) (id : String) : Prop :=
  r.cursor? = none ∧ r.stores (r.entries.getD []) = true ∧
    (s.pages.expire r.now).full (bytesOf (r.entries.getD [])) = true ∧
    (s.pages.expire r.now).snapshots.get id ≠ none ∧
    (s.read bytesOf r).2.pages.snapshots.get id = none

/-- A listing and the reads since it began: the sessions and requests of all reads behind the
    first one, whosever they are; the session now; the rows and sync values of the listing's
    own pages; and the cursor of its last page. -/
inductive Walk (bytesOf : List T → Nat) (s₀ : Session T S) (r₀ : Request T S) :
    List (Session T S × Request T S) → Session T S → List T → List (Option S) →
      Option String → Prop where
  | first {response : Response T S} (starts : r₀.cursor? = none)
      (limit : ∀ page, r₀.page = some page → 1 ≤ page.limit)
      (ok : (s₀.read bytesOf r₀).1 = .ok response) :
      Walk bytesOf s₀ r₀ [] (s₀.read bytesOf r₀).2 response.entries [response.sync]
        response.pageInfo.nextCursor
  | other {steps : List (Session T S × Request T S)} {s : Session T S} {rows : List T}
      {syncs : List (Option S)} {next : Option String} {r : Request T S}
      (walk : Walk bytesOf s₀ r₀ steps s rows syncs next) (fresh : s.Fresh r) :
      Walk bytesOf s₀ r₀ (steps ++ [(s, r)]) (s.read bytesOf r).2 rows syncs next
  | next {steps : List (Session T S × Request T S)} {s : Session T S} {rows : List T}
      {syncs : List (Option S)} {cursor : String} {r : Request T S} {limit : Nat}
      {response : Response T S}
      (walk : Walk bytesOf s₀ r₀ steps s rows syncs (some cursor)) (fresh : s.Fresh r)
      (key : r.key = r₀.key) (page : r.page = some ⟨limit, some cursor⟩) (limit_pos : 1 ≤ limit)
      (ok : (s.read bytesOf r).1 = .ok response) :
      Walk bytesOf s₀ r₀ (steps ++ [(s, r)]) (s.read bytesOf r).2 (rows ++ response.entries)
        (syncs ++ [response.sync]) response.pageInfo.nextCursor

theorem makeRoom_of_room {bytes rounds : Nat} {s : Pages T S} (h : s.full bytes = false) :
    s.makeRoom bytes rounds = s := by
  cases rounds with
  | zero => rfl
  | succ rounds => simp [Pages.makeRoom, h]

/-- A read leaves a snapshot and its sync value as they are, unless it expires or is evicted. -/
theorem kept_or_lost (bytesOf : List T → Nat) {s : Session T S} {r : Request T S}
    {id : String} {snapshot : Snapshot T} (hne : id ≠ r.uuid)
    (hheld : s.pages.snapshots.get id = some snapshot) :
    ((s.read bytesOf r).2.pages.snapshots.get id = some snapshot ∧
      (s.read bytesOf r).2.pages.syncByPage.get id = s.pages.syncByPage.get id) ∨
    Expires s r id ∨ Evicts bytesOf s r id := by
  by_cases hexpired : snapshot.expiresAt ≤ r.now id
  · exact .inr (.inl ⟨snapshot, hheld, hexpired⟩)
  have hlive := get_expire hheld (Int.not_le.mp hexpired)
  have hsync : (s.pages.expire r.now).syncByPage.get id = s.pages.syncByPage.get id := by
    rcases (shrinks_expire r.now s.pages).get id with ⟨_, hsync⟩ | ⟨hsnap, _⟩
    · exact hsync
    · simp [hlive] at hsnap
  rcases read_get bytesOf s hne with ⟨hsnap, hkept⟩ | ⟨hgone, _⟩
  · exact .inl ⟨hsnap.trans hlive, hkept.trans hsync⟩
  · refine .inr (.inr ?_)
    have hreads := reads bytesOf s.pages r
    have hnone := hgone
    simp only [Session.read] at hnone
    generalize s.pages.read bytesOf r = out at hreads hnone
    rcases hreads with _ | _ | ⟨hstarts, _, _⟩
    · simp [hlive] at hnone
    · simp [hlive] at hnone
    · dsimp only at hnone
      split at hnone
      · rename_i hstores
        refine ⟨hstarts, hstores, ?_, by simp [hlive], hgone⟩
        by_contra hroom
        rw [get_store, if_neg hne, makeRoom_of_room (by simpa using hroom), hlive] at hnone
        simp at hnone
      · simp [hlive] at hnone

/-- Where a listing stands: everything is read, or the rows before an offset are read and the
    cursor leads to it, if the snapshot is still there. -/
structure Stands (bytesOf : List T → Nat) (r₀ : Request T S)
    (steps : List (Session T S × Request T S)) (s : Session T S) (rows : List T)
    (syncs : List (Option S)) (cursor : String) (offset : Nat) : Prop where
  leads : cursor = cursorTo r₀.uuid offset
  inside : offset < (r₀.entries.getD []).length
  small : (r₀.entries.getD []).length ≤ MAX_ROWS
  taken : rows = (r₀.entries.getD []).take offset
  pages : syncs.length ≤ offset
  held : (s.pages.snapshots.get r₀.uuid = some (snapshotOf bytesOf r₀ (r₀.entries.getD [])) ∧
      s.pages.syncByPage.get r₀.uuid = r₀.sync) ∨
    (s.pages.snapshots.get r₀.uuid = none ∧
      ∃ step ∈ steps, Expires step.1 step.2 r₀.uuid ∨ Evicts bytesOf step.1 step.2 r₀.uuid)

/-- What holds all along a walk. -/
structure Walked (bytesOf : List T → Nat) (r₀ : Request T S)
    (steps : List (Session T S × Request T S)) (s : Session T S) (rows : List T)
    (syncs : List (Option S)) (next : Option String) : Prop where
  sound : Sound s
  drawn : r₀.uuid ∈ s.drawn
  oneSync : ∀ sync ∈ syncs, sync = r₀.sync
  ends : next = none → rows = r₀.entries.getD [] ∧
    syncs.length ≤ max 1 (r₀.entries.getD []).length
  stands : ∀ cursor, next = some cursor → ∃ offset,
    Stands bytesOf r₀ steps s rows syncs cursor offset

section Run

variable {bytesOf : List T → Nat} {s₀ s : Session T S} {r₀ r : Request T S}
variable {steps : List (Session T S × Request T S)} {rows : List T} {syncs : List (Option S)}

/-- A fresh read keeps the snapshot of a listing, or is a step that loses it. -/
theorem Stands.held_read {cursor : String} {offset : Nat}
    (h : Stands bytesOf r₀ steps s rows syncs cursor offset) (hdrawn : r₀.uuid ∈ s.drawn)
    (hfresh : s.Fresh r) :
    ((s.read bytesOf r).2.pages.snapshots.get r₀.uuid =
        some (snapshotOf bytesOf r₀ (r₀.entries.getD [])) ∧
      (s.read bytesOf r).2.pages.syncByPage.get r₀.uuid = r₀.sync) ∨
    ((s.read bytesOf r).2.pages.snapshots.get r₀.uuid = none ∧
      ∃ step ∈ steps ++ [(s, r)],
        Expires step.1 step.2 r₀.uuid ∨ Evicts bytesOf step.1 step.2 r₀.uuid) := by
  have hne : r₀.uuid ≠ r.uuid := fun heq => hfresh.2 (heq ▸ hdrawn)
  rcases h.held with ⟨hsnap, hsync⟩ | ⟨hgone, step, hstep, hlost⟩
  · rcases read_get_drawn bytesOf hfresh hdrawn with ⟨hsame, hsame'⟩ | ⟨hgone, _⟩
    · exact .inl ⟨hsame.trans hsnap, hsame'.trans hsync⟩
    · rcases kept_or_lost bytesOf hne hsnap with ⟨hkept, _⟩ | hlost
      · simp [hgone] at hkept
      · exact .inr ⟨hgone, (s, r), by simp, hlost⟩
  · have hgone' : (s.read bytesOf r).2.pages.snapshots.get r₀.uuid = none := by
      rcases read_get_drawn bytesOf hfresh hdrawn with ⟨hsame, _⟩ | ⟨hnone, _⟩
      · exact hsame.trans hgone
      · exact hnone
    exact .inr ⟨hgone', step, List.mem_append_left _ hstep, hlost⟩

theorem Walked.other {next : Option String} (h : Walked bytesOf r₀ steps s rows syncs next)
    (hfresh : s.Fresh r) :
    Walked bytesOf r₀ (steps ++ [(s, r)]) (s.read bytesOf r).2 rows syncs next := by
  refine ⟨h.sound.read hfresh, List.mem_cons_of_mem _ h.drawn, h.oneSync, h.ends, ?_⟩
  intro cursor hnext
  obtain ⟨offset, hstands⟩ := h.stands cursor hnext
  exact ⟨offset, hstands.leads, hstands.inside, hstands.small, hstands.taken, hstands.pages,
    hstands.held_read h.drawn hfresh⟩

/-- What the first read of a listing does. -/
theorem first_read (hstarts : r₀.cursor? = none) {response : Response T S}
    (hok : (s₀.read bytesOf r₀).1 = .ok response) :
    response = pageOf r₀.uuid (r₀.entries.getD []) 0 r₀.page r₀.sync ∧
      (r₀.entries.getD []).length ≤ MAX_ROWS ∧
      (r₀.stores (r₀.entries.getD []) = true → (s₀.read bytesOf r₀).2.pages =
        (s₀.pages.expire r₀.now).store bytesOf r₀ (r₀.entries.getD [])) := by
  have hreads := reads bytesOf s₀.pages r₀
  revert hok
  unfold Session.read
  generalize s₀.pages.read bytesOf r₀ = out at hreads ⊢
  rcases hreads with _ | ⟨cursor, _, _, _, hcontinues, _⟩ | ⟨_, _, hrows⟩
  · simp
  · simp [hstarts] at hcontinues
  · rintro ⟨⟩
    exact ⟨rfl, hrows, fun hstores => by simp [hstores]⟩

theorem walked_first (h : Sound s₀) (hfresh : s₀.Fresh r₀) (hstarts : r₀.cursor? = none)
    (hlimit : ∀ page, r₀.page = some page → 1 ≤ page.limit) {response : Response T S}
    (hok : (s₀.read bytesOf r₀).1 = .ok response) :
    Walked bytesOf r₀ [] (s₀.read bytesOf r₀).2 response.entries [response.sync]
      response.pageInfo.nextCursor := by
  obtain ⟨rfl, hsmall, hstore⟩ := first_read hstarts hok
  have hnosync : (s₀.pages.expire r₀.now).syncByPage.get r₀.uuid = none :=
    Pages.sync_eq_none ((shrinks_expire _ _).sync_keys h.sync) (h.get_uuid hfresh)
  refine ⟨h.read hfresh, List.mem_cons_self, by simp [pageOf], ?_, ?_⟩
  · intro hnone
    simp only [pageOf, Nat.zero_add, ite_eq_right_iff, reduceCtorEq, imp_false, Nat.not_lt] at hnone
    simp only [pageOf, List.drop_zero, List.length_singleton]
    exact ⟨List.take_of_length_le hnone, Nat.le_max_left _ _⟩
  · intro cursor hnext
    simp only [pageOf, Nat.zero_add, Option.ite_none_right_eq_some, Option.some.injEq] at hnext
    obtain ⟨hinside, rfl⟩ := hnext
    cases hpage : r₀.page with
    | none => simp [hpage] at hinside
    | some page =>
      simp only [hpage, Option.map_some, Option.getD_some] at hinside ⊢
      have hstores : r₀.stores (r₀.entries.getD []) = true := by
        simp [Request.stores, hpage, hinside]
      refine ⟨page.limit, rfl, hinside, hsmall, by simp [pageOf], hlimit page hpage, .inl ?_⟩
      rw [hstore hstores, get_store, if_pos rfl]
      exact ⟨rfl, sync_store_self hnosync⟩

theorem cursor?_of_page {limit : Nat} {cursor : String} (hpage : r.page = some ⟨limit, some cursor⟩)
    (hne : cursor ≠ "") : r.cursor? = some cursor := by
  simp [Request.cursor?, hpage, hne]

/-- A page behind the first one is read from the snapshot of its listing. -/
theorem Stands.next_read {cursor : String} {offset : Nat}
    (h : Stands bytesOf r₀ steps s rows syncs cursor offset) (huuid : isUuid r₀.uuid = true)
    (hcursor : r.cursor? = some cursor) {response : Response T S}
    (hok : (s.read bytesOf r).1 = .ok response) :
    response = pageOf r₀.uuid (r₀.entries.getD []) offset r.page r₀.sync := by
  have hreads := reads bytesOf s.pages r
  revert hok
  unfold Session.read
  generalize s.pages.read bytesOf r = out at hreads ⊢
  rcases hreads with _ | ⟨cursor', id, offset', snapshot, hcontinues, hfound⟩ | ⟨hnone, _, _⟩
  · simp
  · rintro ⟨⟩
    rw [hcursor] at hcontinues
    rw [← Option.some.inj hcontinues, h.leads, follow_cursorTo _ _ huuid,
      Option.bind_eq_some_iff] at hfound
    obtain ⟨held, hheld, hsame⟩ := hfound
    simp only [Option.ite_none_right_eq_some, Option.some.injEq, Prod.mk.injEq] at hsame
    obtain ⟨_, rfl, rfl, rfl⟩ := hsame
    rcases (shrinks_expire r.now s.pages).get r₀.uuid with ⟨hsnap, hsync⟩ | ⟨hsnap, _⟩
    · rcases h.held with ⟨hthere, hsync'⟩ | ⟨hgone, _⟩
      · rw [hsnap, hthere] at hheld
        rw [hsync, hsync', ← Option.some.inj hheld]
        rfl
      · simp [hsnap, hgone] at hheld
    · simp [hsnap] at hheld
  · simp [hcursor] at hnone

theorem Walked.next {cursor : String} (h : Walked bytesOf r₀ steps s rows syncs (some cursor))
    (hfresh : s.Fresh r) {limit : Nat} (hpage : r.page = some ⟨limit, some cursor⟩)
    (hlimit : 1 ≤ limit) {response : Response T S} (hok : (s.read bytesOf r).1 = .ok response) :
    Walked bytesOf r₀ (steps ++ [(s, r)]) (s.read bytesOf r).2 (rows ++ response.entries)
      (syncs ++ [response.sync]) response.pageInfo.nextCursor := by
  obtain ⟨offset, hstands⟩ := h.stands cursor rfl
  have hcursor : r.cursor? = some cursor :=
    cursor?_of_page hpage (hstands.leads ▸ cursorTo_ne_empty _ _)
  obtain rfl := hstands.next_read (h.sound.uuids _ h.drawn) hcursor hok
  have hrows : rows ++ (pageOf r₀.uuid (r₀.entries.getD []) offset r.page r₀.sync).entries =
      (r₀.entries.getD []).take (offset + limit) := by
    simp [pageOf, hpage, hstands.taken, List.take_add]
  have hpages := hstands.pages
  have hinside := hstands.inside
  refine ⟨h.sound.read hfresh, List.mem_cons_of_mem _ h.drawn, ?_, ?_, ?_⟩
  · intro sync hsync
    rcases List.mem_append.mp hsync with hold | hnew
    · exact h.oneSync sync hold
    · rw [List.mem_singleton.mp hnew]
      rfl
  · intro hnone
    simp only [pageOf, hpage, Option.map_some, Option.getD_some, ite_eq_right_iff, reduceCtorEq,
      imp_false, Nat.not_lt] at hnone
    rw [hrows]
    refine ⟨List.take_of_length_le hnone, ?_⟩
    simp only [List.length_append, List.length_singleton]
    omega
  · intro cursor' hnext
    simp only [pageOf, hpage, Option.map_some, Option.getD_some, Option.ite_none_right_eq_some,
      Option.some.injEq] at hnext
    obtain ⟨hlast, rfl⟩ := hnext
    refine ⟨offset + limit, rfl, hlast, hstands.small, hrows, ?_,
      hstands.held_read h.drawn hfresh⟩
    simp only [List.length_append, List.length_singleton]
    omega

theorem Walk.walked {next : Option String} (hs₀ : Sound s₀) (hfresh₀ : s₀.Fresh r₀)
    (h : Walk bytesOf s₀ r₀ steps s rows syncs next) :
    Walked bytesOf r₀ steps s rows syncs next := by
  induction h with
  | first starts limit ok => exact walked_first hs₀ hfresh₀ starts limit ok
  | other _ fresh ih => exact ih.other fresh
  | next _ fresh _ page limit_pos ok ih => exact ih.next fresh page limit_pos ok

/-- A page that is asked for under the listing's key comes, unless its snapshot was lost. -/
theorem Stands.comes {cursor : String} {offset : Nat}
    (h : Stands bytesOf r₀ steps s rows syncs cursor offset) (huuid : isUuid r₀.uuid = true)
    (hkey : r.key = r₀.key) (hcursor : r.cursor? = some cursor) :
    (∃ response, (s.read bytesOf r).1 = .ok response) ∨
    ((∃ text, (s.read bytesOf r).1 = .error text) ∧ ∃ step ∈ steps ++ [(s, r)],
      Expires step.1 step.2 r₀.uuid ∨ Evicts bytesOf step.1 step.2 r₀.uuid) := by
  have hreads := reads bytesOf s.pages r
  unfold Session.read
  generalize s.pages.read bytesOf r = out at hreads ⊢
  rcases hreads with ⟨text, hinvalid⟩ | _ | _
  · refine .inr ⟨⟨text, rfl⟩, ?_⟩
    rcases h.held with ⟨hsnap, _⟩ | ⟨_, step, hstep, hlost⟩
    · refine ⟨(s, r), by simp, .inl ⟨_, hsnap, ?_⟩⟩
      by_contra hlive
      have hfound := hinvalid cursor hcursor
      rw [h.leads, follow_cursorTo _ _ huuid, get_expire hsnap (Int.not_le.mp hlive)] at hfound
      have hsmall : offset ≤ MAX_SAFE_INTEGER := by
        have hrows := h.small
        have hinside := h.inside
        simp only [MAX_ROWS, MAX_SAFE_INTEGER] at hrows ⊢
        omega
      simp [snapshotOf, hkey, hsmall, h.inside] at hfound
    · exact ⟨step, List.mem_append_left _ hstep, hlost⟩
  · exact .inl ⟨_, rfl⟩
  · exact .inl ⟨_, rfl⟩

end Run

/-- Rows within the limits are always listed. -/
theorem first_read_ok {bytesOf : List T → Nat} (s : Session T S) {r : Request T S}
    (hstarts : r.cursor? = none) (hbytes : bytesOf (r.entries.getD []) ≤ MAX_SNAPSHOT_BYTES)
    (hrows : (r.entries.getD []).length ≤ MAX_ROWS) :
    ∃ response, (s.read bytesOf r).1 = .ok response := by
  refine ⟨pageOf r.uuid (r.entries.getD []) 0 r.page r.sync, ?_⟩
  have hfits : ¬ (MAX_SNAPSHOT_BYTES < bytesOf (r.entries.getD []) ∨
      MAX_ROWS < (r.entries.getD []).length) := by omega
  simp only [Session.read, Pages.read, Pages.readLive, hstarts, if_neg hfits]

/-- In every session: the limits on snapshots hold and each sync value belongs to one; a cursor
    is good for its own key only; and a listing of rows within the limits starts, gives exactly
    its rows under one sync value when it is followed to its end, and can only fail because its
    snapshot expired or was evicted. -/
theorem directory_pages {bytesOf : List T → Nat} {s : Session T S} (h : Reachable bytesOf s) :
    (s.pages.snapshots.cells.length ≤ MAX_SNAPSHOTS ∧ s.pages.totalBytes ≤ MAX_TOTAL_BYTES ∧
      ∀ id ∈ s.pages.syncByPage.keys, id ∈ s.pages.snapshots.keys) ∧
    (∀ (r : Request T S) (key cursor : String), (key, cursor) ∈ s.issued →
      r.cursor? = some cursor → r.key ≠ key → ∃ text, (s.read bytesOf r).1 = .error text) ∧
    (∀ r : Request T S, r.cursor? = none → bytesOf (r.entries.getD []) ≤ MAX_SNAPSHOT_BYTES →
      (r.entries.getD []).length ≤ MAX_ROWS → ∃ response, (s.read bytesOf r).1 = .ok response) ∧
    ∀ r₀ : Request T S, s.Fresh r₀ → ∀ steps s' rows syncs next,
      Walk bytesOf s r₀ steps s' rows syncs next →
        (∀ sync ∈ syncs, sync = r₀.sync) ∧
        syncs.length ≤ max 1 (r₀.entries.getD []).length ∧
        (next = none → rows = r₀.entries.getD []) ∧
        ∀ cursor, next = some cursor → rows <+: r₀.entries.getD [] ∧
          ∀ (r : Request T S) (limit : Nat), s'.Fresh r → r.key = r₀.key →
            r.page = some ⟨limit, some cursor⟩ → 1 ≤ limit →
              (∃ response, (s'.read bytesOf r).1 = .ok response) ∨
              ((∃ text, (s'.read bytesOf r).1 = .error text) ∧
                ∃ step ∈ steps ++ [(s', r)],
                  Expires step.1 step.2 r₀.uuid ∨ Evicts bytesOf step.1 step.2 r₀.uuid) := by
  have hsound := sound_of_reachable h
  refine ⟨⟨hsound.count, hsound.bytes, hsound.sync⟩,
    fun r key cursor hissued hcursor hkey => hsound.foreign hissued hcursor hkey,
    fun r hstarts hbytes hrows => first_read_ok s hstarts hbytes hrows, ?_⟩
  intro r₀ hfresh steps s' rows syncs next hwalk
  have hwalked := hwalk.walked hsound hfresh
  refine ⟨hwalked.oneSync, ?_, fun hnext => (hwalked.ends hnext).1, ?_⟩
  · cases next with
    | none => exact (hwalked.ends rfl).2
    | some cursor =>
      obtain ⟨offset, hstands⟩ := hwalked.stands cursor rfl
      have hpages := hstands.pages
      have hinside := hstands.inside
      omega
  · intro cursor hnext
    obtain ⟨offset, hstands⟩ := hwalked.stands cursor hnext
    refine ⟨hstands.taken ▸ List.take_prefix _ _, fun r limit _ hkey hpage _ => ?_⟩
    have hne : cursor ≠ "" := hstands.leads ▸ cursorTo_ne_empty _ _
    exact hstands.comes (hwalked.sound.uuids _ hwalked.drawn) hkey (cursor?_of_page hpage hne)

/-- The first read of three rows, two to a page. -/
def threeRows : Request Nat String where
  key := "agents"
  page := some ⟨2, none⟩
  entries := some [1, 2, 3]
  sync := some "sync"
  now := fun _ => 0
  stamp := 0
  uuid := "first"

/-- The read of its second page. -/
def thirdRow : Request Nat String where
  key := "agents"
  page := some ⟨5, some (cursorTo "first" 2)⟩
  now := fun _ => 1
  stamp := 1
  uuid := "second"

theorem directory_pages_three : ∃ s' : Session Nat String, ∃ rows syncs,
    Walk List.sum {} threeRows [((({} : Session Nat String).read List.sum threeRows).2, thirdRow)]
      s' rows syncs none ∧ rows = [1, 2, 3] ∧ ∀ sync ∈ syncs, sync = some "sync" := by
  have hok : (({} : Session Nat String).read List.sum threeRows).1 =
      .ok (pageOf "first" [1, 2, 3] 0 (some ⟨2, none⟩) (some "sync")) := rfl
  have hfirst := Walk.first rfl (by simp [threeRows]) hok
  have hfresh : Session.Fresh (({} : Session Nat String).read List.sum threeRows).2 thirdRow :=
    ⟨by rfl, by simp [Session.read, threeRows, thirdRow]⟩
  have hthird : ((({} : Session Nat String).read List.sum threeRows).2.read List.sum thirdRow).1 =
      .ok (pageOf "first" [1, 2, 3] 2 (some ⟨5, some (cursorTo "first" 2)⟩) (some "sync")) := rfl
  have hnext := hfirst.next hfresh rfl rfl (by decide) hthird
  have hresult := (directory_pages Reachable.init).2.2.2 threeRows ⟨by rfl, by simp⟩
    _ _ _ _ _ hnext
  exact ⟨_, _, _, hnext, hresult.2.2.1 rfl, hresult.1⟩

end PaseoGateway.DirectoryPages
