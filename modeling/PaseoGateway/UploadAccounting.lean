/-
  PaseoGateway/UploadAccounting.lean
  ==================================
  **The bytes reserved for uploads are those of the uploads there are.**

  Each method changes the counter by exactly what it changes the rows of its object by
  (`Accounted`); `take` hands the bytes of a row over to the call, and `release` gives
  them back.  A replace call holds one file at most, and none when it has settled.
-/
import PaseoGateway.RelyGuarantee
import PaseoGateway.Uploads

namespace PaseoGateway.Uploads

open Async

/-! ### Sweeps -/

section Sweep

variable {ν : Type} {expiresAt size : ν → Int} {now : Int}

/-- What is left of the rows, the counter following their sizes. -/
structure Swept (expiresAt size : ν → Int) (now : Int) (rows : Js.Map String ν) (reserved : Int)
    (out : Js.Map String ν × Int) : Prop where
  balance : out.2 - (out.1.values.map size).sum = reserved - (rows.values.map size).sum
  length : out.1.cells.length ≤ rows.cells.length
  le : (∀ v ∈ rows.values, 0 ≤ size v) → out.2 ≤ reserved
  get : ∀ k v, out.1.get k = some v → rows.get k = some v ∧ now < expiresAt v

theorem swept (expiresAt size : ν → Int) (now : Int) (rows : Js.Map String ν) (reserved : Int) :
    Swept expiresAt size now rows reserved (sweep expiresAt size now rows reserved) := by
  have hfold : ∀ (cells : List (Js.Cell String ν)) (m : Js.Map String ν) (r : Int),
      (cells.map Js.Cell.key).Nodup → (∀ c ∈ cells, m.get c.key = some c.value) →
      let out := cells.foldl (fun s cell =>
        if expiresAt cell.value ≤ now then (s.1.delete cell.key, s.2 - size cell.value) else s)
        (m, r)
      out.2 - (out.1.values.map size).sum = r - (m.values.map size).sum ∧
        out.1.cells.length ≤ m.cells.length ∧
        ((∀ v ∈ m.values, 0 ≤ size v) → out.2 ≤ r) ∧
        ∀ k v, out.1.get k = some v → m.get k = some v ∧
          (k ∈ cells.map Js.Cell.key → now < expiresAt v) := by
    intro cells
    induction cells with
    | nil => exact fun m r _ _ => ⟨rfl, Nat.le_refl _, fun _ => Int.le_refl r,
      fun k v hk => ⟨hk, by simp⟩⟩
    | cons cell cells ih =>
      intro m r hn hcells
      simp only [List.map_cons, List.nodup_cons] at hn
      have hcell := hcells cell (by simp)
      have hrest : ∀ c ∈ cells, c.key ≠ cell.key := fun c hc heq =>
        hn.1 (heq ▸ List.mem_map_of_mem hc)
      rw [List.foldl_cons]
      by_cases hexpired : expiresAt cell.value ≤ now
      · rw [if_pos hexpired]
        obtain ⟨hbalance, hlength, hle, hget⟩ := ih (m.delete cell.key) (r - size cell.value) hn.2
          fun c hc => by
            rw [Js.Map.get_delete, if_neg (hrest c hc)]
            exact hcells c (by simp [hc])
        refine ⟨?_, hlength.trans (Js.Map.length_delete_le m _), fun hsizes => ?_, ?_⟩
        · have hsum := Js.Map.sum_delete (f := size) hcell
          dsimp only at hbalance ⊢
          omega
        · have hsize := hsizes cell.value (Js.Map.mem_values.mpr ⟨_, hcell⟩)
          have hless := hle fun v hv => hsizes v (Js.Map.mem_values_delete hv)
          dsimp only at hless ⊢
          omega
        · intro k v hk
          obtain ⟨hold, hlive⟩ := hget k v hk
          refine ⟨Js.Map.get_delete_of_some hold, fun hmem => ?_⟩
          rcases List.mem_cons.mp hmem with rfl | hmem
          · simp [Js.Map.get_delete] at hold
          · exact hlive hmem
      · rw [if_neg hexpired]
        obtain ⟨hbalance, hlength, hle, hget⟩ := ih m r hn.2 fun c hc => hcells c (by simp [hc])
        refine ⟨hbalance, hlength, hle, fun k v hk => ?_⟩
        obtain ⟨hold, hlive⟩ := hget k v hk
        refine ⟨hold, fun hmem => ?_⟩
        rcases List.mem_cons.mp hmem with rfl | hmem
        · rw [hcell] at hold
          rw [← Option.some.inj hold]
          omega
        · exact hlive hmem
  obtain ⟨hbalance, hlength, hle, hget⟩ := hfold rows.cells rows reserved rows.nodup
    fun c hc => Js.Map.get_eq_some.mpr ⟨c, hc, rfl, rfl⟩
  refine ⟨hbalance, hlength, hle, fun k v hk => ?_⟩
  obtain ⟨hold, hlive⟩ := hget k v hk
  obtain ⟨c, hc, hkey, _⟩ := Js.Map.get_eq_some.mp hold
  exact ⟨hold, hlive (hkey ▸ List.mem_map_of_mem hc)⟩

theorem Swept.values {rows : Js.Map String ν} {reserved : Int} {out : Js.Map String ν × Int}
    (h : Swept expiresAt size now rows reserved out) : ∀ v ∈ out.1.values, v ∈ rows.values := by
  intro v hv
  obtain ⟨k, hk⟩ := Js.Map.mem_values.mp hv
  exact Js.Map.mem_values.mpr ⟨k, (h.get k v hk).1⟩

end Sweep

/-! ### One object -/

/-- The counter is the bytes of this object's rows and `others`; the limits hold. -/
structure Accounted (others : Int) (s : UploadStaging) : Prop where
  balance : s.reservedBytes = s.maps.total + others
  capacity : s.reservedBytes ≤ maxTotal
  entries : s.maps.size ≤ maxEntries
  pending : ∀ row ∈ s.maps.pending.values, 0 ≤ pendingSize row
  staged : ∀ row ∈ s.maps.staged.values, 0 ≤ stagedSize row

section Methods

variable {others : Int} {s : UploadStaging}

theorem Accounted.expire (h : Accounted others s) (now : Int) :
    Accounted others (s.expire now) := by
  have hpending := swept Pending.expiresAt pendingSize now s.maps.pending s.reservedBytes
  have hstaged := swept Staged.expiresAt stagedSize now s.maps.staged
    (sweep Pending.expiresAt pendingSize now s.maps.pending s.reservedBytes).2
  have hbalance := h.balance
  have hcapacity := h.capacity
  have hentries := h.entries
  simp only [Maps.total, Maps.size] at hbalance hentries
  refine ⟨?_, ?_, ?_, fun row hrow => h.pending row (hpending.values row hrow),
    fun row hrow => h.staged row (hstaged.values row hrow)⟩
  · have hgave := hpending.balance
    have hgave' := hstaged.balance
    simp only [UploadStaging.expire, Maps.total]
    omega
  · have hle := hpending.le h.pending
    have hle' := hstaged.le h.staged
    simp only [UploadStaging.expire]
    omega
  · have hlength := hpending.length
    have hlength' := hstaged.length
    simp only [UploadStaging.expire, Maps.size]
    omega

/-- A new row, for which there is room. -/
theorem Accounted.insert (h : Accounted others s) (row : Pending) {requestId : String}
    (hnew : s.maps.pending.get requestId = none) (hsize : 0 ≤ pendingSize row)
    (hentries : s.maps.size < maxEntries)
    (hroom : s.reservedBytes + pendingSize row ≤ maxTotal) :
    Accounted others ⟨s.reservedBytes + pendingSize row,
      { s.maps with pending := s.maps.pending.set requestId row }⟩ := by
  have hbalance := h.balance
  obtain ⟨position, hcells⟩ := Js.Map.cells_set_new hnew row
  simp only [Maps.total, Maps.size] at hbalance hentries
  refine ⟨?_, hroom, ?_, fun row' hrow' => ?_, h.staged⟩
  · simp only [Maps.total, Js.Map.values_set_new hnew, List.map_append, List.map_cons,
      List.map_nil, List.sum_append, List.sum_singleton]
    omega
  · simp only [Maps.size, hcells, List.length_append, List.length_singleton]
    omega
  · rcases Js.Map.mem_values_set hrow' with rfl | hold
    · exact hsize
    · exact h.pending row' hold

/-- A row that changes, but not in size. -/
theorem Accounted.change (h : Accounted others s) {row old : Pending} {requestId : String}
    (hold : s.maps.pending.get requestId = some old) (hsize : pendingSize row = pendingSize old) :
    Accounted others ⟨s.reservedBytes,
      { s.maps with pending := s.maps.pending.set requestId row }⟩ := by
  have hbalance := h.balance
  have hentries := h.entries
  simp only [Maps.total, Maps.size] at hbalance hentries
  refine ⟨?_, h.capacity, ?_, fun row' hrow' => ?_, h.staged⟩
  · simp only [Maps.total, Js.Map.map_values_set_old hold hsize]
    exact hbalance
  · simp only [Maps.size, Js.Map.cells_set_old hold, List.length_map]
    exact hentries
  · rcases Js.Map.mem_values_set hrow' with rfl | hmem
    · rw [hsize]
      exact h.pending old (Js.Map.mem_values.mpr ⟨_, hold⟩)
    · exact h.pending row' hmem

/-- A pending row that becomes a staged one of the same size. -/
theorem Accounted.stage (h : Accounted others s) {row : Pending} (staged : Staged)
    {requestId : String} (hold : s.maps.pending.get requestId = some row)
    (hsize : stagedSize staged = pendingSize row)
    (hnew : s.maps.staged.get staged.file.id = none) :
    Accounted others ⟨s.reservedBytes, ⟨s.maps.pending.delete requestId,
      s.maps.staged.set staged.file.id staged⟩⟩ := by
  have hbalance := h.balance
  have hentries := h.entries
  obtain ⟨position, hcells⟩ := Js.Map.cells_set_new hnew staged
  simp only [Maps.total, Maps.size] at hbalance hentries
  refine ⟨?_, h.capacity, ?_, fun row' hrow' => h.pending row' (Js.Map.mem_values_delete hrow'),
    fun row' hrow' => ?_⟩
  · have hsum := Js.Map.sum_delete (f := pendingSize) hold
    simp only [Maps.total, Js.Map.values_set_new hnew, List.map_append, List.map_cons,
      List.map_nil, List.sum_append, List.sum_singleton]
    omega
  · have hlength := Js.Map.length_delete hold
    simp only [Maps.size, hcells, List.length_append, List.length_singleton]
    omega
  · rcases Js.Map.mem_values_set hrow' with rfl | hmem
    · rw [hsize]
      exact h.pending row (Js.Map.mem_values.mpr ⟨_, hold⟩)
    · exact h.staged row' hmem

/-- What `begin` comes to: a refusal, or a row for which there is room. -/
theorem opened (now stamp : Int) (request : UploadRequest) (s : UploadStaging) :
    (∃ message, s.beginUpload now stamp request = (.error message, s.expire now)) ∨
    ((s.expire now).maps.pending.get request.requestId = none ∧ 0 ≤ request.size ∧
      (s.expire now).maps.size < maxEntries ∧
      (s.expire now).reservedBytes + request.size ≤ maxTotal ∧
      s.beginUpload now stamp request = (.ok (), ⟨(s.expire now).reservedBytes + request.size,
        { (s.expire now).maps with
          pending := (s.expire now).maps.pending.set request.requestId
            ⟨request, false, List.replicate request.size.toNat 0, 0, 0, stamp + ttl⟩ }⟩)) := by
  unfold UploadStaging.beginUpload
  dsimp only
  split
  · exact .inl ⟨_, rfl⟩
  · rename_i hnew
    split
    · exact .inl ⟨_, rfl⟩
    · rename_i hvalid
      split
      · exact .inl ⟨_, rfl⟩
      · rename_i hroom
        simp only [not_or, Int.not_lt, Nat.not_le] at hroom
        simp only [metadataInvalid, Bool.or_eq_true, decide_eq_true_eq, not_or, Int.not_lt]
          at hvalid
        exact .inr ⟨by simpa using hnew, hvalid.1.1.1.1.1.1.1.1, hroom.1, hroom.2.2, rfl⟩

theorem Accounted.beginUpload (h : Accounted others s) (now stamp : Int)
    (request : UploadRequest) : Accounted others (s.beginUpload now stamp request).2 := by
  have hexpired := h.expire now
  rcases opened now stamp request s with ⟨message, hout⟩ | ⟨hnew, hsize, hentries, hroom, hout⟩
  · rw [hout]
    exact hexpired
  · rw [hout]
    exact hexpired.insert ⟨request, false, List.replicate request.size.toNat 0, 0, 0, stamp + ttl⟩
      hnew hsize hentries hroom

/-- What an accepted or refused frame leaves of an object, and what is noted of it. -/
inductive Received (place : Place) (stamp : Int) (uuid : String) (s : UploadStaging) :
    UploadStaging → List Note → Prop where
  | nothing : Received place stamp uuid s s []
  /-- a begin frame, or a chunk that is only counted -/
  | marked {requestId : String} {row : Pending} {begun : Bool} {chunks : Nat}
      (known : s.maps.pending.get requestId = some row) :
      Received place stamp uuid s ⟨s.reservedBytes, { s.maps with
        pending := s.maps.pending.set requestId { row with begun := begun, chunks := chunks } }⟩ []
  | chunk {requestId : String} {payload : List UInt8} {row : Pending} {chunks : Nat}
      (known : s.maps.pending.get requestId = some row)
      (fits : (row.bytes : Int) + payload.length ≤ row.request.size) :
      Received place stamp uuid s ⟨s.reservedBytes, { s.maps with
        pending := s.maps.pending.set requestId { row with
          chunks := chunks
          buffer := bufferSet row.buffer payload row.bytes
          bytes := row.bytes + payload.length } }⟩ [.chunk place requestId payload]
  | complete {requestId : String} {row : Pending}
      (known : s.maps.pending.get requestId = some row)
      (full : (row.bytes : Int) = row.request.size) :
      Received place stamp uuid s ⟨s.reservedBytes, ⟨s.maps.pending.delete requestId,
        s.maps.staged.set (uploadPrefix ++ uuid)
          ⟨uploadedFile row uuid, row.buffer, row.request.modifiedAt, stamp + ttl⟩⟩⟩
        [.response place requestId (uploadedFile row uuid) (stamp + ttl), .uuid uuid]

theorem received (place : Place) (now stamp : Int) (uuid : String) (frame : Option Frame)
    (s : UploadStaging) :
    Received place stamp uuid (s.expire now) (s.binary now stamp uuid frame).2
      (binaryNotes place stamp uuid frame (s.binary now stamp uuid frame).1) := by
  unfold UploadStaging.binary
  dsimp only
  cases frame with
  | none => exact .nothing
  | some frame =>
    dsimp only
    cases hrow : (s.expire now).maps.pending.get frame.requestId with
    | none => exact .nothing
    | some row =>
      cases frame with
      | fileBegin requestId metadata =>
        simp only [UploadStaging.beginFrame]
        split
        · exact .nothing
        · exact .marked hrow
      | fileChunk requestId payload =>
        simp only [UploadStaging.chunkFrame]
        split
        · exact .nothing
        · split
          · exact .nothing
          · rename_i hfits
            split
            · exact .marked hrow
            · simp only [not_or, Int.not_lt] at hfits
              exact .chunk hrow hfits.2.2
      | fileEnd requestId =>
        simp only [UploadStaging.endFrame]
        split
        · exact .nothing
        · split
          · exact .nothing
          · rename_i hfull
            exact .complete hrow (by simpa using hfull)

theorem Accounted.binary (h : Accounted others s) (now stamp : Int) (uuid : String)
    (frame : Option Frame) (hnew : s.maps.staged.get (uploadPrefix ++ uuid) = none) :
    Accounted others (s.binary now stamp uuid frame).2 := by
  have hexpired := h.expire now
  have hgone : (s.expire now).maps.staged.get (uploadPrefix ++ uuid) = none := by
    cases hget : (s.expire now).maps.staged.get (uploadPrefix ++ uuid) with
    | none => rfl
    | some row =>
      have hold := ((swept _ _ _ s.maps.staged _).get _ row hget).1
      simp [hnew] at hold
  have hreceived := received ⟨0, 0⟩ now stamp uuid frame s
  generalize s.expire now = s₀ at hexpired hgone hreceived
  generalize binaryNotes _ _ _ _ _ = notes at hreceived
  generalize (s.binary now stamp uuid frame).2 = s' at hreceived ⊢
  rcases hreceived with _ | hrow | ⟨hrow, _⟩ | ⟨hrow, hfull⟩
  · exact hexpired
  · exact hexpired.change hrow rfl
  · exact hexpired.change hrow rfl
  · rename_i requestId row
    exact hexpired.stage ⟨uploadedFile row uuid, row.buffer, row.request.modifiedAt, stamp + ttl⟩
      hrow hfull hgone

theorem Accounted.take (h : Accounted others s) {attachment : UploadedFile} {staged : Staged}
    (hok : (s.take attachment).1 = .ok staged) :
    Accounted (others + stagedSize staged) (s.take attachment).2 ∧ 0 ≤ stagedSize staged := by
  unfold UploadStaging.take at hok ⊢
  cases hget : s.maps.staged.get attachment.id with
  | none => simp [hget] at hok
  | some row =>
    simp only [hget] at hok ⊢
    split at hok
    · rename_i hmatches
      rw [if_pos hmatches]
      obtain rfl := Except.ok.inj hok
      have hbalance := h.balance
      have hentries := h.entries
      simp only [Maps.total, Maps.size] at hbalance hentries
      refine ⟨⟨?_, h.capacity, ?_, h.pending,
        fun row' hrow' => h.staged row' (Js.Map.mem_values_delete hrow')⟩,
        h.staged row (Js.Map.mem_values.mpr ⟨_, hget⟩)⟩
      · have hsum := Js.Map.sum_delete (f := stagedSize) hget
        simp only [Maps.total]
        omega
      · have hlength := Js.Map.length_delete hget
        simp only [Maps.size]
        omega
    · simp at hok

theorem Accounted.take_error (h : Accounted others s) {attachment : UploadedFile}
    {message : String} (hok : (s.take attachment).1 = .error message) :
    Accounted others (s.take attachment).2 := by
  unfold UploadStaging.take at hok ⊢
  cases hget : s.maps.staged.get attachment.id with
  | none => exact h
  | some row =>
    simp only [hget] at hok ⊢
    split at hok
    · simp at hok
    · rename_i hmatches
      rw [if_neg hmatches]
      exact h

theorem Accounted.sums_nonneg (h : Accounted others s) :
    0 ≤ (s.maps.pending.values.map pendingSize).sum ∧
      0 ≤ (s.maps.staged.values.map stagedSize).sum := by
  constructor
  · apply List.sum_nonneg
    simpa using h.pending
  · apply List.sum_nonneg
    simpa using h.staged

theorem Accounted.total_nonneg (h : Accounted others s) : 0 ≤ s.maps.total := by
  have hsums := h.sums_nonneg
  simp only [Maps.total]
  omega

theorem Accounted.clear (h : Accounted others s) : Accounted others s.clear := by
  have hbalance := h.balance
  have hcapacity := h.capacity
  have hsums := h.sums_nonneg
  simp only [Maps.total] at hbalance
  refine ⟨?_, ?_, ?_, ?_, ?_⟩
  · simp only [UploadStaging.clear, Maps.total, Js.Map.clear, Js.Map.values, List.map_nil,
      List.sum_nil] at hbalance ⊢
    omega
  · simp only [UploadStaging.clear]
    omega
  · simp [UploadStaging.clear, Maps.size, Js.Map.clear]
  · simp [UploadStaging.clear, Js.Map.clear, Js.Map.values]
  · simp [UploadStaging.clear, Js.Map.clear, Js.Map.values]

end Methods

/-! ### The memory of a process -/

def heldSize (e : Tid × Staged) : Int := stagedSize e.2

/-- The counter is the bytes of all rows and of all held files; the limits hold. -/
structure Balanced (m : Mem) : Prop where
  balance : m.reservedBytes = (m.objects.map Maps.total).sum + (m.held.map heldSize).sum
  capacity : m.reservedBytes ≤ maxTotal
  object : ∀ maps ∈ m.objects,
    Accounted (m.reservedBytes - maps.total) ⟨m.reservedBytes, maps⟩
  held : ∀ e ∈ m.held, 0 ≤ heldSize e

theorem sum_map_set {α : Type} {f : α → Int} {l : List α} {i : Nat} {a b : α}
    (h : l[i]? = some a) : ((l.set i b).map f).sum = (l.map f).sum - f a + f b := by
  induction l generalizing i with
  | nil => simp at h
  | cons c l ih =>
    cases i with
    | zero =>
      simp only [List.getElem?_cons_zero, Option.some.injEq] at h
      subst h
      simp only [List.set_cons_zero, List.map_cons, List.sum_cons]
      omega
    | succ i =>
      have hl := ih (i := i) (by simpa using h)
      simp only [List.set_cons_succ, List.map_cons, List.sum_cons, hl]
      omega

namespace Balanced

variable {m : Mem} {i : Nat} {s s' : UploadStaging}

theorem of_view (hview : m.view i = some s) :
    m.objects[i]? = some s.maps ∧ s.reservedBytes = m.reservedBytes := by
  obtain ⟨maps, hmaps, rfl⟩ := Option.map_eq_some_iff.mp hview
  exact ⟨hmaps, rfl⟩

theorem view (h : Balanced m) (hview : m.view i = some s) :
    Accounted (m.reservedBytes - s.maps.total) s := by
  obtain ⟨hmaps, hreserved⟩ := of_view hview
  have hobject := h.object s.maps (List.mem_of_getElem? hmaps)
  rw [← hreserved] at hobject ⊢
  exact hobject

/-- Another counter for the same rows, within the limit. -/
theorem recount {others others' r r' : Int} {maps : Maps}
    (h : Accounted others ⟨r, maps⟩) (hbalance : r' = maps.total + others')
    (hcapacity : r' ≤ maxTotal) : Accounted others' ⟨r', maps⟩ :=
  ⟨hbalance, hcapacity, h.entries, h.pending, h.staged⟩

/-- One object and the held files change; the counter follows. -/
theorem put (h : Balanced m) (hview : m.view i = some s) {held : List (Tid × Staged)}
    (moved : Int) (hs' : Accounted (m.reservedBytes - s.maps.total + moved) s')
    (hheld : (held.map heldSize).sum = (m.held.map heldSize).sum + moved)
    (hsizes : ∀ e ∈ held, 0 ≤ heldSize e) :
    Balanced { m.put i s' with held := held } := by
  obtain ⟨hmaps, hreserved⟩ := of_view hview
  have hbalance := h.balance
  have hbalance' := hs'.balance
  refine ⟨?_, hs'.capacity, fun maps hmem => ?_, hsizes⟩
  · simp only [Mem.put, sum_map_set hmaps, hheld]
    omega
  · rcases List.mem_or_eq_of_mem_set hmem with hold | rfl
    · refine recount (h.object maps hold) ?_ hs'.capacity
      simp only [Mem.put]
      omega
    · refine recount hs' ?_ hs'.capacity
      simp only [Mem.put]
      omega

theorem put_same (h : Balanced m) (hview : m.view i = some s)
    (hs' : Accounted (m.reservedBytes - s.maps.total) s') : Balanced (m.put i s') :=
  h.put hview 0 (by simpa using hs') (by simp) h.held

theorem construct (h : Balanced m) :
    Balanced { m with objects := m.objects ++ [⟨{}, {}⟩] } := by
  have hbalance := h.balance
  refine ⟨?_, h.capacity, fun maps hmem => ?_, h.held⟩
  · simpa [Maps.total, Js.Map.values] using hbalance
  · rcases List.mem_append.mp hmem with hold | hnew
    · exact h.object maps hold
    · rw [List.mem_singleton.mp hnew]
      exact ⟨by simp [Maps.total, Js.Map.values], h.capacity, by simp [Maps.size, maxEntries],
        by simp [Js.Map.values], by simp [Js.Map.values]⟩

theorem release (h : Balanced m) {t : Tid} {staged : Staged} (hmem : (t, staged) ∈ m.held) :
    Balanced { m with
      reservedBytes := m.reservedBytes - staged.file.size
      held := m.held.erase (t, staged) } := by
  have hbalance := h.balance
  have hcapacity := h.capacity
  have hsize : 0 ≤ staged.file.size := h.held _ hmem
  have hsum : (m.held.map heldSize).sum =
      staged.file.size + ((m.held.erase (t, staged)).map heldSize).sum := by
    have hperm := (List.perm_cons_erase hmem).map heldSize
    rw [hperm.sum_eq]
    rfl
  refine ⟨?_, ?_, fun maps hmaps => ?_, fun e he => h.held e (List.mem_of_mem_erase he)⟩
  · dsimp only
    omega
  · dsimp only
    omega
  · refine recount (h.object maps hmaps) ?_ ?_
    · dsimp only
      omega
    · dsimp only
      omega

theorem fresh : Balanced ⟨0, [], []⟩ := ⟨by simp, by decide, by simp, by simp⟩

end Balanced

/-! ### The system -/

/-- The files a call holds. -/
def heldBy (t : Tid) (w : World sys) : List (Tid × Staged) :=
  (w.mem t.proc).held.filter fun e => e.1 = t

theorem notMem_held_of_heldBy {t : Tid} {w : World sys} (h : heldBy t w = []) :
    ∀ e ∈ (w.mem t.proc).held, e.1 ≠ t := by
  intro e he heq
  have hin : e ∈ heldBy t w := List.mem_filter.mpr ⟨he, by simpa using heq⟩
  simp [h] at hin

/-- The memory of one process, beside the history. -/
structure Kept (p next : Nat) (tr : History) (m : Mem) : Prop where
  balanced : Balanced m
  drawn : ∀ maps ∈ m.objects, ∀ handle row, maps.staged.get handle = some row →
    ∃ uuid t, handle = uploadPrefix ++ uuid ∧ .note t (.uuid uuid) ∈ tr
  holders : ∀ e ∈ m.held, e.1.proc = p ∧ e.1.idx < next
  single : (m.held.map Prod.fst).Nodup

structure Inv (w : World sys) : Prop where
  kept : ∀ p, Kept p w.next w.trace (w.mem p)

theorem Kept.later {p next next' : Nat} {tr tr' : History} {m : Mem} (h : Kept p next tr m)
    (hnext : next ≤ next') (htr : ∀ e ∈ tr, e ∈ tr') : Kept p next' tr' m := by
  refine ⟨h.balanced, fun maps hmaps handle row hrow => ?_, fun e he => ?_, h.single⟩
  · obtain ⟨uuid, t, heq, hmem⟩ := h.drawn maps hmaps handle row hrow
    exact ⟨uuid, t, heq, htr _ hmem⟩
  · obtain ⟨hproc, hlt⟩ := h.holders e he
    exact ⟨hproc, by omega⟩

/-- The process of the thread that acts, and the others. -/
theorem Inv.answered {w : World sys} (hi : Inv w) {t : Tid} {x : Ext} {a : Answer sys x}
    (hm : Kept t.proc w.next (a.notes.map (.note (some t)) ++ w.trace) a.mem) :
    Inv (w.answered t a) := by
  refine ⟨fun p => ?_⟩
  by_cases hp : p = t.proc
  · subst hp
    simpa using hm
  · rw [World.answered_mem_ne hp]
    exact (hi.kept p).later (Nat.le_refl _) fun e he => List.mem_append_right _ he

theorem isSome_of_view {m : Mem} {i : Nat} {s : UploadStaging} (hview : m.view i = some s) :
    s.maps ∈ m.objects := List.mem_of_getElem? (Balanced.of_view hview).1

/-- A method of one object keeps the memory, where it makes handles only of drawn UUIDs. -/
theorem Kept.put {p next : Nat} {tr tr' : History} {m : Mem} (h : Kept p next tr m)
    (htr : ∀ e ∈ tr, e ∈ tr') {i : Nat} {s s' : UploadStaging} (hview : m.view i = some s)
    (hs' : Accounted (m.reservedBytes - s.maps.total) s')
    (hdrawn : ∀ handle row, s'.maps.staged.get handle = some row →
      s.maps.staged.get handle = some row ∨
        ∃ uuid t, handle = uploadPrefix ++ uuid ∧ .note t (.uuid uuid) ∈ tr') :
    Kept p next tr' (m.put i s') := by
  refine ⟨h.balanced.put_same hview hs', fun maps hmaps handle row hrow => ?_, h.holders,
    h.single⟩
  have hold : ∀ maps ∈ m.objects, maps.staged.get handle = some row →
      ∃ uuid t, handle = uploadPrefix ++ uuid ∧ .note t (.uuid uuid) ∈ tr' := by
    intro maps hmaps hrow
    obtain ⟨uuid, t, heq, hmem⟩ := h.drawn maps hmaps handle row hrow
    exact ⟨uuid, t, heq, htr _ hmem⟩
  rcases List.mem_or_eq_of_mem_set hmaps with hmaps | rfl
  · exact hold maps hmaps hrow
  · rcases hdrawn handle row hrow with hrow | hnew
    · exact hold s.maps (isSome_of_view hview) hrow
    · exact hnew

/-! ### The requests -/

section Staged

variable {s : UploadStaging} {handle : String} {row : Staged}

theorem staged_expire {now : Int} (h : (s.expire now).maps.staged.get handle = some row) :
    s.maps.staged.get handle = some row ∧ now < row.expiresAt :=
  (swept _ _ _ s.maps.staged _).get handle row h

theorem staged_beginUpload {now stamp : Int} {request : UploadRequest}
    (h : (s.beginUpload now stamp request).2.maps.staged.get handle = some row) :
    (s.expire now).maps.staged.get handle = some row := by
  rcases opened now stamp request s with ⟨message, hout⟩ | ⟨_, _, _, _, hout⟩
  · rw [hout] at h
    exact h
  · rw [hout] at h
    exact h

/-- A frame stages a file only under the UUID that it draws. -/
theorem staged_binary (place : Place) {now stamp : Int} {uuid : String} {frame : Option Frame}
    (h : (s.binary now stamp uuid frame).2.maps.staged.get handle = some row) :
    (s.expire now).maps.staged.get handle = some row ∨ (handle = uploadPrefix ++ uuid ∧
      .uuid uuid ∈ binaryNotes place stamp uuid frame (s.binary now stamp uuid frame).1) := by
  generalize hout : s.binary now stamp uuid frame = out at h ⊢
  have hreceived := received place now stamp uuid frame s
  rw [hout] at hreceived
  generalize binaryNotes place stamp uuid frame out.1 = notes at hreceived ⊢
  generalize out.2 = s' at hreceived h
  generalize s.expire now = s₀ at hreceived ⊢
  rcases hreceived with _ | _ | _ | _
  · exact .inl h
  · exact .inl h
  · exact .inl h
  · dsimp only at h
    rw [Js.Map.get_set] at h
    split at h
    · rename_i hhandle
      exact .inr ⟨hhandle, by simp⟩
    · exact .inl h

end Staged

theorem notMem_of_fresh {tr : History} {uuid : String} (h : freshUuid tr uuid = true)
    (t : Option Tid) : .note t (.uuid uuid) ∉ tr := by
  intro hmem
  simp only [freshUuid, Bool.not_eq_true', List.any_eq_false] at h
  exact h _ hmem (by simp [isUuidNote])

/-- The request neither consumes a file nor gives its bytes back. -/
def Ext.Quiet : Ext → Prop
  | .take _ _ => False
  | .release _ => False
  | _ => True

section Answers

variable {w : World sys} {t : Tid} {x : Ext} {c : Choice} {a : Answer sys x}

theorem Inv.of_put (hi : Inv w) {i : Nat} {s s' : UploadStaging} {notes : List Note}
    (hview : (w.mem t.proc).view i = some s)
    (hs' : Accounted ((w.mem t.proc).reservedBytes - s.maps.total) s')
    (hdrawn : ∀ handle row, s'.maps.staged.get handle = some row →
      s.maps.staged.get handle = some row ∨
        ∃ uuid, handle = uploadPrefix ++ uuid ∧ .uuid uuid ∈ notes) :
    Kept t.proc w.next (notes.map (.note (some t)) ++ w.trace) ((w.mem t.proc).put i s') := by
  refine (hi.kept t.proc).put (fun e he => List.mem_append_right _ he) hview hs' ?_
  intro handle row hrow
  rcases hdrawn handle row hrow with hold | ⟨uuid, heq, hmem⟩
  · exact .inl hold
  · exact .inr ⟨uuid, some t, heq, List.mem_append_left _ (List.mem_map_of_mem hmem)⟩

theorem Inv.of_same (hi : Inv w) (notes : List Note) :
    Kept t.proc w.next (notes.map (.note (some t)) ++ w.trace) (w.mem t.proc) :=
  (hi.kept t.proc).later (Nat.le_refl _) fun _ he => List.mem_append_right _ he

/-- A new handle is not yet in any object. -/
theorem Inv.handle_new (hi : Inv w) {i : Nat} {s : UploadStaging} {uuid : String}
    (hview : (w.mem t.proc).view i = some s) (hfresh : freshUuid w.trace uuid = true) :
    s.maps.staged.get (uploadPrefix ++ uuid) = none := by
  cases hget : s.maps.staged.get (uploadPrefix ++ uuid) with
  | none => rfl
  | some row =>
    obtain ⟨uuid', u, heq, hmem⟩ :=
      (hi.kept t.proc).drawn s.maps (isSome_of_view hview) _ row hget
    have hsame : uuid = uuid' := by
      have hlists := congrArg String.toList heq
      simp only [String.toList_append] at hlists
      exact String.toList_inj.mp (List.append_cancel_left hlists)
    subst hsame
    exact absurd hmem (notMem_of_fresh hfresh u)

/-- A quiet request keeps the memory and changes no held file. -/
theorem Inv.quiet (hi : Inv w) (hx : x.Quiet) (ha : answer c t x w = some a) :
    a.forks = [] ∧ a.mem.held = (w.mem t.proc).held ∧
      Kept t.proc w.next (a.notes.map (.note (some t)) ++ w.trace) a.mem := by
  cases x with
  | construct =>
    obtain rfl := Option.some.inj ha
    have hold := hi.kept t.proc
    refine ⟨rfl, rfl, hold.balanced.construct, fun maps hmaps handle row hrow => ?_,
      hold.holders, hold.single⟩
    rcases List.mem_append.mp hmaps with hmaps | hnew
    · exact hold.drawn maps hmaps handle row hrow
    · rw [List.mem_singleton.mp hnew] at hrow
      simp at hrow
  | begin object request =>
    obtain ⟨s, hview, rfl⟩ := Option.map_eq_some_iff.mp ha
    have hs := (hi.kept t.proc).balanced.view hview
    refine ⟨rfl, rfl, hi.of_put hview (hs.beginUpload c.now c.stamp request) ?_⟩
    exact fun handle row hrow => .inl (staged_expire (staged_beginUpload hrow)).1
  | binary object frame =>
    simp only [answer] at ha
    split at ha
    · rename_i hfresh
      obtain ⟨s, hview, rfl⟩ := Option.map_eq_some_iff.mp ha
      have hs := (hi.kept t.proc).balanced.view hview
      refine ⟨rfl, rfl, hi.of_put hview
        (hs.binary c.now c.stamp c.uuid frame (hi.handle_new hview hfresh)) ?_⟩
      intro handle row hrow
      rcases staged_binary ⟨t.proc, object⟩ hrow with hold | ⟨heq, hdrawn⟩
      · exact .inl (staged_expire hold).1
      · exact .inr ⟨c.uuid, heq, List.mem_append_left _ hdrawn⟩
    · simp at ha
  | expire object =>
    obtain ⟨s, hview, rfl⟩ := Option.map_eq_some_iff.mp ha
    have hs := (hi.kept t.proc).balanced.view hview
    refine ⟨rfl, rfl, hi.of_put hview (hs.expire c.now) ?_⟩
    exact fun handle row hrow => .inl (staged_expire hrow).1
  | clear object =>
    obtain ⟨s, hview, rfl⟩ := Option.map_eq_some_iff.mp ha
    have hs := (hi.kept t.proc).balanced.view hview
    refine ⟨rfl, rfl, hi.of_put hview hs.clear ?_⟩
    intro handle row hrow
    simp [UploadStaging.clear] at hrow
  | take object attachment => exact hx.elim
  | release staged => exact hx.elim
  | randomUUID =>
    simp only [answer] at ha
    split at ha
    · obtain rfl := Option.some.inj ha
      exact ⟨rfl, rfl, hi.of_same _⟩
    · simp at ha
  | send handle requestId out =>
    obtain rfl := Option.some.inj ha
    exact ⟨rfl, rfl, hi.of_same _⟩
  | validate =>
    obtain rfl := Option.some.inj ha
    exact ⟨rfl, rfl, hi.of_same _⟩
  | close =>
    obtain rfl := Option.some.inj ha
    exact ⟨rfl, rfl, hi.of_same _⟩
  | reply =>
    obtain rfl := Option.some.inj ha
    exact ⟨rfl, rfl, hi.of_same _⟩
  | parse =>
    obtain rfl := Option.some.inj ha
    exact ⟨rfl, rfl, hi.of_same _⟩

end Answers

/-! ### The calls -/

/-- The accounts hold, nobody touches the files another call holds, and a call starts and
    ends with none. -/
def accounting : Protocol machine where
  inv := Inv
  extra t w w' := heldBy t w' = heldBy t w
  extra_refl _ _ := rfl
  extra_trans h h' := h'.trans h
  pre t _ w := heldBy t w = []
  post t _ _ _ w := heldBy t w = []
  err t _ _ _ w := heldBy t w = []

def quietReq : Req sys → Prop
  | .ext x => x.Quiet
  | .store _ => False

section Calls

variable {t : Tid} {w : World sys} {α β : Type}

theorem heldBy_answered {u : Tid} {x : Ext} {a : Answer sys x}
    (h : a.mem.held.filter (fun e => e.1 = u) =
      (w.mem t.proc).held.filter fun e => e.1 = u) :
    heldBy u (w.answered t a) = heldBy u w := by
  by_cases hp : u.proc = t.proc
  · simp only [heldBy, hp, World.answered_mem_self]
    exact h
  · simp only [heldBy]
    rw [World.answered_mem_ne hp]

theorem heldBy_answered_self {x : Ext} {a : Answer sys x} :
    heldBy t (w.answered t a) = a.mem.held.filter fun e => e.1 = t := by
  simp [heldBy]

/-- What an answer without forks owes. -/
theorem pays_answered {x : Ext} {a : Answer sys x} (hforks : a.forks = [])
    (hinv : Inv (w.answered t a))
    (hothers : ∀ u, u ≠ t → a.mem.held.filter (fun e => e.1 = u) =
      (w.mem t.proc).held.filter fun e => e.1 = u) :
    accounting.Pays t w ((w.answered t a).spawnAll t.proc a.forks) := by
  rw [hforks, World.spawnAll_nil]
  refine ⟨hinv, fun u hne _ => heldBy_answered (hothers u hne), ?_⟩
  intro u s hnone hsome
  rw [World.answered_calls, hnone] at hsome
  simp at hsome

/-- A program of quiet requests ends with the files it began with. -/
theorem safe_quiet {p : sys.Task α} (hp : p.Only quietReq) {held : List (Tid × Staged)}
    (hheld : heldBy t w = held) :
    Safe accounting t p (fun _ w' => heldBy t w' = held) (fun _ w' => heldBy t w' = held) w := by
  induction p generalizing w with
  | ret a => exact fun w' hr _ => hr.2.trans hheld
  | fail e => exact fun w' hr _ => hr.2.trans hheld
  | call q k ih =>
    cases q with
    | store q => exact hp.1.elim
    | ext x =>
      refine Safe.ext fun w' hr hi c a ha => ?_
      obtain ⟨hforks, hsame, hkept⟩ := hi.quiet hp.1 ha
      refine ⟨pays_answered hforks (hi.answered hkept) fun u _ => by rw [hsame], ?_⟩
      apply ih a.res (hp.2 a.res)
      rw [hforks, World.spawnAll_nil, heldBy_answered_self, hsame]
      exact hr.2.trans hheld

theorem only_ofExcept {ok : Req sys → Prop} (r : Except Err α) :
    (Prog.ofExcept r : sys.Task α).Only ok := by
  cases r <;> trivial

theorem quiet_exec {x : Ext} (hx : x.Quiet) (h : x.Res = Except Err Unit) :
    (exec x h).Only quietReq := ⟨hx, fun _ => only_ofExcept _⟩

theorem quiet_send (handle requestId : String) (out : Outgoing) :
    (send handle requestId out).Only quietReq :=
  quiet_exec (x := .send handle requestId out) trivial rfl

theorem quiet_sendChunks (handle requestId : String) (checkedBytes : Nat)
    (chunks : List (List UInt8)) :
    (sendChunks handle requestId checkedBytes chunks).Only quietReq := by
  induction chunks generalizing checkedBytes with
  | nil => trivial
  | cons chunk rest ih =>
    unfold sendChunks
    split
    · exact (quiet_exec (x := .validate) trivial rfl).bind fun _ => (quiet_send _ _ _).bind fun _ => ih _
    · exact (quiet_send _ _ _).bind fun _ => ih _

theorem quiet_sendFrames (staged : Staged) (requestId : String) :
    (sendFrames staged requestId).Only quietReq :=
  (quiet_send _ _ _).bind fun _ => (quiet_sendChunks _ _ _ _).bind fun _ =>
    (quiet_exec (x := .validate) trivial rfl).bind fun _ => quiet_send _ _ _

theorem quiet_transfer (staged : Staged) : (transfer staged).Only quietReq := by
  refine (quiet_exec (x := .validate) trivial rfl).bind fun _ => ⟨trivial, fun requestId => ?_⟩
  refine (quiet_send _ _ _).bind fun _ => (quiet_sendFrames _ _).attempt.bind fun result => ?_
  cases result with
  | error e => exact (quiet_exec (x := .close) trivial rfl).bind fun _ => trivial
  | ok _ =>
    refine ⟨trivial, fun reply => (only_ofExcept _).bind fun file => ?_⟩
    cases file <;> trivial

/-- The end of a transfer gives the bytes back, whatever its result. -/
theorem safe_release (staged : Staged) (result : Except Err UploadedFile)
    (hheld : heldBy t w = [(t, staged)]) :
    Safe accounting t (ask (S := sys) (.release staged) >>= fun _ => Prog.ofExcept result)
      (fun _ w' => heldBy t w' = []) (fun _ w' => heldBy t w' = []) w := by
  refine Safe.ext fun w' hr hi c a ha => ?_
  obtain rfl := Option.some.inj ha
  have hheld' : heldBy t w' = [(t, staged)] := hr.2.trans hheld
  have hkept := hi.kept t.proc
  have hmem : (t, staged) ∈ (w'.mem t.proc).held := by
    have hin : (t, staged) ∈ heldBy t w' := by simp [hheld']
    exact List.mem_of_mem_filter hin
  have hothers : ∀ u, ((w'.mem t.proc).held.erase (t, staged)).filter (fun e => e.1 = u) =
      if u = t then [] else (w'.mem t.proc).held.filter fun e => e.1 = u := by
    intro u
    rw [← List.erase_filter]
    split
    · rename_i hu
      subst hu
      have hown : (w'.mem u.proc).held.filter (fun e => e.1 = u) = [(u, staged)] := hheld'
      rw [hown]
      simp
    · rename_i hu
      apply List.erase_of_not_mem
      intro hin
      have hsame : t = u := by simpa using (List.mem_filter.mp hin).2
      exact hu hsame.symm
  let a : Answer sys (.release staged) := ⟨(), [.released staged], { w'.mem t.proc with
    reservedBytes := (w'.mem t.proc).reservedBytes - staged.file.size
    held := (w'.mem t.proc).held.erase (t, staged) }, (), []⟩
  refine ⟨pays_answered (a := a) rfl (hi.answered ?_) fun u hne => ?_, ?_⟩
  · refine ⟨hkept.balanced.release hmem, fun maps hmaps handle row hrow => ?_,
      fun e he => hkept.holders e (List.mem_of_mem_erase he),
      hkept.single.sublist (List.erase_sublist.map Prod.fst)⟩
    obtain ⟨uuid, u, heq, hdrawn⟩ := hkept.drawn maps hmaps handle row hrow
    exact ⟨uuid, u, heq, List.mem_append_right _ hdrawn⟩
  · rw [hothers u, if_neg hne]
  · have hnone : heldBy t (w'.answered t a) = [] := by
      rw [heldBy_answered_self, hothers t, if_pos rfl]
    change Safe accounting t (Prog.ofExcept result) _ _ _
    cases result with
    | ok file => exact Safe.ret fun w'' hr' _ => hr'.2.trans hnone
    | error e => exact Safe.fail fun w'' hr' _ => hr'.2.trans hnone

/-- What an attempt to consume a handle comes to. -/
theorem answer_take {c : Choice} {object : Nat} {attachment : UploadedFile}
    {a : Answer sys (.take object attachment)}
    (ha : answer c t (.take object attachment) w = some a) :
    ∃ s, (w.mem t.proc).view object = some s ∧
      ((∃ message, (s.take attachment).1 = .error message ∧
        a = ⟨(.error (.error message) : Except Err Staged), [],
          (w.mem t.proc).put object (s.take attachment).2, (), []⟩) ∨
      ∃ staged, (s.take attachment).1 = .ok staged ∧
        a = ⟨(.ok staged : Except Err Staged), [.taken ⟨t.proc, object⟩ attachment staged],
          { (w.mem t.proc).put object (s.take attachment).2 with
            held := (t, staged) :: (w.mem t.proc).held }, (), []⟩) := by
  obtain ⟨s, hview, rfl⟩ := Option.map_eq_some_iff.mp ha
  refine ⟨s, hview, ?_⟩
  cases hout : (s.take attachment).1 with
  | error message => exact .inl ⟨message, rfl, by simp [hout, ofMessage]⟩
  | ok staged => exact .inr ⟨staged, rfl, by simp [hout, ofMessage]⟩

theorem staged_take {s : UploadStaging} {attachment : UploadedFile} {handle : String}
    {row : Staged} (h : (s.take attachment).2.maps.staged.get handle = some row) :
    s.maps.staged.get handle = some row := by
  unfold UploadStaging.take at h
  split at h
  · exact h
  · split at h
    · exact Js.Map.get_delete_of_some h
    · exact h

theorem safe_take {object : Nat} {attachment : UploadedFile} {k : Except Err Staged → sys.Task β}
    {Q : β → World sys → Prop} {E : Err → World sys → Prop} (hheld : heldBy t w = [])
    (hlt : t.idx < w.next)
    (hok : ∀ staged w', heldBy t w' = [(t, staged)] → Safe accounting t (k (.ok staged)) Q E w')
    (herr : ∀ e w', heldBy t w' = [] → Safe accounting t (k (.error e)) Q E w') :
    Safe accounting t (.call (.ext (.take object attachment)) k) Q E w := by
  refine Safe.ext fun w' hr hi c a ha => ?_
  have hheld' : heldBy t w' = [] := hr.2.trans hheld
  have hkept := hi.kept t.proc
  obtain ⟨s, hview, ⟨message, hout, rfl⟩ | ⟨staged, hout, rfl⟩⟩ := answer_take (c := c) ha
  · have hs := (hkept.balanced.view hview).take_error hout
    have hput := (hkept.put (fun e he => he) hview hs fun handle row hrow => .inl (staged_take hrow))
    refine ⟨pays_answered rfl (hi.answered hput) fun u _ => rfl, herr _ _ ?_⟩
    rw [World.spawnAll_nil, heldBy_answered_self]
    exact hheld'
  · obtain ⟨hs, hsize⟩ := (hkept.balanced.view hview).take hout
    have hnew := notMem_held_of_heldBy hheld'
    refine ⟨pays_answered rfl (hi.answered ?_) fun u hne => ?_, hok staged _ ?_⟩
    · refine ⟨?_, fun maps hmaps handle row hrow => ?_, fun e he => ?_, ?_⟩
      · apply hkept.balanced.put hview (stagedSize staged) hs
        · simp only [List.map_cons, List.sum_cons, heldSize]
          omega
        · intro e he
          rcases List.mem_cons.mp he with rfl | hold
          · exact hsize
          · exact hkept.balanced.held e hold
      · have hold : ∃ maps' ∈ (w'.mem t.proc).objects, maps'.staged.get handle = some row := by
          rcases List.mem_or_eq_of_mem_set hmaps with hmaps | rfl
          · exact ⟨maps, hmaps, hrow⟩
          · exact ⟨s.maps, isSome_of_view hview, staged_take hrow⟩
        obtain ⟨maps', hmaps', hrow'⟩ := hold
        obtain ⟨uuid, u, heq, hmem⟩ := hkept.drawn maps' hmaps' handle row hrow'
        exact ⟨uuid, u, heq, List.mem_append_right _ hmem⟩
      · rcases List.mem_cons.mp he with rfl | hold
        · exact ⟨rfl, Nat.lt_of_lt_of_le hlt hr.1.next⟩
        · exact hkept.holders e hold
      · simp only [List.map_cons, List.nodup_cons]
        refine ⟨fun hin => ?_, hkept.single⟩
        obtain ⟨e, he, heq⟩ := List.mem_map.mp hin
        exact hnew e he heq
    · simp [hne.symm]
    · rw [World.spawnAll_nil, heldBy_answered_self]
      have hnone : (w'.mem t.proc).held.filter (fun e => e.1 = t) = [] := hheld'
      simp [hnone]

theorem safe_replaceFile (object : Nat) (attachment : UploadedFile) (hheld : heldBy t w = [])
    (hlt : t.idx < w.next) :
    Safe accounting t (replaceFile object attachment)
      (fun _ w' => heldBy t w' = []) (fun _ w' => heldBy t w' = []) w := by
  refine safe_take hheld hlt (fun staged w' hheld' => ?_) fun e w' hnone => ?_
  · change Safe accounting t ((transfer staged).attempt >>= fun result =>
      ask (S := sys) (.release staged) >>= fun _ => Prog.ofExcept result) _ _ _
    have htransfer : Safe accounting t (transfer staged).attempt
        (fun _ w'' => heldBy t w'' = [(t, staged)]) (fun _ w'' => heldBy t w'' = []) w' :=
      Safe.attempt (safe_quiet (quiet_transfer staged) hheld')
    refine Safe.seq htransfer ?_ fun _ _ _ he => he
    exact fun result w'' _ _ hheld'' => safe_release staged result hheld''
  · exact Safe.fail fun w'' hr _ => hr.2.trans hnone

theorem safe_replaceAttachments (object : Nat) (attachments : List Attachment)
    (hheld : heldBy t w = []) (hlt : t.idx < w.next) :
    Safe accounting t (replaceAttachments object attachments)
      (fun _ w' => heldBy t w' = []) (fun _ w' => heldBy t w' = []) w := by
  induction attachments generalizing w with
  | nil => exact Safe.ret fun w' hr _ => hr.2.trans hheld
  | cons attachment rest ih =>
    -- what follows the first attachment
    have hrest : ∀ (f : List Attachment → List Attachment) (w' : World sys),
        heldBy t w' = [] → t.idx < w'.next →
        Safe accounting t (replaceAttachments object rest >>= fun attachments =>
          Prog.ret (f attachments)) (fun _ w'' => heldBy t w'' = [])
          (fun _ w'' => heldBy t w'' = []) w' := by
      intro f w' hnone hlt'
      refine Safe.seq (ih hnone hlt') ?_ fun _ _ _ he => he
      exact fun attachments w'' _ _ hnone' => Safe.ret fun w''' hr _ => hr.2.trans hnone'
    cases attachment with
    | other text => exact hrest (.other text :: ·) w hheld hlt
    | uploaded attachment =>
      refine Safe.seq (safe_replaceFile object attachment hheld hlt) ?_ fun _ _ _ he => he
      intro file w' hl _ hnone
      exact hrest (.uploaded file :: ·) w' hnone (Nat.lt_of_lt_of_le hlt hl.next)

theorem safe_replace (object : Nat) (attachments : List Attachment) (hheld : heldBy t w = [])
    (hlt : t.idx < w.next) :
    Safe accounting t (replace object attachments)
      (fun _ w' => heldBy t w' = []) (fun _ w' => heldBy t w' = []) w := by
  unfold replace
  split
  · exact Safe.ret fun w' hr _ => hr.2.trans hheld
  · have hexpire : (ask (S := sys) (.expire object)).Only quietReq := ⟨trivial, fun _ => trivial⟩
    refine Safe.seq (safe_quiet hexpire hheld) ?_ fun _ _ _ he => he
    intro _ w' hl _ hnone
    refine Safe.seq (safe_replaceAttachments object attachments hnone
      (Nat.lt_of_lt_of_le hlt hl.next)) ?_ fun _ _ _ he => he
    intro replaced w'' _ _ hnone'
    have hparse : (exec .parse rfl >>= fun _ => .ret replaced).Only quietReq :=
      (quiet_exec (x := .parse) trivial rfl).bind fun _ => trivial
    exact safe_quiet hparse hnone'

theorem safe_program (call : Call) (hheld : heldBy t w = []) (hlt : t.idx < w.next) :
    Safe accounting t (program call)
      (fun _ w' => heldBy t w' = []) (fun _ w' => heldBy t w' = []) w := by
  cases call with
  | construct => exact safe_quiet (p := program .construct) ⟨trivial, fun _ => trivial⟩ hheld
  | begin object request =>
    exact safe_quiet (p := program (.begin object request))
      ((quiet_exec (x := .begin object request) trivial rfl).bind fun _ => trivial) hheld
  | binary object frame =>
    exact safe_quiet (p := program (.binary object frame))
      ⟨trivial, fun _ => (only_ofExcept _).bind fun _ => trivial⟩ hheld
  | expire object =>
    exact safe_quiet (p := program (.expire object)) ⟨trivial, fun _ => trivial⟩ hheld
  | clear object =>
    exact safe_quiet (p := program (.clear object)) ⟨trivial, fun _ => trivial⟩ hheld
  | replace object attachments =>
    refine Safe.seq (safe_replace object attachments hheld hlt) ?_ fun _ _ _ he => he
    exact fun replaced w' _ _ hnone => Safe.ret fun w'' hr _ => hr.2.trans hnone

end Calls

theorem Kept.fresh (p next : Nat) (tr : History) : Kept p next tr ⟨0, [], []⟩ :=
  ⟨Balanced.fresh, by simp, by simp, by simp⟩

theorem accounting_sound : accounting.Sound where
  init := ⟨fun p => Kept.fresh p 0 []⟩
  start := by
    intro w p c hi _
    refine ⟨⟨fun q => (hi.kept q).later (Nat.le_succ _) fun _ he => he⟩, fun _ _ => rfl, ?_⟩
    refine List.filter_eq_nil_iff.mpr fun e he heq => ?_
    have hlt := ((hi.kept p).holders e he).2
    have hsame : e.1 = ⟨p, w.next⟩ := by simpa using heq
    rw [hsame] at hlt
    exact Nat.lt_irrefl _ hlt
  crash := by
    intro w p hi
    refine ⟨⟨fun q => ?_⟩, fun u hu => ?_⟩
    · by_cases hq : q = p
      · subst hq
        simpa [Machine.crashed, machine] using Kept.fresh q w.next w.trace
      · simpa [Machine.crashed, hq] using hi.kept q
    · change heldBy u (machine.crashed p w) = heldBy u w
      simp [heldBy, Machine.crashed, hu]
  env := fun {_ e} => e.elim
  body := by
    intro w t c _ hpre _ hlt _
    exact safe_program c hpre hlt

end PaseoGateway.Uploads
