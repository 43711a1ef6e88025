/-
  PaseoGateway/Volume.lean
  ========================
  **A file system volume as the log of its effects.**

  A volume that several processes share is kept as what happened to its files,
  newest effect first, and a file's contents are read off that log (`read`).  A
  request either succeeds or reports an error code; a request that failed may have
  taken effect all the same, and a write that failed may have left anything in the
  file it was writing.

  What exclusive creation rests on: once a file is there and nothing renames or
  unlinks it, no further `openNew` of its path succeeds (`exists_of_kept`).
-/
import Mathlib

namespace PaseoGateway.Volume

/-- One effect on the files of a volume. -/
inductive Effect (π χ : Type) where
  | put (path : π) (content : χ)
  | rename (src dst : π)
  | unlink (path : π)
deriving DecidableEq, Repr

/-- The requests to a volume that depend on its files. -/
inductive Op (π χ : Type) where
  /-- read a whole file -/
  | readFile (path : π)
  /-- `O_CREAT | O_EXCL`: create an empty file, refused when the path is taken -/
  | openNew (path : π) (empty : χ)
  /-- write through the handle of a file that was opened under `path` -/
  | writeFile (path : π) (content : χ)
  /-- write a file by its path, creating it where there is none -/
  | overwrite (path : π) (content : χ)
  | rename (src dst : π)
  | unlink (path : π)

abbrev Op.Ans {π χ : Type} : Op π χ → Type
  | .readFile _ => χ
  | _ => Unit

/-- What the file system decides about one request. -/
structure Fate (χ : Type) where
  /-- the code of the error it reports -/
  error : Option String := none
  /-- a request that fails takes effect nevertheless -/
  effect : Bool := false
  /-- what a write that fails leaves in the file -/
  torn : Option χ := none

section Log

variable {π χ : Type} [DecidableEq π]

/-- The contents of a file. -/
def read (path : π) : List (Effect π χ) → Option χ
  | [] => none
  | .put p c :: older => if p = path then some c else read path older
  | .rename s d :: older =>
    if d = path then read s older else if s = path then none else read path older
  | .unlink p :: older => if p = path then none else read path older

@[simp] theorem read_nil (path : π) : read path ([] : List (Effect π χ)) = none := rfl

@[simp] theorem read_put_self (path : π) (c : χ) (log : List (Effect π χ)) :
    read path (.put path c :: log) = some c := by simp [read]

theorem read_put_ne {p path : π} (h : p ≠ path) (c : χ) (log : List (Effect π χ)) :
    read path (.put p c :: log) = read path log := by simp [read, h]

@[simp] theorem read_rename_dst (src dst : π) (log : List (Effect π χ)) :
    read dst (.rename src dst :: log) = read src log := by simp [read]

theorem read_rename_ne {src dst path : π} (hs : src ≠ path) (hd : dst ≠ path)
    (log : List (Effect π χ)) : read path (.rename src dst :: log) = read path log := by
  simp [read, hs, hd]

theorem read_unlink_ne {p path : π} (h : p ≠ path) (log : List (Effect π χ)) :
    read path (.unlink p :: log) = read path log := by simp [read, h]

/-! ### Effects that leave a file alone -/

/-- The paths an effect changes. -/
def Effect.touches : Effect π χ → List π
  | .put p _ => [p]
  | .rename s d => [s, d]
  | .unlink p => [p]

theorem read_of_not_touched {e : Effect π χ} {path : π} (h : path ∉ e.touches)
    (log : List (Effect π χ)) : read path (e :: log) = read path log := by
  cases e with
  | put p c =>
    simp only [Effect.touches, List.mem_singleton] at h
    exact read_put_ne (Ne.symm h) c log
  | rename s d =>
    simp only [Effect.touches, List.mem_cons, List.not_mem_nil, or_false, not_or] at h
    exact read_rename_ne (Ne.symm h.1) (Ne.symm h.2) log
  | unlink p =>
    simp only [Effect.touches, List.mem_singleton] at h
    exact read_unlink_ne (Ne.symm h) log

/-- The effect does not take `path` away, nor put anything there that was not a file. -/
def Effect.Keeps (path : π) (log : List (Effect π χ)) : Effect π χ → Prop
  | .put _ _ => True
  | .rename s d => s ≠ path ∧ (d = path → (read s log).isSome)
  | .unlink p => p ≠ path

theorem exists_of_kept {e : Effect π χ} {path : π} {log : List (Effect π χ)}
    (hkeeps : e.Keeps path log) (h : (read path log).isSome) :
    (read path (e :: log)).isSome := by
  cases e with
  | put p c =>
    by_cases hp : p = path
    · subst hp
      simp
    · rw [read_put_ne hp]
      exact h
  | rename s d =>
    obtain ⟨hs, hd⟩ := hkeeps
    by_cases hdp : d = path
    · subst hdp
      simpa using hd rfl
    · rw [read_rename_ne hs hdp]
      exact h
  | unlink p =>
    rw [read_unlink_ne hkeeps]
    exact h

/-! ### Serving a request -/

/-- Whether the path names a file. -/
def present (path : π) (log : List (Effect π χ)) : Bool := (read path log).isSome

/-- The answer to a request and the effects it has, newest first.  An existing file
    is never reported missing and a missing one never read. -/
def serve (f : Fate χ) (log : List (Effect π χ)) :
    (op : Op π χ) → Option (Except String op.Ans × List (Effect π χ))
  | .readFile path =>
    match read path log, f.error with
    | some content, none => some (.ok content, [])
    | some _, some code => if code = "ENOENT" then none else some (.error code, [])
    | none, code => some (.error (code.getD "ENOENT"), [])
  | .openNew path empty =>
    match read path log, f.error with
    | some _, code => some (.error (code.getD "EEXIST"), [])
    | none, none => some (.ok (), [.put path empty])
    | none, some code => some (.error code, if f.effect then [.put path empty] else [])
  | .writeFile path content =>
    match f.error with
    | none => some (.ok (), if present path log then [.put path content] else [])
    | some code => some (.error code,
        if present path log then (f.torn.map (Effect.put path)).toList else [])
  | .overwrite path content =>
    match f.error with
    | none => some (.ok (), [.put path content])
    | some code => some (.error code, (f.torn.map (Effect.put path)).toList)
  | .rename src dst =>
    match read src log, f.error with
    | none, code => some (.error (code.getD "ENOENT"), [])
    | some _, none => some (.ok (), [.rename src dst])
    | some _, some code => some (.error code, if f.effect then [.rename src dst] else [])
  | .unlink path =>
    match read path log, f.error with
    | none, code => some (.error (code.getD "ENOENT"), [])
    | some _, none => some (.ok (), [.unlink path])
    | some _, some code => some (.error code, if f.effect then [.unlink path] else [])

variable {f : Fate χ} {log effects : List (Effect π χ)}

/-- The paths a request may change. -/
def Op.paths : Op π χ → List π
  | .readFile _ => []
  | .openNew path _ | .writeFile path _ | .overwrite path _ | .unlink path => [path]
  | .rename src dst => [src, dst]

theorem serve_readFile {path : π} {r : Except String χ}
    (h : serve f log (.readFile path) = some (r, effects)) :
    effects = [] ∧ ∀ content, r = .ok content → read path log = some content := by
  simp only [serve] at h
  split at h
  · rename_i content hread _
    cases h
    refine ⟨rfl, ?_⟩
    rintro _ ⟨⟩
    exact hread
  · split at h
    · cases h
    · cases h
      exact ⟨rfl, fun _ hr => nomatch hr⟩
  · cases h
    exact ⟨rfl, fun _ hr => nomatch hr⟩

/-- Only a file that is not there is reported missing. -/
theorem serve_readFile_missing {path : π}
    (h : serve f log (.readFile path) = some (.error "ENOENT", effects)) :
    read path log = none := by
  simp only [serve] at h
  split at h
  · cases h
  · rename_i code _ _
    by_cases hcode : code = "ENOENT"
    · rw [if_pos hcode] at h
      cases h
    · rw [if_neg hcode] at h
      cases h
      exact absurd rfl hcode
  · rename_i hread
    exact hread

/-- An exclusive creation has an effect only where there was no file. -/
theorem serve_openNew {path : π} {empty : χ} {r : Except String Unit}
    (h : serve f log (.openNew path empty) = some (r, effects)) :
    (effects = [] ∧ r ≠ .ok ()) ∨ (read path log = none ∧ effects = [.put path empty]) := by
  simp only [serve] at h
  split at h
  · cases h
    exact .inl ⟨rfl, nofun⟩
  · rename_i hread _
    cases h
    exact .inr ⟨hread, rfl⟩
  · rename_i hread _
    cases h
    by_cases he : f.effect = true
    · rw [if_pos he]
      exact .inr ⟨hread, rfl⟩
    · rw [if_neg he]
      exact .inl ⟨rfl, nofun⟩

/-- A write has at most the effect of changing the file it writes. -/
theorem serve_writeFile {path : π} {content : χ} {r : Except String Unit}
    (h : serve f log (.writeFile path content) = some (r, effects)) :
    effects = [] ∨ ∃ c, effects = [.put path c] ∧ (r = .ok () → c = content) := by
  simp only [serve] at h
  split at h
  · cases h
    by_cases hp : present path log = true
    · rw [if_pos hp]
      exact .inr ⟨content, rfl, fun _ => rfl⟩
    · rw [if_neg hp]
      exact .inl rfl
  · cases h
    by_cases hp : present path log = true
    · rw [if_pos hp]
      cases f.torn with
      | none => exact .inl rfl
      | some c => exact .inr ⟨c, rfl, nofun⟩
    · rw [if_neg hp]
      exact .inl rfl

/-- A write that succeeds has changed the file, if it is still there. -/
theorem serve_writeFile_ok {path : π} {content : χ}
    (h : serve f log (.writeFile path content) = some (.ok (), effects))
    (hthere : present path log = true) : effects = [.put path content] := by
  simp only [serve] at h
  split at h
  · cases h
    rw [if_pos hthere]
  · cases h

theorem serve_overwrite {path : π} {content : χ} {r : Except String Unit}
    (h : serve f log (.overwrite path content) = some (r, effects)) :
    effects = [] ∨ ∃ c, effects = [.put path c] ∧ (r = .ok () → c = content) := by
  simp only [serve] at h
  split at h
  · cases h
    exact .inr ⟨content, rfl, fun _ => rfl⟩
  · cases h
    cases f.torn with
    | none => exact .inl rfl
    | some c => exact .inr ⟨c, rfl, nofun⟩

theorem serve_rename {src dst : π} {r : Except String Unit}
    (h : serve f log (.rename src dst) = some (r, effects)) :
    (effects = [] ∧ r ≠ .ok ()) ∨
      ((read src log).isSome ∧ effects = [.rename src dst]) := by
  simp only [serve] at h
  split at h
  · cases h
    exact .inl ⟨rfl, nofun⟩
  · rename_i hread _
    cases h
    exact .inr ⟨by simp [hread], rfl⟩
  · rename_i hread _
    cases h
    by_cases he : f.effect = true
    · rw [if_pos he]
      exact .inr ⟨by simp [hread], rfl⟩
    · rw [if_neg he]
      exact .inl ⟨rfl, nofun⟩

theorem serve_unlink {path : π} {r : Except String Unit}
    (h : serve f log (.unlink path) = some (r, effects)) :
    effects = [] ∨ effects = [.unlink path] := by
  simp only [serve] at h
  split at h
  · cases h
    exact .inl rfl
  · cases h
    exact .inr rfl
  · cases h
    by_cases he : f.effect = true
    · rw [if_pos he]
      exact .inr rfl
    · rw [if_neg he]
      exact .inl rfl

/-- A request changes the files it names at most. -/
theorem serve_touches {op : Op π χ} {r : Except String op.Ans}
    (h : serve f log op = some (r, effects)) {e : Effect π χ} (he : e ∈ effects) :
    e.touches = op.paths := by
  cases op with
  | readFile path =>
    rw [(serve_readFile h).1] at he
    cases he
  | openNew path empty =>
    rcases serve_openNew h with ⟨rfl, -⟩ | ⟨-, rfl⟩
    · cases he
    · rw [List.mem_singleton.mp he]
      rfl
  | writeFile path content =>
    rcases serve_writeFile h with rfl | ⟨c, rfl, -⟩
    · cases he
    · rw [List.mem_singleton.mp he]
      rfl
  | overwrite path content =>
    rcases serve_overwrite h with rfl | ⟨c, rfl, -⟩
    · cases he
    · rw [List.mem_singleton.mp he]
      rfl
  | rename src dst =>
    rcases serve_rename h with ⟨rfl, -⟩ | ⟨-, rfl⟩
    · cases he
    · rw [List.mem_singleton.mp he]
      rfl
  | unlink path =>
    rcases serve_unlink h with rfl | rfl
    · cases he
    · rw [List.mem_singleton.mp he]
      rfl

end Log

end PaseoGateway.Volume
