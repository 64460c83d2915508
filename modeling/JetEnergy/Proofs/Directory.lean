import Mathlib
import JetEnergy.Directory

/-!
  Directories after a write.

  * `file?_put`: a file under a path is there, and all others are as before.
  * `walk_put`: a name that led to the path still does, because the way there
    goes through directories only, and they stay directories.
  * `Directory.Rewritten` says what a write leaves behind, and
    `rewritten_of_write` that it does.
-/
namespace JetEnergy.Directory

/-! ## Files under paths -/

section
variable {d : Directory} {path : Path} {bytes : List UInt8}

theorem lookup_replace (files : List (Path × List UInt8)) (other : Path) :
    (files.map fun (p, old) => if p = path then (p, bytes) else (p, old)).lookup other =
      if other = path then (files.lookup other).map fun _ => bytes else files.lookup other := by
  induction files with
  | nil => simp
  | cons file files ih =>
    obtain ⟨p, old⟩ := file
    by_cases hp : other = p
    · subst hp
      by_cases hpath : other = path
      · simp [hpath]
      · simp [hpath]
    · have hne : (other == p) = false := beq_false_of_ne hp
      by_cases hpath : p = path
      · simpa [hpath ▸ hne, List.lookup_cons, hpath] using ih
      · simpa [hne, List.lookup_cons, hpath] using ih

theorem file?_put (other : Path) :
    (d.put path bytes).file? other = if other = path then some bytes else d.file? other := by
  rw [put]
  split
  · next hfile =>
    obtain ⟨old, hold⟩ := Option.isSome_iff_exists.1 hfile
    refine (lookup_replace d.files other).trans ?_
    by_cases hother : other = path
    · rw [if_pos hother, if_pos hother, hother]
      exact congrArg (Option.map fun _ => bytes) hold
    · rw [if_neg hother, if_neg hother]
      rfl
  · next hfile =>
    have hnone : d.files.lookup path = none := Option.not_isSome_iff_eq_none.1 hfile
    rw [file?, List.lookup_append]
    by_cases hother : other = path
    · simp [hother, hnone]
    · have hne : (other == path) = false := beq_false_of_ne hother
      simp [file?, List.lookup_cons, hne, hother]

theorem folders_put : (d.put path bytes).folders = d.folders := by
  rw [put]
  split <;> rfl

theorem exists_mem_files_put {other : Path} {old : List UInt8} (h : (other, old) ∈ d.files) :
    ∃ now, (other, now) ∈ (d.put path bytes).files := by
  rw [put]
  split
  · refine ⟨if other = path then bytes else old, List.mem_map.2 ⟨(other, old), h, ?_⟩⟩
    dsimp only
    split <;> rfl
  · exact ⟨old, List.mem_append_left _ h⟩

/-- A directory stays one, whatever is written. -/
theorem isDirectory_put {other : Path} (h : d.isDirectory other = true) :
    (d.put path bytes).isDirectory other = true := by
  simp only [isDirectory, Bool.or_eq_true, List.any_eq_true, folders_put] at h ⊢
  rcases h with h | ⟨⟨below, old⟩, hbelow, hinside⟩
  · exact Or.inl h
  · obtain ⟨now, hnow⟩ := exists_mem_files_put hbelow
    exact Or.inr ⟨(below, now), hnow, hinside⟩

theorem place_eq_folder_iff {other : Path} :
    d.place other = .folder ↔ d.file? other = none ∧ d.isDirectory other = true := by
  rw [place]
  cases d.file? other with
  | some bytes => simp
  | none =>
    dsimp only
    split
    · next hdirectory => simp [hdirectory]
    · next hdirectory => split <;> simp [hdirectory]

theorem place_put_of_folder {other : Path} (hne : other ≠ path) (h : d.place other = .folder) :
    (d.put path bytes).place other = .folder := by
  obtain ⟨hfile, hdirectory⟩ := place_eq_folder_iff.1 h
  refine place_eq_folder_iff.2 ⟨?_, isDirectory_put hdirectory⟩
  rw [file?_put, if_neg hne, hfile]

/-- The way to a file goes through directories, which a write to it leaves alone. -/
theorem walk_put (hpath : d.place path ≠ .folder) {start : Path} {steps : List String}
    (h : d.walk start steps = .ok path) : (d.put path bytes).walk start steps = .ok path := by
  induction steps generalizing start with
  | nil => exact h
  | cons step steps ih =>
    rw [walk] at h
    cases hplace : d.place start with
    | folder =>
      rw [hplace] at h
      have hne : start ≠ path := by
        rintro rfl
        exact hpath hplace
      rw [walk, place_put_of_folder hne hplace]
      exact ih h
    | file _ | nothing | nowhere => rw [hplace] at h; cases h

theorem find_put (hpath : d.place path ≠ .folder) {name : String} (h : d.find name = .ok path) :
    (d.put path bytes).find name = .ok path := by
  rw [find] at h ⊢
  split at h
  · cases h
  · split at h
    · cases h
    · split at h
      · cases h
      · next hnul hempty hlong =>
        rw [if_neg hnul, if_neg hempty, if_neg hlong]
        exact walk_put hpath h

end

/-! ## Writing under a name -/

/-- What a write leaves behind: a file with the bytes at the end of the name, and
    everything else as it was. -/
structure Rewritten (d : Directory) (name : String) (bytes : List UInt8) (after : Directory) :
    Prop where
  read_eq : after.read name = .ok bytes
  folders_eq : after.folders = d.folders
  file?_eq : ∃ path, d.find name = .ok path ∧ ∀ other, other ≠ path →
    after.file? other = d.file? other

theorem rewritten_of_write {d after : Directory} {name : String} {bytes : List UInt8}
    (h : d.write name bytes = .ok after) : d.Rewritten name bytes after := by
  rw [write] at h
  cases hfind : d.find name with
  | error e => rw [hfind] at h; cases h
  | ok path =>
    rw [hfind] at h
    dsimp only at h
    split at h
    · cases h
    · next hname =>
      obtain ⟨hpath, rfl⟩ : d.place path ≠ .folder ∧ d.put path bytes = after := by
        cases hplace : d.place path with
        | file _ | nothing => rw [hplace] at h; cases h; exact ⟨nofun, rfl⟩
        | folder | nowhere => rw [hplace] at h; cases h
      refine ⟨?_, folders_put, path, hfind, fun other hne => ?_⟩
      · have hplace : (d.put path bytes).place path = .file bytes := by
          rw [place, file?_put, if_pos rfl]
        rw [read, find_put hpath hfind]
        dsimp only
        rw [hplace]
        exact if_neg hname
      · rw [file?_put, if_neg hne]

end JetEnergy.Directory
