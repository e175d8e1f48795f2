import Mathlib.Data.List.Basic
import Mathlib.Logic.Function.Basic

/-! A file that is written under another name first, and then takes the place of the old one. -/

namespace Files

/-- The bytes of a file after a write at some place in it; a gap in front of it has zeros. -/
def overwrite (old : List UInt8) (offset : Nat) (bytes : List UInt8) : List UInt8 :=
  old.take offset ++ List.replicate (offset - old.length) 0 ++ bytes ++
    old.drop (offset + bytes.length)

/-- Files by their numbers, and the two names that they have. -/
structure Folder where
  contents : Nat → List UInt8
  main : Option Nat
  temp : Option Nat
  /-- From here on the numbers are free. -/
  fresh : Nat
  mainUsed : ∀ file ∈ main, file < fresh
  tempUsed : ∀ file ∈ temp, file < fresh
  /-- No file has both names. -/
  apart : ∀ file ∈ main, file ∉ temp

namespace Folder

/-- What is read under the main name. -/
def read (folder : Folder) : Option (List UInt8) := folder.main.map folder.contents

/-- Open a file under the other name: an old one is emptied, otherwise there is a new one. -/
def create (folder : Folder) : Nat × Folder :=
  match found : folder.temp with
  | some file => (file, { folder with
      contents := Function.update folder.contents file []
      temp := some file
      tempUsed := found ▸ folder.tempUsed
      apart := found ▸ folder.apart })
  | none => (folder.fresh,
      { contents := Function.update folder.contents folder.fresh []
        main := folder.main
        temp := some folder.fresh
        fresh := folder.fresh + 1
        mainUsed := fun file named => Nat.lt_succ_of_lt (folder.mainUsed file named)
        tempUsed := fun file named => by cases named; exact Nat.lt_succ_self _
        apart := fun file named other => by
          cases other
          exact Nat.lt_irrefl _ (folder.mainUsed _ named) })

/-- Write into a file that is open. -/
def write (folder : Folder) (file offset : Nat) (bytes : List UInt8) : Folder :=
  { folder with
    contents := Function.update folder.contents file
      (overwrite (folder.contents file) offset bytes) }

/-- The file under the other name gets the main one, which its old file loses. -/
def rename (folder : Folder) : Option Folder :=
  match found : folder.temp with
  | none => none
  | some file => some { folder with
      main := some file
      temp := none
      mainUsed := fun other named => folder.tempUsed other (by rw [found]; exact named)
      tempUsed := fun _ named => by cases named
      apart := fun _ _ named => by cases named }

variable {folder : Folder} {file : Nat}

/-- A file that goes on where it has ended gets longer. -/
theorem overwrite_end (front rest : List UInt8) :
    overwrite front front.length rest = front ++ rest := by
  simp [overwrite]

/-- So does what is written piece by piece. -/
theorem overwrite_take (bytes : List UInt8) {written count : Nat}
    (inside : written ≤ bytes.length) :
    overwrite (bytes.take written) written ((bytes.drop written).take count) =
      bytes.take (written + count) := by
  have length : (bytes.take written).length = written := by simp [inside]
  have ended := overwrite_end (bytes.take written) ((bytes.drop written).take count)
  rw [length] at ended
  -- There is no gap, and nothing behind.
  rw [ended, List.take_add]

/-- What has not the other name is as it was, and does not get it. -/
structure Spares (before after : Folder) : Prop where
  used : before.fresh ≤ after.fresh
  contents : ∀ file < before.fresh, file ∉ before.temp → after.contents file = before.contents file
  temp : ∀ file < before.fresh, file ∉ before.temp → file ∉ after.temp

/-- If nothing happens, nothing changes. -/
theorem Spares.refl (folder : Folder) : Spares folder folder :=
  ⟨Nat.le_refl _, fun _ _ _ => rfl, fun _ _ => id⟩

/-- What is read under the main name is the same, as long as it is the same file. -/
theorem Spares.read {before after : Folder} (spares : Spares before after)
    (same : after.main = before.main) : after.read = before.read := by
  rw [Folder.read, Folder.read, same]
  -- The main file is in use, and it is none of the temporary ones.
  cases main : before.main with
  | none => rfl
  | some file =>
    have named : file ∈ before.main := main
    rw [Option.map_some, Option.map_some,
      spares.contents file (before.mainUsed file named) (before.apart file named)]

/-- A file that is opened is empty, and has the other name only. -/
theorem create_spec (folder : Folder) :
    (folder.create).2.contents (folder.create).1 = [] ∧
      (folder.create).2.temp = some (folder.create).1 ∧
      (folder.create).2.main = folder.main ∧ Spares folder (folder.create).2 := by
  unfold create
  split
  · rename_i file found
    refine ⟨Function.update_self .., rfl, rfl, Nat.le_refl _, fun other _ away => ?_,
      fun other _ away => ?_⟩
    · have ne : other ≠ file := fun same => away (by rw [found, same]; rfl)
      exact Function.update_of_ne ne ..
    · -- It is the old file, under the name that it has had.
      exact fun named => away (by rw [found]; exact named)
  · refine ⟨Function.update_self .., rfl, rfl, Nat.le_succ _, fun other used _ => ?_,
      fun other used _ named => ?_⟩
    · exact Function.update_of_ne (Nat.ne_of_lt used) ..
    · -- The new file has a number that no other one has.
      cases named
      exact Nat.lt_irrefl _ used

/-- What was written into is found changed. -/
@[simp] theorem write_contents (folder : Folder) (file offset : Nat) (bytes : List UInt8) :
    (folder.write file offset bytes).contents file =
      overwrite (folder.contents file) offset bytes :=
  Function.update_self ..

/-- A write into the file under the other name spares all others. -/
theorem write_spares (named : folder.temp = some file) (offset : Nat) (bytes : List UInt8) :
    Spares folder (folder.write file offset bytes) := by
  refine ⟨Nat.le_refl _, fun other _ away => ?_, fun _ _ => id⟩
  have ne : other ≠ file := fun same => away (by rw [named, same]; rfl)
  exact Function.update_of_ne ne ..

/-- What was under the other name is under the main one after it was renamed. -/
theorem rename_eq_some {after : Folder} (renamed : folder.rename = some after) :
    ∃ file, folder.temp = some file ∧ after.read = some (folder.contents file) ∧
      Spares folder after := by
  unfold rename at renamed
  split at renamed
  · cases renamed
  · rename_i file found
    cases renamed
    exact ⟨file, found, rfl, Nat.le_refl _, fun _ _ _ => rfl, fun _ _ _ => nofun⟩

end Folder

end Files
