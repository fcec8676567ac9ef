/-
  Util/RollLog.lean --- `RollLog` of `util/util_log.cpp`: a log in a chain of files.

  The log directory is part of the state.  All file operations succeed, but `remove` and
  `rename` of a file that is not there do nothing; nobody else touches the files.  The
  recursion of `prepareLogFile` is counted, and `none` says that it is still running.
-/
import StormNet.Util.UtilText

set_option autoImplicit false

namespace StormNet.Util

open Function (update update_self update_of_ne)
open UtilString (decimal decimal_injective decimal_ne_nil)

/-! ## The source -/

/-- The files of the log directory, with their contents. -/
abbrev Files := Str → Option Str

namespace UtilFile

def removeFile (files : Files) (sPath : Str) : Files := update files sPath none

def moveFile (files : Files) (sPathFrom sPathTo : Str) : Files :=
  match files sPathFrom with
  | none => files
  | some content => update (update files sPathFrom none) sPathTo (some content)

end UtilFile

namespace UtilString

/-- `parseHumanReadableSize`. -/
def parseHumanReadableSize (s : Str) : UInt64 :=
  match s.getLast? with
  | none => 0
  | some c =>
      let iSize := UInt64.ofNat (strtoull s)
      if c = 'k' ∨ c = 'K' then iSize * 1024
      else if c = 'm' ∨ c = 'M' then iSize * (1024 * 1024)
      else if c = 'g' ∨ c = 'G' then iSize * (1024 * 1024 * 1024)
      else iSize

end UtilString

/-- `LogBase` and `RollLog`, with the log directory. -/
structure RollLog where
  /-- `m_fullFileName` -/
  fullFileName : Str
  /-- `m_fileSize` -/
  fileSize : UInt64
  /-- `m_openTime` -/
  openTime : UInt32
  /-- `m_lastTime` -/
  lastTime : UInt32
  /-- `m_fp`: the name of the file it is open on -/
  fp : Option Str
  /-- `m_maxFile` -/
  maxFile : UInt32
  /-- `m_maxSize` -/
  maxSize : UInt64
  files : Files

/-- `getRollLogFileName`. -/
def rollLogFileName (logFullName : Str) (index : Nat) : Str :=
  if index = 0 then logFullName ++ ".log".toList
  else logFullName ++ decimal index ++ ".log".toList

/-- The loop of renames with `n` turns left; the next one moves file `n - 1`. -/
def shiftFiles (logFullName : Str) : Nat → Files → Files
  | 0, files => files
  | n + 1, files => shiftFiles logFullName n (UtilFile.moveFile files
      (rollLogFileName logFullName n) (rollLogFileName logFullName (n + 1)))

namespace RollLog

/-- The constructors, with the defaults `g_maxFileNum` and `g_maxFileSize`. -/
def new (path fileNamePrefix fileName : Str) (files : Files) : RollLog where
  fullFileName :=
    let path := if path = [] then ['.'] else path
    if fileName = [] then path ++ ['/'] ++ fileNamePrefix
    else path ++ ['/'] ++ fileNamePrefix ++ ['_'] ++ fileName
  fileSize := 0
  openTime := 0
  lastTime := 0
  fp := none
  maxFile := 10
  maxSize := 100 * 1024 * 1024
  files := files

/-- `setInfo`. -/
def setInfo (l : RollLog) (maxFileNum : UInt32) (maxFileSize : UInt64) : RollLog :=
  { l with maxFile := maxFileNum, maxSize := maxFileSize }

/-- The file with the index. -/
def file (l : RollLog) (index : Nat) : Option Str :=
  l.files (rollLogFileName l.fullFileName index)

/-- `fseeko` to the end and `ftello`, behind `fopen` in mode `a+` on file 0. -/
def sizeOnDisk (l : RollLog) : UInt64 := UInt64.ofNat ((l.file 0).getD []).length

/-- File 0 is opened, for the first time or again. -/
def Reopens (l : RollLog) (logTime : UInt32) : Prop :=
  l.fp = none ∨ logTime - 10 > l.openTime

instance (l : RollLog) (logTime : UInt32) : Decidable (l.Reopens logTime) := instDecidableOr

/-- The part of `prepareLogFile` in front of the test of the size. -/
def reopen (l : RollLog) (logTime : UInt32) : RollLog :=
  if l.Reopens logTime then
    let fileName := rollLogFileName l.fullFileName 0
    { l with
      openTime := logTime
      fp := some fileName
      fileSize := l.sizeOnDisk
      files := update l.files fileName (some ((l.file 0).getD [])) }
  else l

/-- The turns of the loop of renames: the `int` that starts at `m_maxFile - 2` may be
negative. -/
def turns (maxFile : UInt32) : Nat :=
  if maxFile - 2 < 0x80000000 then (maxFile - 2).toNat + 1 else 0

/-- The part between the test and the recursive call. -/
def roll (l : RollLog) : RollLog :=
  let removed := UtilFile.removeFile l.files
    (rollLogFileName l.fullFileName (l.maxFile - 1).toNat)
  { l with fp := none, files := shiftFiles l.fullFileName (turns l.maxFile) removed }

/-- `prepareLogFile`, down to `fuel` calls. -/
def prepareLogFile : Nat → UInt32 → RollLog → Option RollLog
  | 0, _, _ => none
  | fuel + 1, logTime, l =>
      let l := l.reopen logTime
      if l.fileSize < l.maxSize then some l else prepareLogFile fuel logTime l.roll

/-- `fwrite` of the content. -/
def append (l : RollLog) (content : Str) : RollLog :=
  match l.fp with
  | none => l
  | some name =>
      { l with
        files := update l.files name (some ((l.files name).getD [] ++ content))
        fileSize := l.fileSize + UInt64.ofNat content.length }

/-- `writeLog`. -/
def writeLog (fuel : Nat) (l : RollLog) (logTime : UInt32) (content : Str) : Option RollLog :=
  (l.prepareLogFile fuel logTime).map fun l => { l.append content with lastTime := logTime }

/-- The recursion ends. -/
def Ends (l : RollLog) (logTime : UInt32) : Prop :=
  ∃ fuel, (l.prepareLogFile fuel logTime).isSome

end RollLog

/-! ## Names -/

section Names

variable {full : Str} {i j n k : Nat} {files : Files}

theorem rollLogFileName_injective (full : Str) : Function.Injective (rollLogFileName full) := by
  intro i j h
  unfold rollLogFileName at h
  split at h
  · rename_i hi
    split at h
    · rename_i hj
      rw [hi, hj]
    · rw [List.append_assoc, List.append_cancel_left_eq, List.self_eq_append_left] at h
      exact absurd h (decimal_ne_nil j)
  · split at h
    · rw [List.append_assoc, List.append_cancel_left_eq, List.append_left_eq_self] at h
      exact absurd h (decimal_ne_nil i)
    · rw [List.append_assoc, List.append_assoc, List.append_cancel_left_eq,
        List.append_cancel_right_eq] at h
      exact decimal_injective h

theorem name_ne (h : i ≠ j) : rollLogFileName full i ≠ rollLogFileName full j :=
  fun heq => h (rollLogFileName_injective full heq)

/-- What a rename to a free name does to the chain. -/
theorem moveFile_name (hfree : files (rollLogFileName full (n + 1)) = none) (k : Nat) :
    UtilFile.moveFile files (rollLogFileName full n) (rollLogFileName full (n + 1))
      (rollLogFileName full k) =
      if k = n + 1 then files (rollLogFileName full n)
      else if k = n then none else files (rollLogFileName full k) := by
  unfold UtilFile.moveFile
  cases hfrom : files (rollLogFileName full n) with
  | none =>
    simp only
    split
    · rename_i hk
      rw [hk, hfree]
    · split
      · rename_i hk
        rw [hk, hfrom]
      · rfl
  | some content =>
    simp only
    split
    · rename_i hk
      rw [hk, update_self]
    · rename_i hk
      rw [update_of_ne (name_ne hk)]
      split
      · rename_i hk
        rw [hk, update_self]
      · rename_i hk
        rw [update_of_ne (name_ne hk)]

/-- The loop of renames moves the first `n` files up by one, if the last place is free. -/
theorem shiftFiles_name (hfree : files (rollLogFileName full n) = none) :
    shiftFiles full n files (rollLogFileName full 0) = none ∧
      (∀ k < n, shiftFiles full n files (rollLogFileName full (k + 1)) =
        files (rollLogFileName full k)) ∧
      ∀ k, n < k → shiftFiles full n files (rollLogFileName full k) =
        files (rollLogFileName full k) := by
  induction n generalizing files with
  | zero => exact ⟨hfree, fun k hk => (nomatch hk), fun _ _ => rfl⟩
  | succ n ih =>
    have hmove := moveFile_name hfree
    have hmoved : UtilFile.moveFile files (rollLogFileName full n) (rollLogFileName full (n + 1))
        (rollLogFileName full n) = none := by
      rw [hmove, if_neg (by omega), if_pos rfl]
    obtain ⟨hzero, hbelow, habove⟩ := ih hmoved
    refine ⟨hzero, ?_, ?_⟩
    · intro k hk
      rcases Nat.lt_succ_iff_lt_or_eq.mp hk with hless | rfl
      · have hkeep := hbelow k hless
        rw [hmove, if_neg (by omega), if_neg (by omega)] at hkeep
        exact hkeep
      · have hlast := habove (k + 1) (Nat.lt_succ_self k)
        rw [hmove, if_pos rfl] at hlast
        exact hlast
    · intro k hk
      have hkeep := habove k (by omega)
      rw [hmove, if_neg (by omega), if_neg (by omega)] at hkeep
      exact hkeep

/-- A name outside the chain is left alone. -/
theorem removeFile_name (h : i ≠ j) :
    UtilFile.removeFile files (rollLogFileName full j) (rollLogFileName full i) =
      files (rollLogFileName full i) := by
  rw [UtilFile.removeFile, update_of_ne (name_ne h)]

end Names

/-! ## One call -/

namespace RollLog

variable {l : RollLog} {logTime : UInt32} {i : Nat}

/-- The counts for which the renames take file 0 away. -/
def Rolls (maxFile : UInt32) : Prop := 1 ≤ maxFile.toNat ∧ maxFile.toNat ≤ 2 ^ 31 + 1

instance (maxFile : UInt32) : Decidable (Rolls maxFile) := instDecidableAnd

/-- The size that the first call compares. -/
def firstSize (l : RollLog) (logTime : UInt32) : UInt64 :=
  if l.Reopens logTime then l.sizeOnDisk else l.fileSize

theorem fileSize_reopen (l : RollLog) (logTime : UInt32) :
    (l.reopen logTime).fileSize = l.firstSize logTime := by
  unfold reopen firstSize
  split
  · rfl
  · rfl

@[simp] theorem maxSize_reopen (l : RollLog) (logTime : UInt32) :
    (l.reopen logTime).maxSize = l.maxSize := by
  unfold reopen
  split
  · rfl
  · rfl

@[simp] theorem maxFile_reopen (l : RollLog) (logTime : UInt32) :
    (l.reopen logTime).maxFile = l.maxFile := by
  unfold reopen
  split
  · rfl
  · rfl

/-- Opening file 0 creates it, and leaves the others. -/
theorem file_reopen (h : l.Reopens logTime) (i : Nat) :
    (l.reopen logTime).file i = if i = 0 then some ((l.file 0).getD []) else l.file i := by
  rw [reopen, if_pos h, file]
  split
  · rename_i hi
    rw [hi]
    exact update_self _ _ _
  · rename_i hi
    exact update_of_ne (name_ne hi) _ _

/-- What is on disk in file 0 does not change. -/
theorem sizeOnDisk_reopen (l : RollLog) (logTime : UInt32) :
    (l.reopen logTime).sizeOnDisk = l.sizeOnDisk := by
  by_cases h : l.Reopens logTime
  · rw [sizeOnDisk, file_reopen h, if_pos rfl]
    rfl
  · rw [reopen, if_neg h]

theorem toNat_sub_one (maxFile : UInt32) :
    (maxFile - 1).toNat = (2 ^ 32 - 1 + maxFile.toNat) % 2 ^ 32 := UInt32.toNat_sub maxFile 1

theorem turns_eq (maxFile : UInt32) : turns maxFile =
    if (2 ^ 32 - 2 + maxFile.toNat) % 2 ^ 32 < 2 ^ 31 then
      (2 ^ 32 - 2 + maxFile.toNat) % 2 ^ 32 + 1
    else 0 := by
  have hsub : (maxFile - 2).toNat = (2 ^ 32 - 2 + maxFile.toNat) % 2 ^ 32 :=
    UInt32.toNat_sub maxFile 2
  rw [turns, hsub]
  congr 1

/-- A count that rolls removes and renames from its last file down. -/
theorem turns_of_rolls {maxFile : UInt32} (h : Rolls maxFile) :
    (maxFile - 1).toNat = maxFile.toNat - 1 ∧ turns maxFile = maxFile.toNat - 1 := by
  obtain ⟨hone, hmax⟩ := h
  have hword := maxFile.toNat_lt
  rw [toNat_sub_one, turns_eq]
  refine ⟨by omega, ?_⟩
  split
  · omega
  · omega

/-- Another count renames nothing, and removes another file than file 0. -/
theorem turns_of_not {maxFile : UInt32} (h : ¬ Rolls maxFile) :
    (maxFile - 1).toNat ≠ 0 ∧ turns maxFile = 0 := by
  have hword := maxFile.toNat_lt
  rw [Rolls, not_and_or] at h
  rw [toNat_sub_one, turns_eq]
  refine ⟨by omega, ?_⟩
  split
  · omega
  · rfl

/-- **A rotation** moves each file one place up; the last one is lost. -/
theorem file_roll (h : Rolls l.maxFile) :
    l.roll.file 0 = none ∧
      (∀ k, k + 1 < l.maxFile.toNat → l.roll.file (k + 1) = l.file k) ∧
      ∀ k, l.maxFile.toNat ≤ k → l.roll.file k = l.file k := by
  obtain ⟨hlast, hturns⟩ := turns_of_rolls h
  have hpos := h.1
  have hfiles : ∀ k, l.roll.file k = shiftFiles l.fullFileName (l.maxFile.toNat - 1)
      (UtilFile.removeFile l.files (rollLogFileName l.fullFileName (l.maxFile.toNat - 1)))
      (rollLogFileName l.fullFileName k) := by
    intro k
    show shiftFiles _ (turns l.maxFile) _ _ = _
    rw [hturns, hlast]
    rfl
  have hfree : UtilFile.removeFile l.files
      (rollLogFileName l.fullFileName (l.maxFile.toNat - 1))
      (rollLogFileName l.fullFileName (l.maxFile.toNat - 1)) = none := update_self _ _ _
  obtain ⟨hzero, hbelow, habove⟩ := shiftFiles_name hfree
  refine ⟨(hfiles 0).trans hzero, ?_, ?_⟩
  · intro k hk
    rw [hfiles, hbelow k (by omega), removeFile_name (by omega)]
    rfl
  · intro k hk
    rw [hfiles, habove k (by omega), removeFile_name (by omega)]
    rfl

/-- The other counts leave file 0 where it is. -/
theorem file_roll_of_not (h : ¬ Rolls l.maxFile) : l.roll.file 0 = l.file 0 := by
  obtain ⟨hlast, hturns⟩ := turns_of_not h
  show shiftFiles _ (turns l.maxFile) _ _ = _
  rw [hturns]
  exact removeFile_name hlast.symm

/-- So it is in a whole call. -/
theorem sizeOnDisk_roll_reopen (h : ¬ Rolls l.maxFile) (logTime : UInt32) :
    (l.reopen logTime).roll.sizeOnDisk = l.sizeOnDisk := by
  rw [← maxFile_reopen l logTime] at h
  rw [sizeOnDisk, file_roll_of_not h]
  exact sizeOnDisk_reopen l logTime

/-! ## The recursion -/

theorem prepareLogFile_succ (fuel : Nat) (logTime : UInt32) (l : RollLog) :
    l.prepareLogFile (fuel + 1) logTime =
      if l.firstSize logTime < l.maxSize then some (l.reopen logTime)
      else (l.reopen logTime).roll.prepareLogFile fuel logTime := by
  rw [← fileSize_reopen, ← maxSize_reopen l logTime]
  rfl

theorem ends_iff_first (l : RollLog) (logTime : UInt32) : l.Ends logTime ↔
    l.firstSize logTime < l.maxSize ∨ (l.reopen logTime).roll.Ends logTime := by
  constructor
  · intro h
    obtain ⟨fuel, hsome⟩ := h
    cases fuel with
    | zero => cases hsome
    | succ fuel =>
      rw [prepareLogFile_succ] at hsome
      split at hsome
      · rename_i hless
        exact .inl hless
      · exact .inr ⟨fuel, hsome⟩
  · intro h
    by_cases hless : l.firstSize logTime < l.maxSize
    · exact ⟨1, by rw [prepareLogFile_succ, if_pos hless]; rfl⟩
    · obtain ⟨fuel, hsome⟩ := h.resolve_left hless
      exact ⟨fuel + 1, by rw [prepareLogFile_succ, if_neg hless]; exact hsome⟩

/-- Behind a rotation file 0 is opened. -/
theorem firstSize_roll (l : RollLog) (logTime : UInt32) :
    l.roll.firstSize logTime = l.roll.sizeOnDisk :=
  if_pos (.inl rfl)

/-- Where file 0 stays and is too long, no rotation ends the recursion. -/
theorem not_ends_of_stuck (hrolls : ¬ Rolls l.maxFile) (hfp : l.fp = none)
    (hsize : ¬ l.sizeOnDisk < l.maxSize) : ¬ l.Ends logTime := by
  intro h
  obtain ⟨fuel, hsome⟩ := h
  induction fuel generalizing l with
  | zero => cases hsome
  | succ fuel ih =>
    have hfirst : l.firstSize logTime = l.sizeOnDisk := if_pos (.inl hfp)
    rw [prepareLogFile_succ, hfirst, if_neg hsize] at hsome
    refine ih ?_ rfl ?_ hsome
    · show ¬ Rolls (l.reopen logTime).maxFile
      rw [maxFile_reopen]
      exact hrolls
    · show ¬ (l.reopen logTime).roll.sizeOnDisk < (l.reopen logTime).maxSize
      rw [sizeOnDisk_roll_reopen hrolls, maxSize_reopen]
      exact hsize

/-- No size is below zero. -/
theorem not_ends_of_zero (h : l.maxSize = 0) : ¬ l.Ends logTime := by
  intro hends
  obtain ⟨fuel, hsome⟩ := hends
  induction fuel generalizing l with
  | zero => cases hsome
  | succ fuel ih =>
    have hless : ¬ l.firstSize logTime < l.maxSize := by
      rw [h, UInt64.lt_iff_toNat_lt]
      exact Nat.not_lt_zero _
    rw [prepareLogFile_succ, if_neg hless] at hsome
    refine ih ?_ hsome
    show (l.reopen logTime).maxSize = 0
    rw [maxSize_reopen, h]

/-- Where file 0 is taken away, the second call finds an empty one. -/
theorem ends_of_rolls (hrolls : Rolls l.maxFile) (hsize : 0 < l.maxSize) : l.Ends logTime := by
  rw [ends_iff_first, ends_iff_first]
  refine .inr (.inl ?_)
  have hrolls' : Rolls (l.reopen logTime).maxFile := by
    rw [maxFile_reopen]
    exact hrolls
  rw [firstSize_roll, sizeOnDisk, (file_roll hrolls').1]
  show 0 < (l.reopen logTime).maxSize
  rw [maxSize_reopen]
  exact hsize

/-- **When a rotation ends.**  For every count and size that are set, every state of the log and
of the directory and every time: the recursion ends if and only if the size is not zero and the
count is one for which the renames take file 0 away, or file 0 is not too long, by the size that
is known of it or by the one on disk. -/
theorem setInfo_ends_iff (l : RollLog) (maxFileNum : UInt32) (maxFileSize : UInt64)
    (logTime : UInt32) : (l.setInfo maxFileNum maxFileSize).Ends logTime ↔
      (0 < maxFileSize ∧ Rolls maxFileNum) ∨ l.firstSize logTime < maxFileSize ∨
        l.sizeOnDisk < maxFileSize := by
  constructor
  · intro h
    by_cases hsize : 0 < maxFileSize
    · by_cases hrolls : Rolls maxFileNum
      · exact .inl ⟨hsize, hrolls⟩
      · rcases (ends_iff_first _ _).mp h with hfirst | hlater
        · exact .inr (.inl hfirst)
        · refine .inr (.inr ?_)
          by_contra hlong
          refine not_ends_of_stuck ?_ rfl ?_ hlater
          · show ¬ Rolls ((l.setInfo maxFileNum maxFileSize).reopen logTime).maxFile
            rw [maxFile_reopen]
            exact hrolls
          · show ¬ _ < ((l.setInfo maxFileNum maxFileSize).reopen logTime).maxSize
            rw [sizeOnDisk_roll_reopen hrolls, maxSize_reopen]
            exact hlong
    · have hzero : maxFileSize = 0 := by
        rw [UInt64.lt_iff_toNat_lt] at hsize
        exact UInt64.toNat_inj.mp (Nat.eq_zero_of_not_pos hsize)
      exact absurd h (not_ends_of_zero hzero)
  · intro h
    rcases h with ⟨hsize, hrolls⟩ | hfirst | hdisk
    · exact ends_of_rolls hrolls hsize
    · exact (ends_iff_first _ _).mpr (.inl hfirst)
    · by_cases hrolls : Rolls maxFileNum
      · refine ends_of_rolls hrolls ?_
        rw [UInt64.lt_iff_toNat_lt] at hdisk ⊢
        exact Nat.lt_of_le_of_lt (Nat.zero_le _) hdisk
      · refine (ends_iff_first _ _).mpr (.inr ((ends_iff_first _ _).mpr (.inl ?_)))
        show _ < ((l.setInfo maxFileNum maxFileSize).reopen logTime).maxSize
        rw [firstSize_roll, sizeOnDisk_roll_reopen hrolls, maxSize_reopen]
        exact hdisk

/-- `log_size = 0`, and an empty log directory. -/
theorem setInfo_never_ends : ¬ ((new "logs".toList "app.S".toList [] (fun _ => none)).setInfo
    (UInt32.ofNat (UtilString.strtoUInt32 "10".toList))
    (UtilString.parseHumanReadableSize "0".toList)).Ends 1000 :=
  not_ends_of_zero (by decide)

end RollLog

end StormNet.Util
