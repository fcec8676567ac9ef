/-
  Util/LogRotation.lean --- what a run of `writeLog` calls leaves in the chain of log files.

  File 0 takes the new records; a rotation moves each file one place up and drops the one at
  the end.  Read from the highest index down, the files are the end of what was written: each
  call adds its record to that text, and only a rotation of a full chain takes the oldest file
  from it.
-/
import StormNet.Util.RollLog

set_option autoImplicit false

namespace StormNet.Util

open Function (update update_self update_of_ne)

namespace RollLog

/-! ## The chain -/

/-- What is in the file. -/
def content (l : RollLog) (i : Nat) : Str := (l.file i).getD []

/-- The contents of the first `n` files, from the highest index down. -/
def joined (l : RollLog) : Nat → Str
  | 0 => []
  | n + 1 => l.content n ++ l.joined n

/-- The files are those below `n`, each but file 0 is full, and together they are the end of
what was written. -/
structure Retains (l : RollLog) (n : Nat) (written : Str) : Prop where
  le_maxFile : n ≤ l.maxFile.toNat
  isSome_iff : ∀ i, (l.file i).isSome ↔ i < n
  full : ∀ i, 1 ≤ i → i < n → l.maxSize.toNat ≤ (l.content i).length
  suffix : l.joined n <:+ written

/-- What a call that writes `s` does to the files below `n`.  It adds the record to file 0, or it
finds file 0 full, moves the files up and begins file 0 with the record; the text loses nothing
then but what is in file `maxFile - 1`. -/
structure Writes (l : RollLog) (n : Nat) (logTime : UInt32) (s : Str) (l' : RollLog) (n' : Nat) :
    Prop where
  kept : l.firstSize logTime < l.maxSize →
    l'.file 0 = some (l.content 0 ++ s) ∧ l'.joined n' = l.joined n ++ s
  rotated : ¬ l.firstSize logTime < l.maxSize → l.maxSize.toNat ≤ (l.content 0).length ∧
    l'.file 0 = some s ∧ l'.joined n' = l.joined (min n (l.maxFile.toNat - 1)) ++ s

/-- The calls of `writeLog`, one after the other. -/
def writeLogs (fuel : Nat) (l : RollLog) : List (UInt32 × Str) → Option RollLog
  | [] => some l
  | (logTime, content) :: records =>
      (l.writeLog fuel logTime content).bind (fun l => l.writeLogs fuel records)

/-- The records written. -/
def recordsOf (records : List (UInt32 × Str)) : Str := records.flatMap Prod.snd

/-! ## Between two calls -/

variable {l l' : RollLog} {n : Nat} {written : Str} {logTime : UInt32}

/-- The file that is open is file 0, and not shorter than the log believes. -/
structure Opened (l : RollLog) : Prop where
  name : l.fp = some (rollLogFileName l.fullFileName 0)
  size : l.fileSize.toNat ≤ (l.content 0).length

/-- What holds between two calls. -/
structure Sound (l : RollLog) (n : Nat) (written : Str) : Prop where
  retains : l.Retains n written
  opened : l.fp ≠ none → 0 < n ∧ l.Opened

theorem joined_congr (h : ∀ i < n, l'.content i = l.content i) : l'.joined n = l.joined n := by
  induction n with
  | zero => rfl
  | succ n ih =>
    rw [joined, joined, h n (Nat.lt_succ_self n),
      ih (fun i hi => h i (Nat.lt_succ_of_lt hi))]

/-- Fewer files are a later part. -/
theorem joined_suffix {m : Nat} (h : m ≤ n) : l.joined m <:+ l.joined n := by
  induction h with
  | refl => exact List.suffix_refl _
  | step _ ih => exact ih.trans (List.suffix_append _ _)

/-- The chain one place up, behind an empty file. -/
theorem joined_shift (hzero : l'.content 0 = [])
    (h : ∀ i < n, l'.content (i + 1) = l.content i) : l'.joined (n + 1) = l.joined n := by
  induction n with
  | zero => rw [joined, joined, joined, hzero, List.append_nil]
  | succ n ih =>
    rw [joined, ih (fun i hi => h i (Nat.lt_succ_of_lt hi)), h n (Nat.lt_succ_self n), joined]

/-- A longer file 0. -/
theorem joined_append {s : Str} (hpos : 0 < n) (hzero : l'.content 0 = l.content 0 ++ s)
    (h : ∀ i, i ≠ 0 → l'.content i = l.content i) : l'.joined n = l.joined n ++ s := by
  induction n with
  | zero => omega
  | succ n ih =>
    rw [joined, joined]
    cases n with
    | zero => rw [joined, joined, List.append_nil, List.append_nil, hzero]
    | succ n => rw [ih (Nat.succ_pos n), h (n + 1) (by omega), List.append_assoc]

/-! ## One call -/

/-- What the chain was built with stays. -/
structure SameInfo (l l' : RollLog) : Prop where
  maxFile : l'.maxFile = l.maxFile
  maxSize : l'.maxSize = l.maxSize

theorem opened_reopen (h : l.Reopens logTime) : (l.reopen logTime).Opened := by
  refine ⟨by rw [reopen, if_pos h], ?_⟩
  have hcontent : (l.reopen logTime).content 0 = (l.file 0).getD [] := by
    rw [content, file_reopen h, if_pos rfl]
    rfl
  have hsize : (l.reopen logTime).fileSize = l.sizeOnDisk := by
    rw [fileSize_reopen, firstSize, if_pos h]
  rw [hcontent, hsize, sizeOnDisk, UInt64.toNat_ofNat']
  exact Nat.mod_le _ _

theorem content_reopen (l : RollLog) (logTime : UInt32) (i : Nat) :
    (l.reopen logTime).content i = l.content i := by
  by_cases hopen : l.Reopens logTime
  · rw [content, file_reopen hopen]
    split
    · rename_i hi
      rw [hi]
      rfl
    · rfl
  · rw [reopen, if_neg hopen]

theorem joined_reopen (l : RollLog) (logTime : UInt32) (n : Nat) :
    (l.reopen logTime).joined n = l.joined n :=
  joined_congr (fun i _ => content_reopen l logTime i)

/-- A file that is not there has no part in the text. -/
theorem Retains.joined_max (h : l.Retains n written) : l.joined (max n 1) = l.joined n := by
  cases n with
  | zero =>
    have habsent := mt (h.isSome_iff 0).mp (Nat.lt_irrefl 0)
    show l.content 0 ++ [] = []
    rw [content, Option.not_isSome_iff_eq_none.mp habsent]
    rfl
  | succ n => rw [Nat.max_eq_left (by omega)]

/-- Opening file 0 loses nothing. -/
theorem Retains.reopen (h : l.Retains n written) (hmax : 1 ≤ l.maxFile.toNat)
    (hopen : l.Reopens logTime) : (l.reopen logTime).Retains (max n 1) written := by
  refine ⟨?_, ?_, ?_, ?_⟩
  · rw [maxFile_reopen]
    exact Nat.max_le.mpr ⟨h.le_maxFile, hmax⟩
  · intro i
    rw [file_reopen hopen]
    split
    · rename_i hi
      rw [hi]
      exact iff_of_true rfl (by omega)
    · rw [h.isSome_iff]
      omega
  · intro i hone hi
    rw [maxSize_reopen, content_reopen]
    exact h.full i hone (by omega)
  · rw [joined_reopen, h.joined_max]
    exact h.suffix

/-- **A rotation**, with file 0 opened behind it: file 0 was full, and what is lost is the
oldest file. -/
theorem Retains.roll_reopen (h : l.Retains n written) (hmax : 1 ≤ l.maxFile.toNat)
    (hint : l.maxFile.toNat < 2 ^ 31) (hfull : l.maxSize.toNat ≤ (l.content 0).length) :
    (l.roll.reopen logTime).Retains (min n (l.maxFile.toNat - 1) + 1) written ∧
      (l.roll.reopen logTime).file 0 = some [] ∧
      (l.roll.reopen logTime).joined (min n (l.maxFile.toNat - 1) + 1) =
        l.joined (min n (l.maxFile.toNat - 1)) := by
  obtain ⟨hzero, hbelow, habove⟩ := file_roll (l := l) ⟨hmax, by omega⟩
  have hle := h.le_maxFile
  have hreopens : l.roll.Reopens logTime := .inl rfl
  have hfile := file_reopen hreopens
  have hnew : (l.roll.reopen logTime).file 0 = some [] := by
    rw [hfile, if_pos rfl, hzero]
    rfl
  have hempty : (l.roll.reopen logTime).content 0 = [] := congrArg (·.getD []) hnew
  have hshift : ∀ i < min n (l.maxFile.toNat - 1),
      (l.roll.reopen logTime).file (i + 1) = l.file i := by
    intro i hi
    rw [hfile, if_neg (Nat.succ_ne_zero i), hbelow i (by omega)]
  have hjoined := joined_shift (l := l) hempty (n := min n (l.maxFile.toNat - 1))
    (fun i hi => congrArg (·.getD []) (hshift i hi))
  refine ⟨⟨?_, ?_, ?_, ?_⟩, hnew, hjoined⟩
  · rw [maxFile_reopen]
    show _ ≤ l.maxFile.toNat
    omega
  · intro i
    cases i with
    | zero =>
      rw [hfile, if_pos rfl]
      exact iff_of_true rfl (Nat.succ_pos _)
    | succ i =>
      rcases Nat.lt_or_ge (i + 1) l.maxFile.toNat with hless | hmore
      · rw [hfile, if_neg (Nat.succ_ne_zero i), hbelow i hless, h.isSome_iff]
        omega
      · rw [hfile, if_neg (Nat.succ_ne_zero i), habove (i + 1) hmore, h.isSome_iff]
        omega
  · intro i hone hi
    rw [maxSize_reopen]
    cases i with
    | zero => omega
    | succ i =>
      rw [content, hshift i (by omega)]
      cases i with
      | zero => exact hfull
      | succ i => exact h.full (i + 1) (by omega) (by omega)
  · rw [hjoined]
    exact (joined_suffix (Nat.min_le_left _ _)).trans h.suffix

/-- `prepareLogFile` opens file 0 first. -/
theorem Sound.reopen (h : l.Sound n written) (hmax : 1 ≤ l.maxFile.toNat) (logTime : UInt32) :
    (l.reopen logTime).Retains (max n 1) written ∧ (l.reopen logTime).Opened := by
  by_cases hopen : l.Reopens logTime
  · exact ⟨h.retains.reopen hmax hopen, opened_reopen hopen⟩
  · rw [RollLog.reopen, if_neg hopen]
    rw [Reopens, not_or] at hopen
    obtain ⟨hpos, hopened⟩ := h.opened hopen.1
    rw [Nat.max_eq_left hpos]
    exact ⟨h.retains, hopened⟩

/-- Where file 0 has room nothing else changes. -/
theorem Sound.kept (h : l.Sound n written) (hmax : 1 ≤ l.maxFile.toNat)
    (hless : l.firstSize logTime < l.maxSize) :
    l.Writes n logTime [] (l.reopen logTime) (max n 1) := by
  obtain ⟨hretains, -⟩ := h.reopen hmax logTime
  obtain ⟨zero, hzero⟩ := Option.isSome_iff_exists.mp ((hretains.isSome_iff 0).mpr (by omega))
  refine ⟨fun _ => ⟨?_, ?_⟩, fun hfull => absurd hless hfull⟩
  · rw [List.append_nil, ← content_reopen l logTime, content, hzero]
    rfl
  · rw [List.append_nil, joined_reopen, h.retains.joined_max]

/-- Where file 0 is full it holds at least `maxSize` bytes, and is there. -/
theorem Sound.full (h : l.Sound n written) (hmax : 1 ≤ l.maxFile.toNat)
    (hsize : 1 ≤ l.maxSize.toNat) (hfull : ¬ l.firstSize logTime < l.maxSize) :
    l.maxSize.toNat ≤ (l.content 0).length ∧ 0 < n := by
  have hbig := (h.reopen hmax logTime).2.size
  rw [UInt64.lt_iff_toNat_lt, ← fileSize_reopen] at hfull
  rw [content_reopen] at hbig
  have hlong : l.maxSize.toNat ≤ (l.content 0).length := by omega
  refine ⟨hlong, ?_⟩
  rw [← h.retains.isSome_iff, ← Option.ne_none_iff_isSome]
  intro hnone
  rw [content, hnone] at hlong
  exact absurd (Nat.le_trans hsize hlong) (by decide)

/-- Where file 0 is full, the files move on by one, and the new file 0 has room. -/
theorem Sound.rolled (h : l.Sound n written) (hmax : 1 ≤ l.maxFile.toNat)
    (hint : l.maxFile.toNat < 2 ^ 31) (hsize : 1 ≤ l.maxSize.toNat)
    (hfull : ¬ l.firstSize logTime < l.maxSize) :
    ((l.reopen logTime).roll.reopen logTime).Retains
        (min (max n 1) (l.maxFile.toNat - 1) + 1) written ∧
      l.Writes n logTime [] ((l.reopen logTime).roll.reopen logTime)
        (min (max n 1) (l.maxFile.toNat - 1) + 1) ∧
      (l.reopen logTime).roll.firstSize logTime < (l.reopen logTime).roll.maxSize := by
  obtain ⟨hlong, hone⟩ := h.full hmax hsize hfull
  obtain ⟨hretains, -⟩ := h.reopen hmax logTime
  have hback := joined_reopen l logTime
  have hcontent := content_reopen l logTime 0
  have hfiles := maxFile_reopen l logTime
  have hbytes := maxSize_reopen l logTime
  generalize l.reopen logTime = l₁ at *
  obtain ⟨hrolled, hempty, hjoined⟩ := @Retains.roll_reopen l₁ _ _ logTime hretains
    (by rwa [hfiles]) (by rwa [hfiles]) (by rwa [hcontent, hbytes])
  rw [hfiles] at hrolled hjoined
  refine ⟨hrolled, ⟨fun hkept => absurd hkept hfull, fun _ => ⟨hlong, hempty, ?_⟩⟩, ?_⟩
  · have hmin : min (max n 1) (l.maxFile.toNat - 1) = min n (l.maxFile.toNat - 1) := by omega
    rw [hjoined, hback, hmin, List.append_nil]
  · have hreopens : l₁.roll.Reopens logTime := .inl rfl
    rw [UInt64.lt_iff_toNat_lt, ← fileSize_reopen]
    have hle := (opened_reopen hreopens).size
    rw [content, hempty] at hle
    have hpos : 0 < l₁.maxSize.toNat := hbytes ▸ hsize
    exact Nat.lt_of_le_of_lt hle hpos

/-- Each call of `prepareLogFile` ends with file 0 open, after one rotation at most. -/
theorem Sound.prepare (h : l.Sound n written) (hmax : 1 ≤ l.maxFile.toNat)
    (hint : l.maxFile.toNat < 2 ^ 31) (hsize : 1 ≤ l.maxSize.toNat) (fuel : Nat) :
    ∃ l' n', l.prepareLogFile (fuel + 2) logTime = some l' ∧ l.SameInfo l' ∧
      l'.Retains n' written ∧ 0 < n' ∧ l'.Opened ∧ l.Writes n logTime [] l' n' := by
  have hinfo : l.SameInfo (l.reopen logTime) := ⟨maxFile_reopen l logTime, maxSize_reopen l logTime⟩
  by_cases hless : l.firstSize logTime < l.maxSize
  · obtain ⟨hretains, hopened⟩ := h.reopen hmax logTime
    exact ⟨_, max n 1, by rw [prepareLogFile_succ, if_pos hless], hinfo, hretains, by omega,
      hopened, h.kept hmax hless⟩
  · obtain ⟨hretains, hwrites, hroom⟩ := h.rolled hmax hint hsize hless
    refine ⟨_, _, ?_, ?_, hretains, Nat.succ_pos _, opened_reopen (.inl rfl), hwrites⟩
    · rw [prepareLogFile_succ, if_neg hless, prepareLogFile_succ, if_pos hroom]
    · exact ⟨(maxFile_reopen _ _).trans hinfo.maxFile, (maxSize_reopen _ _).trans hinfo.maxSize⟩

/-- What `fwrite` does to the open file. -/
theorem append_eq (hopened : l.Opened) (s : Str) : l.append s = { l with
    files := update l.files (rollLogFileName l.fullFileName 0) (some (l.content 0 ++ s))
    fileSize := l.fileSize + UInt64.ofNat s.length } := by
  rw [RollLog.append, hopened.name]
  rfl

theorem file_append (hopened : l.Opened) (s : Str) (i : Nat) :
    (l.append s).file i = if i = 0 then some (l.content 0 ++ s) else l.file i := by
  rw [append_eq hopened]
  split
  · rename_i hi
    rw [hi]
    exact update_self _ _ _
  · rename_i hi
    exact update_of_ne (name_ne hi) _ _

theorem content_append (hopened : l.Opened) (s : Str) :
    (l.append s).content 0 = l.content 0 ++ s := by
  rw [content, file_append hopened, if_pos rfl]
  rfl

theorem content_append_of_ne (hopened : l.Opened) (s : Str) {i : Nat} (hi : i ≠ 0) :
    (l.append s).content i = l.content i := by
  rw [content, file_append hopened, if_neg hi]
  rfl

theorem sameInfo_append (l : RollLog) (s : Str) : l.SameInfo (l.append s) := by
  unfold RollLog.append
  split
  · exact ⟨rfl, rfl⟩
  · exact ⟨rfl, rfl⟩

/-- The record goes to the end of file 0. -/
theorem Retains.append (h : l.Retains n written) (hpos : 0 < n) (hopened : l.Opened) (s : Str) :
    (l.append s).Retains n (written ++ s) ∧ (l.append s).Opened := by
  have hcontent := content_append hopened s
  refine ⟨⟨?_, ?_, ?_, ?_⟩, ?_, ?_⟩
  · rw [(sameInfo_append l s).maxFile]
    exact h.le_maxFile
  · intro i
    rw [file_append hopened]
    split
    · rename_i hi
      rw [hi]
      exact iff_of_true rfl hpos
    · exact h.isSome_iff i
  · intro i hone hi
    rw [(sameInfo_append l s).maxSize, content_append_of_ne hopened s (by omega)]
    exact h.full i hone hi
  · rw [joined_append hpos hcontent (fun i hi => content_append_of_ne hopened s hi)]
    obtain ⟨front, hfront⟩ := h.suffix
    exact ⟨front, by rw [← List.append_assoc, hfront]⟩
  · rw [append_eq hopened]
    exact hopened.name
  · have hsize := hopened.size
    have hnew : (l.append s).fileSize = l.fileSize + UInt64.ofNat s.length := by
      rw [append_eq hopened]
    rw [hcontent, hnew, UInt64.toNat_add, UInt64.toNat_ofNat', List.length_append]
    have hmod : (l.fileSize.toNat + s.length % 2 ^ 64) % 2 ^ 64 ≤
        l.fileSize.toNat + s.length % 2 ^ 64 := Nat.mod_le _ _
    have hlen : s.length % 2 ^ 64 ≤ s.length := Nat.mod_le _ _
    omega

/-- The record is behind what `prepareLogFile` leaves. -/
theorem Writes.append {l₁ : RollLog} {n' : Nat} (h : l.Writes n logTime [] l₁ n') (hpos : 0 < n')
    (hopened : l₁.Opened) (s : Str) : l.Writes n logTime s (l₁.append s) n' := by
  have hzero : ∀ t : Str, l₁.file 0 = some t → (l₁.append s).file 0 = some (t ++ s) := by
    intro t ht
    rw [file_append hopened, if_pos rfl, content, ht]
    rfl
  have hjoined := joined_append hpos (content_append hopened s)
    (fun i hi => content_append_of_ne hopened s hi)
  constructor
  · intro hless
    obtain ⟨hfile, htext⟩ := h.kept hless
    rw [List.append_nil] at hfile htext
    exact ⟨hzero _ hfile, by rw [hjoined, htext]⟩
  · intro hfull
    obtain ⟨hlong, hfile, htext⟩ := h.rotated hfull
    rw [List.append_nil] at htext
    exact ⟨hlong, hzero _ hfile, by rw [hjoined, htext]⟩

/-- One call of `writeLog`. -/
theorem Sound.writeLog (h : l.Sound n written) (hmax : 1 ≤ l.maxFile.toNat)
    (hint : l.maxFile.toNat < 2 ^ 31) (hsize : 1 ≤ l.maxSize.toNat) (fuel : Nat)
    (logTime : UInt32) (s : Str) :
    ∃ l' n', l.writeLog (fuel + 2) logTime s = some l' ∧ l.SameInfo l' ∧
      l'.Sound n' (written ++ s) ∧ l.Writes n logTime s l' n' := by
  obtain ⟨l₁, n', hprepare, hinfo, hretains, hpos, hopened, hwrites⟩ :
      ∃ l' n', l.prepareLogFile (fuel + 2) logTime = some l' ∧ l.SameInfo l' ∧
        l'.Retains n' written ∧ 0 < n' ∧ l'.Opened ∧ l.Writes n logTime [] l' n' :=
    h.prepare hmax hint hsize fuel
  obtain ⟨hlast, hopened'⟩ := hretains.append hpos hopened s
  have hinfo' := sameInfo_append l₁ s
  have hboth : l.SameInfo (l₁.append s) :=
    ⟨hinfo'.maxFile.trans hinfo.maxFile, hinfo'.maxSize.trans hinfo.maxSize⟩
  have hsame : joined { l₁.append s with lastTime := logTime } n' = (l₁.append s).joined n' :=
    joined_congr (fun _ _ => rfl)
  obtain ⟨hkept, hrotated⟩ := hwrites.append hpos hopened s
  refine ⟨{ l₁.append s with lastTime := logTime }, n', ?_, ⟨hboth.maxFile, hboth.maxSize⟩,
    ⟨⟨hlast.le_maxFile, hlast.isSome_iff, hlast.full, hsame ▸ hlast.suffix⟩,
      fun _ => ⟨hpos, hopened'.name, hopened'.size⟩⟩, ⟨hsame ▸ hkept, hsame ▸ hrotated⟩⟩
  rw [RollLog.writeLog, hprepare]
  rfl

/-! ## A run -/

theorem Sound.writeLogs (h : l.Sound n written) (hmax : 1 ≤ l.maxFile.toNat)
    (hint : l.maxFile.toNat < 2 ^ 31) (hsize : 1 ≤ l.maxSize.toNat) (fuel : Nat)
    (records : List (UInt32 × Str)) :
    ∃ l' n', l.writeLogs (fuel + 2) records = some l' ∧ l.SameInfo l' ∧
      l'.Sound n' (written ++ recordsOf records) := by
  induction records generalizing l n written with
  | nil =>
    refine ⟨l, n, rfl, ⟨rfl, rfl⟩, ?_⟩
    rw [recordsOf, List.flatMap_nil, List.append_nil]
    exact h
  | cons record records ih =>
    obtain ⟨logTime, s⟩ := record
    obtain ⟨l₁, n₁, hwrite, hinfo, hsound, -⟩ := h.writeLog hmax hint hsize fuel logTime s
    rw [← hinfo.maxFile] at hmax hint
    rw [← hinfo.maxSize] at hsize
    obtain ⟨l', n', hrest, hinfo', hlast⟩ := ih hsound hmax hint hsize
    have hboth : l.SameInfo l' :=
      ⟨hinfo'.maxFile.trans hinfo.maxFile, hinfo'.maxSize.trans hinfo.maxSize⟩
    refine ⟨l', n', ?_, hboth, ?_⟩
    · rw [RollLog.writeLogs, hwrite]
      exact hrest
    · rw [recordsOf, List.flatMap_cons, ← List.append_assoc]
      exact hlast

theorem writeLogs_append (l : RollLog) (fuel : Nat) (records more : List (UInt32 × Str)) :
    l.writeLogs fuel (records ++ more) =
      (l.writeLogs fuel records).bind (fun l => l.writeLogs fuel more) := by
  induction records generalizing l with
  | nil => rfl
  | cons record records ih =>
    rw [List.cons_append, RollLog.writeLogs, RollLog.writeLogs]
    cases l.writeLog fuel record.1 record.2 with
    | none => rfl
    | some l' => exact ih l'

/-- **Log rotation loses only the oldest data.**  A log that starts without files takes any
records at any times: every call returns, and behind each the files are those below some
`n ≤ maxFile`, all but file 0 have reached the size, and from the highest index down they are
the end of what was written.  A further call puts its record at the end of file 0 and of this
text, and takes nothing from the text but, in a rotation, file `maxFile - 1`. -/
theorem log_rotation (path fileNamePrefix fileName : Str) (files : Files) (maxFileNum : UInt32)
    (maxFileSize : UInt64) (hmax : 1 ≤ maxFileNum.toNat) (hint : maxFileNum.toNat < 2 ^ 31)
    (hsize : 1 ≤ maxFileSize.toNat)
    (hnone : ∀ i, (new path fileNamePrefix fileName files).file i = none) (fuel : Nat)
    (records : List (UInt32 × Str)) :
    ∃ l n, ((new path fileNamePrefix fileName files).setInfo maxFileNum maxFileSize).writeLogs
        (fuel + 2) records = some l ∧
      n ≤ maxFileNum.toNat ∧ (∀ i, (l.file i).isSome ↔ i < n) ∧
      (∀ i, 1 ≤ i → i < n → maxFileSize.toNat ≤ (l.content i).length) ∧
      l.joined n <:+ recordsOf records ∧
      ∀ logTime s, ∃ l' n',
        ((new path fileNamePrefix fileName files).setInfo maxFileNum maxFileSize).writeLogs
          (fuel + 2) (records ++ [(logTime, s)]) = some l' ∧
        (∀ i, (l'.file i).isSome ↔ i < n') ∧ l.Writes n logTime s l' n' := by
  have hstart : Sound ((new path fileNamePrefix fileName files).setInfo maxFileNum maxFileSize)
      0 [] := by
    refine ⟨⟨Nat.zero_le _, ?_, fun i _ hi => (nomatch hi), List.suffix_refl _⟩, ?_⟩
    · intro i
      have habsent : ((new path fileNamePrefix fileName files).setInfo maxFileNum
          maxFileSize).file i = none := hnone i
      rw [habsent]
      exact iff_of_false Bool.false_ne_true (Nat.not_lt_zero i)
    · intro hopen
      exact absurd rfl hopen
  obtain ⟨l, n, hrun, hinfo, hsound⟩ := hstart.writeLogs hmax hint hsize fuel records
  obtain ⟨hle, hthere, hfull, hsuffix⟩ := hsound.retains
  have hmaxFile : l.maxFile = maxFileNum := hinfo.maxFile
  have hmaxSize : l.maxSize = maxFileSize := hinfo.maxSize
  rw [hmaxFile] at hle
  rw [hmaxSize] at hfull
  refine ⟨l, n, hrun, hle, hthere, hfull, hsuffix, fun logTime s => ?_⟩
  rw [← hmaxFile] at hmax hint
  rw [← hmaxSize] at hsize
  obtain ⟨l', n', hwrite, -, hsound', hwrites⟩ := hsound.writeLog hmax hint hsize fuel logTime s
  refine ⟨l', n', ?_, hsound'.retains.isSome_iff, hwrites⟩
  rw [writeLogs_append, hrun, Option.bind_some, RollLog.writeLogs, hwrite]
  rfl

/-- Two files of two bytes: the third record finds both full, and only the first record is
lost. -/
theorem log_rotation_of_three :
    ∃ l n l' n', ((new [] "a".toList [] (fun _ => none)).setInfo 2 2).writeLogs 2
        [(5, "one".toList), (6, "two".toList)] = some l ∧
      ((new [] "a".toList [] (fun _ => none)).setInfo 2 2).writeLogs 2
        [(5, "one".toList), (6, "two".toList), (40, "three".toList)] = some l' ∧
      l.joined n = "onetwo".toList ∧ l'.file 0 = some "three".toList ∧
      l'.joined n' = "twothree".toList := by
  obtain ⟨l, n, hrun, hle, hthere, -, -, hnext⟩ := log_rotation [] "a".toList [] (fun _ => none)
    2 2 (by decide) (by decide) (by decide) (fun _ => rfl) 0
    [(5, "one".toList), (6, "two".toList)]
  obtain ⟨l', n', hrun', -, -, hrotated⟩ := hnext 40 "three".toList
  have hfiles : (((new [] "a".toList [] (fun _ => none)).setInfo 2 2).writeLogs 2
      [(5, "one".toList), (6, "two".toList)]).map (fun l => (l.file 0, l.file 1,
        l.firstSize 40, l.maxSize, l.maxFile)) =
      some (some "two".toList, some "one".toList, 3, 2, 2) := rfl
  rw [hrun, Option.map_some, Option.some_inj] at hfiles
  simp only [Prod.mk.injEq] at hfiles
  obtain ⟨hzero, hone, hfirst, hsize, hmax⟩ := hfiles
  have hn : n = 2 := by
    have htwo := (hthere 1).mp (by rw [hone]; rfl)
    exact Nat.le_antisymm hle htwo
  obtain ⟨-, hfile, htext⟩ := hrotated (by rw [hfirst, hsize]; decide)
  refine ⟨l, n, l', n', hrun, hrun', ?_, hfile, ?_⟩
  · rw [hn, joined, joined, joined, content, content, hzero, hone]
    rfl
  · rw [htext, hn, hmax]
    show l.content 0 ++ [] ++ _ = _
    rw [content, hzero]
    rfl

end RollLog

end StormNet.Util
