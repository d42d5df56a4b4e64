import Ccos.Fs.DirLookup

/-! What the scans of a directory block read, and what a series of listings reports. -/

namespace Ccos

open Lib

section Bounds

variable {bytes : ByteMem} {blockSize : Nat}

/-- The scans look at the record at an offset and go on behind it. -/
@[grind =] def LiveHeader (bytes : ByteMem) (blockSize o : Nat) : Prop :=
  o + 12 < blockSize ∧ entryInode bytes o ≠ 0 ∧ entryRecLen bytes o ≠ 0

/-- The offsets that a scan comes to: each record sends it to the next one. -/
inductive Visited (bytes : ByteMem) (blockSize : Nat) : Nat → Prop
  | first : Visited bytes blockSize 0
  | next {o : Nat} (visited : Visited bytes blockSize o) (live : LiveHeader bytes blockSize o) :
    Visited bytes blockSize (o + entryRecLen bytes o)

/-- At each record that a scan comes to, the name that the header announces ends in the block. -/
@[grind =] def NamesInside (bytes : ByteMem) (blockSize : Nat) : Prop :=
  ∀ o, Visited bytes blockSize o → LiveHeader bytes blockSize o →
    o + 9 + min (entryNameLen bytes o) 255 ≤ blockSize

theorem lookupScan_inside (inside : NamesInside bytes blockSize) (name : CString) {o : Nat}
    (visited : Visited bytes blockSize o) :
    lookupScan ⟨blockSize, bytes⟩ blockSize name o ≠ none := by
  by_cases header : o + 12 < blockSize
  · rw [lookupScan_step name header]
    by_cases ends : entryInode bytes o = 0 ∨ entryRecLen bytes o = 0
    · simp [ends]
    · rw [if_neg ends]
      have live : LiveHeader bytes blockSize o := ⟨header, not_or.mp ends⟩
      have positive : 0 < entryRecLen bytes o := Nat.pos_of_ne_zero live.2.2
      have rest := lookupScan_inside inside name (visited.next live)
      split
      · exact rest
      · have room := inside o visited live
        obtain ⟨difference, compared, _⟩ := @Buffer.strncmp_inside ⟨blockSize, bytes⟩ (o + 9)
          (entryNameLen bytes o) name.chars name.noNul (by dsimp only; omega)
        grind
  · rw [lookupScan_end _ name header]
    simp
termination_by blockSize - o

theorem readdirScan_inside (inside : NamesInside bytes blockSize) {Buf : Type}
    (filldir : DirReport → Buf → Int × Buf) (fPos : Nat) (buf : Buf) {o : Nat}
    (visited : Visited bytes blockSize o) :
    readdirScan ⟨blockSize, bytes⟩ blockSize filldir o fPos buf ≠ none := by
  by_cases header : o + 12 < blockSize
  · rw [readdirScan_step filldir fPos buf header]
    by_cases ends : entryInode bytes o = 0 ∨ entryRecLen bytes o = 0
    · simp [ends]
    · have live : LiveHeader bytes blockSize o := ⟨header, not_or.mp ends⟩
      have positive : 0 < entryRecLen bytes o := Nat.pos_of_ne_zero live.2.2
      rw [if_neg ends, Buffer.read_inside (inside o visited live), Option.bind_some]
      dsimp only
      split
      · simp
      · exact readdirScan_inside inside filldir _ _ (visited.next live)
  · rw [readdirScan_end _ filldir fPos buf header]
    simp
termination_by blockSize - o

def acceptAll (_ : DirReport) (_ : Unit) : Int × Unit := (0, ())

/-- Both scans of a block stay inside it, whatever the callback does, if and only if every record that
they come to announces a name that ends in the block. -/
theorem dirScans_inside_iff (bytes : ByteMem) (blockSize : Nat) (name : CString) :
    (lookupScan ⟨blockSize, bytes⟩ blockSize name 0 ≠ none ∧
      ∀ (Buf : Type) (filldir : DirReport → Buf → Int × Buf) (fPos : Nat) (buf : Buf),
        readdirScan ⟨blockSize, bytes⟩ blockSize filldir 0 fPos buf ≠ none) ↔
      NamesInside bytes blockSize := by
  refine ⟨fun stays => ?_, fun inside => ⟨lookupScan_inside inside name .first,
    fun Buf filldir fPos buf => readdirScan_inside inside filldir fPos buf .first⟩⟩
  -- A listing that takes every entry reads the name at every record.
  have reads {o fPos : Nat} (live : LiveHeader bytes blockSize o)
      (scans : readdirScan ⟨blockSize, bytes⟩ blockSize acceptAll o fPos () ≠ none) :
      o + 9 + min (entryNameLen bytes o) 255 ≤ blockSize ∧
        readdirScan ⟨blockSize, bytes⟩ blockSize acceptAll (o + entryRecLen bytes o)
          (wrap64 (fPos + entryRecLen bytes o)) () ≠ none := by
    rw [readdirScan_step acceptAll fPos () live.1, if_neg (not_or.mpr live.2)] at scans
    by_cases room : o + 9 + min (entryNameLen bytes o) 255 ≤ blockSize
    · rw [Buffer.read_inside room, Option.bind_some] at scans
      exact ⟨room, scans⟩
    · have outside : Buffer.read ⟨blockSize, bytes⟩ (o + 9) (min (entryNameLen bytes o) 255) =
          none := if_neg room
      rw [outside] at scans
      exact absurd rfl scans
  have comes {o : Nat} (visited : Visited bytes blockSize o) :
      ∃ fPos, readdirScan ⟨blockSize, bytes⟩ blockSize acceptAll o fPos () ≠ none := by
    induction visited with
    | first => exact ⟨0, stays.2 Unit acceptAll 0 ()⟩
    | next _ live ih =>
      grind
  grind

/-- A block of 1024 bytes whose second record starts 16 bytes before the end and announces a name of
200 bytes. -/
def longNameAtEnd : ByteMem := fun i =>
  if 1017 ≤ i then 97
  else ([(0, 11), (4, 0xF0), (5, 3), (1008, 12), (1012, 16), (1014, 200)].lookup i).getD 0

/-- Both scans leave that block. -/
theorem dirScans_leave :
    lookupScan ⟨1024, longNameAtEnd⟩ 1024 ⟨List.replicate 8 97, by decide⟩ 0 = none ∧
      readdirScan ⟨1024, longNameAtEnd⟩ 1024 acceptAll 0 0 () = none := by
  have first : entryInode longNameAtEnd 0 = 11 ∧ entryRecLen longNameAtEnd 0 = 1008 ∧
      entryNameLen longNameAtEnd 0 = 0 := by decide +kernel
  have second : entryInode longNameAtEnd 1008 = 12 ∧ entryRecLen longNameAtEnd 1008 = 16 ∧
      entryNameLen longNameAtEnd 1008 = 200 := by decide +kernel
  constructor
  · rw [lookupScan_step _ (by decide), if_neg (by rw [first.1, first.2.1]; decide),
      if_pos (.inl first.2.2), first.2.1, lookupScan_step _ (by decide),
      if_neg (by rw [second.1, second.2.1]; decide), if_neg (by rw [second.2.2]; decide)]
    decide +kernel
  · rw [readdirScan_step _ _ _ (by decide), if_neg (by rw [first.1, first.2.1]; decide),
      first.2.2, Buffer.read_inside (by decide), Option.bind_some]
    dsimp only [acceptAll]
    rw [if_neg (by decide), first.2.1, readdirScan_step _ _ _ (by decide),
      if_neg (by rw [second.1, second.2.1]; decide), second.2.2]
    rfl

end Bounds

section Series

variable {env : FsEnv} {image : ByteMem} {sb : VfsSuperblock} {fs : Ext2FsInfo} {dir : VfsInode}
  {info : Ext2InodeInfo} {bytes : ByteMem} {blockSize : Nat} {offsets : List Nat}

/-- A callback that takes a number of entries in a call and then refuses; it keeps what it took. -/
def acceptSome (report : DirReport) : Nat × List DirReport → Int × (Nat × List DirReport)
  | (0, taken) => (-1, (0, taken))
  | (more + 1, taken) => (0, (more, taken ++ [report]))

/-- A series of listings of one open file, each with the number of entries that its callback
takes. -/
def readdirSeries (env : FsEnv) (sb : VfsSuperblock) (dir : VfsInode) :
    List Nat → Nat → List DirReport → FsM (List DirReport)
  | [], _, taken => pure taken
  | count :: counts, fPos, taken => do
    let (_, fPos, _, taken) ← ext2Readdir env sb dir acceptSome fPos (count, taken)
    readdirSeries env sb dir counts fPos taken

def DirReport.entry (report : DirReport) : Nat × List UInt8 × Nat × Nat :=
  (report.place, report.name, report.ino, report.dType)

/-- What a report about an entry should say. -/
def entryData (bytes : ByteMem) (o : Nat) : Nat × List UInt8 × Nat × Nat :=
  (o, entryName bytes o, entryInode bytes o, entryFileType bytes o)

def liveEntries (bytes : ByteMem) (offsets : List Nat) : List Nat :=
  offsets.filter fun o => entryInode bytes o ≠ 0

theorem seenEntries_prefix : seenEntries bytes blockSize offsets <+: liveEntries bytes offsets := by
  induction offsets with
  | nil => exact List.prefix_rfl
  | cons o rest ih =>
    rw [seenEntries, liveEntries]
    by_cases live : entryInode bytes o ≠ 0 ∧ o + 12 < blockSize
    · rw [List.takeWhile_cons_of_pos (by simpa using live),
        List.filter_cons_of_pos (by simpa using live.1)]
      exact List.cons_prefix_cons.mpr ⟨rfl, ih⟩
    · rw [List.takeWhile_cons_of_neg (by simpa using live)]
      exact List.nil_prefix

/-- One listing reports the first entries that it meets. -/
theorem readdirScan_records {start : Nat}
    (tiles : Tiles id (entryRecLen bytes) start offsets blockSize)
    (formed : ∀ o ∈ offsets, 1 ≤ entryNameLen bytes o ∧ entryNameLen bytes o ≤ 255 ∧
      9 + entryNameLen bytes o ≤ entryRecLen bytes o)
    (count fPos : Nat) (taken : List DirReport) :
    ∃ last rest reports,
      readdirScan ⟨blockSize, bytes⟩ blockSize acceptSome start fPos (count, taken) =
        some (last, rest, taken ++ reports) ∧
      reports.map DirReport.entry =
        ((seenEntries bytes blockSize offsets).take count).map (entryData bytes) := by
  induction offsets generalizing start count fPos taken with
  | nil =>
    obtain rfl : start = blockSize := tiles
    exact ⟨fPos, count, [], by rw [readdirScan_end _ _ _ _ (by omega), List.append_nil],
      by simp [seenEntries]⟩
  | cons o rest ih =>
    obtain ⟨here, later⟩ := tiles
    obtain rfl : o = start := here
    obtain ⟨positive, few, covers⟩ := formed o List.mem_cons_self
    have bound := later.le
    by_cases live : entryInode bytes o ≠ 0 ∧ o + 12 < blockSize
    · rw [seenEntries, List.takeWhile_cons_of_pos (by simpa using live),
        readdirScan_step _ _ _ live.2, if_neg (not_or.mpr ⟨live.1, by omega⟩),
        Buffer.read_inside (by dsimp only; omega), Option.bind_some, Nat.min_eq_left few]
      cases count with
      | zero => exact ⟨fPos, 0, [], by simp [acceptSome], rfl⟩
      | succ more =>
        -- The entry is taken, and the scan goes on behind it.
        let report : DirReport := ⟨o, entryName bytes o, entryNameLen bytes o, fPos,
          entryInode bytes o, entryFileType bytes o⟩
        obtain ⟨last, left, reports, scanned, said⟩ :=
          ih later (fun p member => formed p (List.mem_cons_of_mem _ member)) more
            (wrap64 (fPos + entryRecLen bytes o)) (taken ++ [report])
        refine ⟨last, left, report :: reports, ?_, ?_⟩
        · rw [List.append_cons]
          exact scanned
        · rw [List.map_cons, said]
          rfl
    · rw [seenEntries, List.takeWhile_cons_of_neg (by simpa using live)]
      refine ⟨fPos, count, [], ?_, by simp⟩
      rw [List.append_nil]
      by_cases inside : o + 12 < blockSize
      · have deleted : entryInode bytes o = 0 := by
          by_contra other
          exact live ⟨other, inside⟩
        rw [readdirScan_step _ _ _ inside, if_pos (.inl deleted)]
      · exact readdirScan_end _ _ _ _ inside

/-- A series reports the first entries again in every call. -/
theorem readdirSeries_reports (ready : DirReady env image sb fs dir info)
    (records : DirRecords (dirBlockBytes image fs info 0) fs.blockSize offsets) (counts : List Nat)
    (fPos : Nat) (taken : List DirReport) (world : FsWorld) :
    ∃ reports after, readdirSeries env sb dir counts fPos taken world = .ok (taken ++ reports, after) ∧
      reports.map DirReport.entry = (counts.flatMap fun count =>
        (seenEntries (dirBlockBytes image fs info 0) fs.blockSize offsets).take count).map
          (entryData (dirBlockBytes image fs info 0)) := by
  induction counts generalizing fPos taken world with
  | nil => exact ⟨[], world, by rw [List.append_nil]; rfl, rfl⟩
  | cons count counts ih =>
    obtain ⟨last, rest, first, scanned, said⟩ :=
      readdirScan_records records.tiles records.named count fPos taken
    obtain ⟨middle, done⟩ := ext2Readdir_quiet ready acceptSome fPos (count, taken) scanned world
    obtain ⟨more, after, goes, later⟩ := ih last (taken ++ first) middle
    refine ⟨first ++ more, after, ?_, ?_⟩
    · rw [readdirSeries, FsM.bind_ok done, ← List.append_assoc]
      exact goes
    grind

/-- Only one call takes anything, and no more than it can meet. -/
@[grind =] def OneCall (counts : List Nat) (seen live : List Nat) : Prop :=
  live = [] ∨ counts.sum = 0 ∨
    ∃ count, counts.filter (· ≠ 0) = [count] ∧ (count ≤ seen.length ∨ seen = live)

/-- Starts of a list that are put together are a start of a longer list, if and only if there is
only one of them. -/
theorem flatMap_take_iff {seen live : List Nat} (early : seen <+: live) (single : live.Nodup)
    (counts : List Nat) :
    (counts.flatMap fun count => seen.take count) = live.take counts.sum ↔
      OneCall counts seen live := by
  obtain ⟨tail, rfl⟩ := early
  -- Calls that take nothing change nothing.
  have skip : (counts.flatMap fun count => seen.take count) =
        ((counts.filter (· ≠ 0)).flatMap fun count => seen.take count) ∧
      counts.sum = (counts.filter (· ≠ 0)).sum := by
    induction counts with
    | nil => exact ⟨rfl, rfl⟩
    | cons count counts ih =>
      grind
  have positive : ∀ count ∈ counts.filter (· ≠ 0), count ≠ 0 := by simp
  rw [OneCall, skip.1, skip.2]
  generalize counts.filter (· ≠ 0) = nonzero at positive
  match nonzero with
  | [] => simp
  | [count] =>
    have takes : count ≠ 0 := positive count (by simp)
    simp only [List.flatMap_singleton, List.sum_singleton, List.take_append, takes, false_or,
      List.cons.injEq, and_true, exists_eq_left', List.self_eq_append_right,
      List.append_eq_nil_iff, List.take_eq_nil_iff]
    grind
  | first :: second :: rest =>
    have more : first ≠ 0 ∧ second ≠ 0 := ⟨positive first (by simp), positive second (by simp)⟩
    constructor
    · intro same
      cases seen with
      | nil =>
        have nothing : ((first :: second :: rest).flatMap fun count => List.take count []) =
            ([] : List Nat) := by simp
        grind
      | cons head seen =>
        -- The first entry would come twice.
        have once := single.sublist (List.take_sublist (first :: second :: rest).sum _)
        rw [← same] at once
        obtain ⟨m, rfl⟩ := Nat.exists_eq_succ_of_ne_zero more.1
        obtain ⟨n, rfl⟩ := Nat.exists_eq_succ_of_ne_zero more.2
        simp at once
    · rintro (empty | zero | ⟨count, alone, _⟩)
      · obtain ⟨rfl, rfl⟩ := List.append_eq_nil_iff.mp empty
        simp
      · simp at zero
        omega
      · simp at alone

/-- A series of listings reports the live entries once and in order, if and only if only one call
takes anything and it takes no entry behind a deleted one. -/
theorem readdirSeries_once_iff (ready : DirReady env image sb fs dir info)
    (records : DirRecords (dirBlockBytes image fs info 0) fs.blockSize offsets) (counts : List Nat)
    (fPos : Nat) (world : FsWorld) :
    (∃ reports after, readdirSeries env sb dir counts fPos [] world = .ok (reports, after) ∧
      reports.map DirReport.entry = ((liveEntries (dirBlockBytes image fs info 0) offsets).take
        counts.sum).map (entryData (dirBlockBytes image fs info 0))) ↔
      OneCall counts (seenEntries (dirBlockBytes image fs info 0) fs.blockSize offsets)
        (liveEntries (dirBlockBytes image fs info 0) offsets) := by
  obtain ⟨reports, after, done, said⟩ := readdirSeries_reports ready records counts fPos [] world
  generalize dirBlockBytes image fs info 0 = bytes at *
  have distinct : offsets.Nodup := by
    refine records.tiles.pairwise.imp_of_mem fun {o p} member _ apart equal => ?_
    have := records.long o member
    simp only [id] at apart
    omega
  rw [← flatMap_take_iff seenEntries_prefix (distinct.filter _) counts, done]
  have injective : Function.Injective (entryData bytes) := fun o p same => congrArg Prod.fst same
  constructor
  · rintro ⟨_, _, ⟨⟩, same⟩
    exact List.map_injective_iff.mpr injective (said.symm.trans same)
  grind

/-- Two entries are listed by one call. -/
theorem readdirSeries_once_iff_two :
    ∃ reports after, readdirSeries (quietEnv (twoEntries 11)) kilobyteSb
        (kilobyteInode 0o040000 1024 blockFiveInfo) [2] 0 [] bootWorld = .ok (reports, after) ∧
      reports.map DirReport.entry =
        ((liveEntries (dirBlockBytes (twoEntries 11) kilobyteFs blockFiveInfo 0) [0, 12]).take
          [2].sum).map (entryData (dirBlockBytes (twoEntries 11) kilobyteFs blockFiveInfo 0)) :=
  have blocks := twoEntries_blocks (.inr rfl)
  (readdirSeries_once_iff (blocks.ready (by decide)) (blocks.formed 0 (by decide)) [2] 0
    bootWorld).mpr (.inr (.inr ⟨2, rfl, .inl (by decide +kernel)⟩))

/-- Two calls for one entry each both report the first entry. -/
theorem readdirSeries_repeats :
    ∃ reports after, readdirSeries (quietEnv (twoEntries 11)) kilobyteSb
        (kilobyteInode 0o040000 1024 blockFiveInfo) [1, 1] 0 [] bootWorld = .ok (reports, after) ∧
      reports.map DirReport.place = [0, 0] := by
  have blocks := twoEntries_blocks (.inr rfl)
  obtain ⟨reports, after, done, said⟩ := readdirSeries_reports (blocks.ready (by decide))
    (blocks.formed 0 (by decide)) [1, 1] 0 [] bootWorld
  refine ⟨reports, after, done, ?_⟩
  have places := congrArg (List.map Prod.fst) said
  rw [List.map_map] at places
  exact places.trans (by decide +kernel)

end Series

end Ccos
