import KmsCluster.Auth
import KmsCluster.BlobFile
import KmsCluster.Lib.Runs

/-!
# The master baseline

Model of `baseline_path` and `check_master_baseline` (`src/metrics.rs`) over the files of a node:
the file in which a node remembers the first master it formed with. In a run the node checks
masters and persists its sealed share next to the baseline; every call on files may fail.

## Main results

- `hexEncode_inj`: the text of a master gives the master.
- `Recorded.step`: a recorded baseline is not written again.
- `baseline_write_once`: what every later call of a run returns.
-/

namespace KmsCluster.Baseline

open Runs Seal

-- ════════════════════════════════════════════════════════════════════════
-- Paths
-- ════════════════════════════════════════════════════════════════════════

/-- The end of a path without separators and `.` components, read from the last character. -/
def trimRight : List Char → List Char
  | ['/'] => ['/']
  | '/' :: rest => trimRight rest
  | '.' :: '/' :: rest => trimRight ('/' :: rest)
  | chars => chars

/-- `Path::file_name`. -/
def fileName (path : String) : Option String :=
  let last := (trimRight path.toList.reverse).takeWhile (· ≠ '/')
  if last = [] ∨ last = ['.'] ∨ last = ['.', '.'] then none else some (String.ofList last.reverse)

/-- `Path::parent` of a path that has a file name. -/
def parent (path : String) : String :=
  String.ofList (trimRight ((trimRight path.toList.reverse).dropWhile (· ≠ '/'))).reverse

/-- `PathBuf::push` of a relative path. -/
def push (path name : String) : String :=
  if path.toList = [] ∨ path.toList.getLast? = some '/' then path ++ name else path ++ "/" ++ name

/-- `Path::with_file_name`. -/
def withFileName (path name : String) : String :=
  if (fileName path).isSome then push (parent path) name else push path name

/-- Filename of the master baseline. -/
def baselineFile : String := "master.baseline"

/-- Where the baseline lives: alongside the sealed share. -/
def baselinePath (sealedSharePath : Option String) : Option String :=
  sealedSharePath.map (withFileName · baselineFile)

/-- A path that ends in a segment of the baseline's name. -/
theorem fileName_of_reverse {path : String} {rest : List Char}
    (hpath : path.toList.reverse = baselineFile.toList.reverse ++ rest)
    (hrest : rest = [] ∨ rest.head? = some '/') : fileName path = some baselineFile := by
  have htrim : trimRight path.toList.reverse = baselineFile.toList.reverse ++ rest := by
    rw [hpath]
    rfl
  have hlast : (baselineFile.toList.reverse ++ rest).takeWhile (· ≠ '/') =
      baselineFile.toList.reverse := by
    have hname : ∀ c ∈ baselineFile.toList.reverse, (decide (c ≠ '/')) = true :=
      List.all_eq_true.mp rfl
    rw [List.takeWhile_append_of_pos hname]
    cases rest with
    | nil => simp
    | cons c cs =>
      obtain hnil | hhead := hrest
      · cases hnil
      · cases hhead
        simp
  rw [fileName, htrim, hlast]
  rfl

theorem push_reverse (path : String) : ∃ rest, (rest = [] ∨ rest.head? = some '/') ∧
    (push path baselineFile).toList.reverse = baselineFile.toList.reverse ++ rest := by
  unfold push
  split
  · next hsep =>
    refine ⟨path.toList.reverse, ?_, by simp⟩
    rcases hsep with hnil | hlast
    · exact .inl (by rw [hnil]; rfl)
    · exact .inr (by rw [List.head?_reverse]; exact hlast)
  · exact ⟨'/' :: path.toList.reverse, .inr rfl, by simp⟩

theorem withFileName_reverse (path : String) : ∃ rest, (rest = [] ∨ rest.head? = some '/') ∧
    (withFileName path baselineFile).toList.reverse = baselineFile.toList.reverse ++ rest := by
  unfold withFileName
  split
  · exact push_reverse _
  · exact push_reverse _

/-- Next to a file of another name, the baseline is another file. -/
theorem withFileName_ne {path : String} (h : fileName path ≠ some baselineFile) :
    withFileName path baselineFile ≠ path := by
  intro heq
  obtain ⟨rest, hrest, hreverse⟩ := withFileName_reverse path
  rw [heq] at hreverse
  exact h (fileName_of_reverse hreverse hrest)

theorem withFileName_ne_tmpPath (path other : String) :
    withFileName path baselineFile ≠ tmpPath other := by
  intro heq
  obtain ⟨rest, -, hreverse⟩ := withFileName_reverse path
  have htmp : (tmpPath other).toList.reverse = ".tmp".toList.reverse ++ other.toList.reverse := by
    simp [tmpPath]
  rw [heq, htmp] at hreverse
  have hlast : 'p' = 'e' := (List.cons.inj hreverse).1
  revert hlast
  decide

-- ════════════════════════════════════════════════════════════════════════
-- The text of a master
-- ════════════════════════════════════════════════════════════════════════

theorem isWhitespace_hexChar {n : ℕ} (h : n < 16) : isWhitespace (hexChar n) = false := by
  revert n
  decide

theorem hexEncode_inj {a b : Bytes} (h : hexEncode a = hexEncode b) : a = b := by
  have hdecoded := congrArg hexDecode h
  rw [hexDecode_hexEncode, hexDecode_hexEncode] at hdecoded
  exact Option.some.inj hdecoded

theorem solid_hexEncode {master : Bytes} (h : master ≠ []) : Solid (hexEncode master) where
  ne_nil := by
    cases master with
    | nil => exact absurd rfl h
    | cons b bs => simp [hexEncode]
  isWhitespace_eq := by
    intro c hc
    rw [hexEncode, String.toList_ofList, List.mem_flatMap] at hc
    obtain ⟨b, -, hc⟩ := hc
    have hb : b.toNat < 256 := b.toNat_lt
    simp only [List.mem_cons, List.not_mem_nil, or_false] at hc
    rcases hc with rfl | rfl
    · exact isWhitespace_hexChar (by omega)
    · exact isWhitespace_hexChar (by omega)

-- ════════════════════════════════════════════════════════════════════════
-- The check
-- ════════════════════════════════════════════════════════════════════════

/-- The files of a node, and the `master_matches_baseline` it reports. -/
structure Node where
  files : Files
  masterMatchesBaseline : ℤ

/-- How the calls on files of one check end. -/
structure CheckFate where
  readFailure : Option String
  write : BlobFate

/-- Record the master on first formation, and check the live one against it later. -/
def checkMasterBaseline (s : Node) (fate : CheckFate) (path : Option String)
    (liveMaster : Bytes) : Node × ℤ :=
  match baselinePath path with
  | none => (s, -1)
  | some path =>
    let live := hexEncode liveMaster
    match readBlobFile (onDisk s.files fate.readFailure) path with
    | .ok (some recorded) =>
      let verdict := if recorded = live then 1 else 0
      (⟨s.files, verdict⟩, verdict)
    | .ok none =>
      match writeBlobFile s.files fate.write path live with
      | (files, .ok ()) => (⟨files, 1⟩, 1)
      | (files, .error _) => (⟨files, -1⟩, -1)
    | .error _ => (⟨s.files, -1⟩, -1)

/-- What a node does with the files next to its share. -/
inductive Call where
  | check (fate : CheckFate) (liveMaster : Bytes)
  /-- `store_share` persists the sealed share. -/
  | persist (fate : BlobFate) (b64 : String)

def step (sharePath : String) (s : Node) : Call → Option Node
  | .check fate liveMaster => some (checkMasterBaseline s fate (some sharePath) liveMaster).1
  | .persist fate b64 =>
    some ⟨(writeBlobFile s.files fate sharePath b64).1, s.masterMatchesBaseline⟩

-- ════════════════════════════════════════════════════════════════════════
-- A recorded baseline
-- ════════════════════════════════════════════════════════════════════════

/-- The baseline file next to the share holds the text of `first`. -/
def Recorded (sharePath : String) (first : Bytes) (s : Node) : Prop :=
  s.files (withFileName sharePath baselineFile) = some (utf8 (hexEncode first))

/-- The check finds no baseline, and records its master. -/
def Records (sharePath : String) (s : Node) (fate : CheckFate) (first : Bytes) : Prop :=
  readBlobFile (onDisk s.files fate.readFailure) (withFileName sharePath baselineFile) = .ok none ∧
    (checkMasterBaseline s fate (some sharePath) first).2 = 1

variable {sharePath : String} {first : Bytes} {s s' : Node}

theorem Records.recorded {fate : CheckFate} (h : Records sharePath s fate first) :
    Recorded sharePath first (checkMasterBaseline s fate (some sharePath) first).1 := by
  obtain ⟨hread, hverdict⟩ := h
  have hpath := writeBlobFile_path s.files fate.write (withFileName sharePath baselineFile)
    (hexEncode first)
  simp only [checkMasterBaseline, baselinePath, Option.map_some, hread] at hverdict
  simp only [Recorded, checkMasterBaseline, baselinePath, Option.map_some, hread]
  split
  · next files hwritten =>
    rw [hwritten] at hpath
    exact hpath
  · next files e hfailed =>
    rw [hfailed] at hverdict
    cases hverdict

/-- What a check does once the baseline is recorded. -/
theorem Recorded.check_eq (h : Recorded sharePath first s) (hfirst : first ≠ [])
    (fate : CheckFate) (live : Bytes) : ∃ verdict,
      checkMasterBaseline s fate (some sharePath) live = (⟨s.files, verdict⟩, verdict) ∧
      verdict = match fate.readFailure with
        | some _ => -1
        | none => if live = first then 1 else 0 := by
  cases hfailure : fate.readFailure with
  | some e =>
    refine ⟨-1, ?_, rfl⟩
    simp only [checkMasterBaseline, baselinePath, Option.map_some, hfailure, readBlobFile_failed]
  | none =>
    have hread := readBlobFile_utf8 (solid_hexEncode hfirst) h
    refine ⟨if hexEncode first = hexEncode live then 1 else 0, ?_, ?_⟩
    · simp only [checkMasterBaseline, baselinePath, Option.map_some, hfailure, hread]
    · by_cases hlive : live = first
      · rw [if_pos (by rw [hlive]), if_pos hlive]
      · rw [if_neg fun heq => hlive (hexEncode_inj heq).symm, if_neg hlive]

theorem Recorded.step (h : Recorded sharePath first s) (hfirst : first ≠ [])
    (hname : fileName sharePath ≠ some baselineFile) {call : Call}
    (hstep : Baseline.step sharePath s call = some s') : Recorded sharePath first s' := by
  cases call with
  | check fate live =>
    obtain ⟨verdict, hcheck, -⟩ := h.check_eq hfirst fate live
    cases hstep
    rw [hcheck]
    exact h
  | persist fate b64 =>
    cases hstep
    exact (writeBlobFile_other (withFileName_ne hname)
      (withFileName_ne_tmpPath sharePath sharePath)).trans h

/-- For every share of another file name, every master that a check records, whatever the files hold
    before, and every later run in which calls on files fail as they like: the baseline stays the
    text of that master, and a check returns `-1` if its read fails, else `1` for the same master
    and `0` for any other. -/
theorem baseline_write_once (hname : fileName sharePath ≠ some baselineFile) (hfirst : first ≠ [])
    {fate : CheckFate} (hrecords : Records sharePath s fate first) {calls : List Call}
    (hrun : exec (Baseline.step sharePath) (checkMasterBaseline s fate (some sharePath) first).1
      calls = some s') :
    s'.files (withFileName sharePath baselineFile) = some (utf8 (hexEncode first)) ∧
    ∀ (fate' : CheckFate) (live : Bytes),
      (checkMasterBaseline s' fate' (some sharePath) live).2 =
        match fate'.readFailure with
        | some _ => -1
        | none => if live = first then 1 else 0 := by
  have hrecorded : Recorded sharePath first s' :=
    exec_invariant (fun _ _ _ hI hstep => hI.step hfirst hname hstep) hrecords.recorded hrun
  refine ⟨hrecorded, fun fate' live => ?_⟩
  obtain ⟨verdict, hcheck, hverdict⟩ := hrecorded.check_eq hfirst fate' live
  rw [hcheck]
  exact hverdict

/-- All calls on files succeed. -/
def allDone : BlobFate := ⟨.done, none⟩

/-- A node whose volume is empty. -/
def fresh : Node := ⟨fun _ => none, -1⟩

/-- After a share that was persisted and a check that could not read, another master is told from
    the first one. -/
theorem baseline_write_once_fork : ∃ s',
    exec (Baseline.step "/data/share.sealed")
      (checkMasterBaseline fresh ⟨none, allDone⟩ (some "/data/share.sealed") [1]).1
      [.persist allDone "S01TUwE", .check ⟨some "permission denied", allDone⟩ [2]] = some s' ∧
    s'.files "/data/master.baseline" = some (utf8 "01") ∧
    (checkMasterBaseline s' ⟨none, allDone⟩ (some "/data/share.sealed") [2]).2 = 0 := by
  have hrecords : Records "/data/share.sealed" fresh ⟨none, allDone⟩ [1] := ⟨rfl, rfl⟩
  have hrun := @baseline_write_once "/data/share.sealed" [1] fresh _ (by decide) (by decide)
    ⟨none, allDone⟩ hrecords
    [.persist allDone "S01TUwE", .check ⟨some "permission denied", allDone⟩ [2]] rfl
  refine ⟨_, rfl, ?_, ?_⟩
  · exact hrun.1
  · exact hrun.2 ⟨none, allDone⟩ [2]

end KmsCluster.Baseline
